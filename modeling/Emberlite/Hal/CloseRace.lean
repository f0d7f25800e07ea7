import Emberlite.Hal.Descriptor

/-! A handle that is closed while calls on it are in flight and others open files, in any order of the steps. -/

namespace Emberlite
namespace Hal
namespace Descriptor
open Interleave

/-- Who runs: the calls on the handle, its close, and the other opens of the process. -/
inductive Party (C K : Type) where
  | io (c : C)
  | closer
  | opener (k : K)
  deriving DecidableEq

section Processes
variable {m : HalModule} {C K : Type} (call : C → IoCall m)

/-- Where each of them is. -/
abbrev Party.Local : Party C K → Type
  | .io c => (call c).Local
  | .closer => ClosePc
  | .opener _ => OpenPc

/-- What each of them runs. -/
def parties : (p : Party C K) → Thread ProcessCall ProcessCall.Result Status (p.Local call)
  | .io c => (call c).thread.lift .io fun _ res => res
  | .closer => halClose m
  | .opener _ => openCall

/-- The process, and where the calls are. -/
abbrev Processes (K : Type) := State (fun p : Party C K => p.Local call) Process

/-- A call that is about to issue a system call on a descriptor issues it on a number that the close has not closed,
    and that is open on the file of the handle. -/
def InTime (s : Processes call K) : Prop :=
  ∀ c req resume fd, (call c).thread.next (s.locals (.io c)) = .call req resume → req.fd = some fd →
    s.world.closed ≠ some fd ∧ 0 ≤ fd ∧ s.world.files fd.toNat = some .handle

/-- The condition on a step: the number is closed while no call holds a copy of it, and no call takes the mutex of a
    handle that is freed. -/
def Orderly (s : Processes call K) : ProcessCall → Prop
  | .close _ => ∀ c, (call c).copy (s.locals (.io c)) = none
  | .io .fetch => s.world.freed = false
  | _ => True

/-- The condition, on a step of any of them. -/
def orderly : Condition (fun p : Party C K => p.Local call) Process ProcessCall.Result := fun s _ req _ =>
  Orderly call s req

/-- Where the close is, and what it has done to the handle on descriptor `fd`. -/
def Stage (fd : Nat) (w : Process) : ClosePc → Prop
  | .take => w.field = fd ∧ w.closed = none ∧ w.freed = false
  | .close n => n = fd ∧ w.field = -1 ∧ w.closed = none ∧ w.freed = false
  | .free _ => w.field = -1 ∧ w.closed = some (fd : Int) ∧ w.freed = false
  | .ret _ => w.closed = some (fd : Int) ∧ w.freed = true

/-- What holds of the handle on descriptor `fd` in every state of an orderly run: the close is at one of its
    stages, a copy is the number `fd` and not closed yet, and `fd` is the handle's file until it is closed.
    -/
structure Inv (fd : Nat) (s : Processes call K) : Prop where
  stage : Stage fd s.world (s.locals .closer)
  copies : ∀ c n, (call c).copy (s.locals (.io c)) = some n → n = fd ∧ s.world.closed = none
  file : s.world.closed = none → s.world.files fd = some .handle

variable {call} {fd : Nat} {others : Nat → Bool} {s t : Processes call K} {p : Party C K} {req : ProcessCall}
  {res : req.Result}

theorem start_inv (call : C → IoCall m) (fd : Nat) (others : Nat → Bool) :
    Inv call fd (State.start (parties call) (Process.start fd others) : Processes call K) where
  stage := by
    have hentry : (halClose m).entry = .take := by cases m <;> rfl
    show Stage fd (Process.start fd others) (halClose m).entry
    rw [hentry]
    exact ⟨rfl, rfl, rfl⟩
  copies c n hcopy := by
    have hentry : (call c).copy (call c).thread.entry = some n := hcopy
    rw [(call c).copies.entry] at hentry
    cases hentry
  file _ := if_pos rfl

/-- Without the number closed, or with the field at -1, a fetch from a handle that is not freed is harmless. -/
theorem Stage.fetched {w : Process} {pc : ClosePc} (h : Stage fd w pc) (hfreed : w.freed = false) {n : Int}
    (hn : (if w.field < 0 then none else some w.field) = some n) : n = fd ∧ w.closed = none := by
  cases pc with
  | take =>
    obtain ⟨hfield, hclosed, -⟩ := h
    rw [hfield, if_neg (by omega)] at hn
    cases hn
    exact ⟨rfl, hclosed⟩
  | close =>
    rw [h.2.1] at hn
    cases hn
  | free =>
    rw [h.1] at hn
    cases hn
  | ret => cases hfreed.symm.trans h.2

theorem closer_next {pc : ClosePc} {resume : req.Result → ClosePc} (h : (halClose m).next pc = .call req resume) :
    (closeCall (m = .uart)).next pc = .call req resume := by
  cases m <;> exact h

theorem Inv.closed_of_freed (hinv : Inv call fd s) (hfreed : s.world.freed = true) :
    s.world.closed = some (fd : Int) := by
  have hstage := hinv.stage
  generalize s.locals .closer = pc at hstage
  cases pc with
  | take => cases hstage.2.2.symm.trans hfreed
  | close => cases hstage.2.2.2.symm.trans hfreed
  | free => exact hstage.2.1
  | ret => exact hstage.1

theorem Inv.inTime (hinv : Inv call fd s) : InTime call s := by
  intro c req resume n hnext hn
  obtain ⟨rfl, hclosed⟩ := hinv.copies c n ((call c).copies.issued hnext hn)
  refine ⟨?_, Int.natCast_nonneg fd, hinv.file hclosed⟩
  rw [hclosed]
  exact nofun

/-- A step of no I/O call that closes no number and no file keeps the invariant where the stage is right. -/
theorem Inv.of_stage (hinv : Inv call fd s) (hstage : Stage fd t.world (t.locals .closer))
    (hio : ∀ c, t.locals (.io c) = s.locals (.io c)) (hclosed : t.world.closed = s.world.closed)
    (hfiles : ∀ n, s.world.files n ≠ none → t.world.files n = s.world.files n) : Inv call fd t where
  stage := hstage
  copies c n hcopy := by
    rw [hio c] at hcopy
    rw [hclosed]
    exact hinv.copies c n hcopy
  file hopen := by
    rw [hclosed] at hopen
    have hfile := hinv.file hopen
    rw [hfiles fd (by rw [hfile]; exact nofun), hfile]

variable [DecidableEq C] [DecidableEq K]

theorem ioStep_inv (hinv : Inv call fd s) {c : C} (hstep : Step (parties call) (fun _ => ProcessEnv) s (.io c) req res t)
    (horderly : Orderly call s req) : Inv call fd t := by
  obtain ⟨resume, hnext, henv, hself, hother⟩ := hstep.elim
  obtain ⟨req', resume', hnext', heq⟩ := Thread.lift_call hnext
  cases heq
  have hcloser : t.locals .closer = s.locals .closer := hother .closer nofun
  have hworld : t.world = s.world ∧
      ∀ n, (call c).copy (resume' res) = some n → n = fd ∧ s.world.closed = none := by
    generalize t.world = world at henv
    cases henv with
    | fetch hfreed =>
      refine ⟨rfl, fun n hcopy => ?_⟩
      rw [(call c).copies.fetched hnext'] at hcopy
      exact hinv.stage.fetched hfreed hcopy
    | fetchFreed n hfreed => cases (show s.world.freed = false from horderly).symm.trans hfreed
    | io _ hfetch => exact ⟨rfl, fun n hcopy => hinv.copies c n ((call c).copies.kept hnext' hfetch res hcopy)⟩
  refine ⟨?_, fun d n hcopy => ?_, ?_⟩
  · rw [hworld.1, hother .closer nofun]
    exact hinv.stage
  · rw [hworld.1]
    by_cases hd : d = c
    · subst hd
      rw [hself] at hcopy
      exact hworld.2 n hcopy
    · rw [hother (.io d) fun h => hd (Party.io.inj h)] at hcopy
      exact hinv.copies d n hcopy
  · rw [hworld.1]
    exact hinv.file

theorem closerStep_inv (hinv : Inv call fd s) (hstep : Step (parties call) (fun _ => ProcessEnv) s .closer req res t)
    (horderly : Orderly call s req) : Inv call fd t := by
  obtain ⟨resume, hnext, henv, hself, hother⟩ := hstep.elim
  have hnext := closer_next hnext
  have hio : ∀ c, t.locals (.io c) = s.locals (.io c) := fun c => hother (.io c) nofun
  have hstage := hinv.stage
  generalize s.locals .closer = pc at hnext hstage
  generalize hworld : t.world = world at henv
  cases pc with
  | take =>
    cases hnext
    cases henv
    obtain ⟨hfield, hclosed, hfreed⟩ := hstage
    refine hinv.of_stage ?_ hio (by rw [hworld]) fun n _ => by rw [hworld]
    rw [hself, hworld]
    show Stage fd _ (if 0 ≤ s.world.field then .close s.world.field else .free .ok)
    rw [hfield, if_pos (Int.natCast_nonneg fd)]
    exact ⟨rfl, rfl, hclosed, hfreed⟩
  | close n =>
    cases hnext
    cases henv
    obtain ⟨rfl, hfield, -, hfreed⟩ := hstage
    refine ⟨?_, fun c n hcopy => ?_, ?_⟩
    · rw [hself, hworld]
      rcases res with errno | _
      · exact ⟨hfield, rfl, hfreed⟩
      · exact ⟨hfield, rfl, hfreed⟩
    · rw [hio c, horderly c] at hcopy
      cases hcopy
    · rw [hworld]
      exact nofun
  | free st =>
    cases hnext
    cases henv
    obtain ⟨-, hclosed, -⟩ := hstage
    refine hinv.of_stage ?_ hio (by rw [hworld]) fun n _ => by rw [hworld]
    rw [hself, hworld]
    exact ⟨hclosed, rfl⟩
  | ret st => cases hnext

theorem openerStep_inv (hinv : Inv call fd s) {k : K}
    (hstep : Step (parties call) (fun _ => ProcessEnv) s (.opener k) req res t) : Inv call fd t := by
  obtain ⟨resume, hnext, henv, hself, hother⟩ := hstep.elim
  have hio : ∀ c, t.locals (.io c) = s.locals (.io c) := fun c => hother (.io c) nofun
  have hnext : openCall.next (s.locals (.opener k)) = .call req resume := hnext
  have hworld : t.world.field = s.world.field ∧ t.world.closed = s.world.closed ∧ t.world.freed = s.world.freed ∧
      ∀ n, s.world.files n ≠ none → t.world.files n = s.world.files n := by
    generalize s.locals (.opener k) = pc at hnext
    generalize t.world = world at henv
    cases pc with
    | opening =>
      cases hnext
      cases henv with
      | openFile hleast =>
        refine ⟨rfl, rfl, rfl, fun n hn => Function.update_of_ne ?_ _ _⟩
        rintro rfl
        exact hn hleast.1
      | openFails => exact ⟨rfl, rfl, rfl, fun _ _ => rfl⟩
    | ret => cases hnext
  obtain ⟨hfield, hclosed, hfreed, hfiles⟩ := hworld
  refine hinv.of_stage ?_ hio hclosed hfiles
  rw [hother .closer nofun]
  have hstage := hinv.stage
  generalize s.locals .closer = pc at hstage
  cases pc <;> simpa only [Stage, hfield, hclosed, hfreed] using hstage

theorem run_inv (hrun : Run (parties call) (fun _ => ProcessEnv) (orderly call)
    (State.start (parties call) (Process.start fd others)) s) : Inv call fd s := by
  refine hrun.inv (start_inv call fd others) fun s t p req res hinv hstep horderly => ?_
  cases p with
  | io c => exact ioStep_inv hinv hstep horderly
  | closer => exact closerStep_inv hinv hstep horderly
  | opener k => exact openerStep_inv hinv hstep

/-- Once the number is closed, a call with a copy of it comes to issue a system call on it. -/
theorem late_soon {c : C} {n : Int} (hclosed : s.world.closed = some n)
    (hcopy : (call c).copy (s.locals (.io c)) = some n) :
    ∃ t, Run (parties call) (fun _ => ProcessEnv) (fun _ _ _ _ => True) s t ∧ ¬ InTime call t := by
  rcases (call c).copies.uses (s.locals (.io c)) with ⟨-, hnone⟩ | ⟨-, hnone, -⟩ | ⟨hnext, hsome, hfd, -⟩ |
    ⟨hnext, hsome, -, hnext', hfd, -⟩
  · cases hnone.symm.trans hcopy
  · cases hnone.symm.trans hcopy
  · cases hsome.symm.trans hcopy
    exact ⟨s, .refl, fun h => (h c _ _ n hnext hfd).1 hclosed⟩
  · rename_i resume _ req' resume'
    cases hsome.symm.trans hcopy
    have hstep : Step (parties call) (fun _ => ProcessEnv) s (.io c) _ _ _ :=
      .mk (Thread.lift_of_call hnext) (.io true nofun)
    have hnext'' : (call c).thread.next (Function.update s.locals (.io c) (resume true) (.io c)) =
        .call req' resume' := by
      rw [Function.update_self]
      exact hnext'
    exact ⟨_, Run.tail .refl hstep trivial, fun h => (h c req' resume' n hnext'' hfd).1 hclosed⟩

/-- The handle is freed, and what was its field may still be the number. -/
theorem late_of_freed (hinv : Inv call fd s) (hfreed : s.world.freed = true) {c : C} {resume : Int → (call c).Local}
    (hnext : (call c).thread.next (s.locals (.io c)) = .call .fetch resume) :
    ∃ t u, Step (parties call) (fun _ => ProcessEnv) s (.io c) (.io .fetch) (fd : Int) t ∧
      Run (parties call) (fun _ => ProcessEnv) (fun _ _ _ _ => True) t u ∧ ¬ InTime call u := by
  have hcopy : (call c).copy (Function.update s.locals (.io c) (resume (fd : Int)) (.io c)) = some (fd : Int) := by
    rw [Function.update_self, (call c).copies.fetched hnext, if_neg (Int.not_lt.mpr (Int.natCast_nonneg fd))]
  obtain ⟨u, hrun, hlate⟩ := late_soon (s := ⟨s.world, Function.update s.locals (.io c) (resume (fd : Int))⟩)
    (hinv.closed_of_freed hfreed) hcopy
  exact ⟨_, u, .mk (Thread.lift_of_call hnext) (.fetchFreed fd hfreed), hrun, hlate⟩

/-- The number is closed under a call that holds a copy. -/
theorem late_of_closed (hinv : Inv call fd s) {n : Int} {res : Except Errno Unit}
    (hstep : Step (parties call) (fun _ => ProcessEnv) s .closer (.close n) res t) {c : C}
    (hcopy : (call c).copy (s.locals (.io c)) ≠ none) :
    ∃ u, Run (parties call) (fun _ => ProcessEnv) (fun _ _ _ _ => True) t u ∧ ¬ InTime call u := by
  obtain ⟨resume, hnext, henv, -, hother⟩ := hstep.elim
  obtain ⟨n', hn'⟩ := Option.ne_none_iff_exists'.mp hcopy
  have hnumber : n = fd := by
    have hnext := closer_next hnext
    have hstage := hinv.stage
    generalize s.locals .closer = pc at hnext hstage
    cases pc with
    | take => cases hnext
    | close n =>
      cases hnext
      exact hstage.1
    | free => cases hnext
    | ret => cases hnext
  obtain rfl : n' = n := (hinv.copies c n' hn').1.trans hnumber.symm
  have hclosed : t.world.closed = some n' := by
    generalize t.world = world at henv
    cases henv
    rfl
  refine late_soon hclosed (c := c) ?_
  rw [hother (.io c) nofun]
  exact hn'

/-- In a run whose steps are orderly every call is in time. A step that is not can lead to a call that is late. -/
theorem run_in_time (hrun : Run (parties call) (fun _ => ProcessEnv) (orderly call)
    (State.start (parties call) (Process.start fd others)) s) :
    InTime call s ∧
      ∀ p req res t, Step (parties call) (fun _ => ProcessEnv) s p req res t → ¬ Orderly call s req →
        ∃ res' t' u, Step (parties call) (fun _ => ProcessEnv) s p req res' t' ∧
          Run (parties call) (fun _ => ProcessEnv) (fun _ _ _ _ => True) t' u ∧ ¬ InTime call u := by
  have hinv := run_inv hrun
  refine ⟨hinv.inTime, fun p req res t hstep hdisorder => ?_⟩
  obtain ⟨resume, hnext, -, -, -⟩ := hstep.elim
  cases p with
  | io c =>
    obtain ⟨req', resume', hnext', heq⟩ := Thread.lift_call hnext
    cases heq
    cases req' with
    | fetch =>
      obtain ⟨t', u, hfetch, hrun', hlate⟩ := late_of_freed hinv (Bool.eq_true_of_not_eq_false hdisorder) hnext'
      exact ⟨_, t', u, hfetch, hrun', hlate⟩
    | _ => exact absurd trivial hdisorder
  | closer =>
    cases req with
    | close n =>
      obtain ⟨c, hcopy⟩ := not_forall.mp hdisorder
      obtain ⟨u, hrun', hlate⟩ := late_of_closed hinv hstep hcopy
      exact ⟨res, t, u, hstep, hrun', hlate⟩
    | io call' =>
      have hnext := closer_next hnext
      generalize s.locals .closer = pc at hnext
      cases pc <;> cases hnext
    | _ => exact absurd trivial hdisorder
  | opener k =>
    have hnext : openCall.next (s.locals (.opener k)) = .call req resume := hnext
    generalize s.locals (.opener k) = pc at hnext
    cases pc with
    | opening =>
      cases hnext
      exact absurd trivial hdisorder
    | ret => cases hnext

end Processes

/-- Standard input, output and error. -/
def standard (k : Nat) : Bool := k < 3

/-- The number that was closed is the next that is given out. -/
theorem least_closed : IsLeast { k | Function.update (Process.start 3 standard).files 3 none k = none } 3 := by
  refine ⟨Function.update_self .., fun k hk => ?_⟩
  by_contra hlt
  have hk' : Function.update (Process.start 3 standard).files 3 none k = none := hk
  have hthree : k ≠ 3 := by omega
  have hother : standard k = true := decide_eq_true (by omega)
  rw [Function.update_of_ne hthree, Process.start] at hk'
  simp only [if_neg hthree, if_pos hother] at hk'
  cases hk'

/-- One receiver, and one who opens a file. -/
abbrev Receiver := Processes (fun _ : Unit => IoCall.canReceive (-1)) Unit

/-- The receiver has copied the number 3 when it is closed and given out again, and polls another's file. -/
theorem received_from_other :
    ¬ ∀ s : Receiver, Run (parties _) (fun _ => ProcessEnv) (fun _ _ _ _ => True)
      (State.start (parties _) (Process.start 3 standard)) s → InTime _ s := by
  intro hclaim
  have h₀ : Run (parties _) (fun _ => ProcessEnv) (fun _ _ _ _ => True) _
    (State.start (parties _) (Process.start 3 standard) : Receiver) := .refl
  have h₁ := h₀.tail (c := .io ()) (.mk rfl (.fetch rfl)) trivial
  have h₂ := h₁.tail (c := .closer) (.mk rfl .take) trivial
  have h₃ := h₂.tail (c := .closer) (.mk rfl (.close 3 (.ok ()))) trivial
  have h₄ := h₃.tail (c := .opener ()) (.mk rfl (.openFile least_closed)) trivial
  obtain ⟨-, -, hfile⟩ := hclaim _ h₄ () _ _ 3 rfl rfl
  cases hfile

/-- The receiver has given up before. -/
theorem run_in_time_turns : ∃ s : Receiver,
    Run (parties _) (fun _ => ProcessEnv) (orderly _) (State.start (parties _) (Process.start 3 standard)) s ∧
      s.world.files 3 = some .other ∧ InTime _ s := by
  have h₀ : Run (parties _) (fun _ => ProcessEnv) (orderly _) _
    (State.start (parties _) (Process.start 3 standard) : Receiver) := .refl
  have h₁ := h₀.tail (c := .io ()) (.mk rfl (.fetch rfl)) rfl
  have h₂ := h₁.tail (c := .io ()) (.mk rfl (.io PollResult.timedOut nofun)) trivial
  have h₃ := h₂.tail (c := .closer) (.mk rfl .take) trivial
  have h₄ := h₃.tail (c := .closer) (.mk rfl (.close 3 (.ok ()))) fun _ => rfl
  have h₅ := h₄.tail (c := .opener ()) (.mk rfl (.openFile least_closed)) trivial
  have h₆ := h₅.tail (c := .closer) (.mk rfl .free) trivial
  exact ⟨_, h₆, rfl, (run_in_time h₆).1⟩

end Descriptor
end Hal
end Emberlite
