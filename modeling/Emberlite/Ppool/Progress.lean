import Emberlite.Lib.Potential
import Emberlite.Ppool.PoolRun
import Mathlib.Algebra.BigOperators.Group.Finset.Basic
import Mathlib.Algebra.GroupWithZero.Nat
import Mathlib.Algebra.Order.BigOperators.Group.Finset

/-! Where the runs of a pool end. A step brings a worker closer to its sleep, or a call closer to its return, so that
    a run is no longer than its calls and its spurious wake-ups allow. -/

namespace Emberlite
namespace Ppool

/-- What a step is about. -/
inductive Event (W : Type) where
  /-- `ppool_add` is called. -/
  | begin (c : Nat)
  | call (c : Nat)
  | spurious (w : W)
  /-- The task that call `c` added returns. -/
  | ran (c : Nat)
  | worker (w : W)

/-- The call that an event begins. -/
def Event.begun {W : Type} : Event W → Option Nat
  | .begin c => some c
  | .call _ | .spurious _ | .ran _ | .worker _ => none

/-- The call whose task an event has run. -/
def Event.finished {W : Type} : Event W → Option Nat
  | .ran c => some c
  | .begin _ | .call _ | .spurious _ | .worker _ => none

/-- The calls that were made. -/
def begun {W : Type} (events : List (Event W)) : List Nat := events.filterMap Event.begun

/-- The calls whose tasks were run, once for each run. -/
def finished {W : Type} (events : List (Event W)) : List Nat := events.filterMap Event.finished

/-- A wake-up that nobody sent. -/
def Event.Spurious {W : Type} : Event W → Bool
  | .spurious _ => true
  | .begin _ | .call _ | .ran _ | .worker _ => false

section Runs
variable {W : Type} [DecidableEq W]

/-- The steps of a pool with what they are about. -/
inductive Does (args : Nat → Option PoolTask) : Pool W → Event W → Pool W → Prop
  | begin {s t : Pool W} {c : Nat} : s.calls c = .idle → CallStep (args c) c s t → Does args s (.begin c) t
  | call {s t : Pool W} {c : Nat} : s.calls c ≠ .idle → CallStep (args c) c s t → Does args s (.call c) t
  | spurious {s t : Pool W} {w : W} : s.workers w = .waiting → WorkerStep w s t → Does args s (.spurious w) t
  | ran {s t : Pool W} {w : W} {a : Addr} : s.workers w = .run a → WorkerStep w s t →
      Does args s (.ran (s.ticket a)) t
  | worker {s t : Pool W} {w : W} : s.workers w ≠ .waiting → (∀ a, s.workers w ≠ .run a) → WorkerStep w s t →
      Does args s (.worker w) t

/-- A step that leaves fewer than 2^31 tasks pending. -/
def Moves (args : Nat → Option PoolTask) (s : Pool W) (e : Event W) (t : Pool W) : Prop :=
  Does args s e t ∧ t.pending.length < 2 ^ 31

/-- The runs of a pool from `ppool_init` on. -/
abbrev RunOf (args : Nat → Option PoolTask) (events : List (Event W)) (s : Pool W) : Prop :=
  Potential.Run (Moves args) Pool.init events s

/-- Only a new call or a spurious wake-up can move the pool. -/
def Pool.Rests (args : Nat → Option PoolTask) (s : Pool W) : Prop :=
  Potential.Quiet (Does args) (fun e => e.begun.isSome ∨ e.Spurious) s

variable {args : Nat → Option PoolTask} {s t : Pool W} {as : List Addr} {events : List (Event W)}

theorem step_iff_does : Step args s t ↔ ∃ e, Does args s e t := by
  constructor
  · rintro (⟨w, hw⟩ | ⟨c, hc⟩)
    · by_cases hwait : s.workers w = .waiting
      · exact ⟨_, .spurious hwait hw⟩
      · by_cases hrun : ∃ a, s.workers w = .run a
        · obtain ⟨a, ha⟩ := hrun
          exact ⟨_, .ran ha hw⟩
        · exact ⟨_, .worker hwait (not_exists.mp hrun) hw⟩
    · by_cases hidle : s.calls c = .idle
      · exact ⟨_, .begin hidle hc⟩
      · exact ⟨_, .call hidle hc⟩
  · rintro ⟨e, _ | _ | _ | _ | _⟩
    · exact .call _ ‹_›
    · exact .call _ ‹_›
    · exact .worker _ ‹_›
    · exact .worker _ ‹_›
    · exact .worker _ ‹_›

end Runs

/-! ### How long a run is -/

/-- How many steps a worker may take before it sleeps, when it finds no task. -/
def WorkerPc.level : WorkerPc → Nat
  | .waiting => 0
  | .getTask => 6
  | .check => 7
  | .lock | .woken => 8
  | .free _ | .unlock none => 9
  | .run _ => 10
  | .unlock (some _) => 11

/-- How many steps a call may cause before it returns, with this many workers to wake. -/
def CallPc.level (workers : Nat) : CallPc → Nat
  | .returned _ => 0
  | .unlock => 1
  | .broadcast => 2 + 8 * workers
  | .insert _ => 9 + 8 * workers
  | .lock _ => 10 + 8 * workers
  | .idle => 11 + 8 * workers

/-- A spurious wake-up pays for the way back to sleep. -/
def Event.pay {W : Type} (e : Event W) : Nat := if e.Spurious then 9 else 0

section Level
variable {W : Type} {args : Nat → Option PoolTask} {s t : Pool W} {as : List Addr} {cs : Finset Nat}

theorem DataInv.length_linked (h : DataInv args s as) : s.linked.length = as.length + s.taken.length := by
  have hlength := h.perm.length_eq
  rw [List.length_append, List.length_map, List.length_map] at hlength
  exact hlength.symm

theorem sum_pay (events : List (Event W)) : (events.map Event.pay).sum = 9 * events.countP Event.Spurious := by
  induction events with
  | nil => rfl
  | cons e events ih =>
    rw [List.map_cons, List.sum_cons, ih, List.countP_cons, Event.pay]
    split <;> omega

/-- A call that is not idle was begun. -/
def Pool.Within (s : Pool W) (cs : Finset Nat) : Prop := ∀ c, s.calls c ≠ .idle → c ∈ cs

theorem within_setCall {c : Nat} {pc : CallPc} (h : s.Within cs) (hc : c ∈ cs)
    (hcalls : t.calls = Function.update s.calls c pc) : t.Within cs := by
  intro d hd
  by_cases hdc : d = c
  · exact hdc ▸ hc
  · rw [hcalls, Function.update_of_ne hdc] at hd
    exact h d hd

theorem calls_callStep {c : Nat} {task : Option PoolTask} (hs : CallStep task c s t) :
    ∃ pc, t.calls = Function.update s.calls c pc := by
  cases hs <;> exact ⟨_, rfl⟩

variable [Fintype W]

/-- The steps that are left to the calls `cs`, the workers and the tasks that no worker has taken. -/
def Pool.level (s : Pool W) (cs : Finset Nat) : Nat :=
  (∑ c ∈ cs, (s.calls c).level (Fintype.card W)) + (∑ w, (s.workers w).level) +
    6 * (s.linked.length - s.taken.length)

/-- A call moves. -/
theorem level_call {c : Nat} {pc : CallPc} {n : Nat} (hc : c ∈ cs) (hcalls : t.calls = Function.update s.calls c pc)
    (hworkers : ∑ w, (t.workers w).level ≤ (∑ w, (s.workers w).level) + n) (htaken : t.taken = s.taken)
    (hlevel : pc.level (Fintype.card W) + n + 6 * t.linked.length + 1 ≤
      (s.calls c).level (Fintype.card W) + 6 * s.linked.length) (hle : s.taken.length ≤ s.linked.length)
    (hgrow : s.linked.length ≤ t.linked.length) :
    t.level cs + 1 ≤ s.level cs := by
  have hsum := Potential.sum_update (CallPc.level (Fintype.card W)) s.calls pc hc
  rw [← hcalls] at hsum
  unfold Pool.level
  rw [htaken]
  omega

theorem sum_wakeAll (workers : W → WorkerPc) :
    ∑ w, (wakeAll workers w).level ≤ (∑ w, (workers w).level) + 8 * Fintype.card W := by
  have hone : ∀ w, (wakeAll workers w).level ≤ (workers w).level + 8 := by
    intro w
    unfold wakeAll
    split
    · exact Nat.le_add_left _ _
    · exact Nat.le_add_right _ _
  calc ∑ w, (wakeAll workers w).level ≤ ∑ w, ((workers w).level + 8) := Finset.sum_le_sum fun w _ => hone w
    _ = (∑ w, (workers w).level) + 8 * Fintype.card W := by
      rw [Finset.sum_add_distrib, Finset.sum_const_nat fun _ _ => rfl, Finset.card_univ, Nat.mul_comm]

theorem callStep_level {c : Nat} (h : Inv args s as) (hs : CallStep (args c) c s t) (hc : c ∈ cs) :
    t.level cs + 1 ≤ s.level cs := by
  have hle : s.taken.length ≤ s.linked.length := by
    rw [h.data.length_linked]
    exact Nat.le_add_left _ _
  cases hs with
  | refuse hpc | new hpc | lock hpc | unlock hpc =>
    refine level_call (n := 0) hc rfl (Nat.le_refl _) rfl ?_ hle ?_
    · simp only [hpc, CallPc.level, Pool.setCall]
      omega
    · exact Nat.le_refl _
  | insert hpc =>
    refine level_call (n := 0) hc rfl (Nat.le_refl _) rfl ?_ hle ?_
    · simp only [hpc, CallPc.level, List.length_append, List.length_cons, List.length_nil]
      omega
    · simp
  | broadcast hpc =>
    refine level_call hc rfl (sum_wakeAll s.workers) rfl ?_ hle ?_
    · simp only [hpc, CallPc.level, Pool.setCall]
      omega
    · exact Nat.le_refl _

theorem level_init (cs : Finset Nat) :
    (Pool.init : Pool W).level cs = cs.card * (11 + 8 * Fintype.card W) + 8 * Fintype.card W := by
  have hcalls : ∑ c ∈ cs, ((Pool.init : Pool W).calls c).level (Fintype.card W) =
      cs.card * (11 + 8 * Fintype.card W) := Finset.sum_const_nat fun _ _ => rfl
  have hworkers : ∑ w, ((Pool.init : Pool W).workers w).level = Fintype.card W * 8 :=
    Finset.sum_const_nat fun _ _ => rfl
  rw [Pool.level, hcalls, hworkers]
  simp only [Pool.init, List.length_nil]
  omega

variable [DecidableEq W]

/-- A worker moves and takes no task. -/
theorem level_worker {w : W} {pc : WorkerPc} {pay : Nat} (hworkers : t.workers = Function.update s.workers w pc)
    (hcalls : t.calls = s.calls) (hlinked : t.linked = s.linked) (htaken : t.taken = s.taken)
    (hlevel : pc.level + 1 ≤ (s.workers w).level + pay) : t.level cs + 1 ≤ s.level cs + pay := by
  have hsum := Potential.sum_update WorkerPc.level s.workers pc (Finset.mem_univ w)
  rw [← hworkers] at hsum
  unfold Pool.level
  rw [hcalls, hlinked, htaken]
  omega

theorem level_getTask {w : W} {a b : Addr} {rest : List Addr} {queue : PoolQueue} (h : DataInv args s (a :: rest))
    (hw : s.workers w = .getTask) :
    { s.setWorker w (.unlock (some b)) with queue, taken := s.taken ++ [(w, s.ticket b)] }.level cs + 1 ≤
      s.level cs := by
  have hlength := h.length_linked
  have hsum := Potential.sum_update WorkerPc.level s.workers (.unlock (some b)) (Finset.mem_univ w)
  have hbefore : (s.workers w).level = 6 := by rw [hw, WorkerPc.level]
  have hafter : (WorkerPc.unlock (some b)).level = 11 := rfl
  simp only [Pool.level, Pool.setWorker, List.length_append, List.length_cons, List.length_nil] at hlength ⊢
  omega

theorem workerStep_level {w : W} (h : Inv args s as) (hs : WorkerStep w s t) (cs : Finset Nat) :
    t.level cs + 1 ≤ s.level cs + if s.workers w = .waiting then 9 else 0 := by
  cases hs with
  | lock hw | check hw | wait hw | spurious hw | relock hw | unlockTask hw | run hw | free hw =>
    refine level_worker rfl rfl rfl rfl ?_
    simp [hw, WorkerPc.level]
  | getTask hw hget =>
    obtain ⟨a, rest, queue, rfl, hget', -⟩ := h.getTask hw
    rw [hget] at hget'
    cases hget'
    exact (level_getTask h.data hw).trans (Nat.le_add_right _ _)
  | unlockNull hw => exact (h.wake.got w hw).elim

omit [Fintype W] in
theorem within_workerStep {w : W} (h : s.Within cs) (hs : WorkerStep w s t) : t.Within cs := by
  cases hs <;> exact h

theorem does_level {e : Event W} (h : Inv args s as) (hwithin : s.Within cs)
    (hbegin : ∀ c, e.begun = some c → c ∈ cs) (hs : Does args s e t) :
    t.Within cs ∧ t.level cs + 1 ≤ s.level cs + e.pay := by
  cases hs with
  | @begin _ c _ hc =>
    obtain ⟨pc, hcalls⟩ := calls_callStep hc
    exact ⟨within_setCall hwithin (hbegin c rfl) hcalls, callStep_level h hc (hbegin c rfl)⟩
  | @call _ c hidle hc =>
    obtain ⟨pc, hcalls⟩ := calls_callStep hc
    exact ⟨within_setCall hwithin (hwithin c hidle) hcalls, callStep_level h hc (hwithin c hidle)⟩
  | spurious hwait hw =>
    have hlevel := workerStep_level h hw cs
    rw [if_pos hwait] at hlevel
    exact ⟨within_workerStep hwithin hw, hlevel⟩
  | ran hrun hw =>
    have hlevel := workerStep_level h hw cs
    rw [if_neg (by simp [hrun])] at hlevel
    exact ⟨within_workerStep hwithin hw, hlevel⟩
  | worker hwait _ hw =>
    have hlevel := workerStep_level h hw cs
    rw [if_neg hwait] at hlevel
    exact ⟨within_workerStep hwithin hw, hlevel⟩

/-- No run is longer than its calls and its spurious wake-ups allow. -/
theorem run_length_le {events : List (Event W)} (h : RunOf args events s) :
    events.length ≤ 8 * Fintype.card W + (begun events).length * (11 + 8 * Fintype.card W) +
      9 * events.countP Event.Spurious := by
  let cs : Finset Nat := (begun events).toFinset
  have hlevel := h.length_le (fun s => (∃ as, Inv args s as) ∧ s.Within cs) (fun s => s.level cs) Event.pay
    ⟨⟨[], init_inv⟩, fun c hc => absurd rfl hc⟩ ?_
  · rw [level_init, sum_pay] at hlevel
    have hcard : cs.card * (11 + 8 * Fintype.card W) ≤ (begun events).length * (11 + 8 * Fintype.card W) :=
      Nat.mul_le_mul_right _ (List.toFinset_card_le _)
    omega
  · rintro s e t he ⟨⟨as, hinv⟩, hwithin⟩ ⟨hs, hroom⟩
    have hbegin : ∀ c, e.begun = some c → c ∈ cs := fun c hc =>
      List.mem_toFinset.mpr (List.mem_filterMap.mpr ⟨e, he, hc⟩)
    obtain ⟨hwithin', hdrop⟩ := does_level hinv hwithin hbegin hs
    exact ⟨⟨step_inv hinv (step_iff_does.mpr ⟨e, hs⟩) hroom, hwithin'⟩, hdrop⟩

end Level

end Ppool
end Emberlite
