import Emberlite.Hal.Input
import Mathlib.Data.List.Nodup

/-! Calls of `hal_input_read_event` on one handle, at the same time. -/

namespace Emberlite
namespace Hal
namespace InputEvents
open Interleave ByteOrder

/-- An event as the kernel lays it out. -/
def eventBytes (e : InputEvent) : List Byte :=
  littleEndian 8 e.timeSec ++ (littleEndian 8 e.timeUsec ++
    (littleEndian 2 e.type ++ (littleEndian 2 e.code ++ littleEndian 4 e.value)))

/-- The device: the events that have come, those that wait, and those that were read, with the call that read them. -/
structure Device (C : Type) where
  arrived : List InputEvent
  pending : List InputEvent
  taken : List (C × InputEvent)

/-- A device without events. -/
def Device.fresh {C : Type} : Device C := ⟨[], [], []⟩

/-- Events reach the device. -/
def Device.arrive {C : Type} (d : Device C) (events : List InputEvent) : Device C :=
  { d with arrived := d.arrived ++ events, pending := d.pending ++ events }

/-- `poll` reports a condition that the call takes for a failure. -/
def failed (r : Revents) : Bool := r.pollerr || r.pollhup || r.pollnval

/-- Errors of `poll` and `read`, other than the `EAGAIN` of a read that finds nothing. -/
def CallError (errno : Errno) : Prop := errno ≠ .none ∧ errno ≠ .eagain ∧ errno ≠ .etimedout

/-- A system call of call `c`, on a descriptor with `O_NONBLOCK`. -/
inductive DeviceEffect {C : Type} (c : C) : Device C → (req : Syscall) → req.Result → Device C → Prop
  | fetch {d : Device C} {fd : Int} : 0 ≤ fd → DeviceEffect c d .fetch fd d
  | pollReady {d : Device C} {fd timeout : Int} {events : PollEvents} {r : Revents} :
      d.pending ≠ [] ∨ failed r → DeviceEffect c d (.poll fd events timeout) (.ready r) d
  | pollTimedOut {d : Device C} {fd timeout : Int} {events : PollEvents} :
      0 ≤ timeout → DeviceEffect c d (.poll fd events timeout) .timedOut d
  | pollError {d : Device C} {fd timeout : Int} {events : PollEvents} {errno : Errno} :
      CallError errno → DeviceEffect c d (.poll fd events timeout) (.error errno) d
  | read {d : Device C} {fd : Int} {e : InputEvent} {rest : List InputEvent} : d.pending = e :: rest →
      DeviceEffect c d (.read fd inputEventSize) (.ok (eventBytes e))
        { d with pending := rest, taken := d.taken ++ [(c, e)] }
  | readNothing {d : Device C} {fd : Int} {count : Nat} : d.pending = [] →
      DeviceEffect c d (.read fd count) (.error .eagain) d
  | readError {d : Device C} {fd : Int} {count : Nat} {errno : Errno} : CallError errno →
      DeviceEffect c d (.read fd count) (.error errno) d

/-- Events may arrive after each system call. -/
def DeviceKernel {C : Type} (c : C) (d : Device C) (req : Syscall) (res : req.Result) (d' : Device C) : Prop :=
  ∃ u events, DeviceEffect c d req res u ∧ d' = u.arrive events

section Calls
variable {C : Type} (timeoutMs : C → Int)

/-- What each call runs. -/
abbrev readers (c : C) : Thread Syscall Syscall.Result (Status × Option InputEvent) InputReadPc :=
  halInputReadEvent (timeoutMs c)

/-- The device, and where the calls are. -/
abbrev ReadState (C : Type) : Type := State (fun _ : C => InputReadPc) (Device C)

/-- Every event that was read went to the one call that read it, in the order of arrival. -/
structure DeliveredOnce (s : ReadState C) : Prop where
  order : s.world.arrived = s.world.taken.map Prod.snd ++ s.world.pending
  distinct : (s.world.taken.map Prod.fst).Nodup
  delivered : ∀ c e, (c, e) ∈ s.world.taken ↔ Returned (readers timeoutMs) s c (.ok, some e)

/-- No call that is to wait for an event has returned without one for lack of time. -/
def NeverTimesOut (s : ReadState C) : Prop :=
  ∀ c, timeoutMs c < 0 → ∀ event, ¬Returned (readers timeoutMs) s c (.timeout, event)

/-- A call that is to wait for an event reads only while one is there. -/
def ReadsFind : Condition (fun _ : C => InputReadPc) (Device C) Syscall.Result := fun s c req _ =>
  match req with
  | .read _ _ => timeoutMs c < 0 → s.world.pending ≠ []
  | _ => True

end Calls

/-! ### The event in memory -/

theorem length_eventBytes (e : InputEvent) : (eventBytes e).length = inputEventSize := by
  simp [eventBytes, littleEndian, inputEventSize]

theorem ofBytes_eventBytes (e : InputEvent) : InputEvent.ofBytes (eventBytes e) = e := by
  have hlen : ∀ {w : Nat} (count : Nat) (x : BitVec w), (littleEndian count x).length = count := by simp [littleEndian]
  have htake : ∀ {w : Nat} (count : Nat) (x : BitVec w) (rest : List Byte),
      (littleEndian count x ++ rest).take count = littleEndian count x :=
    fun count x rest => List.take_left' (hlen count x)
  have hdrop : ∀ {w : Nat} (count more : Nat) (x : BitVec w) (rest : List Byte),
      (littleEndian count x ++ rest).drop (count + more) = rest.drop more := fun count more x rest => by
    rw [← List.drop_drop, List.drop_left' (hlen count x)]
  have hlast : (littleEndian 4 e.value).take 4 = littleEndian 4 e.value :=
    List.take_of_length_le (Nat.le_of_eq (hlen 4 e.value))
  obtain ⟨sec, usec, type, code, value⟩ := e
  rw [InputEvent.ofBytes, eventBytes, InputEvent.mk.injEq]
  refine ⟨?_, ?_, ?_, ?_, ?_⟩
  · rw [htake]
    exact fromLittleEndian_littleEndian (by decide) sec
  · rw [hdrop 8 0, List.drop_zero, htake]
    exact fromLittleEndian_littleEndian (by decide) usec
  · rw [hdrop 8 8, hdrop 8 0, List.drop_zero, htake]
    exact fromLittleEndian_littleEndian (by decide) type
  · rw [hdrop 8 10, hdrop 8 2, hdrop 2 0, List.drop_zero, htake]
    exact fromLittleEndian_littleEndian (by decide) code
  · rw [hdrop 8 12, hdrop 8 4, hdrop 2 2, hdrop 2 0, List.drop_zero, hlast]
    exact fromLittleEndian_littleEndian (by decide) value

/-! ### One step -/

/-- Where call `c` is, with the events that were read. -/
def ReadHolds {C : Type} (c : C) (taken : List (C × InputEvent)) : InputReadPc → Prop
  | .fetch | .poll _ | .read _ => ∀ e, (c, e) ∉ taken
  | .ret st event => ∀ e, (c, e) ∈ taken ↔ (st, event) = (.ok, some e)

section Steps
variable {C : Type} {timeoutMs : C → Int} {c : C} {d d' : Device C} {pc : InputReadPc}

theorem readHolds_fail {taken : List (C × InputEvent)} {st : Status} (h : ∀ e, (c, e) ∉ taken) :
    ReadHolds c taken (.ret st none) := fun e => iff_of_false (h e) nofun

/-- An event goes on to the call that has read it, and to no other call. -/
theorem effect_taken {req : Syscall} {res : req.Result} (h : DeviceEffect c d req res d') :
    d'.arrived = d.arrived ∧ (d'.pending = d.pending ∧ d'.taken = d.taken ∨
      ∃ e, d.pending = e :: d'.pending ∧ d'.taken = d.taken ++ [(c, e)]) := by
  cases h with
  | fetch | pollReady | pollTimedOut | pollError | readNothing | readError => exact ⟨rfl, .inl ⟨rfl, rfl⟩⟩
  | read hpending => exact ⟨rfl, .inr ⟨_, hpending, rfl⟩⟩

/-- A system call of the call itself that takes no event. -/
theorem readHolds_step {req : Syscall} {res : req.Result} {resume : req.Result → InputReadPc}
    (h : ReadHolds c d.taken pc) (hnext : (readers timeoutMs c).next pc = .call req resume)
    (heffect : DeviceEffect c d req res d') : ReadHolds c d'.taken (resume res) := by
  cases pc with
  | fetch =>
    cases hnext
    cases heffect
    dsimp only
    split
    · exact readHolds_fail h
    · split <;> exact h
  | poll fd =>
    cases hnext
    have htaken : d'.taken = d.taken := by cases heffect <;> rfl
    rw [htaken]
    rcases waitFd_cases (.poll fd) (.read fd) (InputReadPc.ret · none) res with heq | heq | ⟨st, heq⟩ <;> rw [heq]
    · exact h
    · exact h
    · exact readHolds_fail h
  | read fd =>
    cases hnext
    cases heffect with
    | @read _ e _ _ =>
      have hwhole : ¬(eventBytes e).length ≠ inputEventSize := not_not.mpr (length_eventBytes e)
      dsimp only
      rw [if_neg hwhole, ofBytes_eventBytes]
      intro e'
      have hold : (c, e') ∉ d.taken := h e'
      simp [hold, eq_comm]
    | readNothing => exact readHolds_fail h
    | readError =>
      dsimp only
      split
      · exact h
      · split <;> exact readHolds_fail h
  | ret => cases hnext

theorem readHolds_running {taken : List (C × InputEvent)} {req : Syscall} {resume : req.Result → InputReadPc}
    (h : ReadHolds c taken pc) (hnext : (readers timeoutMs c).next pc = .call req resume) : ∀ e, (c, e) ∉ taken := by
  cases pc with
  | fetch | poll | read => exact h
  | ret => cases hnext

theorem readHolds_other {taken : List (C × InputEvent)} {c' : C} {e : InputEvent} (hne : c ≠ c')
    (h : ReadHolds c taken pc) : ReadHolds c (taken ++ [(c', e)]) pc := by
  have hmem : ∀ e', (c, e') ∈ taken ++ [(c', e)] ↔ (c, e') ∈ taken := by simp [hne]
  cases pc with
  | fetch | poll | read => exact fun e' he' => h e' ((hmem e').mp he')
  | ret => exact fun e' => (hmem e').trans (h e')

/-- What a call for an event has come to. -/
def Waits : InputReadPc → Prop
  | .ret st _ => st ≠ .timeout
  | _ => True

theorem statusFromErrno_ne_timeout {errno : Errno} (h : CallError errno) : statusFromErrno errno ≠ .timeout := by
  obtain ⟨-, hagain, htimedout⟩ := h
  cases errno with
  | eagain => exact absurd rfl hagain
  | etimedout => exact absurd rfl htimedout
  | _ => nofun

theorem waits_step {req : Syscall} {res : req.Result} {resume : req.Result → InputReadPc} (hblocks : timeoutMs c < 0)
    (hnext : (readers timeoutMs c).next pc = .call req resume) (heffect : DeviceEffect c d req res d')
    (hfinds : ∀ fd count, req = .read fd count → d.pending ≠ []) : Waits (resume res) := by
  cases pc with
  | fetch =>
    cases hnext
    cases heffect
    dsimp only
    split
    · intro htimeout
      cases htimeout
    · split <;> trivial
  | poll fd =>
    have htimeout : pollTimeout (timeoutMs c) = -1 := if_pos hblocks
    cases hnext
    cases heffect with
    | pollReady =>
      rw [waitFd]
      split
      · intro htimeout
        cases htimeout
      · trivial
    | pollTimedOut hpositive =>
      rw [htimeout] at hpositive
      exact absurd hpositive (by decide)
    | pollError herror =>
      rw [waitFd]
      split
      · trivial
      · exact statusFromErrno_ne_timeout herror
  | read fd =>
    cases hnext
    cases heffect with
    | read =>
      dsimp only
      split <;> intro htimeout <;> cases htimeout
    | readNothing hnone => exact absurd hnone (hfinds _ _ rfl)
    | readError herror =>
      dsimp only
      rw [if_neg herror.2.1]
      split
      · trivial
      · exact statusFromErrno_ne_timeout herror
  | ret => cases hnext

end Steps

/-! ### Whole runs -/

section Runs
variable {C : Type} [DecidableEq C] {timeoutMs : C → Int} {s t : ReadState C}
  {allowed : Condition (fun _ : C => InputReadPc) (Device C) Syscall.Result}

/-- The invariant: what arrived is what was taken and what is pending, in its order, no call took two
    events, and each call holds what it took. -/
structure Delivering (s : ReadState C) : Prop where
  order : s.world.arrived = s.world.taken.map Prod.snd ++ s.world.pending
  distinct : (s.world.taken.map Prod.fst).Nodup
  holds : ∀ c, ReadHolds c s.world.taken (s.locals c)

theorem delivering_step {c : C} {req : Syscall} {res : req.Result} (h : Delivering s)
    (hstep : Step (readers timeoutMs) DeviceKernel s c req res t) : Delivering t := by
  obtain ⟨resume, hnext, ⟨u, events, heffect, hworld⟩, hself, hother⟩ := hstep.elim
  have hown : ReadHolds c u.taken (resume res) := readHolds_step (h.holds c) hnext heffect
  have hnone : ∀ e, (c, e) ∉ s.world.taken := readHolds_running (h.holds c) hnext
  have hrest : ∀ c', c' ≠ c → ReadHolds c' u.taken (s.locals c') := by
    intro c' hc
    obtain ⟨-, ⟨-, htaken⟩ | ⟨e, -, htaken⟩⟩ := effect_taken heffect <;> rw [htaken]
    · exact h.holds c'
    · exact readHolds_other hc (h.holds c')
  refine ⟨?_, ?_, fun c' => ?_⟩
  · rw [hworld]
    show u.arrived ++ events = u.taken.map Prod.snd ++ (u.pending ++ events)
    obtain ⟨harrived, ⟨hpending, htaken⟩ | ⟨e, hpending, htaken⟩⟩ := effect_taken heffect
    · simp [harrived, htaken, hpending, h.order]
    · simp [harrived, htaken, hpending, h.order]
  · rw [hworld]
    show (u.taken.map Prod.fst).Nodup
    obtain ⟨-, ⟨-, htaken⟩ | ⟨e, -, htaken⟩⟩ := effect_taken heffect <;> rw [htaken]
    · exact h.distinct
    · rw [List.map_append]
      refine h.distinct.append (List.nodup_singleton c) ?_
      simpa using hnone
  · rw [hworld]
    by_cases hc : c' = c
    · subst hc
      rw [hself]
      exact hown
    · rw [hother c' hc]
      exact hrest c' hc

omit [DecidableEq C] in
theorem deliveredOnce_of_delivering (h : Delivering s) : DeliveredOnce timeoutMs s where
  order := h.order
  distinct := h.distinct
  delivered c e := by
    have hc : ReadHolds c s.world.taken (s.locals c) := h.holds c
    rw [Returned]
    cases hpc : s.locals c <;> rw [hpc] at hc
    case ret => simp [hc e, halInputReadEvent]
    all_goals exact iff_of_false (hc e) nofun

/-- Events are never lost and never delivered twice, whatever the schedule. -/
theorem run_deliveredOnce
    (hrun : Run (readers timeoutMs) DeviceKernel allowed (State.start (readers timeoutMs) .fresh) s) :
    DeliveredOnce timeoutMs s := by
  refine deliveredOnce_of_delivering (hrun.inv ⟨rfl, List.nodup_nil, fun c e => List.not_mem_nil⟩ ?_)
  exact fun _ _ _ _ _ h hstep _ => delivering_step h hstep

/-- The calls with no limit to their wait are in it. -/
def BlockingWait (timeoutMs : C → Int) (s : ReadState C) : Prop := ∀ c, timeoutMs c < 0 → Waits (s.locals c)

theorem blockingWait_step {c : C} {req : Syscall} {res : req.Result} (h : BlockingWait timeoutMs s)
    (hstep : Step (readers timeoutMs) DeviceKernel s c req res t) (hfinds : ReadsFind timeoutMs s c req res) :
    BlockingWait timeoutMs t := by
  refine hstep.locals_inv (P := fun c pc => timeoutMs c < 0 → Waits pc) h ?_
  rintro resume hnext ⟨u, events, heffect, -⟩ hblocks
  refine waits_step hblocks hnext heffect fun fd count hreq => ?_
  subst hreq
  exact hfinds hblocks

theorem run_neverTimesOut (hrun : Run (readers timeoutMs) DeviceKernel (ReadsFind timeoutMs)
    (State.start (readers timeoutMs) .fresh) s) : NeverTimesOut timeoutMs s := by
  have hstart : BlockingWait timeoutMs (State.start (readers timeoutMs) .fresh) := fun _ _ => trivial
  have hwaits : BlockingWait timeoutMs s :=
    hrun.inv hstart fun _ _ _ _ _ h hstep hfinds => blockingWait_step h hstep hfinds
  intro c hblocks event hret
  have hc : Waits (s.locals c) := hwaits c hblocks
  rw [Returned] at hret
  cases hpc : s.locals c <;> rw [hpc] at hc hret <;> cases hret
  exact hc rfl

/-- Every event that was read is delivered once, and no call that is to wait for an event gives up, in every run in
    which such calls read only while an event is there. -/
theorem run_reads_find (hrun : Run (readers timeoutMs) DeviceKernel (ReadsFind timeoutMs)
    (State.start (readers timeoutMs) .fresh) s) : DeliveredOnce timeoutMs s ∧ NeverTimesOut timeoutMs s :=
  ⟨run_deliveredOnce hrun, run_neverTimesOut hrun⟩

end Runs

/-! ### Two calls that wait for one event -/

/-- Key `KEY_A` is pressed. -/
def key : InputEvent := ⟨0, 0, 1, 30, 1⟩

/-- Both calls wait for as long as it takes. -/
def blocking (_ : Bool) : Int := -1

/-- Two calls are waiting, one event has come, and `poll` has told both. -/
theorem run_both_told (allowed : Condition (fun _ : Bool => InputReadPc) (Device Bool) Syscall.Result)
    (hallowed : ∀ s c req res, (∀ fd count, req ≠ .read fd count) → allowed s c req res) :
    ∃ s, Run (readers blocking) DeviceKernel allowed (State.start (readers blocking) .fresh) s ∧
      s.world = ⟨[key], [key], []⟩ ∧ ∀ c, s.locals c = .read 3 := by
  have h₀ : Run (readers blocking) DeviceKernel allowed (State.start (readers blocking) .fresh) _ := .refl
  have h₁ := h₀.tail (Step.mk (c := true) rfl ⟨_, [], .fetch (by decide : (0 : Int) ≤ 3), rfl⟩)
    (hallowed _ _ _ _ nofun)
  have h₂ := h₁.tail (Step.mk (c := false) rfl ⟨_, [key], .fetch (by decide : (0 : Int) ≤ 3), rfl⟩)
    (hallowed _ _ _ _ nofun)
  have h₃ := h₂.tail (Step.mk (c := true) rfl ⟨_, [], .pollReady (r := ⟨false, false, false⟩) (.inl nofun), rfl⟩)
    (hallowed _ _ _ _ nofun)
  have h₄ := h₃.tail (Step.mk (c := false) rfl ⟨_, [], .pollReady (r := ⟨false, false, false⟩) (.inl nofun), rfl⟩)
    (hallowed _ _ _ _ nofun)
  refine ⟨_, h₄, rfl, fun c => ?_⟩
  cases c <;> rfl

/-- The second read finds nothing. -/
theorem blocking_times_out : ¬∀ s : ReadState Bool,
    Run (readers blocking) DeviceKernel (fun _ _ _ _ => True) (State.start (readers blocking) .fresh) s →
      DeliveredOnce blocking s ∧ NeverTimesOut blocking s := by
  intro hclaim
  obtain ⟨⟨_, locals⟩, h₀, rfl, hread⟩ := run_both_told (fun _ _ _ _ => True) fun _ _ _ _ _ => trivial
  obtain rfl : locals = fun _ => .read 3 := funext hread
  have h₁ := h₀.tail (Step.mk (c := true) rfl ⟨_, [], .read rfl, rfl⟩) trivial
  have h₂ := h₁.tail (Step.mk (c := false) rfl ⟨_, [], .readNothing rfl, rfl⟩) trivial
  exact (hclaim _ h₂).2 false (by decide) none rfl

/-- The first read takes the event. -/
theorem blocking_reads_event : ∃ s : ReadState Bool, Returned (readers blocking) s true (.ok, some key) ∧
    DeliveredOnce blocking s ∧ NeverTimesOut blocking s := by
  obtain ⟨⟨_, locals⟩, h₀, rfl, hread⟩ := run_both_told (ReadsFind blocking) fun s c req res hreq => by
    cases req with
    | read fd count => exact absurd rfl (hreq fd count)
    | _ => trivial
  obtain rfl : locals = fun _ => .read 3 := funext hread
  have h₁ := h₀.tail (Step.mk (c := true) rfl ⟨_, [], .read rfl, rfl⟩) fun _ => nofun
  obtain ⟨honce, hnever⟩ := run_reads_find h₁
  exact ⟨_, (honce.delivered true key).mp (List.mem_singleton.mpr rfl), honce, hnever⟩

end InputEvents
end Hal
end Emberlite
