import Mathlib.Data.BitVec
import Mathlib.Logic.Relation

/-! `hal_timer_create`, `hal_timer_start`, `hal_timer_stop` and `hal_timer_destroy`, and the thread of a timer that
    has a callback (`hal_system.c`).

    A thread that is blocked in `read` holds on to the file: closing its descriptor elsewhere neither wakes it nor
    ends the timer, but a `read` that comes after finds no file. -/

namespace Emberlite
namespace Hal
namespace Timer

/-- `hal_timer_config_t`, but for the callback. -/
structure TimerConfig where
  intervalMs : BitVec 32
  initialMs : BitVec 32
  periodic : Bool
  deriving DecidableEq, Repr

/-- `struct timespec` -/
structure Timespec where
  sec : Nat
  nsec : Nat
  deriving DecidableEq, Repr

/-- `struct itimerspec` -/
structure Itimerspec where
  interval : Timespec
  value : Timespec
  deriving DecidableEq, Repr

/-- Milliseconds as seconds and nanoseconds, which the code computes in 32 bits. -/
def millis (ms : BitVec 32) : Timespec := ⟨(ms / 1000).toNat, (ms % 1000 * 1000000).toNat⟩

/-- The calls that set the timer. -/
inductive TimerCall where
  | start
  | stop
  deriving DecidableEq, Repr

/-- The time that `hal_timer_start` and `hal_timer_stop` set. -/
def TimerCall.spec (cfg : TimerConfig) : TimerCall → Itimerspec
  | .start => ⟨if cfg.periodic then millis cfg.intervalMs else ⟨0, 0⟩, millis cfg.initialMs⟩
  | .stop => ⟨⟨0, 0⟩, ⟨0, 0⟩⟩

/-- Whether the kernel is going to let the timer expire, once or again and again. -/
inductive Armed where
  | disarmed
  | once
  | repeating
  deriving DecidableEq, Repr

/-- How the kernel arms the timer for a specification. -/
def Itimerspec.armed (spec : Itimerspec) : Armed :=
  if spec.value = ⟨0, 0⟩ then .disarmed else if spec.interval = ⟨0, 0⟩ then .once else .repeating

/-- Where `timer_thread_main` is. -/
inductive ThreadPc where
  | notCreated
  -- `while (!t->stop)`.
  | test
  -- `t->fd` is an argument of `read`.
  | load
  | read (fd : Int)
  | blocked
  | callback
  | returned
  deriving DecidableEq, Repr

/-- Where the thread is that owns the timer. -/
inductive OwnerPc where
  | create
  | setStarted
  -- Between two calls, with those that are left before `hal_timer_destroy`.
  | idle (rest : List TimerCall)
  | takeFd
  | close (fd : Int)
  | join
  | destroyed
  -- `hal_timer_create` returned `NULL`.
  | failed
  deriving DecidableEq, Repr

/-- The handle, the timer behind it and its thread. -/
structure TimerState where
  fd : Int
  stop : Bool
  threadStarted : Bool
  -- The descriptor is open; the timer behind it; an expiry that has not been read.
  isOpen : Bool
  armed : Armed
  expired : Bool
  thread : ThreadPc
  owner : OwnerPc
  deriving DecidableEq, Repr

/-- After `timerfd_create` has returned `fd`. -/
def TimerState.init (fd : Nat) : TimerState := ⟨fd, false, false, true, .disarmed, false, .notCreated, .create⟩

/-- `timerfd_settime` on the descriptor of the timer. -/
def TimerState.settime (s : TimerState) (spec : Itimerspec) : TimerState :=
  if 0 ≤ s.fd ∧ s.isOpen then { s with armed := spec.armed, expired := false } else s

/-- One step, for a timer with this configuration, with or without a callback, on which these calls are made. -/
inductive TimerStep (cfg : TimerConfig) (cb : Bool) (calls : List TimerCall) : TimerState → TimerState → Prop
  | createThread {s : TimerState} : s.owner = .create → cb →
      TimerStep cfg cb calls s { s with thread := .test, owner := .setStarted }
  | createFails {s : TimerState} : s.owner = .create → cb →
      TimerStep cfg cb calls s { s with isOpen := false, owner := .failed }
  | createNoThread {s : TimerState} : s.owner = .create → cb = false →
      TimerStep cfg cb calls s { s with owner := .idle calls }
  | setStarted {s : TimerState} : s.owner = .setStarted →
      TimerStep cfg cb calls s { s with threadStarted := true, owner := .idle calls }
  | call {s : TimerState} {call : TimerCall} {rest : List TimerCall} : s.owner = .idle (call :: rest) →
      TimerStep cfg cb calls s { s.settime (call.spec cfg) with owner := .idle rest }
  | destroy {s : TimerState} : s.owner = .idle [] → TimerStep cfg cb calls s { s with stop := true, owner := .takeFd }
  | takeFd {s : TimerState} : s.owner = .takeFd → 0 ≤ s.fd →
      TimerStep cfg cb calls s { s with fd := -1, owner := .close s.fd }
  | noFd {s : TimerState} : s.owner = .takeFd → s.fd < 0 → TimerStep cfg cb calls s { s with owner := .join }
  | close {s : TimerState} {fd : Int} : s.owner = .close fd →
      TimerStep cfg cb calls s { s with isOpen := false, owner := .join }
  | join {s : TimerState} : s.owner = .join → s.threadStarted → s.thread = .returned →
      TimerStep cfg cb calls s { s with owner := .destroyed }
  | noJoin {s : TimerState} : s.owner = .join → s.threadStarted = false →
      TimerStep cfg cb calls s { s with owner := .destroyed }
  | test {s : TimerState} : s.thread = .test →
      TimerStep cfg cb calls s { s with thread := if s.stop then .returned else .load }
  | load {s : TimerState} : s.thread = .load → TimerStep cfg cb calls s { s with thread := .read s.fd }
  | read {s : TimerState} {fd : Int} : s.thread = .read fd → 0 ≤ fd → s.isOpen →
      TimerStep cfg cb calls s { s with thread := .blocked }
  -- `EBADF`.
  | readClosed {s : TimerState} {fd : Int} : s.thread = .read fd → fd < 0 ∨ s.isOpen = false →
      TimerStep cfg cb calls s { s with thread := .returned }
  | wake {s : TimerState} : s.thread = .blocked → s.expired →
      TimerStep cfg cb calls s { s with expired := false, thread := .callback }
  -- `EINTR`.
  | interrupt {s : TimerState} : s.thread = .blocked → TimerStep cfg cb calls s { s with thread := .test }
  | callback {s : TimerState} : s.thread = .callback → TimerStep cfg cb calls s { s with thread := .test }
  | expireOnce {s : TimerState} : s.armed = .once →
      TimerStep cfg cb calls s { s with armed := .disarmed, expired := true }
  | expireAgain {s : TimerState} : s.armed = .repeating → TimerStep cfg cb calls s { s with expired := true }

/-- A run from the return of `timerfd_create`. -/
def Reachable (cfg : TimerConfig) (cb : Bool) (calls : List TimerCall) (fd : Nat) : TimerState → Prop :=
  Relation.ReflTransGen (TimerStep cfg cb calls) (.init fd)

/-- `hal_timer_destroy` waits for a thread that nothing will wake. -/
def Deadlock (s : TimerState) : Prop :=
  s.owner = .join ∧ s.threadStarted ∧ s.thread = .blocked ∧ s.armed = .disarmed ∧ s.expired = false

/-- What the calls leave the timer as. -/
def armedAfter (cfg : TimerConfig) (calls : List TimerCall) : Armed :=
  calls.foldl (fun _ call => (call.spec cfg).armed) .disarmed

variable {cfg : TimerConfig} {cb : Bool} {calls : List TimerCall} {fd : Nat} {s t : TimerState}

/-- The last call decides, whatever came before. -/
theorem foldl_armed (call : TimerCall) (rest : List TimerCall) (a b : Armed) :
    (call :: rest).foldl (fun _ call => (call.spec cfg).armed) a =
      (call :: rest).foldl (fun _ call => (call.spec cfg).armed) b := rfl

theorem settime_eq (h : 0 ≤ s.fd ∧ s.isOpen) (spec : Itimerspec) :
    s.settime spec = { s with armed := spec.armed, expired := false } := if_pos h

theorem settime_threadStarted (s : TimerState) (spec : Itimerspec) :
    (s.settime spec).threadStarted = s.threadStarted := by
  unfold TimerState.settime
  split <;> rfl

/-! ### Calls that leave the timer repeating -/

/-- What every step keeps when the calls leave the timer repeating. -/
structure Repeating (cfg : TimerConfig) (s : TimerState) : Prop where
  idle : ∀ rest, s.owner = .idle rest →
    (0 ≤ s.fd ∧ s.isOpen) ∧ rest.foldl (fun _ call => (call.spec cfg).armed) s.armed = .repeating
  create : s.owner = .create ∨ s.owner = .setStarted → (0 ≤ s.fd ∧ s.isOpen) ∧ s.armed = .disarmed
  destroy : s.owner = .takeFd ∨ (∃ fd, s.owner = .close fd) ∨ s.owner = .join → s.armed = .repeating

theorem step_repeating (hcalls : armedAfter cfg calls = .repeating) (h : Repeating cfg s)
    (hstep : TimerStep cfg cb calls s t) : Repeating cfg t := by
  have hfirst : s.armed = .disarmed →
      calls.foldl (fun _ call => (call.spec cfg).armed) s.armed = .repeating := fun ha => by rw [ha]; exact hcalls
  cases hstep with
  | createThread ho =>
    obtain ⟨hopen, harmed⟩ := h.create (.inl ho)
    exact ⟨nofun, fun _ => ⟨hopen, harmed⟩, by simp⟩
  | createFails ho => exact ⟨nofun, by simp, by simp⟩
  | createNoThread ho =>
    obtain ⟨hopen, harmed⟩ := h.create (.inl ho)
    refine ⟨fun rest hrest => ?_, by simp, by simp⟩
    cases hrest
    exact ⟨hopen, hfirst harmed⟩
  | setStarted ho =>
    obtain ⟨hopen, harmed⟩ := h.create (.inr ho)
    refine ⟨fun rest hrest => ?_, by simp, by simp⟩
    cases hrest
    exact ⟨hopen, hfirst harmed⟩
  | call ho =>
    obtain ⟨hopen, harmed⟩ := h.idle _ ho
    rw [settime_eq hopen]
    refine ⟨fun rest hrest => ?_, by simp, by simp⟩
    cases hrest
    exact ⟨hopen, harmed⟩
  | destroy ho =>
    obtain ⟨-, harmed⟩ := h.idle _ ho
    exact ⟨nofun, by simp, fun _ => harmed⟩
  | takeFd ho | noFd ho => exact ⟨nofun, by simp, fun _ => h.destroy (.inl ho)⟩
  | close ho => exact ⟨nofun, by simp, fun _ => h.destroy (.inr (.inl ⟨_, ho⟩))⟩
  | join | noJoin => exact ⟨nofun, by simp, by simp⟩
  | test | load | read | readClosed | wake | interrupt | callback => exact ⟨h.idle, h.create, h.destroy⟩
  | expireAgain => exact ⟨h.idle, h.create, h.destroy⟩
  | expireOnce ha =>
    refine ⟨fun rest hrest => ?_, fun ho => ?_, fun ho => ?_⟩
    · obtain ⟨hopen, harmed⟩ := h.idle rest hrest
      refine ⟨hopen, ?_⟩
      rcases rest with _ | ⟨call, rest⟩
      · cases ha.symm.trans harmed
      · exact (foldl_armed call rest ..).trans harmed
    · obtain ⟨-, harmed⟩ := h.create ho
      cases ha.symm.trans harmed
    · cases ha.symm.trans (h.destroy ho)

theorem reachable_repeating (hcalls : armedAfter cfg calls = .repeating) (h : Reachable cfg cb calls fd s) :
    Repeating cfg s := by
  induction h with
  | refl => exact ⟨nofun, fun _ => ⟨⟨Int.natCast_nonneg fd, rfl⟩, rfl⟩, by simp [TimerState.init]⟩
  | tail _ hstep ih => exact step_repeating hcalls ih hstep

/-! ### No callback -/

theorem reachable_no_thread (h : Reachable cfg false calls fd s) : s.threadStarted = false ∧ s.owner ≠ .setStarted := by
  induction h with
  | refl => exact ⟨rfl, nofun⟩
  | tail _ hstep ih =>
    obtain ⟨hstarted, howner⟩ := ih
    cases hstep with
    | createThread _ hcb | createFails _ hcb => cases hcb
    | setStarted ho => exact (howner ho).elim
    | call => exact ⟨(settime_threadStarted ..).trans hstarted, nofun⟩
    | createNoThread | destroy | takeFd | noFd | close | join | noJoin => exact ⟨hstarted, nofun⟩
    | test | load | read | readClosed | wake | interrupt | callback | expireOnce | expireAgain => exact ⟨hstarted, howner⟩

/-! ### A thread that is blocked -/

/-- The thread waits for an expiry, and these calls are left. -/
def waiting (fd : Nat) (armed : Armed) (rest : List TimerCall) : TimerState :=
  ⟨fd, false, true, true, armed, false, .blocked, .idle rest⟩

theorem reachable_waiting : Reachable cfg true calls fd (waiting fd .disarmed calls) := by
  have h₀ : Reachable cfg true calls fd (.init fd) := .refl
  have h₁ := h₀.tail (.createThread rfl rfl)
  have h₂ := h₁.tail (.setStarted rfl)
  have h₃ := h₂.tail (.test rfl)
  have h₄ := h₃.tail (.load rfl)
  exact h₄.tail (.read rfl (Int.natCast_nonneg fd) rfl)

theorem reachable_calls {rest : List TimerCall} {armed : Armed}
    (h : Reachable cfg true calls fd (waiting fd armed rest)) :
    Reachable cfg true calls fd (waiting fd (rest.foldl (fun _ call => (call.spec cfg).armed) armed) []) := by
  induction rest generalizing armed with
  | nil => exact h
  | cons call rest ih =>
    refine ih ?_
    have hopen : 0 ≤ (waiting fd armed (call :: rest)).fd ∧ (waiting fd armed (call :: rest)).isOpen :=
      ⟨Int.natCast_nonneg fd, rfl⟩
    have hstep := h.tail (.call rfl)
    rwa [settime_eq hopen] at hstep

/-- The last expiry of a timer can come before `hal_timer_destroy`. -/
theorem reachable_disarmed (hcalls : armedAfter cfg calls ≠ .repeating) :
    Reachable cfg true calls fd (waiting fd .disarmed []) := by
  have h : Reachable cfg true calls fd (waiting fd (armedAfter cfg calls) []) := reachable_calls reachable_waiting
  cases harmed : armedAfter cfg calls with
  | disarmed => rwa [harmed] at h
  | repeating => exact (hcalls harmed).elim
  | once =>
    rw [harmed] at h
    have h₁ := h.tail (.expireOnce rfl)
    have h₂ := h₁.tail (.wake rfl rfl)
    have h₃ := h₂.tail (.callback rfl)
    have h₄ := h₃.tail (.test rfl)
    have h₅ := h₄.tail (.load rfl)
    exact h₅.tail (.read rfl (Int.natCast_nonneg fd) rfl)

theorem reachable_deadlock (hcalls : armedAfter cfg calls ≠ .repeating) :
    ∃ s, Reachable cfg true calls fd s ∧ Deadlock s := by
  have h₀ : Reachable cfg true calls fd _ := reachable_disarmed hcalls
  have h₁ := h₀.tail (.destroy rfl)
  have h₂ := h₁.tail (.takeFd rfl (Int.natCast_nonneg fd))
  exact ⟨_, h₂.tail (.close rfl), rfl, rfl, rfl, rfl, rfl⟩

/-! ### Which calls -/

/-- The nanoseconds of a second fit into 32 bits. -/
theorem millis_eq (ms : BitVec 32) : millis ms = ⟨ms.toNat / 1000, ms.toNat % 1000 * 1000000⟩ := by
  have hrest : ms.toNat % 1000 < 1000 := Nat.mod_lt _ (by decide)
  have hfits : ms.toNat % 1000 * 1000000 % 2 ^ 32 = ms.toNat % 1000 * 1000000 := Nat.mod_eq_of_lt (by omega)
  rw [millis, Timespec.mk.injEq, BitVec.toNat_udiv, BitVec.toNat_mul, BitVec.toNat_umod]
  exact ⟨rfl, hfits⟩

theorem millis_eq_zero {ms : BitVec 32} : millis ms = ⟨0, 0⟩ ↔ ms = 0#32 := by
  have hzero : ms = 0#32 ↔ ms.toNat = 0 := BitVec.toNat_inj.symm
  rw [millis_eq, Timespec.mk.injEq, hzero]
  omega

theorem armed_start : (TimerCall.start.spec cfg).armed = .repeating ↔
    cfg.initialMs ≠ 0 ∧ cfg.periodic = true ∧ cfg.intervalMs ≠ 0 := by
  obtain ⟨interval, initial, periodic⟩ := cfg
  rw [Itimerspec.armed, TimerCall.spec]
  by_cases hinitial : initial = 0#32
  · simp [millis_eq_zero, hinitial]
  · cases periodic <;> by_cases hinterval : interval = 0#32 <;> simp [millis_eq_zero, hinitial, hinterval]

theorem armedAfter_eq_repeating : armedAfter cfg calls = .repeating ↔
    calls.getLast? = some .start ∧ cfg.initialMs ≠ 0 ∧ cfg.periodic = true ∧ cfg.intervalMs ≠ 0 := by
  rw [← armed_start]
  rcases List.eq_nil_or_concat calls with rfl | ⟨init, call, rfl⟩
  · simp [armedAfter]
  · rw [armedAfter, List.concat_eq_append, List.foldl_concat, List.getLast?_concat]
    cases call with
    | start => simp
    | stop => simp [TimerCall.spec, Itimerspec.armed]

/-- `hal_timer_destroy` cannot hang, whatever the schedule, if and only if there is no callback, or the last call
    before it started a timer that repeats. -/
theorem destroy_returns_iff (cfg : TimerConfig) (cb : Bool) (calls : List TimerCall) (fd : Nat) :
    (∀ s, Reachable cfg cb calls fd s → ¬Deadlock s) ↔ cb = false ∨
      calls.getLast? = some .start ∧ cfg.initialMs ≠ 0 ∧ cfg.periodic = true ∧ cfg.intervalMs ≠ 0 := by
  rw [← armedAfter_eq_repeating]
  constructor
  · intro hsafe
    by_contra hcalls
    rw [not_or, Bool.not_eq_false] at hcalls
    obtain ⟨rfl, hcalls⟩ := hcalls
    obtain ⟨s, hs, hdeadlock⟩ : ∃ s, Reachable cfg true calls fd s ∧ Deadlock s := reachable_deadlock hcalls
    exact hsafe s hs hdeadlock
  · rintro (rfl | hcalls) s hs ⟨howner, hstarted, -, harmed, -⟩
    · obtain ⟨hfalse, -⟩ := reachable_no_thread hs
      rw [hstarted] at hfalse
      cases hfalse
    · have hrepeating := (reachable_repeating hcalls hs).destroy (.inr (.inr howner))
      cases harmed.symm.trans hrepeating

/-- A timer that is never started. -/
theorem destroy_hangs : ¬∀ (cfg : TimerConfig) (calls : List TimerCall) (s : TimerState),
    Reachable cfg true calls 3 s → ¬Deadlock s := by
  intro hclaim
  have h₀ : Reachable ⟨1000, 1000, true⟩ true [] 3 _ := reachable_waiting
  have h₁ := h₀.tail (.destroy rfl)
  have h₂ := h₁.tail (.takeFd rfl (by decide))
  exact hclaim _ _ _ (h₂.tail (.close rfl)) ⟨rfl, rfl, rfl, rfl, rfl⟩

end Timer
end Hal
end Emberlite
