import Emberlite.Hal.Timer
import Emberlite.Hal.UartOpen
import Emberlite.Lib.History

/-! What `hal_timer_start` and `hal_timer_stop` make of the timer behind the descriptor, as time goes by. -/

namespace Emberlite
namespace Hal
namespace Timerfd
open Timer UartOpen History

/-- The time in nanoseconds. -/
def Timespec.nanoseconds (t : Timespec) : Nat := t.sec * 1000000000 + t.nsec

/-- The times that `timerfd_settime` accepts. -/
def WellFormed (spec : Itimerspec) : Prop := spec.value.nsec < 1000000000 ∧ spec.interval.nsec < 1000000000

instance (spec : Itimerspec) : Decidable (WellFormed spec) := inferInstanceAs (Decidable (_ ∧ _))

/-- A timer: the nanoseconds to the next expiry if it is armed, those between two expiries, and whether it has expired
    since it was set. -/
structure KernelTimer where
  next : Option Nat
  interval : Nat
  expired : Bool
  deriving DecidableEq, Repr

/-- `timerfd_settime`: a time of zero disarms the timer. -/
def KernelTimer.settime (k : KernelTimer) (spec : Itimerspec) (fault : Option Fault) : Status × KernelTimer :=
  if ¬WellFormed spec then (statusFromErrno .einval, k)
  else
    match fault with
    | some e => (statusFromErrno e, k)
    | none => (.ok, {
        next := if spec.value = ⟨0, 0⟩ then none else some (Timespec.nanoseconds spec.value)
        interval := Timespec.nanoseconds spec.interval
        expired := false })

/-- The timer after `ns` nanoseconds. -/
def KernelTimer.elapse (k : KernelTimer) (ns : Nat) : KernelTimer :=
  match k.next with
  | none => k
  | some v =>
    if ns < v then { k with next := some (v - ns) }
    else if k.interval = 0 then { k with next := none, expired := true }
    else { k with next := some (k.interval - (ns - v) % k.interval), expired := true }

/-- `hal_timer_start` -/
def halTimerStart (cfg : TimerConfig) (k : KernelTimer) (fault : Option Fault) : Status × KernelTimer :=
  k.settime (TimerCall.start.spec cfg) fault

/-- `hal_timer_stop` -/
def halTimerStop (cfg : TimerConfig) (k : KernelTimer) (fault : Option Fault) : Status × KernelTimer :=
  k.settime (TimerCall.stop.spec cfg) fault

/-- What happens to the timer: a call, with the error of `timerfd_settime` if it fails, or time. -/
inductive TimerEvent where
  | call (call : TimerCall) (fault : Option Fault)
  | elapse (ns : Nat)
  deriving DecidableEq

/-- The timer, the last call that returned `HAL_OK`, and the nanoseconds since that call. -/
structure TimerHistory where
  kernel : KernelTimer
  last : Option TimerCall
  since : Nat
  deriving DecidableEq, Repr

/-- After `hal_timer_create`. -/
def TimerHistory.created : TimerHistory := ⟨⟨none, 0, false⟩, none, 0⟩

/-- The history after a call and its outcome; a failed one does not count. -/
def TimerHistory.after (h : TimerHistory) (call : TimerCall) : Status × KernelTimer → TimerHistory
  | (.ok, k) => ⟨k, some call, 0⟩
  | (_, k) => { h with kernel := k }

/-- A call with its outcome, or time that passes. -/
def exec (cfg : TimerConfig) (h : TimerHistory) : TimerEvent → TimerHistory
  | .call .start fault => h.after .start (halTimerStart cfg h.kernel fault)
  | .call .stop fault => h.after .stop (halTimerStop cfg h.kernel fault)
  | .elapse ns => { h with kernel := h.kernel.elapse ns, since := h.since + ns }

/-- The interval of a timer with this configuration. -/
def intervalOf (cfg : TimerConfig) : Nat := if cfg.periodic then cfg.intervalMs.toNat * 1000000 else 0

/-- The timer is armed as long as the calls and the configuration say, and starts at the configured times. -/
structure AsConfigured (cfg : TimerConfig) (h : TimerHistory) : Prop where
  armed : h.kernel.next ≠ none ↔ h.last = some .start ∧ (cfg.periodic = false → h.kernel.expired = false)
  started : h.last = some .start → h.since = 0 →
    h.kernel.next = some (cfg.initialMs.toNat * 1000000) ∧ h.kernel.interval = intervalOf cfg

/-- The timer does what its configuration says, whatever is called and whenever, and the times that are set are well
    formed. -/
def Meets (cfg : TimerConfig) : Prop :=
  (∀ history, Throughout (fun h event => some (exec cfg h event)) (AsConfigured cfg) .created history) ∧
    ∀ call : TimerCall, WellFormed (call.spec cfg)

variable {cfg : TimerConfig} {h : TimerHistory}

/-! ### Seconds and nanoseconds -/

theorem nanoseconds_millis (ms : BitVec 32) : Timespec.nanoseconds (millis ms) = ms.toNat * 1000000 := by
  rw [Timespec.nanoseconds, millis_eq]
  have hsplit : 1000 * (ms.toNat / 1000) + ms.toNat % 1000 = ms.toNat := Nat.div_add_mod ..
  dsimp only
  omega

theorem millis_nsec_lt (ms : BitVec 32) : (millis ms).nsec < 1000000000 := by
  have hrest : ms.toNat % 1000 < 1000 := Nat.mod_lt _ (by decide)
  rw [millis_eq]
  dsimp only
  omega

theorem wellFormed_spec (cfg : TimerConfig) (call : TimerCall) : WellFormed (call.spec cfg) := by
  cases call with
  | start =>
    refine ⟨millis_nsec_lt cfg.initialMs, ?_⟩
    rw [TimerCall.spec]
    dsimp only
    split
    · exact millis_nsec_lt cfg.intervalMs
    · decide
  | stop =>
    have hzero : 0 < 1000000000 := by decide
    exact ⟨hzero, hzero⟩

/-! ### One event -/

theorem settime_fault (k : KernelTimer) (call : TimerCall) (e : Fault) :
    k.settime (call.spec cfg) (some e) = (statusFromErrno e, k) := if_neg (not_not.mpr (wellFormed_spec cfg call))

theorem settime_start (k : KernelTimer) : halTimerStart cfg k none =
    (.ok, ⟨if cfg.initialMs = 0#32 then none else some (cfg.initialMs.toNat * 1000000), intervalOf cfg, false⟩) := by
  have hinterval : Timespec.nanoseconds (TimerCall.start.spec cfg).interval = intervalOf cfg := by
    rw [TimerCall.spec, intervalOf]
    dsimp only
    split
    · exact nanoseconds_millis cfg.intervalMs
    · rfl
  have hzero : (TimerCall.start.spec cfg).value = ⟨0, 0⟩ ↔ cfg.initialMs = 0#32 := millis_eq_zero
  have hvalue : Timespec.nanoseconds (TimerCall.start.spec cfg).value = cfg.initialMs.toNat * 1000000 :=
    nanoseconds_millis cfg.initialMs
  rw [halTimerStart, KernelTimer.settime, if_neg (not_not.mpr (wellFormed_spec cfg .start)), hinterval, hvalue]
  simp only [hzero]

theorem settime_stop (k : KernelTimer) : halTimerStop cfg k none = (.ok, ⟨none, 0, false⟩) := by
  rw [halTimerStop, KernelTimer.settime, if_neg (not_not.mpr (wellFormed_spec cfg .stop))]
  simp [TimerCall.spec, Timespec.nanoseconds]

theorem after_fault (h : TimerHistory) (call : TimerCall) (e : Fault) :
    h.after call (statusFromErrno e, h.kernel) = h := by
  have hne : statusFromErrno e ≠ .ok := statusFromErrno_ne_ok e.2
  cases hst : statusFromErrno e with
  | ok => exact absurd hst hne
  | _ => rfl

theorem exec_fault (h : TimerHistory) (call : TimerCall) (e : Fault) : exec cfg h (.call call (some e)) = h := by
  cases call with
  | start => rw [exec, halTimerStart, settime_fault, after_fault]
  | stop => rw [exec, halTimerStop, settime_fault, after_fault]

theorem elapse_zero {k : KernelTimer} {v : Nat} (hnext : k.next = some v) (hv : v ≠ 0) : k.elapse 0 = k := by
  obtain ⟨next, interval, expired⟩ := k
  obtain rfl : next = some v := hnext
  exact if_pos (Nat.pos_of_ne_zero hv)

theorem elapse_interval (k : KernelTimer) (ns : Nat) : (k.elapse ns).interval = k.interval := by
  rw [KernelTimer.elapse]
  split
  · rfl
  · split
    · rfl
    · split <;> rfl

/-- A timer is disarmed as time goes by only when it expires and has no interval. -/
theorem elapse_cases (k : KernelTimer) (ns : Nat) :
    k.next = none ∧ k.elapse ns = k ∨
    k.next ≠ none ∧ (k.elapse ns).next ≠ none ∧ (k.elapse ns).expired = k.expired ∨
    k.next ≠ none ∧ k.interval ≠ 0 ∧ (k.elapse ns).next ≠ none ∨
    k.next ≠ none ∧ k.interval = 0 ∧ (k.elapse ns).next = none ∧ (k.elapse ns).expired = true := by
  rw [KernelTimer.elapse]
  split
  case _ hnone => exact .inl ⟨hnone, rfl⟩
  case _ v hsome =>
    have harmed : k.next ≠ none := by simp [hsome]
    split
    · exact .inr (.inl ⟨harmed, nofun, rfl⟩)
    · split
      · exact .inr (.inr (.inr ⟨harmed, ‹_›, rfl, rfl⟩))
      · exact .inr (.inr (.inl ⟨harmed, ‹_›, nofun⟩))

/-! ### Histories -/

/-- What every event keeps when neither time is zero. -/
structure Running (cfg : TimerConfig) (h : TimerHistory) : Prop extends AsConfigured cfg h where
  interval : h.last = some .start → h.kernel.interval = intervalOf cfg

theorem running_created : Running cfg .created :=
  ⟨⟨by simp [TimerHistory.created], nofun⟩, nofun⟩

theorem intervalOf_ne_zero (hinterval : cfg.periodic = true → cfg.intervalMs ≠ 0) (hperiodic : cfg.periodic = true) :
    intervalOf cfg ≠ 0 := by
  have hne : cfg.intervalMs.toNat ≠ 0 := fun hzero => hinterval hperiodic (BitVec.eq_of_toNat_eq hzero)
  rw [intervalOf, if_pos hperiodic]
  omega

/-- As time goes by, a periodic timer stays armed, and one that is not is armed until it has expired. -/
theorem armed_elapse (hinterval : cfg.periodic = true → cfg.intervalMs ≠ 0) (hrunning : Running cfg h) (ns : Nat) :
    (h.kernel.elapse ns).next ≠ none ↔
      h.last = some .start ∧ (cfg.periodic = false → (h.kernel.elapse ns).expired = false) := by
  have harmed := hrunning.armed
  rcases elapse_cases h.kernel ns with ⟨-, hsame⟩ | ⟨hbefore, hafter, hexpired⟩ | ⟨hbefore, hrepeats, hafter⟩ |
    ⟨hbefore, hnone, hafter, hexpired⟩
  · rwa [hsame]
  · rw [hexpired, ← harmed]
    exact iff_of_true hafter hbefore
  · obtain ⟨hlast, -⟩ := harmed.mp hbefore
    refine iff_of_true hafter ⟨hlast, fun hperiodic => ?_⟩
    rw [hrunning.interval hlast, intervalOf, if_neg (by simp [hperiodic])] at hrepeats
    exact absurd rfl hrepeats
  · obtain ⟨hlast, -⟩ := harmed.mp hbefore
    refine iff_of_false (not_not.mpr hafter) fun ⟨_, hlive⟩ => ?_
    cases hperiodic : cfg.periodic with
    | false => exact absurd (hlive hperiodic) (by simp [hexpired])
    | true =>
      rw [hrunning.interval hlast] at hnone
      exact intervalOf_ne_zero hinterval hperiodic hnone

theorem running_exec (hinitial : cfg.initialMs ≠ 0) (hinterval : cfg.periodic = true → cfg.intervalMs ≠ 0)
    (hrunning : Running cfg h) (event : TimerEvent) : Running cfg (exec cfg h event) := by
  have hpositive : cfg.initialMs.toNat * 1000000 ≠ 0 := by
    have hne : cfg.initialMs.toNat ≠ 0 := fun hzero => hinitial (BitVec.eq_of_toNat_eq hzero)
    omega
  rcases event with ⟨call, _ | e⟩ | ns
  · cases call with
    | start =>
      rw [exec, settime_start, if_neg (show cfg.initialMs ≠ 0#32 from hinitial)]
      exact ⟨⟨by simp [TimerHistory.after], fun _ _ => ⟨rfl, rfl⟩⟩, fun _ => rfl⟩
    | stop =>
      rw [exec, settime_stop]
      exact ⟨⟨by simp [TimerHistory.after], nofun⟩, nofun⟩
  · rw [exec_fault]
    exact hrunning
  · have hkeep : (h.kernel.elapse ns).interval = h.kernel.interval := elapse_interval h.kernel ns
    refine ⟨⟨armed_elapse hinterval hrunning ns, fun hlast hsince => ?_⟩,
      fun hlast => hkeep.trans (hrunning.interval hlast)⟩
    obtain ⟨hsince, rfl⟩ := Nat.add_eq_zero_iff.mp hsince
    have hstarted := hrunning.started hlast hsince
    show (h.kernel.elapse 0).next = _ ∧ (h.kernel.elapse 0).interval = _
    rwa [elapse_zero hstarted.1 hpositive]

theorem meets_of_nonzero (hinitial : cfg.initialMs ≠ 0) (hinterval : cfg.periodic = true → cfg.intervalMs ≠ 0) :
    Meets cfg := by
  refine ⟨fun history front hfront => ?_, wellFormed_spec cfg⟩
  have hrunning : Throughout (fun h event => some (exec cfg h event)) (Running cfg) .created history :=
    Throughout.of_keeps running_created fun _ event _ t _ hinv =>
      ⟨_, rfl, running_exec hinitial hinterval hinv event⟩
  obtain ⟨t, ht, hinv⟩ := hrunning front hfront
  exact ⟨t, ht, hinv.toAsConfigured⟩

/-- After a start that succeeds. -/
theorem asConfigured_start (hmeets : Meets cfg) (ns : Nat) :
    AsConfigured cfg (exec cfg (exec cfg .created (.call .start none)) (.elapse ns)) := by
  obtain ⟨t, ht, hgood⟩ := hmeets.1 [.call .start none, .elapse ns] _ List.prefix_rfl
  rw [run_some, Option.some_inj] at ht
  subst ht
  exact hgood

/-- The timer does what its configuration says, whatever is called, if and only if its first time is not zero, and its
    interval neither if it is periodic. -/
theorem meets_iff (cfg : TimerConfig) :
    Meets cfg ↔ cfg.initialMs ≠ 0 ∧ (cfg.periodic = true → cfg.intervalMs ≠ 0) := by
  refine ⟨fun hmeets => ?_, fun ⟨hinitial, hinterval⟩ => meets_of_nonzero hinitial hinterval⟩
  have hinitial : cfg.initialMs ≠ 0#32 := by
    intro hzero
    have hstart := (asConfigured_start hmeets 0).armed
    rw [exec, exec, settime_start, if_pos hzero] at hstart
    exact hstart.mpr ⟨rfl, fun _ => rfl⟩ rfl
  refine ⟨hinitial, fun hperiodic hzero => ?_⟩
  have hinterval : intervalOf cfg = 0 := by rw [intervalOf, if_pos hperiodic, hzero]; rfl
  have hstart := (asConfigured_start hmeets (cfg.initialMs.toNat * 1000000)).armed
  rw [exec, exec, settime_start, if_neg hinitial, hinterval] at hstart
  simp [TimerHistory.after, KernelTimer.elapse, hperiodic] at hstart

/-- A timer that is to fire every second, and the first time at once. -/
theorem started_disarmed : ¬∀ cfg : TimerConfig, Meets cfg := by
  intro hclaim
  have hstart := (asConfigured_start (hclaim ⟨1000, 0, true⟩) 0).armed
  exact hstart.mpr ⟨rfl, nofun⟩ rfl

end Timerfd
end Hal
end Emberlite
