import Emberlite.Hal.Pwm
import Emberlite.Lib.History

/-! The period that a handle remembers, against the period of its channel, over the history of a handle.

    `hal_pwm_open` does not ask for the period and `hal_pwm_set_frequency` remembers the new one before it is
    written, so the two agree exactly as long as the channel starts with the period that is assumed and no write
    of another period fails. -/

namespace Emberlite
namespace Hal
namespace PwmPeriod

/-- A percentage as `hal_pwm_set_duty_cycle` scales it. -/
abbrev Percent := { pct : Nat // pct ≤ 1000000 }

/-- The calls on an open channel. -/
inductive PwmCall where
  | setFrequency (hz : BitVec 32)
  | setDutyCycle (pct : Percent)
  | enable
  | disable

/-- A call, with the failure of its write, if it fails whatever is written. -/
structure Attempt where
  call : PwmCall
  fault : Option Errno

/-- A call, with the error that its write meets. -/
def exec (s : Pwm) (a : Attempt) : PwmOutcome :=
  match a.call with
  | .setFrequency hz => halPwmSetFrequency s hz a.fault
  | .setDutyCycle pct => halPwmSetDutyCycle s pct.val a.fault
  | .enable => halPwmEnable s a.fault
  | .disable => halPwmDisable s a.fault

/-- The handle and the channel after a history. -/
def run (s : Pwm) (history : List Attempt) : Pwm := history.foldl (fun s a => (exec s a).pwm) s

/-- The handle remembers the period that is programmed. -/
def Agrees (s : Pwm) : Prop := s.h.periodNs.toNat = s.dev.period

instance (s : Pwm) : Decidable (Agrees s) := inferInstanceAs (Decidable (_ = _))

/-- What a call keeps: the agreement, the period of a frequency that is not set, and the duty as a part of the
    period that is programmed. -/
structure Keeps (s : Pwm) (a : Attempt) : Prop where
  agrees : Agrees (exec s a).pwm
  failed : ∀ hz, a.call = .setFrequency hz → (exec s a).status ≠ .ok → (exec s a).pwm.h.periodNs = s.h.periodNs
  duty : ∀ ns, .dutyCycle ns ∈ (exec s a).writes → ∃ pct, a.call = .setDutyCycle pct ∧
    ns = s.dev.period * pct.val / 1000000 ∧ ns ≤ s.dev.period

/-- After `hal_pwm_open` and after every call. -/
def KeepsThroughout (s : Pwm) (history : List Attempt) : Prop :=
  Agrees s ∧ ∀ front a, front ++ [a] <+: history → Keeps (run s front) a

/-- A period that is asked for and that the code lets through is written, or it is programmed already. -/
def Takes (s : Pwm) (a : Attempt) : Prop :=
  ∀ hz, a.call = .setFrequency hz → 0 < 1000000000 / hz.toNat →
    (a.fault = none ∧ s.dev.duty ≤ 1000000000 / hz.toNat) ∨ 1000000000 / hz.toNat = s.dev.period

variable {s : Pwm} {a : Attempt}

/-! ### One call -/

theorem setFrequency_of_zero {hz : BitVec 32} (hzero : 1000000000 / hz.toNat = 0) (fault : Option Errno) :
    halPwmSetFrequency s hz fault = ⟨.invalidParam, s, []⟩ := by
  rw [halPwmSetFrequency]
  split
  · rfl
  · exact if_pos (Or.inl hzero)

theorem period_le (hz : BitVec 32) : 1000000000 / hz.toNat ≤ 1000000000 := Nat.div_le_self _ _

/-- The 32 bits of the handle hold every period that is let through. -/
theorem toNat_period (hz : BitVec 32) : (BitVec.ofNat 32 (1000000000 / hz.toNat)).toNat = 1000000000 / hz.toNat := by
  rw [BitVec.toNat_ofNat]
  exact Nat.mod_eq_of_lt (Nat.lt_of_le_of_lt (period_le hz) (by decide))

theorem setFrequency_of_pos {hz : BitVec 32} (hpos : 0 < 1000000000 / hz.toNat) (fault : Option Errno) :
    halPwmSetFrequency s hz fault =
      (⟨{ s.h with periodNs := BitVec.ofNat 32 (1000000000 / hz.toNat) }, s.dev⟩ : Pwm).write
        (.period (1000000000 / hz.toNat)) fault id := by
  have hz0 : hz ≠ 0 := by
    rintro rfl
    exact absurd hpos (by decide)
  have hle := period_le hz
  rw [halPwmSetFrequency, if_neg hz0]
  dsimp only
  rw [if_neg (by omega), toNat_period]

theorem duty_eq (s : Pwm) (pct : Percent) (fault : Option Errno) :
    halPwmSetDutyCycle s pct.val fault =
      s.write (.dutyCycle (s.h.periodNs.toNat * pct.val / 1000000)) fault id := by
  obtain ⟨pct, hpct⟩ := pct
  have hle : s.h.periodNs.toNat * pct / 1000000 ≤ s.h.periodNs.toNat :=
    Nat.div_le_of_le_mul (by rw [Nat.mul_comm]; exact Nat.mul_le_mul_right _ hpct)
  have hduty : (BitVec.ofNat 32 (s.h.periodNs.toNat * pct / 1000000)).toNat = s.h.periodNs.toNat * pct / 1000000 := by
    rw [BitVec.toNat_ofNat]
    exact Nat.mod_eq_of_lt (Nat.lt_of_le_of_lt hle s.h.periodNs.isLt)
  have hclamp : ¬ s.h.periodNs < BitVec.ofNat 32 (s.h.periodNs.toNat * pct / 1000000) := by
    rw [BitVec.lt_def, hduty]
    exact Nat.not_lt.mpr hle
  rw [halPwmSetDutyCycle]
  dsimp only
  rw [if_neg (Nat.not_lt.mpr hpct), if_neg hclamp, hduty]

/-- A write of something else than the period leaves both periods alone. -/
theorem write_periods {w : SysfsWrite} (hw : ∀ ns, w ≠ .period ns) {done : PwmHandle → PwmHandle}
    (hdone : ∀ h, (done h).periodNs = h.periodNs) (fault : Option Errno) :
    (s.write w fault done).pwm.h.periodNs = s.h.periodNs ∧ (s.write w fault done).pwm.dev.period = s.dev.period := by
  rcases fault with _ | errno
  · rcases w with ns | ns | value
    · exact absurd rfl (hw ns)
    · rw [Pwm.write, writeSysfs, PwmDevice.store]
      split
      · rename_i hstore
        split at hstore
        · cases hstore
          exact ⟨hdone _, rfl⟩
        · cases hstore
      · exact ⟨rfl, rfl⟩
    · exact ⟨hdone _, rfl⟩
  · exact ⟨rfl, rfl⟩

@[simp] theorem writes_write (w : SysfsWrite) (fault : Option Errno) (done : PwmHandle → PwmHandle) :
    (s.write w fault done).writes = [w] := by
  rw [Pwm.write]
  split <;> rfl

theorem write_period (p : Nat) (fault : Option Errno) :
    (fault = none ∧ s.dev.duty ≤ p ∧
        s.write (.period p) fault id = ⟨.ok, ⟨s.h, { s.dev with period := p }⟩, [.period p]⟩) ∨
      (¬ (fault = none ∧ s.dev.duty ≤ p) ∧ (s.write (.period p) fault id).pwm = s) := by
  rcases fault with _ | errno
  · by_cases hduty : s.dev.duty ≤ p
    · refine Or.inl ⟨rfl, hduty, ?_⟩
      rw [Pwm.write, writeSysfs, PwmDevice.store, if_pos hduty]
      rfl
    · refine Or.inr ⟨fun h => hduty h.2, ?_⟩
      rw [Pwm.write, writeSysfs, PwmDevice.store, if_neg hduty]
  · exact Or.inr ⟨nofun, rfl⟩

/-! ### What a call keeps -/

/-- A frequency that is refused before anything is written. -/
theorem keeps_refused (hs : Agrees s) {hz : BitVec 32} (hzero : 1000000000 / hz.toNat = 0) (fault : Option Errno) :
    Keeps s ⟨.setFrequency hz, fault⟩ := by
  have hexec : exec s ⟨.setFrequency hz, fault⟩ = _ := setFrequency_of_zero hzero fault
  refine ⟨?_, fun _ _ _ => ?_, fun ns hns => ?_⟩
  · rw [hexec]
    exact hs
  · rw [hexec]
  · rw [hexec] at hns
    cases hns

/-- The period is in the handle before it is written: it agrees after the write, or if it was programmed before. -/
theorem keeps_period (hs : Agrees s) {hz : BitVec 32} (hpos : 0 < 1000000000 / hz.toNat) {fault : Option Errno} :
    Keeps s ⟨.setFrequency hz, fault⟩ ↔
      (fault = none ∧ s.dev.duty ≤ 1000000000 / hz.toNat) ∨ 1000000000 / hz.toNat = s.dev.period := by
  have hexec : exec s ⟨.setFrequency hz, fault⟩ = _ := setFrequency_of_pos hpos fault
  have hduty : ∀ ns, SysfsWrite.dutyCycle ns ∉ (exec s ⟨.setFrequency hz, fault⟩).writes := by
    intro ns hns
    rw [hexec, writes_write] at hns
    cases List.mem_singleton.mp hns
  rcases write_period (s := ⟨{ s.h with periodNs := BitVec.ofNat 32 (1000000000 / hz.toNat) }, s.dev⟩)
    (1000000000 / hz.toNat) fault with ⟨hfault, hfits, hwrite⟩ | ⟨hfails, hwrite⟩
  · refine iff_of_true ⟨?_, fun _ _ hstatus => ?_, fun ns hns => absurd hns (hduty ns)⟩ (Or.inl ⟨hfault, hfits⟩)
    · rw [hexec, hwrite]
      exact toNat_period hz
    · rw [hexec, hwrite] at hstatus
      exact absurd rfl hstatus
  · have hagrees : Agrees (exec s ⟨.setFrequency hz, fault⟩).pwm ↔ 1000000000 / hz.toNat = s.dev.period := by
      rw [hexec, hwrite, Agrees, toNat_period]
    constructor
    · intro hkeeps
      exact Or.inr (hagrees.mp hkeeps.agrees)
    · intro htakes
      have hsame : 1000000000 / hz.toNat = s.dev.period := htakes.resolve_left hfails
      refine ⟨hagrees.mpr hsame, fun _ _ _ => ?_, fun ns hns => absurd hns (hduty ns)⟩
      rw [hexec, hwrite]
      exact BitVec.eq_of_toNat_eq ((toNat_period hz).trans (hsame.trans hs.symm))

theorem keeps_setFrequency (hs : Agrees s) {hz : BitVec 32} {fault : Option Errno} :
    Keeps s ⟨.setFrequency hz, fault⟩ ↔ Takes s ⟨.setFrequency hz, fault⟩ := by
  have htakes : Takes s ⟨.setFrequency hz, fault⟩ ↔ (0 < 1000000000 / hz.toNat →
      (fault = none ∧ s.dev.duty ≤ 1000000000 / hz.toNat) ∨ 1000000000 / hz.toNat = s.dev.period) := by
    refine ⟨fun h => h hz rfl, fun h hz' hcall => ?_⟩
    cases hcall
    exact h
  rw [htakes]
  rcases Nat.eq_zero_or_pos (1000000000 / hz.toNat) with hzero | hpos
  · exact iff_of_true (keeps_refused hs hzero fault) fun hpos => absurd hzero (Nat.ne_of_gt hpos)
  · rw [keeps_period hs hpos]
    exact ⟨fun h _ => h, fun h => h hpos⟩

/-- A call that writes the duty or the switch. -/
theorem keeps_write (hs : Agrees s) {w : SysfsWrite} {done : PwmHandle → PwmHandle}
    (hexec : exec s a = s.write w a.fault done) (hw : ∀ ns, w ≠ .period ns)
    (hdone : ∀ h, (done h).periodNs = h.periodNs) (hcall : ∀ hz, a.call ≠ .setFrequency hz)
    (hduty : ∀ ns, w = .dutyCycle ns → ∃ pct, a.call = .setDutyCycle pct ∧
      ns = s.h.periodNs.toNat * pct.val / 1000000) : Keeps s a := by
  obtain ⟨hperiodNs, hperiod⟩ := write_periods hw hdone a.fault
  refine ⟨?_, fun hz h => absurd h (hcall hz), ?_⟩
  · rw [hexec, Agrees, hperiodNs, hperiod]
    exact hs
  · intro ns hns
    rw [hexec, writes_write] at hns
    obtain ⟨pct, hpct, heq⟩ := hduty ns (List.mem_singleton.mp hns).symm
    rw [hs] at heq
    refine ⟨pct, hpct, heq, ?_⟩
    rw [heq, Nat.mul_comm]
    exact Nat.div_le_of_le_mul (Nat.mul_le_mul_right _ pct.property)

theorem keeps_iff (hs : Agrees s) : Keeps s a ↔ Takes s a := by
  obtain ⟨call, fault⟩ := a
  cases call with
  | setFrequency hz => exact keeps_setFrequency hs
  | setDutyCycle pct =>
    refine iff_of_true (keeps_write hs (duty_eq s pct fault) nofun (fun _ => rfl) nofun ?_) nofun
    rintro ns ⟨⟩
    exact ⟨pct, rfl, rfl⟩
  | enable =>
    have hexec : exec s ⟨.enable, fault⟩ = s.write (.enable true) fault fun h => { h with enabled := true } := rfl
    exact iff_of_true (keeps_write hs hexec nofun (fun _ => rfl) nofun nofun) nofun
  | disable =>
    have hexec : exec s ⟨.disable, fault⟩ = s.write (.enable false) fault fun h => { h with enabled := false } := rfl
    exact iff_of_true (keeps_write hs hexec nofun (fun _ => rfl) nofun nofun) nofun

/-! ### Histories -/

theorem keepsThroughout_iff (s : Pwm) (history : List Attempt) :
    KeepsThroughout s history ↔ Agrees s ∧ ∀ front a, front ++ [a] <+: history → Takes (run s front) a := by
  refine and_congr_right fun hs => ?_
  have heach : History.Each (fun s a => some (exec s a).pwm) Keeps s history ↔
      History.Each (fun s a => some (exec s a).pwm) Takes s history :=
    History.each_iff hs (fun _ _ => keeps_iff) fun _ _ _ _ hkeeps hexec => Option.some_inj.mp hexec ▸ hkeeps.agrees
  exact History.each_some.symm.trans (heach.trans History.each_some)

theorem agrees_open {dev : PwmDevice} {exportFault : Option Errno} {calloc : Bool}
    (hopen : halPwmOpen dev exportFault calloc = .ok s) : Agrees s ↔ dev.period = 1000000 := by
  have hs : s = ⟨⟨1000000, false⟩, dev⟩ := by
    unfold halPwmOpen at hopen
    rcases calloc with _ | _
    · dsimp only at hopen
      split at hopen
      · cases hopen
      · cases hopen
      · split at hopen <;> cases hopen
    · dsimp only at hopen
      split at hopen
      · cases hopen
        rfl
      · cases hopen
        rfl
      · split at hopen <;> cases hopen
        rfl
  subst hs
  exact eq_comm

/-- From a handle that `hal_pwm_open` gives, the period is kept throughout exactly when the channel starts with the
    period assumed and each other period that is asked for is written. -/
theorem run_keeps {dev : PwmDevice} {exportFault : Option Errno} {calloc : Bool}
    (hopen : halPwmOpen dev exportFault calloc = .ok s) (history : List Attempt) :
    KeepsThroughout s history ↔
      dev.period = 1000000 ∧ ∀ front a, front ++ [a] <+: history → Takes (run s front) a := by
  rw [keepsThroughout_iff, agrees_open hopen]

/-- The period is halved, then a duty of one half is set. -/
theorem run_keeps_halved :
    KeepsThroughout ⟨⟨1000000, false⟩, ⟨1000000, 0, false⟩⟩
      [⟨.setFrequency 2000, none⟩, ⟨.setDutyCycle ⟨500000, by decide⟩, none⟩] := by
  refine (run_keeps (show halPwmOpen ⟨1000000, 0, false⟩ none true = .ok _ from rfl) _).mpr ⟨rfl, fun front a h => ?_⟩
  rcases front with _ | ⟨b, _ | ⟨c, front⟩⟩
  · obtain ⟨rfl, -⟩ := List.cons_prefix_cons.mp h
    intro hz hcall _
    cases hcall
    exact Or.inl ⟨rfl, Nat.zero_le _⟩
  · obtain ⟨-, h⟩ := List.cons_prefix_cons.mp h
    obtain ⟨rfl, -⟩ := List.cons_prefix_cons.mp h
    exact nofun
  · simp at h

/-- The duty is the whole period when the period should be halved: the kernel refuses, the handle does not. -/
theorem lowered_below_duty :
    ¬ ∀ (dev : PwmDevice) (exportFault : Option Errno) (calloc : Bool) (s : Pwm) (history : List Attempt),
      halPwmOpen dev exportFault calloc = .ok s → KeepsThroughout s history := by
  intro h
  have hkeeps := (h ⟨1000000, 0, false⟩ none true _ ([⟨.setDutyCycle ⟨1000000, by decide⟩, none⟩] ++
    [⟨.setFrequency 2000, none⟩]) rfl).2 _ _ (List.prefix_refl _)
  exact absurd hkeeps.agrees (by decide)

end PwmPeriod
end Hal
end Emberlite
