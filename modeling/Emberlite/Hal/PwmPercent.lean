import Emberlite.Hal.PwmPeriod
import Emberlite.Lib.FloatValue

/-! The percentage that `hal_pwm_set_duty_cycle` takes, as a `float`. -/

namespace Emberlite
namespace Hal
namespace PwmPercent
open Rounding

/-- `(unsigned long)(percent * 10000.0f + 0.5f)`, where it is defined. -/
def scaled (percent : Value binary32) : Option Nat :=
  ((percent.mul (.ofRat 10000)).add (.ofRat (1 / 2))).toUnsigned 64

/-- `hal_pwm_set_duty_cycle`: nothing where the conversion to an integer is undefined. -/
def setDutyCycle (s : Pwm) (percent : Value binary32) (fault : Option Errno) : Option PwmOutcome :=
  if percent.lt (.ofRat 0) ∨ (Value.ofRat 100).lt percent then some ⟨.invalidParam, s, []⟩
  else (scaled percent).map fun pct => halPwmSetDutyCycle s pct fault

/-- What the percentage of a call comes to. -/
structure PercentSpec (s : Pwm) (fault : Option Errno) : Prop where
  /-- Both comparisons let a NaN through. -/
  undefined : ∀ percent, setDutyCycle s percent fault = none ↔ percent = .nan
  /-- Four decimals are kept. -/
  decimals : ∀ k : Nat, k ≤ 1000000 → setDutyCycle s (.ofRat (k / 10000)) fault = some (halPwmSetDutyCycle s k fault)
  near : ∀ x h, 0 ≤ x → x ≤ 100 → ∃ outcome d, setDutyCycle s (.finite x h) fault = some outcome ∧
    outcome.writes = [.dutyCycle d] ∧
    |(d : Rat) - s.h.periodNs.toNat * x / 100| ≤ 1 + s.h.periodNs.toNat * (9 / 16) / 1000000
  mono : ∀ x h y h' outcome outcome' d e, 0 ≤ x → x ≤ y → y ≤ 100 →
    setDutyCycle s (.finite x h) fault = some outcome → setDutyCycle s (.finite y h') fault = some outcome' →
    outcome.writes = [.dutyCycle d] → outcome'.writes = [.dutyCycle e] → d ≤ e

variable {x : Rat} {h : binary32.Stores x}

theorem stores_zero : binary32.Stores 0 := by
  exact_mod_cast Value.stores_natCast (F := binary32) (n := 0) (by decide) (by decide) (by decide)

theorem stores_hundred : binary32.Stores 100 := Value.stores_natCast (n := 100) (by decide) (by decide) (by decide)

/-- The number that is taken, by two roundings and the cut-off of its fraction. -/
def taken (x : Rat) : Nat := ⌊binary32.round (binary32.round (x * 10000) + 1 / 2)⌋.toNat

theorem taken_mono {x y : Rat} (hxy : x ≤ y) : taken x ≤ taken y := by
  have hproduct : binary32.round (x * 10000) ≤ binary32.round (y * 10000) := Format.round_mono (by linarith)
  exact Int.toNat_le_toNat (Int.floor_le_floor (Format.round_mono (by linarith)))

theorem taken_spec (hlow : 0 ≤ x) (hhigh : x ≤ 100) :
    (∀ h, scaled (.finite x h) = some (taken x)) ∧ taken x ≤ 1000000 ∧ |(taken x : Rat) - x * 10000| ≤ 9 / 16 := by
  have hten : binary32.Stores 10000 := Value.stores_natCast (n := 10000) (by decide) (by decide) (by decide)
  have hhalf : binary32.Stores (1 / 2) := Value.stores_half (by decide) (by decide)
  obtain ⟨y, _, hy, hround, herror⟩ := Value.ofRat_near (F := binary32) (x := x * 10000) (j := 20)
    (abs_lt.mpr ⟨by linarith, by linarith⟩) (by decide) (by decide)
  norm_num [binary32] at herror
  obtain ⟨herrorLow, herrorHigh⟩ := abs_le.mp herror
  obtain ⟨z, hz, hsum, hround', herror'⟩ := Value.ofRat_near (F := binary32) (x := y + 1 / 2) (j := 20)
    (abs_lt.mpr ⟨by linarith, by linarith⟩) (by decide) (by decide)
  norm_num [binary32] at herror'
  obtain ⟨herrorLow', herrorHigh'⟩ := abs_le.mp herror'
  have htaken : taken x = ⌊z⌋.toNat := by rw [taken, ← hround, ← hround']
  obtain ⟨hfloor, hle, hlt⟩ := Value.toUnsigned_floor (w := 64) (h := hz) (by linarith) (by linarith)
  rw [← htaken] at hfloor hle hlt
  have hmax : (taken x : Rat) < 1000001 := by linarith
  refine ⟨fun h => ?_, Nat.le_of_lt_succ (by exact_mod_cast hmax), abs_le.mpr ⟨by linarith, by linarith⟩⟩
  rw [scaled, Value.ofRat_of_stores hten, Value.ofRat_of_stores hhalf, Value.mul_finite, hy, Value.add_finite, hsum,
    hfloor]

theorem taken_decimals {k : Nat} (hk : k ≤ 1000000) :
    ∃ y h, Value.ofRat (k / 10000) = (.finite y h : Value binary32) ∧ 0 ≤ y ∧ y ≤ 100 ∧ taken y = k := by
  have hkhigh : (k : Rat) ≤ 1000000 := by exact_mod_cast hk
  have hklow : (0 : Rat) ≤ k := k.cast_nonneg
  obtain ⟨y, h, hy, hround, herror⟩ := Value.ofRat_near (F := binary32) (x := k / 10000) (j := 7)
    (abs_lt.mpr ⟨by linarith, by linarith⟩) (by decide) (by decide)
  norm_num [binary32] at herror
  obtain ⟨herrorLow, herrorHigh⟩ := abs_le.mp herror
  have hlow : 0 ≤ y := hround ▸ Format.le_round stores_zero.1 (by linarith)
  have hhigh : y ≤ 100 := hround ▸ Format.round_le stores_hundred.1 (by linarith)
  obtain ⟨-, -, hnear⟩ := taken_spec hlow hhigh
  refine ⟨y, h, hy, hlow, hhigh, ?_⟩
  obtain ⟨hnearLow, hnearHigh⟩ := abs_le.mp hnear
  have habove : (k : Rat) < taken y + 1 := by linarith
  have hbelow : (taken y : Rat) < k + 1 := by linarith
  exact Nat.le_antisymm (Nat.le_of_lt_succ (by exact_mod_cast hbelow)) (Nat.le_of_lt_succ (by exact_mod_cast habove))

variable {s : Pwm} {fault : Option Errno} {percent : Value binary32}

theorem setDutyCycle_finite (hlow : 0 ≤ x) (hhigh : x ≤ 100) :
    setDutyCycle s (.finite x h) fault = some (halPwmSetDutyCycle s (taken x) fault) := by
  obtain ⟨hscaled, -, -⟩ := taken_spec hlow hhigh
  rw [setDutyCycle, Value.ofRat_of_stores stores_zero, Value.ofRat_of_stores stores_hundred, Value.lt_finite,
    Value.lt_finite, if_neg (by simp [hlow, hhigh]), hscaled, Option.map_some]

/-- The number of nanoseconds that is written. -/
theorem writes_finite (hlow : 0 ≤ x) (hhigh : x ≤ 100) :
    (halPwmSetDutyCycle s (taken x) fault).writes = [.dutyCycle (s.h.periodNs.toNat * taken x / 1000000)] := by
  obtain ⟨-, hle, -⟩ := taken_spec hlow hhigh
  have hduty := PwmPeriod.duty_eq s ⟨taken x, hle⟩ fault
  rw [hduty, PwmPeriod.writes_write]

theorem undefined_iff : setDutyCycle s percent fault = none ↔ percent = .nan := by
  cases percent with
  | nan =>
    refine iff_of_true ?_ rfl
    rw [setDutyCycle, Value.ofRat_of_stores stores_zero, Value.ofRat_of_stores stores_hundred]
    rfl
  | infinite negative =>
    refine iff_of_false ?_ nofun
    rw [setDutyCycle, Value.ofRat_of_stores stores_zero, Value.ofRat_of_stores stores_hundred]
    cases negative <;> exact Option.some_ne_none _
  | finite x h =>
    refine iff_of_false ?_ nofun
    by_cases hrange : 0 ≤ x ∧ x ≤ 100
    · rw [setDutyCycle_finite hrange.1 hrange.2]
      exact Option.some_ne_none _
    · rw [setDutyCycle, Value.ofRat_of_stores stores_zero, Value.ofRat_of_stores stores_hundred, Value.lt_finite,
        Value.lt_finite, if_pos]
      · exact Option.some_ne_none _
      · simpa [imp_iff_not_or, ← not_lt] using hrange

/-- The part of the period that is written, against the percentage. -/
theorem near_percent (period : Nat) {pct : Nat} (hnear : |(pct : Rat) - x * 10000| ≤ 9 / 16) :
    |((period * pct / 1000000 : Nat) : Rat) - period * x / 100| ≤ 1 + period * (9 / 16) / 1000000 := by
  have hfloor := Nat.div_add_mod (period * pct) 1000000
  have hmod : period * pct % 1000000 < 1000000 := Nat.mod_lt _ (by decide)
  have hsplit : (1000000 : Rat) * (period * pct / 1000000 : Nat) + (period * pct % 1000000 : Nat) = period * pct := by
    exact_mod_cast hfloor
  have hrest : ((period * pct % 1000000 : Nat) : Rat) < 1000000 := by exact_mod_cast hmod
  have hrest' : (0 : Rat) ≤ (period * pct % 1000000 : Nat) := Nat.cast_nonneg _
  obtain ⟨hlow, hhigh⟩ := abs_le.mp hnear
  have hscaledLow := mul_le_mul_of_nonneg_left hlow period.cast_nonneg (α := Rat)
  have hscaledHigh := mul_le_mul_of_nonneg_left hhigh period.cast_nonneg (α := Rat)
  exact abs_le.mpr ⟨by linarith, by linarith⟩

/-- Every percentage within the range is taken to within the rounding, and four decimals of it exactly; a NaN passes for
    one within the range. -/
theorem percentSpec (s : Pwm) (fault : Option Errno) : PercentSpec s fault where
  undefined percent := undefined_iff
  decimals k hk := by
    obtain ⟨y, h, hy, hlow, hhigh, htaken⟩ := taken_decimals hk
    rw [hy, setDutyCycle_finite hlow hhigh, htaken]
  near x h hlow hhigh := by
    obtain ⟨-, -, hnear⟩ := taken_spec hlow hhigh
    exact ⟨_, _, setDutyCycle_finite hlow hhigh, writes_finite hlow hhigh, near_percent _ hnear⟩
  mono x h y h' outcome outcome' d e hlow hxy hhigh hx hy hd he := by
    rw [setDutyCycle_finite hlow (hxy.trans hhigh), Option.some_inj] at hx
    rw [setDutyCycle_finite (hlow.trans hxy) hhigh, Option.some_inj] at hy
    rw [← hx, writes_finite hlow (hxy.trans hhigh)] at hd
    rw [← hy, writes_finite (hlow.trans hxy) hhigh] at he
    cases hd
    cases he
    exact Nat.div_le_div_right (Nat.mul_le_mul_left _ (taken_mono hxy))

end PwmPercent
end Hal
end Emberlite
