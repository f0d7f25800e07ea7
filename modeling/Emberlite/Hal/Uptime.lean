import Emberlite.Hal.SystemTime
import Emberlite.Lib.FloatText

/-! `hal_system_get_uptime_ms`, by the clock or by `/proc/uptime`. -/

namespace Emberlite
namespace Hal
namespace SystemTime
open CString CNumber FloatText Rounding

/-- `hal_system_get_uptime_ms`, with what `clock_gettime` tells of `CLOCK_BOOTTIME`, if it can, and the content of
    `/proc/uptime`, if it can be opened: nothing where the conversion to an integer is undefined. -/
def halSystemGetUptimeMs (boottime : Option Timespec) (file : Option (List UInt8)) : Option (BitVec 64) :=
  match boottime with
  | some ts => some (timeIn 1000 1000000 (some ts))
  | none =>
    match file.bind (scanFloat binary64) with
    | none => some 0
    | some up => (((up.mul (.ofRat 1000)).add (.ofRat (1 / 2))).toUnsigned 64).map (BitVec.ofNat 64)

/-- A number of nanoseconds, as `/proc/uptime` shows it. -/
def hundredths (nanos : Nat) : List UInt8 :=
  decimal (nanos / 1000000000) ++ 46 :: padded 2 (nanos % 1000000000 / 10000000)

/-- `/proc/uptime`, some time after the boot, with the time that the processors were idle. -/
def procUptime (now idle : Nat) : List UInt8 := hundredths now ++ (lit " " ++ (hundredths idle ++ lit "\n"))

theorem decimal_hundredths (nanos : Nat) : Decimal (hundredths nanos) ((nanos / 10000000 : Nat) / 100) := by
  have hdecimal := decimal_fixed (n := nanos % 1000000000 / 10000000) (nanos / 1000000000) two_pos (by omega)
  have hsplit : nanos / 10000000 = nanos / 1000000000 * 100 + nanos % 1000000000 / 10000000 := by omega
  rw [hsplit, Nat.cast_add, Nat.cast_mul, add_div, Nat.cast_ofNat, mul_div_cancel_right₀ _ (by norm_num)]
  norm_num at hdecimal ⊢
  exact hdecimal

/-- The thousandths of a number of hundredths come out exactly: the three results are off by much less than a half. -/
theorem milliseconds_exact {n : Nat} (hn : n < 2 ^ 40) :
    (((Value.ofRat (n / 100) : Value binary64).mul (.ofRat 1000)).add (.ofRat (1 / 2))).toUnsigned 64 =
      some (n * 10) := by
  have hlt : (n : ℚ) < 2 ^ 40 := by exact_mod_cast hn
  have hnonneg : (0 : ℚ) ≤ n := n.cast_nonneg
  have hthousand : binary64.Stores 1000 := Value.stores_natCast (n := 1000) (by decide) (by decide) (by decide)
  rw [Value.ofRat_of_stores hthousand, Value.ofRat_of_stores (Value.stores_half (by decide) (by decide))]
  obtain ⟨up, _, hup, -, herror⟩ := Value.ofRat_near (F := binary64) (x := n / 100) (j := 34)
    (abs_lt.mpr ⟨by linarith, by linarith⟩) (by decide) (by decide)
  norm_num [binary64] at herror
  obtain ⟨hlow, hhigh⟩ := abs_le.mp herror
  rw [hup, Value.mul_finite]
  obtain ⟨ms, _, hms, -, herror'⟩ := Value.ofRat_near (F := binary64) (x := up * 1000) (j := 44)
    (abs_lt.mpr ⟨by linarith, by linarith⟩) (by decide) (by decide)
  norm_num [binary64] at herror'
  obtain ⟨hlow', hhigh'⟩ := abs_le.mp herror'
  rw [hms, Value.add_finite]
  obtain ⟨sum, _, hsum, -, herror''⟩ := Value.ofRat_near (F := binary64) (x := ms + 1 / 2) (j := 44)
    (abs_lt.mpr ⟨by linarith, by linarith⟩) (by decide) (by decide)
  norm_num [binary64] at herror''
  obtain ⟨hlow'', hhigh''⟩ := abs_le.mp herror''
  rw [hsum]
  refine Value.toUnsigned_near (abs_lt.mpr ?_) (by omega)
  push_cast
  constructor <;> linarith

/-- `/proc/uptime` tells what the clock does, up to the hundredth of a second. -/
theorem uptime_agrees {now : Nat} (h : now < 2 ^ 63) (idle : Nat) (file : Option (List UInt8)) :
    halSystemGetUptimeMs (some (clock now)) file = some (BitVec.ofNat 64 (now / 1000000)) ∧
      halSystemGetUptimeMs none (some (procUptime now idle)) = some (BitVec.ofNat 64 (now / 10000000 * 10)) := by
  constructor
  · rw [halSystemGetUptimeMs, timeIn_clock rfl]
    rfl
  · have hends : Ends (lit " " ++ (hundredths idle ++ lit "\n")) := fun c hc => by cases hc; decide
    have hread : scanFloat binary64 (procUptime now idle) = some (.ofRat ((now / 10000000 : Nat) / 100)) :=
      scanFloat_decimal (decimal_hundredths now) hends
    rw [halSystemGetUptimeMs, Option.bind_some, hread]
    dsimp only
    rw [milliseconds_exact (by omega), Option.map_some]

/-- A day and some seconds after the boot. -/
theorem uptime_agrees_day : halSystemGetUptimeMs (some (clock 86412345678901)) none = some 86412345 ∧
    halSystemGetUptimeMs none (some (procUptime 86412345678901 7)) = some 86412340 :=
  uptime_agrees (by decide) 7 none

end SystemTime
end Hal
end Emberlite
