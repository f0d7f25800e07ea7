import Emberlite.Hal.Onewire
import Emberlite.Lib.FloatValue

/-! The temperature that `hal_onewire_read_temp` returns, as a `float`. -/

namespace Emberlite
namespace Hal
namespace Onewire
open CString CNumber Rounding

/-- `(float)t_milli / 1000.0f`. -/
def celsius (tMilli : Int) : Value binary32 := (Value.ofRat tMilli : Value binary32).divPos 1000

/-- The thousandths can be told from the quotient, which is rounded once. -/
theorem celsius_near {n : Int} (hn : |n| < 2 ^ 23) :
    ∃ y h, celsius n = .finite y h ∧ |y * 1000 - n| < 1 / 2 := by
  have hstores : binary32.Stores n := Value.stores_intCast (hn.trans (by decide)) (by decide) (by decide)
  have hbound : |(n : Rat)| < 2 ^ 23 := by exact_mod_cast hn
  obtain ⟨hlow, hhigh⟩ := abs_lt.mp hbound
  obtain ⟨y, h, hy, -, herror⟩ := Value.ofRat_near (F := binary32) (x := n / 1000) (j := 14)
    (abs_lt.mpr ⟨by linarith, by linarith⟩) (by decide) (by decide)
  norm_num [binary32] at herror
  obtain ⟨hlow', hhigh'⟩ := abs_le.mp herror
  refine ⟨y, h, ?_, abs_lt.mpr ⟨by linarith, by linarith⟩⟩
  rw [celsius, Value.ofRat_of_stores hstores, Value.divPos_finite, hy]

/-- The number of a file of the kernel can be told from the temperature that is returned: it is the integer next to its
    thousandfold. -/
theorem readTemp_recovers {w : W1Slave} {n : Int} (hw : w.WellFormed) (hnumeral : Numeral w.number n)
    (hn : |n| < 2 ^ 23) (h : HalOnewireHandle) {files : Files} (hfile : files (text h.slavePath) = .ok w.content)
    (tempC : Value binary32) :
    ∃ y hy, halOnewireReadTemp celsius h files tempC = (.ok, .finite y hy) ∧ nearestEven (y * 1000) = n := by
  obtain ⟨hlow, hhigh⟩ := abs_lt.mp hn
  obtain ⟨y, hy, hcelsius, hnear⟩ := celsius_near hn
  have hnumber := numberAfter_content hw hnumeral (by rw [longMin]; omega) (by rw [longMax]; omega)
  refine ⟨y, hy, ?_, nearestEven_eq hnear⟩
  rw [readTemp_number hfile hnumber, hcelsius]

/-- A little below three degrees. -/
theorem readTemp_recovers_failed : ∃ y hy,
    halOnewireReadTemp celsius device onlyFailed .nan = (.ok, .finite y hy) ∧ nearestEven (y * 1000) = 2812 :=
  readTemp_recovers failed_wellFormed failed_numeral (by decide) device rfl .nan

end Onewire
end Hal
end Emberlite
