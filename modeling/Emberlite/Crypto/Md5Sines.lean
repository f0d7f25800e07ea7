import Emberlite.Crypto.Md5Spec
import Emberlite.Lib.Rotation
import Mathlib.Algebra.Order.Floor.Semiring

/-! The table of the standard is what the standard says of it: sines, as far as their integer parts after a scaling by
    `2 ^ 32`. Twenty terms of the series of `exp I` give a Gaussian integer, and its powers the sines. -/

namespace Emberlite
namespace Crypto
namespace Rfc1321
open Complex Finset Rotation

/-- `19!`, a denominator of the terms. -/
def scale : ℕ := 121645100408832000

/-- The sum of the terms, `scale` times as large. -/
def turn : ℤ × ℤ := (65725128248453315, 102360822438075317)

theorem sum_eq : ∑ k ∈ range 20, I ^ k / (k.factorial : ℂ) = point scale turn := by
  have h (k : ℕ) : I ^ (k + 2) = -I ^ k := by rw [pow_add, I_sq, mul_neg_one]
  simp only [sum_range_succ, range_zero, sum_empty, h, pow_zero, pow_one, point, turn, scale, Nat.factorial]
  push_cast
  ring_nf

theorem exp_near : ‖exp I - point scale turn‖ ≤ 1 / 2 ^ 60 := by
  have h := exp_bound (x := I) (n := 20) (by rw [norm_I]) (by decide)
  rw [sum_eq, norm_I] at h
  refine h.trans ?_
  norm_num [Nat.factorial]

/-- No entry is so close to its sine that the error of the approximation counts. -/
theorem t_bounds : ∀ i, i < 64 →
    (t i).toNat * 2 ^ 21 * scale ^ (i + 1) + scale ^ (i + 1) ≤ 2 ^ 53 * (turns turn (i + 1)).2.natAbs ∧
      2 ^ 53 * (turns turn (i + 1)).2.natAbs + scale ^ (i + 1) < ((t i).toNat + 1) * 2 ^ 21 * scale ^ (i + 1) := by
  decide +kernel

theorem t_eq_sin {i : ℕ} (hi : i < 64) : (t i).toNat = ⌊2 ^ 32 * |Real.sin (i + 1)|⌋₊ := by
  obtain ⟨hlow, hhigh⟩ := t_bounds i hi
  have hscale : (0 : ℝ) < (scale : ℝ) ^ (i + 1) := by
    refine pow_pos ?_ _
    norm_num [scale]
  have hpow : (1 + 1 / 2 ^ 60 : ℝ) ^ (i + 1) - 1 ≤ 1 / 2 ^ 53 := by
    calc (1 + 1 / 2 ^ 60 : ℝ) ^ (i + 1) - 1 ≤ (1 + 1 / 2 ^ 60) ^ 64 - 1 := by
          gcongr
          · norm_num
          · exact hi
      _ ≤ 1 / 2 ^ 53 := by norm_num
  have hnear : |Real.sin (i + 1) - ((turns turn (i + 1)).2 : ℝ) / (scale : ℝ) ^ (i + 1)| ≤ 1 / 2 ^ 53 := by
    have h := (sin_near exp_near (i + 1)).trans hpow
    rwa [Nat.cast_add, Nat.cast_one] at h
  have habs : |((turns turn (i + 1)).2 : ℝ) / (scale : ℝ) ^ (i + 1)| =
      ((turns turn (i + 1)).2.natAbs : ℝ) / (scale : ℝ) ^ (i + 1) := by
    rw [abs_div, abs_of_pos hscale, Nat.cast_natAbs, Int.cast_abs]
  obtain ⟨hless, hmore⟩ := abs_le.mp ((abs_abs_sub_abs_le_abs_sub _ _).trans hnear)
  rw [habs] at hless hmore
  have hfloor : ((t i).toNat : ℝ) * 2 ^ 21 + 1 ≤
      2 ^ 53 * (((turns turn (i + 1)).2.natAbs : ℝ) / (scale : ℝ) ^ (i + 1)) := by
    rw [← mul_div_assoc, le_div_iff₀ hscale, add_mul, one_mul]
    exact_mod_cast hlow
  have hceil : 2 ^ 53 * (((turns turn (i + 1)).2.natAbs : ℝ) / (scale : ℝ) ^ (i + 1)) + 1 <
      ((t i).toNat + 1) * 2 ^ 21 := by
    rw [← lt_sub_iff_add_lt, ← mul_div_assoc, div_lt_iff₀ hscale, sub_mul, one_mul, lt_sub_iff_add_lt]
    exact_mod_cast hhigh
  rw [eq_comm, Nat.floor_eq_iff (by positivity)]
  constructor <;> linarith

end Rfc1321
end Crypto
end Emberlite
