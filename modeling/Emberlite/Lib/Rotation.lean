import Mathlib.Analysis.Complex.Trigonometric
import Mathlib.Tactic.LinearCombination

/-! Sines of whole numbers from the powers of a Gaussian integer. -/

namespace Rotation
open Complex

variable (scale : ℕ) (turn : ℤ × ℤ)

/-- The powers of a Gaussian integer. -/
def turns : ℕ → ℤ × ℤ
  | 0 => (1, 0)
  | n + 1 => ((turns n).1 * turn.1 - (turns n).2 * turn.2, (turns n).1 * turn.2 + (turns n).2 * turn.1)

/-- The point that it stands for, as one of length about `scale`. -/
noncomputable def point : ℂ := ((turn.1 : ℂ) + (turn.2 : ℂ) * I) / (scale : ℂ)

theorem point_pow (n : ℕ) :
    point scale turn ^ n = (((turns turn n).1 : ℂ) + ((turns turn n).2 : ℂ) * I) / (scale : ℂ) ^ n := by
  induction n with
  | zero => simp [turns]
  | succ n ih =>
    rw [pow_succ, ih, point, div_mul_div_comm, turns]
    congr 1
    push_cast
    linear_combination (turns turn n).2 * turn.2 * I_sq

theorem im_point_pow (n : ℕ) : (point scale turn ^ n).im = ((turns turn n).2 : ℝ) / (scale : ℝ) ^ n := by
  rw [point_pow, ← Nat.cast_pow, div_natCast_im]
  simp

variable {scale turn} {ε : ℝ}

/-- Powers of a point of the unit circle and of one near it. -/
theorem norm_pow_sub_pow_le {z w : ℂ} (hz : ‖z‖ = 1) (hw : ‖z - w‖ ≤ ε) (n : ℕ) : ‖z ^ n - w ^ n‖ ≤ (1 + ε) ^ n - 1 := by
  have hε : 0 ≤ ε := (norm_nonneg _).trans hw
  have hnorm : ‖w‖ ≤ 1 + ε := by
    calc ‖w‖ = ‖z - (z - w)‖ := by rw [sub_sub_cancel]
      _ ≤ ‖z‖ + ‖z - w‖ := norm_sub_le _ _
      _ ≤ 1 + ε := by rw [hz]; gcongr
  induction n with
  | zero => simp
  | succ n ih =>
    calc ‖z ^ (n + 1) - w ^ (n + 1)‖ = ‖z * (z ^ n - w ^ n) + (z - w) * w ^ n‖ := by ring_nf
      _ ≤ ‖z * (z ^ n - w ^ n)‖ + ‖(z - w) * w ^ n‖ := norm_add_le _ _
      _ = ‖z‖ * ‖z ^ n - w ^ n‖ + ‖z - w‖ * ‖w‖ ^ n := by
        rw [Complex.norm_mul, Complex.norm_mul, Complex.norm_pow]
      _ ≤ 1 * ((1 + ε) ^ n - 1) + ε * (1 + ε) ^ n := by rw [hz]; gcongr
      _ = (1 + ε) ^ (n + 1) - 1 := by ring

theorem sin_near (hnear : ‖exp I - point scale turn‖ ≤ ε) (n : ℕ) :
    |Real.sin n - ((turns turn n).2 : ℝ) / (scale : ℝ) ^ n| ≤ (1 + ε) ^ n - 1 := by
  have hsin : (exp I ^ n).im = Real.sin n := by rw [← exp_nat_mul, ← ofReal_natCast, exp_ofReal_mul_I_im]
  have hcircle : ‖exp I‖ = 1 := by
    have h := norm_exp_ofReal_mul_I 1
    rwa [ofReal_one, one_mul] at h
  rw [← im_point_pow, ← hsin, ← sub_im]
  exact (abs_im_le_norm _).trans (norm_pow_sub_pow_le hcircle hnear n)

end Rotation
