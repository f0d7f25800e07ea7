import Mathlib.Algebra.Order.Floor.Ring
import Mathlib.Data.Int.Log
import Mathlib.Algebra.Order.Field.Power
import Mathlib.Tactic.Linarith
import Mathlib.Tactic.Ring

/-! Rounding to the nearest number of a binary format, ties to even. The greatest exponent plays no part here: what is
    too large is left to those who store the result. -/

namespace Rounding

section Middle
variable {K : Type*} [Field K] [LinearOrder K] [IsStrictOrderedRing K] {a b x : K}

/-- What is nearer to the upper of two numbers is not below their middle. -/
theorem add_le_of_nearer (hba : b < a) (h : |a - x| ≤ |b - x|) : a + b ≤ x + x := by
  by_contra hlow
  rw [not_le] at hlow
  have hnear : |b - x| < a - x := abs_lt.mpr ⟨by linarith, by linarith⟩
  exact absurd (h.trans_lt hnear) (not_lt.mpr (le_abs_self _))

end Middle

section Integers
variable {K : Type*} [Field K] [LinearOrder K] [IsStrictOrderedRing K] [FloorRing K]

/-- The nearest integer; the even one of two. -/
def nearestEven (x : K) : ℤ :=
  if Int.fract x < 1 / 2 then ⌊x⌋
  else if 1 / 2 < Int.fract x then ⌊x⌋ + 1
  else if Even ⌊x⌋ then ⌊x⌋ else ⌊x⌋ + 1

theorem abs_nearestEven_sub_le (x : K) : |(nearestEven x : K) - x| ≤ 1 / 2 := by
  have hsplit : (⌊x⌋ : K) + Int.fract x = x := Int.floor_add_fract x
  have hpos : 0 ≤ Int.fract x := Int.fract_nonneg x
  have hlt : Int.fract x < 1 := Int.fract_lt_one x
  rw [nearestEven, abs_le]
  split_ifs <;> push_cast <;> constructor <;> linarith

/-- No integer is nearer. -/
theorem abs_nearestEven_sub_le_abs (x : K) (n : ℤ) : |(nearestEven x : K) - x| ≤ |(n : K) - x| := by
  have herror := abs_nearestEven_sub_le x
  rcases eq_or_ne (nearestEven x) n with heq | hne
  · rw [heq]
  · have hone : (1 : ℤ) ≤ |nearestEven x - n| := Int.one_le_abs (sub_ne_zero.mpr hne)
    have hgap : (1 : K) ≤ |(nearestEven x : K) - n| := by exact_mod_cast hone
    have htriangle := abs_sub_le (nearestEven x : K) x n
    rw [abs_sub_comm x] at htriangle
    linarith

theorem nearestEven_eq {x : K} {n : ℤ} (h : |x - n| < 1 / 2) : nearestEven x = n := by
  have htriangle := abs_sub_le (nearestEven x : K) x n
  have hgap : |(nearestEven x : K) - n| < 1 := by linarith [abs_nearestEven_sub_le x]
  have hint : |nearestEven x - n| < 1 := by exact_mod_cast hgap
  exact sub_eq_zero.mp (Int.abs_lt_one_iff.mp hint)

theorem nearestEven_intCast (n : ℤ) : nearestEven (n : K) = n := by
  rw [nearestEven, Int.fract_intCast, if_pos (by norm_num), Int.floor_intCast]

end Integers

/-- Significands of `precision` bits, in units from `2 ^ emin` to `2 ^ emax`. -/
structure Format where
  precision : ℕ
  emin : ℤ
  emax : ℤ
  precision_pos : 0 < precision

namespace Format

section Numbers
variable {K : Type*} [Field K] {F : Format} {x : K} {k : ℤ}

/-- The numbers of the format, however large. -/
def Holds (F : Format) (x : K) : Prop := ∃ m e : ℤ, |m| < 2 ^ F.precision ∧ F.emin ≤ e ∧ x = m * 2 ^ e

theorem Holds.neg (h : F.Holds x) : F.Holds (-x) := by
  obtain ⟨m, e, hm, he, rfl⟩ := h
  exact ⟨-m, e, by rwa [abs_neg], he, by rw [Int.cast_neg, neg_mul]⟩

theorem holds_zpow (F : Format) (hk : F.emin ≤ k) : F.Holds (2 ^ k : K) :=
  ⟨1, k, by rw [abs_one]; exact one_lt_pow₀ one_lt_two (Nat.ne_of_gt F.precision_pos), hk, by simp⟩

theorem holds_intCast {n : ℤ} (hemin : F.emin ≤ 0) (hn : |n| < 2 ^ F.precision) : F.Holds (n : K) :=
  ⟨n, 0, hn, hemin, by simp⟩

variable [CharZero K]

/-- A significand may be as large as the first that does not fit. -/
theorem holds_of_le {m e : ℤ} (hm : |m| ≤ 2 ^ F.precision) (he : F.emin ≤ e) : F.Holds (m * 2 ^ e : K) := by
  rcases hm.lt_or_eq with hlt | heq
  · exact ⟨m, e, hlt, he, rfl⟩
  · have hpower : F.Holds (2 ^ (F.precision + e) : K) := F.holds_zpow (by omega)
    rw [zpow_add₀ two_ne_zero, zpow_natCast] at hpower
    rcases abs_eq (by positivity) |>.mp heq with rfl | rfl
    · exact_mod_cast hpower
    · have hneg := hpower.neg
      push_cast
      rwa [neg_mul]

end Numbers

section Round
variable {K : Type*} [Field K] [LinearOrder K] [IsStrictOrderedRing K] [FloorRing K] {F : Format} {x y g : K} {k : ℤ}

/-- The exponent of the last place of a number. -/
def exponent (F : Format) (x : K) : ℤ := max F.emin (Int.log 2 |x| + 1 - F.precision)

/-- The unit in the last place. -/
def unit (F : Format) (x : K) : K := 2 ^ F.exponent x

/-- The nearest number of the format, with ties to the even one. -/
def round (F : Format) (x : K) : K := nearestEven (x / F.unit x) * F.unit x

theorem unit_pos (F : Format) (x : K) : 0 < F.unit x := zpow_pos two_pos _

/-! ### The unit in the last place -/

theorem abs_lt_zpow (F : Format) (x : K) : |x| < 2 ^ (F.precision + F.exponent x) := by
  have hlog : |x| < (2 : ℕ) ^ (Int.log 2 |x| + 1) := Int.lt_zpow_succ_log_self one_lt_two _
  have hle : Int.log 2 |x| + 1 ≤ F.precision + F.exponent x := by
    have := le_max_right F.emin (Int.log 2 |x| + 1 - F.precision)
    rw [exponent]
    omega
  rw [Nat.cast_ofNat] at hlog
  exact hlog.trans_le (zpow_le_zpow_right₀ one_le_two hle)

theorem exponent_le (hzero : x ≠ 0) (hx : |x| < 2 ^ k) (hk : F.emin ≤ k - F.precision) :
    F.exponent x ≤ k - F.precision := by
  have hlog : Int.log 2 |x| < k :=
    (Int.lt_zpow_iff_log_lt one_lt_two (abs_pos.mpr hzero)).mp (by exact_mod_cast hx)
  rw [exponent]
  exact max_le hk (by omega)

theorem round_zero (F : Format) : F.round (0 : K) = 0 := by
  have hzero : nearestEven (0 : K) = 0 := by exact_mod_cast nearestEven_intCast (0 : ℤ)
  rw [round, zero_div, hzero, Int.cast_zero, zero_mul]

theorem abs_mul_unit_sub (F : Format) (x : K) (n : ℤ) :
    |n * F.unit x - x| = |(n : K) - x / F.unit x| * F.unit x := by
  have hsplit : n * F.unit x - x = ((n : K) - x / F.unit x) * F.unit x := by
    rw [sub_mul, div_mul_cancel₀ x (F.unit_pos x).ne']
  rw [hsplit, abs_mul, abs_of_pos (F.unit_pos x)]

/-! ### What is nearest -/

/-- No multiple of the unit is nearer. -/
theorem abs_round_sub_le_mul_unit (F : Format) (x : K) (n : ℤ) : |F.round x - x| ≤ |n * F.unit x - x| := by
  rw [round, abs_mul_unit_sub, abs_mul_unit_sub]
  exact mul_le_mul_of_nonneg_right (abs_nearestEven_sub_le_abs _ n) (F.unit_pos x).le

/-- A number of the format in smaller units is no further from zero than the power of two below. -/
theorem zpow_between {m e : ℤ} (hx : x ≠ 0) (hm : |m| < 2 ^ F.precision) (he : F.emin ≤ e) (hlt : e < F.exponent x) :
    |(m * 2 ^ e : K)| ≤ 2 ^ (F.precision - 1) * F.unit x ∧ 2 ^ (F.precision - 1) * F.unit x ≤ |x| := by
  have hexponent : F.exponent x = Int.log 2 |x| + 1 - F.precision := by
    rw [exponent] at hlt ⊢
    omega
  have hpos := F.precision_pos
  have hlog : 2 ^ (F.precision - 1) * F.unit x = 2 ^ Int.log 2 |x| := by
    rw [unit, ← zpow_natCast, ← zpow_add₀ two_ne_zero]
    congr 1
    omega
  rw [hlog]
  constructor
  · rw [abs_mul, abs_of_pos (zpow_pos two_pos e : (0 : K) < 2 ^ e)]
    calc |(m : K)| * 2 ^ e ≤ 2 ^ (F.precision : ℤ) * 2 ^ e := by
          refine mul_le_mul_of_nonneg_right ?_ (zpow_pos two_pos e).le
          exact_mod_cast hm.le
      _ = 2 ^ (F.precision + e) := (zpow_add₀ two_ne_zero _ _).symm
      _ ≤ 2 ^ Int.log 2 |x| := zpow_le_zpow_right₀ one_le_two (by omega)
  · exact_mod_cast Int.zpow_log_le_self one_lt_two (abs_pos.mpr hx)

/-- No number of the format is nearer. -/
theorem abs_round_sub_le (hg : F.Holds g) (x : K) : |F.round x - x| ≤ |g - x| := by
  rcases eq_or_ne x 0 with rfl | hx
  · rw [round_zero, sub_zero, abs_zero]
    exact abs_nonneg _
  · obtain ⟨m, e, hm, he, rfl⟩ := hg
    rcases le_or_gt (F.exponent x) e with hle | hlt
    · have hmultiple : (m * 2 ^ e : K) = ((m * 2 ^ (e - F.exponent x).toNat : ℤ) : K) * F.unit x := by
        have hsplit : (2 : K) ^ e = 2 ^ (e - F.exponent x).toNat * F.unit x := by
          rw [unit, ← zpow_natCast, ← zpow_add₀ two_ne_zero]
          congr 1
          omega
        push_cast
        rw [hsplit, mul_assoc]
      rw [hmultiple]
      exact F.abs_round_sub_le_mul_unit x _
    -- The power of two below is on the grid of the unit, and no further away.
    · obtain ⟨hbelow, habove⟩ := zpow_between hx hm he hlt
      set b := 2 ^ (F.precision - 1) * F.unit x with hb
      have hfar : |x| - b ≤ |(m * 2 ^ e : K) - x| := by
        have := abs_sub_abs_le_abs_sub x (m * 2 ^ e)
        rw [abs_sub_comm] at this
        linarith
      refine le_trans ?_ hfar
      rcases le_total 0 x with hpos | hneg
      · have hnear := F.abs_round_sub_le_mul_unit x (2 ^ (F.precision - 1))
        push_cast at hnear
        rw [abs_of_nonneg hpos] at habove ⊢
        rw [← hb, abs_sub_comm b, abs_of_nonneg (sub_nonneg.mpr habove)] at hnear
        exact hnear
      · have hnear := F.abs_round_sub_le_mul_unit x (-2 ^ (F.precision - 1))
        push_cast at hnear
        rw [abs_of_nonpos hneg] at habove ⊢
        have hsign : 0 ≤ -b - x := by linarith
        rw [neg_mul, ← hb, abs_of_nonneg hsign] at hnear
        linarith

theorem round_eq (hx : F.Holds x) : F.round x = x := by
  have hnear := abs_round_sub_le hx x
  rw [sub_self, abs_zero] at hnear
  exact sub_eq_zero.mp (abs_nonpos_iff.mp hnear)

theorem holds_round (F : Format) (x : K) : F.Holds (F.round x) := by
  refine holds_of_le ?_ (le_max_left _ _)
  have hscaled : |x / F.unit x| < (2 ^ F.precision : ℤ) := by
    rw [abs_div, abs_of_pos (F.unit_pos x), div_lt_iff₀ (F.unit_pos x)]
    have hlt := F.abs_lt_zpow x
    rw [zpow_add₀ two_ne_zero, zpow_natCast] at hlt
    exact_mod_cast hlt
  have herror := abs_nearestEven_sub_le (x / F.unit x)
  have hbound : |(nearestEven (x / F.unit x) : K)| < (2 ^ F.precision : ℤ) + 1 := by
    have := abs_sub_abs_le_abs_sub (nearestEven (x / F.unit x) : K) (x / F.unit x)
    linarith
  have hint : |nearestEven (x / F.unit x)| < 2 ^ F.precision + 1 := by exact_mod_cast hbound
  omega

theorem round_mono (h : x ≤ y) : F.round x ≤ F.round y := by
  rcases h.eq_or_lt with rfl | hlt
  · exact le_rfl
  · by_contra hswapped
    rw [not_le] at hswapped
    have hx := add_le_of_nearer hswapped (abs_round_sub_le (F.holds_round y) x)
    have hy : |-F.round y - -y| ≤ |-F.round x - -y| := by
      rw [← neg_sub', abs_neg, ← neg_sub', abs_neg]
      exact abs_round_sub_le (F.holds_round x) y
    have hy := add_le_of_nearer (neg_lt_neg hswapped) hy
    linarith

theorem round_le (hg : F.Holds g) (h : x ≤ g) : F.round x ≤ g := (round_mono h).trans_eq (round_eq hg)

theorem le_round (hg : F.Holds g) (h : g ≤ x) : g ≤ F.round x := (round_eq hg).symm.trans_le (round_mono h)

/-! ### How near it is -/

/-- Half a unit. -/
theorem abs_round_sub_le_half (F : Format) (x : K) : |F.round x - x| ≤ F.unit x / 2 := by
  rw [round, abs_mul_unit_sub]
  have := mul_le_mul_of_nonneg_right (abs_nearestEven_sub_le (x / F.unit x)) (F.unit_pos x).le
  linarith

theorem abs_round_sub_le_zpow (hx : |x| < 2 ^ k) (hk : F.emin ≤ k - F.precision) :
    |F.round x - x| ≤ 2 ^ (k - F.precision) / 2 := by
  rcases eq_or_ne x 0 with rfl | hzero
  · rw [round_zero, sub_zero, abs_zero]
    positivity
  · have hunit : F.unit x ≤ 2 ^ (k - F.precision) := zpow_le_zpow_right₀ one_le_two (exponent_le hzero hx hk)
    exact (F.abs_round_sub_le_half x).trans (by linarith)

/-- In parts of the number, if it is a normal one. -/
theorem abs_round_sub_le_div (hx : (2 : K) ^ (F.emin + F.precision - 1) ≤ |x|) :
    |F.round x - x| ≤ |x| / 2 ^ F.precision := by
  have hx0 : x ≠ 0 := abs_pos.mp ((zpow_pos two_pos _).trans_le hx)
  have hlog : F.emin + F.precision - 1 ≤ Int.log 2 |x| :=
    (Int.zpow_le_iff_le_log one_lt_two (abs_pos.mpr hx0)).mp (by exact_mod_cast hx)
  have hexponent : F.exponent x = Int.log 2 |x| + 1 - F.precision := max_eq_right (by omega)
  have hpower : (2 : K) ^ Int.log 2 |x| ≤ |x| := by
    exact_mod_cast Int.zpow_log_le_self one_lt_two (abs_pos.mpr hx0)
  have hunit : F.unit x / 2 ≤ |x| / 2 ^ F.precision := by
    rw [unit, hexponent, zpow_sub₀ two_ne_zero, zpow_add₀ two_ne_zero, zpow_one, zpow_natCast, div_right_comm,
      mul_div_cancel_right₀ _ two_ne_zero]
    gcongr
  exact (F.abs_round_sub_le_half x).trans hunit

end Round

/-! ### Several roundings -/

section Drift
variable {K : Type*} [Field K] [LinearOrder K] {F : Format} {j k : ℕ} {x y z w : K}

/-- `y` is `x` but for `k` roundings of normal numbers. -/
structure Drift (F : Format) (k : ℕ) (x y : K) : Prop where
  low : x * (1 - 1 / 2 ^ F.precision) ^ k ≤ y
  high : y ≤ x * (1 + 1 / 2 ^ F.precision) ^ k

theorem Drift.refl (F : Format) (x : K) : F.Drift 0 x x := ⟨by simp, by simp⟩

variable [IsStrictOrderedRing K]

theorem part_le (F : Format) : (0 : K) ≤ 1 - 1 / 2 ^ F.precision := by
  rw [sub_nonneg, div_le_one (by positivity)]
  exact one_le_pow₀ one_le_two

theorem Drift.nonneg (h : F.Drift k x y) (hx : 0 ≤ x) : 0 ≤ y :=
  (mul_nonneg hx (pow_nonneg (part_le F) k)).trans h.low

theorem Drift.trans (h : F.Drift j x y) (h' : F.Drift k y z) : F.Drift (j + k) x z where
  low := by
    rw [pow_add, ← mul_assoc]
    exact (mul_le_mul_of_nonneg_right h.low (pow_nonneg (part_le F) k)).trans h'.low
  high := by
    rw [pow_add, ← mul_assoc]
    exact h'.high.trans (mul_le_mul_of_nonneg_right h.high (by positivity))

theorem Drift.mul (h : F.Drift j x y) (h' : F.Drift k z w) (hx : 0 ≤ x) (hz : 0 ≤ z) :
    F.Drift (j + k) (x * z) (y * w) where
  low := by
    rw [pow_add, mul_mul_mul_comm]
    exact mul_le_mul h.low h'.low (mul_nonneg hz (pow_nonneg (part_le F) k)) (h.nonneg hx)
  high := by
    rw [pow_add, mul_mul_mul_comm]
    exact mul_le_mul h.high h'.high (h'.nonneg hz) (mul_nonneg hx (by positivity))

variable [FloorRing K]

theorem drift_round (hx : x = 0 ∨ (2 : K) ^ (F.emin + F.precision - 1) ≤ x) : F.Drift 1 x (F.round x) := by
  rcases hx with rfl | hx
  · rw [round_zero]
    exact ⟨by simp, by simp⟩
  · have hpos : 0 < x := (zpow_pos two_pos _).trans_le hx
    have hnear := abs_round_sub_le_div (F := F) (x := x) (by rwa [abs_of_pos hpos])
    rw [abs_of_pos hpos] at hnear
    obtain ⟨hlow, hhigh⟩ := abs_le.mp hnear
    constructor
    · rw [pow_one, mul_sub, mul_one, mul_one_div]
      linarith
    · rw [pow_one, mul_add, mul_one, mul_one_div]
      linarith

end Drift

end Format

end Rounding
