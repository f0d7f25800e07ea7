import Emberlite.Lib.Rounding
import Mathlib.Data.Rat.Floor

/-! Floating-point numbers of a binary format, and their arithmetic: each result is the exact one, rounded. -/

namespace Rounding

/-- `float`. -/
def binary32 : Format := ⟨24, -149, 104, by decide⟩

/-- `double`. -/
def binary64 : Format := ⟨53, -1074, 971, by decide⟩

/-- A number that is not too large. -/
def Format.Stores (F : Format) (x : ℚ) : Prop := F.Holds x ∧ |x| < 2 ^ (F.precision + F.emax)

/-- What a variable holds. The two zeros are one value. -/
inductive Value (F : Format) where
  | nan
  | infinite (negative : Bool)
  | finite (x : ℚ) (h : F.Stores x)
  deriving DecidableEq

namespace Value
variable {F : Format}

/-- A rational number, rounded; one past the largest is infinite. -/
def ofRat (x : ℚ) : Value F :=
  if h : |F.round x| < 2 ^ (F.precision + F.emax) then .finite (F.round x) ⟨F.holds_round x, h⟩
  else .infinite (decide (x < 0))

/-- The sum. -/
def add : Value F → Value F → Value F
  | .finite x _, .finite y _ => ofRat (x + y)
  | .infinite s, .finite _ _ | .finite _ _, .infinite s => .infinite s
  | .infinite s, .infinite t => if s = t then .infinite s else .nan
  | .nan, _ | _, .nan => .nan

/-- The product. -/
def mul : Value F → Value F → Value F
  | .finite x _, .finite y _ => ofRat (x * y)
  | .infinite s, .finite x _ | .finite x _, .infinite s => if x = 0 then .nan else .infinite (s != decide (x < 0))
  | .infinite s, .infinite t => .infinite (s != t)
  | .nan, _ | _, .nan => .nan

/-- A division by a positive number. -/
def divPos (y : ℚ) : Value F → Value F
  | .finite x _ => ofRat (x / y)
  | v => v

/-- `<`, which holds of no NaN. -/
def lt : Value F → Value F → Bool
  | .finite x _, .finite y _ => decide (x < y)
  | .infinite s, .finite _ _ => s
  | .finite _ _, .infinite t => !t
  | .infinite s, .infinite t => s && !t
  | .nan, _ | _, .nan => false

/-- A conversion to an unsigned type of `w` bits: undefined where the integer part does not fit. -/
def toUnsigned (w : ℕ) : Value F → Option ℕ
  | .finite x _ => if -1 < x ∧ x < 2 ^ w then some ⌊x⌋.toNat else none
  | _ => none

variable {x y : ℚ} {k : ℤ} {w n : ℕ}

@[simp] theorem add_finite {h : F.Stores x} {h' : F.Stores y} : add (.finite x h) (.finite y h') = ofRat (x + y) := rfl

@[simp] theorem mul_finite {h : F.Stores x} {h' : F.Stores y} : mul (.finite x h) (.finite y h') = ofRat (x * y) := rfl

@[simp] theorem divPos_finite {h : F.Stores x} : divPos y (.finite x h) = ofRat (x / y) := rfl

@[simp] theorem lt_finite {h : F.Stores x} {h' : F.Stores y} : lt (.finite x h) (.finite y h') = decide (x < y) := rfl

theorem stores_zpow (hmin : F.emin ≤ k) (hmax : k < F.precision + F.emax) : F.Stores (2 ^ k) := by
  refine ⟨F.holds_zpow hmin, ?_⟩
  rw [abs_of_pos (zpow_pos two_pos k)]
  exact zpow_lt_zpow_right₀ one_lt_two hmax

theorem stores_half (hmin : F.emin ≤ -1) (hmax : -1 < F.precision + F.emax) : F.Stores (1 / 2) := by
  have hpower : F.Stores (2 ^ (-1 : ℤ)) := stores_zpow hmin hmax
  rwa [zpow_neg_one, ← one_div] at hpower

theorem stores_intCast {m : ℤ} (hm : |m| < 2 ^ F.precision) (hmin : F.emin ≤ 0) (hmax : 0 ≤ F.emax) : F.Stores m := by
  refine ⟨Format.holds_intCast hmin hm, ?_⟩
  have hlt : |(m : ℚ)| < 2 ^ (F.precision : ℤ) := by exact_mod_cast hm
  exact hlt.trans_le (zpow_le_zpow_right₀ one_le_two (by omega))

theorem stores_natCast (hn : n < 2 ^ F.precision) (hmin : F.emin ≤ 0) (hmax : 0 ≤ F.emax) : F.Stores n := by
  have hstores : F.Stores (n : ℤ) := stores_intCast (by rw [Nat.abs_cast]; exact_mod_cast hn) hmin hmax
  rwa [Int.cast_natCast] at hstores

theorem ofRat_of_stores (h : F.Stores x) : ofRat x = (.finite x h : Value F) := by
  have hround : F.round x = x := Format.round_eq h.1
  rw [ofRat, dif_pos (by rw [hround]; exact h.2)]
  congr 1

/-- Below a power of two that is not too large, a result is near the exact one. -/
theorem ofRat_near {j : ℕ} (hx : |x| < 2 ^ j) (hmin : F.emin + F.precision ≤ j) (hmax : j < F.precision + F.emax) :
    ∃ y h, ofRat x = (.finite y h : Value F) ∧ y = F.round x ∧ |y - x| ≤ 2 ^ j / 2 ^ (F.precision + 1) := by
  rw [← zpow_natCast] at hx
  have hpower : F.Holds (2 ^ (j : ℤ) : ℚ) := F.holds_zpow (by omega)
  obtain ⟨hlow, hhigh⟩ := abs_lt.mp hx
  have hle : |F.round x| ≤ 2 ^ (j : ℤ) :=
    abs_le.mpr ⟨Format.le_round hpower.neg hlow.le, Format.round_le hpower hhigh.le⟩
  have hfits : |F.round x| < 2 ^ (F.precision + F.emax) :=
    hle.trans_lt (zpow_lt_zpow_right₀ one_lt_two hmax)
  have herror := Format.abs_round_sub_le_zpow (F := F) hx (by omega)
  rw [zpow_sub₀ two_ne_zero, zpow_natCast, zpow_natCast, div_div, ← pow_succ] at herror
  exact ⟨_, ⟨F.holds_round x, hfits⟩, dif_pos hfits, rfl, herror⟩

/-- The integer part. -/
theorem toUnsigned_floor {h : F.Stores x} (hpos : 0 ≤ x) (hx : x < 2 ^ w) :
    toUnsigned w (.finite x h : Value F) = some ⌊x⌋.toNat ∧ (⌊x⌋.toNat : ℚ) ≤ x ∧ x < ⌊x⌋.toNat + 1 := by
  have hcast : ((⌊x⌋.toNat : ℤ) : ℚ) = ⌊x⌋ := by rw [Int.toNat_of_nonneg (Int.floor_nonneg.mpr hpos)]
  rw [Int.cast_natCast] at hcast
  rw [hcast]
  exact ⟨if_pos ⟨by linarith, hx⟩, Int.floor_le x, Int.lt_floor_add_one x⟩

/-- The integer part of a number that is near a half. -/
theorem toUnsigned_near {h : F.Stores x} (hx : |x - (n + 1 / 2)| < 1 / 2) (hn : n < 2 ^ w) :
    toUnsigned w (.finite x h : Value F) = some n := by
  obtain ⟨hlow, hhigh⟩ := abs_lt.mp hx
  have hfloor : ⌊x⌋ = n := by
    rw [Int.floor_eq_iff]
    push_cast
    constructor <;> linarith
  have hpow : (n : ℚ) + 1 ≤ 2 ^ w := by exact_mod_cast hn
  have hnonneg : (0 : ℚ) ≤ n := n.cast_nonneg
  rw [toUnsigned, if_pos ⟨by linarith, by linarith⟩, hfloor, Int.toNat_natCast]

end Value

end Rounding
