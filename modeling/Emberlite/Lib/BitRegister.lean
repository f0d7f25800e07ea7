import Emberlite.Lib.ShiftRegister

/-! Bit vectors as shift registers, in both directions. -/

namespace ShiftRegister
open XorSpace

instance (w : Nat) : XorSpace (BitVec w) where
  zero := 0#w
  exor_assoc := BitVec.xor_assoc
  exor_comm := BitVec.xor_comm
  exor_self _ := BitVec.xor_self
  exor_zero _ := BitVec.xor_zero

variable {w : Nat} {poly a : BitVec w}

theorem zero_def : (zero : BitVec w) = 0#w := rfl

/-- A shift to the left; the bit that leaves brings in the polynomial. -/
def feedLeft (poly a : BitVec w) : BitVec w := if a.getMsbD 0 then (a <<< 1) ^^^ poly else a <<< 1

/-- A shift to the right; the bit that leaves brings in the polynomial. -/
def feedRight (poly a : BitVec w) : BitVec w := if a.getLsbD 0 then (a >>> 1) ^^^ poly else a >>> 1

theorem feedLeft_eq (poly a : BitVec w) : feedLeft poly a = (a <<< 1) ^^^ gate (a.getMsbD 0) poly := by
  unfold feedLeft
  cases a.getMsbD 0
  · exact (BitVec.xor_zero).symm
  · rfl

theorem feedRight_eq (poly a : BitVec w) : feedRight poly a = (a >>> 1) ^^^ gate (a.getLsbD 0) poly := by
  unfold feedRight
  cases a.getLsbD 0
  · exact (BitVec.xor_zero).symm
  · rfl

/-- The most significant bit is in slot 0. -/
def msbFirst (poly : BitVec w) (hodd : poly.getLsbD 0 = true) : Register (BitVec w) where
  width := w
  read := BitVec.getMsbD
  slot i := BitVec.twoPow w (w - 1 - i)
  feed := feedLeft poly
  read_xor a b i := by simp
  read_slot i j hi hj := by
    rw [BitVec.getMsbD_eq_getLsbD, BitVec.getLsbD_twoPow]
    simp only [hj, decide_true, Bool.true_and, decide_eq_decide, show w - 1 - i < w by omega]
    omega
  ext a b h := BitVec.eq_of_getMsbD_eq h
  feed_xor a b := by
    rw [feedLeft_eq, feedLeft_eq, feedLeft_eq, BitVec.shiftLeft_xor_distrib, BitVec.getMsbD_xor, gate_exor]
    ac_rfl
  feed_slot i hi := by
    have htop : (BitVec.twoPow w (w - 1 - (i + 1))).getMsbD 0 = false := by
      rw [BitVec.getMsbD_eq_getLsbD, BitVec.getLsbD_twoPow]
      simp
      omega
    have hexp : w - 1 - (i + 1) + 1 = w - 1 - i := by omega
    rw [feedLeft, htop, if_neg Bool.false_ne_true, BitVec.twoPow_eq, ← BitVec.shiftLeft_add, hexp, BitVec.twoPow_eq]
  eq_zero_of_feed a h := by
    have hlow : a.getMsbD 0 = false := by
      have hbit := congrArg (fun x => BitVec.getLsbD x 0) ((feedLeft_eq poly a).symm.trans h)
      cases htop : a.getMsbD 0
      · rfl
      · simp [htop, hodd, zero_def] at hbit
    rw [feedLeft_eq, hlow, gate_false, exor_zero] at h
    refine BitVec.eq_of_getMsbD_eq fun i hi => ?_
    rcases i with _ | i
    · rw [hlow, zero_def, BitVec.getMsbD_zero]
    · have hbit := congrArg (fun x => BitVec.getMsbD x i) h
      simpa [zero_def, Nat.add_comm, show i < w by omega] using hbit

/-- The least significant bit is in slot 0. -/
def lsbFirst (poly : BitVec w) (hodd : poly.getMsbD 0 = true) : Register (BitVec w) where
  width := w
  read := BitVec.getLsbD
  slot i := BitVec.twoPow w i
  feed := feedRight poly
  read_xor a b i := by simp
  read_slot i j hi hj := by
    rw [BitVec.getLsbD_twoPow]
    simp [hi]
  ext a b h := BitVec.eq_of_getLsbD_eq h
  feed_xor a b := by
    rw [feedRight_eq, feedRight_eq, feedRight_eq, BitVec.ushiftRight_xor_distrib, BitVec.getLsbD_xor, gate_exor]
    ac_rfl
  feed_slot i hi := by
    have hlow : (BitVec.twoPow w (i + 1)).getLsbD 0 = false := by
      rw [BitVec.getLsbD_twoPow]
      simp
    rw [feedRight, hlow, if_neg Bool.false_ne_true]
    refine BitVec.eq_of_getLsbD_eq fun j hj => ?_
    rw [BitVec.getLsbD_ushiftRight, BitVec.getLsbD_twoPow, BitVec.getLsbD_twoPow, Nat.add_comm 1 j]
    simp [hi, show i < w by omega]
  eq_zero_of_feed a h := by
    have hlow : a.getLsbD 0 = false := by
      have hbit := congrArg (fun x => BitVec.getMsbD x 0) ((feedRight_eq poly a).symm.trans h)
      cases hlow : a.getLsbD 0
      · rfl
      · simp [hlow, hodd, zero_def, BitVec.getMsbD_ushiftRight] at hbit
    rw [feedRight_eq, hlow, gate_false, exor_zero] at h
    refine BitVec.eq_of_getLsbD_eq fun i hi => ?_
    rcases i with _ | i
    · rw [hlow, zero_def, BitVec.getLsbD_zero]
    · have hbit := congrArg (fun x => BitVec.getLsbD x i) h
      simpa [zero_def, Nat.add_comm] using hbit

/-- Nothing comes back into the register while the bits that leave it are clear. -/
theorem iterate_feedLeft {n : Nat} (hclear : ∀ i, i < n → a.getMsbD i = false) :
    (feedLeft poly)^[n] a = a <<< n := by
  induction n with
  | zero => simp
  | succ n ih =>
    have htop : (a <<< n).getMsbD 0 = false := by
      rw [BitVec.getMsbD_shiftLeft]
      simpa using hclear n (Nat.lt_succ_self n)
    rw [Function.iterate_succ_apply', ih fun i hi => hclear i (by omega), feedLeft, htop,
      if_neg Bool.false_ne_true, BitVec.shiftLeft_add]

theorem iterate_feedRight {n : Nat} (hclear : ∀ i, i < n → a.getLsbD i = false) :
    (feedRight poly)^[n] a = a >>> n := by
  induction n with
  | zero => simp
  | succ n ih =>
    have hlow : (a >>> n).getLsbD 0 = false := by
      rw [BitVec.getLsbD_ushiftRight]
      simpa using hclear n (Nat.lt_succ_self n)
    rw [Function.iterate_succ_apply', ih fun i hi => hclear i (by omega), feedRight, hlow,
      if_neg Bool.false_ne_true, BitVec.shiftRight_add]

/-! ### A symbol at a time -/

section Symbol
variable {n : Nat}

theorem split_left (hn : n ≤ w) (c : BitVec w) :
    c = ((c >>> (w - n)).setWidth n).setWidth w <<< (w - n) ^^^ (c.setWidth (w - n)).setWidth w := by
  refine BitVec.eq_of_getLsbD_eq fun i hi => ?_
  rw [BitVec.getLsbD_xor, BitVec.getLsbD_shiftLeft, BitVec.getLsbD_setWidth, BitVec.getLsbD_setWidth,
    BitVec.getLsbD_ushiftRight, BitVec.getLsbD_setWidth, BitVec.getLsbD_setWidth]
  by_cases h : i < w - n
  · simp [h, hi]
  · have hback : w - n + (i - (w - n)) = i := by omega
    simp [h, hback, hi, show i - (w - n) < w by omega, show i - (w - n) < n by omega]

theorem split_right (n : Nat) (c : BitVec w) : c = (c >>> n) <<< n ^^^ (c.setWidth n).setWidth w := by
  refine BitVec.eq_of_getLsbD_eq fun i hi => ?_
  rw [BitVec.getLsbD_xor, BitVec.getLsbD_shiftLeft, BitVec.getLsbD_ushiftRight, BitVec.getLsbD_setWidth,
    BitVec.getLsbD_setWidth]
  by_cases h : i < n
  · simp [h, hi]
  · simp [h, hi, show n + (i - n) = i by omega]

/-- Only the symbol that leaves comes back: `n` steps are one lookup. -/
theorem iterate_symbol_left (hodd : poly.getLsbD 0 = true) (hn : n ≤ w) (c : BitVec w) (p : BitVec n) :
    (msbFirst poly hodd).feed^[n] (c ^^^ p.setWidth w <<< (w - n)) = (c <<< n) ^^^
      (msbFirst poly hodd).feed^[n] (((c >>> (w - n)).setWidth n ^^^ p).setWidth w <<< (w - n)) := by
  have hlow : (msbFirst poly hodd).feed^[n] ((c.setWidth (w - n)).setWidth w) = c <<< n := by
    refine (iterate_feedLeft fun i hi => ?_).trans (BitVec.eq_of_getLsbD_eq fun i hi => ?_)
    · rw [BitVec.getMsbD_eq_getLsbD, BitVec.getLsbD_setWidth, BitVec.getLsbD_setWidth]
      simp [show ¬w - 1 - i < w - n by omega]
    · rw [BitVec.getLsbD_shiftLeft, BitVec.getLsbD_shiftLeft, BitVec.getLsbD_setWidth, BitVec.getLsbD_setWidth]
      by_cases h : i < n
      · simp [h]
      · simp [h, show i - n < w by omega, show i - n < w - n by omega]
  rw [← hlow, ← iterate_xor, BitVec.setWidth_xor, BitVec.shiftLeft_xor_distrib]
  congr 1
  conv_lhs => rw [split_left hn c]
  ac_rfl

theorem iterate_symbol_right (hodd : poly.getMsbD 0 = true) (c : BitVec w) (p : BitVec n) :
    (lsbFirst poly hodd).feed^[n] (c ^^^ p.setWidth w) = (c >>> n) ^^^
      (lsbFirst poly hodd).feed^[n] ((c.setWidth n ^^^ p).setWidth w) := by
  have hhigh : (lsbFirst poly hodd).feed^[n] ((c >>> n) <<< n) = c >>> n := by
    refine (iterate_feedRight fun i hi => ?_).trans (BitVec.eq_of_getLsbD_eq fun i hi => ?_)
    · simp [BitVec.getLsbD_shiftLeft, hi]
    · simp only [BitVec.getLsbD_ushiftRight, BitVec.getLsbD_shiftLeft]
      by_cases h : n + i < w
      · simp [h]
      · simp [BitVec.getLsbD_of_ge c (n + i) (by omega)]
  rw [← hhigh, ← iterate_xor, BitVec.setWidth_xor]
  congr 1
  conv_lhs => rw [split_right n c]
  ac_rfl

theorem getD_map_range {f : Nat → Bool} (hf : ∀ i, n ≤ i → f i = false) (i : Nat) :
    ((List.range n).map f).getD i false = f i := by
  rcases Nat.lt_or_ge i n with hi | hi
  · simp [hi]
  · simp [hi, hf i hi]

/-- The bits of a symbol fill the first slots with it. -/
theorem place_left (hodd : poly.getLsbD 0 = true) (hn : n ≤ w) (p : BitVec n) :
    (msbFirst poly hodd).place 0 ((List.range n).map p.getMsbD) = p.setWidth w <<< (w - n) := by
  refine (msbFirst poly hodd).ext _ _ fun i hi => ?_
  have hi' : i < w := hi
  rw [read_place (by simpa [msbFirst] using hn) hi, Nat.sub_zero, getD_map_range fun j hj => BitVec.getMsbD_of_ge p j hj]
  change _ = BitVec.getMsbD _ i
  have hindex : i + (w - n) + n - w = i := by omega
  rw [BitVec.getMsbD_shiftLeft, BitVec.getMsbD_setWidth, hindex]
  simp

theorem place_right (hodd : poly.getMsbD 0 = true) (hn : n ≤ w) (p : BitVec n) :
    (lsbFirst poly hodd).place 0 ((List.range n).map p.getLsbD) = p.setWidth w := by
  refine (lsbFirst poly hodd).ext _ _ fun i hi => ?_
  have hi' : i < w := hi
  rw [read_place (by simpa [lsbFirst] using hn) hi, Nat.sub_zero, getD_map_range fun j hj => BitVec.getLsbD_of_ge p j hj]
  change _ = BitVec.getLsbD _ i
  rw [BitVec.getLsbD_setWidth]
  simp [hi']

theorem place_left_self (hodd : poly.getLsbD 0 = true) (a : BitVec w) :
    (msbFirst poly hodd).place 0 ((List.range w).map a.getMsbD) = a := by
  rw [place_left hodd (Nat.le_refl w), BitVec.setWidth_eq, Nat.sub_self, BitVec.shiftLeft_zero]

theorem place_right_self (hodd : poly.getMsbD 0 = true) (a : BitVec w) :
    (lsbFirst poly hodd).place 0 ((List.range w).map a.getLsbD) = a := by
  rw [place_right hodd (Nat.le_refl w), BitVec.setWidth_eq]

end Symbol

end ShiftRegister
