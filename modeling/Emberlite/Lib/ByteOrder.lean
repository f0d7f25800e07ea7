import Mathlib.Data.List.Basic
import Mathlib.Algebra.Group.Nat.Defs

/-! Words and the bytes that stand for them, in both orders. -/

namespace ByteOrder

/-- The bytes of a word, most significant first. -/
def bigEndian {w : Nat} (count : Nat) (x : BitVec w) : List (BitVec 8) :=
  (List.range count).map fun i => (x >>> (8 * (count - 1 - i))).setWidth 8

/-- The low bytes of a number, the least significant first. -/
def littleEndian {w : Nat} (count : Nat) (x : BitVec w) : List (BitVec 8) :=
  (List.range count).map fun i => (x >>> (8 * i)).setWidth 8

/-- The word that the bytes stand for, least significant first; what it has no room for is dropped. -/
def fromLittleEndian (w : Nat) (bytes : List (BitVec 8)) : BitVec w :=
  bytes.foldr (fun b x => x <<< 8 ||| b.setWidth w) 0

/-- The byte of a word `shift` bits up, as a shift and a mask give it. -/
def byteAt {w : Nat} (x : BitVec w) (shift : Nat) : BitVec 8 := ((x >>> shift) &&& 0xFF#w).setWidth 8

/-- The word of four bytes, most significant first. -/
def word (p q r s : BitVec 8) : BitVec 32 := p ++ q ++ r ++ s

theorem length_bigEndian {w : Nat} (count : Nat) (x : BitVec w) : (bigEndian count x).length = count := by
  rw [bigEndian, List.length_map, List.length_range]

theorem length_littleEndian {w : Nat} (count : Nat) (x : BitVec w) : (littleEndian count x).length = count := by
  rw [littleEndian, List.length_map, List.length_range]

theorem setWidth_and_mask {w : Nat} (x : BitVec w) : (x &&& 0xFF#w).setWidth 8 = x.setWidth 8 := by
  refine BitVec.eq_of_getLsbD_eq fun i hi => ?_
  have hmask : Nat.testBit 0xFF i = true := by
    rw [show 0xFF = 2 ^ 8 - 1 by rfl, Nat.testBit_two_pow_sub_one]
    exact decide_eq_true hi
  rw [BitVec.getLsbD_setWidth, BitVec.getLsbD_setWidth, BitVec.getLsbD_and, BitVec.getLsbD_ofNat, hmask]
  by_cases hw : i < w
  · simp [hw]
  · simp [BitVec.getLsbD_of_ge _ _ (Nat.le_of_not_lt hw)]

theorem byteAt_eq {w : Nat} (x : BitVec w) (shift : Nat) : byteAt x shift = (x >>> shift).setWidth 8 :=
  setWidth_and_mask _

theorem setWidth_append {m n w : Nat} (x : BitVec m) (y : BitVec n) :
    (x ++ y).setWidth w = (x.setWidth w <<< n) ||| y.setWidth w := by
  refine BitVec.eq_of_getLsbD_eq fun i hi => ?_
  rw [BitVec.getLsbD_setWidth, BitVec.getLsbD_append, BitVec.getLsbD_or, BitVec.getLsbD_shiftLeft,
    BitVec.getLsbD_setWidth, BitVec.getLsbD_setWidth]
  by_cases h : i < n
  · simp [h, hi]
  · simp [h, hi, BitVec.getLsbD_of_ge y i (Nat.le_of_not_lt h), show i - n < w by omega]

theorem word_eq (p q r s : BitVec 8) :
    (p.setWidth 32 <<< 24) ||| (q.setWidth 32 <<< 16) ||| (r.setWidth 32 <<< 8) ||| s.setWidth 32 = word p q r s := by
  have hword : word p q r s = (p ++ q ++ r ++ s).setWidth 32 := (BitVec.setWidth_eq _).symm
  rw [hword, setWidth_append (p ++ q ++ r) s, setWidth_append (p ++ q) r, setWidth_append p q,
    BitVec.shiftLeft_or_distrib, BitVec.shiftLeft_or_distrib, BitVec.shiftLeft_or_distrib, ← BitVec.shiftLeft_add,
    ← BitVec.shiftLeft_add, ← BitVec.shiftLeft_add]

theorem word_eq_low (p q r s : BitVec 8) :
    p.setWidth 32 ||| (q.setWidth 32 <<< 8) ||| (r.setWidth 32 <<< 16) ||| (s.setWidth 32 <<< 24) = word s r q p := by
  have hreverse : ∀ a b c d : BitVec 32, a ||| b ||| c ||| d = d ||| c ||| b ||| a := fun a b c d => by ac_rfl
  rw [hreverse, word_eq]

theorem toNat_append {m n : Nat} (x : BitVec m) (y : BitVec n) : (x ++ y).toNat = x.toNat * 2 ^ n + y.toNat := by
  rw [BitVec.toNat_append, ← Nat.shiftLeft_add_eq_or_of_lt y.isLt, Nat.shiftLeft_eq]

/-- The bytes of a word in two halves, the low half first. -/
theorem littleEndian_append (hi lo : BitVec 32) : littleEndian 8 (hi ++ lo) =
    (List.range 8).map fun i => if i < 4 then byteAt lo (8 * i) else byteAt hi (8 * (i - 4)) := by
  refine List.map_congr_left fun i _ => BitVec.eq_of_getLsbD_eq fun j hj => ?_
  rw [BitVec.getLsbD_setWidth, BitVec.getLsbD_ushiftRight, BitVec.getLsbD_append]
  split <;> rename_i hlow
  · have hi : i < 4 := by omega
    rw [if_pos hi, byteAt_eq, BitVec.getLsbD_setWidth, BitVec.getLsbD_ushiftRight]
  · have hi : ¬i < 4 := by omega
    have hindex : 8 * i + j - 32 = 8 * (i - 4) + j := by omega
    rw [if_neg hi, byteAt_eq, BitVec.getLsbD_setWidth, BitVec.getLsbD_ushiftRight, hindex]

/-! ### Reading back -/

theorem getLsbD_fromLittleEndian (w : Nat) (bytes : List (BitVec 8)) (i : Nat) :
    (fromLittleEndian w bytes).getLsbD i = (decide (i < w) && (bytes.getD (i / 8) 0).getLsbD (i % 8)) := by
  induction bytes generalizing i with
  | nil => simp [fromLittleEndian]
  | cons b bytes ih =>
    have hcons : fromLittleEndian w (b :: bytes) = fromLittleEndian w bytes <<< 8 ||| b.setWidth w := rfl
    rw [hcons, BitVec.getLsbD_or, BitVec.getLsbD_shiftLeft, BitVec.getLsbD_setWidth, ih]
    by_cases hlow : i < 8
    · have hdiv : i / 8 = 0 := Nat.div_eq_of_lt hlow
      have hmod : i % 8 = i := Nat.mod_eq_of_lt hlow
      simp [hlow, hdiv, hmod]
    · have hdiv : i / 8 = (i - 8) / 8 + 1 := by omega
      have hmod : (i - 8) % 8 = i % 8 := by omega
      have hout : b.getLsbD i = false := BitVec.getLsbD_of_ge b i (Nat.le_of_not_lt hlow)
      rw [hdiv, hmod, hout, List.getD_cons_succ]
      by_cases hi : i < w
      · have hi' : i - 8 < w := Nat.lt_of_le_of_lt (Nat.sub_le i 8) hi
        simp [hlow, hi, hi']
      · simp [hi]

/-- A word is read back from its bytes. -/
theorem fromLittleEndian_littleEndian {w n : Nat} (h : w ≤ 8 * n) (x : BitVec w) :
    fromLittleEndian w (littleEndian n x) = x := by
  refine BitVec.eq_of_getLsbD_eq fun i hi => ?_
  have hbyte : i / 8 < n := by omega
  have hget : (littleEndian n x).getD (i / 8) 0 = (x >>> (8 * (i / 8))).setWidth 8 := by
    rw [List.getD_eq_getElem?_getD, littleEndian, List.getElem?_map, List.getElem?_range hbyte]
    rfl
  have hbit : i % 8 < 8 := Nat.mod_lt i (by decide)
  rw [getLsbD_fromLittleEndian, hget, BitVec.getLsbD_setWidth, BitVec.getLsbD_ushiftRight, Nat.div_add_mod]
  simp [hi, hbit]

end ByteOrder
