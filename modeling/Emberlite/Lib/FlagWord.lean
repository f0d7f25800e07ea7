import Mathlib.Data.BitVec

/-! Words of flags that are edited in place: a field of the word is what the word has under a mask, and an edit clears
    the bits of one mask or sets those of another. -/

namespace FlagWord
variable {w : Nat} {x bits mask field : BitVec w}

theorem clear_apart (h : mask &&& field = 0#w) : x &&& ~~~mask &&& field = x &&& field := by
  refine BitVec.eq_of_getLsbD_eq fun i hi => ?_
  have hbit := congrArg (fun y => BitVec.getLsbD y i) h
  simp only [BitVec.getLsbD_and, BitVec.getLsbD_not, BitVec.getLsbD_zero, hi, decide_true, Bool.true_and] at hbit ⊢
  cases hm : mask.getLsbD i
  · rw [Bool.not_false, Bool.and_true]
  · rw [hm, Bool.true_and] at hbit
    rw [hbit, Bool.and_false, Bool.and_false]

theorem clear_within (h : field &&& ~~~mask = 0#w) : x &&& ~~~mask &&& field = 0#w := by
  rw [BitVec.and_assoc, BitVec.and_comm _ field, h, BitVec.and_zero]

theorem set_apart (h : bits &&& field = 0#w) : (x ||| bits) &&& field = x &&& field := by
  rw [BitVec.and_or_distrib_right, h, BitVec.or_zero]

/-- Bits that are set in a field that was clear are what the field then has. -/
theorem set_clear (h : x &&& field = 0#w) : (x ||| bits) &&& field = bits &&& field := by
  rw [BitVec.and_or_distrib_right, h, BitVec.zero_or]

/-- A field that is set as a whole. -/
theorem set_within (h : field &&& ~~~bits = 0#w) : (x ||| bits) &&& field = field := by
  refine BitVec.eq_of_getLsbD_eq fun i hi => ?_
  have hbit := congrArg (fun y => BitVec.getLsbD y i) h
  simp only [BitVec.getLsbD_and, BitVec.getLsbD_or, BitVec.getLsbD_not, BitVec.getLsbD_zero, hi, decide_true,
    Bool.true_and] at hbit ⊢
  cases hf : field.getLsbD i
  · rw [Bool.and_false]
  · rw [hf, Bool.true_and, Bool.not_eq_false'] at hbit
    rw [hbit, Bool.or_true, Bool.and_true]

/-- A part of a field is as the field is. -/
theorem part_congr {y part : BitVec w} (h : x &&& field = y &&& field) (hpart : field &&& part = part) :
    x &&& part = y &&& part := by
  rw [← hpart, ← BitVec.and_assoc, h, BitVec.and_assoc]

end FlagWord
