import Mathlib.Data.List.Basic
import Mathlib.Algebra.GroupWithZero.Nat

/-! Messages that come in pieces and are taken in block by block: the full blocks go into a state, one after
    the other, and what does not fill a block waits. -/

namespace BlockStream
variable {S α : Type} (step : S → List α → S) (size : Nat)

/-- The state after the full blocks of a message, and what is left. -/
def absorb (s : S) (message : List α) : S × List α :=
  if _h : 0 < size ∧ size ≤ message.length then absorb (step s (message.take size)) (message.drop size)
  else (s, message)
termination_by message.length
decreasing_by
  rw [List.length_drop]
  omega

variable {step size} [NeZero size] {s : S} {message block piece : List α}

omit [NeZero size] in
theorem absorb_of_lt (hlt : message.length < size) : absorb step size s message = (s, message) := by
  rw [absorb, dif_neg fun h => Nat.not_le_of_lt hlt h.2]

theorem absorb_block (hblock : block.length = size) :
    absorb step size s (block ++ message) = absorb step size (step s block) message := by
  rw [absorb, dif_pos ⟨Nat.pos_of_neZero size, by rw [List.length_append, hblock]; exact Nat.le_add_right size _⟩,
    List.take_left' hblock, List.drop_left' hblock]

/-- How much is left depends on the length alone. -/
theorem length_left (s : S) (message : List α) :
    (absorb step size s message).2.length = message.length % size := by
  induction s, message using absorb.induct step size with
  | case1 s message h ih =>
    rw [absorb, dif_pos h, ih, List.length_drop]
    exact (Nat.mod_eq_sub_mod h.2).symm
  | case2 s message h =>
    rw [absorb, dif_neg h, Nat.mod_eq_of_lt (Nat.lt_of_not_le fun hle => h ⟨Nat.pos_of_neZero size, hle⟩)]

/-- What is left is what follows the full blocks. -/
theorem left_eq (s : S) (message : List α) :
    (absorb step size s message).2 = message.drop (message.length / size * size) := by
  induction s, message using absorb.induct step size with
  | case1 s message h ih =>
    rw [absorb, dif_pos h, ih, List.length_drop, List.drop_drop, Nat.div_eq_sub_div h.1 h.2, Nat.succ_mul, Nat.add_comm]
  | case2 s message h =>
    have hlt : message.length < size := Nat.lt_of_not_le fun hle => h ⟨Nat.pos_of_neZero size, hle⟩
    rw [absorb, dif_neg h, Nat.div_eq_of_lt hlt, Nat.zero_mul, List.drop_zero]

/-- A message may be cut anywhere: the next piece goes in after what the first left. -/
theorem absorb_append (s : S) (message piece : List α) :
    absorb step size s (message ++ piece) =
      absorb step size (absorb step size s message).1 ((absorb step size s message).2 ++ piece) := by
  induction s, message using absorb.induct step size with
  | case1 s message h ih =>
    have hblock : (message.take size).length = size := List.length_take_of_le h.2
    have hfirst : absorb step size s message =
        absorb step size (step s (message.take size)) (message.drop size) := by rw [absorb, dif_pos h]
    rw [hfirst, ← ih, ← absorb_block hblock, ← List.append_assoc, List.take_append_drop]
  | case2 s message h =>
    have hshort : absorb step size s message = (s, message) := by rw [absorb, dif_neg h]
    rw [hshort]

theorem absorb_full (hblock : block.length = size) :
    absorb step size s block = (step s block, []) := by
  have h : absorb step size s (block ++ []) = _ := absorb_block hblock
  rwa [List.append_nil, absorb_of_lt (show [].length < size from Nat.pos_of_neZero size)] at h

/-- What is left and the next piece fill a block. -/
theorem absorb_fill (s : S) {left : List α} (hfill : (left ++ piece).length = size) (rest : List α) :
    absorb step size s (left ++ (piece ++ rest)) = absorb step size (step s (left ++ piece)) ([] ++ rest) := by
  rw [← List.append_assoc, absorb_block hfill, List.nil_append]

/-- A context that stands for what has come in so far stands for all of it after any pieces. -/
theorem foldlM_flatten {C : Type} {update : C → List α → Option C} {Represents : C → List α → Prop}
    (hupdate : ∀ {c m}, Represents c m → ∀ piece, ∃ c', update c piece = some c' ∧ Represents c' (m ++ piece))
    {c : C} (h : Represents c message) (pieces : List (List α)) :
    ∃ c', pieces.foldlM update c = some c' ∧ Represents c' (message ++ pieces.flatten) := by
  induction pieces generalizing c message with
  | nil => exact ⟨c, rfl, by rwa [List.flatten_nil, List.append_nil]⟩
  | cons piece pieces ih =>
    obtain ⟨c₁, hpiece, h₁⟩ := hupdate h piece
    obtain ⟨c', hrest, h'⟩ := ih h₁
    refine ⟨c', ?_, by rwa [List.flatten_cons, ← List.append_assoc]⟩
    rw [List.foldlM_cons, hpiece]
    exact hrest

end BlockStream
