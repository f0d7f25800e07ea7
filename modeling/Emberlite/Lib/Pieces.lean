import Mathlib.Algebra.Order.BigOperators.Group.List
import Mathlib.Tactic.Ring

/-! A run of elements in memory that is moved in pieces. A piece starts where the one before it ends. -/

namespace Pieces

/-- `count` elements from `addr` on. -/
structure Piece where
  addr : Nat
  count : Nat
  deriving DecidableEq, Repr

/-- How many elements the pieces have together. -/
def total (ps : List Piece) : Nat := (ps.map Piece.count).sum

/-- Where each element is, in the order in which they are moved, when an element takes `size`. -/
def places (size : Nat) (ps : List Piece) : List Nat :=
  ps.flatMap fun p => (List.range p.count).map fun k => p.addr + k * size

/-- Pieces of elements that take `size`, each from where the one before it ends. -/
def Contiguous (size : Nat) : Nat → List Piece → Prop
  | _, [] => True
  | addr, p :: ps => p.addr = addr ∧ Contiguous size (addr + p.count * size) ps

variable {size other addr : Nat} {p : Piece} {ps : List Piece}

@[simp] theorem total_cons : total (p :: ps) = p.count + total ps := by
  rw [total, List.map_cons, List.sum_cons, total]

@[simp] theorem places_cons :
    places size (p :: ps) = ((List.range p.count).map fun k => p.addr + k * size) ++ places size ps := by
  rw [places, List.flatMap_cons, ← places]

theorem count_le_total (hp : p ∈ ps) : p.count ≤ total ps :=
  List.le_sum_of_mem (List.mem_map_of_mem hp)

theorem Contiguous.places_eq (h : Contiguous size addr ps) :
    places size ps = (List.range (total ps)).map fun k => addr + k * size := by
  induction ps generalizing addr with
  | nil => rfl
  | cons p ps ih =>
    obtain ⟨rfl, hrest⟩ := h
    rw [places_cons, ih hrest, total_cons, List.range_add, List.map_append, List.map_map]
    congr 1
    apply List.map_congr_left
    intro k _
    rw [Function.comp_apply]
    ring

/-! ### Elements of another size

The pieces are moved for elements that take `size`, and the elements take `other`. -/

theorem places_eq_nil (h : total ps = 0) : places other ps = [] := by
  induction ps with
  | nil => rfl
  | cons p ps ih =>
    rw [total_cons, Nat.add_eq_zero_iff] at h
    obtain ⟨hcount, hrest⟩ := h
    simp [hcount, ih hrest]

theorem Contiguous.head_places (h : Contiguous size addr ps) (hpos : 0 < total ps) :
    (places other ps).head? = some addr := by
  induction ps generalizing addr with
  | nil => cases hpos
  | cons p ps ih =>
    obtain ⟨rfl, hrest⟩ := h
    rw [total_cons] at hpos
    rcases hcount : p.count with _ | n
    · rw [hcount, Nat.zero_mul, Nat.add_zero] at hrest
      simp [hcount, ih hrest (by omega)]
    · simp [hcount, List.range_succ_eq_map]

/-- An element is where it should be only while no piece has ended before it. -/
theorem Contiguous.places_eq_iff (h : Contiguous size addr ps) (hother : other ≠ size) :
    (places other ps = (List.range (total ps)).map fun k => addr + k * other) ↔
      total ps = 0 ∨ ∃ p ∈ ps, p.count = total ps := by
  induction ps generalizing addr with
  | nil => exact iff_of_true rfl (Or.inl rfl)
  | cons p ps ih =>
    obtain ⟨rfl, hrest⟩ := h
    rcases Nat.eq_zero_or_pos p.count with hcount | hcount
    · rw [hcount, Nat.zero_mul, Nat.add_zero] at hrest
      rw [places_cons, total_cons, hcount, Nat.zero_add]
      simp only [List.range_zero, List.map_nil, List.nil_append, ih hrest, List.exists_mem_cons_iff, hcount]
      constructor
      · rintro (hzero | hlater)
        · exact Or.inl hzero
        · exact Or.inr (Or.inr hlater)
      · rintro (hzero | hzero | hlater)
        · exact Or.inl hzero
        · exact Or.inl hzero.symm
        · exact Or.inr hlater
    · rcases Nat.eq_zero_or_pos (total ps) with hzero | hmore
      · refine iff_of_true ?_ (Or.inr ⟨p, List.mem_cons_self, by rw [total_cons, hzero, Nat.add_zero]⟩)
        rw [places_cons, places_eq_nil hzero, List.append_nil, total_cons, hzero, Nat.add_zero]
      · refine iff_of_false (fun heq => ?_) ?_
        · rw [places_cons, total_cons, List.range_add, List.map_append, List.append_cancel_left_eq,
            List.map_map] at heq
          have hhead : (places other ps).head? = some (p.addr + p.count * size) := hrest.head_places hmore
          obtain ⟨n, hn⟩ := Nat.exists_eq_succ_of_ne_zero hmore.ne'
          simp only [heq, hn, List.range_succ_eq_map, List.map_cons, List.head?_cons, Option.some_inj,
            Function.comp_apply, Nat.add_zero, Nat.add_left_cancel_iff] at hhead
          exact hother (Nat.eq_of_mul_eq_mul_left hcount hhead)
        · rintro (hnone | ⟨q, hq, hwhole⟩)
          · rw [total_cons] at hnone
            omega
          · rw [total_cons] at hwhole
            rcases List.mem_cons.mp hq with rfl | hq
            · omega
            · have hle := count_le_total hq
              omega

/-- No piece leaves the run. -/
theorem Contiguous.inside (h : Contiguous size addr ps) (hp : p ∈ ps) :
    addr ≤ p.addr ∧ p.addr + p.count * size ≤ addr + total ps * size := by
  induction ps generalizing addr with
  | nil => cases hp
  | cons q ps ih =>
    obtain ⟨rfl, hrest⟩ := h
    rw [total_cons, Nat.add_mul]
    rcases List.mem_cons.mp hp with rfl | hp
    · exact ⟨Nat.le_refl _, by omega⟩
    · obtain ⟨hlow, hhigh⟩ := ih hrest hp
      exact ⟨by omega, by omega⟩

/-- Of the pieces that are not empty the last one reaches the end. -/
theorem Contiguous.exists_last (h : Contiguous size addr ps) (hpos : 0 < total ps) :
    ∃ p ∈ ps, 0 < p.count ∧ p.addr + p.count * size = addr + total ps * size := by
  induction ps generalizing addr with
  | nil => cases hpos
  | cons p ps ih =>
    obtain ⟨rfl, hrest⟩ := h
    rw [total_cons] at hpos ⊢
    rcases Nat.eq_zero_or_pos (total ps) with hzero | hmore
    · refine ⟨p, List.mem_cons_self, by omega, ?_⟩
      rw [hzero, Nat.add_zero]
    · obtain ⟨q, hq, hcount, hend⟩ := ih hrest hmore
      refine ⟨q, List.mem_cons_of_mem _ hq, hcount, ?_⟩
      rw [hend]
      ring

end Pieces
