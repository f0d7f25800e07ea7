import Mathlib.Data.List.TakeWhile

/-! Insertion into an ordered list, after the elements that stay ahead of the new one. -/

namespace StableInsert
variable {α : Type}

/-- `x` goes after the first elements for which `stays` holds. -/
def insert (stays : α → Bool) (x : α) (l : List α) : List α :=
  l.takeWhile stays ++ x :: l.dropWhile stays

variable {stays : α → Bool} {x : α} {l : List α}

theorem insert_perm (stays : α → Bool) (x : α) (l : List α) : (insert stays x l).Perm (x :: l) := by
  have hperm : (insert stays x l).Perm (x :: (l.takeWhile stays ++ l.dropWhile stays)) := List.perm_middle
  rwa [List.takeWhile_append_dropWhile] at hperm

theorem mem_insert {y : α} : y ∈ insert stays x l ↔ y = x ∨ y ∈ l := by
  rw [(insert_perm stays x l).mem_iff, List.mem_cons]

/-- An order is kept when it puts `x` after the elements that stay ahead and before the others, and when
    nothing that stays ahead comes after something that does not. -/
theorem pairwise_insert {R : α → α → Prop} (hl : l.Pairwise R) (hahead : ∀ a ∈ l, stays a = true → R a x)
    (hbehind : ∀ a ∈ l, stays a = false → R x a)
    (hmono : ∀ a ∈ l, ∀ b ∈ l, R a b → stays a = false → stays b = false) : (insert stays x l).Pairwise R := by
  have hsplit : l = l.takeWhile stays ++ l.dropWhile stays := (List.takeWhile_append_dropWhile).symm
  rw [hsplit, List.pairwise_append] at hl
  obtain ⟨htake, hdrop, hcross⟩ := hl
  have hin : ∀ {a}, a ∈ l.dropWhile stays → a ∈ l := fun ha => (List.dropWhile_sublist _).subset ha
  -- After the first element that does not stay ahead, none does.
  have hfalse : ∀ a ∈ l.dropWhile stays, stays a = false := by
    intro a ha
    rcases hd : l.dropWhile stays with _ | ⟨b, rest⟩
    · rw [hd] at ha
      cases ha
    · have hb : stays b = false := by
        have := List.head?_dropWhile_not stays l
        rw [hd] at this
        simpa using this
      rw [hd] at ha hdrop
      rcases List.mem_cons.mp ha with rfl | ha
      · exact hb
      · have hinb : b ∈ l := hin (hd ▸ List.mem_cons_self)
        have hina : a ∈ l := hin (hd ▸ List.mem_cons_of_mem b ha)
        exact hmono b hinb a hina (List.rel_of_pairwise_cons hdrop ha) hb
  refine List.pairwise_append.mpr ⟨htake, List.pairwise_cons.mpr ⟨fun a ha => ?_, hdrop⟩, fun a ha b hb => ?_⟩
  · exact hbehind a (hin ha) (hfalse a ha)
  · have hstays := List.mem_takeWhile_imp ha
    rcases List.mem_cons.mp hb with rfl | hb
    · exact hahead a ((List.takeWhile_sublist _).subset ha) hstays
    · exact hcross a ha b hb

end StableInsert
