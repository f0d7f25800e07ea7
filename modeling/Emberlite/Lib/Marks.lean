import Mathlib.Data.List.Basic

/-! Lists with begin and end marks in them, and a filter that drops what is between two marks, and the marks. -/

namespace Marks
variable {α : Type}

section Free
variable (b e : α)

/-- No mark is among these. -/
def Free (xs : List α) : Prop := b ∉ xs ∧ e ∉ xs

instance [DecidableEq α] (xs : List α) : Decidable (Free b e xs) := inferInstanceAs (Decidable (_ ∧ _))

variable {b e} {xs ys : List α}

theorem free_append : Free b e (xs ++ ys) ↔ Free b e xs ∧ Free b e ys := by
  simp only [Free, List.mem_append, not_or]
  tauto

theorem free_cons {x : α} : Free b e (x :: xs) ↔ (x ≠ b ∧ x ≠ e) ∧ Free b e xs := by
  simp only [Free, List.mem_cons, not_or, ne_comm, ne_eq]
  tauto

theorem Free.sublist (h : Free b e ys) (hsub : xs.Sublist ys) : Free b e xs :=
  ⟨fun hb => h.1 (hsub.subset hb), fun he => h.2 (hsub.subset he)⟩

end Free

section Strip
variable [DecidableEq α] (b e : α)

/-- The filter, with its one bit of state. -/
def strip : (inside : Bool) → List α → List α
  | _, [] => []
  | inside, x :: xs =>
    if x = b then strip true xs
    else if x = e then strip false xs
    else if inside then strip inside xs
    else x :: strip inside xs

/-- What is not in a pair of a begin mark and the first end mark after it. -/
def outside : (inside : Bool) → List α → List α
  | _, [] => []
  | false, x :: xs => if x = b ∧ e ∈ xs then outside true xs else x :: outside false xs
  | true, x :: xs => if x = e then outside false xs else outside true xs

/-- Every mark belongs to a pair. -/
def Paired (xs : List α) : Prop := Free b e (outside b e false xs)

/-- Every end mark has a begin mark before it, and the last begin mark an end mark after it. -/
def Matched : (inside : Bool) → List α → Prop
  | inside, [] => inside = false
  | inside, x :: xs =>
    if x = b then Matched true xs
    else if x = e then inside = true ∧ Matched false xs
    else Matched inside xs

instance (xs : List α) : Decidable (Paired b e xs) := inferInstanceAs (Decidable (Free b e _))

variable {b e} {inside : Bool} {xs ys : List α}

theorem free_strip (inside : Bool) (xs : List α) : Free b e (strip b e inside xs) := by
  induction xs generalizing inside with
  | nil => exact ⟨List.not_mem_nil, List.not_mem_nil⟩
  | cons x xs ih =>
    rw [strip]
    split
    · exact ih true
    · case _ hb =>
      split
      · exact ih false
      · case _ he =>
        split
        · exact ih inside
        · exact free_cons.mpr ⟨⟨hb, he⟩, ih inside⟩

theorem strip_sublist (inside : Bool) (xs : List α) : (strip b e inside xs).Sublist xs := by
  induction xs generalizing inside with
  | nil => exact List.Sublist.slnil
  | cons x xs ih =>
    rw [strip]
    split
    · exact (ih true).cons x
    · split
      · exact (ih false).cons x
      · split
        · exact (ih inside).cons x
        · exact (ih inside).cons_cons x

/-- Where there are no marks, nothing is dropped. -/
theorem strip_append_of_free (h : Free b e xs) (ys : List α) :
    strip b e false (xs ++ ys) = xs ++ strip b e false ys := by
  induction xs with
  | nil => rfl
  | cons x xs ih =>
    obtain ⟨⟨hb, he⟩, hxs⟩ := free_cons.mp h
    rw [List.cons_append, strip, if_neg hb, if_neg he, if_neg Bool.false_ne_true, ih hxs, List.cons_append]

theorem strip_of_free (h : Free b e xs) : strip b e false xs = xs := by
  simpa [strip] using strip_append_of_free h []

/-- Inside of a block everything is dropped, up to its end. -/
theorem strip_block (hne : b ≠ e) (h : Free b e xs) (ys : List α) :
    strip b e true (xs ++ e :: ys) = strip b e false ys := by
  induction xs with
  | nil => rw [List.nil_append, strip, if_neg (Ne.symm hne), if_pos rfl]
  | cons x xs ih =>
    obtain ⟨⟨hb, he⟩, hxs⟩ := free_cons.mp h
    rw [List.cons_append, strip, if_neg hb, if_neg he, if_pos rfl, ih hxs]

theorem mem_of_matched (h : Matched b e true xs) : e ∈ xs := by
  induction xs with
  | nil => cases h
  | cons x xs ih =>
    rw [Matched] at h
    split at h
    · exact List.mem_cons_of_mem _ (ih h)
    · split at h
      · case _ he => exact he ▸ List.mem_cons_self
      · exact List.mem_cons_of_mem _ (ih h)

/-- The marks are matched exactly where each belongs to a pair. -/
theorem free_outside_iff (hne : b ≠ e) (inside : Bool) (xs : List α) (hinside : inside = true → e ∈ xs) :
    Free b e (outside b e inside xs) ↔ Matched b e inside xs := by
  induction xs generalizing inside with
  | nil =>
    cases inside with
    | false => exact iff_of_true ⟨List.not_mem_nil, List.not_mem_nil⟩ rfl
    | true => exact absurd (hinside rfl) List.not_mem_nil
  | cons x xs ih =>
    rw [Matched]
    cases inside with
    | false =>
      rw [outside]
      by_cases hb : x = b
      · rw [if_pos hb]
        by_cases he : e ∈ xs
        · rw [if_pos ⟨hb, he⟩]
          exact ih true fun _ => he
        · rw [if_neg fun h => he h.2]
          exact iff_of_false (fun h => (free_cons.mp h).1.1 hb) fun h => he (mem_of_matched h)
      · rw [if_neg fun h => hb h.1, if_neg hb]
        by_cases he : x = e
        · rw [if_pos he]
          exact iff_of_false (fun h => (free_cons.mp h).1.2 he) fun h => Bool.false_ne_true h.1
        · rw [if_neg he, ← ih false nofun, free_cons]
          exact and_iff_right ⟨hb, he⟩
    | true =>
      rw [outside]
      by_cases he : x = e
      · have hb : x ≠ b := fun h => hne (h.symm.trans he)
        rw [if_pos he, if_neg hb, if_pos he, ih false nofun]
        exact (and_iff_right rfl).symm
      · have hlater : e ∈ xs := (List.mem_cons.mp (hinside rfl)).resolve_left (Ne.symm he)
        rw [if_neg he, if_neg he, ite_self]
        exact ih true fun _ => hlater

theorem paired_iff (hne : b ≠ e) : Paired b e xs ↔ Matched b e false xs := free_outside_iff hne false xs nofun

theorem matched_of_free (h : Free b e ys) : Matched b e inside ys ↔ inside = false := by
  induction ys with
  | nil => exact Iff.rfl
  | cons y ys ih =>
    obtain ⟨⟨hb, he⟩, hys⟩ := free_cons.mp h
    rw [Matched, if_neg hb, if_neg he]
    exact ih hys

theorem paired_of_free (hne : b ≠ e) (h : Free b e xs) : Paired b e xs :=
  (paired_iff hne).mpr ((matched_of_free h).mpr rfl)

theorem strip_of_matched (hne : b ≠ e) (h : Matched b e inside xs) : strip b e inside xs = outside b e inside xs := by
  induction xs generalizing inside with
  | nil => cases inside <;> rfl
  | cons x xs ih =>
    rw [Matched] at h
    rw [strip]
    by_cases hb : x = b
    · rw [if_pos hb] at h ⊢
      have hlater := mem_of_matched h
      have hx : x ≠ e := fun he => hne (hb.symm.trans he)
      cases inside with
      | false => rw [outside, if_pos ⟨hb, hlater⟩, ih h]
      | true => rw [outside, if_neg hx, ih h]
    · rw [if_neg hb] at h ⊢
      by_cases he : x = e
      · rw [if_pos he] at h ⊢
        rw [h.1, outside, if_pos he, ih h.2]
      · rw [if_neg he] at h ⊢
        cases inside with
        | false => rw [if_neg Bool.false_ne_true, outside, if_neg fun h => hb h.1, ih h]
        | true => rw [if_pos rfl, outside, if_neg he, ih h]

theorem strip_of_paired (hne : b ≠ e) (h : Paired b e xs) : strip b e false xs = outside b e false xs :=
  strip_of_matched hne ((paired_iff hne).mp h)

/-- What is in no pair survives the filter if and only if every mark is in a pair. -/
theorem sublist_strip_iff (hne : b ≠ e) :
    (outside b e false xs).Sublist (strip b e false xs) ↔ Paired b e xs := by
  constructor
  · intro hsub
    exact (free_strip false xs).sublist hsub
  · intro h
    rw [strip_of_paired hne h]

theorem free_append_matched (h : Free b e xs) (ys : List α) : Matched b e inside (xs ++ ys) ↔ Matched b e inside ys := by
  induction xs with
  | nil => exact Iff.rfl
  | cons x xs ih =>
    obtain ⟨⟨hb, he⟩, hxs⟩ := free_cons.mp h
    rw [List.cons_append, Matched, if_neg hb, if_neg he]
    exact ih hxs

theorem matched_block (hne : b ≠ e) (h : Free b e xs) : Matched b e false (b :: (xs ++ [e])) := by
  have hlast : Matched b e true [e] := by
    rw [Matched, if_neg (Ne.symm hne), if_pos rfl]
    exact ⟨rfl, rfl⟩
  rw [Matched, if_pos rfl]
  exact (free_append_matched h _).mpr hlast

/-- What has no marks may follow. -/
theorem matched_append_of_free (h : Free b e ys) : Matched b e inside (xs ++ ys) ↔ Matched b e inside xs := by
  induction xs generalizing inside with
  | nil => exact matched_of_free h
  | cons x xs ih => simp only [List.cons_append, Matched, ih]

theorem matched_append (h : Matched b e inside xs) (ys : List α) :
    Matched b e inside (xs ++ ys) ↔ Matched b e false ys := by
  induction xs generalizing inside with
  | nil =>
    obtain rfl : inside = false := h
    exact Iff.rfl
  | cons x xs ih =>
    rw [Matched] at h
    rw [List.cons_append, Matched]
    split at h
    · case _ hb =>
      rw [if_pos hb]
      exact ih h
    · case _ hb =>
      rw [if_neg hb]
      split at h
      · case _ he =>
        rw [if_pos he, and_iff_right h.1]
        exact ih h.2
      · case _ he =>
        rw [if_neg he]
        exact ih h

theorem strip_append_of_matched (h : Matched b e inside xs) (ys : List α) :
    strip b e inside (xs ++ ys) = strip b e inside xs ++ strip b e false ys := by
  induction xs generalizing inside with
  | nil =>
    obtain rfl : inside = false := h
    rfl
  | cons x xs ih =>
    rw [Matched] at h
    rw [List.cons_append, strip, strip]
    split at h
    · case _ hb => rw [if_pos hb, if_pos hb, ih h]
    · case _ hb =>
      rw [if_neg hb, if_neg hb]
      split at h
      · case _ he => rw [if_pos he, if_pos he, ih h.2]
      · case _ he =>
        rw [if_neg he, if_neg he, ih h]
        split <;> rfl

end Strip

end Marks
