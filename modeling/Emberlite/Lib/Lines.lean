import Mathlib.Data.List.Basic

/-! The records of a text, each of which ends with a separator; the last may do without. -/

namespace Lines
variable {α : Type} {s first : List α} {ls : List (List α)}

section Write
variable (sep : α)

/-- The lines, each with its separator behind it. -/
def unrecords (ls : List (List α)) : List α := ls.flatMap (· ++ [sep])

/-- There is no record without its separator. -/
def Ended (s : List α) : Prop := ∀ c ∈ s.getLast?, c = sep

instance [DecidableEq α] (s : List α) : Decidable (Ended sep s) := inferInstanceAs (Decidable (∀ c ∈ s.getLast?, c = sep))

variable {sep}

@[simp] theorem unrecords_append (ls ls' : List (List α)) :
    unrecords sep (ls ++ ls') = unrecords sep ls ++ unrecords sep ls' := List.flatMap_append

theorem unrecords_cons (first : List α) (ls : List (List α)) :
    unrecords sep (first :: ls) = first ++ sep :: unrecords sep ls := by
  simp [unrecords]

theorem ended_unrecords (ls : List (List α)) : Ended sep (unrecords sep ls) := by
  rcases List.eq_nil_or_concat ls with rfl | ⟨ls, last, rfl⟩
  · exact nofun
  · simp [Ended, unrecords]

theorem ended_cons {c : α} (h : s ≠ []) : Ended sep (c :: s) ↔ Ended sep s := by
  rw [Ended, Ended, List.getLast?_cons_of_ne_nil h]

end Write

section Read
variable [DecidableEq α]

/-- The pieces between the separators; one behind the last of them only if it is not empty. -/
def records (sep : α) : List α → List (List α)
  | [] => []
  | c :: s =>
    if c = sep then [] :: records sep s
    else
      match records sep s with
      | [] => [[c]]
      | first :: rest => (c :: first) :: rest

variable {sep : α}

theorem records_ne_nil (h : s ≠ []) : records sep s ≠ [] := by
  cases s with
  | nil => exact absurd rfl h
  | cons c s =>
    rw [records]
    split
    · exact List.cons_ne_nil _ _
    · cases records sep s <;> exact List.cons_ne_nil _ _

theorem records_append_sep (h : sep ∉ first) (s : List α) :
    records sep (first ++ sep :: s) = first :: records sep s := by
  induction first with
  | nil => exact if_pos rfl
  | cons c first ih =>
    obtain ⟨hc, hfirst⟩ := List.ne_and_not_mem_of_not_mem_cons h
    rw [List.cons_append, records, if_neg (Ne.symm hc), ih hfirst]

/-- Records without separators in them are found again. -/
theorem records_unrecords (h : ∀ l ∈ ls, sep ∉ l) : records sep (unrecords sep ls) = ls := by
  induction ls with
  | nil => rfl
  | cons first ls ih =>
    obtain ⟨hfirst, hls⟩ := List.forall_mem_cons.mp h
    rw [unrecords_cons, records_append_sep hfirst, ih hls]

theorem notMem_of_mem_records : ∀ {s : List α}, ∀ l ∈ records sep s, sep ∉ l
  | [], _, hl => nomatch hl
  | c :: s, l, hl => by
    have ih := notMem_of_mem_records (s := s)
    rw [records] at hl
    split at hl
    · rcases List.mem_cons.mp hl with rfl | hl
      · exact List.not_mem_nil
      · exact ih l hl
    · case _ hc =>
      cases hs : records sep s with
      | nil =>
        rw [hs] at hl
        obtain rfl := List.mem_singleton.mp hl
        simpa using Ne.symm hc
      | cons first rest =>
        rw [hs] at hl ih
        rcases List.mem_cons.mp hl with rfl | hl
        · exact List.not_mem_cons_of_ne_of_not_mem (Ne.symm hc) (ih first List.mem_cons_self)
        · exact ih l (List.mem_cons_of_mem _ hl)

/-- What has been read and written again ends with a separator. -/
theorem unrecords_records (s : List α) :
    unrecords sep (records sep s) = if Ended sep s then s else s ++ [sep] := by
  induction s with
  | nil => rfl
  | cons c s ih =>
    rw [records]
    by_cases hc : c = sep
    · subst hc
      rw [if_pos rfl, unrecords_cons, ih]
      by_cases hs : s = []
      · subst hs
        simp [Ended]
      · simp only [ended_cons hs, List.nil_append]
        split <;> rfl
    · rw [if_neg hc]
      by_cases hs : s = []
      · subst hs
        simp [records, unrecords, Ended, hc]
      · have hne : records sep s ≠ [] := records_ne_nil hs
        obtain ⟨first, rest, hrecords⟩ := List.exists_cons_of_ne_nil hne
        rw [hrecords] at ih ⊢
        simp only [ended_cons hs]
        rw [unrecords_cons] at ih ⊢
        rw [List.cons_append, ih]
        split <;> rfl

theorem unrecords_records_iff : unrecords sep (records sep s) = s ↔ Ended sep s := by
  rw [unrecords_records]
  split
  · case _ h => exact iff_of_true rfl h
  · case _ h => exact iff_of_false (by simp) h

end Read

end Lines
