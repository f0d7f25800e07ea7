import Mathlib.Logic.Function.Basic

/-! Maps with at most one of their keys selected. -/

/-- A map with a key that is selected; a selected key is in the map. -/
structure SelectedMap (κ ν : Type) where
  get : κ → Option ν
  selected : Option κ
  registered : ∀ k, selected = some k → get k ≠ none

namespace SelectedMap
variable {κ ν : Type}

theorem ext {m m' : SelectedMap κ ν} (hget : m.get = m'.get) (hselected : m.selected = m'.selected) : m = m' := by
  cases m
  cases m'
  cases hget
  cases hselected
  rfl

/-- Nothing is in the map, and nothing is selected. -/
def empty : SelectedMap κ ν := ⟨fun _ => none, none, nofun⟩

/-- What the selected key stands for. -/
def current (m : SelectedMap κ ν) : Option ν := m.selected.bind m.get

/-- Only a key of the map can be selected. -/
def select (m : SelectedMap κ ν) (k : κ) (hk : m.get k ≠ none) : SelectedMap κ ν where
  get := m.get
  selected := some k
  registered := by
    rintro _ ⟨⟩
    exact hk

variable [DecidableEq κ]

/-- The selected key stays selected when it gets another value. -/
def insert (m : SelectedMap κ ν) (k : κ) (v : ν) : SelectedMap κ ν where
  get := Function.update m.get k (some v)
  selected := m.selected
  registered k' hk' := by
    by_cases h : k' = k
    · rw [h, Function.update_self]
      nofun
    · rw [Function.update_of_ne h]
      exact m.registered k' hk'

/-- With its key the selection goes. -/
def erase (m : SelectedMap κ ν) (k : κ) : SelectedMap κ ν where
  get := Function.update m.get k none
  selected := if m.selected = some k then none else m.selected
  registered k' hk' := by
    split at hk'
    · cases hk'
    · rename_i hne
      rw [Function.update_of_ne fun h => hne (hk'.trans (congrArg some h))]
      exact m.registered k' hk'

/-- A change of the map; to select or erase what is no key of it is none. -/
inductive Edit (κ ν : Type) where
  | insert (k : κ) (v : ν)
  | select (k : κ)
  | erase (k : κ)

/-- An edit of the map, where it can be made. -/
def apply (m : SelectedMap κ ν) : Edit κ ν → Option (SelectedMap κ ν)
  | .insert k v => some (m.insert k v)
  | .select k => if hk : m.get k ≠ none then some (m.select k hk) else none
  | .erase k => if m.get k ≠ none then some (m.erase k) else none

/-- The map after an edit, the same where it is none. -/
def step (m : SelectedMap κ ν) (e : Edit κ ν) : SelectedMap κ ν := (m.apply e).getD m

variable {m : SelectedMap κ ν} {k k' : κ} {v w : ν} {e : Edit κ ν}

theorem step_insert : m.step (.insert k v) = m.insert k v := rfl

theorem step_select (hk : m.get k ≠ none) : m.step (.select k) = m.select k hk := by
  rw [step, apply, dif_pos hk, Option.getD_some]

theorem step_select_none (hk : m.get k = none) : m.step (.select k) = m := by
  rw [step, apply, dif_neg (not_not.mpr hk), Option.getD_none]

theorem step_erase (hk : m.get k ≠ none) : m.step (.erase k) = m.erase k := by
  rw [step, apply, if_pos hk, Option.getD_some]

theorem step_erase_none (hk : m.get k = none) : m.step (.erase k) = m := by
  rw [step, apply, if_neg (not_not.mpr hk), Option.getD_none]

theorem selected_erase : (m.erase k').selected = some k ↔ m.selected = some k ∧ k ≠ k' := by
  rw [erase]
  dsimp only
  split
  · rename_i h
    refine iff_of_false nofun fun ⟨hk, hne⟩ => hne ?_
    exact Option.some.inj (hk.symm.trans h)
  · rename_i h
    refine ⟨fun hk => ⟨hk, fun heq => h (heq ▸ hk)⟩, And.left⟩

/-- A key has the value that was inserted last, unless it was erased since. -/
theorem get_step : (m.step e).get k = some v ↔
    e = .insert k v ∨ m.get k = some v ∧ (∀ w, e ≠ .insert k w) ∧ e ≠ .erase k := by
  cases e with
  | insert k' w =>
    by_cases hk : k' = k
    · subst hk
      simp [step_insert, insert]
    · simp [step_insert, insert, Function.update_of_ne (Ne.symm hk), hk]
  | select k' =>
    by_cases hk' : m.get k' = none
    · simp [step_select_none hk']
    · simp [step_select hk', select]
  | erase k' =>
    by_cases hk' : m.get k' = none
    · rw [step_erase_none hk']
      by_cases hk : k' = k
      · subst hk
        simp [hk']
      · simp [hk]
    · rw [step_erase hk']
      by_cases hk : k' = k
      · subst hk
        simp [erase]
      · simp [erase, Function.update_of_ne (Ne.symm hk), hk]

/-- A key is selected until it is erased or another key of the map is selected. -/
theorem selected_step : (m.step e).selected = some k ↔
    e = .select k ∧ m.get k ≠ none ∨ m.selected = some k ∧ e ≠ .erase k ∧ ∀ k', e = .select k' → m.get k' = none := by
  cases e with
  | insert k' w => simp [step_insert, insert]
  | select k' =>
    by_cases hk' : m.get k' = none
    · rw [step_select_none hk']
      constructor
      · exact fun h => .inr ⟨h, nofun, by rintro _ ⟨⟩; exact hk'⟩
      · rintro (⟨⟨⟩, hk⟩ | ⟨h, -⟩)
        · exact absurd hk' hk
        · exact h
    · rw [step_select hk']
      constructor
      · rintro ⟨⟩
        exact .inl ⟨rfl, hk'⟩
      · rintro (⟨⟨⟩, -⟩ | ⟨-, -, h⟩)
        · rfl
        · exact absurd (h k' rfl) hk'
  | erase k' =>
    by_cases hk' : m.get k' = none
    · rw [step_erase_none hk']
      constructor
      · refine fun h => .inr ⟨h, ?_, nofun⟩
        rintro ⟨⟩
        exact m.registered k h hk'
      · rintro (⟨⟨⟩, -⟩ | ⟨h, -⟩)
        exact h
    · rw [step_erase hk', selected_erase]
      constructor
      · rintro ⟨h, hk⟩
        exact .inr ⟨h, fun heq => hk (Edit.erase.inj heq).symm, nofun⟩
      · rintro (⟨⟨⟩, -⟩ | ⟨h, hne, -⟩)
        exact ⟨h, fun heq => hne (congrArg Edit.erase heq.symm)⟩

end SelectedMap
