import Mathlib.Logic.Basic

/-! Mutual exclusion: the threads that are in a critical section are those that own the lock, at most one. -/

namespace Mutex
variable {T : Type}

/-- The threads for which `holds` is true are exactly the owner. -/
def Owns (holds : T → Prop) (owner : Option T) : Prop := ∀ t, holds t ↔ owner = some t

variable {holds holds' : T → Prop} {owner : Option T} {t u : T}

theorem Owns.owner_eq (h : Owns holds owner) (ht : holds t) : owner = some t := (h t).mp ht

theorem Owns.exclusive (h : Owns holds owner) (ht : holds t) (hu : holds u) : t = u := by
  have heq := (h.owner_eq ht).symm.trans (h.owner_eq hu)
  exact Option.some.inj heq

theorem Owns.congr (h : Owns holds owner) (heq : ∀ u, holds' u ↔ holds u) : Owns holds' owner := fun u =>
  (heq u).trans (h u)

/-! What one thread does, the others staying on their sides. -/

section Thread
variable (hother : ∀ u, u ≠ t → (holds' u ↔ holds u))
include hother

theorem Owns.stay (h : Owns holds owner) (ht : holds' t ↔ holds t) : Owns holds' owner := by
  refine h.congr fun u => ?_
  by_cases hu : u = t
  · exact hu ▸ ht
  · exact hother u hu

theorem Owns.acquire (h : Owns holds owner) (hfree : owner = none) (ht : holds' t) : Owns holds' (some t) := by
  intro u
  by_cases hu : u = t
  · subst hu
    exact ⟨fun _ => rfl, fun _ => ht⟩
  · rw [hother u hu, h u, hfree]
    exact ⟨fun h => (Option.some_ne_none u h.symm).elim, fun h => (hu (Option.some.inj h).symm).elim⟩

theorem Owns.release (h : Owns holds owner) (hin : holds t) (hout : ¬holds' t) : Owns holds' none := by
  intro u
  by_cases hu : u = t
  · subst hu
    exact ⟨fun h => (hout h).elim, fun h => (Option.some_ne_none u h.symm).elim⟩
  · rw [hother u hu, h u, h.owner_eq hin]
    exact ⟨fun h => (hu (Option.some.inj h).symm).elim, fun h => (Option.some_ne_none u h.symm).elim⟩

end Thread

end Mutex
