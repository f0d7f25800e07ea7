import Mathlib.Algebra.BigOperators.Group.Finset.Basic
import Mathlib.Algebra.GroupWithZero.Nat
import Mathlib.Data.Fintype.Basic
import Mathlib.Logic.Function.Basic

/-! Runs of a step relation whose steps bear events, and how long a run can be when every step lowers a potential,
    save for what its event pays in. -/

namespace Potential
variable {S E : Type} {step : S → E → S → Prop} {s₀ s t : S} {events : List E}

/-- The runs from a state, with the events of their steps. -/
inductive Run (step : S → E → S → Prop) (s₀ : S) : List E → S → Prop
  | refl : Run step s₀ [] s₀
  | snoc {events : List E} {s t : S} {e : E} : Run step s₀ events s → step s e t → Run step s₀ (events ++ [e]) t

/-- No step but those that bear a given event. -/
def Quiet (step : S → E → S → Prop) (given : E → Prop) (s : S) : Prop := ∀ e t, step s e t → given e

theorem Run.induct {Inv : List E → S → Prop} (h : Run step s₀ events t) (h₀ : Inv [] s₀)
    (hstep : ∀ {es s e t}, Run step s₀ es s → step s e t → Inv es s → Inv (es ++ [e]) t) : Inv events t := by
  induction h with
  | refl => exact h₀
  | snoc hrun hs ih => exact hstep hrun hs ih

/-- What each step pays in bounds the length of the run. -/
theorem Run.length_le (Inv : S → Prop) (level : S → Nat) (pay : E → Nat) (h : Run step s₀ events t) (h₀ : Inv s₀)
    (hstep : ∀ {s e t}, e ∈ events → Inv s → step s e t → Inv t ∧ level t + 1 ≤ level s + pay e) :
    level t + events.length ≤ level s₀ + (events.map pay).sum := by
  suffices hboth : Inv t ∧ level t + events.length ≤ level s₀ + (events.map pay).sum from hboth.2
  induction h with
  | refl => exact ⟨h₀, Nat.le_refl _⟩
  | @snoc es s t e _ hs ih =>
    obtain ⟨hinv, hle⟩ := ih fun he hinv hs => hstep (List.mem_append_left _ he) hinv hs
    obtain ⟨hinv', hdrop⟩ := hstep (List.mem_append_right _ (List.mem_singleton_self e)) hinv hs
    refine ⟨hinv', ?_⟩
    simp only [List.length_append, List.length_singleton, List.map_append, List.map_singleton, List.sum_append,
      List.sum_singleton]
    omega

/-- One summand changes. -/
theorem sum_update {A B : Type} [DecidableEq A] (level : B → Nat) (f : A → B) {a : A} (b : B) {as : Finset A}
    (ha : a ∈ as) :
    (∑ x ∈ as, level (Function.update f a b x)) + level (f a) = (∑ x ∈ as, level (f x)) + level b := by
  have hrest : ∑ x ∈ as.erase a, level (Function.update f a b x) = ∑ x ∈ as.erase a, level (f x) :=
    Finset.sum_congr rfl fun x hx => by rw [Function.update_of_ne (Finset.ne_of_mem_erase hx)]
  rw [← Finset.add_sum_erase as _ ha, ← Finset.add_sum_erase as (fun x => level (f x)) ha, hrest,
    Function.update_self, Nat.add_right_comm, Nat.add_comm (level b), Nat.add_right_comm, Nat.add_right_comm]

end Potential
