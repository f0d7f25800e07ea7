import Mathlib.Data.List.Basic
import Mathlib.Data.List.Induction

/-! The pieces of a stream between its separators: those that have ended, and the one that has not. -/

namespace Segments
variable {α : Type} (sep : α → Bool)

/-- The pieces that a separator has ended. -/
def finished (s : List α) : List (List α) := (s.splitOnP sep).dropLast

/-- What follows the last separator. -/
def unfinished (s : List α) : List α := (s.splitOnP sep).getLast (List.splitOnP_ne_nil sep s)

variable {sep}

theorem splitOnP_eq (s : List α) : s.splitOnP sep = finished sep s ++ [unfinished sep s] :=
  (List.dropLast_append_getLast (List.splitOnP_ne_nil sep s)).symm

theorem eq_of_splitOnP {s u : List α} {segments : List (List α)} (h : s.splitOnP sep = segments ++ [u]) :
    finished sep s = segments ∧ unfinished sep s = u := by
  rw [splitOnP_eq] at h
  obtain ⟨hfinished, hunfinished⟩ := List.append_inj' h rfl
  exact ⟨hfinished, (List.cons.inj hunfinished).1⟩

@[simp] theorem finished_nil : finished sep [] = [] := rfl

@[simp] theorem unfinished_nil : unfinished sep [] = [] := rfl

/-- A separator ends the last piece. -/
theorem concat_sep {s : List α} {c : α} (hc : sep c) :
    finished sep (s ++ [c]) = finished sep s ++ [unfinished sep s] ∧ unfinished sep (s ++ [c]) = [] := by
  refine eq_of_splitOnP ?_
  rw [List.splitOnP_append_cons s [] hc, splitOnP_eq, List.splitOnP_nil]

/-- Anything else is added to it. -/
theorem concat_other {s : List α} {c : α} (hc : sep c = false) :
    finished sep (s ++ [c]) = finished sep s ∧ unfinished sep (s ++ [c]) = unfinished sep s ++ [c] := by
  refine eq_of_splitOnP ?_
  induction s with
  | nil => simp [List.splitOnP_cons_eq_if_modifyHead, hc]
  | cons x s ih =>
    rw [List.cons_append, List.splitOnP_cons_eq_if_modifyHead, ih]
    have hsplit := List.splitOnP_cons_eq_if_modifyHead (p := sep) x s
    rw [splitOnP_eq (x :: s), splitOnP_eq s] at hsplit
    by_cases hx : sep x
    · rw [if_pos hx] at hsplit ⊢
      obtain ⟨hfinished, hunfinished⟩ := List.append_inj' (hsplit.trans (List.cons_append ..).symm) rfl
      rw [hfinished, (List.cons.inj hunfinished).1]
      rfl
    · rw [if_neg hx] at hsplit ⊢
      rcases hsegments : finished sep s with _ | ⟨first, segments⟩
      · rw [hsegments] at hsplit
        obtain ⟨hfinished, hunfinished⟩ := List.append_inj' (hsplit.trans (List.nil_append _).symm) rfl
        rw [hfinished, (List.cons.inj hunfinished).1]
        rfl
      · rw [hsegments] at hsplit
        obtain ⟨hfinished, hunfinished⟩ :=
          List.append_inj' (hsplit.trans (List.cons_append (a := x :: first) ..).symm) rfl
        rw [hfinished, (List.cons.inj hunfinished).1]
        rfl

/-- No piece has a separator in it. -/
theorem sep_of_mem (s : List α) :
    (∀ piece ∈ finished sep s, ∀ c ∈ piece, sep c = false) ∧ ∀ c ∈ unfinished sep s, sep c = false := by
  induction s using List.reverseRecOn with
  | nil => exact ⟨fun _ h => absurd h List.not_mem_nil, fun _ h => absurd h List.not_mem_nil⟩
  | append_singleton s c ih =>
    obtain ⟨hfinished, hunfinished⟩ := ih
    by_cases hc : sep c
    · obtain ⟨hf, hu⟩ := concat_sep (s := s) hc
      rw [hf, hu]
      refine ⟨fun piece hpiece => ?_, fun _ h => absurd h List.not_mem_nil⟩
      rcases List.mem_append.mp hpiece with hpiece | hpiece
      · exact hfinished piece hpiece
      · rw [List.mem_singleton.mp hpiece]
        exact hunfinished
    · have hc : sep c = false := Bool.eq_false_iff.mpr hc
      obtain ⟨hf, hu⟩ := concat_other (s := s) hc
      rw [hf, hu]
      refine ⟨hfinished, fun d hd => ?_⟩
      rcases List.mem_append.mp hd with hd | hd
      · exact hunfinished d hd
      · rwa [List.mem_singleton.mp hd]

end Segments
