import Mathlib.Data.List.Induction
import Mathlib.Data.List.Infix

/-! Histories of calls on a state, where a call may have no result, and what holds after every call of one. -/

namespace History
variable {S A : Type}

/-- The state after a history, if every call of it had a result. -/
def run (exec : S → A → Option S) (s : S) (history : List A) : Option S := history.foldlM exec s

/-- `P` holds of each call of the history and the state that it finds. -/
def Each (exec : S → A → Option S) (P : S → A → Prop) (s : S) (history : List A) : Prop :=
  ∀ front a, front ++ [a] <+: history → ∀ t, run exec s front = some t → P t a

/-- Every call has a result, and `Good` holds at the start and after every call. -/
def Throughout (exec : S → A → Option S) (Good : S → Prop) (s : S) (history : List A) : Prop :=
  ∀ front, front <+: history → ∃ t, run exec s front = some t ∧ Good t

variable {exec : S → A → Option S} {Inv Good : S → Prop} {Legal Takes : S → A → Prop} {s : S} {history : List A}

theorem run_append (s : S) (front : List A) (a : A) :
    run exec s (front ++ [a]) = (run exec s front).bind fun t => exec t a := by
  rw [run, List.foldlM_append]
  simp only [List.foldlM_cons, List.foldlM_nil, bind_pure]
  rfl

theorem run_concat {front : List A} {a : A} {t : S} (h : run exec s front = some t) :
    run exec s (front ++ [a]) = exec t a := by
  rw [run_append, h, Option.bind_some]

theorem each_nil (P : S → A → Prop) (s : S) : Each exec P s [] := by
  intro front a hfront
  exact absurd (List.prefix_nil.mp hfront) (List.append_ne_nil_of_right_ne_nil _ (List.cons_ne_nil a []))

theorem each_cons {P : S → A → Prop} {a : A} :
    Each exec P s (a :: history) ↔ P s a ∧ ∀ t, exec s a = some t → Each exec P t history := by
  constructor
  · intro h
    refine ⟨h [] a (by simp) s rfl, fun t ht front b hfront u hu => ?_⟩
    refine h (a :: front) b (List.cons_prefix_cons.mpr ⟨rfl, hfront⟩) u ?_
    rw [run, List.foldlM_cons, ht]
    exact hu
  · rintro ⟨ha, hrest⟩ front b hfront u hu
    rcases front with _ | ⟨c, front⟩
    · obtain ⟨rfl, -⟩ := List.cons_prefix_cons.mp hfront
      cases hu
      exact ha
    · rw [List.cons_append, List.cons_prefix_cons] at hfront
      obtain ⟨rfl, hfront⟩ := hfront
      rw [run, List.foldlM_cons] at hu
      obtain ⟨t, ht, hu⟩ := Option.bind_eq_some_iff.mp hu
      exact hrest t ht front b hfront u hu

instance decidableEach {P : S → A → Prop} [∀ s a, Decidable (P s a)] :
    ∀ (s : S) (history : List A), Decidable (Each exec P s history)
  | s, [] => isTrue (each_nil P s)
  | s, a :: history =>
    match h : exec s a with
    | none => decidable_of_iff (P s a) (by rw [each_cons, h]; simp)
    | some t =>
      have : Decidable (Each exec P t history) := decidableEach t history
      decidable_of_iff (P s a ∧ Each exec P t history) (by rw [each_cons, h]; simp)

/-! Calls that always have a result. -/

theorem run_some (f : S → A → S) (s : S) (front : List A) :
    run (fun s a => some (f s a)) s front = some (front.foldl f s) := by
  induction front generalizing s with
  | nil => rfl
  | cons a front ih => exact ih (f s a)

theorem each_some {f : S → A → S} {P : S → A → Prop} :
    Each (fun s a => some (f s a)) P s history ↔ ∀ front a, front ++ [a] <+: history → P (front.foldl f s) a := by
  refine forall₃_congr fun front a _ => ?_
  rw [run_some]
  exact ⟨fun h => h _ rfl, fun h t ht => Option.some_inj.mp ht ▸ h⟩

/-- Where two conditions agree in the states of an invariant, and a call that meets the first keeps it, a history meets
    the first throughout exactly when it meets the second. -/
theorem each_iff {P Q : S → A → Prop} (hs : Inv s) (hiff : ∀ s a, Inv s → (P s a ↔ Q s a))
    (hkeeps : ∀ s a t, Inv s → P s a → exec s a = some t → Inv t) : Each exec P s history ↔ Each exec Q s history := by
  induction history generalizing s with
  | nil => exact ⟨fun _ => each_nil Q s, fun _ => each_nil P s⟩
  | cons a history ih =>
    rw [each_cons, each_cons, hiff s a hs]
    refine and_congr_right fun hq => forall₂_congr fun t ht => ?_
    exact ih (hkeeps s a t hs ((hiff s a hs).mpr hq) ht)

/-- An invariant is there before each call as long as each call that finds it keeps it. -/
theorem Throughout.of_keeps (hs : Inv s)
    (hkeeps : ∀ front a, front ++ [a] <+: history → ∀ t, run exec s front = some t → Inv t →
      ∃ u, exec t a = some u ∧ Inv u) : Throughout exec Inv s history := by
  intro front
  induction front using List.reverseRec with
  | nil => exact fun _ => ⟨s, rfl, hs⟩
  | append_singleton front a ih =>
    intro hfront
    obtain ⟨t, ht, hinv⟩ := ih ((List.prefix_append _ _).trans hfront)
    obtain ⟨u, hu, hinv'⟩ := hkeeps front a hfront t ht hinv
    exact ⟨u, (run_concat ht).trans hu, hinv'⟩

/-- Where `Takes` says of one call whether it leads to a good state, and it then keeps the invariant, `Good` holds
    throughout a legal history exactly when `Takes` holds of each call. -/
theorem throughout_iff (hs : Inv s) (hgood : ∀ s, Inv s → Good s)
    (htakes : ∀ s a t, Inv s → Legal s a → exec s a = some t → Good t → Takes s a)
    (hkeeps : ∀ s a, Inv s → Legal s a → Takes s a → ∃ t, exec s a = some t ∧ Inv t)
    (hlegal : Each exec Legal s history) : Throughout exec Good s history ↔ Each exec Takes s history := by
  constructor
  · intro hthroughout
    have htake : ∀ front a, front ++ [a] <+: history → ∀ t, run exec s front = some t → Inv t → Takes t a := by
      intro front a hfront t ht hinv
      obtain ⟨u, hu, hgoodu⟩ := hthroughout _ hfront
      rw [run_concat ht] at hu
      exact htakes t a u hinv (hlegal front a hfront t ht) hu hgoodu
    have hinv : Throughout exec Inv s history := .of_keeps hs fun front a hfront t ht hinv =>
      hkeeps t a hinv (hlegal front a hfront t ht) (htake front a hfront t ht hinv)
    intro front a hfront t ht
    obtain ⟨u, hu, hinvu⟩ := hinv front ((List.prefix_append _ _).trans hfront)
    rw [ht, Option.some_inj] at hu
    subst hu
    exact htake front a hfront t ht hinvu
  · intro heach
    have hinv : Throughout exec Inv s history := .of_keeps hs fun front a hfront t ht hinv =>
      hkeeps t a hinv (hlegal front a hfront t ht) (heach front a hfront t ht)
    intro front hfront
    obtain ⟨t, ht, hinvt⟩ := hinv front hfront
    exact ⟨t, ht, hgood t hinvt⟩

/-! What has been so since a call. -/

/-- A call of the history met `Starts`, and all calls after it have met `Keeps`, each with what came before it. -/
def Since (Starts Keeps : List A → A → Prop) (history : List A) : Prop :=
  ∃ front a back, history = front ++ a :: back ∧ Starts front a ∧
    ∀ mid b rest, back = mid ++ b :: rest → Keeps (front ++ a :: mid) b

theorem not_since_nil (Starts Keeps : List A → A → Prop) : ¬Since Starts Keeps [] := by
  rintro ⟨front, a, back, heq, -⟩
  exact List.append_ne_nil_of_right_ne_nil front (List.cons_ne_nil a back) heq.symm

theorem since_concat {Starts Keeps : List A → A → Prop} {a : A} :
    Since Starts Keeps (history ++ [a]) ↔ Starts history a ∨ Since Starts Keeps history ∧ Keeps history a := by
  constructor
  · rintro ⟨front, b, back, heq, hstarts, hkeeps⟩
    rcases List.eq_nil_or_concat back with rfl | ⟨mid, c, rfl⟩
    · obtain ⟨rfl, hlast⟩ := List.append_inj' heq rfl
      cases hlast
      exact .inl hstarts
    · have heq' : history ++ [a] = (front ++ b :: mid) ++ [c] := by rw [heq]; simp
      obtain ⟨rfl, hlast⟩ := List.append_inj' heq' rfl
      cases hlast
      refine .inr ⟨⟨front, b, mid, rfl, hstarts, ?_⟩, hkeeps mid a [] (by simp)⟩
      rintro mid' c rest rfl
      exact hkeeps mid' c (rest ++ [a]) (by simp)
  · rintro (hstarts | ⟨⟨front, b, back, rfl, hstarts, hkeeps⟩, hlast⟩)
    · refine ⟨history, a, [], rfl, hstarts, fun mid b rest hnil => ?_⟩
      exact absurd hnil.symm (List.append_ne_nil_of_right_ne_nil mid (List.cons_ne_nil b rest))
    · refine ⟨front, b, back ++ [a], by simp, hstarts, fun mid c rest heq => ?_⟩
      rcases List.eq_nil_or_concat rest with rfl | ⟨rest', d, rfl⟩
      · obtain ⟨rfl, hc⟩ := List.append_inj' heq rfl
        cases hc
        exact hlast
      · have heq' : back ++ [a] = (mid ++ c :: rest') ++ [d] := by rw [heq]; simp
        obtain ⟨rfl, -⟩ := List.append_inj' heq' rfl
        exact hkeeps mid c rest' rfl

/-- What starts with the one kind of call and lasts as long as calls are of the other kind. -/
theorem since_iff {P : List A → Prop} {Starts Keeps : List A → A → Prop} (hnil : ¬P [])
    (hconcat : ∀ history a, P (history ++ [a]) ↔ Starts history a ∨ P history ∧ Keeps history a) (history : List A) :
    P history ↔ Since Starts Keeps history := by
  induction history using List.reverseRecOn with
  | nil => exact iff_of_false hnil (not_since_nil Starts Keeps)
  | append_singleton history a ih => rw [hconcat, since_concat, ih]

end History
