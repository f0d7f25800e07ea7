import Mathlib.Data.List.Nodup

/-! Segments of singly linked lists. `next a` is the link stored at address `a`, and `none` where there is
    no cell. -/

namespace LinkedSegment
variable {A : Type}

/-- The cells `as`, one after the other, lead from link `h` to link `t`. -/
def Seg (next : A → Option (Option A)) : Option A → List A → Option A → Prop
  | h, [], t => h = t
  | h, a :: as, t => h = some a ∧ ∃ n, next a = some n ∧ Seg next n as t

/-- The addresses on the way from a link to the end, at most `fuel` of them. -/
def walk (next : A → Option (Option A)) : (fuel : Nat) → Option A → List A
  | 0, _ => []
  | _, none => []
  | fuel + 1, some a => a :: walk next fuel ((next a).getD none)

variable {next next' : A → Option (Option A)} {h t : Option A} {as bs : List A}

theorem seg_append : Seg next h (as ++ bs) t ↔ ∃ m, Seg next h as m ∧ Seg next m bs t := by
  induction as generalizing h with
  | nil => simp [Seg]
  | cons a as ih =>
    simp only [List.cons_append, Seg, ih]
    constructor
    · rintro ⟨ha, n, hn, m, h₁, h₂⟩
      exact ⟨m, ⟨ha, n, hn, h₁⟩, h₂⟩
    · rintro ⟨m, ⟨ha, n, hn, h₁⟩, h₂⟩
      exact ⟨ha, n, hn, m, h₁, h₂⟩

/-- A segment depends only on the links of its own cells. -/
theorem Seg.congr (hs : Seg next h as t) (heq : ∀ a ∈ as, next' a = next a) : Seg next' h as t := by
  induction as generalizing h with
  | nil => exact hs
  | cons a as ih =>
    obtain ⟨ha, n, hn, hs⟩ := hs
    exact ⟨ha, n, (heq a List.mem_cons_self).trans hn,
      ih hs fun b hb => heq b (List.mem_cons_of_mem a hb)⟩

theorem Seg.isSome (hs : Seg next h as t) : ∀ a ∈ as, (next a).isSome := by
  induction as generalizing h with
  | nil => exact fun a ha => by cases ha
  | cons a as ih =>
    obtain ⟨-, n, hn, hs⟩ := hs
    intro b hb
    rcases List.mem_cons.mp hb with rfl | hb
    · rw [hn, Option.isSome_some]
    · exact ih hs b hb

theorem Seg.head_eq (hs : Seg next h as none) : h = as.head? := by
  rcases as with _ | ⟨a, as⟩
  · exact hs
  · exact hs.1

/-- A null-terminated list is determined by its first link. -/
theorem Seg.unique (ha : Seg next h as none) (hb : Seg next h bs none) : as = bs := by
  induction as generalizing h bs with
  | nil =>
    obtain rfl : h = none := ha
    rcases bs with _ | ⟨b, bs⟩
    · rfl
    · cases hb.1
  | cons a as ih =>
    obtain ⟨rfl, n, hn, ha⟩ := ha
    rcases bs with _ | ⟨b, bs⟩
    · cases hb
    · obtain ⟨heq, n', hn', hb⟩ := hb
      cases heq
      rw [hn] at hn'
      cases hn'
      rw [ih ha hb]

/-- A null-terminated list has no cell twice: the rest of the list from both occurrences would agree. -/
theorem Seg.nodup (hs : Seg next h as none) : as.Nodup := by
  induction as generalizing h with
  | nil => exact List.nodup_nil
  | cons a as ih =>
    obtain ⟨rfl, n, hn, hs⟩ := hs
    refine List.nodup_cons.mpr ⟨fun hmem => ?_, ih hs⟩
    obtain ⟨pre, post, rfl⟩ := List.append_of_mem hmem
    obtain ⟨m, -, hpost⟩ := seg_append.mp hs
    obtain ⟨rfl, -⟩ := id hpost
    have hall : Seg next (some a) (a :: (pre ++ a :: post)) none := ⟨rfl, n, hn, hs⟩
    have hlen := congrArg List.length (hpost.unique hall)
    simp only [List.length_cons, List.length_append] at hlen
    omega

theorem Seg.walk_eq (hs : Seg next h as none) {fuel : Nat} (hfuel : as.length ≤ fuel) :
    walk next fuel h = as := by
  induction as generalizing h fuel with
  | nil =>
    obtain rfl : h = none := hs
    cases fuel <;> rfl
  | cons a as ih =>
    obtain ⟨rfl, n, hn, hs⟩ := hs
    rw [List.length_cons] at hfuel
    obtain ⟨fuel, rfl⟩ : ∃ k, fuel = k + 1 := ⟨fuel - 1, by omega⟩
    rw [walk, hn, Option.getD_some, ih hs (by omega)]

theorem Seg.push {x : A} (hs : Seg next h as t) (hx : x ∉ as) (hnew : next' x = some h)
    (heq : ∀ a, a ≠ x → next' a = next a) : Seg next' (some x) (x :: as) t :=
  ⟨rfl, h, hnew, hs.congr fun a ha => heq a fun hax => hx (hax ▸ ha)⟩

/-- A new cell after cell `b`: it takes over the link of `b`, and `b` links to it. -/
theorem Seg.insert_after {x b : A} {n : Option A} {pre post : List A}
    (hs : Seg next h (pre ++ b :: post) none) (hx : x ∉ pre ++ b :: post) (hb : next b = some n)
    (hnew : next' x = some n) (hb' : next' b = some (some x))
    (heq : ∀ a, a ≠ x → a ≠ b → next' a = next a) : Seg next' h (pre ++ b :: x :: post) none := by
  have hnodup := hs.nodup
  rw [List.nodup_middle, List.nodup_cons, List.mem_append] at hnodup
  simp only [List.mem_append, List.mem_cons, not_or] at hx hnodup
  obtain ⟨m, hpre, hm, n', hn', hpost⟩ := seg_append.mp hs
  rw [hb] at hn'
  cases hn'
  have hne : ∀ {as : List A}, x ∉ as → b ∉ as → ∀ a ∈ as, next' a = next a := fun hxa hba a ha =>
    heq a (fun h => hxa (h ▸ ha)) fun h => hba (h ▸ ha)
  exact seg_append.mpr ⟨m, hpre.congr (hne hx.1 hnodup.1.1), hm, some x, hb', rfl, n, hnew,
    hpost.congr (hne hx.2.2 hnodup.1.2)⟩

end LinkedSegment
