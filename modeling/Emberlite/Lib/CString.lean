import Mathlib.Data.List.TakeWhile

/-! C strings. A string is the list of the bytes from its address on; what lies behind the list reads as
    the terminating NUL. -/

namespace CString

/-- The bytes before the first NUL. -/
def text (s : List UInt8) : List UInt8 := s.takeWhile (· != 0)

/-- The bytes of a string literal. -/
def lit (s : String) : List UInt8 := s.toUTF8.data.toList

/-- `snprintf`: the bytes it writes of the formatted string `s` into a buffer of `n` bytes. -/
def snprintf : Nat → List UInt8 → List UInt8
  | 0, _ => []
  | n + 1, s => (text s).take n ++ [0]

/-- `strncmp`: the difference of the first two bytes that differ, within `n` bytes and up to a NUL. -/
def strncmp : Nat → List UInt8 → List UInt8 → Int
  | 0, _, _ => 0
  | n + 1, a, b =>
    let x := a.headD 0
    let y := b.headD 0
    if x ≠ y then (x.toNat : Int) - y.toNat
    else if x = 0 then 0
    else strncmp n a.tail b.tail

/-- `strncpy`: the `n` bytes it writes, padded with NUL after the end of `s`. -/
def strncpy : Nat → List UInt8 → List UInt8
  | 0, _ => []
  | n + 1, s =>
    if s.headD 0 = 0 then List.replicate (n + 1) 0
    else s.headD 0 :: strncpy n s.tail

/-- `strstr` on the text of a string: the rest of it from the first `t` on. -/
def strstr : List UInt8 → List UInt8 → Option (List UInt8)
  | [], t => if t = [] then some [] else none
  | c :: s, t => if t <+: c :: s then some (c :: s) else strstr s t

/-- `fgets` into a buffer of `n` bytes: a line with its end, as far as it fits, or nothing at the end of the input. -/
def fgets (n : Nat) (input : List UInt8) : Option (List UInt8) :=
  if input = [] then none
  else
    let s := input.take (n - 1)
    some (s.takeWhile (· != 10) ++ (s.dropWhile (· != 10)).take 1)

/-- The text of a string, read the way a C loop reads it. -/
theorem text_eq (s : List UInt8) :
    text s = if s.headD 0 = 0 then [] else s.headD 0 :: text s.tail := by
  rcases s with _ | ⟨c, s⟩
  · rfl
  · by_cases hc : c = 0 <;> simp [text, hc]

theorem ne_zero_of_mem_text {s : List UInt8} {c : UInt8} (h : c ∈ text s) : c ≠ 0 := by
  simpa using List.mem_takeWhile_imp h

/-- A byte list without NUL is its own text, whatever NULs follow it. -/
theorem text_append_zeros {t : List UInt8} (ht : ∀ c ∈ t, c ≠ 0) (n : Nat) :
    text (t ++ List.replicate n 0) = t := by
  induction t with
  | nil => cases n <;> simp [text, List.replicate_succ]
  | cons c t ih =>
    have hc : c ≠ 0 := ht c List.mem_cons_self
    rw [List.cons_append, text_eq, List.headD_cons, if_neg hc, List.tail_cons,
      ih fun d hd => ht d (List.mem_cons_of_mem c hd)]

theorem text_of_ne_zero {t : List UInt8} (ht : ∀ c ∈ t, c ≠ 0) : text t = t := by
  simpa using text_append_zeros ht 0

/-- What follows the terminating NUL is not part of the text. -/
theorem text_append_zero {t : List UInt8} (ht : ∀ c ∈ t, c ≠ 0) (rest : List UInt8) :
    text (t ++ 0 :: rest) = t := by
  rw [text, List.takeWhile_append_of_pos (by simpa using ht), List.takeWhile_cons_of_neg (by simp),
    List.append_nil]

/-- A formatted string that fits with its NUL is written whole. -/
theorem text_snprintf {n : Nat} {s : List UInt8} (hs : ∀ c ∈ s, c ≠ 0) (hfit : s.length < n) :
    text (snprintf n s) = s := by
  rcases n with _ | n
  · exact absurd hfit (Nat.not_lt_zero _)
  · rw [snprintf, text_of_ne_zero hs, List.take_of_length_le (Nat.le_of_lt_succ hfit), text_append_zero hs]

/-- A byte list without NUL. -/
def NoNul (s : List UInt8) : Prop := ∀ c ∈ s, c ≠ 0

theorem noNul_text (s : List UInt8) : NoNul (text s) := fun _ hc => ne_zero_of_mem_text hc

theorem noNul_of_all {s : List UInt8} (h : s.all (· != 0) = true) : NoNul s := fun c hc => by
  simpa using List.all_eq_true.mp h c hc

theorem NoNul.append {s t : List UInt8} (hs : NoNul s) (ht : NoNul t) : NoNul (s ++ t) := fun c hc =>
  (List.mem_append.mp hc).elim (hs c) (ht c)

theorem length_text_snprintf {n : Nat} {s : List UInt8} (hs : NoNul s) :
    (text (snprintf (n + 1) s)).length = min n s.length := by
  have htake : NoNul (s.take n) := fun c hc => hs c (List.mem_of_mem_take hc)
  rw [snprintf, text_of_ne_zero hs, text_append_zero htake, List.length_take]

@[simp] theorem length_strncpy (n : Nat) (s : List UInt8) : (strncpy n s).length = n := by
  induction n generalizing s with
  | zero => rfl
  | succ n ih =>
    unfold strncpy
    split
    · exact List.length_replicate
    · rw [List.length_cons, ih]

/-- `strncpy` writes the text, cut at `n`, and fills up with NULs. -/
theorem strncpy_eq (n : Nat) (s : List UInt8) :
    strncpy n s = (text s).take n ++ List.replicate (n - (text s).length) 0 := by
  induction n generalizing s with
  | zero => simp [strncpy]
  | succ n ih =>
    rw [strncpy, text_eq s]
    split
    · simp
    · simp [ih]

/-- `strncmp` finds no difference exactly when the texts agree, cut at `n`. -/
theorem strncmp_eq_zero {n : Nat} {a b : List UInt8} :
    strncmp n a b = 0 ↔ (text a).take n = (text b).take n := by
  induction n generalizing a b with
  | zero => simp [strncmp]
  | succ n ih =>
    rw [strncmp, text_eq a, text_eq b]
    by_cases hxy : a.headD 0 = b.headD 0
    · by_cases hy : b.headD 0 = 0
      · simp only [hxy, hy]
        simp
      · simp only [hxy, hy, ne_eq, not_true_eq_false, if_false, List.take_succ_cons, List.cons.injEq,
          true_and]
        exact ih
    · have hdiff : ((a.headD 0).toNat : Int) - (b.headD 0).toNat ≠ 0 := fun h =>
        hxy (UInt8.toNat_inj.mp (by omega))
      simp only [ne_eq, hxy, not_false_eq_true, if_true, hdiff, false_iff]
      split <;> split <;> simp_all

/-- Against a short text the bound cuts nothing off. -/
theorem strncmp_eq_zero_of_lt {n : Nat} {a b : List UInt8} (hb : (text b).length < n) :
    strncmp n a b = 0 ↔ text a = text b := by
  rw [strncmp_eq_zero, List.take_of_length_le hb.le]
  constructor
  · intro h
    have hlen : ((text a).take n).length = (text b).length := by rw [h]
    rw [List.length_take] at hlen
    rwa [List.take_of_length_le (by omega)] at h
  · intro h
    rw [h, List.take_of_length_le hb.le]

/-! ### The first place of a string in another -/

/-- `t` comes first after `before`. -/
def First (t s before after : List UInt8) : Prop :=
  s = before ++ (t ++ after) ∧ ∀ before' after', s = before' ++ (t ++ after') → before.length ≤ before'.length

/-- `t` does not begin at the head of the string. -/
theorem occurs_tail {t s before after : List UInt8} {c : UInt8} (hhead : ¬t <+: c :: s)
    (h : c :: s = before ++ (t ++ after)) : ∃ front, before = c :: front ∧ s = front ++ (t ++ after) := by
  rcases before with _ | ⟨d, front⟩
  · exact absurd ⟨after, h.symm⟩ hhead
  · obtain ⟨rfl, hs⟩ := List.cons.inj h
    exact ⟨front, rfl, hs⟩

theorem strstr_some {t s r : List UInt8} (h : strstr s t = some r) :
    ∃ before after, r = t ++ after ∧ First t s before after := by
  induction s with
  | nil =>
    rw [strstr] at h
    split at h
    · cases h
      exact ⟨[], [], by simp [‹t = []›], by simp [‹t = []›], fun _ _ _ => Nat.zero_le _⟩
    · cases h
  | cons c s ih =>
    rw [strstr] at h
    split at h
    · case _ hhead =>
      obtain ⟨after, hafter⟩ := hhead
      cases h
      exact ⟨[], after, hafter.symm, hafter.symm, fun _ _ _ => Nat.zero_le _⟩
    · case _ hhead =>
      obtain ⟨before, after, hr, hs, hfirst⟩ := ih h
      refine ⟨c :: before, after, hr, by rw [hs, List.cons_append], fun before' after' h' => ?_⟩
      obtain ⟨front, rfl, hfront⟩ := occurs_tail hhead h'
      exact Nat.succ_le_succ (hfirst front after' hfront)

theorem strstr_none {t s : List UInt8} (h : strstr s t = none) (before after : List UInt8) :
    s ≠ before ++ (t ++ after) := by
  induction s generalizing before with
  | nil =>
    intro hs
    have ht : t = [] := (List.append_eq_nil_iff.mp (List.append_eq_nil_iff.mp hs.symm).2).1
    rw [strstr, if_pos ht] at h
    cases h
  | cons c s ih =>
    rw [strstr] at h
    split at h
    · cases h
    · case _ hhead =>
      intro hs
      obtain ⟨front, -, hfront⟩ := occurs_tail hhead hs
      exact ih h front hfront

theorem First.unique {t s before after before' after' : List UInt8} (h : First t s before after)
    (h' : First t s before' after') : after = after' := by
  have hlen : before.length = before'.length := Nat.le_antisymm (h.2 _ _ h'.1) (h'.2 _ _ h.1)
  exact List.append_cancel_left (List.append_inj (h.1.symm.trans h'.1) hlen).2

/-- Where the first character of `t` does not come before. -/
theorem first_of_not_mem {c : UInt8} {t before after : List UInt8} (hc : c ∉ before) :
    First (c :: t) (before ++ (c :: t ++ after)) before after := by
  refine ⟨rfl, fun before' after' h => ?_⟩
  by_contra hshort
  have hlt : before'.length < before.length := Nat.lt_of_not_le hshort
  have hat : before[before'.length]? = some c := by
    rw [← List.getElem?_append_left hlt, h, List.getElem?_append_right (Nat.le_refl _)]
    simp
  exact hc (List.mem_of_getElem? hat)

end CString
