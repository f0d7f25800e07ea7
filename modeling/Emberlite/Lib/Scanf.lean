import Emberlite.Lib.CNumber

/-! `sscanf` with the directives `%x`, `%*c` and ordinary characters: what a format takes, as a grammar. -/

namespace Scanf
open CString CNumber

/-- A directive of a format. -/
inductive Directive
  -- `%x`.
  | hex
  -- An ordinary character other than white space.
  | char (c : UInt8)
  -- `%*c`.
  | skip

/-- What follows a `0x` or `0X`, which may be missing. -/
def dropMark : List UInt8 → List UInt8
  | z :: c :: s => if z = 48 ∧ (c = 120 ∨ c = 88) then s else z :: c :: s
  | s => s

/-- `%x`: the number at the start, and what follows it. -/
def scanHex (s : List UInt8) : Option (Int × List UInt8) :=
  let (negative, t) := takeSign (s.dropWhile isSpace)
  let digits := (dropMark t).takeWhile (isDigit 16)
  if digits = [] then none else some (signed negative (value 16 digits), (dropMark t).dropWhile (isDigit 16))

/-- The numbers that a format takes, and whether it stops because the input has ended. -/
def scan : List Directive → List UInt8 → List Int × Bool
  | [], _ => ([], false)
  | .hex :: format, s =>
    match scanHex s with
    | none => ([], s.dropWhile isSpace = [])
    | some (n, rest) => (n :: (scan format rest).1, (scan format rest).2)
  | .char _ :: _, [] => ([], true)
  | .char c :: format, d :: s => if d = c then scan format s else ([], false)
  | .skip :: _, [] => ([], true)
  | .skip :: format, _ :: s => scan format s

/-- `EOF` -/
def eof : Int := -1

/-- `sscanf`: what it returns, and the numbers that it stores. -/
def sscanf (format : List Directive) (s : List UInt8) : Int × List Int :=
  let (values, ended) := scan format s
  (if values = [] ∧ ended then eof else values.length, values)

/-! ### The numbers of `%x` -/

/-- The marks of a hexadecimal number. -/
inductive Mark : List UInt8 → Prop
  | none : Mark []
  | lower : Mark [48, 120]
  | upper : Mark [48, 88]

/-- No mark comes first. -/
def Unmarked (s : List UInt8) : Prop := ∀ mark, Mark mark → mark <+: s → mark = []

/-- `item` is a numeral for `n` that is as long as it can be where `rest` follows: hexadecimal digits, with white space,
    a sign and a mark before them if any. -/
def HexItem (item : List UInt8) (n : Int) (rest : List UInt8) : Prop :=
  ∃ spaces sign mark digits negative, item = spaces ++ (sign ++ (mark ++ digits)) ∧ (∀ c ∈ spaces, isSpace c) ∧
    Sign negative sign ∧ Mark mark ∧ digits ≠ [] ∧ (∀ c ∈ digits, isDigit 16 c) ∧
    n = signed negative (value 16 digits) ∧ NoDigit 16 rest ∧ (mark = [] → Unmarked (digits ++ rest))

variable {s t item rest mark : List UInt8} {n : Int} {c : UInt8}

theorem dropMark_mark (hmark : Mark mark) (hnone : mark = [] → Unmarked t) :
    dropMark (mark ++ t) = t := by
  cases hmark with
  | none =>
    rcases t with _ | ⟨z, _ | ⟨c, t⟩⟩
    · rfl
    · rfl
    · refine if_neg ?_
      rintro ⟨rfl, rfl | rfl⟩
      · exact absurd (hnone rfl _ .lower ⟨t, rfl⟩) (List.cons_ne_nil _ _)
      · exact absurd (hnone rfl _ .upper ⟨t, rfl⟩) (List.cons_ne_nil _ _)
  | lower | upper => rfl

theorem dropMark_cases (t : List UInt8) :
    ∃ mark, Mark mark ∧ t = mark ++ dropMark t ∧ (mark = [] → Unmarked (dropMark t)) := by
  rcases t with _ | ⟨z, _ | ⟨c, t⟩⟩
  · exact ⟨[], .none, rfl, fun _ m _ h => List.prefix_nil.mp h⟩
  · refine ⟨[], .none, rfl, fun _ m hm h => ?_⟩
    have hlen := h.length_le
    cases hm with
    | none => rfl
    | lower | upper => simp [dropMark] at hlen
  · by_cases hmark : z = 48 ∧ (c = 120 ∨ c = 88)
    · have hdrop : dropMark (z :: c :: t) = t := if_pos hmark
      rw [hdrop]
      rcases hmark with ⟨rfl, rfl | rfl⟩
      · exact ⟨[48, 120], .lower, rfl, nofun⟩
      · exact ⟨[48, 88], .upper, rfl, nofun⟩
    · have hdrop : dropMark (z :: c :: t) = z :: c :: t := if_neg hmark
      rw [hdrop]
      refine ⟨[], .none, rfl, fun _ m hm h => ?_⟩
      cases hm with
      | none => rfl
      | lower | upper =>
        simp only [List.cons_prefix_cons] at h
        exact absurd ⟨h.1.symm, by simp [← h.2.1]⟩ hmark

/-- A number begins with a digit, whether it has a mark or not. -/
theorem exists_digit (hmark : Mark mark) {digits : List UInt8} (hne : digits ≠ [])
    (hdigits : ∀ c ∈ digits, isDigit 16 c) (rest : List UInt8) :
    ∃ c t, mark ++ (digits ++ rest) = c :: t ∧ isDigit 16 c := by
  have hzero : isDigit 16 48 := by decide
  cases hmark with
  | none =>
    obtain ⟨c, digits, rfl⟩ := List.exists_cons_of_ne_nil hne
    exact ⟨c, digits ++ rest, rfl, hdigits c List.mem_cons_self⟩
  | lower | upper => exact ⟨48, _, rfl, hzero⟩

theorem scanHex_item (h : HexItem item n rest) : scanHex (item ++ rest) = some (n, rest) := by
  obtain ⟨spaces, sign, mark, digits, negative, rfl, hspaces, hsign, hmark, hne, hdigits, rfl, hrest, hnone⟩ := h
  obtain ⟨c, t, hfirst, hc⟩ := exists_digit hmark hne hdigits rest
  obtain ⟨htake, hdrop⟩ := takeWhile_digits hdigits hrest
  rw [scanHex, List.append_assoc, List.append_assoc, List.append_assoc, hfirst, dropWhile_spaces hspaces hsign hc,
    takeSign_sign hsign hc]
  dsimp only
  rw [← hfirst, dropMark_mark hmark hnone, htake, hdrop, if_neg hne]

theorem item_of_scanHex (h : scanHex s = some (n, rest)) : ∃ item, s = item ++ rest ∧ HexItem item n rest := by
  obtain ⟨sign, hsign, hsplit⟩ := takeSign_cases (s.dropWhile isSpace)
  obtain ⟨mark, hmark, hbody, hnone⟩ := dropMark_cases (takeSign (s.dropWhile isSpace)).2
  rw [scanHex] at h
  dsimp only at h
  split at h
  · cases h
  · case _ hne =>
    cases h
    have hspaces : ∀ c ∈ s.takeWhile isSpace, isSpace c := fun c hc => List.mem_takeWhile_imp hc
    have hdigits : ∀ c ∈ (dropMark (takeSign (s.dropWhile isSpace)).2).takeWhile (isDigit 16), isDigit 16 c :=
      fun c hc => List.mem_takeWhile_imp hc
    have hrest : NoDigit 16 ((dropMark (takeSign (s.dropWhile isSpace)).2).dropWhile (isDigit 16)) := noDigit_dropWhile _
    refine ⟨_, ?_, _, sign, mark, _, _, rfl, hspaces, hsign, hmark, hne, hdigits, rfl, hrest, ?_⟩
    · rw [List.append_assoc, List.append_assoc, List.append_assoc, List.takeWhile_append_dropWhile, ← hbody, ← hsplit,
        List.takeWhile_append_dropWhile]
    · rwa [List.takeWhile_append_dropWhile]

/-! ### Numbers with a character between them -/

/-- `%x`, then `k` times the character and `%x`, then `%*c`. -/
def hexFormat (c : UInt8) : Nat → List Directive
  | 0 => [.hex, .skip]
  | k + 1 => .hex :: .char c :: hexFormat c k

/-- The strings that a format takes to its end, whatever comes last, with their numbers. -/
inductive HexFields (c : UInt8) : Nat → List UInt8 → List Int → Prop
  | last {item rest : List UInt8} {n : Int} (h : HexItem item n rest) : HexFields c 0 (item ++ rest) [n]
  | more {k : Nat} {item s : List UInt8} {n : Int} {values : List Int} (h : HexItem item n (c :: s))
      (hs : HexFields c k s values) : HexFields c (k + 1) (item ++ c :: s) (n :: values)

variable {k : Nat} {values : List Int}

theorem length_fields (h : HexFields c k s values) : values.length = k + 1 := by
  induction h with
  | last h => rfl
  | more h hs ih => rw [List.length_cons, ih]

theorem scan_fields (h : HexFields c k s values) : (scan (hexFormat c k) s).1 = values := by
  induction h with
  | @last item rest n h =>
    rw [hexFormat, scan, scanHex_item h]
    cases rest <;> rfl
  | more h hs ih => simp only [hexFormat, scan, scanHex_item h, if_pos, ih]

/-- A format stores at most as many numbers as it has directives for, and as many only where it is taken to its end. -/
theorem scan_cases (c : UInt8) (k : Nat) (s : List UInt8) :
    HexFields c k s (scan (hexFormat c k) s).1 ∨ (scan (hexFormat c k) s).1.length < k + 1 := by
  induction k generalizing s with
  | zero =>
    cases hread : scanHex s with
    | none =>
      simp only [hexFormat, scan, hread]
      exact .inr (Nat.succ_pos _)
    | some read =>
      obtain ⟨n, rest⟩ := read
      obtain ⟨item, rfl, hitem⟩ := item_of_scanHex hread
      refine .inl ?_
      rw [scan_fields (.last hitem)]
      exact .last hitem
  | succ k ih =>
    cases hread : scanHex s with
    | none =>
      simp only [hexFormat, scan, hread]
      exact .inr (Nat.succ_pos _)
    | some read =>
      obtain ⟨n, rest⟩ := read
      obtain ⟨item, rfl, hitem⟩ := item_of_scanHex hread
      simp only [hexFormat, scan, hread]
      rcases rest with _ | ⟨d, rest⟩
      · exact .inr (Nat.succ_lt_succ (Nat.succ_pos k))
      · by_cases hd : d = c
        · subst hd
          rw [scan, if_pos rfl]
          rcases ih rest with hfields | hshort
          · exact .inl (.more hitem hfields)
          · exact .inr (Nat.succ_lt_succ hshort)
        · rw [scan, if_neg hd]
          exact .inr (Nat.succ_lt_succ (Nat.succ_pos k))

/-- Either all the numbers are stored, or `sscanf` returns less. -/
theorem sscanf_cases (c : UInt8) (k : Nat) (s : List UInt8) :
    (∃ values, HexFields c k s values ∧ sscanf (hexFormat c k) s = (((k + 1 : Nat) : Int), values)) ∨
      (∀ values, ¬HexFields c k s values) ∧ (sscanf (hexFormat c k) s).1 < ((k + 1 : Nat) : Int) := by
  rcases scan_cases c k s with hfields | hshort
  · have hlen := length_fields hfields
    have hne : (scan (hexFormat c k) s).1 ≠ [] := List.ne_nil_of_length_eq_add_one hlen
    refine .inl ⟨_, hfields, ?_⟩
    rw [sscanf]
    simp only [hne, false_and, if_false, hlen]
  · refine .inr ⟨fun values hfields => ?_, ?_⟩
    · rw [scan_fields hfields, length_fields hfields] at hshort
      exact absurd hshort (Nat.lt_irrefl _)
    · rw [sscanf]
      dsimp only
      split
      · exact Int.lt_of_lt_of_le (by decide : eof < 0) (Int.natCast_nonneg (k + 1))
      · exact_mod_cast hshort

end Scanf
