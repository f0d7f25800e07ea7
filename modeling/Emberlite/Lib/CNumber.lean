import Emberlite.Lib.CString
import Mathlib.Data.Int.Basic
import Mathlib.Data.List.Induction
import Mathlib.Algebra.Group.Int.Defs
import Mathlib.Algebra.Group.Nat.Defs

/-! Numbers in C strings: the digits of a base, and the form that `strtol` reads. -/

namespace CNumber
open CString

/-- `isspace` -/
def isSpace (c : UInt8) : Bool := decide (c.toNat = 32 ∨ 9 ≤ c.toNat ∧ c.toNat ≤ 13)

/-- The digit that a character is, in bases up to 16. -/
def digit (c : UInt8) : Option Nat :=
  if 48 ≤ c.toNat ∧ c.toNat ≤ 57 then some (c.toNat - 48)
  else if 97 ≤ c.toNat ∧ c.toNat ≤ 102 then some (c.toNat - 87)
  else if 65 ≤ c.toNat ∧ c.toNat ≤ 70 then some (c.toNat - 55)
  else none

/-- Whether a character is a digit of the base. -/
def isDigit (b : Nat) (c : UInt8) : Bool := (digit c).any (· < b)

/-- The number that a row of digits stands for. -/
def value (b : Nat) (digits : List UInt8) : Nat := digits.foldl (fun n c => b * n + (digit c).getD 0) 0

/-- A sign that may be missing: whether it is `-`, and what follows. -/
def takeSign : List UInt8 → Bool × List UInt8
  | [] => (false, [])
  | c :: s => if c = 45 then (true, s) else if c = 43 then (false, s) else (false, c :: s)

/-- A number with its sign. -/
def signed (negative : Bool) (n : Nat) : Int := if negative then -n else n

/-- What `strtol` returns, whether it sets `errno` to `ERANGE`, and what it points `end` at. -/
structure Strtol where
  value : Int
  range : Bool
  rest : List UInt8
  deriving DecidableEq, Repr

/-- `LONG_MAX` -/
def longMax : Int := 2 ^ 63 - 1

/-- `LONG_MIN` -/
def longMin : Int := -2 ^ 63

/-- A number as a `long` of 64 bits. -/
def Strtol.clip (n : Int) (rest : List UInt8) : Strtol :=
  if n < longMin then ⟨longMin, true, rest⟩ else if longMax < n then ⟨longMax, true, rest⟩ else ⟨n, false, rest⟩

/-- `strtol` with base 10. -/
def strtol (s : List UInt8) : Strtol :=
  let (negative, t) := takeSign (s.dropWhile isSpace)
  let digits := t.takeWhile (isDigit 10)
  if digits = [] then ⟨0, false, s⟩ else .clip (signed negative (value 10 digits)) (t.dropWhile (isDigit 10))

/-- `ULONG_MAX` -/
def ulongMax : Nat := 2 ^ 64 - 1

/-- What `strtoul` returns, whether it sets `errno` to `ERANGE`, and what it points `end` at. -/
structure Strtoul where
  value : Nat
  range : Bool
  rest : List UInt8
  deriving DecidableEq, Repr

/-- `strtoul` with base 10, for an `unsigned long` of 64 bits: the number behind a `-` is negated modulo 2^64. -/
def strtoul (s : List UInt8) : Strtoul :=
  let (negative, t) := takeSign (s.dropWhile isSpace)
  let digits := t.takeWhile (isDigit 10)
  let rest := t.dropWhile (isDigit 10)
  if digits = [] then ⟨0, false, s⟩
  else if ulongMax < value 10 digits then ⟨ulongMax, true, rest⟩
  else ⟨if negative then (2 ^ 64 - value 10 digits) % 2 ^ 64 else value 10 digits, false, rest⟩

/-! ### The form of a number -/

/-- The signs of a number. -/
inductive Sign : Bool → List UInt8 → Prop
  | none : Sign false []
  | plus : Sign false [43]
  | minus : Sign true [45]

/-- `s` is a numeral that stands for `n`: digits, with a sign and white space before them if any. -/
def Numeral (s : List UInt8) (n : Int) : Prop :=
  ∃ spaces sign digits negative, s = spaces ++ (sign ++ digits) ∧ (∀ c ∈ spaces, isSpace c) ∧ Sign negative sign ∧
    digits ≠ [] ∧ (∀ c ∈ digits, isDigit 10 c) ∧ n = signed negative (value 10 digits)

/-- No digit comes first. -/
def NoDigit (b : Nat) (s : List UInt8) : Prop := ∀ c ∈ s.head?, isDigit b c = false

variable {b : Nat} {s t rest : List UInt8} {c : UInt8} {n : Int} {negative : Bool}

theorem isDigit_zero (b : Nat) : isDigit b 0 = false := rfl

theorem not_isDigit_of_small {k : Nat} (hc : c.toNat = k) (hk : k < 48) : isDigit b c = false := by
  rw [isDigit, digit, hc, if_neg (by omega), if_neg (by omega), if_neg (by omega)]
  rfl

theorem not_isSpace_of_isDigit (h : isDigit b c) : isSpace c = false := by
  by_contra hspace
  rw [Bool.not_eq_false] at hspace
  have hboth : c.toNat = 32 ∨ 9 ≤ c.toNat ∧ c.toNat ≤ 13 := of_decide_eq_true hspace
  rw [not_isDigit_of_small rfl (by omega)] at h
  cases h

theorem value_concat (b : Nat) (s : List UInt8) (c : UInt8) :
    value b (s ++ [c]) = b * value b s + (digit c).getD 0 := by
  rw [value, List.foldl_append]
  rfl

theorem value_append (b : Nat) (s t : List UInt8) : value b (s ++ t) = value b s * b ^ t.length + value b t := by
  induction t using List.reverseRecOn with
  | nil => simp [value]
  | append_singleton t c ih =>
    rw [← List.append_assoc, value_concat, value_concat, ih, List.length_append, List.length_singleton, Nat.pow_succ,
      Nat.mul_add, Nat.add_assoc, Nat.mul_left_comm, Nat.mul_comm b (b ^ t.length)]

theorem digit_lt (h : isDigit b c) : (digit c).getD 0 < b := by
  rw [isDigit] at h
  cases hc : digit c with
  | none =>
    rw [hc] at h
    cases h
  | some d =>
    rw [hc] at h
    exact of_decide_eq_true h

theorem value_lt (hs : ∀ c ∈ s, isDigit b c) : value b s < b ^ s.length := by
  induction s using List.reverseRecOn with
  | nil => exact Nat.one_pos
  | append_singleton s c ih =>
    have hvalue : value b s + 1 ≤ b ^ s.length := ih fun d hd => hs d (List.mem_append_left _ hd)
    have hc : (digit c).getD 0 < b := digit_lt (hs c (List.mem_append_right _ List.mem_cons_self))
    rw [value_concat, List.length_append, List.length_singleton, Nat.pow_succ]
    calc b * value b s + (digit c).getD 0 < b * value b s + b := Nat.add_lt_add_left hc _
      _ = b * (value b s + 1) := (Nat.mul_succ b _).symm
      _ ≤ b * b ^ s.length := Nat.mul_le_mul_left b hvalue
      _ = b ^ s.length * b := Nat.mul_comm _ _

/-! ### Reading a numeral -/

theorem takeWhile_digits {digits : List UInt8} (hdigits : ∀ c ∈ digits, isDigit b c) (hrest : NoDigit b rest) :
    (digits ++ rest).takeWhile (isDigit b) = digits ∧ (digits ++ rest).dropWhile (isDigit b) = rest := by
  have hstop : rest.takeWhile (isDigit b) = [] ∧ rest.dropWhile (isDigit b) = rest := by
    rcases rest with _ | ⟨c, rest⟩
    · exact ⟨rfl, rfl⟩
    · have hc : isDigit b c = false := hrest c rfl
      simp [hc]
  rw [List.takeWhile_append_of_pos hdigits, List.dropWhile_append_of_pos hdigits, hstop.1, hstop.2, List.append_nil]
  exact ⟨rfl, rfl⟩

theorem noDigit_dropWhile (s : List UInt8) : NoDigit b (s.dropWhile (isDigit b)) := by
  intro c hc
  have hhead := List.head?_dropWhile_not (isDigit b) s
  rw [Option.mem_def.mp hc] at hhead
  simpa using hhead

theorem takeSign_sign {sign : List UInt8} (hsign : Sign negative sign) (hc : isDigit b c) :
    takeSign (sign ++ c :: t) = (negative, c :: t) := by
  cases hsign with
  | none =>
    have hplus : c ≠ 43 := fun heq => by rw [heq] at hc; exact absurd hc (by simp [not_isDigit_of_small (c := 43) rfl])
    have hminus : c ≠ 45 := fun heq => by rw [heq] at hc; exact absurd hc (by simp [not_isDigit_of_small (c := 45) rfl])
    simp [takeSign, hplus, hminus]
  | plus | minus => rfl

theorem dropWhile_spaces {spaces sign : List UInt8} (hspaces : ∀ c ∈ spaces, isSpace c) (hsign : Sign negative sign)
    (hc : isDigit b c) : (spaces ++ (sign ++ c :: t)).dropWhile isSpace = sign ++ c :: t := by
  rw [List.dropWhile_append_of_pos hspaces]
  cases hsign with
  | none => exact List.dropWhile_cons_of_neg (by simp [not_isSpace_of_isDigit hc])
  | plus | minus => rfl

/-- `strtol` reads the longest numeral at the start. -/
theorem strtol_append (h : Numeral s n) (hrest : NoDigit 10 rest) : strtol (s ++ rest) = .clip n rest := by
  obtain ⟨spaces, sign, digits, negative, rfl, hspaces, hsign, hne, hdigits, rfl⟩ := h
  obtain ⟨htake, hdrop⟩ := takeWhile_digits hdigits hrest
  obtain ⟨c, digits, rfl⟩ := List.exists_cons_of_ne_nil hne
  have hc : isDigit 10 c := hdigits c List.mem_cons_self
  rw [strtol, List.append_assoc, List.append_assoc, List.cons_append, dropWhile_spaces hspaces hsign hc,
    takeSign_sign hsign hc]
  dsimp only
  rw [← List.cons_append, htake, hdrop, if_neg hne]

theorem numeral_ne_nil (h : Numeral s n) : s ≠ [] := by
  rintro rfl
  obtain ⟨spaces, sign, digits, negative, hempty, -, -, hne, -⟩ := h
  simp at hempty
  exact hne hempty.2.2

/-- There is no NUL in a numeral. -/
theorem noNul_numeral (h : Numeral s n) : NoNul s := by
  obtain ⟨spaces, sign, digits, negative, rfl, hspaces, hsign, -, hdigits, -⟩ := h
  have hspace : isSpace 0 = false := rfl
  rintro c hc rfl
  rcases List.mem_append.mp hc with hc | hc
  · exact absurd (hspaces 0 hc) (by simp [hspace])
  · rcases List.mem_append.mp hc with hc | hc
    · cases hsign <;> simp at hc
    · exact absurd (hdigits 0 hc) (by simp [isDigit_zero])

theorem takeSign_cases (s : List UInt8) : ∃ sign, Sign (takeSign s).1 sign ∧ s = sign ++ (takeSign s).2 := by
  rcases s with _ | ⟨c, s⟩
  · exact ⟨[], .none, rfl⟩
  · rw [takeSign]
    split
    · exact ⟨[45], .minus, by simp_all⟩
    · split
      · exact ⟨[43], .plus, by simp_all⟩
      · exact ⟨[], .none, rfl⟩

/-- Either a numeral comes first, or no digit is read. -/
theorem numeral_cases (s : List UInt8) :
    (∃ front rest n, s = front ++ rest ∧ Numeral front n ∧ NoDigit 10 rest) ∨
      (takeSign (s.dropWhile isSpace)).2.takeWhile (isDigit 10) = [] := by
  obtain ⟨sign, hsign, hsplit⟩ := takeSign_cases (s.dropWhile isSpace)
  by_cases hnone : (takeSign (s.dropWhile isSpace)).2.takeWhile (isDigit 10) = []
  · exact .inr hnone
  · have hspaces : ∀ c ∈ s.takeWhile isSpace, isSpace c := fun c hc => List.mem_takeWhile_imp hc
    have hdigits : ∀ c ∈ (takeSign (s.dropWhile isSpace)).2.takeWhile (isDigit 10), isDigit 10 c :=
      fun c hc => List.mem_takeWhile_imp hc
    have hs : s = s.takeWhile isSpace ++ (sign ++ (takeSign (s.dropWhile isSpace)).2.takeWhile (isDigit 10)) ++
        (takeSign (s.dropWhile isSpace)).2.dropWhile (isDigit 10) := by
      rw [List.append_assoc, List.append_assoc, List.takeWhile_append_dropWhile, ← hsplit,
        List.takeWhile_append_dropWhile]
    have hnumeral := (⟨_, sign, _, _, rfl, hspaces, hsign, hnone, hdigits, rfl⟩ : Numeral _ _)
    exact .inl ⟨_, _, _, hs, hnumeral, noDigit_dropWhile _⟩

theorem strtol_cases (s : List UInt8) :
    (∃ front rest n, s = front ++ rest ∧ Numeral front n ∧ NoDigit 10 rest ∧ strtol s = .clip n rest) ∨
      strtol s = ⟨0, false, s⟩ := by
  rcases numeral_cases s with ⟨front, rest, n, rfl, hnumeral, hrest⟩ | hnone
  · exact .inl ⟨front, rest, n, rfl, hnumeral, hrest, strtol_append hnumeral hrest⟩
  · refine .inr ?_
    rw [strtol]
    exact if_pos hnone

theorem clip_of_mem {n : Int} (hlow : longMin ≤ n) (hhigh : n ≤ longMax) : Strtol.clip n rest = ⟨n, false, rest⟩ := by
  rw [Strtol.clip, if_neg (Int.not_lt.mpr hlow), if_neg (Int.not_lt.mpr hhigh)]

theorem clip_eq {m : Int} (h : Strtol.clip n rest = ⟨m, false, t⟩) : n = m ∧ rest = t ∧ longMin ≤ n ∧ n ≤ longMax := by
  rw [Strtol.clip] at h
  split at h
  · cases h
  · split at h
    · cases h
    · cases h
      exact ⟨rfl, rfl, Int.not_lt.mp ‹_›, Int.not_lt.mp ‹_›⟩

/-- `strtol` reads a whole string if it is a numeral of a `long`, and the empty string too. -/
theorem strtol_end : strtol s = ⟨n, false, []⟩ ↔ s = [] ∧ n = 0 ∨ Numeral s n ∧ longMin ≤ n ∧ n ≤ longMax := by
  constructor
  · intro h
    rcases strtol_cases s with ⟨front, rest, m, rfl, hnumeral, -, hread⟩ | hread
    · obtain ⟨rfl, rfl, hrange⟩ := clip_eq (hread.symm.trans h)
      rw [List.append_nil]
      exact .inr ⟨hnumeral, hrange⟩
    · cases hread.symm.trans h
      exact .inl ⟨rfl, rfl⟩
  · rintro (⟨rfl, rfl⟩ | ⟨hnumeral, hlow, hhigh⟩)
    · rfl
    · have hread : strtol (s ++ []) = .clip n [] := strtol_append hnumeral nofun
      rwa [List.append_nil, clip_of_mem hlow hhigh] at hread

/-- A numeral stands for one `long`. -/
theorem numeral_unique {m : Int} (h : Numeral s n) (h' : Numeral s m) (hn : longMin ≤ n ∧ n ≤ longMax)
    (hm : longMin ≤ m ∧ m ≤ longMax) : n = m := by
  have hread : strtol s = ⟨n, false, []⟩ := strtol_end.mpr (.inr ⟨h, hn⟩)
  have hread' : strtol s = ⟨m, false, []⟩ := strtol_end.mpr (.inr ⟨h', hm⟩)
  exact congrArg Strtol.value (hread.symm.trans hread')

/-! ### `strtoul` -/

theorem strtoul_append (h : Numeral s n) (hrest : NoDigit 10 rest) :
    strtoul (s ++ rest) =
      if ulongMax < n.natAbs then ⟨ulongMax, true, rest⟩ else ⟨(n % 2 ^ 64).toNat, false, rest⟩ := by
  obtain ⟨spaces, sign, digits, negative, rfl, hspaces, hsign, hne, hdigits, rfl⟩ := h
  obtain ⟨htake, hdrop⟩ := takeWhile_digits hdigits hrest
  obtain ⟨c, digits, rfl⟩ := List.exists_cons_of_ne_nil hne
  have hc : isDigit 10 c := hdigits c List.mem_cons_self
  rw [strtoul, List.append_assoc, List.append_assoc, List.cons_append, dropWhile_spaces hspaces hsign hc,
    takeSign_sign hsign hc]
  dsimp only
  rw [← List.cons_append, htake, hdrop, if_neg hne]
  generalize value 10 (c :: digits) = m
  have habs : (signed negative m).natAbs = m := by cases negative <;> simp [signed]
  rw [habs]
  by_cases hlarge : ulongMax < m
  · rw [if_pos hlarge, if_pos hlarge]
  · rw [if_neg hlarge, if_neg hlarge]
    have hm : m < 2 ^ 64 := Nat.lt_of_le_of_lt (Nat.not_lt.mp hlarge) (by decide)
    cases negative
    · simp only [signed, Bool.false_eq_true, if_false, Strtoul.mk.injEq, and_true]
      omega
    · simp only [signed, if_true, Strtoul.mk.injEq, and_true]
      omega

/-- `strtoul` reads a whole string if it is a numeral whose digits fit an `unsigned long`, and the empty string too. -/
theorem strtoul_end {v : Nat} : strtoul s = ⟨v, false, []⟩ ↔
    s = [] ∧ v = 0 ∨ ∃ n, Numeral s n ∧ n.natAbs ≤ ulongMax ∧ v = (n % 2 ^ 64).toNat := by
  constructor
  · intro h
    rcases numeral_cases s with ⟨front, rest, n, rfl, hnumeral, hrest⟩ | hnone
    · rw [strtoul_append hnumeral hrest] at h
      split at h
      · cases h
      · cases h
        rw [List.append_nil]
        exact .inr ⟨n, hnumeral, Nat.not_lt.mp ‹_›, rfl⟩
    · have hread : strtoul s = ⟨0, false, s⟩ := by
        rw [strtoul]
        exact if_pos hnone
      cases hread.symm.trans h
      exact .inl ⟨rfl, rfl⟩
  · rintro (⟨rfl, rfl⟩ | ⟨n, hnumeral, hle, rfl⟩)
    · rfl
    · have hread : strtoul (s ++ []) = _ := strtoul_append hnumeral nofun
      rwa [List.append_nil, if_neg (Nat.not_lt.mpr hle)] at hread

/-! ### Printing -/

/-- The digits that `%u` prints. -/
def decimal (n : Nat) : List UInt8 := (Nat.toDigits 10 n).map fun c => c.toNat.toUInt8

theorem length_decimal_le {k m : Nat} (hk : 0 < k) (hm : m < 10 ^ k) : (decimal m).length ≤ k := by
  rw [decimal, List.length_map]
  exact (Nat.length_toDigits_le_iff (by decide) hk).mpr hm

/-- The characters of a decimal number are digits, and each stands for its own value. -/
theorem digit_of_mem_toDigits {d : Char} {m : Nat} (h : d ∈ Nat.toDigits 10 m) :
    digit d.toNat.toUInt8 = some (d.toNat - '0'.toNat) ∧ isDigit 10 d.toNat.toUInt8 := by
  have hdigit : d.isDigit := Nat.isDigit_of_mem_toDigits (by decide) (by decide) h
  have hrange : 48 ≤ d.toNat ∧ d.toNat ≤ 57 := by simpa [Char.isDigit, UInt32.le_iff_toNat_le] using hdigit
  have hbyte : d.toNat.toUInt8.toNat = d.toNat := Nat.mod_eq_of_lt (by omega)
  have hvalue : digit d.toNat.toUInt8 = some (d.toNat - '0'.toNat) := by
    rw [digit, hbyte, if_pos hrange]
    rfl
  refine ⟨hvalue, ?_⟩
  rw [isDigit, hvalue, Option.any_some, decide_eq_true_eq]
  change d.toNat - 48 < 10
  omega

theorem value_decimal (m : Nat) : value 10 (decimal m) = m := by
  have hfold : ∀ (digits : List Char) (acc : Nat), (∀ d ∈ digits, digit d.toNat.toUInt8 = some (d.toNat - '0'.toNat)) →
      (digits.map fun c => c.toNat.toUInt8).foldl (fun n c => 10 * n + (digit c).getD 0) acc =
        Nat.ofDigitChars 10 digits acc := by
    intro digits
    induction digits with
    | nil => exact fun acc _ => rfl
    | cons d digits ih =>
      intro acc hdigits
      obtain ⟨hd, hrest⟩ := List.forall_mem_cons.mp hdigits
      rw [List.map_cons, List.foldl_cons, hd]
      exact ih _ hrest
  rw [value, decimal, hfold _ _ fun d hd => (digit_of_mem_toDigits hd).1]
  exact Nat.ofDigitChars_toDigits (by decide) (by decide)

theorem decimal_ne_nil (m : Nat) : decimal m ≠ [] := by
  rw [decimal, ne_eq, List.map_eq_nil_iff]
  exact Nat.toDigits_ne_nil

theorem isDigit_of_mem_decimal {m : Nat} (h : c ∈ decimal m) : isDigit 10 c := by
  obtain ⟨d, hd, rfl⟩ := List.mem_map.mp h
  exact (digit_of_mem_toDigits hd).2

/-- What `%u` prints is a numeral. -/
theorem numeral_decimal (m : Nat) : Numeral (decimal m) m := by
  refine ⟨[], [], decimal m, false, rfl, nofun, .none, decimal_ne_nil m, fun c hc => isDigit_of_mem_decimal hc, ?_⟩
  rw [value_decimal]
  rfl

/-- What `%d` prints. -/
def signedDecimal (n : Int) : List UInt8 := (if n < 0 then [45] else []) ++ decimal n.natAbs

theorem numeral_signedDecimal (n : Int) : Numeral (signedDecimal n) n := by
  unfold signedDecimal
  split_ifs with hn
  · refine ⟨[], [45], decimal n.natAbs, true, rfl, nofun, .minus, decimal_ne_nil _,
      fun c hc => isDigit_of_mem_decimal hc, ?_⟩
    rw [value_decimal, signed, if_pos rfl, Int.ofNat_natAbs_of_nonpos (Int.le_of_lt hn), Int.neg_neg]
  · rw [List.nil_append]
    have hnumeral := numeral_decimal n.natAbs
    rwa [Int.natAbs_of_nonneg (Int.not_lt.mp hn)] at hnumeral

/-- What `%0*u` prints, in a field of `k` characters. -/
def padded (k n : Nat) : List UInt8 := List.replicate (k - (decimal n).length) 48 ++ decimal n

theorem value_padded (k m : Nat) : value 10 (padded k m) = m := by
  have hzeros : ∀ j, value 10 (List.replicate j 48) = 0 := by
    intro j
    induction j with
    | zero => rfl
    | succ j ih =>
      rw [List.replicate_succ', value_concat, ih]
      rfl
  rw [padded, value_append, hzeros, value_decimal, Nat.zero_mul, Nat.zero_add]

theorem isDigit_of_mem_padded {k m : Nat} (h : c ∈ padded k m) : isDigit 10 c := by
  rcases List.mem_append.mp h with hzero | hdigit
  · rw [List.eq_of_mem_replicate hzero]
    rfl
  · exact isDigit_of_mem_decimal hdigit

theorem length_padded {k m : Nat} (hk : 0 < k) (hm : m < 10 ^ k) : (padded k m).length = k := by
  rw [padded, List.length_append, List.length_replicate, Nat.sub_add_cancel (length_decimal_le hk hm)]

theorem noNul_decimal (m : Nat) : NoNul (decimal m) := by
  intro c hc
  obtain ⟨d, hd, rfl⟩ := List.mem_map.mp hc
  have hdigit : d.isDigit := Nat.isDigit_of_mem_toDigits (by decide) (by decide) hd
  have hrange : 48 ≤ d.toNat ∧ d.toNat ≤ 57 := by simpa [Char.isDigit, UInt32.le_iff_toNat_le] using hdigit
  intro hzero
  have hnat : d.toNat % 256 = 0 := congrArg UInt8.toNat hzero
  omega

end CNumber
