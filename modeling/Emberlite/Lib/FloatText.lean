import Emberlite.Lib.FloatValue
import Emberlite.Lib.Scanf

/-! Floating-point numbers in C strings: the forms that `strtof` and `%lf` read, each with the rounded value. -/

namespace FloatText
open CString CNumber Rounding

/-- What a text stands for, without its sign. -/
inductive Item where
  | number (x : ℚ)
  | infinity
  | nan
  deriving DecidableEq

/-- A capital letter made small. -/
def toLower (c : UInt8) : UInt8 := if 65 ≤ c.toNat ∧ c.toNat ≤ 90 then c + 32 else c

/-- The digits behind a point, which may be missing. -/
def takeFraction (b : ℕ) : List UInt8 → List UInt8 × List UInt8
  | [] => ([], [])
  | c :: s => if c = 46 then (s.takeWhile (isDigit b), s.dropWhile (isDigit b)) else ([], c :: s)

/-- An exponent, which may be missing. A mark without digits is given back, or spoils the number if it has been taken
    from the input already. -/
def takeExponent (giveBack : Bool) (mark : UInt8) : List UInt8 → Option (ℤ × List UInt8)
  | [] => some (0, [])
  | c :: s =>
    if toLower c ≠ mark then some (0, c :: s)
    else
      let (negative, t) := takeSign s
      if t.takeWhile (isDigit 10) ≠ [] then
        some (signed negative (value 10 (t.takeWhile (isDigit 10))), t.dropWhile (isDigit 10))
      else if giveBack then some (0, c :: s) else none

/-- A number in base `b`, with an exponent of `e`. -/
def takeNumber (giveBack : Bool) (b e : ℕ) (mark : UInt8) (s : List UInt8) : Option (ℚ × List UInt8) :=
  let whole := s.takeWhile (isDigit b)
  let (part, t) := takeFraction b (s.dropWhile (isDigit b))
  if whole ++ part = [] then none
  else (takeExponent giveBack mark t).map fun (k, rest) =>
    (value b (whole ++ part) / b ^ part.length * (e : ℚ) ^ k, rest)

/-- A word in small or large letters. -/
def takeWord (word s : List UInt8) : Option (List UInt8) :=
  if (s.take word.length).map toLower = word then some (s.drop word.length) else none

/-- The characters that may stand in the parentheses. -/
def isWordChar (c : UInt8) : Bool := isDigit 10 c || decide (97 ≤ (toLower c).toNat ∧ (toLower c).toNat ≤ 122) || c == 95

/-- The characters in parentheses behind `nan`, which may be missing. -/
def dropParens : List UInt8 → List UInt8
  | [] => []
  | c :: s =>
    match s.dropWhile isWordChar with
    | d :: t => if c = 40 ∧ d = 41 then t else c :: s
    | [] => c :: s

/-- A number, infinity or NaN at the start of a string, and what follows. -/
def takeItem (giveBack : Bool) (s : List UInt8) : Option (Item × List UInt8) :=
  if Scanf.dropMark s ≠ s then
    match takeNumber giveBack 16 2 112 (Scanf.dropMark s) with
    | some (x, rest) => some (.number x, rest)
    | none => if giveBack then some (.number 0, s.drop 1) else none
  else
    match takeNumber giveBack 10 10 101 s, takeWord (lit "inf") s, takeWord (lit "nan") s with
    | some (x, rest), _, _ => some (.number x, rest)
    | none, some t, _ =>
      match takeWord (lit "inity") t with
      | some rest => some (.infinity, rest)
      | none => if giveBack ∨ (t.take 1).map toLower ≠ lit "i" then some (.infinity, t) else none
    | none, none, some t => some (.nan, dropParens t)
    | none, none, none => none

variable {F : Format}

/-- The value of an item with its sign. -/
def Item.value (negative : Bool) : Item → Value F
  | .number x => .ofRat (if negative then -x else x)
  | .infinity => .infinite negative
  | .nan => .nan

/-- `ERANGE`: the number is too large, or below the normal ones and not exact. -/
def Item.range (F : Format) : Item → Bool
  | .number x => decide (2 ^ (F.precision + F.emax) ≤ |F.round x|) ||
      decide (|x| < 2 ^ (F.emin + F.precision - 1) ∧ F.round x ≠ x)
  | .infinity | .nan => false

/-- What `strtof` returns, whether it sets `errno` to `ERANGE`, and what it points `end` at. -/
structure Strtof (F : Format) where
  value : Value F
  range : Bool
  rest : List UInt8

/-- `strtof` or `strtod`, by the format. -/
def strtof (F : Format) (s : List UInt8) : Strtof F :=
  let (negative, t) := takeSign (s.dropWhile isSpace)
  match takeItem true t with
  | none => ⟨.ofRat 0, false, s⟩
  | some (item, rest) => ⟨item.value negative, item.range F, rest⟩

/-- `%lf` of `fscanf`: the number that is stored, if there is one. -/
def scanFloat (F : Format) (s : List UInt8) : Option (Value F) :=
  let (negative, t) := takeSign (s.dropWhile isSpace)
  (takeItem false t).map fun (item, _) => item.value negative

/-! ### Decimals -/

/-- A point and digits, or nothing. -/
def Fraction (part : List UInt8) : List UInt8 → Prop
  | [] => part = []
  | c :: s => c = 46 ∧ s = part

/-- Digits, and perhaps a point and digits, and the number that they stand for. -/
def Decimal (s : List UInt8) (x : ℚ) : Prop :=
  ∃ whole fraction part, s = whole ++ fraction ∧ Fraction part fraction ∧ whole ≠ [] ∧
    (∀ c ∈ whole ++ part, isDigit 10 c) ∧ x = value 10 (whole ++ part) / 10 ^ part.length

/-- A decimal ends here: no digit follows, and no mark that belongs to a number. -/
def Ends (rest : List UInt8) : Prop :=
  ∀ c ∈ rest.head?, isDigit 10 c = false ∧ toLower c ≠ 101 ∧ c ≠ 46 ∧ ¬(c = 120 ∨ c = 88)

variable {s rest : List UInt8} {x : ℚ} {c : UInt8} {giveBack : Bool}

theorem not_isDigit_point (b : ℕ) : isDigit b 46 = false := not_isDigit_of_small rfl (by decide)

theorem takeFraction_fraction {fraction part : List UInt8} (hfraction : Fraction part fraction)
    (hpart : ∀ c ∈ part, isDigit 10 c) (hrest : Ends rest) : takeFraction 10 (fraction ++ rest) = (part, rest) := by
  cases fraction with
  | nil =>
    obtain rfl := hfraction
    rcases rest with _ | ⟨c, rest⟩
    · rfl
    · exact if_neg (hrest c rfl).2.2.1
  | cons c s =>
    obtain ⟨rfl, rfl⟩ := hfraction
    obtain ⟨htake, hdrop⟩ := takeWhile_digits hpart fun c hc => (hrest c hc).1
    rw [List.cons_append, takeFraction, if_pos rfl, htake, hdrop]

theorem noDigit_fraction {fraction part : List UInt8} (hfraction : Fraction part fraction) (hrest : Ends rest) :
    NoDigit 10 (fraction ++ rest) := by
  cases fraction with
  | nil => exact fun c hc => (hrest c hc).1
  | cons c s =>
    obtain ⟨rfl, rfl⟩ := hfraction
    rintro _ ⟨⟩
    exact not_isDigit_point 10

theorem takeNumber_decimal (hs : Decimal s x) (hrest : Ends rest) :
    takeNumber giveBack 10 10 101 (s ++ rest) = some (x, rest) := by
  obtain ⟨whole, fraction, part, rfl, hfraction, hne, hdigits, rfl⟩ := hs
  obtain ⟨hwhole, hpart⟩ := List.forall_mem_append.mp hdigits
  obtain ⟨htake, hdrop⟩ := takeWhile_digits hwhole (noDigit_fraction hfraction hrest)
  have hexponent : takeExponent giveBack 101 rest = some (0, rest) := by
    rcases rest with _ | ⟨c, rest⟩
    · rfl
    · exact if_pos (hrest c rfl).2.1
  have hnonempty : whole ++ part ≠ [] := fun h => hne (List.append_eq_nil_iff.mp h).1
  rw [List.append_assoc, takeNumber, htake, hdrop, takeFraction_fraction hfraction hpart hrest]
  simp only [hexponent, hnonempty, if_false, Option.map_some, zpow_zero, mul_one, Nat.cast_ofNat]

theorem exists_cons (hs : Decimal s x) : ∃ c t, s = c :: t ∧ isDigit 10 c := by
  obtain ⟨whole, fraction, part, rfl, -, hne, hdigits, -⟩ := hs
  obtain ⟨c, whole, rfl⟩ := List.exists_cons_of_ne_nil hne
  exact ⟨c, _, rfl, hdigits c (by simp)⟩

theorem dropMark_decimal (hs : Decimal s x) (hrest : Ends rest) : Scanf.dropMark (s ++ rest) = s ++ rest := by
  obtain ⟨whole, fraction, part, rfl, hfraction, hne, hdigits, -⟩ := hs
  obtain ⟨c, whole, rfl⟩ := List.exists_cons_of_ne_nil hne
  have hmark : ∀ d : UInt8, isDigit 10 d ∨ d = 46 → ¬(d = 120 ∨ d = 88) := by
    rintro d hd (rfl | rfl)
    · rcases hd with h | h <;> cases h
    · rcases hd with h | h <;> cases h
  rcases whole with _ | ⟨d, whole⟩
  · rcases fraction with _ | ⟨d, fraction⟩
    · rcases rest with _ | ⟨d, rest⟩
      · rfl
      · exact if_neg fun h => (hrest d rfl).2.2.2 h.2
    · exact if_neg fun h => hmark d (.inr hfraction.1) h.2
  · exact if_neg fun h => hmark d (.inl (hdigits d (by simp))) h.2

theorem takeItem_decimal (hs : Decimal s x) (hrest : Ends rest) :
    takeItem giveBack (s ++ rest) = some (.number x, rest) := by
  rw [takeItem, dropMark_decimal hs hrest, if_neg (not_not.mpr rfl), takeNumber_decimal hs hrest]

theorem takeSign_decimal (hs : Decimal s x) (rest : List UInt8) :
    takeSign ((s ++ rest).dropWhile isSpace) = (false, s ++ rest) := by
  obtain ⟨c, t, rfl, hc⟩ := exists_cons hs
  have hspaces : ([] ++ ([] ++ c :: (t ++ rest))).dropWhile isSpace = [] ++ c :: (t ++ rest) :=
    dropWhile_spaces (fun _ h => absurd h List.not_mem_nil) .none hc
  have hsign := takeSign_sign (t := t ++ rest) .none hc
  simp only [List.nil_append] at hspaces hsign
  rw [List.cons_append, hspaces, hsign]

theorem strtof_decimal (hs : Decimal s x) (hrest : Ends rest) :
    strtof F (s ++ rest) = ⟨.ofRat x, (Item.number x).range F, rest⟩ := by
  rw [strtof, takeSign_decimal hs]
  dsimp only
  rw [takeItem_decimal hs hrest]
  rfl

theorem scanFloat_decimal (hs : Decimal s x) (hrest : Ends rest) : scanFloat F (s ++ rest) = some (.ofRat x) := by
  rw [scanFloat, takeSign_decimal hs]
  dsimp only
  rw [takeItem_decimal hs hrest]
  rfl

/-- What `%u` prints. -/
theorem decimal_whole (w : ℕ) : Decimal (decimal w) w := by
  refine ⟨decimal w, [], [], (List.append_nil _).symm, rfl, decimal_ne_nil w, fun c hc => ?_, ?_⟩
  · rw [List.append_nil] at hc
    exact isDigit_of_mem_decimal hc
  · rw [List.append_nil, value_decimal, List.length_nil, pow_zero, div_one]

/-- What `%u.%0*u` prints. -/
theorem decimal_fixed {k n : ℕ} (w : ℕ) (hk : 0 < k) (hn : n < 10 ^ k) :
    Decimal (decimal w ++ 46 :: padded k n) (w + n / 10 ^ k) := by
  refine ⟨decimal w, 46 :: padded k n, padded k n, rfl, ⟨rfl, rfl⟩, decimal_ne_nil w, fun c hc => ?_, ?_⟩
  · rcases List.mem_append.mp hc with hc | hc
    · exact isDigit_of_mem_decimal hc
    · exact isDigit_of_mem_padded hc
  · rw [value_append, value_decimal, value_padded, length_padded hk hn]
    push_cast
    rw [add_div, mul_div_cancel_right₀ _ (by positivity)]

end FloatText
