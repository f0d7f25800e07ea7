import Mathlib.Logic.Function.Iterate
import Mathlib.Data.List.Basic

/-! Shift registers with linear feedback: a register takes in one bit at a time, and the bit and the register
    act on the result independently of each other.

    Registers are compared and combined by exclusive or. The laws of a `Register` say where a bit goes in
    (`slot 0`) and that a register which is fed nothing moves the bits of its other slots along. -/

/-- A type with exclusive or. -/
class XorSpace (V : Type) extends XorOp V where
  zero : V
  exor_assoc : ∀ a b c : V, a ^^^ b ^^^ c = a ^^^ (b ^^^ c)
  exor_comm : ∀ a b : V, a ^^^ b = b ^^^ a
  exor_self : ∀ a : V, a ^^^ a = zero
  exor_zero : ∀ a : V, a ^^^ zero = a

namespace XorSpace
variable {V : Type} [XorSpace V] {a b c : V}

instance : Std.Associative (α := V) (· ^^^ ·) := ⟨exor_assoc⟩

instance : Std.Commutative (α := V) (· ^^^ ·) := ⟨exor_comm⟩

@[simp] theorem zero_exor (a : V) : zero ^^^ a = a := (exor_comm zero a).trans (exor_zero a)

theorem exor_cancel_left (a b : V) : a ^^^ (a ^^^ b) = b := by
  rw [← exor_assoc, exor_self, zero_exor]

theorem exor_eq_zero : a ^^^ b = zero ↔ a = b := by
  constructor
  · intro h
    rw [← exor_zero a, ← exor_self b, ← exor_assoc, h, zero_exor]
  · rintro rfl
    exact exor_self a

theorem exor_eq_iff : a ^^^ b = c ↔ b = a ^^^ c := by
  constructor
  · rintro rfl
    rw [exor_cancel_left]
  · rintro rfl
    rw [exor_cancel_left]

attribute [simp] exor_zero exor_self

/-- `a` if the bit is set. -/
def gate (b : Bool) (a : V) : V := if b then a else zero

@[simp] theorem gate_false (a : V) : gate false a = zero := rfl

@[simp] theorem gate_true (a : V) : gate true a = a := rfl

theorem gate_exor (b c : Bool) (a : V) : gate (b ^^ c) a = gate b a ^^^ gate c a := by
  cases b <;> cases c <;> simp [gate]

end XorSpace

namespace ShiftRegister
open XorSpace

/-- A register of `width` bits: `read a i` is the bit in slot `i`, `slot i` the register with this bit alone,
    and `feed` a step without input. -/
structure Register (V : Type) [XorSpace V] where
  width : Nat
  read : V → Nat → Bool
  slot : Nat → V
  feed : V → V
  read_xor : ∀ a b i, read (a ^^^ b) i = (read a i ^^ read b i)
  read_slot : ∀ i j, i < width → j < width → read (slot i) j = decide (i = j)
  ext : ∀ a b, (∀ i, i < width → read a i = read b i) → a = b
  feed_xor : ∀ a b, feed (a ^^^ b) = feed a ^^^ feed b
  feed_slot : ∀ i, i + 1 < width → feed (slot (i + 1)) = slot i
  eq_zero_of_feed : ∀ a, feed a = zero → a = zero

variable {V : Type} [XorSpace V] (R : Register V)

/-- A step with an input bit. -/
def Register.step (a : V) (b : Bool) : V := R.feed (a ^^^ gate b (R.slot 0))

/-- The register after the bits. -/
def Register.run (a : V) (bits : List Bool) : V := bits.foldl R.step a

/-- The bits in the slots from `i` on. -/
def Register.place : (i : Nat) → List Bool → V
  | _, [] => zero
  | i, b :: bits => gate b (R.slot i) ^^^ Register.place (i + 1) bits

variable {R} {a b : V} {bits bits' : List Bool}

@[simp] theorem feed_zero : R.feed zero = zero := by
  have h := R.feed_xor zero zero
  rwa [exor_self, exor_self] at h

theorem iterate_zero (n : Nat) : R.feed^[n] zero = zero := Function.iterate_fixed feed_zero n

theorem iterate_xor (n : Nat) (a b : V) : R.feed^[n] (a ^^^ b) = R.feed^[n] a ^^^ R.feed^[n] b := by
  induction n generalizing a b with
  | zero => rfl
  | succ n ih => rw [Function.iterate_succ_apply, R.feed_xor, ih, Function.iterate_succ_apply,
      Function.iterate_succ_apply]

theorem feed_injective : Function.Injective R.feed := by
  intro a b h
  rw [← exor_eq_zero, ← R.feed_xor] at h
  exact exor_eq_zero.mp (R.eq_zero_of_feed _ h)

theorem iterate_injective (n : Nat) : Function.Injective R.feed^[n] := feed_injective.iterate n

@[simp] theorem read_zero {i : Nat} : R.read zero i = false := by
  have h := R.read_xor zero zero i
  rwa [exor_self, Bool.xor_self] at h

theorem run_append (a : V) (bits bits' : List Bool) : R.run a (bits ++ bits') = R.run (R.run a bits) bits' :=
  List.foldl_append

theorem run_cons (a : V) (b : Bool) (bits : List Bool) : R.run a (b :: bits) = R.run (R.step a b) bits := rfl

theorem step_false (a : V) : R.step a false = R.feed a := by
  rw [Register.step, gate_false, exor_zero]

theorem step_xor (a b : V) (c d : Bool) : R.step (a ^^^ b) (c ^^ d) = R.step a c ^^^ R.step b d := by
  rw [Register.step, gate_exor, Register.step, Register.step, ← R.feed_xor]
  congr 1
  ac_rfl

/-- Runs on inputs of one length superpose. -/
theorem run_xor (hlen : bits.length = bits'.length) (a b : V) :
    R.run (a ^^^ b) (List.zipWith xor bits bits') = R.run a bits ^^^ R.run b bits' := by
  induction bits generalizing bits' a b with
  | nil =>
    rcases bits' with _ | ⟨c, bits'⟩
    · rfl
    · cases hlen
  | cons c bits ih =>
    rcases bits' with _ | ⟨d, bits'⟩
    · cases hlen
    · rw [List.zipWith_cons_cons, run_cons, step_xor, ih (Nat.succ.inj hlen), run_cons, run_cons]

theorem run_false (a : V) (n : Nat) : R.run a (List.replicate n false) = R.feed^[n] a := by
  induction n generalizing a with
  | zero => rfl
  | succ n ih => rw [List.replicate_succ, run_cons, step_false, ih, Function.iterate_succ_apply]

theorem feed_place {i : Nat} (hfit : i + 1 + bits.length ≤ R.width) :
    R.feed (R.place (i + 1) bits) = R.place i bits := by
  induction bits generalizing i with
  | nil => exact feed_zero
  | cons b bits ih =>
    rw [List.length_cons] at hfit
    have hslot : R.feed (R.slot (i + 1)) = R.slot i := R.feed_slot i (by omega)
    rw [Register.place, R.feed_xor, ih (by omega), Register.place]
    cases b
    · rw [gate_false, gate_false, feed_zero]
    · rw [gate_true, gate_true, hslot]

/-- Input that fits into the register may go in at once. -/
theorem run_eq (hfit : bits.length ≤ R.width) (a : V) :
    R.run a bits = R.feed^[bits.length] (a ^^^ R.place 0 bits) := by
  induction bits generalizing a with
  | nil =>
    rw [Register.place, exor_zero]
    rfl
  | cons b bits ih =>
    rw [List.length_cons] at hfit
    rw [run_cons, ih (by omega), List.length_cons, Function.iterate_succ_apply, Register.step,
      ← feed_place (by omega), ← R.feed_xor, Register.place]
    congr 2
    ac_rfl

theorem read_place {i j : Nat} (hfit : i + bits.length ≤ R.width) (hj : j < R.width) :
    R.read (R.place i bits) j = (decide (i ≤ j) && bits.getD (j - i) false) := by
  induction bits generalizing i with
  | nil => simp [Register.place]
  | cons b bits ih =>
    rw [List.length_cons] at hfit
    have hgate : R.read (gate b (R.slot i)) j = (b && decide (i = j)) := by
      cases b
      · simp
      · simpa using R.read_slot i j (by omega) hj
    rw [Register.place, R.read_xor, hgate, ih (by omega)]
    rcases Nat.lt_trichotomy i j with hij | rfl | hij
    · obtain ⟨k, rfl⟩ : ∃ k, j = i + 1 + k := ⟨j - (i + 1), by omega⟩
      have hk : i + 1 + k - i = k + 1 := by omega
      simp [hk, show ¬i = i + 1 + k by omega, show i ≤ i + 1 + k by omega]
    · have hlt : ¬i + 1 ≤ i := by omega
      simp [hlt]
    · simp [show ¬i = j by omega, show ¬i ≤ j by omega, show ¬i + 1 ≤ j by omega]

theorem place_ne_zero (hfit : bits.length ≤ R.width) (hbit : true ∈ bits) : R.place 0 bits ≠ zero := by
  intro hzero
  obtain ⟨i, hi, hbit⟩ := List.getElem_of_mem hbit
  have hread : R.read (R.place 0 bits) i = _ := read_place (by omega) (by omega)
  rw [hzero, read_zero, Nat.sub_zero, List.getD_eq_getElem?_getD, List.getElem?_eq_getElem hi, hbit] at hread
  simp at hread

/-- No difference that fits into the register goes unnoticed. -/
theorem run_ne_of_window {pre win post : List Bool} (hfit : win.length ≤ R.width) (hbit : true ∈ win)
    (hpre : ∀ b ∈ pre, b = false) (hpost : ∀ b ∈ post, b = false) : R.run zero (pre ++ win ++ post) ≠ zero := by
  rw [List.eq_replicate_of_mem hpre, List.eq_replicate_of_mem hpost, run_append, run_append, run_false, run_false,
    iterate_zero, run_eq hfit, zero_exor, ← Function.iterate_add_apply]
  intro h
  exact place_ne_zero hfit hbit (iterate_injective _ (h.trans (iterate_zero _).symm))

theorem exists_window {k n : Nat} (hwin : ∀ i : Nat, bits[i]? = some true → k ≤ i ∧ i < k + n)
    (hbit : true ∈ bits) : ∃ pre win post, bits = pre ++ win ++ post ∧ win.length ≤ n ∧ true ∈ win ∧
      (∀ b ∈ pre, b = false) ∧ ∀ b ∈ post, b = false := by
  have hsplit : bits = bits.take k ++ (bits.drop k).take n ++ (bits.drop k).drop n := by
    rw [List.append_assoc, List.take_append_drop, List.take_append_drop]
  have hpre : ∀ b ∈ bits.take k, b = false := by
    intro b hb
    obtain ⟨i, hi, rfl⟩ := List.getElem_of_mem hb
    refine Bool.eq_false_iff.mpr fun hset => ?_
    rw [List.getElem_take] at hset
    obtain ⟨hle, -⟩ := hwin i (List.getElem?_eq_some_iff.mpr ⟨_, hset⟩)
    rw [List.length_take] at hi
    omega
  have hpost : ∀ b ∈ (bits.drop k).drop n, b = false := by
    intro b hb
    obtain ⟨i, hi, rfl⟩ := List.getElem_of_mem hb
    refine Bool.eq_false_iff.mpr fun hset => ?_
    rw [List.getElem_drop, List.getElem_drop] at hset
    obtain ⟨-, hlt⟩ := hwin _ (List.getElem?_eq_some_iff.mpr ⟨_, hset⟩)
    omega
  refine ⟨_, _, _, hsplit, List.length_take_le .., ?_, hpre, hpost⟩
  rw [hsplit, List.mem_append, List.mem_append] at hbit
  rcases hbit with (hbit | hbit) | hbit
  · cases hpre _ hbit
  · exact hbit
  · cases hpost _ hbit

theorem getElem?_zipWith_xor (hlen : bits.length = bits'.length) (i : Nat) :
    (List.zipWith xor bits bits')[i]? = some true ↔ bits[i]? ≠ bits'[i]? := by
  rw [List.getElem?_zipWith]
  rcases Nat.lt_or_ge i bits.length with hi | hi
  · rw [List.getElem?_eq_getElem hi, List.getElem?_eq_getElem (hlen ▸ hi)]
    simp
  · rw [List.getElem?_eq_none hi, List.getElem?_eq_none (hlen ▸ hi)]
    simp

/-- Inputs of one length that differ, but only in a window of the width of the register, are told apart. -/
theorem run_ne (hlen : bits.length = bits'.length) (hne : bits ≠ bits') (k : Nat)
    (hwin : ∀ i : Nat, bits[i]? ≠ bits'[i]? → k ≤ i ∧ i < k + R.width) (a : V) :
    R.run a bits ≠ R.run a bits' := by
  have hbit : true ∈ List.zipWith xor bits bits' := by
    obtain ⟨i, hi⟩ : ∃ i : Nat, bits[i]? ≠ bits'[i]? := by
      by_contra hall
      exact hne (List.ext_getElem? fun i => not_not.mp fun hi => hall ⟨i, hi⟩)
    exact List.mem_of_getElem? ((getElem?_zipWith_xor hlen i).mpr hi)
  obtain ⟨pre, win, post, hsplit, hfit, hwbit, hpre, hpost⟩ :=
    exists_window (fun i hi => hwin i ((getElem?_zipWith_xor hlen i).mp hi)) hbit
  intro heq
  refine run_ne_of_window hfit hwbit hpre hpost (R := R) ?_
  have hrun : R.run (a ^^^ a) _ = _ := run_xor hlen a a
  rwa [hsplit, heq, exor_self, exor_self] at hrun

/-- With all slots filled at once, the result tells what the register and the input were. -/
theorem run_eq_iterate_iff (hlen : bits.length = R.width) (a c : V) :
    R.run a bits = R.feed^[R.width] c ↔ R.place 0 bits = a ^^^ c := by
  rw [run_eq (Nat.le_of_eq hlen), hlen, (iterate_injective R.width).eq_iff, exor_eq_iff]

end ShiftRegister
