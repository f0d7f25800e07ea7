import Emberlite.Lib.ShiftRegister
import Mathlib.Data.List.Prime
import Mathlib.Data.Nat.Prime.Basic
import Mathlib.Dynamics.PeriodicPts.Defs

/-! After how many steps a shift register comes back, and what a register says about the parity of its input.

    A number of steps is too large to be taken one by one, but the state after `2 * n` steps is a product of the
    state after `n` steps with itself (`times`), so that it can be computed. -/

namespace ShiftRegister
open XorSpace Function

/-! ### The least period -/

/-- A period that no prime can be taken out of is the least one. -/
theorem minimalPeriod_eq_of_primes {α : Type} {f : α → α} {x : α} {primes : List Nat}
    (hprimes : ∀ p ∈ primes, p.Prime) (hperiod : IsPeriodicPt f primes.prod x)
    (hleast : ∀ p ∈ primes, ¬IsPeriodicPt f (primes.prod / p) x) : minimalPeriod f x = primes.prod := by
  obtain ⟨a, ha⟩ := hperiod.minimalPeriod_dvd
  by_cases hone : a = 1
  · rw [ha, hone, Nat.mul_one]
  · obtain ⟨p, hp, hpa⟩ := Nat.exists_prime_and_dvd hone
    obtain ⟨q, hq, hpq⟩ := hp.prime.dvd_prod_iff.mp (ha ▸ hpa.mul_left _)
    obtain rfl : p = q := (Nat.prime_dvd_prime_iff_eq hp (hprimes q hq)).mp hpq
    obtain ⟨b, rfl⟩ := hpa
    refine (hleast p hq ?_).elim
    have hdiv : primes.prod / p = minimalPeriod f x * b := by
      rw [ha, Nat.mul_left_comm, Nat.mul_div_cancel_left _ hp.pos]
    rw [hdiv]
    exact (isPeriodicPt_minimalPeriod f x).mul_const b

variable {V : Type} [XorSpace V] {R : Register V} {a b : V} {bits bits' : List Bool}

theorem isPeriodicPt_iterate_iff (k n : Nat) : IsPeriodicPt R.feed n (R.feed^[k] a) ↔ IsPeriodicPt R.feed n a := by
  refine ⟨fun h => ?_, fun h => h.apply_iterate k⟩
  rw [IsPeriodicPt, IsFixedPt, ← iterate_add_apply, Nat.add_comm, iterate_add_apply] at h
  exact iterate_injective k h

/-! ### Many steps at once -/

theorem place_concat (i : Nat) (bits : List Bool) (b : Bool) :
    R.place i (bits ++ [b]) = R.place i bits ^^^ gate b (R.slot (i + bits.length)) := by
  induction bits generalizing i with
  | nil =>
    change gate b (R.slot i) ^^^ zero = zero ^^^ gate b (R.slot i)
    rw [exor_zero, zero_exor]
  | cons c bits ih =>
    rw [List.cons_append, Register.place, ih, Register.place, exor_assoc, List.length_cons, Nat.add_right_comm,
      Nat.add_assoc]

theorem place_read (a : V) : R.place 0 ((List.range R.width).map (R.read a)) = a := by
  refine R.ext _ _ fun i hi => ?_
  rw [read_place (by simp) hi]
  simp [hi]

variable (R) in
/-- The sum over the slots `i` of `a` of `R.width - 1 - i` steps from `b`. -/
def Register.times (a b : V) : V := (List.range R.width).foldl (fun c i => R.feed c ^^^ gate (R.read a i) b) zero

variable (R) in
/-- The last slot. -/
def Register.unit : V := R.slot (R.width - 1)

theorem times_unit (a : V) : R.times a R.unit = a := by
  suffices hloop : ∀ k, k ≤ R.width →
      (List.range k).foldl (fun c i => R.feed c ^^^ gate (R.read a i) R.unit) zero =
        R.place (R.width - k) ((List.range k).map (R.read a)) by
    rw [Register.times, hloop _ (Nat.le_refl _), Nat.sub_self, place_read]
  intro k
  induction k with
  | zero => exact fun _ => rfl
  | succ k ih =>
    intro hk
    have hstart : R.width - k = R.width - (k + 1) + 1 := by omega
    have hend : R.width - (k + 1) + k = R.width - 1 := by omega
    rw [List.range_succ, List.foldl_concat, ih (by omega), hstart, feed_place (by simp; omega), List.map_append,
      List.map_singleton, place_concat, List.length_map, List.length_range, hend, Register.unit]

theorem gate_feed (c : Bool) (b : V) : gate c (R.feed b) = R.feed (gate c b) := by
  cases c
  · exact feed_zero.symm
  · rfl

theorem times_feed (a b : V) : R.times a (R.feed b) = R.feed (R.times a b) := by
  have hloop : (List.range R.width).foldl (fun c i => R.feed c ^^^ gate (R.read a i) (R.feed b)) (R.feed zero) =
      R.feed (R.times a b) :=
    List.foldl_hom R.feed fun c i => by rw [gate_feed, R.feed_xor]
  rwa [feed_zero] at hloop

theorem times_iterate (a : V) (n : Nat) : R.times a (R.feed^[n] R.unit) = R.feed^[n] a := by
  induction n with
  | zero => exact times_unit a
  | succ n ih => rw [iterate_succ_apply', times_feed, ih, iterate_succ_apply']

/-! Powers are computed by squaring. Each square is brought to a numeral before it is used, or the terms would
    grow with every step. -/

/-- `f a`, after the code of `a`. -/
def strict {α : Type} (code : V → Nat) (decode : Nat → V) (a : V) (f : V → α) : α :=
  match code a with
  | 0 => f (decode 0)
  | n + 1 => f (decode (n + 1))

section Power
variable {code : V → Nat} {decode : Nat → V} (hcode : ∀ a, decode (code a) = a)
include hcode

omit [XorSpace V] in
theorem strict_eq {α : Type} (a : V) (f : V → α) : strict code decode a f = f a := by
  have hf : f (decode (code a)) = f a := by rw [hcode]
  unfold strict
  split <;> rename_i h <;> rwa [h] at hf

variable (R) in
omit hcode in
/-- `n` steps from the last slot, for `n < 2 ^ k`. -/
def Register.power (code : V → Nat) (decode : Nat → V) : (k n : Nat) → V
  | 0, _ => R.unit
  | k + 1, n => strict code decode (Register.power code decode k (n / 2)) fun half =>
    if n % 2 = 1 then R.feed (R.times half half) else R.times half half

theorem power_eq {k n : Nat} (hn : n < 2 ^ k) : R.power code decode k n = R.feed^[n] R.unit := by
  induction k generalizing n with
  | zero =>
    obtain rfl : n = 0 := by omega
    rfl
  | succ k ih =>
    have hsquare : R.times (R.feed^[n / 2] R.unit) (R.feed^[n / 2] R.unit) = R.feed^[n / 2 + n / 2] R.unit := by
      rw [times_iterate, iterate_add_apply]
    rw [Register.power, strict_eq hcode, ih (by omega), hsquare]
    split
    · have hodd : n = (n / 2 + n / 2).succ := by omega
      conv_rhs => rw [hodd, iterate_succ_apply']
    · have hhalves : n / 2 + n / 2 = n := by omega
      rw [hhalves]

/-- The least period of a register, from the primes of a period and a few powers. -/
theorem minimalPeriod_slot (hwidth : 0 < R.width) {primes : List Nat} (k : Nat) (hprimes : ∀ p ∈ primes, p.Prime)
    (hbound : primes.prod < 2 ^ k) (hperiod : R.power code decode k primes.prod = R.unit)
    (hleast : ∀ p ∈ primes, R.power code decode k (primes.prod / p) ≠ R.unit) :
    minimalPeriod R.feed (R.slot 0) = primes.prod := by
  have hunit : R.slot 0 = R.feed^[R.width - 1] R.unit := by
    suffices hmove : ∀ n, n < R.width → R.feed^[n] (R.slot n) = R.slot 0 from (hmove _ (by omega)).symm
    intro n
    induction n with
    | zero => exact fun _ => rfl
    | succ n ih =>
      intro hn
      rw [iterate_succ_apply, R.feed_slot n hn, ih (by omega)]
  have hiff : ∀ n, n ≤ primes.prod → (IsPeriodicPt R.feed n (R.slot 0) ↔ R.power code decode k n = R.unit) := by
    intro n hn
    rw [hunit, isPeriodicPt_iterate_iff, power_eq hcode (Nat.lt_of_le_of_lt hn hbound), IsPeriodicPt, IsFixedPt]
  refine minimalPeriod_eq_of_primes hprimes ((hiff _ (Nat.le_refl _)).mpr hperiod) fun p hp hdvd => ?_
  exact hleast p hp ((hiff _ (Nat.div_le_self _ _)).mp hdvd)

end Power

/-! ### Two bits -/

/-- Two bits at a distance cancel when the distance is a period, and only then. -/
theorem run_two_eq_zero_iff {i d n : Nat} (hlen : bits.length = n) (hd : 0 < d) (hin : i + d < n)
    (hbits : ∀ j < n, bits[j]? = some true ↔ j = i ∨ j = i + d) :
    R.run zero bits = zero ↔ minimalPeriod R.feed (R.slot 0) ∣ d := by
  obtain ⟨e, rfl⟩ : ∃ e, d = e + 1 := ⟨d - 1, by omega⟩
  obtain ⟨r, rfl⟩ : ∃ r, n = i + (e + 1) + (r + 1) := ⟨n - (i + (e + 1)) - 1, by omega⟩
  have hsplit : bits =
      List.replicate i false ++ (true :: List.replicate e false ++ (true :: List.replicate r false)) := by
    refine List.ext_getElem (by simp [hlen]; omega) fun j hj _ => ?_
    have hbit := hbits j (hlen ▸ hj)
    rw [List.getElem?_eq_getElem hj, Option.some_inj] at hbit
    grind
  have hfirst : R.feed^[e] (R.step zero true) = R.feed^[e + 1] (R.slot 0) := by
    rw [Register.step, gate_true, zero_exor, iterate_succ_apply]
  have hstep : R.step (R.feed^[e + 1] (R.slot 0)) true = R.feed (R.feed^[e + 1] (R.slot 0) ^^^ R.slot 0) := rfl
  rw [hsplit, run_append, run_append, run_cons, run_cons, run_false, run_false, run_false, iterate_zero, hfirst, hstep,
    ← iterate_succ_apply, ← isPeriodicPt_iff_minimalPeriod_dvd]
  constructor
  · intro h
    exact exor_eq_zero.mp (iterate_injective _ (h.trans (iterate_zero _).symm))
  · intro h
    rw [exor_eq_zero.mpr h, iterate_zero]

/-! ### Parity -/

variable (R) in
/-- Whether an odd number of the first `n` slots is set. -/
def Register.oddUpTo (a : V) : Nat → Bool
  | 0 => false
  | n + 1 => Register.oddUpTo a n ^^ R.read a n

variable (R) in

/-- Whether an odd number of slots is set. -/
def Register.odd (a : V) : Bool := R.oddUpTo a R.width

theorem odd_xor (a b : V) : R.odd (a ^^^ b) = (R.odd a ^^ R.odd b) := by
  suffices hloop : ∀ n, R.oddUpTo (a ^^^ b) n = (R.oddUpTo a n ^^ R.oddUpTo b n) from hloop _
  intro n
  induction n with
  | zero => rfl
  | succ n ih =>
    rw [Register.oddUpTo, Register.oddUpTo, Register.oddUpTo, ih, R.read_xor, Bool.xor_assoc, Bool.xor_assoc,
      Bool.xor_left_comm (R.oddUpTo b n)]

theorem odd_zero : R.odd zero = false := by
  have h := odd_xor (R := R) zero zero
  rwa [exor_self, Bool.xor_self] at h

theorem odd_slot {i : Nat} (hi : i < R.width) : R.odd (R.slot i) = true := by
  suffices hloop : ∀ n, n ≤ R.width → R.oddUpTo (R.slot i) n = decide (i < n) by
    rw [Register.odd, hloop _ (Nat.le_refl _), decide_eq_true hi]
  intro n
  induction n with
  | zero => exact fun _ => (decide_eq_false (Nat.not_lt_zero i)).symm
  | succ n ih =>
    intro hn
    rw [Register.oddUpTo, ih (by omega), R.read_slot i n hi (by omega)]
    rcases Nat.lt_trichotomy i n with h | rfl | h
    · simp [h, Nat.ne_of_lt h, Nat.lt_succ_of_lt h]
    · simp
    · simp [Nat.not_lt_of_gt h, Nat.ne_of_gt h, show ¬i < n + 1 by omega]

theorem length_filter_set (bits : List Bool) :
    ((List.range bits.length).filter fun i => bits[i]? = some true).length = bits.count true := by
  induction bits using List.reverseRecOn with
  | nil => rfl
  | append_singleton bits b ih =>
    have hinit : (List.range bits.length).filter (fun i => (bits ++ [b])[i]? = some true) =
        (List.range bits.length).filter fun i => bits[i]? = some true := by
      refine List.filter_congr fun i hi => ?_
      rw [List.getElem?_append_left (List.mem_range.mp hi)]
    rw [List.length_append, List.length_singleton, List.range_succ, List.filter_append, hinit, List.length_append, ih,
      List.count_append]
    cases b <;> simp

section Odd
variable (hfirst : R.odd (R.feed (R.slot 0)) = true)
include hfirst

/-- When the bit that leaves comes back as an odd number of bits, a step keeps the parity. -/
theorem odd_feed (a : V) : R.odd (R.feed a) = R.odd a := by
  suffices hplace : ∀ (bits : List Bool) (i : Nat), i + bits.length ≤ R.width →
      R.odd (R.feed (R.place i bits)) = R.odd (R.place i bits) by
    have h := hplace ((List.range R.width).map (R.read a)) 0 (by simp)
    rwa [place_read] at h
  intro bits
  induction bits with
  | nil =>
    intro i _
    exact congrArg R.odd feed_zero
  | cons b bits ih =>
    intro i hfit
    rw [List.length_cons] at hfit
    have hslot : R.odd (R.feed (R.slot i)) = R.odd (R.slot i) := by
      rw [odd_slot (by omega)]
      rcases i with _ | i
      · exact hfirst
      · rw [R.feed_slot i (by omega), odd_slot (by omega)]
    rw [Register.place, R.feed_xor, odd_xor, odd_xor, ih (i + 1) (by omega)]
    cases b
    · rw [gate_false, feed_zero]
    · rw [gate_true, hslot]

theorem odd_run (hwidth : 0 < R.width) (a : V) (bits : List Bool) :
    R.odd (R.run a bits) = (R.odd a ^^ decide (Odd (bits.count true))) := by
  induction bits generalizing a with
  | nil => simp [Register.run]
  | cons b bits ih =>
    rw [run_cons, ih, Register.step, odd_feed hfirst, odd_xor]
    cases b
    · rw [gate_false, odd_zero, Bool.xor_false]
      simp
    · have hcount : decide (Odd (bits.count true + 1)) = !decide (Odd (bits.count true)) := by
        rw [← decide_not, decide_eq_decide]
        exact Nat.odd_add_one
      rw [gate_true, odd_slot hwidth, List.count_cons_self, hcount]
      simp

theorem run_ne_of_odd (hwidth : 0 < R.width) (hodd : Odd (bits.count true)) : R.run zero bits ≠ zero := by
  intro h
  have hrun := odd_run hfirst hwidth zero bits
  rw [h, odd_zero, decide_eq_true hodd] at hrun
  cases hrun

end Odd

end ShiftRegister
