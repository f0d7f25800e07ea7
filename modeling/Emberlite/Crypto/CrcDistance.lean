import Emberlite.Crypto.CrcDetect
import Emberlite.Lib.RegisterPeriod
import Mathlib.Tactic.NormNum.Prime

/-! What the polynomials of the checksums were chosen for: an odd number of flipped bits is noticed where `x + 1`
    is a factor, and two flipped bits are noticed unless their distance is a multiple of the order of `x`. -/

namespace Emberlite
namespace Crypto
open ShiftRegister XorSpace Function

/-- The bits in which two messages of one length differ, by their places in transmission order. -/
def Kind.flipped (k : Kind) (m m' : List (BitVec 8)) : List Nat :=
  (List.range (8 * m.length)).filter fun i => (k.bits m)[i]? ≠ (k.bits m')[i]?

/-- The primes of the order of `x`. -/
def Kind.primes : Kind → List Nat
  | .crc8 => [127]
  | .crc16 => [7, 31, 151]
  | .crc32 => [3, 5, 17, 257, 65537]

/-- The period of the checksum's polynomial, in bits. -/
def Kind.period : Kind → Nat
  | .crc8 => 127
  | .crc16 => 32767
  | .crc32 => 2 ^ 32 - 1

/-! ### The polynomials -/

theorem prod_primes (k : Kind) : k.primes.prod = k.period := by cases k <;> decide

theorem prime_of_mem_primes (k : Kind) : ∀ p ∈ k.primes, p.Prime := by
  cases k <;> norm_num [Kind.primes]

theorem power_period (k : Kind) : k.register.power BitVec.toNat (BitVec.ofNat _) 32 k.primes.prod = k.register.unit := by
  cases k <;> decide +kernel

theorem power_ne (k : Kind) : ∀ p ∈ k.primes,
    k.register.power BitVec.toNat (BitVec.ofNat _) 32 (k.primes.prod / p) ≠ k.register.unit := by
  cases k <;> decide +kernel

theorem minimalPeriod_register (k : Kind) : minimalPeriod k.register.feed (k.register.slot 0) = k.period := by
  have hwidth : 0 < k.register.width := by cases k <;> decide
  have hbound : k.primes.prod < 2 ^ 32 := by cases k <;> decide
  rw [minimalPeriod_slot (fun a => (BitVec.ofNat_toNat _ a).trans (BitVec.setWidth_eq a)) hwidth 32
    (prime_of_mem_primes k) hbound (power_period k) (power_ne k), prod_primes]

/-- The polynomials of CRC-8 and CRC-16 have an odd number of terms below the first. -/
theorem odd_register {k : Kind} (hk : k ≠ .crc32) : k.register.odd (k.register.feed (k.register.slot 0)) = true := by
  cases k with
  | crc8 | crc16 => decide
  | crc32 => exact (hk rfl).elim

/-! ### Two messages -/

section Flipped
variable {k : Kind} {m m' : List (BitVec 8)}

/-- The bits of a difference. -/
def Kind.diff (k : Kind) (m m' : List (BitVec 8)) : List Bool := List.zipWith xor (k.bits m) (k.bits m')

theorem length_diff (hlen : m.length = m'.length) : (k.diff m m').length = 8 * m.length := by
  rw [Kind.diff, List.length_zipWith, length_bits, length_bits, hlen, Nat.min_self]

theorem diff_eq_true (hlen : m.length = m'.length) (i : Nat) :
    (k.diff m m')[i]? = some true ↔ (k.bits m)[i]? ≠ (k.bits m')[i]? :=
  getElem?_zipWith_xor (by rw [length_bits, length_bits, hlen]) i

theorem mem_flipped (hlen : m.length = m'.length) {i : Nat} (hi : i < 8 * m.length) :
    (k.diff m m')[i]? = some true ↔ i ∈ k.flipped m m' := by
  rw [diff_eq_true hlen, Kind.flipped, List.mem_filter, List.mem_range, decide_eq_true_iff]
  exact (and_iff_right hi).symm

theorem length_flipped (hlen : m.length = m'.length) : (k.flipped m m').length = (k.diff m m').count true := by
  rw [← length_filter_set, length_diff hlen, Kind.flipped]
  refine congrArg List.length (List.filter_congr fun i _ => ?_)
  rw [decide_eq_decide, diff_eq_true hlen]

theorem bitwise_eq_iff (hlen : m.length = m'.length) :
    k.bitwise m = k.bitwise m' ↔ k.register.run zero (k.diff m m') = zero := by
  have hbits : (k.bits m).length = (k.bits m').length := by rw [length_bits, length_bits, hlen]
  have hrun : k.register.run (k.variant.init ^^^ k.variant.init) (k.diff m m') = _ := run_xor hbits _ _
  rw [exor_self] at hrun
  rw [hrun, exor_eq_zero, bitwise_eq, bitwise_eq]
  exact BitVec.xor_left_inj k.xorout

/-- Where `x + 1` is a factor, no odd number of flipped bits goes unnoticed. -/
theorem bitwise_ne_of_odd (hk : k ≠ .crc32) (hlen : m.length = m'.length) (hodd : Odd (k.flipped m m').length) :
    k.bitwise m ≠ k.bitwise m' := by
  rw [length_flipped hlen] at hodd
  have hwidth : 0 < k.register.width := by cases k <;> decide
  exact fun h => run_ne_of_odd (odd_register hk) hwidth hodd ((bitwise_eq_iff hlen).mp h)

theorem bitwise_eq_iff_period (hlen : m.length = m'.length) {i d : Nat} (hd : 1 ≤ d)
    (htwo : k.flipped m m' = [i, i + d]) : k.bitwise m = k.bitwise m' ↔ k.period ∣ d := by
  have hin : i + d < 8 * m.length := by
    have hmem : i + d ∈ k.flipped m m' := by simp [htwo]
    rw [Kind.flipped, List.mem_filter, List.mem_range] at hmem
    exact hmem.1
  rw [bitwise_eq_iff hlen, run_two_eq_zero_iff (length_diff hlen) hd hin, minimalPeriod_register]
  intro j hj
  rw [mem_flipped hlen hj, htwo, List.mem_pair]

end Flipped

/-! ### The results of the code -/

/-- For two messages of one length, wherever in a program their checksums are computed: CRC-8 and CRC-16 differ when
    an odd number of bits does, and when two bits differ, the checksum is the same if and only if their distance is
    a multiple of the period. -/
theorem compute_flipped (memory memory' : (k : Kind) → Nat → BitVec k.width) (calls calls' : List (Kind × CrcCall))
    (m m' : List (BitVec 8)) (hlen : m.length = m'.length) :
    (∀ k, k ≠ .crc32 → Odd (k.flipped m m').length →
      ((Crcs.start memory).run calls).returns k (.compute m) ≠
        ((Crcs.start memory').run calls').returns k (.compute m')) ∧
    ∀ k i d, 1 ≤ d → k.flipped m m' = [i, i + d] →
      (((Crcs.start memory).run calls).returns k (.compute m) =
        ((Crcs.start memory').run calls').returns k (.compute m') ↔ k.period ∣ d) := by
  refine ⟨fun k hk hodd h => ?_, fun k i d hd htwo => ?_⟩
  · rw [(run_bitwise memory calls k).2 m, (run_bitwise memory' calls' k).2 m', Option.some_inj] at h
    exact bitwise_ne_of_odd hk hlen hodd h
  · rw [(run_bitwise memory calls k).2 m, (run_bitwise memory' calls' k).2 m', Option.some_inj,
      bitwise_eq_iff_period hlen hd htwo]

/-- Bits 0 and 127 of sixteen bytes, and one bit alone. -/
theorem compute_flipped_far :
    ((Crcs.start fun _ _ => 0).run []).returns .crc8 (.compute [0x80, 0, 0, 0, 0, 0, 0, 0, 0, 0, 0, 0, 0, 0, 0, 0]) =
      ((Crcs.start fun _ _ => 0).run []).returns .crc8 (.compute [0, 0, 0, 0, 0, 0, 0, 0, 0, 0, 0, 0, 0, 0, 0, 1]) ∧
    ((Crcs.start fun _ _ => 0).run []).returns .crc16 (.compute [0x00]) ≠
      ((Crcs.start fun _ _ => 0).run []).returns .crc16 (.compute [0x10]) := by
  have hfar : Kind.crc8.flipped [0x80, 0, 0, 0, 0, 0, 0, 0, 0, 0, 0, 0, 0, 0, 0, 0]
      [0, 0, 0, 0, 0, 0, 0, 0, 0, 0, 0, 0, 0, 0, 0, 1] = [0, 0 + 127] := by decide +kernel
  have hone : Odd (Kind.crc16.flipped [0x00] [0x10]).length := by decide +kernel
  obtain ⟨-, htwo⟩ := compute_flipped (fun _ _ => 0) (fun _ _ => 0) [] []
    [0x80, 0, 0, 0, 0, 0, 0, 0, 0, 0, 0, 0, 0, 0, 0, 0]
    [0, 0, 0, 0, 0, 0, 0, 0, 0, 0, 0, 0, 0, 0, 0, 1] rfl
  obtain ⟨hodd, -⟩ := compute_flipped (fun _ _ => 0) (fun _ _ => 0) [] [] [0x00] [0x10] rfl
  exact ⟨(htwo .crc8 0 127 (by decide) hfar).mpr (Nat.dvd_refl 127), hodd .crc16 (by decide) hone⟩

end Crypto
end Emberlite
