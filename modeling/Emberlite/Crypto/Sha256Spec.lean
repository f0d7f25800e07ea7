import Emberlite.Lib.BlockStream
import Emberlite.Lib.ByteOrder
import Mathlib.Data.List.GetD
import Mathlib.Data.Nat.Prime.Basic

/-! SHA-256 as FIPS 180-4 defines it, for messages of whole bytes. -/

namespace Emberlite
namespace Crypto
namespace Fips180
open ByteOrder

/-- A 32-bit word. -/
abbrev Word := BitVec 32

/-- The function `Ch`. -/
def ch (x y z : Word) : Word := (x &&& y) ^^^ (~~~x &&& z)

/-- The function `Maj`. -/
def maj (x y z : Word) : Word := (x &&& y) ^^^ (x &&& z) ^^^ (y &&& z)

/-- The function `Σ₀`. -/
def bigSigma0 (x : Word) : Word := x.rotateRight 2 ^^^ x.rotateRight 13 ^^^ x.rotateRight 22

/-- The function `Σ₁`. -/
def bigSigma1 (x : Word) : Word := x.rotateRight 6 ^^^ x.rotateRight 11 ^^^ x.rotateRight 25

/-- The function `σ₀`. -/
def smallSigma0 (x : Word) : Word := x.rotateRight 7 ^^^ x.rotateRight 18 ^^^ (x >>> 3)

/-- The function `σ₁`. -/
def smallSigma1 (x : Word) : Word := x.rotateRight 17 ^^^ x.rotateRight 19 ^^^ (x >>> 10)

/-- The largest number below `2 ^ bits` whose power is at most `x`. -/
def root (degree x bits : Nat) : Nat :=
  (List.range bits).reverse.foldl (fun r i => if (r + 2 ^ i) ^ degree ≤ x then r + 2 ^ i else r) 0

/-- The first sixty-four primes. -/
def primes : List Nat :=
  [2, 3, 5, 7, 11, 13, 17, 19, 23, 29, 31, 37, 41, 43, 47, 53, 59, 61, 67, 71, 73, 79, 83, 89, 97, 101, 103, 107, 109,
   113, 127, 131, 137, 139, 149, 151, 157, 163, 167, 173, 179, 181, 191, 193, 197, 199, 211, 223, 227, 229, 233, 239,
   241, 251, 257, 263, 269, 271, 277, 281, 283, 293, 307, 311]

/-- The first 32 bits of the fractional part of the cube root of a prime. -/
def k (t : Nat) : Word := BitVec.ofNat 32 (root 3 (primes.getD t 0 * 2 ^ 96) 36)

/-- The first 32 bits of the fractional part of the square root of a prime. -/
def initial (j : Nat) : Word := BitVec.ofNat 32 (root 2 (primes.getD j 0 * 2 ^ 64) 40)

/-- Below the square of 18 a composite number has a proper divisor below 18. -/
theorem prime_iff {n : Nat} (hn : n < 18 ^ 2) : n.Prime ↔ 2 ≤ n ∧ ∀ m < 18, 2 ≤ m → m ∣ n → m = n := by
  constructor
  · intro h
    refine ⟨h.two_le, fun m _ hm hdvd => (h.eq_one_or_self_of_dvd m hdvd).resolve_left ?_⟩
    rintro rfl
    exact absurd hm (by decide)
  · rintro ⟨htwo, hdivisors⟩
    by_contra hprime
    have hsq : n.minFac ^ 2 < 18 ^ 2 := (Nat.minFac_sq_le_self (by omega) hprime).trans_lt hn
    have hself : n.minFac = n :=
      hdivisors n.minFac ((Nat.pow_lt_pow_iff_left (by decide)).mp hsq) (Nat.minFac_prime (by omega)).two_le n.minFac_dvd
    exact hprime (Nat.prime_def_minFac.mpr ⟨htwo, hself⟩)

theorem primes_eq : primes = (List.range 312).filter Nat.Prime := by
  have hdivisors : (List.range 312).filter (fun n => decide n.Prime) =
      (List.range 312).filter fun n => decide (2 ≤ n ∧ ∀ m < 18, 2 ≤ m → m ∣ n → m = n) := by
    refine List.filter_congr fun n hn => decide_eq_decide.mpr (prime_iff ?_)
    exact (List.mem_range.mp hn).trans (by decide)
  rw [hdivisors]
  decide +kernel

theorem root_spec {degree x bits : Nat} (hdegree : 0 < degree) (hx : x < (2 ^ bits) ^ degree) :
    root degree x bits ^ degree ≤ x ∧ x < (root degree x bits + 1) ^ degree := by
  suffices hloop : ∀ r, r ^ degree ≤ x → x < (r + 2 ^ bits) ^ degree →
      let r' := (List.range bits).reverse.foldl (fun r i => if (r + 2 ^ i) ^ degree ≤ x then r + 2 ^ i else r) r
      r' ^ degree ≤ x ∧ x < (r' + 1) ^ degree from
    hloop 0 (by rw [Nat.zero_pow hdegree]; exact Nat.zero_le x) (by rwa [Nat.zero_add])
  clear hx
  induction bits with
  | zero => exact fun r hle hlt => ⟨hle, hlt⟩
  | succ bits ih =>
    intro r hle hlt
    rw [List.range_succ, List.reverse_concat, List.foldl_cons]
    split
    · rename_i hfits
      refine ih _ hfits ?_
      rwa [Nat.add_assoc, ← Nat.two_mul, ← Nat.pow_succ']
    · rename_i hbig
      exact ih r hle (Nat.lt_of_not_le hbig)

theorem primes_lt (t : Nat) : primes.getD t 0 < 312 := by
  rcases Nat.lt_or_ge t primes.length with ht | ht
  · rw [List.getD_eq_getElem _ _ ht]
    have hbound : ∀ p ∈ primes, p < 312 := by decide
    exact hbound _ (List.getElem_mem ht)
  · rw [List.getD_eq_default _ _ ht]
    decide

/-- The cube root of a prime, 32 bits after the point. -/
theorem k_spec (t : Nat) : ∃ r, k t = BitVec.ofNat 32 r ∧ r ^ 3 ≤ primes.getD t 0 * 2 ^ 96 ∧
    primes.getD t 0 * 2 ^ 96 < (r + 1) ^ 3 := by
  have hp := primes_lt t
  exact ⟨_, rfl, root_spec (by decide) (by omega)⟩

theorem initial_spec (j : Nat) : ∃ r, initial j = BitVec.ofNat 32 r ∧ r ^ 2 ≤ primes.getD j 0 * 2 ^ 64 ∧
    primes.getD j 0 * 2 ^ 64 < (r + 1) ^ 2 := by
  have hp := primes_lt j
  exact ⟨_, rfl, root_spec (by decide) (by omega)⟩

/-- A hash value, or the working variables. -/
structure Hash where
  a : Word
  b : Word
  c : Word
  d : Word
  e : Word
  f : Word
  g : Word
  h : Word
  deriving DecidableEq, Repr

/-- The hash value that a message starts from. -/
def initialHash : Hash :=
  ⟨initial 0, initial 1, initial 2, initial 3, initial 4, initial 5, initial 6, initial 7⟩

/-- The word `t` of a message block. -/
def blockWord (block : List (BitVec 8)) (t : Nat) : Word :=
  word (block.getD (4 * t) 0) (block.getD (4 * t + 1) 0) (block.getD (4 * t + 2) 0) (block.getD (4 * t + 3) 0)

/-- The message schedule. -/
def schedule (m : Nat → Word) (t : Nat) : Word :=
  if t < 16 then m t
  else smallSigma1 (schedule m (t - 2)) + schedule m (t - 7) + smallSigma0 (schedule m (t - 15)) + schedule m (t - 16)

/-- Step `t` of the compression, with the words of the schedule. -/
def step (w : Nat → Word) (v : Hash) (t : Nat) : Hash :=
  let t1 := v.h + bigSigma1 v.e + ch v.e v.f v.g + k t + w t
  let t2 := bigSigma0 v.a + maj v.a v.b v.c
  ⟨t1 + t2, v.a, v.b, v.c, v.d + t1, v.e, v.f, v.g⟩

/-- The hash value after one more block. -/
def compress (hash : Hash) (block : List (BitVec 8)) : Hash :=
  let v := (List.range 64).foldl (step (schedule (blockWord block))) hash
  ⟨v.a + hash.a, v.b + hash.b, v.c + hash.c, v.d + hash.d, v.e + hash.e, v.f + hash.f, v.g + hash.g, v.h + hash.h⟩

/-- The zero bytes of the padding: as few as bring the message to eight bytes before the end of a block. -/
def zeros (length : Nat) : Nat := (119 - length % 64) % 64

/-- The padded message; its last eight bytes are its length in bits. -/
def pad (m : List (BitVec 8)) : List (BitVec 8) :=
  m ++ [0x80] ++ List.replicate (zeros m.length) 0 ++ bigEndian 8 (BitVec.ofNat 64 (8 * m.length))

/-- The hash value as 32 bytes, most significant first. -/
def Hash.digest (hash : Hash) : List (BitVec 8) :=
  [hash.a, hash.b, hash.c, hash.d, hash.e, hash.f, hash.g, hash.h].flatMap (bigEndian 4)

/-- The SHA-256 digest of a message. -/
def sha256 (m : List (BitVec 8)) : List (BitVec 8) := (BlockStream.absorb compress 64 initialHash (pad m)).1.digest

end Fips180
end Crypto
end Emberlite
