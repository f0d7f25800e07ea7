import Emberlite.Lib.FixedBuffer
import Emberlite.Crypto.Md5Spec
import Emberlite.Crypto.Sha256Spec
import Mathlib.Data.List.FinRange

/-! `md5_transform` and `sha256_transform` (components/crypto/src), which take one block, compute the compression of
    their standards. The words of `md5_transform` change their places by renaming, where those of the standard move. -/

namespace Emberlite
namespace Crypto

namespace Md5
open FixedBuffer ByteOrder
open Rfc1321 (Words compress blockWord)

/-- A 32-bit word of MD5. -/
abbrev Word := BitVec 32

/-- `MD5_ROTL`. -/
def rotl (x : Word) (n : Nat) : Word := (x <<< n) ||| (x >>> (32 - n))

/-- `MD5_F`, `MD5_G`, `MD5_H` and `MD5_I`. -/
inductive Fun
  | F
  | G
  | H
  | I
  deriving DecidableEq, Repr

/-- The macros `MD5_F`, `MD5_G`, `MD5_H` and `MD5_I`. -/
def Fun.apply : Fun → Word → Word → Word → Word
  | .F, x, y, z => (x &&& y) ||| (~~~x &&& z)
  | .G, x, y, z => (x &&& z) ||| (y &&& ~~~z)
  | .H, x, y, z => x ^^^ y ^^^ z
  | .I, x, y, z => y ^^^ (x ||| ~~~z)

/-- The local variables of `md5_transform`. -/
inductive Var
  | a
  | b
  | c
  | d
  deriving DecidableEq, Repr

/-- The four variables that a block's steps work on. -/
structure Vars where
  a : Word
  b : Word
  c : Word
  d : Word
  deriving DecidableEq, Repr

/-- A variable's value. -/
def Vars.get (v : Vars) : Var → Word
  | .a => v.a
  | .b => v.b
  | .c => v.c
  | .d => v.d

/-- The variables with one of them assigned. -/
def Vars.set (v : Vars) (var : Var) (x : Word) : Vars :=
  match var with
  | .a => { v with a := x }
  | .b => { v with b := x }
  | .c => { v with c := x }
  | .d => { v with d := x }

/-- The arguments of `MD5_STEP`; `x` is an index. -/
structure Row where
  f : Fun
  a : Var
  b : Var
  c : Var
  d : Var
  x : Fin 16
  t : Word
  s : Nat
  deriving DecidableEq, Repr

/-- The macro `MD5_STEP` with a row's arguments. -/
def md5Step (x : Vector Word 16) (v : Vars) (r : Row) : Vars :=
  let v := v.set r.a (v.get r.a + (r.f.apply (v.get r.b) (v.get r.c) (v.get r.d) + x[r.x] + r.t))
  let v := v.set r.a (rotl (v.get r.a) r.s)
  v.set r.a (v.get r.a + v.get r.b)

/-- The steps of `md5_transform`, in their order. -/
def rows : Vector Row 64 := #v[
  ⟨.F, .a, .b, .c, .d, 0, 0xd76aa478, 7⟩,
  ⟨.F, .d, .a, .b, .c, 1, 0xe8c7b756, 12⟩,
  ⟨.F, .c, .d, .a, .b, 2, 0x242070db, 17⟩,
  ⟨.F, .b, .c, .d, .a, 3, 0xc1bdceee, 22⟩,
  ⟨.F, .a, .b, .c, .d, 4, 0xf57c0faf, 7⟩,
  ⟨.F, .d, .a, .b, .c, 5, 0x4787c62a, 12⟩,
  ⟨.F, .c, .d, .a, .b, 6, 0xa8304613, 17⟩,
  ⟨.F, .b, .c, .d, .a, 7, 0xfd469501, 22⟩,
  ⟨.F, .a, .b, .c, .d, 8, 0x698098d8, 7⟩,
  ⟨.F, .d, .a, .b, .c, 9, 0x8b44f7af, 12⟩,
  ⟨.F, .c, .d, .a, .b, 10, 0xffff5bb1, 17⟩,
  ⟨.F, .b, .c, .d, .a, 11, 0x895cd7be, 22⟩,
  ⟨.F, .a, .b, .c, .d, 12, 0x6b901122, 7⟩,
  ⟨.F, .d, .a, .b, .c, 13, 0xfd987193, 12⟩,
  ⟨.F, .c, .d, .a, .b, 14, 0xa679438e, 17⟩,
  ⟨.F, .b, .c, .d, .a, 15, 0x49b40821, 22⟩,
  ⟨.G, .a, .b, .c, .d, 1, 0xf61e2562, 5⟩,
  ⟨.G, .d, .a, .b, .c, 6, 0xc040b340, 9⟩,
  ⟨.G, .c, .d, .a, .b, 11, 0x265e5a51, 14⟩,
  ⟨.G, .b, .c, .d, .a, 0, 0xe9b6c7aa, 20⟩,
  ⟨.G, .a, .b, .c, .d, 5, 0xd62f105d, 5⟩,
  ⟨.G, .d, .a, .b, .c, 10, 0x02441453, 9⟩,
  ⟨.G, .c, .d, .a, .b, 15, 0xd8a1e681, 14⟩,
  ⟨.G, .b, .c, .d, .a, 4, 0xe7d3fbc8, 20⟩,
  ⟨.G, .a, .b, .c, .d, 9, 0x21e1cde6, 5⟩,
  ⟨.G, .d, .a, .b, .c, 14, 0xc33707d6, 9⟩,
  ⟨.G, .c, .d, .a, .b, 3, 0xf4d50d87, 14⟩,
  ⟨.G, .b, .c, .d, .a, 8, 0x455a14ed, 20⟩,
  ⟨.G, .a, .b, .c, .d, 13, 0xa9e3e905, 5⟩,
  ⟨.G, .d, .a, .b, .c, 2, 0xfcefa3f8, 9⟩,
  ⟨.G, .c, .d, .a, .b, 7, 0x676f02d9, 14⟩,
  ⟨.G, .b, .c, .d, .a, 12, 0x8d2a4c8a, 20⟩,
  ⟨.H, .a, .b, .c, .d, 5, 0xfffa3942, 4⟩,
  ⟨.H, .d, .a, .b, .c, 8, 0x8771f681, 11⟩,
  ⟨.H, .c, .d, .a, .b, 11, 0x6d9d6122, 16⟩,
  ⟨.H, .b, .c, .d, .a, 14, 0xfde5380c, 23⟩,
  ⟨.H, .a, .b, .c, .d, 1, 0xa4beea44, 4⟩,
  ⟨.H, .d, .a, .b, .c, 4, 0x4bdecfa9, 11⟩,
  ⟨.H, .c, .d, .a, .b, 7, 0xf6bb4b60, 16⟩,
  ⟨.H, .b, .c, .d, .a, 10, 0xbebfbc70, 23⟩,
  ⟨.H, .a, .b, .c, .d, 13, 0x289b7ec6, 4⟩,
  ⟨.H, .d, .a, .b, .c, 0, 0xeaa127fa, 11⟩,
  ⟨.H, .c, .d, .a, .b, 3, 0xd4ef3085, 16⟩,
  ⟨.H, .b, .c, .d, .a, 6, 0x04881d05, 23⟩,
  ⟨.H, .a, .b, .c, .d, 9, 0xd9d4d039, 4⟩,
  ⟨.H, .d, .a, .b, .c, 12, 0xe6db99e5, 11⟩,
  ⟨.H, .c, .d, .a, .b, 15, 0x1fa27cf8, 16⟩,
  ⟨.H, .b, .c, .d, .a, 2, 0xc4ac5665, 23⟩,
  ⟨.I, .a, .b, .c, .d, 0, 0xf4292244, 6⟩,
  ⟨.I, .d, .a, .b, .c, 7, 0x432aff97, 10⟩,
  ⟨.I, .c, .d, .a, .b, 14, 0xab9423a7, 15⟩,
  ⟨.I, .b, .c, .d, .a, 5, 0xfc93a039, 21⟩,
  ⟨.I, .a, .b, .c, .d, 12, 0x655b59c3, 6⟩,
  ⟨.I, .d, .a, .b, .c, 3, 0x8f0ccc92, 10⟩,
  ⟨.I, .c, .d, .a, .b, 10, 0xffeff47d, 15⟩,
  ⟨.I, .b, .c, .d, .a, 1, 0x85845dd1, 21⟩,
  ⟨.I, .a, .b, .c, .d, 8, 0x6fa87e4f, 6⟩,
  ⟨.I, .d, .a, .b, .c, 15, 0xfe2ce6e0, 10⟩,
  ⟨.I, .c, .d, .a, .b, 6, 0xa3014314, 15⟩,
  ⟨.I, .b, .c, .d, .a, 13, 0x4e0811a1, 21⟩,
  ⟨.I, .a, .b, .c, .d, 4, 0xf7537e82, 6⟩,
  ⟨.I, .d, .a, .b, .c, 11, 0xbd3af235, 10⟩,
  ⟨.I, .c, .d, .a, .b, 2, 0x2ad7d2bb, 15⟩,
  ⟨.I, .b, .c, .d, .a, 9, 0xeb86d391, 21⟩]

/-- The body of the loop that reads the block. -/
def loadWord (block : Vector (BitVec 8) 64) (x : Vector Word 16) (i : Fin 16) : Vector Word 16 :=
  x.set i (block[i.val * 4 + 0].setWidth 32 ||| (block[i.val * 4 + 1].setWidth 32 <<< 8) |||
    (block[i.val * 4 + 2].setWidth 32 <<< 16) ||| (block[i.val * 4 + 3].setWidth 32 <<< 24))

/-- The array `x`, every element of which is written. -/
def load (block : Vector (BitVec 8) 64) : Vector Word 16 :=
  (List.finRange 16).foldl (loadWord block) (Vector.replicate 16 0)

/-- `md5_transform`. -/
def transform (state : Vector Word 4) (block : Vector (BitVec 8) 64) : Vector Word 4 :=
  let v := rows.toList.foldl (md5Step (load block)) ⟨state[0], state[1], state[2], state[3]⟩
  #v[state[0] + v.a, state[1] + v.b, state[2] + v.c, state[3] + v.d]

/-! ### MD5 takes a block -/

theorem rotl_eq {n : Nat} (hn : n < 32) (x : Word) : rotl x n = x.rotateLeft n := by
  rw [BitVec.rotateLeft_def, Nat.mod_eq_of_lt hn]
  rfl

/-- The names of the four words before the operation `i`, as `MD5_STEP` takes them. -/
def names (i : Nat) : Var × Var × Var × Var :=
  match i % 4 with
  | 0 => (.a, .b, .c, .d)
  | 1 => (.d, .a, .b, .c)
  | 2 => (.c, .d, .a, .b)
  | _ => (.b, .c, .d, .a)

/-- The function of the round that a step belongs to. -/
def funOf (i : Nat) : Fun :=
  match i / 16 with
  | 0 => .F
  | 1 => .G
  | 2 => .H
  | _ => .I

/-- The operation `i` as a row. -/
def rowAt (i : Nat) : Row where
  f := funOf i
  a := (names i).1
  b := (names i).2.1
  c := (names i).2.2.1
  d := (names i).2.2.2
  x := Fin.ofNat 16 (Rfc1321.index i)
  t := Rfc1321.t i
  s := Rfc1321.shift i

theorem rows_eq : rows.toList = (List.finRange 64).map fun i => rowAt i := by decide +kernel

theorem index_lt : ∀ i : Fin 64, Rfc1321.index i < 16 := by decide

theorem shift_lt : ∀ i : Fin 64, Rfc1321.shift i < 32 := by decide

theorem apply_eq (i : Nat) (x y z : Word) : (funOf i).apply x y z = Rfc1321.f i x y z := by
  unfold funOf Rfc1321.f
  rcases i / 16 with _ | _ | _ | _ <;> rfl

theorem names_succ : ∀ i : Fin 64, names (i + 1) =
    ((names i).2.2.2, (names i).1, (names i).2.1, (names i).2.2.1) := by decide

theorem names_ne : ∀ i : Fin 64, (names i).2.1 ≠ (names i).1 ∧ (names i).2.2.1 ≠ (names i).1 ∧
    (names i).2.2.2 ≠ (names i).1 := by decide

@[simp] theorem get_set_self (v : Vars) (var : Var) (x : Word) : (v.set var x).get var = x := by
  cases var <;> rfl

theorem get_set_of_ne {var other : Var} (h : other ≠ var) (v : Vars) (x : Word) :
    (v.set var x).get other = v.get other := by
  cases var <;> cases other <;> first | rfl | exact absurd rfl h

section Block
variable {x : Vector Word 16} {block : Vector (BitVec 8) 64}

theorem md5Step_of_ne {r : Row} {other : Var} (h : other ≠ r.a) (v : Vars) :
    (md5Step x v r).get other = v.get other := by
  simp only [md5Step, get_set_of_ne h]

theorem md5Step_self {r : Row} (h : r.b ≠ r.a) (v : Vars) : (md5Step x v r).get r.a =
    rotl (v.get r.a + (r.f.apply (v.get r.b) (v.get r.c) (v.get r.d) + x[r.x] + r.t)) r.s + v.get r.b := by
  simp only [md5Step, get_set_self, get_set_of_ne h]

/-- The words under their names before the operation `i`. -/
def wordsOf (i : Nat) (v : Vars) : Words :=
  ⟨v.get (names i).1, v.get (names i).2.1, v.get (names i).2.2.1, v.get (names i).2.2.2⟩

theorem step_eq {w : Nat → Word} (hx : ∀ k : Fin 16, x[k] = w k) (i : Fin 64) (v : Vars) :
    wordsOf (i + 1) (md5Step x v (rowAt i)) = Rfc1321.step w (wordsOf i v) i := by
  obtain ⟨hb, hc, hd⟩ := names_ne i
  have hself : (md5Step x v (rowAt i)).get (names i).1 = _ := md5Step_self hb v
  have hother : ∀ other, other ≠ (names i).1 → (md5Step x v (rowAt i)).get other = v.get other := fun _ h =>
    md5Step_of_ne h v
  have hword : x[(rowAt i).x] = w (Rfc1321.index i) := by
    rw [hx]
    exact congrArg w (Nat.mod_eq_of_lt (index_lt i))
  have hf : (rowAt i).f.apply = Rfc1321.f i := funext₃ (apply_eq i)
  have hs : (rowAt i).s < 32 := shift_lt i
  rw [wordsOf, names_succ]
  dsimp only
  rw [hother _ hd, hother _ hb, hother _ hc, hself, hword, hf, rotl_eq hs, BitVec.add_comm _ (v.get _),
    ← BitVec.add_assoc, ← BitVec.add_assoc]
  rfl

theorem load_eq (k : Fin 16) :
    (load block)[k] = blockWord block.toList k := by
  let P (i : Nat) (x : Vector Word 16) : Prop := ∀ k : Fin 16, k < i → x[k] = blockWord block.toList k
  have hloop : P 16 (load block) := by
    refine foldl_finRange P (fun k hlt => (Nat.not_lt_zero k hlt).elim) fun i x hx k hlt => ?_
    rw [loadWord, Fin.getElem_fin, Vector.getElem_set]
    split
    · rename_i heq
      rw [blockWord, word_eq_low, ← heq, Nat.mul_comm 4, getD_toList _ _ (by omega), getD_toList _ _ (by omega),
        getD_toList _ _ (by omega), getD_toList _ _ (by omega)]
      rfl
    · exact hx k (by omega)
  exact hloop k k.isLt

/-- After the last operation the words have their own names again. -/
theorem steps_eq (v : Vars) : wordsOf 0 (rows.toList.foldl (md5Step (load block)) v) =
    (List.range 64).foldl (Rfc1321.step (blockWord block.toList)) (wordsOf 0 v) := by
  let P (i : Nat) (v' : Vars) : Prop :=
    wordsOf i v' = (List.range i).foldl (Rfc1321.step (blockWord block.toList)) (wordsOf 0 v)
  have hbody : ∀ (i : Fin 64) (v' : Vars), P i v' → P (i + 1) (md5Step (load block) v' (rowAt i)) :=
    fun i v' hv => by
      change wordsOf _ _ = _
      rw [List.range_succ, List.foldl_concat, ← hv, step_eq load_eq]
  have hinit : P 0 v := rfl
  have hloop := foldl_finRange P hinit hbody
  rw [rows_eq, List.foldl_map]
  exact hloop

/-- The state array as the four chaining words. -/
def wordsAt (state : Vector Word 4) : Words := ⟨state[0], state[1], state[2], state[3]⟩

theorem transform_eq (state : Vector Word 4) :
    wordsAt (transform state block) = compress (wordsAt state) block.toList := by
  have hsteps : wordsOf 0 (rows.toList.foldl (md5Step (load block)) _) = _ :=
    steps_eq ⟨state[0], state[1], state[2], state[3]⟩
  have hstart : wordsOf 0 ⟨state[0], state[1], state[2], state[3]⟩ = wordsAt state := rfl
  have hadd : ∀ v : Vars, wordsAt #v[state[0] + v.a, state[1] + v.b, state[2] + v.c, state[3] + v.d] =
      ⟨(wordsOf 0 v).a + state[0], (wordsOf 0 v).b + state[1], (wordsOf 0 v).c + state[2],
        (wordsOf 0 v).d + state[3]⟩ := fun v => by
    rw [BitVec.add_comm _ state[0], BitVec.add_comm _ state[1], BitVec.add_comm _ state[2],
      BitVec.add_comm _ state[3]]
    rfl
  rw [hstart] at hsteps
  rw [transform, compress, ← hsteps, hadd]
  rfl

end Block

end Md5

namespace Sha256
open FixedBuffer ByteOrder
open Fips180 (Hash compress blockWord)

/-- A 32-bit word of SHA-256. -/
abbrev Word := BitVec 32

/-- `SHA256_ROTR`. -/
def rotr (x : Word) (n : Nat) : Word := (x >>> n) ||| (x <<< (32 - n))

/-- The round constants `k`. -/
def sha256K : Vector Word 64 := #v[
  0x428a2f98, 0x71374491, 0xb5c0fbcf, 0xe9b5dba5, 0x3956c25b, 0x59f111f1, 0x923f82a4, 0xab1c5ed5,
  0xd807aa98, 0x12835b01, 0x243185be, 0x550c7dc3, 0x72be5d74, 0x80deb1fe, 0x9bdc06a7, 0xc19bf174,
  0xe49b69c1, 0xefbe4786, 0x0fc19dc6, 0x240ca1cc, 0x2de92c6f, 0x4a7484aa, 0x5cb0a9dc, 0x76f988da,
  0x983e5152, 0xa831c66d, 0xb00327c8, 0xbf597fc7, 0xc6e00bf3, 0xd5a79147, 0x06ca6351, 0x14292967,
  0x27b70a85, 0x2e1b2138, 0x4d2c6dfc, 0x53380d13, 0x650a7354, 0x766a0abb, 0x81c2c92e, 0x92722c85,
  0xa2bfe8a1, 0xa81a664b, 0xc24b8b70, 0xc76c51a3, 0xd192e819, 0xd6990624, 0xf40e3585, 0x106aa070,
  0x19a4c116, 0x1e376c08, 0x2748774c, 0x34b0bcb5, 0x391c0cb3, 0x4ed8aa4a, 0x5b9cca4f, 0x682e6ff3,
  0x748f82ee, 0x78a5636f, 0x84c87814, 0x8cc70208, 0x90befffa, 0xa4506ceb, 0xbef9a3f7, 0xc67178f2]

/-- The macro `SHA256_CH`. -/
def ch (x y z : Word) : Word := (x &&& y) ^^^ (~~~x &&& z)

/-- The macro `SHA256_MAJ`. -/
def maj (x y z : Word) : Word := (x &&& y) ^^^ (x &&& z) ^^^ (y &&& z)

/-- The macro `SHA256_EP0`. -/
def ep0 (x : Word) : Word := rotr x 2 ^^^ rotr x 13 ^^^ rotr x 22

/-- The macro `SHA256_EP1`. -/
def ep1 (x : Word) : Word := rotr x 6 ^^^ rotr x 11 ^^^ rotr x 25

/-- The macro `SHA256_SIG0`. -/
def sig0 (x : Word) : Word := rotr x 7 ^^^ rotr x 18 ^^^ (x >>> 3)

/-- The macro `SHA256_SIG1`. -/
def sig1 (x : Word) : Word := rotr x 17 ^^^ rotr x 19 ^^^ (x >>> 10)

/-- The local variables `a` to `h` of `sha256_transform`. -/
structure Vars where
  a : Word
  b : Word
  c : Word
  d : Word
  e : Word
  f : Word
  g : Word
  h : Word
  deriving DecidableEq, Repr

/-- The body of the first loop of `sha256_transform`. -/
def loadWord (block : Vector (BitVec 8) 64) (w : Vector Word 64) (i : Fin 16) : Vector Word 64 :=
  w.set i ((block[i.val * 4 + 0].setWidth 32 <<< 24) ||| (block[i.val * 4 + 1].setWidth 32 <<< 16) |||
    (block[i.val * 4 + 2].setWidth 32 <<< 8) ||| block[i.val * 4 + 3].setWidth 32)

/-- The body of the second loop, where the source counts `i` from 16. -/
def extend (w : Vector Word 64) (j : Fin 48) : Vector Word 64 :=
  let i := j.val + 16
  w.set i (sig1 w[i - 2] + w[i - 7] + sig0 w[i - 15] + w[i - 16])

/-- The body of the third loop. -/
def round (w : Vector Word 64) (v : Vars) (i : Fin 64) : Vars :=
  let t1 := v.h + ep1 v.e + ch v.e v.f v.g + sha256K[i] + w[i]
  let t2 := ep0 v.a + maj v.a v.b v.c
  { h := v.g, g := v.f, f := v.e, e := v.d + t1, d := v.c, c := v.b, b := v.a, a := t1 + t2 }

/-- The array `w`, every element of which is written before it is read. -/
def schedule (block : Vector (BitVec 8) 64) : Vector Word 64 :=
  (List.finRange 48).foldl extend ((List.finRange 16).foldl (loadWord block) (Vector.replicate 64 0))

/-- `sha256_transform`. -/
def transform (state : Vector Word 8) (block : Vector (BitVec 8) 64) : Vector Word 8 :=
  let v := (List.finRange 64).foldl (round (schedule block))
    ⟨state[0], state[1], state[2], state[3], state[4], state[5], state[6], state[7]⟩
  #v[state[0] + v.a, state[1] + v.b, state[2] + v.c, state[3] + v.d, state[4] + v.e, state[5] + v.f,
    state[6] + v.g, state[7] + v.h]

/-! ### SHA-256 takes a block -/

theorem rotr_eq {n : Nat} (hn : n < 32) (x : Word) : rotr x n = x.rotateRight n := by
  rw [BitVec.rotateRight_def, Nat.mod_eq_of_lt hn]
  rfl

theorem ep0_eq (x : Word) : ep0 x = Fips180.bigSigma0 x := by
  rw [ep0, rotr_eq (by decide), rotr_eq (by decide), rotr_eq (by decide), Fips180.bigSigma0]

theorem ep1_eq (x : Word) : ep1 x = Fips180.bigSigma1 x := by
  rw [ep1, rotr_eq (by decide), rotr_eq (by decide), rotr_eq (by decide), Fips180.bigSigma1]

theorem sig0_eq (x : Word) : sig0 x = Fips180.smallSigma0 x := by
  rw [sig0, rotr_eq (by decide), rotr_eq (by decide), Fips180.smallSigma0]

theorem sig1_eq (x : Word) : sig1 x = Fips180.smallSigma1 x := by
  rw [sig1, rotr_eq (by decide), rotr_eq (by decide), Fips180.smallSigma1]

theorem sha256K_eq : ∀ i : Fin 64, sha256K[i] = Fips180.k i := by decide +kernel

section Block
variable {block : Vector (BitVec 8) 64}

theorem load_eq (w : Vector Word 64) (t : Nat) (ht : t < 16) :
    ((List.finRange 16).foldl (loadWord block) w)[t] = blockWord block.toList t := by
  let P (i : Nat) (w : Vector Word 64) : Prop := ∀ t (ht : t < 64), t < i → w[t] = blockWord block.toList t
  have hloop : P 16 ((List.finRange 16).foldl (loadWord block) w) := by
    refine foldl_finRange P (fun t _ hlt => (Nat.not_lt_zero t hlt).elim) fun i w hw t ht hlt => ?_
    rw [loadWord, Vector.getElem_set]
    split
    · rename_i heq
      subst heq
      rw [word_eq, blockWord, Nat.mul_comm 4, getD_toList _ _ (by omega), getD_toList _ _ (by omega),
        getD_toList _ _ (by omega), getD_toList _ _ (by omega)]
      rfl
    · exact hw t ht (by omega)
  exact hloop t (by omega) ht

theorem schedule_eq (t : Nat) (ht : t < 64) : (schedule block)[t] = Fips180.schedule (blockWord block.toList) t := by
  let P (j : Nat) (w : Vector Word 64) : Prop :=
    ∀ t (ht : t < 64), t < 16 + j → w[t] = Fips180.schedule (blockWord block.toList) t
  suffices hloop : P 48 (schedule block) from hloop t ht ht
  refine foldl_finRange P (fun t ht hlt => ?_) fun j w hw t ht hlt => ?_
  · rw [load_eq _ t hlt, Fips180.schedule, if_pos hlt]
  · rw [extend, Vector.getElem_set]
    split
    · rename_i heq
      subst heq
      have hold : ¬j.val + 16 < 16 := by omega
      rw [Fips180.schedule, if_neg hold, hw _ _ (by omega), hw _ _ (by omega), hw _ _ (by omega), hw _ _ (by omega),
        sig0_eq, sig1_eq]
    · exact hw t ht (by omega)

/-- The eight variables as a hash value. -/
def hashOfVars (v : Vars) : Hash := ⟨v.a, v.b, v.c, v.d, v.e, v.f, v.g, v.h⟩

/-- The state array as a hash value. -/
def hashOf (state : Vector Word 8) : Hash :=
  ⟨state[0], state[1], state[2], state[3], state[4], state[5], state[6], state[7]⟩

theorem round_eq (v : Vars) (i : Fin 64) :
    hashOfVars (round (schedule block) v i) =
      Fips180.step (Fips180.schedule (blockWord block.toList)) (hashOfVars v) i := by
  have hw : (schedule block)[i] = Fips180.schedule (blockWord block.toList) i := schedule_eq i.val i.isLt
  simp only [round, hashOfVars, Fips180.step, hw, sha256K_eq, ep0_eq, ep1_eq]
  rfl

theorem transform_eq (state : Vector Word 8) : hashOf (transform state block) = compress (hashOf state) block.toList := by
  let start : Vars := ⟨state[0], state[1], state[2], state[3], state[4], state[5], state[6], state[7]⟩
  let w := Fips180.schedule (blockWord block.toList)
  have hloop : hashOfVars ((List.finRange 64).foldl (round (schedule block)) start) =
      (List.range 64).foldl (Fips180.step w) (hashOf state) := by
    refine foldl_finRange (fun i v => hashOfVars v = (List.range i).foldl (Fips180.step w) (hashOf state)) rfl
      fun i v hv => ?_
    rw [List.range_succ, List.foldl_concat, ← hv, round_eq]
  have hadd : ∀ v : Vars, hashOf #v[state[0] + v.a, state[1] + v.b, state[2] + v.c, state[3] + v.d, state[4] + v.e,
      state[5] + v.f, state[6] + v.g, state[7] + v.h] = ⟨state[0] + v.a, state[1] + v.b, state[2] + v.c, state[3] + v.d,
        state[4] + v.e, state[5] + v.f, state[6] + v.g, state[7] + v.h⟩ := fun _ => rfl
  rw [transform, compress, ← hloop, hadd]
  simp only [hashOfVars, hashOf, BitVec.add_comm]
  rfl

end Block

end Sha256

end Crypto
end Emberlite
