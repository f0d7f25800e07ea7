import Emberlite.Lib.BlockStream
import Emberlite.Lib.ByteOrder

/-! MD5 as RFC 1321 defines it, for messages of whole bytes. -/

namespace Emberlite
namespace Crypto
namespace Rfc1321
open ByteOrder

/-- A 32-bit word. -/
abbrev Word := BitVec 32

/-- The function of the operation `i`, one for each round of sixteen. -/
def f (i : Nat) (x y z : Word) : Word :=
  match i / 16 with
  | 0 => (x &&& y) ||| (~~~x &&& z)
  | 1 => (x &&& z) ||| (y &&& ~~~z)
  | 2 => x ^^^ y ^^^ z
  | _ => y ^^^ (x ||| ~~~z)

/-- The word of the block that the operation `i` takes. -/
def index (i : Nat) : Nat :=
  match i / 16 with
  | 0 => i
  | 1 => (5 * i + 1) % 16
  | 2 => (3 * i + 5) % 16
  | _ => 7 * i % 16

/-- The rotation of step `i`. -/
def shift (i : Nat) : Nat :=
  let amounts : List Nat :=
    match i / 16 with
    | 0 => [7, 12, 17, 22]
    | 1 => [5, 9, 14, 20]
    | 2 => [4, 11, 16, 23]
    | _ => [6, 10, 15, 21]
  amounts.getD (i % 4) 0

/-- The integer part of `2 ^ 32 * |sin (i + 1)|`. -/
def sines : List Word := [
  0xd76aa478, 0xe8c7b756, 0x242070db, 0xc1bdceee, 0xf57c0faf, 0x4787c62a, 0xa8304613, 0xfd469501,
  0x698098d8, 0x8b44f7af, 0xffff5bb1, 0x895cd7be, 0x6b901122, 0xfd987193, 0xa679438e, 0x49b40821,
  0xf61e2562, 0xc040b340, 0x265e5a51, 0xe9b6c7aa, 0xd62f105d, 0x02441453, 0xd8a1e681, 0xe7d3fbc8,
  0x21e1cde6, 0xc33707d6, 0xf4d50d87, 0x455a14ed, 0xa9e3e905, 0xfcefa3f8, 0x676f02d9, 0x8d2a4c8a,
  0xfffa3942, 0x8771f681, 0x6d9d6122, 0xfde5380c, 0xa4beea44, 0x4bdecfa9, 0xf6bb4b60, 0xbebfbc70,
  0x289b7ec6, 0xeaa127fa, 0xd4ef3085, 0x04881d05, 0xd9d4d039, 0xe6db99e5, 0x1fa27cf8, 0xc4ac5665,
  0xf4292244, 0x432aff97, 0xab9423a7, 0xfc93a039, 0x655b59c3, 0x8f0ccc92, 0xffeff47d, 0x85845dd1,
  0x6fa87e4f, 0xfe2ce6e0, 0xa3014314, 0x4e0811a1, 0xf7537e82, 0xbd3af235, 0x2ad7d2bb, 0xeb86d391]

/-- The sine constant of step `i`. -/
def t (i : Nat) : Word := sines.getD i 0

/-- The four words `A`, `B`, `C` and `D`. -/
structure Words where
  a : Word
  b : Word
  c : Word
  d : Word
  deriving DecidableEq, Repr

/-- The chaining words that a message starts from. -/
def initial : Words := ⟨0x67452301, 0xefcdab89, 0x98badcfe, 0x10325476⟩

/-- The word `k` of a block, its low byte first. -/
def blockWord (block : List (BitVec 8)) (k : Nat) : Word :=
  word (block.getD (4 * k + 3) 0) (block.getD (4 * k + 2) 0) (block.getD (4 * k + 1) 0) (block.getD (4 * k) 0)

/-- The operation `i`; the words change their places after it. -/
def step (x : Nat → Word) (v : Words) (i : Nat) : Words :=
  ⟨v.d, v.b + (v.a + f i v.b v.c v.d + x (index i) + t i).rotateLeft (shift i), v.b, v.c⟩

/-- The chaining words after one more block. -/
def compress (v : Words) (block : List (BitVec 8)) : Words :=
  let w := (List.range 64).foldl (step (blockWord block)) v
  ⟨w.a + v.a, w.b + v.b, w.c + v.c, w.d + v.d⟩

/-- The zero bytes of the padding: as few as bring the message to eight bytes before the end of a block. -/
def zeros (length : Nat) : Nat := (119 - length % 64) % 64

/-- The padded message; its last eight bytes are its length in bits modulo `2 ^ 64`. -/
def pad (m : List (BitVec 8)) : List (BitVec 8) :=
  m ++ [0x80] ++ List.replicate (zeros m.length) 0 ++ littleEndian 8 (BitVec.ofNat 64 (8 * m.length))

/-- The words as 16 bytes, least significant first. -/
def Words.digest (v : Words) : List (BitVec 8) := [v.a, v.b, v.c, v.d].flatMap (littleEndian 4)

/-- The MD5 digest of a message. -/
def md5 (m : List (BitVec 8)) : List (BitVec 8) := (BlockStream.absorb compress 64 initial (pad m)).1.digest

end Rfc1321
end Crypto
end Emberlite
