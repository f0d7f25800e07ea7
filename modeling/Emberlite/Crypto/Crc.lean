import Mathlib.Logic.Function.Iterate

/-! The checksums of `components/crypto/src/crc.c`: CRC-8, CRC-16-CCITT and CRC-32, each with a lookup table
    that its first `init` builds, and contexts that carry a checksum through several updates. -/

namespace Emberlite
namespace Crypto

/-- `crcN_table` and `crcN_table_ready`. -/
structure LazyTable (w : Nat) where
  table : BitVec 8 → BitVec w
  ready : Bool

/-- Where the three checksums differ. -/
structure Variant (w : Nat) where
  -- The first value of `c` in the outer loop of `crcN_build_table`.
  first : Nat → BitVec w
  -- The body of its inner loop.
  bit : BitVec w → BitVec w
  -- The value that `ember_crypto_crcN_init` stores.
  init : BitVec w
  -- The body of the loop of `ember_crypto_crcN_update`.
  byte : (BitVec 8 → BitVec w) → BitVec w → BitVec 8 → BitVec w
  -- The value that `ember_crypto_crcN_final` returns.
  final : BitVec w → BitVec w

/-- Polynomial 0x07. -/
def crc8 : Variant 8 where
  first i := BitVec.ofNat 8 i
  bit c := if c &&& 0x80 ≠ 0 then (c <<< 1) ^^^ 0x07 else c <<< 1
  init := 0x00
  byte table c p := table (c ^^^ p)
  final c := c

/-- Polynomial 0x1021. -/
def crc16 : Variant 16 where
  first i := BitVec.ofNat 16 i <<< 8
  bit c := if c &&& 0x8000 ≠ 0 then (c <<< 1) ^^^ 0x1021 else c <<< 1
  init := 0xFFFF
  byte table c p := (c <<< 8) ^^^ table ((((c >>> 8) ^^^ p.setWidth 16) &&& 0xFF).setWidth 8)
  final c := c

/-- Reflected polynomial 0xEDB88320. -/
def crc32 : Variant 32 where
  first i := BitVec.ofNat 32 i
  bit c := if c &&& 1 ≠ 0 then (c >>> 1) ^^^ 0xEDB88320 else c >>> 1
  init := 0xFFFFFFFF
  byte table c p := (c >>> 8) ^^^ table (((c ^^^ p.setWidth 32) &&& 0xFF).setWidth 8)
  final c := c ^^^ 0xFFFFFFFF

namespace Variant
variable {w : Nat} (v : Variant w)

/-- `crcN_build_table`. -/
def buildTable (table : BitVec 8 → BitVec w) : BitVec 8 → BitVec w :=
  (List.range 256).foldl (fun table i => Function.update table (BitVec.ofNat 8 i) (v.bit^[8] (v.first i))) table

/-- `crcN_ensure_table`. -/
def ensureTable (t : LazyTable w) : LazyTable w := if t.ready then t else ⟨v.buildTable t.table, true⟩

/-- The loop of `ember_crypto_crcN_update`. -/
def update (t : LazyTable w) (crc : BitVec w) (data : List (BitVec 8)) : BitVec w := data.foldl (v.byte t.table) crc

/-- `ember_crypto_crcN_compute`, and the table after it. -/
def compute (t : LazyTable w) (data : List (BitVec 8)) : BitVec w × LazyTable w :=
  (v.final (v.update (v.ensureTable t) v.init data), v.ensureTable t)

end Variant

/-! ### Programs -/

/-- The three checksums of the library. -/
inductive Kind where
  | crc8
  | crc16
  | crc32
  deriving DecidableEq, Repr

/-- The width of a checksum. -/
def Kind.width : Kind → Nat
  | .crc8 => 8
  | .crc16 => 16
  | .crc32 => 32

/-- The variant that the library computes for each width. -/
def Kind.variant : (k : Kind) → Variant k.width
  | .crc8 => Crypto.crc8
  | .crc16 => Crypto.crc16
  | .crc32 => Crypto.crc32

/-- A call of one of the four functions; `ctx` names a context. -/
inductive CrcCall where
  | init (ctx : Nat)
  | update (ctx : Nat) (data : List (BitVec 8))
  | final (ctx : Nat)
  | compute (data : List (BitVec 8))

/-- The statics of one kind, and the `crc` fields of the contexts of this kind. -/
structure CrcState (w : Nat) where
  lookup : LazyTable w
  crc : Nat → BitVec w

/-- The contexts of all three checksums. -/
abbrev Crcs := (k : Kind) → CrcState k.width

/-- The state after a call, and what the call returns. -/
def CrcState.call {w : Nat} (v : Variant w) (s : CrcState w) : CrcCall → CrcState w × Option (BitVec w)
  | .init ctx => (⟨v.ensureTable s.lookup, Function.update s.crc ctx v.init⟩, none)
  | .update ctx data => ({ s with crc := Function.update s.crc ctx (v.update s.lookup (s.crc ctx) data) }, none)
  | .final ctx => (s, some (v.final (s.crc ctx)))
  | .compute data => ({ s with lookup := (v.compute s.lookup data).2 }, some (v.compute s.lookup data).1)

/-- At program start the statics are zero; the contexts hold whatever their memory held. -/
def Crcs.start (memory : (k : Kind) → Nat → BitVec k.width) : Crcs := fun k => ⟨⟨fun _ => 0, false⟩, memory k⟩

/-- A call acts on the contexts of its own checksum only. -/
def Crcs.step (s : Crcs) (call : Kind × CrcCall) : Crcs :=
  Function.update s call.1 ((s call.1).call call.1.variant call.2).1

/-- The calls of a run, oldest first. -/
def Crcs.run (s : Crcs) (calls : List (Kind × CrcCall)) : Crcs := calls.foldl Crcs.step s

/-- What the next call returns. -/
def Crcs.returns (s : Crcs) (k : Kind) (call : CrcCall) : Option (BitVec k.width) := ((s k).call k.variant call).2

end Crypto
end Emberlite
