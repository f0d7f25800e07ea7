import Emberlite.Crypto.Crc
import Emberlite.Lib.BitRegister
import Emberlite.Lib.ByteOrder

/-! The checksums without a table, one message bit at a time, and that every run of the code returns them. -/

namespace Emberlite
namespace Crypto
open ShiftRegister XorSpace

/-! ### The bits of a message -/

/-- The most significant bit of a byte comes first. -/
def msbBits (p : BitVec 8) : List Bool := (List.range 8).map p.getMsbD

/-- The bits of a byte, least significant first. -/
def lsbBits (p : BitVec 8) : List Bool := (List.range 8).map p.getLsbD

/-- Transmission order. -/
def Kind.byteBits : Kind → BitVec 8 → List Bool
  | .crc8 | .crc16 => msbBits
  | .crc32 => lsbBits

/-- The message as the bits that the checksum's register takes in. -/
def Kind.bits (k : Kind) (m : List (BitVec 8)) : List Bool := m.flatMap k.byteBits

/-- One bit of a message, most significant bits first. -/
def msbStep {w : Nat} (poly c : BitVec w) (b : Bool) : BitVec w :=
  if c.msb ^^ b then (c <<< 1) ^^^ poly else c <<< 1

/-- One bit into a register that shifts towards the least significant end. -/
def lsbStep {w : Nat} (poly c : BitVec w) (b : Bool) : BitVec w :=
  if c.getLsbD 0 ^^ b then (c >>> 1) ^^^ poly else c >>> 1

/-- The checksum of a message, bit by bit. -/
def Kind.bitwise : (k : Kind) → List (BitVec 8) → BitVec k.width
  | .crc8, m => (Kind.crc8.bits m).foldl (msbStep 0x07) (0 : BitVec 8)
  | .crc16, m => (Kind.crc16.bits m).foldl (msbStep 0x1021) (0xFFFF : BitVec 16)
  | .crc32, m => ((Kind.crc32.bits m).foldl (lsbStep 0xEDB88320) 0xFFFFFFFF ^^^ 0xFFFFFFFF : BitVec 32)

/-! ### As a shift register -/

/-- The bitwise register of CRC-8. -/
def crc8Register : Register (BitVec 8) := msbFirst 0x07 (by decide)

/-- The bitwise register of CRC-16. -/
def crc16Register : Register (BitVec 16) := msbFirst 0x1021 (by decide)

/-- The bitwise register of CRC-32. -/
def crc32Register : Register (BitVec 32) := lsbFirst 0xEDB88320 (by decide)

/-- The bitwise register of each checksum. -/
def Kind.register : (k : Kind) → Register (BitVec k.width)
  | .crc8 => crc8Register
  | .crc16 => crc16Register
  | .crc32 => crc32Register

/-- The value that `final` adds. -/
def Kind.xorout : (k : Kind) → BitVec k.width
  | .crc8 => (0 : BitVec 8)
  | .crc16 => (0 : BitVec 16)
  | .crc32 => (0xFFFFFFFF : BitVec 32)

/-- A byte in the first eight slots of the register. -/
def Kind.inject : (k : Kind) → BitVec 8 → BitVec k.width
  | .crc8, p => p
  | .crc16, p => p.setWidth 16 <<< 8
  | .crc32, p => p.setWidth 32

theorem width_register (k : Kind) : k.register.width = k.width := by cases k <;> rfl

theorem length_byteBits (k : Kind) (p : BitVec 8) : (k.byteBits p).length = 8 := by cases k <;> rfl

section Steps
variable {w : Nat} {poly : BitVec w}

theorem msbStep_eq (hodd : poly.getLsbD 0 = true) : msbStep poly = (msbFirst poly hodd).step := by
  funext c b
  have hw : 0 < w := by
    rcases Nat.eq_zero_or_pos w with rfl | hw
    · rw [BitVec.getLsbD_of_ge _ _ (Nat.le_refl 0)] at hodd
      cases hodd
    · exact hw
  change msbStep poly c b = feedLeft poly (c ^^^ gate b (BitVec.twoPow w (w - 1 - 0)))
  cases b
  · rw [gate_false, exor_zero, msbStep, Bool.xor_false, BitVec.msb_eq_getMsbD_zero, feedLeft]
  · have htop : (BitVec.twoPow w (w - 1)).getMsbD 0 = true := by
      rw [BitVec.getMsbD_eq_getLsbD, BitVec.getLsbD_twoPow]
      simp [hw, Nat.sub_lt hw]
    have hshift : (BitVec.twoPow w (w - 1)) <<< 1 = 0#w := by
      rw [BitVec.twoPow_eq, ← BitVec.shiftLeft_add, Nat.sub_add_cancel hw, BitVec.shiftLeft_eq_zero (Nat.le_refl w)]
    rw [Nat.sub_zero, gate_true, msbStep, feedLeft, BitVec.getMsbD_xor, htop, BitVec.shiftLeft_xor_distrib, hshift,
      BitVec.xor_zero, BitVec.msb_eq_getMsbD_zero]

theorem lsbStep_eq (hodd : poly.getMsbD 0 = true) : lsbStep poly = (lsbFirst poly hodd).step := by
  funext c b
  have hw : 0 < w := by
    rcases Nat.eq_zero_or_pos w with rfl | hw
    · rw [BitVec.getMsbD_of_ge _ _ (Nat.le_refl 0)] at hodd
      cases hodd
    · exact hw
  change lsbStep poly c b = feedRight poly (c ^^^ gate b (BitVec.twoPow w 0))
  cases b
  · rw [gate_false, exor_zero, lsbStep, Bool.xor_false, feedRight]
  · have hlow : (BitVec.twoPow w 0).getLsbD 0 = true := by
      rw [BitVec.getLsbD_twoPow]
      simp [hw]
    have hshift : (BitVec.twoPow w 0) >>> 1 = 0#w := by
      refine BitVec.eq_of_getLsbD_eq fun i hi => ?_
      rw [BitVec.getLsbD_ushiftRight, BitVec.getLsbD_twoPow, BitVec.getLsbD_zero, Nat.add_comm]
      simp
    rw [gate_true, lsbStep, feedRight, BitVec.getLsbD_xor, hlow, BitVec.ushiftRight_xor_distrib, hshift,
      BitVec.xor_zero]

end Steps

theorem bitwise_eq (k : Kind) (m : List (BitVec 8)) :
    k.bitwise m = k.register.run k.variant.init (k.bits m) ^^^ k.xorout := by
  cases k with
  | crc8 =>
    change (Kind.crc8.bits m).foldl (msbStep 0x07#8) 0#8 = crc8Register.run 0#8 (Kind.crc8.bits m) ^^^ 0#8
    rw [msbStep_eq (by decide), BitVec.xor_zero]
    rfl
  | crc16 =>
    change (Kind.crc16.bits m).foldl (msbStep 0x1021#16) 0xFFFF#16 =
      crc16Register.run 0xFFFF#16 (Kind.crc16.bits m) ^^^ 0#16
    rw [msbStep_eq (by decide), BitVec.xor_zero]
    rfl
  | crc32 =>
    change (Kind.crc32.bits m).foldl (lsbStep 0xEDB88320#32) 0xFFFFFFFF#32 ^^^ 0xFFFFFFFF#32 =
      crc32Register.run 0xFFFFFFFF#32 (Kind.crc32.bits m) ^^^ 0xFFFFFFFF#32
    rw [lsbStep_eq (by decide)]
    rfl

/-! ### The table -/

theorem buildTable_eq {w : Nat} (v : Variant w) (table : BitVec 8 → BitVec w) :
    v.buildTable table = fun i => v.bit^[8] (v.first i.toNat) := by
  let row (i : Nat) : BitVec w := v.bit^[8] (v.first i)
  suffices hloop : ∀ n, n ≤ 256 → ∀ i : BitVec 8, (List.range n).foldl
      (fun table i => Function.update table (BitVec.ofNat 8 i) (row i)) table i =
        if i.toNat < n then row i.toNat else table i by
    funext i
    exact (hloop 256 (Nat.le_refl _) i).trans (if_pos i.isLt)
  intro n
  induction n with
  | zero => exact fun _ i => (if_neg (Nat.not_lt_zero _)).symm
  | succ n ih =>
    intro hn i
    rw [List.range_succ, List.foldl_concat, Function.update_apply, ih (by omega)]
    have hiff : i = BitVec.ofNat 8 n ↔ i.toNat = n := by
      rw [← BitVec.toNat_inj, BitVec.toNat_ofNat, Nat.mod_eq_of_lt (by omega)]
    simp only [hiff]
    rcases Nat.lt_trichotomy i.toNat n with hlt | heq | hgt
    · simp [hlt, Nat.ne_of_lt hlt, Nat.lt_succ_of_lt hlt]
    · simp [heq]
    · simp [Nat.ne_of_gt hgt, Nat.not_lt_of_gt hgt, show ¬i.toNat < n + 1 by omega]

theorem and_top_ne_zero {w : Nat} (hw : 0 < w) (c : BitVec w) :
    c &&& BitVec.twoPow w (w - 1) ≠ 0#w ↔ c.getMsbD 0 = true := by
  rw [BitVec.getMsbD_eq_getLsbD, Nat.sub_zero, decide_eq_true hw, Bool.true_and, BitVec.and_twoPow]
  cases c.getLsbD (w - 1)
  · simp
  · have hne : BitVec.twoPow w (w - 1) ≠ 0#w := fun h => by
      have hbit := congrArg (fun x => BitVec.getLsbD x (w - 1)) h
      simp [Nat.sub_lt hw] at hbit
    simpa using hne

theorem and_one_ne_zero {w : Nat} (hw : 0 < w) (c : BitVec w) : c &&& 1#w ≠ 0#w ↔ c.getLsbD 0 = true := by
  have hone : 1#w = BitVec.twoPow w 0 := by rw [BitVec.twoPow_eq, BitVec.shiftLeft_zero]
  rw [hone, BitVec.and_twoPow]
  cases c.getLsbD 0
  · simp
  · have hne : BitVec.twoPow w 0 ≠ 0#w := fun h => by
      have hbit := congrArg (fun x => BitVec.getLsbD x 0) h
      simp [hw] at hbit
    simpa using hne

/-- The inner loop of the three `build_table` functions. -/
theorem bit_eq (k : Kind) : k.variant.bit = k.register.feed := by
  funext c
  cases k with
  | crc8 => exact if_congr (and_top_ne_zero (w := 8) (by decide) c) rfl rfl
  | crc16 => exact if_congr (and_top_ne_zero (w := 16) (by decide) c) rfl rfl
  | crc32 => exact if_congr (and_one_ne_zero (w := 32) (by decide) c) rfl rfl

theorem first_eq (k : Kind) (i : BitVec 8) : k.variant.first i.toNat = k.inject i := by
  cases k with
  | crc8 => exact BitVec.ofNat_toNat 8 i
  | crc16 => exact congrArg (fun x : BitVec 16 => x <<< 8) (BitVec.ofNat_toNat 16 i)
  | crc32 => exact BitVec.ofNat_toNat 32 i

/-- The index of a lookup: the eight bits that leave the register, and the byte. -/
theorem index_eq {w : Nat} (hw : 8 ≤ w) (x : BitVec w) (p : BitVec 8) :
    ((x ^^^ p.setWidth w) &&& 0xFF#w).setWidth 8 = x.setWidth 8 ^^^ p := by
  rw [ByteOrder.setWidth_and_mask, BitVec.setWidth_xor, BitVec.setWidth_setWidth_of_le p hw, BitVec.setWidth_eq]

theorem crc16_byte (c : BitVec 16) (p : BitVec 8) :
    crc16.byte (fun i => crc16Register.feed^[8] (i.setWidth 16 <<< 8)) c p =
      crc16Register.feed^[8] (c ^^^ p.setWidth 16 <<< 8) := by
  have hsymbol := iterate_symbol_left (show (0x1021#16).getLsbD 0 = true by decide) (by decide) c p
  refine Eq.trans ?_ hsymbol.symm
  exact congrArg (fun i : BitVec 8 => c <<< 8 ^^^ crc16Register.feed^[8] (i.setWidth 16 <<< 8))
    (index_eq (by decide) (c >>> 8) p)

theorem crc32_byte (c : BitVec 32) (p : BitVec 8) :
    crc32.byte (fun i => crc32Register.feed^[8] (i.setWidth 32)) c p =
      crc32Register.feed^[8] (c ^^^ p.setWidth 32) := by
  have hsymbol := iterate_symbol_right (show (0xEDB88320#32).getMsbD 0 = true by decide) c p
  refine Eq.trans ?_ hsymbol.symm
  exact congrArg (fun i : BitVec 8 => c >>> 8 ^^^ crc32Register.feed^[8] (i.setWidth 32))
    (index_eq (by decide) c p)

theorem place_byteBits (k : Kind) (p : BitVec 8) : k.register.place 0 (k.byteBits p) = k.inject p := by
  cases k with
  | crc8 =>
    refine (place_left (w := 8) (by decide) (by decide) p).trans ?_
    rw [BitVec.setWidth_eq]
    exact BitVec.shiftLeft_zero p
  | crc16 => exact place_left (w := 16) (by decide) (by decide) p
  | crc32 => exact place_right (w := 32) (by decide) (by decide) p

/-- One lookup is eight steps of the register. -/
theorem byte_eq (k : Kind) (table : BitVec 8 → BitVec k.width) (c : BitVec k.width) (p : BitVec 8) :
    k.variant.byte (k.variant.buildTable table) c p = k.register.run c (k.byteBits p) := by
  have hfit : (k.byteBits p).length ≤ k.register.width := by
    rw [length_byteBits, width_register]
    cases k <;> decide
  rw [run_eq hfit, place_byteBits, length_byteBits, buildTable_eq, bit_eq]
  simp only [first_eq]
  cases k with
  | crc8 => rfl
  | crc16 => exact crc16_byte c p
  | crc32 => exact crc32_byte c p

theorem final_eq (k : Kind) (c : BitVec k.width) : k.variant.final c = c ^^^ k.xorout := by
  cases k with
  | crc8 | crc16 => exact BitVec.xor_zero.symm
  | crc32 => rfl

theorem bits_cons (k : Kind) (p : BitVec 8) (m : List (BitVec 8)) : k.bits (p :: m) = k.byteBits p ++ k.bits m :=
  List.flatMap_cons

theorem bits_append (k : Kind) (m m' : List (BitVec 8)) : k.bits (m ++ m') = k.bits m ++ k.bits m' :=
  List.flatMap_append

/-! ### Runs -/

section Runs
variable {k : Kind}

/-- A table that is ready is right. -/
def Built (k : Kind) (t : LazyTable k.width) : Prop := t.ready = true → ∃ table, t.table = k.variant.buildTable table

theorem ensureTable_ready {t : LazyTable k.width} : (k.variant.ensureTable t).ready = true := by
  unfold Variant.ensureTable
  split
  · assumption
  · rfl

theorem Built.ensureTable {t : LazyTable k.width} (h : Built k t) : Built k (k.variant.ensureTable t) := by
  unfold Variant.ensureTable
  split
  · exact h
  · dsimp only [Built]
    exact fun _ => ⟨t.table, rfl⟩

theorem Built.update_eq {t : LazyTable k.width} (h : Built k t) (hready : t.ready = true) (c : BitVec k.width)
    (data : List (BitVec 8)) : k.variant.update t c data = k.register.run c (k.bits data) := by
  obtain ⟨table, htable⟩ := h hready
  rw [Variant.update, htable]
  induction data generalizing c with
  | nil => rfl
  | cons p data ih => rw [List.foldl_cons, byte_eq, ih, bits_cons, run_append]

theorem Built.compute_eq {t : LazyTable k.width} (h : Built k t) (data : List (BitVec 8)) :
    (k.variant.compute t data).1 = k.bitwise data := by
  rw [Variant.compute, h.ensureTable.update_eq ensureTable_ready, final_eq, bitwise_eq]

/-- What the contexts of one kind have taken in since their last `init`; none before the first. -/
abbrev Absorbed := Nat → Option (List (BitVec 8))

/-- A call adds its bytes to the message of its context. -/
def Absorbed.call (m : Absorbed) : CrcCall → Absorbed
  | .init ctx => Function.update m ctx (some [])
  | .update ctx data => Function.update m ctx ((m ctx).map (· ++ data))
  | .final _ | .compute _ => m

/-- A call changes the messages of its own checksum only. -/
def absorbStep (m : Kind → Absorbed) (call : Kind × CrcCall) : Kind → Absorbed :=
  Function.update m call.1 ((m call.1).call call.2)

/-- What the contexts of each kind have taken in after a run. -/
def absorbed (calls : List (Kind × CrcCall)) : Kind → Absorbed := calls.foldl absorbStep fun _ _ => none

/-- A context that was initialised holds the register after the bits of its message. -/
structure Carries (k : Kind) (s : CrcState k.width) (m : Absorbed) : Prop where
  built : Built k s.lookup
  crc : ∀ ctx data, m ctx = some data →
    s.lookup.ready = true ∧ s.crc ctx = k.register.run k.variant.init (k.bits data)

theorem Carries.call {s : CrcState k.width} {m : Absorbed} (h : Carries k s m) (call : CrcCall) :
    Carries k (s.call k.variant call).1 (m.call call) := by
  have hready : ∀ {ctx data}, m ctx = some data → (k.variant.ensureTable s.lookup).ready = true ∧
      s.crc ctx = k.register.run k.variant.init (k.bits data) := fun hm => ⟨ensureTable_ready, (h.crc _ _ hm).2⟩
  cases call with
  | init ctx =>
    refine ⟨h.built.ensureTable, fun c data hm => ?_⟩
    change Function.update m ctx (some []) c = some data at hm
    rw [Function.update_apply] at hm
    change (k.variant.ensureTable s.lookup).ready = true ∧ Function.update s.crc ctx k.variant.init c = _
    rw [Function.update_apply]
    split at hm
    · cases hm
      rw [if_pos ‹_›]
      exact ⟨ensureTable_ready, rfl⟩
    · rw [if_neg ‹_›]
      exact hready hm
  | update ctx data =>
    refine ⟨h.built, fun c data' hm => ?_⟩
    change Function.update m ctx ((m ctx).map (· ++ data)) c = some data' at hm
    rw [Function.update_apply] at hm
    change s.lookup.ready = true ∧ Function.update s.crc ctx (k.variant.update s.lookup (s.crc ctx) data) c = _
    rw [Function.update_apply]
    split at hm
    · obtain ⟨old, hold, rfl⟩ := Option.map_eq_some_iff.mp hm
      obtain ⟨hlookup, hcrc⟩ := h.crc _ _ hold
      rw [if_pos ‹_›, h.built.update_eq hlookup, hcrc, bits_append, run_append]
      exact ⟨hlookup, rfl⟩
    · rw [if_neg ‹_›]
      exact h.crc c data' hm
  | final ctx => exact h
  | compute data => exact ⟨h.built.ensureTable, fun _ _ hm => hready hm⟩

theorem run_carries (memory : (k : Kind) → Nat → BitVec k.width) (calls : List (Kind × CrcCall)) (k : Kind) :
    Carries k ((Crcs.start memory).run calls k) (absorbed calls k) := by
  suffices hrun : ∀ (s : Crcs) (m : Kind → Absorbed), (∀ k, Carries k (s k) (m k)) →
      ∀ k, Carries k (s.run calls k) (calls.foldl absorbStep m k) from
    hrun _ _ (fun _ => ⟨fun h => (Bool.false_ne_true h).elim, fun _ _ h => (Option.some_ne_none _ h.symm).elim⟩) k
  induction calls with
  | nil => exact fun _ _ h => h
  | cons call calls ih =>
    intro s m h
    refine ih _ _ fun k => ?_
    rw [Crcs.step, absorbStep]
    by_cases hk : k = call.1
    · subst hk
      rw [Function.update_self, Function.update_self]
      exact (h call.1).call call.2
    · rw [Function.update_of_ne hk, Function.update_of_ne hk]
      exact h k

/-- Wherever a run has come, `final` returns the bitwise checksum of what its context has taken in since its last
    `init`, and `compute` that of its argument. -/
theorem run_bitwise (memory : (k : Kind) → Nat → BitVec k.width) (calls : List (Kind × CrcCall)) (k : Kind) :
    (∀ ctx m, absorbed calls k ctx = some m →
      ((Crcs.start memory).run calls).returns k (.final ctx) = some (k.bitwise m)) ∧
    ∀ data, ((Crcs.start memory).run calls).returns k (.compute data) = some (k.bitwise data) := by
  have h := run_carries memory calls k
  refine ⟨fun ctx m hm => congrArg some ?_, fun data => congrArg some (h.built.compute_eq data)⟩
  rw [final_eq, (h.crc ctx m hm).2, bitwise_eq]

end Runs

/-- Two contexts of different kinds, used in turns. -/
theorem run_bitwise_turns :
    ((Crcs.start fun k _ => BitVec.ofNat k.width 0xA5).run [(.crc32, .init 7), (.crc8, .init 7),
      (.crc32, .update 7 [0x31]), (.crc8, .update 7 [0x99]), (.crc32, .update 7 []),
      (.crc32, .update 7 [0x32, 0x33])]).returns .crc32 (.final 7) = some (Kind.crc32.bitwise [0x31, 0x32, 0x33]) :=
  (run_bitwise _ _ .crc32).1 7 _ rfl

end Crypto
end Emberlite
