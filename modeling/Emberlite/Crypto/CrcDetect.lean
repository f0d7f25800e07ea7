import Emberlite.Crypto.CrcBitwise

/-! What the checksums are for: they tell apart messages that differ in a burst of at most their width, and a
    receiver that checks the residue of a frame accepts exactly the right trailer. -/

namespace Emberlite
namespace Crypto
open ShiftRegister XorSpace

/-- The bytes in which a checksum is sent: the bits in transmission order. -/
def Kind.trailer : (k : Kind) → BitVec k.width → List (BitVec 8)
  | .crc8, t => [t]
  | .crc16, (t : BitVec 16) => [(t >>> 8).setWidth 8, t.setWidth 8]
  | .crc32, (t : BitVec 32) => [t.setWidth 8, (t >>> 8).setWidth 8, (t >>> 16).setWidth 8, (t >>> 24).setWidth 8]

/-- The checksum of any message with its own checksum behind it. -/
def Kind.residue : (k : Kind) → BitVec k.width
  | .crc8 => (0 : BitVec 8)
  | .crc16 => (0 : BitVec 16)
  | .crc32 => (0x2144DF1C : BitVec 32)

section Detect
variable {k : Kind} {m m' : List (BitVec 8)}

theorem byteBits_injective : Function.Injective k.byteBits := by
  intro p q h
  cases k with
  | crc8 | crc16 =>
    rw [Kind.byteBits, msbBits, msbBits, List.map_inj_left] at h
    exact BitVec.eq_of_getMsbD_eq fun i hi => h i (List.mem_range.mpr hi)
  | crc32 =>
    rw [Kind.byteBits, lsbBits, lsbBits, List.map_inj_left] at h
    exact BitVec.eq_of_getLsbD_eq fun i hi => h i (List.mem_range.mpr hi)

theorem length_bits (k : Kind) (m : List (BitVec 8)) : (k.bits m).length = 8 * m.length := by
  induction m with
  | nil => rfl
  | cons p m ih =>
    rw [bits_cons, List.length_append, length_byteBits, ih, List.length_cons]
    omega

theorem bits_injective (hlen : m.length = m'.length) (h : k.bits m = k.bits m') : m = m' := by
  induction m generalizing m' with
  | nil => exact (List.length_eq_zero_iff.mp hlen.symm).symm
  | cons p m ih =>
    rcases m' with _ | ⟨q, m'⟩
    · cases hlen
    · rw [bits_cons, bits_cons] at h
      obtain ⟨hp, hm⟩ := List.append_inj h ((length_byteBits k p).trans (length_byteBits k q).symm)
      rw [byteBits_injective hp, ih (Nat.succ.inj hlen) hm]

theorem bitwise_ne (hlen : m.length = m'.length) (hne : m ≠ m') (start : Nat)
    (hwin : ∀ i : Nat, (k.bits m)[i]? ≠ (k.bits m')[i]? → start ≤ i ∧ i < start + k.width) :
    k.bitwise m ≠ k.bitwise m' := by
  rw [← width_register] at hwin
  have hbits : (k.bits m).length = (k.bits m').length := by rw [length_bits, length_bits, hlen]
  have hrun := run_ne hbits (fun h => hne (bits_injective hlen h)) start hwin k.variant.init
  rw [bitwise_eq, bitwise_eq]
  exact fun h => hrun (BitVec.xor_left_inj k.xorout |>.mp h)

/-! ### The residue -/

theorem msbBits_slice {w n : Nat} (hn : n + 8 ≤ w) (t : BitVec w) :
    msbBits ((t >>> n).setWidth 8) = (List.range 8).map fun i => t.getMsbD (w - (n + 8) + i) := by
  refine List.map_congr_left fun i hi => ?_
  have hi : i < 8 := List.mem_range.mp hi
  rw [BitVec.getMsbD_eq_getLsbD, BitVec.getLsbD_setWidth, BitVec.getLsbD_ushiftRight, BitVec.getMsbD_eq_getLsbD]
  have hindex : w - 1 - (w - (n + 8) + i) = n + (8 - 1 - i) := by omega
  simp [hi, hindex, show w - (n + 8) + i < w by omega, show 7 - i < 8 by omega]

theorem lsbBits_slice {w : Nat} (n : Nat) (t : BitVec w) :
    lsbBits ((t >>> n).setWidth 8) = (List.range 8).map fun i => t.getLsbD (n + i) := by
  refine List.map_congr_left fun i hi => ?_
  have hi : i < 8 := List.mem_range.mp hi
  rw [BitVec.getLsbD_setWidth, BitVec.getLsbD_ushiftRight]
  simp [hi]

theorem bits_trailer16 (t : BitVec 16) : Kind.crc16.bits (Kind.crc16.trailer t) = (List.range 16).map t.getMsbD := by
  have hlow := msbBits_slice (n := 0) (by decide) t
  rw [BitVec.ushiftRight_zero] at hlow
  change msbBits _ ++ (msbBits _ ++ []) = _
  rw [msbBits_slice (n := 8) (by decide), hlow]
  rfl

theorem bits_trailer32 (t : BitVec 32) : Kind.crc32.bits (Kind.crc32.trailer t) = (List.range 32).map t.getLsbD := by
  have hlow := lsbBits_slice 0 t
  rw [BitVec.ushiftRight_zero] at hlow
  change lsbBits _ ++ (lsbBits _ ++ (lsbBits _ ++ (lsbBits _ ++ []))) = _
  rw [lsbBits_slice 8, lsbBits_slice 16, lsbBits_slice 24, hlow]
  rfl

/-- The bits of a trailer, all put in at once, are the checksum. -/
theorem place_trailer (k : Kind) (t : BitVec k.width) : k.register.place 0 (k.bits (k.trailer t)) = t := by
  cases k with
  | crc8 => exact place_left_self (show (0x07#8).getLsbD 0 = true by decide) t
  | crc16 => exact (congrArg _ (bits_trailer16 t)).trans (place_left_self (by decide) (t : BitVec 16))
  | crc32 => exact (congrArg _ (bits_trailer32 t)).trans (place_right_self (by decide) (t : BitVec 32))

theorem length_trailer (k : Kind) (t : BitVec k.width) : (k.bits (k.trailer t)).length = k.register.width := by
  cases k <;> rfl

/-- The residue is what the register holds after the constant that `final` adds. -/
theorem residue_eq (k : Kind) : k.residue ^^^ k.xorout = k.register.feed^[k.register.width] k.xorout := by
  cases k with
  | crc8 | crc16 => exact (BitVec.xor_self).trans (iterate_zero _).symm
  | crc32 => decide +kernel

theorem bitwise_residue (k : Kind) (m : List (BitVec 8)) (t : BitVec k.width) :
    k.bitwise (m ++ k.trailer t) = k.residue ↔ k.bitwise m = t := by
  have hflip : ∀ a : BitVec k.width, a ^^^ k.xorout = k.residue ↔ a = k.residue ^^^ k.xorout := fun a => by
    constructor
    · rintro h
      rw [← h, BitVec.xor_assoc, BitVec.xor_self, BitVec.xor_zero]
    · rintro rfl
      rw [BitVec.xor_assoc, BitVec.xor_self, BitVec.xor_zero]
  rw [bitwise_eq, bits_append, run_append, hflip, residue_eq, run_eq_iterate_iff (length_trailer k t), place_trailer,
    bitwise_eq, eq_comm]

end Detect

/-! ### The results of the code -/

/-- Messages of one length that differ, but only within `k.width` consecutive bits, get different checksums,
    wherever in a program the two are computed. -/
theorem compute_ne (memory memory' : (k : Kind) → Nat → BitVec k.width) (calls calls' : List (Kind × CrcCall)) (k : Kind)
    (m m' : List (BitVec 8)) (hlen : m.length = m'.length) (hne : m ≠ m') (start : Nat)
    (hwin : ∀ i : Nat, (k.bits m)[i]? ≠ (k.bits m')[i]? → start ≤ i ∧ i < start + k.width) :
    ((Crcs.start memory).run calls).returns k (.compute m) ≠
      ((Crcs.start memory').run calls').returns k (.compute m') := by
  rw [(run_bitwise memory calls k).2 m, (run_bitwise memory' calls' k).2 m']
  exact fun h => bitwise_ne hlen hne start hwin (Option.some.inj h)

theorem compute_ne_straddling :
    ((Crcs.start fun _ _ => 0).run []).returns .crc32 (.compute [0x00, 0x00]) ≠
      ((Crcs.start fun _ _ => 0).run []).returns .crc32 (.compute [0x80, 0x01]) :=
  compute_ne _ _ [] [] .crc32 _ _ rfl (by decide) 7 fun i hi => by
    have hwin : ∀ i, i < 16 → (Kind.crc32.bits [0x00, 0x00])[i]? ≠ (Kind.crc32.bits [0x80, 0x01])[i]? →
        7 ≤ i ∧ i < 7 + 32 := by decide
    refine hwin i (Nat.lt_of_not_le fun h => hi ?_) hi
    rw [List.getElem?_eq_none h, List.getElem?_eq_none h]

/-- A frame has the residue exactly when its trailer is the checksum of the message. -/
theorem compute_residue (memory : (k : Kind) → Nat → BitVec k.width) (calls : List (Kind × CrcCall)) (k : Kind)
    (m : List (BitVec 8)) (t : BitVec k.width) :
    ((Crcs.start memory).run calls).returns k (.compute (m ++ k.trailer t)) = some k.residue ↔
      ((Crcs.start memory).run calls).returns k (.compute m) = some t := by
  rw [(run_bitwise memory calls k).2 (m ++ k.trailer t), (run_bitwise memory calls k).2 m, Option.some_inj,
    Option.some_inj, bitwise_residue]

end Crypto
end Emberlite
