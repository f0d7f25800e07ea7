import Emberlite.Crypto.Blocks

/-! `components/crypto/src/md5.c`, where `size_t` has 64 bits. An access outside of an array has no result. The two
    words of `count` are the length in bits, and give the position in the buffer; the digest is MD5. -/

namespace Emberlite
namespace Crypto
namespace Md5
open FixedBuffer ByteOrder BlockStream
open Rfc1321 (Words compress initial)

/-- `ember_crypto_md5_ctx`. -/
structure Ctx where
  state : Vector Word 4
  count : Vector Word 2
  buffer : Vector (BitVec 8) 64

/-- `ember_crypto_md5_init`. -/
def init : Ctx where
  state := #v[0x67452301, 0xefcdab89, 0x98badcfe, 0x10325476]
  count := #v[0, 0]
  buffer := Vector.replicate 64 0

/-- How far the buffer is filled, as `ember_crypto_md5_update` and `ember_crypto_md5_final` compute it. -/
def Ctx.idx (ctx : Ctx) : Word := (ctx.count[0] >>> 3) &&& 0x3F

/-- One turn of the loop of `ember_crypto_md5_update`: the context, `idx` and `i` after it. -/
def turn (data : List (BitVec 8)) (ctx : Ctx) (idx : Word) (i : Nat) : Option (Ctx × Word × Nat) := do
  let copy := (64 - idx).toNat
  let copy := if copy > data.length - i then data.length - i else copy
  let piece ← slice data i copy
  let buffer ← write ctx.buffer idx.toNat piece
  let idx := idx + BitVec.ofNat 32 copy
  let i := i + copy
  if idx = 64 then pure ({ ctx with state := transform ctx.state buffer, buffer }, 0, i)
  else pure ({ ctx with buffer }, idx, i)

/-- The loop of `ember_crypto_md5_update`, for at most `fuel` turns. -/
def updateLoop (data : List (BitVec 8)) : (fuel : Nat) → Ctx → (idx : Word) → (i : Nat) → Option Ctx
  | 0, ctx, _, i => if i < data.length then none else some ctx
  | fuel + 1, ctx, idx, i =>
    if i < data.length then do
      let (ctx, idx, i) ← turn data ctx idx i
      updateLoop data fuel ctx idx i
    else some ctx

/-- The two words of `count` after `len` more bytes. -/
def addCount (count : Vector Word 2) (len : BitVec 64) : Vector Word 2 :=
  let low := count[0] + (len <<< 3).setWidth 32
  let high := if low < (len <<< 3).setWidth 32 then count[1] + 1 else count[1]
  #v[low, high + (len >>> 29).setWidth 32]

/-- `ember_crypto_md5_update`. -/
def update (ctx : Ctx) (data : List (BitVec 8)) : Option Ctx :=
  updateLoop data data.length { ctx with count := addCount ctx.count (BitVec.ofNat 64 data.length) } ctx.idx 0

/-- How many padding bytes `ember_crypto_md5_final` adds. -/
def padlen (idx : Word) : Word := if idx < 56 then 56 - idx else 120 - idx

/-- The local array `pad` of `ember_crypto_md5_final`, not initialised before. -/
def fillPad (pad : Vector (BitVec 8) 64) (padlen : Word) : Option (Vector (BitVec 8) 64) := do
  let pad ← write pad 0 [0x80]
  if padlen > 1 then write pad 1 (List.replicate (padlen.toNat - 1) 0) else pure pad

/-- `ember_crypto_md5_final`: the context after it and the digest. -/
def final (ctx : Ctx) (pad : Vector (BitVec 8) 64) : Option (Ctx × List (BitVec 8)) := do
  let idx := ctx.idx
  let lo := ctx.count[0]
  let hi := ctx.count[1]
  let lenBytes := (List.range 8).map fun i => if i < 4 then byteAt lo (8 * i) else byteAt hi (8 * (i - 4))
  let pad ← fillPad pad (padlen idx)
  let ctx ← update ctx (← read pad (padlen idx).toNat)
  let ctx ← update ctx lenBytes
  pure (ctx, ctx.state.toList.flatMap fun s => [byteAt s 0, byteAt s 8, byteAt s 16, byteAt s 24])

/-- `ember_crypto_md5_compute`. -/
def compute (data : List (BitVec 8)) (pad : Vector (BitVec 8) 64) : Option (List (BitVec 8)) := do
  let ctx ← update init data
  let (_, digest) ← final ctx pad
  pure digest

/-! ### Any number of bytes -/

/-- The context holds four words and the bytes that wait for their block; `idx` counts these. -/
structure Holds (ctx : Ctx) (idx : Word) (s : Words × List (BitVec 8)) : Prop where
  state : wordsAt ctx.state = s.1
  idx : idx.toNat = s.2.length
  front : Front ctx.buffer s.2

theorem Holds.idx_lt {ctx : Ctx} {idx : Word} {s : Words × List (BitVec 8)} (h : Holds ctx idx s) : idx.toNat < 64 :=
  h.idx ▸ h.front.room

/-- The subtraction does not wrap. -/
theorem Holds.space_eq {ctx : Ctx} {idx : Word} {s : Words × List (BitVec 8)} (h : Holds ctx idx s) :
    (64 - idx).toNat = 64 - idx.toNat :=
  BitVec.toNat_sub_of_le (BitVec.le_def.mpr (Nat.le_of_lt h.idx_lt))

theorem turn_eq {data : List (BitVec 8)} {ctx : Ctx} {idx : Word} {i : Nat} {s : Words × List (BitVec 8)}
    (h : Holds ctx idx s) (hi : i < data.length) :
    ∃ ctx' idx' i', turn data ctx idx i = some (ctx', idx', i') ∧ i < i' ∧ i' ≤ data.length ∧ ctx'.count = ctx.count ∧
      ∃ s', Holds ctx' idx' s' ∧
        absorb compress 64 s'.1 (s'.2 ++ data.drop i') = absorb compress 64 s.1 (s.2 ++ data.drop i) := by
  have hspace := h.space_eq
  obtain ⟨state, count, buffer⟩ := ctx
  obtain ⟨words, left⟩ := s
  obtain ⟨hstate, hidx, hfront⟩ := h
  dsimp only at hstate hidx hfront
  subst hstate
  have hroom := hfront.room
  rw [hidx] at hspace
  have hadd : ∀ copy, left.length + copy ≤ 64 → (idx + BitVec.ofNat 32 copy).toNat = left.length + copy :=
    fun copy hle => by
      rw [BitVec.toNat_add, BitVec.toNat_ofNat, hidx]
      omega
  have hlength : (data.drop i).length = data.length - i := List.length_drop
  obtain ⟨buffer', hwrite, hshort, hfull⟩ := hfront.fill (data.drop i)
  rcases Nat.lt_or_ge (left.length + (data.drop i).length) 64 with hlt | hge
  · have hcopy : 64 - left.length > data.length - i := by omega
    have hend : i + (data.length - i) = data.length := Nat.add_sub_cancel' (Nat.le_of_lt hi)
    have hslice : slice data i (data.length - i) = some (data.drop i) := by
      rw [slice, if_pos (by omega), ← hlength, List.take_length]
    have hidx' := hadd (data.length - i) (by omega)
    have hne : idx + BitVec.ofNat 32 (data.length - i) ≠ 64 := fun heq => by
      have h64 : (idx + BitVec.ofNat 32 (data.length - i)).toNat = 64 := congrArg BitVec.toNat heq
      omega
    rw [List.take_of_length_le (by omega)] at hwrite
    refine ⟨⟨state, count, buffer'⟩, idx + BitVec.ofNat 32 (data.length - i), i + (data.length - i), ?_, by omega,
      by omega, rfl, (wordsAt state, left ++ data.drop i), ⟨rfl, ?_, hshort hlt⟩, ?_⟩
    · simp only [turn, hspace, if_pos hcopy, Option.bind_eq_bind, Option.pure_def]
      rw [hslice, Option.bind_some, hidx, hwrite, Option.bind_some, if_neg hne]
    · rw [hidx', List.length_append, hlength]
    · rw [hend, List.drop_length, List.append_nil]
  · have hcopy : ¬64 - left.length > data.length - i := by omega
    have hslice : slice data i (64 - left.length) = some ((data.drop i).take (64 - left.length)) :=
      if_pos (by omega)
    have hidx' : idx + BitVec.ofNat 32 (64 - left.length) = 64 := BitVec.eq_of_toNat_eq <| by
      rw [hadd _ (by omega)]
      change _ = 64
      omega
    have hblock : (left ++ (data.drop i).take (64 - left.length)).length = 64 := by
      rw [List.length_append, List.length_take]
      omega
    refine ⟨⟨transform state buffer', count, buffer'⟩, 0, i + (64 - left.length), ?_, by omega, by omega, rfl,
      (compress (wordsAt state) (left ++ (data.drop i).take (64 - left.length)), []), ⟨?_, rfl, ?_⟩, ?_⟩
    · simp only [turn, hspace, if_neg hcopy, Option.bind_eq_bind, Option.pure_def]
      rw [hslice, Option.bind_some, hidx, hwrite, Option.bind_some, if_pos hidx']
    · rw [transform_eq, hfull hge]
    · exact ⟨Nat.zero_lt_succ 63, rfl⟩
    · rw [← List.drop_drop, ← absorb_fill _ hblock, List.take_append_drop]

theorem updateLoop_eq {fuel i : Nat} {data : List (BitVec 8)} {ctx : Ctx} {idx : Word} {s : Words × List (BitVec 8)}
    (h : Holds ctx idx s) (hfuel : data.length ≤ i + fuel) : ∃ ctx' idx', updateLoop data fuel ctx idx i = some ctx' ∧
      Holds ctx' idx' (absorb compress 64 s.1 (s.2 ++ data.drop i)) ∧ ctx'.count = ctx.count := by
  have hdone : ∀ {ctx idx i s}, Holds ctx idx s → data.length ≤ i →
      Holds ctx idx (absorb compress 64 s.1 (s.2 ++ data.drop i)) := fun {ctx idx i s} h hle => by
    rwa [List.drop_eq_nil_of_le hle, List.append_nil, absorb_of_lt h.front.room]
  induction fuel generalizing ctx idx i s with
  | zero => exact ⟨ctx, idx, if_neg (Nat.not_lt.mpr hfuel), hdone h hfuel, rfl⟩
  | succ fuel ih =>
    rcases Nat.lt_or_ge i data.length with hi | hi
    · obtain ⟨ctx₁, idx₁, i₁, hturn, hless, -, hcount, s₁, h₁, habsorb⟩ := turn_eq h hi
      have hfuel₁ : data.length ≤ i₁ + fuel := by omega
      obtain ⟨ctx', idx', hloop, h', hcount'⟩ := ih h₁ hfuel₁
      refine ⟨ctx', idx', ?_, habsorb ▸ h', hcount'.trans hcount⟩
      simp only [updateLoop, if_pos hi, hturn, Option.bind_eq_bind, Option.bind_some, hloop]
    · exact ⟨ctx, idx, if_neg (Nat.not_lt.mpr hi), hdone h hi, rfl⟩

/-- The two words of `count` as one. -/
def total (count : Vector Word 2) : BitVec 64 := count[1] ++ count[0]

theorem toNat_total (count : Vector Word 2) : (total count).toNat = count[1].toNat * 2 ^ 32 + count[0].toNat :=
  toNat_append _ _

/-- The carry and the high part of the length. -/
theorem total_addCount (count : Vector Word 2) (len : BitVec 64) :
    total (addCount count len) = total count + len <<< 3 := by
  have hbits : (len <<< 3).toNat = len.toNat * 8 % 2 ^ 64 := by
    rw [BitVec.toNat_shiftLeft, Nat.shiftLeft_eq]
  have hpart : ((len <<< 3).setWidth 32).toNat = len.toNat * 8 % 2 ^ 32 := by
    rw [BitVec.toNat_setWidth, hbits]
    omega
  have hrest : ((len >>> 29).setWidth 32).toNat = len.toNat / 2 ^ 29 % 2 ^ 32 := by
    rw [BitVec.toNat_setWidth, BitVec.toNat_ushiftRight, Nat.shiftRight_eq_div_pow]
  have hlow : ((addCount count len)[0]).toNat = (count[0].toNat + len.toNat * 8 % 2 ^ 32) % 2 ^ 32 := by
    change (count[0] + (len <<< 3).setWidth 32).toNat = _
    rw [BitVec.toNat_add, hpart]
  have hhigh : ((addCount count len)[1]).toNat = (count[1].toNat +
      (if (count[0].toNat + len.toNat * 8 % 2 ^ 32) % 2 ^ 32 < len.toNat * 8 % 2 ^ 32 then 1 else 0) +
        len.toNat / 2 ^ 29) % 2 ^ 32 := by
    change ((if count[0] + (len <<< 3).setWidth 32 < (len <<< 3).setWidth 32 then count[1] + 1 else count[1]) +
      (len >>> 29).setWidth 32).toNat = _
    simp only [BitVec.lt_def, BitVec.toNat_add, hpart, hrest]
    split
    · rw [BitVec.toNat_add]
      change (((count[1].toNat + 1) % 2 ^ 32) + _) % 2 ^ 32 = _
      omega
    · omega
  have hlt := count[0].isLt
  refine BitVec.eq_of_toNat_eq ?_
  rw [BitVec.toNat_add, toNat_total, toNat_total, hbits, hlow, hhigh]
  split <;> omega

/-- The context after the bytes `m`. -/
structure Represents (ctx : Ctx) (m : List (BitVec 8)) : Prop where
  state : wordsAt ctx.state = (absorb compress 64 initial m).1
  front : Front ctx.buffer (absorb compress 64 initial m).2
  count : total ctx.count = BitVec.ofNat 64 (8 * m.length)

/-- The count gives the position in the buffer, whether it has wrapped or not. -/
theorem Represents.idx_eq {ctx : Ctx} {m : List (BitVec 8)} (h : Represents ctx m) :
    ctx.idx.toNat = (absorb compress 64 initial m).2.length := by
  have hlow : ctx.count[0].toNat = 8 * m.length % 2 ^ 32 := by
    have htotal := congrArg BitVec.toNat h.count
    rw [toNat_total, BitVec.toNat_ofNat] at htotal
    omega
  have hmask : ∀ x : Nat, x &&& 63 = x % 64 := fun x => Nat.and_two_pow_sub_one_eq_mod x 6
  rw [length_left, Ctx.idx, BitVec.toNat_and, BitVec.toNat_ushiftRight, hlow, Nat.shiftRight_eq_div_pow]
  change _ &&& 63 = _
  rw [hmask]
  omega

theorem init_represents : Represents init [] := by
  have hempty : absorb compress 64 initial [] = (initial, []) := absorb_of_lt (by decide)
  refine ⟨?_, ?_, rfl⟩
  · rw [hempty]
    rfl
  · rw [hempty]
    exact ⟨by decide, rfl⟩

theorem update_represents {ctx : Ctx} {m : List (BitVec 8)} (h : Represents ctx m) (data : List (BitVec 8)) :
    ∃ ctx', update ctx data = some ctx' ∧ Represents ctx' (m ++ data) := by
  have hstart : Holds { ctx with count := addCount ctx.count (BitVec.ofNat 64 data.length) } ctx.idx
      (absorb compress 64 initial m) := ⟨h.state, h.idx_eq, h.front⟩
  obtain ⟨ctx', idx', hloop, h', hcount⟩ := updateLoop_eq hstart (Nat.le_add_left data.length 0)
  rw [List.drop_zero, ← absorb_append] at h'
  refine ⟨ctx', hloop, h'.state, h'.front, ?_⟩
  have hbits : BitVec.ofNat 64 data.length <<< 3 = BitVec.ofNat 64 (8 * data.length) := by
    rw [BitVec.shiftLeft_eq_mul_twoPow, Nat.mul_comm]
    exact (BitVec.ofNat_mul data.length 8).symm
  rw [hcount, total_addCount, h.count, hbits, List.length_append, Nat.mul_add, BitVec.ofNat_add]

/-! ### The digest -/

theorem digest_eq (state : Vector Word 4) :
    (state.toList.flatMap fun s => [byteAt s 0, byteAt s 8, byteAt s 16, byteAt s 24]) = (wordsAt state).digest := by
  have hbytes : ∀ s : Word, [byteAt s 0, byteAt s 8, byteAt s 16, byteAt s 24] = littleEndian 4 s := fun s => by
    simp only [byteAt_eq]
    rfl
  have hlist : state.toList = [state[0], state[1], state[2], state[3]] := by
    refine List.ext_getElem (by simp) fun i hi hi' => ?_
    rw [Vector.length_toList] at hi
    rw [Vector.getElem_toList]
    rcases i with _ | _ | _ | _ | i <;> first | rfl | omega
  simp only [hbytes]
  rw [hlist]
  rfl

theorem padlen_eq {idx : Word} {len : Nat} (hidx : idx.toNat = len % 64) :
    (padlen idx).toNat = 1 + Rfc1321.zeros len := by
  have hlt : len % 64 < 64 := Nat.mod_lt _ (by decide)
  have hcond : idx < 56 ↔ len % 64 < 56 := by
    rw [BitVec.lt_def, hidx]
    rfl
  simp only [padlen, hcond, Rfc1321.zeros]
  split <;> rw [BitVec.toNat_sub, hidx]
  · change (2 ^ 32 - len % 64 + 56) % 2 ^ 32 = _
    omega
  · change (2 ^ 32 - len % 64 + 120) % 2 ^ 32 = _
    omega

/-- What is read of `pad` has been written: the byte 0x80 and the zeros. -/
theorem fillPad_eq {length : Word} {zeros : Nat} (hlength : length.toNat = 1 + zeros) (hzeros : zeros < 64)
    (pad : Vector (BitVec 8) 64) : ∃ pad', fillPad pad length = some pad' ∧
      read pad' length.toNat = some ([0x80] ++ List.replicate zeros 0) := by
  have hroom₁ : 0 + [(0x80 : BitVec 8)].length ≤ 64 := by decide
  obtain ⟨pad₁, hwrite₁, hfront₁⟩ := write_after (List.take_zero : pad.toList.take 0 = []) hroom₁
  rw [List.nil_append, List.length_singleton, Nat.zero_add] at hfront₁
  have hgt : length > 1 ↔ 1 < 1 + zeros := by
    rw [← hlength]
    exact Iff.rfl
  rw [fillPad, hwrite₁, hlength, Option.bind_eq_bind, Option.bind_some]
  rcases Nat.eq_zero_or_pos zeros with rfl | hsome
  · refine ⟨pad₁, if_neg (mt hgt.mp (by decide)), ?_⟩
    rw [read_eq (by decide), hfront₁]
    rfl
  · have hroom₂ : 1 + (List.replicate zeros (0 : BitVec 8)).length ≤ 64 := by
      rw [List.length_replicate]
      omega
    obtain ⟨pad₂, hwrite₂, hfront₂⟩ := write_after hfront₁ hroom₂
    rw [List.length_replicate] at hfront₂
    refine ⟨pad₂, ?_, ?_⟩
    · rw [if_pos (hgt.mpr (Nat.lt_add_of_pos_right hsome)), Nat.add_sub_cancel_left, hwrite₂]
    · rw [read_eq (by omega), hfront₂]

/-- The two updates of `final` complete the padded message. -/
theorem final_pads {ctx : Ctx} {m : List (BitVec 8)} (h : Represents ctx m) (pad : Vector (BitVec 8) 64) :
    ∃ ctx', final ctx pad = some (ctx', Rfc1321.md5 m) ∧ Represents ctx' (Rfc1321.pad m) := by
  have hidx : ctx.idx.toNat = m.length % 64 := by rw [h.idx_eq, length_left]
  obtain ⟨pad', hpad, hread⟩ := fillPad_eq (padlen_eq hidx) (Nat.mod_lt _ (by decide)) pad
  obtain ⟨ctx₁, hupdate₁, h₁⟩ := update_represents h ([0x80] ++ List.replicate (Rfc1321.zeros m.length) 0)
  obtain ⟨ctx₂, hupdate₂, h₂⟩ := update_represents h₁ (littleEndian 8 (total ctx.count))
  have hbytes : littleEndian 8 (total ctx.count) = _ := littleEndian_append ctx.count[1] ctx.count[0]
  have hmessage : m ++ ([0x80] ++ List.replicate (Rfc1321.zeros m.length) 0) ++ littleEndian 8 (total ctx.count) =
      Rfc1321.pad m := by
    rw [h.count, ← List.append_assoc]
    rfl
  rw [hmessage] at h₂
  refine ⟨ctx₂, ?_, h₂⟩
  rw [hbytes] at hupdate₂
  simp only [final, Option.bind_eq_bind]
  rw [hpad, Option.bind_some, hread, Option.bind_some, hupdate₁, Option.bind_some, hupdate₂, Option.bind_some,
    digest_eq, h₂.state]
  rfl

theorem final_represents {ctx : Ctx} {m : List (BitVec 8)} (h : Represents ctx m) (pad : Vector (BitVec 8) 64) :
    ∃ ctx', final ctx pad = some (ctx', Rfc1321.md5 m) := by
  obtain ⟨ctx', hfinal, -⟩ := final_pads h pad
  exact ⟨ctx', hfinal⟩

/-! ### Chunks -/

theorem compute_eq (m : List (BitVec 8)) (pad : Vector (BitVec 8) 64) : compute m pad = some (Rfc1321.md5 m) := by
  obtain ⟨ctx, hupdate, h⟩ := update_represents init_represents m
  obtain ⟨ctx', hfinal⟩ := final_represents h pad
  simp only [compute, hupdate, hfinal, List.nil_append, Option.bind_eq_bind, Option.bind_some, Option.pure_def]

/-- `ember_crypto_md5_init`, an update a chunk, `ember_crypto_md5_final`. -/
def digestOf (chunks : List (List (BitVec 8))) (pad : Vector (BitVec 8) 64) : Option (List (BitVec 8)) := do
  let ctx ← chunks.foldlM update init
  let (_, digest) ← final ctx pad
  pure digest

/-- After any chunks the words of `count` are the length in bits, and the digest is MD5 of the bytes. -/
theorem md5_digestOf (chunks : List (List (BitVec 8))) (pad pad' : Vector (BitVec 8) 64) :
    (∃ ctx, chunks.foldlM update init = some ctx ∧
      ctx.count[1] ++ ctx.count[0] = BitVec.ofNat 64 (8 * chunks.flatten.length)) ∧
    digestOf chunks pad = some (Rfc1321.md5 chunks.flatten) ∧
    digestOf chunks pad = compute chunks.flatten pad' := by
  obtain ⟨ctx, hchunks, h⟩ := foldlM_flatten update_represents init_represents chunks
  obtain ⟨ctx', hfinal⟩ := final_represents h pad
  have hdigest : digestOf chunks pad = some (Rfc1321.md5 chunks.flatten) := by
    simp only [digestOf, hchunks, hfinal, List.nil_append, Option.bind_eq_bind, Option.bind_some, Option.pure_def]
  exact ⟨⟨ctx, hchunks, h.count⟩, hdigest, by rw [hdigest, compute_eq]⟩

end Md5
end Crypto
end Emberlite
