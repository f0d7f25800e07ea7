import Emberlite.Crypto.Blocks

/-! `components/crypto/src/sha256.c`. Arrays of the source are vectors; an access outside of one has no result
    (`none`), and neither has a loop that takes more turns than there are bytes. The context holds what the blocks
    read so far come to and the bytes after them, and `final` pads as the standard does. -/

namespace Emberlite
namespace Crypto
namespace Sha256
open FixedBuffer ByteOrder BlockStream
open Fips180 (Hash compress initialHash)

/-- `ember_crypto_sha256_ctx`. -/
structure Ctx where
  state : Vector Word 8
  bitCount : BitVec 64
  buffer : Vector (BitVec 8) 64
  bufferLen : Nat

/-- `ember_crypto_sha256_init`. -/
def init : Ctx where
  state := #v[0x6a09e667, 0xbb67ae85, 0x3c6ef372, 0xa54ff53a, 0x510e527f, 0x9b05688c, 0x1f83d9ab, 0x5be0cd19]
  bitCount := 0
  buffer := Vector.replicate 64 0
  bufferLen := 0

/-- One turn of the loop of `ember_crypto_sha256_update`: the context after it, and what it has left of `p`. -/
def turn (ctx : Ctx) (p : List (BitVec 8)) : Option (Ctx × List (BitVec 8)) := do
  -- `size_t` arithmetic.
  let space := (64 + 2 ^ 64 - ctx.bufferLen) % 2 ^ 64
  let copy := if p.length < space then p.length else space
  let buffer ← write ctx.buffer ctx.bufferLen (p.take copy)
  let bufferLen := ctx.bufferLen + copy
  if bufferLen = 64 then
    pure ({ ctx with state := transform ctx.state buffer, buffer, bufferLen := 0 }, p.drop copy)
  else pure ({ ctx with buffer, bufferLen }, p.drop copy)

/-- The loop of `ember_crypto_sha256_update`, for at most `fuel` turns. -/
def updateLoop : (fuel : Nat) → Ctx → (p : List (BitVec 8)) → Option Ctx
  | _, ctx, [] => some ctx
  | 0, _, _ :: _ => none
  | fuel + 1, ctx, b :: p => do
    let (ctx, p) ← turn ctx (b :: p)
    updateLoop fuel ctx p

/-- `ember_crypto_sha256_update`. -/
def update (ctx : Ctx) (data : List (BitVec 8)) : Option Ctx :=
  updateLoop data.length { ctx with bitCount := ctx.bitCount + BitVec.ofNat 64 data.length * 8 } data

/-- `ember_crypto_sha256_final`: the context after it and the digest. `block` is the local array, not
    initialised. -/
def final (ctx : Ctx) (block : Vector (BitVec 8) 64) : Option (Ctx × List (BitVec 8)) := do
  let totalBits := ctx.bitCount
  let pending ← read ctx.buffer ctx.bufferLen
  let block ← write block 0 pending
  let block ← write block ctx.bufferLen [0x80]
  let idx := ctx.bufferLen + 1
  let (state, block) ←
    if idx ≤ 56 then do
      let block ← write block idx (List.replicate (56 - idx) 0)
      pure (ctx.state, block)
    else do
      let block ← write block idx (List.replicate (64 - idx) 0)
      let state := transform ctx.state block
      let block ← write block 0 (List.replicate 56 0)
      pure (state, block)
  let block ← write block 56 [byteAt totalBits 56, byteAt totalBits 48, byteAt totalBits 40, byteAt totalBits 32,
    byteAt totalBits 24, byteAt totalBits 16, byteAt totalBits 8, byteAt totalBits 0]
  let state := transform state block
  let digest := state.toList.flatMap fun s => [byteAt s 24, byteAt s 16, byteAt s 8, byteAt s 0]
  pure ({ ctx with state }, digest)

/-- `ember_crypto_sha256_compute`. -/
def compute (data : List (BitVec 8)) (block : Vector (BitVec 8) 64) : Option (List (BitVec 8)) := do
  let ctx ← update init data
  let (_, digest) ← final ctx block
  pure digest

/-! ### Any number of bytes -/

/-- The context holds a hash value and the bytes that wait for their block. -/
structure Holds (ctx : Ctx) (s : Hash × List (BitVec 8)) : Prop where
  state : hashOf ctx.state = s.1
  len : ctx.bufferLen = s.2.length
  front : Front ctx.buffer s.2

theorem turn_eq {ctx : Ctx} {s : Hash × List (BitVec 8)} {p : List (BitVec 8)} (h : Holds ctx s) (hp : p ≠ []) :
    ∃ ctx' rest, turn ctx p = some (ctx', rest) ∧ rest.length < p.length ∧ ctx'.bitCount = ctx.bitCount ∧
      ∃ s', Holds ctx' s' ∧ absorb compress 64 s'.1 (s'.2 ++ rest) = absorb compress 64 s.1 (s.2 ++ p) := by
  obtain ⟨state, bits, buffer, bufferLen⟩ := ctx
  obtain ⟨hash, left⟩ := s
  obtain ⟨hstate, hlen, hfront⟩ := h
  dsimp only at hstate hlen hfront
  subst hstate hlen
  have hpos : 0 < p.length := List.length_pos_iff.mpr hp
  have hroom := hfront.room
  obtain ⟨buffer', hwrite, hshort, hfull⟩ := hfront.fill p
  have hspace : (64 + 2 ^ 64 - left.length) % 2 ^ 64 = 64 - left.length := by omega
  rcases Nat.lt_or_ge (left.length + p.length) 64 with hlt | hge
  · have hcopy : p.length < 64 - left.length := by omega
    have hne : left.length + p.length ≠ 64 := Nat.ne_of_lt hlt
    rw [List.take_of_length_le (Nat.le_of_lt hcopy)] at hwrite
    refine ⟨⟨state, bits, buffer', left.length + p.length⟩, [], ?_, hpos, rfl, (hashOf state, left ++ p), ?_, ?_⟩
    · simp only [turn, hspace, if_pos hcopy, Option.bind_eq_bind, Option.pure_def]
      rw [List.take_length, hwrite, Option.bind_some, if_neg hne, List.drop_length]
    · exact ⟨rfl, List.length_append.symm, hshort hlt⟩
    · rw [List.append_nil]
  · have hcopy : ¬p.length < 64 - left.length := by omega
    have hsum : left.length + (64 - left.length) = 64 := Nat.add_sub_cancel' (Nat.le_of_lt hroom)
    have hblock : (left ++ p.take (64 - left.length)).length = 64 := by
      rw [List.length_append, List.length_take]
      omega
    refine ⟨⟨transform state buffer', bits, buffer', 0⟩, p.drop (64 - left.length), ?_, ?_, rfl,
      (compress (hashOf state) (left ++ p.take (64 - left.length)), []), ?_, ?_⟩
    · simp only [turn, hspace, if_neg hcopy, Option.bind_eq_bind, Option.pure_def]
      rw [hwrite, Option.bind_some, if_pos hsum]
    · rw [List.length_drop]
      omega
    · exact ⟨by rw [transform_eq, hfull hge], rfl, Nat.zero_lt_succ 63, rfl⟩
    · rw [← absorb_fill _ hblock, List.take_append_drop]

theorem updateLoop_eq {fuel : Nat} {ctx : Ctx} {s : Hash × List (BitVec 8)} {p : List (BitVec 8)} (h : Holds ctx s)
    (hfuel : p.length ≤ fuel) : ∃ ctx', updateLoop fuel ctx p = some ctx' ∧
      Holds ctx' (absorb compress 64 s.1 (s.2 ++ p)) ∧ ctx'.bitCount = ctx.bitCount := by
  have hdone : ∀ {ctx s}, Holds ctx s → Holds ctx (absorb compress 64 s.1 (s.2 ++ [])) := fun {ctx s} h => by
    rwa [List.append_nil, absorb_of_lt h.front.room]
  induction fuel generalizing ctx s p with
  | zero =>
    obtain rfl := List.length_eq_zero_iff.mp (Nat.le_zero.mp hfuel)
    exact ⟨ctx, rfl, hdone h, rfl⟩
  | succ fuel ih =>
    rcases p with _ | ⟨b, p⟩
    · exact ⟨ctx, rfl, hdone h, rfl⟩
    · obtain ⟨ctx₁, rest, hturn, hless, hcount, s₁, h₁, habsorb⟩ := turn_eq h (List.cons_ne_nil b p)
      have hrest : rest.length ≤ fuel := by omega
      obtain ⟨ctx', hloop, h', hcount'⟩ := ih h₁ hrest
      refine ⟨ctx', ?_, habsorb ▸ h', hcount'.trans hcount⟩
      simp [updateLoop, hturn, hloop]

/-- The context after the bytes `m`. -/
structure Represents (ctx : Ctx) (m : List (BitVec 8)) : Prop where
  holds : Holds ctx (absorb compress 64 initialHash m)
  count : ctx.bitCount = BitVec.ofNat 64 (8 * m.length)

theorem init_represents : Represents init [] := by
  have hstate : hashOf init.state = initialHash := by decide +kernel
  rw [← List.nil_append []]
  refine ⟨?_, rfl⟩
  rw [List.nil_append, absorb_of_lt (by decide)]
  exact ⟨hstate, rfl, by decide, rfl⟩

theorem update_represents {ctx : Ctx} {m : List (BitVec 8)} (h : Represents ctx m) (data : List (BitVec 8)) :
    ∃ ctx', update ctx data = some ctx' ∧ Represents ctx' (m ++ data) := by
  obtain ⟨⟨hstate, hlen, hfront⟩, hcount⟩ := h
  have hstart : Holds { ctx with bitCount := ctx.bitCount + BitVec.ofNat 64 data.length * 8 }
      (absorb compress 64 initialHash m) := ⟨hstate, hlen, hfront⟩
  obtain ⟨ctx', hloop, h', hcount'⟩ := updateLoop_eq hstart (Nat.le_refl data.length)
  refine ⟨ctx', hloop, by rwa [absorb_append], hcount'.trans ?_⟩
  change ctx.bitCount + BitVec.ofNat 64 data.length * 8 = _
  have hbits : BitVec.ofNat 64 (8 * data.length) = BitVec.ofNat 64 data.length * 8 := by
    rw [Nat.mul_comm]
    exact BitVec.ofNat_mul data.length 8
  rw [hcount, List.length_append, Nat.mul_add, BitVec.ofNat_add, hbits]

/-! ### The digest -/

theorem digest_eq (state : Vector Word 8) :
    (state.toList.flatMap fun s => [byteAt s 24, byteAt s 16, byteAt s 8, byteAt s 0]) = (hashOf state).digest := by
  have hbytes : ∀ s : Word, [byteAt s 24, byteAt s 16, byteAt s 8, byteAt s 0] = bigEndian 4 s := fun s => by
    simp only [byteAt_eq]
    rfl
  have hlist : state.toList = [state[0], state[1], state[2], state[3], state[4], state[5], state[6], state[7]] := by
    refine List.ext_getElem (by simp) fun i hi hi' => ?_
    rw [Vector.length_toList] at hi
    rw [Vector.getElem_toList]
    rcases i with _ | _ | _ | _ | _ | _ | _ | _ | i <;> first | rfl | omega
  simp only [hbytes]
  rw [hlist]
  rfl

/-- The last block of `final`: what is before the length, and the length. -/
theorem finish_eq (state : Vector Word 8) (bits : BitVec 64) {block : Vector (BitVec 8) 64} {front : List (BitVec 8)}
    (hfront : block.toList.take 56 = front) : ∃ block',
      write block 56 [byteAt bits 56, byteAt bits 48, byteAt bits 40, byteAt bits 32, byteAt bits 24, byteAt bits 16,
        byteAt bits 8, byteAt bits 0] = some block' ∧
      hashOf (transform state block') = compress (hashOf state) (front ++ bigEndian 8 bits) := by
  have hbytes : [byteAt bits 56, byteAt bits 48, byteAt bits 40, byteAt bits 32, byteAt bits 24, byteAt bits 16,
      byteAt bits 8, byteAt bits 0] = bigEndian 8 bits := by
    simp only [byteAt_eq]
    rfl
  have hfit : 56 + (bigEndian 8 bits).length ≤ 64 := by rw [length_bigEndian]
  obtain ⟨block', hwrite, hlist⟩ := write_after hfront hfit
  rw [length_bigEndian, toList_take_self] at hlist
  exact ⟨block', by rw [hbytes, hwrite], by rw [transform_eq, hlist]⟩

/-- The two paths of `final`: the length goes into the block of the waiting bytes, or into one more. -/
theorem final_eq {ctx : Ctx} {hash : Hash} {left : List (BitVec 8)} (h : Holds ctx (hash, left))
    (block : Vector (BitVec 8) 64) : ∃ ctx', final ctx block = some (ctx', (absorb compress 64 hash
      (left ++ [0x80] ++ List.replicate ((119 - left.length) % 64) 0 ++ bigEndian 8 ctx.bitCount)).1.digest) := by
  obtain ⟨state, bits, buffer, bufferLen⟩ := ctx
  obtain ⟨hstate, hlen, hroom, hbuffer⟩ := h
  dsimp only at hstate hlen hroom hbuffer
  subst hstate hlen
  have hread : read buffer left.length = some left := by rw [read_eq (Nat.le_of_lt hroom), hbuffer]
  have hroom₁ : 0 + left.length ≤ 64 := by omega
  obtain ⟨block₁, hwrite₁, hfront₁⟩ := write_after (List.take_zero : block.toList.take 0 = []) hroom₁
  rw [Nat.zero_add, List.nil_append] at hfront₁
  have hroom₂ : left.length + [(0x80 : BitVec 8)].length ≤ 64 := hroom
  obtain ⟨block₂, hwrite₂, hfront₂⟩ := write_after hfront₁ hroom₂
  rw [List.length_singleton] at hfront₂
  rcases Nat.lt_or_ge left.length 56 with hle | hgt
  · have hzeros : (119 - left.length) % 64 = 56 - (left.length + 1) := by omega
    have hroom₃ : left.length + 1 + (List.replicate (56 - (left.length + 1)) (0 : BitVec 8)).length ≤ 64 := by
      rw [List.length_replicate]
      omega
    obtain ⟨block₃, hwrite₃, hfront₃⟩ := write_after hfront₂ hroom₃
    rw [List.length_replicate, Nat.add_sub_cancel' hle] at hfront₃
    obtain ⟨block₄, hwrite₄, hhash⟩ := finish_eq state bits hfront₃
    have hlength : (left ++ [0x80] ++ List.replicate (56 - (left.length + 1)) 0 ++ bigEndian 8 bits).length = 64 := by
      simp only [List.length_append, List.length_singleton, List.length_replicate, length_bigEndian]
      omega
    refine ⟨⟨transform state block₄, bits, buffer, left.length⟩, ?_⟩
    rw [hzeros, absorb_full hlength, ← hhash, ← digest_eq]
    simp only [final, Option.bind_eq_bind, Option.pure_def]
    rw [hread, Option.bind_some, hwrite₁, Option.bind_some, hwrite₂, Option.bind_some, if_pos (Nat.succ_le_of_lt hle),
      hwrite₃, Option.bind_some, Option.bind_some, hwrite₄, Option.bind_some]
  · have hzeros : (119 - left.length) % 64 = (64 - (left.length + 1)) + 56 := by omega
    have hroom₃ : left.length + 1 + (List.replicate (64 - (left.length + 1)) (0 : BitVec 8)).length ≤ 64 := by
      rw [List.length_replicate]
      omega
    obtain ⟨block₃, hwrite₃, hfront₃⟩ := write_after hfront₂ hroom₃
    rw [List.length_replicate, Nat.add_sub_cancel' hroom, toList_take_self] at hfront₃
    have hroom₄ : 0 + (List.replicate 56 (0 : BitVec 8)).length ≤ 64 := by decide
    obtain ⟨block₄, hwrite₄, hfront₄⟩ := write_after (List.take_zero : block₃.toList.take 0 = []) hroom₄
    rw [List.length_replicate, Nat.zero_add, List.nil_append] at hfront₄
    obtain ⟨block₅, hwrite₅, hhash⟩ := finish_eq (transform state block₃) bits hfront₄
    have hfirst : (left ++ [0x80] ++ List.replicate (64 - (left.length + 1)) 0).length = 64 := by
      simp only [List.length_append, List.length_singleton, List.length_replicate]
      omega
    have hsecond : (List.replicate 56 0 ++ bigEndian 8 bits).length = 64 := by
      rw [List.length_append, List.length_replicate, length_bigEndian]
    refine ⟨⟨transform (transform state block₃) block₅, bits, buffer, left.length⟩, ?_⟩
    rw [hzeros, ← List.replicate_append_replicate, ← List.append_assoc, List.append_assoc _ (List.replicate 56 0),
      absorb_block hfirst, absorb_full hsecond, ← hfront₃, ← transform_eq, ← hhash, ← digest_eq]
    simp only [final, Option.bind_eq_bind, Option.pure_def]
    rw [hread, Option.bind_some, hwrite₁, Option.bind_some, hwrite₂, Option.bind_some,
      if_neg (Nat.not_le_of_gt (Nat.lt_succ_of_le hgt)), hwrite₃, Option.bind_some, hwrite₄, Option.bind_some,
      Option.bind_some, hwrite₅, Option.bind_some]

theorem final_represents {ctx : Ctx} {m : List (BitVec 8)} (h : Represents ctx m) (block : Vector (BitVec 8) 64) :
    ∃ ctx', final ctx block = some (ctx', Fips180.sha256 m) := by
  obtain ⟨hholds, hcount⟩ := h
  have hleft : (absorb compress 64 initialHash m).2.length = m.length % 64 := length_left _ _
  obtain ⟨ctx', hfinal⟩ := final_eq hholds block
  refine ⟨ctx', ?_⟩
  rw [hfinal, hleft, hcount, Fips180.sha256, Fips180.pad, Fips180.zeros]
  simp only [List.append_assoc]
  rw [← absorb_append]

/-! ### Chunks -/

theorem compute_eq (m : List (BitVec 8)) (block : Vector (BitVec 8) 64) :
    compute m block = some (Fips180.sha256 m) := by
  obtain ⟨ctx, hupdate, h⟩ := update_represents init_represents m
  obtain ⟨ctx', hfinal⟩ := final_represents h block
  simp only [compute, hupdate, hfinal, List.nil_append, Option.bind_eq_bind, Option.bind_some, Option.pure_def]

/-- `ember_crypto_sha256_init`, an update a chunk, `ember_crypto_sha256_final`. -/
def digestOf (chunks : List (List (BitVec 8))) (block : Vector (BitVec 8) 64) : Option (List (BitVec 8)) := do
  let ctx ← chunks.foldlM update init
  let (_, digest) ← final ctx block
  pure digest

/-- The digest is SHA-256 of the bytes, however they are cut and whatever the local array of `final` held. -/
theorem sha256_digestOf (chunks : List (List (BitVec 8))) (block block' : Vector (BitVec 8) 64) :
    digestOf chunks block = some (Fips180.sha256 chunks.flatten) ∧
      digestOf chunks block = compute chunks.flatten block' := by
  obtain ⟨ctx, hchunks, h⟩ := foldlM_flatten update_represents init_represents chunks
  obtain ⟨ctx', hfinal⟩ := final_represents h block
  have hdigest : digestOf chunks block = some (Fips180.sha256 chunks.flatten) := by
    simp only [digestOf, hchunks, hfinal, List.nil_append, Option.bind_eq_bind, Option.bind_some, Option.pure_def]
  exact ⟨hdigest, by rw [hdigest, compute_eq]⟩

end Sha256
end Crypto
end Emberlite
