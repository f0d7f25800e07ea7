import Emberlite.Crypto.Md5
import Emberlite.Crypto.Sha256

/-! The indexes and lengths of `components/crypto/src/md5.c` and `components/crypto/src/sha256.c`: each turn of a loop
    that takes bytes in, from whatever context, and the padding. -/

namespace Emberlite
namespace Crypto
open BlockStream

/-- The bytes that wait for their block. -/
def pending (m : List (BitVec 8)) : List (BitVec 8) := m.drop (m.length / 64 * 64)

/-! ### MD5 -/

namespace Md5
open FixedBuffer ByteOrder

/-- `copy`, as a turn of the loop computes it. -/
def copyLen (data : List (BitVec 8)) (idx : Word) (i : Nat) : Nat :=
  if (64 - idx).toNat > data.length - i then data.length - i else (64 - idx).toNat

/-- The heads of the loop of `ember_crypto_md5_update`, with the number of turns before. -/
inductive Head (ctx : Ctx) (data : List (BitVec 8)) : (n : Nat) → Ctx → (idx : Word) → (i : Nat) → Prop
  | start : Head ctx data 0 { ctx with count := addCount ctx.count (BitVec.ofNat 64 data.length) } ctx.idx 0
  | turn {n : Nat} {ctx₁ ctx₂ : Ctx} {idx₁ idx₂ : Word} {i₁ i₂ : Nat} (h : Head ctx data n ctx₁ idx₁ i₁)
      (hlt : i₁ < data.length) (hturn : turn data ctx₁ idx₁ i₁ = some (ctx₂, idx₂, i₂)) :
      Head ctx data (n + 1) ctx₂ idx₂ i₂

/-- The turn that follows takes at least one byte, and stays inside of the buffer and of the data. -/
structure InBounds (data : List (BitVec 8)) (ctx : Ctx) (idx : Word) (i : Nat) : Prop where
  idx_lt : idx.toNat < 64
  i_le : i ≤ data.length
  copies : i < data.length → 1 ≤ copyLen data idx i ∧ idx.toNat + copyLen data idx i ≤ 64 ∧
    i + copyLen data idx i ≤ data.length ∧ ∃ ctx' idx', turn data ctx idx i = some (ctx', idx', i + copyLen data idx i)

/-- Every turn of the loop stays inside of the buffer and of the data, and the loop ends. -/
structure UpdateSafe (ctx : Ctx) (data : List (BitVec 8)) : Prop where
  heads : ∀ n ctx' idx i, Head ctx data n ctx' idx i → InBounds data ctx' idx i ∧ n ≤ i
  ends : ∃ n ctx' idx, Head ctx data n ctx' idx data.length ∧ update ctx data = some ctx'

/-- The padding is 1 to 64 bytes of its array, and the length behind it fills the last block. -/
structure FinalSafe (ctx : Ctx) : Prop where
  padlen_pos : 1 ≤ (padlen ctx.idx).toNat
  padlen_le : (padlen ctx.idx).toNat ≤ 64
  boundary : ∀ pad, ∃ ctx' digest, final ctx pad = some (ctx', digest) ∧ ctx'.idx = 0

/-- A context after the bytes `m`. -/
structure Safe (ctx : Ctx) (m : List (BitVec 8)) : Prop where
  idx : ctx.idx.toNat = (pending m).length
  buffer : ctx.buffer.toList.take ctx.idx.toNat = pending m
  update : ∀ data, UpdateSafe ctx data
  final : FinalSafe ctx

section Update
variable {data m : List (BitVec 8)} {ctx ctx' : Ctx} {idx idx' : Word} {i i' n fuel : Nat}
  {s : Rfc1321.Words × List (BitVec 8)}

theorem turn_copies (h : turn data ctx idx i = some (ctx', idx', i')) : i' = i + copyLen data idx i := by
  rw [copyLen]
  rw [turn] at h
  dsimp only at h
  generalize (if (64 - idx).toNat > data.length - i then data.length - i else (64 - idx).toNat) = copy at h ⊢
  obtain ⟨piece, -, h⟩ := Option.bind_eq_some_iff.mp h
  obtain ⟨buffer, -, h⟩ := Option.bind_eq_some_iff.mp h
  split at h
  · cases h
    rfl
  · cases h
    rfl

theorem Holds.inBounds (h : Holds ctx idx s) (hle : i ≤ data.length) : InBounds data ctx idx i := by
  have hroom := h.idx_lt
  refine ⟨hroom, hle, fun hlt => ?_⟩
  obtain ⟨ctx', idx', i', hturn, -⟩ := turn_eq h hlt
  have hindex := turn_copies hturn
  subst hindex
  refine ⟨?_, ?_, ?_, ctx', idx', hturn⟩
  all_goals
    rw [copyLen, h.space_eq]
    split <;> omega

theorem holds_of_head (h : Represents ctx m) (hhead : Head ctx data n ctx' idx i) :
    (∃ s, Holds ctx' idx s) ∧ i ≤ data.length ∧ n ≤ i := by
  induction hhead with
  | start => exact ⟨⟨_, h.state, h.idx_eq, h.front⟩, Nat.zero_le _, Nat.le_refl 0⟩
  | turn hhead hlt hturn ih =>
    obtain ⟨⟨s, hs⟩, -, hn⟩ := ih
    obtain ⟨ctx₂, idx₂, i₂, hturn₂, hless, hle, -, s₂, hs₂, -⟩ := turn_eq hs hlt
    rw [hturn₂] at hturn
    cases hturn
    exact ⟨⟨s₂, hs₂⟩, hle, Nat.lt_of_le_of_lt hn hless⟩

/-- The loop goes on from head to head, until all of the data is taken. -/
theorem ends_of_head (h : Represents ctx m) (hhead : Head ctx data n ctx' idx i) (hfuel : data.length ≤ i + fuel) :
    ∃ n' ctx'' idx', Head ctx data n' ctx'' idx' data.length ∧ updateLoop data fuel ctx' idx i = some ctx'' := by
  induction fuel generalizing n ctx' idx i with
  | zero =>
    obtain ⟨-, hle, -⟩ := holds_of_head h hhead
    obtain rfl : i = data.length := Nat.le_antisymm hle hfuel
    exact ⟨n, ctx', idx, hhead, if_neg (lt_irrefl _)⟩
  | succ fuel ih =>
    obtain ⟨⟨s, hs⟩, hle, -⟩ := holds_of_head h hhead
    rcases Nat.lt_or_ge i data.length with hlt | hge
    · obtain ⟨ctx₁, idx₁, i₁, hturn, hless, -⟩ := turn_eq hs hlt
      have hfuel₁ : data.length ≤ i₁ + fuel := by omega
      obtain ⟨n', ctx'', idx', hend, hloop⟩ := ih (hhead.turn hlt hturn) hfuel₁
      refine ⟨n', ctx'', idx', hend, ?_⟩
      simp only [updateLoop, if_pos hlt, hturn, Option.bind_eq_bind, Option.bind_some, hloop]
    · obtain rfl : i = data.length := Nat.le_antisymm hle hge
      exact ⟨n, ctx', idx, hhead, if_neg (lt_irrefl _)⟩

theorem updateSafe (h : Represents ctx m) (data : List (BitVec 8)) : UpdateSafe ctx data where
  heads n ctx' idx i hhead := by
    obtain ⟨⟨s, hs⟩, hle, hn⟩ := holds_of_head h hhead
    exact ⟨hs.inBounds hle, hn⟩
  ends := ends_of_head h .start (Nat.le_add_left _ 0)

/-- A padded message is a number of full blocks. -/
theorem length_pad (m : List (BitVec 8)) : (Rfc1321.pad m).length % 64 = 0 := by
  simp only [Rfc1321.pad, Rfc1321.zeros, List.length_append, List.length_singleton, List.length_replicate,
    length_littleEndian]
  omega

theorem finalSafe (h : Represents ctx m) : FinalSafe ctx := by
  have hidx : ctx.idx.toNat = m.length % 64 := by rw [h.idx_eq, length_left]
  have hpadlen := padlen_eq hidx
  have hzeros : Rfc1321.zeros m.length < 64 := Nat.mod_lt _ (by decide)
  refine ⟨by omega, by omega, fun pad => ?_⟩
  obtain ⟨ctx', hfinal, h'⟩ := final_pads h pad
  refine ⟨ctx', _, hfinal, BitVec.eq_of_toNat_eq ?_⟩
  rw [h'.idx_eq, length_left, length_pad]
  rfl

theorem safe (h : Represents ctx m) : Safe ctx m where
  idx := by rw [h.idx_eq, left_eq, pending]
  buffer := by rw [h.idx_eq, h.front.front, left_eq, pending]
  update := updateSafe h
  final := finalSafe h

end Update

end Md5

/-! ### SHA-256 -/

namespace Sha256

/-- `space`, as a turn of the loop computes it in `size_t`. -/
def space (ctx : Ctx) : Nat := (64 + 2 ^ 64 - ctx.bufferLen) % 2 ^ 64

/-- How many bytes a turn copies: what is left of the data, or of the buffer. -/
def copyLen (ctx : Ctx) (p : List (BitVec 8)) : Nat := if p.length < space ctx then p.length else space ctx

/-- The heads of the loop of `ember_crypto_sha256_update`, with the number of turns before. -/
inductive Head (ctx : Ctx) (data : List (BitVec 8)) : (n : Nat) → Ctx → (p : List (BitVec 8)) → Prop
  | start : Head ctx data 0 { ctx with bitCount := ctx.bitCount + BitVec.ofNat 64 data.length * 8 } data
  | turn {n : Nat} {ctx₁ ctx₂ : Ctx} {p₁ p₂ : List (BitVec 8)} (h : Head ctx data n ctx₁ p₁) (hne : p₁ ≠ [])
      (hturn : turn ctx₁ p₁ = some (ctx₂, p₂)) : Head ctx data (n + 1) ctx₂ p₂

/-- The subtraction does not wrap, and the turn that follows takes at least one byte of those that are left. -/
structure InBounds (ctx : Ctx) (p : List (BitVec 8)) : Prop where
  len_lt : ctx.bufferLen < 64
  space_eq : space ctx = 64 - ctx.bufferLen
  copies : p ≠ [] → 1 ≤ copyLen ctx p ∧ ctx.bufferLen + copyLen ctx p ≤ 64 ∧ copyLen ctx p ≤ p.length ∧
    ∃ ctx', turn ctx p = some (ctx', p.drop (copyLen ctx p))

/-- Every turn of the loop stays inside of the buffer and of the data, and the loop ends. -/
structure UpdateSafe (ctx : Ctx) (data : List (BitVec 8)) : Prop where
  heads : ∀ n ctx' p, Head ctx data n ctx' p → InBounds ctx' p ∧ n + p.length ≤ data.length
  ends : ∃ n ctx', Head ctx data n ctx' [] ∧ update ctx data = some ctx'

/-- There is room for the byte 0x80, so that neither length of zeros wraps, and every access is inside of `block`. -/
structure FinalSafe (ctx : Ctx) : Prop where
  idx_le : ctx.bufferLen + 1 ≤ 64
  returns : ∀ block, ∃ ctx' digest, final ctx block = some (ctx', digest)

/-- A context after the bytes `m`. -/
structure Safe (ctx : Ctx) (m : List (BitVec 8)) : Prop where
  len_lt : ctx.bufferLen < 64
  len : ctx.bufferLen = (pending m).length
  buffer : ctx.buffer.toList.take ctx.bufferLen = pending m
  update : ∀ data, UpdateSafe ctx data
  final : FinalSafe ctx

section Update
variable {data m p rest : List (BitVec 8)} {ctx ctx' : Ctx} {n fuel : Nat} {s : Fips180.Hash × List (BitVec 8)}

theorem turn_copies (h : turn ctx p = some (ctx', rest)) : rest = p.drop (copyLen ctx p) := by
  have hturn : turn ctx p = (FixedBuffer.write ctx.buffer ctx.bufferLen (p.take (copyLen ctx p))).bind fun buffer =>
      if ctx.bufferLen + copyLen ctx p = 64 then
        some ({ ctx with state := transform ctx.state buffer, buffer, bufferLen := 0 }, p.drop (copyLen ctx p))
      else some ({ ctx with buffer, bufferLen := ctx.bufferLen + copyLen ctx p }, p.drop (copyLen ctx p)) := rfl
  rw [hturn] at h
  obtain ⟨buffer, -, h⟩ := Option.bind_eq_some_iff.mp h
  split at h
  · cases h
    rfl
  · cases h
    rfl

theorem Holds.inBounds (h : Holds ctx s) (p : List (BitVec 8)) : InBounds ctx p := by
  have hroom : ctx.bufferLen < 64 := h.len ▸ h.front.room
  have hspace : space ctx = 64 - ctx.bufferLen := by
    rw [space]
    omega
  refine ⟨hroom, hspace, fun hne => ?_⟩
  have hpos : 0 < p.length := List.length_pos_iff.mpr hne
  obtain ⟨ctx', rest, hturn, -⟩ := turn_eq h hne
  have hrest := turn_copies hturn
  subst hrest
  refine ⟨?_, ?_, ?_, ctx', hturn⟩
  all_goals
    rw [copyLen, hspace]
    split <;> omega

theorem holds_of_head (h : Represents ctx m) (hhead : Head ctx data n ctx' p) :
    (∃ s, Holds ctx' s) ∧ n + p.length ≤ data.length := by
  induction hhead with
  | start =>
    obtain ⟨hstate, hlen, hfront⟩ := h.holds
    exact ⟨⟨_, hstate, hlen, hfront⟩, Nat.le_of_eq (Nat.zero_add _)⟩
  | turn hhead hne hturn ih =>
    obtain ⟨⟨s, hs⟩, hn⟩ := ih
    obtain ⟨ctx₂, rest, hturn₂, hless, -, s₂, hs₂, -⟩ := turn_eq hs hne
    rw [hturn₂] at hturn
    cases hturn
    exact ⟨⟨s₂, hs₂⟩, by omega⟩

theorem ends_of_head (h : Represents ctx m) (hhead : Head ctx data n ctx' p) (hfuel : p.length ≤ fuel) :
    ∃ n' ctx'', Head ctx data n' ctx'' [] ∧ updateLoop fuel ctx' p = some ctx'' := by
  induction fuel generalizing n ctx' p with
  | zero =>
    obtain rfl := List.length_eq_zero_iff.mp (Nat.le_zero.mp hfuel)
    exact ⟨n, ctx', hhead, rfl⟩
  | succ fuel ih =>
    rcases p with _ | ⟨b, p⟩
    · exact ⟨n, ctx', hhead, rfl⟩
    · obtain ⟨⟨s, hs⟩, -⟩ := holds_of_head h hhead
      obtain ⟨ctx₁, rest, hturn, hless, -⟩ := turn_eq hs (List.cons_ne_nil b p)
      have hfuel₁ : rest.length ≤ fuel := by omega
      obtain ⟨n', ctx'', hend, hloop⟩ := ih (hhead.turn (List.cons_ne_nil b p) hturn) hfuel₁
      exact ⟨n', ctx'', hend, by simp [updateLoop, hturn, hloop]⟩

theorem updateSafe (h : Represents ctx m) (data : List (BitVec 8)) : UpdateSafe ctx data where
  heads n ctx' p hhead := by
    obtain ⟨⟨s, hs⟩, hn⟩ := holds_of_head h hhead
    exact ⟨hs.inBounds p, hn⟩
  ends := ends_of_head h .start (Nat.le_refl _)

theorem safe (h : Represents ctx m) : Safe ctx m := by
  have hholds := h.holds
  have hroom : ctx.bufferLen < 64 := hholds.len ▸ hholds.front.room
  refine ⟨hroom, by rw [hholds.len, left_eq, pending], ?_, updateSafe h, hroom, fun block => ?_⟩
  · rw [hholds.len, hholds.front.front, left_eq, pending]
  · obtain ⟨ctx', hfinal⟩ := final_represents h block
    exact ⟨ctx', _, hfinal⟩

end Update

end Sha256

/-- After any updates the bytes that wait are at the front of the buffer, which is not full; a further update stays
    inside of its buffers and ends after at most as many turns as there are bytes; and so does the padding. -/
theorem updates_safe (chunks : List (List (BitVec 8))) :
    (∃ ctx, chunks.foldlM Md5.update Md5.init = some ctx ∧ Md5.Safe ctx chunks.flatten) ∧
      ∃ ctx, chunks.foldlM Sha256.update Sha256.init = some ctx ∧ Sha256.Safe ctx chunks.flatten := by
  obtain ⟨ctx, hctx, h⟩ := foldlM_flatten Md5.update_represents Md5.init_represents chunks
  obtain ⟨ctx', hctx', h'⟩ := foldlM_flatten Sha256.update_represents Sha256.init_represents chunks
  rw [List.nil_append] at h h'
  exact ⟨⟨ctx, hctx, Md5.safe h⟩, ctx', hctx', Sha256.safe h'⟩

end Crypto
end Emberlite
