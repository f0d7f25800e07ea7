import Mathlib.Tactic.Linarith
import Emberlite.Hal.I2s

/-! Where the frames of a completed `hal_i2s_write` or `hal_i2s_read` are taken from or put.

    The loop steps by `frame_bytes`, so its calls go over the buffer without a gap; they take the frames that are
    meant exactly when this is the size of a frame of the stream, or frames that are smaller are moved by one call.
    It is too small for samples of 24 bits, and may be any other where the device has refused what it was asked
    for. -/

namespace Emberlite
namespace Hal
namespace I2sFrames
open Pieces

/-- The two calls that move frames. -/
inductive I2sCall where
  | write
  | read

/-- The function of a call. -/
def I2sCall.exec : I2sCall → I2sHandle → Nat → BitVec 64 → List PcmReply → Option (Status × List Piece)
  | .write => halI2sWrite
  | .read => halI2sRead

/-- Each of the frames is moved once, in order, from or to its place in the caller's buffer of
    `frames * frame_bytes` bytes, and no byte outside is touched. -/
structure Transferred (h : I2sHandle) (pcm : Pcm) (buffer frames : Nat) (moved : List Piece) : Prop where
  once : places pcm.frameSize moved = (List.range frames).map fun k => buffer + k * pcm.frameSize
  inside : ∀ piece ∈ moved, ∀ x, piece.addr ≤ x → x < piece.addr + piece.count * pcm.frameSize →
    buffer ≤ x ∧ x < buffer + frames * h.frameBytes

/-- The first call that moves any of the `size` frames moves them all. -/
def movesAtOnce (size : Nat) : List PcmReply → Prop
  | [] => False
  | reply :: replies =>
    match reply.result size with
    | .moved count => count.val = size ∨ count.val = 0 ∧ movesAtOnce size replies
    | .epipe => movesAtOnce size replies
    | .error => False

variable {cfg : I2sConfig} {dev : PcmDevice} {calloc : Bool} {openErr paramsErr : Int} {h : I2sHandle} {pcm : Pcm}
  {buffer : Nat} {frames : BitVec 64} {replies : List PcmReply} {moved : List Piece}

/-! ### The sizes of a frame -/

/-- What `hal_i2s_open` has checked, and the handle that it gives. -/
theorem open_ok (hopen : halI2sOpen cfg dev calloc openErr paramsErr = .ok h) :
    cfg.channels ≠ 0 ∧ (cfg.bitsPerSample = 16 ∨ cfg.bitsPerSample = 24 ∨ cfg.bitsPerSample = 32) ∧
      h = ⟨some (dev.install (bitsToFormat cfg.bitsPerSample) cfg.channels.toNat), cfg, calcFrameBytes cfg⟩ := by
  unfold halI2sOpen at hopen
  split at hopen
  · cases hopen
  rename_i hset
  split at hopen
  · cases hopen
  rename_i hbits
  dsimp only at hopen
  split at hopen
  · cases hopen
  split at hopen
  · cases hopen
  split at hopen
  · cases hopen
  split at hopen
  · cases hopen
  cases hopen
  exact ⟨fun hzero => hset (Or.inl hzero), by tauto, rfl⟩

/-- The two sizes of a frame, as they are asked for, differ when a sample has 24 bits: by a byte for each channel. -/
theorem frameSize_asked (hset : cfg.channels ≠ 0)
    (hbits : cfg.bitsPerSample = 16 ∨ cfg.bitsPerSample = 24 ∨ cfg.bitsPerSample = 32) :
    2 ≤ calcFrameBytes cfg ∧
      (cfg.bitsPerSample ≠ 24 ∧
          Pcm.frameSize ⟨bitsToFormat cfg.bitsPerSample, cfg.channels.toNat⟩ = calcFrameBytes cfg ∨
        cfg.bitsPerSample = 24 ∧
          calcFrameBytes cfg < Pcm.frameSize ⟨bitsToFormat cfg.bitsPerSample, cfg.channels.toNat⟩) := by
  have hchannels : 0 < cfg.channels.toNat := Nat.pos_of_ne_zero fun hzero => hset (BitVec.eq_of_toNat_eq hzero)
  rcases hbits with h16 | h24 | h32
  · rw [calcFrameBytes, Pcm.frameSize, h16]
    exact ⟨Nat.le_mul_of_pos_left 2 hchannels, Or.inl ⟨by decide, rfl⟩⟩
  · rw [calcFrameBytes, Pcm.frameSize, h24]
    refine ⟨(by decide : 2 ≤ 3).trans (Nat.le_mul_of_pos_left 3 hchannels), Or.inr ⟨rfl, ?_⟩⟩
    exact Nat.mul_lt_mul_of_pos_left (by decide : 3 < 4) hchannels
  · rw [calcFrameBytes, Pcm.frameSize, h32]
    exact ⟨(by decide : 2 ≤ 4).trans (Nat.le_mul_of_pos_left 4 hchannels), Or.inl ⟨by decide, rfl⟩⟩

theorem install_granted {format : PcmFormat} {channels : Nat} (hformat : 0 ≤ dev.formatErr)
    (hchannels : 0 ≤ dev.channelsErr) : dev.install format channels = ⟨format, channels⟩ := by
  rw [PcmDevice.install, if_neg (Int.not_lt.mpr hformat), if_neg (Int.not_lt.mpr hchannels)]

/-! ### The loop -/

theorem loop_contiguous {frameBytes p : Nat} {left : Int} (hroom : p + left.toNat * frameBytes < 2 ^ 64)
    (hloop : pcmLoop frameBytes replies p left = some (.ok, moved)) :
    Contiguous frameBytes p moved ∧ total moved = left.toNat := by
  induction replies generalizing p left moved with
  | nil =>
    rw [pcmLoop] at hloop
    split at hloop
    · cases hloop
    · cases hloop
      exact ⟨trivial, by rw [Int.toNat_of_nonpos (by omega)]; rfl⟩
  | cons reply replies ih =>
    rw [pcmLoop] at hloop
    split at hloop
    · rename_i hleft
      split at hloop
      · cases hloop
      split at hloop
      · cases hloop
      split at hloop
      · obtain ⟨⟨st, rest⟩, hrest, heq⟩ := Option.map_eq_some_iff.mp hloop
        cases heq
        obtain ⟨hcontiguous, htotal⟩ := ih hroom hrest
        refine ⟨⟨rfl, by rwa [Nat.zero_mul, Nat.add_zero]⟩, ?_⟩
        rw [total_cons, htotal, Nat.zero_add]
      · cases hloop
      · rename_i count _
        obtain ⟨⟨st, rest⟩, hrest, heq⟩ := Option.map_eq_some_iff.mp hloop
        cases heq
        have hcount : count.val ≤ left.toNat := Nat.le_of_lt_succ count.isLt
        have hleft' : (left - count.val).toNat = left.toNat - count.val := by omega
        have hsplit : left.toNat * frameBytes = count.val * frameBytes + (left.toNat - count.val) * frameBytes := by
          rw [← Nat.add_mul, Nat.add_sub_cancel' hcount]
        have hstep : count.val * frameBytes % 2 ^ 64 = count.val * frameBytes := Nat.mod_eq_of_lt (by omega)
        rw [hstep] at hrest
        obtain ⟨hcontiguous, htotal⟩ := ih (by rw [hleft']; omega) hrest
        refine ⟨⟨rfl, hcontiguous⟩, ?_⟩
        rw [total_cons, htotal, hleft', Nat.add_sub_cancel' hcount]
    · cases hloop
      exact ⟨trivial, by rw [Int.toNat_of_nonpos (by omega)]; rfl⟩

/-- A call that moves all the frames at once is one that the stream has moved at once. -/
theorem loop_once {frameBytes p : Nat} {left : Int} (hroom : p + left.toNat * frameBytes < 2 ^ 64) (hleft : 0 < left)
    (hloop : pcmLoop frameBytes replies p left = some (.ok, moved)) :
    (∃ piece ∈ moved, piece.count = left.toNat) ↔ movesAtOnce left.toNat replies := by
  induction replies generalizing p moved with
  | nil => rw [pcmLoop, if_pos hleft] at hloop; cases hloop
  | cons reply replies ih =>
    rw [pcmLoop, if_pos hleft] at hloop
    rw [movesAtOnce]
    have hne : ¬0 = left.toNat := by omega
    split at hloop
    · cases hloop
    split at hloop
    · cases hloop
    split at hloop
    · rename_i hreply
      obtain ⟨⟨st, rest⟩, hrest, heq⟩ := Option.map_eq_some_iff.mp hloop
      cases heq
      rw [hreply, List.exists_mem_cons_iff, ih hroom hrest, or_iff_right hne]
    · cases hloop
    · rename_i count hreply
      obtain ⟨⟨st, rest⟩, hrest, heq⟩ := Option.map_eq_some_iff.mp hloop
      cases heq
      rw [hreply, List.exists_mem_cons_iff]
      apply or_congr_right
      rcases Nat.eq_zero_or_pos count.val with hzero | hpos
      · rw [hzero, Nat.zero_mul, Nat.zero_mod, Nat.add_zero, Nat.cast_zero, sub_zero] at hrest
        rw [ih hroom hrest, and_iff_right hzero]
      · -- What is left for the calls behind it is less than all.
        refine iff_of_false (fun ⟨piece, hpiece, hwhole⟩ => ?_) fun hnone => hpos.ne' hnone.1
        have hcount : count.val ≤ left.toNat := Nat.le_of_lt_succ count.isLt
        have hroom' : count.val * frameBytes + (left - count.val).toNat * frameBytes = left.toNat * frameBytes := by
          rw [← Nat.add_mul]
          congr 1
          omega
        rw [Nat.mod_eq_of_lt (by omega)] at hrest
        obtain ⟨-, htotal⟩ := loop_contiguous (by omega) hrest
        have hle : piece.count ≤ total rest := count_le_total hpiece
        omega

/-! ### The calls -/

/-- A call that succeeds moves nothing because it is asked for nothing, or its loop goes over the buffer. -/
theorem exec_loop (call : I2sCall) (hfit : 2 ≤ h.frameBytes) (hbuffer : buffer + frames.toNat * h.frameBytes < 2 ^ 64)
    (hok : call.exec h buffer frames replies = some (.ok, moved)) :
    frames = 0 ∧ moved = [] ∨
      0 < frames.toNat ∧ pcmLoop h.frameBytes replies buffer frames.toNat = some (.ok, moved) := by
  have htransfer : ∃ refused, pcmTransfer refused h buffer frames replies = some (.ok, moved) := by
    cases call with
    | write => exact ⟨true, hok⟩
    | read => exact ⟨false, hok⟩
  obtain ⟨refused, htransfer⟩ := htransfer
  rw [pcmTransfer] at htransfer
  split at htransfer
  · cases htransfer
  split at htransfer
  · rename_i hzero
    cases htransfer
    exact Or.inl ⟨hzero, rfl⟩
  rename_i hsome
  split at htransfer
  · cases htransfer
  split at htransfer
  · cases htransfer
  · have hsmall : frames.toNat * 2 ≤ frames.toNat * h.frameBytes := Nat.mul_le_mul_left _ hfit
    rw [BitVec.toInt_eq_toNat_of_lt (by omega)] at htransfer
    exact Or.inr ⟨Nat.pos_of_ne_zero fun hzero => hsome (BitVec.eq_of_toNat_eq hzero), htransfer⟩

/-- Frames that are not larger than `frame_bytes` are moved as they should be once their places are the right
    ones. -/
theorem transferred_iff_places (hsize : pcm.frameSize ≤ h.frameBytes) (hmoved : Contiguous h.frameBytes buffer moved)
    (htotal : total moved = frames.toNat) : Transferred h pcm buffer frames.toNat moved ↔
      places pcm.frameSize moved = (List.range frames.toNat).map fun k => buffer + k * pcm.frameSize := by
  refine ⟨Transferred.once, fun hplaces => ⟨hplaces, fun piece hpiece x hlow hhigh => ?_⟩⟩
  obtain ⟨hfirst, hlast⟩ := hmoved.inside hpiece
  have hle : piece.count * pcm.frameSize ≤ piece.count * h.frameBytes := Nat.mul_le_mul_left _ hsize
  rw [htotal] at hlast
  exact ⟨by omega, by omega⟩

/-- The last frame that is moved ends behind the buffer. -/
theorem not_transferred_of_lt (hsize : h.frameBytes < pcm.frameSize) (hmoved : Contiguous h.frameBytes buffer moved)
    (htotal : total moved = frames.toNat) (hpos : 0 < frames.toNat) : ¬ Transferred h pcm buffer frames.toNat moved := by
  intro htransferred
  obtain ⟨piece, hpiece, hcount, hend⟩ := hmoved.exists_last (htotal ▸ hpos)
  have hlonger : piece.count * h.frameBytes < piece.count * pcm.frameSize := Nat.mul_lt_mul_of_pos_left hsize hcount
  have hinside := htransferred.inside piece hpiece (piece.addr + piece.count * h.frameBytes) (by omega) (by omega)
  rw [htotal] at hend
  omega

/-- The frames of a stream, when there are some, are moved as they should be exactly when they are of the size that
    the loop steps by, or are smaller and moved at once. -/
theorem loop_transferred_iff (hbuffer : buffer + frames.toNat * h.frameBytes < 2 ^ 64) (hpos : 0 < frames.toNat)
    (hloop : pcmLoop h.frameBytes replies buffer frames.toNat = some (.ok, moved)) :
    Transferred h pcm buffer frames.toNat moved ↔
      pcm.frameSize = h.frameBytes ∨ pcm.frameSize < h.frameBytes ∧ movesAtOnce frames.toNat replies := by
  obtain ⟨hmoved, htotal⟩ := loop_contiguous (by rwa [Int.toNat_natCast]) hloop
  rw [Int.toNat_natCast] at htotal
  rcases Nat.lt_trichotomy pcm.frameSize h.frameBytes with hless | heq | hmore
  · have honce := loop_once (by rwa [Int.toNat_natCast]) (Int.natCast_pos.mpr hpos) hloop
    rw [Int.toNat_natCast] at honce
    rw [transferred_iff_places hless.le hmoved htotal, or_iff_right hless.ne, and_iff_right hless, ← honce, ← htotal,
      hmoved.places_eq_iff hless.ne, or_iff_right (htotal ▸ hpos.ne')]
  · rw [transferred_iff_places heq.le hmoved htotal]
    rw [← heq] at hmoved
    exact iff_of_true (htotal ▸ hmoved.places_eq) (Or.inl heq)
  · refine iff_of_false (not_transferred_of_lt hmore hmoved htotal hpos) ?_
    rintro (heq | ⟨hless, -⟩)
    · exact hmore.ne' heq
    · exact hmore.asymm hless

/-- A call that succeeds has moved the frames of the buffer, and only them, exactly when there is no frame to move or a
    frame of the stream that the device has set up is of the size that the handle has for it, or smaller and all
    are moved at once. Where the device takes the format and the channels it is asked for, this is so exactly when a
    sample has not 24 bits or there is no frame to move. -/
theorem transferred_iff (call : I2sCall) (hopen : halI2sOpen cfg dev calloc openErr paramsErr = .ok h)
    (hpcm : h.pcm = some pcm) (hbuffer : buffer + frames.toNat * h.frameBytes < 2 ^ 64)
    (hok : call.exec h buffer frames replies = some (.ok, moved)) :
    (Transferred h pcm buffer frames.toNat moved ↔
      frames = 0 ∨
        (dev.install (bitsToFormat cfg.bitsPerSample) cfg.channels.toNat).frameSize = calcFrameBytes cfg ∨
        (dev.install (bitsToFormat cfg.bitsPerSample) cfg.channels.toNat).frameSize < calcFrameBytes cfg ∧
          movesAtOnce frames.toNat replies) ∧
      (0 ≤ dev.formatErr → 0 ≤ dev.channelsErr →
        (Transferred h pcm buffer frames.toNat moved ↔ cfg.bitsPerSample ≠ 24 ∨ frames = 0)) := by
  obtain ⟨hset, hbits, rfl⟩ := open_ok hopen
  obtain ⟨hfit, hsizes⟩ := frameSize_asked hset hbits
  cases hpcm
  rcases exec_loop call hfit hbuffer hok with ⟨rfl, rfl⟩ | ⟨hpos, hloop⟩
  · have hnone : Transferred ⟨some (dev.install (bitsToFormat cfg.bitsPerSample) cfg.channels.toNat), cfg,
        calcFrameBytes cfg⟩ (dev.install (bitsToFormat cfg.bitsPerSample) cfg.channels.toNat) buffer 0 [] :=
      ⟨rfl, fun _ hpiece => (List.not_mem_nil hpiece).elim⟩
    exact ⟨iff_of_true hnone (Or.inl rfl), fun _ _ => iff_of_true hnone (Or.inr rfl)⟩
  · have hframes : frames ≠ 0 := by
      rintro rfl
      exact absurd hpos (by decide)
    rw [loop_transferred_iff hbuffer hpos hloop, or_iff_right hframes, or_iff_left hframes]
    refine ⟨Iff.rfl, fun hformat hchannels => ?_⟩
    rw [install_granted hformat hchannels]
    rcases hsizes with ⟨hne, hsize⟩ | ⟨heq, hsize⟩
    · exact iff_of_true (Or.inl hsize) hne
    · refine iff_of_false ?_ fun hne => hne heq
      rintro (hsame | ⟨hless, -⟩)
      · exact hsize.ne' hsame
      · exact hsize.asymm hless

/-- One frame of stereo after the other, in samples of 16 bits, with an underrun between the two. -/
theorem transferred_split : Transferred ⟨some ⟨.s16Le, 2⟩, ⟨48000, 2, 16, false⟩, 4⟩ ⟨.s16Le, 2⟩ 4096 2
    [⟨4096, 1⟩, ⟨4100, 0⟩, ⟨4100, 1⟩] := by
  have hok : I2sCall.write.exec ⟨some ⟨.s16Le, 2⟩, ⟨48000, 2, 16, false⟩, 4⟩ 4096 2
      [⟨1, fun n => .moved ⟨min 1 n, by omega⟩⟩, ⟨1, fun _ => .epipe⟩, ⟨1, fun n => .moved ⟨min 1 n, by omega⟩⟩] =
      some (.ok, [⟨4096, 1⟩, ⟨4100, 0⟩, ⟨4100, 1⟩]) := by decide
  have hopen : halI2sOpen ⟨48000, 2, 16, false⟩ ⟨0, 0, ⟨.unknown, 0⟩⟩ true 0 0 = .ok _ := rfl
  exact (transferred_iff .write hopen rfl (by decide) hok).1.mpr (Or.inr (Or.inl (by decide)))

/-- Two frames of one sample of 24 bits, moved one by one: the second is taken a byte early and ends a byte behind
    what the caller has to provide. -/
theorem second_frame_early :
    ¬ ∀ (call : I2sCall) (cfg : I2sConfig) (dev : PcmDevice) (calloc : Bool) (openErr paramsErr : Int) (h : I2sHandle)
      (pcm : Pcm) (buffer : Nat) (frames : BitVec 64) (replies : List PcmReply) (moved : List Piece),
      halI2sOpen cfg dev calloc openErr paramsErr = .ok h → h.pcm = some pcm →
      buffer + frames.toNat * h.frameBytes < 2 ^ 64 → call.exec h buffer frames replies = some (.ok, moved) →
      Transferred h pcm buffer frames.toNat moved := by
  intro hall
  have hsplit := hall .write ⟨48000, 1, 24, false⟩ ⟨0, 0, ⟨.unknown, 0⟩⟩ true 0 0 _ ⟨.s24Le, 1⟩ 4096 2
    [⟨1, fun n => .moved ⟨min 1 n, by omega⟩⟩, ⟨1, fun n => .moved ⟨min 1 n, by omega⟩⟩] [⟨4096, 1⟩, ⟨4099, 1⟩]
    rfl rfl (by decide) (by decide)
  exact absurd hsplit.once (by decide)

end I2sFrames
end Hal
end Emberlite
