import Emberlite.Hal.Syscall
import Emberlite.Lib.Pieces

/-! `hal_i2s_open`, `hal_i2s_write` and `hal_i2s_read` (`hal_i2s.c`, built with ALSA). -/

namespace Emberlite
namespace Hal
open Pieces

/-- `hal_i2s_config_t`, without the name of the device. -/
structure I2sConfig where
  sampleRate : BitVec 32
  channels : BitVec 8
  bitsPerSample : BitVec 8
  capture : Bool
  deriving DecidableEq, Repr

/-- `snd_pcm_format_t`: the formats that the code names, and those that a device may have of its own. -/
inductive PcmFormat where
  | s16Le
  | s24Le
  | s32Le
  | other (sampleBytes : Nat)
  | unknown
  deriving DecidableEq, Repr

/-- The bytes of a sample in memory: a sample of `s24Le` lies in four bytes. -/
def PcmFormat.sampleBytes : PcmFormat → Nat
  | .s16Le => 2
  | .s24Le | .s32Le => 4
  | .other sampleBytes => sampleBytes
  | .unknown => 0

/-- An open stream, with the parameters that it runs with. -/
structure Pcm where
  format : PcmFormat
  channels : Nat
  deriving DecidableEq, Repr

/-- The bytes of a frame of the stream. -/
def Pcm.frameSize (pcm : Pcm) : Nat := pcm.channels * pcm.format.sampleBytes

/-- A device: what `snd_pcm_hw_params_set_format` and `snd_pcm_hw_params_set_channels` return, and what
    `snd_pcm_hw_params` chooses where these have failed and left the parameter open. -/
structure PcmDevice where
  formatErr : Int
  channelsErr : Int
  own : Pcm
  deriving DecidableEq, Repr

/-- The stream that `snd_pcm_hw_params` sets up. -/
def PcmDevice.install (dev : PcmDevice) (format : PcmFormat) (channels : Nat) : Pcm :=
  ⟨if dev.formatErr < 0 then dev.own.format else format, if dev.channelsErr < 0 then dev.own.channels else channels⟩

/-- `struct hal_i2s_handle_impl`. -/
structure I2sHandle where
  pcm : Option Pcm
  cfg : I2sConfig
  frameBytes : Nat
  deriving DecidableEq, Repr

/-- `calc_frame_bytes`. -/
def calcFrameBytes (c : I2sConfig) : Nat := c.channels.toNat * (c.bitsPerSample.toNat / 8)

/-- `bits_to_format`. -/
def bitsToFormat (bits : BitVec 8) : PcmFormat :=
  if bits = 16 then .s16Le
  else if bits = 24 then .s24Le
  else if bits = 32 then .s32Le
  else .unknown

/-- With what `calloc`, `snd_pcm_open` and `snd_pcm_hw_params` return. The code does not look at what the setters
    of the format and of the channels return. -/
def halI2sOpen (cfg : I2sConfig) (dev : PcmDevice) (calloc : Bool) (openErr paramsErr : Int) :
    Except Status I2sHandle :=
  if cfg.channels = 0 ∨ cfg.sampleRate = 0 then .error .invalidParam
  else if cfg.bitsPerSample ≠ 16 ∧ cfg.bitsPerSample ≠ 24 ∧ cfg.bitsPerSample ≠ 32 then .error .notSupported
  else
    let fmt := bitsToFormat cfg.bitsPerSample
    if fmt = .unknown then .error .notSupported
    else if !calloc then .error .noMemory
    else if openErr < 0 then .error .io
    else if paramsErr < 0 then .error .io
    else .ok ⟨some (dev.install fmt cfg.channels.toNat), cfg, calcFrameBytes cfg⟩

/-- What `snd_pcm_writei` and `snd_pcm_readi` return when they are asked for `size` frames. -/
inductive PcmResult (size : Nat) where
  | moved (count : Fin (size + 1))
  | epipe
  | error

/-- What the stream answers in one turn of the loop. -/
structure PcmReply where
  wait : Int
  result : (size : Nat) → PcmResult size

/-- The loop, with the frames moved by each call; without a result when it needs another reply. -/
def pcmLoop (frameBytes : Nat) : List PcmReply → Nat → Int → Option (Status × List Piece)
  | [], _, left => if 0 < left then none else some (.ok, [])
  | reply :: replies, p, left =>
    if 0 < left then
      -- `pcm_wait_ready`.
      if reply.wait = 0 then some (.timeout, [])
      else if reply.wait < 0 then some (.io, [])
      else
        match reply.result left.toNat with
        | .epipe => (pcmLoop frameBytes replies p left).map fun r => (r.1, ⟨p, 0⟩ :: r.2)
        | .error => some (.io, [⟨p, 0⟩])
        | .moved count =>
          (pcmLoop frameBytes replies (p + count.val * frameBytes % 2 ^ 64) (left - count.val)).map fun r =>
            (r.1, ⟨p, count.val⟩ :: r.2)
    else some (.ok, [])

/-- What `hal_i2s_write` and `hal_i2s_read` share: only the direction of the stream that they refuse differs. -/
def pcmTransfer (refused : Bool) (h : I2sHandle) (buffer : Nat) (frames : BitVec 64) (replies : List PcmReply) :
    Option (Status × List Piece) :=
  if buffer = 0 ∧ frames ≠ 0 then some (.invalidParam, [])
  else if frames = 0 then some (.ok, [])
  else if h.cfg.capture = refused then some (.invalidParam, [])
  else
    match h.pcm with
    | none => some (.io, [])
    | some _ => pcmLoop h.frameBytes replies buffer frames.toInt

/-- `hal_i2s_write`. -/
def halI2sWrite (h : I2sHandle) (buffer : Nat) (frames : BitVec 64) (replies : List PcmReply) :
    Option (Status × List Piece) :=
  pcmTransfer true h buffer frames replies

/-- `hal_i2s_read`. -/
def halI2sRead (h : I2sHandle) (buffer : Nat) (frames : BitVec 64) (replies : List PcmReply) :
    Option (Status × List Piece) :=
  pcmTransfer false h buffer frames replies

end Hal
end Emberlite
