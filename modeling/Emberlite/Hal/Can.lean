import Emberlite.Hal.Syscall
import Emberlite.Lib.ByteOrder

/-! `hal_can_send` and `hal_can_receive`, with the frames of the interface (`hal_can_frame_t`) and of SocketCAN
    (`struct can_frame`). -/

namespace Emberlite
namespace Hal
open Interleave ByteOrder

/-- `hal_can_frame_t` -/
structure HalCanFrame where
  id : BitVec 32
  dlc : Byte
  data : Vector Byte 8
  isRtr : Byte
  deriving DecidableEq, Repr

/-- `struct can_frame`, with its identifier, length and data. -/
structure CanFrame where
  canId : BitVec 32
  canDlc : Byte
  data : Vector Byte 8
  deriving DecidableEq, Repr

/-- `CAN_SFF_MASK` -/
def canSffMask : BitVec 32 := 0x7FF

/-- `CAN_RTR_FLAG` -/
def canRtrFlag : BitVec 32 := 0x40000000

/-- `sizeof(struct can_frame)`. -/
def canFrameSize : Nat := 16

/-- The frame in memory, on a machine that stores the low byte first. -/
def CanFrame.bytes (cf : CanFrame) : List Byte := littleEndian 4 cf.canId ++ [cf.canDlc, 0, 0, 0] ++ cf.data.toList

/-- The structure that the bytes of a frame hold. -/
def CanFrame.ofBytes (bytes : List Byte) : CanFrame where
  canId := fromLittleEndian 32 (bytes.take 4)
  canDlc := bytes.getD 4 0
  data := Vector.ofFn fun i => bytes.getD (8 + i) 0

/-- The frame that `hal_can_send` fills. -/
def HalCanFrame.toCanFrame (frame : HalCanFrame) : CanFrame where
  canId := if frame.isRtr ≠ 0 then (frame.id &&& canSffMask) ||| canRtrFlag else frame.id &&& canSffMask
  canDlc := frame.dlc
  data := Vector.ofFn fun i => if i.val < frame.dlc.toNat then frame.data[i] else 0

/-- The frame that `hal_can_receive` fills. -/
def CanFrame.toHalCanFrame (cf : CanFrame) : HalCanFrame where
  id := cf.canId &&& canSffMask
  dlc := cf.canDlc
  data := Vector.ofFn fun i => if i.val < min cf.canDlc.toNat 8 then cf.data[i] else 0
  isRtr := if cf.canId &&& canRtrFlag ≠ 0 then 1 else 0

/-- `g` is the frame `f`; the data of a remote frame do not matter. -/
structure CanFrames.Same (f g : HalCanFrame) : Prop where
  id : g.id = f.id
  dlc : g.dlc = f.dlc
  isRtr : g.isRtr ≠ 0 ↔ f.isRtr ≠ 0
  data : f.isRtr = 0 → ∀ i : Fin 8, g.data[i] = if i.val < f.dlc.toNat then f.data[i] else 0

/-- Where `hal_can_send` is. -/
inductive CanSendPc where
  | fetch
  | write (fd : Int)
  | ret (st : Status)

/-- `hal_can_send` -/
def halCanSend (frame : HalCanFrame) : Thread Syscall Syscall.Result Status CanSendPc where
  entry := if 8 < frame.dlc.toNat then .ret .invalidParam else .fetch
  next
    | .fetch => .call .fetch fun fd => if fd < 0 then .ret .io else .write fd
    | .write fd => .call (.write fd frame.toCanFrame.bytes) fun
      | .error errno => .ret (statusFromErrno errno)
      | .ok w => if w ≠ canFrameSize then .ret .io else .ret .ok
    | .ret st => .ret st

/-- Where `hal_can_receive` is. -/
inductive CanReceivePc where
  | fetch
  | poll (fd : Int)
  | read (fd : Int)
  -- The status, and what is stored in `frame`.
  | ret (st : Status) (frame : Option HalCanFrame)

/-- `hal_can_receive`; its `read` is not repeated after `EINTR`. -/
def halCanReceive (timeoutMs : Int) : Thread Syscall Syscall.Result (Status × Option HalCanFrame) CanReceivePc where
  entry := .fetch
  next
    | .fetch => .call .fetch fun fd => if fd < 0 then .ret .io none else .poll fd
    | .poll fd => .call (.poll fd .pollin (pollTimeout timeoutMs)) (waitFd (.poll fd) (.read fd) (.ret · none))
    | .read fd => .call (.read fd canFrameSize) fun
      | .error errno => .ret (statusFromErrno errno) none
      | .ok bytes =>
        if bytes.length ≠ canFrameSize then .ret .io none
        else .ret .ok (some (CanFrame.ofBytes bytes).toHalCanFrame)
    | .ret st frame => .ret (st, frame)

end Hal
end Emberlite
