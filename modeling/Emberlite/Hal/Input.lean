import Emberlite.Hal.Syscall
import Emberlite.Lib.ByteOrder

/-! `hal_input_read_event`. -/

namespace Emberlite
namespace Hal
open Interleave ByteOrder

/-- `struct input_event` -/
structure InputEvent where
  timeSec : BitVec 64
  timeUsec : BitVec 64
  type : BitVec 16
  code : BitVec 16
  value : BitVec 32
  deriving DecidableEq, Repr

/-- `sizeof(struct input_event)`, with times of 64 bits. -/
def inputEventSize : Nat := 24

/-- The structure that the bytes of an event hold. -/
def InputEvent.ofBytes (bytes : List Byte) : InputEvent where
  timeSec := fromLittleEndian 64 (bytes.take 8)
  timeUsec := fromLittleEndian 64 ((bytes.drop 8).take 8)
  type := fromLittleEndian 16 ((bytes.drop 16).take 2)
  code := fromLittleEndian 16 ((bytes.drop 18).take 2)
  value := fromLittleEndian 32 ((bytes.drop 20).take 4)

/-- Where `hal_input_read_event` is. -/
inductive InputReadPc where
  | fetch
  | poll (fd : Int)
  | read (fd : Int)
  -- The status, and what is stored in `out_event`.
  | ret (st : Status) (event : Option InputEvent)

/-- `hal_input_read_event` -/
def halInputReadEvent (timeoutMs : Int) : Thread Syscall Syscall.Result (Status × Option InputEvent) InputReadPc where
  entry := .fetch
  next
    | .fetch => .call .fetch fun fd =>
      if fd < 0 then .ret .io none else if timeoutMs ≠ 0 then .poll fd else .read fd
    | .poll fd => .call (.poll fd .pollin (pollTimeout timeoutMs)) (waitFd (.poll fd) (.read fd) (.ret · none))
    | .read fd => .call (.read fd inputEventSize) fun
      | .error errno =>
        if errno = .eintr then .read fd
        else if errno = .eagain then .ret .timeout none
        else .ret (statusFromErrno errno) none
      | .ok bytes =>
        if bytes.length ≠ inputEventSize then .ret .io none else .ret .ok (some (InputEvent.ofBytes bytes))
    | .ret st event => .ret (st, event)

end Hal
end Emberlite
