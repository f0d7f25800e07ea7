import Emberlite.Hal.Syscall

/-! `hal_uart_read` and `hal_uart_write`. -/

namespace Emberlite
namespace Hal
open Interleave

/-- Where `hal_uart_read` is. -/
inductive UartReadPc where
  | fetch
  | poll (fd : Int)
  | read (fd : Int)
  -- The status, and what is stored through `buffer` and counted in `out_read_len`.
  | ret (st : Status) (data : List Byte)

/-- `hal_uart_read` -/
def halUartRead (length : Nat) (timeoutMs : Int) :
    Thread Syscall Syscall.Result (Status × List Byte) UartReadPc where
  entry := if length = 0 then .ret .ok [] else .fetch
  next
    | .fetch => .call .fetch fun fd => if fd < 0 then .ret .io [] else .poll fd
    | .poll fd => .call (.poll fd .pollin (pollTimeout timeoutMs)) (waitFd (.poll fd) (.read fd) (.ret · []))
    | .read fd => .call (.read fd length) fun
      | .error errno => if errno = .eintr then .read fd else .ret (statusFromErrno errno) []
      | .ok data => .ret .ok data
    | .ret st data => .ret (st, data)

/-- Where `hal_uart_write` is. -/
inductive UartWritePc where
  | fetch
  | poll (fd : Int) (written : Nat)
  | write (fd : Int) (written : Nat)
  -- The status, and what is stored in `out_write_len`.
  | ret (st : Status) (written : Nat)

/-- The loop of `hal_uart_write`, after a `write` that brought the count to `written`. -/
def uartWriteLoop (length : Nat) (timeoutMs : Int) (fd : Int) (written : Nat) : UartWritePc :=
  if 0 ≤ timeoutMs then .ret .ok written else if written < length then .poll fd written else .ret .ok written

/-- `hal_uart_write` -/
def halUartWrite (buffer : List Byte) (timeoutMs : Int) :
    Thread Syscall Syscall.Result (Status × Nat) UartWritePc where
  entry := if buffer.length = 0 then .ret .ok 0 else .fetch
  next
    | .fetch => .call .fetch fun fd => if fd < 0 then .ret .io 0 else .poll fd 0
    | .poll fd written => .call (.poll fd .pollout (pollTimeout timeoutMs))
        (waitFd (.poll fd written) (.write fd written) (.ret · written))
    | .write fd written => .call (.write fd (buffer.drop written)) fun
      | .error errno => if errno = .eintr then .write fd written else .ret (statusFromErrno errno) written
      | .ok w => uartWriteLoop buffer.length timeoutMs fd (written + w)
    | .ret st written => .ret (st, written)

/-- The local variable `written`. -/
def UartWritePc.written : UartWritePc → Nat
  | .fetch => 0
  | .poll _ written | .write _ written | .ret _ written => written

@[simp] theorem written_uartWriteLoop (length : Nat) (timeoutMs fd : Int) (written : Nat) :
    (uartWriteLoop length timeoutMs fd written).written = written := by
  unfold uartWriteLoop
  split
  · rfl
  · split <;> rfl

end Hal
end Emberlite
