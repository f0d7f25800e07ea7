import Emberlite.Lib.Interleave
import Mathlib.Data.BitVec

/-! What the calls of `platform/hal` ask of the system, and how they report its errors (`hal.h`, `hal.c`).

    The pointers that a call is given are not null; with a null pointer it returns before any system call. -/

namespace Emberlite
namespace Hal
open Interleave

/-- `uint8_t` -/
abbrev Byte := BitVec 8

/-- `hal_status_t`. -/
inductive Status where
  | ok
  | io
  | timeout
  | invalidParam
  | notSupported
  | noMemory
  | busy
  | permission
  | nodevice
  deriving DecidableEq, Repr

/-- Values of `errno`; `other` are those that the code does not name. -/
inductive Errno where
  | none
  | etimedout
  | eagain
  | einval
  | eopnotsupp
  | enomem
  | ebusy
  | eacces
  | eperm
  | enodev
  | enoent
  | eintr
  | other (n : Nat)
  deriving DecidableEq, Repr

/-- `hal_status_from_errno`. -/
def statusFromErrno : Errno → Status
  | .none => .ok
  | .etimedout | .eagain => .timeout
  | .einval => .invalidParam
  | .eopnotsupp => .notSupported
  | .enomem => .noMemory
  | .ebusy => .busy
  | .eacces | .eperm => .permission
  | .enodev | .enoent => .nodevice
  | .eintr | .other _ => .io

/-- `hal_status_str`. -/
def halStatusStr : Status → String
  | .ok => "HAL_OK"
  | .io => "HAL_ERR_IO"
  | .timeout => "HAL_ERR_TIMEOUT"
  | .invalidParam => "HAL_ERR_INVALID_PARAM"
  | .notSupported => "HAL_ERR_NOT_SUPPORTED"
  | .noMemory => "HAL_ERR_NO_MEMORY"
  | .busy => "HAL_ERR_BUSY"
  | .permission => "HAL_ERR_PERMISSION"
  | .nodevice => "HAL_ERR_NODEVICE"

theorem statusFromErrno_ne_ok {errno : Errno} (h : errno ≠ .none) : statusFromErrno errno ≠ .ok := by
  cases errno with
  | none => exact absurd rfl h
  | _ => nofun

/-- The flags of `revents` that the code tests. -/
structure Revents where
  pollerr : Bool
  pollhup : Bool
  pollnval : Bool
  deriving DecidableEq, Repr

/-- What `poll` waits for. -/
inductive PollEvents where
  | pollin
  | pollout
  deriving DecidableEq, Repr

/-- What `poll` returns. -/
inductive PollResult where
  | error (errno : Errno)
  | timedOut
  | ready (revents : Revents)
  deriving DecidableEq, Repr

/-- A system call, or an allocation; `fetch` is the copy of the descriptor field of the handle, under its mutex. -/
inductive Syscall where
  | fetch
  | poll (fd : Int) (events : PollEvents) (timeout : Int)
  | read (fd : Int) (count : Nat)
  | write (fd : Int) (data : List Byte)
  | lseek (fd : Int)
  | ioctl (fd : Int) (len : Nat)
  | malloc (size : Nat)
  deriving DecidableEq, Repr

/-- What each call may give. -/
abbrev Syscall.Result : Syscall → Type
  | .fetch => Int
  | .poll _ _ _ => PollResult
  | .read _ _ => Except Errno (List Byte)
  | .write _ _ => Except Errno Nat
  | .lseek _ => Except Errno Unit
  | .ioctl _ _ => Except Errno Unit
  | .malloc _ => Bool

/-- The descriptor number that a system call is issued on. -/
def Syscall.fd : Syscall → Option Int
  | .fetch | .malloc _ => none
  | .poll fd _ _ | .read fd _ | .write fd _ | .lseek fd | .ioctl fd _ => some fd

/-- The timeout that `hal_uart_wait_fd` and the functions `wait_fd` pass on. -/
def pollTimeout (timeoutMs : Int) : Int := if timeoutMs < 0 then -1 else timeoutMs

/-- `hal_uart_wait_fd` and `wait_fd`, after each `poll`. -/
def waitFd {L : Type} (again ready : L) (fail : Status → L) : PollResult → L
  | .error errno => if errno = .eintr then again else fail (statusFromErrno errno)
  | .timedOut => fail .timeout
  | .ready revents => if revents.pollerr || revents.pollhup || revents.pollnval then fail .io else ready

theorem waitFd_cases {L : Type} (again ready : L) (fail : Status → L) (r : PollResult) :
    waitFd again ready fail r = again ∨ waitFd again ready fail r = ready ∨
      ∃ st, waitFd again ready fail r = fail st := by
  cases r with
  | error errno =>
    by_cases heintr : errno = .eintr
    · exact Or.inl (if_pos heintr)
    · exact Or.inr (Or.inr ⟨_, if_neg heintr⟩)
  | timedOut => exact Or.inr (Or.inr ⟨_, rfl⟩)
  | ready revents =>
    rw [waitFd]
    split
    · exact Or.inr (Or.inr ⟨_, rfl⟩)
    · exact Or.inr (Or.inl rfl)

end Hal
end Emberlite
