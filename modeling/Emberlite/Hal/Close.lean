import Mathlib.Order.Bounds.Basic
import Emberlite.Hal.Syscall

/-! `hal_uart_close`, `hal_i2c_close`, `hal_spi_close`, `hal_can_close` and `hal_input_close`, and what of the
    process they and other calls change: the handle, and the table of its descriptors. -/

namespace Emberlite
namespace Hal
open Interleave

/-- What a call on a handle asks for, a `close` of the handle, or somebody who opens a file. -/
inductive ProcessCall where
  | io (call : Syscall)
  -- The copy of the descriptor field, which is set to -1, under the mutex.
  | take
  | close (fd : Int)
  -- `pthread_mutex_destroy` and `free`.
  | free
  | openFile
  deriving DecidableEq, Repr

/-- What each call may give. -/
abbrev ProcessCall.Result : ProcessCall → Type
  | .io call => call.Result
  | .take => Int
  | .close _ => Except Errno Unit
  | .free => Unit
  | .openFile => Option Nat

/-- Where a close is. -/
inductive ClosePc where
  | take
  | close (fd : Int)
  | free (st : Status)
  | ret (st : Status)
  deriving DecidableEq, Repr

/-- A close, which reports an error of `close` or not. -/
def closeCall (reports : Bool) : Thread ProcessCall ProcessCall.Result Status ClosePc where
  entry := .take
  next
    | .take => .call .take fun fd => if 0 ≤ fd then .close fd else .free .ok
    | .close fd => .call (.close fd) fun
      | .error errno => .free (if reports then statusFromErrno errno else .ok)
      | .ok _ => .free .ok
    | .free st => .call .free fun _ => .ret st
    | .ret st => .ret st

/-- `hal_uart_close`. It also sets the line back to what it was, under the mutex. -/
def halUartClose : Thread ProcessCall ProcessCall.Result Status ClosePc := closeCall true

/-- `hal_i2c_close` -/
def halI2cClose : Thread ProcessCall ProcessCall.Result Status ClosePc := closeCall false

/-- `hal_spi_close` -/
def halSpiClose : Thread ProcessCall ProcessCall.Result Status ClosePc := closeCall false

/-- `hal_can_close` -/
def halCanClose : Thread ProcessCall ProcessCall.Result Status ClosePc := closeCall false

/-- `hal_input_close` -/
def halInputClose : Thread ProcessCall ProcessCall.Result Status ClosePc := closeCall false

/-- Where an open of another part of the process is. -/
inductive OpenPc where
  | opening
  | ret (fd : Option Nat)
  deriving DecidableEq, Repr

/-- A call of another part of the process that opens a file. -/
def openCall : Thread ProcessCall ProcessCall.Result Status OpenPc where
  entry := .opening
  next
    | .opening => .call .openFile .ret
    | .ret fd => .ret (if fd.isSome then .ok else .io)

/-- Whose file a descriptor is open on. -/
inductive File where
  | handle
  | other
  deriving DecidableEq, Repr

/-- The handle that is closed, and the descriptor table of the process. -/
structure Process where
  -- The descriptor field of the handle.
  field : Int
  freed : Bool
  files : Nat → Option File
  -- The number that the close has closed.
  closed : Option Int

/-- A handle on descriptor `fd`, while others have the descriptors `others`. -/
def Process.start (fd : Nat) (others : Nat → Bool) : Process where
  field := fd
  freed := false
  files := fun k => if k = fd then some .handle else if others k then some .other else none
  closed := none

/-- A freed handle may hold anything. `close` gives the number back, whatever it returns, and `open` takes the
    lowest that is free. -/
inductive ProcessEnv : Process → (req : ProcessCall) → req.Result → Process → Prop
  | fetch {w : Process} : w.freed = false → ProcessEnv w (.io .fetch) w.field w
  | fetchFreed {w : Process} (fd : Int) : w.freed = true → ProcessEnv w (.io .fetch) fd w
  | io {w : Process} {call : Syscall} (res : call.Result) : call ≠ .fetch → ProcessEnv w (.io call) res w
  | take {w : Process} : ProcessEnv w .take w.field { w with field := -1 }
  | close {w : Process} (fd : Int) (res : Except Errno Unit) :
      ProcessEnv w (.close fd) res { w with files := Function.update w.files fd.toNat none, closed := some fd }
  | free {w : Process} : ProcessEnv w .free () { w with freed := true }
  | openFile {w : Process} {fd : Nat} : IsLeast { k | w.files k = none } fd →
      ProcessEnv w .openFile (some fd) { w with files := Function.update w.files fd (some .other) }
  | openFails {w : Process} : ProcessEnv w .openFile none w

end Hal
end Emberlite
