import Emberlite.Hal.Syscall

/-! `hal_gpio_read`, `hal_gpio_write` and `hal_gpio_toggle`. -/

namespace Emberlite
namespace Hal
open Interleave

/-- Where `hal_gpio_read` is. -/
inductive GpioReadPc where
  | fetch
  | lseek (fd : Int)
  | read (fd : Int)
  -- The status, and what is stored in `out_level`.
  | ret (st : Status) (level : Option Byte)

/-- `hal_gpio_read` -/
def halGpioRead : Thread Syscall Syscall.Result (Status × Option Byte) GpioReadPc where
  entry := .fetch
  next
    | .fetch => .call .fetch fun fd => if fd < 0 then .ret .io none else .lseek fd
    | .lseek fd => .call (.lseek fd) fun
      | .error errno => .ret (statusFromErrno errno) none
      | .ok _ => .read fd
    | .read fd => .call (.read fd 1) fun
      | .error errno => .ret (statusFromErrno errno) none
      -- At the end of the file nothing is read, and `c` is still 0.
      | .ok data => .ret .ok (some (if data.headD 0 = 0x31 then 1 else 0))
    | .ret st level => .ret (st, level)

/-- Where `hal_gpio_write` is. -/
inductive GpioWritePc where
  | fetch
  | lseek (fd : Int)
  | write (fd : Int)
  | ret (st : Status)

/-- `hal_gpio_write`, for the `direction` of the handle. -/
def halGpioWrite (direction level : Byte) : Thread Syscall Syscall.Result Status GpioWritePc where
  entry := if direction ≠ 1 then .ret .invalidParam else .fetch
  next
    | .fetch => .call .fetch fun fd => if fd < 0 then .ret .io else .lseek fd
    | .lseek fd => .call (.lseek fd) fun
      | .error errno => .ret (statusFromErrno errno)
      | .ok _ => .write fd
    | .write fd => .call (.write fd [if level ≠ 0 then 0x31 else 0x30]) fun
      | .error errno => .ret (statusFromErrno errno)
      | .ok _ => .ret .ok
    | .ret st => .ret st

/-- `hal_gpio_toggle` after its call of `hal_gpio_read`. -/
def gpioToggleWrite (direction : Byte) : Status × Option Byte → Thread Syscall Syscall.Result Status GpioWritePc
  | (st, v) =>
    let write := halGpioWrite direction (if v.getD 0 ≠ 0 then 0 else 1)
    { write with entry := if st ≠ .ok then .ret st else write.entry }

/-- `hal_gpio_toggle`: a read, and a write of the other level. -/
def halGpioToggle (direction : Byte) :
    Thread Syscall Syscall.Result Status (GpioReadPc ⊕ (Status × Option Byte) × GpioWritePc) :=
  halGpioRead.andThen (gpioToggleWrite direction)

end Hal
end Emberlite
