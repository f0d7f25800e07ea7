import Emberlite.Hal.Syscall

/-! `hal_i2c_write`, `hal_i2c_read`, `hal_i2c_write_reg` and `hal_i2c_read_reg`. They differ in the transfers that
    they make on the bus, one after the other. -/

namespace Emberlite
namespace Hal
open Interleave

/-- One transfer on the bus. -/
inductive Transfer where
  | write (data : List Byte)
  | read (len : Nat)
  deriving DecidableEq, Repr

/-- Where an I2C call is. -/
inductive I2cPc where
  | fetch
  | malloc (fd : Int) (size : Nat)
  -- The transfers that are left, and what a read has stored.
  | transfer (fd : Int) (rest : List Transfer) (data : List Byte)
  | ret (st : Status) (data : List Byte)

/-- The transfers of a call, after the allocation of a copy of its data if it makes one. -/
def i2cCall (nothing : Bool) (copy : Option Nat) (transfers : List Transfer) :
    Thread Syscall Syscall.Result (Status × List Byte) I2cPc where
  entry := if nothing then .ret .ok [] else .fetch
  next
    | .fetch => .call .fetch fun fd =>
      if fd < 0 then .ret .io [] else copy.elim (.transfer fd transfers []) (.malloc fd)
    | .malloc fd size => .call (.malloc size) fun allocated =>
      if allocated then .transfer fd transfers [] else .ret .noMemory []
    | .transfer fd (.write bytes :: rest) data => .call (.write fd bytes) fun
      | .error errno => .ret (statusFromErrno errno) data
      | .ok w => if w ≠ bytes.length then .ret .io data else .transfer fd rest data
    | .transfer fd (.read len :: rest) data => .call (.read fd len) fun
      | .error errno => .ret (statusFromErrno errno) data
      | .ok bytes => if bytes.length ≠ len then .ret .io bytes else .transfer fd rest bytes
    | .transfer _ [] data => .ret (.ok, data)
    | .ret st data => .ret (st, data)

/-- `hal_i2c_write` -/
def halI2cWrite (data : List Byte) : Thread Syscall Syscall.Result (Status × List Byte) I2cPc :=
  i2cCall (data.length = 0) none [.write data]

/-- `hal_i2c_read` -/
def halI2cRead (len : Nat) : Thread Syscall Syscall.Result (Status × List Byte) I2cPc :=
  i2cCall (len = 0) none [.read len]

/-- `hal_i2c_write_reg` -/
def halI2cWriteReg (reg : Byte) (data : List Byte) : Thread Syscall Syscall.Result (Status × List Byte) I2cPc :=
  i2cCall false (some (data.length + 1)) [.write (reg :: data)]

/-- `hal_i2c_read_reg` -/
def halI2cReadReg (reg : Byte) (len : Nat) : Thread Syscall Syscall.Result (Status × List Byte) I2cPc :=
  i2cCall (len = 0) none [.write [reg], .read len]

end Hal
end Emberlite
