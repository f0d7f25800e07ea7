import Emberlite.Hal.Syscall

/-! `hal_spi_transfer`. -/

namespace Emberlite
namespace Hal
open Interleave

/-- Where `hal_spi_transfer` is. -/
inductive SpiTransferPc where
  | fetch
  | ioctl (fd : Int)
  | ret (st : Status)

/-- `hal_spi_transfer`, with or without a `tx` and an `rx`. -/
def halSpiTransfer (tx rx : Bool) (len : BitVec 64) : Thread Syscall Syscall.Result Status SpiTransferPc where
  entry := if len ≠ 0 ∧ !tx ∧ !rx then .ret .invalidParam else if len = 0 then .ret .ok else .fetch
  next
    | .fetch => .call .fetch fun fd => if fd < 0 then .ret .io else .ioctl fd
    -- `t.len` has 32 bits.
    | .ioctl fd => .call (.ioctl fd (len.setWidth 32).toNat) fun
      | .error errno => .ret (statusFromErrno errno)
      | .ok _ => .ret .ok
    | .ret st => .ret st

end Hal
end Emberlite
