import Emberlite.Hal.Syscall

/-! `hal_usb_control_transfer` and `hal_usb_bulk_write`, over `libusb`. -/

namespace Emberlite
namespace Hal
open Interleave

/-- What a transfer asks for: the copy of the device field of the handle, under its mutex, or a call of `libusb`. -/
inductive UsbCall where
  | device
  | controlTransfer (reqType req : Byte) (val idx wLength : BitVec 16) (timeout : Int)
  | bulkTransfer (endpoint : Byte) (length : Int) (timeout : Int)

/-- What each call may give. -/
abbrev UsbCall.Result : UsbCall → Type
  -- The device is not NULL.
  | .device => Bool
  | .controlTransfer .. => Int
  -- The error, and `transferred`.
  | .bulkTransfer .. => Int × Int

/-- Where a transfer is. -/
inductive UsbPc where
  | device
  | transfer
  | ret (st : Status)

/-- The timeout that is passed on; `forever` stands for a negative one. -/
def usbTimeout (forever timeoutMs : Int) : Int := if timeoutMs < 0 then forever else timeoutMs

/-- `hal_usb_control_transfer` -/
def halUsbControlTransfer (reqType req : Byte) (val idx : BitVec 16) (len : BitVec 64) (timeoutMs : Int) :
    Thread UsbCall UsbCall.Result Status UsbPc where
  entry := .device
  next
    | .device => .call .device fun dev => if !dev then .ret .io else if len > 65535 then .ret .invalidParam else .transfer
    | .transfer => .call (.controlTransfer reqType req val idx (len.setWidth 16) (usbTimeout 1000 timeoutMs)) fun r =>
      if r < 0 then .ret .io else .ret .ok
    | .ret st => .ret st

/-- `hal_usb_bulk_write`; the length is passed on as an `int`. -/
def halUsbBulkWrite (endpoint : Byte) (len : BitVec 64) (timeoutMs : Int) :
    Thread UsbCall UsbCall.Result Status UsbPc where
  entry := .device
  next
    | .device => .call .device fun dev => if !dev then .ret .io else .transfer
    | .transfer => .call (.bulkTransfer endpoint (len.setWidth 32).toInt (usbTimeout 60000 timeoutMs))
        fun (err, transferred) =>
      if err ≠ 0 then .ret .io else if BitVec.ofInt 64 transferred ≠ len then .ret .io else .ret .ok
    | .ret st => .ret st

end Hal
end Emberlite
