import Emberlite.Hal.UartOpen
import Emberlite.Hal.Can
import Emberlite.Hal.SysfsPaths
import Emberlite.Lib.Bracket

/-! What opening and closing a handle does to the descriptors, the exported channels, the claimed interfaces and the
    kernel drivers.

    A call that may fail is given with its error. `close` gives the descriptor back, whatever it returns. -/

namespace Emberlite
namespace Hal
namespace Resources
open Bracket UartOpen

/-- What is held while a program runs; `Chip` are the PWM chips, and `Device` the USB devices. -/
structure Held (Chip Device : Type) where
  fds : Finset Nat
  gpios : Finset (BitVec 32)
  channels : Finset (Chip × BitVec 32)
  interfaces : Finset (Device × Int)
  drivers : Finset (Device × Int)

section Held
variable {Chip Device : Type}

/-- A call that returns a new descriptor. -/
def openFd (opened : Option Fault) (r : Held Chip Device) : Except Fault Nat × Held Chip Device :=
  match opened with
  | some e => (.error e, r)
  | none => (.ok (lowestFree r.fds), { r with fds := insert (lowestFree r.fds) r.fds })

/-- `close` -/
def closeFd (fd : Nat) (r : Held Chip Device) : Held Chip Device := { r with fds := r.fds.erase fd }

/-! ### Handles that hold one descriptor -/

/-- The status that a call with this outcome ends the function with, if it fails. -/
def checked : Option Fault → Except Status Unit
  | some e => .error (statusFromErrno e)
  | none => .ok ()

/-- `calloc` for the handle. -/
def allocated (calloc : Bool) : Except Status Unit := if calloc then .ok () else .error .noMemory

/-- `open` or `socket`, for a handle. -/
def openHandle (opened : Option Fault) (r : Held Chip Device) : Except Status Nat × Held Chip Device :=
  match openFd opened r with
  | (.error e, r) => (.error (statusFromErrno e), r)
  | (.ok fd, r) => (.ok fd, r)

/-- An open that closes its descriptor again where the rest of it fails. -/
def openWith (opened : Option Fault) (setup : Nat → Except Status Nat) :
    Held Chip Device → Except Status Nat × Held Chip Device :=
  guarded (openHandle opened) closeFd setup

/-- The error of the `open` of a serial line. -/
def openFault (given : Given) : Option Fault :=
  match given.opened with
  | .error e => some e
  | .ok _ => none

/-- What `hal_uart_open` does after the `open`. -/
def uartSetup (config : HalUartConfig) (given : Given) (line : Tty.Line) (fd : Nat) : Except Status Nat := do
  allocated given.calloc
  let h : HalUartHandle := { fd := fd, cfg := default, tioSaved := default, hasSaved := false }
  match halUartApplyConfigLocked given h line config false with
  | (.ok, _) => .ok fd
  | (st, _) => .error st

/-- `hal_uart_open`; the handle is its descriptor. -/
def halUartOpen (config : HalUartConfig) (given : Given) (line : Tty.Line) (r : Held Chip Device) :
    Except Status Nat × Held Chip Device :=
  if config.path = none ∨ config.baudrate = 0 then (.error .invalidParam, r)
  else openWith (openFault given) (uartSetup config given line) r

/-- The filter of a CAN handle, which is optional. -/
def setCanFilter (filterId : BitVec 32) (setFilter : Option Fault) : Except Status Unit :=
  if filterId ≠ 0 then checked setFilter else .ok ()

/-- `hal_can_open`, with the outcomes of its calls. -/
def halCanOpen (filterId : BitVec 32) (opened ifIndex bind setFilter : Option Fault) (calloc : Bool) :
    Held Chip Device → Except Status Nat × Held Chip Device :=
  openWith opened fun fd => do
    checked ifIndex
    checked bind
    setCanFilter filterId setFilter
    allocated calloc
    return fd

/-- The errors of a file that is opened, written and closed. -/
structure WriteGiven where
  opened : Option Fault
  write : Option Fault

/-- `write_text_file` and `write_sysfs`, where `store` is what the kernel does with what is written. -/
def writeFile (given : WriteGiven) (store : Held Chip Device → Except Fault (Held Chip Device)) (r : Held Chip Device) :
    Except Fault Unit × Held Chip Device :=
  match openFd given.opened r with
  | (.error e, r) => (.error e, r)
  | (.ok fd, r) =>
    match given.write with
    | some e => (.error e, closeFd fd r)
    | none =>
      match store r with
      | .error e => (.error e, closeFd fd r)
      | .ok r => (.ok (), closeFd fd r)

/-- `EBUSY` -/
def ebusy : Fault := ⟨.ebusy, nofun⟩

/-- `EINVAL` -/
def einval : Fault := ⟨.einval, nofun⟩

/-- An export that has been made before is not an error. -/
def exported : Except Fault Unit × Held Chip Device → Except Status Unit × Held Chip Device
  | (.ok _, r) => (.ok (), r)
  | (.error e, r) => if e.val = .ebusy then (.ok (), r) else (.error (statusFromErrno e), r)

/-! ### GPIO -/

section Pwm
open SysfsPaths CString
variable [DecidableEq Chip]

/-- The files that export and unexport the channels of a chip, by their paths. -/
structure PwmFiles (Chip : Type) where
  exportFile : List UInt8 → Option Chip
  unexportFile : List UInt8 → Option Chip

/-- The outcomes of the calls of `hal_pwm_open` and `hal_pwm_close`. -/
structure PwmGiven where
  exportFile : WriteGiven
  calloc : Bool
  -- On close.
  unexportFile : WriteGiven

/-- A file that belongs to no chip takes what is written. -/
def exportChannel (chip : Option Chip) (channel : BitVec 32) (r : Held Chip Device) :
    Except Fault (Held Chip Device) :=
  match chip with
  | none => .ok r
  | some c =>
    if (c, channel) ∈ r.channels then .error ebusy else .ok { r with channels := insert (c, channel) r.channels }

/-- The kernel unexports a channel that is exported. -/
def unexportChannel (chip : Option Chip) (channel : BitVec 32) (r : Held Chip Device) :
    Except Fault (Held Chip Device) :=
  match chip with
  | none => .ok r
  | some c =>
    if (c, channel) ∈ r.channels then .ok { r with channels := r.channels.erase (c, channel) } else .error einval

/-- `pwm_export` -/
def pwmExport (files : PwmFiles Chip) (chipPath : List UInt8) (channel : BitVec 32) (given : WriteGiven)
    (r : Held Chip Device) : Except Status Unit × Held Chip Device :=
  exported (writeFile given (exportChannel (files.exportFile (text (SysfsPaths.pwmExport chipPath))) channel) r)

/-- `pwm_try_unexport`. Its result is not looked at. -/
def pwmTryUnexport (files : PwmFiles Chip) (chipPath : List UInt8) (channel : BitVec 32) (given : WriteGiven)
    (r : Held Chip Device) : Held Chip Device :=
  (writeFile given (unexportChannel (files.unexportFile (text (SysfsPaths.pwmTryUnexport chipPath))) channel) r).2

/-- `hal_pwm_open` -/
def halPwmOpen (files : PwmFiles Chip) (config : HalPwmConfig) (given : PwmGiven) (r : Held Chip Device) :
    Except Status PwmStrings × Held Chip Device :=
  match pwmExport files config.chipPath config.channel given.exportFile r with
  | (.error st, r) => (.error st, r)
  | (.ok _, r) => if given.calloc then (.ok (pwmStrings config), r) else (.error .noMemory, r)

/-- `hal_pwm_close` -/
def halPwmClose (files : PwmFiles Chip) (given : PwmGiven) (h : PwmStrings) (r : Held Chip Device) : Held Chip Device :=
  pwmTryUnexport files (snprintf 256 (text h.chipPath)) h.channel given.unexportFile r

end Pwm

/-! ### USB -/

section Usb

/-- What `libusb_detach_kernel_driver` returns. -/
inductive Detach where
  | ok
  -- There is no driver.
  | notFound
  | error
  deriving DecidableEq, Repr

/-- The calls of `libusb`, with what they do to what is held; `Ctx` are its contexts, and `Dev` the devices that are
    open. -/
structure Libusb (Chip Device Ctx Dev : Type) where
  init : Held Chip Device → Option Ctx × Held Chip Device
  openDeviceWithVidPid : Ctx → (vendorId productId : BitVec 16) → Held Chip Device → Option Dev × Held Chip Device
  detachKernelDriver : Dev → Int → Held Chip Device → Detach × Held Chip Device
  -- Whether the interface is claimed now.
  claimInterface : Dev → Int → Held Chip Device → Bool × Held Chip Device
  releaseInterface : Dev → Int → Held Chip Device → Held Chip Device
  close : Dev → Held Chip Device → Held Chip Device
  exit : Ctx → Held Chip Device → Held Chip Device
  -- What a context and an open device stand for.
  ctxFds : Ctx → Finset Nat
  devFds : Dev → Finset Nat
  deviceOf : Dev → Device

section Documented
variable [DecidableEq Device] {Ctx Dev : Type}

/-- What is documented of the calls: a context and an open device hold descriptors of their own until they are given back,
    a driver that is detached is gone, an interface is claimed by one handle at a time until it is released, and a call that
    fails has done nothing. -/
structure Libusb.Documented (lib : Libusb Chip Device Ctx Dev) : Prop where
  init_ok : ∀ r ctx t, lib.init r = (some ctx, t) →
    Disjoint r.fds (lib.ctxFds ctx) ∧ t = { r with fds := r.fds ∪ lib.ctxFds ctx }
  init_error : ∀ r t, lib.init r = (none, t) → t = r
  open_ok : ∀ ctx vendorId productId r dev t, lib.openDeviceWithVidPid ctx vendorId productId r = (some dev, t) →
    Disjoint r.fds (lib.devFds dev) ∧ t = { r with fds := r.fds ∪ lib.devFds dev }
  open_error : ∀ ctx vendorId productId r t, lib.openDeviceWithVidPid ctx vendorId productId r = (none, t) → t = r
  detach_ok : ∀ dev n r t, lib.detachKernelDriver dev n r = (.ok, t) →
    (lib.deviceOf dev, n) ∈ r.drivers ∧ t = { r with drivers := r.drivers.erase (lib.deviceOf dev, n) }
  detach_notFound : ∀ dev n r t, lib.detachKernelDriver dev n r = (.notFound, t) →
    (lib.deviceOf dev, n) ∉ r.drivers ∧ t = r
  detach_error : ∀ dev n r t, lib.detachKernelDriver dev n r = (.error, t) → t = r
  claim_ok : ∀ dev n r t, lib.claimInterface dev n r = (true, t) →
    (lib.deviceOf dev, n) ∉ r.interfaces ∧ t = { r with interfaces := insert (lib.deviceOf dev, n) r.interfaces }
  claim_error : ∀ dev n r t, lib.claimInterface dev n r = (false, t) → t = r
  release : ∀ dev n r, lib.releaseInterface dev n r =
    { r with interfaces := r.interfaces.erase (lib.deviceOf dev, n) }
  close : ∀ dev r, lib.close dev r = { r with fds := r.fds \ lib.devFds dev }
  exit : ∀ ctx r, lib.exit ctx r = { r with fds := r.fds \ lib.ctxFds ctx }

end Documented

variable {Ctx Dev : Type}

/-- A call that takes a new descriptor. -/
def takeFd (r : Held Chip Device) : Nat × Held Chip Device :=
  (lowestFree r.fds, { r with fds := insert (lowestFree r.fds) r.fds })

end Usb

end Held

end Resources
end Hal
end Emberlite
