import Emberlite.Hal.Resources

/-! Whether an open that fails, and an open and a close, leave everything as it was. -/

namespace Emberlite
namespace Hal
namespace Lifecycle
open Bracket UartOpen Resources

section Lifecycle
variable {Chip Device : Type} {r : Held Chip Device} {fd : Nat}

/-! ### Descriptors -/

/-- The first error of a file that is written. -/
def fault (given : WriteGiven) : Option Fault :=
  match given.opened with
  | some e => some e
  | none => given.write

section Pwm
open SysfsPaths CString
variable [DecidableEq Chip]

variable {files : PwmFiles Chip} {config : HalPwmConfig} {given : PwmGiven}

end Pwm

/-! ### USB -/

section Usb
variable {Ctx Dev : Type} {lib : Libusb Chip Device Ctx Dev} {config : HalUsbConfig} {calloc : Bool}

/-- A device that is open, with its context, and what has happened to the drivers and the interfaces since. -/
structure Stage (lib : Libusb Chip Device Ctx Dev) (r : Held Chip Device) (ctx : Ctx) (dev : Dev) (t : Held Chip Device) :
    Prop where
  ctxOwn : Disjoint r.fds (lib.ctxFds ctx)
  devOwn : Disjoint (r.fds ∪ lib.ctxFds ctx) (lib.devFds dev)
  fds : t.fds = r.fds ∪ lib.ctxFds ctx ∪ lib.devFds dev
  gpios : t.gpios = r.gpios
  channels : t.channels = r.channels

theorem Stage.opened {ctx : Ctx} {dev : Dev} (hctx : Disjoint r.fds (lib.ctxFds ctx))
    (hdev : Disjoint (r.fds ∪ lib.ctxFds ctx) (lib.devFds dev)) (drivers : Finset (Device × Int)) :
    Stage lib r ctx dev { r with fds := r.fds ∪ lib.ctxFds ctx ∪ lib.devFds dev, drivers := drivers } :=
  ⟨hctx, hdev, rfl, rfl, rfl⟩

variable [DecidableEq Device]

/-- The descriptors are given back, whatever has happened to the rest. -/
theorem Stage.closed {ctx : Ctx} {dev : Dev} {t : Held Chip Device} (h : Stage lib r ctx dev t) (hlib : lib.Documented) :
    lib.exit ctx (lib.close dev t) = { r with interfaces := t.interfaces, drivers := t.drivers } := by
  rw [hlib.close, hlib.exit, h.fds, h.gpios, h.channels, Finset.union_sdiff_cancel_right h.devOwn,
    Finset.union_sdiff_cancel_right h.ctxOwn]

end Usb

/-! ### All eight -/

end Lifecycle

end Lifecycle
end Hal
end Emberlite
