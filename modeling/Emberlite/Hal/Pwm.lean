import Emberlite.Hal.Syscall

/-! `hal_pwm_open`, `hal_pwm_set_frequency`, `hal_pwm_set_duty_cycle`, `hal_pwm_enable` and `hal_pwm_disable`
    (`hal_pwm.c`), over the channel that the sysfs files of the handle stand for. -/

namespace Emberlite
namespace Hal

/-- What the kernel has programmed. -/
structure PwmDevice where
  period : Nat
  duty : Nat
  enabled : Bool
  deriving DecidableEq, Repr

/-- The fields of the handle that change. -/
structure PwmHandle where
  periodNs : BitVec 32
  enabled : Bool
  deriving DecidableEq, Repr

/-- A file of the channel and the number written to it. -/
inductive SysfsWrite where
  | period (ns : Nat)
  | dutyCycle (ns : Nat)
  | enable (value : Bool)
  deriving DecidableEq, Repr

/-- A handle and the channel behind it. -/
structure Pwm where
  h : PwmHandle
  dev : PwmDevice
  deriving DecidableEq, Repr

/-- What a call returns, what it leaves, and what it has asked `write_sysfs` to write. -/
structure PwmOutcome where
  status : Status
  pwm : Pwm
  writes : List SysfsWrite
  deriving DecidableEq, Repr

/-- The kernel takes a duty up to the period, and a period down to the duty. -/
def PwmDevice.store (dev : PwmDevice) : SysfsWrite → Except Errno PwmDevice
  | .period ns => if dev.duty ≤ ns then .ok { dev with period := ns } else .error .einval
  | .dutyCycle ns => if ns ≤ dev.period then .ok { dev with duty := ns } else .error .einval
  | .enable value => .ok { dev with enabled := value }

/-- `write_sysfs`; a fault is an `open` or a `write` that fails before the kernel looks at the number, with
    the `errno` that is found then. -/
def writeSysfs (dev : PwmDevice) (w : SysfsWrite) : Option Errno → Except Errno PwmDevice
  | some errno => .error errno
  | none => dev.store w

/-- A call that writes once, and what it does to the handle when the write succeeds. -/
def Pwm.write (s : Pwm) (w : SysfsWrite) (fault : Option Errno) (done : PwmHandle → PwmHandle) : PwmOutcome :=
  match writeSysfs s.dev w fault with
  | .ok dev => ⟨.ok, ⟨done s.h, dev⟩, [w]⟩
  | .error errno => ⟨statusFromErrno errno, s, [w]⟩

/-- The export may fail, with `EBUSY` when it has been made before, and so may `calloc`. -/
def halPwmOpen (dev : PwmDevice) (exportFault : Option Errno) (calloc : Bool) : Except Status Pwm :=
  let opened := if calloc then .ok ⟨⟨1000000, false⟩, dev⟩ else .error .noMemory
  match exportFault with
  | none | some .ebusy => opened
  | some errno => if statusFromErrno errno = .ok then opened else .error (statusFromErrno errno)

/-- `hal_pwm_set_frequency` -/
def halPwmSetFrequency (s : Pwm) (hz : BitVec 32) (fault : Option Errno) : PwmOutcome :=
  if hz = 0 then ⟨.invalidParam, s, []⟩
  else
    let period := 1000000000 / hz.toNat
    if period = 0 ∨ 0xFFFFFFFF < period then ⟨.invalidParam, s, []⟩
    else
      -- The handle takes the period before the file does.
      let s := { s with h := { s.h with periodNs := BitVec.ofNat 32 period } }
      s.write (.period s.h.periodNs.toNat) fault id

/-- From the scaled percentage on. -/
def halPwmSetDutyCycle (s : Pwm) (pct : Nat) (fault : Option Errno) : PwmOutcome :=
  let pct := if 1000000 < pct then 1000000 else pct
  let duty := BitVec.ofNat 32 (s.h.periodNs.toNat * pct / 1000000)
  let duty := if s.h.periodNs < duty then s.h.periodNs else duty
  s.write (.dutyCycle duty.toNat) fault id

/-- `hal_pwm_enable` -/
def halPwmEnable (s : Pwm) (fault : Option Errno) : PwmOutcome :=
  s.write (.enable true) fault fun h => { h with enabled := true }

/-- `hal_pwm_disable` -/
def halPwmDisable (s : Pwm) (fault : Option Errno) : PwmOutcome :=
  s.write (.enable false) fault fun h => { h with enabled := false }

end Hal
end Emberlite
