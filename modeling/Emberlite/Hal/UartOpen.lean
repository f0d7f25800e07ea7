import Emberlite.Hal.Termios

/-! `hal_uart_open`, `hal_uart_set_baudrate` and `hal_uart_close`, which bring the settings of a handle onto its line. -/

namespace Emberlite
namespace Hal
namespace UartOpen
open Tty

/-- `hal_uart_config_t` -/
structure HalUartConfig where
  path : Option (List Byte)
  baudrate : BitVec 32
  dataBits : Byte
  stopBits : Byte
  parity : Byte
  flowControl : Byte
  deriving DecidableEq, Repr, Inhabited

/-- `struct hal_uart_handle_impl`, without its mutex. -/
structure HalUartHandle where
  fd : Int
  cfg : HalUartConfig
  tioSaved : Termios
  hasSaved : Bool
  deriving DecidableEq, Repr

/-- The `errno` of a call that failed. -/
abbrev Fault := {errno : Errno // errno ≠ .none}

/-- What the calls that one function makes come to; each function makes each of them once at most. -/
structure Given where
  opened : Except Fault Nat
  calloc : Bool
  tcgetattr : Option Fault
  tcsetattr : Option Fault
  tcgets2 : Option Fault
  tcsets2 : Option Fault
  close : Option Fault

/-- `hal_uart_baud_to_speed` -/
def halUartBaudToSpeed (baud : BitVec 32) : Speed := (bauds.lookup baud).getD 0

/-- `hal_uart_apply_termios_baud_linux` -/
def halUartApplyTermiosBaudLinux (given : Given) (line : Line) (tio : Termios) (baud : BitVec 32) : Status × Line :=
  match given.tcgets2 with
  | some e => (statusFromErrno e, line)
  | none =>
    let t2 : Termios2 := { line.toTermios2 with toTermios := tio }
    let t2 := { t2 with cCflag := t2.cCflag &&& ~~~cbaud }
    let t2 := { t2 with cCflag := t2.cCflag ||| bother }
    let t2 := { t2 with cIspeed := baud, cOspeed := baud }
    match given.tcsets2 with
    | some e => (statusFromErrno e, line)
    | none => (.ok, t2.installed)

/-- `hal_uart_apply_termios_baud` -/
def halUartApplyTermiosBaud (given : Given) (line : Line) (tio : Termios) (baud : BitVec 32) : Status × Line :=
  let spd := halUartBaudToSpeed baud
  if spd ≠ 0 then
    let tio := cfsetospeed (cfsetispeed tio spd) spd
    match given.tcsetattr with
    | some e => (statusFromErrno e, line)
    | none => (.ok, tcsetattr tio line)
  else halUartApplyTermiosBaudLinux given line tio baud

/-! ### The edits of `hal_uart_apply_config_locked` -/

/-- The settings of a line that takes every byte as it is. -/
def makeRaw (tio : Termios) : Termios where
  cIflag := tio.cIflag &&& ~~~(ignbrk ||| brkint ||| parmrk ||| istrip ||| inlcr ||| igncr ||| icrnl ||| ixon)
  cOflag := tio.cOflag &&& ~~~opost
  cLflag := tio.cLflag &&& ~~~(echo ||| echonl ||| icanon ||| isig ||| iexten)
  cCflag := tio.cCflag &&& ~~~(csize ||| parenb) ||| cs8 ||| (clocal ||| cread)
  cLine := tio.cLine
  cCc := tio.cCc

/-- The data bits of the configuration. -/
def setDataBits (dataBits : Byte) (tio : Termios) : Except Status Termios :=
  let tio := { tio with cCflag := tio.cCflag &&& ~~~csize }
  if dataBits = 5 then .ok { tio with cCflag := tio.cCflag ||| cs5 }
  else if dataBits = 6 then .ok { tio with cCflag := tio.cCflag ||| cs6 }
  else if dataBits = 7 then .ok { tio with cCflag := tio.cCflag ||| cs7 }
  else if dataBits = 8 then .ok { tio with cCflag := tio.cCflag ||| cs8 }
  else .error .invalidParam

/-- The stop bits of the configuration. -/
def setStopBits (stopBits : Byte) (tio : Termios) : Except Status Termios :=
  if stopBits = 1 then .ok { tio with cCflag := tio.cCflag &&& ~~~cstopb }
  else if stopBits = 2 then .ok { tio with cCflag := tio.cCflag ||| cstopb }
  else .error .invalidParam

/-- The parity of the configuration. -/
def setParity (parity : Byte) (tio : Termios) : Except Status Termios :=
  if parity = 0 then
    .ok { tio with cCflag := tio.cCflag &&& ~~~parenb, cIflag := tio.cIflag &&& ~~~(inpck ||| istrip) }
  else if parity = 1 then
    .ok { tio with cCflag := tio.cCflag ||| (parenb ||| parodd), cIflag := tio.cIflag ||| inpck }
  else if parity = 2 then
    .ok { tio with cCflag := (tio.cCflag ||| parenb) &&& ~~~parodd, cIflag := tio.cIflag ||| inpck }
  else .error .invalidParam

/-- The flow control of the configuration. -/
def setFlowControl (flowControl : Byte) (tio : Termios) : Except Status Termios :=
  if flowControl = 0 then
    .ok { tio with cCflag := tio.cCflag &&& ~~~crtscts, cIflag := tio.cIflag &&& ~~~(ixon ||| ixoff ||| ixany) }
  else if flowControl = 1 then
    .ok { tio with cCflag := tio.cCflag ||| crtscts, cIflag := tio.cIflag &&& ~~~(ixon ||| ixoff ||| ixany) }
  else if flowControl = 2 then
    .ok { tio with cCflag := tio.cCflag &&& ~~~crtscts, cIflag := (tio.cIflag ||| (ixon ||| ixoff)) &&& ~~~ixany }
  else .error .invalidParam

/-- `VMIN` is 6 and `VTIME` is 5. -/
def setMinTime (tio : Termios) : Termios := { tio with cCc := (tio.cCc.set 6 1).set 5 0 }

/-- The settings that `hal_uart_apply_config_locked` makes of those of the line, apart from the rate. -/
def configured (cfg : HalUartConfig) (tio : Termios) : Except Status Termios := do
  let tio ← setDataBits cfg.dataBits (makeRaw tio)
  let tio ← setStopBits cfg.stopBits tio
  let tio ← setParity cfg.parity tio
  let tio ← setFlowControl cfg.flowControl tio
  return setMinTime tio

/-- The settings of the line are saved once. -/
def HalUartHandle.saving (h : HalUartHandle) (tio : Termios) (keepSaved : Bool) : HalUartHandle :=
  if !keepSaved && !h.hasSaved then { h with tioSaved := tio, hasSaved := true } else h

/-- `hal_uart_apply_config_locked` -/
def halUartApplyConfigLocked (given : Given) (h : HalUartHandle) (line : Line) (cfg : HalUartConfig) (keepSaved : Bool) :
    Status × HalUartHandle × Line :=
  match given.tcgetattr with
  | some e => (statusFromErrno e, h, line)
  | none =>
    let tio := tcgetattr line
    let h := h.saving tio keepSaved
    match configured cfg tio with
    | .error st => (st, h, line)
    | .ok tio =>
      match halUartApplyTermiosBaud given line tio cfg.baudrate with
      | (.ok, line) => (.ok, { h with cfg := cfg }, line)
      | (st, line) => (st, h, line)

/-! ### The calls -/

/-- `hal_uart_open`: the handle that it stores, and the line. -/
def halUartOpen (given : Given) (line : Line) (config : HalUartConfig) : Status × Option HalUartHandle × Line :=
  if config.path = none then (.invalidParam, none, line)
  else if config.baudrate = 0 then (.invalidParam, none, line)
  else
    match given.opened with
    | .error e => (statusFromErrno e, none, line)
    | .ok fd =>
      if !given.calloc then (.noMemory, none, line)
      else
        let h : HalUartHandle := { fd := fd, cfg := default, tioSaved := default, hasSaved := false }
        match halUartApplyConfigLocked given h line config false with
        | (.ok, h, line) => (.ok, some h, line)
        | (st, _, line) => (st, none, line)

/-- `hal_uart_set_baudrate` -/
def halUartSetBaudrate (given : Given) (h : HalUartHandle) (line : Line) (baudrate : BitVec 32) :
    Status × HalUartHandle × Line :=
  if baudrate = 0 then (.invalidParam, h, line)
  else if h.fd < 0 then (.io, h, line)
  else halUartApplyConfigLocked given h line { h.cfg with baudrate := baudrate } true

/-- `hal_uart_close`, which frees the handle. -/
def halUartClose (given : Given) (h : HalUartHandle) (line : Line) : Status × Line :=
  let line := if 0 ≤ h.fd && h.hasSaved && given.tcsetattr.isNone then tcsetattr h.tioSaved line else line
  if 0 ≤ h.fd then
    match given.close with
    | some e => (statusFromErrno e, line)
    | none => (.ok, line)
  else (.ok, line)

end UartOpen
end Hal
end Emberlite
