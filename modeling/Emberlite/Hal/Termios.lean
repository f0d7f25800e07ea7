import Emberlite.Hal.Syscall
import Emberlite.Lib.FlagWord

/-! The terminal interface of Linux: `struct termios` with `tcgetattr` and `tcsetattr`, `struct termios2` with `TCGETS2`
    and `TCSETS2`, and the line that they describe.

    Only `termios2` has rates; `termios` has the codes of rates in its `c_cflag`, and the code `BOTHER` stands for a rate
    that is somewhere else. A line that is given that code through `termios` stays at its rate. -/

namespace Emberlite
namespace Hal
namespace Tty

/-! ### Flags -/

/-- `tcflag_t` -/
abbrev Tcflag := BitVec 32

/-- `speed_t`: the code of a rate. -/
abbrev Speed := BitVec 32

/-- The flags of `c_iflag`. -/
def ignbrk : Tcflag := 0x1
def brkint : Tcflag := 0x2
def parmrk : Tcflag := 0x8
def inpck : Tcflag := 0x10
def istrip : Tcflag := 0x20
def inlcr : Tcflag := 0x40
def igncr : Tcflag := 0x80
def icrnl : Tcflag := 0x100
def ixon : Tcflag := 0x400
def ixany : Tcflag := 0x800
def ixoff : Tcflag := 0x1000

/-- The flag of `c_oflag`. -/
def opost : Tcflag := 0x1

/-- The flags of `c_lflag`. -/
def isig : Tcflag := 0x1
def icanon : Tcflag := 0x2
def echo : Tcflag := 0x8
def echonl : Tcflag := 0x40
def iexten : Tcflag := 0x8000

/-- The flags and the masks of `c_cflag`. -/
def csize : Tcflag := 0x30
def cs5 : Tcflag := 0x0
def cs6 : Tcflag := 0x10
def cs7 : Tcflag := 0x20
def cs8 : Tcflag := 0x30
def cstopb : Tcflag := 0x40
def cread : Tcflag := 0x80
def parenb : Tcflag := 0x100
def parodd : Tcflag := 0x200
def clocal : Tcflag := 0x800
def cbaud : Tcflag := 0x100F
def bother : Tcflag := 0x1000
def cibaud : Tcflag := 0x100F0000
def cmspar : Tcflag := 0x40000000
def crtscts : Tcflag := 0x80000000

/-- How far the code of the input rate is shifted in `c_cflag`. -/
def ibshift : Nat := 16

/-! ### Rates -/

/-- The rates that have a constant `Bxxx`, with its value. -/
def bauds : List (BitVec 32 × Speed) :=
  [(0, 0x0), (50, 0x1), (75, 0x2), (110, 0x3), (134, 0x4), (150, 0x5), (200, 0x6), (300, 0x7), (600, 0x8), (1200, 0x9),
   (1800, 0xA), (2400, 0xB), (4800, 0xC), (9600, 0xD), (19200, 0xE), (38400, 0xF), (57600, 0x1001), (115200, 0x1002),
   (230400, 0x1003), (460800, 0x1004), (500000, 0x1005), (576000, 0x1006), (921600, 0x1007), (1000000, 0x1008),
   (1152000, 0x1009), (1500000, 0x100A), (2000000, 0x100B), (2500000, 0x100C), (3000000, 0x100D), (3500000, 0x100E),
   (4000000, 0x100F)]

/-- The rate of a code; `other` is where the rate of `BOTHER` is. -/
def namedRate (code : Speed) (other : BitVec 32) : BitVec 32 :=
  if code = bother then other else ((bauds.map Prod.swap).lookup code).getD 0

theorem namedRate_namedRate (code : Speed) (other : BitVec 32) :
    namedRate code (namedRate code other) = namedRate code other := by
  by_cases h : code = bother
  · rw [namedRate, if_pos h]
  · rw [namedRate, if_neg h, namedRate, if_neg h]

theorem namedRate_eq_iff {code : Speed} {x y : BitVec 32} :
    namedRate code x = namedRate code y ↔ (code = bother → x = y) := by
  unfold namedRate
  by_cases hcode : code = bother
  · rw [if_pos hcode, if_pos hcode]
    exact ⟨fun h _ => h, fun h => h hcode⟩
  · rw [if_neg hcode, if_neg hcode]
    exact ⟨fun _ h => absurd h hcode, fun _ => rfl⟩

/-! ### The two structures -/

/-- `struct termios`, without the rates that `cfsetispeed` and `cfsetospeed` note beside `c_cflag`. -/
structure Termios where
  cIflag : Tcflag
  cOflag : Tcflag
  cCflag : Tcflag
  cLflag : Tcflag
  cLine : Byte
  cCc : Vector Byte 19
  deriving DecidableEq, Repr, Inhabited

/-- `struct termios2` -/
structure Termios2 extends Termios where
  cIspeed : BitVec 32
  cOspeed : BitVec 32
  deriving DecidableEq, Repr

/-- `cfsetispeed`, for a code other than `B0`. -/
def cfsetispeed (tio : Termios) (spd : Speed) : Termios := { tio with cCflag := tio.cCflag &&& ~~~cbaud ||| spd }

/-- `cfsetospeed` -/
def cfsetospeed (tio : Termios) (spd : Speed) : Termios := { tio with cCflag := tio.cCflag &&& ~~~cbaud ||| spd }

/-- The code of the input rate. -/
def Termios.inputCode (tio : Termios) : Speed := (tio.cCflag &&& cibaud) >>> ibshift

/-- The code of the output rate. -/
def Termios.outputCode (tio : Termios) : Speed := tio.cCflag &&& cbaud

/-- The rate of the output. -/
def Termios2.outputRate (t2 : Termios2) : BitVec 32 := namedRate t2.outputCode t2.cOspeed

/-- Without a code of its own the input has the rate of the output. -/
def Termios2.inputRate (t2 : Termios2) : BitVec 32 :=
  if t2.inputCode = 0 then t2.outputRate else namedRate t2.inputCode t2.cIspeed

/-- The settings with the rates that they name. -/
def Termios2.named (t2 : Termios2) : Termios2 := { t2 with cIspeed := t2.inputRate, cOspeed := t2.outputRate }

theorem Termios2.outputRate_named (t2 : Termios2) : t2.named.outputRate = t2.outputRate :=
  namedRate_namedRate t2.outputCode t2.cOspeed

theorem Termios2.inputRate_named (t2 : Termios2) : t2.named.inputRate = t2.inputRate := by
  by_cases hin : t2.inputCode = 0
  · have hnamed : t2.named.inputCode = 0 := hin
    rw [inputRate, if_pos hnamed, inputRate, if_pos hin, outputRate_named]
  · have hnamed : t2.named.inputCode ≠ 0 := hin
    have hrate : t2.inputRate = namedRate t2.inputCode t2.cIspeed := by rw [inputRate, if_neg hin]
    have hspeed : t2.named.cIspeed = t2.inputRate := rfl
    have hcode : t2.named.inputCode = t2.inputCode := rfl
    rw [inputRate, if_neg hnamed, hspeed, hcode, hrate, namedRate_namedRate]

theorem Termios2.named_named (t2 : Termios2) : t2.named.named = t2.named := by
  have hin := t2.inputRate_named
  have hout := t2.outputRate_named
  rw [named, hin, hout]
  rfl

/-! ### The line -/

/-- The settings in force: the rates in them are those that the line has. -/
structure Line extends Termios2 where
  named_eq : toTermios2.named = toTermios2
  deriving DecidableEq

theorem Line.eq_of_eq {a b : Line} (ht : a.toTermios = b.toTermios) (hi : a.cIspeed = b.cIspeed)
    (ho : a.cOspeed = b.cOspeed) : a = b := by
  obtain ⟨⟨t, i, o⟩, ha⟩ := a
  obtain ⟨⟨t', i', o'⟩, hb⟩ := b
  obtain ⟨rfl, rfl, rfl⟩ : t = t' ∧ i = i' ∧ o = o' := ⟨ht, hi, ho⟩
  rfl

/-- The line after these settings are installed. -/
def Termios2.installed (t2 : Termios2) : Line := ⟨t2.named, t2.named_named⟩

/-- What a successful `tcgetattr` reads. -/
def tcgetattr (line : Line) : Termios := line.toTermios

/-- What a successful `tcsetattr` does to the line. -/
def tcsetattr (tio : Termios) (line : Line) : Line := { line.toTermios2 with toTermios := tio : Termios2 }.installed

/-- `tcsetattr` brings back the settings that `tcgetattr` has read, if `termios` had their rates. -/
theorem tcsetattr_eq_iff (before line : Line) :
    tcsetattr before.toTermios line = before ↔
      (before.outputCode = bother → before.cOspeed = line.cOspeed) ∧
        (before.inputCode = bother → before.cIspeed = line.cIspeed) := by
  have hout : namedRate before.outputCode before.cOspeed = before.cOspeed := congrArg Termios2.cOspeed before.named_eq
  have hin : before.inputRate = before.cIspeed := congrArg Termios2.cIspeed before.named_eq
  have hzero : bother ≠ 0 := by decide
  -- The rates that the line gets.
  have hospeed : (tcsetattr before.toTermios line).cOspeed = namedRate before.outputCode line.cOspeed := rfl
  have hispeed : (tcsetattr before.toTermios line).cIspeed = if before.inputCode = 0 then
      namedRate before.outputCode line.cOspeed else namedRate before.inputCode line.cIspeed := rfl
  constructor
  · intro heq
    rw [heq] at hospeed hispeed
    refine ⟨namedRate_eq_iff.mp (hout.trans hospeed), fun hcode => ?_⟩
    rw [if_neg (hcode ▸ hzero), hcode, namedRate, if_pos rfl] at hispeed
    exact hispeed
  · rintro ⟨ho, hi⟩
    refine Line.eq_of_eq rfl ?_ ?_
    · rw [hispeed, ← namedRate_eq_iff.mpr ho, ← namedRate_eq_iff.mpr hi]
      exact hin
    · rw [hospeed, ← namedRate_eq_iff.mpr ho, hout]

/-- Parity as it is on the line. -/
inductive Parity where
  | none
  | odd
  | even
  | mark
  | space
  deriving DecidableEq, Repr

/-- Which flow control is on: the lines RTS and CTS, and XON and XOFF for the output and for the input. -/
structure FlowControl where
  rtsCts : Bool
  xonOut : Bool
  xonIn : Bool
  deriving DecidableEq, Repr

/-- How a character goes over the line. -/
structure Framing where
  dataBits : Nat
  stopBits : Nat
  parity : Parity
  flowControl : FlowControl
  deriving DecidableEq, Repr

/-- The data bits that `c_cflag` asks for. -/
def dataBits (cflag : Tcflag) : Nat :=
  if cflag &&& csize = cs5 then 5 else if cflag &&& csize = cs6 then 6 else if cflag &&& csize = cs7 then 7 else 8

/-- The stop bits that `c_cflag` asks for. -/
def stopBits (cflag : Tcflag) : Nat := if cflag &&& cstopb = 0 then 1 else 2

/-- With `CMSPAR` the flag `PARODD` chooses between mark and space. -/
def parity (cflag : Tcflag) : Parity :=
  if cflag &&& parenb = 0 then .none
  else if cflag &&& cmspar = 0 then if cflag &&& parodd = 0 then .even else .odd
  else if cflag &&& parodd = 0 then .space else .mark

/-- The flow control that `c_cflag` and `c_iflag` ask for. -/
def flowControl (cflag iflag : Tcflag) : FlowControl where
  rtsCts := cflag &&& crtscts ≠ 0
  xonOut := iflag &&& ixon ≠ 0
  xonIn := iflag &&& ixoff ≠ 0

/-- The framing that the settings ask for. -/
def Termios.framing (tio : Termios) : Framing where
  dataBits := dataBits tio.cCflag
  stopBits := stopBits tio.cCflag
  parity := parity tio.cCflag
  flowControl := flowControl tio.cCflag tio.cIflag

end Tty
end Hal
end Emberlite
