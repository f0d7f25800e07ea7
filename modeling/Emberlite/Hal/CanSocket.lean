import Emberlite.Hal.Can
import Emberlite.Lib.CString

/-! `hal_can_open`, and the raw CAN socket behind a handle: its filter, and the frames that wait to be read. -/

namespace Emberlite
namespace Hal
open Interleave CString

/-- `CAN_EFF_FLAG` -/
def canEffFlag : BitVec 32 := 0x80000000

/-- `IFNAMSIZ`. -/
def ifNameSize : Nat := 16

/-- `struct can_filter` -/
structure CanFilter where
  canId : BitVec 32
  canMask : BitVec 32
  deriving DecidableEq, Repr

/-- `hal_can_config_t`; nothing reads its `bitrate`. -/
structure HalCanConfig where
  ifname : List UInt8
  filterId : BitVec 32

/-! ### The bus -/

/-- An identifier with its format. -/
inductive BusId where
  | standard (id : BitVec 11)
  | extended (id : BitVec 29)
  deriving DecidableEq, Repr

/-- A frame of the bus. -/
structure BusFrame where
  id : BusId
  rtr : Bool
  dlc : Byte
  data : Vector Byte 8
  deriving DecidableEq, Repr

/-- The identifier as the kernel writes it, with the flag of an extended one. -/
def BusId.canId : BusId → BitVec 32
  | .standard id => id.setWidth 32
  | .extended id => id.setWidth 32 ||| canEffFlag

/-- A frame of the bus as the kernel hands it on. -/
def BusFrame.toCanFrame (b : BusFrame) : CanFrame where
  canId := b.id.canId ||| if b.rtr then canRtrFlag else 0
  canDlc := b.dlc
  data := b.data

/-! ### The socket -/

/-- A raw CAN socket, with the data that was written to it and the frames that wait. -/
structure CanSocket where
  bound : Bool
  filter : Option CanFilter
  sent : List (List Byte)
  pending : List CanFrame

/-- A socket as `socket` gives it. -/
def CanSocket.unbound : CanSocket := ⟨false, none, [], []⟩

/-- The rule of the kernel. -/
def CanFilter.Passes (flt : CanFilter) (canId : BitVec 32) : Prop := canId &&& flt.canMask = flt.canId &&& flt.canMask

instance (flt : CanFilter) (canId : BitVec 32) : Decidable (flt.Passes canId) := inferInstanceAs (Decidable (_ = _))

/-- A socket without a filter takes every frame. -/
def CanSocket.Takes (s : CanSocket) (cf : CanFrame) : Prop := ∀ flt, s.filter = some flt → flt.Passes cf.canId

instance (s : CanSocket) (cf : CanFrame) : Decidable (s.Takes cf) :=
  match h : s.filter with
  | none => isTrue fun flt hflt => by rw [h] at hflt; cases hflt
  | some flt => decidable_of_iff (flt.Passes cf.canId) (by simp [CanSocket.Takes, h])

/-- Frames arrive, one after the other. -/
def CanSocket.arrive (s : CanSocket) (frames : List BusFrame) : CanSocket :=
  if s.bound then { s with pending := s.pending ++ (frames.map BusFrame.toCanFrame).filter (s.Takes ·) } else s

/-- System calls on the socket. A write sends its data or fails, and a read takes the first frame that waits. -/
inductive CanKernel : CanSocket → (req : Syscall) → req.Result → CanSocket → Prop
  | fetch {s : CanSocket} {fd : Int} : CanKernel s .fetch fd s
  | poll {s : CanSocket} {fd : Int} {events : PollEvents} {timeout : Int} {result : PollResult} :
      result ≠ .error .none → CanKernel s (.poll fd events timeout) result s
  | write {s : CanSocket} {fd : Int} {data : List Byte} :
      CanKernel s (.write fd data) (.ok data.length) { s with sent := s.sent ++ [data] }
  | writeError {s : CanSocket} {fd : Int} {data : List Byte} {errno : Errno} : errno ≠ .none →
      CanKernel s (.write fd data) (.error errno) s
  | read {s : CanSocket} {fd : Int} {len : Nat} {cf : CanFrame} {rest : List CanFrame} : s.pending = cf :: rest →
      CanKernel s (.read fd len) (.ok (cf.bytes.take len)) { s with pending := rest }
  | readError {s : CanSocket} {fd : Int} {len : Nat} {errno : Errno} : errno ≠ .none →
      CanKernel s (.read fd len) (.error errno) s

/-! ### `hal_can_open` -/

/-- The calls of `hal_can_open`. -/
inductive CanOpenCall where
  | socket
  -- `SIOCGIFINDEX`.
  | ifIndex (fd : Int) (ifrName : List UInt8)
  | bind (fd ifindex : Int)
  -- `CAN_RAW_FILTER`.
  | setFilter (fd : Int) (flt : CanFilter)
  | calloc
  | close (fd : Int)

/-- What each call may give. -/
abbrev CanOpenCall.Result : CanOpenCall → Type
  | .socket | .ifIndex _ _ => Except Errno Int
  | .bind _ _ | .setFilter _ _ => Except Errno Unit
  | .calloc => Bool
  | .close _ => Unit

/-- Where `hal_can_open` is. -/
inductive CanOpenPc where
  | socket
  | ifIndex (fd : Int)
  | bind (fd ifindex : Int)
  | filter (fd : Int)
  | calloc (fd : Int)
  | close (fd : Int) (st : Status)
  -- The status, and the descriptor of the handle.
  | ret (st : Status) (fd : Option Int)

/-- `hal_can_open` -/
def halCanOpen (config : HalCanConfig) : Thread CanOpenCall CanOpenCall.Result (Status × Option Int) CanOpenPc where
  entry := .socket
  next
    | .socket => .call .socket fun
      | .error errno => .ret (statusFromErrno errno) none
      | .ok fd => .ifIndex fd
    | .ifIndex fd => .call (.ifIndex fd (snprintf ifNameSize config.ifname)) fun
      | .error errno => .close fd (statusFromErrno errno)
      | .ok ifindex => .bind fd ifindex
    | .bind fd ifindex => .call (.bind fd ifindex) fun
      | .error errno => .close fd (statusFromErrno errno)
      | .ok _ => if config.filterId ≠ 0 then .filter fd else .calloc fd
    | .filter fd => .call (.setFilter fd ⟨config.filterId, canSffMask⟩) fun
      | .error errno => .close fd (statusFromErrno errno)
      | .ok _ => .calloc fd
    | .calloc fd => .call .calloc fun allocated => if allocated then .ret .ok (some fd) else .close fd .noMemory
    | .close fd st => .call (.close fd) fun _ => .ret st none
    | .ret st fd => .ret (st, fd)

/-- What a call does to the socket. -/
inductive CanOpenEffect : CanSocket → (req : CanOpenCall) → req.Result → CanSocket → Prop
  | socket {s : CanSocket} {fd : Int} : CanOpenEffect s .socket (.ok fd) s
  | socketError {s : CanSocket} {errno : Errno} : errno ≠ .none → CanOpenEffect s .socket (.error errno) s
  | ifIndex {s : CanSocket} {fd ifindex : Int} {ifrName : List UInt8} :
      CanOpenEffect s (.ifIndex fd ifrName) (.ok ifindex) s
  | ifIndexError {s : CanSocket} {fd : Int} {ifrName : List UInt8} {errno : Errno} : errno ≠ .none →
      CanOpenEffect s (.ifIndex fd ifrName) (.error errno) s
  | bind {s : CanSocket} {fd ifindex : Int} : CanOpenEffect s (.bind fd ifindex) (.ok ()) { s with bound := true }
  | bindError {s : CanSocket} {fd ifindex : Int} {errno : Errno} : errno ≠ .none →
      CanOpenEffect s (.bind fd ifindex) (.error errno) s
  | setFilter {s : CanSocket} {fd : Int} {flt : CanFilter} :
      CanOpenEffect s (.setFilter fd flt) (.ok ()) { s with filter := some flt }
  | setFilterError {s : CanSocket} {fd : Int} {flt : CanFilter} {errno : Errno} : errno ≠ .none →
      CanOpenEffect s (.setFilter fd flt) (.error errno) s
  | calloc {s : CanSocket} {allocated : Bool} : CanOpenEffect s .calloc allocated s
  | close {s : CanSocket} {fd : Int} : CanOpenEffect s (.close fd) () s

/-- Frames may arrive after each call. -/
def CanOpenKernel (s : CanSocket) (req : CanOpenCall) (res : req.Result) (t : CanSocket) : Prop :=
  ∃ u frames, CanOpenEffect s req res u ∧ t = u.arrive frames

/-- The socket of a handle that `hal_can_open` has just returned. -/
def Opened (config : HalCanConfig) (s : CanSocket) : Prop :=
  ∃ t fd, RunAlone (halCanOpen config) CanOpenKernel .unbound t ∧
    Returned (fun _ : Unit => halCanOpen config) t () (.ok, some fd) ∧ t.world = s

end Hal
end Emberlite
