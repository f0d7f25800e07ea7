import Emberlite.Hal.I2c
import Emberlite.Hal.Spi
import Emberlite.Hal.Usb

/-! What a transfer that returns `HAL_OK` has moved, where the caller is not told a count.

    A driver moves at most what the length field asks for. A buffer leaves room for its handle, so it has fewer than
    `SIZE_MAX` bytes, and `len + 1` does not wrap around in `hal_i2c_write_reg`. -/

namespace Emberlite
namespace Hal
namespace TransferCount
open Interleave

/-- The calls that transfer a number of bytes. -/
inductive TransferCall where
  | spiTransfer (tx rx : Bool) (len : BitVec 64)
  | usbControlTransfer (reqType req : Byte) (val idx : BitVec 16) (len : BitVec 64) (timeoutMs : Int)
  | usbBulkWrite (endpoint : Byte) (len : BitVec 64) (timeoutMs : Int)
  | i2cWrite (data : List Byte)
  | i2cRead (len : Nat)
  | i2cWriteReg (reg : Byte) (data : List Byte)
  | i2cReadReg (reg : Byte) (len : Nat)

/-- The bytes of the caller's buffer. -/
def TransferCall.len : TransferCall → Nat
  | .spiTransfer _ _ len | .usbControlTransfer _ _ _ _ len _ | .usbBulkWrite _ len _ => len.toNat
  | .i2cWrite data | .i2cWriteReg _ data => data.length
  | .i2cRead len | .i2cReadReg _ len => len

/-- The bytes that a completed call moves besides those of the buffer: the register. -/
def TransferCall.overhead : TransferCall → Nat
  | .i2cWriteReg _ _ => 1
  | .i2cReadReg _ len => if len = 0 then 0 else 1
  | .spiTransfer .. | .usbControlTransfer .. | .usbBulkWrite .. | .i2cWrite _ | .i2cRead _ => 0

/-- A request to the kernel or to `libusb`. -/
inductive DriverCall where
  | sys (req : Syscall)
  | usb (req : UsbCall)

/-- What each call may give. -/
abbrev DriverCall.Result : DriverCall → Type
  | .sys req => req.Result
  | .usb req => req.Result

/-- Where a call is. -/
abbrev TransferCall.Local : TransferCall → Type
  | .spiTransfer .. => SpiTransferPc
  | .usbControlTransfer .. | .usbBulkWrite .. => UsbPc
  | .i2cWrite _ | .i2cRead _ | .i2cWriteReg _ _ | .i2cReadReg _ _ => I2cPc

/-- What a call runs, down to its status. -/
def TransferCall.thread : (call : TransferCall) → Thread DriverCall DriverCall.Result Status call.Local
  | .spiTransfer tx rx len => (halSpiTransfer tx rx len).lift .sys fun _ res => res
  | .usbControlTransfer reqType req val idx len timeoutMs =>
    (halUsbControlTransfer reqType req val idx len timeoutMs).lift .usb fun _ res => res
  | .usbBulkWrite endpoint len timeoutMs => (halUsbBulkWrite endpoint len timeoutMs).lift .usb fun _ res => res
  | .i2cWrite data => ((halI2cWrite data).map Prod.fst).lift .sys fun _ res => res
  | .i2cRead len => ((halI2cRead len).map Prod.fst).lift .sys fun _ res => res
  | .i2cWriteReg reg data => ((halI2cWriteReg reg data).map Prod.fst).lift .sys fun _ res => res
  | .i2cReadReg reg len => ((halI2cReadReg reg len).map Prod.fst).lift .sys fun _ res => res

/-- A transfer of a driver: what its length field asks for, and what it moves. -/
structure Move where
  asked : Nat
  moved : Nat

/-- The bytes that all of the moves have taken. -/
def total (moves : List Move) : Nat := (moves.map Move.moved).sum

/-- The answers of the drivers, any count up to the length field and any failure. Those of `write`, `read`,
    `libusb_control_transfer` and `libusb_bulk_transfer` say how much was moved. -/
inductive Driver : List Move → (req : DriverCall) → req.Result → List Move → Prop
  | fetch {moves : List Move} {fd : Int} : Driver moves (.sys .fetch) fd moves
  | malloc {moves : List Move} {size : Nat} {allocated : Bool} : Driver moves (.sys (.malloc size)) allocated moves
  | write {moves : List Move} {fd : Int} {data : List Byte} {w : Nat} : w ≤ data.length →
      Driver moves (.sys (.write fd data)) (.ok w) (moves ++ [⟨data.length, w⟩])
  | writeError {moves : List Move} {fd : Int} {data : List Byte} {errno : Errno} {w : Nat} : errno ≠ .none →
      Driver moves (.sys (.write fd data)) (.error errno) (moves ++ [⟨data.length, w⟩])
  | read {moves : List Move} {fd : Int} {len : Nat} {data : List Byte} : data.length ≤ len →
      Driver moves (.sys (.read fd len)) (.ok data) (moves ++ [⟨len, data.length⟩])
  | readError {moves : List Move} {fd : Int} {len : Nat} {errno : Errno} {n : Nat} : errno ≠ .none →
      Driver moves (.sys (.read fd len)) (.error errno) (moves ++ [⟨len, n⟩])
  | ioctl {moves : List Move} {fd : Int} {len n : Nat} : n ≤ len →
      Driver moves (.sys (.ioctl fd len)) (.ok ()) (moves ++ [⟨len, n⟩])
  | ioctlError {moves : List Move} {fd : Int} {len : Nat} {errno : Errno} {n : Nat} : errno ≠ .none →
      Driver moves (.sys (.ioctl fd len)) (.error errno) (moves ++ [⟨len, n⟩])
  | device {moves : List Move} {dev : Bool} : Driver moves (.usb .device) dev moves
  | control {moves : List Move} {reqType req : Byte} {val idx wLength : BitVec 16} {timeout : Int} {n : Nat} :
      n ≤ wLength.toNat → Driver moves (.usb (.controlTransfer reqType req val idx wLength timeout)) (n : Int)
        (moves ++ [⟨wLength.toNat, n⟩])
  | controlError {moves : List Move} {reqType req : Byte} {val idx wLength : BitVec 16} {timeout r : Int} {n : Nat} :
      r < 0 → Driver moves (.usb (.controlTransfer reqType req val idx wLength timeout)) r
        (moves ++ [⟨wLength.toNat, n⟩])
  | bulk {moves : List Move} {endpoint : Byte} {length timeout : Int} {n : Nat} : n ≤ length.toNat →
      Driver moves (.usb (.bulkTransfer endpoint length timeout)) (0, (n : Int)) (moves ++ [⟨length.toNat, n⟩])
  | bulkError {moves : List Move} {endpoint : Byte} {length timeout err transferred : Int} {n : Nat} : err ≠ 0 →
      Driver moves (.usb (.bulkTransfer endpoint length timeout)) (err, transferred) (moves ++ [⟨length.toNat, n⟩])

/-- The condition on a call and what the drivers do: no driver stops short unseen, and no length is cut off. -/
def Whole : TransferCall → List Move → Prop
  | .spiTransfer _ _ len, moves => len.toNat < 2 ^ 32 ∧ ∀ m ∈ moves, m.moved = m.asked
  | .usbControlTransfer .., moves => ∀ m ∈ moves, m.moved = m.asked
  | .usbBulkWrite .., _ | .i2cWrite _, _ | .i2cRead _, _ | .i2cWriteReg _ _, _ | .i2cReadReg _ _, _ => True

section Calls
variable {moves moves' : List Move} {st : Status}

/-! ### SPI -/

/-- The length field of `hal_spi_transfer`. -/
def spiLen (len : BitVec 64) : Nat := (len.setWidth 32).toNat

/-- What holds of the moves at each point of `hal_spi_transfer`. -/
def SpiHolds (len : BitVec 64) (moves : List Move) : SpiTransferPc → Prop
  | .fetch | .ioctl _ => moves = []
  | .ret st => st = .ok → (len = 0 ∧ moves = []) ∨ ∃ n, n ≤ spiLen len ∧ moves = [⟨spiLen len, n⟩]

theorem spi_step {tx rx : Bool} {len : BitVec 64} {pc : SpiTransferPc} {req : DriverCall}
    {resume : req.Result → SpiTransferPc} {res : req.Result} (h : SpiHolds len moves pc)
    (hnext : (TransferCall.spiTransfer tx rx len).thread.next pc = .call req resume)
    (hdriver : Driver moves req res moves') : SpiHolds len moves' (resume res) := by
  cases pc with
  | fetch =>
    obtain rfl : moves = [] := h
    cases hnext
    cases hdriver
    dsimp only
    split
    · exact nofun
    · rfl
  | ioctl fd =>
    obtain rfl : moves = [] := h
    cases hnext
    cases hdriver with
    | ioctl hn => exact fun _ => .inr ⟨_, hn, rfl⟩
    | ioctlError herrno => exact fun hok => absurd hok (statusFromErrno_ne_ok herrno)
  | ret => cases hnext

theorem spi_start (tx rx : Bool) (len : BitVec 64) :
    SpiHolds len [] (TransferCall.spiTransfer tx rx len).thread.entry := by
  show SpiHolds len [] (halSpiTransfer tx rx len).entry
  rw [halSpiTransfer]
  dsimp only
  split
  · exact nofun
  · split
    · exact fun _ => .inl ⟨‹_›, rfl⟩
    · rfl

theorem spi_returned {tx rx : Bool} {len : BitVec 64} {t : State (fun _ : Unit => SpiTransferPc) (List Move)}
    (hrun : RunAlone (TransferCall.spiTransfer tx rx len).thread Driver [] t)
    (hret : Returned (fun _ : Unit => (TransferCall.spiTransfer tx rx len).thread) t () .ok) :
    (len = 0 ∧ t.world = []) ∨ ∃ n, n ≤ spiLen len ∧ t.world = [⟨spiLen len, n⟩] := by
  refine hrun.post (P := SpiHolds len)
    (Q := fun moves st => st = .ok → (len = 0 ∧ moves = []) ∨ ∃ n, n ≤ spiLen len ∧ moves = [⟨spiLen len, n⟩]) hret
    (spi_start tx rx len) (fun _ _ _ _ _ _ h hnext hdriver => spi_step h hnext hdriver) (fun _ pc _ h hnext => ?_) rfl
  cases pc with
  | fetch | ioctl => cases hnext
  | ret =>
    cases hnext
    exact h

/-! ### USB -/

/-- What holds of the moves at each point of `hal_usb_control_transfer`. -/
def ControlHolds (len : BitVec 64) (moves : List Move) : UsbPc → Prop
  | .device => moves = []
  | .transfer => moves = [] ∧ len.toNat ≤ 65535
  | .ret st => st = .ok → ∃ n, moves = [⟨len.toNat, n⟩]

theorem control_step {reqType req : Byte} {val idx : BitVec 16} {len : BitVec 64} {timeoutMs : Int} {pc : UsbPc}
    {call : DriverCall} {resume : call.Result → UsbPc} {res : call.Result} (h : ControlHolds len moves pc)
    (hnext : (TransferCall.usbControlTransfer reqType req val idx len timeoutMs).thread.next pc = .call call resume)
    (hdriver : Driver moves call res moves') : ControlHolds len moves' (resume res) := by
  cases pc with
  | device =>
    obtain rfl : moves = [] := h
    cases hnext
    cases hdriver
    dsimp only
    split
    · exact nofun
    · split
      · exact nofun
      · rename_i hle
        exact ⟨rfl, Nat.le_of_not_lt hle⟩
  | transfer =>
    obtain ⟨rfl, hle⟩ := h
    have hwhole : (len.setWidth 16).toNat = len.toNat := by
      rw [BitVec.toNat_setWidth]
      exact Nat.mod_eq_of_lt (Nat.lt_succ_of_le hle)
    cases hnext
    cases hdriver with
    | control hn =>
      dsimp only
      rw [if_neg (Int.not_lt.mpr (Int.natCast_nonneg _)), hwhole]
      exact fun _ => ⟨_, rfl⟩
    | controlError hr =>
      dsimp only
      rw [if_pos hr]
      exact nofun
  | ret => cases hnext

theorem control_returned {reqType req : Byte} {val idx : BitVec 16} {len : BitVec 64} {timeoutMs : Int}
    {t : State (fun _ : Unit => UsbPc) (List Move)}
    (hrun : RunAlone (TransferCall.usbControlTransfer reqType req val idx len timeoutMs).thread Driver [] t)
    (hret : Returned (fun _ : Unit => (TransferCall.usbControlTransfer reqType req val idx len timeoutMs).thread)
      t () .ok) :
    ∃ n, t.world = [⟨len.toNat, n⟩] := by
  refine hrun.post (P := ControlHolds len) (Q := fun moves st => st = .ok → ∃ n, moves = [⟨len.toNat, n⟩]) hret rfl
    (fun _ _ _ _ _ _ h hnext hdriver => control_step h hnext hdriver) (fun _ pc _ h hnext => ?_) rfl
  cases pc with
  | device | transfer => cases hnext
  | ret =>
    cases hnext
    exact h

/-- What holds of the moves at each point of `hal_usb_bulk_write`. -/
def BulkHolds (len : BitVec 64) (moves : List Move) : UsbPc → Prop
  | .device | .transfer => moves = []
  | .ret st => st = .ok → total moves = len.toNat

theorem bulk_step {endpoint : Byte} {len : BitVec 64} {timeoutMs : Int} {pc : UsbPc} {call : DriverCall}
    {resume : call.Result → UsbPc} {res : call.Result} (h : BulkHolds len moves pc)
    (hnext : (TransferCall.usbBulkWrite endpoint len timeoutMs).thread.next pc = .call call resume)
    (hdriver : Driver moves call res moves') : BulkHolds len moves' (resume res) := by
  cases pc with
  | device =>
    obtain rfl : moves = [] := h
    cases hnext
    cases hdriver
    dsimp only
    split
    · exact nofun
    · rfl
  | transfer =>
    obtain rfl : moves = [] := h
    cases hnext
    cases hdriver with
    | bulk hn =>
      rename_i n
      dsimp only
      rw [if_neg (by simp)]
      split
      · exact nofun
      · rename_i heq
        have hlen : BitVec.ofInt 64 (n : Int) = len := not_not.mp heq
        have hint : (len.setWidth 32).toInt < 2 ^ 31 := BitVec.toInt_lt
        intro _
        rw [← hlen, BitVec.ofInt_natCast, BitVec.toNat_ofNat, Nat.mod_eq_of_lt (by omega)]
        simp [total]
    | bulkError herr =>
      dsimp only
      rw [if_pos herr]
      exact nofun
  | ret => cases hnext

theorem bulk_returned {endpoint : Byte} {len : BitVec 64} {timeoutMs : Int}
    {t : State (fun _ : Unit => UsbPc) (List Move)}
    (hrun : RunAlone (TransferCall.usbBulkWrite endpoint len timeoutMs).thread Driver [] t)
    (hret : Returned (fun _ : Unit => (TransferCall.usbBulkWrite endpoint len timeoutMs).thread) t () .ok) :
    total t.world = len.toNat := by
  refine hrun.post (P := BulkHolds len) (Q := fun moves st => st = .ok → total moves = len.toNat) hret rfl
    (fun _ _ _ _ _ _ h hnext hdriver => bulk_step h hnext hdriver) (fun _ pc _ h hnext => ?_) rfl
  cases pc with
  | device | transfer => cases hnext
  | ret =>
    cases hnext
    exact h

/-! ### I2C -/

/-- A transfer that moves all of its bytes. -/
def whole : Transfer → Move
  | .write data => ⟨data.length, data.length⟩
  | .read len => ⟨len, len⟩

/-- What holds of the moves at each point of an I2C call. -/
def I2cHolds (nothing : Bool) (transfers : List Transfer) (moves : List Move) : I2cPc → Prop
  | .fetch | .malloc _ _ => nothing = false ∧ moves = []
  | .transfer _ rest _ => nothing = false ∧ ∃ done, transfers = done ++ rest ∧ moves = done.map whole
  | .ret st _ => st = .ok → nothing = true ∧ moves = []

/-- `i2cCall` as it asks the drivers. -/
abbrev i2cThread (nothing : Bool) (copy : Option Nat) (transfers : List Transfer) :
    Thread DriverCall DriverCall.Result Status I2cPc :=
  ((i2cCall nothing copy transfers).map Prod.fst).lift .sys fun _ res => res

section I2c
variable {nothing : Bool} {copy : Option Nat} {transfers : List Transfer}

theorem i2c_start (nothing : Bool) (copy : Option Nat) (transfers : List Transfer) :
    I2cHolds nothing transfers [] (i2cThread nothing copy transfers).entry := by
  cases nothing with
  | true => exact fun _ => ⟨rfl, rfl⟩
  | false => exact ⟨rfl, rfl⟩

theorem I2cHolds.next {fd : Int} {t : Transfer} {rest : List Transfer} {data data' : List Byte}
    (h : I2cHolds nothing transfers moves (.transfer fd (t :: rest) data)) :
    I2cHolds nothing transfers (moves ++ [whole t]) (.transfer fd rest data') := by
  obtain ⟨hnothing, done, hsplit, hmoves⟩ := h
  refine ⟨hnothing, done ++ [t], ?_, ?_⟩
  · rw [hsplit, List.append_assoc, List.singleton_append]
  · rw [hmoves, List.map_append, List.map_singleton]

theorem i2c_step {pc : I2cPc} {call : DriverCall} {resume : call.Result → I2cPc} {res : call.Result}
    (h : I2cHolds nothing transfers moves pc)
    (hnext : (i2cThread nothing copy transfers).next pc = .call call resume)
    (hdriver : Driver moves call res moves') : I2cHolds nothing transfers moves' (resume res) := by
  cases pc with
  | fetch =>
    obtain ⟨hnothing, rfl⟩ := h
    cases hnext
    cases hdriver
    dsimp only
    split
    · exact nofun
    · cases copy with
      | none => exact ⟨hnothing, [], rfl, rfl⟩
      | some size => exact ⟨hnothing, rfl⟩
  | malloc fd size =>
    obtain ⟨hnothing, rfl⟩ := h
    cases hnext
    cases hdriver
    dsimp only
    split
    · exact ⟨hnothing, [], rfl, rfl⟩
    · exact nofun
  | transfer fd rest data =>
    rcases rest with _ | ⟨t, rest⟩
    · cases hnext
    · cases t with
      | write bytes =>
        cases hnext
        cases hdriver with
        | write hw =>
          dsimp only
          split
          · exact nofun
          · rename_i heq
            rw [not_not.mp heq]
            exact h.next
        | writeError herrno => exact fun hok => absurd hok (statusFromErrno_ne_ok herrno)
      | read len =>
        cases hnext
        cases hdriver with
        | read hlen =>
          dsimp only
          split
          · exact nofun
          · rename_i heq
            rw [not_not.mp heq]
            exact h.next
        | readError herrno => exact fun hok => absurd hok (statusFromErrno_ne_ok herrno)
  | ret => cases hnext

/-- What a call has moved that returns `HAL_OK`. -/
theorem i2c_returned {t : State (fun _ : Unit => I2cPc) (List Move)}
    (hrun : RunAlone (i2cThread nothing copy transfers) Driver [] t)
    (hret : Returned (fun _ : Unit => i2cThread nothing copy transfers) t () .ok) :
    (nothing = true ∧ t.world = []) ∨ (nothing = false ∧ t.world = transfers.map whole) := by
  refine hrun.post (P := I2cHolds nothing transfers)
    (Q := fun moves st => st = .ok → (nothing = true ∧ moves = []) ∨ (nothing = false ∧ moves = transfers.map whole))
    hret (i2c_start nothing copy transfers) (fun _ _ _ _ _ _ h hnext hdriver => i2c_step h hnext hdriver)
    (fun moves pc st h hnext => ?_) rfl
  cases pc with
  | fetch => cases hnext
  | malloc => cases hnext
  | transfer fd rest data =>
    rcases rest with _ | ⟨t, rest⟩
    · obtain ⟨hnothing, done, hsplit, hmoves⟩ := h
      rw [List.append_nil] at hsplit
      exact fun _ => .inr ⟨hnothing, hsplit ▸ hmoves⟩
    · cases t <;> cases hnext
  | ret =>
    cases hnext
    exact fun hst => .inl (h hst)

theorem total_singleton (asked moved : Nat) : total [⟨asked, moved⟩] = moved := Nat.add_zero moved

/-- A call with one transfer, which it leaves out where there is nothing to move. -/
theorem i2c_single {t : State (fun _ : Unit => I2cPc) (List Move)} {transfer : Transfer} {n : Nat}
    (hrun : RunAlone (i2cThread nothing copy [transfer]) Driver [] t)
    (hret : Returned (fun _ : Unit => i2cThread nothing copy [transfer]) t () .ok)
    (hmoved : (whole transfer).moved = n) (hempty : nothing = true → n = 0) : total t.world = n := by
  rcases i2c_returned hrun hret with ⟨hnothing, hmoves⟩ | ⟨-, hmoves⟩
  · rw [hmoves, hempty hnothing]
    rfl
  · rw [hmoves]
    exact (total_singleton _ _).trans hmoved

end I2c

/-! ### Every call -/

/-- A call that returns `HAL_OK` has moved exactly the bytes of the buffer if and only if no driver stopped short
    where the code does not look at the count, and the length fits the field of `hal_spi_transfer`. -/
theorem moved_iff {call : TransferCall} {t : State (fun _ : Unit => call.Local) (List Move)}
    (hrun : RunAlone call.thread Driver [] t) (hret : Returned (fun _ : Unit => call.thread) t () .ok) :
    total t.world = call.overhead + call.len ↔ Whole call t.world := by
  cases call with
  | spiTransfer tx rx len =>
    have hfield : spiLen len = len.toNat % 2 ^ 32 := BitVec.toNat_setWidth ..
    rcases spi_returned hrun hret with ⟨rfl, hmoves⟩ | ⟨n, hn, hmoves⟩
    · rw [hmoves]
      exact iff_of_true rfl ⟨by decide, nofun⟩
    · rw [hmoves, total_singleton, TransferCall.overhead, TransferCall.len, Nat.zero_add]
      constructor
      · intro heq
        have hfits : len.toNat < 2 ^ 32 := by omega
        refine ⟨hfits, fun m hm => ?_⟩
        rw [List.mem_singleton.mp hm, heq, hfield, Nat.mod_eq_of_lt hfits]
      · rintro ⟨hfits, hwhole⟩
        have heq : n = spiLen len := hwhole _ (List.mem_singleton_self _)
        rw [heq, hfield, Nat.mod_eq_of_lt hfits]
  | usbControlTransfer reqType req val idx len timeoutMs =>
    obtain ⟨n, hmoves⟩ := control_returned hrun hret
    rw [hmoves, total_singleton, TransferCall.overhead, TransferCall.len, Nat.zero_add]
    constructor
    · intro heq m hm
      rw [List.mem_singleton.mp hm, heq]
    · exact fun hwhole => hwhole _ (List.mem_singleton_self _)
  | usbBulkWrite endpoint len timeoutMs =>
    rw [bulk_returned hrun hret]
    exact iff_of_true (Nat.zero_add _).symm trivial
  | i2cWrite data =>
    have htotal := i2c_single hrun hret rfl of_decide_eq_true
    exact iff_of_true (htotal.trans (Nat.zero_add _).symm) trivial
  | i2cRead len =>
    have htotal := i2c_single hrun hret rfl of_decide_eq_true
    exact iff_of_true (htotal.trans (Nat.zero_add _).symm) trivial
  | i2cWriteReg reg data =>
    refine iff_of_true ?_ trivial
    rcases i2c_returned hrun hret with ⟨hnothing, -⟩ | ⟨-, hmoves⟩
    · cases hnothing
    · rw [hmoves]
      exact (total_singleton _ _).trans (Nat.add_comm _ _)
  | i2cReadReg reg len =>
    refine iff_of_true ?_ trivial
    rcases i2c_returned hrun hret with ⟨hnothing, hmoves⟩ | ⟨hsome, hmoves⟩
    · rw [hmoves, TransferCall.len, TransferCall.overhead, of_decide_eq_true hnothing]
      rfl
    · have hne : len ≠ 0 := of_decide_eq_false hsome
      rw [hmoves, TransferCall.overhead, if_neg hne]
      rfl

end Calls

/-- Two bytes to a register. -/
theorem moved_iff_writeReg : ∃ t, RunAlone (TransferCall.i2cWriteReg 16 [1, 2]).thread Driver [] t ∧
    total t.world = 3 := by
  have h₀ := RunAlone.start (TransferCall.i2cWriteReg 16 [1, 2]).thread Driver []
  have h₁ := h₀.step rfl (5 : Int) .fetch
  have h₂ := h₁.step rfl true .malloc
  have h₃ := h₂.step rfl (Except.ok 3) (.write (by decide))
  exact ⟨_, h₃, (moved_iff h₃ rfl).mpr trivial⟩

/-- A buffer of 2^32 + 1 bytes: the driver is asked for one byte, moves it, and the call returns `HAL_OK`. -/
theorem length_cut_off :
    ¬ ∀ (call : TransferCall) (t : State (fun _ : Unit => call.Local) (List Move)),
      RunAlone call.thread Driver [] t → Returned (fun _ : Unit => call.thread) t () .ok →
        total t.world = call.overhead + call.len := by
  intro h
  have h₀ := RunAlone.start (TransferCall.spiTransfer true false 4294967297).thread Driver []
  have h₁ := h₀.step rfl (5 : Int) .fetch
  have h₂ := h₁.step rfl (Except.ok ()) (.ioctl (n := 1) (by decide))
  exact absurd (h _ _ h₂ rfl) (by decide)

end TransferCount
end Hal
end Emberlite
