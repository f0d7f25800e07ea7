import Emberlite.Hal.Can
import Emberlite.Hal.Close
import Emberlite.Hal.I2c
import Emberlite.Hal.Input
import Emberlite.Hal.Spi
import Emberlite.Hal.Uart

/-! Calls on a handle that are in flight while the handle is closed and others open files.

    Each call copies the descriptor under the mutex and uses the copy after it has unlocked it. So the close must
    come when no call holds a copy; a call that does goes on with a number that may be another file's by then. -/

namespace Emberlite
namespace Hal
namespace Descriptor
open Interleave

/-! ### The calls -/

/-- The modules whose calls copy the descriptor under the mutex. -/
inductive HalModule where
  | uart
  | i2c
  | spi
  | can
  | input
  deriving DecidableEq, Repr

/-- The calls on a handle of each module. -/
inductive IoCall : HalModule → Type where
  | uartRead (length : Nat) (timeoutMs : Int) : IoCall .uart
  | uartWrite (buffer : List Byte) (timeoutMs : Int) : IoCall .uart
  | i2cWrite (data : List Byte) : IoCall .i2c
  | i2cRead (len : Nat) : IoCall .i2c
  | i2cWriteReg (reg : Byte) (data : List Byte) : IoCall .i2c
  | i2cReadReg (reg : Byte) (len : Nat) : IoCall .i2c
  | spiTransfer (tx rx : Bool) (len : BitVec 64) : IoCall .spi
  | canSend (frame : HalCanFrame) : IoCall .can
  | canReceive (timeoutMs : Int) : IoCall .can
  | inputReadEvent (timeoutMs : Int) : IoCall .input

/-- Where a call is. -/
abbrev IoCall.Local : {m : HalModule} → IoCall m → Type
  | _, .uartRead _ _ => UartReadPc
  | _, .uartWrite _ _ => UartWritePc
  | _, .i2cWrite _ | _, .i2cRead _ | _, .i2cWriteReg _ _ | _, .i2cReadReg _ _ => I2cPc
  | _, .spiTransfer _ _ _ => SpiTransferPc
  | _, .canSend _ => CanSendPc
  | _, .canReceive _ => CanReceivePc
  | _, .inputReadEvent _ => InputReadPc

/-- What a call runs, down to its status. -/
def IoCall.thread : {m : HalModule} → (r : IoCall m) → Thread Syscall Syscall.Result Status r.Local
  | _, .uartRead length timeoutMs => (halUartRead length timeoutMs).map Prod.fst
  | _, .uartWrite buffer timeoutMs => (halUartWrite buffer timeoutMs).map Prod.fst
  | _, .i2cWrite data => (halI2cWrite data).map Prod.fst
  | _, .i2cRead len => (halI2cRead len).map Prod.fst
  | _, .i2cWriteReg reg data => (halI2cWriteReg reg data).map Prod.fst
  | _, .i2cReadReg reg len => (halI2cReadReg reg len).map Prod.fst
  | _, .spiTransfer tx rx len => halSpiTransfer tx rx len
  | _, .canSend frame => halCanSend frame
  | _, .canReceive timeoutMs => (halCanReceive timeoutMs).map Prod.fst
  | _, .inputReadEvent timeoutMs => (halInputReadEvent timeoutMs).map Prod.fst

/-- The close of each module. -/
def halClose : HalModule → Thread ProcessCall ProcessCall.Result Status ClosePc
  | .uart => halUartClose
  | .i2c => halI2cClose
  | .spi => halSpiClose
  | .can => halCanClose
  | .input => halInputClose

/-! ### The copy that a call holds -/

/-- The descriptor that a call has copied and is going to use. -/
def UartReadPc.copy : UartReadPc → Option Int
  | .poll fd | .read fd => some fd
  | .fetch | .ret _ _ => none

/-- The copy that `hal_uart_write` holds. -/
def UartWritePc.copy : UartWritePc → Option Int
  | .poll fd _ | .write fd _ => some fd
  | .fetch | .ret _ _ => none

/-- The copy that an I2C call holds. -/
def I2cPc.copy : I2cPc → Option Int
  | .malloc fd _ | .transfer fd (_ :: _) _ => some fd
  | .fetch | .transfer _ [] _ | .ret _ _ => none

/-- The copy that `hal_spi_transfer` holds. -/
def SpiTransferPc.copy : SpiTransferPc → Option Int
  | .ioctl fd => some fd
  | .fetch | .ret _ => none

/-- The copy that `hal_can_send` holds. -/
def CanSendPc.copy : CanSendPc → Option Int
  | .write fd => some fd
  | .fetch | .ret _ => none

/-- The copy that `hal_can_receive` holds. -/
def CanReceivePc.copy : CanReceivePc → Option Int
  | .poll fd | .read fd => some fd
  | .fetch | .ret _ _ => none

/-- The copy that `hal_input_read_event` holds. -/
def InputReadPc.copy : InputReadPc → Option Int
  | .poll fd | .read fd => some fd
  | .fetch | .ret _ _ => none

/-- The copy that a call holds. -/
def IoCall.copy : {m : HalModule} → (r : IoCall m) → r.Local → Option Int
  | _, .uartRead _ _ => UartReadPc.copy
  | _, .uartWrite _ _ => UartWritePc.copy
  | _, .i2cWrite _ | _, .i2cRead _ | _, .i2cWriteReg _ _ | _, .i2cReadReg _ _ => I2cPc.copy
  | _, .spiTransfer _ _ _ => SpiTransferPc.copy
  | _, .canSend _ => CanSendPc.copy
  | _, .canReceive _ => CanReceivePc.copy
  | _, .inputReadEvent _ => InputReadPc.copy

section Uses
variable {Ret Ret' L : Type} (thread : Thread Syscall Syscall.Result Ret L) (copy : L → Option Int)

/-- What a call does with its copy: the fetch gives it one unless the field is negative, a system call is issued on
    the copy, and the call lets it go when it is about to return. An allocation comes before a system call. -/
inductive Uses (l : L) : Prop where
  | returned {value : Ret} : thread.next l = .ret value → copy l = none → Uses l
  | fetches {resume : Int → L} : thread.next l = .call .fetch resume → copy l = none →
      (∀ fd, copy (resume fd) = if fd < 0 then none else some fd) → Uses l
  | issues {req : Syscall} {resume : req.Result → L} {fd : Int} : thread.next l = .call req resume →
      copy l = some fd → req.fd = some fd → (∀ res, copy (resume res) = none ∨ copy (resume res) = some fd) → Uses l
  | allocates {size : Nat} {resume : Bool → L} {fd : Int} {req : Syscall} {resume' : req.Result → L} :
      thread.next l = .call (.malloc size) resume → copy l = some fd →
      (∀ allocated, copy (resume allocated) = none ∨ copy (resume allocated) = some fd) →
      thread.next (resume true) = .call req resume' → req.fd = some fd → copy (resume true) = some fd → Uses l

/-- A call starts without a copy, and does nothing with it at any point but what `Uses` says. -/
structure Copies : Prop where
  entry : copy thread.entry = none
  uses : ∀ l, Uses thread copy l

variable {thread copy}

theorem Copies.map (h : Copies thread copy) (f : Ret → Ret') : Copies (thread.map f) copy where
  entry := h.entry
  uses l := by
    rcases h.uses l with ⟨hnext, hcopy⟩ | ⟨hnext, hcopy, hresume⟩ | ⟨hnext, hcopy, hfd, hresume⟩ |
      ⟨hnext, hcopy, hresume, hnext', hfd, hcopy'⟩
    · exact .returned (Thread.map_of_ret f hnext) hcopy
    · exact .fetches (Thread.map_of_call f hnext) hcopy hresume
    · exact .issues (Thread.map_of_call f hnext) hcopy hfd hresume
    · exact .allocates (Thread.map_of_call f hnext) hcopy hresume (Thread.map_of_call f hnext') hfd hcopy'

variable {l : L} {req : Syscall} {resume : req.Result → L}

theorem Copies.fetched (h : Copies thread copy) {resume : Int → L} (hnext : thread.next l = .call .fetch resume)
    (fd : Int) :
    copy (resume fd) = if fd < 0 then none else some fd := by
  rcases h.uses l with ⟨hnext', -⟩ | ⟨hnext', -, hresume⟩ | ⟨hnext', -, hfd, -⟩ | ⟨hnext', -, -, -, -, -⟩
  · cases hnext.symm.trans hnext'
  · cases hnext.symm.trans hnext'
    exact hresume fd
  · cases hnext.symm.trans hnext'
    cases hfd
  · cases hnext.symm.trans hnext'

/-- After another request than the fetch the copy is the one that was there. -/
theorem Copies.kept (h : Copies thread copy) (hnext : thread.next l = .call req resume) (hfetch : req ≠ .fetch)
    (res : req.Result) {fd : Int} (hcopy : copy (resume res) = some fd) : copy l = some fd := by
  rcases h.uses l with ⟨hnext', -⟩ | ⟨hnext', -, -⟩ | ⟨hnext', hl, -, hresume⟩ | ⟨hnext', hl, hresume, -, -, -⟩
  · cases hnext.symm.trans hnext'
  · cases hnext.symm.trans hnext'
    exact absurd rfl hfetch
  · cases hnext.symm.trans hnext'
    rcases hresume res with hnone | hsome
    · cases hnone.symm.trans hcopy
    · exact hl.trans (hsome.symm.trans hcopy)
  · cases hnext.symm.trans hnext'
    rcases hresume res with hnone | hsome
    · cases hnone.symm.trans hcopy
    · exact hl.trans (hsome.symm.trans hcopy)

theorem Copies.issued (h : Copies thread copy) (hnext : thread.next l = .call req resume) {fd : Int}
    (hfd : req.fd = some fd) : copy l = some fd := by
  rcases h.uses l with ⟨hnext', -⟩ | ⟨hnext', -, -⟩ | ⟨hnext', hl, hfd', -⟩ | ⟨hnext', -, -, -, -, -⟩
  · cases hnext.symm.trans hnext'
  · cases hnext.symm.trans hnext'
    cases hfd
  · cases hnext.symm.trans hnext'
    exact hl.trans (hfd'.symm.trans hfd)
  · cases hnext.symm.trans hnext'
    cases hfd

end Uses

/-- A call that waits for its descriptor keeps its copy or lets it go. -/
theorem copy_waitFd {L : Type} {c : L → Option Int} {again ready : L} {fail : Status → L} {fd : Int}
    (hagain : c again = some fd) (hready : c ready = some fd) (hfail : ∀ st, c (fail st) = none) (r : PollResult) :
    c (waitFd again ready fail r) = none ∨ c (waitFd again ready fail r) = some fd := by
  rcases waitFd_cases again ready fail r with heq | heq | ⟨st, heq⟩
  · rw [heq]
    exact Or.inr hagain
  · rw [heq]
    exact Or.inr hready
  · rw [heq]
    exact Or.inl (hfail st)

theorem copies_uartRead (length : Nat) (timeoutMs : Int) : Copies (halUartRead length timeoutMs) UartReadPc.copy where
  entry := by
    rw [halUartRead]
    dsimp only
    split <;> rfl
  uses l := by
    cases l with
    | fetch =>
      refine .fetches rfl rfl fun fd => ?_
      split <;> rfl
    | poll fd => exact .issues rfl rfl rfl (copy_waitFd (c := UartReadPc.copy) rfl rfl fun _ => rfl)
    | read fd =>
      refine .issues rfl rfl rfl ?_
      rintro (errno | data)
      · dsimp only
        split
        · exact Or.inr rfl
        · exact Or.inl rfl
      · exact Or.inl rfl
    | ret st data => exact .returned rfl rfl

theorem copies_uartWrite (buffer : List Byte) (timeoutMs : Int) :
    Copies (halUartWrite buffer timeoutMs) UartWritePc.copy where
  entry := by
    rw [halUartWrite]
    dsimp only
    split <;> rfl
  uses l := by
    cases l with
    | fetch =>
      refine .fetches rfl rfl fun fd => ?_
      split <;> rfl
    | poll fd written => exact .issues rfl rfl rfl (copy_waitFd (c := UartWritePc.copy) rfl rfl fun _ => rfl)
    | write fd written =>
      refine .issues rfl rfl rfl ?_
      rintro (errno | w)
      · dsimp only
        split
        · exact Or.inr rfl
        · exact Or.inl rfl
      · dsimp only [uartWriteLoop]
        split
        · exact Or.inl rfl
        · split
          · exact Or.inr rfl
          · exact Or.inl rfl
    | ret st written => exact .returned rfl rfl

theorem copy_transfer (fd : Int) (rest : List Transfer) (data : List Byte) :
    I2cPc.copy (.transfer fd rest data) = none ∨ I2cPc.copy (.transfer fd rest data) = some fd := by
  cases rest with
  | nil => exact Or.inl rfl
  | cons => exact Or.inr rfl

theorem copies_i2cCall (nothing : Bool) (allocation : Option Nat) (first : Transfer) (rest : List Transfer) :
    Copies (i2cCall nothing allocation (first :: rest)) I2cPc.copy where
  entry := by
    cases nothing <;> rfl
  uses l := by
    cases l with
    | fetch =>
      refine .fetches rfl rfl fun fd => ?_
      split
      · rfl
      · cases allocation <;> rfl
    | malloc fd size =>
      have hresume : ∀ allocated : Bool,
          I2cPc.copy (if allocated then .transfer fd (first :: rest) [] else .ret .noMemory []) = none ∨
          I2cPc.copy (if allocated then .transfer fd (first :: rest) [] else .ret .noMemory []) = some fd := by
        rintro (_ | _)
        · exact Or.inl rfl
        · exact Or.inr rfl
      cases first with
      | write bytes => exact .allocates rfl rfl hresume rfl rfl rfl
      | read len => exact .allocates rfl rfl hresume rfl rfl rfl
    | transfer fd left data =>
      rcases left with _ | ⟨bytes | len, left⟩
      · exact .returned rfl rfl
      · refine .issues rfl rfl rfl ?_
        rintro (errno | w)
        · exact Or.inl rfl
        · dsimp only
          split
          · exact Or.inl rfl
          · exact copy_transfer fd left data
      · refine .issues rfl rfl rfl ?_
        rintro (errno | bytes)
        · exact Or.inl rfl
        · dsimp only
          split
          · exact Or.inl rfl
          · exact copy_transfer fd left bytes
    | ret st data => exact .returned rfl rfl

theorem copies_spiTransfer (tx rx : Bool) (len : BitVec 64) : Copies (halSpiTransfer tx rx len) SpiTransferPc.copy where
  entry := by
    rw [halSpiTransfer]
    dsimp only
    split
    · rfl
    · split <;> rfl
  uses l := by
    cases l with
    | fetch =>
      refine .fetches rfl rfl fun fd => ?_
      split <;> rfl
    | ioctl fd =>
      refine .issues rfl rfl rfl ?_
      rintro (errno | _)
      · exact Or.inl rfl
      · exact Or.inl rfl
    | ret st => exact .returned rfl rfl

theorem copies_canSend (frame : HalCanFrame) : Copies (halCanSend frame) CanSendPc.copy where
  entry := by
    rw [halCanSend]
    dsimp only
    split <;> rfl
  uses l := by
    cases l with
    | fetch =>
      refine .fetches rfl rfl fun fd => ?_
      split <;> rfl
    | write fd =>
      refine .issues rfl rfl rfl ?_
      rintro (errno | w)
      · exact Or.inl rfl
      · dsimp only
        split <;> exact Or.inl rfl
    | ret st => exact .returned rfl rfl

theorem copies_canReceive (timeoutMs : Int) : Copies (halCanReceive timeoutMs) CanReceivePc.copy where
  entry := rfl
  uses l := by
    cases l with
    | fetch =>
      refine .fetches rfl rfl fun fd => ?_
      split <;> rfl
    | poll fd => exact .issues rfl rfl rfl (copy_waitFd (c := CanReceivePc.copy) rfl rfl fun _ => rfl)
    | read fd =>
      refine .issues rfl rfl rfl ?_
      rintro (errno | bytes)
      · exact Or.inl rfl
      · dsimp only
        split <;> exact Or.inl rfl
    | ret st frame => exact .returned rfl rfl

theorem copies_inputReadEvent (timeoutMs : Int) : Copies (halInputReadEvent timeoutMs) InputReadPc.copy where
  entry := rfl
  uses l := by
    cases l with
    | fetch =>
      refine .fetches rfl rfl fun fd => ?_
      split
      · rfl
      · split <;> rfl
    | poll fd => exact .issues rfl rfl rfl (copy_waitFd (c := InputReadPc.copy) rfl rfl fun _ => rfl)
    | read fd =>
      refine .issues rfl rfl rfl ?_
      rintro (errno | bytes)
      · dsimp only
        split
        · exact Or.inr rfl
        · split <;> exact Or.inl rfl
      · dsimp only
        split <;> exact Or.inl rfl
    | ret st event => exact .returned rfl rfl

theorem IoCall.copies {m : HalModule} (r : IoCall m) : Copies r.thread r.copy := by
  cases r with
  | uartRead length timeoutMs => exact (copies_uartRead length timeoutMs).map _
  | uartWrite buffer timeoutMs => exact (copies_uartWrite buffer timeoutMs).map _
  | i2cWrite data => exact (copies_i2cCall _ _ _ _).map _
  | i2cRead len => exact (copies_i2cCall _ _ _ _).map _
  | i2cWriteReg reg data => exact (copies_i2cCall _ _ _ _).map _
  | i2cReadReg reg len => exact (copies_i2cCall _ _ _ _).map _
  | spiTransfer tx rx len => exact copies_spiTransfer tx rx len
  | canSend frame => exact copies_canSend frame
  | canReceive timeoutMs => exact (copies_canReceive timeoutMs).map _
  | inputReadEvent timeoutMs => exact (copies_inputReadEvent timeoutMs).map _

end Descriptor
end Hal
end Emberlite
