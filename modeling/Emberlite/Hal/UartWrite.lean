import Emberlite.Hal.Uart

/-! What `hal_uart_write` says it has written, against what the kernel has accepted, whatever `poll` and `write`
    answer. -/

namespace Emberlite
namespace Hal
namespace UartWrite
open Interleave

/-- The data of the writes that have succeeded, first to last. -/
abbrev Accepted := List (List Byte)

/-- The answers of the kernel: any descriptor, any result of `poll`, and writes that fail or take any part of what
    they are given. A call that fails sets `errno`. -/
inductive Kernel : Accepted → (req : Syscall) → req.Result → Accepted → Prop
  | fetch {acc : Accepted} {fd : Int} : Kernel acc .fetch fd acc
  | poll {acc : Accepted} {fd : Int} {events : PollEvents} {timeout : Int} {result : PollResult} :
      result ≠ .error .none → Kernel acc (.poll fd events timeout) result acc
  | write {acc : Accepted} {fd : Int} {data : List Byte} {w : Nat} : w ≤ data.length →
      Kernel acc (.write fd data) (.ok w) (acc ++ [data.take w])
  | writeError {acc : Accepted} {fd : Int} {data : List Byte} {errno : Errno} : errno ≠ .none →
      Kernel acc (.write fd data) (.error errno) acc

section Invariant
variable (buffer : List Byte) (timeoutMs : Int)

/-- The kernel has the first `written` bytes. -/
structure Written (acc : Accepted) (written : Nat) : Prop where
  bytes : acc.flatten = buffer.take written
  le : written ≤ buffer.length

/-- What is behind `HAL_OK`: everything or, with a timeout, one write, but none of nothing. -/
structure Done (acc : Accepted) (written : Nat) : Prop where
  all : timeoutMs < 0 → written = buffer.length
  once : 0 ≤ timeoutMs → acc.length = if buffer.length = 0 then 0 else 1

/-- Within the loop: with a timeout, nothing is written yet. -/
structure Looping (acc : Accepted) (written : Nat) : Prop where
  accepted : Written buffer acc written
  less : written < buffer.length
  first : 0 ≤ timeoutMs → acc = []

/-- What holds of the bytes that the line has taken at each point of `hal_uart_write`. -/
def Holds (acc : Accepted) : UartWritePc → Prop
  | .fetch => acc = [] ∧ 0 < buffer.length
  | .poll _ written | .write _ written => Looping buffer timeoutMs acc written
  | .ret st written => Written buffer acc written ∧ (st = .ok → Done buffer timeoutMs acc written)

variable {buffer timeoutMs} {acc : Accepted} {written : Nat}

theorem Written.append (h : Written buffer acc written) {w : Nat} (hw : w ≤ (buffer.drop written).length) :
    Written buffer (acc ++ [(buffer.drop written).take w]) (written + w) := by
  rw [List.length_drop] at hw
  constructor
  · rw [List.flatten_append, h.bytes, List.flatten_singleton, List.take_add]
  · have := h.le
    omega

theorem Looping.length_ne_zero (h : Looping buffer timeoutMs acc written) : buffer.length ≠ 0 :=
  Nat.ne_of_gt (Nat.zero_lt_of_lt h.less)

theorem Looping.write (h : Looping buffer timeoutMs acc written) {w : Nat} (hw : w ≤ (buffer.drop written).length)
    (fd : Int) :
    Holds buffer timeoutMs (acc ++ [(buffer.drop written).take w])
      (uartWriteLoop buffer.length timeoutMs fd (written + w)) := by
  have happend := h.accepted.append hw
  unfold uartWriteLoop
  by_cases htimeout : 0 ≤ timeoutMs
  · rw [if_pos htimeout, h.first htimeout]
    rw [h.first htimeout] at happend
    exact ⟨happend, fun _ =>
      ⟨fun hneg => absurd htimeout (Int.not_le.mpr hneg), fun _ => (if_neg h.length_ne_zero).symm⟩⟩
  · rw [if_neg htimeout]
    by_cases hless : written + w < buffer.length
    · rw [if_pos hless]
      exact ⟨happend, hless, fun h => absurd h htimeout⟩
    · rw [if_neg hless]
      exact ⟨happend, fun _ =>
        ⟨fun _ => Nat.le_antisymm happend.le (Nat.le_of_not_lt hless), fun h => absurd h htimeout⟩⟩

theorem Looping.poll (h : Looping buffer timeoutMs acc written) {result : PollResult} (hresult : result ≠ .error .none)
    (fd : Int) : Holds buffer timeoutMs acc (waitFd (.poll fd written) (.write fd written) (.ret · written) result) := by
  cases result with
  | error errno =>
    rw [waitFd]
    split
    · exact h
    · refine ⟨h.accepted, fun hok => absurd hok (statusFromErrno_ne_ok ?_)⟩
      rintro rfl
      exact hresult rfl
  | timedOut => exact ⟨h.accepted, fun hok => by cases hok⟩
  | ready revents =>
    rw [waitFd]
    split
    · exact ⟨h.accepted, fun hok => by cases hok⟩
    · exact h

theorem start_holds : Holds buffer timeoutMs [] (halUartWrite buffer timeoutMs).entry := by
  rw [halUartWrite]
  dsimp only
  split
  · rename_i hnil
    exact ⟨⟨rfl, Nat.zero_le _⟩, fun _ => ⟨fun _ => hnil.symm, fun _ => (if_pos hnil).symm⟩⟩
  · rename_i hne
    exact ⟨rfl, Nat.pos_of_ne_zero hne⟩

theorem step_holds {acc' : Accepted} {pc : UartWritePc} {req : Syscall} {resume : req.Result → UartWritePc}
    {res : req.Result} (h : Holds buffer timeoutMs acc pc)
    (hnext : (halUartWrite buffer timeoutMs).next pc = .call req resume) (hkernel : Kernel acc req res acc') :
    Holds buffer timeoutMs acc' (resume res) := by
  cases pc with
  | fetch =>
    obtain ⟨rfl, hpos⟩ := h
    cases hnext
    cases hkernel
    dsimp only
    split
    · exact ⟨⟨rfl, Nat.zero_le _⟩, nofun⟩
    · exact ⟨⟨rfl, Nat.zero_le _⟩, hpos, fun _ => rfl⟩
  | poll fd written =>
    cases hnext
    cases hkernel with
    | poll hresult => exact Looping.poll h hresult fd
  | write fd written =>
    have hloop : Looping buffer timeoutMs acc written := h
    cases hnext
    cases hkernel with
    | write hw => exact hloop.write hw fd
    | writeError herrno =>
      dsimp only
      split
      · exact hloop
      · exact ⟨hloop.accepted, fun hok => absurd hok (statusFromErrno_ne_ok herrno)⟩
  | ret => cases hnext

theorem returned_holds {st : Status} {pc : UartWritePc} (h : Holds buffer timeoutMs acc pc)
    (hret : (halUartWrite buffer timeoutMs).next pc = .ret (st, written)) :
    Written buffer acc written ∧ (st = .ok → Done buffer timeoutMs acc written) := by
  cases pc with
  | fetch | poll | write => cases hret
  | ret =>
    cases hret
    exact h

/-- Whenever the call returns, the kernel has the bytes that it reports as written, in order and each once. With
    `HAL_OK` these are all, or those of one write when there is a timeout and something to write. -/
theorem run_accepted {t : State (fun _ : Unit => UartWritePc) Accepted} {st : Status}
    (hrun : RunAlone (halUartWrite buffer timeoutMs) Kernel [] t)
    (hret : Returned (fun _ : Unit => halUartWrite buffer timeoutMs) t () (st, written)) :
    t.world.flatten = buffer.take written ∧ written ≤ buffer.length ∧
      (st = .ok → (timeoutMs < 0 → written = buffer.length) ∧
        (0 ≤ timeoutMs → t.world.length = if buffer.length = 0 then 0 else 1)) := by
  have hholds : Holds buffer timeoutMs t.world (t.locals ()) :=
    hrun.inv start_holds fun _ _ _ _ _ _ h hnext hkernel => step_holds h hnext hkernel
  obtain ⟨hwritten, hdone⟩ := returned_holds hholds hret
  exact ⟨hwritten.bytes, hwritten.le, fun hok => ⟨(hdone hok).all, (hdone hok).once⟩⟩

end Invariant

/-- Three bytes without a timeout: a signal comes first, and the kernel takes two bytes before it takes the third. -/
theorem run_accepted_short :
    ∃ t, RunAlone (halUartWrite [1, 2, 3] (-1)) Kernel [] t ∧ t.world.flatten = [1, 2, 3] := by
  have h₀ := RunAlone.start (halUartWrite [1, 2, 3] (-1)) Kernel []
  have h₁ := h₀.step rfl (5 : Int) .fetch
  have h₂ := h₁.step rfl (PollResult.error .eintr) (.poll nofun)
  have h₃ := h₂.step rfl (PollResult.ready ⟨false, false, false⟩) (.poll nofun)
  have h₄ := h₃.step rfl (Except.ok 2) (.write (by decide))
  have h₅ := h₄.step rfl (PollResult.ready ⟨false, false, false⟩) (.poll nofun)
  have h₆ := h₅.step rfl (Except.ok 1) (.write (by decide))
  exact ⟨_, h₆, (run_accepted h₆ rfl).1⟩

/-- Nothing to write: `HAL_OK` without a write. -/
theorem nothing_to_write :
    ¬ ∀ (buffer : List Byte) (timeoutMs : Int) (t : State (fun _ : Unit => UartWritePc) Accepted) (written : Nat),
      RunAlone (halUartWrite buffer timeoutMs) Kernel [] t →
      Returned (fun _ : Unit => halUartWrite buffer timeoutMs) t () (.ok, written) → 0 ≤ timeoutMs →
        t.world.length = 1 := by
  intro h
  exact absurd (h [] 0 _ 0 (RunAlone.start _ Kernel []) rfl (by decide)) (by decide)

end UartWrite
end Hal
end Emberlite
