import Emberlite.Hal.Uart
import Mathlib.Data.List.Perm.Basic

/-! Several `hal_uart_write` on one handle. The mutex covers the copy of the descriptor, not the loop of short
    writes, so the buffers stay whole on the line only if the schedule lets no call write while another is between
    its first byte and its last. -/

namespace Emberlite
namespace Hal
namespace UartLine
open Interleave

/-- The bytes that have reached the line, each with the call that it came from. -/
abbrev Line (C : Type) := List (C × Byte)

section Writers
variable {C : Type} (buffer : C → List Byte) (timeoutMs : C → Int)

/-- What each call runs. -/
def writers (c : C) : Thread Syscall Syscall.Result (Status × Nat) UartWritePc := halUartWrite (buffer c) (timeoutMs c)

/-- The line, and where the calls are. -/
abbrev Lines (C : Type) := State (fun _ : C => UartWritePc) (Line C)

/-- System calls on the descriptor of the handle: `poll` waits until there is room, and `write` takes some of the
    bytes; a signal may interrupt either. -/
inductive LineEnv (fd : Int) : C → Line C → (req : Syscall) → req.Result → Line C → Prop
  | fetch {c : C} {line : Line C} : LineEnv fd c line .fetch fd line
  | ready {c : C} {line : Line C} {events : PollEvents} {timeout : Int} :
      LineEnv fd c line (.poll fd events timeout) (.ready ⟨false, false, false⟩) line
  | pollInterrupted {c : C} {line : Line C} {events : PollEvents} {timeout : Int} :
      LineEnv fd c line (.poll fd events timeout) (.error .eintr) line
  | write {c : C} {line : Line C} {data : List Byte} {w : Nat} : 0 < w → w ≤ data.length →
      LineEnv fd c line (.write fd data) (.ok w) (line ++ (data.take w).map (c, ·))
  | writeInterrupted {c : C} {line : Line C} {data : List Byte} :
      LineEnv fd c line (.write fd data) (.error .eintr) line

variable {s t : Lines C} {c d : C} {fd : Int}

/-- How many bytes of its buffer a call has written. -/
def count (s : Lines C) (c : C) : Nat := (s.locals c).written

/-- A call is between its first byte and its last. -/
def Partial (s : Lines C) (c : C) : Prop :=
  0 < count s c ∧ count s c < (buffer c).length

instance (s : Lines C) (c : C) : Decidable (Partial buffer s c) :=
  inferInstanceAs (Decidable (_ ∧ _))

/-- The condition on a step: a `write` takes bytes only while no other call has written some of its own. -/
def WriteAlone : Condition (fun _ : C => UartWritePc) (Line C) Syscall.Result
  | s, c, .write _ _, .ok _ => ∀ d, d ≠ c → ¬Partial buffer s d
  | _, _, _, _ => True

/-- What a call has sent. -/
def sent (s : Lines C) (c : C) : Line C :=
  ((buffer c).take (count s c)).map (c, ·)

/-- The line has the bytes of one call after those of another, all but the last complete. -/
structure InOrder (s : Lines C) (order : List C) : Prop where
  nodup : order.Nodup
  mem : ∀ c, c ∈ order ↔ 0 < count s c
  line : s.world = order.flatMap (sent buffer s)
  whole : ∀ c ∈ order.dropLast, (buffer c).length ≤ count s c

/-- No buffer has bytes of another call in it. -/
def Untorn (s : Lines C) : Prop := ∃ order, InOrder buffer s order

/-- A call that waits for as long as it takes returns when all is written. -/
def Finished (s : Lines C) : Prop :=
  ∀ c st written, s.locals c = UartWritePc.ret st written → st = .ok ∧ (buffer c).length ≤ written

variable {buffer timeoutMs}

theorem flatMap_sent {order : List C} (h : ∀ d ∈ order, count t d = count s d) :
    order.flatMap (sent buffer t) = order.flatMap (sent buffer s) := by
  refine List.flatMap_congr fun d hd => ?_
  rw [sent, h d hd, sent]

/-- A call that is not complete is the last. -/
theorem InOrder.eq_concat {order : List C} (h : InOrder buffer s order) (hc : c ∈ order)
    (hless : count s c < (buffer c).length) : ∃ init, order = init ++ [c] ∧ ∀ d ∈ init, d ≠ c := by
  rcases List.eq_nil_or_concat order with rfl | ⟨init, last, rfl⟩
  · cases hc
  · have hwhole := h.whole
    have hnodup := h.nodup
    rw [List.concat_eq_append] at hc hwhole hnodup
    rw [List.dropLast_concat] at hwhole
    obtain ⟨-, -, hne⟩ := List.nodup_append.mp hnodup
    rcases List.mem_append.mp hc with hc | hc
    · exact absurd (hwhole c hc) (Nat.not_le_of_lt hless)
    · obtain rfl := List.mem_singleton.mp hc
      exact ⟨init, List.concat_eq_append, fun d hd => hne d hd c hc⟩

theorem getLast_from {before bytes : Line C} (hbytes : bytes ≠ []) (hfrom : ∀ b ∈ bytes, b.1 = c) :
    (before ++ bytes).getLast?.map Prod.fst = some c := by
  rcases List.eq_nil_or_concat bytes with rfl | ⟨init, last, rfl⟩
  · exact (hbytes rfl).elim
  · rw [List.concat_eq_append] at hfrom ⊢
    rw [← List.append_assoc, List.getLast?_concat, Option.map_some, hfrom last (by simp)]

theorem start_finished : Finished buffer (State.start (writers buffer timeoutMs) []) := by
  intro c st written hret
  change (if (buffer c).length = 0 then UartWritePc.ret .ok 0 else .fetch) = _ at hret
  split at hret
  · cases hret
    exact ⟨rfl, Nat.le_of_eq ‹_›⟩
  · cases hret

/-! ### Steps -/

variable [DecidableEq C] {req : Syscall} {res : req.Result}

/-- A step takes bytes of its call, or changes neither the line nor a count. -/
theorem step_cases (h : Step (writers buffer timeoutMs) (LineEnv fd) s c req res t) :
    (t.world = s.world ∧ (∀ d, count t d = count s d) ∧ WriteAlone buffer s c req res) ∨
    ∃ bytes, bytes ≠ [] ∧ (∀ b ∈ bytes, Prod.fst b = c) ∧ t.world = s.world ++ bytes ∧
      sent buffer t c = sent buffer s c ++ bytes ∧ count s c < (buffer c).length ∧ 0 < count t c ∧ (∀ d, d ≠ c → count t d = count s d) ∧
      (WriteAlone buffer s c req res ↔ ∀ d, d ≠ c → ¬Partial buffer s d) := by
  obtain ⟨resume, hnext, henv, hself, hother⟩ := h.elim
  have hcount : ∀ d, d ≠ c → count t d = count s d := fun d hd => congrArg UartWritePc.written (hother d hd)
  obtain ⟨pc, hpc⟩ : ∃ pc : UartWritePc, s.locals c = pc := ⟨_, rfl⟩
  have hbefore : count s c = pc.written := congrArg UartWritePc.written hpc
  have hkept : ∀ pc' : UartWritePc, t.locals c = pc' → pc'.written = pc.written → ∀ d, count t d = count s d := by
    intro pc' hpc' heq d
    by_cases hd : d = c
    · rw [hd, hbefore, ← heq]
      exact congrArg UartWritePc.written hpc'
    · exact hcount d hd
  generalize hworld : t.world = world at henv
  rw [hpc] at hnext
  cases pc with
  | fetch =>
    cases hnext
    cases henv
    refine .inl ⟨rfl, hkept _ hself ?_, trivial⟩
    dsimp only
    split <;> rfl
  | poll fd' written =>
    cases hnext
    cases henv with
    | ready | pollInterrupted => exact .inl ⟨rfl, hkept _ hself rfl, trivial⟩
  | write fd' written =>
    cases hnext
    cases henv with
    | writeInterrupted => exact .inl ⟨rfl, hkept _ hself rfl, trivial⟩
    | write hpos hfit =>
      rename_i w
      have hafter : count t c = written + w :=
        (congrArg UartWritePc.written hself).trans (written_uartWriteLoop ..)
      change count s c = written at hbefore
      have hlength : w ≤ (buffer c).length - written := List.length_drop ▸ hfit
      refine .inr ⟨_, fun hnil => ?_, fun b hb => ?_, rfl, ?_, by omega, by omega, hcount, Iff.rfl⟩
      · have hzero := congrArg List.length hnil
        rw [List.length_map, List.length_take_of_le hfit, List.length_nil] at hzero
        omega
      · obtain ⟨_, -, rfl⟩ := List.mem_map.mp hb
        rfl
      · rw [sent, sent, hafter, hbefore, List.take_add, List.map_append]
  | ret => cases hnext

/-- An allowed step keeps the calls in order. -/
theorem step_untorn (h : Untorn buffer s) (hstep : Step (writers buffer timeoutMs) (LineEnv fd) s c req res t)
    (hallowed : WriteAlone buffer s c req res) : Untorn buffer t := by
  obtain ⟨order, h⟩ := h
  have ⟨hnodup, hmem, hline, hwhole⟩ := h
  rcases step_cases hstep with ⟨hworld, hcount, -⟩ | ⟨bytes, -, -, hworld, hsent, hless, hpos, hcount, hiff⟩
  · refine ⟨order, hnodup, fun d => ?_, ?_, fun d hd => ?_⟩
    · rw [hcount, hmem]
    · rw [hworld, hline, flatMap_sent fun d _ => hcount d]
    · rw [hcount]
      exact hwhole d hd
  · have halone := hiff.mp hallowed
    by_cases hc : c ∈ order
    · obtain ⟨init, rfl, hout⟩ := h.eq_concat hc hless
      refine ⟨init ++ [c], hnodup, fun d => ?_, ?_, fun d hd => ?_⟩
      · by_cases hd : d = c
        · rw [hd]
          exact iff_of_true hc hpos
        · rw [hcount d hd, hmem]
      · rw [hworld, hline, List.flatMap_append, List.flatMap_append, List.flatMap_singleton, List.flatMap_singleton,
          hsent, flatMap_sent fun d hd => hcount d (hout d hd), List.append_assoc]
      · have hd' := hd
        rw [List.dropLast_concat] at hd'
        rw [hcount d (hout d hd')]
        exact hwhole d hd
    · -- The call begins: the others are complete.
      have hzero : count s c = 0 := Nat.eq_zero_of_not_pos fun h => hc ((hmem c).mpr h)
      have hnone : sent buffer s c = [] := by rw [sent, hzero, List.take_zero, List.map_nil]
      have hout : ∀ d ∈ order, d ≠ c := by
        rintro d hd rfl
        exact hc hd
      have hstarted : ∀ d, d ≠ c → (0 < count t d ↔ 0 < count s d) := by
        intro d hd
        rw [hcount d hd]
      refine ⟨order ++ [c], ?_, mem_join hmem hstarted hpos, ?_, fun d hd => ?_⟩
      · rw [← List.concat_eq_append]
        exact List.Nodup.concat hc hnodup
      · rw [hworld, hline, List.flatMap_append, List.flatMap_singleton, hsent, hnone, List.nil_append,
          flatMap_sent fun d hd => hcount d (hout d hd)]
      · rw [List.dropLast_concat] at hd
        have hnotPartial := halone d (hout d hd)
        rw [hcount d (hout d hd)]
        exact Nat.le_of_not_lt fun hlt => hnotPartial ⟨(hmem d).mp hd, hlt⟩

/-- A step that is not allowed tears the buffer that has been begun. -/
theorem allowed_of_untorn (hstep : Step (writers buffer timeoutMs) (LineEnv fd) s c req res t) (h : Untorn buffer t) :
    WriteAlone buffer s c req res := by
  rcases step_cases hstep with ⟨-, -, hallowed⟩ | ⟨bytes, hbytes, hfrom, hworld, -, -, -, hcount, hiff⟩
  · exact hallowed
  · refine hiff.mpr fun d hd hpartial => ?_
    obtain ⟨order, h⟩ := h
    obtain ⟨hbegun, hless⟩ := hpartial
    rw [← hcount d hd] at hbegun hless
    obtain ⟨init, rfl, -⟩ := h.eq_concat ((h.mem d).mpr hbegun) hless
    have hsent : sent buffer t d ≠ [] := by
      rw [sent, ne_eq, List.map_eq_nil_iff, List.take_eq_nil_iff, not_or]
      exact ⟨Nat.ne_of_gt hbegun, List.ne_nil_of_length_pos (by omega)⟩
    have hlast := h.line
    rw [hworld, List.flatMap_append, List.flatMap_singleton] at hlast
    have hfromd : ∀ b ∈ sent buffer t d, b.1 = d := by
      rintro b hb
      obtain ⟨_, -, rfl⟩ := List.mem_map.mp hb
      rfl
    have hboth : (s.world ++ bytes).getLast?.map Prod.fst = some c := getLast_from hbytes hfrom
    rw [hlast, getLast_from hsent hfromd] at hboth
    exact hd (Option.some.inj hboth)

/-! ### Runs -/

theorem step_finished (hfd : 0 ≤ fd) (htimeout : ∀ c, timeoutMs c < 0) (h : Finished buffer s)
    (hstep : Step (writers buffer timeoutMs) (LineEnv fd) s c req res t) : Finished buffer t := by
  refine hstep.locals_inv
    (P := fun c pc => ∀ st written, pc = UartWritePc.ret st written → st = .ok ∧ (buffer c).length ≤ written) h ?_
  intro resume hnext henv st written hret
  generalize t.world = world at henv
  obtain ⟨pc, hpc⟩ : ∃ pc : UartWritePc, s.locals c = pc := ⟨_, rfl⟩
  rw [hpc] at hnext
  cases pc with
  | fetch =>
    cases hnext
    cases henv
    dsimp only at hret
    rw [if_neg (Int.not_lt.mpr hfd)] at hret
    cases hret
  | poll =>
    cases hnext
    cases henv <;> cases hret
  | write =>
    cases hnext
    cases henv with
    | writeInterrupted => cases hret
    | write =>
      change uartWriteLoop .. = _ at hret
      unfold uartWriteLoop at hret
      rw [if_neg (Int.not_le.mpr (htimeout c))] at hret
      split at hret
      · cases hret
      · cases hret
        exact ⟨rfl, Nat.le_of_not_lt ‹_›⟩
  | ret => cases hnext

omit [DecidableEq C] in
theorem untorn_returned (h : Untorn buffer s) (hfinished : Finished buffer s)
    (hreturned : ∀ c, ∃ value, Returned (writers buffer timeoutMs) s c value) :
    ∃ order : List C, order.Nodup ∧ (∀ c, buffer c ≠ [] → c ∈ order) ∧ s.world.map Prod.snd = order.flatMap buffer := by
  obtain ⟨order, hnodup, hmem, hline, -⟩ := h
  have hall : ∀ c, (buffer c).length ≤ count s c := by
    intro c
    obtain ⟨value, hret⟩ := hreturned c
    obtain ⟨pc, hpc⟩ : ∃ pc : UartWritePc, s.locals c = pc := ⟨_, rfl⟩
    rw [Returned, hpc] at hret
    cases pc with
    | ret st written =>
      obtain ⟨-, hwritten⟩ := hfinished c st written hpc
      exact Nat.le_trans hwritten (Nat.le_of_eq (congrArg UartWritePc.written hpc).symm)
    | fetch | poll | write => cases hret
  refine ⟨order, hnodup, fun c => ?_, ?_⟩
  · intro hne
    have hpos : 0 < (buffer c).length := List.length_pos_iff.mpr hne
    exact (hmem c).mpr (Nat.lt_of_lt_of_le hpos (hall c))
  · rw [hline, List.map_flatMap]
    refine List.flatMap_congr fun c _ => ?_
    rw [sent, List.map_map, List.take_of_length_le (hall c)]
    exact List.map_id _

/-- In a run that lets no call write while another has begun, the buffers stay whole: on the line they follow one
    another, and when all calls have returned it has all of them. The first step that does not wait tears a buffer. -/
theorem run_untorn (hfd : 0 ≤ fd) (htimeout : ∀ c, timeoutMs c < 0)
    (hrun : Run (writers buffer timeoutMs) (LineEnv fd) (WriteAlone buffer)
      (State.start (writers buffer timeoutMs) []) s) :
    Untorn buffer s ∧
    ((∀ c, ∃ value, Returned (writers buffer timeoutMs) s c value) →
      ∃ order : List C, order.Nodup ∧ (∀ c, buffer c ≠ [] → c ∈ order) ∧ s.world.map Prod.snd = order.flatMap buffer) ∧
    ∀ c req res t, Step (writers buffer timeoutMs) (LineEnv fd) s c req res t →
      (Untorn buffer t ↔ WriteAlone buffer s c req res) := by
  have hstart : Untorn buffer (State.start (writers buffer timeoutMs) []) := by
    refine ⟨[], List.nodup_nil, fun c => ?_, rfl, fun _ h => (List.not_mem_nil h).elim⟩
    have hzero : count (State.start (writers buffer timeoutMs) []) c = 0 := by
      change UartWritePc.written (if (buffer c).length = 0 then _ else _) = 0
      split <;> rfl
    rw [hzero]
    simp
  have huntorn : Untorn buffer s := hrun.inv hstart fun _ _ _ _ _ h hstep hallowed => step_untorn h hstep hallowed
  have hfinished : Finished buffer s :=
    hrun.inv start_finished fun _ _ _ _ _ h hstep _ => step_finished hfd htimeout h hstep
  exact ⟨huntorn, untorn_returned huntorn hfinished,
    fun c req res t hstep => ⟨allowed_of_untorn hstep, step_untorn huntorn hstep⟩⟩

end Writers

/-! ### Two writers -/

/-- The bytes "AB" and "ab". -/
def twoBuffers : Bool → List Byte
  | false => [0x41, 0x42]
  | true => [0x61, 0x62]

/-- Two calls, whose first `write` takes one byte each. -/
theorem write_torn : ¬∀ s : Lines Bool,
    Run (writers twoBuffers fun _ => -1) (LineEnv 3) (fun _ _ _ _ => True)
      (State.start (writers twoBuffers fun _ => -1) []) s →
    (∀ c, ∃ value, Returned (writers twoBuffers fun _ => -1) s c value) →
      ∃ order : List Bool, order.Nodup ∧ (∀ c, twoBuffers c ≠ [] → c ∈ order) ∧
        s.world.map Prod.snd = order.flatMap twoBuffers := by
  intro hclaim
  have h₀ : Run (writers twoBuffers fun _ => -1) (LineEnv 3) (fun _ _ _ _ => True) _
    (State.start (writers twoBuffers fun _ => -1) []) := .refl
  have h₁ := h₀.tail (c := false) (.mk rfl .fetch) trivial
  have h₂ := h₁.tail (c := true) (.mk rfl .fetch) trivial
  have h₃ := h₂.tail (c := false) (.mk rfl .ready) trivial
  have h₄ := h₃.tail (c := true) (.mk rfl .ready) trivial
  have h₅ := h₄.tail (c := false) (.mk rfl (.write (w := 1) (by decide) (by decide))) trivial
  have h₆ := h₅.tail (c := true) (.mk rfl (.write (w := 1) (by decide) (by decide))) trivial
  have h₇ := h₆.tail (c := false) (.mk rfl .ready) trivial
  have h₈ := h₇.tail (c := true) (.mk rfl .ready) trivial
  have h₉ := h₈.tail (c := false) (.mk rfl (.write (w := 1) (by decide) (by decide))) trivial
  have h₁₀ := h₉.tail (c := true) (.mk rfl (.write (w := 1) (by decide) (by decide))) trivial
  obtain ⟨order, hnodup, hall, hline⟩ := hclaim _ h₁₀ fun c => by cases c <;> exact ⟨_, rfl⟩
  have hperm : order.Perm [false, true] := by
    refine (List.perm_ext_iff_of_nodup hnodup (by decide)).mpr fun c => iff_of_true (hall c ?_) (by simp)
    cases c <;> decide
  have horders : ∀ a b, [0x41, 0x61, 0x42, 0x62] ≠ [a, b].flatMap twoBuffers := by decide
  obtain ⟨a, b, rfl⟩ := List.length_eq_two.mp hperm.length_eq
  exact horders a b hline

/-- The same calls, one after the other. -/
theorem run_untorn_turns : ∃ s : Lines Bool,
    Run (writers twoBuffers fun _ => -1) (LineEnv 3) (WriteAlone twoBuffers)
      (State.start (writers twoBuffers fun _ => -1) []) s ∧ Untorn twoBuffers s ∧
      s.world = [(false, 0x41), (false, 0x42), (true, 0x61), (true, 0x62)] := by
  have h₀ : Run (writers twoBuffers fun _ => -1) (LineEnv 3) (WriteAlone twoBuffers) _
    (State.start (writers twoBuffers fun _ => -1) []) := .refl
  have h₁ := h₀.tail (c := false) (.mk rfl .fetch) trivial
  have h₂ := h₁.tail (c := false) (.mk rfl .ready) trivial
  have h₃ := h₂.tail (c := false) (.mk rfl (.write (w := 1) (by decide) (by decide)))
    (show ∀ d, d ≠ false → ¬Partial twoBuffers _ d by decide)
  have h₄ := h₃.tail (c := true) (.mk rfl .fetch) trivial
  have h₅ := h₄.tail (c := true) (.mk rfl .ready) trivial
  have h₆ := h₅.tail (c := false) (.mk rfl .ready) trivial
  have h₇ := h₆.tail (c := false) (.mk rfl (.write (w := 1) (by decide) (by decide)))
    (show ∀ d, d ≠ false → ¬Partial twoBuffers _ d by decide)
  have h₈ := h₇.tail (c := true) (.mk rfl (.write (w := 2) (by decide) (by decide)))
    (show ∀ d, d ≠ true → ¬Partial twoBuffers _ d by decide)
  exact ⟨_, h₈, (run_untorn (by decide) (by decide) h₈).1, rfl⟩

end UartLine
end Hal
end Emberlite
