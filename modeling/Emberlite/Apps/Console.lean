import Emberlite.Hal.UartEdits
import Emberlite.Lib.CNumber
import Emberlite.Lib.Dialogue

/-! What `uart_echo.c` and `uart_term.c` have in common: their arguments, the terminal in raw mode, and the keys that
    go to the UART. -/

namespace Emberlite
namespace Apps
open CString Dialogue Hal Hal.Tty Hal.UartOpen

/-- What a buffer of `n` bytes can hold. -/
abbrev Bytes (n : Nat) : Type := {data : List Byte // data.length ≤ n}

/-- What the programs ask of the HAL and of the system. The result of `write` to the standard output, of a print to the
    standard error and of `hal_uart_close` is not looked at. -/
inductive Ask where
  | tcgetattr
  | tcsetattr (tio : Termios)
  | uartOpen (cfg : HalUartConfig)
  | uartClose
  | uartGetFd
  | uartRead (length : Nat)
  | uartWrite (buffer : List Byte)
  /-- `g_stop`, as the handler of the signals leaves it. -/
  | stopped
  /-- Whether there is input from the terminal, and from the UART. -/
  | poll
  | readStdin (count : Nat)
  | display (bytes : List Byte)
  | report (text : List UInt8)

/-- What the other side may answer to each request. -/
abbrev Ask.Answer : Ask → Type
  | .tcgetattr => Option Termios
  | .tcsetattr _ => Bool
  | .uartOpen _ => Status
  | .uartClose | .display _ | .report _ => Unit
  | .uartGetFd => Int
  | .uartRead length => Status × Bytes length
  | .uartWrite _ => Status × Nat
  | .stopped => Bool
  | .poll => Except Errno (Bool × Bool)
  | .readStdin count => Except Errno (Bytes count)

/-- A program that talks to the terminal and the line. -/
abbrev Program (α : Type) : Type := Dialogue Ask Ask.Answer α

/-- One request, and its answer. -/
def perform (req : Ask) : Program req.Answer := request req

/-- The record of a run: every request with its answer. -/
abbrev Talk : Type := List (Exchange Ask Ask.Answer)

theorem ends_perform {α : Type} {req : Ask} {f : req.Answer → Program α} {talk : Talk} {value : α} :
    Ends (perform req >>= f) talk value ↔ ∃ res rest, talk = ⟨req, res⟩ :: rest ∧ Ends (f res) rest value :=
  ends_request_bind

/-! ### Arguments -/

/-- `parse_u32`: the whole word in base 10, when it fits 32 bits. -/
def parseU32 (s : List UInt8) : Option (BitVec 32) :=
  let v := CNumber.strtoul s
  if v.range ∨ v.rest ≠ [] ∨ 0xFFFFFFFF < v.value then none else some (BitVec.ofNat 32 v.value)

/-- Before the arguments are read. -/
def defaultConfig : HalUartConfig where
  path := none
  baudrate := 115200
  dataBits := 8
  stopBits := 1
  parity := 0
  flowControl := 0

/-- What a program that goes no further prints, and its exit status. -/
structure Exit where
  text : List UInt8
  code : Nat
  deriving DecidableEq, Repr

/-- The loop over the arguments: `setOption name value` is the branch of an option and its value, if there is one. -/
def parseArgs {O : Type} (usage : List UInt8) (setOption : List UInt8 → List UInt8 → O → Option (Except Exit O)) :
    List (List UInt8) → O → Except Exit O
  | [], o => .ok o
  | a :: args, o =>
    if a = lit "-h" ∨ a = lit "--help" then .error ⟨usage, 0⟩
    else
      match args with
      | [] => .error ⟨lit "Unknown arg: " ++ a ++ lit "\n" ++ usage, 2⟩
      | value :: args =>
        match setOption a value o with
        | none => .error ⟨lit "Unknown arg: " ++ a ++ lit "\n" ++ usage, 2⟩
        | some (.error exit) => .error exit
        | some (.ok o) => parseArgs usage setOption args o

/-! ### The terminal -/

/-- `term_guard_t`: the settings that are saved, if any. -/
abbrev TermGuard : Type := Option Termios

/-- The settings that `stdin_set_raw` makes, where it clears these local flags. -/
def rawSettings (cleared : Tcflag) (tio : Termios) : Termios where
  cIflag := tio.cIflag &&& ~~~(ignbrk ||| brkint ||| parmrk ||| istrip ||| inlcr ||| igncr ||| icrnl ||| ixon)
  cOflag := tio.cOflag &&& ~~~opost
  cLflag := tio.cLflag &&& ~~~cleared
  cCflag := tio.cCflag &&& ~~~(csize ||| parenb) ||| cs8
  cLine := tio.cLine
  cCc := (setMinTime tio).cCc

/-- `stdin_set_raw`: the guard, and whether it succeeded. -/
def stdinSetRaw (cleared : Tcflag) : Program (TermGuard × Bool) := do
  match ← perform .tcgetattr with
  | none => return (none, false)
  | some tio =>
    let done ← perform (.tcsetattr (rawSettings cleared tio))
    return (some tio, done)

/-- `stdin_restore`: the saved settings are put back when the guard holds any. -/
def stdinRestore : TermGuard → Program Unit
  | none => return ()
  | some tio => do
    let _ ← perform (.tcsetattr tio)
    return ()

/-- `main` from `hal_uart_open` to the loop: the exit status, or the guard. -/
def connect (cleared : Tcflag) (banner : List UInt8) (cfg : HalUartConfig) :
    Program (Nat ⊕ TermGuard) := do
  let st ← perform (.uartOpen cfg)
  if st ≠ .ok then
    perform (.report (lit "hal_uart_open(" ++ (cfg.path.getD []).map UInt8.ofBitVec ++ lit ") failed: " ++
      lit (halStatusStr st) ++ lit "\n"))
    return .inl 1
  else
    let (guard, raw) ← stdinSetRaw cleared
    if !raw then
      perform (.report (lit "Failed to set stdin raw mode\n"))
      perform .uartClose
      return .inl 1
    else
      perform (.report banner)
      let fd ← perform .uartGetFd
      if fd < 0 then
        perform (.report (lit "hal_uart_get_fd failed\n"))
        stdinRestore guard
        perform .uartClose
        return .inl 1
      else return .inr guard

/-- `main` after the loop. -/
def disconnect (bye : List UInt8) (guard : TermGuard) : Program Nat := do
  stdinRestore guard
  perform .uartClose
  perform (.report bye)
  return 0

/-- `main` up to the loop: the exit status, or the first state of the loop. -/
def launch {O S : Type} (usage : List UInt8) (parsed : Except Exit O) (cfg : O → HalUartConfig) (cleared : Tcflag)
    (banner : O → List UInt8) (state : O → TermGuard → S) : Program (Nat ⊕ S) :=
  match parsed with
  | .error exit => do
    perform (.report exit.text)
    return .inl exit.code
  | .ok o =>
    if (cfg o).path = none then do
      perform (.report usage)
      return .inl 2
    else do
      match ← connect cleared (banner o) (cfg o) with
      | .inl code => return .inl code
      | .inr guard => return .inr (state o guard)

/-- A turn of the loop with its test, where `dispatch` is what follows the `poll`. -/
def pollTurn {S : Type} (s : S) (guard : TermGuard) (dispatch : Bool → Bool → Program (S ⊕ TermGuard)) :
    Program (S ⊕ TermGuard) := do
  if ← perform .stopped then return .inr guard
  else
    match ← perform .poll with
    | .error errno =>
      if errno = .eintr then return .inl s
      else
        perform (.report (lit "poll() failed\n"))
        return .inr guard
    | .ok (stdinReady, uartReady) => dispatch stdinReady uartReady

/-! ### Keys -/

/-- `'\r'` -/
def carriageReturn : Byte := 0x0d

/-- `'\n'` -/
def lineFeed : Byte := 0x0a

/-- `'\b'` -/
def backspace : Byte := 0x08

/-- The byte that the delete key sends. -/
def delete : Byte := 0x7f

/-- `' '` -/
def blank : Byte := 0x20

/-- The line end that the programs send. -/
def crlf : List Byte := [carriageReturn, lineFeed]

/-- The keys that take the last byte back. -/
def isErase (c : Byte) : Bool := c = delete || c = backspace

/-- The keys that end a line. -/
def isEol (c : Byte) : Bool := c = carriageReturn || c = lineFeed

/-- `hal_uart_write` with a timeout of a second, and what is printed when it fails. -/
def uartSend (complaint : String) (buffer : List Byte) : Program Bool := do
  let (st, _) ← perform (.uartWrite buffer)
  if st = .ok then return true
  else
    perform (.report (lit complaint ++ lit (halStatusStr st) ++ lit "\n"))
    return false

/-- A key that was typed at column `local_col`: the column after it, and whether its write succeeded. -/
def typed (c : Byte) (localCol : Nat) : Program (Nat × Bool) :=
  if isErase c then
    if 0 < localCol then do
      perform (.display [backspace, blank, backspace])
      let sent ← uartSend "\nUART write error: " [delete]
      return (localCol - 1, sent)
    else return (localCol, true)
  else if isEol c then do
    if ← uartSend "\nUART write error: " crlf then
      perform (.display crlf)
      return (0, true)
    else return (localCol, false)
  else do
    if ← uartSend "\nUART write error: " [c] then
      perform (.display [c])
      return (localCol + 1, true)
    else return (localCol, false)

/-- What the part of a turn that reads the terminal comes to. -/
inductive Keyboard (K : Type) where
  /-- The state of the keys, and whether `g_stop` was left alone. -/
  | typed (k : K) (go : Bool)
  | again
  | leave

/-- The part of a turn that reads the terminal, if there is input. -/
def keyboard {K : Type} (keys : List Byte → K → Program (K × Bool)) (ready : Bool) (k : K) :
    Program (Keyboard K) :=
  if ready then do
    match ← perform (.readStdin 256) with
    | .error errno =>
      if errno = .eintr then return .again
      else
        perform (.report (lit "\nstdin read error\n"))
        return .leave
    | .ok data =>
      if data.1 = [] then return .leave
      else
        let (k, go) ← keys data.1 k
        return .typed k go
  else return .typed k true

/-! ### What was said -/

/-- The calls of `hal_uart_write`. -/
def calls (talk : Talk) : List (List Byte) := talk.flatMap fun
  | ⟨.uartWrite buffer, _⟩ => [buffer]
  | _ => []

/-- What was written to the standard output, one write after the other. -/
def shows (talk : Talk) : List (List Byte) := talk.flatMap fun
  | ⟨.display bytes, _⟩ => [bytes]
  | _ => []

/-- What the UART delivered. -/
def received (talk : Talk) : List Byte := talk.flatMap fun
  | ⟨.uartRead _, (st, data)⟩ => if st = .ok then data.1 else []
  | _ => []

/-- What was typed. -/
def keysOf (talk : Talk) : List Byte := talk.flatMap fun
  | ⟨.readStdin _, .ok data⟩ => data.1
  | _ => []

section Talk
variable (talk talk' : Talk)

@[simp] theorem calls_append : calls (talk ++ talk') = calls talk ++ calls talk' := List.flatMap_append

@[simp] theorem shows_append : shows (talk ++ talk') = shows talk ++ shows talk' := List.flatMap_append

@[simp] theorem received_append : received (talk ++ talk') = received talk ++ received talk' := List.flatMap_append

@[simp] theorem keysOf_append : keysOf (talk ++ talk') = keysOf talk ++ keysOf talk' := List.flatMap_append

end Talk

/-- Nothing was read. -/
def NoInput (talk : Talk) : Prop := received talk = [] ∧ keysOf talk = []

theorem NoInput.append {talk talk' : Talk} (h : NoInput talk) (h' : NoInput talk') : NoInput (talk ++ talk') := by
  obtain ⟨hreceived, hkeys⟩ := h
  obtain ⟨hreceived', hkeys'⟩ := h'
  exact ⟨by rw [received_append, hreceived, hreceived']; rfl, by rw [keysOf_append, hkeys, hkeys']; rfl⟩

/-- An answer that ends the loop. -/
def Stops : Exchange Ask Ask.Answer → Prop
  | ⟨.stopped, stopped⟩ => stopped = true
  | ⟨.poll, .error errno⟩ | ⟨.readStdin _, .error errno⟩ => errno ≠ .eintr
  | ⟨.readStdin _, .ok data⟩ => data.1 = []
  | ⟨.uartRead _, (st, _)⟩ | ⟨.uartWrite _, (st, _)⟩ => st ≠ .ok
  | _ => False

/-- No answer ends the loop. -/
def Clean (talk : Talk) : Prop := ∀ e ∈ talk, ¬Stops e

@[simp] theorem clean_nil : Clean [] := fun _ he => absurd he List.not_mem_nil

@[simp] theorem clean_cons {e : Exchange Ask Ask.Answer} {talk : Talk} :
    Clean (e :: talk) ↔ ¬Stops e ∧ Clean talk := List.forall_mem_cons

@[simp] theorem clean_append {talk talk' : Talk} : Clean (talk ++ talk') ↔ Clean talk ∧ Clean talk' :=
  List.forall_mem_append

/-- Nothing was sent, shown or read. -/
def Silent (talk : Talk) : Prop := calls talk = [] ∧ shows talk = [] ∧ NoInput talk

/-- What is asked outside of the loops. -/
def Ask.Outside : Ask → Prop
  | .tcgetattr | .tcsetattr _ | .uartOpen _ | .uartClose | .uartGetFd | .report _ => True
  | .uartRead _ | .uartWrite _ | .stopped | .poll | .readStdin _ | .display _ => False

theorem silent_of_outside {talk : Talk} (h : ∀ e ∈ talk, e.1.Outside) : Silent talk := by
  refine ⟨?_, ?_, ?_, ?_⟩
  all_goals
    refine List.flatMap_eq_nil_iff.mpr fun e he => ?_
    obtain ⟨req, res⟩ := e
    have hreq := h _ he
    cases req <;> first | rfl | exact hreq.elim

theorem clean_of_outside {talk : Talk} (h : ∀ e ∈ talk, e.1.Outside) : Clean talk := by
  rintro ⟨req, res⟩ he hstops
  have hreq := h _ he
  cases req <;> first | exact hreq | exact hstops

theorem stdinSetRaw_only (cleared : Tcflag) : (stdinSetRaw cleared).Only Ask.Outside := by
  refine ⟨trivial, fun tio => ?_⟩
  cases tio with
  | none => trivial
  | some tio => exact ⟨trivial, fun _ => trivial⟩

theorem stdinRestore_only (guard : TermGuard) : (stdinRestore guard).Only Ask.Outside := by
  cases guard with
  | none => trivial
  | some tio => exact ⟨trivial, fun _ => trivial⟩

theorem connect_only (cleared : Tcflag) (banner : List UInt8) (cfg : HalUartConfig) :
    (connect cleared banner cfg).Only Ask.Outside := by
  refine ⟨trivial, fun st => ?_⟩
  dsimp only [Dialogue.bind]
  split_ifs with hst
  · exact ⟨trivial, fun _ => trivial⟩
  refine (stdinSetRaw_only cleared).bind fun ⟨guard, raw⟩ => ?_
  dsimp only
  split_ifs with hraw
  · exact ⟨trivial, fun _ => ⟨trivial, fun _ => trivial⟩⟩
  refine ⟨trivial, fun _ => ⟨trivial, fun fd => ?_⟩⟩
  dsimp only [Dialogue.bind]
  split_ifs with hfd
  · exact ⟨trivial, fun _ => (stdinRestore_only guard).bind fun _ => ⟨trivial, fun _ => trivial⟩⟩
  · trivial

section Launch
variable {O S : Type} (usage : List UInt8) (parsed : Except Exit O) (cfg : O → HalUartConfig) (cleared : Tcflag)
  (banner : O → List UInt8) (state : O → TermGuard → S)

theorem launch_only : (launch usage parsed cfg cleared banner state).Only Ask.Outside := by
  unfold launch
  cases parsed with
  | error exit => exact ⟨trivial, fun _ => trivial⟩
  | ok o =>
    dsimp only
    split_ifs with hpath
    · exact ⟨trivial, fun _ => trivial⟩
    · exact (connect_only ..).bind fun v => by cases v <;> trivial

variable {usage parsed cfg cleared banner state}

theorem launch_ends {talk : Talk} {s : S} (h : Ends (launch usage parsed cfg cleared banner state) talk (.inr s)) :
    ∃ o guard, parsed = .ok o ∧ (cfg o).path ≠ none ∧ Ends (connect cleared (banner o) (cfg o)) talk (.inr guard) ∧
      s = state o guard := by
  unfold launch at h
  cases parsed with
  | error exit =>
    obtain ⟨_, rest, rfl, hret⟩ := ends_perform.mp h
    cases (ends_pure.mp hret).2
  | ok o =>
    dsimp only at h
    split_ifs at h with hpath
    · obtain ⟨_, rest, rfl, hret⟩ := ends_perform.mp h
      cases (ends_pure.mp hret).2
    · obtain ⟨talk₁, code | guard, talk₂, rfl, hconnect, hret⟩ := ends_bind.mp h
      · cases (ends_pure.mp hret).2
      · obtain ⟨rfl, hvalue⟩ := ends_pure.mp hret
        rw [List.append_nil]
        exact ⟨o, guard, rfl, hpath, hconnect, Sum.inr.inj hvalue⟩

/-- A turn ends at its test or at the `poll`, or does what follows. -/
theorem pollTurn_ends {s : S} {guard : TermGuard} {dispatch : Bool → Bool → Program (S ⊕ TermGuard)} {talk : Talk}
    {r : S ⊕ TermGuard} (h : Ends (pollTurn s guard dispatch) talk r) :
    Silent talk ∧ (Clean talk ∧ r = .inl s ∨ ¬Clean talk ∧ r = .inr guard) ∨
      ∃ stdinReady uartReady rest, talk = ⟨.stopped, false⟩ :: ⟨.poll, .ok (stdinReady, uartReady)⟩ :: rest ∧
        Ends (dispatch stdinReady uartReady) rest r := by
  obtain ⟨stopped, rest, rfl, h₁⟩ := ends_perform.mp h
  split_ifs at h₁ with hstop
  · obtain ⟨rfl, rfl⟩ := ends_pure.mp h₁
    exact .inl ⟨⟨rfl, rfl, rfl, rfl⟩, .inr ⟨by simp [Stops, hstop], rfl⟩⟩
  obtain ⟨errno | ⟨stdinReady, uartReady⟩, rest, rfl, h₂⟩ := ends_perform.mp h₁
  · dsimp only at h₂
    split_ifs at h₂ with hintr
    · obtain ⟨rfl, rfl⟩ := ends_pure.mp h₂
      exact .inl ⟨⟨rfl, rfl, rfl, rfl⟩, .inl ⟨by simp [Stops, hstop, hintr], rfl⟩⟩
    · obtain ⟨_, rest, rfl, h₃⟩ := ends_perform.mp h₂
      obtain ⟨rfl, rfl⟩ := ends_pure.mp h₃
      exact .inl ⟨⟨rfl, rfl, rfl, rfl⟩, .inr ⟨by simp [Stops, hintr], rfl⟩⟩
  · rw [Bool.eq_false_iff.mpr hstop]
    exact .inr ⟨stdinReady, uartReady, rest, rfl, h₂⟩

end Launch

/-! ### A key -/

/-- What `typed` sends. -/
def sent (c : Byte) (localCol : Nat) : List (List Byte) :=
  if isErase c then if 0 < localCol then [[delete]] else [] else if isEol c then [crlf] else [[c]]

/-- What it shows when its write succeeds. -/
def shown (c : Byte) (localCol : Nat) : List (List Byte) :=
  if isErase c then if 0 < localCol then [[backspace, blank, backspace]] else [] else if isEol c then [crlf] else [[c]]

/-- The column after a key. -/
def colAfter (c : Byte) (localCol : Nat) : Nat :=
  if isErase c then localCol - 1 else if isEol c then 0 else localCol + 1

theorem uartSend_ends {complaint : String} {buffer : List Byte} {talk : Talk} {done : Bool}
    (h : Ends (uartSend complaint buffer) talk done) :
    calls talk = [buffer] ∧ shows talk = [] ∧ NoInput talk ∧ (done = true ↔ Clean talk) := by
  obtain ⟨⟨st, w⟩, rest, rfl, h₁⟩ := ends_perform.mp h
  dsimp only at h₁
  split_ifs at h₁ with hst
  · obtain ⟨rfl, rfl⟩ := ends_pure.mp h₁
    exact ⟨rfl, rfl, ⟨rfl, rfl⟩, by simp [Stops, hst]⟩
  · obtain ⟨_, rest, rfl, h₂⟩ := ends_perform.mp h₁
    obtain ⟨rfl, rfl⟩ := ends_pure.mp h₂
    exact ⟨rfl, rfl, ⟨rfl, rfl⟩, by simp [Stops, hst]⟩

/-- A write, and what follows if it succeeds. -/
theorem sendThen_ends {α : Type} {complaint : String} {buffer : List Byte} {next : Program α} {fail value : α}
    {talk : Talk} (h : Ends (do if ← uartSend complaint buffer then next else return fail) talk value) :
    ∃ talk₁ talk₂, talk = talk₁ ++ talk₂ ∧ calls talk₁ = [buffer] ∧ shows talk₁ = [] ∧ NoInput talk₁ ∧
      (Clean talk₁ ∧ Ends next talk₂ value ∨ ¬Clean talk₁ ∧ talk₂ = [] ∧ value = fail) := by
  obtain ⟨talk₁, done, talk₂, rfl, hsend, h₁⟩ := ends_bind.mp h
  obtain ⟨hcalls, hshows, hinput, hclean⟩ := uartSend_ends hsend
  refine ⟨talk₁, talk₂, rfl, hcalls, hshows, hinput, ?_⟩
  cases done with
  | true => exact .inl ⟨hclean.mp rfl, h₁⟩
  | false => exact .inr ⟨mt hclean.mpr Bool.false_ne_true, ends_pure.mp h₁⟩

/-- A write that is shown, and what follows if it succeeds. -/
theorem sendShowThen_ends {α : Type} {complaint : String} {buffer : List Byte} {next : Program α} {fail value : α}
    {talk : Talk}
    (h : Ends (do if ← uartSend complaint buffer then perform (.display buffer); next else return fail) talk value) :
    ∃ talk₁ talk₂, talk = talk₁ ++ talk₂ ∧ calls talk₁ = [buffer] ∧ shows talk₁ <+: [buffer] ∧ NoInput talk₁ ∧
      (Clean talk₁ ∧ shows talk₁ = [buffer] ∧ Ends next talk₂ value ∨ ¬Clean talk₁ ∧ talk₂ = [] ∧ value = fail) := by
  obtain ⟨talk₁, talk₂, rfl, hcalls, hshows, ⟨hreceived, hkeys⟩, hrest⟩ := sendThen_ends h
  rcases hrest with ⟨hclean, hnext⟩ | ⟨hbad, rfl, hvalue⟩
  · obtain ⟨_, rest, rfl, hafter⟩ := ends_perform.mp hnext
    refine ⟨talk₁ ++ [⟨.display buffer, ()⟩], rest, by simp, ?_, ?_, ⟨?_, ?_⟩, .inl ⟨?_, ?_, hafter⟩⟩
    · rw [calls_append, hcalls]; rfl
    · rw [shows_append, hshows]; exact List.prefix_rfl
    · rw [received_append, hreceived]; rfl
    · rw [keysOf_append, hkeys]; rfl
    · simp [hclean, Stops]
    · rw [shows_append, hshows]; rfl
  · rw [List.append_nil]
    refine ⟨talk₁, [], by simp, hcalls, ?_, ⟨hreceived, hkeys⟩, .inr ⟨hbad, rfl, hvalue⟩⟩
    rw [hshows]
    exact List.nil_prefix

/-- A key that goes to the UART and then to the screen. -/
theorem sendShow_ends {buffer : List Byte} {localCol localCol' after : Nat} {talk : Talk} {go : Bool}
    (h : Ends (do
      if ← uartSend "\nUART write error: " buffer then
        perform (.display buffer)
        return (after, true)
      else return (localCol, false)) talk (localCol', go)) :
    calls talk = [buffer] ∧ NoInput talk ∧ shows talk <+: [buffer] ∧ (go = true ↔ Clean talk) ∧
      (go = true → shows talk = [buffer] ∧ localCol' = after) := by
  obtain ⟨talk₁, talk₂, rfl, hcalls, hprefix, hinput, hrest⟩ := sendShowThen_ends h
  rcases hrest with ⟨hclean, hshows, hret⟩ | ⟨hbad, rfl, hvalue⟩
  · obtain ⟨rfl, hvalue⟩ := ends_pure.mp hret
    cases hvalue
    rw [List.append_nil]
    exact ⟨hcalls, hinput, hprefix, by simp [hclean], fun _ => ⟨hshows, rfl⟩⟩
  · cases hvalue
    rw [List.append_nil]
    exact ⟨hcalls, hinput, hprefix, by simp [hbad], nofun⟩

theorem typed_ends {c : Byte} {localCol localCol' : Nat} {talk : Talk} {go : Bool}
    (h : Ends (typed c localCol) talk (localCol', go)) :
    calls talk = sent c localCol ∧ NoInput talk ∧ shows talk <+: shown c localCol ∧ (go = true ↔ Clean talk) ∧
      (go = true → shows talk = shown c localCol ∧ localCol' = colAfter c localCol) := by
  unfold typed at h
  unfold sent shown colAfter
  split_ifs at h ⊢ with herase hcol heol
  · obtain ⟨_, rest, rfl, h₁⟩ := ends_perform.mp h
    obtain ⟨talk₁, done, talk₂, rfl, hsend, h₂⟩ := ends_bind.mp h₁
    obtain ⟨hcalls, hshows, hinput, hclean⟩ := uartSend_ends hsend
    obtain ⟨rfl, hvalue⟩ := ends_pure.mp h₂
    cases hvalue
    rw [List.append_nil]
    change calls talk₁ = _ ∧ NoInput talk₁ ∧ [backspace, blank, backspace] :: shows talk₁ <+: _ ∧ (_ ↔ _) ∧
      (_ → [backspace, blank, backspace] :: shows talk₁ = _ ∧ _)
    rw [hcalls, hshows]
    exact ⟨rfl, hinput, List.prefix_rfl, by simp [hclean, Stops], fun _ => ⟨rfl, rfl⟩⟩
  · obtain ⟨rfl, hvalue⟩ := ends_pure.mp h
    cases hvalue
    exact ⟨rfl, ⟨rfl, rfl⟩, List.prefix_rfl, by simp, fun _ => ⟨rfl, by omega⟩⟩
  · exact sendShow_ends h
  · exact sendShow_ends h

/-! ### A row of keys -/

/-- The column after a row of keys. -/
def colAfterAll (keys : List Byte) (localCol : Nat) : Nat := keys.foldl (fun col c => colAfter c col) localCol

/-- What goes over the line for the keys, from column `localCol` on. -/
def sentAll : List Byte → Nat → List (List Byte)
  | [], _ => []
  | c :: keys, localCol => sent c localCol ++ sentAll keys (colAfter c localCol)

/-- What appears on the terminal for the keys, from column `localCol` on. -/
def shownAll : List Byte → Nat → List (List Byte)
  | [], _ => []
  | c :: keys, localCol => shown c localCol ++ shownAll keys (colAfter c localCol)

theorem colAfterAll_append (keys keys' : List Byte) (localCol : Nat) :
    colAfterAll (keys ++ keys') localCol = colAfterAll keys' (colAfterAll keys localCol) := List.foldl_append

theorem sentAll_append (keys keys' : List Byte) (localCol : Nat) :
    sentAll (keys ++ keys') localCol = sentAll keys localCol ++ sentAll keys' (colAfterAll keys localCol) := by
  induction keys generalizing localCol with
  | nil => rfl
  | cons c keys ih =>
    rw [List.cons_append, sentAll, ih, sentAll, List.append_assoc]
    rfl

theorem shownAll_append (keys keys' : List Byte) (localCol : Nat) :
    shownAll (keys ++ keys') localCol = shownAll keys localCol ++ shownAll keys' (colAfterAll keys localCol) := by
  induction keys generalizing localCol with
  | nil => rfl
  | cons c keys ih =>
    rw [List.cons_append, shownAll, ih, shownAll, List.append_assoc]
    rfl

/-- The part of a turn that reads the terminal says nothing, or what the loop over the keys says. -/
theorem keyboard_ends {K : Type} {keys : List Byte → K → Program (K × Bool)} {ready : Bool} {k : K} {talk : Talk}
    {value : Keyboard K} (h : Ends (keyboard keys ready k) talk value) :
    Silent talk ∧ (Clean talk ∧ (value = .again ∨ value = .typed k true) ∨ ¬Clean talk ∧ value = .leave) ∨
      ∃ data k' go front talk', talk = front ++ talk' ∧ calls front = [] ∧ shows front = [] ∧ received front = [] ∧
        Clean front ∧ keysOf front = data ∧ Ends (keys data k) talk' (k', go) ∧ value = .typed k' go := by
  unfold keyboard at h
  split_ifs at h with hready
  · obtain ⟨errno | data, rest, rfl, hafter⟩ := ends_perform.mp h
    · left
      dsimp only at hafter
      split_ifs at hafter with hintr
      · obtain ⟨rfl, rfl⟩ := ends_pure.mp hafter
        exact ⟨⟨rfl, rfl, rfl, rfl⟩, .inl ⟨by simp [Stops, hintr], .inl rfl⟩⟩
      · obtain ⟨_, rest, rfl, hret⟩ := ends_perform.mp hafter
        obtain ⟨rfl, rfl⟩ := ends_pure.mp hret
        exact ⟨⟨rfl, rfl, rfl, rfl⟩, .inr ⟨by simp [Stops, hintr], rfl⟩⟩
    · dsimp only at hafter
      split_ifs at hafter with hnil
      · obtain ⟨rfl, rfl⟩ := ends_pure.mp hafter
        refine .inl ⟨⟨rfl, rfl, rfl, ?_⟩, .inr ⟨by simp [Stops, hnil], rfl⟩⟩
        simp [keysOf, hnil]
      · obtain ⟨talk₁, ⟨k', go⟩, talk₂, rfl, hkeys, hret⟩ := ends_bind.mp hafter
        obtain ⟨rfl, rfl⟩ := ends_pure.mp hret
        rw [List.append_nil]
        exact .inr ⟨data.1, k', go, [⟨.readStdin 256, .ok data⟩], talk₁, rfl, rfl, rfl, rfl,
          by simp [Stops, hnil], List.append_nil _, hkeys, rfl⟩
  · obtain ⟨rfl, rfl⟩ := ends_pure.mp h
    exact .inl ⟨⟨rfl, rfl, rfl, rfl⟩, .inl ⟨clean_nil, .inr rfl⟩⟩

end Apps
end Emberlite
