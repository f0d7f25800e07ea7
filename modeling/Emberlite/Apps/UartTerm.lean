import Mathlib.Data.List.DropRight
import Emberlite.Apps.Console

/-! The terminal of `apps/examples/uart_term.c`: it shows what the UART delivers, with the ends of its lines made CRLF,
    and sends what is typed, until Ctrl-A and Ctrl-X. -/

namespace Emberlite
namespace Apps
namespace UartTerm
open CString Dialogue Hal Hal.UartOpen

/-! ### The program -/

/-- `usage` -/
def usage (argv0 : List UInt8) : List UInt8 :=
  lit "Usage: " ++ argv0 ++
    lit " -d <device> [-b <baud>] [--databits N] [--stopbits N] [--parity none|odd|even] [--flow none|hw|sw]\nExample: " ++
    argv0 ++ lit " -d /dev/ttyUSB0 -b 115200\nExit: Ctrl-A then Ctrl-X\n"

/-- One option with its value; `none` is an option that the program does not have. -/
def setOption (name value : List UInt8) (cfg : HalUartConfig) : Option (Except Exit HalUartConfig) :=
  if name = lit "-d" then some (.ok { cfg with path := some (value.map UInt8.toBitVec) })
  else if name = lit "-b" then
    match parseU32 value with
    | none => some (.error ⟨lit "Invalid baudrate\n", 2⟩)
    | some v => some (.ok { cfg with baudrate := v })
  else if name = lit "--databits" then
    match parseU32 value with
    | none => some (.error ⟨lit "Invalid databits (5..8)\n", 2⟩)
    | some v =>
      if v < 5 ∨ 8 < v then some (.error ⟨lit "Invalid databits (5..8)\n", 2⟩)
      else some (.ok { cfg with dataBits := v.setWidth 8 })
  else if name = lit "--stopbits" then
    match parseU32 value with
    | none => some (.error ⟨lit "Invalid stopbits (1|2)\n", 2⟩)
    | some v =>
      if v ≠ 1 ∧ v ≠ 2 then some (.error ⟨lit "Invalid stopbits (1|2)\n", 2⟩)
      else some (.ok { cfg with stopBits := v.setWidth 8 })
  else if name = lit "--parity" then
    if value = lit "none" then some (.ok { cfg with parity := 0 })
    else if value = lit "odd" then some (.ok { cfg with parity := 1 })
    else if value = lit "even" then some (.ok { cfg with parity := 2 })
    else some (.error ⟨lit "Invalid parity (none|odd|even)\n", 2⟩)
  else if name = lit "--flow" then
    if value = lit "none" then some (.ok { cfg with flowControl := 0 })
    else if value = lit "hw" then some (.ok { cfg with flowControl := 1 })
    else if value = lit "sw" then some (.ok { cfg with flowControl := 2 })
    else some (.error ⟨lit "Invalid flow (none|hw|sw)\n", 2⟩)
  else none

/-- A byte from the UART, with `out` and `last_rx_was_cr`. -/
def rxStep (p : List Byte × Bool) (c : Byte) : List Byte × Bool :=
  if c = lineFeed ∧ p.2 = false then
    (if p.1.length + 2 ≤ 2048 then p.1 ++ [carriageReturn, lineFeed] else p.1, false)
  else (if p.1.length + 1 ≤ 2048 then p.1 ++ [c] else p.1, c = carriageReturn)

/-- The part of a turn that reads the UART, if it has input: `last_rx_was_cr` after it, unless the read failed. -/
def receive (ready lastRxWasCr : Bool) : Program (Option Bool) :=
  if ready then do
    let (st, data) ← perform (.uartRead 1024)
    if st ≠ .ok then
      perform (.report (lit "\nUART read error: " ++ lit (halStatusStr st) ++ lit "\n"))
      return none
    else
      let (out, last) := data.1.foldl rxStep ([], lastRxWasCr)
      if out = [] then return some last
      else
        perform (.display out)
        return some last
  else return some lastRxWasCr

/-- Ctrl-A. -/
def ctrlA : Byte := 0x01

/-- Ctrl-X. -/
def ctrlX : Byte := 0x18

/-- `saw_ctrl_a` and `local_col`. -/
abbrev KeyState : Type := Bool × Nat

/-- The loop over the keys. -/
def keys : List Byte → KeyState → Program (KeyState × Bool)
  | [], k => return (k, true)
  | c :: rest, (sawCtrlA, localCol) =>
    if sawCtrlA then
      if c = ctrlX then return ((false, localCol), false)
      else do
        if ← uartSend "\nUART write error: " [ctrlA, c] then
          perform (.display [ctrlA, c])
          keys rest (false, localCol + 2)
        else return ((false, localCol), false)
    else if c = ctrlA then keys rest (true, localCol)
    else do
      let (localCol, go) ← typed c localCol
      if go then keys rest (false, localCol) else return ((false, localCol), false)

/-- What a turn of the loop reads and changes. -/
structure State where
  guard : TermGuard
  lastRxWasCr : Bool
  keyState : KeyState

/-- A turn of the loop after `poll`. -/
def dispatch (s : State) (stdinReady uartReady : Bool) : Program (State ⊕ TermGuard) := do
  match ← receive uartReady s.lastRxWasCr with
  | none => return .inr s.guard
  | some lastRxWasCr =>
    match ← keyboard keys stdinReady s.keyState with
    | .again => return .inl { s with lastRxWasCr }
    | .leave => return .inr s.guard
    | .typed keyState go => if go then return .inl { s with lastRxWasCr, keyState } else return .inr s.guard

/-- A turn of the loop. -/
def turn (s : State) : Program (State ⊕ TermGuard) := pollTurn s s.guard (dispatch s)

/-- The first line on the terminal. -/
def banner (cfg : HalUartConfig) : List UInt8 :=
  lit "Connected to " ++ (cfg.path.getD []).map UInt8.ofBitVec ++ lit " @ " ++ CNumber.decimal cfg.baudrate.toNat ++
    lit ". Exit with Ctrl-A then Ctrl-X.\r\n"

/-- `main`. -/
def main (argv0 : List UInt8) (args : List (List UInt8)) : Looped Ask Ask.Answer State TermGuard Nat where
  start := launch (usage argv0) (parseArgs (usage argv0) setOption args defaultConfig) id
    (Tty.echo ||| Tty.echonl ||| Tty.icanon ||| Tty.isig ||| Tty.iexten) banner fun _ guard => ⟨guard, false, false, 0⟩
  turn := turn
  finish := disconnect (lit "\nBye.\n")

/-! ### What is shown of a stream -/

/-- Line ends of the form CRLF are made LF. -/
def unix : List Byte → List Byte
  | [] => []
  | [c] => [c]
  | c :: d :: rest => if c = carriageReturn ∧ d = lineFeed then unix (d :: rest) else c :: unix (d :: rest)

/-- Every LF is made CRLF. -/
def toCrlf (stream : List Byte) : List Byte := stream.flatMap fun c => if c = lineFeed then crlf else [c]

/-- What is shown of a stream, where the byte before it was CR or not. -/
def normalise : Bool → List Byte → List Byte
  | _, [] => []
  | afterCr, c :: rest =>
    if c = lineFeed ∧ afterCr = false then crlf ++ normalise false rest else c :: normalise (c = carriageReturn) rest

/-- Whether the last byte is CR. -/
def endsCr (afterCr : Bool) (stream : List Byte) : Bool := stream.foldl (fun _ c => c = carriageReturn) afterCr

theorem endsCr_append (afterCr : Bool) (stream stream' : List Byte) :
    endsCr afterCr (stream ++ stream') = endsCr (endsCr afterCr stream) stream' := List.foldl_append

theorem normalise_append (afterCr : Bool) (stream stream' : List Byte) :
    normalise afterCr (stream ++ stream') = normalise afterCr stream ++ normalise (endsCr afterCr stream) stream' := by
  induction stream generalizing afterCr with
  | nil => rfl
  | cons c stream ih =>
    simp only [List.cons_append, normalise]
    split_ifs with hfeed
    · obtain ⟨rfl, -⟩ := hfeed
      rw [ih, List.append_assoc]
      rfl
    · rw [ih]
      rfl

theorem normalise_cons {c : Byte} (hc : c ≠ lineFeed) (afterCr : Bool) (rest : List Byte) :
    normalise afterCr (c :: rest) = c :: normalise (c = carriageReturn) rest := by
  rw [normalise, if_neg fun h => hc h.1]

theorem unix_cons {c : Byte} (hc : c ≠ carriageReturn) (rest : List Byte) : unix (c :: rest) = c :: unix rest := by
  cases rest with
  | nil => rfl
  | cons d rest => rw [unix, if_neg fun h => hc h.1]

theorem toCrlf_cons (c : Byte) (rest : List Byte) :
    toCrlf (c :: rest) = (if c = lineFeed then crlf else [c]) ++ toCrlf rest := List.flatMap_cons

/-- A CR that is held back belongs to the LF behind it, if there is one. -/
theorem normalise_spec (stream : List Byte) :
    normalise false stream = toCrlf (unix stream) ∧
      carriageReturn :: normalise true stream = toCrlf (unix (carriageReturn :: stream)) := by
  induction stream with
  | nil => exact ⟨rfl, rfl⟩
  | cons c rest ih =>
    obtain ⟨hplain, hheld⟩ := ih
    by_cases hfeed : c = lineFeed
    · subst hfeed
      have hunix : unix (lineFeed :: rest) = lineFeed :: unix rest := unix_cons (by decide) rest
      rw [unix, if_pos ⟨rfl, rfl⟩, hunix, toCrlf_cons, ← hplain]
      exact ⟨rfl, rfl⟩
    · have hfirst : normalise false (c :: rest) = toCrlf (unix (c :: rest)) := by
        rw [normalise_cons hfeed]
        by_cases hreturn : c = carriageReturn
        · subst hreturn
          exact hheld
        · rw [unix_cons hreturn, toCrlf_cons, if_neg hfeed, ← hplain, decide_eq_false hreturn]
          rfl
      refine ⟨hfirst, ?_⟩
      rw [unix, if_neg fun h => hfeed h.2, toCrlf_cons, ← hfirst, normalise_cons hfeed, normalise_cons hfeed]
      rfl

/-- No byte is left out: `out` has room for twice as many bytes as a read delivers. -/
theorem foldl_rxStep {data out : List Byte} {last : Bool} (hroom : out.length + 2 * data.length ≤ 2048) :
    data.foldl rxStep (out, last) = (out ++ normalise last data, endsCr last data) := by
  induction data generalizing out last with
  | nil => simp [normalise, endsCr]
  | cons c data ih =>
    rw [List.length_cons] at hroom
    rw [List.foldl_cons, rxStep]
    dsimp only
    split_ifs with hfeed h₁ h₂
    · obtain ⟨rfl, rfl⟩ := hfeed
      rw [ih (by rw [List.length_append]; exact hroom.trans' (by simp; omega)), List.append_assoc]
      rfl
    · exact absurd (by omega) h₁
    · rw [ih (by rw [List.length_append]; exact hroom.trans' (by simp; omega)), List.append_assoc,
        normalise, if_neg hfeed]
      rfl
    · exact absurd (by omega) h₂

theorem receive_ends {ready last : Bool} {talk : Talk} {value : Option Bool} (h : Ends (receive ready last) talk value) :
    calls talk = [] ∧ keysOf talk = [] ∧ (shows talk).flatten = normalise last (received talk) ∧
      (Clean talk ∧ value = some (endsCr last (received talk)) ∨ ¬Clean talk ∧ value = none) := by
  unfold receive at h
  split_ifs at h with hready
  · obtain ⟨⟨st, data⟩, rest, rfl, hafter⟩ := ends_perform.mp h
    dsimp only at hafter
    split_ifs at hafter with hst hout
    · obtain ⟨_, rest, rfl, hret⟩ := ends_perform.mp hafter
      obtain ⟨rfl, rfl⟩ := ends_pure.mp hret
      exact ⟨rfl, rfl, by simp [received, shows, hst, normalise], .inr ⟨by simp [Stops, hst], rfl⟩⟩
    all_goals
      have hroom : ([] : List Byte).length + 2 * data.1.length ≤ 2048 := by
        simpa using Nat.mul_le_mul_left 2 data.2
      rw [foldl_rxStep hroom, List.nil_append] at hout hafter
      rw [not_not] at hst
    · obtain ⟨rfl, rfl⟩ := ends_pure.mp hafter
      dsimp only at hout
      exact ⟨rfl, rfl, by simp [received, shows, hst, hout], .inl ⟨by simp [Stops, hst], by simp [received, hst]⟩⟩
    · obtain ⟨_, rest, rfl, hret⟩ := ends_perform.mp hafter
      obtain ⟨rfl, rfl⟩ := ends_pure.mp hret
      exact ⟨rfl, rfl, by simp [received, shows, hst], .inl ⟨by simp [Stops, hst], by simp [received, hst]⟩⟩
  · obtain ⟨rfl, rfl⟩ := ends_pure.mp h
    exact ⟨rfl, rfl, rfl, .inl ⟨clean_nil, rfl⟩⟩

/-! ### What is made of the keys -/

/-- What one key does to the pending Ctrl-A and the column. -/
def keyStep (k : KeyState) (c : Byte) : KeyState :=
  if k.1 then (false, k.2 + 2) else if c = ctrlA then (true, k.2) else (false, colAfter c k.2)

/-- The pending Ctrl-A and the column after the keys. -/
def keyAfter (keys : List Byte) (k : KeyState) : KeyState := keys.foldl keyStep k

/-- Whether the keys leave the program. -/
def quits : Bool → List Byte → Bool
  | _, [] => false
  | true, c :: rest => c = ctrlX || quits false rest
  | false, c :: rest => quits (c = ctrlA) rest

/-- What is said for the keys up to where they leave the program. -/
def said (say : Byte → Nat → List (List Byte)) : List Byte → KeyState → List (List Byte)
  | [], _ => []
  | c :: rest, (true, localCol) =>
    if c = ctrlX then [] else [ctrlA, c] :: said say rest (false, localCol + 2)
  | c :: rest, (false, localCol) =>
    if c = ctrlA then said say rest (true, localCol) else say c localCol ++ said say rest (false, colAfter c localCol)

theorem keyAfter_append (keys keys' : List Byte) (k : KeyState) :
    keyAfter (keys ++ keys') k = keyAfter keys' (keyAfter keys k) := List.foldl_append

theorem keyStep_fst (k : KeyState) (c : Byte) : (keyStep k c).1 = (!k.1 && decide (c = ctrlA)) := by
  unfold keyStep
  split_ifs <;> simp_all

theorem quits_cons (k : KeyState) (c : Byte) (rest : List Byte) :
    quits k.1 (c :: rest) = ((k.1 && decide (c = ctrlX)) || quits (keyStep k c).1 rest) := by
  obtain ⟨saw, localCol⟩ := k
  rw [keyStep_fst]
  cases saw <;> simp [quits]

/-- Keys after those that have not left the program. -/
theorem quits_append {keys : List Byte} {k : KeyState} (hgo : quits k.1 keys = false) (keys' : List Byte) :
    quits k.1 (keys ++ keys') = quits (keyAfter keys k).1 keys' := by
  induction keys generalizing k with
  | nil => rfl
  | cons c keys ih =>
    rw [quits_cons, Bool.or_eq_false_iff] at hgo
    rw [List.cons_append, quits_cons, hgo.1, Bool.false_or]
    exact ih hgo.2

theorem said_append (say : Byte → Nat → List (List Byte)) {keys : List Byte} {k : KeyState}
    (hgo : quits k.1 keys = false) (keys' : List Byte) :
    said say (keys ++ keys') k = said say keys k ++ said say keys' (keyAfter keys k) := by
  induction keys generalizing k with
  | nil => rfl
  | cons c keys ih =>
    rw [quits_cons, Bool.or_eq_false_iff] at hgo
    obtain ⟨hnow, hgo⟩ := hgo
    have hrest := ih hgo
    obtain ⟨saw, localCol⟩ := k
    cases saw with
    | true =>
      have hc : c ≠ ctrlX := by simpa using hnow
      simp only [List.cons_append, said, if_neg hc]
      exact congrArg _ hrest
    | false =>
      by_cases hc : c = ctrlA
      all_goals
        simp only [keyStep, hc, Bool.false_eq_true, if_false, if_true] at hrest
        simp only [List.cons_append, said, hc, if_true, if_false, hrest, List.append_assoc]
        simp [keyAfter, keyStep, hc]

/-- Whether a Ctrl-A waits for the key behind it. -/
def pending (saw : Bool) (keys : List Byte) : Bool := keys.foldl (fun saw c => !saw && decide (c = ctrlA)) saw

theorem pending_concat (saw : Bool) (keys : List Byte) (c : Byte) :
    pending saw (keys ++ [c]) = (!pending saw keys && decide (c = ctrlA)) := List.foldl_append

/-- Each Ctrl-A that waits takes up the next key, so that every other one of a row waits. -/
theorem pending_iff (keys : List Byte) :
    pending false keys = decide ((keys.rtakeWhile (· = ctrlA)).length % 2 = 1) := by
  induction keys using List.reverseRecOn with
  | nil => rfl
  | append_singleton keys c ih =>
    rw [pending_concat, ih, List.rtakeWhile_concat]
    by_cases hc : c = ctrlA
    · rw [Bool.eq_iff_iff]
      simp [hc]
      omega
    · simp [hc]

theorem quits_iff_pending (saw : Bool) (keys : List Byte) :
    quits saw keys = true ↔ ∃ pre post, keys = pre ++ ctrlX :: post ∧ pending saw pre = true := by
  induction keys generalizing saw with
  | nil => simp [quits]
  | cons c rest ih =>
    rw [quits_cons (saw, 0), Bool.or_eq_true, ih, keyStep_fst]
    constructor
    · rintro (hnow | ⟨pre, post, rfl, hpre⟩)
      · obtain ⟨rfl, rfl⟩ : saw = true ∧ c = ctrlX := by simpa using hnow
        exact ⟨[], rest, rfl, rfl⟩
      · exact ⟨c :: pre, post, rfl, hpre⟩
    · rintro ⟨_ | ⟨d, pre⟩, post, hsplit, hpre⟩
      · obtain ⟨rfl, rfl⟩ := List.cons.inj hsplit
        exact .inl (by simpa [pending] using hpre)
      · obtain ⟨rfl, rfl⟩ := List.cons.inj hsplit
        exact .inr ⟨pre, post, rfl, hpre⟩

/-- Ctrl-A and Ctrl-X were typed, and the Ctrl-A does not belong to one before it. -/
def Leaves (keys : List Byte) : Prop :=
  ∃ pre post, keys = pre ++ ctrlA :: ctrlX :: post ∧ (pre.rtakeWhile (· = ctrlA)).length % 2 = 0

theorem quits_iff (keys : List Byte) : quits false keys = true ↔ Leaves keys := by
  rw [quits_iff_pending, Leaves]
  constructor
  · rintro ⟨pre, post, rfl, hpre⟩
    obtain ⟨front, c, rfl⟩ : ∃ front c, pre = front ++ [c] := by
      rcases List.eq_nil_or_concat pre with rfl | ⟨front, c, rfl⟩
      · cases hpre
      · exact ⟨front, c, List.concat_eq_append⟩
    rw [pending_concat, pending_iff] at hpre
    obtain ⟨heven, rfl⟩ : _ ∧ c = ctrlA := by simpa using hpre
    exact ⟨front, post, by simp, heven⟩
  · rintro ⟨pre, post, rfl, heven⟩
    refine ⟨pre ++ [ctrlA], post, by simp, ?_⟩
    rw [pending_concat, pending_iff]
    simp [heven]

/-! ### The keys of a read -/

/-- What the loop over the keys says in state `k`: all of what is to be said, unless a write fails. -/
structure KeysSay (data : List Byte) (k : KeyState) (talk : Talk) (k' : KeyState) (go : Bool) : Prop where
  calls : Apps.calls talk <+: said sent data k
  shows : Apps.shows talk <+: said shown data k
  whole : Clean talk → Apps.calls talk = said sent data k ∧ Apps.shows talk = said shown data k
  goes : go = true ↔ Clean talk ∧ quits k.1 data = false
  state : go = true → k' = keyAfter data k

/-- A key that does not leave the program, and those behind it if its write succeeds. -/
theorem KeysSay.cons {c : Byte} {rest : List Byte} {k k' : KeyState} {talk talk' : Talk} {go : Bool}
    {buffers images : List (List Byte)} (hsent : said sent (c :: rest) k = buffers ++ said sent rest (keyStep k c))
    (hshown : said shown (c :: rest) k = images ++ said shown rest (keyStep k c))
    (hquits : quits k.1 (c :: rest) = quits (keyStep k c).1 rest) (hcalls : Apps.calls talk = buffers)
    (hshows : Apps.shows talk <+: images) (hwhole : Clean talk → Apps.shows talk = images)
    (hafter : Clean talk ∧ KeysSay rest (keyStep k c) talk' k' go ∨ ¬Clean talk ∧ talk' = [] ∧ go = false) :
    KeysSay (c :: rest) k (talk ++ talk') k' go := by
  rcases hafter with ⟨hclean, hrest⟩ | ⟨hbad, rfl, rfl⟩
  · have hshows := hwhole hclean
    refine ⟨?_, ?_, fun h => ?_, ?_, hrest.state⟩
    · rw [calls_append, hcalls, hsent]
      exact (List.prefix_append_right_inj _).mpr hrest.calls
    · rw [shows_append, hshows, hshown]
      exact (List.prefix_append_right_inj _).mpr hrest.shows
    · obtain ⟨hcalls', hshows'⟩ := hrest.whole (clean_append.mp h).2
      rw [calls_append, shows_append, hcalls, hshows, hcalls', hshows', hsent, hshown]
      exact ⟨rfl, rfl⟩
    · rw [hrest.goes, hquits, clean_append]
      simp [hclean]
  · rw [List.append_nil]
    refine ⟨?_, ?_, fun h => absurd h hbad, by simp [hbad], nofun⟩
    · rw [hcalls, hsent]
      exact List.prefix_append _ _
    · rw [hshown]
      exact hshows.trans (List.prefix_append _ _)

theorem KeysSay.silent {k k' : KeyState} {talk : Talk} {go : Bool} (hcalls : Apps.calls talk = [])
    (hshows : Apps.shows talk = []) (hgo : Clean talk ∧ go = true ∧ k' = k ∨ ¬Clean talk ∧ go = false) :
    KeysSay [] k talk k' go := by
  refine ⟨?_, ?_, fun _ => ⟨hcalls, hshows⟩, ?_, fun h => ?_⟩
  · rw [hcalls]
    exact List.nil_prefix
  · rw [hshows]
    exact List.nil_prefix
  · rcases hgo with ⟨hclean, rfl, -⟩ | ⟨hbad, rfl⟩
    · simp [hclean, quits]
    · simp [hbad]
  · rcases hgo with ⟨-, -, rfl⟩ | ⟨-, rfl⟩
    · rfl
    · cases h

theorem keys_ends {data : List Byte} {k k' : KeyState} {talk : Talk} {go : Bool} (h : Ends (keys data k) talk (k', go)) :
    NoInput talk ∧ KeysSay data k talk k' go := by
  induction data generalizing k talk with
  | nil =>
    obtain ⟨rfl, hvalue⟩ := ends_pure.mp h
    cases hvalue
    exact ⟨⟨rfl, rfl⟩, .silent rfl rfl (.inl ⟨clean_nil, rfl, rfl⟩)⟩
  | cons c data ih =>
    obtain ⟨saw, localCol⟩ := k
    cases saw with
    | true =>
      simp only [keys, if_true] at h
      split_ifs at h with hc
      · obtain ⟨rfl, hvalue⟩ := ends_pure.mp h
        cases hvalue
        have hsaid : ∀ say, said say (c :: data) (true, localCol) = [] := fun say => if_pos hc
        refine ⟨⟨rfl, rfl⟩, List.nil_prefix, List.nil_prefix, fun _ => ?_, by simp [quits, hc], nofun⟩
        rw [hsaid, hsaid]
        exact ⟨rfl, rfl⟩
      · have hsaid : ∀ say, said say (c :: data) (true, localCol) = [[ctrlA, c]] ++ said say data (false, localCol + 2) :=
          fun say => if_neg hc
        have hquits : quits true (c :: data) = quits false data := by simp [quits, hc]
        obtain ⟨talk₁, talk₂, rfl, hcalls, hshows, hinput, ⟨hclean, hall, hafter⟩ | ⟨hbad, rfl, hvalue⟩⟩ :=
          sendShowThen_ends h
        · obtain ⟨hinput', hrest⟩ := ih hafter
          exact ⟨hinput.append hinput', .cons (hsaid sent) (hsaid shown) hquits hcalls hshows (fun _ => hall)
            (.inl ⟨hclean, hrest⟩)⟩
        · refine ⟨by rwa [List.append_nil], .cons (hsaid sent) (hsaid shown) hquits hcalls hshows
            (fun hclean => absurd hclean hbad) (.inr ⟨hbad, rfl, congrArg Prod.snd hvalue⟩)⟩
    | false =>
      simp only [keys, Bool.false_eq_true, if_false] at h
      split_ifs at h with hc
      · have hsaid : ∀ say, said say (c :: data) (false, localCol) = [] ++ said say data (true, localCol) :=
          fun say => if_pos hc
        have hstep : keyStep (false, localCol) c = (true, localCol) := by simp [keyStep, hc]
        have hquits : quits false (c :: data) = quits (keyStep (false, localCol) c).1 data := by
          rw [hstep]
          simp [quits, hc]
        rw [← hstep] at h hsaid
        obtain ⟨hinput, hrest⟩ := ih h
        have hsay : KeysSay (c :: data) (false, localCol) ([] ++ talk) k' go :=
          .cons (hsaid sent) (hsaid shown) hquits rfl List.prefix_rfl (fun _ => rfl) (.inl ⟨clean_nil, hrest⟩)
        exact ⟨hinput, hsay⟩
      · have hsaid : ∀ say, said say (c :: data) (false, localCol) =
            say c localCol ++ said say data (false, colAfter c localCol) := fun say => if_neg hc
        have hstep : keyStep (false, localCol) c = (false, colAfter c localCol) := by simp [keyStep, hc]
        have hquits : quits false (c :: data) = quits (keyStep (false, localCol) c).1 data := by simp [quits, hc, hstep]
        rw [← hstep] at hsaid
        obtain ⟨talk₁, ⟨col₁, typedOk⟩, talk₂, rfl, htyped, hafter⟩ := ends_bind.mp h
        obtain ⟨hcalls, hinput, hshows, hclean, hall⟩ := typed_ends htyped
        have hwhole : Clean talk₁ → shows talk₁ = shown c localCol := fun h => (hall (hclean.mpr h)).1
        cases typedOk with
        | true =>
          obtain ⟨-, rfl⟩ := hall rfl
          obtain ⟨hinput', hrest⟩ := ih hafter
          rw [← hstep] at hrest
          exact ⟨hinput.append hinput', .cons (hsaid sent) (hsaid shown) hquits hcalls hshows hwhole
            (.inl ⟨hclean.mp rfl, hrest⟩)⟩
        | false =>
          obtain ⟨rfl, hvalue⟩ := ends_pure.mp hafter
          exact ⟨by rwa [List.append_nil], .cons (hsaid sent) (hsaid shown) hquits hcalls hshows hwhole
            (.inr ⟨mt hclean.mpr Bool.false_ne_true, rfl, congrArg Prod.snd hvalue⟩)⟩

/-- The part of a turn that reads the terminal: `go` where the loop goes on. -/
theorem keyboard_keys {ready : Bool} {k : KeyState} {talk : Talk} {value : Keyboard KeyState}
    (h : Ends (keyboard keys ready k) talk value) :
    received talk = [] ∧ ∃ k' go, KeysSay (keysOf talk) k talk k' go ∧
      (value = .typed k' go ∨ value = .again ∧ go = true ∧ k' = k ∨ value = .leave ∧ go = false) := by
  rcases keyboard_ends h with ⟨hsilent, hvalue⟩ | ⟨data, k', go, front, talk', rfl, hparts⟩
  · obtain ⟨hcalls, hshows, hreceived, hkeys⟩ := hsilent
    rw [hkeys]
    refine ⟨hreceived, ?_⟩
    rcases hvalue with ⟨hclean, rfl | rfl⟩ | ⟨hbad, rfl⟩
    · exact ⟨k, true, .silent hcalls hshows (.inl ⟨hclean, rfl, rfl⟩), .inr (.inl ⟨rfl, rfl, rfl⟩)⟩
    · exact ⟨k, true, .silent hcalls hshows (.inl ⟨hclean, rfl, rfl⟩), .inl rfl⟩
    · exact ⟨k, false, .silent hcalls hshows (.inr ⟨hbad, rfl⟩), .inr (.inr ⟨rfl, rfl⟩)⟩
  · obtain ⟨hcalls, hshows, hreceived, hclean, hkeys, hends, rfl⟩ := hparts
    obtain ⟨⟨hreceived', hkeys'⟩, hsay⟩ := keys_ends hends
    rw [received_append, hreceived, hreceived', keysOf_append, hkeys, hkeys', List.append_nil, List.append_nil]
    refine ⟨rfl, k', go, ⟨?_, ?_, fun h => ?_, ?_, hsay.state⟩, .inl rfl⟩
    · rw [calls_append, hcalls, List.nil_append]
      exact hsay.calls
    · rw [shows_append, hshows, List.nil_append]
      exact hsay.shows
    · rw [calls_append, shows_append, hcalls, hshows, List.nil_append, List.nil_append]
      exact hsay.whole (clean_append.mp h).2
    · rw [hsay.goes, clean_append]
      simp [hclean]

/-! ### A turn -/

/-- What a turn says from state `s`: what the UART delivered, and then the keys. -/
structure TurnSays (s : State) (talk : Talk) (r : State ⊕ TermGuard) (device images : List (List Byte)) : Prop where
  shows : Apps.shows talk = device ++ images
  delivered : device.flatten = normalise s.lastRxWasCr (received talk)
  echoed : images <+: said shown (keysOf talk) s.keyState
  calls : Apps.calls talk <+: said sent (keysOf talk) s.keyState
  whole : Clean talk → images = said shown (keysOf talk) s.keyState ∧ Apps.calls talk = said sent (keysOf talk) s.keyState
  goes : r.isLeft = true ↔ Clean talk ∧ quits s.keyState.1 (keysOf talk) = false
  again : ∀ t, r = .inl t →
    t.lastRxWasCr = endsCr s.lastRxWasCr (received talk) ∧ t.keyState = keyAfter (keysOf talk) s.keyState

theorem TurnSays.silent {s : State} {talk : Talk} {r : State ⊕ TermGuard} (hcalls : Apps.calls talk = [])
    (hshows : (Apps.shows talk).flatten = normalise s.lastRxWasCr (received talk)) (hkeys : keysOf talk = [])
    (hr : Clean talk ∧ received talk = [] ∧ r = .inl s ∨ ¬Clean talk ∧ ∃ guard, r = .inr guard) :
    TurnSays s talk r (Apps.shows talk) [] := by
  refine ⟨(List.append_nil _).symm, hshows, List.nil_prefix, ?_, fun _ => ?_, ?_, fun t ht => ?_⟩
  · rw [hcalls]
    exact List.nil_prefix
  · rw [hcalls, hkeys]
    exact ⟨rfl, rfl⟩
  · rw [hkeys]
    rcases hr with ⟨hclean, -, rfl⟩ | ⟨hbad, guard, rfl⟩
    · simp [hclean, quits]
    · simp [hbad]
  · rcases hr with ⟨-, hreceived, rfl⟩ | ⟨-, guard, rfl⟩
    · obtain rfl := Sum.inl.inj ht
      rw [hreceived, hkeys]
      exact ⟨rfl, rfl⟩
    · cases ht

theorem dispatch_ends {s : State} {stdinReady uartReady : Bool} {talk : Talk} {r : State ⊕ TermGuard}
    (h : Ends (dispatch s stdinReady uartReady) talk r) : ∃ device images, TurnSays s talk r device images := by
  obtain ⟨talk₁, value, rest, rfl, hreceive, h₁⟩ := ends_bind.mp h
  obtain ⟨hcalls, hkeys, hshows, ⟨hclean, rfl⟩ | ⟨hbad, rfl⟩⟩ := receive_ends hreceive
  · obtain ⟨talk₂, keyed, rest, rfl, hkeyboard, h₂⟩ := ends_bind.mp h₁
    obtain ⟨hreceived, k', go, hsay, hvalue⟩ := keyboard_keys hkeyboard
    have hnext : rest = [] ∧
        r = if go then .inl ⟨s.guard, endsCr s.lastRxWasCr (received talk₁), k'⟩ else .inr s.guard := by
      rcases hvalue with rfl | ⟨rfl, rfl, rfl⟩ | ⟨rfl, rfl⟩
      · dsimp only at h₂
        split_ifs at h₂ ⊢ with hgo
        · exact ends_pure.mp h₂
        · exact ends_pure.mp h₂
      · exact ends_pure.mp h₂
      · exact ends_pure.mp h₂
    obtain ⟨rfl, hr⟩ := hnext
    refine ⟨shows talk₁, shows talk₂, ?_, ?_, ?_, ?_, ?_, ?_, ?_⟩
    all_goals simp only [List.append_nil, calls_append, shows_append, received_append, keysOf_append, hcalls, hkeys,
      hreceived, List.nil_append, clean_append, hclean, true_and]
    · exact hshows
    · exact hsay.shows
    · exact hsay.calls
    · exact fun h => (hsay.whole h).symm
    · rw [← hsay.goes, hr]
      cases go <;> simp
    · intro t ht
      cases go with
      | true =>
        obtain rfl := Sum.inl.inj (hr.symm.trans ht)
        exact ⟨rfl, hsay.state rfl⟩
      | false => cases hr.symm.trans ht
  · obtain ⟨rfl, rfl⟩ := ends_pure.mp h₁
    rw [List.append_nil]
    exact ⟨_, _, .silent hcalls hshows hkeys (.inr ⟨hbad, _, rfl⟩)⟩

theorem turn_ends {s : State} {talk : Talk} {r : State ⊕ TermGuard} (h : Ends (turn s) talk r) :
    ∃ device images, TurnSays s talk r device images := by
  rcases pollTurn_ends h with ⟨⟨hcalls, hshows, hreceived, hkeys⟩, hr⟩ | ⟨stdinReady, uartReady, rest, rfl, hdispatch⟩
  · have hnormal : (shows talk).flatten = normalise s.lastRxWasCr (received talk) := by rw [hshows, hreceived]; rfl
    refine ⟨_, _, .silent hcalls hnormal hkeys ?_⟩
    rcases hr with ⟨hclean, rfl⟩ | ⟨hbad, rfl⟩
    · exact .inl ⟨hclean, hreceived, rfl⟩
    · exact .inr ⟨hbad, _, rfl⟩
  · obtain ⟨device, images, htold⟩ := dispatch_ends hdispatch
    have hfront : ∀ talk' : Talk,
        Clean (⟨.stopped, false⟩ :: ⟨.poll, .ok (stdinReady, uartReady)⟩ :: talk') ↔ Clean talk' := by
      simp [Stops]
    refine ⟨device, images, htold.shows, htold.delivered, htold.echoed, htold.calls, ?_, ?_, htold.again⟩
    · rw [hfront]
      exact htold.whole
    · rw [hfront]
      exact htold.goes

/-! ### A run -/

/-- What is written to the screen in one piece: what the UART delivered, or the image of a key. -/
inductive Piece where
  | device (bytes : List Byte)
  | key (bytes : List Byte)

/-- The bytes that a piece carries. -/
def Piece.bytes : Piece → List Byte
  | .device bytes | .key bytes => bytes

/-- The bytes of a piece from the device. -/
def Piece.deviceOf : Piece → Option (List Byte)
  | .device bytes => some bytes
  | .key _ => none

/-- The bytes of a piece from the keys. -/
def Piece.keyOf : Piece → Option (List Byte)
  | .device _ => none
  | .key bytes => some bytes

/-- What one turn takes in: the device's bytes, then the keys'. -/
def piecesOf (device keys : List (List Byte)) : List Piece := device.map .device ++ keys.map .key

theorem piecesOf_spec (device keys : List (List Byte)) :
    (piecesOf device keys).map Piece.bytes = device ++ keys ∧ (piecesOf device keys).filterMap Piece.deviceOf = device ∧
      (piecesOf device keys).filterMap Piece.keyOf = keys := by
  refine ⟨?_, ?_, ?_⟩
  · simp [piecesOf, Piece.bytes, Function.comp_def]
  · simp [piecesOf, Piece.deviceOf, Function.comp_def]
  · simp [piecesOf, Piece.keyOf, Function.comp_def]

/-- What has been said when the loop may go on. -/
structure Says (talk : Talk) (pieces : List Piece) : Prop where
  shows : Apps.shows talk = pieces.map Piece.bytes
  device : (pieces.filterMap Piece.deviceOf).flatten = toCrlf (unix (received talk))
  keys : pieces.filterMap Piece.keyOf = said shown (keysOf talk) (false, 0)
  calls : Apps.calls talk = said sent (keysOf talk) (false, 0)
  clean : Clean talk
  stays : ¬Leaves (keysOf talk)

/-- What has been said when it is left. -/
structure SaysLast (talk : Talk) (pieces : List Piece) : Prop where
  shows : Apps.shows talk = pieces.map Piece.bytes
  device : (pieces.filterMap Piece.deviceOf).flatten = toCrlf (unix (received talk))
  keys : pieces.filterMap Piece.keyOf <+: said shown (keysOf talk) (false, 0)
  calls : Apps.calls talk <+: said sent (keysOf talk) (false, 0)
  whole : Clean talk → pieces.filterMap Piece.keyOf = said shown (keysOf talk) (false, 0) ∧
    Apps.calls talk = said sent (keysOf talk) (false, 0) ∧ Leaves (keysOf talk)

theorem turns_say {s t : State} {talk : Talk} (h : Turns turn s talk t) (hcr : s.lastRxWasCr = false)
    (hkeys : s.keyState = (false, 0)) :
    t.lastRxWasCr = endsCr false (received talk) ∧ t.keyState = keyAfter (keysOf talk) (false, 0) ∧
      ∃ pieces, Says talk pieces := by
  induction h with
  | none => exact ⟨hcr, hkeys, [], rfl, rfl, rfl, rfl, clean_nil, (quits_iff []).not.mp Bool.false_ne_true⟩
  | @again talk talk' t u _ hturn ih =>
    obtain ⟨hcr, hstate, pieces, htold⟩ := ih
    obtain ⟨device, images, hnew⟩ := turn_ends hturn
    obtain ⟨hcr', hstate'⟩ := hnew.again u rfl
    obtain ⟨hclean, hgo⟩ := hnew.goes.mp rfl
    obtain ⟨himages, hcalls⟩ := hnew.whole hclean
    obtain ⟨hbytes, hdevice, hkeyOf⟩ := piecesOf_spec device images
    have hstays : quits false (keysOf talk) = false := Bool.eq_false_iff.mpr ((quits_iff _).not.mpr htold.stays)
    rw [hstate] at hgo himages hcalls
    refine ⟨?_, ?_, pieces ++ piecesOf device images, ?_, ?_, ?_, ?_, clean_append.mpr ⟨htold.clean, hclean⟩, ?_⟩
    · rw [hcr', hcr, received_append, endsCr_append]
    · rw [hstate', hstate, keysOf_append, keyAfter_append]
    · rw [shows_append, htold.shows, hnew.shows, List.map_append, hbytes]
    · rw [List.filterMap_append, List.flatten_append, htold.device, hdevice, hnew.delivered, received_append,
        ← (normalise_spec _).1, ← (normalise_spec _).1, normalise_append, hcr]
    · rw [List.filterMap_append, htold.keys, hkeyOf, himages, keysOf_append]
      exact (said_append shown (k := (false, 0)) hstays _).symm
    · rw [calls_append, htold.calls, hcalls, keysOf_append]
      exact (said_append sent (k := (false, 0)) hstays _).symm
    · rw [← quits_iff, keysOf_append, quits_append (k := (false, 0)) hstays, hgo]
      exact Bool.false_ne_true

theorem start_silent {argv0 : List UInt8} {args : List (List UInt8)} {talk₀ : Talk} {s : State}
    (hstart : Ends (main argv0 args).start talk₀ (.inr s)) : Silent talk₀ ∧ Clean talk₀ := by
  have houtside := (launch_only ..).forall_mem hstart
  exact ⟨silent_of_outside houtside, clean_of_outside houtside⟩

/-- What the loop has said so far, with the state that it is in. -/
theorem launched_say {argv0 : List UInt8} {args : List (List UInt8)} {talk₀ talk : Talk} {s t : State}
    (hstart : Ends (main argv0 args).start talk₀ (.inr s)) (hturns : Turns turn s talk t) :
    t.lastRxWasCr = endsCr false (received (talk₀ ++ talk)) ∧
      t.keyState = keyAfter (keysOf (talk₀ ++ talk)) (false, 0) ∧ ∃ pieces, Says (talk₀ ++ talk) pieces := by
  obtain ⟨⟨hcalls₀, hshows₀, hreceived₀, hkeys₀⟩, hclean₀⟩ := start_silent hstart
  obtain ⟨o, guard, -, -, -, hs⟩ := launch_ends hstart
  have hlast : s.lastRxWasCr = false := by rw [hs]
  have hstate : s.keyState = (false, 0) := by rw [hs]
  obtain ⟨hcr, hkeys, pieces, htold⟩ := turns_say hturns hlast hstate
  rw [received_append, keysOf_append, hreceived₀, hkeys₀, List.nil_append, List.nil_append]
  refine ⟨hcr, hkeys, pieces, ?_, ?_, ?_, ?_, clean_append.mpr ⟨hclean₀, htold.clean⟩, ?_⟩
  · rw [shows_append, hshows₀, htold.shows, List.nil_append]
  · rw [received_append, hreceived₀, htold.device, List.nil_append]
  · rw [keysOf_append, hkeys₀, htold.keys, List.nil_append]
  · rw [calls_append, keysOf_append, hcalls₀, hkeys₀, htold.calls, List.nil_append, List.nil_append]
  · rw [keysOf_append, hkeys₀, List.nil_append]
    exact htold.stays

/-- Whatever pieces the input comes in, the screen shows all that is received with its line ends made CRLF, what the
    keys stand for goes out in order, and the loop is left at a Ctrl-A with its Ctrl-X unless an answer ends it. -/
theorem term_relays {argv0 : List UInt8} {args : List (List UInt8)} {talk₀ talk : Talk} {s t : State}
    (hstart : Ends (main argv0 args).start talk₀ (.inr s)) (hturns : Turns (main argv0 args).turn s talk t) :
    ∃ pieces, Says (talk₀ ++ talk) pieces ∧ ∀ talk' guard, Ends (turn t) talk' (.inr guard) →
      ∃ pieces', SaysLast (talk₀ ++ talk ++ talk') (pieces ++ pieces') := by
  obtain ⟨hcr, hstate, pieces, htold⟩ := launched_say hstart hturns
  refine ⟨pieces, htold, fun talk' guard hleave => ?_⟩
  obtain ⟨device, images, hnew⟩ := turn_ends hleave
  obtain ⟨hbytes, hdevice, hkeyOf⟩ := piecesOf_spec device images
  have hstays : quits (false, 0).1 (keysOf (talk₀ ++ talk)) = false :=
    Bool.eq_false_iff.mpr ((quits_iff _).not.mpr htold.stays)
  have hsaid : ∀ say, said say (keysOf (talk₀ ++ talk ++ talk')) (false, 0) =
      said say (keysOf (talk₀ ++ talk)) (false, 0) ++ said say (keysOf talk') t.keyState := fun say => by
    rw [keysOf_append (talk₀ ++ talk) talk', said_append say hstays, hstate]
  refine ⟨piecesOf device images, ?_, ?_, ?_, ?_, fun h => ?_⟩
  · rw [shows_append (talk₀ ++ talk) talk', htold.shows, hnew.shows, List.map_append, hbytes]
  · rw [List.filterMap_append, List.flatten_append, htold.device, hdevice, hnew.delivered,
      received_append (talk₀ ++ talk) talk', ← (normalise_spec _).1, ← (normalise_spec _).1, normalise_append, hcr]
  · rw [List.filterMap_append, htold.keys, hkeyOf, hsaid]
    exact (List.prefix_append_right_inj _).mpr hnew.echoed
  · rw [calls_append (talk₀ ++ talk) talk', htold.calls, hsaid]
    exact (List.prefix_append_right_inj _).mpr hnew.calls
  · have hclean := (clean_append.mp h).2
    obtain ⟨himages, hcalls⟩ := hnew.whole hclean
    refine ⟨?_, ?_, ?_⟩
    · rw [List.filterMap_append, htold.keys, hkeyOf, hsaid, himages]
    · rw [calls_append (talk₀ ++ talk) talk', htold.calls, hsaid, hcalls]
    · rw [← quits_iff, keysOf_append (talk₀ ++ talk) talk']
      refine (quits_append hstays _).trans ?_
      rw [← hstate]
      exact Bool.not_eq_false _ |>.mp fun hgo => Bool.false_ne_true (hnew.goes.mpr ⟨hclean, hgo⟩)

/-- A start with a device. -/
theorem main_starts : ∃ talk₀, Ends (main [] [lit "-d", lit "tty"]).start talk₀
    (.inr ⟨some default, false, false, 0⟩) := by
  have hstart : Ends (main [] [lit "-d", lit "tty"]).start
      [⟨.uartOpen { defaultConfig with path := some [116, 116, 121] }, .ok⟩, ⟨.tcgetattr, some default⟩,
        ⟨.tcsetattr _, true⟩, ⟨.report _, ()⟩, ⟨.uartGetFd, (3 : Int)⟩]
      (.inr ⟨some default, false, false, 0⟩) := .ask (.ask (.ask (.ask (.ask (.ret _)))))
  exact ⟨_, hstart⟩

/-- LF is received, and then Ctrl-A, `b`, Ctrl-A and Ctrl-X typed. -/
theorem term_relays_escape : ∃ talk₀ talk pieces, Says (talk₀ ++ []) pieces ∧ keysOf talk = [1, 98, 1, 24] ∧
    calls talk = [[1, 98]] ∧ ∃ pieces', SaysLast (talk₀ ++ [] ++ talk) (pieces ++ pieces') := by
  obtain ⟨talk₀, hstart⟩ := main_starts
  have hturn : Ends (turn ⟨some default, false, false, 0⟩)
      [⟨.stopped, false⟩, ⟨.poll, .ok (true, true)⟩, ⟨.uartRead 1024, (.ok, ⟨[10], by decide⟩)⟩,
        ⟨.display [13, 10], ()⟩, ⟨.readStdin 256, .ok ⟨[1, 98, 1, 24], by decide⟩⟩, ⟨.uartWrite [1, 98], (.ok, 2)⟩,
        ⟨.display [1, 98], ()⟩]
      (.inr (some default)) := .ask (.ask (.ask (.ask (.ask (.ask (.ask (.ret _)))))))
  obtain ⟨pieces, htold, hlast⟩ := term_relays hstart .none
  exact ⟨talk₀, _, pieces, htold, rfl, rfl, hlast _ _ hturn⟩

/-- The bytes of the keys, where none of them is a key of its own kind. -/
theorem flatten_said {keys : List Byte} {k : KeyState} (hplain : ∀ c ∈ keys, ¬isErase c ∧ ¬isEol c)
    (hgo : quits k.1 keys = false) :
    (said sent keys k).flatten ++ (if (keyAfter keys k).1 then [ctrlA] else []) =
      (if k.1 then [ctrlA] else []) ++ keys := by
  induction keys generalizing k with
  | nil => exact (List.append_nil _).symm
  | cons c keys ih =>
    obtain ⟨⟨herase, heol⟩, hrest⟩ := List.forall_mem_cons.mp hplain
    rw [quits_cons, Bool.or_eq_false_iff] at hgo
    obtain ⟨hnow, hgo⟩ := hgo
    have hkeys := ih hrest hgo
    obtain ⟨saw, localCol⟩ := k
    have hafter : keyAfter (c :: keys) (saw, localCol) = keyAfter keys (keyStep (saw, localCol) c) := rfl
    rw [hafter]
    cases saw with
    | true =>
      have hc : c ≠ ctrlX := by simpa using hnow
      have hstep : keyStep (true, localCol) c = (false, localCol + 2) := rfl
      rw [hstep] at hkeys ⊢
      rw [said, if_neg hc, List.flatten_cons, List.append_assoc, hkeys]
      rfl
    | false =>
      by_cases hc : c = ctrlA
      · have hstep : keyStep (false, localCol) c = (true, localCol) := by simp [keyStep, hc]
        rw [hstep] at hkeys ⊢
        rw [said, if_pos hc, hkeys, hc]
        rfl
      · have hstep : keyStep (false, localCol) c = (false, colAfter c localCol) := by simp [keyStep, hc]
        rw [hstep] at hkeys ⊢
        rw [said, if_neg hc, List.flatten_append, List.append_assoc, hkeys, sent, if_neg herase, if_neg heol]
        rfl

/-- Of keys that erase nothing and end no line, each byte goes out once and in order, but for a Ctrl-A at the end. -/
theorem term_transparent {argv0 : List UInt8} {args : List (List UInt8)} {talk₀ talk : Talk} {s t : State}
    (hstart : Ends (main argv0 args).start talk₀ (.inr s)) (hturns : Turns (main argv0 args).turn s talk t)
    (hplain : ∀ c ∈ keysOf (talk₀ ++ talk), ¬isErase c ∧ ¬isEol c) :
    (calls (talk₀ ++ talk)).flatten ++ (if t.keyState.1 then [ctrlA] else []) = keysOf (talk₀ ++ talk) := by
  obtain ⟨-, hstate, pieces, htold⟩ := launched_say hstart hturns
  have hstays : quits (false, 0).1 (keysOf (talk₀ ++ talk)) = false :=
    Bool.eq_false_iff.mpr ((quits_iff _).not.mpr htold.stays)
  rw [htold.calls, hstate, flatten_said hplain hstays]
  rfl

/-- `h` and `i`, and Ctrl-A behind them. -/
theorem term_transparent_escape : ∃ talk₀ talk, (calls (talk₀ ++ ([] ++ talk))).flatten ++ [ctrlA] =
    keysOf (talk₀ ++ ([] ++ talk)) ∧ keysOf talk = [104, 105, 1] := by
  obtain ⟨talk₀, hstart⟩ := main_starts
  obtain ⟨⟨-, -, -, hkeys⟩, -⟩ := start_silent hstart
  have hturn : Ends (turn ⟨some default, false, false, 0⟩)
      [⟨.stopped, false⟩, ⟨.poll, .ok (true, false)⟩, ⟨.readStdin 256, .ok ⟨[104, 105, 1], by decide⟩⟩,
        ⟨.uartWrite [104], (.ok, 1)⟩, ⟨.display [104], ()⟩, ⟨.uartWrite [105], (.ok, 1)⟩, ⟨.display [105], ()⟩]
      (.inl ⟨some default, false, true, 2⟩) := .ask (.ask (.ask (.ask (.ask (.ask (.ask (.ret _)))))))
  refine ⟨talk₀, _, term_transparent hstart (.again .none hturn) ?_, rfl⟩
  rw [keysOf_append, hkeys]
  decide

end UartTerm
end Apps
end Emberlite
