import Emberlite.Apps.Screen
import Emberlite.Lib.Segments

/-! The echo server of `apps/examples/uart_echo.c`: it splits what the UART delivers into lines and sends each of them
    back with a suffix, while the keys of the terminal go to the UART too. -/

namespace Emberlite
namespace Apps
namespace UartEcho
open CString Dialogue Hal Hal.UartOpen Segments

/-! ### The program -/

/-- What the arguments set. -/
structure Options where
  cfg : HalUartConfig
  suffix : List UInt8

/-- `usage` -/
def usage (argv0 : List UInt8) : List UInt8 :=
  lit "Usage: " ++ argv0 ++ lit " -d <device> [-b <baud>] [--suffix <text>]\nExample: " ++ argv0 ++
    lit " -d /dev/ttyUSB0 -b 115200 --suffix \" [echo]\"\n"

/-- One option with its value; `none` is an option that the program does not have. -/
def setOption (name value : List UInt8) (o : Options) : Option (Except Exit Options) :=
  if name = lit "-d" then some (.ok { o with cfg := { o.cfg with path := some (value.map UInt8.toBitVec) } })
  else if name = lit "-b" then
    match parseU32 value with
    | none => some (.error ⟨lit "Invalid baudrate\n", 2⟩)
    | some v => some (.ok { o with cfg := { o.cfg with baudrate := v } })
  else if name = lit "--suffix" then some (.ok { o with suffix := value })
  else none

/-- `line` with `line_len`. -/
abbrev Line : Type := {line : List Byte // line.length < 1024}

/-- `line_len = 0` -/
def Line.empty : Line := ⟨[], by decide⟩

/-- A byte that ends no line; a line that is too long is dropped, and the byte with it. -/
def Line.store (line : Line) (c : Byte) : Line :=
  if h : line.1.length + 1 < 1024 then ⟨line.1 ++ [c], by rwa [List.length_append, List.length_singleton]⟩ else .empty

/-- The loop over the keys. -/
def keys : List Byte → Nat → Program (Nat × Bool)
  | [], localCol => return (localCol, true)
  | c :: rest, localCol => do
    let (localCol, go) ← typed c localCol
    if go then keys rest localCol else return (localCol, false)

/-- The loop over the bytes from the UART: the line after it, and whether its writes succeeded. -/
def echoBytes (suffix : List Byte) : List Byte → Line → Program (Line × Bool)
  | [], line => return (line, true)
  | c :: rest, line =>
    if isEol c then
      if line.1.length = 0 then echoBytes suffix rest line
      else do
        if ← uartSend "UART write error(line): " line.1 then
          if ← uartSend "UART write error(suffix): " suffix then
            if ← uartSend "UART write error(crlf): " crlf then echoBytes suffix rest .empty
            else return (line, false)
          else return (line, false)
        else return (line, false)
    else echoBytes suffix rest (line.store c)

/-- What a turn of the loop reads and changes. -/
structure State where
  suffix : List Byte
  guard : TermGuard
  line : Line
  localCol : Nat

/-- The part of a turn that reads the UART, if it has input. -/
def serve (suffix : List Byte) (ready : Bool) (line : Line) : Program (Line × Bool) :=
  if ready then do
    let (st, data) ← perform (.uartRead 256)
    if st ≠ .ok then
      perform (.report (lit "UART read error: " ++ lit (halStatusStr st) ++ lit "\n"))
      return (line, false)
    else echoBytes suffix data.1 line
  else return (line, true)

/-- A turn of the loop after `poll`. -/
def dispatch (s : State) (stdinReady uartReady : Bool) : Program (State ⊕ TermGuard) := do
  match ← keyboard keys stdinReady s.localCol with
  | .again => return .inl s
  | .leave => return .inr s.guard
  | .typed localCol go =>
    let (line, served) ← serve s.suffix uartReady s.line
    if go && served then return .inl { s with line, localCol } else return .inr s.guard

/-- A turn of the loop. -/
def turn (s : State) : Program (State ⊕ TermGuard) := pollTurn s s.guard (dispatch s)

/-- The first line on the terminal. -/
def banner (o : Options) : List UInt8 :=
  lit "Echo server on " ++ (o.cfg.path.getD []).map UInt8.ofBitVec ++ lit " @ " ++
    CNumber.decimal o.cfg.baudrate.toNat ++ lit ". Suffix: \"" ++ o.suffix ++ lit "\" (Ctrl-C to stop)\r\n"

/-- `main`. -/
def main (argv0 : List UInt8) (args : List (List UInt8)) : Looped Ask Ask.Answer State TermGuard Nat where
  start := launch (usage argv0) (parseArgs (usage argv0) setOption args ⟨defaultConfig, lit " [echo]"⟩) Options.cfg
    (Tty.echo ||| Tty.echonl ||| Tty.icanon ||| Tty.iexten) banner
    fun o guard => ⟨o.suffix.map UInt8.toBitVec, guard, .empty, 0⟩
  turn := turn
  finish := disconnect (lit "Bye.\n")

/-! ### The lines of a stream -/

/-- What `line` holds after the bytes of a segment: those since the last reset. -/
def kept (segment : List Byte) : List Byte := segment.drop (segment.length / 1024 * 1024)

/-- The lines that are sent back. -/
def lines (stream : List Byte) : List (List Byte) := ((finished isEol stream).map kept).filter (· ≠ [])

theorem length_kept (segment : List Byte) : (kept segment).length = segment.length % 1024 := by
  rw [kept, List.length_drop]
  omega

theorem store_kept {line : Line} {segment : List Byte} (h : line.1 = kept segment) (c : Byte) :
    (line.store c).1 = kept (segment ++ [c]) := by
  have hlength := length_kept segment
  rw [← h] at hlength
  unfold Line.store
  split_ifs with hroom
  · have hsame : (segment ++ [c]).length / 1024 * 1024 = segment.length / 1024 * 1024 := by
      rw [List.length_append, List.length_singleton]
      omega
    rw [kept, hsame, List.drop_append_of_le_length (Nat.div_mul_le_self _ _)]
    exact congrArg (· ++ [c]) h
  · have hwhole : (segment ++ [c]).length / 1024 * 1024 = (segment ++ [c]).length := by
      rw [List.length_append, List.length_singleton]
      omega
    rw [kept, hwhole, List.drop_length]
    rfl

theorem lines_concat_other {stream : List Byte} {c : Byte} (hc : isEol c = false) :
    lines (stream ++ [c]) = lines stream := by
  rw [lines, (concat_other hc).1, lines]

theorem lines_concat_eol {stream : List Byte} {c : Byte} (hc : isEol c) :
    lines (stream ++ [c]) =
      lines stream ++ if kept (unfinished isEol stream) = [] then [] else [kept (unfinished isEol stream)] := by
  rw [lines, (concat_sep hc).1, List.map_append, List.filter_append, lines, List.map_singleton, List.filter_singleton]
  simp

/-- More bytes bring more lines, if any. -/
theorem lines_append (stream data : List Byte) : ∃ new, lines (stream ++ data) = lines stream ++ new := by
  induction data generalizing stream with
  | nil => exact ⟨[], by simp⟩
  | cons c data ih =>
    obtain ⟨new, hnew⟩ := ih (stream ++ [c])
    rw [List.append_assoc, List.singleton_append] at hnew
    by_cases hc : isEol c
    · exact ⟨_, by rw [hnew, lines_concat_eol hc, List.append_assoc]⟩
    · exact ⟨new, by rw [hnew, lines_concat_other (Bool.eq_false_iff.mpr hc)]⟩

/-- The three calls for a line. -/
def triple (suffix line : List Byte) : List (List Byte) := [line, suffix, crlf]

/-- The calls for one line, and those that follow if they succeed. -/
theorem triple_ends {suffix : List Byte} {line : Line} {value : Line × Bool} {next : Program (Line × Bool)} {talk : Talk}
    (h : Ends (do
      if ← uartSend "UART write error(line): " line.1 then
        if ← uartSend "UART write error(suffix): " suffix then
          if ← uartSend "UART write error(crlf): " crlf then next else return (line, false)
        else return (line, false)
      else return (line, false)) talk value) :
    ∃ talk₁ talk₂, talk = talk₁ ++ talk₂ ∧ shows talk₁ = [] ∧ NoInput talk₁ ∧
      (Clean talk₁ ∧ calls talk₁ = triple suffix line.1 ∧ Ends next talk₂ value ∨
        ¬Clean talk₁ ∧ calls talk₁ <+: triple suffix line.1 ∧ talk₂ = [] ∧ value.2 = false) := by
  obtain ⟨talk₁, rest, rfl, hcalls₁, hshows₁, hinput₁, ⟨hclean₁, hnext⟩ | ⟨hbad, rfl, rfl⟩⟩ := sendThen_ends h
  · obtain ⟨talk₂, rest, rfl, hcalls₂, hshows₂, hinput₂, ⟨hclean₂, hnext⟩ | ⟨hbad, rfl, rfl⟩⟩ := sendThen_ends hnext
    · obtain ⟨talk₃, rest, rfl, hcalls₃, hshows₃, hinput₃, ⟨hclean₃, hnext⟩ | ⟨hbad, rfl, rfl⟩⟩ :=
        sendThen_ends hnext
      · refine ⟨talk₁ ++ (talk₂ ++ talk₃), rest, by simp, by simp [hshows₁, hshows₂, hshows₃],
          hinput₁.append (hinput₂.append hinput₃), ?_⟩
        exact .inl ⟨by simp [hclean₁, hclean₂, hclean₃], by simp [hcalls₁, hcalls₂, hcalls₃, triple], hnext⟩
      · refine ⟨talk₁ ++ (talk₂ ++ talk₃), [], by simp, by simp [hshows₁, hshows₂, hshows₃],
          hinput₁.append (hinput₂.append hinput₃), ?_⟩
        exact .inr ⟨by simp [hbad], by simp [hcalls₁, hcalls₂, hcalls₃, triple], rfl, rfl⟩
    · refine ⟨talk₁ ++ talk₂, [], by simp, by simp [hshows₁, hshows₂], hinput₁.append hinput₂, ?_⟩
      exact .inr ⟨by simp [hbad], by simp [hcalls₁, hcalls₂, triple], rfl, rfl⟩
  · exact ⟨talk₁, [], by simp, hshows₁, hinput₁, .inr ⟨hbad, by simp [hcalls₁, triple], rfl, rfl⟩⟩

/-- What the loop over the bytes says, where `stream` has come in before. -/
theorem echoBytes_ends {suffix stream data : List Byte} {line line' : Line} {talk : Talk} {go : Bool}
    (h : Ends (echoBytes suffix data line) talk (line', go)) (hline : line.1 = kept (unfinished isEol stream)) :
    NoInput talk ∧ shows talk = [] ∧ (go = true ↔ Clean talk) ∧ ∃ new, lines (stream ++ data) = lines stream ++ new ∧
      calls talk <+: new.flatMap (triple suffix) ∧
      (go = true → calls talk = new.flatMap (triple suffix) ∧
        line'.1 = kept (unfinished isEol (stream ++ data))) := by
  induction data generalizing stream line talk with
  | nil =>
    obtain ⟨rfl, hvalue⟩ := ends_pure.mp h
    cases hvalue
    refine ⟨⟨rfl, rfl⟩, rfl, by simp, [], by simp, List.prefix_rfl, fun _ => ⟨rfl, ?_⟩⟩
    rwa [List.append_nil]
  | cons c data ih =>
    have hassoc : stream ++ c :: data = stream ++ [c] ++ data := by rw [List.append_assoc, List.singleton_append]
    rw [hassoc]
    unfold echoBytes at h
    split_ifs at h with heol hempty
    · have hnil : kept (unfinished isEol stream) = [] := by rw [← hline]; exact List.length_eq_zero_iff.mp hempty
      have hnext : line.1 = kept (unfinished isEol (stream ++ [c])) := by
        rw [(concat_sep heol).2, hline, hnil]
        rfl
      obtain ⟨hinput, hshows, hclean, new, hnew, hcalls, hgo⟩ := ih h hnext
      refine ⟨hinput, hshows, hclean, new, ?_, hcalls, hgo⟩
      rw [hnew, lines_concat_eol heol, if_pos hnil, List.append_nil]
    · have hne : kept (unfinished isEol stream) ≠ [] := by
        rw [← hline]
        exact fun hnil => hempty (List.length_eq_zero_iff.mpr hnil)
      have hlines : lines (stream ++ [c]) = lines stream ++ [line.1] := by
        rw [lines_concat_eol heol, if_neg hne, hline]
      obtain ⟨talk₁, talk₂, rfl, hshows, hinput, ⟨hclean, hcalls, hnext⟩ | ⟨hbad, hcalls, rfl, hvalue⟩⟩ :=
        triple_ends h
      · have hempty' : Line.empty.1 = kept (unfinished isEol (stream ++ [c])) := by
          rw [(concat_sep heol).2]
          rfl
        obtain ⟨hinput', hshows', hclean', new, hnew, hprefix, hgo⟩ := ih hnext hempty'
        refine ⟨hinput.append hinput', by rw [shows_append, hshows, hshows', List.nil_append], by simp [hclean, hclean'],
          line.1 :: new, ?_, ?_, fun h => ?_⟩
        · rw [hnew, hlines, List.append_assoc, List.singleton_append]
        · rw [calls_append, hcalls, List.flatMap_cons]
          exact (List.prefix_append_right_inj _).mpr hprefix
        · obtain ⟨hcalls', hline'⟩ := hgo h
          exact ⟨by rw [calls_append, hcalls, hcalls', List.flatMap_cons], hline'⟩
      · obtain ⟨new, hnew⟩ := lines_append (stream ++ [c]) data
        rw [List.append_nil]
        obtain rfl : go = false := hvalue
        refine ⟨hinput, hshows, by simp [hbad], line.1 :: new, ?_, ?_, nofun⟩
        · rw [hnew, hlines, List.append_assoc, List.singleton_append]
        · rw [List.flatMap_cons]
          exact hcalls.trans (List.prefix_append _ _)
    · obtain ⟨hinput, hshows, hclean, new, hnew, hcalls, hgo⟩ := ih h (by
        rw [(concat_other (Bool.eq_false_iff.mpr heol)).2]
        exact store_kept hline c)
      refine ⟨hinput, hshows, hclean, new, ?_, hcalls, hgo⟩
      rw [hnew, lines_concat_other (Bool.eq_false_iff.mpr heol)]

/-- What the loop over the keys says. -/
theorem keys_ends {data : List Byte} {localCol localCol' : Nat} {talk : Talk} {go : Bool}
    (h : Ends (keys data localCol) talk (localCol', go)) :
    NoInput talk ∧ calls talk <+: sentAll data localCol ∧ shows talk <+: shownAll data localCol ∧
      (go = true ↔ Clean talk) ∧ (go = true → calls talk = sentAll data localCol ∧ shows talk = shownAll data localCol ∧
        localCol' = colAfterAll data localCol) := by
  induction data generalizing localCol talk with
  | nil =>
    obtain ⟨rfl, hvalue⟩ := ends_pure.mp h
    cases hvalue
    exact ⟨⟨rfl, rfl⟩, List.prefix_rfl, List.prefix_rfl, by simp, fun _ => ⟨rfl, rfl, rfl⟩⟩
  | cons c data ih =>
    obtain ⟨talk₁, ⟨col₁, typedOk⟩, talk₂, rfl, htyped, hafter⟩ := ends_bind.mp h
    obtain ⟨hcalls, hinput, hshows, hclean, hall⟩ := typed_ends htyped
    cases typedOk with
    | true =>
      obtain ⟨hshows, rfl⟩ := hall rfl
      obtain ⟨hinput', hcalls', hshows', hclean', hall'⟩ := ih hafter
      rw [calls_append, shows_append, hcalls, hshows]
      refine ⟨hinput.append hinput', ?_, ?_, by simp [hclean.mp rfl, hclean'], fun hgo => ?_⟩
      · exact (List.prefix_append_right_inj _).mpr hcalls'
      · exact (List.prefix_append_right_inj _).mpr hshows'
      · obtain ⟨hcalls', hshows', hcol⟩ := hall' hgo
        exact ⟨by rw [hcalls', sentAll], by rw [hshows', shownAll], hcol⟩
    | false =>
      obtain ⟨rfl, hvalue⟩ := ends_pure.mp hafter
      cases hvalue
      rw [List.append_nil, hcalls]
      exact ⟨hinput, List.prefix_append _ _, hshows.trans (List.prefix_append _ _), hclean,
        fun hgo => absurd hgo Bool.false_ne_true⟩

/-- What the part of a turn that reads the UART says, where `stream` has come in before. -/
theorem serve_ends {suffix stream : List Byte} {ready : Bool} {line line' : Line} {talk : Talk} {served : Bool}
    (h : Ends (serve suffix ready line) talk (line', served)) (hline : line.1 = kept (unfinished isEol stream)) :
    keysOf talk = [] ∧ shows talk = [] ∧ (served = true ↔ Clean talk) ∧
      ∃ new, lines (stream ++ received talk) = lines stream ++ new ∧
      calls talk <+: new.flatMap (triple suffix) ∧
      (served = true → calls talk = new.flatMap (triple suffix) ∧
        line'.1 = kept (unfinished isEol (stream ++ received talk))) := by
  unfold serve at h
  split_ifs at h with hready
  · obtain ⟨⟨st, data⟩, rest, rfl, hafter⟩ := ends_perform.mp h
    dsimp only at hafter
    split_ifs at hafter with hst
    · obtain ⟨_, rest, rfl, hret⟩ := ends_perform.mp hafter
      obtain ⟨rfl, hvalue⟩ := ends_pure.mp hret
      cases hvalue
      refine ⟨rfl, rfl, by simp [Stops, hst], [], ?_, List.prefix_rfl, nofun⟩
      simp [received, hst]
    · obtain ⟨⟨hreceived, hkeys⟩, hshows, hclean, new, hnew⟩ := echoBytes_ends hafter hline
      have hdata : received (⟨.uartRead 256, (st, data)⟩ :: rest) = data.1 := by
        change (if st = .ok then data.1 else []) ++ received rest = data.1
        rw [if_pos (not_not.mp hst), hreceived, List.append_nil]
      rw [hdata]
      exact ⟨hkeys, hshows, by simp [hclean, Stops, not_not.mp hst], new, hnew⟩
  · obtain ⟨rfl, hvalue⟩ := ends_pure.mp h
    cases hvalue
    refine ⟨rfl, rfl, by simp, [], ?_, List.prefix_rfl, fun _ => ⟨rfl, ?_⟩⟩
    · simp [received]
    · simpa [received] using hline

/-! ### A turn -/

/-- What a turn from state `s` says, where `stream` has come in before: it takes some writes of keys and some lines
    further, and all of them if the loop goes on, which it does unless an answer ends it. -/
structure TurnSays (s : State) (stream : List Byte) (talk : Talk) (r : State ⊕ TermGuard) (keys new : List (List Byte)) :
    Prop where
  splits : lines (stream ++ received talk) = lines stream ++ new
  sends : keys <+: sentAll (keysOf talk) s.localCol
  shows : Apps.shows talk <+: shownAll (keysOf talk) s.localCol
  calls : Apps.calls talk <+: keys ++ new.flatMap (triple s.suffix)
  clean : r.isLeft = true ↔ Clean talk
  again : ∀ t, r = .inl t → keys = sentAll (keysOf talk) s.localCol ∧
    Apps.shows talk = shownAll (keysOf talk) s.localCol ∧ Apps.calls talk = keys ++ new.flatMap (triple s.suffix) ∧
    t.suffix = s.suffix ∧ t.localCol = colAfterAll (keysOf talk) s.localCol ∧
    t.line.1 = kept (unfinished isEol (stream ++ received talk))

theorem TurnSays.silent {s : State} {stream : List Byte} {talk : Talk} {r : State ⊕ TermGuard}
    (hline : s.line.1 = kept (unfinished isEol stream)) (htalk : Silent talk)
    (hr : Clean talk ∧ r = .inl s ∨ ¬Clean talk ∧ ∃ guard, r = .inr guard) : TurnSays s stream talk r [] [] := by
  obtain ⟨hcalls, hshows, hreceived, hkeys⟩ := htalk
  constructor
  · simp [hreceived]
  · exact List.nil_prefix
  · simp [hshows]
  · simp [hcalls]
  · rcases hr with ⟨hclean, rfl⟩ | ⟨hbad, guard, rfl⟩
    · simp [hclean]
    · simp [hbad]
  · intro t ht
    obtain rfl : t = s := by
      rcases hr with ⟨-, rfl⟩ | ⟨-, guard, rfl⟩
      · exact (Sum.inl.inj ht).symm
      · cases ht
    rw [hcalls, hshows, hreceived, hkeys, List.append_nil]
    exact ⟨rfl, rfl, rfl, rfl, rfl, hline⟩

theorem dispatch_ends {s : State} {stream : List Byte} {stdinReady uartReady : Bool} {talk : Talk}
    {r : State ⊕ TermGuard} (h : Ends (dispatch s stdinReady uartReady) talk r)
    (hline : s.line.1 = kept (unfinished isEol stream)) : ∃ keys new, TurnSays s stream talk r keys new := by
  obtain ⟨talk₁, keyed, talk₂, rfl, hkeyboard, h₁⟩ := ends_bind.mp h
  -- The keys, and then what the UART delivers.
  suffices hserve : ∀ {localCol' : Nat} {go : Bool}, keyed = .typed localCol' go → received talk₁ = [] →
      shows talk₁ <+: shownAll (keysOf talk₁) s.localCol → calls talk₁ <+: sentAll (keysOf talk₁) s.localCol →
      (go = true ↔ Clean talk₁) →
      (go = true → calls talk₁ = sentAll (keysOf talk₁) s.localCol ∧ shows talk₁ = shownAll (keysOf talk₁) s.localCol ∧
        localCol' = colAfterAll (keysOf talk₁) s.localCol) →
      ∃ keys new, TurnSays s stream (talk₁ ++ talk₂) r keys new by
    rcases keyboard_ends hkeyboard with ⟨hsilent, ⟨hclean, rfl | rfl⟩ | ⟨hbad, rfl⟩⟩ |
      ⟨data, k', go, front, talk', rfl, hparts⟩
    · obtain ⟨rfl, rfl⟩ := ends_pure.mp h₁
      rw [List.append_nil]
      exact ⟨[], [], .silent hline hsilent (.inl ⟨hclean, rfl⟩)⟩
    · obtain ⟨hcalls, hshows, hreceived, hkeys⟩ := hsilent
      refine hserve rfl hreceived ?_ ?_ (by simp [hclean]) fun _ => ?_
      all_goals rw [hkeys]
      · rw [hshows]; rfl
      · rw [hcalls]; rfl
      · exact ⟨hcalls, hshows, rfl⟩
    · obtain ⟨rfl, rfl⟩ := ends_pure.mp h₁
      rw [List.append_nil]
      exact ⟨[], [], .silent hline hsilent (.inr ⟨hbad, _, rfl⟩)⟩
    · obtain ⟨hcalls, hshows, hreceived, hclean, hkeys, hends, rfl⟩ := hparts
      obtain ⟨⟨hreceived', hkeys'⟩, hcalls', hshows', hclean', hall⟩ := keys_ends hends
      refine hserve rfl ?_ ?_ ?_ ?_ ?_
      · rw [received_append, hreceived, hreceived', List.append_nil]
      all_goals simp only [calls_append, shows_append, keysOf_append, hcalls, hshows, hkeys, hkeys', List.nil_append,
        List.append_nil, clean_append, hclean, true_and]
      · exact hshows'
      · exact hcalls'
      · exact hclean'
      · exact hall
  rintro localCol' go rfl hreceived hshows hcalls hclean hall
  obtain ⟨talk₃, ⟨line', served⟩, talk₄, rfl, hends, h₂⟩ := ends_bind.mp h₁
  obtain ⟨hkeys, hshows', hclean', new, hnew, hcalls', hserved⟩ := serve_ends hends hline
  have hnext : talk₄ = [] ∧ (r.isLeft = true ↔ go = true ∧ served = true) ∧
      ∀ t, r = .inl t → go = true ∧ served = true ∧ t = { s with line := line', localCol := localCol' } := by
    dsimp only at h₂
    split_ifs at h₂ with hboth
    · obtain ⟨rfl, rfl⟩ := ends_pure.mp h₂
      obtain ⟨hgo, hserved⟩ := Bool.and_eq_true_iff.mp hboth
      exact ⟨rfl, by simp [hgo, hserved], fun t ht => ⟨hgo, hserved, (Sum.inl.inj ht).symm⟩⟩
    · obtain ⟨rfl, rfl⟩ := ends_pure.mp h₂
      rw [Bool.and_eq_true_iff] at hboth
      exact ⟨rfl, by simp [hboth], fun t ht => by cases ht⟩
  obtain ⟨rfl, hleft, hnext⟩ := hnext
  refine ⟨calls talk₁, new, ?_, ?_, ?_, ?_, ?_, ?_⟩
  all_goals simp only [calls_append, shows_append, received_append, keysOf_append, hreceived, hkeys, hshows',
    List.nil_append, List.append_nil, clean_append]
  · exact hnew
  · exact hcalls
  · exact hshows
  · exact (List.prefix_append_right_inj _).mpr hcalls'
  · rw [hleft, hclean, hclean']
  · intro t ht
    obtain ⟨hgo, hserved', rfl⟩ := hnext t ht
    obtain ⟨hcalls, hshows, hcol⟩ := hall hgo
    obtain ⟨hcalls', hline'⟩ := hserved hserved'
    exact ⟨hcalls, hshows, by rw [hcalls'], rfl, hcol, hline'⟩

theorem turn_ends {s : State} {stream : List Byte} {talk : Talk} {r : State ⊕ TermGuard} (h : Ends (turn s) talk r)
    (hline : s.line.1 = kept (unfinished isEol stream)) : ∃ keys new, TurnSays s stream talk r keys new := by
  obtain ⟨hsilent, ⟨hclean, rfl⟩ | ⟨hbad, rfl⟩⟩ | ⟨stdinReady, uartReady, rest, rfl, hdispatch⟩ := pollTurn_ends h
  · exact ⟨[], [], .silent hline hsilent (.inl ⟨hclean, rfl⟩)⟩
  · exact ⟨[], [], .silent hline hsilent (.inr ⟨hbad, _, rfl⟩)⟩
  · obtain ⟨keys, new, htold⟩ := dispatch_ends hdispatch hline
    refine ⟨keys, new, htold.splits, htold.sends, htold.shows, htold.calls, ?_, htold.again⟩
    rw [htold.clean]
    simp [Stops]

/-! ### A run -/

/-- What goes to the UART in one piece: a key, or a line with its suffix and its end. -/
inductive Block where
  | key (buffer : List Byte)
  | line (text : List Byte)

/-- The writes that make up a block. -/
def Block.calls (suffix : List Byte) : Block → List (List Byte)
  | .key buffer => [buffer]
  | .line text => triple suffix text

/-- The bytes of a key's block. -/
def Block.keyOf : Block → Option (List Byte)
  | .key buffer => some buffer
  | .line _ => none

/-- The text of a line's block. -/
def Block.lineOf : Block → Option (List Byte)
  | .key _ => none
  | .line text => some text

/-- Keys and then lines. -/
def blocksOf (keys lines : List (List Byte)) : List Block := keys.map .key ++ lines.map .line

theorem blocksOf_spec (suffix : List Byte) (keys lines : List (List Byte)) :
    (blocksOf keys lines).flatMap (Block.calls suffix) = keys ++ lines.flatMap (triple suffix) ∧
      (blocksOf keys lines).filterMap Block.keyOf = keys ∧ (blocksOf keys lines).filterMap Block.lineOf = lines := by
  refine ⟨?_, ?_, ?_⟩
  · simp [blocksOf, List.flatMap_map, Block.calls]
  · simp [blocksOf, Block.keyOf, Function.comp_def]
  · simp [blocksOf, Block.lineOf, Function.comp_def]

/-- What the server has said with whole turns: the writes of the keys, and the lines. -/
structure Says (suffix : List Byte) (talk : Talk) (blocks : List Block) : Prop where
  calls : Apps.calls talk = blocks.flatMap (Block.calls suffix)
  keys : blocks.filterMap Block.keyOf = sentAll (keysOf talk) 0
  lines : blocks.filterMap Block.lineOf = UartEcho.lines (received talk)
  shows : Apps.shows talk = shownAll (keysOf talk) 0
  clean : Clean talk

/-- What it has said when it stops in the middle of them. -/
structure SaysPart (suffix : List Byte) (talk : Talk) (blocks : List Block) : Prop where
  calls : Apps.calls talk <+: blocks.flatMap (Block.calls suffix)
  keys : blocks.filterMap Block.keyOf <+: sentAll (keysOf talk) 0
  lines : blocks.filterMap Block.lineOf = UartEcho.lines (received talk)
  shows : Apps.shows talk <+: shownAll (keysOf talk) 0
  stopped : ¬Clean talk

theorem turns_say {s t : State} {talk : Talk} (h : Turns turn s talk t) (hline : s.line = .empty)
    (hcol : s.localCol = 0) :
    t.suffix = s.suffix ∧ t.line.1 = kept (unfinished isEol (received talk)) ∧
      t.localCol = colAfterAll (keysOf talk) 0 ∧ ∃ blocks, Says s.suffix talk blocks := by
  induction h with
  | none => exact ⟨rfl, by rw [hline]; rfl, hcol, [], rfl, rfl, rfl, rfl, clean_nil⟩
  | @again talk talk' t u _ hturn ih =>
    obtain ⟨hsuffix, hline, hcol, blocks, htold⟩ := ih
    obtain ⟨keys, new, hnew⟩ := turn_ends hturn hline
    obtain ⟨hkeys, hshows, hcalls, hsuffix', hcol', hline'⟩ := hnew.again u rfl
    obtain ⟨hblocks, hkeysOf, hlinesOf⟩ := blocksOf_spec s.suffix keys new
    refine ⟨hsuffix'.trans hsuffix, ?_, ?_, blocks ++ blocksOf keys new, ?_, ?_, ?_, ?_, ?_⟩
    · rw [hline', received_append]
    · rw [hcol', hcol, keysOf_append, colAfterAll_append]
    · rw [calls_append, htold.calls, hcalls, List.flatMap_append, hblocks, hsuffix]
    · rw [List.filterMap_append, htold.keys, hkeysOf, hkeys, keysOf_append, sentAll_append, hcol]
    · rw [List.filterMap_append, htold.lines, hlinesOf, received_append, hnew.splits]
    · rw [shows_append, htold.shows, hshows, keysOf_append, shownAll_append, hcol]
    · exact clean_append.mpr ⟨htold.clean, hnew.clean.mp rfl⟩

theorem start_silent {argv0 : List UInt8} {args : List (List UInt8)} {talk₀ : Talk} {s : State}
    (hstart : Ends (main argv0 args).start talk₀ (.inr s)) : Silent talk₀ ∧ Clean talk₀ := by
  have houtside := (launch_only ..).forall_mem hstart
  exact ⟨silent_of_outside houtside, clean_of_outside houtside⟩

/-- What the loop has said so far, with the state that it is in. -/
theorem launched_say {argv0 : List UInt8} {args : List (List UInt8)} {talk₀ talk : Talk} {s t : State}
    (hstart : Ends (main argv0 args).start talk₀ (.inr s)) (hturns : Turns turn s talk t) :
    t.suffix = s.suffix ∧ t.line.1 = kept (unfinished isEol (received (talk₀ ++ talk))) ∧
      t.localCol = colAfterAll (keysOf (talk₀ ++ talk)) 0 ∧ ∃ blocks, Says s.suffix (talk₀ ++ talk) blocks := by
  obtain ⟨⟨hcalls₀, hshows₀, hreceived₀, hkeys₀⟩, hclean₀⟩ := start_silent hstart
  obtain ⟨o, guard, -, -, -, hs⟩ := launch_ends hstart
  have hempty : s.line = .empty := by rw [hs]
  have hzero : s.localCol = 0 := by rw [hs]
  obtain ⟨hsuffix, hline, hcol, blocks, htold⟩ := turns_say hturns hempty hzero
  rw [received_append, keysOf_append, hreceived₀, hkeys₀, List.nil_append, List.nil_append]
  refine ⟨hsuffix, hline, hcol, blocks, ?_, ?_, ?_, ?_, ?_⟩
  · rw [calls_append, hcalls₀, htold.calls, List.nil_append]
  · rw [keysOf_append, hkeys₀, htold.keys, List.nil_append]
  · rw [received_append, hreceived₀, htold.lines, List.nil_append]
  · rw [shows_append, keysOf_append, hshows₀, hkeys₀, htold.shows, List.nil_append, List.nil_append]
  · exact clean_append.mpr ⟨hclean₀, htold.clean⟩

/-- A start with a device and a suffix. -/
theorem main_starts : ∃ talk₀, Ends (main [] [lit "-d", lit "tty", lit "--suffix", lit " !"]).start talk₀
    (.inr ⟨[32, 33], some default, .empty, 0⟩) := by
  have hstart : Ends (main [] [lit "-d", lit "tty", lit "--suffix", lit " !"]).start
      [⟨.uartOpen { defaultConfig with path := some [116, 116, 121] }, .ok⟩, ⟨.tcgetattr, some default⟩,
        ⟨.tcsetattr _, true⟩, ⟨.report _, ()⟩, ⟨.uartGetFd, (3 : Int)⟩]
      (.inr ⟨[32, 33], some default, .empty, 0⟩) := .ask (.ask (.ask (.ask (.ask (.ret _)))))
  exact ⟨_, hstart⟩

/-- Whatever pieces the input comes in, each line that has ended is sent back in one piece, and in order, and what the
    last turn leaves out comes at the end. -/
theorem main_echoes {argv0 : List UInt8} {args : List (List UInt8)} {talk₀ talk : Talk} {s t : State}
    (hstart : Ends (main argv0 args).start talk₀ (.inr s)) (hturns : Turns (main argv0 args).turn s talk t) :
    ∃ blocks, Says s.suffix (talk₀ ++ talk) blocks ∧ ∀ talk' guard, Ends (turn t) talk' (.inr guard) →
      ∃ blocks', SaysPart s.suffix (talk₀ ++ talk ++ talk') (blocks ++ blocks') := by
  obtain ⟨hsuffix, hline, hcol, blocks, htold⟩ := launched_say hstart hturns
  refine ⟨blocks, htold, fun talk' guard hleave => ?_⟩
  obtain ⟨keys, new, hnew⟩ := turn_ends hleave hline
  obtain ⟨hblocks, hkeysOf, hlinesOf⟩ := blocksOf_spec s.suffix keys new
  refine ⟨blocksOf keys new, ⟨?_, ?_, ?_, ?_, ?_⟩⟩
  · rw [calls_append (talk₀ ++ talk) talk', htold.calls, List.flatMap_append, hblocks, ← hsuffix]
    exact (List.prefix_append_right_inj _).mpr hnew.calls
  · rw [List.filterMap_append, htold.keys, hkeysOf, keysOf_append (talk₀ ++ talk) talk', sentAll_append, ← hcol]
    exact (List.prefix_append_right_inj _).mpr hnew.sends
  · rw [List.filterMap_append, htold.lines, hlinesOf, received_append (talk₀ ++ talk) talk', hnew.splits]
  · rw [shows_append (talk₀ ++ talk) talk', keysOf_append (talk₀ ++ talk) talk', htold.shows, shownAll_append, ← hcol]
    exact (List.prefix_append_right_inj _).mpr hnew.shows
  · exact fun hclean => Bool.false_ne_true (hnew.clean.mpr (clean_append.mp hclean).2)

/-- The line `a` is sent back. -/
theorem main_echoes_line : ∃ talk₀ talk blocks, Says [32, 33] (talk₀ ++ talk) blocks ∧
    calls talk = [[97], [32, 33], crlf] := by
  obtain ⟨talk₀, hstart⟩ := main_starts
  have hturn : Ends (turn ⟨[32, 33], some default, .empty, 0⟩)
      [⟨.stopped, false⟩, ⟨.poll, .ok (false, true)⟩, ⟨.uartRead 256, (.ok, ⟨[97, 10], by decide⟩)⟩,
        ⟨.uartWrite [97], (.ok, 1)⟩, ⟨.uartWrite [32, 33], (.ok, 2)⟩, ⟨.uartWrite crlf, (.ok, 2)⟩]
      (.inl ⟨[32, 33], some default, .empty, 0⟩) := .ask (.ask (.ask (.ask (.ask (.ask (.ret _))))))
  obtain ⟨blocks, htold, -⟩ := main_echoes hstart (.again .none hturn)
  exact ⟨talk₀, _, blocks, htold, rfl⟩

/-- After every turn, what the terminal shows of the keys is what the device was sent of them. -/
theorem main_mirrors {argv0 : List UInt8} {args : List (List UInt8)} {talk₀ talk : Talk} {s t : State}
    (hstart : Ends (main argv0 args).start talk₀ (.inr s)) (hturns : Turns (main argv0 args).turn s talk t) :
    ∃ blocks, Says s.suffix (talk₀ ++ talk) blocks ∧
      Mirrors (Screen.clear.show (shows (talk₀ ++ talk))) (Device.idle.receive (blocks.filterMap Block.keyOf)) := by
  obtain ⟨-, -, -, blocks, htold⟩ := launched_say hstart hturns
  refine ⟨blocks, htold, ?_⟩
  rw [htold.keys, htold.shows]
  exact mirrors_idle.keys (keysOf (talk₀ ++ talk))

/-- The keys `a` and DEL. -/
theorem main_mirrors_erased : ∃ (talk₀ talk : Talk) (blocks : List Block), Says [32, 33] (talk₀ ++ talk) blocks ∧
    Mirrors (Screen.clear.show (shows (talk₀ ++ talk))) (Device.idle.receive (blocks.filterMap Block.keyOf)) ∧
      shows talk = [[97], [backspace, blank, backspace]] := by
  obtain ⟨talk₀, hstart⟩ := main_starts
  have hturn : Ends (turn ⟨[32, 33], some default, .empty, 0⟩)
      [⟨.stopped, false⟩, ⟨.poll, .ok (true, false)⟩, ⟨.readStdin 256, .ok ⟨[97, 127], by decide⟩⟩,
        ⟨.uartWrite [97], (.ok, 1)⟩, ⟨.display [97], ()⟩, ⟨.display [backspace, blank, backspace], ()⟩,
        ⟨.uartWrite [delete], (.ok, 1)⟩]
      (.inl ⟨[32, 33], some default, .empty, 0⟩) := .ask (.ask (.ask (.ask (.ask (.ask (.ask (.ret _)))))))
  obtain ⟨blocks, htold, hmirrors⟩ := main_mirrors hstart (.again .none hturn)
  exact ⟨talk₀, _, blocks, htold, hmirrors, rfl⟩

end UartEcho
end Apps
end Emberlite
