import Emberlite.Apps.UartEcho
import Emberlite.Apps.UartTerm

/-! What the arguments of the two programs come to, and what a run of them leaves behind. -/

namespace Emberlite
namespace Apps
open CString CNumber Dialogue Hal Hal.UartOpen

/-! ### Numbers -/

/-- The empty string passes for 0, and a negative number for what it is modulo 2^64. -/
theorem parseU32_iff {s : List UInt8} {v : BitVec 32} :
    parseU32 s = some v ↔
      s = [] ∧ v = 0 ∨ ∃ n, Numeral s n ∧ n.natAbs ≤ ulongMax ∧ v.toNat = (n % 2 ^ 64).toNat := by
  have hread : parseU32 s = some v ↔ strtoul s = ⟨v.toNat, false, []⟩ := by
    unfold parseU32
    rcases hs : strtoul s with ⟨value, range, rest⟩
    dsimp only
    constructor
    · intro h
      split_ifs at h with hbad
      simp only [not_or, Bool.not_eq_true, not_not, Nat.not_lt] at hbad
      obtain ⟨rfl, rfl, hle⟩ := hbad
      obtain rfl := Option.some.inj h
      rw [BitVec.toNat_ofNat, Nat.mod_eq_of_lt (Nat.lt_succ_of_le hle)]
    · rintro ⟨⟩
      have hlt := v.isLt
      rw [if_neg (by simp; omega), BitVec.ofNat_toNat, BitVec.setWidth_eq]
  rw [hread, strtoul_end]
  constructor
  · rintro (⟨rfl, hv⟩ | hnumeral)
    · exact .inl ⟨rfl, BitVec.eq_of_toNat_eq hv⟩
    · exact .inr hnumeral
  · rintro (⟨rfl, rfl⟩ | hnumeral)
    · exact .inl ⟨rfl, rfl⟩
    · exact .inr hnumeral

/-- What `%u` prints is read again. -/
theorem parseU32_decimal (v : BitVec 32) : parseU32 (decimal v.toNat) = some v := by
  have hlt := v.isLt
  refine parseU32_iff.mpr (.inr ⟨v.toNat, numeral_decimal _, ?_, ?_⟩)
  · rw [ulongMax]
    omega
  · omega

/-! ### Options -/

section Options
variable {O : Type} {usage : List UInt8} {setOption : List UInt8 → List UInt8 → O → Option (Except Exit O)}

theorem parseArgs_cons {name value : List UInt8} {o o' : O} (hname : name ≠ lit "-h" ∧ name ≠ lit "--help")
    (h : setOption name value o = some (.ok o')) (args : List (List UInt8)) :
    parseArgs usage setOption (name :: value :: args) o = parseArgs usage setOption args o' := by
  rw [parseArgs, if_neg (not_or.mpr hname)]
  simp only [h]

/-- What each option keeps, the arguments keep. -/
theorem parseArgs_keeps {P : O → Prop} {Q : List UInt8 → Prop}
    (hset : ∀ name value o o', Q value → setOption name value o = some (.ok o') → P o → P o')
    {args : List (List UInt8)} {o o' : O} (hargs : ∀ a ∈ args, Q a) (h : parseArgs usage setOption args o = .ok o')
    (ho : P o) : P o' := by
  fun_induction parseArgs usage setOption args o with
  | case1 o =>
    obtain rfl := Except.ok.inj h
    exact ho
  | case2 | case3 | case4 | case5 => cases h
  | case6 a o _ value args o₁ hoption ih =>
    have hvalue : Q value := hargs value (by simp)
    exact ih (fun b hb => hargs b (by simp [hb])) h (hset a value o o₁ hvalue hoption ho)

end Options

/-- What a path that was given has in it. -/
def PathOk (cfg : HalUartConfig) : Prop := ∀ path, cfg.path = some path → 0 ∉ path

theorem zero_not_mem {s : List UInt8} (h : NoNul s) : (0 : Byte) ∉ s.map UInt8.toBitVec := by
  intro hmem
  obtain ⟨c, hc, hzero⟩ := List.mem_map.mp hmem
  exact h c hc (UInt8.toBitVec_inj.mp hzero)

namespace UartTerm

theorem setOption_keeps {name value : List UInt8} {cfg cfg' : HalUartConfig} (hvalue : NoNul value)
    (h : setOption name value cfg = some (.ok cfg')) (hcfg : Valid cfg ∧ PathOk cfg) : Valid cfg' ∧ PathOk cfg' := by
  obtain ⟨hvalid, hpath⟩ := hcfg
  unfold setOption at h
  split_ifs at h
  · obtain rfl := Except.ok.inj (Option.some.inj h)
    refine ⟨⟨hvalid.dataBits, hvalid.stopBits, hvalid.parity, hvalid.flowControl⟩, fun path hsome => ?_⟩
    obtain rfl := Option.some.inj hsome
    exact zero_not_mem hvalue
  · cases hnumber : parseU32 value with
    | none => simp [hnumber] at h
    | some v =>
      simp only [hnumber, Option.some.injEq, Except.ok.injEq] at h
      subst h
      exact ⟨hvalid.atRate v, hpath⟩
  · cases hnumber : parseU32 value with
    | none => simp [hnumber] at h
    | some v =>
      simp only [hnumber] at h
      split_ifs at h with hrange
      · cases h
      obtain rfl := Except.ok.inj (Option.some.inj h)
      refine ⟨⟨?_, hvalid.stopBits, hvalid.parity, hvalid.flowControl⟩, hpath⟩
      have hbits : v = 5 ∨ v = 6 ∨ v = 7 ∨ v = 8 := by bv_omega
      rcases hbits with rfl | rfl | rfl | rfl <;> simp
  · cases hnumber : parseU32 value with
    | none => simp [hnumber] at h
    | some v =>
      simp only [hnumber] at h
      split_ifs at h with hrange
      · cases h
      obtain rfl := Except.ok.inj (Option.some.inj h)
      refine ⟨⟨hvalid.dataBits, ?_, hvalid.parity, hvalid.flowControl⟩, hpath⟩
      have hbits : v = 1 ∨ v = 2 := by
        by_contra hnone
        exact hrange (not_or.mp hnone)
      rcases hbits with rfl | rfl <;> simp
  · obtain rfl := Except.ok.inj (Option.some.inj h)
    exact ⟨⟨hvalid.dataBits, hvalid.stopBits, .inl rfl, hvalid.flowControl⟩, hpath⟩
  · obtain rfl := Except.ok.inj (Option.some.inj h)
    exact ⟨⟨hvalid.dataBits, hvalid.stopBits, .inr (.inl rfl), hvalid.flowControl⟩, hpath⟩
  · obtain rfl := Except.ok.inj (Option.some.inj h)
    exact ⟨⟨hvalid.dataBits, hvalid.stopBits, .inr (.inr rfl), hvalid.flowControl⟩, hpath⟩
  · cases h
  · obtain rfl := Except.ok.inj (Option.some.inj h)
    exact ⟨⟨hvalid.dataBits, hvalid.stopBits, hvalid.parity, .inl rfl⟩, hpath⟩
  · obtain rfl := Except.ok.inj (Option.some.inj h)
    exact ⟨⟨hvalid.dataBits, hvalid.stopBits, hvalid.parity, .inr (.inl rfl)⟩, hpath⟩
  · obtain rfl := Except.ok.inj (Option.some.inj h)
    exact ⟨⟨hvalid.dataBits, hvalid.stopBits, hvalid.parity, .inr (.inr rfl)⟩, hpath⟩
  · cases h

/-- A command line for a configuration. -/
def render (cfg : HalUartConfig) : List (List UInt8) :=
  (match cfg.path with
    | none => []
    | some path => [lit "-d", path.map UInt8.ofBitVec]) ++
  [lit "-b", decimal cfg.baudrate.toNat, lit "--databits", decimal cfg.dataBits.toNat,
    lit "--stopbits", decimal cfg.stopBits.toNat,
    lit "--parity", if cfg.parity = 0 then lit "none" else if cfg.parity = 1 then lit "odd" else lit "even",
    lit "--flow", if cfg.flowControl = 0 then lit "none" else if cfg.flowControl = 1 then lit "hw" else lit "sw"]

section Render
variable {cfg o : HalUartConfig}

theorem setOption_path (path : List Byte) :
    setOption (lit "-d") (path.map UInt8.ofBitVec) o = some (.ok { o with path := some path }) := by
  have hback : (path.map UInt8.ofBitVec).map UInt8.toBitVec = path := by simp [Function.comp_def]
  rw [setOption, if_pos rfl, hback]

theorem setOption_baud (baud : BitVec 32) :
    setOption (lit "-b") (decimal baud.toNat) o = some (.ok { o with baudrate := baud }) := by
  rw [setOption, if_neg (by decide), if_pos rfl, parseU32_decimal]

theorem setOption_dataBits (h : Valid cfg) :
    setOption (lit "--databits") (decimal cfg.dataBits.toNat) o = some (.ok { o with dataBits := cfg.dataBits }) := by
  rw [setOption, if_neg (by decide), if_neg (by decide), if_pos rfl]
  rcases h.dataBits with hbits | hbits | hbits | hbits
  all_goals
    rw [hbits]
    rfl

theorem setOption_stopBits (h : Valid cfg) :
    setOption (lit "--stopbits") (decimal cfg.stopBits.toNat) o = some (.ok { o with stopBits := cfg.stopBits }) := by
  rw [setOption, if_neg (by decide), if_neg (by decide), if_neg (by decide), if_pos rfl]
  rcases h.stopBits with hbits | hbits
  all_goals
    rw [hbits]
    rfl

theorem setOption_parity (h : Valid cfg) :
    setOption (lit "--parity")
      (if cfg.parity = 0 then lit "none" else if cfg.parity = 1 then lit "odd" else lit "even") o =
        some (.ok { o with parity := cfg.parity }) := by
  rw [setOption, if_neg (by decide), if_neg (by decide), if_neg (by decide), if_neg (by decide), if_pos rfl]
  rcases h.parity with hparity | hparity | hparity
  all_goals
    rw [hparity]
    rfl

theorem setOption_flow (h : Valid cfg) :
    setOption (lit "--flow")
      (if cfg.flowControl = 0 then lit "none" else if cfg.flowControl = 1 then lit "hw" else lit "sw") o =
        some (.ok { o with flowControl := cfg.flowControl }) := by
  rw [setOption, if_neg (by decide), if_neg (by decide), if_neg (by decide), if_neg (by decide), if_neg (by decide),
    if_pos rfl]
  rcases h.flowControl with hflow | hflow | hflow
  all_goals
    rw [hflow]
    rfl

/-- What is rendered is read again. -/
theorem parseArgs_render (usage : List UInt8) (h : Valid cfg) :
    parseArgs usage setOption (render cfg) defaultConfig = .ok cfg := by
  have hrest : ∀ o : HalUartConfig, o.path = cfg.path → parseArgs usage setOption
      [lit "-b", decimal cfg.baudrate.toNat, lit "--databits", decimal cfg.dataBits.toNat,
        lit "--stopbits", decimal cfg.stopBits.toNat,
        lit "--parity", if cfg.parity = 0 then lit "none" else if cfg.parity = 1 then lit "odd" else lit "even",
        lit "--flow", if cfg.flowControl = 0 then lit "none" else if cfg.flowControl = 1 then lit "hw" else lit "sw"]
      o = .ok cfg := by
    intro o ho
    rw [parseArgs_cons (by decide) (setOption_baud _), parseArgs_cons (by decide) (setOption_dataBits h),
      parseArgs_cons (by decide) (setOption_stopBits h), parseArgs_cons (by decide) (setOption_parity h),
      parseArgs_cons (by decide) (setOption_flow h), parseArgs, ho]
  unfold render
  cases hpath : cfg.path with
  | none => exact hrest defaultConfig hpath.symm
  | some path =>
    refine (parseArgs_cons (by decide) (setOption_path path) _).trans (hrest _ hpath.symm)

theorem noNul_render (hpath : PathOk cfg) : ∀ a ∈ render cfg, NoNul a := by
  have hname : ∀ name ∈ [lit "-d", lit "-b", lit "--databits", lit "--stopbits", lit "--parity", lit "--flow",
      lit "none", lit "odd", lit "even", lit "hw", lit "sw"], NoNul name := by
    have hall : [lit "-d", lit "-b", lit "--databits", lit "--stopbits", lit "--parity", lit "--flow", lit "none",
        lit "odd", lit "even", lit "hw", lit "sw"].all fun name => name.all (· != 0) := rfl
    intro name hname c hc
    exact bne_iff_ne.mp (List.all_eq_true.mp (List.all_eq_true.mp hall name hname) c hc)
  intro a ha
  unfold render at ha
  rcases List.mem_append.mp ha with ha | ha
  · cases hp : cfg.path with
    | none => simp [hp] at ha
    | some path =>
      simp only [hp, List.mem_cons, List.not_mem_nil, or_false] at ha
      rcases ha with rfl | rfl
      · exact hname _ (by simp)
      · intro c hc hzero
        obtain ⟨b, hb, rfl⟩ := List.mem_map.mp hc
        obtain rfl : b = 0 := congrArg UInt8.toBitVec hzero
        exact hpath path hp hb
  · simp only [List.mem_cons, List.not_mem_nil, or_false] at ha
    rcases ha with rfl | rfl | rfl | rfl | rfl | rfl | rfl | rfl | rfl | rfl
    all_goals first
      | exact noNul_decimal _
      | split_ifs <;> exact hname _ (by simp)
      | exact hname _ (by simp)

end Render

/-- The configurations that the arguments give are those that `hal_uart_open` takes. -/
theorem parseArgs_iff (argv0 : List UInt8) (cfg : HalUartConfig) :
    (∃ args, (∀ a ∈ args, NoNul a) ∧ parseArgs (usage argv0) setOption args defaultConfig = .ok cfg) ↔
      PathOk cfg ∧ ∀ tio, ∃ t, configured cfg tio = .ok t := by
  constructor
  · rintro ⟨args, hargs, hparse⟩
    have hdefault : Valid defaultConfig ∧ PathOk defaultConfig :=
      ⟨⟨by simp [defaultConfig], .inl rfl, .inl rfl, .inl rfl⟩, nofun⟩
    obtain ⟨hvalid, hpath⟩ := parseArgs_keeps (fun _ _ _ _ => setOption_keeps) hargs hparse hdefault
    refine ⟨hpath, fun tio => ?_⟩
    rcases configured_cases cfg tio with ⟨hbad, -⟩ | ⟨-, hok⟩
    · exact absurd hvalid hbad
    · exact hok
  · rintro ⟨hpath, hok⟩
    have hvalid : Valid cfg := by
      obtain ⟨t, ht⟩ := hok default
      rcases configured_cases cfg default with ⟨-, herror⟩ | ⟨hvalid, -⟩
      · cases ht.symm.trans herror
      · exact hvalid
    exact ⟨render cfg, noNul_render hpath, parseArgs_render _ hvalid⟩

end UartTerm

/-! ### The loops -/

/-- What is asked in the loops. -/
def Ask.Inside : Ask → Prop
  | .uartRead _ | .uartWrite _ | .stopped | .poll | .readStdin _ | .display _ | .report _ => True
  | .tcgetattr | .tcsetattr _ | .uartOpen _ | .uartClose | .uartGetFd => False

theorem uartSend_only (complaint : String) (buffer : List Byte) : (uartSend complaint buffer).Only Ask.Inside := by
  refine ⟨trivial, fun ⟨st, w⟩ => ?_⟩
  dsimp only [Dialogue.bind]
  split_ifs with hst
  · trivial
  · exact ⟨trivial, fun _ => trivial⟩

theorem typed_only (c : Byte) (localCol : Nat) : (typed c localCol).Only Ask.Inside := by
  unfold typed
  split_ifs with herase hcol heol
  · exact ⟨trivial, fun _ => (uartSend_only ..).bind fun _ => trivial⟩
  · trivial
  all_goals
    refine (uartSend_only ..).bind fun done => ?_
    cases done with
    | true => exact ⟨trivial, fun _ => trivial⟩
    | false => trivial

theorem keyboard_only {K : Type} {keys : List Byte → K → Program (K × Bool)}
    (hkeys : ∀ data k, (keys data k).Only Ask.Inside) (ready : Bool) (k : K) :
    (keyboard keys ready k).Only Ask.Inside := by
  unfold keyboard
  split_ifs with hready
  · refine ⟨trivial, fun answer => ?_⟩
    cases answer with
    | error errno =>
      dsimp only [Dialogue.bind]
      split_ifs with hintr
      · trivial
      · exact ⟨trivial, fun _ => trivial⟩
    | ok data =>
      dsimp only [Dialogue.bind]
      split_ifs with hnil
      · trivial
      · exact (hkeys ..).bind fun _ => trivial
  · trivial

/-- The guard that the loop goes on with, or is left with, is the one that it began with. -/
def Guards {S : Type} (guardOf : S → TermGuard) (guard : TermGuard) : S ⊕ TermGuard → Prop
  | .inl s => guardOf s = guard
  | .inr last => last = guard

/-- What a turn of a loop does to what is held outside of it: nothing. -/
structure Inner {S : Type} (guardOf : S → TermGuard) (turn : S → Program (S ⊕ TermGuard)) : Prop where
  only : ∀ s, (turn s).Only Ask.Inside
  guards : ∀ s, (turn s).Ensures (Guards guardOf (guardOf s))

theorem pollTurn_inner {S : Type} {guardOf : S → TermGuard} {dispatch : S → Bool → Bool → Program (S ⊕ TermGuard)}
    (honly : ∀ s stdinReady uartReady, (dispatch s stdinReady uartReady).Only Ask.Inside)
    (hguards : ∀ s stdinReady uartReady, (dispatch s stdinReady uartReady).Ensures (Guards guardOf (guardOf s))) :
    Inner guardOf fun s => pollTurn s (guardOf s) (dispatch s) := by
  constructor
  · refine fun s => ⟨trivial, fun stopped => ?_⟩
    dsimp only [Dialogue.bind]
    split_ifs with hstop
    · trivial
    refine ⟨trivial, fun answer => ?_⟩
    cases answer with
    | error errno =>
      dsimp only [Dialogue.bind]
      split_ifs with hintr
      · trivial
      · exact ⟨trivial, fun _ => trivial⟩
    | ok ready => exact honly ..
  · intro s stopped
    dsimp only [Dialogue.bind]
    split_ifs with hstop
    · rfl
    intro answer
    cases answer with
    | error errno =>
      dsimp only [Dialogue.bind]
      split_ifs with hintr
      · rfl
      · exact fun _ => rfl
    | ok ready => exact hguards ..

theorem UartEcho.keys_only (data : List Byte) (localCol : Nat) : (UartEcho.keys data localCol).Only Ask.Inside := by
  induction data generalizing localCol with
  | nil => trivial
  | cons c data ih =>
    refine (typed_only ..).bind fun ⟨col, go⟩ => ?_
    cases go with
    | true => exact ih col
    | false => trivial

theorem UartEcho.echoBytes_only (suffix data : List Byte) (line : UartEcho.Line) :
    (UartEcho.echoBytes suffix data line).Only Ask.Inside := by
  induction data generalizing line with
  | nil => trivial
  | cons c data ih =>
    unfold UartEcho.echoBytes
    split_ifs with heol hempty
    · exact ih line
    · refine (uartSend_only ..).bind fun done => ?_
      cases done with
      | false => trivial
      | true =>
        refine (uartSend_only ..).bind fun done => ?_
        cases done with
        | false => trivial
        | true =>
          refine (uartSend_only ..).bind fun done => ?_
          cases done with
          | false => trivial
          | true => exact ih _
    · exact ih _

theorem UartEcho.serve_only (suffix : List Byte) (ready : Bool) (line : UartEcho.Line) :
    (UartEcho.serve suffix ready line).Only Ask.Inside := by
  unfold UartEcho.serve
  split_ifs with hready
  · refine ⟨trivial, fun ⟨st, data⟩ => ?_⟩
    dsimp only [Dialogue.bind]
    split_ifs with hst
    · exact ⟨trivial, fun _ => trivial⟩
    · exact UartEcho.echoBytes_only ..
  · trivial

theorem UartEcho.turn_inner : Inner UartEcho.State.guard UartEcho.turn := by
  refine pollTurn_inner (fun s stdinReady uartReady => ?_) fun s stdinReady uartReady => ?_
  · refine (keyboard_only UartEcho.keys_only ..).bind fun keyed => ?_
    cases keyed with
    | again => trivial
    | leave => trivial
    | typed localCol go =>
      refine (UartEcho.serve_only ..).bind fun ⟨line, served⟩ => ?_
      dsimp only
      split_ifs with hgo <;> trivial
  · refine .bind _ fun keyed => ?_
    cases keyed with
    | again => rfl
    | leave => rfl
    | typed localCol go =>
      refine .bind _ fun ⟨line, served⟩ => ?_
      dsimp only
      split_ifs with hgo
      · rfl
      · rfl

theorem UartTerm.keys_only (data : List Byte) (k : UartTerm.KeyState) : (UartTerm.keys data k).Only Ask.Inside := by
  induction data generalizing k with
  | nil => trivial
  | cons c data ih =>
    obtain ⟨saw, localCol⟩ := k
    unfold UartTerm.keys
    split_ifs with hsaw hquit hctrl
    · trivial
    · refine (uartSend_only ..).bind fun done => ?_
      cases done with
      | true => exact ⟨trivial, fun _ => ih _⟩
      | false => trivial
    · exact ih _
    · refine (typed_only ..).bind fun after => ?_
      obtain ⟨col, go⟩ := after
      cases go with
      | true => exact ih _
      | false => trivial

theorem UartTerm.receive_only (ready last : Bool) : (UartTerm.receive ready last).Only Ask.Inside := by
  unfold UartTerm.receive
  split_ifs with hready
  · refine ⟨trivial, fun ⟨st, data⟩ => ?_⟩
    dsimp only [Dialogue.bind]
    split_ifs with hst hout
    · exact ⟨trivial, fun _ => trivial⟩
    · trivial
    · exact ⟨trivial, fun _ => trivial⟩
  · trivial

theorem UartTerm.turn_inner : Inner UartTerm.State.guard UartTerm.turn := by
  refine pollTurn_inner (fun s stdinReady uartReady => ?_) fun s stdinReady uartReady => ?_
  · refine (UartTerm.receive_only ..).bind fun last => ?_
    cases last with
    | none => trivial
    | some last =>
      refine (keyboard_only UartTerm.keys_only ..).bind fun keyed => ?_
      cases keyed with
      | again => trivial
      | leave => trivial
      | typed k go =>
        dsimp only
        split_ifs with hgo <;> trivial
  · refine .bind _ fun last => ?_
    cases last with
    | none => rfl
    | some last =>
      refine .bind _ fun keyed => ?_
      cases keyed with
      | again => rfl
      | leave => rfl
      | typed k go =>
        dsimp only
        split_ifs with hgo
        · rfl
        · rfl

/-! ### What is left behind -/

/-- The settings of the terminal after a request. -/
def settingsAfter : Tty.Termios → Exchange Ask Ask.Answer → Tty.Termios
  | tio, ⟨.tcsetattr new, done⟩ => if done then new else tio
  | tio, _ => tio

/-- `tcgetattr` tells the settings as they are. -/
def Tells : Tty.Termios → Talk → Prop
  | _, [] => True
  | tio, e :: talk => (∀ t, e = ⟨.tcgetattr, some t⟩ → t = tio) ∧ Tells (settingsAfter tio e) talk

/-- Whether the handle of the UART is held after a request, unless the request is out of place. -/
def handleAfter : Bool → Exchange Ask Ask.Answer → Option Bool
  | held, ⟨.uartOpen _, st⟩ => if held then none else some (st = .ok)
  | held, ⟨.uartClose, _⟩ => if held then some false else none
  | held, ⟨.uartGetFd, _⟩ | held, ⟨.uartRead _, _⟩ | held, ⟨.uartWrite _, _⟩ => if held then some true else none
  | held, _ => some held

/-- The handle is used only while it is held and is given back, and so are the settings of the terminal, unless the
    request for that is refused. -/
structure Tidy (talk : Talk) : Prop where
  handle : talk.foldlM handleAfter false = some false
  terminal : ∀ tio, Tells tio talk → ⟨.tcsetattr tio, false⟩ ∉ talk → talk.foldl settingsAfter tio = tio

theorem inside_frame {talk : Talk} (h : ∀ e ∈ talk, e.1.Inside) (tio : Tty.Termios) :
    talk.foldlM handleAfter true = some true ∧ talk.foldl settingsAfter tio = tio := by
  induction talk with
  | nil => exact ⟨rfl, rfl⟩
  | cons e talk ih =>
    obtain ⟨hreq, hrest⟩ := List.forall_mem_cons.mp h
    obtain ⟨req, res⟩ := e
    have hsame : handleAfter true ⟨req, res⟩ = some true ∧ settingsAfter tio ⟨req, res⟩ = tio := by
      cases req <;> first | exact ⟨rfl, rfl⟩ | exact hreq.elim
    rw [List.foldlM_cons, List.foldl_cons, hsame.1, hsame.2]
    exact ih hrest

theorem stdinSetRaw_ends {cleared : Tty.Tcflag} {talk : Talk} {saved : TermGuard} {raw : Bool}
    (h : Ends (stdinSetRaw cleared) talk (saved, raw)) :
    talk = [⟨.tcgetattr, none⟩] ∧ saved = none ∧ raw = false ∨
      ∃ tio, talk = [⟨.tcgetattr, some tio⟩, ⟨.tcsetattr (rawSettings cleared tio), raw⟩] ∧ saved = some tio := by
  obtain ⟨tio, rest, rfl, h₁⟩ := ends_perform.mp h
  cases tio with
  | none =>
    obtain ⟨rfl, hvalue⟩ := ends_pure.mp h₁
    obtain ⟨rfl, rfl⟩ := Prod.mk.inj hvalue
    exact .inl ⟨rfl, rfl, rfl⟩
  | some tio =>
    obtain ⟨done, rest, rfl, h₂⟩ := ends_perform.mp h₁
    obtain ⟨rfl, hvalue⟩ := ends_pure.mp h₂
    obtain ⟨rfl, rfl⟩ := Prod.mk.inj hvalue
    exact .inr ⟨tio, rfl, rfl⟩

theorem stdinRestore_ends {guard : TermGuard} {talk : Talk} {u : Unit} (h : Ends (stdinRestore guard) talk u) :
    guard = none ∧ talk = [] ∨ ∃ tio done, guard = some tio ∧ talk = [⟨.tcsetattr tio, done⟩] := by
  cases guard with
  | none => exact .inl ⟨rfl, (ends_pure.mp h).1⟩
  | some tio =>
    obtain ⟨done, rest, rfl, h₁⟩ := ends_perform.mp h
    obtain ⟨rfl, -⟩ := ends_pure.mp h₁
    exact .inr ⟨tio, done, rfl, rfl⟩

/-- What is said up to the loop, or where the start fails. -/
theorem connect_ends {cleared : Tty.Tcflag} {banner : List UInt8} {cfg : HalUartConfig} {talk : Talk}
    {r : Nat ⊕ TermGuard} (h : Ends (connect cleared banner cfg) talk r) :
    (∃ code, r = .inl code ∧ Tidy talk) ∨ ∃ tio fd, r = .inr (some tio) ∧ talk = [⟨.uartOpen cfg, .ok⟩,
      ⟨.tcgetattr, some tio⟩, ⟨.tcsetattr (rawSettings cleared tio), true⟩, ⟨.report banner, ()⟩, ⟨.uartGetFd, fd⟩] := by
  obtain ⟨st, rest, rfl, h₁⟩ := ends_perform.mp h
  split_ifs at h₁ with hst
  · obtain ⟨_, rest, rfl, hret⟩ := ends_perform.mp h₁
    obtain ⟨rfl, rfl⟩ := ends_pure.mp hret
    exact .inl ⟨1, rfl, by simp [handleAfter, hst], fun tio _ _ => rfl⟩
  rw [not_not] at hst
  subst hst
  obtain ⟨talk₁, ⟨saved, raw⟩, talk₂, rfl, hraw, h₂⟩ := ends_bind.mp h₁
  dsimp only at h₂
  cases raw with
  | false =>
    obtain ⟨_, rest, rfl, h₃⟩ := ends_perform.mp h₂
    obtain ⟨_, rest, rfl, hret⟩ := ends_perform.mp h₃
    obtain ⟨rfl, rfl⟩ := ends_pure.mp hret
    rcases stdinSetRaw_ends hraw with ⟨rfl, -, -⟩ | ⟨tio, rfl, -⟩
    · exact .inl ⟨1, rfl, rfl, fun tio _ _ => rfl⟩
    · exact .inl ⟨1, rfl, rfl, fun tio _ _ => rfl⟩
  | true =>
    obtain ⟨_, rest, rfl, h₃⟩ := ends_perform.mp h₂
    obtain ⟨fd, rest, rfl, h₄⟩ := ends_perform.mp h₃
    obtain ⟨-, -, hfalse⟩ | ⟨tio, rfl, rfl⟩ := stdinSetRaw_ends hraw
    · cases hfalse
    split_ifs at h₄ with hfd
    · obtain ⟨_, rest, rfl, h₅⟩ := ends_perform.mp h₄
      obtain ⟨talk₃, _, talk₄, rfl, hrestore, h₆⟩ := ends_bind.mp h₅
      obtain ⟨_, rest, rfl, hret⟩ := ends_perform.mp h₆
      obtain ⟨rfl, rfl⟩ := ends_pure.mp hret
      obtain ⟨hnone, -⟩ | ⟨_, done, hsome, rfl⟩ := stdinRestore_ends hrestore
      · cases hnone
      cases hsome
      refine .inl ⟨1, rfl, rfl, fun tio' htells hrefused => ?_⟩
      obtain rfl : tio = tio' := htells.2.1 tio rfl
      cases done with
      | true => rfl
      | false => simp at hrefused
    · obtain ⟨rfl, rfl⟩ := ends_pure.mp h₄
      exact .inr ⟨tio, fd, rfl, rfl⟩

section Runs
variable {O S : Type} {usage : List UInt8} {parsed : Except Exit O} {cfg : O → HalUartConfig} {cleared : Tty.Tcflag}
  {banner : O → List UInt8} {state : O → TermGuard → S} {turn : S → Program (S ⊕ TermGuard)} {guardOf : S → TermGuard}

theorem turns_inside (hinner : Inner guardOf turn) {s t : S} {talk : Talk} (h : Turns turn s talk t) :
    (∀ e ∈ talk, e.1.Inside) ∧ guardOf t = guardOf s := by
  induction h with
  | none => exact ⟨nofun, rfl⟩
  | @again talk talk' t u _ hturn ih =>
    obtain ⟨hinside, hguard⟩ := ih
    refine ⟨List.forall_mem_append.mpr ⟨hinside, (hinner.only t).forall_mem hturn⟩, ?_⟩
    exact ((hinner.guards t).of_ends hturn : guardOf u = guardOf t).trans hguard

theorem launch_early {talk : Talk} {code : Nat}
    (h : Ends (launch usage parsed cfg cleared banner state) talk (.inl code)) : Tidy talk := by
  have hreport : ∀ text, Tidy [⟨.report text, ()⟩] := fun text => ⟨rfl, fun _ _ _ => rfl⟩
  unfold launch at h
  cases parsed with
  | error exit =>
    obtain ⟨_, rest, rfl, hret⟩ := ends_perform.mp h
    obtain ⟨rfl, -⟩ := ends_pure.mp hret
    exact hreport _
  | ok o =>
    dsimp only at h
    split_ifs at h with hpath
    · obtain ⟨_, rest, rfl, hret⟩ := ends_perform.mp h
      obtain ⟨rfl, -⟩ := ends_pure.mp hret
      exact hreport _
    · obtain ⟨talk₁, code' | guard, talk₂, rfl, hconnect, hret⟩ := ends_bind.mp h
      · obtain ⟨rfl, -⟩ := ends_pure.mp hret
        rw [List.append_nil]
        obtain ⟨_, -, htidy⟩ | ⟨_, _, hinr, -⟩ := connect_ends hconnect
        · exact htidy
        · cases hinr
      · cases (ends_pure.mp hret).2

/-- A run of a program with such a loop. -/
theorem runs_tidy (hinner : Inner guardOf turn) (hstate : ∀ o guard, guardOf (state o guard) = guard)
    {bye : List UInt8} {talk : Talk} {code : Nat}
    (h : (⟨launch usage parsed cfg cleared banner state, turn, disconnect bye⟩ : Looped ..).Runs talk code) :
    Tidy talk := by
  cases h with
  | early hstart => exact launch_early hstart
  | @full talk₀ talk₁ talk₂ talk₃ s t last r hstart hturns hlast hfinish =>
    obtain ⟨o, guard, -, -, hconnect, rfl⟩ := launch_ends hstart
    obtain ⟨_, hinl, -⟩ | ⟨tio, fd, hguard, rfl⟩ := connect_ends hconnect
    · cases hinl
    cases hguard
    obtain ⟨hinside, hkept⟩ := turns_inside hinner hturns
    obtain rfl : last = some tio := by
      have hguards : last = guardOf t := (hinner.guards t).of_ends hlast
      rw [hguards, hkept, hstate]
    have hinside' := (hinner.only t).forall_mem hlast
    obtain ⟨talk₄, _, talk₅, rfl, hrestore, h₁⟩ := ends_bind.mp hfinish
    obtain ⟨_, rest, rfl, h₂⟩ := ends_perform.mp h₁
    obtain ⟨_, rest, rfl, hret⟩ := ends_perform.mp h₂
    obtain ⟨rfl, -⟩ := ends_pure.mp hret
    obtain ⟨hnone, -⟩ | ⟨_, done, hsome, rfl⟩ := stdinRestore_ends hrestore
    · cases hnone
    cases hsome
    constructor
    · have hopened : [⟨.uartOpen (cfg o), .ok⟩, ⟨.tcgetattr, some tio⟩, ⟨.tcsetattr (rawSettings cleared tio), true⟩,
          ⟨.report (banner o), ()⟩, ⟨.uartGetFd, fd⟩].foldlM handleAfter false = some true := rfl
      rw [List.foldlM_append, List.foldlM_append, List.foldlM_append, hopened, Option.bind_eq_bind, Option.bind_some,
        (inside_frame hinside tio).1, Option.bind_some, (inside_frame hinside' tio).1]
      rfl
    · intro tio' htells hrefused
      obtain rfl : tio = tio' := htells.2.1 tio rfl
      simp only [List.foldl_append, (inside_frame hinside _).2, (inside_frame hinside' _).2]
      cases done with
      | true => rfl
      | false => simp at hrefused

end Runs

/-- However a program ends, it has given the UART back and set the terminal right. -/
theorem main_tidy {argv0 : List UInt8} {args : List (List UInt8)} {talk : Talk} {code : Nat}
    (h : (UartEcho.main argv0 args).Runs talk code ∨ (UartTerm.main argv0 args).Runs talk code) : Tidy talk := by
  rcases h with h | h
  · exact runs_tidy UartEcho.turn_inner (fun _ _ => rfl) h
  · exact runs_tidy UartTerm.turn_inner (fun _ _ => rfl) h

/-- The UART fails in the loop of the terminal. -/
theorem main_tidy_failed : ∃ talk, Tidy talk ∧ ⟨.uartRead 1024, (.io, ⟨[], by decide⟩)⟩ ∈ talk := by
  have hturn : Ends (UartTerm.turn ⟨some default, false, false, 0⟩)
      [⟨.stopped, false⟩, ⟨.poll, .ok (false, true)⟩, ⟨.uartRead 1024, (.io, ⟨[], by decide⟩)⟩, ⟨.report _, ()⟩]
      (.inr (some default)) := .ask (.ask (.ask (.ask (.ret _))))
  have hfinish : Ends (disconnect (lit "\nBye.\n") (some default))
      [⟨.tcsetattr default, true⟩, ⟨.uartClose, ()⟩, ⟨.report _, ()⟩] 0 := .ask (.ask (.ask (.ret _)))
  obtain ⟨talk₀, hstart⟩ := UartTerm.main_starts
  exact ⟨_, main_tidy (.inr (.full hstart .none hturn hfinish)), by simp⟩

end Apps
end Emberlite
