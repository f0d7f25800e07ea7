import Emberlite.Hal.UartEdits
import Emberlite.Lib.History

/-! The settings of a UART over the history of its handle: what `cfg` says of the line after every call, and what the line
    is left with. -/

namespace Emberlite
namespace Hal
namespace UartOpen
open Tty History

/-! ### The calls -/

/-- `hal_uart_apply_config_locked` succeeds. -/
structure Goes (given : Given) (cfg : HalUartConfig) : Prop where
  read : given.tcgetattr = none
  valid : Valid cfg
  sets : Sets given cfg.baudrate

/-- What it then makes of the line. -/
structure Applied (line : Line) (cfg : HalUartConfig) (line' : Line) : Prop where
  framing : ∀ tio, configured cfg line.toTermios = .ok tio → line'.framing = tio.framing
  describes : Describes cfg line' ↔ (cfg.parity = 0 ∨ line.cCflag &&& cmspar = 0) ∧ RateFits line cfg.baudrate

theorem Installed.applied {line line' : Line} {cfg : HalUartConfig} {tio : Termios}
    (h : configured cfg line.toTermios = .ok tio) (hline : Installed line tio cfg.baudrate line') :
    Applied line cfg line' := by
  have hedit := configured_edited h
  refine ⟨fun tio' htio' => ?_, fun hd => ⟨?_, ?_⟩, fun ⟨hparity, hrate⟩ => ?_⟩
  · rw [h, Except.ok.injEq] at htio'
    exact htio' ▸ hline.framing
  · exact hedit.parity.mp (hline.framing ▸ hd.parity)
  · exact (hline.ispeed hedit.inputCode).mp hd.ispeed
  · exact {
      dataBits := hline.framing ▸ hedit.dataBits
      stopBits := hline.framing ▸ hedit.stopBits
      parity := hline.framing ▸ hedit.parity.mpr hparity
      flowControl := hline.framing ▸ hedit.flowControl
      ispeed := (hline.ispeed hedit.inputCode).mpr hrate
      ospeed := hline.ospeed }

/-- The framing does not depend on the rate, nor on how it was set. -/
theorem Applied.framing_eq {line line₁ line₂ : Line} {cfg : HalUartConfig} {rate : BitVec 32} (hvalid : Valid cfg)
    (h₁ : Applied line cfg line₁) (h₂ : Applied line { cfg with baudrate := rate } line₂) :
    line₁.framing = line₂.framing := by
  rcases configured_cases cfg line.toTermios with ⟨hbad, -⟩ | ⟨-, tio, htio⟩
  · exact absurd hvalid hbad
  · exact (h₁.framing tio htio).trans (h₂.framing tio htio).symm

theorem applyConfig_cases (given : Given) (h : HalUartHandle) (line : Line) (cfg : HalUartConfig) (keepSaved : Bool) :
    (¬Goes given cfg ∧ ∃ st h', st ≠ .ok ∧ (h' = h ∨ h' = h.saving line.toTermios keepSaved) ∧
        halUartApplyConfigLocked given h line cfg keepSaved = (st, h', line)) ∨
      Goes given cfg ∧ ∃ line', Applied line cfg line' ∧ halUartApplyConfigLocked given h line cfg keepSaved =
        (.ok, { h.saving line.toTermios keepSaved with cfg := cfg }, line') := by
  unfold halUartApplyConfigLocked
  rcases hget : given.tcgetattr with _ | e
  · rcases configured_cases cfg (tcgetattr line) with ⟨hbad, herr⟩ | ⟨hvalid, tio, htio⟩
    · refine .inl ⟨fun h => hbad h.valid, .invalidParam, _, nofun, .inr rfl, ?_⟩
      simp only [herr]
      rfl
    · simp only [htio]
      rcases applyBaud_cases given line tio cfg.baudrate with ⟨hno, st, hst, hbaud⟩ | ⟨hsets, line', hline', hbaud⟩
      · refine .inl ⟨fun h => hno h.sets, st, _, hst, .inr rfl, ?_⟩
        rw [hbaud]
        cases st with
        | ok => exact absurd rfl hst
        | _ => rfl
      · refine .inr ⟨⟨hget, hvalid, hsets⟩, line', hline'.applied htio, ?_⟩
        rw [hbaud]
        rfl
  · exact .inl ⟨fun hgoes => (nomatch hget.symm.trans hgoes.read), _, h, statusFromErrno_ne_ok e.2, .inl rfl, rfl⟩

/-- `hal_uart_open` succeeds. -/
structure Opens (given : Given) (config : HalUartConfig) : Prop where
  path : config.path ≠ none
  baudrate : config.baudrate ≠ 0
  opened : ∃ fd, given.opened = .ok fd
  calloc : given.calloc = true
  goes : Goes given config

theorem halUartOpen_cases (given : Given) (line : Line) (config : HalUartConfig) :
    (¬Opens given config ∧ ∃ st, st ≠ .ok ∧ halUartOpen given line config = (st, none, line)) ∨
      Opens given config ∧ ∃ (fd : Nat) (line' : Line), Applied line config line' ∧
        halUartOpen given line config = (.ok, some ⟨fd, config, line.toTermios, true⟩, line') := by
  unfold halUartOpen
  by_cases hpath : config.path = none
  · exact .inl ⟨fun h => h.path hpath, .invalidParam, nofun, if_pos hpath⟩
  by_cases hbaud : config.baudrate = 0
  · exact .inl ⟨fun h => h.baudrate hbaud, .invalidParam, nofun, by rw [if_neg hpath, if_pos hbaud]⟩
  rw [if_neg hpath, if_neg hbaud]
  rcases hopen : given.opened with e | fd
  · refine .inl ⟨fun h => ?_, _, statusFromErrno_ne_ok e.2, rfl⟩
    obtain ⟨fd, hfd⟩ := h.opened
    cases hopen.symm.trans hfd
  rcases hcalloc : given.calloc with _ | _
  · refine .inl ⟨fun h => ?_, .noMemory, nofun, rfl⟩
    cases hcalloc.symm.trans h.calloc
  rcases applyConfig_cases given ⟨fd, default, default, false⟩ line config false with
    ⟨hno, st, h', hst, -, happly⟩ | ⟨hgoes, line', hline', happly⟩
  · refine .inl ⟨fun h => hno h.goes, st, hst, ?_⟩
    simp only [happly]
    cases st with
    | ok => exact absurd rfl hst
    | _ => rfl
  · refine .inr ⟨⟨hpath, hbaud, ⟨fd, hopen⟩, hcalloc, hgoes⟩, fd, line', hline', ?_⟩
    simp only [happly]
    rfl

/-- `hal_uart_set_baudrate` succeeds, for a valid handle. -/
structure Changes (given : Given) (baudrate : BitVec 32) : Prop where
  nonzero : baudrate ≠ 0
  read : given.tcgetattr = none
  sets : Sets given baudrate

theorem halUartSetBaudrate_cases {h : HalUartHandle} (hfd : 0 ≤ h.fd) (hvalid : Valid h.cfg) (given : Given) (line : Line)
    (baudrate : BitVec 32) :
    (¬Changes given baudrate ∧ ∃ st, st ≠ .ok ∧ halUartSetBaudrate given h line baudrate = (st, h, line)) ∨
      Changes given baudrate ∧ ∃ line' : Line, Applied line { h.cfg with baudrate := baudrate } line' ∧
        halUartSetBaudrate given h line baudrate =
          (.ok, { h with cfg := { h.cfg with baudrate := baudrate } }, line') := by
  unfold halUartSetBaudrate
  by_cases hbaud : baudrate = 0
  · exact .inl ⟨fun hc => hc.nonzero hbaud, .invalidParam, nofun, if_pos hbaud⟩
  rw [if_neg hbaud, if_neg (Int.not_lt.mpr hfd)]
  rcases applyConfig_cases given h line { h.cfg with baudrate := baudrate } true with
    ⟨hno, st, h', hst, hsaved, happly⟩ | ⟨hgoes, line', hline', happly⟩
  · refine .inl ⟨fun hc => hno ⟨hc.read, hvalid.atRate baudrate, hc.sets⟩, st, hst, ?_⟩
    have hsame : h' = h := hsaved.elim id id
    rw [happly, hsame]
  · exact .inr ⟨⟨hbaud, hgoes.read, hgoes.sets⟩, line', hline', happly⟩

/-! ### Histories -/

/-- A line with the handle on it, and the settings that it had when a handle was last opened. -/
structure Serial where
  line : Line
  before : Line
  handle : Option HalUartHandle

/-- A line without a handle. -/
def start (line : Line) : Serial := ⟨line, line, none⟩

/-- The calls on a handle that change its settings. -/
inductive UartCall where
  | openUart (config : HalUartConfig) (given : Given)
  | setBaudrate (baudrate : BitVec 32) (given : Given)
  | closeUart (given : Given)

/-- One call: a handle is opened when there is none, and a null handle is refused. -/
def perform (s : Serial) : UartCall → Option (Status × Serial)
  | .openUart config given =>
    match s.handle with
    | some _ => none
    | none =>
      let (st, h, line) := halUartOpen given s.line config
      some (st, ⟨line, s.line, h⟩)
  | .setBaudrate baudrate given =>
    match s.handle with
    | none => some (.invalidParam, s)
    | some h =>
      let (st, h, line) := halUartSetBaudrate given h s.line baudrate
      some (st, { s with line := line, handle := some h })
  | .closeUart given =>
    match s.handle with
    | none => some (.invalidParam, s)
    | some h =>
      let (st, line) := halUartClose given h s.line
      some (st, { s with line := line, handle := none })

/-- The serial line and the handle after a call. -/
def exec (s : Serial) (a : UartCall) : Option Serial := (perform s a).map Prod.snd

/-- The call with another rate, in other circumstances. -/
def UartCall.atRate (rate : BitVec 32) (given : Given) : UartCall → UartCall
  | .openUart config _ => .openUart { config with baudrate := rate } given
  | .setBaudrate _ _ => .setBaudrate rate given
  | .closeUart given' => .closeUart given'

/-- What is asked of a call from `s` to `t`. -/
structure Kept (s : Serial) (a : UartCall) (st : Status) (t : Serial) : Prop where
  described : ∀ h, t.handle = some h → Describes h.cfg t.line
  restored : t.handle = none → t.line = t.before
  unchanged : st ≠ .ok → t.line = s.line ∧ ∀ h, t.handle = some h → ∃ h₀, s.handle = some h₀ ∧ h.cfg = h₀.cfg
  samePaths : st = .ok → ∀ rate given u, perform s (a.atRate rate given) = some (.ok, u) →
    t.line.framing = u.line.framing

/-- The call may do nothing else. -/
def Keeps (s : Serial) (a : UartCall) : Prop := ∀ st t, perform s a = some (st, t) → Kept s a st t

/-- The rates that only `termios2` has are still those from before. -/
def RatesKept (s : Serial) : Prop :=
  (s.before.outputCode = bother → s.before.cOspeed = s.line.cOspeed) ∧
    (s.before.inputCode = bother → s.before.cIspeed = s.line.cIspeed)

/-- When a call does what is asked of it. -/
def Suits (s : Serial) : UartCall → Prop
  | .openUart config given =>
    s.handle = none → Opens given config →
      (config.parity = 0 ∨ s.line.cCflag &&& cmspar = 0) ∧ RateFits s.line config.baudrate
  | .setBaudrate baudrate given => s.handle ≠ none → Changes given baudrate → RateFits s.line baudrate
  | .closeUart given =>
    s.handle ≠ none → (given.tcsetattr = none → RatesKept s) ∧
      (given.tcsetattr ≠ none ∨ given.close ≠ none → s.line = s.before)

section Calls
variable {s t : Serial} {h : HalUartHandle}

/-- A handle that was opened on a line with these settings. -/
structure Opened (before : Line) (h : HalUartHandle) : Prop where
  fd : 0 ≤ h.fd
  hasSaved : h.hasSaved = true
  tioSaved : h.tioSaved = before.toTermios
  valid : Valid h.cfg

/-- Without a handle the line is as it was before; a handle has saved that, and describes the line. -/
structure Inv (s : Serial) : Prop where
  closed : s.handle = none → s.line = s.before
  opened : ∀ h, s.handle = some h → Opened s.before h
  described : ∀ h, s.handle = some h → Describes h.cfg s.line

theorem inv_start (line : Line) : Inv (start line) := ⟨fun _ => rfl, nofun, nofun⟩

theorem keeps_iff_kept {a : UartCall} {st : Status} (hperform : perform s a = some (st, t)) :
    Keeps s a ↔ Kept s a st t := by
  constructor
  · intro hkeeps
    exact hkeeps st t hperform
  · intro hkept st' t' hperform'
    rw [hperform, Option.some_inj, Prod.mk.injEq] at hperform'
    obtain ⟨rfl, rfl⟩ := hperform'
    exact hkept

theorem perform_ok {a : UartCall} {st : Status} {t u : Serial} (hperform : perform s a = some (st, t))
    (hok : perform s a = some (.ok, u)) : st = .ok ∧ t = u := by
  rwa [hperform, Option.some_inj, Prod.mk.injEq] at hok

theorem perform_open (hnone : s.handle = none) (config : HalUartConfig) (given : Given) :
    (¬Opens given config ∧ ∃ st, st ≠ .ok ∧ perform s (.openUart config given) = some (st, ⟨s.line, s.line, none⟩)) ∨
      Opens given config ∧ ∃ (fd : Nat) (line' : Line), Applied s.line config line' ∧
        perform s (.openUart config given) =
          some (.ok, ⟨line', s.line, some ⟨fd, config, s.line.toTermios, true⟩⟩) := by
  simp only [perform, hnone]
  rcases halUartOpen_cases given s.line config with ⟨hno, st, hst, hopen⟩ | ⟨hopens, fd, line', hline', hopen⟩
  · exact .inl ⟨hno, st, hst, by rw [hopen]⟩
  · exact .inr ⟨hopens, fd, line', hline', by rw [hopen]⟩

theorem perform_set (hinv : Inv s) (hsome : s.handle = some h) (baudrate : BitVec 32) (given : Given) :
    (¬Changes given baudrate ∧ ∃ st, st ≠ .ok ∧ perform s (.setBaudrate baudrate given) = some (st, s)) ∨
      Changes given baudrate ∧ ∃ line' : Line, Applied s.line { h.cfg with baudrate := baudrate } line' ∧
        perform s (.setBaudrate baudrate given) =
          some (.ok, ⟨line', s.before, some { h with cfg := { h.cfg with baudrate := baudrate } }⟩) := by
  simp only [perform, hsome]
  rcases halUartSetBaudrate_cases (hinv.opened h hsome).fd (hinv.opened h hsome).valid given s.line baudrate with
    ⟨hno, st, hst, hset⟩ | ⟨hchanges, line', hline', hset⟩
  · exact .inl ⟨hno, st, hst, by rw [hset, ← hsome]⟩
  · exact .inr ⟨hchanges, line', hline', by rw [hset]⟩

theorem perform_close (hinv : Inv s) (hsome : s.handle = some h) (given : Given) :
    ∃ st, (st ≠ .ok ↔ given.close ≠ none) ∧ perform s (.closeUart given) =
      some (st, ⟨if given.tcsetattr = none then tcsetattr s.before.toTermios s.line else s.line, s.before, none⟩) := by
  obtain ⟨hfd, hsaved, htio, -⟩ := hinv.opened h hsome
  simp only [perform, hsome, halUartClose, hfd, hsaved, htio, if_true, decide_true, Bool.true_and,
    Option.isNone_iff_eq_none]
  rcases hclose : given.close with _ | e
  · exact ⟨.ok, by simp only [ne_eq, not_true_eq_false], rfl⟩
  · exact ⟨_, ⟨fun _ => nofun, fun _ => statusFromErrno_ne_ok e.2⟩, rfl⟩

theorem open_iff (hnone : s.handle = none) (config : HalUartConfig) (given : Given) :
    Keeps s (.openUart config given) ↔ Suits s (.openUart config given) := by
  rcases perform_open hnone config given with ⟨hno, st, hst, hperform⟩ | ⟨hopens, fd, line', hline', hperform⟩
  · rw [keeps_iff_kept hperform]
    exact ⟨fun _ _ hopens => absurd hopens hno, fun _ => ⟨nofun, fun _ => rfl, fun _ => ⟨rfl, nofun⟩,
      fun h => absurd h hst⟩⟩
  · rw [keeps_iff_kept hperform]
    constructor
    · intro hkept _ _
      exact hline'.describes.mp (hkept.described _ rfl)
    · intro hsuits
      refine ⟨fun h hh => ?_, nofun, fun h => absurd rfl h, fun _ rate given' u hu => ?_⟩
      · cases hh
        exact hline'.describes.mpr (hsuits hnone hopens)
      · rcases perform_open hnone { config with baudrate := rate } given' with
          ⟨-, st, hst, hperform'⟩ | ⟨-, fd', line'', hline'', hperform'⟩
        · exact absurd (perform_ok hperform' hu).1 hst
        · obtain ⟨-, rfl⟩ := perform_ok hperform' hu
          exact hline'.framing_eq hopens.goes.valid hline''

/-- A line that is described has no parity that sticks. -/
theorem Describes.parity_fits {cfg : HalUartConfig} {line : Line} (hd : Describes cfg line) :
    cfg.parity = 0 ∨ line.cCflag &&& cmspar = 0 := by
  by_contra hno
  obtain ⟨hparity, hstick⟩ := not_or.mp hno
  have hline : parityOf cfg.parity = some (Tty.parity line.cCflag) := hd.parity
  rw [parityOf, if_neg hparity, Tty.parity, if_neg hstick] at hline
  split_ifs at hline <;> cases hline

theorem setBaudrate_iff (hinv : Inv s) (hsome : s.handle = some h) (baudrate : BitVec 32) (given : Given) :
    Keeps s (.setBaudrate baudrate given) ↔ Suits s (.setBaudrate baudrate given) := by
  rcases perform_set hinv hsome baudrate given with ⟨hno, st, hst, hperform⟩ | ⟨hchanges, line', hline', hperform⟩
  · rw [keeps_iff_kept hperform]
    refine ⟨fun _ _ hchanges => absurd hchanges hno, fun _ => ⟨hinv.described, hinv.closed, fun _ => ⟨rfl, ?_⟩, ?_⟩⟩
    · exact fun h₀ hh₀ => ⟨h₀, hh₀, rfl⟩
    · exact fun h => absurd h hst
  · rw [keeps_iff_kept hperform]
    constructor
    · intro hkept _ _
      exact (hline'.describes.mp (hkept.described _ rfl)).2
    · intro hsuits
      have hrate := hsuits (by rw [hsome]; exact Option.some_ne_none h) hchanges
      refine ⟨fun h' hh' => ?_, nofun, fun h => absurd rfl h, fun _ rate given' u hu => ?_⟩
      · cases hh'
        exact hline'.describes.mpr ⟨(hinv.described h hsome).parity_fits, hrate⟩
      · rcases perform_set hinv hsome rate given' with ⟨-, st, hst, hperform'⟩ | ⟨-, line'', hline'', hperform'⟩
        · exact absurd (perform_ok hperform' hu).1 hst
        · obtain ⟨-, rfl⟩ := perform_ok hperform' hu
          exact hline'.framing_eq ((hinv.opened h hsome).valid.atRate baudrate) hline''

theorem close_iff (hinv : Inv s) (hsome : s.handle = some h) (given : Given) :
    Keeps s (.closeUart given) ↔ Suits s (.closeUart given) := by
  obtain ⟨st, hst, hperform⟩ := perform_close hinv hsome given
  have hne : s.handle ≠ none := by rw [hsome]; exact Option.some_ne_none h
  rw [keeps_iff_kept hperform]
  constructor
  · intro hkept _
    have hrestored := hkept.restored rfl
    refine ⟨fun hset => ?_, fun hfails => ?_⟩
    · rw [if_pos hset] at hrestored
      exact (tcsetattr_eq_iff _ _).mp hrestored
    · rcases hfails with hset | hclose
      · rw [if_neg hset] at hrestored
        exact hrestored
      · exact (hkept.unchanged (hst.mpr hclose)).1.symm.trans hrestored
  · intro hsuits
    obtain ⟨hrates, hsame⟩ := hsuits hne
    have hrestored : (if given.tcsetattr = none then tcsetattr s.before.toTermios s.line else s.line) = s.before := by
      by_cases hset : given.tcsetattr = none
      · rw [if_pos hset]
        exact (tcsetattr_eq_iff _ _).mpr (hrates hset)
      · rw [if_neg hset]
        exact hsame (.inl hset)
    refine ⟨nofun, fun _ => hrestored, fun hfail => ⟨?_, nofun⟩, fun hok rate given' u hu => ?_⟩
    · exact hrestored.trans (hsame (.inr (hst.mp hfail))).symm
    · rw [UartCall.atRate, hperform, Option.some_inj, Prod.mk.injEq] at hu
      exact congrArg (fun t : Serial => t.line.framing) hu.2

/-- A call without a handle that needs one is refused. -/
theorem keeps_of_refused (hinv : Inv s) {a : UartCall} (hperform : perform s a = some (.invalidParam, s)) :
    Keeps s a := by
  rw [keeps_iff_kept hperform]
  exact ⟨hinv.described, hinv.closed, fun _ => ⟨rfl, fun h hh => ⟨h, hh, rfl⟩⟩, nofun⟩

theorem keeps_iff_suits (hinv : Inv s) (a : UartCall) : Keeps s a ↔ Suits s a := by
  rcases hhandle : s.handle with _ | h
  · cases a with
    | openUart config given => exact open_iff hhandle config given
    | setBaudrate baudrate given =>
      have hperform : perform s (.setBaudrate baudrate given) = some (.invalidParam, s) := by simp only [perform, hhandle]
      exact ⟨fun _ hne => absurd hhandle hne, fun _ => keeps_of_refused hinv hperform⟩
    | closeUart given =>
      have hperform : perform s (.closeUart given) = some (.invalidParam, s) := by simp only [perform, hhandle]
      exact ⟨fun _ hne => absurd hhandle hne, fun _ => keeps_of_refused hinv hperform⟩
  · cases a with
    | openUart config given =>
      have hperform : perform s (.openUart config given) = none := by simp only [perform, hhandle]
      refine ⟨fun _ hnone => (nomatch hhandle.symm.trans hnone), fun _ st t ht => ?_⟩
      rw [hperform] at ht
      cases ht
    | setBaudrate baudrate given => exact setBaudrate_iff hinv hhandle baudrate given
    | closeUart given => exact close_iff hinv hhandle given

/-- What a call leaves of the handle. -/
theorem opened_exec {a : UartCall} {st : Status} (hinv : Inv s) (hperform : perform s a = some (st, t)) :
    ∀ h, t.handle = some h → Opened t.before h := by
  rcases hhandle : s.handle with _ | h₀
  · cases a with
    | openUart config given =>
      rcases perform_open hhandle config given with ⟨-, st', -, hopen⟩ | ⟨hopens, fd, line', -, hopen⟩
      · cases hopen.symm.trans hperform
        nofun
      · cases hopen.symm.trans hperform
        rintro h ⟨⟩
        exact ⟨Int.natCast_nonneg fd, rfl, rfl, hopens.goes.valid⟩
    | setBaudrate baudrate given =>
      simp only [perform, hhandle, Option.some.injEq, Prod.mk.injEq] at hperform
      exact hperform.2 ▸ hinv.opened
    | closeUart given =>
      simp only [perform, hhandle, Option.some.injEq, Prod.mk.injEq] at hperform
      exact hperform.2 ▸ hinv.opened
  · obtain ⟨hfd, hsaved, htio, hvalid⟩ := hinv.opened h₀ hhandle
    cases a with
    | openUart config given => simp only [perform, hhandle, reduceCtorEq] at hperform
    | setBaudrate baudrate given =>
      rcases perform_set hinv hhandle baudrate given with ⟨-, st', -, hset⟩ | ⟨-, line', -, hset⟩
      · cases hset.symm.trans hperform
        exact hinv.opened
      · cases hset.symm.trans hperform
        rintro h ⟨⟩
        exact ⟨hfd, hsaved, htio, hvalid.atRate baudrate⟩
    | closeUart given =>
      obtain ⟨st', -, hclose⟩ := perform_close hinv hhandle given
      cases hclose.symm.trans hperform
      nofun

/-- A call that does what is asked of it keeps the invariant. -/
theorem inv_exec {a : UartCall} (hinv : Inv s) (hkeeps : Keeps s a) (hexec : exec s a = some t) : Inv t := by
  obtain ⟨⟨st, t'⟩, hperform, rfl⟩ := Option.map_eq_some_iff.mp hexec
  have hkept := hkeeps st t' hperform
  exact ⟨hkept.restored, opened_exec hinv hperform, hkept.described⟩

end Calls

/-- Over every history of a handle, on a line with any settings and with any calls failing, each call does what is asked of
    it exactly when it suits the state that it finds. -/
theorem history_keeps_iff (line : Line) (history : List UartCall) :
    Each exec Keeps (start line) history ↔ Each exec Suits (start line) history :=
  each_iff (inv_start line) (fun _ a hinv => keeps_iff_suits hinv a) fun _ _ _ hinv => inv_exec hinv

/-- Every call succeeds. -/
def allSucceed : Given := ⟨.ok 3, true, none, none, none, none, none⟩

/-- A line at 9600 with mark parity. -/
def markLine : Line :=
  Termios2.installed ⟨⟨0, 0, 0xD ||| cs8 ||| cread ||| parenb ||| parodd ||| cmspar, 0, 0, default⟩, 0, 0⟩

/-- 115200 bits per second, 8 data bits, odd parity, 1 stop bit. -/
def oddConfig : HalUartConfig := ⟨some [], 115200, 8, 1, 1, 0⟩

theorem odd_is_mark :
    (perform (start markLine) (.openUart oddConfig allSucceed)).map
        (fun r => (r.1, r.2.handle.map (·.cfg.parity), r.2.line.framing.parity)) = some (.ok, some 1, .mark) ∧
      ¬Each exec Keeps (start markLine) [.openUart oddConfig allSucceed] := by
  refine ⟨by decide +kernel, fun heach => ?_⟩
  rw [each_cons, keeps_iff_suits (inv_start markLine)] at heach
  have hgoes : Goes allSucceed oddConfig := ⟨rfl, ⟨by decide, by decide, by decide, by decide⟩,
    by rw [Sets, if_pos (by decide)]; rfl⟩
  have hopens : Opens allSucceed oddConfig := ⟨Option.some_ne_none _, by decide, ⟨3, rfl⟩, rfl, hgoes⟩
  exact absurd (heach.1 rfl hopens).1 (by decide +kernel)

/-- A line at 100000 bits per second, a rate that `termios` does not have. -/
def customRateLine : Line := Termios2.installed ⟨⟨0, 0, bother ||| cs8 ||| cread, 0, 0, default⟩, 100000, 100000⟩

-- The line is closed at the rate of the handle.
example :
    ((exec (start customRateLine) (.openUart { oddConfig with parity := 0 } allSucceed)).bind
      (exec · (.closeUart allSucceed))).map (fun s => (s.before.cOspeed, s.line.cOspeed)) = some (100000, 115200) := by
  decide +kernel

end UartOpen
end Hal
end Emberlite
