import Emberlite.Hal.UartOpen

/-! What `hal_uart_apply_config_locked` makes of the flags and the rates of a line, against what its configuration
    describes. -/

namespace Emberlite
namespace Hal
namespace UartOpen
open Tty FlagWord

/-! ### What a configuration describes -/

/-- The meaning of the field `parity`. -/
def parityOf (parity : Byte) : Option Parity :=
  if parity = 0 then some .none else if parity = 1 then some .odd else if parity = 2 then some .even else none

/-- The meaning of the field `flow_control`. -/
def flowControlOf (flowControl : Byte) : Option FlowControl :=
  if flowControl = 0 then some ⟨false, false, false⟩
  else if flowControl = 1 then some ⟨true, false, false⟩
  else if flowControl = 2 then some ⟨false, true, true⟩
  else none

/-- The configuration describes the line. -/
structure Describes (cfg : HalUartConfig) (line : Line) : Prop where
  dataBits : line.framing.dataBits = cfg.dataBits.toNat
  stopBits : line.framing.stopBits = cfg.stopBits.toNat
  parity : parityOf cfg.parity = some line.framing.parity
  flowControl : flowControlOf cfg.flowControl = some line.framing.flowControl
  ispeed : line.cIspeed = cfg.baudrate
  ospeed : line.cOspeed = cfg.baudrate

/-! ### The edits -/

section Edits
variable {tio t : Termios}

theorem dataBits_congr {c c' : Tcflag} (h : c &&& csize = c' &&& csize) : dataBits c = dataBits c' := by
  rw [Tty.dataBits, h, Tty.dataBits]

theorem stopBits_congr {c c' : Tcflag} (h : c &&& cstopb = c' &&& cstopb) : stopBits c = stopBits c' := by
  rw [Tty.stopBits, h, Tty.stopBits]

theorem parity_congr {c c' : Tcflag} (h : c &&& (parenb ||| parodd ||| cmspar) = c' &&& (parenb ||| parodd ||| cmspar)) :
    parity c = parity c' := by
  have hpart : ∀ part, (parenb ||| parodd ||| cmspar) &&& part = part → c &&& part = c' &&& part :=
    fun part => part_congr h
  rw [Tty.parity, hpart parenb (by decide), hpart cmspar (by decide), hpart parodd (by decide), Tty.parity]

theorem flowControl_congr {c c' : Tcflag} (h : c &&& crtscts = c' &&& crtscts) (i : Tcflag) :
    flowControl c i = flowControl c' i := by
  rw [Tty.flowControl, h, Tty.flowControl]

theorem makeRaw_rest (tio : Termios) :
    (makeRaw tio).cCflag &&& ~~~(csize ||| parenb ||| clocal ||| cread) =
      tio.cCflag &&& ~~~(csize ||| parenb ||| clocal ||| cread) :=
  (set_apart (by decide)).trans ((set_apart (by decide)).trans (clear_apart (by decide)))

/-- Each edit of `c_cflag` leaves the rest of the word as it was. -/
theorem setDataBits_ok {n : Byte} (h : setDataBits n tio = .ok t) :
    dataBits t.cCflag = n.toNat ∧ t.cCflag &&& ~~~csize = tio.cCflag &&& ~~~csize := by
  have hbits : ∀ bits : Tcflag, bits &&& ~~~csize = 0#32 →
      (tio.cCflag &&& ~~~csize ||| bits) &&& csize = bits &&& csize ∧
        (tio.cCflag &&& ~~~csize ||| bits) &&& ~~~csize = tio.cCflag &&& ~~~csize := by
    intro bits hbits
    exact ⟨set_clear (clear_within (by decide)), (set_apart hbits).trans (clear_apart (by decide))⟩
  have hread : ∀ bits : Tcflag, bits &&& ~~~csize = 0#32 →
      dataBits (tio.cCflag &&& ~~~csize ||| bits) = dataBits bits := fun bits h => dataBits_congr (hbits bits h).1
  unfold setDataBits at h
  split_ifs at h with h5 h6 h7 h8
  · cases h
    exact ⟨(hread cs5 (by decide)).trans (by rw [h5]; decide), (hbits cs5 (by decide)).2⟩
  · cases h
    exact ⟨(hread cs6 (by decide)).trans (by rw [h6]; decide), (hbits cs6 (by decide)).2⟩
  · cases h
    exact ⟨(hread cs7 (by decide)).trans (by rw [h7]; decide), (hbits cs7 (by decide)).2⟩
  · cases h
    exact ⟨(hread cs8 (by decide)).trans (by rw [h8]; decide), (hbits cs8 (by decide)).2⟩

theorem setStopBits_ok {n : Byte} (h : setStopBits n tio = .ok t) :
    stopBits t.cCflag = n.toNat ∧ t.cCflag &&& ~~~cstopb = tio.cCflag &&& ~~~cstopb := by
  unfold setStopBits at h
  split_ifs at h with h1 h2
  · cases h
    have hclear : (tio.cCflag &&& ~~~cstopb) &&& cstopb = 0#32 := clear_within (by decide)
    exact ⟨by rw [Tty.stopBits, hclear, h1]; decide, clear_apart (by decide)⟩
  · cases h
    have hset : (tio.cCflag ||| cstopb) &&& cstopb = cstopb := set_within (by decide)
    exact ⟨by rw [Tty.stopBits, hset, h2]; decide, set_apart (by decide)⟩

/-- What `parity` says is on the line, unless `CMSPAR` was. -/
theorem setParity_ok {n : Byte} (h : setParity n tio = .ok t) :
    (parityOf n = some (parity t.cCflag) ↔ n = 0 ∨ tio.cCflag &&& cmspar = 0) ∧
      t.cCflag &&& ~~~(parenb ||| parodd) = tio.cCflag &&& ~~~(parenb ||| parodd) := by
  unfold setParity at h
  split_ifs at h with h0 h1 h2
  · cases h
    have hparenb : (tio.cCflag &&& ~~~parenb) &&& parenb = 0 := clear_within (by decide)
    refine ⟨?_, clear_apart (by decide)⟩
    rw [Tty.parity, hparenb, if_pos rfl, parityOf, if_pos h0]
    exact ⟨fun _ => .inl h0, fun _ => rfl⟩
  · cases h
    have hparenb : (tio.cCflag ||| (parenb ||| parodd)) &&& parenb = parenb := set_within (by decide)
    have hparodd : (tio.cCflag ||| (parenb ||| parodd)) &&& parodd = parodd := set_within (by decide)
    have hcmspar : (tio.cCflag ||| (parenb ||| parodd)) &&& cmspar = tio.cCflag &&& cmspar := set_apart (by decide)
    refine ⟨?_, set_apart (by decide)⟩
    rw [Tty.parity, hparenb, hparodd, hcmspar, parityOf, if_neg h0, if_pos h1, if_neg (by decide)]
    by_cases hstick : tio.cCflag &&& cmspar = 0
    · rw [if_pos hstick, if_neg (by decide)]
      exact ⟨fun _ => .inr hstick, fun _ => rfl⟩
    · rw [if_neg hstick, if_neg (by decide)]
      exact ⟨nofun, fun h => absurd h (not_or.mpr ⟨h0, hstick⟩)⟩
  · cases h
    have hparenb : ((tio.cCflag ||| parenb) &&& ~~~parodd) &&& parenb = parenb :=
      (clear_apart (by decide)).trans (set_within (by decide))
    have hparodd : ((tio.cCflag ||| parenb) &&& ~~~parodd) &&& parodd = 0 := clear_within (by decide)
    have hcmspar : ((tio.cCflag ||| parenb) &&& ~~~parodd) &&& cmspar = tio.cCflag &&& cmspar :=
      (clear_apart (by decide)).trans (set_apart (by decide))
    refine ⟨?_, (clear_apart (by decide)).trans (set_apart (by decide))⟩
    rw [Tty.parity, hparenb, hparodd, hcmspar, parityOf, if_neg h0, if_neg h1, if_pos h2, if_neg (by decide)]
    by_cases hstick : tio.cCflag &&& cmspar = 0
    · rw [if_pos hstick, if_pos rfl]
      exact ⟨fun _ => .inr hstick, fun _ => rfl⟩
    · rw [if_neg hstick, if_pos rfl]
      exact ⟨nofun, fun h => absurd h (not_or.mpr ⟨h0, hstick⟩)⟩

theorem setFlowControl_ok {n : Byte} (h : setFlowControl n tio = .ok t) :
    flowControlOf n = some (flowControl t.cCflag t.cIflag) ∧
      t.cCflag &&& ~~~crtscts = tio.cCflag &&& ~~~crtscts := by
  have hclear : (tio.cCflag &&& ~~~crtscts) &&& crtscts = 0 := clear_within (by decide)
  have hixon : (tio.cIflag &&& ~~~(ixon ||| ixoff ||| ixany)) &&& ixon = 0 := clear_within (by decide)
  have hixoff : (tio.cIflag &&& ~~~(ixon ||| ixoff ||| ixany)) &&& ixoff = 0 := clear_within (by decide)
  unfold setFlowControl at h
  split_ifs at h with h0 h1 h2
  · cases h
    refine ⟨?_, clear_apart (by decide)⟩
    rw [flowControlOf, if_pos h0, Tty.flowControl, hclear, hixon, hixoff]
    rfl
  · cases h
    have hset : (tio.cCflag ||| crtscts) &&& crtscts = crtscts := set_within (by decide)
    refine ⟨?_, set_apart (by decide)⟩
    rw [flowControlOf, if_neg h0, if_pos h1, Tty.flowControl, hset, hixon, hixoff]
    rfl
  · cases h
    have hon : ((tio.cIflag ||| (ixon ||| ixoff)) &&& ~~~ixany) &&& ixon = ixon :=
      (clear_apart (by decide)).trans (set_within (by decide))
    have hoff : ((tio.cIflag ||| (ixon ||| ixoff)) &&& ~~~ixany) &&& ixoff = ixoff :=
      (clear_apart (by decide)).trans (set_within (by decide))
    refine ⟨?_, clear_apart (by decide)⟩
    rw [flowControlOf, if_neg h0, if_neg h1, if_pos h2, Tty.flowControl, hclear, hon, hoff]
    rfl

theorem setDataBits_cases (n : Byte) (tio : Termios) :
    (¬(n = 5 ∨ n = 6 ∨ n = 7 ∨ n = 8) ∧ setDataBits n tio = .error .invalidParam) ∨
      (n = 5 ∨ n = 6 ∨ n = 7 ∨ n = 8) ∧ ∃ t, setDataBits n tio = .ok t := by
  unfold setDataBits
  split_ifs with h5 h6 h7 h8
  · exact .inr ⟨.inl h5, _, rfl⟩
  · exact .inr ⟨.inr (.inl h6), _, rfl⟩
  · exact .inr ⟨.inr (.inr (.inl h7)), _, rfl⟩
  · exact .inr ⟨.inr (.inr (.inr h8)), _, rfl⟩
  · exact .inl ⟨by simp only [h5, h6, h7, h8, or_self, not_false_eq_true], rfl⟩

theorem setStopBits_cases (n : Byte) (tio : Termios) :
    (¬(n = 1 ∨ n = 2) ∧ setStopBits n tio = .error .invalidParam) ∨ (n = 1 ∨ n = 2) ∧ ∃ t, setStopBits n tio = .ok t := by
  unfold setStopBits
  split_ifs with h1 h2
  · exact .inr ⟨.inl h1, _, rfl⟩
  · exact .inr ⟨.inr h2, _, rfl⟩
  · exact .inl ⟨not_or.mpr ⟨h1, h2⟩, rfl⟩

/-- A setting with the three values 0, 1 and 2. -/
theorem choice_cases (n : Byte) (t₀ t₁ t₂ : Termios) {r : Except Status Termios}
    (hr : (if n = 0 then .ok t₀ else if n = 1 then .ok t₁ else if n = 2 then .ok t₂ else .error .invalidParam) = r) :
    (¬(n = 0 ∨ n = 1 ∨ n = 2) ∧ r = .error .invalidParam) ∨ (n = 0 ∨ n = 1 ∨ n = 2) ∧ ∃ t, r = .ok t := by
  subst hr
  split_ifs with h0 h1 h2
  · exact .inr ⟨.inl h0, _, rfl⟩
  · exact .inr ⟨.inr (.inl h1), _, rfl⟩
  · exact .inr ⟨.inr (.inr h2), _, rfl⟩
  · exact .inl ⟨by simp only [h0, h1, h2, or_self, not_false_eq_true], rfl⟩

theorem setParity_cases (n : Byte) (tio : Termios) :
    (¬(n = 0 ∨ n = 1 ∨ n = 2) ∧ setParity n tio = .error .invalidParam) ∨
      (n = 0 ∨ n = 1 ∨ n = 2) ∧ ∃ t, setParity n tio = .ok t :=
  choice_cases n _ _ _ rfl

theorem setFlowControl_cases (n : Byte) (tio : Termios) :
    (¬(n = 0 ∨ n = 1 ∨ n = 2) ∧ setFlowControl n tio = .error .invalidParam) ∨
      (n = 0 ∨ n = 1 ∨ n = 2) ∧ ∃ t, setFlowControl n tio = .ok t :=
  choice_cases n _ _ _ rfl

end Edits

/-- The framings and flow controls that there are. -/
structure Valid (cfg : HalUartConfig) : Prop where
  dataBits : cfg.dataBits = 5 ∨ cfg.dataBits = 6 ∨ cfg.dataBits = 7 ∨ cfg.dataBits = 8
  stopBits : cfg.stopBits = 1 ∨ cfg.stopBits = 2
  parity : cfg.parity = 0 ∨ cfg.parity = 1 ∨ cfg.parity = 2
  flowControl : cfg.flowControl = 0 ∨ cfg.flowControl = 1 ∨ cfg.flowControl = 2

theorem Valid.atRate {cfg : HalUartConfig} (h : Valid cfg) (rate : BitVec 32) : Valid { cfg with baudrate := rate } :=
  ⟨h.dataBits, h.stopBits, h.parity, h.flowControl⟩

theorem configured_cases (cfg : HalUartConfig) (tio : Termios) :
    (¬Valid cfg ∧ configured cfg tio = .error .invalidParam) ∨ Valid cfg ∧ ∃ t, configured cfg tio = .ok t := by
  rcases setDataBits_cases cfg.dataBits (makeRaw tio) with ⟨hbad, herr⟩ | ⟨hdata, t₁, h₁⟩
  · exact .inl ⟨fun h => hbad h.dataBits, by simp only [configured, herr, bind, Except.bind]⟩
  rcases setStopBits_cases cfg.stopBits t₁ with ⟨hbad, herr⟩ | ⟨hstop, t₂, h₂⟩
  · exact .inl ⟨fun h => hbad h.stopBits, by simp only [configured, h₁, herr, bind, Except.bind]⟩
  rcases setParity_cases cfg.parity t₂ with ⟨hbad, herr⟩ | ⟨hparity, t₃, h₃⟩
  · exact .inl ⟨fun h => hbad h.parity, by simp only [configured, h₁, h₂, herr, bind, Except.bind]⟩
  rcases setFlowControl_cases cfg.flowControl t₃ with ⟨hbad, herr⟩ | ⟨hflow, t₄, h₄⟩
  · exact .inl ⟨fun h => hbad h.flowControl, by simp only [configured, h₁, h₂, h₃, herr, bind, Except.bind]⟩
  · refine .inr ⟨⟨hdata, hstop, hparity, hflow⟩, setMinTime t₄, ?_⟩
    simp only [configured, h₁, h₂, h₃, h₄, bind, Except.bind, pure, Except.pure]

/-- The stages of an edit that succeeds. -/
theorem configured_stages {cfg : HalUartConfig} {tio t : Termios} (h : configured cfg tio = .ok t) :
    ∃ t₁ t₂ t₃ t₄, setDataBits cfg.dataBits (makeRaw tio) = .ok t₁ ∧ setStopBits cfg.stopBits t₁ = .ok t₂ ∧
      setParity cfg.parity t₂ = .ok t₃ ∧ setFlowControl cfg.flowControl t₃ = .ok t₄ ∧ t = setMinTime t₄ := by
  rcases h₁ : setDataBits cfg.dataBits (makeRaw tio) with st | t₁
  · simp only [configured, h₁, bind, Except.bind, reduceCtorEq] at h
  rcases h₂ : setStopBits cfg.stopBits t₁ with st | t₂
  · simp only [configured, h₁, h₂, bind, Except.bind, reduceCtorEq] at h
  rcases h₃ : setParity cfg.parity t₂ with st | t₃
  · simp only [configured, h₁, h₂, h₃, bind, Except.bind, reduceCtorEq] at h
  rcases h₄ : setFlowControl cfg.flowControl t₃ with st | t₄
  · simp only [configured, h₁, h₂, h₃, h₄, bind, Except.bind, reduceCtorEq] at h
  simp only [configured, h₁, h₂, h₃, h₄, bind, Except.bind, pure, Except.pure, Except.ok.injEq] at h
  exact ⟨t₁, t₂, t₃, t₄, rfl, h₂, h₃, h₄, h.symm⟩

/-- What a successful edit makes of the settings: the framing of the configuration, where `CMSPAR` lets it, and the input
    rate as it was. -/
structure Edited (cfg : HalUartConfig) (tio t : Termios) : Prop where
  dataBits : t.framing.dataBits = cfg.dataBits.toNat
  stopBits : t.framing.stopBits = cfg.stopBits.toNat
  parity : parityOf cfg.parity = some t.framing.parity ↔ cfg.parity = 0 ∨ tio.cCflag &&& cmspar = 0
  flowControl : flowControlOf cfg.flowControl = some t.framing.flowControl
  inputCode : t.inputCode = tio.inputCode

theorem configured_edited {cfg : HalUartConfig} {tio t : Termios} (h : configured cfg tio = .ok t) :
    Edited cfg tio t := by
  obtain ⟨t₁, t₂, t₃, t₄, h₁, h₂, h₃, h₄, rfl⟩ := configured_stages h
  obtain ⟨hdata, hrest₁⟩ := setDataBits_ok h₁
  obtain ⟨hstop, hrest₂⟩ := setStopBits_ok h₂
  obtain ⟨hparity, hrest₃⟩ := setParity_ok h₃
  obtain ⟨hflow, hrest₄⟩ := setFlowControl_ok h₄
  refine ⟨?_, ?_, ?_, hflow, ?_⟩
  · refine (dataBits_congr ?_).trans hdata
    exact (part_congr hrest₄ (by decide)).trans ((part_congr hrest₃ (by decide)).trans (part_congr hrest₂ (by decide)))
  · exact (stopBits_congr ((part_congr hrest₄ (by decide)).trans (part_congr hrest₃ (by decide)))).trans hstop
  · have hsame : parity t₄.cCflag = parity t₃.cCflag := parity_congr (part_congr hrest₄ (by decide))
    have hstick : t₂.cCflag &&& cmspar = tio.cCflag &&& cmspar := by
      exact (part_congr hrest₂ (by decide)).trans
        ((part_congr hrest₁ (by decide)).trans (part_congr (makeRaw_rest tio) (by decide)))
    show parityOf cfg.parity = some (parity t₄.cCflag) ↔ _
    rw [hsame, hparity, hstick]
  · have hcode : t₄.cCflag &&& cibaud = tio.cCflag &&& cibaud := by
      refine (part_congr hrest₄ (by decide)).trans ((part_congr hrest₃ (by decide)).trans ?_)
      exact (part_congr hrest₂ (by decide)).trans
        ((part_congr hrest₁ (by decide)).trans (part_congr (makeRaw_rest tio) (by decide)))
    show (t₄.cCflag &&& cibaud) >>> ibshift = (tio.cCflag &&& cibaud) >>> ibshift
    rw [hcode]

/-! ### The rate -/

/-- The calls succeed that set this rate. -/
def Sets (given : Given) (baud : BitVec 32) : Prop :=
  if halUartBaudToSpeed baud ≠ 0 then given.tcsetattr = none else given.tcgets2 = none ∧ given.tcsets2 = none

/-- The code of the input rate, which no call sets, does not stand in the way of this rate. -/
def RateFits (line : Line) (baud : BitVec 32) : Prop :=
  line.inputCode = 0 ∨
    namedRate line.inputCode (if halUartBaudToSpeed baud ≠ 0 then line.cIspeed else baud) = baud

theorem bauds_spec :
    ∀ p ∈ bauds, p.2 &&& cbaud = p.2 ∧ p.2 ≠ bother ∧ (bauds.map Prod.swap).lookup p.2 = some p.1 := by
  have hall : bauds.all (fun p => p.2 &&& cbaud = p.2 ∧ p.2 ≠ bother ∧
      (bauds.map Prod.swap).lookup p.2 = some p.1) = true := by decide
  intro p hp
  exact of_decide_eq_true (List.all_eq_true.mp hall p hp)

/-- A constant `Bxxx` is a code of its rate. -/
theorem speed_spec {baud : BitVec 32} (h : halUartBaudToSpeed baud ≠ 0) :
    halUartBaudToSpeed baud &&& cbaud = halUartBaudToSpeed baud ∧
      ∀ other, namedRate (halUartBaudToSpeed baud) other = baud := by
  unfold halUartBaudToSpeed at h ⊢
  rcases hlookup : bauds.lookup baud with _ | spd
  · rw [hlookup] at h
    exact absurd rfl h
  · obtain ⟨l₁, l₂, hl, -⟩ := List.lookup_eq_some_iff.mp hlookup
    have hmem : (baud, spd) ∈ bauds := hl ▸ List.mem_append_right _ List.mem_cons_self
    obtain ⟨hcbaud, hbother, hrate⟩ := bauds_spec _ hmem
    rw [Option.getD_some]
    refine ⟨hcbaud, fun other => ?_⟩
    rw [namedRate, if_neg hbother, hrate, Option.getD_some]

section Rate
variable {t u : Termios}

/-- The rate codes of the output are not framing. -/
theorem framing_congr (hc : t.cCflag &&& ~~~cbaud = u.cCflag &&& ~~~cbaud) (hi : t.cIflag = u.cIflag) :
    t.framing = u.framing := by
  unfold Termios.framing
  rw [dataBits_congr (part_congr hc (by decide)), stopBits_congr (part_congr hc (by decide)),
    parity_congr (part_congr hc (by decide)), flowControl_congr (part_congr hc (by decide)), hi]

theorem inputCode_congr (hc : t.cCflag &&& ~~~cbaud = u.cCflag &&& ~~~cbaud) : t.inputCode = u.inputCode := by
  unfold Termios.inputCode
  rw [part_congr hc (by decide)]

/-- The rates of settings whose output has the rate `baud`. -/
theorem named_rates {t2 : Termios2} {baud : BitVec 32} (hout : t2.outputRate = baud) :
    t2.named.cOspeed = baud ∧
      (t2.named.cIspeed = baud ↔ t2.inputCode = 0 ∨ namedRate t2.inputCode t2.cIspeed = baud) := by
  refine ⟨hout, ?_⟩
  have hin : t2.named.cIspeed = t2.inputRate := rfl
  rw [hin, Termios2.inputRate]
  by_cases hcode : t2.inputCode = 0
  · rw [if_pos hcode, hout]
    exact ⟨fun _ => .inl hcode, fun _ => rfl⟩
  · rw [if_neg hcode]
    exact ⟨.inr, fun h => h.resolve_left hcode⟩

/-- What installing settings with this rate leaves on the line. -/
structure Installed (line : Line) (tio : Termios) (baud : BitVec 32) (line' : Line) : Prop where
  framing : line'.framing = tio.framing
  ospeed : line'.cOspeed = baud
  ispeed : tio.inputCode = line.inputCode → (line'.cIspeed = baud ↔ RateFits line baud)

/-- Settings with another code for the output, and rates, are installed. -/
theorem installed_spec {line : Line} {tio : Termios} {baud : BitVec 32} {t2 : Termios2}
    (hcflag : t2.cCflag &&& ~~~cbaud = tio.cCflag &&& ~~~cbaud) (hiflag : t2.cIflag = tio.cIflag)
    (hout : t2.outputRate = baud) (hin : t2.cIspeed = if halUartBaudToSpeed baud ≠ 0 then line.cIspeed else baud) :
    Installed line tio baud t2.installed := by
  obtain ⟨hospeed, hispeed⟩ := named_rates hout
  refine ⟨framing_congr hcflag hiflag, hospeed, fun hcode => ?_⟩
  have hsame : t2.inputCode = line.inputCode := (inputCode_congr hcflag).trans hcode
  rw [hin, hsame] at hispeed
  exact hispeed

theorem applyBaud_cases (given : Given) (line : Line) (tio : Termios) (baud : BitVec 32) :
    (¬Sets given baud ∧ ∃ st, st ≠ .ok ∧ halUartApplyTermiosBaud given line tio baud = (st, line)) ∨
      Sets given baud ∧ ∃ line', Installed line tio baud line' ∧
        halUartApplyTermiosBaud given line tio baud = (.ok, line') := by
  by_cases hspd : halUartBaudToSpeed baud ≠ 0
  · obtain ⟨hcbaud, hrate⟩ := speed_spec hspd
    have hapart : halUartBaudToSpeed baud &&& ~~~cbaud = 0#32 := by
      rw [← hcbaud, BitVec.and_assoc]
      exact BitVec.and_zero
    simp only [Sets, halUartApplyTermiosBaud, if_pos hspd]
    rcases hset : given.tcsetattr with _ | e
    · refine .inr ⟨rfl, _, installed_spec ?_ rfl ?_ ?_, rfl⟩
      · have hset : ∀ c : Tcflag, (c &&& ~~~cbaud ||| halUartBaudToSpeed baud) &&& ~~~cbaud = c &&& ~~~cbaud :=
          fun c => (set_apart hapart).trans (clear_apart (by decide))
        exact (hset _).trans (hset _)
      · have hcode : (cfsetospeed (cfsetispeed tio (halUartBaudToSpeed baud)) (halUartBaudToSpeed baud)).outputCode =
            halUartBaudToSpeed baud := (set_clear (clear_within (by decide))).trans hcbaud
        exact (congrArg (namedRate · line.cOspeed) hcode).trans (hrate _)
      · rw [if_pos hspd]
    · exact .inl ⟨nofun, _, statusFromErrno_ne_ok e.2, rfl⟩
  · simp only [Sets, halUartApplyTermiosBaud, if_neg hspd, halUartApplyTermiosBaudLinux]
    rcases hget : given.tcgets2 with _ | e
    · rcases hset : given.tcsets2 with _ | e
      · refine .inr ⟨⟨rfl, rfl⟩, _, installed_spec ?_ rfl ?_ ?_, rfl⟩
        · exact (set_apart (by decide)).trans (clear_apart (by decide))
        · have hcode : (tio.cCflag &&& ~~~cbaud ||| bother) &&& cbaud = bother :=
            (set_clear (clear_within (by decide))).trans (by decide)
          exact (congrArg (namedRate · baud) hcode).trans (if_pos rfl)
        · rw [if_neg hspd]
      · exact .inl ⟨fun h => (nomatch h.2), _, statusFromErrno_ne_ok e.2, rfl⟩
    · exact .inl ⟨fun h => (nomatch h.1), _, statusFromErrno_ne_ok e.2, rfl⟩

end Rate

end UartOpen
end Hal
end Emberlite
