import Emberlite.Hal.CanSocket
import Mathlib.Data.List.GetD

/-! Frames from `hal_can_send` to `hal_can_receive`, and from the bus to `hal_can_receive`.

    Both functions keep the low 11 bits of an identifier and drop the others. -/

namespace Emberlite
namespace Hal
namespace CanFrames
open Interleave ByteOrder

/-! ### Masks -/

theorem and_sffMask_of_le {x : BitVec 32} (h : x.toNat ≤ 0x7FF) : x &&& canSffMask = x := by
  refine BitVec.eq_of_toNat_eq ?_
  have hmask : canSffMask.toNat = 2 ^ 11 - 1 := rfl
  rw [BitVec.toNat_and, hmask]
  exact Nat.and_two_pow_sub_one_of_lt_two_pow (Nat.lt_succ_of_le h)

theorem and_sffMask_le (x : BitVec 32) : (x &&& canSffMask).toNat ≤ 0x7FF := by
  rw [BitVec.toNat_and]
  exact Nat.and_le_right

theorem and_sffMask_twice (x : BitVec 32) : x &&& canSffMask &&& canSffMask = x &&& canSffMask := by
  rw [BitVec.and_assoc, BitVec.and_self]

theorem sffMask_and_rtrFlag (x : BitVec 32) : x &&& canSffMask &&& canRtrFlag = 0 := by
  rw [BitVec.and_assoc, show canSffMask &&& canRtrFlag = 0 by decide]
  exact BitVec.and_zero

theorem sffMask_sent (x : BitVec 32) : ((x &&& canSffMask) ||| canRtrFlag) &&& canSffMask = x &&& canSffMask := by
  rw [BitVec.and_or_distrib_right, and_sffMask_twice, show canRtrFlag &&& canSffMask = 0#32 by decide, BitVec.or_zero]

theorem rtrFlag_sent (x : BitVec 32) : ((x &&& canSffMask) ||| canRtrFlag) &&& canRtrFlag = canRtrFlag := by
  have hnone : x &&& canSffMask &&& canRtrFlag = 0#32 := sffMask_and_rtrFlag x
  rw [BitVec.and_or_distrib_right, hnone, BitVec.and_self, BitVec.zero_or]

/-! ### The frame in memory -/

theorem length_bytes (cf : CanFrame) : cf.bytes.length = canFrameSize := by
  simp [CanFrame.bytes, littleEndian, canFrameSize]

theorem ofBytes_bytes (cf : CanFrame) : CanFrame.ofBytes cf.bytes = cf := by
  have hlen : (littleEndian 4 cf.canId).length = 4 := by simp [littleEndian]
  have hid : fromLittleEndian 32 (cf.bytes.take 4) = cf.canId := by
    rw [CanFrame.bytes, List.append_assoc, List.take_left' hlen]
    exact fromLittleEndian_littleEndian (by decide) cf.canId
  have hrest : ∀ k, cf.bytes.getD (4 + k) 0 = ([cf.canDlc, 0, 0, 0] ++ cf.data.toList).getD k 0 := by
    intro k
    rw [CanFrame.bytes, List.append_assoc, List.getD_append_right _ _ _ _ (by rw [hlen]; exact Nat.le_add_right 4 k),
      hlen, Nat.add_sub_cancel_left]
  have hdlc : cf.bytes.getD 4 0 = cf.canDlc := hrest 0
  have hdata : (Vector.ofFn fun i : Fin 8 => cf.bytes.getD (8 + i) 0) = cf.data := by
    refine Vector.ext fun i hi => ?_
    rw [Vector.getElem_ofFn, show 8 + i = 4 + (4 + i) by omega, hrest,
      List.getD_append_right _ _ _ _ (Nat.le_add_right 4 i)]
    simp [List.getD_eq_getElem?_getD, hi]
  rw [CanFrame.ofBytes, hid, hdlc, hdata]

theorem bytes_injective {cf cf' : CanFrame} (h : cf.bytes = cf'.bytes) : cf = cf' := by
  rw [← ofBytes_bytes cf, h, ofBytes_bytes]

/-! ### Runs of the two calls -/

/-- Where `hal_can_send` is, with the frames that the socket `s` has sent. -/
def SendHolds (frame : HalCanFrame) (s : CanSocket) (sent : List (List Byte)) : CanSendPc → Prop
  | .fetch | .write _ => frame.dlc.toNat ≤ 8 ∧ s.sent = sent
  | .ret st => st = .ok → frame.dlc.toNat ≤ 8 ∧ s.sent = sent ++ [frame.toCanFrame.bytes]

section Runs
variable {frame : HalCanFrame} {s t : CanSocket} {sent : List (List Byte)}

theorem send_step {pc : CanSendPc} {req : Syscall} {resume : req.Result → CanSendPc} {res : req.Result}
    (h : SendHolds frame s sent pc) (hnext : (halCanSend frame).next pc = .call req resume)
    (hkernel : CanKernel s req res t) : SendHolds frame t sent (resume res) := by
  cases pc with
  | fetch =>
    cases hnext
    cases hkernel
    dsimp only
    split
    · exact nofun
    · exact h
  | write fd =>
    obtain ⟨hdlc, hsent⟩ := h
    cases hnext
    cases hkernel with
    | write =>
      rw [length_bytes]
      exact fun _ => ⟨hdlc, by rw [hsent]⟩
    | writeError herrno => exact fun hok => absurd hok (statusFromErrno_ne_ok herrno)
  | ret => cases hnext

/-- What `hal_can_send` has sent when it returns `HAL_OK`. -/
theorem send_ok {u : State (fun _ : Unit => CanSendPc) CanSocket} (hrun : RunAlone (halCanSend frame) CanKernel s u)
    (hret : Returned (fun _ : Unit => halCanSend frame) u () .ok) :
    frame.dlc.toNat ≤ 8 ∧ u.world.sent = s.sent ++ [frame.toCanFrame.bytes] := by
  have hstart : SendHolds frame s s.sent (halCanSend frame).entry := by
    rw [halCanSend]
    dsimp only
    split
    · exact nofun
    · exact ⟨Nat.le_of_not_lt ‹_›, rfl⟩
  refine hrun.post (P := fun w pc => SendHolds frame w s.sent pc)
    (Q := fun w st => st = .ok → frame.dlc.toNat ≤ 8 ∧ w.sent = s.sent ++ [frame.toCanFrame.bytes]) hret hstart
    (fun _ _ _ _ _ _ h hnext hkernel => send_step h hnext hkernel) (fun w pc st h hnext => ?_) rfl
  cases pc with
  | fetch | write => cases hnext
  | ret =>
    cases hnext
    exact h

/-- The frame that waits first is delivered as `g`. -/
def ReadAs (cf : CanFrame) (g : HalCanFrame) : Prop :=
  ∃ s rest timeoutMs t, s.pending = cf :: rest ∧ RunAlone (halCanReceive timeoutMs) CanKernel s t ∧
    Returned (fun _ : Unit => halCanReceive timeoutMs) t () (.ok, some g)

/-- Where `hal_can_receive` is: until it has read, the frame waits. -/
def ReceiveHolds (cf : CanFrame) (rest : List CanFrame) (s : CanSocket) : CanReceivePc → Prop
  | .fetch | .poll _ | .read _ => s.pending = cf :: rest
  | .ret _ frame => ∀ g, frame = some g → g = cf.toHalCanFrame

theorem receive_step {cf : CanFrame} {rest : List CanFrame} {timeoutMs : Int} {pc : CanReceivePc} {req : Syscall}
    {resume : req.Result → CanReceivePc} {res : req.Result} (h : ReceiveHolds cf rest s pc)
    (hnext : (halCanReceive timeoutMs).next pc = .call req resume) (hkernel : CanKernel s req res t) :
    ReceiveHolds cf rest t (resume res) := by
  cases pc with
  | fetch =>
    cases hnext
    cases hkernel
    dsimp only
    split
    · exact nofun
    · exact h
  | poll fd =>
    cases hnext
    cases hkernel with
    | poll hresult =>
      rcases waitFd_cases (.poll fd) (.read fd) (CanReceivePc.ret · none) res with heq | heq | ⟨st, heq⟩
      · rw [heq]
        exact h
      · rw [heq]
        exact h
      · rw [heq]
        exact nofun
  | read fd =>
    have hpending : s.pending = cf :: rest := h
    cases hnext
    cases hkernel with
    | read hfirst =>
      rw [hpending] at hfirst
      cases hfirst
      dsimp only
      rw [List.take_of_length_le (Nat.le_of_eq (length_bytes cf)), length_bytes, ofBytes_bytes]
      intro g hg
      exact (Option.some_inj.mp hg).symm
    | readError => exact nofun
  | ret => cases hnext

theorem readAs_iff {cf : CanFrame} {g : HalCanFrame} : ReadAs cf g ↔ g = cf.toHalCanFrame := by
  constructor
  · rintro ⟨s, rest, timeoutMs, u, hpending, hrun, hret⟩
    refine hrun.post (P := ReceiveHolds cf rest) (Q := fun _ value => ∀ g, value.2 = some g → g = cf.toHalCanFrame) hret
      hpending (fun _ _ _ _ _ _ h hnext hkernel => receive_step h hnext hkernel) (fun w pc value h hnext => ?_) g rfl
    cases pc with
    | fetch | poll | read => cases hnext
    | ret =>
      cases hnext
      exact h
  · rintro rfl
    have h₀ := RunAlone.start (halCanReceive 0) CanKernel ⟨true, none, [], [cf]⟩
    have h₁ := h₀.step rfl (5 : Int) .fetch
    have h₂ := h₁.step rfl (PollResult.ready ⟨false, false, false⟩) (.poll nofun)
    have h₃ := h₂.step rfl (Except.ok (cf.bytes.take canFrameSize)) (.read rfl)
    refine ⟨_, [], 0, _, rfl, h₃, ?_⟩
    have hwhole : cf.bytes.take canFrameSize = cf.bytes := List.take_of_length_le (Nat.le_of_eq (length_bytes cf))
    have hlen : ¬cf.bytes.length ≠ canFrameSize := not_not.mpr (length_bytes cf)
    show (halCanReceive 0).next (if (cf.bytes.take canFrameSize).length ≠ canFrameSize then .ret .io none
      else .ret .ok (some (CanFrame.ofBytes (cf.bytes.take canFrameSize)).toHalCanFrame)) = _
    rw [hwhole, if_neg hlen, ofBytes_bytes]
    rfl

end Runs

/-! ### From one handle to another -/

/-- Whenever `hal_can_send` returns `HAL_OK`, it has sent one frame, which is read back as `f`. -/
def CarriedOrRefused (f : HalCanFrame) : Prop :=
  ∀ s t, RunAlone (halCanSend f) CanKernel s t → Returned (fun _ : Unit => halCanSend f) t () .ok →
    ∃ cf, t.world.sent = s.sent ++ [cf.bytes] ∧ ∀ g, ReadAs cf g → Same f g

section Carried
variable {f : HalCanFrame}

/-- The identifier is cut to 11 bits, once and for all. -/
theorem readBack_id (f : HalCanFrame) : f.toCanFrame.toHalCanFrame.id = f.id &&& canSffMask := by
  rw [CanFrame.toHalCanFrame, HalCanFrame.toCanFrame]
  dsimp only
  split
  · exact sffMask_sent f.id
  · exact and_sffMask_twice f.id

theorem readBack_isRtr (f : HalCanFrame) : f.toCanFrame.toHalCanFrame.isRtr ≠ 0 ↔ f.isRtr ≠ 0 := by
  rw [CanFrame.toHalCanFrame, HalCanFrame.toCanFrame]
  dsimp only
  by_cases hrtr : f.isRtr = 0
  · have hnone : f.id &&& canSffMask &&& canRtrFlag = 0 := sffMask_and_rtrFlag f.id
    rw [if_neg (not_not.mpr hrtr), hnone]
    exact iff_of_false (by decide) (not_not.mpr hrtr)
  · rw [if_pos hrtr, rtrFlag_sent]
    exact iff_of_true (by decide) hrtr

theorem readBack_data (hdlc : f.dlc.toNat ≤ 8) (i : Fin 8) :
    f.toCanFrame.toHalCanFrame.data[i] = if i.val < f.dlc.toNat then f.data[i] else 0 := by
  have hmin : min f.dlc.toNat 8 = f.dlc.toNat := Nat.min_eq_left hdlc
  simp only [CanFrame.toHalCanFrame, HalCanFrame.toCanFrame, hmin, Fin.getElem_fin, Vector.getElem_ofFn]
  split <;> rfl

theorem same_readBack (hdlc : f.dlc.toNat ≤ 8) (hid : f.id.toNat ≤ 0x7FF) : Same f f.toCanFrame.toHalCanFrame where
  id := (readBack_id f).trans (and_sffMask_of_le hid)
  dlc := rfl
  isRtr := readBack_isRtr f
  data _ := readBack_data hdlc

theorem exists_send (hdlc : f.dlc.toNat ≤ 8) : ∃ t, RunAlone (halCanSend f) CanKernel .unbound t ∧
    Returned (fun _ : Unit => halCanSend f) t () .ok := by
  have hentry : (halCanSend f).entry = .fetch := if_neg (Nat.not_lt.mpr hdlc)
  have h₀ := RunAlone.start (halCanSend f) CanKernel .unbound
  rw [hentry] at h₀
  have h₁ := h₀.step rfl (5 : Int) .fetch
  have h₂ := h₁.step rfl (Except.ok f.toCanFrame.bytes.length) .write
  refine ⟨_, h₂, ?_⟩
  have hlen : ¬f.toCanFrame.bytes.length ≠ canFrameSize := not_not.mpr (length_bytes _)
  show (halCanSend f).next (if f.toCanFrame.bytes.length ≠ canFrameSize then .ret .io else .ret .ok) = _
  rw [if_neg hlen]
  rfl

theorem id_le_of_carried (h : CarriedOrRefused f) (hdlc : f.dlc.toNat ≤ 8) : f.id.toNat ≤ 0x7FF := by
  obtain ⟨t, hrun, hret⟩ := exists_send hdlc
  obtain ⟨cf, hsent, hread⟩ := h _ t hrun hret
  have hframe : cf = f.toCanFrame := by
    rw [(send_ok hrun hret).2, List.append_cancel_left_eq, List.singleton_inj] at hsent
    exact (bytes_injective hsent).symm
  have hsame := (hread _ (readAs_iff.mpr rfl)).id
  rw [hframe, readBack_id] at hsame
  exact hsame ▸ and_sffMask_le f.id

/-- A frame is refused, or read back as it was, exactly when `hal_can_send` refuses it for its length or its
    identifier has 11 bits. -/
theorem carried_iff (f : HalCanFrame) : CarriedOrRefused f ↔ 8 < f.dlc.toNat ∨ f.id.toNat ≤ 0x7FF := by
  constructor
  · intro h
    rcases Nat.lt_or_ge 8 f.dlc.toNat with hlong | hdlc
    · exact .inl hlong
    · exact .inr (id_le_of_carried h hdlc)
  · intro h s t hrun hret
    obtain ⟨hdlc, hsent⟩ := send_ok hrun hret
    have hid : f.id.toNat ≤ 0x7FF := h.resolve_left (Nat.not_lt.mpr hdlc)
    refine ⟨f.toCanFrame, hsent, fun g hg => ?_⟩
    rw [readAs_iff.mp hg]
    exact same_readBack hdlc hid

/-- Identifier 0x800 goes out as 0. -/
theorem sent_altered : ¬ ∀ f, CarriedOrRefused f := by
  intro h
  have hid := id_le_of_carried (h ⟨0x800, 0, Vector.replicate 8 0, 0⟩) (by decide)
  exact absurd hid (by decide)

end Carried

/-! ### From the bus to a handle -/

/-- The 11 bits of an identifier that are kept. -/
def lowBits : BusId → BitVec 11
  | .standard id => id
  | .extended id => id.setWidth 11

/-- A frame that waits is delivered as `g`. -/
def Delivers (s : CanSocket) (cf : CanFrame) (g : HalCanFrame) : Prop := cf ∈ s.pending ∧ ReadAs cf g

/-- A standard frame with identifier `f`. -/
def IsStandard (f : BitVec 11) (cf : CanFrame) : Prop := ∃ b : BusFrame, b.toCanFrame = cf ∧ b.id = .standard f

/-- All frames that are delivered are standard frames with identifier `f`, and reported as such. -/
def OnlyStandard (f : BitVec 11) (s : CanSocket) : Prop :=
  ∀ cf g, Delivers s cf g → IsStandard f cf ∧ g.id = f.setWidth 32

/-- Two frames are not reported with the same identifier. -/
def ToldApart (s : CanSocket) (b₁ b₂ : BusFrame) : Prop :=
  ∀ g₁ g₂, Delivers s b₁.toCanFrame g₁ → Delivers s b₂.toCanFrame g₂ → g₁.id ≠ g₂.id

/-- A frame that waits already, or arrives. -/
def Reaches (s : CanSocket) (frames : List BusFrame) (b : BusFrame) : Prop := b.toCanFrame ∈ s.pending ∨ b ∈ frames

/-- An extended frame whose identifier ends with `f`. -/
def Alias (f : BitVec 11) (b : BusFrame) : Prop := ∃ id : BitVec 29, b.id = .extended id ∧ id.setWidth 11 = f

section Bus
variable {config : HalCanConfig} {s t : CanSocket} {b : BusFrame} {f : BitVec 11}

theorem and_sffMask_eq (x : BitVec 32) : x &&& canSffMask = (x.setWidth 11).setWidth 32 := by
  refine BitVec.eq_of_toNat_eq ?_
  have hmask : canSffMask.toNat = 2 ^ 11 - 1 := rfl
  have hsmall : x.toNat % 2 ^ 11 < 2 ^ 32 := Nat.lt_of_lt_of_le (Nat.mod_lt _ (by decide)) (by decide)
  rw [BitVec.toNat_and, hmask, Nat.and_two_pow_sub_one_eq_mod, BitVec.toNat_setWidth, BitVec.toNat_setWidth,
    Nat.mod_eq_of_lt hsmall]

theorem canId_and_sffMask (b : BusFrame) : b.toCanFrame.canId &&& canSffMask = (lowBits b.id).setWidth 32 := by
  have hflag : (if b.rtr then canRtrFlag else 0) &&& canSffMask = 0#32 := by
    split
    · decide
    · exact BitVec.zero_and
  have hid : b.id.canId &&& canSffMask = (lowBits b.id).setWidth 32 := by
    cases b.id with
    | standard id =>
      have hlow : (id.setWidth 32).setWidth 11 = id := by
        rw [BitVec.setWidth_setWidth_of_le id (by decide), BitVec.setWidth_eq]
      rw [BusId.canId, and_sffMask_eq, hlow]
      rfl
    | extended id =>
      have hlow : (id.setWidth 32).setWidth 11 = id.setWidth 11 := BitVec.setWidth_setWidth_of_le id (by decide)
      rw [BusId.canId, BitVec.and_or_distrib_right, show canEffFlag &&& canSffMask = 0#32 by decide, BitVec.or_zero,
        and_sffMask_eq, hlow]
      rfl
  rw [BusFrame.toCanFrame]
  dsimp only
  rw [BitVec.and_or_distrib_right, hflag, BitVec.or_zero, hid]

theorem setWidth_injective {x y : BitVec 11} (h : x.setWidth 32 = y.setWidth 32) : x = y := by
  have hback : ∀ z : BitVec 11, (z.setWidth 32).setWidth 11 = z := fun z => by
    rw [BitVec.setWidth_setWidth_of_le _ (by decide), BitVec.setWidth_eq]
  rw [← hback x, h, hback]

/-- The top bit tells the format. -/
theorem canId_top (b : BusFrame) : b.toCanFrame.canId.getLsbD 31 = true ↔ ∃ id, b.id = .extended id := by
  have hflag : (if b.rtr then canRtrFlag else 0#32).getLsbD 31 = false := by
    split <;> decide
  have hframe : b.toCanFrame.canId = b.id.canId ||| if b.rtr then canRtrFlag else 0#32 := rfl
  rw [hframe, BitVec.getLsbD_or, hflag, Bool.or_false]
  cases b.id with
  | standard id =>
    have hbit : id.getLsbD 31 = false := BitVec.getLsbD_of_ge id 31 (by decide)
    rw [BusId.canId, BitVec.getLsbD_setWidth, hbit]
    exact iff_of_false (by decide) nofun
  | extended id =>
    rw [BusId.canId, BitVec.getLsbD_or, show canEffFlag.getLsbD 31 = true by decide, Bool.or_true]
    exact iff_of_true rfl ⟨id, rfl⟩

theorem isStandard_toCanFrame : IsStandard f b.toCanFrame ↔ b.id = .standard f := by
  constructor
  · rintro ⟨b', hsame, hstandard⟩
    have hlow : (lowBits b'.id).setWidth 32 = (lowBits b.id).setWidth 32 := by
      rw [← canId_and_sffMask, ← canId_and_sffMask, hsame]
    have htop := canId_top b'
    rw [hsame, canId_top b, hstandard] at htop
    rw [hstandard] at hlow
    cases hid : b.id with
    | standard id =>
      rw [hid] at hlow
      exact congrArg BusId.standard (setWidth_injective hlow).symm
    | extended id => exact absurd (htop.mp ⟨id, hid⟩) nofun
  · exact fun h => ⟨b, rfl, h⟩

/-- What is reported of a frame of the bus. -/
theorem delivered_id {g : HalCanFrame} (h : Delivers s b.toCanFrame g) : g.id = (lowBits b.id).setWidth 32 := by
  rw [readAs_iff.mp h.2]
  exact canId_and_sffMask b

/-! ### The filter -/

@[simp] theorem arrive_bound (s : CanSocket) (frames : List BusFrame) : (s.arrive frames).bound = s.bound := by
  unfold CanSocket.arrive
  split <;> rfl

@[simp] theorem arrive_filter (s : CanSocket) (frames : List BusFrame) : (s.arrive frames).filter = s.filter := by
  unfold CanSocket.arrive
  split <;> rfl

/-- The filter that `hal_can_open` sets. -/
def filterOf (config : HalCanConfig) : Option CanFilter :=
  if config.filterId ≠ 0 then some ⟨config.filterId, canSffMask⟩ else none

/-- Where `hal_can_open` is, with its socket. -/
def OpenHolds (config : HalCanConfig) (s : CanSocket) : CanOpenPc → Prop
  | .socket | .ifIndex _ | .bind _ _ => s.filter = none
  | .filter _ => s.bound = true ∧ config.filterId ≠ 0
  | .calloc _ => s.bound = true ∧ s.filter = filterOf config
  | .close _ _ => True
  | .ret _ fd => fd ≠ none → s.bound = true ∧ s.filter = filterOf config

theorem open_step {pc : CanOpenPc} {req : CanOpenCall} {resume : req.Result → CanOpenPc} {res : req.Result}
    (h : OpenHolds config s pc) (hnext : (halCanOpen config).next pc = .call req resume)
    (hkernel : CanOpenKernel s req res t) : OpenHolds config t (resume res) := by
  obtain ⟨u, frames, heffect, rfl⟩ := hkernel
  cases pc with
  | socket =>
    cases hnext
    cases heffect with
    | socket => exact (arrive_filter _ _).trans h
    | socketError => exact fun hne => absurd rfl hne
  | ifIndex fd =>
    cases hnext
    cases heffect with
    | ifIndex => exact (arrive_filter _ _).trans h
    | ifIndexError => exact trivial
  | bind fd ifindex =>
    cases hnext
    cases heffect with
    | bind =>
      dsimp only
      split
      · exact ⟨arrive_bound _ _, ‹_›⟩
      · refine ⟨arrive_bound _ _, (arrive_filter _ _).trans ?_⟩
        rw [filterOf, if_neg ‹_›]
        exact h
    | bindError => exact trivial
  | filter fd =>
    obtain ⟨hbound, hset⟩ := h
    cases hnext
    cases heffect with
    | setFilter =>
      refine ⟨(arrive_bound _ _).trans hbound, (arrive_filter _ _).trans ?_⟩
      rw [filterOf, if_pos hset]
    | setFilterError => exact trivial
  | calloc fd =>
    obtain ⟨hbound, hfilter⟩ := h
    cases hnext
    cases heffect
    dsimp only
    split
    · exact fun _ => ⟨(arrive_bound _ _).trans hbound, (arrive_filter _ _).trans hfilter⟩
    · exact trivial
  | close fd st =>
    cases hnext
    cases heffect
    exact fun hne => absurd rfl hne
  | ret => cases hnext

theorem opened_filter (hopen : Opened config s) : s.bound = true ∧ s.filter = filterOf config := by
  obtain ⟨u, fd, hrun, hret, rfl⟩ := hopen
  refine hrun.post (P := OpenHolds config)
    (Q := fun w value => value.2 ≠ none → w.bound = true ∧ w.filter = filterOf config)
    hret rfl (fun _ _ _ _ _ _ h hnext hkernel => open_step h hnext hkernel) (fun w pc value h hnext => ?_) nofun
  cases pc with
  | socket | ifIndex | bind | filter | calloc | close => cases hnext
  | ret =>
    cases hnext
    exact h

/-- A filter for `f` lets the frames pass that end with `f`, whatever their format. -/
theorem takes_iff (hopen : Opened config s) (hf : f ≠ 0) (hfilter : config.filterId = f.setWidth 32) :
    s.Takes b.toCanFrame ↔ lowBits b.id = f := by
  have hne : config.filterId ≠ 0 := by
    intro hzero
    exact hf (setWidth_injective (hfilter.symm.trans hzero))
  have hset : s.filter = some ⟨f.setWidth 32, canSffMask⟩ := by
    rw [(opened_filter hopen).2, filterOf, if_pos hne, hfilter]
  have hmask : f.setWidth 32 &&& canSffMask = f.setWidth 32 := by
    rw [and_sffMask_eq, BitVec.setWidth_setWidth_of_le f (by decide), BitVec.setWidth_eq]
  constructor
  · intro htakes
    have hpasses : b.toCanFrame.canId &&& canSffMask = f.setWidth 32 &&& canSffMask := htakes _ hset
    rw [canId_and_sffMask, hmask] at hpasses
    exact setWidth_injective hpasses
  · intro hlow flt hflt
    rw [hset, Option.some_inj] at hflt
    subst hflt
    show b.toCanFrame.canId &&& canSffMask = f.setWidth 32 &&& canSffMask
    rw [canId_and_sffMask, hmask, hlow]

theorem mem_arrive (hopen : Opened config s) {frames : List BusFrame} {cf : CanFrame} :
    cf ∈ (s.arrive frames).pending ↔ cf ∈ s.pending ∨ ∃ b ∈ frames, b.toCanFrame = cf ∧ s.Takes cf := by
  rw [CanSocket.arrive, if_pos (opened_filter hopen).1]
  dsimp only
  rw [List.mem_append, List.mem_filter, List.mem_map, decide_eq_true_eq]
  refine or_congr_right ⟨?_, ?_⟩
  · rintro ⟨⟨b, hb, hcf⟩, htakes⟩
    exact ⟨b, hb, hcf, htakes⟩
  · rintro ⟨b, hb, hcf, htakes⟩
    exact ⟨⟨b, hb, hcf⟩, htakes⟩

/-- A frame that ends with `f` has it as its standard identifier, or is an alias. -/
theorem standard_or_alias (hlow : lowBits b.id = f) : b.id = .standard f ∨ Alias f b := by
  cases hid : b.id with
  | standard id =>
    rw [hid] at hlow
    exact .inl (congrArg BusId.standard hlow)
  | extended id =>
    rw [hid] at hlow
    exact .inr ⟨id, hid, hlow⟩

/-- With a filter, the handle delivers only standard frames with its identifier exactly when no other frames came in
    before the filter was set, and no alias arrives. -/
theorem filtered_iff (hopen : Opened config s) (hf : f ≠ 0) (hfilter : config.filterId = f.setWidth 32)
    (frames : List BusFrame) :
    OnlyStandard f (s.arrive frames) ↔ (∀ cf ∈ s.pending, IsStandard f cf) ∧ ∀ b ∈ frames, ¬Alias f b := by
  constructor
  · intro h
    refine ⟨fun cf hcf => ?_, ?_⟩
    · exact (h cf _ ⟨(mem_arrive hopen).mpr (.inl hcf), readAs_iff.mpr rfl⟩).1
    · rintro b hb ⟨id, hid, hlow⟩
      have htakes : s.Takes b.toCanFrame := (takes_iff hopen hf hfilter).mpr (by rw [hid]; exact hlow)
      have hmem := (mem_arrive hopen).mpr (.inr ⟨b, hb, rfl, htakes⟩)
      have hstandard := isStandard_toCanFrame.mp (h _ _ ⟨hmem, readAs_iff.mpr rfl⟩).1
      rw [hid] at hstandard
      cases hstandard
  · rintro ⟨hearly, hlate⟩ cf g hdelivers
    have hstandard : IsStandard f cf := by
      rcases (mem_arrive hopen).mp hdelivers.1 with hcf | ⟨b, hb, rfl, htakes⟩
      · exact hearly cf hcf
      · have hlow := (takes_iff hopen hf hfilter).mp htakes
        exact isStandard_toCanFrame.mpr ((standard_or_alias hlow).resolve_right (hlate b hb))
    refine ⟨hstandard, ?_⟩
    obtain ⟨b, rfl, hid⟩ := hstandard
    rw [delivered_id hdelivers, hid]
    rfl

/-- Without a filter, two frames are told apart exactly when their identifiers differ in the low 11 bits. -/
theorem unfiltered_iff (hopen : Opened config s) (hfilter : config.filterId = 0) {frames : List BusFrame}
    {b₁ b₂ : BusFrame} (h₁ : Reaches s frames b₁) (h₂ : Reaches s frames b₂) :
    ToldApart (s.arrive frames) b₁ b₂ ↔ lowBits b₁.id ≠ lowBits b₂.id := by
  have htakes : ∀ cf, s.Takes cf := by
    intro cf flt hflt
    rw [(opened_filter hopen).2, filterOf, if_neg (not_not.mpr hfilter)] at hflt
    cases hflt
  have hdelivers : ∀ b, Reaches s frames b → Delivers (s.arrive frames) b.toCanFrame b.toCanFrame.toHalCanFrame :=
    fun b hb => ⟨(mem_arrive hopen).mpr (hb.imp_right fun hb => ⟨b, hb, rfl, htakes _⟩), readAs_iff.mpr rfl⟩
  constructor
  · intro h hlow
    have hne := h _ _ (hdelivers b₁ h₁) (hdelivers b₂ h₂)
    rw [delivered_id (hdelivers b₁ h₁), delivered_id (hdelivers b₂ h₂), hlow] at hne
    exact hne rfl
  · intro hlow g₁ g₂ hg₁ hg₂ heq
    rw [delivered_id hg₁, delivered_id hg₂] at heq
    exact hlow (setWidth_injective heq)

/-- What a handle reports of the frames that wait when it is opened, and of those that arrive on it. -/
theorem reported_iff (hopen : Opened config s) (frames : List BusFrame) :
    (∀ f : BitVec 11, f ≠ 0 → config.filterId = f.setWidth 32 →
      (OnlyStandard f (s.arrive frames) ↔ (∀ cf ∈ s.pending, IsStandard f cf) ∧ ∀ b ∈ frames, ¬Alias f b)) ∧
    (config.filterId = 0 → ∀ b₁ b₂, Reaches s frames b₁ → Reaches s frames b₂ →
      (ToldApart (s.arrive frames) b₁ b₂ ↔ lowBits b₁.id ≠ lowBits b₂.id)) :=
  ⟨fun _ hf hfilter => filtered_iff hopen hf hfilter frames,
    fun hfilter _ _ h₁ h₂ => unfiltered_iff hopen hfilter h₁ h₂⟩

end Bus

/-- A handle with a filter for identifier 5, before anything has arrived. -/
theorem opened_five : Opened ⟨[], 5⟩ ⟨true, some ⟨5, canSffMask⟩, [], []⟩ := by
  have h₀ := RunAlone.start (halCanOpen ⟨[], 5⟩) CanOpenKernel .unbound
  have h₁ := h₀.step rfl (Except.ok 3) ⟨_, [], .socket, rfl⟩
  have h₂ := h₁.step rfl (Except.ok 1) ⟨_, [], .ifIndex, rfl⟩
  have h₃ := h₂.step rfl (Except.ok ()) ⟨_, [], .bind, rfl⟩
  have h₄ := h₃.step rfl (Except.ok ()) ⟨_, [], .setFilter, rfl⟩
  have h₅ := h₄.step rfl true ⟨_, [], .calloc, rfl⟩
  exact ⟨_, 3, h₅, rfl, rfl⟩

/-- An empty data frame with an identifier. -/
def frameOf (id : BusId) : BusFrame := ⟨id, false, 0, Vector.replicate 8 0⟩

/-- Frames 5 and 6 arrive. -/
theorem reported_iff_five : OnlyStandard 5 (CanSocket.arrive ⟨true, some ⟨5, canSffMask⟩, [], []⟩
    [frameOf (.standard 5), frameOf (.standard 6)]) := by
  refine ((reported_iff opened_five _).1 5 (by decide) rfl).mpr ⟨nofun, fun b hb => ?_⟩
  rintro ⟨id, hid, -⟩
  rcases List.mem_cons.mp hb with rfl | hb
  · cases hid
  · rw [List.mem_singleton.mp hb] at hid
    cases hid

/-- Extended frame 0x805 passes the filter for 5 and is reported as 5. -/
theorem alias_reported :
    ¬ ∀ (config : HalCanConfig) (s : CanSocket) (f : BitVec 11) (frames : List BusFrame), Opened config s → f ≠ 0 →
      config.filterId = f.setWidth 32 → OnlyStandard f (s.arrive frames) := by
  intro h
  have honly := h _ _ 5 [frameOf (.extended 0x805)] opened_five (by decide) rfl
  obtain ⟨-, hlate⟩ := (filtered_iff opened_five (by decide) rfl _).mp honly
  exact hlate _ (List.mem_singleton_self _) ⟨0x805, rfl, by decide⟩

end CanFrames
end Hal
end Emberlite
