import Emberlite.Hal.I2c

/-! `hal_i2c_read_reg` and `hal_i2c_write_reg` on one handle. A register read is a write of the register pointer
    and a read of the data; nothing keeps the other calls off the bus between the two. -/

namespace Emberlite
namespace Hal
namespace I2cBus
open Interleave

/-- A device with registers: a write of one byte sets the register pointer. -/
structure Device (D : Type) where
  pointer : D → Byte
  -- So many bytes from a register on.
  contents : D → Byte → Nat → List Byte
  -- After a write of these bytes, and after a read of so many.
  write : D → List Byte → D
  read : D → Nat → D
  pointer_write : ∀ d reg, pointer (write d [reg]) = reg
  write_nil : ∀ d, write d [] = d
  length_contents : ∀ d reg n, (contents d reg n).length = n

/-- The register calls. -/
inductive RegCall where
  | readReg (reg : Byte) (len : Nat)
  | writeReg (reg : Byte) (data : List Byte)

/-- What a register call runs. -/
def RegCall.thread : RegCall → Thread Syscall Syscall.Result (Status × List Byte) I2cPc
  | .readReg reg len => halI2cReadReg reg len
  | .writeReg reg data => halI2cWriteReg reg data

section Bus
variable {C D : Type} (call : C → RegCall) (dev : Device D)

/-- What each call runs. -/
def busCalls (c : C) : Thread Syscall Syscall.Result (Status × List Byte) I2cPc := (call c).thread

/-- The device, and where the calls are. -/
abbrev Bus (C D : Type) := State (fun _ : C => I2cPc) D

/-- System calls on the descriptor of the handle. A write may stop early, with or without an error; a read returns
    data from the pointer. -/
inductive BusEnv (fd : Int) : C → D → (req : Syscall) → req.Result → D → Prop
  | fetch {c : C} {d : D} : BusEnv fd c d .fetch fd d
  | malloc {c : C} {d : D} {size : Nat} {allocated : Bool} : BusEnv fd c d (.malloc size) allocated d
  | write {c : C} {d : D} {bytes : List Byte} {w : Nat} : w ≤ bytes.length →
      BusEnv fd c d (.write fd bytes) (.ok w) (dev.write d (bytes.take w))
  | writeError {c : C} {d : D} {bytes : List Byte} {w : Nat} {errno : Errno} : w ≤ bytes.length → errno ≠ .none →
      BusEnv fd c d (.write fd bytes) (.error errno) (dev.write d (bytes.take w))
  | read {c : C} {d : D} {len n : Nat} : n ≤ len →
      BusEnv fd c d (.read fd len) (.ok (dev.contents d (dev.pointer d) n)) (dev.read d n)
  | readError {c : C} {d : D} {len : Nat} {errno : Errno} : errno ≠ .none →
      BusEnv fd c d (.read fd len) (.error errno) d

/-- A call of `hal_i2c_read_reg` has set the pointer to its register and has not read yet. -/
def InGap (s : Bus C D) (c : C) (reg : Byte) : Prop :=
  ∃ len fd data, call c = .readReg reg len ∧ s.locals c = .transfer fd [.read len] data

/-- The condition on a step: whatever it does to the device, the pointer stays where another call has set it. -/
def PointerKept (fd : Int) : Condition (fun _ : C => I2cPc) D Syscall.Result := fun s c req res =>
  ∀ e reg, e ≠ c → InGap call s e reg → ∀ d, BusEnv dev fd c s.world req res d → dev.pointer d = reg

/-- A call reads its data from a register that is not its own, and returns them. -/
def ReadsOther [DecidableEq C] (fd : Int) (s : Bus C D) : Prop :=
  ∃ e reg len data t, call e = .readReg reg len ∧ dev.pointer s.world ≠ reg ∧
    data = dev.contents s.world (dev.pointer s.world) len ∧
    Step (busCalls call) (BusEnv dev fd) s e (.read fd len) (.ok data) t ∧ Returned (busCalls call) t e (.ok, data)

/-- The transfers of a register call. -/
def RegCall.transfers : RegCall → List Transfer
  | .readReg reg len => [.write [reg], .read len]
  | .writeReg reg data => [.write (reg :: data)]

/-- Where a call can be. -/
def Fits (fd : Int) (r : RegCall) : I2cPc → Prop
  | .transfer fd' rest _ => fd' = fd ∧ rest <:+ r.transfers
  | .malloc fd' _ => fd' = fd ∧ ∀ reg len, r ≠ .readReg reg len
  | .fetch => True
  | .ret _ _ => True

variable {call dev} {fd : Int} {s t : Bus C D} {c : C}

theorem thread_eq (r : RegCall) : ∃ nothing copy, r.thread = i2cCall nothing copy r.transfers ∧
    ∀ reg len, r = .readReg reg len → copy = none := by
  cases r with
  | readReg reg len => exact ⟨_, none, rfl, fun _ _ _ => rfl⟩
  | writeReg reg data => exact ⟨_, some _, rfl, nofun⟩

theorem fits_step {r : RegCall} {pc : I2cPc} {req : Syscall} {resume : req.Result → I2cPc} {res : req.Result} {d d' : D}
    (h : Fits fd r pc) (hnext : r.thread.next pc = .call req resume) (henv : BusEnv dev fd c d req res d') :
    Fits fd r (resume res) := by
  obtain ⟨nothing, copy, hthread, hcopy⟩ := thread_eq r
  rw [hthread] at hnext
  cases pc with
  | fetch =>
    cases hnext
    cases henv
    dsimp only
    split
    · trivial
    · cases copy with
      | none => exact ⟨rfl, List.suffix_rfl⟩
      | some size => exact ⟨rfl, fun reg len hr => Option.some_ne_none _ (hcopy reg len hr)⟩
  | malloc fd' size =>
    obtain ⟨rfl, -⟩ := h
    cases hnext
    dsimp only
    split
    · exact ⟨rfl, List.suffix_rfl⟩
    · trivial
  | transfer fd' rest data =>
    obtain ⟨rfl, hrest⟩ := h
    rcases rest with _ | ⟨transfer, rest⟩
    · cases hnext
    · have htail : Fits fd' r (.transfer fd' rest data) := ⟨rfl, (List.suffix_cons transfer rest).trans hrest⟩
      cases transfer with
      | write bytes =>
        cases hnext
        cases henv with
        | writeError => trivial
        | write =>
          dsimp only
          split
          · trivial
          · exact htail
      | read len =>
        cases hnext
        cases henv with
        | readError => trivial
        | read =>
          dsimp only
          split
          · trivial
          · exact htail
  | ret => cases hnext

/-- What a step of `hal_i2c_read_reg` does: when it is through with the pointer, the pointer is set, and when it
    returns data, they come from the register that the pointer is at. -/
theorem readReg_step {reg : Byte} {len : Nat} {pc : I2cPc} {req : Syscall} {resume : req.Result → I2cPc}
    {res : req.Result} {d d' : D} (h : Fits fd (.readReg reg len) pc)
    (hnext : (halI2cReadReg reg len).next pc = .call req resume) (henv : BusEnv dev fd c d req res d') :
    (∀ fd' n data, resume res = .transfer fd' [.read n] data → dev.pointer d' = reg) ∧
    ∀ data, (halI2cReadReg reg len).next (resume res) = .ret (.ok, data) →
      (∃ fd' data', pc = .transfer fd' [.read len] data') ∧ data = dev.contents d (dev.pointer d) len := by
  cases pc with
  | fetch =>
    cases hnext
    dsimp only
    split
    · exact ⟨nofun, nofun⟩
    · exact ⟨nofun, nofun⟩
  | malloc =>
    obtain ⟨-, hne⟩ := h
    exact (hne reg len rfl).elim
  | ret => cases hnext
  | transfer fd' rest data =>
    obtain ⟨-, hrest⟩ := h
    rw [RegCall.transfers, List.suffix_cons_iff, List.suffix_cons_iff, List.suffix_nil] at hrest
    rcases hrest with rfl | rfl | rfl
    · cases hnext
      cases henv with
      | writeError _ herrno =>
        refine ⟨nofun, fun _ hret => ?_⟩
        obtain ⟨hst, -⟩ := Prod.mk.inj (Next.ret.inj hret)
        exact (statusFromErrno_ne_ok herrno hst).elim
      | write =>
        rename_i w _
        dsimp only
        split
        · exact ⟨nofun, nofun⟩
        · refine ⟨fun _ _ _ _ => ?_, nofun⟩
          obtain rfl : w = 1 := by simpa using ‹¬w ≠ _›
          exact dev.pointer_write d reg
    · cases hnext
      cases henv with
      | readError herrno =>
        refine ⟨nofun, fun _ hret => ?_⟩
        obtain ⟨hst, -⟩ := Prod.mk.inj (Next.ret.inj hret)
        exact (statusFromErrno_ne_ok herrno hst).elim
      | read hn =>
        dsimp only
        split
        · exact ⟨nofun, nofun⟩
        · refine ⟨nofun, fun data hret => ⟨⟨_, _, rfl⟩, ?_⟩⟩
          cases hret
          rename_i hlen
          rw [dev.length_contents, not_not] at hlen
          rw [hlen]
    · cases hnext

/-! ### Runs -/

/-- What the allowed steps keep. -/
structure BusInv (call : C → RegCall) (dev : Device D) (fd : Int) (s : Bus C D) : Prop where
  fits : ∀ c, Fits fd (call c) (s.locals c)
  pointer : ∀ c reg, InGap call s c reg → dev.pointer s.world = reg

theorem start_inv (d : D) : BusInv call dev fd (State.start (busCalls call) d) := by
  have hentry : ∀ c, ((busCalls call) c).entry = .fetch ∨ ((busCalls call) c).entry = .ret .ok [] := by
    intro c
    rw [busCalls]
    obtain ⟨nothing, copy, hthread, -⟩ := thread_eq (call c)
    rw [hthread, i2cCall]
    cases nothing
    · exact .inl rfl
    · exact .inr rfl
  refine ⟨fun c => ?_, ?_⟩
  · change Fits fd (call c) ((busCalls call) c).entry
    rcases hentry c with h | h <;> rw [h] <;> trivial
  · rintro c reg ⟨len, fd', data, -, hpc⟩
    change ((busCalls call) c).entry = _ at hpc
    rcases hentry c with h | h <;> cases h.symm.trans hpc

variable [DecidableEq C] {req : Syscall} {res : req.Result}

theorem step_fits (h : ∀ c, Fits fd (call c) (s.locals c)) (hstep : Step (busCalls call) (BusEnv dev fd) s c req res t)
    (e : C) : Fits fd (call e) (t.locals e) := by
  refine hstep.locals_inv (P := fun c pc => Fits fd (call c) pc) h (fun resume hnext henv => ?_) e
  exact fits_step (h c) hnext henv

theorem step_inv (h : BusInv call dev fd s) (hstep : Step (busCalls call) (BusEnv dev fd) s c req res t)
    (hallowed : PointerKept call dev fd s c req res) : BusInv call dev fd t := by
  refine ⟨step_fits h.fits hstep, ?_⟩
  rintro e reg ⟨len, fd', data, hcall, hpc⟩
  obtain ⟨resume, hnext, henv, hself, hother⟩ := hstep.elim
  by_cases he : e = c
  · subst he
    have hfits := h.fits e
    rw [busCalls, hcall] at hnext
    rw [hcall] at hfits
    obtain ⟨hgap, -⟩ := readReg_step hfits hnext henv
    exact hgap _ _ _ (hself.symm.trans hpc)
  · rw [hother e he] at hpc
    exact hallowed e reg he ⟨len, fd', data, hcall, hpc⟩ t.world henv

theorem step_delivers (h : BusInv call dev fd s) (hstep : Step (busCalls call) (BusEnv dev fd) s c req res t)
    {reg : Byte} {len : Nat} {data : List Byte} (hcall : call c = .readReg reg len)
    (hret : Returned (busCalls call) t c (.ok, data)) : data = dev.contents s.world reg len := by
  obtain ⟨resume, hnext, henv, hself, -⟩ := hstep.elim
  have hfits := h.fits c
  rw [busCalls, hcall] at hnext
  rw [hcall] at hfits
  rw [Returned, busCalls, hcall, hself] at hret
  obtain ⟨-, hdata⟩ := readReg_step hfits hnext henv
  obtain ⟨⟨fd', data', hpc⟩, hdata⟩ := hdata data hret
  rw [hdata, h.pointer c reg ⟨len, fd', data', hcall, hpc⟩]

/-- With what else the step may do to the device, the call in the gap reads from another register. -/
theorem readsOther_of_not_kept (h : BusInv call dev fd s) (hstep : Step (busCalls call) (BusEnv dev fd) s c req res t)
    (hforbidden : ¬PointerKept call dev fd s c req res) :
    ∃ t', Step (busCalls call) (BusEnv dev fd) s c req res t' ∧ ReadsOther call dev fd t' := by
  simp only [PointerKept, not_forall] at hforbidden
  obtain ⟨e, reg, he, ⟨len, fd', data, hcall, hpc⟩, d, henv, hpointer⟩ := hforbidden
  obtain ⟨resume, hnext, -⟩ := hstep.elim
  obtain ⟨rfl, -⟩ : fd' = fd ∧ _ := by
    have hfits := h.fits e
    rwa [hpc] at hfits
  refine ⟨⟨d, Function.update s.locals c (resume res)⟩, .mk hnext henv, ?_⟩
  have hgap : Function.update s.locals c (resume res) e = .transfer fd' [.read len] data := by
    rw [Function.update_of_ne he, hpc]
  obtain ⟨resume', hread, hend⟩ : ∃ resume', (busCalls call e).next (.transfer fd' [.read len] data) =
      .call (.read fd' len) resume' ∧
        ∀ bytes, bytes.length = len → (busCalls call e).next (resume' (.ok bytes)) = .ret (.ok, bytes) := by
    rw [busCalls, hcall]
    refine ⟨_, rfl, fun bytes hlen => ?_⟩
    dsimp only
    rw [if_neg (not_not.mpr hlen)]
    rfl
  refine ⟨e, reg, len, _, _, hcall, hpointer, rfl, .mk ((congrArg _ hgap).trans hread) (.read (Nat.le_refl len)), ?_⟩
  rw [Returned]
  dsimp only
  rw [Function.update_self]
  exact hend _ (dev.length_contents ..)

/-- In a run in which the pointer stays where a register read has set it, every register read that succeeds
    delivers its own register; a step that moves the pointer lets the call read another one. -/
theorem run_own_register {d : D} (hrun : Run (busCalls call) (BusEnv dev fd) (PointerKept call dev fd)
      (State.start (busCalls call) d) s) (hstep : Step (busCalls call) (BusEnv dev fd) s c req res t) :
    (∀ reg len data, call c = .readReg reg len → Returned (busCalls call) t c (.ok, data) →
      data = dev.contents s.world reg len) ∧
    (¬PointerKept call dev fd s c req res →
      ∃ t', Step (busCalls call) (BusEnv dev fd) s c req res t' ∧ ReadsOther call dev fd t') := by
  have h : BusInv call dev fd s :=
    hrun.inv (start_inv d) fun _ _ _ _ _ h hstep hallowed => step_inv h hstep hallowed
  exact ⟨fun _ _ _ hcall hret => step_delivers h hstep hcall hret, readsOther_of_not_kept h hstep⟩

end Bus

/-! ### Two registers -/

/-- Every register holds its own number. -/
def numbered : Device Byte where
  pointer d := d
  contents _ reg n := List.replicate n reg
  write d bytes := bytes.headD d
  read d _ := d
  pointer_write _ _ := rfl
  write_nil _ := rfl
  length_contents _ _ _ := List.length_replicate

/-- Two reads, of register 1 and of register 2. -/
def twoReads : Bool → RegCall
  | false => .readReg 1 1
  | true => .readReg 2 1

/-- The second call sets the pointer before the first reads. -/
theorem read_other_register : ¬∀ (s t : Bus Bool Byte) (c : Bool) (req : Syscall) (res : req.Result) (reg : Byte)
    (len : Nat) (data : List Byte),
    Run (busCalls twoReads) (BusEnv numbered 3) (fun _ _ _ _ => True) (State.start (busCalls twoReads) 0) s →
      Step (busCalls twoReads) (BusEnv numbered 3) s c req res t → twoReads c = .readReg reg len →
        Returned (busCalls twoReads) t c (.ok, data) → data = numbered.contents s.world reg len := by
  intro hclaim
  have h₀ : Run (busCalls twoReads) (BusEnv numbered 3) (fun _ _ _ _ => True) _ (State.start (busCalls twoReads) 0) :=
    .refl
  have h₁ := h₀.tail (c := false) (.mk rfl .fetch) trivial
  have h₂ := h₁.tail (c := true) (.mk rfl .fetch) trivial
  have h₃ := h₂.tail (c := false) (.mk rfl (.write (w := 1) (Nat.le_refl 1))) trivial
  have h₄ := h₃.tail (c := true) (.mk rfl (.write (w := 1) (Nat.le_refl 1))) trivial
  have hdata := hclaim _ _ false _ _ 1 1 [2] h₄ (.mk rfl (.read (n := 1) (Nat.le_refl 1))) rfl rfl
  revert hdata
  decide

/-- The same calls, one after the other. -/
theorem run_own_register_turns : ∃ s t : Bus Bool Byte,
    Run (busCalls twoReads) (BusEnv numbered 3) (PointerKept twoReads numbered 3) (State.start (busCalls twoReads) 0) s ∧
      Step (busCalls twoReads) (BusEnv numbered 3) s true (.read 3 1) (.ok [2]) t ∧
        [2] = numbered.contents s.world 2 1 := by
  have h₀ : Run (busCalls twoReads) (BusEnv numbered 3) (PointerKept twoReads numbered 3) _
      (State.start (busCalls twoReads) 0) := .refl
  have h₁ := h₀.tail (c := false) (.mk rfl .fetch) fun e _ he ⟨_, _, _, _, hpc⟩ _ _ => by
    cases e <;> first | exact (he rfl).elim | cases hpc
  have h₂ := h₁.tail (c := false) (.mk rfl (.write (w := 1) (Nat.le_refl 1))) fun e _ he ⟨_, _, _, _, hpc⟩ _ _ => by
    cases e <;> first | exact (he rfl).elim | cases hpc
  have h₃ := h₂.tail (c := false) (.mk rfl (.read (n := 1) (Nat.le_refl 1))) fun e _ he ⟨_, _, _, _, hpc⟩ _ _ => by
    cases e <;> first | exact (he rfl).elim | cases hpc
  have h₄ := h₃.tail (c := true) (.mk rfl .fetch) fun e _ he ⟨_, _, _, _, hpc⟩ _ _ => by
    cases e <;> first | exact (he rfl).elim | cases hpc
  have h₅ := h₄.tail (c := true) (.mk rfl (.write (w := 1) (Nat.le_refl 1))) fun e _ he ⟨_, _, _, _, hpc⟩ _ _ => by
    cases e <;> first | exact (he rfl).elim | cases hpc
  have hown := run_own_register h₅ (.mk (c := true) rfl (.read (n := 1) (Nat.le_refl 1)))
  exact ⟨_, _, h₅, .mk rfl (.read (n := 1) (Nat.le_refl 1)), hown.1 2 1 [2] rfl rfl⟩

end I2cBus
end Hal
end Emberlite
