import Emberlite.Hal.Gpio
import Mathlib.Data.List.Perm.Basic

/-! `hal_gpio_read`, `hal_gpio_write` and `hal_gpio_toggle` at the same time on one output handle. They share the
    offset of the descriptor, and a toggle writes what it has made of an earlier read. -/

namespace Emberlite
namespace Hal
namespace GpioPin
open Interleave

/-- The calls on one pin. -/
inductive GpioCall where
  | read
  | write (level : Byte)
  | toggle
  deriving DecidableEq, Repr

/-- Where a call is. -/
abbrev GpioCall.Local : GpioCall → Type
  | .read => GpioReadPc
  | .write _ => GpioWritePc
  | .toggle => GpioReadPc ⊕ (Status × Option Byte) × GpioWritePc

/-- A call on a handle that was opened for output. -/
def GpioCall.thread : (r : GpioCall) → Thread Syscall Syscall.Result (Status × Option Byte) r.Local
  | .read => halGpioRead
  | .write level => (halGpioWrite 1 level).map (·, none)
  | .toggle => (halGpioToggle 1).map (·, none)

/-- The level of the pin, and the offset of the descriptor. -/
structure Pin where
  level : Bool
  offset : Nat
  deriving DecidableEq, Repr

/-- What the file of the pin holds: `0` or `1`, and a newline. -/
def Pin.file (p : Pin) : List Byte := [if p.level then 0x31 else 0x30, 0x0A]

/-- System calls on the descriptor of the handle; a `write` of one character sets the level. -/
inductive PinEnv {C : Type} (fd : Int) : C → Pin → (req : Syscall) → req.Result → Pin → Prop
  | fetch {c : C} {p : Pin} : PinEnv fd c p .fetch fd p
  | lseek {c : C} {p : Pin} : PinEnv fd c p (.lseek fd) (.ok ()) { p with offset := 0 }
  | read {c : C} {p : Pin} {count : Nat} {data : List Byte} : data = (p.file.drop p.offset).take count →
      PinEnv fd c p (.read fd count) (.ok data) { p with offset := p.offset + data.length }
  | write {c : C} {p : Pin} {char : Byte} : PinEnv fd c p (.write fd [char]) (.ok 1) ⟨char = 0x31, p.offset + 1⟩

/-! ### One call after the other -/

/-- The level as the calls pass it. -/
def levelByte (b : Bool) : Byte := if b then 1 else 0

/-- What a call by itself returns, and the level after it. -/
def GpioCall.seq : GpioCall → Bool → (Status × Option Byte) × Bool
  | .read, b => ((.ok, some (levelByte b)), b)
  | .write level, _ => ((.ok, none), level ≠ 0)
  | .toggle, b => ((.ok, none), !b)

/-- What calls return that are made one after the other, and the level after them. -/
def sequential {C : Type} (call : C → GpioCall) : Bool → List C → List (C × Status × Option Byte) × Bool
  | b, [] => ([], b)
  | b, c :: cs =>
    let result := (call c).seq b
    let rest := sequential call result.2 cs
    ((c, result.1) :: rest.1, rest.2)

section Calls
variable {C : Type} {call : C → GpioCall}

variable (call)

/-- What each call runs. -/
def gpioCalls (c : C) : Thread Syscall Syscall.Result (Status × Option Byte) (call c).Local := (call c).thread

/-- The pin, and where the calls are. -/
abbrev Pins := State (fun c => (call c).Local) Pin

/-- A call has made its last system call. -/
def GpioCall.Done : (r : GpioCall) → r.Local → Prop
  | .read, pc => ∃ st level, pc = .ret st level
  | .write _, pc => ∃ st, pc = .ret st
  | .toggle, pc => ∃ seen st, pc = .inr (seen, .ret st)

/-- A call that reads is at the start of the file, or would read the same further on; a toggle that writes has seen
    the level that the pin still has. -/
def GpioCall.seesLevel : (r : GpioCall) → r.Local → Pin → Prop
  | .read, .read _, p => p.offset = 0 ∨ p.level = false
  | .toggle, .inr ((_, some v), .write _), p => v = levelByte p.level
  | _, _, _ => True

/-- A toggle goes on only when its read has succeeded. -/
def GpioCall.Fits : (r : GpioCall) → r.Local → Prop
  | .toggle, .inl (.ret st v) => st = .ok ∧ ∃ b, v = some (levelByte b)
  | .toggle, .inr ((st, v), _) => st = .ok ∧ ∃ b, v = some (levelByte b)
  | _, _ => True

variable {call} {fd : Int} {p p' : Pin} {c : C} {req : Syscall} {res : req.Result}

/-- Past the start of the file a call reads the newline or nothing, and takes the level for 0. -/
def Pin.seen (p : Pin) : Bool := p.offset = 0 && p.level

theorem read_char (p : Pin) :
    (if ((p.file.drop p.offset).take 1).headD 0 = 0x31 then 1 else 0 : Byte) = levelByte p.seen := by
  obtain ⟨level, offset⟩ := p
  rcases offset with _ | _ | offset
  · cases level <;> decide
  · cases level <;> decide
  · simp [Pin.file, Pin.seen, levelByte]

theorem seen_eq (h : p.offset = 0 ∨ p.level = false) : p.seen = p.level := by
  rcases h with h | h <;> simp [Pin.seen, h]

theorem read_step {pc : GpioReadPc} {resume : req.Result → GpioReadPc} (hfd : 0 ≤ fd)
    (hnext : halGpioRead.next pc = .call req resume) (henv : PinEnv fd c p req res p') :
    p'.level = p.level ∧ (∀ st v, pc ≠ .ret st v) ∧ ((∀ st v, resume res ≠ .ret st v) ∨
      (∃ fd', pc = .read fd') ∧ resume res = .ret .ok (some (levelByte p.seen))) := by
  cases pc with
  | fetch =>
    cases hnext
    cases henv
    dsimp only
    rw [if_neg (Int.not_lt.mpr hfd)]
    exact ⟨rfl, nofun, .inl nofun⟩
  | lseek =>
    cases hnext
    cases henv
    exact ⟨rfl, nofun, .inl nofun⟩
  | read =>
    cases hnext
    cases henv with
    | read hdata =>
      refine ⟨rfl, nofun, .inr ⟨⟨_, rfl⟩, ?_⟩⟩
      dsimp only
      rw [hdata, read_char]
  | ret => cases hnext

theorem write_step {level : Byte} {pc : GpioWritePc} {resume : req.Result → GpioWritePc} (hfd : 0 ≤ fd)
    (hnext : (halGpioWrite 1 level).next pc = .call req resume) (henv : PinEnv fd c p req res p') :
    (∀ st, pc ≠ .ret st) ∧ (p'.level = p.level ∧ (∀ st, resume res ≠ .ret st) ∨
      (∃ fd', pc = .write fd') ∧ resume res = .ret .ok ∧ p'.level = decide (level ≠ 0)) := by
  cases pc with
  | fetch =>
    cases hnext
    cases henv
    dsimp only
    rw [if_neg (Int.not_lt.mpr hfd)]
    exact ⟨nofun, .inl ⟨rfl, nofun⟩⟩
  | lseek =>
    cases hnext
    cases henv
    exact ⟨nofun, .inl ⟨rfl, nofun⟩⟩
  | write =>
    cases hnext
    cases henv
    refine ⟨nofun, .inr ⟨⟨_, rfl⟩, rfl, ?_⟩⟩
    by_cases hlevel : level = 0 <;> simp [hlevel]
  | ret => cases hnext

/-- The steps of the two parts of a toggle: those of the read leave the level as it is. -/
theorem toggle_step {pc : GpioCall.toggle.Local} {resume : req.Result → GpioCall.toggle.Local} (hfd : 0 ≤ fd)
    (h : GpioCall.toggle.Fits pc) (hnext : GpioCall.toggle.thread.next pc = .call req resume)
    (henv : PinEnv fd c p req res p') :
    GpioCall.toggle.Fits (resume res) ∧ ¬GpioCall.toggle.Done pc ∧
      (p'.level = p.level ∧ ¬GpioCall.toggle.Done (resume res) ∨
        GpioCall.toggle.Done (resume res) ∧ (GpioCall.toggle.seesLevel pc p →
          GpioCall.toggle.thread.next (resume res) = .ret (GpioCall.toggle.seq p.level).1 ∧
            p'.level = (GpioCall.toggle.seq p.level).2)) := by
  rcases Thread.andThen_call (Thread.map_call hnext) with ⟨l, k, rfl, hread, rfl⟩ | ⟨l, v, k, rfl, hread, hwrite, rfl⟩ |
    ⟨⟨st, v⟩, l, k, rfl, hwrite, rfl⟩
  · obtain ⟨hlevel, -, hread⟩ := read_step hfd hread henv
    refine ⟨?_, nofun, .inl ⟨hlevel, nofun⟩⟩
    rcases hread with hnone | ⟨-, hret⟩
    · cases hk : k res with
      | ret st v => exact (hnone st v hk).elim
      | fetch | lseek | read =>
        dsimp only
        rw [hk]
        trivial
    · dsimp only
      rw [hret]
      exact ⟨rfl, _, rfl⟩
  · obtain ⟨st, v, rfl⟩ : ∃ st v', l = .ret st v' := by
      cases l with
      | ret st v' => exact ⟨st, v', rfl⟩
      | fetch | lseek | read => cases hread
    cases hread
    obtain ⟨rfl, hv⟩ := h
    obtain ⟨-, hwrite⟩ := write_step hfd hwrite henv
    rcases hwrite with ⟨hlevel, hnone⟩ | ⟨⟨fd', hpc⟩, -⟩
    · refine ⟨⟨rfl, hv⟩, nofun, .inl ⟨hlevel, ?_⟩⟩
      rintro ⟨seen, st, heq⟩
      exact hnone st (Prod.mk.inj (Sum.inr.inj heq)).2
    · cases hpc
  · obtain ⟨rfl, b, rfl⟩ := h
    obtain ⟨hpc, hwrite⟩ := write_step hfd hwrite henv
    refine ⟨⟨rfl, b, rfl⟩, fun ⟨seen, st, heq⟩ => hpc st (Prod.mk.inj (Sum.inr.inj heq)).2, ?_⟩
    rcases hwrite with ⟨hlevel, hnone⟩ | ⟨⟨fd', rfl⟩, hret, hlevel⟩
    · exact .inl ⟨hlevel, fun ⟨seen, st, heq⟩ => hnone st (Prod.mk.inj (Sum.inr.inj heq)).2⟩
    · refine .inr ⟨⟨_, .ok, congrArg (fun pc => Sum.inr (_, pc)) hret⟩, fun hsees => ⟨?_, ?_⟩⟩
      · dsimp only
        rw [hret]
        rfl
      · have hb : levelByte b = levelByte p.level := hsees
        rw [hlevel, Option.getD_some, hb, GpioCall.seq]
        cases p.level <;> rfl

/-- A step of a call leaves the level as it is, or it is the last one and, if it is allowed, does what the call does
    by itself. -/
theorem call_step {r : GpioCall} {pc : r.Local} {resume : req.Result → r.Local} (hfd : 0 ≤ fd) (h : r.Fits pc)
    (hnext : r.thread.next pc = .call req resume) (henv : PinEnv fd c p req res p') :
    r.Fits (resume res) ∧ ¬r.Done pc ∧
      (p'.level = p.level ∧ ¬r.Done (resume res) ∨
        r.Done (resume res) ∧ (r.seesLevel pc p →
          r.thread.next (resume res) = .ret (r.seq p.level).1 ∧ p'.level = (r.seq p.level).2)) := by
  cases r with
  | read =>
    obtain ⟨hlevel, hpc, hread⟩ := read_step hfd hnext henv
    refine ⟨trivial, fun ⟨st, v, heq⟩ => hpc st v heq, ?_⟩
    rcases hread with hnone | ⟨⟨fd', rfl⟩, hret⟩
    · exact .inl ⟨hlevel, fun ⟨st, v, heq⟩ => hnone st v heq⟩
    · refine .inr ⟨⟨_, _, hret⟩, fun hsees => ⟨?_, hlevel⟩⟩
      rw [hret, seen_eq hsees]
      rfl
  | write level =>
    obtain ⟨hpc, hwrite⟩ := write_step hfd (Thread.map_call hnext) henv
    refine ⟨trivial, fun ⟨st, heq⟩ => hpc st heq, ?_⟩
    rcases hwrite with ⟨hlevel, hnone⟩ | ⟨-, hret, hlevel⟩
    · exact .inl ⟨hlevel, fun ⟨st, heq⟩ => hnone st heq⟩
    · refine .inr ⟨⟨_, hret⟩, fun _ => ⟨?_, ?_⟩⟩
      · rw [hret]
        rfl
      · rw [hlevel]
        rfl
  | toggle => exact toggle_step hfd h hnext henv

/-- The calls that are through, in the order of their last system calls. -/
structure InOrder (call : C → GpioCall) (b : Bool) (s : Pins call) (order : List C) : Prop where
  nodup : order.Nodup
  mem : ∀ c, c ∈ order ↔ (call c).Done (s.locals c)
  level : s.world.level = (sequential call b order).2
  values : ∀ c v, Returned (gpioCalls call) s c v → (c, v) ∈ (sequential call b order).1

variable [DecidableEq C] {s t : Pins call} {b : Bool}

theorem step_fits (hfd : 0 ≤ fd) (h : ∀ c, (call c).Fits (s.locals c))
    (hstep : Step (gpioCalls call) (PinEnv fd) s c req res t) (d : C) : (call d).Fits (t.locals d) := by
  refine hstep.locals_inv (P := fun c pc => (call c).Fits pc) h (fun resume hnext henv => ?_) d
  obtain ⟨hfits, -⟩ := call_step hfd (h c) hnext henv
  exact hfits

end Calls

/-! ### Two toggles -/

end GpioPin
end Hal
end Emberlite
