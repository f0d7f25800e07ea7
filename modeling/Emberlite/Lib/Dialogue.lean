import Mathlib.Data.List.Basic

/-! Programs that put one request after the other to their environment and go on with its answers, what was said in
    their runs, and the runs of a program around a loop that may go on for ever. -/

/-- A computation that asks requests and goes on with the answers. -/
inductive Dialogue (Req : Type) (Res : Req → Type) (α : Type) where
  | ret (value : α)
  | ask (req : Req) (resume : Res req → Dialogue Req Res α)

namespace Dialogue
variable {Req : Type} {Res : Req → Type} {α β S T R : Type}

/-- One dialogue, and another that goes on from its value. -/
def bind : Dialogue Req Res α → (α → Dialogue Req Res β) → Dialogue Req Res β
  | ret value, f => f value
  | ask req resume, f => ask req fun res => (resume res).bind f

instance : Monad (Dialogue Req Res) where
  pure := ret
  bind := bind

/-- One request, and its answer as the value. -/
def request (req : Req) : Dialogue Req Res (Res req) := ask req ret

/-- A request and its answer. -/
abbrev Exchange (Req : Type) (Res : Req → Type) : Type := (req : Req) × Res req

/-- What was said in a run, and the value at its end. -/
inductive Ends : Dialogue Req Res α → List (Exchange Req Res) → α → Prop
  | ret (value : α) : Ends (ret value) [] value
  | ask {req : Req} {resume : Res req → Dialogue Req Res α} {res : Res req} {talk : List (Exchange Req Res)}
      {value : α} : Ends (resume res) talk value → Ends (ask req resume) (⟨req, res⟩ :: talk) value

variable {p : Dialogue Req Res α} {talk : List (Exchange Req Res)} {value : α}

@[simp] theorem ends_ret {w : α} : Ends (ret w : Dialogue Req Res α) talk value ↔ talk = [] ∧ value = w := by
  constructor
  · rintro ⟨⟩
    exact ⟨rfl, rfl⟩
  · rintro ⟨rfl, rfl⟩
    exact .ret value

@[simp] theorem ends_pure {w : α} : Ends (pure w : Dialogue Req Res α) talk value ↔ talk = [] ∧ value = w := ends_ret

@[simp] theorem ends_ask {req : Req} {resume : Res req → Dialogue Req Res α} :
    Ends (ask req resume) talk value ↔ ∃ res rest, talk = ⟨req, res⟩ :: rest ∧ Ends (resume res) rest value := by
  constructor
  · rintro (_ | hrest)
    exact ⟨_, _, rfl, hrest⟩
  · rintro ⟨res, rest, rfl, hrest⟩
    exact .ask hrest

@[simp] theorem ends_bind {f : α → Dialogue Req Res β} {b : β} :
    Ends (p >>= f) talk b ↔ ∃ talk₁ a talk₂, talk = talk₁ ++ talk₂ ∧ Ends p talk₁ a ∧ Ends (f a) talk₂ b := by
  induction p generalizing talk with
  | ret v =>
    constructor
    · exact fun h => ⟨[], v, talk, rfl, .ret v, h⟩
    · rintro ⟨talk₁, a, talk₂, rfl, hfirst, hrest⟩
      obtain ⟨rfl, rfl⟩ := ends_ret.mp hfirst
      exact hrest
  | ask req resume ih =>
    constructor
    · intro h
      obtain ⟨res, rest, rfl, hafter⟩ := ends_ask.mp h
      obtain ⟨talk₁, a, talk₂, rfl, hfirst, hrest⟩ := (ih res).mp hafter
      exact ⟨_ :: talk₁, a, talk₂, rfl, .ask hfirst, hrest⟩
    · rintro ⟨talk₁, a, talk₂, rfl, hfirst, hrest⟩
      obtain ⟨res, rest, rfl, hafter⟩ := ends_ask.mp hfirst
      exact .ask ((ih res).mpr ⟨rest, a, talk₂, rfl, hafter, hrest⟩)

@[simp] theorem ends_request {req : Req} {res : Res req} : Ends (request req) talk res ↔ talk = [⟨req, res⟩] := by
  constructor
  · intro h
    obtain ⟨res, rest, rfl, hrest⟩ := ends_ask.mp h
    obtain ⟨rfl, rfl⟩ := ends_ret.mp hrest
    rfl
  · rintro rfl
    exact .ask (.ret res)

theorem ends_request_bind {req : Req} {f : Res req → Dialogue Req Res β} {b : β} :
    Ends (request req >>= f) talk b ↔ ∃ res rest, talk = ⟨req, res⟩ :: rest ∧ Ends (f res) rest b := ends_ask

/-- The program makes requests of one kind only. -/
def Only (P : Req → Prop) : Dialogue Req Res α → Prop
  | ret _ => True
  | ask req resume => P req ∧ ∀ res, (resume res).Only P

@[simp] theorem only_pure {P : Req → Prop} (w : α) : (pure w : Dialogue Req Res α).Only P := trivial

@[simp] theorem only_request {P : Req → Prop} {req : Req} : (request req : Dialogue Req Res (Res req)).Only P ↔ P req :=
  ⟨fun h => h.1, fun h => ⟨h, fun _ => trivial⟩⟩

theorem Only.bind {P : Req → Prop} {f : α → Dialogue Req Res β} (hp : p.Only P) (hf : ∀ a, (f a).Only P) :
    (p >>= f).Only P := by
  induction p with
  | ret v => exact hf v
  | ask req resume ih => exact ⟨hp.1, fun res => ih res (hp.2 res)⟩

theorem Only.forall_mem {P : Req → Prop} (hp : p.Only P) (h : Ends p talk value) : ∀ e ∈ talk, P e.1 := by
  induction h with
  | ret => exact fun e he => absurd he List.not_mem_nil
  | ask _ ih =>
    intro e he
    rcases List.mem_cons.mp he with rfl | he
    · exact hp.1
    · exact ih (hp.2 _) e he

/-- The program ends with values of one kind only. -/
def Ensures (Q : α → Prop) : Dialogue Req Res α → Prop
  | ret v => Q v
  | ask _ resume => ∀ res, (resume res).Ensures Q

theorem Ensures.bind {Q : β → Prop} {f : α → Dialogue Req Res β} (p : Dialogue Req Res α) (hf : ∀ a, (f a).Ensures Q) :
    (p >>= f).Ensures Q := by
  induction p with
  | ret v => exact hf v
  | ask req resume ih => exact fun res => ih res

theorem Ensures.of_ends {Q : α → Prop} (hp : p.Ensures Q) (h : Ends p talk value) : Q value := by
  induction h with
  | ret => exact hp
  | ask _ ih => exact ih (hp _)

/-- The turns of a loop from one state to another; a turn ends with the next state, or with what the loop comes to. -/
inductive Turns (turn : S → Dialogue Req Res (S ⊕ T)) (s : S) : List (Exchange Req Res) → S → Prop
  | none : Turns turn s [] s
  | again {talk talk' : List (Exchange Req Res)} {t u : S} : Turns turn s talk t → Ends (turn t) talk' (.inl u) →
      Turns turn s (talk ++ talk') u

/-- A program that may give up at its start, and otherwise goes round a loop before it finishes. -/
structure Looped (Req : Type) (Res : Req → Type) (S T R : Type) where
  start : Dialogue Req Res (R ⊕ S)
  turn : S → Dialogue Req Res (S ⊕ T)
  finish : T → Dialogue Req Res R

/-- The runs to the end. -/
inductive Looped.Runs (p : Looped Req Res S T R) : List (Exchange Req Res) → R → Prop
  | early {talk : List (Exchange Req Res)} {r : R} : Ends p.start talk (.inl r) → p.Runs talk r
  | full {talk₀ talk₁ talk₂ talk₃ : List (Exchange Req Res)} {s t : S} {last : T} {r : R} :
      Ends p.start talk₀ (.inr s) → Turns p.turn s talk₁ t → Ends (p.turn t) talk₂ (.inr last) →
      Ends (p.finish last) talk₃ r → p.Runs (talk₀ ++ talk₁ ++ talk₂ ++ talk₃) r

end Dialogue
