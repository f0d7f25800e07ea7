import Mathlib.Logic.Function.Basic
import Mathlib.Logic.Relation

/-! Calls that run at the same time, one request to their environment after the other.

    A call is a local state that either has returned or waits for the result of a request; what the environment
    answers, and how its own state changes, is a relation. A schedule picks any call at any time. -/

namespace Interleave

/-- What a call does next: it returns, or makes a request and goes on with the result. -/
inductive Next (Req : Type) (Res : Req → Type) (Ret Local : Type) where
  | ret (value : Ret)
  | call (req : Req) (resume : Res req → Local)

/-- A call. -/
structure Thread (Req : Type) (Res : Req → Type) (Ret Local : Type) where
  entry : Local
  next : Local → Next Req Res Ret Local

/-- One call after the other, the second with what the first returned. -/
def Thread.andThen {Req V Ret L L' : Type} {Res : Req → Type} (first : Thread Req Res V L)
    (second : V → Thread Req Res Ret L') : Thread Req Res Ret (L ⊕ V × L') where
  entry := .inl first.entry
  next
    | .inl l =>
      match first.next l with
      | .call req resume => .call req fun res => .inl (resume res)
      | .ret v =>
        match (second v).next (second v).entry with
        | .call req resume => .call req fun res => .inr (v, resume res)
        | .ret value => .ret value
    | .inr (v, l) =>
      match (second v).next l with
      | .call req resume => .call req fun res => .inr (v, resume res)
      | .ret value => .ret value

/-- The same call, its value passed through a function. -/
def Thread.map {Req Ret Ret' L : Type} {Res : Req → Type} (f : Ret → Ret') (thread : Thread Req Res Ret L) :
    Thread Req Res Ret' L where
  entry := thread.entry
  next l :=
    match thread.next l with
    | .call req resume => .call req resume
    | .ret value => .ret (f value)

/-- The same call among calls that make other requests too. -/
def Thread.lift {Req Req' Ret L : Type} {Res : Req → Type} {Res' : Req' → Type} (f : Req → Req')
    (g : (req : Req) → Res' (f req) → Res req) (thread : Thread Req Res Ret L) : Thread Req' Res' Ret L where
  entry := thread.entry
  next l :=
    match thread.next l with
    | .call req resume => .call (f req) fun res => resume (g req res)
    | .ret value => .ret value

section Combine
variable {Req V Ret Ret' L L' : Type} {Res : Req → Type} {req : Req}

theorem Thread.map_call {f : Ret → Ret'} {thread : Thread Req Res Ret L} {l : L} {resume : Res req → L}
    (h : (thread.map f).next l = .call req resume) : thread.next l = .call req resume := by
  cases hnext : thread.next l <;> simp only [Thread.map, hnext] at h
  · cases h
  · cases h
    rfl

theorem Thread.map_of_ret (f : Ret → Ret') {thread : Thread Req Res Ret L} {l : L} {value : Ret}
    (h : thread.next l = .ret value) : (thread.map f).next l = .ret (f value) := by
  simp only [Thread.map, h]

theorem Thread.map_of_call (f : Ret → Ret') {thread : Thread Req Res Ret L} {l : L} {resume : Res req → L}
    (h : thread.next l = .call req resume) : (thread.map f).next l = .call req resume := by
  simp only [Thread.map, h]

section Lift
variable {Req' : Type} {Res' : Req' → Type} {f : Req → Req'} {g : (req : Req) → Res' (f req) → Res req}
  {thread : Thread Req Res Ret L} {l : L}

theorem Thread.lift_call {req' : Req'} {resume' : Res' req' → L} (h : (thread.lift f g).next l = .call req' resume') :
    ∃ req resume, thread.next l = .call req resume ∧
      (⟨req', resume'⟩ : (req' : Req') × (Res' req' → L)) = ⟨f req, fun res => resume (g req res)⟩ := by
  cases hnext : thread.next l with
  | ret value =>
    simp only [Thread.lift, hnext] at h
    cases h
  | call req resume =>
    simp only [Thread.lift, hnext] at h
    cases h
    exact ⟨req, resume, rfl, rfl⟩

theorem Thread.lift_of_call {resume : Res req → L} (h : thread.next l = .call req resume) :
    (thread.lift f g).next l = .call (f req) fun res => resume (g req res) := by
  simp only [Thread.lift, h]

end Lift

theorem Thread.andThen_call {first : Thread Req Res V L} {second : V → Thread Req Res Ret L'} {l : L ⊕ V × L'}
    {resume : Res req → L ⊕ V × L'} (h : (first.andThen second).next l = .call req resume) :
    (∃ l' k, l = .inl l' ∧ first.next l' = .call req k ∧ resume = fun res => .inl (k res)) ∨
    (∃ l' v k, l = .inl l' ∧ first.next l' = .ret v ∧ (second v).next (second v).entry = .call req k ∧
      resume = fun res => .inr (v, k res)) ∨
    ∃ v l' k, l = .inr (v, l') ∧ (second v).next l' = .call req k ∧ resume = fun res => .inr (v, k res) := by
  rcases l with l' | ⟨v, l'⟩
  · cases hfirst : first.next l' with
    | call req' k =>
      simp only [Thread.andThen, hfirst] at h
      cases h
      exact .inl ⟨l', k, rfl, hfirst, rfl⟩
    | ret v =>
      cases hsecond : (second v).next (second v).entry <;> simp only [Thread.andThen, hfirst, hsecond] at h
      · cases h
      · cases h
        exact .inr (.inl ⟨l', v, _, rfl, hfirst, hsecond, rfl⟩)
  · cases hsecond : (second v).next l' <;> simp only [Thread.andThen, hsecond] at h
    · cases h
    · cases h
      exact .inr (.inr ⟨v, l', _, rfl, hsecond, rfl⟩)

end Combine

/-- The state of the environment, and the local states of the calls. -/
structure State {C : Type} (Local : C → Type) (W : Type) where
  world : W
  locals : (c : C) → Local c

section Runs
variable {C W Req Ret : Type} {Res : Req → Type} {Local : C → Type}

/-- A condition on a request before it is made, and on its result. -/
abbrev Condition (Local : C → Type) (W : Type) (Res : Req → Type) : Type :=
  State Local W → C → (req : Req) → Res req → Prop

variable (calls : (c : C) → Thread Req Res Ret (Local c)) (env : C → W → (req : Req) → Res req → W → Prop)

/-- Every call is at its entry. -/
def State.start (world : W) : State Local W := ⟨world, fun c => (calls c).entry⟩

/-- A call has returned this value. -/
def Returned (s : State Local W) (c : C) (value : Ret) : Prop := (calls c).next (s.locals c) = .ret value

variable [DecidableEq C]

/-- A request of call `c` and its result. -/
inductive Step (s : State Local W) (c : C) (req : Req) (res : Res req) : State Local W → Prop
  | mk {world : W} {resume : Res req → Local c} : (calls c).next (s.locals c) = .call req resume →
      env c s.world req res world → Step s c req res ⟨world, Function.update s.locals c (resume res)⟩

/-- A run whose steps all meet the condition. -/
def Run (allowed : Condition Local W Res) : State Local W → State Local W → Prop :=
  Relation.ReflTransGen fun s t => ∃ c req res, Step calls env s c req res t ∧ allowed s c req res

variable {calls env} {s t u : State Local W} {c : C} {req : Req} {res : Res req} {allowed : Condition Local W Res}

theorem Step.elim (h : Step calls env s c req res t) : ∃ resume, (calls c).next (s.locals c) = .call req resume ∧
    env c s.world req res t.world ∧ t.locals c = resume res ∧ ∀ d, d ≠ c → t.locals d = s.locals d := by
  obtain ⟨hnext, henv⟩ := h
  exact ⟨_, hnext, henv, Function.update_self .., fun _ hd => Function.update_of_ne hd _ _⟩

variable (env) in
theorem exists_step {world : W} {resume : Res req → Local c} (hnext : (calls c).next (s.locals c) = .call req resume)
    (henv : env c s.world req res world) : ∃ t, Step calls env s c req res t ∧ t.world = world ∧
      t.locals c = resume res ∧ ∀ d, d ≠ c → t.locals d = s.locals d :=
  ⟨_, .mk hnext henv, rfl, Function.update_self .., fun _ hd => Function.update_of_ne hd _ _⟩

/-- What every call keeps by its own steps, all calls keep. -/
theorem Step.locals_inv {P : (c : C) → Local c → Prop} (h : Step calls env s c req res t) (hs : ∀ d, P d (s.locals d))
    (hown : ∀ resume, (calls c).next (s.locals c) = .call req resume → env c s.world req res t.world → P c (resume res))
    (d : C) : P d (t.locals d) := by
  obtain ⟨resume, hnext, henv, hself, hother⟩ := h.elim
  by_cases hd : d = c
  · subst hd
    rw [hself]
    exact hown resume hnext henv
  · rw [hother d hd]
    exact hs d

theorem Run.tail (hrun : Run calls env allowed s t) (hstep : Step calls env t c req res u)
    (hallowed : allowed t c req res) : Run calls env allowed s u :=
  Relation.ReflTransGen.tail hrun ⟨c, req, res, hstep, hallowed⟩

/-- What holds at the start and is kept by every allowed step holds wherever an allowed run leads. -/
theorem Run.inv {Inv : State Local W → Prop} (hrun : Run calls env allowed s t) (hstart : Inv s)
    (hstep : ∀ s t c req res, Inv s → Step calls env s c req res t → allowed s c req res → Inv t) : Inv t := by
  induction hrun with
  | refl => exact hstart
  | tail _ hlast ih =>
    obtain ⟨c, req, res, hlast, hallowed⟩ := hlast
    exact hstep _ _ c req res ih hlast hallowed

end Runs

/-! ### One call alone -/

section Alone
variable {W Req Ret L : Type} {Res : Req → Type}

/-- What a call on its own, its local state `l` and the world `w`, may come to. -/
def RunAlone (thread : Thread Req Res Ret L) (env : W → (req : Req) → Res req → W → Prop) (w : W) :
    State (fun _ : Unit => L) W → Prop :=
  Run (fun _ => thread) (fun _ => env) (fun _ _ _ _ => True) (State.start (fun _ => thread) w)

section Extend
variable {thread : Thread Req Res Ret L} {env : W → (req : Req) → Res req → W → Prop} {w u : W} {l : L}

theorem RunAlone.start (thread : Thread Req Res Ret L) (env : W → (req : Req) → Res req → W → Prop) (w : W) :
    RunAlone thread env w ⟨w, fun _ => thread.entry⟩ := Relation.ReflTransGen.refl

theorem RunAlone.step {req : Req} {resume : Res req → L} {v : W} (hrun : RunAlone thread env w ⟨u, fun _ => l⟩)
    (hnext : thread.next l = .call req resume) (res : Res req) (henv : env u req res v) :
    RunAlone thread env w ⟨v, fun _ => resume res⟩ := by
  have hlocals : (fun _ => resume res : Unit → L) = Function.update (fun _ => l) () (resume res) := by
    funext c
    rw [Function.update_self]
  rw [hlocals]
  exact Run.tail hrun (Step.mk hnext henv) trivial

end Extend

theorem RunAlone.inv {thread : Thread Req Res Ret L} {env : W → (req : Req) → Res req → W → Prop} {w : W}
    {t : State (fun _ : Unit => L) W} {P : W → L → Prop} (hrun : RunAlone thread env w t) (hstart : P w thread.entry)
    (hstep : ∀ w l req resume res w', P w l → thread.next l = .call req resume → env w req res w' → P w' (resume res)) :
    P t.world (t.locals ()) := by
  let Inv (s : State (fun _ : Unit => L) W) : Prop := P s.world (s.locals ())
  have hrun' : Run (fun _ => thread) (fun _ => env) (fun _ _ _ _ => True) (State.start (fun _ => thread) w) t := hrun
  have hkeep : ∀ s u c req res, Inv s → Step (fun _ => thread) (fun _ => env) s c req res u → Inv u := by
    intro s u c req res hs h
    obtain ⟨resume, hnext, henv, hself, -⟩ := h.elim
    show P u.world (u.locals ())
    rw [hself]
    exact hstep _ _ req resume res _ hs hnext henv
  exact hrun'.inv (show Inv _ from hstart) fun s u c req res hs h _ => hkeep s u c req res hs h

/-- The rule of a call on its own: what its steps keep, and what that says where the call returns. -/
theorem RunAlone.post {thread : Thread Req Res Ret L} {env : W → (req : Req) → Res req → W → Prop} {w : W}
    {t : State (fun _ : Unit => L) W} {P : W → L → Prop} {Q : W → Ret → Prop} {value : Ret}
    (hrun : RunAlone thread env w t) (hret : Returned (fun _ : Unit => thread) t () value) (hstart : P w thread.entry)
    (hstep : ∀ w l req resume res w', P w l → thread.next l = .call req resume → env w req res w' → P w' (resume res))
    (hpost : ∀ w l value, P w l → thread.next l = .ret value → Q w value) : Q t.world value :=
  hpost _ _ _ (hrun.inv hstart hstep) hret

end Alone

/-- One call more has come to a point: the list of those that are there has it at its end. -/
theorem mem_join {C : Type} {before after : C → Prop} {order : List C} {c : C} (hmem : ∀ d, d ∈ order ↔ before d)
    (hother : ∀ d, d ≠ c → (after d ↔ before d)) (hc : after c) (d : C) : d ∈ order ++ [c] ↔ after d := by
  rw [List.mem_append, List.mem_singleton]
  by_cases hd : d = c
  · subst hd
    exact iff_of_true (Or.inr rfl) hc
  · rw [hother d hd, ← hmem]
    exact or_iff_left hd

end Interleave
