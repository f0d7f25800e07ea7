import Emberlite.Runtime.Fsm

/-! Actions that call back into their machine. The code an action runs is a finite script of calls on
    the `fsm` it gets, and a nested dispatch carries the script of the action that it calls in turn, so
    the scripts are the runs of every nesting depth. -/

namespace Emberlite
namespace Fsm

/-- What one action call does with its machine, and the code it returns. A run from outside is a script
    too, whose code nobody reads. -/
inductive Script (U : Type) where
  | ret (code : Int)
  | dispatch (event : Event) (outState : Option State) (inner next : Script U)
  | reset (next : Script U)
  | setUserData (userData : U) (next : Script U)
  deriving DecidableEq, Repr

variable {A U : Type}

/-- The machine after a script of calls, and what was written on the way. -/
def Script.run : Script U → Fsm A U → Return A U
  | .ret code, fsm => ⟨code, fsm, []⟩
  | .dispatch event outState inner next, fsm =>
    let o := fsm.dispatch (fun fsm _ => inner.run fsm) event outState
    let r := next.run o.fsm
    ⟨r.code, r.fsm, o.trace ++ r.trace⟩
  | .reset next, fsm =>
    let r := next.run fsm.reset
    ⟨r.code, r.fsm, .reset fsm.currentState fsm.initialState :: r.trace⟩
  | .setUserData userData next, fsm => next.run (fsm.setUserData userData)

/-! ### Writes of the state -/

/-- The writes of a trace lead from state `s` to state `t`: each one finds what the last one left, a
    commit takes a row of the table, and a reset goes to the initial state. -/
def Chain (rows : List (Transition A)) (initial : State) : State → List (Obs A U) → State → Prop
  | s, [], t => s = t
  | s, .call _ :: rest, t => Chain rows initial s rest t
  | s, .returned _ _ current :: rest, t => current = s ∧ Chain rows initial s rest t
  | s, .commit row before :: rest, t => row ∈ rows ∧ before = s ∧ Chain rows initial row.toState rest t
  | s, .reset before after :: rest, t => before = s ∧ after = initial ∧ Chain rows initial after rest t

/-- Every commit is made in the state its row starts from. With `Chain`, the commits between two resets
    are a path in the table. -/
def CommitsFromRow (trace : List (Obs A U)) : Prop :=
  ∀ row before, Obs.commit row before ∈ trace → before = row.fromState

/-- Every action that returns 0 leaves the machine in the state its row starts from. -/
def Undisturbed (trace : List (Obs A U)) : Prop :=
  ∀ row current, Obs.returned row 0 current ∈ trace → current = row.fromState

/-- Every commit away from the start of its row overwrites what the row's own action left. -/
def OverwritesOwn (trace : List (Obs A U)) : Prop :=
  ∀ row before, Obs.commit row before ∈ trace → before ≠ row.fromState →
    Obs.returned row 0 before ∈ trace

/-- What holds of the writes of every call. -/
structure Writes (fsm fsm' : Fsm A U) (trace : List (Obs A U)) : Prop where
  table : fsm'.transitions = fsm.transitions
  initial : fsm'.initialState = fsm.initialState
  chain : Chain fsm.transitions fsm.initialState fsm.currentState trace fsm'.currentState
  own : OverwritesOwn trace
  legal : CommitsFromRow trace ↔ Undisturbed trace

theorem chain_append {rows : List (Transition A)} {initial : State} {tr tr' : List (Obs A U)} :
    ∀ {s m t : State}, Chain rows initial s tr m → Chain rows initial m tr' t →
      Chain rows initial s (tr ++ tr') t := by
  induction tr with
  | nil =>
    intro s m t h h'
    obtain rfl : s = m := h
    exact h'
  | cons o tr ih =>
    intro s m t h h'
    cases o with
    | call i => exact ih h h'
    | returned row code current => exact ⟨h.1, ih h.2 h'⟩
    | commit row before => exact ⟨h.1, h.2.1, ih h.2.2 h'⟩
    | reset before after => exact ⟨h.1, h.2.1, ih h.2.2 h'⟩

theorem commitsFromRow_append {tr tr' : List (Obs A U)} :
    CommitsFromRow (tr ++ tr') ↔ CommitsFromRow tr ∧ CommitsFromRow tr' := by
  simp only [CommitsFromRow, List.mem_append]
  constructor
  · intro h
    exact ⟨fun row b hm => h row b (.inl hm), fun row b hm => h row b (.inr hm)⟩
  · rintro ⟨h, h'⟩ row b (hm | hm)
    · exact h row b hm
    · exact h' row b hm

theorem undisturbed_append {tr tr' : List (Obs A U)} :
    Undisturbed (tr ++ tr') ↔ Undisturbed tr ∧ Undisturbed tr' := by
  simp only [Undisturbed, List.mem_append]
  constructor
  · intro h
    exact ⟨fun row c hm => h row c (.inl hm), fun row c hm => h row c (.inr hm)⟩
  · rintro ⟨h, h'⟩ row c (hm | hm)
    · exact h row c hm
    · exact h' row c hm

theorem overwritesOwn_append {tr tr' : List (Obs A U)} (h : OverwritesOwn tr) (h' : OverwritesOwn tr') :
    OverwritesOwn (tr ++ tr') := by
  intro row before hm hne
  rcases List.mem_append.mp hm with hm | hm
  · exact List.mem_append_left _ (h row before hm hne)
  · exact List.mem_append_right _ (h' row before hm hne)

namespace Writes
variable {fsm fsm₁ fsm₂ : Fsm A U} {tr tr₁ tr₂ : List (Obs A U)}

theorem refl (fsm : Fsm A U) : Writes fsm fsm ([] : List (Obs A U)) where
  table := rfl
  initial := rfl
  chain := rfl
  own := fun _ _ hm => by cases hm
  legal := by simp [CommitsFromRow, Undisturbed]

theorem trans (h₁ : Writes fsm fsm₁ tr₁) (h₂ : Writes fsm₁ fsm₂ tr₂) : Writes fsm fsm₂ (tr₁ ++ tr₂) where
  table := h₂.table.trans h₁.table
  initial := h₂.initial.trans h₁.initial
  chain := chain_append h₁.chain (h₁.table ▸ h₁.initial ▸ h₂.chain)
  own := overwritesOwn_append h₁.own h₂.own
  legal := by rw [commitsFromRow_append, undisturbed_append, h₁.legal, h₂.legal]

theorem call (i : Invocation A U) : Writes fsm fsm [.call i] where
  table := rfl
  initial := rfl
  chain := rfl
  own := fun _ _ hm => by simp at hm
  legal := by simp [CommitsFromRow, Undisturbed]

theorem reset : Writes fsm fsm.reset [.reset fsm.currentState fsm.initialState] where
  table := rfl
  initial := rfl
  chain := ⟨rfl, rfl, rfl⟩
  own := fun _ _ hm => by simp at hm
  legal := by simp [CommitsFromRow, Undisturbed]

theorem failed {row : Transition A} {code : Int} (hcode : code ≠ 0) :
    Writes fsm fsm [.returned row code fsm.currentState] where
  table := rfl
  initial := rfl
  chain := ⟨rfl, rfl⟩
  own := fun _ _ hm => by simp at hm
  legal := by simp [CommitsFromRow, Undisturbed, Ne.symm hcode]

/-- A row without an action is committed in the state it was found in. -/
theorem commit_null {row : Transition A} (hrow : row ∈ fsm.transitions)
    (hs : row.fromState = fsm.currentState) :
    Writes fsm { fsm with currentState := row.toState } [.commit row fsm.currentState] where
  table := rfl
  initial := rfl
  chain := ⟨hrow, rfl, rfl⟩
  own := fun r b hm hne => by
    simp only [List.mem_singleton, Obs.commit.injEq] at hm
    exact absurd (hm.2.trans (hm.1 ▸ hs.symm)) hne
  legal := by simp [CommitsFromRow, Undisturbed, hs]

/-- A row whose action returned 0 is committed over the state that the action left. -/
theorem commit_returned {row : Transition A} (hrow : row ∈ fsm.transitions) :
    Writes fsm { fsm with currentState := row.toState }
      [.returned row 0 fsm.currentState, .commit row fsm.currentState] where
  table := rfl
  initial := rfl
  chain := ⟨rfl, hrow, rfl, rfl⟩
  own := fun r b hm _ => by
    simp only [List.mem_cons, reduceCtorEq, Obs.commit.injEq, List.not_mem_nil, or_false, false_or] at hm
    rw [hm.1, hm.2]
    exact List.mem_cons_self
  legal := by simp [CommitsFromRow, Undisturbed]

end Writes

/-! ### Every run -/

theorem dispatch_writes {run : Behaviour A U}
    (hrun : ∀ fsm i, Writes fsm (run fsm i).fsm (run fsm i).trace) (fsm : Fsm A U) (event : Event)
    (outState : Option State) :
    Writes fsm (fsm.dispatch run event outState).fsm (fsm.dispatch run event outState).trace := by
  cases hfirst : firstRow fsm.transitions fsm.currentState event with
  | none =>
    rw [dispatch_of_none hfirst]
    exact Writes.refl fsm
  | some row =>
    obtain ⟨hrow, hs, -⟩ := firstRow_some hfirst
    rw [dispatch_of_some hfirst]
    unfold take
    cases row.action with
    | none => exact Writes.commit_null hrow hs
    | some action =>
      let i : Invocation A U := ⟨action, fsm.currentState, event, row.toState, fsm.userData⟩
      have hnested := (Writes.call i).trans (hrun fsm i)
      simp only
      split
      · rename_i hcode
        exact hnested.trans (Writes.failed hcode)
      · rename_i hcode
        have hcode := not_not.mp hcode
        rw [hcode, commit, List.append_assoc]
        exact hnested.trans (Writes.commit_returned (hnested.table ▸ hrow))

theorem run_writes (script : Script U) (fsm : Fsm A U) :
    Writes fsm (script.run fsm).fsm (script.run fsm).trace := by
  induction script generalizing fsm with
  | ret code => exact Writes.refl fsm
  | dispatch event outState inner next ihInner ihNext =>
    exact (dispatch_writes (fun fsm _ => ihInner fsm) fsm event outState).trans (ihNext _)
  | reset next ih => exact Writes.reset.trans (ih _)
  | setUserData userData next ih =>
    obtain ⟨table, initial, chain, own, legal⟩ := ih (fsm.setUserData userData)
    exact ⟨table, initial, chain, own, legal⟩

/-- **Where a dispatch writes.** In every run, at every nesting depth, the writes are a chain over the
    rows of the table and resets. A commit away from the start of its row overwrites exactly the state
    in which the row's own action returned 0, and so the commits are a path in the table exactly when
    no action returns 0 after it has moved the machine. -/
theorem nested_writes (script : Script U) (fsm : Fsm A U) :
    Chain fsm.transitions fsm.initialState fsm.currentState (script.run fsm).trace
      (script.run fsm).fsm.currentState ∧
    OverwritesOwn (script.run fsm).trace ∧
    (CommitsFromRow (script.run fsm).trace ↔ Undisturbed (script.run fsm).trace) :=
  have h := run_writes script fsm
  ⟨h.chain, h.own, h.legal⟩

/-- An action of the row 1 → 2 dispatches the row 1 → 3 and returns 0: the outer dispatch overwrites
    state 3. An action of the row 2 → 3 resets to state 1 and returns 0: the reset is overwritten. -/
theorem nested_call_overwritten :
    ¬CommitsFromRow ((Script.dispatch 1 none (.dispatch 2 none (.ret 0) (.ret 0)) (.ret 0)).run
      (⟨1, 1, [⟨1, 1, 2, some ()⟩, ⟨1, 2, 3, none⟩], ()⟩ : Fsm Unit Unit)).trace ∧
    ¬CommitsFromRow ((Script.dispatch 1 none (.reset (.ret 0)) (.ret 0)).run
      (⟨1, 2, [⟨2, 1, 3, some ()⟩], ()⟩ : Fsm Unit Unit)).trace := by
  constructor
  · intro h
    have := h ⟨1, 1, 2, some ()⟩ 3 (by decide)
    exact absurd this (by decide)
  · intro h
    have := h ⟨2, 1, 3, some ()⟩ 1 (by decide)
    exact absurd this (by decide)

end Fsm
end Emberlite
