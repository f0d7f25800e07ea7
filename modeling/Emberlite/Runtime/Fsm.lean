import Mathlib.Data.List.Basic

/-! The table-driven state machine of `core/runtime/src/fsm.c`.

    A handle is never NULL here: every entry point returns on a NULL `fsm` before it reads anything.
    The table pointer with its count is a list of rows, and an action pointer is a name in `A` whose
    behaviour is a parameter, so that one `dispatch` serves plain actions and actions that call back
    into the machine. Each call also returns what it did, in order (`Obs`). -/

namespace Emberlite
namespace Fsm

/-- `ember_fsm_state_t`. -/
abbrev State := UInt16

/-- `ember_fsm_event_t`. -/
abbrev Event := UInt16

/-- `ember_fsm_result_t`. -/
inductive Result where
  | ok
  | einval
  | enotfound
  | eaction
  deriving DecidableEq, Repr

/-- `ember_fsm_transition_t`: a row of the table; `action` is `none` for a NULL callback. -/
structure Transition (A : Type) where
  fromState : State
  event : Event
  toState : State
  action : Option A
  deriving DecidableEq, Repr

end Fsm

/-- `ember_fsm_t`. -/
structure Fsm (A U : Type) where
  initialState : Fsm.State
  currentState : Fsm.State
  transitions : List (Fsm.Transition A)
  userData : U
  deriving DecidableEq, Repr

namespace Fsm

/-- The arguments of one action call, next to the `fsm` itself. -/
structure Invocation (A U : Type) where
  action : A
  fromState : State
  event : Event
  toState : State
  userData : U
  deriving DecidableEq, Repr

/-- One thing a call does: it calls an action, the action of `row` returns `code` and leaves the
    machine in `current`, a dispatch writes `row.toState` over `before`, or a reset writes `after`
    over `before`. -/
inductive Obs (A U : Type) where
  | call (i : Invocation A U)
  | returned (row : Transition A) (code : Int) (current : State)
  | commit (row : Transition A) (before : State)
  | reset (before after : State)
  deriving DecidableEq, Repr

/-- What an action call gives back: its return code, the machine as it leaves it, and what it did. -/
structure Return (A U : Type) where
  code : Int
  fsm : Fsm A U
  trace : List (Obs A U)
  deriving DecidableEq, Repr

/-- The behaviour of the actions of a table, on the machine they get and their arguments. -/
abbrev Behaviour (A U : Type) := Fsm A U → Invocation A U → Return A U

/-- What `ember_fsm_dispatch` gives back: the return code, the machine, the cell `out_state` points
    to (`none` for NULL), and what the call did. -/
structure Outcome (A U : Type) where
  result : Result
  fsm : Fsm A U
  outState : Option State
  trace : List (Obs A U)
  deriving DecidableEq, Repr

section Api
variable {A U : Type}

/-- The rows a table pointer with its count stands for; `none` is NULL. -/
def tableRows (transitions : Option (List (Transition A))) (transitionCount : Nat) : List (Transition A) :=
  (transitions.getD []).take transitionCount

/-- `ember_fsm_init`. -/
def init (initialState : State) (transitions : Option (List (Transition A))) (transitionCount : Nat)
    (userData : U) : Except Result (Fsm A U) :=
  if transitions.isNone ∧ transitionCount > 0 then
    .error .einval
  else
    .ok {
      initialState
      currentState := initialState
      transitions := tableRows transitions transitionCount
      userData
    }

/-- `ember_fsm_reset`. -/
def reset (fsm : Fsm A U) : Fsm A U :=
  { fsm with currentState := fsm.initialState }

/-- `ember_fsm_state`. -/
def state (fsm : Fsm A U) : State := fsm.currentState

/-- `ember_fsm_set_user_data`. -/
def setUserData (fsm : Fsm A U) (userData : U) : Fsm A U :=
  { fsm with userData }

/-- The end of a dispatch that took `row`: `current_state` is overwritten whatever it is by now. -/
def commit (fsm : Fsm A U) (row : Transition A) (outState : Option State) : Outcome A U where
  result := .ok
  fsm := { fsm with currentState := row.toState }
  outState := outState.map fun _ => row.toState
  trace := [.commit row fsm.currentState]

/-- The loop body of `ember_fsm_dispatch` for a row that matches. -/
def take (run : Behaviour A U) (fsm : Fsm A U) (event : Event) (outState : Option State)
    (row : Transition A) : Outcome A U :=
  match row.action with
  | none => fsm.commit row outState
  | some action =>
    let i : Invocation A U := ⟨action, fsm.currentState, event, row.toState, fsm.userData⟩
    let r := run fsm i
    let seen := .call i :: r.trace ++ [.returned row r.code r.fsm.currentState]
    if r.code ≠ 0 then
      -- `out_state` is not written on this path.
      ⟨.eaction, r.fsm, outState, seen⟩
    else
      let o := r.fsm.commit row outState
      { o with trace := seen ++ o.trace }

/-- The row loop of `ember_fsm_dispatch`. -/
def dispatchLoop (run : Behaviour A U) (fsm : Fsm A U) (event : Event) (outState : Option State) :
    List (Transition A) → Outcome A U
  | [] => ⟨.enotfound, fsm, outState.map fun _ => fsm.currentState, []⟩
  | row :: rows =>
    if row.fromState ≠ fsm.currentState ∨ row.event ≠ event then
      dispatchLoop run fsm event outState rows
    else
      fsm.take run event outState row

/-- `ember_fsm_dispatch`. -/
def dispatch (run : Behaviour A U) (fsm : Fsm A U) (event : Event) (outState : Option State) :
    Outcome A U :=
  dispatchLoop run fsm event outState fsm.transitions

end Api

/-! ### The loop as a lookup -/

section Lookup
variable {A U : Type} {run : Behaviour A U} {fsm : Fsm A U} {event : Event} {outState : Option State}

/-- The row is for this key. -/
def Transition.hasKey (s : State) (e : Event) (row : Transition A) : Bool :=
  row.fromState == s && row.event == e

/-- The first row of a table for a key. -/
def firstRow (rows : List (Transition A)) (s : State) (e : Event) : Option (Transition A) :=
  rows.find? (Transition.hasKey s e)

theorem firstRow_some {rows : List (Transition A)} {s : State} {e : Event} {row : Transition A}
    (h : firstRow rows s e = some row) : row ∈ rows ∧ row.fromState = s ∧ row.event = e := by
  have hkey := List.find?_some h
  simp only [Transition.hasKey, Bool.and_eq_true, beq_iff_eq] at hkey
  exact ⟨List.mem_of_find?_eq_some h, hkey.1, hkey.2⟩

theorem firstRow_cons_of_key {rows : List (Transition A)} {s : State} {e : Event} {row : Transition A}
    (hs : row.fromState = s) (he : row.event = e) : firstRow (row :: rows) s e = some row := by
  simp [firstRow, Transition.hasKey, hs, he]

theorem firstRow_cons_of_ne {rows : List (Transition A)} {s : State} {e : Event} {row : Transition A}
    (h : ¬(row.fromState = s ∧ row.event = e)) : firstRow (row :: rows) s e = firstRow rows s e := by
  have : row.hasKey s e = false := by simpa [Transition.hasKey] using h
  simp [firstRow, this]

/-- Nothing before the action call changes the machine, and no row is looked at after it. -/
theorem dispatchLoop_eq (rows : List (Transition A)) :
    dispatchLoop run fsm event outState rows =
      match firstRow rows fsm.currentState event with
      | none => ⟨.enotfound, fsm, outState.map fun _ => fsm.currentState, []⟩
      | some row => fsm.take run event outState row := by
  induction rows with
  | nil => rfl
  | cons row rows ih =>
    by_cases hkey : row.fromState = fsm.currentState ∧ row.event = event
    · have hskip : ¬(row.fromState ≠ fsm.currentState ∨ row.event ≠ event) := by simp [hkey.1, hkey.2]
      rw [firstRow_cons_of_key hkey.1 hkey.2, dispatchLoop, if_neg hskip]
    · have hskip : row.fromState ≠ fsm.currentState ∨ row.event ≠ event := by
        by_contra h
        exact hkey (by simpa [not_or] using h)
      rw [firstRow_cons_of_ne hkey, dispatchLoop, if_pos hskip, ih]

theorem dispatch_of_none (h : firstRow fsm.transitions fsm.currentState event = none) :
    fsm.dispatch run event outState =
      ⟨.enotfound, fsm, outState.map fun _ => fsm.currentState, []⟩ := by
  rw [dispatch, dispatchLoop_eq, h]

theorem dispatch_of_some {row : Transition A}
    (h : firstRow fsm.transitions fsm.currentState event = some row) :
    fsm.dispatch run event outState = fsm.take run event outState row := by
  rw [dispatch, dispatchLoop_eq, h]

/-! ### The state that `out_state` shows -/

/-- The arguments of the action call that a dispatch makes for `row`. -/
def invocation (fsm : Fsm A U) (event : Event) (row : Transition A) (action : A) : Invocation A U :=
  ⟨action, fsm.currentState, event, row.toState, fsm.userData⟩

/-- If the action of the row fails, `out_state` points to the state in which it leaves the machine. -/
def Foreseen (run : Behaviour A U) (fsm : Fsm A U) (event : Event) (old : State) : Prop :=
  ∀ row action, firstRow fsm.transitions fsm.currentState event = some row → row.action = some action →
    (run fsm (fsm.invocation event row action)).code ≠ 0 →
      old = (run fsm (fsm.invocation event row action)).fsm.currentState

theorem take_outState {row : Transition A} {action : A} (h : row.action = some action) (old : State) :
    (fsm.take run event (some old) row).outState = some (fsm.take run event (some old) row).fsm.state ↔
      ((run fsm (fsm.invocation event row action)).code ≠ 0 →
        old = (run fsm (fsm.invocation event row action)).fsm.currentState) := by
  unfold invocation
  by_cases hcode : (run fsm ⟨action, fsm.currentState, event, row.toState, fsm.userData⟩).code = 0
  · simp only [take, h, hcode, ne_eq, not_true_eq_false, if_false]
    exact iff_of_true rfl False.elim
  · simp only [take, h, ne_eq, hcode, not_false_eq_true, if_true, Option.some_inj, true_implies]
    exact Iff.rfl

/-- After a dispatch, `out_state` points to the state of the machine exactly when no action has failed, or it pointed
    there before. -/
theorem dispatch_shows_iff (run : Behaviour A U) (fsm : Fsm A U) (event : Event) (old : State) :
    (fsm.dispatch run event (some old)).outState = some (fsm.dispatch run event (some old)).fsm.state ↔
      Foreseen run fsm event old := by
  rcases hfirst : firstRow fsm.transitions fsm.currentState event with _ | row
  · rw [dispatch_of_none hfirst]
    refine iff_of_true rfl fun row action hrow => ?_
    rw [hfirst] at hrow
    cases hrow
  · rw [dispatch_of_some hfirst]
    rcases haction : row.action with _ | action
    · have hcommit : fsm.take run event (some old) row = fsm.commit row (some old) := by rw [take, haction]
      rw [hcommit]
      refine iff_of_true rfl fun row' action hrow haction' => ?_
      rw [hfirst, Option.some_inj] at hrow
      rw [← hrow, haction] at haction'
      cases haction'
    · rw [take_outState haction]
      constructor
      · intro h row' action' hrow haction'
        rw [hfirst, Option.some_inj] at hrow
        subst hrow
        rw [haction, Option.some_inj] at haction'
        subst haction'
        exact h
      · exact fun h => h row action hfirst haction

/-- An action that fails at once: the caller still sees what it had in its variable. -/
theorem failed_unseen :
    ¬ ∀ (run : Behaviour Unit Unit) (fsm : Fsm Unit Unit) (event : Event) (old : State),
      (fsm.dispatch run event (some old)).outState = some (fsm.dispatch run event (some old)).fsm.state := by
  intro h
  have hshows := h (fun fsm _ => ⟨1, fsm, []⟩) ⟨1, 1, [⟨1, 1, 2, some ()⟩], ()⟩ 1 7
  exact absurd hshows (by decide)

end Lookup

end Fsm
end Emberlite
