import Emberlite.Runtime.Fsm

/-! Runs of the machine when no action touches it. The reference machine knows the table only through
    the first row of each key: where the key leads, and with which action. -/

namespace Emberlite
namespace Fsm
variable {A U : Type}

/-! ### Runs of the code -/

/-- The return code of each action as a function of its arguments. -/
abbrev Codes (A U : Type) := A → State → Event → State → U → Int

/-- Actions that do not touch the machine. -/
def plain (act : Codes A U) : Behaviour A U := fun fsm i =>
  ⟨act i.action i.fromState i.event i.toState i.userData, fsm, []⟩

/-- One call on an initialised machine. -/
inductive Op (U : Type) where
  | dispatch (event : Event) (outState : Option State)
  | reset
  | setUserData (userData : U)
  deriving DecidableEq, Repr

/-- What one call shows: its return code (`none` for a void call), the actions it called in order,
    and the state after it. -/
structure Seen (A U : Type) where
  code : Option Result
  invoked : List (Invocation A U)
  current : State
  deriving DecidableEq, Repr

/-- The action calls of a trace. -/
def invocations : List (Obs A U) → List (Invocation A U)
  | [] => []
  | .call i :: rest => i :: invocations rest
  | .returned .. :: rest => invocations rest
  | .commit .. :: rest => invocations rest
  | .reset .. :: rest => invocations rest

/-- One call on the machine, and what a caller sees of it. -/
def step (act : Codes A U) (fsm : Fsm A U) : Op U → Fsm A U × Seen A U
  | .dispatch event outState =>
    let o := fsm.dispatch (plain act) event outState
    (o.fsm, ⟨some o.result, invocations o.trace, o.fsm.state⟩)
  | .reset => (fsm.reset, ⟨none, [], fsm.reset.state⟩)
  | .setUserData userData => (fsm.setUserData userData, ⟨none, [], (fsm.setUserData userData).state⟩)

/-- What a sequence of calls shows, call by call. -/
def run (act : Codes A U) : Fsm A U → List (Op U) → List (Seen A U)
  | _, [] => []
  | fsm, op :: ops => (fsm.step act op).2 :: run act (fsm.step act op).1 ops

/-! ### The reference machine -/

/-- Where a key leads and with which action, if it leads anywhere. -/
abbrev Rules (A : Type) := State → Event → Option (State × Option A)

/-- The state of the reference machine. -/
structure Reference (U : Type) where
  initial : State
  current : State
  userData : U

namespace Reference

/-- The event is looked up in the rules; the state moves to the target if the action allows it. -/
def dispatch (rules : Rules A) (act : Codes A U) (m : Reference U) (event : Event) :
    Reference U × Seen A U :=
  match rules m.current event with
  | none => (m, ⟨some .enotfound, [], m.current⟩)
  | some (target, none) => ({ m with current := target }, ⟨some .ok, [], target⟩)
  | some (target, some action) =>
    let i : Invocation A U := ⟨action, m.current, event, target, m.userData⟩
    if act action m.current event target m.userData = 0 then
      ({ m with current := target }, ⟨some .ok, [i], target⟩)
    else
      (m, ⟨some .eaction, [i], m.current⟩)

/-- One call on the reference, and what a caller sees of it. -/
def step (rules : Rules A) (act : Codes A U) (m : Reference U) : Op U → Reference U × Seen A U
  | .dispatch event _ => m.dispatch rules act event
  | .reset => ({ m with current := m.initial }, ⟨none, [], m.initial⟩)
  | .setUserData userData => ({ m with userData }, ⟨none, [], m.current⟩)

/-- What a caller sees of a run. -/
def run (rules : Rules A) (act : Codes A U) : Reference U → List (Op U) → List (Seen A U)
  | _, [] => []
  | m, op :: ops => (m.step rules act op).2 :: run rules act (m.step rules act op).1 ops

end Reference

/-- The rules of a table: the first row of each key. -/
def rulesOf (rows : List (Transition A)) : Rules A := fun s e =>
  (firstRow rows s e).map fun row => (row.toState, row.action)

/-- The reference state of a machine. -/
def toReference (fsm : Fsm A U) : Reference U := ⟨fsm.initialState, fsm.currentState, fsm.userData⟩

/-! ### The code follows the reference machine -/

section Refinement
variable {act : Codes A U} {fsm : Fsm A U}

/-- A plain action leaves the machine alone, so the dispatch that called it either commits from the
    state it found, or changes nothing. -/
theorem take_plain {event : Event} {outState : Option State} {row : Transition A} {action : A}
    (hact : row.action = some action) :
    let i : Invocation A U := ⟨action, fsm.currentState, event, row.toState, fsm.userData⟩
    let code := act action fsm.currentState event row.toState fsm.userData
    let seen : List (Obs A U) := [.call i, .returned row code fsm.currentState]
    fsm.take (plain act) event outState row =
      if code = 0 then { fsm.commit row outState with trace := seen ++ [.commit row fsm.currentState] }
      else ⟨.eaction, fsm, outState, seen⟩ := by
  by_cases hcode : act action fsm.currentState event row.toState fsm.userData = 0
  · simp [take, hact, plain, hcode, commit]
  · simp [take, hact, plain, hcode]

theorem step_reference (act : Codes A U) (fsm : Fsm A U) (op : Op U) :
    (fsm.step act op).1.transitions = fsm.transitions ∧
    ((fsm.step act op).1.toReference, (fsm.step act op).2) =
      fsm.toReference.step (rulesOf fsm.transitions) act op := by
  cases op with
  | reset => exact ⟨rfl, rfl⟩
  | setUserData userData => exact ⟨rfl, rfl⟩
  | dispatch event outState =>
    simp only [step, Reference.step, Reference.dispatch, toReference, rulesOf, state]
    cases hrow : firstRow fsm.transitions fsm.currentState event with
    | none =>
      rw [dispatch_of_none hrow]
      exact ⟨rfl, rfl⟩
    | some row =>
      rw [dispatch_of_some hrow]
      cases hact : row.action with
      | none => simp [take, hact, commit, invocations]
      | some action =>
        rw [take_plain hact]
        by_cases hcode : act action fsm.currentState event row.toState fsm.userData = 0
        · simp [hact, hcode, commit, invocations]
        · simp [hact, hcode, invocations]

theorem run_eq_reference (fsm : Fsm A U) (ops : List (Op U)) :
    fsm.run act ops = fsm.toReference.run (rulesOf fsm.transitions) act ops := by
  induction ops generalizing fsm with
  | nil => rfl
  | cons op ops ih =>
    obtain ⟨htable, hstep⟩ := step_reference act fsm op
    rw [run, Reference.run, ih, htable, ← hstep]

theorem init_eq_ok {s : State} {table : Option (List (Transition A))} {count : Nat} {u : U}
    (h : init s table count u = .ok fsm) :
    fsm.toReference = ⟨s, s, u⟩ ∧ fsm.transitions = tableRows table count := by
  unfold init at h
  split at h
  · cases h
  · cases h
    exact ⟨rfl, rfl⟩

end Refinement

/-! ### Tables with the same rules -/

/-- A row after one with the same key is never reached. -/
theorem rulesOf_shadowed (pre mid post : List (Transition A)) {row dead : Transition A}
    (hs : dead.fromState = row.fromState) (he : dead.event = row.event) :
    rulesOf (pre ++ row :: (mid ++ dead :: post)) = rulesOf (pre ++ row :: (mid ++ post)) := by
  funext s e
  unfold rulesOf firstRow
  have hdead : dead.hasKey s e = row.hasKey s e := by simp only [Transition.hasKey, hs, he]
  cases hkey : row.hasKey s e with
  | true => simp [List.find?_append, hkey]
  | false => simp [List.find?_append, hdead, hkey]

/-- Rows may move past rows with other keys. -/
theorem rulesOf_reordered {rows rows' : List (Transition A)}
    (h : ∀ s e, rows.filter (Transition.hasKey s e) = rows'.filter (Transition.hasKey s e)) :
    rulesOf rows = rulesOf rows' := by
  funext s e
  have hfirst : ∀ rows : List (Transition A),
      firstRow rows s e = (rows.filter (Transition.hasKey s e)).head? := fun rows => by
    rw [List.head?_filter, firstRow]
  unfold rulesOf
  rw [hfirst, hfirst, h]

/-- **The machine is its table of first rows.** Every run of calls on an initialised machine, with
    actions that do not touch it, is the run of the reference machine. So two tables with the same
    rules show the same runs, and the rules do not change when a shadowed row is deleted or when
    rows move without passing a row with the same key. -/
theorem run_reference {s : State} {table : Option (List (Transition A))} {count : Nat} {u : U}
    {fsm : Fsm A U} (h : init s table count u = .ok fsm) (act : Codes A U) (ops : List (Op U)) :
    fsm.run act ops = Reference.run (rulesOf (tableRows table count)) act ⟨s, s, u⟩ ops ∧
    (∀ (table' : Option (List (Transition A))) (count' : Nat) (fsm' : Fsm A U),
      init s table' count' u = .ok fsm' →
      rulesOf (tableRows table' count') = rulesOf (tableRows table count) →
      fsm'.run act ops = fsm.run act ops) ∧
    (∀ (pre mid post : List (Transition A)) (row dead : Transition A),
      dead.fromState = row.fromState → dead.event = row.event →
      rulesOf (pre ++ row :: (mid ++ dead :: post)) = rulesOf (pre ++ row :: (mid ++ post))) ∧
    (∀ rows rows' : List (Transition A),
      (∀ s e, rows.filter (Transition.hasKey s e) = rows'.filter (Transition.hasKey s e)) →
      rulesOf rows = rulesOf rows') := by
  obtain ⟨href, htable⟩ := init_eq_ok h
  have hrun : fsm.run act ops = Reference.run (rulesOf (tableRows table count)) act ⟨s, s, u⟩ ops := by
    rw [run_eq_reference, href, htable]
  refine ⟨hrun, fun table' count' fsm' h' hrules => ?_,
    fun pre mid post _ _ hs he => rulesOf_shadowed pre mid post hs he,
    fun _ _ hf => rulesOf_reordered hf⟩
  obtain ⟨href', htable'⟩ := init_eq_ok h'
  rw [hrun, run_eq_reference, href', htable', hrules]

/-- A table whose second row is shadowed: its failing action never runs. -/
theorem run_reference_shadowed :
    let rows : List (Transition Bool) := [⟨1, 1, 2, none⟩, ⟨1, 1, 3, some false⟩, ⟨2, 1, 3, some false⟩]
    let fsm : Fsm Bool Unit := ⟨1, 1, rows, ()⟩
    fsm.run (fun succeeds _ _ _ _ => if succeeds then 0 else -1) [.dispatch 1 none, .dispatch 1 none, .reset] =
      [⟨some .ok, [], 2⟩, ⟨some .eaction, [⟨false, 2, 1, 3, ()⟩], 2⟩, ⟨none, [], 1⟩] := by
  intro rows fsm
  have h : init 1 (some rows) 3 () = .ok fsm := rfl
  exact (run_reference h _ _).1

end Fsm
end Emberlite
