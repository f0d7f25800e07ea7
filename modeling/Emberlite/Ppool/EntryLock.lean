import Emberlite.Lib.Mutex
import Mathlib.Logic.Function.Basic
import Mathlib.Logic.Relation

/-! `PPOOL_LOCK`, which every `ppool_init` initialises and every `ppool_destroy` destroys, and the tasks of the pools
    that take it by `ppool_entry` and give it up by `ppool_leave`.

    The threads are detached and cancellation is deferred: a task may go on after its pool is gone, or end with the
    lock in its hands. -/

namespace Emberlite
namespace Ppool
namespace EntryLock
open Mutex

/-- What has become of a pool. -/
inductive PoolPc where
  | absent
  -- In `ppool_init`, before `pthread_mutex_init(&PPOOL_LOCK)`, before `pthread_cond_init`, and before
  -- `pthread_mutex_destroy(&PPOOL_LOCK)` when that has failed.
  | initLock
  | initCond
  | undoLock
  | alive
  -- In `ppool_destroy`, before `pthread_mutex_destroy(&PPOOL_LOCK)`.
  | destroyLock
  | gone
  -- `ppool_init` returned `NULL`.
  | failed
  deriving DecidableEq, Repr

/-- Where a task is. -/
inductive TaskPc where
  | outside
  -- Between `ppool_entry` and `ppool_leave`.
  | inside
  -- Cancelled there.
  | killed
  deriving DecidableEq, Repr

/-- `PPOOL_LOCK` with its owner, for pools `P` and tasks `T`. -/
structure Pools (P T : Type) where
  initialised : Bool
  owner : Option T
  pools : P → PoolPc
  tasks : T → TaskPc

/-- What a step does to the lock. -/
inductive Act (P T : Type) where
  | init (p : P)
  | destroy (p : P)
  | entry (t : T)
  | leave (t : T)
  | none

/-- A pool has initialised the lock and has not destroyed it yet. -/
def PoolPc.Live : PoolPc → Prop
  | .initCond | .undoLock | .alive | .destroyLock => True
  | .absent | .initLock | .gone | .failed => False

/-- The threads of a pool have been created. -/
def PoolPc.Started : PoolPc → Prop
  | .alive | .destroyLock | .gone => True
  | .absent | .initLock | .initCond | .undoLock | .failed => False

/-- The task is past `ppool_entry`, and has not left. -/
def TaskPc.Holds (pc : TaskPc) : Prop := pc ≠ .outside

section Model
variable {P T : Type}

/-- No pool was made, and no task runs. -/
def Pools.start : Pools P T := ⟨false, none, fun _ => .absent, fun _ => .outside⟩

variable [DecidableEq P] [DecidableEq T]

/-- One pool moves. -/
def Pools.setPool (s : Pools P T) (p : P) (pc : PoolPc) : Pools P T :=
  { s with pools := Function.update s.pools p pc }

/-- One task moves. -/
def Pools.setTask (s : Pools P T) (t : T) (pc : TaskPc) : Pools P T :=
  { s with tasks := Function.update s.tasks t pc }

/-- One step, with the pool of each task. -/
inductive PoolsStep (pool : T → P) : Pools P T → Act P T → Pools P T → Prop
  -- The allocations, `ppool_queue_init` and `pthread_mutex_init(&pool->ppool_lock)`.
  | begin {s : Pools P T} {p : P} : s.pools p = .absent → PoolsStep pool s .none (s.setPool p .initLock)
  | beginFails {s : Pools P T} {p : P} : s.pools p = .absent → PoolsStep pool s .none (s.setPool p .failed)
  | initLock {s : Pools P T} {p : P} : s.pools p = .initLock →
      PoolsStep pool s (.init p) { s.setPool p .initCond with initialised := true, owner := none }
  | initLockFails {s : Pools P T} {p : P} : s.pools p = .initLock → PoolsStep pool s .none (s.setPool p .failed)
  -- And the threads are created.
  | initCond {s : Pools P T} {p : P} : s.pools p = .initCond → PoolsStep pool s .none (s.setPool p .alive)
  | initCondFails {s : Pools P T} {p : P} : s.pools p = .initCond → PoolsStep pool s .none (s.setPool p .undoLock)
  | undoLock {s : Pools P T} {p : P} : s.pools p = .undoLock →
      PoolsStep pool s (.destroy p) { s.setPool p .failed with initialised := false }
  -- The queue, the cancellations and `pool->ppool_lock`.
  | destroy {s : Pools P T} {p : P} : s.pools p = .alive → PoolsStep pool s .none (s.setPool p .destroyLock)
  | destroyLock {s : Pools P T} {p : P} : s.pools p = .destroyLock →
      PoolsStep pool s (.destroy p) { s.setPool p .gone with initialised := false }
  | entry {s : Pools P T} {t : T} : (s.pools (pool t)).Started → s.tasks t = .outside → s.initialised →
      s.owner = none → PoolsStep pool s (.entry t) { s.setTask t .inside with owner := some t }
  -- Undefined; here it returns at once.
  | entryDestroyed {s : Pools P T} {t : T} : (s.pools (pool t)).Started → s.tasks t = .outside →
      s.initialised = false → PoolsStep pool s (.entry t) (s.setTask t .inside)
  | leave {s : Pools P T} {t : T} : s.tasks t = .inside →
      PoolsStep pool s (.leave t) { s.setTask t .outside with owner := none }
  | cancel {s : Pools P T} {t : T} : s.tasks t = .inside → s.pools (pool t) = .destroyLock ∨ s.pools (pool t) = .gone →
      PoolsStep pool s .none (s.setTask t .killed)

/-- The step initialises the lock again, destroys it under a pool or a task, or locks what is not there. -/
def Violation (s : Pools P T) : Act P T → Prop
  | .init _ => s.initialised
  | .destroy p => (∃ q, q ≠ p ∧ (s.pools q).Live) ∨ ∃ t, (s.tasks t).Holds
  | .entry _ => s.initialised = false
  | .leave _ | .none => False

/-- The condition on a step, before it. -/
def Allowed (s : Pools P T) : Act P T → Prop
  | .init p => ∀ q, q ≠ p → ¬(s.pools q).Live
  | .destroy p => (∀ q, q ≠ p → ¬(s.pools q).Live) ∧ ∀ t, ¬(s.tasks t).Holds
  | .entry _ => ∃ p, (s.pools p).Live
  | .leave _ | .none => True

/-- A run whose steps all meet the condition. -/
def AllowedRun (pool : T → P) : Pools P T → Pools P T → Prop :=
  Relation.ReflTransGen fun s t => ∃ x, PoolsStep pool s x t ∧ Allowed s x

/-- What the allowed steps keep. -/
structure LockInv (s : Pools P T) : Prop where
  live : s.initialised = true ↔ ∃ p, (s.pools p).Live
  unique : ∀ p q, (s.pools p).Live → (s.pools q).Live → p = q
  owns : Owns (fun t => (s.tasks t).Holds) s.owner
  held : ∀ t, (s.tasks t).Holds → s.initialised = true

variable {pool : T → P} {s s' : Pools P T} {x : Act P T} {p : P} {t : T}

omit [DecidableEq P] [DecidableEq T] in
theorem start_inv : LockInv (Pools.start : Pools P T) where
  live := ⟨nofun, fun ⟨_, h⟩ => h.elim⟩
  unique _ _ h := h.elim
  owns _ := ⟨fun h => (h rfl).elim, nofun⟩
  held _ h := (h rfl).elim

omit [DecidableEq T] in
theorem setPool_live {pc : PoolPc} (hlive : pc.Live ↔ (s.pools p).Live) (q : P) :
    ((s.setPool p pc).pools q).Live ↔ (s.pools q).Live := by
  change (Function.update s.pools p pc q).Live ↔ _
  rw [Function.update_apply]
  split
  · rename_i h
    rw [h, hlive]
  · rfl

omit [DecidableEq T] in
theorem setPool_inv (h : LockInv s) {pc : PoolPc} (hlive : pc.Live ↔ (s.pools p).Live) : LockInv (s.setPool p pc) := by
  have hall := setPool_live (s := s) hlive
  refine ⟨h.live.trans (exists_congr fun q => (hall q).symm), fun q r hq hr => ?_, h.owns, h.held⟩
  exact h.unique q r ((hall q).mp hq) ((hall r).mp hr)

omit [DecidableEq T] in
/-- The only live pool gives up the lock, which nobody holds. -/
theorem destroy_inv (h : LockInv s) {pc : PoolPc} (hpc : ¬pc.Live) (hallowed : Allowed s (.destroy p)) :
    LockInv { s.setPool p pc with initialised := false } := by
  obtain ⟨hother, hfree⟩ := hallowed
  have hnone : ∀ q, ¬(Function.update s.pools p pc q).Live := by
    intro q
    rw [Function.update_apply]
    split
    · exact hpc
    · exact hother q ‹_›
  exact ⟨⟨nofun, fun ⟨q, hq⟩ => (hnone q hq).elim⟩, fun q _ hq => (hnone q hq).elim, h.owns,
    fun t ht => (hfree t ht).elim⟩

omit [DecidableEq P] in
theorem setTask_other {pc : TaskPc} : ∀ u, u ≠ t → (((s.setTask t pc).tasks u).Holds ↔ (s.tasks u).Holds) := by
  intro u hu
  change (Function.update s.tasks t pc u).Holds ↔ _
  rw [Function.update_of_ne hu]

omit [DecidableEq P] in
theorem setTask_self {pc : TaskPc} : ((s.setTask t pc).tasks t).Holds ↔ pc ≠ .outside := by
  change (Function.update s.tasks t pc t).Holds ↔ _
  rw [Function.update_self]
  rfl

theorem step_inv (h : LockInv s) (hstep : PoolsStep pool s x s') (hallowed : Allowed s x) : LockInv s' := by
  cases hstep with
  | begin hp | beginFails hp | initLockFails hp | initCond hp | initCondFails hp | destroy hp =>
    refine setPool_inv h ?_
    rw [hp]
    exact Iff.rfl
  | undoLock | destroyLock => exact destroy_inv h not_false hallowed
  | @initLock p hp =>
    have hnone : ¬∃ q, (s.pools q).Live := by
      rintro ⟨q, hq⟩
      by_cases hqp : q = p
      · rw [hqp, hp] at hq
        exact hq
      · exact hallowed q hqp hq
    have hfree : ∀ t, ¬(s.tasks t).Holds := fun t ht => hnone (h.live.mp (h.held t ht))
    have hself : ∀ q, (Function.update s.pools p .initCond q).Live → q = p := by
      intro q hq
      by_contra hqp
      rw [Function.update_of_ne hqp] at hq
      exact hnone ⟨q, hq⟩
    refine ⟨iff_of_true rfl ⟨p, ?_⟩, fun q r hq hr => (hself q hq).trans (hself r hr).symm, fun t => ?_, fun _ _ => rfl⟩
    · change (Function.update s.pools p .initCond p).Live
      rw [Function.update_self]
      trivial
    · exact iff_of_false (hfree t) nofun
  | @entry t _ _ hinit hfree =>
    exact ⟨h.live, h.unique, h.owns.acquire setTask_other hfree (setTask_self.mpr nofun), fun _ _ => hinit⟩
  | entryDestroyed _ _ hinit =>
    rw [h.live.mpr hallowed] at hinit
    cases hinit
  | @leave t ht =>
    have hin : (s.tasks t).Holds := by rw [ht]; nofun
    have hout : ¬((s.setTask t .outside).tasks t).Holds := fun h => setTask_self.mp h rfl
    exact ⟨h.live, h.unique, h.owns.release setTask_other hin hout, fun _ _ => h.held t hin⟩
  | @cancel t ht =>
    have hin : (s.tasks t).Holds := by rw [ht]; nofun
    have hstay : ((s.setTask t .killed).tasks t).Holds ↔ (s.tasks t).Holds := iff_of_true (setTask_self.mpr nofun) hin
    exact ⟨h.live, h.unique, h.owns.stay setTask_other hstay, fun _ _ => h.held t hin⟩

theorem allowedRun_inv (hrun : AllowedRun pool .start s) : LockInv s := by
  induction hrun with
  | refl => exact start_inv
  | tail _ hlast ih =>
    obtain ⟨x, hstep, hallowed⟩ := hlast
    exact step_inv ih hstep hallowed

omit [DecidableEq P] [DecidableEq T] in
theorem violation_iff (h : LockInv s) (hpool : ∀ p, x = .init p → ¬(s.pools p).Live) : Violation s x ↔ ¬Allowed s x := by
  cases x with
  | init p =>
    have hself := hpool p rfl
    simp only [Violation, Allowed, h.live, not_forall, not_not]
    refine exists_congr fun q => ⟨fun hq => ⟨?_, hq⟩, fun ⟨_, hq⟩ => hq⟩
    rintro rfl
    exact hself hq
  | destroy p => simp only [Violation, Allowed, not_and_or, not_forall, not_not, exists_prop]
  | entry t =>
    rw [Violation, Allowed, ← h.live, Bool.not_eq_true]
  | leave | none => exact iff_of_false not_false (not_not.mpr trivial)

/-- While pools and tasks keep to the condition, at most one task holds the lock; and the step that does not keep to
    it, and no other, misuses the lock. -/
theorem entry_exclusive (hrun : AllowedRun pool .start s) :
    (∀ t u, (s.tasks t).Holds → (s.tasks u).Holds → t = u) ∧
    ∀ x s', PoolsStep pool s x s' → (Violation s x ↔ ¬Allowed s x) := by
  have h : LockInv s := allowedRun_inv hrun
  refine ⟨fun t u => h.owns.exclusive, fun x s' hstep => violation_iff h ?_⟩
  rintro p rfl
  cases hstep with
  | initLock hp => rw [hp]; exact not_false

end Model

/-! ### Two pools -/

/-- The second `ppool_init` initialises the lock that the tasks of the first pool use. -/
theorem init_again : ¬∀ (s s' : Pools Bool Unit) (x : Act Bool Unit),
    Relation.ReflTransGen (fun s t => ∃ x, PoolsStep (fun _ => false) s x t) .start s →
      PoolsStep (fun _ => false) s x s' → ¬Violation s x := by
  intro hclaim
  have h₀ : Relation.ReflTransGen (fun s t => ∃ x, PoolsStep (fun _ : Unit => false) s x t) .start .start := .refl
  have h₁ := h₀.tail ⟨_, .begin (p := false) rfl⟩
  have h₂ := h₁.tail ⟨_, .initLock (p := false) rfl⟩
  have h₃ := h₂.tail ⟨_, .initCond (p := false) rfl⟩
  have h₄ := h₃.tail ⟨_, .begin (p := true) rfl⟩
  exact hclaim _ _ _ h₄ (.initLock (p := true) rfl) rfl

/-- A pool and its task, and another pool afterwards. -/
theorem entry_exclusive_turns : ∃ s s' : Pools Bool Unit, AllowedRun (fun _ => false) .start s ∧
    PoolsStep (fun _ => false) s (.init true) s' ∧ ¬Violation s (.init true) := by
  have h₀ : AllowedRun (fun _ : Unit => false) .start .start := .refl
  have h₁ := h₀.tail ⟨_, .begin (p := false) rfl, trivial⟩
  have h₂ := h₁.tail ⟨_, .initLock (p := false) rfl, fun q hq => by
    cases q <;> first | exact (hq rfl).elim | exact not_false⟩
  have h₃ := h₂.tail ⟨_, .initCond (p := false) rfl, trivial⟩
  have h₄ := h₃.tail ⟨_, .entry (t := ()) trivial rfl rfl rfl, false, trivial⟩
  have h₅ := h₄.tail ⟨_, .leave (t := ()) rfl, trivial⟩
  have h₆ := h₅.tail ⟨_, .destroy (p := false) rfl, trivial⟩
  have h₇ := h₆.tail ⟨_, .destroyLock (p := false) rfl, fun q hq => by
    cases q <;> first | exact (hq rfl).elim | exact not_false, fun _ h => h rfl⟩
  have h₈ := h₇.tail ⟨_, .begin (p := true) rfl, trivial⟩
  have hiff := (entry_exclusive h₈).2 _ _ (.initLock (p := true) rfl)
  refine ⟨_, _, h₈, .initLock (p := true) rfl, mt hiff.mp (not_not.mpr fun q hq => ?_)⟩
  cases q with
  | false => exact not_false
  | true => exact (hq rfl).elim

end EntryLock
end Ppool
end Emberlite
