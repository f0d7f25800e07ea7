import Emberlite.Ppool.PoolInv
import Mathlib.Logic.Relation

/-! `ppool_destroy` and `ppool_queue_destroy`, interleaved with the workers of the pool.

    The threads are detached: nobody joins them. Cancellation is deferred. Of the functions that `ppool_run`
    calls, `pthread_cond_wait` is a cancellation point, and it takes the mutex again before the thread ends;
    a task may contain others. -/

namespace Emberlite
namespace Ppool

/-- The point that the call of `ppool_destroy` has reached. -/
inductive DestroyPc (W : Type) where
  | notCalled
  -- The loop of `ppool_queue_destroy`, then `free(queue)`.
  | walk (h : Option Addr)
  -- The loop over `pool->id`, then `free(pool->id)`.
  | cancel (ids : List W)
  | destroyLock
  -- `pthread_mutex_destroy(&PPOOL_LOCK)`.
  | destroyEntryLock
  | destroyCond
  | freePool
  | returned

/-- What cancellation has done to a worker. -/
inductive Fate where
  | alive
  -- In `pthread_cond_wait`, cancelled and without the lock.
  | leaving
  -- Ended in `pthread_cond_wait`, with the lock.
  | left
  -- Ended in its task.
  | killed
  deriving DecidableEq, Repr

/-- A pool while it is taken down: what the call has reached, and what it has done to each worker. -/
structure Teardown (W : Type) where
  pool : Pool W
  destroy : DestroyPc W
  cancelled : W → Bool
  fate : W → Fate

/-- Who takes a step. -/
inductive Actor (W : Type) where
  | destroy
  | worker (w : W)

section Model
variable {W : Type}

/-- `free(queue)` is behind the call. -/
def DestroyPc.freedQueue : DestroyPc W → Bool
  | .notCalled | .walk _ => false
  | .cancel _ | .destroyLock | .destroyEntryLock | .destroyCond | .freePool | .returned => true

/-- `pthread_mutex_destroy(&pool->ppool_lock)` is behind the call. -/
def DestroyPc.destroyedLock : DestroyPc W → Bool
  | .notCalled | .walk _ | .cancel _ | .destroyLock => false
  | .destroyEntryLock | .destroyCond | .freePool | .returned => true

/-- `pthread_cond_destroy(&pool->ppool_cond)` is behind the call. -/
def DestroyPc.destroyedCond : DestroyPc W → Bool
  | .notCalled | .walk _ | .cancel _ | .destroyLock | .destroyEntryLock | .destroyCond => false
  | .freePool | .returned => true

/-- Before the call of `ppool_destroy`. -/
def Teardown.start (pool : Pool W) : Teardown W := ⟨pool, .notCalled, fun _ => false, fun _ => .alive⟩

variable [DecidableEq W]

/-- One step, for the array `ids` of `pool->id`. -/
inductive TearStep (ids : List W) : Teardown W → Actor W → Teardown W → Prop
  | work {s : Teardown W} {pool : Pool W} {w : W} : s.fate w = .alive → WorkerStep w s.pool pool →
      TearStep ids s (.worker w) { s with pool }
  -- `ppool_queue_get_task` reads a node that is not there any more; what follows is undefined.
  | readFreed {s : Teardown W} {w : W} : s.fate w = .alive → s.pool.workers w = .getTask →
      queueGetTask s.pool.heap s.pool.queue = none → TearStep ids s (.worker w) s
  | cancelWait {s : Teardown W} {w : W} : s.fate w = .alive → s.cancelled w → s.pool.workers w = .waiting →
      TearStep ids s (.worker w) { s with fate := Function.update s.fate w .leaving }
  | cancelTask {s : Teardown W} {w : W} {a : Addr} : s.fate w = .alive → s.cancelled w →
      s.pool.workers w = .run a → TearStep ids s (.worker w) { s with fate := Function.update s.fate w .killed }
  | leave {s : Teardown W} {w : W} : s.fate w = .leaving → s.pool.ppoolLock = none →
      TearStep ids s (.worker w)
        { s with pool := { s.pool with ppoolLock := some (.worker w) }, fate := Function.update s.fate w .left }
  -- `pthread_mutex_lock`, at the head of the loop or in `pthread_cond_wait`, on a mutex that is destroyed or freed,
  -- whoever held it; what follows is undefined.
  | lockDestroyed {s : Teardown W} {w : W} :
      s.fate w = .leaving ∨ s.fate w = .alive ∧ (s.pool.workers w = .lock ∨ s.pool.workers w = .woken) →
      s.destroy.destroyedLock → TearStep ids s (.worker w) s
  | call {s : Teardown W} : s.destroy = .notCalled →
      TearStep ids s .destroy { s with destroy := .walk s.pool.queue.head }
  | freeNode {s : Teardown W} {a : Addr} {node : PoolNode} : s.destroy = .walk (some a) →
      s.pool.heap.lookup a = some node → TearStep ids s .destroy
        { s with pool := { s.pool with heap := s.pool.heap.erase a }, destroy := .walk node.next }
  | freeQueue {s : Teardown W} : s.destroy = .walk none → TearStep ids s .destroy { s with destroy := .cancel ids }
  | cancel {s : Teardown W} {w : W} {rest : List W} : s.destroy = .cancel (w :: rest) → TearStep ids s .destroy
      { s with destroy := .cancel rest, cancelled := Function.update s.cancelled w true }
  | freeIds {s : Teardown W} : s.destroy = .cancel [] → TearStep ids s .destroy { s with destroy := .destroyLock }
  | destroyLock {s : Teardown W} : s.destroy = .destroyLock →
      TearStep ids s .destroy { s with destroy := .destroyEntryLock }
  | destroyEntryLock {s : Teardown W} : s.destroy = .destroyEntryLock →
      TearStep ids s .destroy { s with destroy := .destroyCond }
  | destroyCond {s : Teardown W} : s.destroy = .destroyCond →
      TearStep ids s .destroy { s with destroy := .freePool }
  | freePool {s : Teardown W} : s.destroy = .freePool →
      TearStep ids s .destroy { s with destroy := .returned }

/-- A worker is between taking the lock and giving it up. -/
def Teardown.InCritical (s : Teardown W) (w : W) : Prop := s.fate w = .alive ∧ (s.pool.workers w).Holds

/-- The step that the worker takes next reads the queue, takes the lock or waits on the condition when that is
    gone. -/
def Teardown.Misuses (s : Teardown W) (w : W) : Prop :=
  match s.fate w, s.pool.workers w with
  | .alive, .check => s.destroy.freedQueue ∨ s.pool.queue.len ≤ 0 ∧ s.destroy.destroyedCond
  | .alive, .getTask => s.destroy.freedQueue ∨ queueGetTask s.pool.heap s.pool.queue = none
  | .alive, .lock | .alive, .woken | .leaving, _ => s.destroy.destroyedLock
  | _, _ => False

/-- The step that this thread takes next frees the queue under a worker, or uses what is gone. -/
def Violation (s : Teardown W) : Actor W → Prop
  | .destroy => (∃ h, s.destroy = .walk h) ∧ ∃ w, s.InCritical w
  | .worker w => s.Misuses w

/-- A run of the workers and of one call of `ppool_destroy`. -/
def Run (ids : List W) : Teardown W → Teardown W → Prop :=
  Relation.ReflTransGen fun s t => ∃ x, TearStep ids s x t

end Model

end Ppool
end Emberlite
