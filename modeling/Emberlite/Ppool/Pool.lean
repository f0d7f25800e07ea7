import Emberlite.Ppool.Queue
import Mathlib.Logic.Function.Basic

/-! The thread pool of `components/ppool/src/ppool.c`: `ppool_add` and the worker loop `ppool_run`, as the
    steps of any number of threads between which the scheduler may switch.

    A step ends where another thread may see a difference: at each lock and unlock, at the wait, and at each
    access to the queue. The mutex is free or has one owner; `pthread_cond_wait` gives it up as it goes to
    sleep, and takes it again before it returns. -/

namespace Emberlite
namespace Ppool

/-- `pool_task`; `entry` 0 is NULL. -/
structure PoolTask where
  entry : UInt64
  parameter : UInt64
  priority : Int
  deriving DecidableEq, Repr

/-- The point in `ppool_run` that a worker has reached. -/
inductive WorkerPc where
  -- Before `pthread_mutex_lock`.
  | lock
  -- At the condition of the wait loop.
  | check
  -- Asleep in `pthread_cond_wait`.
  | waiting
  -- In `pthread_cond_wait`, awake and without the lock.
  | woken
  -- Past the wait loop.
  | getTask
  -- Before `pthread_mutex_unlock`, with the task it got.
  | unlock (task : Option Addr)
  -- In `task->entry`.
  | run (task : Addr)
  -- Before `free(task)`.
  | free (task : Addr)
  deriving DecidableEq, Repr

/-- The point that a call of `ppool_add` has reached. -/
inductive CallPc where
  | idle
  -- Before `pthread_mutex_lock`, with its new node.
  | lock (node : Addr)
  -- Before `ppool_queue_add`.
  | insert (node : Addr)
  -- Before `pthread_cond_broadcast`.
  | broadcast
  -- Before `pthread_mutex_unlock`.
  | unlock
  | returned (result : Bool)
  deriving DecidableEq, Repr

/-- A thread that may own `ppool_lock`: a worker, or the caller of the `ppool_add` with this number. -/
inductive Thread (W : Type) where
  | worker (w : W)
  | call (c : Nat)
  deriving DecidableEq, Repr

/-- `pool_t` with its threads, workers named by `W`. The last three fields record the history: which call
    allocated a node, the calls in the order in which they linked their nodes, and the workers that took a
    task, with the call it came from. -/
structure Pool (W : Type) where
  heap : Heap
  queue : PoolQueue
  ppoolLock : Option (Thread W)
  workers : W → WorkerPc
  calls : Nat → CallPc
  ticket : Addr → Nat
  linked : List Nat
  taken : List (W × Nat)

section Steps
variable {W : Type} [DecidableEq W]

/-- After `ppool_init`: every worker is about to take the lock. -/
def Pool.init : Pool W where
  heap := ∅
  queue := .init
  ppoolLock := none
  workers _ := .lock
  calls _ := .idle
  ticket _ := 0
  linked := []
  taken := []

/-- One worker moves. -/
def Pool.setWorker (s : Pool W) (w : W) (pc : WorkerPc) : Pool W :=
  { s with workers := Function.update s.workers w pc }

/-- One call moves. -/
def Pool.setCall (s : Pool W) (c : Nat) (pc : CallPc) : Pool W :=
  { s with calls := Function.update s.calls c pc }

/-- The part of `ppool_add` before the lock: its checks, and `ppool_queue_new` when `malloc` gives this
    address, or fails. -/
def addNew (heap : Heap) (task : Option PoolTask) (malloc : Option Addr) : Option (Addr × Heap) :=
  match task with
  | none => none
  | some task =>
    if task.entry = 0 then none
    else
      match malloc with
      | none => none
      | some a => (queueNew heap a task.entry task.parameter task.priority).map fun heap => (a, heap)

/-- `pthread_cond_broadcast`. -/
def wakeAll (workers : W → WorkerPc) (w : W) : WorkerPc :=
  if workers w = .waiting then .woken else workers w

/-- A worker's step. -/
inductive WorkerStep (w : W) : Pool W → Pool W → Prop
  | lock {s : Pool W} : s.workers w = .lock → s.ppoolLock = none →
      WorkerStep w s { s.setWorker w .check with ppoolLock := some (.worker w) }
  | check {s : Pool W} : s.workers w = .check → ¬s.queue.len ≤ 0 → WorkerStep w s (s.setWorker w .getTask)
  | wait {s : Pool W} : s.workers w = .check → s.queue.len ≤ 0 →
      WorkerStep w s { s.setWorker w .waiting with ppoolLock := none }
  -- A wake-up without a broadcast.
  | spurious {s : Pool W} : s.workers w = .waiting → WorkerStep w s (s.setWorker w .woken)
  | relock {s : Pool W} : s.workers w = .woken → s.ppoolLock = none →
      WorkerStep w s { s.setWorker w .check with ppoolLock := some (.worker w) }
  | getTask {s : Pool W} {task : Option Addr} {queue : PoolQueue} : s.workers w = .getTask →
      queueGetTask s.heap s.queue = some (task, queue) →
      WorkerStep w s { s.setWorker w (.unlock task) with
        queue
        taken := s.taken ++ (task.map fun a => (w, s.ticket a)).toList }
  | unlockTask {s : Pool W} {a : Addr} : s.workers w = .unlock (some a) →
      WorkerStep w s { s.setWorker w (.run a) with ppoolLock := none }
  -- `continue` on a NULL task.
  | unlockNull {s : Pool W} : s.workers w = .unlock none →
      WorkerStep w s { s.setWorker w .lock with ppoolLock := none }
  -- `task->entry` returns.
  | run {s : Pool W} {a : Addr} : s.workers w = .run a → WorkerStep w s (s.setWorker w (.free a))
  | free {s : Pool W} {a : Addr} : s.workers w = .free a →
      WorkerStep w s { s.setWorker w .lock with heap := s.heap.erase a }

/-- A step of call `c` of `ppool_add`, with argument `task`. -/
inductive CallStep (task : Option PoolTask) (c : Nat) : Pool W → Pool W → Prop
  | refuse {s : Pool W} {malloc : Option Addr} : s.calls c = .idle → addNew s.heap task malloc = none →
      CallStep task c s (s.setCall c (.returned false))
  | new {s : Pool W} {a : Addr} {heap : Heap} : s.calls c = .idle → s.heap.lookup a = none →
      addNew s.heap task (some a) = some (a, heap) →
      CallStep task c s { s.setCall c (.lock a) with heap, ticket := Function.update s.ticket a c }
  | lock {s : Pool W} {a : Addr} : s.calls c = .lock a → s.ppoolLock = none →
      CallStep task c s { s.setCall c (.insert a) with ppoolLock := some (.call c) }
  | insert {s : Pool W} {a : Addr} {heap : Heap} {queue : PoolQueue} : s.calls c = .insert a →
      queueAdd s.heap s.queue a = some (heap, queue) →
      CallStep task c s { s.setCall c .broadcast with heap, queue, linked := s.linked ++ [c] }
  | broadcast {s : Pool W} : s.calls c = .broadcast →
      CallStep task c s { s.setCall c .unlock with workers := wakeAll s.workers }
  | unlock {s : Pool W} : s.calls c = .unlock →
      CallStep task c s { s.setCall c (.returned true) with ppoolLock := none }

/-- One step of the pool, for calls of `ppool_add` with the arguments `args`. -/
inductive Step (args : Nat → Option PoolTask) : Pool W → Pool W → Prop
  | worker {s t : Pool W} (w : W) : WorkerStep w s t → Step args s t
  | call {s t : Pool W} (c : Nat) : CallStep (args c) c s t → Step args s t

/-- The calls whose tasks are in the queue, first to last. -/
def Pool.pending (s : Pool W) : List Nat := (nodes s.heap s.queue).map s.ticket

/-- The states of a pool that never has 2^31 tasks pending, before `ppool_destroy`. -/
inductive Reachable (args : Nat → Option PoolTask) : Pool W → Prop
  | init : Reachable args Pool.init
  | step {s t : Pool W} : Reachable args s → Step args s t → t.pending.length < 2 ^ 31 → Reachable args t

end Steps

end Ppool
end Emberlite
