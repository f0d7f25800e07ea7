import Emberlite.Ppool.Progress

/-! A pool that rests: nothing but a new call or a spurious wake-up can move it. Then every thread is back where it
    waits, every task that was added was run once, and no node is left. -/

namespace Emberlite
namespace Ppool

section Nodes
variable {W : Type} {args : Nat → Option PoolTask} {s t : Pool W} {as bs : List Addr} {a : Addr}

/-- Every allocated node is in the queue or in somebody's hands. -/
def Pool.Tight (s : Pool W) : Prop := ∀ a node, s.heap.lookup a = some node → s.InUse (nodes s.heap s.queue) a

theorem InUse.imp (h : s.InUse as a) (hqueue : a ∈ as → t.InUse bs a)
    (hcalls : ∀ c, (s.calls c).node = some a → t.InUse bs a)
    (hworkers : ∀ w, (s.workers w).node = some a → t.InUse bs a) : t.InUse bs a := by
  rcases h with h | ⟨c, hc⟩ | ⟨w, hw⟩
  · exact hqueue h
  · exact hcalls c hc
  · exact hworkers w hw

theorem Pool.Tight.congr (h : s.Tight) (hheap : t.heap = s.heap) (hqueue : t.queue = s.queue)
    (hcalls : ∀ c, (t.calls c).node = (s.calls c).node) (hworkers : ∀ w, (t.workers w).node = (s.workers w).node) :
    t.Tight := by
  intro a node ha
  rw [hheap] at ha
  rw [hheap, hqueue]
  refine InUse.imp (h a node ha) .inl (fun c hc => ?_) fun w hw => ?_
  · exact .inr (.inl ⟨c, (hcalls c).trans hc⟩)
  · exact .inr (.inr ⟨w, (hworkers w).trans hw⟩)

variable [DecidableEq W]

end Nodes

/-! ### What was run -/

/-- The task that a worker has taken and not run. -/
def WorkerPc.toRun : WorkerPc → Option Addr
  | .unlock task => task
  | .run a => some a
  | .lock | .check | .waiting | .woken | .getTask | .free _ => none

section Ran
variable {W : Type} {args : Nat → Option PoolTask} {s t : Pool W} {as : List Addr} {events : List (Event W)}

/-- A task was run if a worker took it and is not about to run it, and then it was run once. -/
structure Pool.Ran (events : List (Event W)) (s : Pool W) : Prop where
  nodup : (finished events).Nodup
  mem : ∀ c, c ∈ finished events ↔
    c ∈ s.taken.map Prod.snd ∧ ∀ w a, (s.workers w).toRun = some a → s.ticket a ≠ c

theorem finished_append (events : List (Event W)) (e : Event W) :
    finished (events ++ [e]) = finished events ++ e.finished.toList := by
  rw [finished, List.filterMap_append]
  cases e <;> rfl

/-- A step that takes no task and runs none. -/
theorem Pool.Ran.congr {e : Event W} (h : s.Ran events) (he : e.finished = none) (htaken : t.taken = s.taken)
    (hworkers : ∀ w, (t.workers w).toRun = (s.workers w).toRun)
    (hticket : ∀ w a, (s.workers w).toRun = some a → t.ticket a = s.ticket a) : t.Ran (events ++ [e]) := by
  have hsame : finished (events ++ [e]) = finished events := by
    rw [finished_append, he, Option.toList_none, List.append_nil]
  refine ⟨hsame ▸ h.nodup, fun c => ?_⟩
  rw [hsame, h.mem c, htaken]
  refine and_congr_right fun _ => forall₂_congr fun w a => ?_
  rw [hworkers w]
  exact ⟨fun hne ha => hticket w a ha ▸ hne ha, fun hne ha => (hticket w a ha).symm ▸ hne ha⟩

variable [DecidableEq W]

end Ran

/-! ### Rest -/

section Rest
variable {W : Type} [DecidableEq W] {args : Nat → Option PoolTask} {s : Pool W} {as : List Addr}
  {events : List (Event W)}

end Rest

/-- A call that has returned takes no step. -/
theorem not_callStep_of_returned {W : Type} {s t : Pool W} {task : Option PoolTask} {c : Nat} {r : Bool}
    (h : s.calls c = .returned r) : ¬CallStep task c s t := by
  intro hs
  cases hs with
  | refuse hc | new hc | lock hc | insert hc | broadcast hc | unlock hc =>
    rw [h] at hc
    cases hc

section Run
variable {W : Type} [DecidableEq W] {args : Nat → Option PoolTask} {s t : Pool W} {events : List (Event W)}

theorem run_worker (w : W) (pc : WorkerPc) (h : RunOf args events s) (hpc : s.workers w = pc)
    (hplain : pc ≠ .waiting ∧ ∀ a, pc ≠ .run a) (hs : WorkerStep w s t) (hroom : t.pending.length < 2 ^ 31) :
    RunOf args (events ++ [.worker w]) t :=
  h.snoc ⟨.worker (hpc ▸ hplain.1) (fun a => hpc ▸ hplain.2 a) hs, hroom⟩

theorem run_call (c : Nat) (pc : CallPc) (h : RunOf args events s) (hpc : s.calls c = pc) (hplain : pc ≠ .idle)
    (hs : CallStep (args c) c s t) (hroom : t.pending.length < 2 ^ 31) : RunOf args (events ++ [.call c]) t :=
  h.snoc ⟨.call (hpc ▸ hplain) hs, hroom⟩

end Run

/-- A worker sleeps, a task is added, and the worker runs it and sleeps again. -/
theorem run_one : ∃ s : Pool Unit, s.Rests (fun c => if c = 0 then some ⟨1, 0, 0⟩ else none) ∧
    RunOf (fun c => if c = 0 then some ⟨1, 0, 0⟩ else none)
      [.worker (), .worker (), .begin 0, .call 0, .call 0, .call 0, .call 0, .worker (), .worker (), .worker (),
        .worker (), .ran 0, .worker (), .worker (), .worker ()] s := by
  have h₁ : RunOf (fun c => if c = 0 then some ⟨1, 0, 0⟩ else none) _ _ :=
    run_worker () .lock .refl rfl (by simp) (.lock rfl rfl) (by decide)
  have h₂ := run_worker () .check h₁ rfl (by simp) (.wait rfl (by decide)) (by decide)
  have h₃ := h₂.snoc ⟨.begin (c := 0) rfl (.new (a := 0) rfl rfl rfl), by decide⟩
  have h₄ := run_call 0 (.lock 0) h₃ rfl (by simp) (.lock rfl rfl) (by decide)
  have h₅ := run_call 0 (.insert 0) h₄ rfl (by simp) (.insert rfl rfl) (by decide)
  have h₆ := run_call 0 .broadcast h₅ rfl (by simp) (.broadcast rfl) (by decide)
  have h₇ := run_call 0 .unlock h₆ rfl (by simp) (.unlock rfl) (by decide)
  have h₈ := run_worker () .woken h₇ rfl (by simp) (.relock rfl rfl) (by decide)
  have h₉ := run_worker () .check h₈ rfl (by simp) (.check rfl (by decide)) (by decide)
  have h₁₀ := run_worker () .getTask h₉ rfl (by simp) (.getTask rfl rfl) (by decide)
  have h₁₁ := run_worker () (.unlock (some 0)) h₁₀ rfl (by simp) (.unlockTask rfl) (by decide)
  have h₁₂ := h₁₁.snoc ⟨.ran (w := ()) (a := 0) rfl (.run (a := 0) rfl), by decide⟩
  have h₁₃ := run_worker () (.free 0) h₁₂ rfl (by simp) (.free rfl) (by decide)
  have h₁₄ := run_worker () .lock h₁₃ rfl (by simp) (.lock rfl rfl) (by decide)
  have h₁₅ := run_worker () .check h₁₄ rfl (by simp) (.wait rfl (by decide)) (by decide)
  refine ⟨_, ?_, h₁₅⟩
  rintro e t (⟨hidle, -⟩ | @⟨_, c, hidle, hs⟩ | _ | @⟨_, w, a, hrun, -⟩ | ⟨hwait, -, -⟩)
  · exact .inl rfl
  · by_cases hc : c = 0
    · subst hc
      exact (not_callStep_of_returned (r := true) rfl hs).elim
    · exact (hidle (by simp [Pool.setCall, Pool.setWorker, Pool.init, hc])).elim
  · exact .inr rfl
  · cases hrun
  · exact (hwait rfl).elim

/-- It takes 15 steps, of at most 35. -/
theorem run_length_le_one : ∃ s : Pool Unit, ∃ events,
    RunOf (fun c => if c = 0 then some ⟨1, 0, 0⟩ else none) events s ∧ events.length = 15 ∧
      events.length ≤ 8 * 1 + (begun events).length * (11 + 8 * 1) + 9 * events.countP Event.Spurious := by
  obtain ⟨s, -, hrun⟩ := run_one
  exact ⟨s, _, hrun, rfl, run_length_le hrun⟩

end Ppool
end Emberlite
