import Emberlite.Ppool.PoolInv

/-! The steps of the workers keep the invariant, and what it says of every state of a run: no task is lost or
    taken twice, tasks leave in order, and no worker sleeps on a queue that nobody will wake it for. -/

namespace Emberlite
namespace Ppool

section Safety
variable {W : Type} {args : Nat → Option PoolTask} {s : Pool W} {as : List Addr}

/-- The workers that took the task of call `c`. -/
def Pool.takers (s : Pool W) (c : Nat) : List W := (s.taken.filter fun p => p.2 = c).map Prod.fst

/-- What a pool promises in each of its states. -/
structure PoolSafe (args : Nat → Option PoolTask) (s : Pool W) : Prop where
  /-- The queue is a null-terminated list that visits no node twice, and its counter is right. -/
  list : LinkedSegment.Seg (nextOf s.heap) s.queue.head (nodes s.heap s.queue) none
  nodup : (nodes s.heap s.queue).Nodup
  len : s.queue.len = (nodes s.heap s.queue).length
  /-- A task that was added is linked once, or was taken by one worker. -/
  once : ∀ c, s.calls c = .returned true →
    s.pending.count c = 1 ∧ s.takers c = [] ∨ c ∉ s.pending ∧ ∃ w, s.takers c = [w]
  /-- What a worker runs and frees is the task that it alone took. -/
  own : ∀ w a, (s.workers w).node = some a →
    s.takers (s.ticket a) = [w] ∧ IsTask args s.heap a (s.ticket a)
  /-- The next task that a worker gets goes before every other. -/
  order : ∀ w, s.workers w = .getTask → ∃ a rest queue,
    queueGetTask s.heap s.queue = some (some a, queue) ∧ s.pending = s.ticket a :: rest ∧
      ∀ c ∈ rest, Before args s.linked (s.ticket a) c
  notNull : ∀ w, s.workers w ≠ .unlock none
  /-- `ppool_queue_add` returns. -/
  add : ∀ c a, s.calls c = .insert a → ∃ heap queue, queueAdd s.heap s.queue a = some (heap, queue)
  /-- A worker that sleeps while there is a task is about to be woken, by the owner of the lock. -/
  awake : ∀ w, s.workers w = .waiting → s.queue.head ≠ none →
    ∃ c, s.calls c = .broadcast ∧ s.ppoolLock = some (.call c)

theorem takers_eq_nil {c : Nat} (h : c ∉ s.taken.map Prod.snd) : s.takers c = [] := by
  rw [Pool.takers, List.map_eq_nil_iff, List.filter_eq_nil_iff]
  rintro p hp hc
  exact h (of_decide_eq_true hc ▸ List.mem_map_of_mem hp)

theorem DataInv.takers_eq_singleton {w : W} {c : Nat} (h : DataInv args s as) (hc : (w, c) ∈ s.taken) :
    s.takers c = [w] := by
  obtain ⟨-, htaken, -⟩ := List.nodup_append.mp h.tickets_nodup
  obtain ⟨pre, post, hsplit⟩ := List.append_of_mem hc
  rw [hsplit, List.map_append, List.map_cons, List.nodup_middle, List.nodup_cons, List.mem_append, not_or] at htaken
  obtain ⟨⟨hpre, hpost⟩, -⟩ := htaken
  have hnil : ∀ l : List (W × Nat), c ∉ l.map Prod.snd → l.filter (fun p => p.2 = c) = [] := by
    intro l hl
    rw [List.filter_eq_nil_iff]
    rintro p hp heq
    exact hl (of_decide_eq_true heq ▸ List.mem_map_of_mem hp)
  rw [Pool.takers, hsplit, List.filter_append, hnil pre hpre, List.nil_append, List.filter_cons_of_pos (by simp),
    hnil post hpost, List.map_singleton]

/-- A linked task is in the queue once, or with the one worker that took it. -/
theorem DataInv.once {c : Nat} (h : DataInv args s as) (hc : c ∈ s.linked) :
    (as.map s.ticket).count c = 1 ∧ s.takers c = [] ∨ c ∉ as.map s.ticket ∧ ∃ w, s.takers c = [w] := by
  obtain ⟨hpending, -, hdisj⟩ := List.nodup_append.mp h.tickets_nodup
  rcases List.mem_append.mp (h.perm.mem_iff.mpr hc) with hin | htaken
  · refine .inl ⟨List.count_eq_one_of_mem hpending hin, takers_eq_nil fun hmem => ?_⟩
    exact hdisj c hin c hmem rfl
  · obtain ⟨⟨w, d⟩, hmem, rfl⟩ := List.mem_map.mp htaken
    exact .inr ⟨fun hin => hdisj d hin d htaken rfl, w, h.takers_eq_singleton hmem⟩

theorem Inv.safe (h : Inv args s as) : PoolSafe args s := by
  have hnodes : nodes s.heap s.queue = as := h.data.queue.nodes_eq
  constructor
  · exact hnodes ▸ h.data.queue.seg
  · exact hnodes ▸ h.data.queue.seg.nodup
  · exact hnodes ▸ h.data.queue.len_eq h.data.room
  · intro c hc
    rw [Pool.pending, hnodes]
    refine h.data.once ((h.data.mem_linked c).mpr ?_)
    rw [hc]
    trivial
  · intro w a hw
    obtain ⟨hmem, htask⟩ := h.data.workerNode w a hw
    exact ⟨h.data.takers_eq_singleton hmem, htask⟩
  · intro w hw
    obtain ⟨a, rest, queue, rfl, hget, -⟩ := h.getTask hw
    refine ⟨a, rest.map s.ticket, queue, hget, by rw [Pool.pending, hnodes, List.map_cons], ?_⟩
    exact (List.pairwise_cons.mp h.data.sorted).1
  · exact h.wake.got
  · intro c a hc
    obtain ⟨heap, queue, hadd, -⟩ := h.data.insert hc
    exact ⟨heap, queue, hadd⟩
  · intro w hw hhead
    have hne : as ≠ [] := by
      rintro rfl
      exact hhead h.data.queue.seg
    obtain ⟨c, hc⟩ := h.wake.awake w hw hne
    have hholds : s.Holds (.call c) := by rw [Pool.Holds, hc]; trivial
    exact ⟨c, hc, h.lock.owner_eq hholds⟩

end Safety

section Run
variable {W : Type} [DecidableEq W] {args : Nat → Option PoolTask} {s t : Pool W} {as : List Addr}

/-! ### The lock -/

theorem holds_setWorker {w : W} {pc : WorkerPc} {u : Thread W} (hu : u ≠ .worker w) :
    (s.setWorker w pc).Holds u ↔ s.Holds u := by
  cases u with
  | worker v =>
    have hv : v ≠ w := fun h => hu (h ▸ rfl)
    simp [Pool.Holds, Pool.setWorker, hv]
  | call c => rfl

theorem holds_setWorker_self {w : W} {pc : WorkerPc} : (s.setWorker w pc).Holds (.worker w) ↔ pc.Holds := by
  simp [Pool.Holds, Pool.setWorker]

theorem owns_moveWorker {w : W} {pc : WorkerPc} (h : Mutex.Owns s.Holds s.ppoolLock)
    (hpc : pc.Holds ↔ (s.workers w).Holds) : Mutex.Owns (s.setWorker w pc).Holds s.ppoolLock :=
  h.stay (fun _ hu => holds_setWorker hu) (holds_setWorker_self.trans hpc)

theorem owns_lockWorker {w : W} {pc : WorkerPc} (h : Mutex.Owns s.Holds s.ppoolLock) (hfree : s.ppoolLock = none)
    (hpc : pc.Holds) : Mutex.Owns (s.setWorker w pc).Holds (some (.worker w)) :=
  h.acquire (fun _ hu => holds_setWorker hu) hfree (holds_setWorker_self.mpr hpc)

theorem owns_unlockWorker {w : W} {pc : WorkerPc} (h : Mutex.Owns s.Holds s.ppoolLock)
    (hw : (s.workers w).Holds) (hpc : ¬pc.Holds) : Mutex.Owns (s.setWorker w pc).Holds none :=
  h.release (t := .worker w) (fun _ hu => holds_setWorker hu) hw (mt holds_setWorker_self.mp hpc)

/-! ### The nodes -/

theorem DataInv.moveWorker {w : W} {pc : WorkerPc} {owner : Option (Thread W)} (h : DataInv args s as)
    (hnode : ∀ a, pc.node = some a → (s.workers w).node = some a) :
    DataInv args { s.setWorker w pc with ppoolLock := owner } as := by
  refine { h with workerNode := fun v a hv => h.workerNode v a ?_ }
  by_cases hvw : v = w
  · subst hvw
    exact hnode a (by simpa [Pool.setWorker] using hv)
  · simpa [Pool.setWorker, hvw] using hv

theorem DataInv.take {w : W} {a : Addr} {rest : List Addr} {queue : PoolQueue} (h : DataInv args s (a :: rest))
    (hqueue : IsQueue s.heap queue rest) :
    DataInv args { s.setWorker w (.unlock (some a)) with queue, taken := s.taken ++ [(w, s.ticket a)] } rest := by
  have hroom := h.room
  rw [List.length_cons] at hroom
  refine { h with queue := hqueue, room := Nat.lt_of_succ_lt hroom, sorted := ?_, perm := ?_,
                  task := fun b hb => h.task b (List.mem_cons_of_mem a hb), workerNode := fun v b hv => ?_ }
  · exact (List.pairwise_cons.mp h.sorted).2
  · have hmove : (rest.map s.ticket ++ (s.taken ++ [(w, s.ticket a)]).map Prod.snd).Perm
        ((a :: rest).map s.ticket ++ s.taken.map Prod.snd) := by
      rw [List.map_append, ← List.append_assoc]
      exact List.perm_append_singleton _ _
    exact hmove.trans h.perm
  · by_cases hvw : v = w
    · subst hvw
      have hab : a = b := by simpa [Pool.setWorker, WorkerPc.node] using hv
      subst hab
      exact ⟨List.mem_append_right _ (List.mem_singleton_self _), h.task a List.mem_cons_self⟩
    · obtain ⟨hmem, htask⟩ := h.workerNode v b (by simpa [Pool.setWorker, hvw] using hv)
      exact ⟨List.mem_append_left _ hmem, htask⟩

theorem DataInv.free {w : W} {a : Addr} (h : DataInv args s as) (hw : s.workers w = .free a) :
    DataInv args { s.setWorker w .lock with heap := s.heap.erase a } as := by
  have hnode : (s.workers w).node = some a := by rw [hw]; rfl
  obtain ⟨hout, hcalls, hworkers⟩ := h.workerNode_own hnode
  have hmoved : DataInv args (s.setWorker w .lock) as := h.moveWorker fun _ h => by cases h
  refine hmoved.frame (fun b hb => AList.lookup_erase_ne ?_) fun _ _ => rfl
  rintro rfl
  rcases hb with hb | ⟨c, hc⟩ | ⟨v, hv⟩
  · exact hout hb
  · exact hcalls c hc
  · by_cases hvw : v = w
    · subst hvw
      simp [Pool.setWorker, WorkerPc.node] at hv
    · exact hvw (hworkers v (by simpa [Pool.setWorker, hvw] using hv))

theorem WakeInv.setWorker {workers : W → WorkerPc} {calls : Nat → CallPc} {w : W} {pc : WorkerPc}
    (h : WakeInv workers calls as) (hready : pc = .getTask → as ≠ []) (hgot : pc ≠ .unlock none)
    (hwait : pc = .waiting → as = []) : WakeInv (Function.update workers w pc) calls as := by
  refine ⟨fun v hv => ?_, fun v hv => ?_, fun v hv hne => ?_⟩
  all_goals
    rw [Function.update_apply] at hv
    split at hv
  · exact hready hv
  · exact h.ready v hv
  · exact hgot hv
  · exact h.got v hv
  · exact (hne (hwait hv)).elim
  · exact h.awake v hv hne

/-! ### The workers -/

theorem workerStep_inv {w : W} (h : Inv args s as) (hs : WorkerStep w s t) : ∃ bs, Inv args t bs := by
  cases hs with
  | lock _ hfree =>
    exact ⟨as, h.data.moveWorker (fun _ h => by cases h), owns_lockWorker h.lock hfree trivial,
      h.wake.setWorker (by simp) (by simp) (by simp)⟩
  | check hw hlen =>
    have hne : as ≠ [] := fun hnil => hlen ((h.data.queue.len_le_zero h.data.room).mpr hnil)
    exact ⟨as, h.data.moveWorker (fun _ h => by cases h), owns_moveWorker h.lock (by rw [hw]; rfl),
      h.wake.setWorker (fun _ => hne) (by simp) (by simp)⟩
  | wait hw hlen =>
    have hnil : as = [] := (h.data.queue.len_le_zero h.data.room).mp hlen
    exact ⟨as, h.data.moveWorker (fun _ h => by cases h), owns_unlockWorker h.lock (by rw [hw]; trivial) not_false,
      h.wake.setWorker (by simp) (by simp) (fun _ => hnil)⟩
  | spurious hw =>
    exact ⟨as, h.data.moveWorker (fun _ h => by cases h), owns_moveWorker h.lock (by rw [hw]; rfl),
      h.wake.setWorker (by simp) (by simp) (by simp)⟩
  | relock _ hfree =>
    exact ⟨as, h.data.moveWorker (fun _ h => by cases h), owns_lockWorker h.lock hfree trivial,
      h.wake.setWorker (by simp) (by simp) (by simp)⟩
  | getTask hw hget =>
    obtain ⟨a, rest, queue, rfl, hget', hqueue⟩ := h.getTask hw
    rw [hget] at hget'
    cases hget'
    refine ⟨rest, h.data.take hqueue, owns_moveWorker h.lock (by rw [hw]; rfl), ?_⟩
    refine (h.wake.setWorker (by simp) (by simp) (by simp)).tail fun v hv => ?_
    -- The lock keeps every other worker out.
    by_cases hvw : v = w
    · subst hvw
      simp at hv
    · rw [Function.update_of_ne hvw] at hv
      have hholds : s.Holds (.worker v) := by rw [Pool.Holds, hv]; trivial
      have heq := h.lock.exclusive hholds (u := .worker w) (by rw [Pool.Holds, hw]; trivial)
      cases heq
      exact hvw rfl
  | unlockTask hw =>
    exact ⟨as, h.data.moveWorker (fun _ h => by rwa [hw]),
      owns_unlockWorker h.lock (by rw [hw]; trivial) not_false, h.wake.setWorker (by simp) (by simp) (by simp)⟩
  | unlockNull hw => exact (h.wake.got w hw).elim
  | run hw =>
    exact ⟨as, h.data.moveWorker (fun _ h => by rwa [hw]), owns_moveWorker h.lock (by rw [hw]; rfl),
      h.wake.setWorker (by simp) (by simp) (by simp)⟩
  | free hw =>
    exact ⟨as, h.data.free hw, owns_moveWorker h.lock (by rw [hw]; rfl),
      h.wake.setWorker (by simp) (by simp) (by simp)⟩

theorem step_inv (h : Inv args s as) (hs : Step args s t) (hroom : t.pending.length < 2 ^ 31) :
    ∃ bs, Inv args t bs := by
  cases hs with
  | worker w hw => exact workerStep_inv h hw
  | call c hc => exact callStep_inv h hc hroom

theorem reachable_inv (h : Reachable args s) : ∃ as, Inv args s as := by
  induction h with
  | init => exact ⟨[], init_inv⟩
  | step _ hs hroom ih =>
    obtain ⟨as, ih⟩ := ih
    exact step_inv ih hs hroom

theorem reachable_safe (h : Reachable args s) : PoolSafe args s := by
  obtain ⟨as, hinv⟩ := reachable_inv h
  exact hinv.safe

end Run

/-- One worker went to sleep on the empty queue, and a task was linked since. -/
theorem reachable_safe_asleep :
    ∃ s : Pool Unit, s.workers () = .waiting ∧ s.calls 0 = .broadcast ∧ s.pending = [0] ∧
      PoolSafe (fun c => if c = 0 then some ⟨1, 0, 0⟩ else none) s := by
  have h₁ : Reachable (fun c => if c = 0 then some ⟨1, 0, 0⟩ else none) _ :=
    .step (.init (W := Unit)) (.worker () (.lock rfl rfl)) (by decide)
  have h₂ := h₁.step (.worker () (.wait rfl (by decide))) (by decide)
  have h₃ := h₂.step (.call 0 (.new (a := 0) rfl rfl rfl)) (by decide)
  have h₄ := h₃.step (.call 0 (.lock rfl rfl)) (by decide)
  have h₅ := h₄.step (.call 0 (.insert rfl rfl)) (by decide)
  exact ⟨_, rfl, rfl, rfl, reachable_safe h₅⟩

end Ppool
end Emberlite
