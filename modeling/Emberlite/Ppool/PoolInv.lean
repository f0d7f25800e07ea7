import Emberlite.Lib.Mutex
import Emberlite.Ppool.Pool
import Mathlib.Data.List.Count

/-! What holds in every state of a pool: which thread owns the lock, which node belongs to whom, and who
    will wake a sleeping worker. -/

namespace Emberlite
namespace Ppool

/-- The node that a worker has taken and not freed. -/
def WorkerPc.node : WorkerPc → Option Addr
  | .unlock task => task
  | .run a | .free a => some a
  | .lock | .check | .waiting | .woken | .getTask => none

/-- In the critical section. -/
def WorkerPc.Holds : WorkerPc → Prop
  | .check | .getTask | .unlock _ => True
  | .lock | .waiting | .woken | .run _ | .free _ => False

/-- The node that a call has allocated and not linked. -/
def CallPc.node : CallPc → Option Addr
  | .lock a | .insert a => some a
  | .idle | .broadcast | .unlock | .returned _ => none

/-- In the critical section. -/
def CallPc.Holds : CallPc → Prop
  | .insert _ | .broadcast | .unlock => True
  | .idle | .lock _ | .returned _ => False

/-- The call has linked its node. -/
def CallPc.HasLinked : CallPc → Prop
  | .broadcast | .unlock | .returned true => True
  | .idle | .lock _ | .insert _ | .returned false => False

/-- The priority of the task that call `c` adds. -/
def prio (args : Nat → Option PoolTask) (c : Nat) : Int := ((args c).map (·.priority)).getD 0

/-- Call `c` goes before call `d`: by its priority, or among equals because it was linked first. -/
def Before (args : Nat → Option PoolTask) (linked : List Nat) (c d : Nat) : Prop :=
  prio args c < prio args d ∨ prio args c = prio args d ∧ linked.idxOf c < linked.idxOf d

/-- The node says what the argument of call `c` says. -/
def IsTask (args : Nat → Option PoolTask) (heap : Heap) (a : Addr) (c : Nat) : Prop :=
  ∃ task, args c = some task ∧ contentOf heap a = some (task.entry, task.parameter, task.priority)

section Invariant
variable {W : Type} {args : Nat → Option PoolTask} {s t : Pool W} {as : List Addr}

/-- The nodes `as` of the queue, and those in the hands of the threads. -/
structure DataInv (args : Nat → Option PoolTask) (s : Pool W) (as : List Addr) : Prop where
  queue : IsQueue s.heap s.queue as
  room : as.length < 2 ^ 31
  sorted : (as.map s.ticket).Pairwise (Before args s.linked)
  perm : (as.map s.ticket ++ s.taken.map Prod.snd).Perm s.linked
  nodup : s.linked.Nodup
  mem_linked : ∀ c, c ∈ s.linked ↔ (s.calls c).HasLinked
  task : ∀ a ∈ as, IsTask args s.heap a (s.ticket a)
  callNode : ∀ c a, (s.calls c).node = some a →
    s.ticket a = c ∧ IsTask args s.heap a c ∧ nextOf s.heap a = some none
  workerNode : ∀ w a, (s.workers w).node = some a →
    (w, s.ticket a) ∈ s.taken ∧ IsTask args s.heap a (s.ticket a)

/-- In the critical section. -/
def Pool.Holds (s : Pool W) : Thread W → Prop
  | .worker w => (s.workers w).Holds
  | .call c => (s.calls c).Holds

/-- A worker past the wait loop finds a task, and one that sleeps on a non-empty queue is about to be woken. -/
structure WakeInv (workers : W → WorkerPc) (calls : Nat → CallPc) (as : List Addr) : Prop where
  ready : ∀ w, workers w = .getTask → as ≠ []
  got : ∀ w, workers w ≠ .unlock none
  awake : ∀ w, workers w = .waiting → as ≠ [] → ∃ c, calls c = .broadcast

/-- The invariant of a pool in use: the queue and its nodes, the owner of the lock, and the wake-ups. -/
structure Inv (args : Nat → Option PoolTask) (s : Pool W) (as : List Addr) : Prop where
  data : DataInv args s as
  lock : Mutex.Owns s.Holds s.ppoolLock
  wake : WakeInv s.workers s.calls as

/-! ### The nodes -/

theorem IsTask.congr {heap heap' : Heap} {a : Addr} {c : Nat} (h : IsTask args heap a c)
    (heq : contentOf heap' a = contentOf heap a) : IsTask args heap' a c := by
  obtain ⟨task, htask, hcontent⟩ := h
  exact ⟨task, htask, heq.trans hcontent⟩

theorem IsTask.lookup {heap : Heap} {a : Addr} {c : Nat} (h : IsTask args heap a c) :
    ∃ node, heap.lookup a = some node ∧ node.priority = prio args c := by
  obtain ⟨task, htask, hcontent⟩ := h
  obtain ⟨node, hnode, heq⟩ := Option.map_eq_some_iff.mp hcontent
  refine ⟨node, hnode, ?_⟩
  rw [prio, htask]
  exact congrArg (fun x => x.2.2) heq

theorem IsTask.priorityOf_eq {heap : Heap} {a : Addr} {c : Nat} (h : IsTask args heap a c) :
    priorityOf heap a = prio args c := by
  obtain ⟨node, hnode, hprio⟩ := h.lookup
  rw [priorityOf, hnode]
  exact hprio

theorem addNew_eq_some {heap heap' : Heap} {task : Option PoolTask} {malloc : Option Addr} {a : Addr}
    (h : addNew heap task malloc = some (a, heap')) :
    malloc = some a ∧ ∃ t, task = some t ∧ heap' = heap.insert a ⟨t.entry, t.parameter, t.priority, none⟩ := by
  rcases task with _ | t
  · cases h
  · rcases malloc with _ | b
    · simp [addNew] at h
    · simp only [addNew] at h
      split at h
      · cases h
      · obtain ⟨heap₀, hnew, heq⟩ := Option.map_eq_some_iff.mp h
        cases heq
        rw [queueNew] at hnew
        split at hnew
        · cases hnew
        · cases hnew
          exact ⟨rfl, t, rfl, rfl⟩

theorem DataInv.tickets_nodup (h : DataInv args s as) : (as.map s.ticket ++ s.taken.map Prod.snd).Nodup :=
  h.perm.nodup_iff.mpr h.nodup

/-- A node that its call has not linked yet belongs to nobody else. -/
theorem DataInv.callNode_own {c : Nat} {a : Addr} (h : DataInv args s as) (hc : (s.calls c).node = some a) :
    a ∉ as ∧ c ∉ s.linked ∧ ∀ d, (s.calls d).node = some a → d = c := by
  obtain ⟨hticket, -, -⟩ := h.callNode c a hc
  have hunlinked : c ∉ s.linked := by
    rw [h.mem_linked]
    cases hpc : s.calls c <;> simp [hpc, CallPc.node, CallPc.HasLinked] at hc ⊢
  refine ⟨fun ha => hunlinked (h.perm.mem_iff.mp (List.mem_append_left _ ?_)), hunlinked, fun d hd => ?_⟩
  · exact hticket ▸ List.mem_map_of_mem ha
  · obtain ⟨hticket', -, -⟩ := h.callNode d a hd
    exact hticket'.symm.trans hticket

/-- A node that a worker took is in no other hands. -/
theorem DataInv.workerNode_own {w : W} {a : Addr} (h : DataInv args s as) (hw : (s.workers w).node = some a) :
    a ∉ as ∧ (∀ c, (s.calls c).node ≠ some a) ∧ ∀ v, (s.workers v).node = some a → v = w := by
  obtain ⟨hmem, -⟩ := h.workerNode w a hw
  obtain ⟨-, htaken, hdisj⟩ := List.nodup_append.mp h.tickets_nodup
  refine ⟨fun ha => hdisj _ (List.mem_map_of_mem ha) _ (List.mem_map_of_mem hmem) rfl, fun c hc => ?_,
    fun v hv => ?_⟩
  · obtain ⟨hticket, -, -⟩ := h.callNode c a hc
    obtain ⟨-, hunlinked, -⟩ := h.callNode_own hc
    exact hunlinked (h.perm.mem_iff.mp (List.mem_append_right _ (hticket ▸ List.mem_map_of_mem hmem)))
  · obtain ⟨hmem', -⟩ := h.workerNode v a hv
    have heq := List.inj_on_of_nodup_map htaken hmem' hmem rfl
    exact congrArg Prod.fst heq

/-- A node of the queue or in somebody's hands. -/
def Pool.InUse (s : Pool W) (as : List Addr) (a : Addr) : Prop :=
  a ∈ as ∨ (∃ c, (s.calls c).node = some a) ∨ ∃ w, (s.workers w).node = some a

theorem DataInv.lookup_of_inUse {a : Addr} (h : DataInv args s as) (ha : s.InUse as a) :
    ∃ node, s.heap.lookup a = some node := by
  have htask : ∃ c, IsTask args s.heap a c := by
    rcases ha with ha | ⟨c, hc⟩ | ⟨w, hw⟩
    · exact ⟨_, h.task a ha⟩
    · obtain ⟨-, htask, -⟩ := h.callNode c a hc
      exact ⟨c, htask⟩
    · obtain ⟨-, htask⟩ := h.workerNode w a hw
      exact ⟨_, htask⟩
  obtain ⟨c, htask⟩ := htask
  obtain ⟨node, hnode, -⟩ := htask.lookup
  exact ⟨node, hnode⟩

/-- Cells that are not in use may change. -/
theorem DataInv.frame {heap : Heap} {ticket : Addr → Nat} (h : DataInv args s as)
    (hheap : ∀ a, s.InUse as a → heap.lookup a = s.heap.lookup a)
    (hticket : ∀ a, s.InUse as a → ticket a = s.ticket a) : DataInv args { s with heap, ticket } as := by
  have hnext : ∀ a, s.InUse as a → nextOf heap a = nextOf s.heap a := fun a ha => by
    rw [nextOf, hheap a ha, nextOf]
  have hcontent : ∀ a, s.InUse as a → contentOf heap a = contentOf s.heap a := fun a ha => by
    rw [contentOf, hheap a ha, contentOf]
  have htickets : as.map ticket = as.map s.ticket := List.map_congr_left fun a ha => hticket a (.inl ha)
  refine { h with queue := ?_, sorted := ?_, perm := ?_, task := fun a ha => ?_, callNode := fun c a hc => ?_,
                  workerNode := fun w a hw => ?_ }
  · exact ⟨h.queue.seg.congr fun a ha => hnext a (.inl ha), h.queue.len⟩
  · exact htickets ▸ h.sorted
  · exact htickets ▸ h.perm
  · change IsTask args heap a (ticket a)
    rw [hticket a (.inl ha)]
    exact (h.task a ha).congr (hcontent a (.inl ha))
  · have huse : s.InUse as a := .inr (.inl ⟨c, hc⟩)
    obtain ⟨heq, htask, hnull⟩ := h.callNode c a hc
    exact ⟨(hticket a huse).trans heq, htask.congr (hcontent a huse), (hnext a huse).trans hnull⟩
  · have huse : s.InUse as a := .inr (.inr ⟨w, hw⟩)
    obtain ⟨hmem, htask⟩ := h.workerNode w a hw
    change (w, ticket a) ∈ s.taken ∧ IsTask args heap a (ticket a)
    rw [hticket a huse]
    exact ⟨hmem, htask.congr (hcontent a huse)⟩

theorem DataInv.moveCall {c : Nat} {pc : CallPc} {owner : Option (Thread W)} (h : DataInv args s as)
    (hnode : ∀ a, pc.node = some a → (s.calls c).node = some a) (hlinked : (s.calls c).HasLinked ↔ pc.HasLinked) :
    DataInv args { s.setCall c pc with ppoolLock := owner } as := by
  refine { h with mem_linked := fun d => (h.mem_linked d).trans ?_, callNode := fun d a hd => h.callNode d a ?_ }
  · by_cases hdc : d = c
    · subst hdc
      simpa [Pool.setCall] using hlinked
    · simp [Pool.setCall, hdc]
  · by_cases hdc : d = c
    · subst hdc
      exact hnode a (by simpa [Pool.setCall] using hd)
    · simpa [Pool.setCall, hdc] using hd

theorem DataInv.give {c : Nat} {a : Addr} (h : DataInv args s as) (hc : s.calls c = .idle)
    (hticket : s.ticket a = c) (htask : IsTask args s.heap a c) (hnext : nextOf s.heap a = some none) :
    DataInv args (s.setCall c (.lock a)) as := by
  refine { h with mem_linked := fun d => (h.mem_linked d).trans ?_, callNode := fun d b hd => ?_ }
  · by_cases hdc : d = c
    · subst hdc
      simp [Pool.setCall, hc, CallPc.HasLinked]
    · simp [Pool.setCall, hdc]
  · by_cases hdc : d = c
    · subst hdc
      have hab : a = b := by simpa [Pool.setCall, CallPc.node] using hd
      exact hab ▸ ⟨hticket, htask, hnext⟩
    · exact h.callNode d b (by simpa [Pool.setCall, hdc] using hd)

theorem DataInv.new {c : Nat} {a : Addr} {heap : Heap} (h : DataInv args s as) (hc : s.calls c = .idle)
    (hfresh : s.heap.lookup a = none) (hnew : addNew s.heap (args c) (some a) = some (a, heap)) :
    DataInv args { s.setCall c (.lock a) with heap, ticket := Function.update s.ticket a c } as := by
  obtain ⟨-, task, htask, rfl⟩ := addNew_eq_some hnew
  have hne : ∀ b, s.InUse as b → b ≠ a := by
    rintro b hb rfl
    obtain ⟨node, hnode⟩ := h.lookup_of_inUse hb
    rw [hfresh] at hnode
    cases hnode
  let heap := s.heap.insert a ⟨task.entry, task.parameter, task.priority, none⟩
  have hheap : ∀ b, s.InUse as b → heap.lookup b = s.heap.lookup b := fun b hb =>
    AList.lookup_insert_ne (hne b hb)
  have hframe := h.frame hheap fun b hb => Function.update_of_ne (hne b hb) c s.ticket
  refine hframe.give hc (Function.update_self a c s.ticket) ⟨task, htask, ?_⟩ ?_
  · rw [contentOf, AList.lookup_insert, Option.map_some]
  · rw [nextOf, AList.lookup_insert, Option.map_some]

theorem DataInv.wake (h : DataInv args s as) : DataInv args { s with workers := wakeAll s.workers } as := by
  refine { h with workerNode := fun w a hw => h.workerNode w a ?_ }
  by_cases hwait : s.workers w = .waiting
  · simp [wakeAll, hwait, WorkerPc.node] at hw
  · simpa [wakeAll, hwait] using hw

theorem Before.append {linked : List Nat} {c d e : Nat} (h : Before args linked c d) (hc : c ∈ linked)
    (hd : d ∈ linked) : Before args (linked ++ [e]) c d := by
  rw [Before, List.idxOf_append_of_mem hc, List.idxOf_append_of_mem hd]
  exact h

theorem Before.prio_le {linked : List Nat} {c d : Nat} (h : Before args linked c d) :
    prio args c ≤ prio args d := by
  rcases h with h | ⟨h, -⟩
  · exact Int.le_of_lt h
  · exact Int.le_of_eq h

/-- A call that is linked now comes after the calls of its priority. -/
theorem before_last {linked : List Nat} {c e : Nat} (hc : c ∈ linked) (he : e ∉ linked)
    (hle : prio args c ≤ prio args e) : Before args (linked ++ [e]) c e := by
  rcases Int.lt_or_eq_of_le hle with h | h
  · exact .inl h
  · refine .inr ⟨h, ?_⟩
    rw [List.idxOf_append_of_mem hc, List.idxOf_append_of_notMem he]
    exact (List.idxOf_lt_length_iff.mpr hc).trans_le (Nat.le_add_right _ _)

theorem DataInv.mem_linked_of_mem {a : Addr} (h : DataInv args s as) (ha : a ∈ as) : s.ticket a ∈ s.linked :=
  h.perm.mem_iff.mp (List.mem_append_left _ (List.mem_map_of_mem ha))

theorem DataInv.sorted_insert {c : Nat} {a : Addr} (h : DataInv args s as) (hc : c ∉ s.linked)
    (hticket : s.ticket a = c) :
    ((StableInsert.insert (fun b => priorityOf s.heap b ≤ prio args c) a as).map s.ticket).Pairwise
      (Before args (s.linked ++ [c])) := by
  have hprio : ∀ b ∈ as, priorityOf s.heap b = prio args (s.ticket b) := fun b hb => (h.task b hb).priorityOf_eq
  have hsorted : as.Pairwise fun b d => Before args (s.linked ++ [c]) (s.ticket b) (s.ticket d) := by
    refine (List.pairwise_map.mp h.sorted).imp_of_mem fun {b d} hb hd hbd => ?_
    exact hbd.append (h.mem_linked_of_mem hb) (h.mem_linked_of_mem hd)
  refine List.pairwise_map.mpr (StableInsert.pairwise_insert hsorted ?_ ?_ ?_)
  · intro b hb hstays
    rw [decide_eq_true_eq, hprio b hb] at hstays
    exact hticket.symm ▸ before_last (h.mem_linked_of_mem hb) hc hstays
  · intro b hb hstays
    rw [decide_eq_false_iff_not, hprio b hb, Int.not_le] at hstays
    exact hticket.symm ▸ .inl hstays
  · intro b hb d hd hbd hstays
    rw [decide_eq_false_iff_not, Int.not_le] at hstays ⊢
    rw [hprio b hb] at hstays
    rw [hprio d hd]
    exact Int.lt_of_lt_of_le hstays hbd.prio_le

theorem DataInv.insert {c : Nat} {a : Addr} (h : DataInv args s as) (hc : s.calls c = .insert a) :
    ∃ heap queue, queueAdd s.heap s.queue a = some (heap, queue) ∧
      ∃ bs, bs ≠ [] ∧ nodes heap queue = bs ∧ (bs.length < 2 ^ 31 →
        DataInv args { s.setCall c .broadcast with heap, queue, linked := s.linked ++ [c] } bs) := by
  have hnode : (s.calls c).node = some a := by rw [hc]; rfl
  obtain ⟨hticket, htask, hnull⟩ := h.callNode c a hnode
  obtain ⟨hout, hunlinked, honly⟩ := h.callNode_own hnode
  obtain ⟨node, hlookup, hprio⟩ := htask.lookup
  have hnext : node.next = none := by rwa [nextOf, hlookup, Option.map_some, Option.some_inj] at hnull
  obtain ⟨heap, queue, hadd, hqueue, hcontent, hframe⟩ := queueAdd_spec h.queue hlookup hout (fun _ => hnext) h.room
  rw [hprio] at hqueue
  refine ⟨heap, queue, hadd, _, List.ne_nil_of_mem (StableInsert.mem_insert.mpr (.inl rfl)), hqueue.nodes_eq,
    fun hroom => ?_⟩
  constructor
  · exact hqueue
  · exact hroom
  · exact h.sorted_insert hunlinked hticket
  · have hperm := ((StableInsert.insert_perm (fun b => priorityOf s.heap b ≤ prio args c) a as).map
      s.ticket).append_right (s.taken.map Prod.snd)
    rw [List.map_cons, hticket, List.cons_append] at hperm
    exact (hperm.trans (h.perm.cons c)).trans (List.perm_append_singleton c s.linked).symm
  · rw [← List.concat_eq_append]
    exact List.Nodup.concat hunlinked h.nodup
  · intro d
    rw [List.mem_append, List.mem_singleton, h.mem_linked d]
    by_cases hdc : d = c
    · subst hdc
      simp [Pool.setCall, CallPc.HasLinked]
    · simp [Pool.setCall, hdc]
  · intro b hb
    rcases StableInsert.mem_insert.mp hb with rfl | hb
    · exact hticket ▸ htask.congr (hcontent b)
    · exact (h.task b hb).congr (hcontent b)
  · intro d b hd
    have hdc : d ≠ c := by
      rintro rfl
      simp [Pool.setCall, CallPc.node] at hd
    have hd' : (s.calls d).node = some b := by simpa [Pool.setCall, hdc] using hd
    obtain ⟨hticket', htask', hnull'⟩ := h.callNode d b hd'
    obtain ⟨hout', -, -⟩ := h.callNode_own hd'
    have hba : b ≠ a := fun hba => hdc (honly d (hba ▸ hd'))
    exact ⟨hticket', htask'.congr (hcontent b), by rw [nextOf, hframe b hba hout', ← nextOf, hnull']⟩
  · intro w b hw
    obtain ⟨hmem, htask'⟩ := h.workerNode w b hw
    exact ⟨hmem, htask'.congr (hcontent b)⟩

/-! ### The calls -/

theorem holds_setCall {c : Nat} {pc : CallPc} {u : Thread W} (hu : u ≠ .call c) :
    (s.setCall c pc).Holds u ↔ s.Holds u := by
  cases u with
  | worker v => rfl
  | call d =>
    have hd : d ≠ c := fun h => hu (h ▸ rfl)
    simp [Pool.Holds, Pool.setCall, hd]

theorem holds_setCall_self {c : Nat} {pc : CallPc} : (s.setCall c pc).Holds (.call c) ↔ pc.Holds := by
  simp [Pool.Holds, Pool.setCall]

theorem owns_moveCall {c : Nat} {pc : CallPc} (h : Mutex.Owns s.Holds s.ppoolLock)
    (hpc : pc.Holds ↔ (s.calls c).Holds) : Mutex.Owns (s.setCall c pc).Holds s.ppoolLock :=
  h.stay (fun _ hu => holds_setCall hu) (holds_setCall_self.trans hpc)

theorem owns_lockCall {c : Nat} {pc : CallPc} (h : Mutex.Owns s.Holds s.ppoolLock) (hfree : s.ppoolLock = none)
    (hpc : pc.Holds) : Mutex.Owns (s.setCall c pc).Holds (some (.call c)) :=
  h.acquire (fun _ hu => holds_setCall hu) hfree (holds_setCall_self.mpr hpc)

theorem owns_unlockCall {c : Nat} {pc : CallPc} (h : Mutex.Owns s.Holds s.ppoolLock)
    (hc : (s.calls c).Holds) (hpc : ¬pc.Holds) : Mutex.Owns (s.setCall c pc).Holds none :=
  h.release (t := .call c) (fun _ hu => holds_setCall hu) hc (mt holds_setCall_self.mp hpc)

theorem owns_wake (h : Mutex.Owns s.Holds s.ppoolLock) :
    Mutex.Owns { s with workers := wakeAll s.workers }.Holds s.ppoolLock := by
  refine h.congr fun u => ?_
  cases u with
  | worker w =>
    by_cases hwait : s.workers w = .waiting
    · simp [Pool.Holds, wakeAll, hwait, WorkerPc.Holds]
    · simp [Pool.Holds, wakeAll, hwait]
  | call c => rfl

section Wake
variable {workers : W → WorkerPc} {calls : Nat → CallPc}

theorem WakeInv.setCall {c : Nat} {pc : CallPc} (h : WakeInv workers calls as) (hc : calls c ≠ .broadcast) :
    WakeInv workers (Function.update calls c pc) as := by
  refine { h with awake := fun w hw hne => ?_ }
  obtain ⟨d, hd⟩ := h.awake w hw hne
  have hdc : d ≠ c := by
    rintro rfl
    exact hc hd
  exact ⟨d, by rwa [Function.update_of_ne hdc]⟩

/-- A call that has linked a node will wake everybody. -/
theorem WakeInv.link {c : Nat} {bs : List Addr} (h : WakeInv workers calls as) (hne : bs ≠ []) :
    WakeInv workers (Function.update calls c .broadcast) bs :=
  ⟨fun _ _ => hne, h.got, fun _ _ _ => ⟨c, Function.update_self ..⟩⟩

theorem WakeInv.wake {calls' : Nat → CallPc} (h : WakeInv workers calls as) :
    WakeInv (wakeAll workers) calls' as := by
  have hsame : ∀ {w pc}, pc ≠ .woken → wakeAll workers w = pc → workers w = pc ∧ pc ≠ .waiting := by
    intro w pc hpc hw
    unfold wakeAll at hw
    split at hw
    · exact (hpc hw.symm).elim
    · rename_i hwait
      exact ⟨hw, hw ▸ hwait⟩
  refine ⟨fun w hw => ?_, fun w hw => ?_, fun w hw => ?_⟩
  · obtain ⟨hw, -⟩ := hsame (by decide) hw
    exact h.ready w hw
  · obtain ⟨hw, -⟩ := hsame (by simp) hw
    exact h.got w hw
  · obtain ⟨-, hwait⟩ := hsame (by decide) hw
    exact (hwait rfl).elim

/-- The queue may lose a task when no worker is past its wait loop. -/
theorem WakeInv.tail {a : Addr} {rest : List Addr} (h : WakeInv workers calls (a :: rest))
    (hnone : ∀ w, workers w ≠ .getTask) : WakeInv workers calls rest :=
  ⟨fun w hw => (hnone w hw).elim, h.got, fun w hw _ => h.awake w hw (List.cons_ne_nil a rest)⟩

end Wake

theorem callStep_inv {c : Nat} (h : Inv args s as) (hs : CallStep (args c) c s t)
    (hroom : t.pending.length < 2 ^ 31) : ∃ bs, Inv args t bs := by
  cases hs with
  | refuse hc =>
    exact ⟨as, h.data.moveCall (fun _ h => by cases h) (by rw [hc]; rfl), owns_moveCall h.lock (by rw [hc]; rfl),
      h.wake.setCall (by rw [hc]; decide)⟩
  | new hc hfresh hnew =>
    exact ⟨as, h.data.new hc hfresh hnew, owns_moveCall h.lock (by rw [hc]; rfl),
      h.wake.setCall (by rw [hc]; decide)⟩
  | lock hc hfree =>
    exact ⟨as, h.data.moveCall (fun _ h => by rwa [hc]) (by rw [hc]; rfl), owns_lockCall h.lock hfree trivial,
      h.wake.setCall (by rw [hc]; simp)⟩
  | @insert a heap queue hc hadd =>
    obtain ⟨heap', queue', hadd', bs, hne, hnodes, hdata⟩ := h.data.insert hc
    rw [hadd] at hadd'
    cases hadd'
    have hlength : bs.length < 2 ^ 31 := by
      rwa [Pool.pending, List.length_map, hnodes] at hroom
    exact ⟨bs, hdata hlength, owns_moveCall h.lock (by rw [hc]; rfl), h.wake.link hne⟩
  | broadcast hc =>
    have hdata : DataInv args (s.setCall c .unlock) as := h.data.moveCall (fun _ h => by cases h) (by rw [hc]; rfl)
    have hlock : Mutex.Owns (s.setCall c .unlock).Holds s.ppoolLock := owns_moveCall h.lock (by rw [hc]; rfl)
    exact ⟨as, hdata.wake, owns_wake hlock, h.wake.wake⟩
  | unlock hc =>
    exact ⟨as, h.data.moveCall (fun _ h => by cases h) (by rw [hc]; rfl),
      owns_unlockCall h.lock (by rw [hc]; trivial) not_false, h.wake.setCall (by rw [hc]; decide)⟩

theorem init_inv : Inv args (Pool.init : Pool W) [] where
  data :=
    { queue := ⟨rfl, rfl⟩
      room := by decide
      sorted := .nil
      perm := .nil
      nodup := .nil
      mem_linked := fun _ => ⟨nofun, nofun⟩
      task := nofun
      callNode := nofun
      workerNode := nofun }
  lock u := by cases u <;> exact ⟨nofun, nofun⟩
  wake := ⟨nofun, nofun, nofun⟩

theorem Inv.getTask {w : W} (h : Inv args s as) (hw : s.workers w = .getTask) :
    ∃ a rest queue, as = a :: rest ∧ queueGetTask s.heap s.queue = some (some a, queue) ∧
      IsQueue s.heap queue rest := by
  obtain ⟨a, rest, rfl⟩ := List.exists_cons_of_ne_nil (h.wake.ready w hw)
  obtain ⟨queue, hget, hqueue⟩ := queueGetTask_cons h.data.queue
  exact ⟨a, rest, queue, rfl, hget, hqueue⟩

end Invariant

end Ppool
end Emberlite
