import Emberlite.Lib.History
import Emberlite.Ppool.Queue
import Mathlib.Data.List.Perm.Basic

/-! Histories of one task queue in the hands of one client.

    `ppool_queue_add` takes the link of a node as it is when the queue is empty, and `ppool_queue_get_task` leaves
    in the node that it returns the link to the node that was behind it. -/

namespace Emberlite
namespace Ppool
namespace QueueHistory
open LinkedSegment

/-- The calls on a queue. -/
inductive QueueCall where
  /-- `ppool_queue_new`, when its allocation gives this address. -/
  | new (a : Addr) (entry parameter : UInt64) (priority : Int)
  | add (a : Addr)
  | getTask
  | cleanup

/-- The queue, the nodes that were added and not removed since, first to last, and the nodes that the client has
    in its hands. -/
structure Client where
  heap : Heap
  queue : PoolQueue
  waiting : List Addr
  held : List Addr

/-- Before the first call. -/
def Client.init : Client := ⟨∅, .init, [], []⟩

/-- The client after a call; `none` where the call leaves the heap's nodes. -/
def exec (s : Client) : QueueCall → Option Client
  | .new a entry parameter priority =>
    match queueNew s.heap a entry parameter priority with
    | none => some s
    | some heap => some { s with heap, held := a :: s.held }
  | .add a => (queueAdd s.heap s.queue a).map fun (heap, queue) =>
    { heap, queue, waiting := s.waiting ++ [a], held := s.held.erase a }
  | .getTask => (queueGetTask s.heap s.queue).map fun (task, queue) =>
    { s with queue, waiting := s.waiting.filter (some · ≠ task), held := task.toList ++ s.held }
  | .cleanup => (queueCleanup s.heap s.queue).map fun (heap, queue) => { s with heap, queue, waiting := [] }

/-- An allocation gives an address that is free, and the client adds a node that it has in its hands. -/
def Legal (s : Client) : QueueCall → Prop
  | .new a _ _ _ => s.heap.lookup a = none
  | .add a => a ∈ s.held
  | .getTask | .cleanup => True

/-- `a` goes before `b`: by its priority or, among equals, because it was added before. -/
def Client.Ahead (s : Client) (a b : Addr) : Prop :=
  priorityOf s.heap a < priorityOf s.heap b ∨
    (priorityOf s.heap a = priorityOf s.heap b ∧ [a, b].Sublist s.waiting)

/-- The list from the head ends, has the nodes that wait in their order, and is counted. -/
structure Client.IsGood (s : Client) (as : List Addr) : Prop where
  seg : Seg (nextOf s.heap) s.queue.head as none
  perm : as.Perm s.waiting
  sorted : as.Pairwise s.Ahead
  len : s.queue.len = as.length

/-- The queue is a list of nodes, and the client's record of it is right. -/
def Client.Good (s : Client) : Prop := ∃ as, s.IsGood as

/-- A node that is added to an empty queue has no link, and the count does not overflow. -/
def Takes (s : Client) : QueueCall → Prop
  | .add a => (s.queue.head = none → nextOf s.heap a = some none) ∧ s.queue.len + 1 < 2 ^ 31
  | .new .. | .getTask | .cleanup => True

instance (s : Client) : (call : QueueCall) → Decidable (Legal s call)
  | .new a _ _ _ => inferInstanceAs (Decidable (s.heap.lookup a = none))
  | .add a => inferInstanceAs (Decidable (a ∈ s.held))
  | .getTask | .cleanup => isTrue trivial

instance (s : Client) : (call : QueueCall) → Decidable (Takes s call)
  | .add a => inferInstanceAs
    (Decidable ((s.queue.head = none → nextOf s.heap a = some none) ∧ s.queue.len + 1 < 2 ^ 31))
  | .new .. | .getTask | .cleanup => isTrue trivial

/-- `Good`, with a count within `int`, and nodes in the client's hands that are allocated and not in the queue. -/
structure Client.Inv (s : Client) : Prop where
  good : s.Good
  room : s.queue.len < 2 ^ 31
  held : ∀ a ∈ s.held, (s.heap.lookup a).isSome ∧ a ∉ s.waiting
  nodup : s.held.Nodup

section
variable {s t : Client} {a : Addr} {as : List Addr}

theorem Client.IsGood.isQueue (h : s.IsGood as) (hroom : s.queue.len < 2 ^ 31) : IsQueue s.heap s.queue as := by
  refine ⟨h.seg, ?_⟩
  rw [cInt_of_lt (by omega) (h.len ▸ hroom), h.len]

theorem Client.IsGood.mem (h : s.IsGood as) : a ∈ as ↔ a ∈ s.waiting := h.perm.mem_iff

theorem priorityOf_of_content {heap heap' : Heap} (h : contentOf heap' a = contentOf heap a) :
    priorityOf heap' a = priorityOf heap a := by
  have hmap : ∀ heap : Heap, priorityOf heap a = ((contentOf heap a).map (·.2.2)).getD 0 := by
    intro heap
    rw [priorityOf, contentOf, Option.map_map]
    rfl
  rw [hmap, hmap, h]

/-- What orders two nodes still orders them when their priorities stay and nodes are added. -/
theorem Client.Ahead.mono {b : Addr} (h : s.Ahead a b) (hprio : ∀ c, priorityOf t.heap c = priorityOf s.heap c)
    (hwaiting : s.waiting.Sublist t.waiting) : t.Ahead a b := by
  rw [Client.Ahead, hprio, hprio]
  exact h.imp_right fun ⟨heq, hsub⟩ => ⟨heq, hsub.trans hwaiting⟩

/-! ### Adding a node -/

theorem sorted_add (h : s.IsGood as) (hprio : ∀ c, priorityOf t.heap c = priorityOf s.heap c)
    (hwaiting : t.waiting = s.waiting ++ [a]) :
    (StableInsert.insert (fun b => priorityOf s.heap b ≤ priorityOf s.heap a) a as).Pairwise t.Ahead := by
  have hsub : s.waiting.Sublist t.waiting := hwaiting ▸ List.sublist_append_left _ _
  refine StableInsert.pairwise_insert (h.sorted.imp fun hb => hb.mono hprio hsub) ?_ ?_ ?_
  · intro b hb hstays
    rw [decide_eq_true_eq] at hstays
    rw [Client.Ahead, hprio, hprio]
    rcases Int.lt_or_eq_of_le hstays with hlt | heq
    · exact .inl hlt
    · refine .inr ⟨heq, ?_⟩
      rw [hwaiting]
      exact (List.singleton_sublist.mpr (h.mem.mp hb)).append (List.Sublist.refl [a])
  · intro b hb hstays
    rw [decide_eq_false_iff_not, Int.not_le] at hstays
    rw [Client.Ahead, hprio, hprio]
    exact .inl hstays
  · intro b hb c hc hbc hstays
    rw [decide_eq_false_iff_not, Int.not_le] at hstays ⊢
    rw [Client.Ahead, hprio, hprio] at hbc
    rcases hbc with hlt | ⟨heq, -⟩
    · exact Int.lt_trans hstays hlt
    · exact heq ▸ hstays

/-- The queue after `ppool_queue_add`, as long as a node that is added to the empty queue has no link. -/
theorem add_spec (inv : s.Inv) (h : s.IsGood as) (ha : a ∈ s.held)
    (hnext : s.queue.head = none → nextOf s.heap a = some none) :
    ∃ t, exec s (.add a) = some t ∧ t.waiting = s.waiting ++ [a] ∧ t.held = s.held.erase a ∧
      IsQueue t.heap t.queue (StableInsert.insert (fun b => priorityOf s.heap b ≤ priorityOf s.heap a) a as) ∧
      ∀ b, contentOf t.heap b = contentOf s.heap b := by
  obtain ⟨hsome, hout⟩ := inv.held a ha
  obtain ⟨node, hnode⟩ := Option.isSome_iff_exists.mp hsome
  have hlen : (as.length : Int) < 2 ^ 31 := h.len ▸ inv.room
  have hnull : as = [] → node.next = none := by
    rintro rfl
    have hlink := hnext h.seg
    rwa [nextOf, hnode, Option.map_some, Option.some_inj] at hlink
  obtain ⟨heap, queue, hadd, hqueue, hcontent, -⟩ :=
    queueAdd_spec (h.isQueue inv.room) hnode (fun hmem => hout (h.mem.mp hmem)) hnull (by omega)
  have hprio : node.priority = priorityOf s.heap a := by rw [priorityOf, hnode]; rfl
  rw [hprio] at hqueue
  exact ⟨⟨heap, queue, s.waiting ++ [a], s.held.erase a⟩, by rw [exec, hadd, Option.map_some], rfl, rfl, hqueue, hcontent⟩

theorem length_add (h : s.IsGood as) (stays : Addr → Bool) :
    (StableInsert.insert stays a as).length = s.waiting.length + 1 := by
  rw [(StableInsert.insert_perm stays a as).length_eq, List.length_cons, h.perm.length_eq]

theorem keeps_add (inv : s.Inv) (ha : a ∈ s.held) (htakes : Takes s (.add a)) :
    ∃ t, exec s (.add a) = some t ∧ t.Inv := by
  obtain ⟨as, h⟩ := inv.good
  obtain ⟨t, hexec, hwaiting, hheld, hqueue, hcontent⟩ := add_spec inv h ha htakes.1
  have hprio : ∀ c, priorityOf t.heap c = priorityOf s.heap c := fun c => priorityOf_of_content (hcontent c)
  have hroom : ((s.waiting.length + 1 : Nat) : Int) < 2 ^ 31 := by
    have := htakes.2
    rw [h.len, h.perm.length_eq] at this
    exact_mod_cast this
  have hlen := hqueue.len_eq (by rw [length_add h]; exact_mod_cast hroom)
  refine ⟨t, hexec, ⟨_, hqueue.seg, ?_, sorted_add h hprio hwaiting, hlen⟩, ?_, ?_, ?_⟩
  · rw [hwaiting]
    exact ((StableInsert.insert_perm _ a as).trans (h.perm.cons a)).trans (List.perm_append_singleton a _).symm
  · rw [hlen, length_add h]
    exact hroom
  · intro b hb
    rw [hheld, inv.nodup.mem_erase_iff] at hb
    obtain ⟨hsome, hout⟩ := inv.held b hb.2
    refine ⟨?_, ?_⟩
    · have heq := congrArg Option.isSome (hcontent b)
      rw [contentOf, contentOf, Option.isSome_map, Option.isSome_map] at heq
      rw [heq]
      exact hsome
    · rw [hwaiting, List.mem_append, List.mem_singleton, not_or]
      exact ⟨hout, hb.1⟩
  · rw [hheld]
    exact inv.nodup.erase a

/-- A queue that `ppool_queue_add` leaves as it should was given a node without a link, if it was empty. -/
theorem takes_add (inv : s.Inv) (ha : a ∈ s.held) (hexec : exec s (.add a) = some t) (hgood : t.Good) :
    Takes s (.add a) := by
  obtain ⟨as, h⟩ := inv.good
  obtain ⟨bs, hbs⟩ := hgood
  have hnull : s.queue.head = none → nextOf s.heap a = some none := by
    intro hhead
    obtain ⟨node, hnode⟩ := Option.isSome_iff_exists.mp (inv.held a ha).1
    have has : as = [] := by
      have hseg := h.seg
      rcases as with _ | ⟨b, as⟩
      · rfl
      · rw [hhead] at hseg
        cases hseg.1
    subst has
    have hadd : queueAdd s.heap s.queue a = some (s.heap, ⟨cInt (s.queue.len + 1), some a⟩) := by
      simp [queueAdd, hnode, hhead, getInsertPos]
    rw [exec, hadd, Option.map_some, Option.some_inj] at hexec
    subst hexec
    have hone : bs = [a] := by
      have hempty : s.waiting = [] := List.nil_perm.mp h.perm
      have hperm : bs.Perm (s.waiting ++ [a]) := hbs.perm
      rw [hempty] at hperm
      exact List.perm_singleton.mp hperm
    obtain ⟨-, n, hn, hend⟩ := hone ▸ hbs.seg
    obtain rfl : n = none := hend
    exact hn
  refine ⟨hnull, ?_⟩
  obtain ⟨t', hexec', hwaiting, -, hqueue, -⟩ := add_spec inv h ha hnull
  rw [hexec, Option.some_inj] at hexec'
  subst hexec'
  have hcount := hqueue.len
  rw [hbs.len, hbs.perm.length_eq, hwaiting, List.length_append, List.length_singleton, length_add h] at hcount
  rw [h.len, h.perm.length_eq]
  unfold cInt at hcount
  omega

/-! ### The other calls -/

theorem keeps_new {entry parameter : UInt64} {priority : Int} (inv : s.Inv) (hfree : s.heap.lookup a = none) :
    ∃ t, exec s (.new a entry parameter priority) = some t ∧ t.Inv := by
  rcases hnew : queueNew s.heap a entry parameter priority with _ | heap
  · exact ⟨s, by rw [exec, hnew], inv⟩
  · refine ⟨{ s with heap, held := a :: s.held }, by rw [exec, hnew], ?_⟩
    obtain ⟨as, h⟩ := inv.good
    have hother : ∀ b, b ≠ a → heap.lookup b = s.heap.lookup b := by
      intro b hb
      unfold queueNew at hnew
      split at hnew
      · cases hnew
      · cases hnew
        exact AList.lookup_insert_ne hb
    have hat : (heap.lookup a).isSome := by
      unfold queueNew at hnew
      split at hnew
      · cases hnew
      · cases hnew
        rw [AList.lookup_insert, Option.isSome_some]
    have hne : ∀ b, (s.heap.lookup b).isSome → b ≠ a := by
      rintro b hsome rfl
      rw [hfree] at hsome
      cases hsome
    have halloc : ∀ b ∈ as, (s.heap.lookup b).isSome := by
      intro b hb
      obtain ⟨node, hnode⟩ := lookup_of_mem h.seg hb
      rw [hnode, Option.isSome_some]
    have hout : a ∉ s.held := fun ha => hne a (inv.held a ha).1 rfl
    refine ⟨⟨as, h.seg.congr fun b hb => ?_, h.perm, ?_, h.len⟩, inv.room, ?_, List.nodup_cons.mpr ⟨hout, inv.nodup⟩⟩
    · rw [nextOf, hother b (hne b (halloc b hb)), nextOf]
    · refine h.sorted.imp_of_mem fun {b c} hb hc hbc => ?_
      have hprio : ∀ d ∈ as, priorityOf heap d = priorityOf s.heap d := fun d hd => by
        rw [priorityOf, hother d (hne d (halloc d hd)), priorityOf]
      rw [Client.Ahead, hprio b hb, hprio c hc]
      exact hbc
    · intro b hb
      rcases List.mem_cons.mp hb with rfl | hb
      · exact ⟨hat, fun hmem => hne b (halloc b (h.mem.mpr hmem)) rfl⟩
      · obtain ⟨hsome, hwait⟩ := inv.held b hb
        refine ⟨?_, hwait⟩
        rw [hother b (hne b hsome)]
        exact hsome

theorem keeps_getTask (inv : s.Inv) : ∃ t, exec s .getTask = some t ∧ t.Inv := by
  obtain ⟨as, h⟩ := inv.good
  rcases as with _ | ⟨a, rest⟩
  · have hhead : s.queue.head = none := h.seg
    have hget : queueGetTask s.heap s.queue = some (none, s.queue) := by rw [queueGetTask, hhead]
    refine ⟨s, ?_, inv⟩
    rw [exec, hget, Option.map_some]
    simp
  · obtain ⟨queue, hget, hqueue⟩ := queueGetTask_cons (h.isQueue inv.room)
    have hnodup := List.nodup_cons.mp h.seg.nodup
    have hroom : ((rest.length + 1 : Nat) : Int) < 2 ^ 31 := by
      have := inv.room
      rwa [h.len, List.length_cons] at this
    have hlen : queue.len = rest.length := hqueue.len_eq (by omega)
    have hperm : rest.Perm (s.waiting.filter (some · ≠ some a)) := by
      have hfilter := h.perm.filter (some · ≠ some a)
      rw [List.filter_cons_of_neg (by simp), List.filter_eq_self.mpr] at hfilter
      · exact hfilter
      · intro b hb
        exact decide_eq_true fun heq => hnodup.1 (Option.some_inj.mp heq ▸ hb)
    refine ⟨_, by rw [exec, hget, Option.map_some], ⟨rest, hqueue.seg, hperm, ?_, hlen⟩, by dsimp only; omega, ?_, ?_⟩
    · refine (List.pairwise_cons.mp h.sorted).2.imp_of_mem fun {b c} hb hc hbc => ?_
      refine hbc.imp_right fun hboth => ⟨hboth.1, ?_⟩
      obtain ⟨-, hsub⟩ := hboth
      have hkept := hsub.filter (some · ≠ some a)
      rwa [List.filter_eq_self.mpr] at hkept
      intro d hd
      have hda : d ∈ rest := by
        rcases List.mem_cons.mp hd with rfl | hd
        · exact hb
        · exact List.mem_singleton.mp hd ▸ hc
      exact decide_eq_true fun heq => hnodup.1 (Option.some_inj.mp heq ▸ hda)
    · intro b hb
      rcases List.mem_cons.mp hb with rfl | hb
      · obtain ⟨node, hnode⟩ := lookup_of_mem h.seg List.mem_cons_self
        exact ⟨by rw [hnode, Option.isSome_some], by simp⟩
      · obtain ⟨hsome, hout⟩ := inv.held b hb
        exact ⟨hsome, fun hmem => hout (List.mem_of_mem_filter hmem)⟩
    · exact List.nodup_cons.mpr ⟨fun ha => (inv.held a ha).2 (h.mem.mp List.mem_cons_self), inv.nodup⟩

theorem keeps_cleanup (inv : s.Inv) : ∃ t, exec s .cleanup = some t ∧ t.Inv := by
  obtain ⟨as, h⟩ := inv.good
  obtain ⟨heap, hcleanup, hqueue, hother⟩ := queueCleanup_spec (h.isQueue inv.room)
  refine ⟨{ s with heap, queue := ⟨0, none⟩, waiting := [] }, by rw [exec, hcleanup, Option.map_some],
    ⟨[], hqueue.seg, List.Perm.refl [], List.Pairwise.nil, rfl⟩, (by dsimp only; decide), fun b hb => ?_, inv.nodup⟩
  obtain ⟨hsome, hout⟩ := inv.held b hb
  refine ⟨?_, List.not_mem_nil⟩
  dsimp only
  rw [hother b fun hmem => hout (h.mem.mp hmem)]
  exact hsome

/-! ### Histories -/

theorem inv_init : Client.init.Inv :=
  ⟨⟨[], rfl, List.Perm.refl [], List.Pairwise.nil, rfl⟩, by decide, fun _ ha => absurd ha List.not_mem_nil,
    List.nodup_nil⟩

theorem keeps_call {call : QueueCall} (inv : s.Inv) (hlegal : Legal s call) (htakes : Takes s call) :
    ∃ t, exec s call = some t ∧ t.Inv := by
  cases call with
  | new a entry parameter priority => exact keeps_new inv hlegal
  | add a => exact keeps_add inv hlegal htakes
  | getTask => exact keeps_getTask inv
  | cleanup => exact keeps_cleanup inv

theorem throughout_good_iff {history : List QueueCall} (inv : s.Inv) (hlegal : History.Each exec Legal s history) :
    History.Throughout exec Client.Good s history ↔ History.Each exec Takes s history := by
  refine History.throughout_iff inv (fun _ inv => inv.good) ?_ (fun _ _ => keeps_call) hlegal
  intro s call t inv hlegal hexec hgood
  cases call with
  | add a => exact takes_add inv hlegal hexec hgood
  | new | getTask | cleanup => trivial

/-- From `ppool_queue_init` on, the queue is the ordered list of the nodes that wait after every call exactly when
    each node that is added to the empty queue has no link, and the count stays within `int`. -/
theorem history_good {history : List QueueCall} (hlegal : History.Each exec Legal .init history) :
    History.Throughout exec Client.Good .init history ↔ History.Each exec Takes .init history :=
  throughout_good_iff inv_init hlegal

/-- Two nodes wait, the first is taken and added again behind the second. -/
def addedAgain : List QueueCall := [.new 1 7 0 3, .new 2 8 0 3, .add 1, .add 2, .getTask, .add 1, .cleanup]

theorem history_good_addedAgain : History.Throughout exec Client.Good .init addedAgain :=
  (history_good (by decide +kernel)).mpr (by decide +kernel)

/-- Both nodes are taken, and the first is added again: it still links to the second. -/
def addedToEmpty : List QueueCall := [.new 1 7 0 3, .new 2 8 0 3, .add 1, .add 2, .getTask, .getTask, .add 1]

theorem stale_link :
    ¬ ∀ history, History.Each exec Legal .init history → History.Throughout exec Client.Good .init history := by
  intro h
  have hlegal : History.Each exec Legal .init addedToEmpty := by decide +kernel
  have htakes := (throughout_good_iff inv_init hlegal).mp (h addedToEmpty hlegal)
  exact absurd htakes (by decide +kernel)

end

end QueueHistory
end Ppool
end Emberlite
