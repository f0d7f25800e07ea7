import Emberlite.Lib.LinkedSegment
import Emberlite.Lib.StableInsert
import Mathlib.Data.List.AList
import Mathlib.Algebra.Group.Int.Defs
import Mathlib.Algebra.Group.Nat.Defs

/-! The task queue of `components/ppool/src/ppool_queue.c`, on a heap of nodes.

    A pointer is an address or `none` for NULL. A function that dereferences a pointer to freed memory, or
    whose loop never ends, has no result (`none`): a walk visits no cell twice before it ends, so it has no
    more steps than the heap has cells. -/

namespace Emberlite
namespace Ppool
open LinkedSegment

/-- The address of a node. -/
abbrev Addr := Nat

/-- `pool_node`; `entry` and `parameter` are addresses. -/
structure PoolNode where
  entry : UInt64
  parameter : UInt64
  priority : Int
  next : Option Addr
  deriving DecidableEq, Repr

/-- The nodes that are allocated. -/
abbrev Heap := AList fun _ : Addr => PoolNode

/-- `pool_queue` -/
structure PoolQueue where
  len : Int
  head : Option Addr
  deriving DecidableEq, Repr

/-- The value of an `int` expression; overflow, which C leaves undefined, wraps around. -/
def cInt (x : Int) : Int := (x + 2 ^ 31) % 2 ^ 32 - 2 ^ 31

/-- How many cells a walk can visit. -/
def fuel (heap : Heap) : Nat := heap.keys.length

/-- The loop of `ppool_queue_get_insert_pos`. -/
def getInsertPosLoop (heap : Heap) (priority : Int) : (fuel : Nat) → Option Addr → Int → Option Int
  | _, none, pos => some pos
  | 0, some _, _ => none
  | fuel + 1, some a, pos =>
    match heap.lookup a with
    | none => none
    | some node =>
      if priority ≥ node.priority then getInsertPosLoop heap priority fuel node.next (cInt (pos + 1))
      else some pos

/-- `ppool_queue_get_insert_pos`. -/
def getInsertPos (heap : Heap) (head : Option Addr) (priority : Int) : Option Int :=
  if head = none then some (-1)
  else getInsertPosLoop heap priority (fuel heap) head 0

/-- `ppool_queue_init`, when its allocation succeeds. -/
def PoolQueue.init : PoolQueue := ⟨0, none⟩

/-- `ppool_queue_new`, when its allocation gives address `a`. -/
def queueNew (heap : Heap) (a : Addr) (entry parameter : UInt64) (priority : Int) : Option Heap :=
  if priority < 0 then none
  else some (heap.insert a ⟨entry, parameter, priority, none⟩)

/-- The loop `h = h->next` of `ppool_queue_add`, `n` times. -/
def advance (heap : Heap) : (n : Nat) → Addr → Option Addr
  | 0, a => some a
  | n + 1, a => (heap.lookup a).bind fun node => node.next.bind (advance heap n)

/-- A write of `a->next`. -/
def setNext (heap : Heap) (a : Addr) (next : Option Addr) : Option Heap :=
  (heap.lookup a).map fun node => heap.insert a { node with next }

/-- `ppool_queue_add`. -/
def queueAdd (heap : Heap) (queue : PoolQueue) (a : Addr) : Option (Heap × PoolQueue) := do
  let node ← heap.lookup a
  let pos ← getInsertPos heap queue.head node.priority
  if pos = -1 then
    -- `node->next` is left as it is.
    return (heap, ⟨cInt (queue.len + 1), some a⟩)
  else if pos = 0 then
    let heap ← setNext heap a queue.head
    return (heap, ⟨cInt (queue.len + 1), some a⟩)
  else
    let head ← queue.head
    let h ← advance heap (pos - 1).toNat head
    let before ← heap.lookup h
    let heap ← setNext heap a before.next
    let heap ← setNext heap h (some a)
    return (heap, { queue with len := cInt (queue.len + 1) })

/-- `ppool_queue_get_task`: the node it returns, and the queue after it. -/
def queueGetTask (heap : Heap) (queue : PoolQueue) : Option (Option Addr × PoolQueue) :=
  match queue.head with
  | none => some (none, queue)
  | some a => (heap.lookup a).map fun node => (some a, ⟨cInt (queue.len - 1), node.next⟩)

/-- The loop that frees the nodes from `h` on. -/
def freeNodes (heap : Heap) : (fuel : Nat) → Option Addr → Option Heap
  | _, none => some heap
  | 0, some _ => none
  | fuel + 1, some temp => (heap.lookup temp).bind fun node => freeNodes (heap.erase temp) fuel node.next

/-- `ppool_queue_cleanup`. -/
def queueCleanup (heap : Heap) (queue : PoolQueue) : Option (Heap × PoolQueue) :=
  (freeNodes heap (fuel heap) queue.head).map fun heap => (heap, ⟨0, none⟩)

/-! ### The list a queue stands for -/

/-- The link of each node. -/
def nextOf (heap : Heap) (a : Addr) : Option (Option Addr) := (heap.lookup a).map (·.next)

/-- What a node says besides its link. -/
def contentOf (heap : Heap) (a : Addr) : Option (UInt64 × UInt64 × Int) :=
  (heap.lookup a).map fun node => (node.entry, node.parameter, node.priority)

/-- The priority of a node, 0 where there is none. -/
def priorityOf (heap : Heap) (a : Addr) : Int := ((heap.lookup a).map (·.priority)).getD 0

/-- The nodes of a queue, first to last. -/
def nodes (heap : Heap) (queue : PoolQueue) : List Addr := walk (nextOf heap) (fuel heap) queue.head

/-- The queue is the null-terminated list of `as`, and counts it. -/
structure IsQueue (heap : Heap) (queue : PoolQueue) (as : List Addr) : Prop where
  seg : Seg (nextOf heap) queue.head as none
  len : queue.len = cInt as.length

section Lists
variable {heap : Heap} {queue : PoolQueue} {as : List Addr}

theorem cInt_of_lt {x : Int} (hlo : -2 ^ 31 ≤ x) (hhi : x < 2 ^ 31) : cInt x = x := by
  unfold cInt
  omega

theorem cInt_cInt_add (x y : Int) : cInt (cInt x + y) = cInt (x + y) := by
  unfold cInt
  omega

theorem cInt_length_succ (as : List Addr) : cInt (cInt as.length + 1) = cInt ((as.length + 1 : Nat) : Int) := by
  rw [cInt_cInt_add, Int.natCast_add, Int.natCast_one]

theorem nextOf_eq_some {a : Addr} {n : Option Addr} (h : nextOf heap a = some n) :
    ∃ node, heap.lookup a = some node ∧ node.next = n := by
  obtain ⟨node, hnode, rfl⟩ := Option.map_eq_some_iff.mp h
  exact ⟨node, hnode, rfl⟩

theorem length_le_fuel (hs : Seg (nextOf heap) queue.head as none) : as.length ≤ fuel heap := by
  refine (List.subperm_of_subset hs.nodup fun a ha => ?_).length_le
  have hsome := hs.isSome a ha
  rw [nextOf, Option.isSome_map] at hsome
  exact AList.lookup_isSome.mp hsome

theorem IsQueue.nodes_eq (h : IsQueue heap queue as) : nodes heap queue = as :=
  h.seg.walk_eq (length_le_fuel h.seg)

theorem lookup_of_mem (hs : Seg (nextOf heap) queue.head as none) {a : Addr} (ha : a ∈ as) :
    ∃ node, heap.lookup a = some node := by
  have hsome := hs.isSome a ha
  rw [nextOf, Option.isSome_map] at hsome
  exact Option.isSome_iff_exists.mp hsome

/-- Writing a link changes that link and no node's content. -/
theorem setNext_eq {a : Addr} {node : PoolNode} {n : Option Addr} (h : heap.lookup a = some node) :
    ∃ heap', setNext heap a n = some heap' ∧ heap'.lookup a = some { node with next := n } ∧
      (∀ b, b ≠ a → heap'.lookup b = heap.lookup b) ∧ ∀ b, contentOf heap' b = contentOf heap b := by
  refine ⟨heap.insert a { node with next := n }, by simp [setNext, h], AList.lookup_insert _,
    fun b hb => AList.lookup_insert_ne hb, fun b => ?_⟩
  by_cases hb : b = a
  · subst hb
    simp [contentOf, h, AList.lookup_insert]
  · rw [contentOf, AList.lookup_insert_ne hb, contentOf]

theorem getInsertPosLoop_eq {p : Int} {h : Option Addr} {pos : Int} {k : Nat}
    (hs : Seg (nextOf heap) h as none) (hk : as.length ≤ k) (hpos : 0 ≤ pos) (hroom : pos + as.length < 2 ^ 31) :
    getInsertPosLoop heap p k h pos =
      some (pos + (as.takeWhile fun b => priorityOf heap b ≤ p).length) := by
  induction as generalizing h pos k with
  | nil =>
    obtain rfl : h = none := hs
    cases k <;> simp [getInsertPosLoop]
  | cons a as ih =>
    obtain ⟨rfl, n, hn, hs⟩ := hs
    obtain ⟨node, hnode, rfl⟩ := nextOf_eq_some hn
    rw [List.length_cons] at hk hroom
    obtain ⟨k, rfl⟩ : ∃ j, k = j + 1 := ⟨k - 1, by omega⟩
    have hprio : priorityOf heap a = node.priority := by rw [priorityOf, hnode]; rfl
    by_cases hle : node.priority ≤ p
    · have hnext : cInt (pos + 1) = pos + 1 := cInt_of_lt (by omega) (by omega)
      simp only [getInsertPosLoop, hnode, hle, if_true, hnext]
      rw [ih hs (by omega) (by omega) (by omega), List.takeWhile_cons_of_pos (by simpa [hprio] using hle)]
      simp only [List.length_cons, Option.some.injEq]
      omega
    · simp [getInsertPosLoop, hnode, hle, hprio]

theorem advance_eq {pre post : List Addr} {a b h : Addr}
    (hs : Seg (nextOf heap) (some h) (pre ++ b :: post) none) (ha : pre.length = a) :
    advance heap a h = some b := by
  subst ha
  induction pre generalizing h with
  | nil => exact hs.1
  | cons c pre ih =>
    obtain ⟨hc, n, hn, hs⟩ := hs
    cases hc
    obtain ⟨node, hnode, rfl⟩ := nextOf_eq_some hn
    have hhead : ∃ d, node.next = some d := by
      rcases pre with _ | ⟨d, pre⟩
      · exact ⟨b, hs.1⟩
      · exact ⟨d, hs.1⟩
    obtain ⟨d, hd⟩ := hhead
    rw [hd] at hs
    simp only [List.length_cons, advance, hnode, hd, Option.bind_some]
    exact ih hs

theorem getInsertPos_eq {p : Int} (h : IsQueue heap queue as) (hne : as ≠ []) (hroom : as.length < 2 ^ 31) :
    getInsertPos heap queue.head p = some ((as.takeWhile fun b => priorityOf heap b ≤ p).length : Int) := by
  have hhead : queue.head ≠ none := by
    rw [h.seg.head_eq]
    simpa using hne
  rw [getInsertPos, if_neg hhead, getInsertPosLoop_eq h.seg (length_le_fuel h.seg) (Int.le_refl 0) (by omega),
    Int.zero_add]

/-- A queue after an insertion: `a` stands behind `pre`, and only `a` and the node before it got a new
    link. -/
structure Inserted (heap : Heap) (queue : PoolQueue) (pre post : List Addr) (a : Addr) (heap' : Heap)
    (queue' : PoolQueue) : Prop where
  result : IsQueue heap' queue' (pre ++ a :: post)
  content : ∀ b, contentOf heap' b = contentOf heap b
  frame : ∀ b, b ≠ a → b ∉ pre → heap'.lookup b = heap.lookup b

/-- The first insertion of `ppool_queue_add`, into an empty queue: the link of the node stays. -/
theorem queueAdd_empty {a : Addr} {node : PoolNode} (h : IsQueue heap queue []) (hnode : heap.lookup a = some node)
    (hnext : node.next = none) :
    ∃ heap' queue', queueAdd heap queue a = some (heap', queue') ∧ Inserted heap queue [] [] a heap' queue' := by
  have hhead : queue.head = none := h.seg
  have hlen : cInt (queue.len + 1) = cInt 1 := by rw [h.len]; rfl
  refine ⟨heap, ⟨cInt (queue.len + 1), some a⟩, by simp [queueAdd, hnode, hhead, getInsertPos],
    ⟨⟨⟨rfl, none, ?_, rfl⟩, hlen⟩, fun _ => rfl, fun _ _ _ => rfl⟩⟩
  rw [nextOf, hnode, Option.map_some, hnext]

theorem queueAdd_front {a : Addr} {node : PoolNode} (h : IsQueue heap queue as)
    (hnode : heap.lookup a = some node) (ha : a ∉ as)
    (hpos : getInsertPos heap queue.head node.priority = some 0) :
    ∃ heap' queue', queueAdd heap queue a = some (heap', queue') ∧ Inserted heap queue [] as a heap' queue' := by
  obtain ⟨heap', hset, hat, hother, hcontent⟩ := setNext_eq (n := queue.head) hnode
  have hlen : cInt (queue.len + 1) = cInt (a :: as).length := by
    rw [h.len, cInt_length_succ, List.length_cons]
  have hseg : Seg (nextOf heap') (some a) (a :: as) none :=
    h.seg.push ha (by rw [nextOf, hat, Option.map_some]) fun b hb => by rw [nextOf, hother b hb, nextOf]
  exact ⟨heap', ⟨cInt (queue.len + 1), some a⟩, by simp [queueAdd, hnode, hpos, hset], ⟨hseg, hlen⟩,
    hcontent, fun b hb _ => hother b hb⟩

/-- The third insertion, after the node `b` that the second loop reaches. -/
theorem queueAdd_after {a b : Addr} {pre post : List Addr} {node : PoolNode}
    (h : IsQueue heap queue (pre ++ b :: post)) (hnode : heap.lookup a = some node) (ha : a ∉ pre ++ b :: post)
    (hpos : getInsertPos heap queue.head node.priority = some (pre.length + 1)) :
    ∃ heap' queue', queueAdd heap queue a = some (heap', queue') ∧
      Inserted heap queue (pre ++ [b]) post a heap' queue' := by
  obtain ⟨first, hfirst⟩ : ∃ first, queue.head = some first := by
    rw [h.seg.head_eq]
    cases pre <;> exact ⟨_, rfl⟩
  have hseg := h.seg
  rw [hfirst] at hseg
  have hreach : advance heap pre.length first = some b := advance_eq hseg rfl
  obtain ⟨before, hbefore⟩ := lookup_of_mem h.seg (List.mem_append_right pre List.mem_cons_self)
  have hab : b ≠ a := fun heq => ha (heq ▸ List.mem_append_right pre List.mem_cons_self)
  obtain ⟨heap₁, hset₁, hat₁, hother₁, hcontent₁⟩ := setNext_eq (n := before.next) hnode
  obtain ⟨heap₂, hset₂, hat₂, hother₂, hcontent₂⟩ :=
    setNext_eq (n := some a) ((hother₁ b hab).trans hbefore)
  have hlen : cInt (queue.len + 1) = cInt (pre ++ [b] ++ a :: post).length := by
    have hlength : (pre ++ [b] ++ a :: post).length = (pre ++ b :: post).length + 1 := by
      simp only [List.length_append, List.length_cons, List.length_nil]
      omega
    rw [h.len, cInt_length_succ, hlength]
  have hfinal : Seg (nextOf heap₂) queue.head (pre ++ b :: a :: post) none :=
    h.seg.insert_after ha (by rw [nextOf, hbefore, Option.map_some])
      (by rw [nextOf, hother₂ a (Ne.symm hab), hat₁, Option.map_some]) (by rw [nextOf, hat₂, Option.map_some])
      fun c hca hcb => by rw [nextOf, hother₂ c hcb, hother₁ c hca, nextOf]
  have hpos' : (pre.length : Int) + 1 ≠ -1 := by omega
  have hpos'' : (pre.length : Int) + 1 ≠ 0 := by omega
  refine ⟨heap₂, { queue with len := cInt (queue.len + 1) }, ?_, ⟨?_, hlen⟩,
    fun c => (hcontent₂ c).trans (hcontent₁ c), fun c hca hcb => ?_⟩
  · rw [hfirst] at hpos
    simp [queueAdd, hnode, hfirst, hpos, hpos', hpos'', hreach, hbefore, hset₁, hset₂]
  · rw [List.append_assoc]
    exact hfinal
  · rw [hother₂ c fun h => hcb (h ▸ List.mem_append_right pre List.mem_cons_self), hother₁ c hca]

/-- `ppool_queue_add` inserts the node after the nodes of its priority and those that go before them. -/
theorem queueAdd_spec {a : Addr} {node : PoolNode} (h : IsQueue heap queue as)
    (hnode : heap.lookup a = some node) (ha : a ∉ as) (hnext : as = [] → node.next = none)
    (hroom : as.length < 2 ^ 31) :
    ∃ heap' queue', queueAdd heap queue a = some (heap', queue') ∧
      IsQueue heap' queue' (StableInsert.insert (fun b => priorityOf heap b ≤ node.priority) a as) ∧
      (∀ b, contentOf heap' b = contentOf heap b) ∧ ∀ b, b ≠ a → b ∉ as → heap'.lookup b = heap.lookup b := by
  let stays : Addr → Bool := fun b => priorityOf heap b ≤ node.priority
  have hsplit : as = as.takeWhile stays ++ as.dropWhile stays := (List.takeWhile_append_dropWhile).symm
  have hin : ∀ {b}, b ∉ as → b ∉ as.takeWhile stays := fun hb h' =>
    hb ((List.takeWhile_sublist stays).subset h')
  suffices hcase : ∃ heap' queue', queueAdd heap queue a = some (heap', queue') ∧
      Inserted heap queue (as.takeWhile stays) (as.dropWhile stays) a heap' queue' by
    obtain ⟨heap', queue', hadd, hres, hcontent, hframe⟩ := hcase
    exact ⟨heap', queue', hadd, hres, hcontent, fun b hba hb => hframe b hba (hin hb)⟩
  by_cases hne : as = []
  · subst hne
    exact queueAdd_empty h hnode (hnext rfl)
  · have hpos := getInsertPos_eq (p := node.priority) h hne hroom
    change getInsertPos heap queue.head node.priority = some ((as.takeWhile stays).length : Int) at hpos
    generalize as.takeWhile stays = pre at *
    generalize as.dropWhile stays = post at *
    subst hsplit
    rcases List.eq_nil_or_concat pre with rfl | ⟨pre, b, rfl⟩
    · exact queueAdd_front h hnode ha hpos
    · rw [List.concat_eq_append] at *
      rw [List.length_append, List.length_singleton, Int.natCast_add] at hpos
      rw [List.append_assoc, List.singleton_append] at h ha
      exact queueAdd_after h hnode ha hpos

theorem IsQueue.len_eq (h : IsQueue heap queue as) (hroom : as.length < 2 ^ 31) : queue.len = as.length := by
  rw [h.len, cInt_of_lt (by omega) (by omega)]

/-- The wait loop ends exactly when there is a task. -/
theorem IsQueue.len_le_zero (h : IsQueue heap queue as) (hroom : as.length < 2 ^ 31) :
    queue.len ≤ 0 ↔ as = [] := by
  rw [h.len_eq hroom, ← List.length_eq_zero_iff]
  omega

theorem queueGetTask_cons {a : Addr} {rest : List Addr} (h : IsQueue heap queue (a :: rest)) :
    ∃ queue', queueGetTask heap queue = some (some a, queue') ∧ IsQueue heap queue' rest := by
  obtain ⟨hhead, n, hn, hseg⟩ := h.seg
  obtain ⟨node, hnode, rfl⟩ := nextOf_eq_some hn
  have hlen : cInt (queue.len - 1) = cInt rest.length := by
    rw [h.len, List.length_cons, Int.sub_eq_add_neg, cInt_cInt_add]
    congr 1
    omega
  exact ⟨⟨cInt (queue.len - 1), node.next⟩, by simp [queueGetTask, hhead, hnode], hseg, hlen⟩

theorem freeNodes_eq {h : Option Addr} {k : Nat} (hs : Seg (nextOf heap) h as none) (hk : as.length ≤ k) :
    ∃ heap', freeNodes heap k h = some heap' ∧ ∀ b, b ∉ as → heap'.lookup b = heap.lookup b := by
  induction as generalizing heap h k with
  | nil =>
    obtain rfl : h = none := hs
    refine ⟨heap, ?_, fun _ _ => rfl⟩
    cases k <;> rfl
  | cons a as ih =>
    have ha : a ∉ as := (List.nodup_cons.mp hs.nodup).1
    obtain ⟨rfl, n, hn, hs⟩ := hs
    obtain ⟨node, hnode, rfl⟩ := nextOf_eq_some hn
    rw [List.length_cons] at hk
    obtain ⟨k, rfl⟩ : ∃ j, k = j + 1 := ⟨k - 1, by omega⟩
    have hframe : ∀ b, b ≠ a → (heap.erase a).lookup b = heap.lookup b := fun b hb => AList.lookup_erase_ne hb
    have hrest : Seg (nextOf (heap.erase a)) node.next as none :=
      hs.congr fun b hb => by rw [nextOf, hframe b fun h => ha (h ▸ hb), nextOf]
    obtain ⟨heap', hfree, hother⟩ := ih hrest (Nat.le_of_succ_le_succ hk)
    refine ⟨heap', by rw [freeNodes, hnode, Option.bind_some, hfree], fun b hb => ?_⟩
    rw [List.mem_cons, not_or] at hb
    rw [hother b hb.2, hframe b hb.1]

/-- `ppool_queue_cleanup` leaves the empty queue, and the nodes that were not in it. -/
theorem queueCleanup_spec (h : IsQueue heap queue as) :
    ∃ heap', queueCleanup heap queue = some (heap', ⟨0, none⟩) ∧ IsQueue heap' ⟨0, none⟩ [] ∧
      ∀ b, b ∉ as → heap'.lookup b = heap.lookup b := by
  obtain ⟨heap', hfree, hother⟩ := freeNodes_eq h.seg (length_le_fuel h.seg)
  exact ⟨heap', by rw [queueCleanup, hfree, Option.map_some], ⟨rfl, rfl⟩, hother⟩

end Lists

end Ppool
end Emberlite
