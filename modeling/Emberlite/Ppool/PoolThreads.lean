import Mathlib.Data.List.Count
import Mathlib.Data.List.Nodup
import Mathlib.Logic.Function.Basic

/-! The threads of a pool, from `ppool_init` to `ppool_destroy`.

    `ppool_init` counts the threads that it creates, and `ppool_destroy` goes by the array `id`. An element of the
    array is what `malloc` or a `pthread_create` that failed has left there, unless its thread was created. -/

namespace Emberlite
namespace Ppool
namespace PoolThreads

/-- `pthread_t` -/
abbrev PthreadT := UInt64

/-- The values of `ppool_errno` that `ppool_init` sets. -/
inductive PpoolErrno where
  | poolNoMem
  | threadNoMem
  | threadMutexError
  | threadCondError
  | queueNoMem
  | priorityError
  deriving DecidableEq, Repr

/-- What `pthread_create` does: the id of a thread is not 0, and a failure leaves anything in its place. -/
inductive Created where
  | thread (id : PthreadT) (ne_zero : id ≠ 0)
  | failed (left : PthreadT)

/-- The thread that was created. -/
def Created.id? : Created → Option PthreadT
  | .thread id _ => some id
  | .failed _ => none

/-- What `ppool_init` is given: which of its calls succeed, and what the `pthread_create` for each element does. Two
    threads have two ids. -/
structure Given where
  mallocPool : Bool
  queueInit : Bool
  mallocId : Bool
  ppoolLockInit : Bool
  entryLockInit : Bool
  condInit : Bool
  create : Nat → Created
  distinct : ∀ i j id, (create i).id? = some id → (create j).id? = some id → i = j

/-- The fields of `pool_t` that are about threads. -/
structure PoolIds where
  poolMaxNum : Int
  relNum : Int
  id : Nat → PthreadT

/-- The loop of `ppool_init` from element `i`, with `n` to go. -/
def createLoop (create : Nat → Created) : (n i : Nat) → PoolIds → PoolIds
  | 0, _, pool => pool
  | n + 1, i, pool =>
    match create i with
    | .thread id _ =>
      createLoop create n (i + 1) { pool with relNum := pool.relNum + 1, id := Function.update pool.id i id }
    | .failed left => createLoop create n (i + 1) { pool with id := Function.update pool.id i left }

/-- `ppool_init`, for memory with these contents. -/
def ppoolInit (given : Given) (memory : Nat → PthreadT) (poolMaxNum : Int) : Except PpoolErrno PoolIds :=
  if poolMaxNum ≤ 0 then .error .priorityError
  else if !given.mallocPool then .error .poolNoMem
  else if !given.queueInit then .error .queueNoMem
  else if !given.mallocId then .error .threadNoMem
  else if !given.ppoolLockInit then .error .threadMutexError
  else if !given.entryLockInit then .error .threadMutexError
  else if !given.condInit then .error .threadCondError
  else .ok (createLoop given.create poolMaxNum.toNat 0 ⟨poolMaxNum, 0, memory⟩)

/-- The loop of `ppool_destroy` from element `i`, with `n` to go: the arguments of `pthread_cancel`. -/
def cancelLoop (id : Nat → PthreadT) : (n i : Nat) → List PthreadT
  | 0, _ => []
  | n + 1, i => if id i ≠ 0 then id i :: cancelLoop id n (i + 1) else cancelLoop id n (i + 1)

/-- The arguments that `ppool_destroy` calls `pthread_cancel` with. -/
def ppoolDestroy (pool : PoolIds) : List PthreadT := cancelLoop pool.id pool.poolMaxNum.toNat 0

/-- The threads that the calls for `n` elements from `i` on create. -/
def threads (create : Nat → Created) : (n i : Nat) → List PthreadT
  | 0, _ => []
  | n + 1, i => (create i).id?.toList ++ threads create n (i + 1)

/-- The pool counts its threads, cancels each of them once and nothing else, and has one. -/
structure Sound (pool : PoolIds) (running : List PthreadT) : Prop where
  counted : pool.relNum = running.length
  once : ∀ id ∈ running, (ppoolDestroy pool).count id = 1
  only : ∀ id ∈ ppoolDestroy pool, id ∈ running
  works : running ≠ []

/-- What is in an element after the loop. -/
def leftBy : Created → PthreadT
  | .thread id _ => id
  | .failed left => left

/-- What `ppool_init` needs before it creates threads is there. -/
def Given.ready (given : Given) : Prop :=
  given.mallocPool ∧ given.queueInit ∧ given.mallocId ∧ given.ppoolLockInit ∧ given.entryLockInit ∧ given.condInit

section Loops
variable {create : Nat → Created}

theorem createLoop_eq (create : Nat → Created) (n i : Nat) (pool : PoolIds) :
    (createLoop create n i pool).poolMaxNum = pool.poolMaxNum ∧
      (createLoop create n i pool).relNum = pool.relNum + (threads create n i).length ∧
      ∀ j, (createLoop create n i pool).id j = if i ≤ j ∧ j < i + n then leftBy (create j) else pool.id j := by
  induction n generalizing i pool with
  | zero =>
    refine ⟨rfl, (Int.add_zero _).symm, fun j => ?_⟩
    rw [if_neg (by omega)]
    rfl
  | succ n ih =>
    -- Element `i` is written first, and the rest of the loop does not come back to it.
    have hat : ∀ (v : PthreadT) (j : Nat), leftBy (create i) = v →
        (if i + 1 ≤ j ∧ j < i + 1 + n then leftBy (create j) else Function.update pool.id i v j) =
          if i ≤ j ∧ j < i + (n + 1) then leftBy (create j) else pool.id j := by
      intro v j hv
      by_cases hj : j = i
      · subst hj
        rw [if_neg (by omega), if_pos (by omega), Function.update_self, hv]
      · rw [Function.update_of_ne hj]
        exact if_congr (by omega) rfl rfl
    simp only [createLoop]
    rcases hc : create i with ⟨id, hne⟩ | left
    · obtain ⟨hmax, hrel, hid⟩ := ih (i + 1) { pool with relNum := pool.relNum + 1, id := Function.update pool.id i id }
      refine ⟨hmax, ?_, fun j => (hid j).trans (hat id j (by rw [hc, leftBy]))⟩
      rw [hrel, threads, hc, Created.id?]
      simp only [Option.toList_some, List.singleton_append, List.length_cons]
      omega
    · obtain ⟨hmax, hrel, hid⟩ := ih (i + 1) { pool with id := Function.update pool.id i left }
      refine ⟨hmax, ?_, fun j => (hid j).trans (hat left j (by rw [hc, leftBy]))⟩
      rw [hrel, threads, hc, Created.id?]
      rfl

theorem mem_threads {n i : Nat} {id : PthreadT} :
    id ∈ threads create n i ↔ ∃ j, i ≤ j ∧ j < i + n ∧ (create j).id? = some id := by
  induction n generalizing i with
  | zero =>
    simp only [threads, List.not_mem_nil, false_iff]
    rintro ⟨j, hi, hj, -⟩
    omega
  | succ n ih =>
    rw [threads, List.mem_append, Option.mem_toList, ih]
    constructor
    · rintro (hid | ⟨j, hi, hj, hid⟩)
      · exact ⟨i, Nat.le_refl i, by omega, hid⟩
      · exact ⟨j, by omega, by omega, hid⟩
    · rintro ⟨j, hi, hj, hid⟩
      by_cases hji : j = i
      · exact .inl (hji ▸ hid)
      · exact .inr ⟨j, by omega, by omega, hid⟩

theorem threads_nodup (hdistinct : ∀ i j id, (create i).id? = some id → (create j).id? = some id → i = j) (n i : Nat) :
    (threads create n i).Nodup := by
  induction n generalizing i with
  | zero => exact List.nodup_nil
  | succ n ih =>
    refine List.nodup_append'.mpr ⟨by cases (create i).id? <;> simp, ih (i + 1), fun id hid hrest => ?_⟩
    obtain ⟨j, hi, -, hj⟩ := mem_threads.mp hrest
    have := hdistinct i j id (Option.mem_toList.mp hid) hj
    omega

theorem mem_cancelLoop {id : Nat → PthreadT} {n i : Nat} {v : PthreadT} :
    v ∈ cancelLoop id n i ↔ v ≠ 0 ∧ ∃ j, i ≤ j ∧ j < i + n ∧ id j = v := by
  induction n generalizing i with
  | zero =>
    simp only [cancelLoop, List.not_mem_nil, false_iff]
    rintro ⟨-, j, hi, hj, -⟩
    omega
  | succ n ih =>
    have hcons : v ∈ cancelLoop id (n + 1) i ↔ (v ≠ 0 ∧ id i = v) ∨ v ∈ cancelLoop id n (i + 1) := by
      rw [cancelLoop]
      split_ifs with h0
      · rw [List.mem_cons]
        exact or_congr_left ⟨fun h => ⟨h ▸ h0, h.symm⟩, fun h => h.2.symm⟩
      · exact ⟨.inr, fun h => h.resolve_left fun ⟨hv, hi⟩ => h0 (hi ▸ hv)⟩
    rw [hcons, ih]
    constructor
    · rintro (⟨hv, hid⟩ | ⟨hv, j, hi, hj, hid⟩)
      · exact ⟨hv, i, Nat.le_refl i, by omega, hid⟩
      · exact ⟨hv, j, by omega, by omega, hid⟩
    · rintro ⟨hv, j, hi, hj, hid⟩
      by_cases hji : j = i
      · exact .inl ⟨hv, hji ▸ hid⟩
      · exact .inr ⟨hv, j, by omega, by omega, hid⟩

/-- Where every creation that failed has left 0, the loop of `ppool_destroy` goes over the threads. -/
theorem cancelLoop_eq_threads {id : Nat → PthreadT} {n i : Nat}
    (hid : ∀ j, i ≤ j → j < i + n → id j = leftBy (create j))
    (hleft : ∀ j, i ≤ j → j < i + n → ∀ left, create j = .failed left → left = 0) :
    cancelLoop id n i = threads create n i := by
  induction n generalizing i with
  | zero => rfl
  | succ n ih =>
    have hrest := ih (i := i + 1) (fun j hi hj => hid j (by omega) (by omega)) fun j hi hj =>
      hleft j (by omega) (by omega)
    have hat := hid i (Nat.le_refl i) (by omega)
    rw [cancelLoop, threads, hrest]
    rcases hc : create i with ⟨v, hne⟩ | left
    · rw [hc, leftBy] at hat
      rw [hat, if_pos hne]
      rfl
    · rw [hc, leftBy, hleft i (Nat.le_refl i) (by omega) left hc] at hat
      rw [hat, if_neg (not_not.mpr rfl)]
      rfl

/-- An element that is not 0 and that no thread has put there is cancelled, and the thread of that id, if there is one,
    is cancelled twice. -/
theorem two_le_count {id : Nat → PthreadT} {n i j k : Nat} {v : PthreadT} (hv : v ≠ 0) (hjk : j < k) (hi : i ≤ j)
    (hk : k < i + n) (hj : id j = v) (hkv : id k = v) : 2 ≤ (cancelLoop id n i).count v := by
  induction n generalizing i with
  | zero => omega
  | succ n ih =>
    by_cases hji : j = i
    · subst hji
      have hmem : v ∈ cancelLoop id n (j + 1) := mem_cancelLoop.mpr ⟨hv, k, hjk, by omega, hkv⟩
      rw [cancelLoop, hj, if_pos hv, List.count_cons_self]
      exact Nat.succ_le_succ (List.count_pos_iff.mpr hmem)
    · refine Nat.le_trans (ih (i := i + 1) (by omega) (by omega)) ?_
      rw [cancelLoop]
      split_ifs
      · exact List.count_le_count_cons
      · exact Nat.le_refl _

end Loops

theorem ppoolInit_ready {given : Given} {poolMaxNum : Int} (hmax : 0 < poolMaxNum) (hready : given.ready)
    (memory : Nat → PthreadT) :
    ppoolInit given memory poolMaxNum = .ok (createLoop given.create poolMaxNum.toNat 0 ⟨poolMaxNum, 0, memory⟩) := by
  obtain ⟨hpool, hqueue, hid, hlock, hentry, hcond⟩ := hready
  simp only [ppoolInit, hpool, hqueue, hid, hlock, hentry, hcond, if_neg (Int.not_le.mpr hmax), Bool.not_true,
    Bool.false_eq_true, if_false]

theorem ready_of_ppoolInit {given : Given} {poolMaxNum : Int} {memory : Nat → PthreadT} {pool : PoolIds}
    (h : ppoolInit given memory poolMaxNum = .ok pool) : given.ready := by
  unfold ppoolInit at h
  split_ifs at h with _ hpool hqueue hid hlock hentry hcond
  simp only [Bool.not_eq_true, Bool.not_eq_false'] at hpool hqueue hid hlock hentry hcond
  exact ⟨hpool, hqueue, hid, hlock, hentry, hcond⟩

/-- What `ppool_init` returns has the counted threads, and the elements that the calls have left. -/
theorem ppoolInit_eq {given : Given} {poolMaxNum : Int} {memory : Nat → PthreadT} {pool : PoolIds}
    (h : ppoolInit given memory poolMaxNum = .ok pool) :
    pool.poolMaxNum = poolMaxNum ∧ pool.relNum = (threads given.create poolMaxNum.toNat 0).length ∧
      ∀ j < poolMaxNum.toNat, pool.id j = leftBy (given.create j) := by
  have hpool : createLoop given.create poolMaxNum.toNat 0 ⟨poolMaxNum, 0, memory⟩ = pool := by
    unfold ppoolInit at h
    split_ifs at h
    exact Except.ok.inj h
  obtain ⟨hmax, hrel, hid⟩ := createLoop_eq given.create poolMaxNum.toNat 0 ⟨poolMaxNum, 0, memory⟩
  rw [hpool] at hmax hrel hid
  refine ⟨hmax, hrel.trans (Int.zero_add _), fun j hj => ?_⟩
  rw [hid j, if_pos ⟨Nat.zero_le j, by omega⟩]

/-- A sound pool has 0 in the element of every thread that was not created. -/
theorem left_of_sound {given : Given} {poolMaxNum : Int} {memory : Nat → PthreadT} {pool : PoolIds}
    (h : ppoolInit given memory poolMaxNum = .ok pool)
    (hsound : Sound pool (threads given.create poolMaxNum.toNat 0)) {i : Nat} (hi : i < poolMaxNum.toNat)
    {left : PthreadT} (hleft : given.create i = .failed left) : left = 0 := by
  obtain ⟨hmax, -, hid⟩ := ppoolInit_eq h
  have hat : pool.id i = left := by rw [hid i hi, hleft, leftBy]
  by_contra hne
  have hcancel : left ∈ ppoolDestroy pool := by
    rw [ppoolDestroy, hmax]
    exact mem_cancelLoop.mpr ⟨hne, i, Nat.zero_le i, by omega, hat⟩
  -- It is cancelled, so it is a thread, and `ppool_destroy` comes to that thread in its own element too.
  have hrunning := hsound.only left hcancel
  obtain ⟨k, -, hk, hkid⟩ := mem_threads.mp hrunning
  have hkat : pool.id k = left := by
    rw [hid k (by omega)]
    rcases hc : given.create k with ⟨v, hv⟩ | v
    · rw [hc] at hkid
      exact Option.some_inj.mp hkid
    · rw [hc] at hkid
      cases hkid
  have htwice : 2 ≤ (ppoolDestroy pool).count left := by
    rw [ppoolDestroy, hmax]
    rcases Nat.lt_trichotomy i k with hik | rfl | hki
    · exact two_le_count hne hik (Nat.zero_le i) hk hat hkat
    · rw [hleft] at hkid
      cases hkid
    · exact two_le_count hne hki (Nat.zero_le k) (by omega) hkat hat
  have honce := hsound.once left hrunning
  omega

/-- The pools of `ppool_init` are sound exactly when it creates a thread and leaves 0 in the element of every thread that
    it could not create. -/
theorem sound_iff {poolMaxNum : Int} (hmax : 0 < poolMaxNum) (given : Given) (memory : Nat → PthreadT) :
    (∀ pool, ppoolInit given memory poolMaxNum = .ok pool →
        Sound pool (threads given.create poolMaxNum.toNat 0)) ↔
      (given.ready →
        (∃ i < poolMaxNum.toNat, (given.create i).id?.isSome) ∧
          ∀ i < poolMaxNum.toNat, ∀ left, given.create i = .failed left → left = 0) := by
  constructor
  · intro hall hready
    have hinit := ppoolInit_ready hmax hready memory
    have hsound := hall _ hinit
    refine ⟨?_, fun i hi left hleft => left_of_sound hinit hsound hi hleft⟩
    obtain ⟨id, hid⟩ := List.exists_mem_of_ne_nil _ hsound.works
    obtain ⟨i, -, hi, hsome⟩ := mem_threads.mp hid
    exact ⟨i, by omega, Option.isSome_iff_exists.mpr ⟨id, hsome⟩⟩
  · intro hcond pool hinit
    obtain ⟨⟨i, hi, hsome⟩, hleft⟩ := hcond (ready_of_ppoolInit hinit)
    obtain ⟨hmaxNum, hrel, hid⟩ := ppoolInit_eq hinit
    have hdestroy : ppoolDestroy pool = threads given.create poolMaxNum.toNat 0 := by
      rw [ppoolDestroy, hmaxNum]
      exact cancelLoop_eq_threads (fun j _ hj => hid j (by omega)) fun j _ hj => hleft j (by omega)
    obtain ⟨id, hsome⟩ := Option.isSome_iff_exists.mp hsome
    have hmem : id ∈ threads given.create poolMaxNum.toNat 0 := mem_threads.mpr ⟨i, Nat.zero_le i, by omega, hsome⟩
    refine ⟨hrel, fun v hv => ?_, fun v hv => hdestroy ▸ hv, List.ne_nil_of_mem hmem⟩
    rw [hdestroy]
    exact List.count_eq_one_of_mem (threads_nodup given.distinct _ _) hv

/-- Memory that holds 0. -/
def blank : Nat → PthreadT := fun _ => 0

/-- A pool where only the first thread is created, and the others leave this in their elements. -/
def oneThread (left : PthreadT) : Given where
  mallocPool := true
  queueInit := true
  mallocId := true
  ppoolLockInit := true
  entryLockInit := true
  condInit := true
  create i := if i = 0 then .thread 5 (by decide) else .failed left
  distinct := by
    intro i j id hi hj
    have hzero : ∀ k : Nat, (if k = 0 then Created.thread 5 (by decide) else .failed left).id? = some id → k = 0 := by
      intro k hk
      by_contra hne
      rw [if_neg hne] at hk
      cases hk
    rw [hzero i hi, hzero j hj]

theorem sound_iff_one :
    0 < (2 : Int) ∧
      ((∀ pool, ppoolInit (oneThread 0) blank 2 = .ok pool → Sound pool (threads (oneThread 0).create 2 0)) ↔
        ((oneThread 0).ready →
          (∃ i < 2, ((oneThread 0).create i).id?.isSome) ∧
            ∀ i < 2, ∀ left, (oneThread 0).create i = .failed left → left = 0)) :=
  ⟨by decide, sound_iff (by decide) (oneThread 0) blank⟩

theorem hole_cancelled :
    ∃ pool, ppoolInit (oneThread 9) blank 2 = .ok pool ∧ threads (oneThread 9).create 2 0 = [5] ∧
      ppoolDestroy pool = [5, 9] ∧ ¬ Sound pool (threads (oneThread 9).create 2 0) := by
  refine ⟨_, rfl, rfl, rfl, fun hsound => ?_⟩
  have h9 := hsound.only 9 (List.mem_cons_of_mem _ (List.mem_singleton.mpr rfl))
  exact absurd h9 (by decide)

end PoolThreads
end Ppool
end Emberlite
