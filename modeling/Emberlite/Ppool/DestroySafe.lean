import Emberlite.Ppool.Destroy
import Emberlite.Ppool.PoolRun

/-! When `ppool_destroy` is safe. Nothing orders it against the workers, so it is safe exactly in the runs in
    which the schedule does: no worker is in its critical section when it starts, no worker takes the lock from
    then on, and those cancelled in `pthread_cond_wait` are out before the lock is destroyed. -/

namespace Emberlite
namespace Ppool
open LinkedSegment

section Safe
variable {W : Type} [DecidableEq W] {ids : List W} {args : Nat → Option PoolTask} {s t : Teardown W} {x : Actor W}

/-- A worker that has not left `pthread_cond_wait`. -/
def Teardown.InWait (s : Teardown W) (w : W) : Prop :=
  s.fate w = .leaving ∨ s.fate w = .alive ∧ s.pool.workers w = .waiting

/-- The condition on a step, before it. -/
def Allowed (s : Teardown W) : Actor W → Prop
  | .destroy =>
    (s.destroy = .notCalled → ∀ w, ¬s.InCritical w) ∧
      (s.destroy = .destroyLock → ∀ w, ¬s.InWait w)
  | .worker w =>
    s.fate w = .alive → s.pool.workers w = .lock ∨ s.pool.workers w = .woken → s.destroy = .notCalled

/-- A run whose steps all meet the condition. -/
def AllowedRun (ids : List W) : Teardown W → Teardown W → Prop :=
  Relation.ReflTransGen fun s t => ∃ x, TearStep ids s x t ∧ Allowed s x

/-- What the allowed steps keep. -/
structure TearInv (ids : List W) (args : Nat → Option PoolTask) (s : Teardown W) : Prop where
  before : s.destroy = .notCalled →
    (∃ as, Inv args s.pool as) ∧ ∀ w, s.cancelled w = false ∧ s.fate w ≠ .leaving
  quiet : s.destroy ≠ .notCalled → ∀ w, ¬s.InCritical w
  walk : ∀ h, s.destroy = .walk h → ∃ rest, Seg (nextOf s.pool.heap) h rest none ∧
    ∀ w a, (s.pool.workers w).node = some a → a ∉ rest
  asked : ∀ rest, s.destroy = .cancel rest → ∀ w ∈ ids, w ∈ rest ∨ s.cancelled w
  askedAll : s.destroy = .destroyLock → ∀ w ∈ ids, s.cancelled w
  settled : s.destroy.destroyedLock → ∀ w, ¬s.InWait w

omit [DecidableEq W] in
theorem start_inv {pool : Pool W} {as : List Addr} (h : Inv args pool as) :
    TearInv ids args (Teardown.start pool) where
  before _ := ⟨⟨as, h⟩, fun _ => ⟨rfl, nofun⟩⟩
  quiet hcalled := (hcalled rfl).elim
  walk := nofun
  asked := nofun
  askedAll := nofun
  settled := nofun

/-- The steps of a worker that neither is in its critical section nor enters it. -/
theorem workerStep_outside {pool pool' : Pool W} {w : W} (hs : WorkerStep w pool pool')
    (hout : ¬(pool.workers w).Holds) (hlock : pool.workers w ≠ .lock) (hwoken : pool.workers w ≠ .woken) :
    ∃ pc, pool'.workers = Function.update pool.workers w pc ∧ ¬pc.Holds ∧ pc ≠ .waiting ∧
      (pool'.heap = pool.heap ∧ (∀ a, pc.node = some a → (pool.workers w).node = some a) ∨
        ∃ a, (pool.workers w).node = some a ∧ pc.node = none ∧ pool'.heap = pool.heap.erase a) := by
  cases hs with
  | lock hw => exact (hlock hw).elim
  | check hw => exact (hout (by rw [hw]; trivial)).elim
  | wait hw => exact (hout (by rw [hw]; trivial)).elim
  | spurious hw => exact ⟨.woken, rfl, not_false, by decide, .inl ⟨rfl, nofun⟩⟩
  | relock hw => exact (hwoken hw).elim
  | getTask hw => exact (hout (by rw [hw]; trivial)).elim
  | unlockTask hw => exact (hout (by rw [hw]; trivial)).elim
  | unlockNull hw => exact (hout (by rw [hw]; trivial)).elim
  | run hw => exact ⟨_, rfl, not_false, by simp, .inl ⟨rfl, fun _ h => by rwa [hw]⟩⟩
  | free hw => exact ⟨.lock, rfl, not_false, by decide, .inr ⟨_, by rw [hw]; rfl, rfl, rfl⟩⟩

theorem walk_outside {pool pool' : Pool W} {w : W} {pc : WorkerPc} {h : Option Addr} {rest : List Addr}
    (hworkers : pool'.workers = Function.update pool.workers w pc)
    (hheap : pool'.heap = pool.heap ∧ (∀ a, pc.node = some a → (pool.workers w).node = some a) ∨
      ∃ a, (pool.workers w).node = some a ∧ pc.node = none ∧ pool'.heap = pool.heap.erase a)
    (hseg : Seg (nextOf pool.heap) h rest none) (hnodes : ∀ w a, (pool.workers w).node = some a → a ∉ rest) :
    Seg (nextOf pool'.heap) h rest none ∧ ∀ w a, (pool'.workers w).node = some a → a ∉ rest := by
  have hold : ∀ v a, (pool'.workers v).node = some a → ∃ u, (pool.workers u).node = some a := by
    intro v a hv
    rw [hworkers, Function.update_apply] at hv
    split at hv
    · rcases hheap with ⟨-, hsame⟩ | ⟨-, -, hnone, -⟩
      · exact ⟨w, hsame a hv⟩
      · rw [hnone] at hv
        cases hv
    · exact ⟨v, hv⟩
  refine ⟨?_, fun v a hv => ?_⟩
  · rcases hheap with ⟨heq, -⟩ | ⟨a, ha, -, heq⟩
    · rwa [heq]
    · refine hseg.congr fun b hb => ?_
      have hba : b ≠ a := fun hba => hnodes w a ha (hba ▸ hb)
      rw [nextOf, heq, AList.lookup_erase_ne hba, nextOf]
  · obtain ⟨u, hu⟩ := hold v a hv
    exact hnodes u a hu

theorem work_inv {pool : Pool W} {w : W} (h : TearInv ids args s) (halive : s.fate w = .alive)
    (hs : WorkerStep w s.pool pool) (hallowed : Allowed s (.worker w)) : TearInv ids args { s with pool } := by
  by_cases hcalled : s.destroy = .notCalled
  · obtain ⟨⟨as, hinv⟩, hidle⟩ := h.before hcalled
    have hlock : s.destroy.destroyedLock = false := by rw [hcalled]; rfl
    exact
      { before := fun _ => ⟨workerStep_inv hinv hs, hidle⟩
        quiet := fun hne => (hne hcalled).elim
        walk := fun _ hd => by cases hcalled.symm.trans hd
        asked := fun _ hd => by cases hcalled.symm.trans hd
        askedAll := fun hd => by cases hcalled.symm.trans hd
        settled := fun hd => by cases hlock.symm.trans hd }
  · have hout : ¬(s.pool.workers w).Holds := fun hholds => h.quiet hcalled w ⟨halive, hholds⟩
    have hlock : s.pool.workers w ≠ .lock := fun hw => hcalled (hallowed halive (.inl hw))
    have hwoken : s.pool.workers w ≠ .woken := fun hw => hcalled (hallowed halive (.inr hw))
    obtain ⟨pc, hworkers, hpc, hwait, hheap⟩ := workerStep_outside hs hout hlock hwoken
    refine ⟨fun hd => (hcalled hd).elim, fun _ v hv => ?_, fun h' hd => ?_, h.asked, h.askedAll, fun hd v hv => ?_⟩
    · obtain ⟨hv, hholds⟩ := hv
      change (pool.workers v).Holds at hholds
      rw [hworkers, Function.update_apply] at hholds
      split at hholds
      · exact hpc hholds
      · exact h.quiet hcalled v ⟨hv, hholds⟩
    · obtain ⟨rest, hseg, hnodes⟩ := h.walk h' hd
      exact ⟨rest, walk_outside hworkers hheap hseg hnodes⟩
    · refine h.settled hd v ?_
      rcases hv with hv | ⟨hv, hw⟩
      · exact .inl hv
      · change pool.workers v = _ at hw
        rw [hworkers, Function.update_apply] at hw
        split at hw
        · exact (hwait hw).elim
        · exact .inr ⟨hv, hw⟩

/-- Cancellation ends a worker, which enters no critical section and no wait by it. -/
theorem fate_inv {w : W} {fate : Fate} (h : TearInv ids args s) (hcalled : s.destroy ≠ .notCalled)
    (hfate : fate ≠ .alive) (hwait : fate = .leaving → s.InWait w) :
    TearInv ids args { s with fate := Function.update s.fate w fate } := by
  refine ⟨fun hd => (hcalled hd).elim, fun _ v hv => ?_, h.walk, h.asked, h.askedAll, fun hd v hv => ?_⟩
  · obtain ⟨hv, hholds⟩ := hv
    change Function.update s.fate w fate v = .alive at hv
    rw [Function.update_apply] at hv
    split at hv
    · exact hfate hv
    · exact h.quiet hcalled v ⟨hv, hholds⟩
  · refine h.settled hd v ?_
    change Function.update s.fate w fate v = .leaving ∨ Function.update s.fate w fate v = .alive ∧ _ at hv
    rw [Function.update_apply] at hv
    split at hv
    · rename_i heq
      rcases hv with hv | ⟨hv, -⟩
      · exact heq ▸ hwait hv
      · exact (hfate hv).elim
    · exact hv

omit [DecidableEq W] in
theorem cancelled_called {w : W} (h : TearInv ids args s) (hcancelled : s.cancelled w) :
    s.destroy ≠ .notCalled := by
  intro hd
  obtain ⟨-, hidle⟩ := h.before hd
  obtain ⟨hfalse, -⟩ := hidle w
  rw [hcancelled] at hfalse
  cases hfalse

/-! What is left to show once the call has come: of the walk over the queue, of the loop over the workers, and of what
    follows them. -/

section Called
omit [DecidableEq W]

theorem walk_inv {h : Option Addr} {rest : List Addr} (hd : t.destroy = .walk h) (hquiet : ∀ w, ¬t.InCritical w)
    (hseg : Seg (nextOf t.pool.heap) h rest none) (hnodes : ∀ w a, (t.pool.workers w).node = some a → a ∉ rest) :
    TearInv ids args t where
  before hd' := by simp [hd] at hd'
  quiet _ := hquiet
  walk h' hd' := by
    cases hd.symm.trans hd'
    exact ⟨rest, hseg, hnodes⟩
  asked rest' hd' := by simp [hd] at hd'
  askedAll hd' := by simp [hd] at hd'
  settled hlock := by simp [hd, DestroyPc.destroyedLock] at hlock

theorem asked_inv {rest : List W} (hd : t.destroy = .cancel rest) (hquiet : ∀ w, ¬t.InCritical w)
    (hasked : ∀ w ∈ ids, w ∈ rest ∨ t.cancelled w) : TearInv ids args t where
  before hd' := by simp [hd] at hd'
  quiet _ := hquiet
  walk h hd' := by simp [hd] at hd'
  asked rest' hd' := by
    cases hd.symm.trans hd'
    exact hasked
  askedAll hd' := by simp [hd] at hd'
  settled hlock := by simp [hd, DestroyPc.destroyedLock] at hlock

theorem askedAll_inv (hd : t.destroy = .destroyLock) (hquiet : ∀ w, ¬t.InCritical w)
    (hasked : ∀ w ∈ ids, t.cancelled w) : TearInv ids args t where
  before hd' := by simp [hd] at hd'
  quiet _ := hquiet
  walk h hd' := by simp [hd] at hd'
  asked rest hd' := by simp [hd] at hd'
  askedAll _ := hasked
  settled hlock := by simp [hd, DestroyPc.destroyedLock] at hlock

theorem settled_inv (hlock : t.destroy.destroyedLock) (hquiet : ∀ w, ¬t.InCritical w)
    (hsettled : ∀ w, ¬t.InWait w) : TearInv ids args t where
  before hd := by simp [hd, DestroyPc.destroyedLock] at hlock
  quiet _ := hquiet
  walk h hd := by simp [hd, DestroyPc.destroyedLock] at hlock
  asked rest hd := by simp [hd, DestroyPc.destroyedLock] at hlock
  askedAll hd := by simp [hd, DestroyPc.destroyedLock] at hlock
  settled _ := hsettled

end Called

theorem tearStep_inv (h : TearInv ids args s) (hs : TearStep ids s x t) (hallowed : Allowed s x) :
    TearInv ids args t := by
  cases hs with
  | work halive hw => exact work_inv h halive hw hallowed
  | readFreed | lockDestroyed => exact h
  | cancelWait halive hcancelled hw =>
    exact fate_inv h (cancelled_called h hcancelled) (by decide) fun _ => .inr ⟨halive, hw⟩
  | cancelTask _ hcancelled =>
    exact fate_inv h (cancelled_called h hcancelled) (by decide) fun hkilled => by cases hkilled
  | @leave w hleaving hfree =>
    have hcalled : s.destroy ≠ .notCalled := fun hd => by
      obtain ⟨-, hidle⟩ := h.before hd
      exact (hidle w).2 hleaving
    have hfate : TearInv ids args { s with fate := Function.update s.fate w .left } :=
      fate_inv h hcalled (by decide) fun hleft => by cases hleft
    exact { hfate with before := fun hd => (hcalled hd).elim }
  | call hd =>
    obtain ⟨⟨as, hinv⟩, -⟩ := h.before hd
    obtain ⟨hquiet, -⟩ := hallowed
    exact walk_inv rfl (hquiet hd) hinv.data.queue.seg fun w a hw => (hinv.data.workerNode_own hw).1
  | @freeNode a node hd hnode =>
    obtain ⟨rest, hseg, hnodes⟩ := h.walk _ hd
    have hquiet := h.quiet (by simp [hd])
    obtain ⟨b, rest, rfl⟩ : ∃ b bs, rest = b :: bs := by
      rcases rest with _ | ⟨b, bs⟩
      · cases hseg
      · exact ⟨b, bs, rfl⟩
    obtain ⟨hout, -⟩ := List.nodup_cons.mp hseg.nodup
    obtain ⟨hab, n, hn, hseg⟩ := hseg
    cases hab
    rw [nextOf, hnode, Option.map_some, Option.some_inj] at hn
    have hwalk : Seg (nextOf (s.pool.heap.erase a)) node.next rest none := by
      rw [hn]
      refine hseg.congr fun c hc => ?_
      have hca : c ≠ a := fun hca => hout (hca ▸ hc)
      exact congrArg (Option.map _) (AList.lookup_erase_ne hca)
    exact walk_inv rfl hquiet hwalk fun w c hw hc => hnodes w c hw (List.mem_cons_of_mem a hc)
  | freeQueue hd => exact asked_inv rfl (h.quiet (by simp [hd])) fun w hw => .inl hw
  | @cancel w rest hd =>
    refine asked_inv rfl (h.quiet (by simp [hd])) fun v hv => ?_
    change v ∈ rest ∨ Function.update s.cancelled w true v = true
    rw [Function.update_apply]
    split
    · exact .inr rfl
    · rename_i hvw
      rcases h.asked _ hd v hv with hv | hv
      · exact .inl ((List.mem_cons.mp hv).resolve_left hvw)
      · exact .inr hv
  | freeIds hd =>
    refine askedAll_inv rfl (h.quiet (by simp [hd])) fun w hw => ?_
    exact (h.asked _ hd w hw).resolve_left List.not_mem_nil
  | destroyLock hd =>
    obtain ⟨-, hsettled⟩ := hallowed
    exact settled_inv rfl (h.quiet (by simp [hd])) (hsettled hd)
  | destroyEntryLock hd | destroyCond hd | freePool hd =>
    exact settled_inv rfl (h.quiet (by simp [hd])) (h.settled (by rw [hd]; rfl))

theorem allowedRun_inv (h : TearInv ids args s) (hrun : AllowedRun ids s t) : TearInv ids args t := by
  induction hrun with
  | refl => exact h
  | tail _ hs ih =>
    obtain ⟨x, hs, hallowed⟩ := hs
    exact tearStep_inv ih hs hallowed

omit [DecidableEq W] in
theorem not_violation (h : TearInv ids args s) (hallowed : Allowed s x) : ¬Violation s x := by
  intro hviolation
  cases x with
  | destroy =>
    obtain ⟨⟨a, hd⟩, w, hcritical⟩ := hviolation
    exact h.quiet (by rw [hd]; nofun) w hcritical
  | worker w =>
    -- A worker in its critical section finds everything in place: the call has not come yet.
    have huncalled : s.InCritical w → s.destroy = .notCalled := fun hcritical => by
      by_contra hcalled
      exact h.quiet hcalled w hcritical
    change s.Misuses w at hviolation
    unfold Teardown.Misuses at hviolation
    split at hviolation
    · rename_i halive hw
      have hd := huncalled ⟨halive, by rw [hw]; trivial⟩
      simp [hd, DestroyPc.freedQueue, DestroyPc.destroyedCond] at hviolation
    · rename_i halive hw
      have hd := huncalled ⟨halive, by rw [hw]; trivial⟩
      obtain ⟨⟨as, hinv⟩, -⟩ := h.before hd
      obtain ⟨a, rest, queue, -, hget, -⟩ := hinv.getTask hw
      simp [hd, DestroyPc.freedQueue, hget] at hviolation
    · rename_i halive hw
      have hd := hallowed halive (.inl hw)
      simp [hd, DestroyPc.destroyedLock] at hviolation
    · rename_i halive hw
      have hd := hallowed halive (.inr hw)
      simp [hd, DestroyPc.destroyedLock] at hviolation
    · rename_i hleaving
      exact h.settled hviolation w (.inl hleaving)
    · exact hviolation

/-- A later step, or this one, is a violation. -/
def Doomed (ids : List W) (s : Teardown W) : Prop :=
  ∃ u y v, Run ids s u ∧ TearStep ids u y v ∧ Violation u y

/-- The walk of `ppool_queue_destroy` can go on, whoever is in its critical section. -/
theorem doomed_walk {h : Option Addr} {rest : List Addr} {w : W} (hd : s.destroy = .walk h)
    (hseg : Seg (nextOf s.pool.heap) h rest none) (hcritical : s.InCritical w) : Doomed ids s := by
  have hstep : ∃ v, TearStep ids s .destroy v := by
    rcases rest with _ | ⟨a, rest⟩
    · obtain rfl : h = none := hseg
      exact ⟨_, .freeQueue hd⟩
    · obtain ⟨rfl, n, hn, -⟩ := hseg
      obtain ⟨node, hnode, -⟩ := nextOf_eq_some hn
      exact ⟨_, .freeNode hd hnode⟩
  obtain ⟨v, hstep⟩ := hstep
  exact ⟨s, .destroy, v, .refl, hstep, ⟨h, hd⟩, w, hcritical⟩

theorem doomed_check {w : W} (halive : s.fate w = .alive) (hw : s.pool.workers w = .check)
    (hfreed : s.destroy.freedQueue) : Doomed ids s := by
  have hstep : ∃ v, TearStep ids s (.worker w) v := by
    by_cases hlen : s.pool.queue.len ≤ 0
    · exact ⟨_, .work halive (.wait hw hlen)⟩
    · exact ⟨_, .work halive (.check hw hlen)⟩
  obtain ⟨v, hstep⟩ := hstep
  refine ⟨s, .worker w, v, .refl, hstep, ?_⟩
  change s.Misuses w
  rw [Teardown.Misuses, halive, hw]
  exact .inl hfreed

theorem doomed_leave {w : W} (hleaving : s.fate w = .leaving) (hdestroyed : s.destroy.destroyedLock) :
    Doomed ids s := by
  refine ⟨s, .worker w, s, .refl, .lockDestroyed (.inl hleaving) hdestroyed, ?_⟩
  change s.Misuses w
  rw [Teardown.Misuses, hleaving]
  exact hdestroyed

omit [DecidableEq W] in
theorem misuses_lock {w : W} (halive : s.fate w = .alive)
    (hw : s.pool.workers w = .lock ∨ s.pool.workers w = .woken) (hdestroyed : s.destroy.destroyedLock) :
    s.Misuses w := by
  rcases hw with hw | hw <;> rw [Teardown.Misuses, halive, hw] <;> exact hdestroyed

/-- A worker that took the lock after the call of `ppool_destroy`. -/
theorem doomed_lock {w : W} {pool : Pool W} (h : TearInv ids args s) (halive : s.fate w = .alive)
    (hw : s.pool.workers w = .lock ∨ s.pool.workers w = .woken) (hs : WorkerStep w s.pool pool)
    (hcalled : s.destroy ≠ .notCalled) : Violation s (.worker w) ∨ Doomed ids { s with pool } := by
  obtain ⟨hcheck, hheap⟩ : pool.workers w = .check ∧ pool.heap = s.pool.heap := by
    cases hs with
    | lock | relock => exact ⟨Function.update_self .., rfl⟩
    | check hpc | wait hpc | spurious hpc | getTask hpc | unlockTask hpc | unlockNull hpc | run hpc | free hpc =>
      simp [hpc] at hw
  have hcritical : Teardown.InCritical { s with pool } w := ⟨halive, by rw [hcheck]; trivial⟩
  cases hd : s.destroy with
  | notCalled => exact (hcalled hd).elim
  | walk h' =>
    obtain ⟨rest, hseg, -⟩ := h.walk h' hd
    exact .inr (doomed_walk rfl (hheap ▸ hseg) hcritical)
  | cancel | destroyLock => exact .inr (doomed_check halive hcheck rfl)
  | destroyEntryLock | destroyCond | freePool | returned =>
    exact .inl (misuses_lock halive hw (by rw [hd]; rfl))

/-- A step that is not allowed does harm, or lets the next ones do it. -/
theorem doomed (hids : ∀ w, w ∈ ids) (h : TearInv ids args s) (hs : TearStep ids s x t)
    (hforbidden : ¬Allowed s x) : Violation s x ∨ Doomed ids t := by
  cases x with
  | worker w =>
    simp only [Allowed, Classical.not_imp] at hforbidden
    obtain ⟨halive, hw, hcalled⟩ := hforbidden
    cases hs with
    | work _ hs => exact doomed_lock h halive hw hs hcalled
    | readFreed _ hpc | cancelWait _ _ hpc | cancelTask _ _ hpc => simp [hpc] at hw
    | leave hleaving => simp [hleaving] at halive
    | lockDestroyed _ hdestroyed => exact .inl (misuses_lock halive hw hdestroyed)
  | destroy =>
    rw [Allowed, not_and_or] at hforbidden
    refine .inr ?_
    rcases hforbidden with hforbidden | hforbidden
    · simp only [Classical.not_imp, not_forall, not_not] at hforbidden
      obtain ⟨hd, w, hcritical⟩ := hforbidden
      obtain ⟨⟨as, hinv⟩, -⟩ := h.before hd
      cases hs with
      | call => exact doomed_walk rfl hinv.data.queue.seg hcritical
      | freeNode hd' | freeQueue hd' | cancel hd' | freeIds hd' | destroyLock hd' | destroyEntryLock hd'
      | destroyCond hd' | freePool hd' => rw [hd] at hd'; cases hd'
    · simp only [Classical.not_imp, not_forall, not_not] at hforbidden
      obtain ⟨hd, w, hwait⟩ := hforbidden
      cases hs with
      | destroyLock =>
        rcases hwait with hleaving | ⟨halive, hw⟩
        · exact doomed_leave hleaving rfl
        · have hcancelled := h.askedAll hd w (hids w)
          have hdoomed : Doomed ids
              { s with destroy := .destroyEntryLock, fate := Function.update s.fate w .leaving } :=
            doomed_leave (Function.update_self ..) rfl
          obtain ⟨u, y, v, hrun, hrest⟩ := hdoomed
          exact ⟨u, y, v, hrun.head ⟨_, .cancelWait halive hcancelled hw⟩, hrest⟩
      | call hd' | freeNode hd' | freeQueue hd' | cancel hd' | freeIds hd' | destroyEntryLock hd' | destroyCond hd'
      | freePool hd' => rw [hd] at hd'; cases hd'

/-- In a run from any state of a pool, with the ids of all its workers: while the steps meet the condition, no
    step is a violation, and with the first that does not meet it, it or a later one may be. -/
theorem destroy_safe (hids : ∀ w, w ∈ ids) {pool : Pool W} (hpool : Reachable args pool)
    (hrun : AllowedRun ids (Teardown.start pool) s) (hs : TearStep ids s x t) :
    (Allowed s x → ¬Violation s x) ∧ (¬Allowed s x → Violation s x ∨ Doomed ids t) := by
  obtain ⟨as, hinv⟩ := reachable_inv hpool
  have h : TearInv ids args s := allowedRun_inv (start_inv hinv) hrun
  exact ⟨not_violation h, doomed hids h hs⟩

end Safe

theorem exists_asleep : ∃ pool : Pool Unit, Reachable (fun _ => none) pool ∧ pool.workers () = .waiting ∧
    (∀ c, pool.calls c = .idle) ∧ pool.queue.head = none ∧ pool.ppoolLock = none := by
  have hlock : Reachable (fun _ => none) _ := .step (.init (W := Unit)) (.worker () (.lock rfl rfl)) (by decide)
  have hwait := hlock.step (.worker () (.wait rfl (by decide))) (by decide)
  exact ⟨_, hwait, rfl, fun _ => rfl, rfl, rfl⟩

/-- `ppool_destroy` of an idle pool: the sleeping worker acts on its cancellation when the pool is freed. -/
theorem destroy_asleep : ¬∀ (pool : Pool Unit) (s t : Teardown Unit) (x : Actor Unit),
    Reachable (fun _ => none) pool → (∀ c, pool.calls c = .idle ∨ ∃ b, pool.calls c = .returned b) →
      Run [()] (Teardown.start pool) s → TearStep [()] s x t → ¬Violation s x := by
  intro hclaim
  obtain ⟨pool, hpool, hw, hcalls, hhead, hfree⟩ := exists_asleep
  have h₀ : Run [()] (Teardown.start pool) (Teardown.start pool) := .refl
  have h₁ := h₀.tail ⟨.destroy, .call rfl⟩
  have h₂ := h₁.tail ⟨.destroy, .freeQueue (congrArg DestroyPc.walk hhead)⟩
  have h₃ := h₂.tail ⟨.destroy, .cancel rfl⟩
  have h₄ := h₃.tail ⟨.destroy, .freeIds rfl⟩
  have h₅ := h₄.tail ⟨.destroy, .destroyLock rfl⟩
  have h₆ := h₅.tail ⟨.destroy, .destroyEntryLock rfl⟩
  have h₇ := h₆.tail ⟨.destroy, .destroyCond rfl⟩
  have h₈ := h₇.tail ⟨.destroy, .freePool rfl⟩
  have h₉ := h₈.tail ⟨.worker (), .cancelWait rfl rfl hw⟩
  exact hclaim pool _ _ (.worker ()) hpool (fun c => .inl (hcalls c)) h₉ (.leave rfl hfree) rfl

/-- The whole call, while the worker is not scheduled. -/
theorem destroy_safe_unscheduled : ∃ s t : Teardown Unit, AllowedRun [()] (Teardown.start Pool.init) s ∧
    s.destroy = .freePool ∧ TearStep [()] s .destroy t ∧ ¬Violation s .destroy := by
  have h₀ : AllowedRun [()] (Teardown.start Pool.init) (Teardown.start Pool.init) := .refl
  have h₁ := h₀.tail ⟨.destroy, .call rfl, fun _ _ h => h.2, nofun⟩
  have h₂ := h₁.tail ⟨.destroy, .freeQueue rfl, nofun, nofun⟩
  have h₃ := h₂.tail ⟨.destroy, .cancel rfl, nofun, nofun⟩
  have h₄ := h₃.tail ⟨.destroy, .freeIds rfl, nofun, nofun⟩
  have h₅ := h₄.tail ⟨.destroy, .destroyLock rfl, nofun, fun _ w h => by cases w; cases h.elim nofun And.right⟩
  have h₆ := h₅.tail ⟨.destroy, .destroyEntryLock rfl, nofun, nofun⟩
  have h₇ := h₆.tail ⟨.destroy, .destroyCond rfl, nofun, nofun⟩
  have hpool : Reachable (W := Unit) (fun _ => none) Pool.init := .init
  have hsafe := destroy_safe (by simp) hpool h₇ (.freePool rfl)
  exact ⟨_, _, h₇, rfl, .freePool rfl, hsafe.1 ⟨nofun, nofun⟩⟩

end Ppool
end Emberlite
