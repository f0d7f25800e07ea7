import Emberlite.Hal.Syscall

/-! `hal_watchdog_feed` and `hal_watchdog_set_timeout` while the handle is closed, in any order of the steps. The
    kernel stops the watchdog at a close if the character 'V' is the last that was written to it. -/

namespace Emberlite
namespace Hal
namespace Watchdog
open Interleave

/-! ### The source -/

/-- `fetch` and `take` are the copies of the descriptor field under the mutex, the second sets it to -1; `free` is
    `pthread_mutex_destroy` and `free`. -/
inductive Request where
  | fetch
  | take
  | write (fd : Int) (byte : Byte)
  -- `WDIOC_SETTIMEOUT`, which leaves the timeout that is granted in `sec`.
  | setTimeout (fd sec : Int)
  | close (fd : Int)
  | free

/-- What each request may give. -/
abbrev Request.Result : Request → Type
  | .fetch | .take => Int
  | .write _ _ => Except Errno Nat
  | .setTimeout _ _ => Except Errno Int
  | .close _ => Except Errno Unit
  | .free => Unit

/-- Where `hal_watchdog_feed` or `hal_watchdog_set_timeout` is. -/
inductive CallPc where
  | fetch
  | issue (fd : Int)
  | ret (st : Status)

/-- A call that makes one system call on its copy of the descriptor. -/
def onFd (req : Int → Request) (status : (fd : Int) → (req fd).Result → Status) :
    Thread Request Request.Result Status CallPc where
  entry := .fetch
  next
    | .fetch => .call .fetch fun fd => if fd < 0 then .ret .io else .issue fd
    | .issue fd => .call (req fd) fun res => .ret (status fd res)
    | .ret st => .ret st

/-- The status that a system call ends the function with. -/
def reported {α : Type} : Except Errno α → Status
  | .error errno => statusFromErrno errno
  | .ok _ => .ok

-- One byte is written, or there is an error.

/-- `hal_watchdog_feed` -/
def halWatchdogFeed : Thread Request Request.Result Status CallPc := onFd (.write · 0) fun _ res => reported res

/-- `hal_watchdog_set_timeout` -/
def halWatchdogSetTimeout (seconds : BitVec 32) : Thread Request Request.Result Status CallPc :=
  onFd (.setTimeout · seconds.toInt) fun _ res => reported res

/-- Where `hal_watchdog_close` is. -/
inductive ClosePc where
  | take
  | magic (fd : Int)
  | close (fd : Int)
  | free
  | ret

/-- The low byte of `v` comes first in memory. -/
def magicChar : Byte := 0x56

/-- `hal_watchdog_close` -/
def halWatchdogClose : Thread Request Request.Result Status ClosePc where
  entry := .take
  next
    | .take => .call .take fun fd => if 0 ≤ fd then .magic fd else .free
    | .magic fd => .call (.write fd magicChar) fun _ => .close fd
    | .close fd => .call (.close fd) fun _ => .free
    | .free => .call .free fun _ => .ret
    | .ret => .ret .ok

/-! ### The watchdog -/

/-- The handle and the watchdog behind it. -/
structure Device where
  -- The descriptor field of the handle.
  field : Int
  freed : Bool
  isOpen : Bool
  running : Bool
  -- What has been written to it.
  written : List Byte
  timeout : Int

/-- What opening it leaves. -/
def Device.start (fd : Nat) (timeout : Int) : Device := ⟨fd, false, true, true, [], timeout⟩

/-- The watchdog on descriptor `fd`, whose driver grants a timeout for the one that is asked for. A freed handle may hold
    anything, and a number that is not the watchdog's, or no longer, may be another file's. -/
inductive Env (grants : Int → Int → Prop) (fd : Nat) : Device → (req : Request) → req.Result → Device → Prop
  | fetch {w : Device} : w.freed = false → Env grants fd w .fetch w.field w
  | fetchFreed {w : Device} (n : Int) : w.freed = true → Env grants fd w .fetch n w
  | take {w : Device} : Env grants fd w .take w.field { w with field := -1 }
  | write {w : Device} {byte : Byte} : w.isOpen = true →
      Env grants fd w (.write fd byte) (.ok 1) { w with written := w.written ++ [byte] }
  | writeFails {w : Device} {n : Int} {byte : Byte} {errno : Errno} : errno ≠ .none →
      Env grants fd w (.write n byte) (.error errno) w
  | writeElsewhere {w : Device} {n : Int} {byte : Byte} {res : Except Errno Nat} : w.isOpen = false ∨ n ≠ fd →
      Env grants fd w (.write n byte) res w
  | setTimeout {w : Device} {sec granted : Int} : w.isOpen = true → grants sec granted →
      Env grants fd w (.setTimeout fd sec) (.ok granted) { w with timeout := granted }
  | setTimeoutFails {w : Device} {n sec : Int} {errno : Errno} : errno ≠ .none →
      Env grants fd w (.setTimeout n sec) (.error errno) w
  | setTimeoutElsewhere {w : Device} {n sec : Int} {res : Except Errno Int} : w.isOpen = false ∨ n ≠ fd →
      Env grants fd w (.setTimeout n sec) res w
  | close {w : Device} {res : Except Errno Unit} : w.isOpen = true → Env grants fd w (.close fd) res
      { w with isOpen := false, running := w.running && w.written.getLast? != some magicChar }
  | free {w : Device} : Env grants fd w .free () { w with freed := true }

/-- The operations on an open watchdog. -/
inductive Op where
  | feed
  | setTimeout (seconds : BitVec 32)

/-- What the system call of an operation does, with the timeout that is granted. -/
def Op.effect (granted : Int) : Op → Device → Device
  | .feed, w => { w with written := w.written ++ [0] }
  | .setTimeout _, w => { w with timeout := granted }

section Effect
variable (o : Op) (granted : Int) (w : Device)

@[simp] theorem Op.effect_field : (o.effect granted w).field = w.field := by cases o <;> rfl

@[simp] theorem Op.effect_freed : (o.effect granted w).freed = w.freed := by cases o <;> rfl

@[simp] theorem Op.effect_isOpen : (o.effect granted w).isOpen = w.isOpen := by cases o <;> rfl

@[simp] theorem Op.effect_running : (o.effect granted w).running = w.running := by cases o <;> rfl

end Effect

/-- What each operation runs. -/
def Op.thread : Op → Thread Request Request.Result Status CallPc
  | .feed => halWatchdogFeed
  | .setTimeout seconds => halWatchdogSetTimeout seconds

theorem next_fetch (o : Op) : o.thread.next .fetch = .call .fetch fun fd => if fd < 0 then .ret .io else .issue fd := by
  cases o <;> rfl

theorem next_ret (o : Op) (st : Status) : o.thread.next (.ret st) = .ret st := by
  cases o <;> rfl

/-- Who runs: the operations, and the close. -/
inductive Party (C : Type) where
  | call (c : C)
  | closer
  deriving DecidableEq

section Runs
variable {C : Type} (op : C → Op) (grants : Int → Int → Prop)

/-- Where each of them is. -/
abbrev Party.Local : Party C → Type
  | .call _ => CallPc
  | .closer => ClosePc

/-- What each of them runs. -/
def parties : (p : Party C) → Thread Request Request.Result Status p.Local
  | .call c => (op c).thread
  | .closer => halWatchdogClose

/-- The watchdog, and where the calls are. -/
abbrev Guarded (C : Type) := State (fun p : Party C => p.Local) Device

/-- A feed that holds a copy of the descriptor. -/
def Feeding (s : Guarded C) : Prop := ∃ c n, op c = .feed ∧ s.locals (.call c) = .issue n

/-- The condition on a step: no feed is on its way when the character is written that is to stop the watchdog. -/
def Quiet : Condition (fun p : Party C => p.Local) Device Request.Result := fun s p req _ =>
  ∀ n, p = .closer → req = .write n magicChar → ¬Feeding op s

/-! ### What every run keeps -/

/-- A call that has returned `HAL_OK`. -/
def Done (s : Guarded C) (c : C) : Prop := s.locals (.call c) = .ret .ok

/-- Where the close is, and what it has done. -/
def Stage (fd : Nat) (w : Device) : ClosePc → Prop
  | .take => w.field = fd ∧ w.isOpen = true ∧ w.freed = false
  | .magic n | .close n => n = fd ∧ w.field = -1 ∧ w.isOpen = true ∧ w.freed = false
  | .free => w.isOpen = false ∧ w.field = -1 ∧ w.freed = false
  | .ret => w.isOpen = false ∧ w.freed = true

/-- While the watchdog is open it runs, each feed that has returned `HAL_OK` was one zero written to it, and its timeout
    is one that was granted to a call. -/
structure Kept (fd : Nat) (timeout : Int) (s : Guarded C) : Prop where
  running : s.world.running = true
  copies : ∀ c n, s.locals (.call c) = .issue n → n = fd
  fed : ∃ order : List C, order.Nodup ∧ (∀ c, c ∈ order ↔ op c = .feed ∧ Done s c) ∧
    s.world.written.count 0 = order.length
  timeout : s.world.timeout = timeout ∨
    ∃ c seconds, op c = .setTimeout seconds ∧ Done s c ∧ grants seconds.toInt s.world.timeout

/-- What every step keeps. -/
structure Inv (fd : Nat) (timeout : Int) (s : Guarded C) : Prop where
  stage : Stage fd s.world (s.locals .closer)
  kept : s.world.isOpen = true → Kept op grants fd timeout s

/-- What the character does, where the steps meet the condition. -/
def Magic (s : Guarded C) : ClosePc → Prop
  | .take | .magic _ => magicChar ∉ s.world.written
  | .close _ => ¬Feeding op s ∧ (magicChar ∈ s.world.written → s.world.written.getLast? = some magicChar)
  | .free | .ret => magicChar ∈ s.world.written → s.world.running = false

variable {op} {grants} {fd : Nat} {timeout : Int} {s t : Guarded C}

theorem start_inv (op : C → Op) (grants : Int → Int → Prop) (fd : Nat) (timeout : Int) :
    Inv op grants fd timeout (State.start (parties op) (Device.start fd timeout)) where
  stage := ⟨rfl, rfl, rfl⟩
  kept _ := by
    have hentry : ∀ c, (op c).thread.entry = .fetch := fun c => by cases op c <;> rfl
    refine ⟨rfl, fun c n hcopy => ?_, ⟨[], List.nodup_nil, fun c => iff_of_false List.not_mem_nil ?_, rfl⟩, .inl rfl⟩
    · cases (hentry c).symm.trans hcopy
    · rintro ⟨-, hdone⟩
      cases (hentry c).symm.trans hdone

/-- A fetch from a handle whose watchdog is open gives its number, or -1. -/
theorem Stage.fetched {w : Device} {pc : ClosePc} {n : Int} (h : Stage fd w pc) (hopen : w.isOpen = true)
    (henv : Env grants fd w .fetch n w) : n < 0 ∨ n = fd ∧ pc = .take := by
  cases pc with
  | take =>
    obtain ⟨hfield, -, hfreed⟩ := h
    cases henv with
    | fetch => exact .inr ⟨hfield, rfl⟩
    | fetchFreed _ hfreed' => cases hfreed.symm.trans hfreed'
  | magic | close =>
    obtain ⟨-, hfield, -, hfreed⟩ := h
    cases henv with
    | fetch => exact .inl (by rw [hfield]; decide)
    | fetchFreed _ hfreed' => cases hfreed.symm.trans hfreed'
  | free | ret => cases h.1.symm.trans hopen

theorem Kept.congr (h : Kept op grants fd timeout s) (hrunning : t.world.running = s.world.running)
    (hcount : t.world.written.count 0 = s.world.written.count 0) (htimeout : t.world.timeout = s.world.timeout)
    (hdone : ∀ c, Done t c ↔ Done s c) (hcopies : ∀ c n, t.locals (.call c) = .issue n → n = fd) :
    Kept op grants fd timeout t where
  running := hrunning.trans h.running
  copies := hcopies
  fed := by
    obtain ⟨order, hnodup, hmem, hlength⟩ := h.fed
    refine ⟨order, hnodup, fun c => ?_, hcount.trans hlength⟩
    rw [hdone c]
    exact hmem c
  timeout := by
    rw [htimeout]
    rcases h.timeout with hkept | ⟨c, seconds, hop, hset, heq⟩
    · exact .inl hkept
    · exact .inr ⟨c, seconds, hop, (hdone c).mpr hset, heq⟩

theorem Stage.congr {w w' : Device} {pc : ClosePc} (h : Stage fd w pc) (hfield : w'.field = w.field)
    (hopen : w'.isOpen = w.isOpen) (hfreed : w'.freed = w.freed) : Stage fd w' pc := by
  cases pc <;> simpa only [Stage, hfield, hopen, hfreed] using h

theorem not_here {w : Device} {n : Int} (h : w.isOpen = false ∨ n ≠ fd) (hopen : w.isOpen = true) (hn : n = fd) :
    False := by
  rcases h with hclosed | hne
  · cases hclosed.symm.trans hopen
  · exact hne hn

theorem done_iff {c : C} : Done s c ↔ Returned (parties op) s (.call c) .ok := by
  rw [Done, Returned, parties]
  cases hpc : s.locals (.call c) with
  | fetch => simp [next_fetch]
  | issue => cases op c <;> exact iff_of_false nofun nofun
  | ret st => simp [next_ret]

section Steps
variable [DecidableEq C] {p : Party C} {req : Request} {res : req.Result} {c : C}

/-- The timeout is one that the driver grants to the operation. -/
def Grants (grants : Int → Int → Prop) (o : Op) (granted : Int) : Prop :=
  ∀ seconds, o = .setTimeout seconds → grants seconds.toInt granted

/-- A call fetches the descriptor, or makes its system call: with effect, or it comes to an error unless the number is
    no longer the watchdog's. -/
theorem call_cases (hstep : Step (parties op) (fun _ => Env grants fd) s (.call c) req res t) :
    (s.locals (.call c) = .fetch ∧ t.world = s.world ∧ ∃ n, Env grants fd s.world .fetch n s.world ∧
      t.locals (.call c) = if n < 0 then .ret .io else .issue n) ∨
    ∃ n st, s.locals (.call c) = .issue n ∧ t.locals (.call c) = .ret st ∧
      (s.world.isOpen = true ∧ st = .ok ∧ (∃ granted, Grants grants (op c) granted ∧
          t.world = (op c).effect granted s.world) ∨
        t.world = s.world ∧ (s.world.isOpen = true → n = fd → st ≠ .ok)) := by
  obtain ⟨resume, hnext, henv, hself, -⟩ := hstep.elim
  rw [hself]
  generalize hpc : s.locals (.call c) = pc at hnext
  generalize t.world = world at henv
  cases pc with
  | fetch =>
    cases (next_fetch (op c)).symm.trans hnext
    cases henv with
    | fetch hfreed => exact .inl ⟨rfl, rfl, _, .fetch hfreed, rfl⟩
    | fetchFreed _ hfreed => exact .inl ⟨rfl, rfl, _, .fetchFreed _ hfreed, rfl⟩
  | issue n =>
    refine .inr ?_
    cases hop : op c with
    | feed =>
      simp only [parties, hop] at hnext
      cases hnext
      cases henv with
      | write hopen => exact ⟨_, _, rfl, rfl, .inl ⟨hopen, rfl, 0, nofun, rfl⟩⟩
      | writeFails herrno => exact ⟨_, _, rfl, rfl, .inr ⟨rfl, fun _ _ => statusFromErrno_ne_ok herrno⟩⟩
      | writeElsewhere helse => exact ⟨_, _, rfl, rfl, .inr ⟨rfl, fun hopen hn => (not_here helse hopen hn).elim⟩⟩
    | setTimeout seconds =>
      simp only [parties, hop] at hnext
      cases hnext
      cases henv with
      | setTimeout hopen hgranted =>
        refine ⟨_, _, rfl, rfl, .inl ⟨hopen, rfl, _, ?_, rfl⟩⟩
        rintro _ ⟨⟩
        exact hgranted
      | setTimeoutFails herrno => exact ⟨_, _, rfl, rfl, .inr ⟨rfl, fun _ _ => statusFromErrno_ne_ok herrno⟩⟩
      | setTimeoutElsewhere helse =>
        exact ⟨_, _, rfl, rfl, .inr ⟨rfl, fun hopen hn => (not_here helse hopen hn).elim⟩⟩
  | ret st => cases (next_ret (op c) st).symm.trans hnext

/-- A call that was not through, and is with success, has had its effect. -/
theorem Kept.done {granted : Int} (h : Kept op grants fd timeout s) (hgranted : Grants grants (op c) granted)
    (hworld : t.world = (op c).effect granted s.world) (hbefore : ¬Done s c)
    (hself : t.locals (.call c) = .ret .ok) (hother : ∀ d, d ≠ c → t.locals (.call d) = s.locals (.call d)) :
    Kept op grants fd timeout t where
  running := by rw [hworld, Op.effect_running, h.running]
  copies d n hcopy := by
    by_cases hd : d = c
    · rw [hd, hself] at hcopy
      cases hcopy
    · rw [hother d hd] at hcopy
      exact h.copies d n hcopy
  fed := by
    have hdone : ∀ d, d ≠ c → (op d = .feed ∧ Done t d ↔ op d = .feed ∧ Done s d) := fun d hd => by
      rw [Done, Done, hother d hd]
    obtain ⟨order, hnodup, hmem, hlength⟩ := h.fed
    rw [hworld]
    cases hop : op c with
    | feed =>
      have hc : c ∉ order := fun hc => hbefore ((hmem c).mp hc).2
      refine ⟨order ++ [c], ?_, mem_join hmem hdone ⟨hop, hself⟩, ?_⟩
      · rw [← List.concat_eq_append]
        exact hnodup.concat hc
      · simp only [Op.effect, List.count_append, List.length_append, hlength]
        rfl
    | setTimeout seconds =>
      refine ⟨order, hnodup, fun d => ?_, hlength⟩
      by_cases hd : d = c
      · rw [hmem, hd, hop]
        exact iff_of_false (fun h => nomatch h.1) fun h => nomatch h.1
      · rw [hmem, hdone d hd]
  timeout := by
    rw [hworld]
    cases hop : op c with
    | setTimeout seconds => exact .inr ⟨c, seconds, hop, hself, hgranted seconds hop⟩
    | feed =>
      rcases h.timeout with hkept | ⟨d, seconds, hset, hdone, heq⟩
      · exact .inl hkept
      · have hd : d ≠ c := by
          rintro rfl
          cases hop.symm.trans hset
        exact .inr ⟨d, seconds, hset, (hother d hd).trans hdone, heq⟩

theorem callStep_inv (hinv : Inv op grants fd timeout s)
    (hstep : Step (parties op) (fun _ => Env grants fd) s (.call c) req res t) :
    Inv op grants fd timeout t := by
  obtain ⟨-, -, -, -, hother⟩ := hstep.elim
  have hcloser : t.locals .closer = s.locals .closer := hother .closer nofun
  have hcalls : ∀ d, d ≠ c → t.locals (.call d) = s.locals (.call d) := fun d hd =>
    hother (.call d) fun h => hd (Party.call.inj h)
  have hkeep : ∀ {pc}, s.locals (.call c) ≠ .ret .ok → t.locals (.call c) = pc → pc ≠ .ret .ok →
      ∀ d, Done t d ↔ Done s d := by
    intro pc hbefore hself hpc d
    by_cases hd : d = c
    · rw [Done, Done, hd, hself]
      exact iff_of_false hpc hbefore
    · rw [Done, Done, hcalls d hd]
  have hcopies : ∀ {pc}, Kept op grants fd timeout s → t.locals (.call c) = pc → (∀ n, pc = .issue n → n = fd) →
      ∀ d n, t.locals (.call d) = .issue n → n = fd := by
    intro pc hkept hself hpc d n hcopy
    by_cases hd : d = c
    · rw [hd, hself] at hcopy
      exact hpc n hcopy
    · rw [hcalls d hd] at hcopy
      exact hkept.copies d n hcopy
  rcases call_cases hstep with ⟨hpc, hworld, n, hfetch, hself⟩ | ⟨n, st, hpc, hself, heffect⟩
  · refine ⟨by rw [hworld, hcloser]; exact hinv.stage, fun hopen => ?_⟩
    rw [hworld] at hopen
    have hkept := hinv.kept hopen
    refine hkept.congr (by rw [hworld]) (by rw [hworld]) (by rw [hworld]) (hkeep (by rw [hpc]; nofun) hself ?_)
      (hcopies hkept hself ?_)
    · split <;> nofun
    · rcases hinv.stage.fetched hopen hfetch with hneg | ⟨rfl, -⟩
      · rw [if_pos hneg]
        nofun
      · split
        · nofun
        · rintro _ ⟨⟩
          rfl
  · rcases heffect with ⟨hopen, rfl, granted, hgranted, hworld⟩ | ⟨hworld, hst⟩
    · refine ⟨?_, fun _ => (hinv.kept hopen).done hgranted hworld (by rw [Done, hpc]; nofun) hself hcalls⟩
      rw [hcloser, hworld]
      exact hinv.stage.congr (Op.effect_field ..) (Op.effect_isOpen ..) (Op.effect_freed ..)
    · refine ⟨by rw [hworld, hcloser]; exact hinv.stage, fun hopen => ?_⟩
      rw [hworld] at hopen
      have hkept := hinv.kept hopen
      have hfail := hst hopen (hkept.copies c n hpc)
      refine hkept.congr (by rw [hworld]) (by rw [hworld]) (by rw [hworld])
        (hkeep (by rw [hpc]; nofun) hself fun h => hfail (CallPc.ret.inj h)) (hcopies hkept hself nofun)

theorem closer_cases (hstage : Stage fd s.world (s.locals .closer))
    (hstep : Step (parties op) (fun _ => Env grants fd) s .closer req res t) :
    (s.locals .closer = .take ∧ t.locals .closer = .magic fd ∧ t.world = { s.world with field := -1 }) ∨
    (s.locals .closer = .magic fd ∧ t.locals .closer = .close fd ∧ req = .write fd magicChar ∧
      (t.world = { s.world with written := s.world.written ++ [magicChar] } ∨ t.world = s.world)) ∨
    (s.locals .closer = .close fd ∧ t.locals .closer = .free ∧ t.world =
      { s.world with isOpen := false, running := s.world.running && s.world.written.getLast? != some magicChar }) ∨
    s.locals .closer = .free ∧ t.locals .closer = .ret ∧ t.world = { s.world with freed := true } := by
  obtain ⟨resume, hnext, henv, hself, -⟩ := hstep.elim
  have hnext : halWatchdogClose.next (s.locals .closer) = .call req resume := hnext
  rw [hself]
  generalize s.locals .closer = pc at hnext hstage
  generalize t.world = world at henv
  cases pc with
  | take =>
    obtain ⟨hfield, -, -⟩ := hstage
    cases hnext
    cases henv
    dsimp only
    rw [hfield, if_pos (Int.natCast_nonneg fd)]
    exact .inl ⟨rfl, rfl, rfl⟩
  | magic n =>
    obtain ⟨rfl, -⟩ := hstage
    cases hnext
    refine .inr (.inl ⟨rfl, rfl, rfl, ?_⟩)
    cases henv with
    | write => exact .inl rfl
    | writeFails => exact .inr rfl
    | writeElsewhere => exact .inr rfl
  | close n =>
    obtain ⟨rfl, -⟩ := hstage
    cases hnext
    cases henv
    exact .inr (.inr (.inl ⟨rfl, rfl, rfl⟩))
  | free =>
    cases hnext
    cases henv
    exact .inr (.inr (.inr ⟨rfl, rfl, rfl⟩))
  | ret => cases hnext

theorem closerStep_inv (hinv : Inv op grants fd timeout s)
    (hstep : Step (parties op) (fun _ => Env grants fd) s .closer req res t) :
    Inv op grants fd timeout t := by
  obtain ⟨-, -, -, -, hother⟩ := hstep.elim
  have hcalls : ∀ c, t.locals (.call c) = s.locals (.call c) := fun c => hother (.call c) nofun
  have hdone : ∀ c, Done t c ↔ Done s c := fun c => by rw [Done, Done, hcalls c]
  have hcopies : Kept op grants fd timeout s → ∀ c n, t.locals (.call c) = .issue n → n = fd := fun hkept c n hcopy => by
    rw [hcalls c] at hcopy
    exact hkept.copies c n hcopy
  have hstage := hinv.stage
  rcases closer_cases hstage hstep with ⟨hpc, hself, hworld⟩ | ⟨hpc, hself, -, hworld⟩ | ⟨hpc, hself, hworld⟩ |
    ⟨hpc, hself, hworld⟩
  · rw [hpc] at hstage
    obtain ⟨-, hopen, hfreed⟩ := hstage
    refine ⟨?_, fun _ => ?_⟩
    · rw [hself, hworld]
      exact ⟨rfl, rfl, hopen, hfreed⟩
    · exact (hinv.kept hopen).congr (by rw [hworld]) (by rw [hworld]) (by rw [hworld]) hdone (hcopies (hinv.kept hopen))
  · rw [hpc] at hstage
    have hkept := hinv.kept hstage.2.2.1
    rcases hworld with hworld | hworld
    · refine ⟨by rw [hself, hworld]; exact hstage, fun _ => ?_⟩
      refine hkept.congr (by rw [hworld]) ?_ (by rw [hworld]) hdone (hcopies hkept)
      rw [hworld]
      exact List.count_append
    · refine ⟨by rw [hself, hworld]; exact hstage, fun _ => ?_⟩
      exact hkept.congr (by rw [hworld]) (by rw [hworld]) (by rw [hworld]) hdone (hcopies hkept)
  · rw [hpc] at hstage
    obtain ⟨-, hfield, -, hfreed⟩ := hstage
    refine ⟨?_, fun hopen => ?_⟩
    · rw [hself, hworld]
      exact ⟨rfl, hfield, hfreed⟩
    · rw [hworld] at hopen
      cases hopen
  · rw [hpc] at hstage
    obtain ⟨hclosed, -⟩ := hstage
    refine ⟨?_, fun hopen => ?_⟩
    · rw [hself, hworld]
      exact ⟨hclosed, rfl⟩
    · rw [hworld] at hopen
      cases hclosed.symm.trans hopen

/-! ### The magic character -/

/-- What is written by a call is a zero, and it is written to an open watchdog. -/
theorem mem_effect (o : Op) (granted : Int) (w : Device) :
    magicChar ∈ (o.effect granted w).written ↔ magicChar ∈ w.written := by
  cases o with
  | feed => simp [Op.effect, magicChar]
  | setTimeout => rfl

theorem callStep_magic (hinv : Inv op grants fd timeout s) (h : Magic op s (s.locals .closer))
    (hstep : Step (parties op) (fun _ => Env grants fd) s (.call c) req res t) : Magic op t (t.locals .closer) := by
  obtain ⟨-, -, -, -, hother⟩ := hstep.elim
  have hstage := hinv.stage
  rw [hother .closer nofun]
  generalize s.locals .closer = pc at h hstage
  have hmem : magicChar ∈ t.world.written ↔ magicChar ∈ s.world.written := by
    rcases call_cases hstep with ⟨-, hworld, -⟩ | ⟨n, st, -, -, ⟨-, -, granted, -, hworld⟩ | ⟨hworld, -⟩⟩
    · rw [hworld]
    · rw [hworld, mem_effect]
    · rw [hworld]
  have hrunning : t.world.running = s.world.running := by
    rcases call_cases hstep with ⟨-, hworld, -⟩ | ⟨n, st, -, -, ⟨-, -, granted, -, hworld⟩ | ⟨hworld, -⟩⟩
    · rw [hworld]
    · rw [hworld, Op.effect_running]
    · rw [hworld]
  cases pc with
  | take | magic => exact fun hc => h (hmem.mp hc)
  | free | ret => exact fun hc => hrunning.trans (h (hmem.mp hc))
  | close m =>
    obtain ⟨hquiet, hlast⟩ := h
    have hopen : s.world.isOpen = true := hstage.2.2.1
    have hstill : (∀ n, t.locals (.call c) = .issue n → op c ≠ .feed) → ¬Feeding op t := by
      rintro hown ⟨d, n, hfeed, hcopy⟩
      by_cases hd : d = c
      · exact hown n (hd ▸ hcopy) (hd ▸ hfeed)
      · rw [hother (.call d) fun h => hd (Party.call.inj h)] at hcopy
        exact hquiet ⟨d, n, hfeed, hcopy⟩
    rcases call_cases hstep with ⟨-, hworld, n, hfetch, hself⟩ | ⟨n, st, hpc, hself, heffect⟩
    · refine ⟨hstill fun k hcopy => ?_, by rw [hworld]; exact hlast⟩
      rcases hstage.fetched hopen hfetch with hneg | ⟨-, htake⟩
      · rw [hself, if_pos hneg] at hcopy
        cases hcopy
      · cases htake
    · have hwritten : t.world.written = s.world.written := by
        rcases heffect with ⟨-, -, granted, -, hworld⟩ | ⟨hworld, -⟩
        · rw [hworld]
          cases hop : op c with
          | feed => exact absurd ⟨c, n, hop, hpc⟩ hquiet
          | setTimeout => rfl
        · rw [hworld]
      refine ⟨hstill fun k hcopy => ?_, by rw [hwritten]; exact hlast⟩
      rw [hself] at hcopy
      cases hcopy

theorem closerStep_magic (hinv : Inv op grants fd timeout s) (h : Magic op s (s.locals .closer))
    (hstep : Step (parties op) (fun _ => Env grants fd) s .closer req res t) (hquiet : Quiet op s .closer req res) :
    Magic op t (t.locals .closer) := by
  obtain ⟨-, -, -, -, hother⟩ := hstep.elim
  rcases closer_cases hinv.stage hstep with ⟨hpc, hself, hworld⟩ | ⟨hpc, hself, hreq, hworld⟩ | ⟨hpc, hself, hworld⟩ |
    ⟨hpc, hself, hworld⟩
  · rw [hpc] at h
    rw [hself, Magic, hworld]
    exact h
  · rw [hpc] at h
    rw [hself]
    refine ⟨?_, fun hc => ?_⟩
    · rintro ⟨c, n, hfeed, hcopy⟩
      rw [hother (.call c) nofun] at hcopy
      exact hquiet fd rfl hreq ⟨c, n, hfeed, hcopy⟩
    · rcases hworld with hworld | hworld <;> rw [hworld] at hc ⊢
      · exact List.getLast?_concat
      · exact absurd hc h
  · rw [hpc] at h
    rw [hself, Magic, hworld]
    intro hc
    simp [h.2 hc]
  · rw [hpc] at h
    rw [hself, Magic, hworld]
    exact h

/-- The close goes on from where the character is to be written, while a feed is on its way. -/
theorem restarted (hinv : Inv op grants fd timeout s) (hpc : s.locals .closer = .magic fd) (hfeeding : Feeding op s) :
    ∃ u v, Step (parties op) (fun _ => Env grants fd) s .closer (.write fd magicChar) (.ok 1) u ∧
      Run (parties op) (fun _ => Env grants fd) (fun _ _ _ _ => True) u v ∧ Returned (parties op) v .closer .ok ∧
        v.world.freed = true ∧ magicChar ∈ v.world.written ∧ v.world.running = true := by
  obtain ⟨c, n, hop, hcopy⟩ := hfeeding
  have hopen : s.world.isOpen = true := by
    have hstage := hinv.stage
    rw [hpc] at hstage
    exact hstage.2.2.1
  have hkept := hinv.kept hopen
  obtain rfl := hkept.copies c n hcopy
  have hmagic : (parties op .closer).next (s.locals .closer) =
      .call (.write fd magicChar) fun _ => (.close fd : ClosePc) := by
    rw [hpc]
    rfl
  obtain ⟨u, hu, hworldu, hcloseu, hotheru⟩ := exists_step (fun _ => Env grants fd) hmagic (.write hopen)
  have hfeed : (parties op (.call c)).next (u.locals (.call c)) =
      .call (.write fd 0) fun res => (.ret (reported res) : CallPc) := by
    rw [hotheru (.call c) nofun, hcopy, parties, hop]
    rfl
  have hopenu : u.world.isOpen = true := by rw [hworldu]; exact hopen
  obtain ⟨u', hu', hworld', -, hother'⟩ := exists_step (fun _ => Env grants fd) hfeed (.write hopenu)
  have hclose : (parties op .closer).next (u'.locals .closer) = .call (.close fd) fun _ => (.free : ClosePc) := by
    rw [hother' .closer nofun, hcloseu]
    rfl
  have hopen' : u'.world.isOpen = true := by rw [hworld']; exact hopenu
  have hshut : Env grants fd u'.world (.close fd) (.ok ()) _ := .close hopen'
  obtain ⟨v', hv', hworldv', hclosev', -⟩ := exists_step (fun _ => Env grants fd) hclose hshut
  have hfree : (parties op .closer).next (v'.locals .closer) = .call .free fun _ => (.ret : ClosePc) := by
    rw [hclosev']
    rfl
  obtain ⟨v, hv, hworldv, hclosev, -⟩ := exists_step (fun _ => Env grants fd) hfree .free
  refine ⟨u, v, hu, ((Run.tail .refl hu' trivial).tail hv' trivial).tail hv trivial, ?_, ?_, ?_, ?_⟩
  · rw [Returned, hclosev]
    rfl
  · rw [hworldv]
  · rw [hworldv, hworldv', hworld', hworldu]
    simp
  · rw [hworldv, hworldv', hworld', hworldu]
    simp [hkept.running, magicChar]

theorem run_inv {allowed : Condition (fun p : Party C => p.Local) Device Request.Result}
    (hrun : Run (parties op) (fun _ => Env grants fd) allowed (State.start (parties op) (Device.start fd timeout)) s) :
    Inv op grants fd timeout s := by
  refine hrun.inv (start_inv op grants fd timeout) fun s t p req res hinv hstep _ => ?_
  cases p with
  | call c => exact callStep_inv hinv hstep
  | closer => exact closerStep_inv hinv hstep

theorem run_magic (hrun : Run (parties op) (fun _ => Env grants fd) (Quiet op)
    (State.start (parties op) (Device.start fd timeout)) s) : Magic op s (s.locals .closer) := by
  let Good (s : Guarded C) : Prop := Inv op grants fd timeout s ∧ Magic op s (s.locals .closer)
  have hstart : Good (State.start (parties op) (Device.start fd timeout)) :=
    ⟨start_inv op grants fd timeout, List.not_mem_nil⟩
  have hgood : Good s := by
    refine hrun.inv hstart fun s t p req res hs hstep hquiet => ?_
    obtain ⟨hinv, hmagic⟩ := hs
    cases p with
    | call c => exact ⟨callStep_inv hinv hstep, callStep_magic hinv hmagic hstep⟩
    | closer => exact ⟨closerStep_inv hinv hstep, closerStep_magic hinv hmagic hstep hquiet⟩
  exact hgood.2

/-- While the watchdog is open, each feed that has returned `HAL_OK` has reached it once, and its timeout is what was
    granted to a call that has returned `HAL_OK`. -/
theorem run_feeds (hrun : Run (parties op) (fun _ => Env grants fd) (fun _ _ _ _ => True)
      (State.start (parties op) (Device.start fd timeout)) s) (hopen : s.world.isOpen = true) :
    s.world.running = true ∧
    (∃ order : List C, order.Nodup ∧ (∀ c, c ∈ order ↔ op c = .feed ∧ Returned (parties op) s (.call c) .ok) ∧
      s.world.written.count 0 = order.length) ∧
    (s.world.timeout = timeout ∨ ∃ c seconds, op c = .setTimeout seconds ∧ Returned (parties op) s (.call c) .ok ∧
      grants seconds.toInt s.world.timeout) := by
  have hkept := (run_inv hrun).kept hopen
  obtain ⟨order, hnodup, hmem, hlength⟩ := hkept.fed
  refine ⟨hkept.running, ⟨order, hnodup, fun c => ?_, hlength⟩, ?_⟩
  · rw [hmem, done_iff]
  · simp only [← done_iff]
    exact hkept.timeout

/-- A close that comes while no feed is on its way stops the watchdog, if it takes the character. One that comes while a
    feed is may have it taken and leave the watchdog running. -/
theorem run_stops (hrun : Run (parties op) (fun _ => Env grants fd) (Quiet op)
      (State.start (parties op) (Device.start fd timeout)) s) :
    (Returned (parties op) s .closer .ok →
      s.world.freed = true ∧ (magicChar ∈ s.world.written → s.world.running = false)) ∧
    ∀ p req res t, Step (parties op) (fun _ => Env grants fd) s p req res t → ¬Quiet op s p req res →
      ∃ res' u v, Step (parties op) (fun _ => Env grants fd) s p req res' u ∧
        Run (parties op) (fun _ => Env grants fd) (fun _ _ _ _ => True) u v ∧ Returned (parties op) v .closer .ok ∧
          v.world.freed = true ∧ magicChar ∈ v.world.written ∧ v.world.running = true := by
  refine ⟨fun hret => ?_, fun p req res t hstep hloud => ?_⟩
  · have hret : halWatchdogClose.next (s.locals .closer) = .ret .ok := hret
    have hmagic := run_magic hrun
    have hstage := (run_inv hrun).stage
    generalize s.locals .closer = pc at hret hmagic hstage
    cases pc with
    | take | magic | close | free => cases hret
    | ret => exact ⟨hstage.2, hmagic⟩
  · have hinv := run_inv hrun
    obtain ⟨n, rfl, rfl, hfeeding⟩ : ∃ n, p = .closer ∧ req = .write n magicChar ∧ Feeding op s := by
      simpa [Quiet] using hloud
    obtain ⟨resume, hnext, -⟩ := hstep.elim
    have hnext : halWatchdogClose.next (s.locals .closer) = .call (.write n magicChar) resume := hnext
    have hstage := hinv.stage
    cases hpc : s.locals .closer with
    | magic m =>
      rw [hpc] at hnext hstage
      cases hnext
      obtain ⟨rfl, -⟩ := hstage
      obtain ⟨u, v, hu⟩ := restarted hinv hpc hfeeding
      exact ⟨_, u, v, hu⟩
    | take | close | free | ret =>
      rw [hpc] at hnext
      cases hnext

end Steps

end Runs

/-! ### One feed -/

/-- It is through, and the close is still to come. -/
theorem run_feeds_one : ∃ s : Guarded Unit, s.world.isOpen = true ∧ s.world.running = true ∧
    (∃ order : List Unit, order.Nodup ∧
      (∀ c, c ∈ order ↔ Op.feed = .feed ∧ Returned (parties fun _ => .feed) s (.call c) .ok) ∧
      s.world.written.count 0 = order.length) ∧
    (s.world.timeout = 60 ∨ ∃ (c : Unit) (seconds : BitVec 32), Op.feed = .setTimeout seconds ∧
      Returned (parties fun _ => .feed) s (.call c) .ok ∧ seconds.toInt = s.world.timeout) := by
  have h₀ : Run (parties fun _ : Unit => .feed) (fun _ => Env (· = ·) 3) (fun _ _ _ _ => True) _
    (State.start (parties fun _ => .feed) (Device.start 3 60)) := .refl
  have h₁ := h₀.tail (c := .call ()) (.mk rfl (.fetch rfl)) trivial
  have h₂ := h₁.tail (c := .call ()) (.mk rfl (.write rfl)) trivial
  exact ⟨_, rfl, run_feeds h₂ rfl⟩

/-- The close comes after it. -/
theorem run_stops_fed : ∃ s : Guarded Unit, s.world.written = [0, magicChar] ∧ s.world.freed = true ∧
    s.world.running = false := by
  have h₀ : Run (parties fun _ : Unit => .feed) (fun _ => Env (· = ·) 3) (Quiet fun _ => .feed) _
    (State.start (parties fun _ => .feed) (Device.start 3 60)) := .refl
  have h₁ := h₀.tail (c := .call ()) (.mk rfl (.fetch rfl)) nofun
  have h₂ := h₁.tail (c := .call ()) (.mk rfl (.write rfl)) nofun
  have h₃ := h₂.tail (c := .closer) (.mk rfl .take) nofun
  have h₄ := h₃.tail (c := .closer) (.mk rfl (.write rfl)) fun _ _ _ ⟨_, _, _, hcopy⟩ => nomatch hcopy
  have h₅ := h₄.tail (c := .closer) (.mk rfl (@Env.close (· = ·) 3 _ (.ok ()) rfl)) nofun
  have h₆ := h₅.tail (c := .closer) (.mk rfl .free) nofun
  obtain ⟨hfreed, hstops⟩ := (run_stops h₆).1 rfl
  exact ⟨_, rfl, hfreed, hstops (List.mem_cons_of_mem _ (List.mem_singleton_self _))⟩

end Watchdog
end Hal
end Emberlite
