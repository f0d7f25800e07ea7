import Emberlite.Hal.Syscall
import Emberlite.Lib.CNumber

/-! The clock of `hal_system.c`, `hal_system_sleep_ms`, which signals may interrupt, and `hal_system_get_cpu_temp`. -/

namespace Emberlite
namespace Hal
namespace SystemTime
open CString CNumber Interleave

/-- `struct timespec`. -/
structure Timespec where
  tvSec : BitVec 64
  tvNsec : BitVec 64
  deriving DecidableEq, Repr

/-! ### The source -/

/-- What `clock_gettime` tells, in a unit that is `nanos` nanoseconds. -/
def timeIn (perSec nanos : BitVec 64) : Option Timespec → BitVec 64
  | none => 0
  | some ts => ts.tvSec * perSec + ts.tvNsec / nanos

/-- `hal_system_get_time_ms` -/
def halSystemGetTimeMs : Option Timespec → BitVec 64 := timeIn 1000 1000000

/-- `hal_system_get_time_us` -/
def halSystemGetTimeUs : Option Timespec → BitVec 64 := timeIn 1000000 1000

/-- What `nanosleep` returns: an error with the time that remains. -/
inductive Nanosleep where
  | slept
  | error (errno : Errno) (remaining : Timespec)

/-- Where `hal_system_sleep_ms` is. -/
inductive SleepPc where
  | nanosleep (ts : Timespec)
  | ret

/-- The request of `hal_system_sleep_ms`. -/
def request (ms : BitVec 32) : Timespec := ⟨(ms / 1000).setWidth 64, (ms % 1000 * 1000000).setWidth 64⟩

/-- `hal_system_sleep_ms` -/
def halSystemSleepMs (ms : BitVec 32) : Thread Timespec (fun _ => Nanosleep) Unit SleepPc where
  entry := .nanosleep (request ms)
  next
    | .nanosleep ts => .call ts fun
      | .slept => .ret
      | .error errno remaining => if errno = .eintr then .nanosleep remaining else .ret
    | .ret => .ret ()

/-- `hal_system_get_cpu_temp`, with the content of the file if it can be opened. -/
def halSystemGetCpuTemp (file : Option (List UInt8)) : BitVec 64 :=
  match file.bind (fgets 64) with
  | none => 0
  | some buf =>
    let v := strtoul (text buf)
    if v.range then 0 else BitVec.ofNat 64 v.value

/-! ### The clock -/

/-- The number of nanoseconds. -/
def Timespec.nanos (ts : Timespec) : Nat := ts.tvSec.toNat * 1000000000 + ts.tvNsec.toNat

/-- What `nanosleep` does not refuse. -/
def Timespec.Valid (ts : Timespec) : Prop := ts.tvSec.toNat < 2 ^ 63 ∧ ts.tvNsec.toNat < 1000000000

instance (ts : Timespec) : Decidable ts.Valid := inferInstanceAs (Decidable (_ ∧ _))

/-- What `clock_gettime` tells at some number of nanoseconds. -/
def clock (now : Nat) : Timespec := ⟨BitVec.ofNat 64 (now / 1000000000), BitVec.ofNat 64 (now % 1000000000)⟩

/-- The monotonic clock passes on, in nanoseconds, and a signal may interrupt a sleep. -/
inductive Kernel : Nat → (req : Timespec) → Nanosleep → Nat → Prop
  | slept {now later : Nat} {ts : Timespec} : ts.Valid → now + ts.nanos ≤ later → Kernel now ts .slept later
  | interrupted {now later : Nat} {ts remaining : Timespec} : ts.Valid → remaining.Valid → now ≤ later →
      now + ts.nanos ≤ later + remaining.nanos → Kernel now ts (.error .eintr remaining) later
  | invalid {now later : Nat} {ts : Timespec} : ¬ts.Valid → now ≤ later → Kernel now ts (.error .einval ts) later

theorem timeIn_clock {perSec nanos : BitVec 64} (h : nanos.toNat * perSec.toNat = 1000000000) (now : Nat) :
    timeIn perSec nanos (some (clock now)) = BitVec.ofNat 64 (now / nanos.toNat) := by
  have hnanos : 0 < nanos.toNat := Nat.pos_of_ne_zero fun hzero => by simp [hzero] at h
  have hdiv : BitVec.ofNat 64 (now % 1000000000) / nanos = BitVec.ofNat 64 (now % 1000000000 / nanos.toNat) := by
    have hlt : now % 1000000000 < 2 ^ 64 := (Nat.mod_lt _ (by decide)).trans (by decide)
    apply BitVec.eq_of_toNat_eq
    rw [BitVec.toNat_udiv, BitVec.toNat_ofNat, BitVec.toNat_ofNat, Nat.mod_eq_of_lt hlt,
      Nat.mod_eq_of_lt ((Nat.div_le_self ..).trans_lt hlt)]
  have hsplit : now / nanos.toNat = now / 1000000000 * perSec.toNat + now % 1000000000 / nanos.toNat := by
    conv_lhs => rw [← Nat.div_add_mod now 1000000000, ← h, Nat.mul_assoc, Nat.mul_add_div hnanos, h]
    rw [Nat.mul_comm perSec.toNat]
  rw [timeIn, clock, hdiv, hsplit, BitVec.ofNat_add, BitVec.ofNat_mul, BitVec.ofNat_toNat, BitVec.setWidth_eq]

/-! ### Sleeping -/

theorem request_spec (ms : BitVec 32) : (request ms).Valid ∧ (request ms).nanos = ms.toNat * 1000000 := by
  have hlt := ms.isLt
  have hsec : (request ms).tvSec.toNat = ms.toNat / 1000 := by
    simp [request]
    omega
  have hnsec : (request ms).tvNsec.toNat = ms.toNat % 1000 * 1000000 := by
    rw [request, BitVec.toNat_setWidth_of_le (by decide), BitVec.toNat_mul, BitVec.toNat_umod]
    simp only [BitVec.reduceToNat]
    omega
  rw [Timespec.Valid, Timespec.nanos, hsec, hnsec]
  omega

/-- The time is up when what still is to be slept is over. -/
def Due (deadline now : Nat) : SleepPc → Prop
  | .nanosleep ts => ts.Valid ∧ deadline ≤ now + ts.nanos
  | .ret => deadline ≤ now

theorem step_due {deadline now later : Nat} {pc : SleepPc} {req : Timespec} {resume : Nanosleep → SleepPc}
    {res : Nanosleep} {ms : BitVec 32} (h : Due deadline now pc)
    (hnext : (halSystemSleepMs ms).next pc = .call req resume)
    (hkernel : Kernel now req res later) : Due deadline later (resume res) := by
  cases pc with
  | ret => cases hnext
  | nanosleep ts =>
    obtain ⟨hvalid, hdue⟩ := h
    cases hnext
    cases hkernel with
    | slept _ hslept => exact hdue.trans hslept
    | interrupted _ hremaining _ hslept => exact ⟨hremaining, hdue.trans hslept⟩
    | invalid hinvalid => exact absurd hvalid hinvalid

/-- However often signals interrupt it, `hal_system_sleep_ms` returns when the time is up and not before. -/
theorem sleep_due {ms : BitVec 32} {start : Nat} {t : State (fun _ : Unit => SleepPc) Nat}
    (hrun : RunAlone (halSystemSleepMs ms) Kernel start t)
    (hret : Returned (fun _ : Unit => halSystemSleepMs ms) t () ()) : start + ms.toNat * 1000000 ≤ t.world := by
  obtain ⟨hvalid, hnanos⟩ := request_spec ms
  have hstart : Due (start + ms.toNat * 1000000) start (halSystemSleepMs ms).entry := ⟨hvalid, by rw [hnanos]⟩
  have hend := hrun.inv hstart fun _ _ _ _ _ _ h hnext hkernel => step_due h hnext hkernel
  cases hpc : t.locals () with
  | nanosleep ts =>
    rw [Returned, hpc] at hret
    cases hret
  | ret =>
    rw [hpc] at hend
    exact hend

/-- The time is up after it, and the clocks have gone on by as much, if it does not take 2^63 microseconds. -/
theorem sleep_advances {ms : BitVec 32} {start : Nat} {t : State (fun _ : Unit => SleepPc) Nat}
    (hrun : RunAlone (halSystemSleepMs ms) Kernel start t)
    (hret : Returned (fun _ : Unit => halSystemSleepMs ms) t () ()) :
    start + ms.toNat * 1000000 ≤ t.world ∧ (t.world < start + 2 ^ 63 * 1000 →
      ms.toNat ≤ (halSystemGetTimeMs (some (clock t.world)) - halSystemGetTimeMs (some (clock start))).toNat ∧
        ms.toNat * 1000 ≤
          (halSystemGetTimeUs (some (clock t.world)) - halSystemGetTimeUs (some (clock start))).toNat) := by
  have hdue := sleep_due hrun hret
  refine ⟨hdue, fun hwrap => ?_⟩
  rw [halSystemGetTimeMs, halSystemGetTimeUs, timeIn_clock rfl, timeIn_clock rfl, timeIn_clock rfl, timeIn_clock rfl]
  simp only [BitVec.toNat_sub, BitVec.toNat_ofNat, BitVec.reduceToNat]
  omega

/-- Two seconds, with a signal in between. -/
theorem sleep_advances_interrupted : ∃ later, 7 + 2000000000 ≤ later ∧ 2000 ≤
      (halSystemGetTimeMs (some (clock later)) - halSystemGetTimeMs (some (clock 7))).toNat ∧
    2000000 ≤ (halSystemGetTimeUs (some (clock later)) - halSystemGetTimeUs (some (clock 7))).toNat := by
  have h₀ := RunAlone.start (halSystemSleepMs 2000) Kernel 7
  have h₁ := h₀.step rfl (Nanosleep.error .eintr ⟨1, 500000000⟩)
    (.interrupted (by decide) (by decide) (by decide) (by decide) : Kernel 7 _ _ 500000007)
  have h₂ := h₁.step rfl Nanosleep.slept (.slept (by decide) (by decide) : Kernel _ _ _ 2000000100)
  obtain ⟨hdue, hclocks⟩ := sleep_advances h₂ rfl
  exact ⟨2000000100, hdue, hclocks (by decide)⟩

/-! ### The temperature -/

/-- The line of a number, as `fgets` reads it. -/
theorem fgets_line {s : List UInt8} (hs : 10 ∉ s) (hfit : s.length < 62) : fgets 64 (s ++ [10]) = some (s ++ [10]) := by
  have hall : ∀ c ∈ s, (c != 10) = true := fun c hc => bne_iff_ne.mpr fun h => hs (h ▸ hc)
  have htake : (s ++ [10]).take 63 = s ++ [10] := List.take_of_length_le (by simp; omega)
  rw [fgets, if_neg (by simp), htake]
  dsimp only
  rw [List.takeWhile_append_of_pos hall, List.dropWhile_append_of_pos hall]
  simp

/-- The temperature that the kernel prints is read modulo 2^64: one below zero comes out huge. -/
theorem cpuTemp_reads {n : Int} (h : n.natAbs ≤ ulongMax) :
    halSystemGetCpuTemp (some (signedDecimal n ++ [10])) = BitVec.ofInt 64 n := by
  have hnumeral := numeral_signedDecimal n
  have hlength : (decimal n.natAbs).length ≤ 20 := length_decimal_le (by decide) (h.trans_lt (by decide))
  have hfit : (signedDecimal n).length < 62 := by
    unfold signedDecimal
    split_ifs <;> simp <;> omega
  have hline : 10 ∉ signedDecimal n := by
    unfold signedDecimal
    intro hmem
    rcases List.mem_append.mp hmem with hsign | hdigit
    · split_ifs at hsign <;> simp at hsign
    · exact absurd (isDigit_of_mem_decimal hdigit) (by decide)
  have htext : text (signedDecimal n ++ [10]) = signedDecimal n ++ [10] := by
    refine text_of_ne_zero fun c hc => ?_
    rcases List.mem_append.mp hc with hc | hc
    · exact noNul_numeral hnumeral c hc
    · rw [List.mem_singleton.mp hc]
      decide
  have hnewline : NoDigit 10 [10] := fun c hc => by cases hc; rfl
  have hread : strtoul (signedDecimal n ++ [10]) = ⟨(n % 2 ^ 64).toNat, false, [10]⟩ := by
    rw [strtoul_append hnumeral hnewline, if_neg (Nat.not_lt.mpr h)]
  rw [halSystemGetCpuTemp, Option.bind_some, fgets_line hline hfit]
  dsimp only
  rw [htext, hread]
  apply BitVec.eq_of_toNat_eq
  simp [Int.emod_lt_of_pos]

/-- Five degrees below zero. -/
theorem cpuTemp_reads_frost : halSystemGetCpuTemp (some (signedDecimal (-5000) ++ [10])) = BitVec.ofInt 64 (-5000) :=
  cpuTemp_reads (by decide)

end SystemTime
end Hal
end Emberlite
