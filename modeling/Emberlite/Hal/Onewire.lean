import Emberlite.Hal.Syscall
import Emberlite.Lib.CNumber

/-! `hal_onewire_open`, `hal_onewire_read_raw` and `hal_onewire_read_temp`, and what they make of a `w1_slave` file.

    A path names a file that can be read, or the error of `open` or `read`. -/

namespace Emberlite
namespace Hal
namespace Onewire
open CString CNumber

/-- `hal_onewire_config_t` -/
structure HalOnewireConfig where
  busPath : List UInt8
  deviceId : List UInt8

/-- `struct hal_onewire_handle_impl`. -/
structure HalOnewireHandle where
  deviceDir : List UInt8

/-- What reading each path gives. -/
abbrev Files : Type := List UInt8 → Except Errno (List UInt8)

/-- `hal_onewire_open` -/
def halOnewireOpen (cfg : HalOnewireConfig) (calloc : Bool) : Except Status HalOnewireHandle :=
  if ¬calloc then .error .noMemory else .ok ⟨snprintf 384 (text cfg.busPath ++ lit "/" ++ text cfg.deviceId)⟩

/-- `path` of the reading. -/
def HalOnewireHandle.slavePath (h : HalOnewireHandle) : List UInt8 := snprintf 448 (text h.deviceDir ++ lit "/w1_slave")

/-- `hal_onewire_read_raw`: the status, or the bytes that were read. -/
def halOnewireReadRaw (h : HalOnewireHandle) (files : Files) (len : Nat) : Except Status (List UInt8) :=
  if len = 0 then .error .invalidParam
  else
    match files (text h.slavePath) with
    | .error errno => .error (statusFromErrno errno)
    | .ok content => .ok (content.take len)

/-- `hal_onewire_read_temp`: the status, and `*temp_c` afterwards. `celsius` is the temperature of a number of
    thousandths. -/
def halOnewireReadTemp {T : Type} (celsius : Int → T) (h : HalOnewireHandle) (files : Files) (tempC : T) : Status × T :=
  match halOnewireReadRaw h files 511 with
  | .error st => (st, tempC)
  | .ok buf =>
    match strstr (text buf) (lit "t=") with
    | none => (.io, tempC)
    | some t =>
      let p := t.drop 2
      let tMilli := strtol p
      -- `end == p`.
      if tMilli.range ∨ tMilli.rest = p then (.io, tempC) else (.ok, celsius tMilli.value)

/-- What a content gives: the temperature of a number, or an error that leaves `*temp_c` as it was. -/
def ReadsAs {T : Type} (celsius : Int → T) (h : HalOnewireHandle) (content : List UInt8) (number : Option Int) : Prop :=
  ∀ (files : Files) (tempC : T), files (text h.slavePath) = .ok content →
    halOnewireReadTemp celsius h files tempC = match number with
      | none => (.io, tempC)
      | some n => (.ok, celsius n)

/-- A `long` after the first `t=`, as far as its digits go. -/
def NumberAfter (s : List UInt8) (n : Int) : Prop :=
  ∃ before number rest, First (lit "t=") s before (number ++ rest) ∧ Numeral number n ∧ NoDigit 10 rest ∧
    longMin ≤ n ∧ n ≤ longMax

/-! ### Files of the kernel -/

/-- Two lines: the first ends with the outcome of the check of the CRC, the second with the number after `t=`. -/
structure W1Slave where
  first : List UInt8
  passed : Bool
  second : List UInt8
  number : List UInt8

/-- The file of the kernel, as text. -/
def W1Slave.content (w : W1Slave) : List UInt8 :=
  w.first ++ lit (if w.passed then " YES\n" else " NO\n") ++ w.second ++ (lit "t=" ++ (w.number ++ lit "\n"))

/-- The bytes in hexadecimal, and `crc=`, before the outcome and before `t=`. -/
structure W1Slave.WellFormed (w : W1Slave) : Prop where
  first : ∀ c ∈ w.first, c ≠ 0 ∧ c ≠ 10 ∧ c ≠ 116
  second : ∀ c ∈ w.second, c ≠ 0 ∧ c ≠ 10 ∧ c ≠ 116
  fits : w.content.length ≤ 511

/-- A reading that passed the check, with a whole number. -/
def Valid (content : List UInt8) (n : Int) : Prop :=
  ∃ w : W1Slave, w.WellFormed ∧ w.content = content ∧ w.passed ∧ Numeral w.number n

/-- Only readings that passed the check are taken, and every other content is an error. -/
def TakesOnlyValid {T : Type} (celsius : Int → T) (h : HalOnewireHandle) : Prop :=
  ∀ content files tempC, files (text h.slavePath) = .ok content →
    (∃ n, Valid content n ∧ halOnewireReadTemp celsius h files tempC = (.ok, celsius n)) ∨
      (halOnewireReadTemp celsius h files tempC).1 ≠ .ok ∧ (halOnewireReadTemp celsius h files tempC).2 = tempC

section Temp
variable {T : Type} {celsius : Int → T} {h : HalOnewireHandle} {files : Files} {content : List UInt8} {tempC : T}
  {n : Int} {w w' : W1Slave}

theorem lit_t : lit "t=" = [116, 61] := by decide +kernel

/-! ### The number that is read -/

theorem readTemp_eq (hcontent : files (text h.slavePath) = .ok content) : halOnewireReadTemp celsius h files tempC =
    match strstr (text (content.take 511)) (lit "t=") with
    | none => (.io, tempC)
    | some t => if (strtol (t.drop 2)).range ∨ (strtol (t.drop 2)).rest = t.drop 2 then (.io, tempC)
      else (.ok, celsius (strtol (t.drop 2)).value) := by
  have hread : halOnewireReadRaw h files 511 = .ok (content.take 511) := by
    rw [halOnewireReadRaw, if_neg (by decide), hcontent]
  rw [halOnewireReadTemp, hread]

theorem drop_t (after : List UInt8) : (lit "t=" ++ after).drop 2 = after := by
  rw [lit_t]
  rfl

/-- What `strtol` makes of a number with digits. -/
theorem strtol_number {number rest : List UInt8} (hnumeral : Numeral number n) (hrest : NoDigit 10 rest)
    (hlow : longMin ≤ n) (hhigh : n ≤ longMax) :
    strtol (number ++ rest) = ⟨n, false, rest⟩ ∧ rest ≠ number ++ rest := by
  refine ⟨(strtol_append hnumeral hrest).trans (clip_of_mem hlow hhigh), fun hsame => ?_⟩
  exact numeral_ne_nil hnumeral (List.self_eq_append_left.mp hsame)

theorem readTemp_number (hcontent : files (text h.slavePath) = .ok content)
    (hnumber : NumberAfter (text (content.take 511)) n) :
    halOnewireReadTemp celsius h files tempC = (.ok, celsius n) := by
  obtain ⟨before, number, rest, hfirst, hnumeral, hrest, hlow, hhigh⟩ := hnumber
  obtain ⟨hread, hmoved⟩ := strtol_number hnumeral hrest hlow hhigh
  rw [readTemp_eq hcontent]
  cases hfound : strstr (text (content.take 511)) (lit "t=") with
  | none => exact absurd hfirst.1 (strstr_none hfound _ _)
  | some t =>
    obtain ⟨before', after, rfl, hfirst'⟩ := strstr_some hfound
    obtain rfl : after = number ++ rest := hfirst'.unique hfirst
    dsimp only
    rw [drop_t, hread]
    exact if_neg (by simpa using hmoved)

theorem readTemp_cases (hcontent : files (text h.slavePath) = .ok content) :
    halOnewireReadTemp celsius h files tempC = (.io, tempC) ∨ ∃ n, NumberAfter (text (content.take 511)) n := by
  rw [readTemp_eq hcontent]
  cases hfound : strstr (text (content.take 511)) (lit "t=") with
  | none => exact .inl rfl
  | some t =>
    obtain ⟨before, after, rfl, hfirst⟩ := strstr_some hfound
    dsimp only
    rw [drop_t]
    rcases strtol_cases after with ⟨number, rest, n, rfl, hnumeral, hrest, hread⟩ | hread
    · rw [hread]
      by_cases hrange : longMin ≤ n ∧ n ≤ longMax
      · exact .inr ⟨n, before, number, rest, hfirst, hnumeral, hrest, hrange⟩
      · refine .inl (if_pos (.inl ?_))
        rw [Strtol.clip]
        split
        · rfl
        · split
          · rfl
          · exact absurd ⟨Int.not_lt.mp ‹_›, Int.not_lt.mp ‹_›⟩ hrange
    · rw [hread]
      exact .inl (if_pos (.inr rfl))

/-! ### Files of the kernel -/

/-- The outcome of the check, up to its last letter. -/
theorem lit_outcome (passed : Bool) : ∃ word, lit (if passed then " YES\n" else " NO\n") =
    word ++ [if passed then 83 else 79, 10] ∧ ∀ c ∈ word, c ≠ 0 ∧ c ≠ 10 ∧ c ≠ 116 := by
  cases passed with
  | true => exact ⟨[32, 89, 69], by decide +kernel, by simp⟩
  | false => exact ⟨[32, 78], by decide +kernel, by simp⟩

theorem lit_end : lit "\n" = [10] := by decide +kernel

/-- Before the first `t=` there is no `t`, and nowhere is a NUL. -/
theorem content_eq (hw : w.WellFormed) : ∃ before, w.content = before ++ (lit "t=" ++ (w.number ++ lit "\n")) ∧
    ∀ c ∈ before, c ≠ 0 ∧ c ≠ 116 := by
  obtain ⟨word, hlit, hword⟩ := lit_outcome w.passed
  refine ⟨_, rfl, fun c hc => ?_⟩
  have hlast : ∀ c ∈ [if w.passed then 83 else 79, (10 : UInt8)], c ≠ 0 ∧ c ≠ 116 := by cases w.passed <;> simp
  rcases List.mem_append.mp hc with hc | hc
  · rcases List.mem_append.mp hc with hc | hc
    · obtain ⟨hzero, -, ht⟩ := hw.first c hc
      exact ⟨hzero, ht⟩
    · rw [hlit] at hc
      rcases List.mem_append.mp hc with hc | hc
      · obtain ⟨hzero, -, ht⟩ := hword c hc
        exact ⟨hzero, ht⟩
      · exact hlast c hc
  · obtain ⟨hzero, -, ht⟩ := hw.second c hc
    exact ⟨hzero, ht⟩

theorem text_content (hw : w.WellFormed) (hnumeral : Numeral w.number n) : text (w.content.take 511) = w.content := by
  rw [List.take_of_length_le hw.fits]
  obtain ⟨before, hcontent, hbefore⟩ := content_eq hw
  refine text_of_ne_zero fun c hc => ?_
  rw [hcontent, lit_t, lit_end] at hc
  rcases List.mem_append.mp hc with hc | hc
  · exact (hbefore c hc).1
  · rcases List.mem_append.mp hc with hc | hc
    · rcases List.mem_pair.mp hc with rfl | rfl <;> decide
    · rcases List.mem_append.mp hc with hc | hc
      · exact noNul_numeral hnumeral c hc
      · rw [List.mem_singleton.mp hc]
        decide

/-- The number of a file of the kernel is read whole, whatever the outcome of the check. -/
theorem numberAfter_content (hw : w.WellFormed) (hnumeral : Numeral w.number n) (hlow : longMin ≤ n)
    (hhigh : n ≤ longMax) : NumberAfter (text (w.content.take 511)) n := by
  rw [text_content hw hnumeral]
  obtain ⟨before, hcontent, hbefore⟩ := content_eq hw
  have hnone : (116 : UInt8) ∉ before := fun hmem => (hbefore 116 hmem).2 rfl
  refine ⟨before, w.number, lit "\n", ?_, hnumeral, ?_, hlow, hhigh⟩
  · rw [hcontent, lit_t]
    exact first_of_not_mem hnone
  · rw [lit_end]
    intro c hc
    cases hc
    exact not_isDigit_of_small rfl (by decide)

/-- The last letter of the first line is that of the outcome. -/
theorem first_line (hw : w.WellFormed) :
    (w.content.takeWhile (· != 10)).getLast? = some (if w.passed then 83 else 79) := by
  obtain ⟨word, hlit, hword⟩ := lit_outcome w.passed
  have hline : ∀ c ∈ w.first ++ word ++ [if w.passed then 83 else 79], (c != (10 : UInt8)) = true := by
    intro c hc
    rcases List.mem_append.mp hc with hc | hc
    · rcases List.mem_append.mp hc with hc | hc
      · simpa using (hw.first c hc).2.1
      · simpa using (hword c hc).2.1
    · rw [List.mem_singleton.mp hc]
      cases w.passed <;> decide
  have hsplit : w.content = (w.first ++ word ++ [if w.passed then 83 else 79]) ++
      10 :: (w.second ++ (lit "t=" ++ (w.number ++ lit "\n"))) := by
    rw [W1Slave.content, hlit]
    simp
  rw [hsplit, List.takeWhile_append_of_pos hline, List.takeWhile_cons_of_neg (by decide), List.append_nil,
    List.getLast?_append]
  simp

theorem passed_unique (hw : w.WellFormed) (hw' : w'.WellFormed) (h : w.content = w'.content) : w.passed = w'.passed := by
  have hsame := first_line hw
  rw [h, first_line hw'] at hsame
  cases hpassed : w.passed <;> cases hpassed' : w'.passed <;> simp [hpassed, hpassed'] at hsame ⊢

/-- A content is read as the `long` after the first `t=`, and there has to be one; that of a file of the kernel is read
    whole, whether the check has passed or not. -/
theorem readTemp_reads (celsius : Int → T) (h : HalOnewireHandle) (content : List UInt8) :
    (∀ n, NumberAfter (text (content.take 511)) n → ReadsAs celsius h content (some n)) ∧
    ((∀ n, ¬NumberAfter (text (content.take 511)) n) → ReadsAs celsius h content none) ∧
    ∀ (w : W1Slave) (n : Int), w.WellFormed → w.content = content → Numeral w.number n → longMin ≤ n → n ≤ longMax →
      ReadsAs celsius h content (some n) := by
  have hreads : ∀ n, NumberAfter (text (content.take 511)) n → ReadsAs celsius h content (some n) :=
    fun n hnumber files tempC hcontent => readTemp_number hcontent hnumber
  refine ⟨hreads, fun hnone files tempC hcontent => ?_, fun w n hw hsame hnumeral hlow hhigh => ?_⟩
  · rcases readTemp_cases hcontent with hread | ⟨n, hnumber⟩
    · exact hread
    · exact absurd hnumber (hnone n)
  · subst hsame
    exact hreads n (numberAfter_content hw hnumeral hlow hhigh)

end Temp

/-! ### A reading that fails the check -/

/-- A reading whose check failed. -/
def failed : W1Slave := ⟨lit "2d 00 4b 46 ff ff 02 10 19 : crc=18", false, lit "2d 00 4b 46 ff ff 02 10 19 ", lit "2812"⟩

theorem failed_wellFormed : failed.WellFormed where
  first := by
    have hall : failed.first.all (fun c => c != 0 && c != 10 && c != 116) = true := by decide +kernel
    simpa [and_assoc] using hall
  second := by
    have hall : failed.second.all (fun c => c != 0 && c != 10 && c != 116) = true := by decide +kernel
    simpa [and_assoc] using hall
  fits := by decide +kernel

theorem failed_numeral : Numeral failed.number 2812 := by
  have hall : failed.number.all (isDigit 10) = true := by decide +kernel
  exact ⟨[], [], failed.number, false, rfl, nofun, .none, by decide +kernel, List.all_eq_true.mp hall, by decide +kernel⟩

/-- A handle on a device. -/
def device : HalOnewireHandle := ⟨lit "/28-1"⟩

/-- Its file holds that reading, at every read. -/
def onlyFailed : Files := fun _ => .ok failed.content

/-- The temperature of a failed reading is reported. -/
theorem failed_reading_taken : ¬∀ h : HalOnewireHandle, TakesOnlyValid (fun n : Int => n) h := by
  intro hclaim
  have hcontent : onlyFailed (text device.slavePath) = .ok failed.content := rfl
  have hread : halOnewireReadTemp (fun n : Int => n) device onlyFailed 0 = (.ok, 2812) :=
    readTemp_number hcontent (numberAfter_content failed_wellFormed failed_numeral (by decide) (by decide))
  rcases hclaim device failed.content onlyFailed 0 hcontent with ⟨n, ⟨w, hw, hsame, hpassed, -⟩, -⟩ | ⟨hstatus, -⟩
  · rw [passed_unique hw failed_wellFormed hsame] at hpassed
    cases hpassed
  · rw [hread] at hstatus
    exact hstatus rfl

/-- A failed reading, and an empty file. -/
theorem readTemp_failed : ReadsAs (fun n : Int => n) device failed.content (some 2812) ∧
    ReadsAs (fun n : Int => n) device [] none := by
  obtain ⟨hnumber, -, hwhole⟩ := readTemp_reads (fun n : Int => n) device failed.content
  obtain ⟨-, hnone, -⟩ := readTemp_reads (fun n : Int => n) device []
  refine ⟨hwhole failed 2812 failed_wellFormed rfl failed_numeral (by decide) (by decide), hnone ?_⟩
  rintro n ⟨before, number, rest, ⟨hempty, -⟩, -⟩
  have hlen := congrArg List.length hempty
  simp [lit_t, text] at hlen

end Onewire
end Hal
end Emberlite
