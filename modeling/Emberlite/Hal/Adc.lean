import Emberlite.Hal.Syscall
import Emberlite.Lib.CNumber
import Mathlib.Data.List.DropRight

/-! `hal_adc_open` and `hal_adc_read_raw`.

    A path names a file that can be read, or the error of `open` or `read`. -/

namespace Emberlite
namespace Hal
namespace Adc
open CString CNumber

/-- `hal_adc_config_t` -/
structure HalAdcConfig where
  iioPath : List UInt8
  channelIndex : BitVec 32

/-- `struct hal_adc_handle_impl`, with a scale of type `float`. -/
structure HalAdcHandle (F : Type) where
  basePath : List UInt8
  channelIndex : BitVec 32
  scaleToMv : F

/-- What reading each path gives. -/
abbrev Files : Type := List UInt8 → Except Errno (List UInt8)

/-- The characters that `strcspn(s, "\r\n")` stops at. -/
def isLineEnd (c : UInt8) : Bool := c == 10 || c == 13

/-- What is left of the bytes that were read. -/
def trimmed (content : List UInt8) : List UInt8 := content.rdropWhile isLineEnd

/-- `read_file_trimmed`: the string in the buffer. -/
def readFileTrimmed (files : Files) (path : List UInt8) (bufLen : Nat) : Except Errno (List UInt8) :=
  match files (text path) with
  | .error errno => .error errno
  | .ok content => .ok (text (trimmed (content.take (bufLen - 1))))

section Handle
variable {F : Type}

/-- A file of the handle's channel. -/
def HalAdcHandle.file (h : HalAdcHandle F) (suffix : List UInt8) : List UInt8 :=
  text h.basePath ++ lit "/in_voltage" ++ decimal h.channelIndex.toNat ++ suffix

/-- `scale_path` of `hal_adc_open`. -/
def HalAdcHandle.scalePath (h : HalAdcHandle F) : List UInt8 := snprintf 320 (h.file (lit "_scale"))

/-- `path` of `hal_adc_read_raw`. -/
def HalAdcHandle.rawPath (h : HalAdcHandle F) : List UInt8 := snprintf 320 (h.file (lit "_raw"))

/-- `hal_adc_open`; `unit` is `1.0f`, and `parseScaleToMv` reads the number of a string. -/
def halAdcOpen (unit : F) (parseScaleToMv : List UInt8 → F) (config : HalAdcConfig) (calloc : Bool) (files : Files) :
    Except Status (HalAdcHandle F) :=
  if ¬calloc then .error .noMemory
  else
    let h : HalAdcHandle F := ⟨snprintf 256 (text config.iioPath), config.channelIndex, unit⟩
    match readFileTrimmed files h.scalePath 128 with
    | .error _ => .ok h
    | .ok buf => .ok { h with scaleToMv := parseScaleToMv buf }

/-- `hal_adc_read_raw`: the status, and `*out_value` afterwards. -/
def halAdcReadRaw (h : HalAdcHandle F) (files : Files) (outValue : BitVec 32) : Status × BitVec 32 :=
  match readFileTrimmed files h.rawPath 64 with
  | .error errno => (statusFromErrno errno, outValue)
  | .ok buf =>
    let v := strtol buf
    if v.range ∨ v.rest ≠ [] ∨ v.value < 0 then (.io, outValue) else (.ok, BitVec.ofInt 32 v.value)

/-- A content of the raw file is read as what it denotes, if it is a number of 32 bits, and refused if not. -/
def ReadsAsNumeral (h : HalAdcHandle F) (content : List UInt8) : Prop :=
  ∀ (files : Files) (outValue : BitVec 32), files (text h.rawPath) = .ok content →
    (∀ v, halAdcReadRaw h files outValue = (.ok, v) ↔ Numeral (trimmed (content.take 63)) v.toNat) ∧
      ((halAdcReadRaw h files outValue).1 ≠ .ok → (halAdcReadRaw h files outValue).2 = outValue)

/-- Every path names a file with this content. -/
def holding (content : List UInt8) : Files := fun _ => .ok content

/-! ### Which contents are read well -/

variable {h : HalAdcHandle F} {files : Files} {content : List UInt8} {outValue v : BitVec 32}

theorem readRaw_ok (hcontent : files (text h.rawPath) = .ok content) :
    halAdcReadRaw h files outValue = (.ok, v) ↔
      ∃ n, strtol (text (trimmed (content.take 63))) = ⟨n, false, []⟩ ∧ 0 ≤ n ∧ v = BitVec.ofInt 32 n := by
  have hread : readFileTrimmed files h.rawPath 64 = .ok (text (trimmed (content.take 63))) := by
    rw [readFileTrimmed, hcontent]
  rw [halAdcReadRaw, hread]
  dsimp only
  generalize strtol (text (trimmed (content.take 63))) = number
  obtain ⟨n, range, rest⟩ := number
  dsimp only
  split
  · case _ hbad =>
    refine iff_of_false nofun ?_
    rintro ⟨m, hm, hpositive, -⟩
    cases hm
    rcases hbad with hrange | hrest | hnegative
    · cases hrange
    · exact hrest rfl
    · exact absurd hpositive (Int.not_le.mpr hnegative)
  · case _ hgood =>
    obtain ⟨hrange, hrest, hnegative⟩ := not_or.mp hgood |>.imp_right not_or.mp
    obtain rfl : range = false := Bool.eq_false_iff.mpr hrange
    obtain rfl : rest = [] := not_not.mp hrest
    constructor
    · intro hv
      cases hv
      exact ⟨n, rfl, Int.not_lt.mp hnegative, rfl⟩
    · rintro ⟨m, hm, -, rfl⟩
      cases hm
      rfl

theorem readRaw_unchanged (hfails : (halAdcReadRaw h files outValue).1 ≠ .ok) :
    (halAdcReadRaw h files outValue).2 = outValue := by
  revert hfails
  rw [halAdcReadRaw]
  split
  · exact fun _ => rfl
  · dsimp only
    split
    · exact fun _ => rfl
    · exact fun hfails => absurd rfl hfails

/-- A number of 32 bits. -/
theorem ofInt_toNat {n : Int} (hpositive : 0 ≤ n) (hsmall : n < 2 ^ 32) : ((BitVec.ofInt 32 n).toNat : Int) = n := by
  rw [BitVec.toNat_ofInt]
  omega

theorem toNat_range (v : BitVec 32) : longMin ≤ v.toNat ∧ (v.toNat : Int) ≤ longMax := by
  have hsmall : v.toNat < 2 ^ 32 := v.isLt
  rw [longMin, longMax]
  omega

theorem text_numeral {s : List UInt8} {n : Int} (hnumeral : Numeral s n) : text s = s :=
  text_of_ne_zero (noNul_numeral hnumeral)

/-- What is accepted has to be the numeral of what is stored. -/
theorem numeral_of_reads (hreads : ReadsAsNumeral h content) {n : Int}
    (hn : strtol (text (trimmed (content.take 63))) = ⟨n, false, []⟩) (hpositive : 0 ≤ n) :
    Numeral (trimmed (content.take 63)) (BitVec.ofInt 32 n).toNat := by
  have hcontent : holding content (text h.rawPath) = .ok content := rfl
  obtain ⟨hiff, -⟩ := hreads (holding content) 0 hcontent
  rw [← hiff, readRaw_ok hcontent]
  exact ⟨n, hn, hpositive, rfl⟩

/-- The raw file is read as the numeral that it holds, or refused, if and only if it is not empty up to the first NUL,
    and the number that it holds up to there, if it is a `long` of 64 bits and not negative, has 32 bits and no NUL
    after it. -/
theorem readsAsNumeral_iff (h : HalAdcHandle F) (content : List UInt8) :
    ReadsAsNumeral h content ↔ text (trimmed (content.take 63)) ≠ [] ∧
      ∀ n, Numeral (text (trimmed (content.take 63))) n → 0 ≤ n → n < 2 ^ 63 →
        n < 2 ^ 32 ∧ text (trimmed (content.take 63)) = trimmed (content.take 63) := by
  set t := trimmed (content.take 63) with ht
  constructor
  · intro hreads
    refine ⟨fun hempty => ?_, fun n hnumeral hpositive hlong => ?_⟩
    · have hzero : Numeral t 0 := numeral_of_reads hreads (strtol_end.mpr (.inl ⟨hempty, rfl⟩)) (Int.le_refl 0)
      rw [text_numeral hzero] at hempty
      exact numeral_ne_nil hzero hempty
    · have hrange : longMin ≤ n ∧ n ≤ longMax := by rw [longMin, longMax]; omega
      have hread : Numeral t (BitVec.ofInt 32 n).toNat :=
        numeral_of_reads hreads (strtol_end.mpr (.inr ⟨hnumeral, hrange⟩)) hpositive
      rw [text_numeral hread] at hnumeral
      have hsame : n = (BitVec.ofInt 32 n).toNat := numeral_unique hnumeral hread hrange (toNat_range _)
      refine ⟨?_, text_numeral hread⟩
      rw [hsame]
      exact_mod_cast (BitVec.ofInt 32 n).isLt
  · rintro ⟨hne, hsmall⟩ files outValue hcontent
    refine ⟨fun v => ?_, readRaw_unchanged⟩
    rw [readRaw_ok hcontent, ← ht]
    constructor
    · rintro ⟨n, hn, hpositive, rfl⟩
      rcases strtol_end.mp hn with ⟨hempty, -⟩ | ⟨hnumeral, -, hlong⟩
      · exact absurd hempty hne
      · rw [longMax] at hlong
        obtain ⟨hword, htext⟩ := hsmall n hnumeral hpositive (by omega)
        rw [htext] at hnumeral
        rwa [ofInt_toNat hpositive hword]
    · intro hnumeral
      refine ⟨v.toNat, strtol_end.mpr (.inr ⟨?_, toNat_range v⟩), Int.natCast_nonneg _, ?_⟩
      · rwa [text_numeral hnumeral]
      · simp

/-- An empty file is read as 0. -/
theorem empty_read_as_zero : ¬∀ content, ReadsAsNumeral (⟨lit "/iio", 0, ()⟩ : HalAdcHandle Unit) content := by
  intro hclaim
  have hzero : Numeral (trimmed (List.take 63 [])) (BitVec.ofInt 32 0).toNat :=
    numeral_of_reads (hclaim []) rfl (Int.le_refl 0)
  exact numeral_ne_nil hzero rfl

end Handle

end Adc
end Hal
end Emberlite
