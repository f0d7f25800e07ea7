import Emberlite.Hal.Adc
import Emberlite.Hal.Onewire
import Emberlite.Hal.Pwm

/-! The sysfs paths that PWM, ADC and 1-Wire handles build in their buffers. -/

namespace Emberlite
namespace Hal
namespace SysfsPaths
open CString CNumber Adc Onewire

/-! ### PWM -/

/-- `hal_pwm_config_t` -/
structure HalPwmConfig where
  chipPath : List UInt8
  channel : BitVec 32

/-- The fields of the handle that do not change. -/
structure PwmStrings where
  chipPath : List UInt8
  channel : BitVec 32
  pwmDir : List UInt8

/-- The path that `pwm_export` writes to. -/
def pwmExport (chipPath : List UInt8) : List UInt8 := snprintf 384 (text chipPath ++ lit "/export")

/-- The path that `pwm_try_unexport` writes to. -/
def pwmTryUnexport (chipPath : List UInt8) : List UInt8 := snprintf 384 (text chipPath ++ lit "/unexport")

/-- The strings that `hal_pwm_open` keeps. -/
def pwmStrings (config : HalPwmConfig) : PwmStrings where
  chipPath := snprintf 256 (text config.chipPath)
  channel := config.channel
  pwmDir := snprintf 320 (text config.chipPath ++ lit "/pwm" ++ decimal config.channel.toNat)

/-- `hal_pwm_open`, as far as the strings of the handle go. -/
def halPwmOpen (config : HalPwmConfig) (dev : PwmDevice) (exportFault : Option Errno) (calloc : Bool) :
    Except Status PwmStrings :=
  match Hal.halPwmOpen dev exportFault calloc with
  | .error st => .error st
  | .ok _ => .ok (pwmStrings config)

/-- The path that `hal_pwm_close` unexports the channel with. -/
def halPwmClose (h : PwmStrings) : List UInt8 := pwmTryUnexport (snprintf 256 (text h.chipPath))

/-- The files of a channel. -/
inductive PwmFile where
  | exportFile
  | unexportFile
  | period
  | dutyCycle
  | enable
  deriving DecidableEq, Repr

/-- The end of a file's path. -/
def PwmFile.name : PwmFile → List UInt8
  | .exportFile => lit "/export"
  | .unexportFile => lit "/unexport"
  | .period => lit "/period"
  | .dutyCycle => lit "/duty_cycle"
  | .enable => lit "/enable"

/-- The path that is used for a file of the channel. -/
def PwmStrings.path (h : PwmStrings) (config : HalPwmConfig) : PwmFile → List UInt8
  | .exportFile => pwmExport config.chipPath
  | .unexportFile => halPwmClose h
  | file => snprintf 400 (text h.pwmDir ++ file.name)

/-- The path that is meant. -/
def PwmFile.whole (config : HalPwmConfig) : PwmFile → List UInt8
  | .exportFile => text config.chipPath ++ PwmFile.exportFile.name
  | .unexportFile => text config.chipPath ++ PwmFile.unexportFile.name
  | file => text config.chipPath ++ lit "/pwm" ++ decimal config.channel.toNat ++ file.name

/-- Either the channel is not opened, or every path of it is whole. -/
def PwmWhole (config : HalPwmConfig) (dev : PwmDevice) (exportFault : Option Errno) (calloc : Bool) : Prop :=
  ∀ h, halPwmOpen config dev exportFault calloc = .ok h → ∀ file, text (h.path config file) = file.whole config

/-- Either the channel is not opened, or both paths of it are whole. -/
def AdcWhole {F : Type} (unit : F) (parseScaleToMv : List UInt8 → F) (config : HalAdcConfig) (calloc : Bool)
    (files : Adc.Files) : Prop :=
  ∀ h, halAdcOpen unit parseScaleToMv config calloc files = .ok h →
    text h.scalePath = text config.iioPath ++ lit "/in_voltage" ++ decimal config.channelIndex.toNat ++ lit "_scale" ∧
    text h.rawPath = text config.iioPath ++ lit "/in_voltage" ++ decimal config.channelIndex.toNat ++ lit "_raw"

/-- Either the device is not opened, or the path of it is whole. -/
def OnewireWhole (cfg : HalOnewireConfig) (calloc : Bool) : Prop :=
  ∀ h, halOnewireOpen cfg calloc = .ok h →
    text h.slavePath = text cfg.busPath ++ lit "/" ++ text cfg.deviceId ++ lit "/w1_slave"

/-! ### Literals and numbers -/

theorem noNul_name (file : PwmFile) : NoNul file.name := by
  cases file <;> exact noNul_of_all (by decide +kernel)

theorem length_name_le (file : PwmFile) : file.name.length ≤ 11 := by
  cases file <;> decide +kernel

theorem length_channel_le (channel : BitVec 32) : (decimal channel.toNat).length ≤ 10 := by
  have hsmall : channel.toNat < 2 ^ 32 := channel.isLt
  exact length_decimal_le (by decide) (by omega)

/-! ### PWM -/

section Pwm
variable {config : HalPwmConfig} {dev : PwmDevice} {exportFault : Option Errno} {calloc : Bool}

theorem noNul_pwmDir (config : HalPwmConfig) :
    NoNul (text config.chipPath ++ lit "/pwm" ++ decimal config.channel.toNat) :=
  ((noNul_text _).append (noNul_of_all (by decide +kernel))).append (noNul_decimal _)

/-- A short path of the chip leaves room for the directory of the channel and for a file in it. -/
theorem text_channelFile (hshort : (text config.chipPath).length ≤ 255) (file : PwmFile) :
    text (snprintf 400 (text (snprintf 320 (text config.chipPath ++ lit "/pwm" ++ decimal config.channel.toNat)) ++
      file.name)) = text config.chipPath ++ lit "/pwm" ++ decimal config.channel.toNat ++ file.name := by
  have hname : file.name.length ≤ 11 := length_name_le file
  have hdir : (text config.chipPath ++ lit "/pwm" ++ decimal config.channel.toNat).length ≤ 269 := by
    have hpwm : (lit "/pwm").length = 4 := by decide +kernel
    have hchannel : (decimal config.channel.toNat).length ≤ 10 := length_channel_le config.channel
    simp only [List.length_append]
    omega
  rw [text_snprintf (noNul_pwmDir config) (by omega)]
  refine text_snprintf ((noNul_pwmDir config).append (noNul_name file)) ?_
  rw [List.length_append]
  omega

theorem pwm_whole (hshort : (text config.chipPath).length ≤ 255) : PwmWhole config dev exportFault calloc := by
  intro h hopen file
  rw [halPwmOpen] at hopen
  split at hopen
  · cases hopen
  · cases hopen
    have hchip : NoNul (text config.chipPath) := noNul_text _
    have hname : file.name.length ≤ 11 := length_name_le file
    cases file with
    | exportFile =>
      show text (snprintf 384 (text config.chipPath ++ PwmFile.exportFile.name)) = _
      refine text_snprintf (hchip.append (noNul_name .exportFile)) ?_
      rw [List.length_append]
      omega
    | unexportFile =>
      show text (snprintf 384 (text (snprintf 256 (text (snprintf 256 (text config.chipPath)))) ++
        PwmFile.unexportFile.name)) = _
      rw [text_snprintf hchip (by omega), text_snprintf hchip (by omega)]
      refine text_snprintf (hchip.append (noNul_name .unexportFile)) ?_
      rw [List.length_append]
      omega
    | period | dutyCycle | enable => exact text_channelFile hshort _

/-- The channel is opened if the export and `calloc` succeed, or if the channel has been exported before. -/
def PwmOpens (exportFault : Option Errno) (calloc : Bool) : Prop :=
  calloc = true ∧ ∀ errno, exportFault = some errno → errno = .ebusy ∨ errno = .none

theorem halPwmOpen_ok (dev : PwmDevice) (config : HalPwmConfig) (hopens : PwmOpens exportFault calloc) :
    halPwmOpen config dev exportFault calloc = .ok (pwmStrings config) := by
  obtain ⟨rfl, hfault⟩ := hopens
  rcases exportFault with _ | errno
  · rfl
  · rcases hfault errno rfl with rfl | rfl <;> rfl

theorem opens_of_export {pwm : Pwm} (hopen : Hal.halPwmOpen dev exportFault calloc = .ok pwm) :
    PwmOpens exportFault calloc := by
  rcases exportFault with _ | errno
  · refine ⟨?_, nofun⟩
    cases calloc with
    | true => rfl
    | false => cases hopen
  · by_cases hbusy : errno = .ebusy
    · subst hbusy
      refine ⟨?_, fun e he => .inl (Option.some_inj.mp he).symm⟩
      cases calloc with
      | true => rfl
      | false => cases hopen
    · have hexport : (if statusFromErrno errno = .ok then
            (if calloc then .ok ⟨⟨1000000, false⟩, dev⟩ else .error .noMemory)
          else .error (statusFromErrno errno) : Except Status Pwm) = .ok pwm := by
        cases errno with
        | ebusy => exact absurd rfl hbusy
        | _ => exact hopen
      split at hexport
      · case _ hok =>
        have hnone : errno = .none := by_contra fun hne => statusFromErrno_ne_ok hne hok
        refine ⟨?_, fun e he => .inr (Option.some_inj.mp he ▸ hnone)⟩
        cases calloc with
        | true => rfl
        | false => cases hexport
      · cases hexport

theorem opens_of_halPwmOpen {h : PwmStrings} (hopen : halPwmOpen config dev exportFault calloc = .ok h) :
    PwmOpens exportFault calloc := by
  rw [halPwmOpen] at hopen
  split at hopen
  · cases hopen
  · exact opens_of_export ‹_›

theorem pwmWhole_iff : PwmWhole config dev exportFault calloc ↔
    (text config.chipPath).length ≤ 255 ∨ ¬PwmOpens exportFault calloc := by
  constructor
  · intro hwhole
    by_cases hopens : PwmOpens exportFault calloc
    · have hpath := congrArg List.length (hwhole _ (halPwmOpen_ok dev config hopens) .unexportFile)
      have hkept : (text (snprintf 256 (text (snprintf 256 (text config.chipPath))))).length ≤ 255 := by
        rw [length_text_snprintf (noNul_text _)]
        exact Nat.min_le_left ..
      change (text (snprintf 384 (text (snprintf 256 (text (snprintf 256 (text config.chipPath)))) ++
        PwmFile.unexportFile.name))).length = (text config.chipPath ++ PwmFile.unexportFile.name).length at hpath
      rw [length_text_snprintf ((noNul_text _).append (noNul_name .unexportFile)), List.length_append,
        List.length_append] at hpath
      exact .inl (by omega)
    · exact .inr hopens
  · rintro (hshort | hfails)
    · exact pwm_whole hshort
    · exact fun h hopen => absurd (opens_of_halPwmOpen hopen) hfails

end Pwm

/-! ### ADC -/

section Adc
variable {F : Type} {unit : F} {parseScaleToMv : List UInt8 → F} {config : HalAdcConfig} {calloc : Bool}
  {files : Adc.Files} {h : HalAdcHandle F}

theorem adc_basePath (hopen : halAdcOpen unit parseScaleToMv config calloc files = .ok h) :
    calloc = true ∧ h.basePath = snprintf 256 (text config.iioPath) ∧ h.channelIndex = config.channelIndex := by
  rw [halAdcOpen] at hopen
  split at hopen
  · cases hopen
  · case _ hcalloc =>
    refine ⟨by simpa using hcalloc, ?_⟩
    dsimp only at hopen
    split at hopen <;> cases hopen <;> exact ⟨rfl, rfl⟩

theorem adc_opens (unit : F) (parseScaleToMv : List UInt8 → F) (config : HalAdcConfig) (files : Adc.Files) :
    ∃ h, halAdcOpen unit parseScaleToMv config true files = .ok h := by
  rw [halAdcOpen, if_neg (by decide)]
  dsimp only
  split <;> exact ⟨_, rfl⟩

theorem adc_file {suffix : List UInt8} (hsuffix : NoNul suffix) (hshort : suffix.length ≤ 6)
    (hbase : h.basePath = snprintf 256 (text config.iioPath)) :
    text (snprintf 320 (h.file suffix)) =
      text (snprintf 256 (text config.iioPath)) ++ lit "/in_voltage" ++ decimal h.channelIndex.toNat ++ suffix := by
  have hlit : (lit "/in_voltage").length = 11 := by decide +kernel
  have hchannel : (decimal h.channelIndex.toNat).length ≤ 10 := length_channel_le _
  have hkept : (text (snprintf 256 (text config.iioPath))).length ≤ 255 := by
    rw [length_text_snprintf (noNul_text _)]
    exact Nat.min_le_left ..
  rw [HalAdcHandle.file, hbase]
  refine text_snprintf ?_ ?_
  · exact (((noNul_text _).append (noNul_of_all (by decide +kernel))).append (noNul_decimal _)).append hsuffix
  · simp only [List.length_append]
    omega

theorem adcWhole_iff : AdcWhole unit parseScaleToMv config calloc files ↔
    (text config.iioPath).length ≤ 255 ∨ calloc = false := by
  have hscale : NoNul (lit "_scale") ∧ (lit "_scale").length ≤ 6 := ⟨noNul_of_all (by decide +kernel), by decide +kernel⟩
  have hraw : NoNul (lit "_raw") ∧ (lit "_raw").length ≤ 6 := ⟨noNul_of_all (by decide +kernel), by decide +kernel⟩
  constructor
  · intro hwhole
    cases calloc with
    | false => exact .inr rfl
    | true =>
      obtain ⟨h, hopen⟩ := adc_opens unit parseScaleToMv config files
      obtain ⟨-, hbase, hchannel⟩ := adc_basePath hopen
      have hpath := (hwhole h hopen).2
      rw [HalAdcHandle.rawPath, adc_file hraw.1 hraw.2 hbase, hchannel] at hpath
      have hsame := congrArg List.length hpath
      have hkept : (text (snprintf 256 (text config.iioPath))).length ≤ 255 := by
        rw [length_text_snprintf (noNul_text _)]
        exact Nat.min_le_left ..
      simp only [List.length_append] at hsame
      exact .inl (by omega)
  · rintro (hshort | rfl) h hopen
    · obtain ⟨-, hbase, hchannel⟩ := adc_basePath hopen
      have hkept : text (snprintf 256 (text config.iioPath)) = text config.iioPath :=
        text_snprintf (noNul_text _) (Nat.lt_succ_of_le hshort)
      rw [HalAdcHandle.scalePath, HalAdcHandle.rawPath, adc_file hscale.1 hscale.2 hbase, adc_file hraw.1 hraw.2 hbase,
        hchannel, hkept]
      exact ⟨rfl, rfl⟩
    · cases (adc_basePath hopen).1

end Adc

/-! ### 1-Wire -/

section Onewire
variable {cfg : HalOnewireConfig} {calloc : Bool}

theorem onewireWhole_iff : OnewireWhole cfg calloc ↔
    (text cfg.busPath).length + 1 + (text cfg.deviceId).length ≤ 383 ∨ calloc = false := by
  have hslash : (lit "/").length = 1 := by decide +kernel
  have hslave : (lit "/w1_slave").length = 9 := by decide +kernel
  have hdir : NoNul (text cfg.busPath ++ lit "/" ++ text cfg.deviceId) :=
    ((noNul_text _).append (noNul_of_all (by decide +kernel))).append (noNul_text _)
  have hslaveNoNul : NoNul (lit "/w1_slave") := noNul_of_all (by decide +kernel)
  constructor
  · intro hwhole
    cases calloc with
    | false => exact .inr rfl
    | true =>
      have hpath := congrArg List.length (hwhole _ rfl)
      have hkept : (text (snprintf 384 (text cfg.busPath ++ lit "/" ++ text cfg.deviceId))).length ≤ 383 := by
        rw [length_text_snprintf hdir]
        exact Nat.min_le_left ..
      rw [HalOnewireHandle.slavePath, length_text_snprintf ((noNul_text _).append hslaveNoNul)] at hpath
      simp only [List.length_append] at hpath
      exact .inl (by omega)
  · rintro (hshort | rfl) h hopen
    · rw [halOnewireOpen] at hopen
      split at hopen
      · cases hopen
      · cases hopen
        have hfits : (text cfg.busPath ++ lit "/" ++ text cfg.deviceId).length ≤ 383 := by
          simp only [List.length_append]
          omega
        rw [HalOnewireHandle.slavePath, text_snprintf hdir (Nat.lt_succ_of_le hfits)]
        refine text_snprintf (hdir.append hslaveNoNul) ?_
        rw [List.length_append]
        omega
    · cases hopen

end Onewire

/-! ### All three -/

/-- Either a handle is not opened, or all its paths are whole, if and only if the configured strings fit in the first
    buffer that they are put in, or an export or `calloc` fails. -/
theorem whole_iff {F : Type} (unit : F) (parseScaleToMv : List UInt8 → F) :
    (∀ config dev exportFault calloc, PwmWhole config dev exportFault calloc ↔
      (text config.chipPath).length ≤ 255 ∨ ¬PwmOpens exportFault calloc) ∧
    (∀ config calloc files, AdcWhole unit parseScaleToMv config calloc files ↔
      (text config.iioPath).length ≤ 255 ∨ calloc = false) ∧
    ∀ cfg calloc, OnewireWhole cfg calloc ↔
      (text cfg.busPath).length + 1 + (text cfg.deviceId).length ≤ 383 ∨ calloc = false :=
  ⟨fun _ _ _ _ => pwmWhole_iff, fun _ _ _ => adcWhole_iff, fun _ _ => onewireWhole_iff⟩

/-- A path of 256 characters: what was exported is not unexported. -/
theorem unexport_elsewhere : ¬∀ config dev exportFault calloc, PwmWhole config dev exportFault calloc := by
  intro hclaim
  rcases pwmWhole_iff.mp (hclaim ⟨List.replicate 256 97, 0⟩ ⟨0, 0, false⟩ none true) with hshort | hfails
  · exact absurd hshort (by decide +kernel)
  · exact hfails ⟨rfl, nofun⟩

end SysfsPaths
end Hal
end Emberlite
