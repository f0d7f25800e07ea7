import Emberlite.Lib.CString
import Mathlib.Data.List.Infix

/-! `scripts/kconfig/genconfig.sh`, which takes the lines of build/.config to the cache variables of build/config.cmake,
    and the files that Kconfig writes for this project. -/

namespace Emberlite
namespace Scripts
namespace Genconfig
open CString

/-- A line of a file, without its end. -/
abbrev Line : Type := List UInt8

/-! ### The source -/

/-- `grep -q "^..."`. -/
def grepStart (pattern : Line) (file : List Line) : Bool := file.any pattern.isPrefixOf

/-- `grep -q "..."`. -/
def grep (pattern : Line) (file : List Line) : Bool := file.any fun line => decide (pattern <:+: line)

/-- The value of an option. -/
inductive Switch
  | on
  | off
  deriving DecidableEq, Repr

/-- The value as the script writes it. -/
def Switch.text : Switch → Line
  | on => lit "ON"
  | off => lit "OFF"

/-- `onoff` -/
def onoff (file : List Line) (sym : Line) : Switch := if grepStart (sym ++ lit "=y") file then .on else .off

/-- `onoff_default_on` -/
def onoffDefaultOn (file : List Line) (sym : Line) : Switch :=
  if grepStart (sym ++ lit "=") file then onoff file sym else .on

/-- The test for `hal_enabled` and for each of the bundles. -/
def onoffWhereNamed (file : List Line) (sym : Line) : Switch := if !grep sym file then .on else onoff file sym

/-- `enable_msgs` -/
def enableMsgs (file : List Line) : Switch :=
  let enable_msgs := onoff file (lit "CONFIG_OPENEMBER_ENABLE_MSGS")
  if !grepStart (lit "CONFIG_OPENEMBER_ENABLE_MSGS=") file then .on else enable_msgs

/-- An `awk` program that prints the value of the last rule that has matched. -/
def awk (initial : Line) (rules : List (Line × Line)) (file : List Line) : Line :=
  file.foldl (fun v line => rules.foldl (fun v rule => if rule.1.isPrefixOf line then rule.2 else v) v) initial

/-- `tp_mode` -/
def tpMode : List Line → Line := awk (lit "FETCH") [
  (lit "CONFIG_OPENEMBER_TP_MODE_VENDOR=y", lit "VENDOR"),
  (lit "CONFIG_OPENEMBER_TP_MODE_SYSTEM=y", lit "SYSTEM")]

/-- `hal_alsa` -/
def halAlsa : List Line → Line := awk (lit "AUTO") [
  (lit "CONFIG_OPENEMBER_HAL_ALSA_ON=y", lit "ON"),
  (lit "CONFIG_OPENEMBER_HAL_ALSA_OFF=y", lit "OFF")]

/-- `hal_libusb` -/
def halLibusb : List Line → Line := awk (lit "AUTO") [
  (lit "CONFIG_OPENEMBER_HAL_LIBUSB_ON=y", lit "ON"),
  (lit "CONFIG_OPENEMBER_HAL_LIBUSB_OFF=y", lit "OFF")]

/-- `msgs_ref` -/
def msgsRef : List Line → Line := awk (lit "main") [(lit "CONFIG_OPENEMBER_MSGS_REF_LATEST=y", lit "main")]

/-- `msgs_source` -/
def msgsSource : List Line → Line := awk (lit "FETCH") [
  (lit "CONFIG_OPENEMBER_MSGS_SOURCE_LOCAL=y", lit "LOCAL"),
  (lit "CONFIG_OPENEMBER_MSGS_SOURCE_FETCH=y", lit "FETCH")]

/-- The string of the first line that assigns one, without the quotes around it. -/
def msgsLocalSource (file : List Line) : Line :=
  let start := lit "CONFIG_OPENEMBER_MSGS_LOCAL_SOURCE="
  match file.find? start.isPrefixOf with
  | none => []
  | some line =>
    let v := line.drop start.length
    let v := if v.head? = some 34 then v.tail else v
    if v.getLast? = some 34 then v.dropLast else v

/-- The types of a cache entry. -/
inductive CacheType
  | string
  | bool
  | path
  deriving DecidableEq, Repr

/-- `set(name value CACHE type "doc" FORCE)` and `set_property(CACHE name PROPERTY STRINGS ...)`. -/
inductive Command
  | set (name : String) (value : Line) (type : CacheType) (doc : String)
  | setProperty (name : String) (strings : List String)

/-- `hal_enabled` -/
def halEnabled (file : List Line) : Switch := onoffWhereNamed file (lit "CONFIG_OPENEMBER_ENABLE_HAL")

/-- The command for a bundle. -/
def bundle (file : List Line) (name doc : String) (sym : Line) : Command :=
  .set name (onoffWhereNamed file sym).text .bool doc

/-- The command for a third-party library. -/
def library (file : List Line) (name doc : String) (sym : Line) : Command := .set name (onoff file sym).text .bool doc

/-- The commands for what is on where nothing assigns its symbol. -/
def component (file : List Line) (name doc : String) (sym : Line) : List Command :=
  if onoffDefaultOn file sym = .on then [.set name (lit "ON") .bool doc] else [.set name (lit "OFF") .bool doc]

/-- What is written of the HAL's options. -/
def halCommands (file : List Line) : List Command :=
  if halEnabled file = .on then [
    .set "OPENEMBER_ENABLE_HAL" (lit "ON") .bool "Build platform HAL (emberlite_hal)",
    .set "OPENEMBER_HAL_ALSA" (halAlsa file) .string "HAL ALSA: AUTO|ON|OFF",
    .setProperty "OPENEMBER_HAL_ALSA" ["AUTO", "ON", "OFF"],
    .set "OPENEMBER_HAL_LIBUSB" (halLibusb file) .string "HAL libusb: AUTO|ON|OFF",
    .setProperty "OPENEMBER_HAL_LIBUSB" ["AUTO", "ON", "OFF"]]
  else [
    .set "OPENEMBER_ENABLE_HAL" (lit "OFF") .bool "Build platform HAL (emberlite_hal)",
    .set "OPENEMBER_HAL_ALSA" (lit "AUTO") .string "HAL ALSA: AUTO|ON|OFF",
    .setProperty "OPENEMBER_HAL_ALSA" ["AUTO", "ON", "OFF"],
    .set "OPENEMBER_HAL_LIBUSB" (lit "AUTO") .string "HAL libusb: AUTO|ON|OFF",
    .setProperty "OPENEMBER_HAL_LIBUSB" ["AUTO", "ON", "OFF"]]

/-- The commands before those for the HAL. -/
def headCommands (file : List Line) : List Command := [
  .set "OPENEMBER_THIRD_PARTY_MODE" (tpMode file) .string "Third-party source mode",
  .setProperty "OPENEMBER_THIRD_PARTY_MODE" ["FETCH", "VENDOR", "SYSTEM"],
  bundle file "OPENEMBER_THIRD_PARTY_BUNDLE_NNG" "Bundle: nng" (lit "CONFIG_OPENEMBER_THIRD_PARTY_BUNDLE_NNG"),
  bundle file "OPENEMBER_THIRD_PARTY_BUNDLE_LCM" "Bundle: lcm" (lit "CONFIG_OPENEMBER_THIRD_PARTY_BUNDLE_LCM"),
  bundle file "OPENEMBER_THIRD_PARTY_BUNDLE_ZENOHPICO" "Bundle: zenoh-pico"
    (lit "CONFIG_OPENEMBER_THIRD_PARTY_BUNDLE_ZENOHPICO"),
  bundle file "OPENEMBER_THIRD_PARTY_BUNDLE_YYJSON" "Bundle: yyjson"
    (lit "CONFIG_OPENEMBER_THIRD_PARTY_BUNDLE_YYJSON"),
  bundle file "OPENEMBER_THIRD_PARTY_BUNDLE_LIBYAML" "Bundle: libyaml"
    (lit "CONFIG_OPENEMBER_THIRD_PARTY_BUNDLE_LIBYAML"),
  bundle file "OPENEMBER_THIRD_PARTY_BUNDLE_NANOPB" "Bundle: nanopb"
    (lit "CONFIG_OPENEMBER_THIRD_PARTY_BUNDLE_NANOPB"),
  bundle file "OPENEMBER_THIRD_PARTY_BUNDLE_OPENEMBER_MSGS" "Bundle: openember-msgs"
    (lit "CONFIG_OPENEMBER_THIRD_PARTY_BUNDLE_OPENEMBER_MSGS"),
  library file "OPENEMBER_ENABLE_NNG" "Build and link nng" (lit "CONFIG_OPENEMBER_ENABLE_NNG"),
  library file "OPENEMBER_ENABLE_LCM" "Build and link lcm" (lit "CONFIG_OPENEMBER_ENABLE_LCM"),
  library file "OPENEMBER_ENABLE_ZENOHPICO" "Build and link zenoh-pico" (lit "CONFIG_OPENEMBER_ENABLE_ZENOHPICO"),
  library file "OPENEMBER_ENABLE_YYJSON" "Build and link yyjson" (lit "CONFIG_OPENEMBER_ENABLE_YYJSON"),
  library file "OPENEMBER_ENABLE_LIBYAML" "Build and link libyaml" (lit "CONFIG_OPENEMBER_ENABLE_LIBYAML"),
  .set "OPENEMBER_ENABLE_MSGS" (enableMsgs file).text .bool "Build and link openember-msgs Nanopb C bindings",
  .set "OPENEMBER_MSGS_SOURCE" (msgsSource file) .string "openember-msgs source: FETCH or LOCAL",
  .setProperty "OPENEMBER_MSGS_SOURCE" ["FETCH", "LOCAL"],
  .set "OPENEMBER_MSGS_REF" (msgsRef file) .string "openember-msgs git ref",
  .setProperty "OPENEMBER_MSGS_REF" ["main"],
  .set "OPENEMBER_MSGS_LOCAL_SOURCE" (msgsLocalSource file) .path "Absolute path to local openember-msgs checkout"]

/-- The commands of config.cmake, for the lines of .config. -/
def commands (file : List Line) : List Command :=
  headCommands file ++ halCommands file ++
    component file "OPENEMBER_ENABLE_EXAMPLES" "Build apps/examples" (lit "CONFIG_OPENEMBER_ENABLE_EXAMPLES") ++
    component file "OPENEMBER_ENABLE_CRYPTO" "Build components/crypto" (lit "CONFIG_OPENEMBER_ENABLE_CRYPTO") ++
    component file "OPENEMBER_ENABLE_LOGGING" "Build components/logging" (lit "CONFIG_OPENEMBER_ENABLE_LOGGING") ++
    component file "OPENEMBER_ENABLE_COMMON" "Build components/common" (lit "CONFIG_OPENEMBER_ENABLE_COMMON") ++
    component file "OPENEMBER_ENABLE_RUNTIME" "Build core/runtime" (lit "CONFIG_OPENEMBER_ENABLE_RUNTIME") ++
    component file "OPENEMBER_ENABLE_NETDEV" "Build components/netdev" (lit "CONFIG_OPENEMBER_ENABLE_NETDEV") ++
    component file "OPENEMBER_ENABLE_PPOOL" "Build components/ppool" (lit "CONFIG_OPENEMBER_ENABLE_PPOOL")

/-- The script, which stops where there is no .config. -/
def genconfig (config : Option (List Line)) : Option (List Command) := config.map commands

/-- The value that the command gives to a variable. -/
def Command.value (name : String) : Command → Option Line
  | set name' value _ _ => if name' = name then some value else none
  | setProperty _ _ => none

/-- The value of a variable after the commands; each `set` overwrites. -/
def valueOf (name : String) (commands : List Command) : Option Line :=
  commands.foldl (fun value command => (command.value name).or value) none

/-! ### The files of Kconfig -/

/-- The components that can be left out. -/
inductive Component
  | crypto
  | logging
  | common
  | runtime
  | netdev
  | ppool
  | examples
  | msgs
  | hal
  deriving DecidableEq, Repr

namespace Component

/-- The symbol of Kconfig. -/
def symbol : Component → Line
  | crypto => lit "CONFIG_OPENEMBER_ENABLE_CRYPTO"
  | logging => lit "CONFIG_OPENEMBER_ENABLE_LOGGING"
  | common => lit "CONFIG_OPENEMBER_ENABLE_COMMON"
  | runtime => lit "CONFIG_OPENEMBER_ENABLE_RUNTIME"
  | netdev => lit "CONFIG_OPENEMBER_ENABLE_NETDEV"
  | ppool => lit "CONFIG_OPENEMBER_ENABLE_PPOOL"
  | examples => lit "CONFIG_OPENEMBER_ENABLE_EXAMPLES"
  | msgs => lit "CONFIG_OPENEMBER_ENABLE_MSGS"
  | hal => lit "CONFIG_OPENEMBER_ENABLE_HAL"

/-- The variable of CMake. -/
def cacheVar : Component → String
  | crypto => "OPENEMBER_ENABLE_CRYPTO"
  | logging => "OPENEMBER_ENABLE_LOGGING"
  | common => "OPENEMBER_ENABLE_COMMON"
  | runtime => "OPENEMBER_ENABLE_RUNTIME"
  | netdev => "OPENEMBER_ENABLE_NETDEV"
  | ppool => "OPENEMBER_ENABLE_PPOOL"
  | examples => "OPENEMBER_ENABLE_EXAMPLES"
  | msgs => "OPENEMBER_ENABLE_MSGS"
  | hal => "OPENEMBER_ENABLE_HAL"

/-- `depends on`. -/
def dependsOn : Component → Option Component
  | netdev => some logging
  | examples => some hal
  | _ => none

/-- The line of a component that is y. -/
def isSet (c : Component) : Line := c.symbol ++ lit "=y"

/-- The line of a component that is n. -/
def isNotSet (c : Component) : Line := lit "# " ++ (c.symbol ++ lit " is not set")

/-- Everything that the component depends on is set. -/
def Visible (lines : List Line) (c : Component) : Prop := ∀ d ∈ c.dependsOn, d.isSet ∈ lines

instance (lines : List Line) (c : Component) : Decidable (c.Visible lines) :=
  inferInstanceAs (Decidable (∀ d ∈ c.dependsOn, d.isSet ∈ lines))

end Component

/-- A file that Kconfig writes: each visible component has one of its two lines, and no other has one. -/
structure DotConfig where
  lines : List Line
  assigned : ∀ c : Component, ∀ line ∈ lines, c.symbol ++ lit "=" <+: line → line = c.isSet
  visible : ∀ c : Component, c.Visible lines → (c.isSet ∈ lines ↔ c.isNotSet ∉ lines)
  unmet : ∀ c : Component, ¬c.Visible lines → c.isSet ∉ lines ∧ c.isNotSet ∉ lines

/-- Each component is built as it is recorded, and none without what it depends on. -/
structure Faithful (config : DotConfig) (commands : List Command) : Prop where
  on : ∀ c : Component, c.isSet ∈ config.lines → valueOf c.cacheVar commands = some (lit "ON")
  off : ∀ c : Component, c.isNotSet ∈ config.lines → valueOf c.cacheVar commands = some (lit "OFF")
  netdev : Component.logging.isNotSet ∈ config.lines →
    valueOf Component.netdev.cacheVar commands ≠ some (lit "ON")

/-! ### What the script makes of them -/

namespace Component

/-- How the script finds whether a component is built. -/
def enabled (file : List Line) : Component → Switch
  | hal => halEnabled file
  | msgs => enableMsgs file
  | c => onoffDefaultOn file c.symbol

theorem component_eq (file : List Line) (name doc : String) (sym : Line) :
    component file name doc sym = [.set name (onoffDefaultOn file sym).text .bool doc] := by
  rw [component]
  cases onoffDefaultOn file sym <;> rfl

theorem halCommands_eq (file : List Line) : ∃ alsa libusb, halCommands file = [
    .set "OPENEMBER_ENABLE_HAL" (halEnabled file).text .bool "Build platform HAL (emberlite_hal)",
    .set "OPENEMBER_HAL_ALSA" alsa .string "HAL ALSA: AUTO|ON|OFF",
    .setProperty "OPENEMBER_HAL_ALSA" ["AUTO", "ON", "OFF"],
    .set "OPENEMBER_HAL_LIBUSB" libusb .string "HAL libusb: AUTO|ON|OFF",
    .setProperty "OPENEMBER_HAL_LIBUSB" ["AUTO", "ON", "OFF"]] := by
  rw [halCommands]
  cases halEnabled file with
  | on => exact ⟨_, _, rfl⟩
  | off => exact ⟨_, _, rfl⟩

theorem valueOf_commands (file : List Line) (c : Component) :
    valueOf c.cacheVar (commands file) = some (c.enabled file).text := by
  obtain ⟨alsa, libusb, hhal⟩ := halCommands_eq file
  cases c <;> simp [valueOf, commands, headCommands, hhal, component_eq, bundle, library, Command.value, cacheVar,
    enabled, symbol]

end Component

section Config
variable {pattern : Line} {lines : List Line} (config : DotConfig) (c : Component)

theorem grepStart_iff : grepStart pattern lines = true ↔ ∃ line ∈ lines, pattern <+: line := by
  simp [grepStart]

theorem grep_iff : grep pattern lines = true ↔ ∃ line ∈ lines, pattern <:+: line := by
  simp [grep]

theorem onoff_eq : onoff config.lines c.symbol = .on ↔ c.isSet ∈ config.lines := by
  have hfound : grepStart (c.symbol ++ lit "=y") config.lines = true ↔ c.isSet ∈ config.lines := by
    rw [grepStart_iff]
    constructor
    · rintro ⟨line, hline, hstart⟩
      have hassigned : c.symbol ++ lit "=" <+: line := by
        refine List.IsPrefix.trans ⟨lit "y", ?_⟩ hstart
        rw [List.append_assoc]
        rfl
      exact config.assigned c line hline hassigned ▸ hline
    · exact fun hset => ⟨c.isSet, hset, List.prefix_rfl⟩
  rw [onoff, ← hfound]
  split
  · case _ h => exact iff_of_true rfl h
  · case _ h => exact iff_of_false nofun h

/-- A symbol that is assigned at all is y. -/
theorem onoff_of_assigned (h : grepStart (c.symbol ++ lit "=") config.lines = true) :
    onoff config.lines c.symbol = .on := by
  obtain ⟨line, hline, hstart⟩ := grepStart_iff.mp h
  exact (onoff_eq config c).mpr (config.assigned c line hline hstart ▸ hline)

theorem onoffDefaultOn_eq : onoffDefaultOn config.lines c.symbol = .on := by
  rw [onoffDefaultOn]
  split
  · case _ h => exact onoff_of_assigned config c h
  · rfl

theorem enableMsgs_eq : enableMsgs config.lines = .on := by
  rw [enableMsgs]
  split
  · rfl
  · case _ h =>
    have hpattern : lit "CONFIG_OPENEMBER_ENABLE_MSGS=" = Component.msgs.symbol ++ lit "=" := by decide +kernel
    rw [Bool.not_eq_true', Bool.not_eq_false, hpattern] at h
    exact onoff_of_assigned config .msgs h

/-- The symbol of the HAL depends on nothing, so that one of its two lines is there. -/
theorem grep_hal : grep Component.hal.symbol config.lines = true := by
  have hrecorded := config.visible .hal nofun
  rw [grep_iff]
  by_cases hset : Component.hal.isSet ∈ config.lines
  · exact ⟨_, hset, (List.prefix_append _ _).isInfix⟩
  · have hnot : Component.hal.isNotSet ∈ config.lines := by
      by_contra hnone
      exact hset (hrecorded.mpr hnone)
    exact ⟨_, hnot, (List.prefix_append _ _).isInfix.trans (List.suffix_append _ _).isInfix⟩

theorem halEnabled_eq : halEnabled config.lines = .on ↔ Component.hal.isSet ∈ config.lines := by
  have hnamed : (!grep Component.hal.symbol config.lines) ≠ true := by
    rw [grep_hal]
    exact Bool.false_ne_true
  have hhal : halEnabled config.lines = onoff config.lines Component.hal.symbol := if_neg hnamed
  rw [hhal, onoff_eq]

/-- Every component but the HAL is on, whatever the file records. -/
theorem enabled_eq_on : c.enabled config.lines = .on ↔ (c = .hal → c.isSet ∈ config.lines) := by
  cases c with
  | hal => simp only [Component.enabled, halEnabled_eq, forall_const]
  | msgs => exact iff_of_true (enableMsgs_eq config) nofun
  | _ => exact iff_of_true (onoffDefaultOn_eq config _) nofun

variable {config c}

theorem not_isNotSet (h : c.isSet ∈ config.lines) : c.isNotSet ∉ config.lines := by
  by_cases hvisible : c.Visible config.lines
  · exact (config.visible c hvisible).mp h
  · exact (config.unmet c hvisible).2

theorem text_eq_on {switch : Switch} : switch.text = lit "ON" ↔ switch = .on := by
  cases switch <;> decide +kernel

theorem text_eq_off {switch : Switch} : switch.text = lit "OFF" ↔ ¬switch = .on := by
  cases switch <;> decide +kernel

end Config

/-- The script builds what the file records if and only if no component but the HAL is recorded as not set. -/
theorem faithful_iff (config : DotConfig) : (∃ commands, genconfig (some config.lines) = some commands ∧
    Faithful config commands) ↔ ∀ c : Component, c.isNotSet ∈ config.lines → c = .hal := by
  have hon : ∀ c : Component, valueOf c.cacheVar (commands config.lines) = some (lit "ON") ↔
      (c = .hal → c.isSet ∈ config.lines) := fun c => by
    rw [c.valueOf_commands, Option.some_inj, text_eq_on, enabled_eq_on]
  have hoff : ∀ c : Component, valueOf c.cacheVar (commands config.lines) = some (lit "OFF") ↔
      ¬(c = .hal → c.isSet ∈ config.lines) := fun c => by
    rw [c.valueOf_commands, Option.some_inj, text_eq_off, enabled_eq_on]
  constructor
  · rintro ⟨_, hscript, hfaithful⟩ c hnot
    cases hscript
    by_contra hother
    exact (hoff c).mp (hfaithful.off c hnot) fun hhal => absurd hhal hother
  · intro honly
    refine ⟨_, rfl, fun c hset => (hon c).mpr fun _ => hset, fun c hnot => (hoff c).mpr fun himp => ?_, fun hnot => ?_⟩
    · exact not_isNotSet (himp (honly c hnot)) hnot
    · exact absurd (honly _ hnot) nofun

/-- What Kconfig writes where nothing but the cryptography is left out. -/
def withoutCrypto : DotConfig where
  lines := [
    lit "# CONFIG_OPENEMBER_ENABLE_CRYPTO is not set",
    lit "CONFIG_OPENEMBER_ENABLE_LOGGING=y",
    lit "CONFIG_OPENEMBER_ENABLE_COMMON=y",
    lit "CONFIG_OPENEMBER_ENABLE_RUNTIME=y",
    lit "CONFIG_OPENEMBER_ENABLE_NETDEV=y",
    lit "CONFIG_OPENEMBER_ENABLE_PPOOL=y",
    lit "CONFIG_OPENEMBER_ENABLE_EXAMPLES=y",
    lit "CONFIG_OPENEMBER_ENABLE_MSGS=y",
    lit "CONFIG_OPENEMBER_ENABLE_HAL=y"]
  assigned := fun c => by cases c <;> decide +kernel
  visible := fun c => by cases c <;> decide +kernel
  unmet := fun c => by cases c <;> decide +kernel

/-- The cryptography is built where it is left out. -/
theorem left_out_built : ¬∀ config : DotConfig, ∃ commands, genconfig (some config.lines) = some commands ∧
    Faithful config commands := by
  intro hclaim
  obtain ⟨_, hscript, hfaithful⟩ := hclaim withoutCrypto
  cases hscript
  have hoff := hfaithful.off .crypto (by decide +kernel)
  rw [Component.valueOf_commands, Option.some_inj, text_eq_off, enabled_eq_on] at hoff
  exact hoff nofun

end Genconfig
end Scripts
end Emberlite
