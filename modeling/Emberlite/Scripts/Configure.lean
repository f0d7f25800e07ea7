import Emberlite.Scripts.Genconfig
import Mathlib.Logic.Function.Basic

/-! What `cmake -S -B` makes of config.cmake and of the cache: the cache variables that CMakeLists.txt and
    cmake/Dependencies.cmake set, and the values with which they stop. What they look for on the machine, a package, an
    archive or a file, is not decided here. -/

namespace Emberlite
namespace Scripts
namespace Configure
open CString Genconfig

/-- The values of the cache variables. -/
abbrev Cache : Type := String → Option Line

/-! ### The source -/

/-- A small letter made a capital one. -/
def upper (c : UInt8) : UInt8 := if 97 ≤ c ∧ c ≤ 122 then c - 32 else c

/-- `if(...)` of a variable. -/
def holds : Option Line → Bool
  | none => false
  | some value =>
    !([lit "", lit "0", lit "OFF", lit "NO", lit "FALSE", lit "N", lit "IGNORE"].contains (value.map upper) ||
      value == lit "NOTFOUND" || (lit "-NOTFOUND").isSuffixOf value)

/-- `if(IS_ABSOLUTE ...)`. -/
def isAbsolute (path : Line) : Bool := path.head? == some 47 || path.head? == some 126

/-- `include(config.cmake OPTIONAL)`, whose commands all force their values. These are read as they are written: there is no
    quote, backslash or dollar sign in them. -/
def includeConfig (commands : List Command) (cache : Cache) : Cache := fun name => (valueOf name commands).or (cache name)

/-- `if(NOT DEFINED name) set(name value CACHE ..)`, or a `set` that does not force its value. -/
def setDefault (cache : Cache) (entry : String × String) : Cache :=
  if cache entry.1 = none then Function.update cache entry.1 (some (lit entry.2)) else cache

/-- Those of Dependencies.cmake and OpenEmberThirdPartyBundleDefaults.cmake, but for versions, addresses and the directory
    of the archives. -/
def dependencyDefaults : List (String × String) :=
  ("OPENEMBER_THIRD_PARTY_MODE", "FETCH") ::
  ["ZLOG", "CJSON", "NLOHMANN_JSON", "SQLITE", "MONGOOSE", "YAMLCPP", "ASIO", "SPDLOG", "PAHO", "LIBZMQ", "NNG", "LCM",
    "ZENOHPICO", "YYJSON", "LIBYAML", "CPPZMQ", "RUCKIG", "NANOPB", "OPENEMBER_MSGS"].map
    (fun bundle => ("OPENEMBER_THIRD_PARTY_BUNDLE_" ++ bundle, "ON")) ++ [
  ("OPENEMBER_MSGS_SOURCE", "FETCH"), ("OPENEMBER_MSGS_REF", "main"), ("OPENEMBER_NNG_LOCAL_SOURCE", ""),
  ("OPENEMBER_LCM_LOCAL_SOURCE", ""), ("OPENEMBER_ZENOHPICO_LOCAL_SOURCE", ""), ("OPENEMBER_YYJSON_LOCAL_SOURCE", ""),
  ("OPENEMBER_LIBYAML_LOCAL_SOURCE", ""), ("OPENEMBER_NANOPB_LOCAL_SOURCE", ""), ("OPENEMBER_MSGS_LOCAL_SOURCE", ""),
  ("OPENEMBER_PROTOBUF_PYTHON", "")]

/-- Those of CMakeLists.txt for the third-party libraries and the HAL. -/
def libraryDefaults : List (String × String) := [
  ("OPENEMBER_ENABLE_NNG", "OFF"), ("OPENEMBER_ENABLE_LCM", "OFF"), ("OPENEMBER_ENABLE_ZENOHPICO", "OFF"),
  ("OPENEMBER_ENABLE_YYJSON", "OFF"), ("OPENEMBER_ENABLE_LIBYAML", "OFF"), ("OPENEMBER_ENABLE_MSGS", "ON"),
  ("OPENEMBER_ENABLE_HAL", "ON")]

/-- Those of CMakeLists.txt where the HAL is built. -/
def halDefaults : List (String × String) := [("OPENEMBER_HAL_ALSA", "AUTO"), ("OPENEMBER_HAL_LIBUSB", "AUTO")]

/-- Those of CMakeLists.txt for the components. -/
def componentDefaults : List (String × String) := [
  ("OPENEMBER_ENABLE_EXAMPLES", "ON"), ("OPENEMBER_ENABLE_CRYPTO", "ON"), ("OPENEMBER_ENABLE_LOGGING", "ON"),
  ("OPENEMBER_ENABLE_COMMON", "ON"), ("OPENEMBER_ENABLE_RUNTIME", "ON"), ("OPENEMBER_ENABLE_NETDEV", "ON"),
  ("OPENEMBER_ENABLE_PPOOL", "ON")]

/-- The cache when CMakeLists.txt has been read. -/
def lists (commands : List Command) (cache : Cache) : Cache :=
  let cache := dependencyDefaults.foldl setDefault (includeConfig commands cache)
  let cache := libraryDefaults.foldl setDefault cache
  let cache := if holds (cache "OPENEMBER_ENABLE_HAL") then halDefaults.foldl setDefault cache else cache
  componentDefaults.foldl setDefault cache

/-- The libraries of third parties that CMakeLists.txt resolves. -/
inductive Library where
  | nng
  | lcm
  | zenohpico
  | yyjson
  | libyaml
  deriving DecidableEq, Repr

namespace Library

/-- All of them. -/
def all : List Library := [nng, lcm, zenohpico, yyjson, libyaml]

/-- The variable that turns a library on. -/
def enableVar : Library → String
  | nng => "OPENEMBER_ENABLE_NNG"
  | lcm => "OPENEMBER_ENABLE_LCM"
  | zenohpico => "OPENEMBER_ENABLE_ZENOHPICO"
  | yyjson => "OPENEMBER_ENABLE_YYJSON"
  | libyaml => "OPENEMBER_ENABLE_LIBYAML"

/-- The variable that allows its source archive. -/
def bundleVar : Library → String
  | nng => "OPENEMBER_THIRD_PARTY_BUNDLE_NNG"
  | lcm => "OPENEMBER_THIRD_PARTY_BUNDLE_LCM"
  | zenohpico => "OPENEMBER_THIRD_PARTY_BUNDLE_ZENOHPICO"
  | yyjson => "OPENEMBER_THIRD_PARTY_BUNDLE_YYJSON"
  | libyaml => "OPENEMBER_THIRD_PARTY_BUNDLE_LIBYAML"

/-- The symbol of Kconfig that turns a library on. -/
def enableSym : Library → Line
  | nng => lit "CONFIG_OPENEMBER_ENABLE_NNG"
  | lcm => lit "CONFIG_OPENEMBER_ENABLE_LCM"
  | zenohpico => lit "CONFIG_OPENEMBER_ENABLE_ZENOHPICO"
  | yyjson => lit "CONFIG_OPENEMBER_ENABLE_YYJSON"
  | libyaml => lit "CONFIG_OPENEMBER_ENABLE_LIBYAML"

/-- The symbol of Kconfig that allows its source archive. -/
def bundleSym : Library → Line
  | nng => lit "CONFIG_OPENEMBER_THIRD_PARTY_BUNDLE_NNG"
  | lcm => lit "CONFIG_OPENEMBER_THIRD_PARTY_BUNDLE_LCM"
  | zenohpico => lit "CONFIG_OPENEMBER_THIRD_PARTY_BUNDLE_ZENOHPICO"
  | yyjson => lit "CONFIG_OPENEMBER_THIRD_PARTY_BUNDLE_YYJSON"
  | libyaml => lit "CONFIG_OPENEMBER_THIRD_PARTY_BUNDLE_LIBYAML"

end Library

/-- `OPENEMBER_THIRD_PARTY_MODE STREQUAL "FETCH" OR OPENEMBER_THIRD_PARTY_MODE STREQUAL "VENDOR"`. -/
def fromArchive (cache : Cache) : Bool :=
  cache "OPENEMBER_THIRD_PARTY_MODE" == some (lit "FETCH") || cache "OPENEMBER_THIRD_PARTY_MODE" == some (lit "VENDOR")

/-- `openember_transport_resolve_nng` and the four like it: no library comes from an archive that is not allowed. -/
def resolve (cache : Cache) (library : Library) : Bool := !fromArchive cache || holds (cache library.bundleVar)

/-- `openember_prepare_openember_msgs_source`. -/
def prepareOpenemberMsgsSource (cache : Cache) : Bool :=
  let source := cache "OPENEMBER_MSGS_SOURCE"
  let path := cache "OPENEMBER_MSGS_LOCAL_SOURCE"
  (source == some (lit "FETCH") || source == some (lit "LOCAL")) &&
    (source != some (lit "LOCAL") || holds path && isAbsolute (path.getD []))

/-- `openember_protocol_resolve_openember_msgs`. -/
def resolveOpenemberMsgs (cache : Cache) : Bool :=
  let source := cache "OPENEMBER_MSGS_SOURCE"
  !(cache "OPENEMBER_THIRD_PARTY_MODE" == some (lit "SYSTEM") && source != some (lit "LOCAL")) &&
    (!fromArchive cache ||
      (source != some (lit "FETCH") || holds (cache "OPENEMBER_THIRD_PARTY_BUNDLE_OPENEMBER_MSGS")) &&
        (holds (cache "OPENEMBER_THIRD_PARTY_BUNDLE_NANOPB") || holds (cache "OPENEMBER_NANOPB_LOCAL_SOURCE"))) &&
    prepareOpenemberMsgsSource cache

/-- No check on a value is a fatal error. -/
def accepted (cache : Cache) : Bool :=
  (!holds (cache "OPENEMBER_ENABLE_NETDEV") || holds (cache "OPENEMBER_ENABLE_LOGGING")) &&
    Library.all.all (fun library => !holds (cache library.enableVar) || resolve cache library) &&
    (!holds (cache "OPENEMBER_ENABLE_MSGS") || resolveOpenemberMsgs cache) &&
    (!holds (cache "OPENEMBER_ENABLE_EXAMPLES") || holds (cache "OPENEMBER_ENABLE_HAL"))

/-! ### What the commands of config.cmake force -/

section Lists
variable {cache : Cache} {cmds : List Command} {name : String} {value : Line}

theorem setDefault_of_some (entry : String × String) (h : cache name = some value) :
    setDefault cache entry name = some value := by
  rw [setDefault]
  split
  · rename_i hnone
    rw [Function.update_of_ne]
    · exact h
    · rintro rfl
      cases hnone.symm.trans h
  · exact h

theorem defaults_of_some (entries : List (String × String)) (h : cache name = some value) :
    entries.foldl setDefault cache name = some value := by
  induction entries generalizing cache with
  | nil => exact h
  | cons entry entries ih => exact ih (setDefault_of_some entry h)

theorem lists_of_included (h : includeConfig cmds cache name = some value) : lists cmds cache name = some value := by
  have hlibrary := defaults_of_some libraryDefaults (defaults_of_some dependencyDefaults h)
  simp only [lists]
  apply defaults_of_some
  split
  · exact defaults_of_some _ hlibrary
  · exact hlibrary

/-- What config.cmake sets has this value, whatever the cache holds. -/
theorem lists_of_value (cache : Cache) (h : valueOf name cmds = some value) : lists cmds cache name = some value :=
  lists_of_included (by rw [includeConfig, h, Option.some_or])

/-- A default that is no yes changes nothing in the eyes of `if`. -/
theorem holds_setDefault {entry : String × String} (h : entry.1 = name → holds (some (lit entry.2)) = false) :
    holds (setDefault cache entry name) = holds (cache name) := by
  rw [setDefault]
  split
  · rename_i hnone
    by_cases hname : entry.1 = name
    · subst hname
      rw [Function.update_self, h rfl, hnone, holds]
    · rw [Function.update_of_ne (Ne.symm hname)]
  · rfl

theorem holds_defaults {entries : List (String × String)}
    (h : ∀ entry ∈ entries, entry.1 = name → holds (some (lit entry.2)) = false) :
    holds (entries.foldl setDefault cache name) = holds (cache name) := by
  induction entries generalizing cache with
  | nil => rfl
  | cons entry entries ih =>
    obtain ⟨hentry, hrest⟩ := List.forall_mem_cons.mp h
    rw [List.foldl_cons, ih hrest, holds_setDefault hentry]

end Lists

/-! ### The files of Kconfig -/

theorem holds_text (switch : Switch) : holds (some switch.text) = true ↔ switch = .on := by
  cases switch <;> decide +kernel

/-- An `awk` program prints what it starts with or what one of its rules gives. -/
theorem awk_mem (initial : Line) (rules : List (Line × Line)) (file : List Line) :
    awk initial rules file ∈ initial :: rules.map Prod.snd := by
  refine List.foldlRecOn file _ List.mem_cons_self fun v hv line _ => ?_
  refine List.foldlRecOn rules _ hv fun v hv rule hrule => ?_
  split
  · exact List.mem_cons_of_mem _ (List.mem_map_of_mem hrule)
  · exact hv

theorem tpMode_cases (file : List Line) :
    tpMode file = lit "FETCH" ∨ tpMode file = lit "VENDOR" ∨ tpMode file = lit "SYSTEM" := by
  have hmem := awk_mem (lit "FETCH") [(lit "CONFIG_OPENEMBER_TP_MODE_VENDOR=y", lit "VENDOR"),
    (lit "CONFIG_OPENEMBER_TP_MODE_SYSTEM=y", lit "SYSTEM")] file
  simp only [List.map_cons, List.map_nil, List.mem_cons, List.not_mem_nil, or_false] at hmem
  exact hmem

theorem msgsSource_cases (file : List Line) : msgsSource file = lit "FETCH" ∨ msgsSource file = lit "LOCAL" := by
  have hmem := awk_mem (lit "FETCH") [(lit "CONFIG_OPENEMBER_MSGS_SOURCE_LOCAL=y", lit "LOCAL"),
    (lit "CONFIG_OPENEMBER_MSGS_SOURCE_FETCH=y", lit "FETCH")] file
  simp only [List.map_cons, List.map_nil, List.mem_cons, List.not_mem_nil, or_false] at hmem
  rcases hmem with h | h | h
  · exact .inl h
  · exact .inr h
  · exact .inl h

section Values
variable (file : List Line)

theorem valueOf_enable (library : Library) :
    valueOf library.enableVar (commands file) = some (onoff file library.enableSym).text := by
  obtain ⟨alsa, libusb, hhal⟩ := Component.halCommands_eq file
  cases library <;> simp [valueOf, commands, headCommands, hhal, Component.component_eq, bundle, Genconfig.library,
    Command.value, Library.enableVar, Library.enableSym]

theorem valueOf_bundle (library : Library) :
    valueOf library.bundleVar (commands file) = some (onoffWhereNamed file library.bundleSym).text := by
  obtain ⟨alsa, libusb, hhal⟩ := Component.halCommands_eq file
  cases library <;> simp [valueOf, commands, headCommands, hhal, Component.component_eq, bundle, Genconfig.library,
    Command.value, Library.bundleVar, Library.bundleSym]

/-- The values of the variables that say where sources come from. -/
theorem valueOf_sources :
    valueOf "OPENEMBER_THIRD_PARTY_MODE" (commands file) = some (tpMode file) ∧
    valueOf "OPENEMBER_THIRD_PARTY_BUNDLE_NANOPB" (commands file) =
      some (onoffWhereNamed file (lit "CONFIG_OPENEMBER_THIRD_PARTY_BUNDLE_NANOPB")).text ∧
    valueOf "OPENEMBER_THIRD_PARTY_BUNDLE_OPENEMBER_MSGS" (commands file) =
      some (onoffWhereNamed file (lit "CONFIG_OPENEMBER_THIRD_PARTY_BUNDLE_OPENEMBER_MSGS")).text ∧
    valueOf "OPENEMBER_MSGS_SOURCE" (commands file) = some (msgsSource file) ∧
    valueOf "OPENEMBER_MSGS_LOCAL_SOURCE" (commands file) = some (msgsLocalSource file) ∧
    valueOf "OPENEMBER_NANOPB_LOCAL_SOURCE" (commands file) = none := by
  obtain ⟨alsa, libusb, hhal⟩ := Component.halCommands_eq file
  refine ⟨?_, ?_, ?_, ?_, ?_, ?_⟩ <;> simp [valueOf, commands, headCommands, hhal, Component.component_eq, bundle,
    Genconfig.library, Command.value]

end Values

/-- What CMakeLists.txt asks of a file of Kconfig about the sources of third parties, and of the variable with the
    directory of nanopb. -/
structure Sourced (file : List Line) (nanopb : Option Line) : Prop where
  libraries : ∀ library : Library, onoff file library.enableSym = .on → tpMode file ≠ lit "SYSTEM" →
    onoffWhereNamed file library.bundleSym = .on
  system : tpMode file = lit "SYSTEM" → msgsSource file = lit "LOCAL"
  msgs : tpMode file ≠ lit "SYSTEM" → msgsSource file = lit "FETCH" →
    onoffWhereNamed file (lit "CONFIG_OPENEMBER_THIRD_PARTY_BUNDLE_OPENEMBER_MSGS") = .on
  nanopb : tpMode file ≠ lit "SYSTEM" →
    onoffWhereNamed file (lit "CONFIG_OPENEMBER_THIRD_PARTY_BUNDLE_NANOPB") = .on ∨ holds nanopb = true
  path : msgsSource file = lit "LOCAL" →
    holds (some (msgsLocalSource file)) = true ∧ isAbsolute (msgsLocalSource file) = true

section Accepted
variable (config : DotConfig) (cache : Cache)

/-- What the variables of the components and of openember-msgs are in the eyes of `if`. -/
theorem holds_component (c : Component) :
    holds (lists (commands config.lines) cache c.cacheVar) = true ↔ (c = .hal → c.isSet ∈ config.lines) := by
  rw [lists_of_value cache (Component.valueOf_commands config.lines c), holds_text, enabled_eq_on]

theorem holds_nanopb : holds (lists (commands config.lines) cache "OPENEMBER_NANOPB_LOCAL_SOURCE") =
    holds (cache "OPENEMBER_NANOPB_LOCAL_SOURCE") := by
  have hincluded : includeConfig (commands config.lines) cache "OPENEMBER_NANOPB_LOCAL_SOURCE" =
      cache "OPENEMBER_NANOPB_LOCAL_SOURCE" := by
    rw [includeConfig, (valueOf_sources config.lines).2.2.2.2.2, Option.none_or]
  rw [← hincluded, lists, holds_defaults (by decide +kernel)]
  split
  · rw [holds_defaults (by decide +kernel), holds_defaults (by decide +kernel), holds_defaults (by decide +kernel)]
  · rw [holds_defaults (by decide +kernel), holds_defaults (by decide +kernel)]

theorem resolve_iff (library : Library) :
    (!holds (lists (commands config.lines) cache library.enableVar) ||
        resolve (lists (commands config.lines) cache) library) = true ↔
      (onoff config.lines library.enableSym = .on → tpMode config.lines ≠ lit "SYSTEM" →
        onoffWhereNamed config.lines library.bundleSym = .on) := by
  have hmode := lists_of_value cache (valueOf_sources config.lines).1
  have hbundle := holds_text (onoffWhereNamed config.lines library.bundleSym)
  rw [resolve, fromArchive, lists_of_value cache (valueOf_enable config.lines library),
    lists_of_value cache (valueOf_bundle config.lines library), hmode, Bool.or_eq_true, Bool.not_eq_true',
    ← Bool.not_eq_true, holds_text, Bool.or_eq_true, hbundle, or_iff_not_imp_left, not_not]
  refine imp_congr_right fun _ => ?_
  rw [or_iff_not_imp_left]
  refine imp_congr ?_ Iff.rfl
  rcases tpMode_cases config.lines with h | h | h <;> rw [h] <;> decide +kernel

theorem resolveOpenemberMsgs_iff : resolveOpenemberMsgs (lists (commands config.lines) cache) = true ↔
    (tpMode config.lines = lit "SYSTEM" → msgsSource config.lines = lit "LOCAL") ∧
    (tpMode config.lines ≠ lit "SYSTEM" →
      (msgsSource config.lines = lit "FETCH" →
        onoffWhereNamed config.lines (lit "CONFIG_OPENEMBER_THIRD_PARTY_BUNDLE_OPENEMBER_MSGS") = .on) ∧
      (onoffWhereNamed config.lines (lit "CONFIG_OPENEMBER_THIRD_PARTY_BUNDLE_NANOPB") = .on ∨
        holds (cache "OPENEMBER_NANOPB_LOCAL_SOURCE") = true)) ∧
    (msgsSource config.lines = lit "LOCAL" →
      holds (some (msgsLocalSource config.lines)) = true ∧ isAbsolute (msgsLocalSource config.lines) = true) := by
  obtain ⟨hmode, hnanopb, hmsgs, hsource, hpath, -⟩ := valueOf_sources config.lines
  rw [resolveOpenemberMsgs, prepareOpenemberMsgsSource, fromArchive, lists_of_value cache hmode,
    lists_of_value cache hnanopb, lists_of_value cache hmsgs, lists_of_value cache hsource, lists_of_value cache hpath,
    holds_nanopb]
  have hfetch : (lit "FETCH" : Line) ≠ lit "LOCAL" := by decide +kernel
  have hfetch' : (lit "FETCH" : Line) ≠ lit "SYSTEM" := by decide +kernel
  have hvendor : (lit "VENDOR" : Line) ≠ lit "SYSTEM" := by decide +kernel
  have hsystem : (lit "SYSTEM" : Line) ≠ lit "VENDOR" := by decide +kernel
  rcases tpMode_cases config.lines with htp | htp | htp <;>
    rcases msgsSource_cases config.lines with hsrc | hsrc <;>
      simp [htp, hsrc, hfetch, hfetch', hvendor, hsystem, hfetch.symm, hfetch'.symm, holds_text]

/-- CMakeLists.txt takes what the script makes of a file of Kconfig exactly if the HAL is set in it and the sources of
    third parties are at hand. -/
theorem accepted_iff : accepted (lists (commands config.lines) cache) = true ↔
    Component.hal.isSet ∈ config.lines ∧ Sourced config.lines (cache "OPENEMBER_NANOPB_LOCAL_SOURCE") := by
  have hnetdev := holds_component config cache .netdev
  have hlogging := holds_component config cache .logging
  have hexamples := holds_component config cache .examples
  have hmsgs := holds_component config cache .msgs
  have hhal := holds_component config cache .hal
  simp only [Component.cacheVar, reduceCtorEq, false_implies, iff_true, forall_const]
    at hnetdev hlogging hexamples hmsgs hhal
  have hall : Library.all.all (fun library => !holds (lists (commands config.lines) cache library.enableVar) ||
      resolve (lists (commands config.lines) cache) library) = true ↔
      ∀ library : Library, onoff config.lines library.enableSym = .on → tpMode config.lines ≠ lit "SYSTEM" →
        onoffWhereNamed config.lines library.bundleSym = .on := by
    rw [List.all_eq_true]
    refine forall_congr' fun library => ?_
    rw [resolve_iff, imp_iff_right]
    cases library <;> simp [Library.all]
  rw [accepted, hnetdev, hlogging, hexamples, hmsgs]
  simp only [Bool.not_true, Bool.false_or, Bool.true_and, Bool.and_eq_true, hall, hhal, resolveOpenemberMsgs_iff]
  constructor
  · rintro ⟨⟨hlibraries, hsystem, harchive, hpath⟩, hset⟩
    exact ⟨hset, hlibraries, hsystem, fun h => (harchive h).1, fun h => (harchive h).2, hpath⟩
  · rintro ⟨hset, hsourced⟩
    exact ⟨⟨hsourced.libraries, hsourced.system, fun h => ⟨hsourced.msgs h, hsourced.nanopb h⟩, hsourced.path⟩, hset⟩

end Accepted

end Configure
end Scripts
end Emberlite
