import Emberlite.Lib.History
import Emberlite.Scripts.Configure

/-! The commands of `scripts/ember` on a build directory, from .config over config.cmake and the cache of CMake to what is
    compiled, with what each step leaves where it fails. -/

namespace Emberlite
namespace Scripts
namespace Pipeline
open CString Genconfig Configure History

/-- config.cmake: its commands, and whether a line behind them is cut off, so that CMake cannot read it. -/
structure ConfigCmake where
  commands : List Command
  torn : Bool

/-- A build directory. -/
structure Dir where
  config : Option (List Line)
  cmake : Option ConfigCmake
  cache : Cache
  -- The values with which it was compiled last.
  compiled : Option Cache

/-- Before the first command. -/
def Dir.empty : Dir := ⟨none, none, fun _ => none, none⟩

/-! ### What comes of the steps -/

/-- What comes of menuconfig.sh. -/
inductive Menu where
  -- Whatever .config there is then, if any.
  | fails (config : Option (List Line))
  -- The user leaves the menu and does not save.
  | left
  | saved (config : List Line)

/-- How far genconfig.sh comes with config.cmake, which it has emptied first. -/
inductive Ending where
  | whole
  -- It is cut off behind so many commands, or in the line behind them.
  | cut (count : Nat) (torn : Bool)

/-- The file that it leaves. -/
def Ending.file (commands : List Command) : Ending → ConfigCmake
  | .whole => ⟨commands, false⟩
  | .cut count torn => ⟨commands.take count, torn⟩

/-- What `cmake -S -B` finds on the machine. -/
inductive Machine where
  | ready
  -- Something is missing, whatever the cache is then.
  | fails (cache : Cache)

/-- What comes of the steps of a command. -/
structure Outcome where
  menu : Menu
  -- Nothing where genconfig.sh stops before it opens config.cmake.
  genconfig : Option Ending
  machine : Machine
  compile : Bool

/-- What comes of `rm -rf`. -/
inductive Removal where
  | succeeds
  -- What it has not come to.
  | fails (config cmake cache compiled : Bool)

/-! ### The steps of the commands, each of which the next needs -/

/-- `menuconfig.sh`. -/
def menuconfigSh : Menu → Dir → Except Dir Dir
  | .fails config, dir => .error { dir with config := config }
  | .left, dir => .ok dir
  | .saved config, dir => .ok { dir with config := some config }

/-- The script succeeds if it comes to its end. -/
def Ending.exit : Ending → Dir → Except Dir Dir
  | .whole, dir => .ok dir
  | .cut _ _, dir => .error dir

/-- `genconfig.sh`. -/
def genconfigSh (ending : Option Ending) (dir : Dir) : Except Dir Dir :=
  match genconfig dir.config, ending with
  | some commands, some ending => ending.exit { dir with cmake := some (ending.file commands) }
  | _, _ => .error dir

/-- The commands of config.cmake, where there is one. -/
def Dir.commands (dir : Dir) : List Command := (dir.cmake.map ConfigCmake.commands).getD []

/-- `cmake -S -B`. -/
def cmakeConfigure : Machine → Dir → Except Dir Dir
  | .ready, dir =>
    if dir.cmake.any ConfigCmake.torn then .error dir
    else
      let cache := lists dir.commands dir.cache
      if accepted cache then .ok { dir with cache := cache } else .error { dir with cache := cache }
  | .fails cache, dir => .error { dir with cache := cache }

/-- `cmake --build`. -/
def cmakeBuild : Bool → Dir → Except Dir Dir
  | true, dir => .ok { dir with compiled := some dir.cache }
  | false, dir => .error dir

/-- `run_menuconfig_and_genconfig`. -/
def runMenuconfigAndGenconfig (o : Outcome) (dir : Dir) : Except Dir Dir := do
  let dir ← menuconfigSh o.menu dir
  genconfigSh o.genconfig dir

/-- Those of `ember build` before it configures. -/
def bootstrap (o : Outcome) (dir : Dir) : Except Dir Dir := do
  let dir ← if dir.config.isNone then runMenuconfigAndGenconfig o dir else pure dir
  if dir.cmake.isNone then genconfigSh o.genconfig dir else pure dir

/-- The last two steps of `ember build` and `ember all`. -/
def configureAndBuild (o : Outcome) (dir : Dir) : Except Dir Dir := do
  let dir ← cmakeConfigure o.machine dir
  cmakeBuild o.compile dir

/-- `rm -rf`. -/
def removeAll : Removal → Dir → Except Dir Dir
  | .succeeds, _ => .ok .empty
  | .fails config cmake cache compiled, dir => .error {
      config := if config then dir.config else none
      cmake := if cmake then dir.cmake else none
      cache := if cache then dir.cache else fun _ => none
      compiled := if compiled then dir.compiled else none }

/-- The commands on a build directory, and an edit of its .config with another program. -/
inductive Call where
  | menuconfig (o : Outcome)
  | genconfig (o : Outcome)
  | update (o : Outcome)
  | build (o : Outcome)
  | all (o : Outcome)
  | clean (removal : Removal)
  | edit (config : List Line)

/-- What a command does. -/
def Call.exec : Call → Dir → Except Dir Dir
  | .menuconfig o, dir => runMenuconfigAndGenconfig o dir
  | .genconfig o, dir => genconfigSh o.genconfig dir
  | .update o, dir => cmakeConfigure o.machine dir
  | .build o, dir => bootstrap o dir >>= configureAndBuild o
  | .all o, dir => runMenuconfigAndGenconfig o dir >>= configureAndBuild o
  | .clean removal, dir => removeAll removal dir
  | .edit config, dir => .ok { dir with config := some config }

/-- The directory after a command, wherever it has stopped. -/
def after : Except Dir Dir → Dir
  | .ok dir => dir
  | .error dir => dir

/-- The directory after a history of commands. -/
def run (calls : List Call) : Dir := calls.foldl (fun dir c => after (c.exec dir)) .empty

/-! ### The .config that config.cmake was made of -/

/-- The .config that genconfig.sh reads where it opens config.cmake, and how far it comes. -/
def genconfigReads (o : Outcome) (dir : Dir) : Option (List Line × Ending) :=
  match dir.config, o.genconfig with
  | some config, some ending => some (config, ending)
  | _, _ => none

/-- The same behind menuconfig.sh. -/
def menuReads (o : Outcome) (dir : Dir) : Option (List Line × Ending) :=
  match menuconfigSh o.menu dir with
  | .ok dir => genconfigReads o dir
  | .error _ => none

/-- The same in a command. -/
def Call.reads : Call → Dir → Option (List Line × Ending)
  | .menuconfig o, dir | .all o, dir => menuReads o dir
  | .genconfig o, dir => genconfigReads o dir
  | .build o, dir =>
    if dir.config.isNone then menuReads o dir else if dir.cmake.isNone then genconfigReads o dir else none
  | .update _, _ | .clean _, _ | .edit _, _ => none

/-- The command removes config.cmake. -/
def Call.removes : Call → Bool
  | .clean .succeeds => true
  | .clean (.fails _ cmake _ _) => !cmake
  | _ => false

/-- config.cmake is what genconfig.sh has made of the .config that it has read, all of it where the step succeeds. -/
structure Made (dir : Dir) (res : Except Dir Dir) (reads : Option (List Line × Ending)) : Prop where
  cmake : (after res).cmake = (reads.map fun r => r.2.file (commands r.1)).or dir.cmake
  config : ∀ r, reads = some r → (after res).config = some r.1
  whole : ∀ r dir', res = .ok dir' → reads = some r → r.2 = .whole

section Steps
variable {o : Outcome} {dir dir' : Dir} {c : Call} {res : Except Dir Dir} {reads : Option (List Line × Ending)}

@[simp] theorem after_exit (ending : Ending) (dir : Dir) : after (ending.exit dir) = dir := by
  cases ending <;> rfl

theorem genconfigSh_cases (o : Outcome) (dir : Dir) :
    (genconfigReads o dir = none ∧ genconfigSh o.genconfig dir = .error dir) ∨
    ∃ config ending, genconfigReads o dir = some (config, ending) ∧ dir.config = some config ∧
      genconfigSh o.genconfig dir = ending.exit { dir with cmake := some (ending.file (commands config)) } := by
  obtain ⟨config, cmake, cache, compiled⟩ := dir
  obtain ⟨menu, ending, machine, compile⟩ := o
  cases config with
  | none => exact .inl ⟨rfl, rfl⟩
  | some config =>
    cases ending with
    | none => exact .inl ⟨rfl, rfl⟩
    | some ending => exact .inr ⟨config, ending, rfl, rfl, rfl⟩

theorem made_genconfig (o : Outcome) (dir : Dir) : Made dir (genconfigSh o.genconfig dir) (genconfigReads o dir) := by
  rcases genconfigSh_cases o dir with ⟨hreads, hexec⟩ | ⟨config, ending, hreads, hconfig, hexec⟩
  · rw [hreads, hexec]
    exact ⟨rfl, nofun, nofun⟩
  · rw [hreads, hexec]
    refine ⟨by rw [after_exit]; rfl, ?_, ?_⟩
    · rintro _ ⟨⟩
      rw [after_exit]
      exact hconfig
    · rintro _ dir' hok ⟨⟩
      cases ending with
      | whole => rfl
      | cut => cases hok

theorem reads_of_genconfig_ok (h : genconfigSh o.genconfig dir = .ok dir') : genconfigReads o dir ≠ none := by
  rcases genconfigSh_cases o dir with ⟨-, hexec⟩ | ⟨config, ending, hreads, -⟩
  · cases hexec.symm.trans h
  · rw [hreads]
    exact Option.some_ne_none _

theorem made_menu (o : Outcome) (dir : Dir) : Made dir (runMenuconfigAndGenconfig o dir) (menuReads o dir) := by
  rw [menuReads, runMenuconfigAndGenconfig]
  cases o.menu with
  | fails config => exact ⟨rfl, nofun, nofun⟩
  | left => exact made_genconfig o dir
  | saved config =>
    obtain ⟨hcmake, hconfig, hwhole⟩ := made_genconfig o { dir with config := some config }
    exact ⟨hcmake, hconfig, hwhole⟩

theorem reads_of_menu_ok (h : runMenuconfigAndGenconfig o dir = .ok dir') : menuReads o dir ≠ none := by
  rw [runMenuconfigAndGenconfig] at h
  rw [menuReads]
  cases hmenu : menuconfigSh o.menu dir with
  | error => rw [hmenu] at h; cases h
  | ok saved =>
    rw [hmenu] at h
    exact reads_of_genconfig_ok h

/-- A step that has read a .config leaves a config.cmake. -/
theorem Made.cmake_ne_none (h : Made dir res reads) (hreads : reads ≠ none) : (after res).cmake ≠ none := by
  obtain ⟨r, rfl⟩ := Option.ne_none_iff_exists'.mp hreads
  rw [h.cmake, Option.map_some, Option.some_or]
  exact Option.some_ne_none _

/-- What comes after config.cmake is made leaves it and .config as they are. -/
theorem Made.bind (h : Made dir res reads) {f : Dir → Except Dir Dir}
    (hf : ∀ dir, (after (f dir)).config = dir.config ∧ (after (f dir)).cmake = dir.cmake) :
    Made dir (res >>= f) reads := by
  cases res with
  | error => exact ⟨h.cmake, h.config, nofun⟩
  | ok dir₁ =>
    obtain ⟨hconfig, hcmake⟩ := hf dir₁
    exact ⟨hcmake.trans h.cmake, fun r hr => hconfig.trans (h.config r hr), fun r _ _ => h.whole r dir₁ rfl⟩

theorem configure_keeps (machine : Machine) (dir : Dir) :
    (after (cmakeConfigure machine dir)).config = dir.config ∧
      (after (cmakeConfigure machine dir)).cmake = dir.cmake := by
  cases machine with
  | fails => exact ⟨rfl, rfl⟩
  | ready =>
    rw [cmakeConfigure]
    split
    · exact ⟨rfl, rfl⟩
    · dsimp only
      split <;> exact ⟨rfl, rfl⟩

theorem configureAndBuild_keeps (o : Outcome) (dir : Dir) :
    (after (configureAndBuild o dir)).config = dir.config ∧ (after (configureAndBuild o dir)).cmake = dir.cmake := by
  have hkeeps := configure_keeps o.machine dir
  rw [configureAndBuild]
  cases hconfigure : cmakeConfigure o.machine dir with
  | error dir' =>
    rw [hconfigure] at hkeeps
    exact hkeeps
  | ok dir' =>
    rw [hconfigure] at hkeeps
    cases hcompile : o.compile with
    | true => exact hkeeps
    | false => exact hkeeps

theorem boot_of_none (hconfig : dir.config = none) : bootstrap o dir = runMenuconfigAndGenconfig o dir := by
  have hboot : bootstrap o dir = runMenuconfigAndGenconfig o dir >>= fun dir =>
      if dir.cmake.isNone then genconfigSh o.genconfig dir else pure dir := by
    rw [bootstrap, hconfig]
    rfl
  rw [hboot]
  cases hmenu : runMenuconfigAndGenconfig o dir with
  | error => rfl
  | ok dir₁ =>
    -- config.cmake is there by now.
    have hsome := (made_menu o dir).cmake_ne_none (reads_of_menu_ok hmenu)
    rw [hmenu, after] at hsome
    exact if_neg (by rwa [Option.isNone_iff_eq_none])

theorem boot_of_some {config : List Line} (hconfig : dir.config = some config) :
    bootstrap o dir = if dir.cmake.isNone then genconfigSh o.genconfig dir else pure dir := by
  rw [bootstrap, hconfig]
  rfl

theorem made_bootstrap (o : Outcome) (dir : Dir) : Made dir (bootstrap o dir) ((Call.build o).reads dir) := by
  rw [Call.reads]
  cases hconfig : dir.config with
  | none =>
    rw [boot_of_none hconfig]
    exact made_menu o dir
  | some config =>
    rw [boot_of_some hconfig]
    cases hcmake : dir.cmake with
    | none => exact made_genconfig o dir
    | some => exact ⟨rfl, nofun, nofun⟩

theorem bootstrap_ok (h : bootstrap o dir = .ok dir') :
    dir'.cmake ≠ none ∧ ((Call.build o).reads dir = none → dir' = dir) := by
  have hmade := made_bootstrap o dir
  rw [Call.reads] at hmade ⊢
  cases hconfig : dir.config with
  | none =>
    have hreads := reads_of_menu_ok ((boot_of_none hconfig).symm.trans h)
    rw [h, hconfig] at hmade
    exact ⟨hmade.cmake_ne_none hreads, fun hnone => (hreads hnone).elim⟩
  | some config =>
    have hboot := (boot_of_some (o := o) hconfig).symm.trans h
    rw [h, hconfig] at hmade
    cases hcmake : dir.cmake with
    | none =>
      rw [hcmake] at hmade hboot
      have hreads := reads_of_genconfig_ok hboot
      exact ⟨hmade.cmake_ne_none hreads, fun hnone => (hreads hnone).elim⟩
    | some file =>
      rw [hcmake] at hboot
      cases hboot
      exact ⟨fun hnone => Option.some_ne_none file (hcmake.symm.trans hnone), fun _ => rfl⟩

theorem made_exec (hclean : ∀ removal, c ≠ .clean removal) (hedit : ∀ config, c ≠ .edit config) :
    Made dir (c.exec dir) (c.reads dir) := by
  cases c with
  | menuconfig o => exact made_menu o dir
  | genconfig o => exact made_genconfig o dir
  | update o => exact ⟨(configure_keeps o.machine dir).2, nofun, nofun⟩
  | build o => exact (made_bootstrap o dir).bind (configureAndBuild_keeps o)
  | all o => exact (made_menu o dir).bind (configureAndBuild_keeps o)
  | clean removal => exact absurd rfl (hclean removal)
  | edit config => exact absurd rfl (hedit config)

theorem made_of_reads {r : List Line × Ending} (hreads : c.reads dir = some r) : Made dir (c.exec dir) (some r) := by
  rw [← hreads]
  refine made_exec ?_ ?_ <;> (rintro _ rfl; cases hreads)

theorem cmake_of_reads {r : List Line × Ending} (hreads : c.reads dir = some r) :
    (after (c.exec dir)).cmake = some (r.2.file (commands r.1)) := by
  rw [(made_of_reads hreads).cmake, Option.map_some, Option.some_or]

theorem cmake_of_not_read (hreads : c.reads dir = none) :
    (after (c.exec dir)).cmake = if c.removes then none else dir.cmake := by
  cases c with
  | clean removal =>
    cases removal with
    | succeeds => rfl
    | fails config cmake cache compiled => cases cmake <;> rfl
  | edit => rfl
  | menuconfig | genconfig | update | build | all =>
    refine (made_exec ?_ ?_).cmake.trans ?_
    · rintro _ ⟨⟩
    · rintro _ ⟨⟩
    · rw [hreads]
      rfl

theorem cmake_exec (c : Call) (dir : Dir) (file : ConfigCmake) : (after (c.exec dir)).cmake = some file ↔
    (∃ config ending, c.reads dir = some (config, ending) ∧ ending.file (commands config) = file) ∨
      dir.cmake = some file ∧ c.reads dir = none ∧ c.removes = false := by
  cases hreads : c.reads dir with
  | none =>
    rw [cmake_of_not_read hreads]
    cases c.removes <;> simp
  | some r =>
    obtain ⟨config, ending⟩ := r
    rw [cmake_of_reads hreads]
    simp

/-! ### What is compiled -/

/-- A build that succeeds has compiled what config.cmake sets, and CMakeLists.txt has accepted it. -/
theorem configureAndBuild_ok (h : configureAndBuild o dir = .ok dir') :
    dir.cmake.any ConfigCmake.torn = false ∧ dir'.compiled = some (lists dir.commands dir.cache) ∧
      accepted (lists dir.commands dir.cache) = true ∧ dir'.cmake = dir.cmake ∧ dir'.config = dir.config := by
  rw [configureAndBuild] at h
  cases hmachine : o.machine with
  | fails cache =>
    rw [hmachine] at h
    cases h
  | ready =>
    rw [hmachine, cmakeConfigure] at h
    split at h
    · cases h
    · rename_i htorn
      dsimp only at h
      split at h
      · rename_i haccepted
        cases hcompile : o.compile with
        | true =>
          rw [hcompile] at h
          cases h
          exact ⟨Bool.eq_false_iff.mpr htorn, rfl, haccepted, rfl, rfl⟩
        | false =>
          rw [hcompile] at h
          cases h
      · cases h

theorem configureAndBuild_of_accepted (hmachine : o.machine = .ready) (hcompile : o.compile = true)
    (htorn : dir.cmake.any ConfigCmake.torn = false) (haccepted : accepted (lists dir.commands dir.cache) = true) :
    configureAndBuild o dir =
      .ok { dir with cache := lists dir.commands dir.cache, compiled := some (lists dir.commands dir.cache) } := by
  have hconfigured : cmakeConfigure o.machine dir = .ok { dir with cache := lists dir.commands dir.cache } := by
    rw [hmachine, cmakeConfigure, htorn, if_neg Bool.false_ne_true]
    exact if_pos haccepted
  rw [configureAndBuild, hconfigured, hcompile]
  rfl

/-- A command that compiles. -/
def Call.Builds : Call → Prop
  | .build _ | .all _ => True
  | _ => False

/-- Where a command that compiles succeeds, its last two steps have, from a directory with a config.cmake. -/
theorem builds_ok (hbuilds : c.Builds) (h : c.exec dir = .ok dir') : ∃ o dir₁, configureAndBuild o dir₁ = .ok dir' ∧
    dir₁.cmake ≠ none ∧ (c.reads dir = none → dir₁ = dir) := by
  cases c with
  | build o =>
    cases hboot : bootstrap o dir with
    | error =>
      rw [Call.exec, hboot] at h
      cases h
    | ok dir₁ =>
      rw [Call.exec, hboot] at h
      exact ⟨o, dir₁, h, bootstrap_ok hboot⟩
  | all o =>
    cases hmenu : runMenuconfigAndGenconfig o dir with
    | error =>
      rw [Call.exec, hmenu] at h
      cases h
    | ok dir₁ =>
      rw [Call.exec, hmenu] at h
      have hreads := reads_of_menu_ok hmenu
      have hsome := (made_menu o dir).cmake_ne_none hreads
      rw [hmenu, after] at hsome
      exact ⟨o, dir₁, h, hsome, fun hnone => (hreads hnone).elim⟩
  | menuconfig | genconfig | update | clean | edit => exact hbuilds.elim

theorem build_ok (hbuilds : c.Builds) (h : c.exec dir = .ok dir') : ∃ file cache, dir'.cmake = some file ∧
    file.torn = false ∧ dir'.compiled = some (lists file.commands cache) ∧
      accepted (lists file.commands cache) = true ∧
        (c.reads dir = none → dir'.config = dir.config ∧ cache = dir.cache) := by
  obtain ⟨o, dir₁, hbuild, hcmake, hsame⟩ := builds_ok hbuilds h
  obtain ⟨htorn, hcompiled, haccepted, hcmake', hconfig'⟩ := configureAndBuild_ok hbuild
  obtain ⟨file, hfile⟩ := Option.ne_none_iff_exists'.mp hcmake
  have hcommands : dir₁.commands = file.commands := by rw [Dir.commands, hfile]; rfl
  rw [hcommands] at hcompiled haccepted
  rw [hfile] at htorn
  refine ⟨file, dir₁.cache, hcmake'.trans hfile, htorn, hcompiled, haccepted, fun hnone => ?_⟩
  rw [hconfig', hsame hnone]
  exact ⟨rfl, rfl⟩

end Steps

/-! ### Runs -/

section Runs
variable {calls : List Call} {c : Call} {dir : Dir}

theorem run_concat (calls : List Call) (c : Call) : run (calls ++ [c]) = after (c.exec (run calls)) :=
  List.foldl_concat ..

/-- config.cmake was opened last for this .config and written this far, and it is not removed since. -/
def WrittenLast (config : List Line) (ending : Ending) : List Call → Prop :=
  Since (fun before c => c.reads (run before) = some (config, ending))
    fun before c => c.reads (run before) = none ∧ c.removes = false

theorem cmake_run (calls : List Call) (file : ConfigCmake) : (run calls).cmake = some file ↔
    ∃ config ending, WrittenLast config ending calls ∧ ending.file (commands config) = file := by
  have hsince : (run calls).cmake = some file ↔
      Since (fun before c => ∃ config ending, c.reads (run before) = some (config, ending) ∧
          ending.file (commands config) = file)
        (fun before c => c.reads (run before) = none ∧ c.removes = false) calls :=
    since_iff (P := fun calls => (run calls).cmake = some file) nofun
      (fun calls c => by rw [run_concat, cmake_exec]) calls
  rw [hsince]
  constructor
  · rintro ⟨front, c, back, heq, ⟨config, ending, hreads, hfile⟩, hkeeps⟩
    exact ⟨config, ending, ⟨front, c, back, heq, hreads, hkeeps⟩, hfile⟩
  · rintro ⟨config, ending, ⟨front, c, back, heq, hreads, hkeeps⟩, hfile⟩
    exact ⟨front, c, back, heq, ⟨config, ending, hreads, hfile⟩, hkeeps⟩

/-- The values are those that the commands set, with whatever else. -/
def Follows (values : Cache) (cmds : List Command) : Prop :=
  ∀ name value, valueOf name cmds = some value → values name = some value

/-- A build that succeeds compiles what stands in config.cmake: what genconfig.sh has made of the .config that it has read
    last, as far as it has come. -/
theorem build_compiles (hbuilds : c.Builds) (h : c.exec (run calls) = .ok dir) : ∃ config ending values,
    WrittenLast config ending (calls ++ [c]) ∧ (ending.file (commands config)).torn = false ∧
      dir.compiled = some values ∧ Follows values (ending.file (commands config)).commands := by
  obtain ⟨file, cache, hcmake, htorn, hcompiled, -, -⟩ := build_ok hbuilds h
  have hrun : run (calls ++ [c]) = dir := by rw [run_concat, h, after]
  obtain ⟨config, ending, hwritten, rfl⟩ := (cmake_run (calls ++ [c]) file).mp (by rw [hrun, hcmake])
  exact ⟨config, ending, _, hwritten, htorn, hcompiled, fun name value hvalue => lists_of_value cache hvalue⟩

/-- A command that opens config.cmake writes all of it, and one that changes .config opens config.cmake, or removes it, or
    finds none. -/
def Tidy (dir : Dir) (c : Call) : Prop :=
  (∀ config ending, c.reads dir = some (config, ending) → ending = .whole) ∧
    (c.reads dir = none → (after (c.exec dir)).config = dir.config ∨ c.removes = true ∨ dir.cmake = none)

theorem all_exec (config : DotConfig) (dir : Dir) (hhal : Component.hal.isSet ∈ config.lines)
    (hsourced : Sourced config.lines (dir.cache "OPENEMBER_NANOPB_LOCAL_SOURCE")) :
    (Call.all ⟨.saved config.lines, some .whole, .ready, true⟩).exec dir = .ok
      { config := some config.lines, cmake := some ⟨commands config.lines, false⟩,
        cache := lists (commands config.lines) dir.cache,
        compiled := some (lists (commands config.lines) dir.cache) } := by
  have hmenu : runMenuconfigAndGenconfig ⟨.saved config.lines, some .whole, .ready, true⟩ dir =
      .ok { dir with config := some config.lines, cmake := some ⟨commands config.lines, false⟩ } := rfl
  rw [Call.exec, hmenu]
  exact configureAndBuild_of_accepted rfl rfl rfl ((accepted_iff config dir.cache).mpr ⟨hhal, hsourced⟩)

/-- Whatever came before, `ember all` can compile a file of Kconfig that is saved in the menu exactly if the HAL is set in
    it and the sources of third parties that it asks for are allowed. -/
theorem all_succeeds_iff (calls : List Call) (config : DotConfig) :
    (∃ o dir, o.menu = .saved config.lines ∧ (Call.all o).exec (run calls) = .ok dir) ↔
      Component.hal.isSet ∈ config.lines ∧
        Sourced config.lines ((run calls).cache "OPENEMBER_NANOPB_LOCAL_SOURCE") := by
  constructor
  · rintro ⟨o, dir, hsaved, h⟩
    cases hmenu : runMenuconfigAndGenconfig o (run calls) with
    | error =>
      rw [Call.exec, hmenu] at h
      cases h
    | ok dir₁ =>
      rw [Call.exec, hmenu] at h
      obtain ⟨-, -, haccepted, -, -⟩ := configureAndBuild_ok (o := o) h
      rw [runMenuconfigAndGenconfig, hsaved] at hmenu
      rcases genconfigSh_cases o { run calls with config := some config.lines } with
        ⟨-, hexec⟩ | ⟨_, ending, -, ⟨⟩, hexec⟩
      · cases hexec.symm.trans hmenu
      · cases ending with
        | cut => cases hexec.symm.trans hmenu
        | whole =>
          cases hexec.symm.trans hmenu
          exact (accepted_iff config (run calls).cache).mp haccepted
  · rintro ⟨hhal, hsourced⟩
    exact ⟨⟨.saved config.lines, some .whole, .ready, true⟩, _, rfl, all_exec config (run calls) hhal hsourced⟩

end Runs

/-! ### One run -/

/-- All goes well, with the cryptography left out. -/
def firstAll : Call := .all ⟨.saved withoutCrypto.lines, some .whole, .ready, true⟩

theorem firstAll_exec : ∃ dir, firstAll.exec (run []) = .ok dir := by
  refine ⟨_, all_exec withoutCrypto (run []) (by decide +kernel) ⟨?_, ?_, ?_, ?_, ?_⟩⟩
  · intro library
    cases library <;> decide +kernel
  · decide +kernel
  · decide +kernel
  · intro _
    exact .inl (by decide +kernel)
  · decide +kernel

theorem build_compiles_first : ∃ dir config ending values, firstAll.exec (run []) = .ok dir ∧
    WrittenLast config ending [firstAll] ∧ dir.compiled = some values ∧
      Follows values (ending.file (commands config)).commands := by
  obtain ⟨dir, h⟩ := firstAll_exec
  obtain ⟨config, ending, values, hwritten, -, hcompiled, hfollows⟩ := build_compiles (c := firstAll) trivial h
  exact ⟨dir, config, ending, values, h, hwritten, hcompiled, hfollows⟩

end Pipeline
end Scripts
end Emberlite
