import Emberlite.Lib.CString
import Emberlite.Lib.History
import Emberlite.Lib.SelectedMap
import Mathlib.Data.List.DropRight

/-! The environments that `scripts/ember` registers, selects and deletes, and how it finds the root of a project. -/

namespace Emberlite
namespace Scripts
namespace Envs
open CString History

/-- The bytes of a file. -/
abbrev Contents : Type := List UInt8

/-- `'\n'` -/
def newline : UInt8 := 10

/-- The name of a file in a directory, in one line. The script takes other names too: those lead out of its directory, or
    break the lines of its lists. -/
def Plain (name : Contents) : Prop := name ≠ [] ∧ newline ∉ name ∧ 47 ∉ name ∧ name ≠ lit "." ∧ name ≠ lit ".."

instance (name : Contents) : Decidable (Plain name) := inferInstanceAs (Decidable (_ ∧ _))

/-- The name of an environment. -/
structure Name where
  text : Contents
  plain : Plain text
  deriving DecidableEq

/-- What `$(realpath ..)` gives. -/
structure Root where
  text : Contents
  ne_nil : text ≠ []
  captured : text.getLast? ≠ some newline
  deriving DecidableEq

/-! ### The source -/

/-- `~/.openember/ember`. -/
structure Files where
  -- Whether there is a directory `envs`.
  dir : Bool
  envs : Name → Option Contents
  current : Option Contents

/-- Before the first command. -/
def Files.fresh : Files := ⟨false, fun _ => none, none⟩

/-- The file `envs/name`, for a name that is read from a file. -/
def Files.env (files : Files) (name : Contents) : Option Contents :=
  if h : Plain name then files.envs ⟨name, h⟩ else none

/-- What `$(..)` makes of an output. -/
def captured (out : Contents) : Contents := out.rdropWhile (· == newline)

/-- `ember_env_add`, with the argument `root` as `realpath` resolves it, and whether that is a project. -/
def emberEnvAdd (name : Option Name) (root : Option Root) (project : Root → Bool) (files : Files) : Option Files := do
  let name ← name
  let root ← root
  if project root then
    some { files with dir := true, envs := Function.update files.envs name (some (root.text ++ [newline])) }
  else none

/-- `ember_env_current`. -/
def emberEnvCurrent (files : Files) : Contents := files.current.getD []

/-- A name that `ls -1` leaves out. -/
def Name.Hidden (name : Name) : Prop := name.text.head? = some 46

/-- What `ls -1` shows of `envs`, in the order of `sort`. -/
structure Files.Lists (files : Files) (ls : List Name) : Prop where
  once : ls.Nodup
  shown : ∀ name, name ∈ ls ↔ files.envs name ≠ none ∧ ¬name.Hidden

/-- `ember_env_list`. -/
def emberEnvList (ls : List Name) (files : Files) : Contents :=
  let current := captured (emberEnvCurrent files)
  if files.dir = false then lit "(no envs)\n"
  else ls.flatMap fun name =>
    let root := captured ((files.envs name).getD [])
    (if current ≠ [] ∧ name.text = current then lit "* " else lit "  ") ++ name.text ++ lit " -> " ++ root ++ [newline]

/-- `ember_env_use`. -/
def emberEnvUse (name : Option Name) (files : Files) : Option Files := do
  let name ← name
  let _ ← files.envs name
  some { files with current := some (name.text ++ [newline]) }

/-- `ember_env_del`. -/
def emberEnvDel (name : Option Name) (files : Files) : Option Files := do
  let name ← name
  let _ ← files.envs name
  let files := { files with envs := Function.update files.envs name none }
  if captured (emberEnvCurrent files) = name.text then some { files with current := none } else some files

/-- `ember_env_current_root`. -/
def emberEnvCurrentRoot (files : Files) : Option Contents :=
  let name := captured (emberEnvCurrent files)
  if name = [] then none
  else
    let root := captured ((files.env name).getD [])
    if root = [] then none else some root

/-- What `find_project_root` finds in its surroundings. -/
structure Surroundings where
  -- `OPENEMBER_ROOT`, empty where it is not set.
  override : Contents
  pwd : Contents
  -- The directory above that of the script.
  candidate : Contents
  -- `CMakeLists.txt` and `scripts/kconfig/menuconfig.sh` are there.
  project : Contents → Bool

/-- `find_project_root`: what it gives to `echo`. -/
def findProjectRoot (around : Surroundings) (files : Files) : Option Contents :=
  if around.override ≠ [] then some around.override
  else if around.project around.pwd then some around.pwd
  else if around.project around.candidate then some around.candidate
  else
    match emberEnvCurrentRoot files with
    | some root => if around.project root then some root else none
    | none => none

/-! ### Commands -/

/-- A command that may change the files. An argument that is missing or empty is none, and so is a root that `realpath`
    does not resolve. -/
inductive Command where
  | add (name : Option Name) (root : Option Root) (project : Root → Bool)
  | use (name : Option Name)
  | del (name : Option Name)

/-- What a command makes of the files, if it does not fail. -/
def Command.exec : Command → Files → Option Files
  | .add name root project => emberEnvAdd name root project
  | .use name => emberEnvUse name
  | .del name => emberEnvDel name

/-- The files after commands; one that fails leaves them as they were. -/
def run (commands : List Command) : Files := commands.foldl (fun files c => (c.exec files).getD files) .fresh

/-! ### What they keep -/

/-- The environments, and the one that is used. -/
abbrev Store := SelectedMap Name Root

/-- A text as a line of a file. -/
def recorded (text : Contents) : Contents := text ++ [newline]

/-- The files that hold a store. -/
def filesOf (dir : Bool) (m : Store) : Files where
  dir := dir
  envs name := (m.get name).map fun root => recorded root.text
  current := m.selected.map fun name => recorded name.text

/-- What a command changes, if it changes anything. -/
def Command.edit : Command → Option (SelectedMap.Edit Name Root)
  | .add (some name) (some root) project => if project root then some (.insert name root) else none
  | .use (some name) => some (.select name)
  | .del (some name) => some (.erase name)
  | _ => none

/-- The store after a command. -/
def Command.onStore (c : Command) (m : Store) : Store := (c.edit.map m.step).getD m

/-- The store after commands. -/
def store (commands : List Command) : Store := commands.foldl (fun m c => c.onStore m) .empty

/-- An environment is added. -/
def Command.adds : Command → Bool
  | .add (some _) (some root) project => project root
  | _ => false

theorem run_concat (commands : List Command) (c : Command) :
    run (commands ++ [c]) = (c.exec (run commands)).getD (run commands) := List.foldl_concat ..

theorem store_concat (commands : List Command) (c : Command) : store (commands ++ [c]) = c.onStore (store commands) :=
  List.foldl_concat ..

section Refines
variable {dir : Bool} {m : Store} {name : Name} {root : Root}

theorem captured_recorded {text : Contents} (h : text.getLast? ≠ some newline) : captured (recorded text) = text := by
  rw [captured, recorded, List.rdropWhile_concat_pos (· == newline) text newline (beq_self_eq_true newline),
    List.rdropWhile_eq_self_iff]
  intro hne hlast
  rw [List.getLast?_eq_some_getLast hne, beq_iff_eq.mp hlast] at h
  exact h rfl

theorem Name.captured (name : Name) : captured (recorded name.text) = name.text := by
  refine captured_recorded fun h => name.plain.2.1 (List.mem_of_getLast? h)

theorem Root.captured_text (root : Root) : Envs.captured (recorded root.text) = root.text :=
  captured_recorded root.captured

/-- What the current file names is the name that is selected. -/
theorem captured_current : captured (emberEnvCurrent (filesOf dir m)) = (m.selected.map Name.text).getD [] := by
  rw [emberEnvCurrent, filesOf]
  cases m.selected with
  | none => rfl
  | some name => exact name.captured

theorem env_text (files : Files) (name : Name) : files.env name.text = files.envs name := by
  rw [Files.env, dif_pos name.plain]

theorem currentRoot_filesOf : emberEnvCurrentRoot (filesOf dir m) = m.current.map Root.text := by
  rw [emberEnvCurrentRoot, captured_current, SelectedMap.current]
  cases hselected : m.selected with
  | none => rfl
  | some name =>
    obtain ⟨root, hroot⟩ := Option.ne_none_iff_exists'.mp (m.registered name hselected)
    simp [env_text, filesOf, hroot, name.plain.1, root.captured_text, root.ne_nil]

theorem update_recorded (o : Option Root) : Function.update (filesOf dir m).envs name (o.map fun r => recorded r.text) =
    fun n => (Function.update m.get name o n).map fun r => recorded r.text := by
  funext n
  by_cases h : n = name
  · subst h
    simp
  · simp [Function.update_of_ne h, filesOf]

theorem current_eq_iff : captured (emberEnvCurrent (filesOf dir m)) = name.text ↔ m.selected = some name := by
  rw [captured_current]
  cases m.selected with
  | none => exact iff_of_false (fun h => name.plain.1 h.symm) nofun
  | some selected =>
    rw [Option.map_some, Option.getD_some, Option.some.injEq]
    constructor
    · intro h
      cases selected
      cases name
      cases h
      rfl
    · rintro rfl
      rfl

theorem exec_use : emberEnvUse (some name) (filesOf dir m) =
    (m.apply (.select name)).map (filesOf dir) := by
  cases hget : m.get name with
  | none => simp [emberEnvUse, filesOf, SelectedMap.apply, hget]
  | some root => simp [emberEnvUse, filesOf, SelectedMap.apply, SelectedMap.select, hget, recorded]

theorem exec_del : emberEnvDel (some name) (filesOf dir m) = (m.apply (.erase name)).map (filesOf dir) := by
  cases hget : m.get name with
  | none => simp [emberEnvDel, filesOf, SelectedMap.apply, hget]
  | some root =>
    have henvs : Function.update (filesOf dir m).envs name none = (filesOf dir (m.erase name)).envs :=
      update_recorded none
    have hcurrent :
        captured (emberEnvCurrent { filesOf dir m with envs := (filesOf dir (m.erase name)).envs }) = name.text ↔
          m.selected = some name := @current_eq_iff dir m name
    have hfile : (filesOf dir m).envs name = some (recorded root.text) := by simp [filesOf, hget]
    rw [SelectedMap.apply, if_pos (by rw [hget]; exact Option.some_ne_none root), Option.map_some, emberEnvDel]
    simp only [Option.bind_eq_bind, Option.bind_some, hfile, henvs, hcurrent]
    split <;> rename_i h <;> simp [filesOf, SelectedMap.erase, h]

theorem exec_add (project : Root → Bool) : emberEnvAdd (some name) (some root) project (filesOf dir m) =
    if project root then some (filesOf true (m.insert name root)) else none := by
  have henvs : Function.update (filesOf dir m).envs name (some (root.text ++ [newline])) =
      (filesOf true (m.insert name root)).envs := update_recorded (some root)
  simp only [emberEnvAdd, Option.bind_eq_bind, Option.bind_some, henvs]
  rfl

/-- Each command does to the files what its edit does to the store. -/
theorem exec_filesOf (c : Command) :
    (c.exec (filesOf dir m)).getD (filesOf dir m) = filesOf (dir || c.adds) (c.onStore m) := by
  have hmap : ∀ e, ((m.apply e).map (filesOf dir)).getD (filesOf dir m) = filesOf dir (m.step e) := fun e => by
    rw [SelectedMap.step, Option.getD_map]
  cases c with
  | add name root project =>
    rcases name with _ | name
    · simp [Command.exec, emberEnvAdd, Command.adds, Command.onStore, Command.edit]
    · rcases root with _ | root
      · simp [Command.exec, emberEnvAdd, Command.adds, Command.onStore, Command.edit]
      · rw [Command.exec, exec_add]
        by_cases h : project root <;> simp [Command.adds, Command.onStore, Command.edit, h, SelectedMap.step_insert]
  | use name =>
    rcases name with _ | name
    · simp [Command.exec, emberEnvUse, Command.adds, Command.onStore, Command.edit]
    · simp [Command.exec, exec_use, hmap, Command.adds, Command.onStore, Command.edit]
  | del name =>
    rcases name with _ | name
    · simp [Command.exec, emberEnvDel, Command.adds, Command.onStore, Command.edit]
    · simp [Command.exec, exec_del, hmap, Command.adds, Command.onStore, Command.edit]

/-- After any commands the files hold the store of their edits. -/
theorem run_filesOf (commands : List Command) : run commands = filesOf (commands.any Command.adds) (store commands) := by
  induction commands using List.reverseRecOn with
  | nil => rfl
  | append_singleton commands c ih =>
    rw [run_concat, ih, exec_filesOf, store_concat, List.any_append]
    simp

end Refines

/-! ### Which environment is found -/

/-- The command selects the environment. -/
def Uses (name : Name) (before : List Command) (c : Command) : Prop :=
  c = .use (some name) ∧ c.exec (run before) ≠ none

/-- The command leaves the environment selected, if it is. -/
def StaysUsed (name : Name) (before : List Command) (c : Command) : Prop :=
  c ≠ .del (some name) ∧ ∀ other, c = .use (some other) → c.exec (run before) = none

/-- The command gives the environment this root. -/
def Adds (name : Name) (root : Root) (_ : List Command) (c : Command) : Prop :=
  ∃ project, c = .add (some name) (some root) project ∧ project root = true

/-- The command leaves the environment its root, if it has one. -/
def StaysAdded (name : Name) (_ : List Command) (c : Command) : Prop :=
  c ≠ .del (some name) ∧ ∀ root project, c = .add (some name) (some root) project → project root = false

section Found
variable {name : Name} {root : Root}

theorem adds_add {n : Name} {r : Root} {project : Root → Bool} (before : List Command) :
    Adds name root before (.add (some n) (some r) project) ↔ n = name ∧ r = root ∧ project r = true := by
  constructor
  · rintro ⟨_, ⟨⟩, hproject⟩
    exact ⟨rfl, rfl, hproject⟩
  · rintro ⟨rfl, rfl, hproject⟩
    exact ⟨project, rfl, hproject⟩

theorem staysAdded_add {n : Name} {r : Root} {project : Root → Bool} (before : List Command) :
    StaysAdded name before (.add (some n) (some r) project) ↔ (n = name → project r = false) := by
  constructor
  · rintro ⟨-, h⟩ rfl
    exact h r project rfl
  · refine fun h => ⟨nofun, ?_⟩
    rintro _ _ ⟨⟩
    exact h rfl

theorem get_onStore (c : Command) (m : Store) (before : List Command) : (c.onStore m).get name = some root ↔
    Adds name root before c ∨ m.get name = some root ∧ StaysAdded name before c := by
  rw [Command.onStore]
  cases c with
  | add n r project =>
    rcases n with _ | n
    · simp [Command.edit, Adds, StaysAdded]
    · rcases r with _ | r
      · simp [Command.edit, Adds, StaysAdded]
      · rw [adds_add, staysAdded_add]
        by_cases hproject : project r <;> simp [Command.edit, hproject, SelectedMap.get_step]
  | use n =>
    rcases n with _ | n
    · simp [Command.edit, Adds, StaysAdded]
    · simp [Command.edit, Adds, StaysAdded, SelectedMap.get_step]
  | del n =>
    rcases n with _ | n
    · simp [Command.edit, Adds, StaysAdded]
    · simp [Command.edit, Adds, StaysAdded, SelectedMap.get_step]

theorem exec_ne_none (before : List Command) : (Command.use (some name)).exec (run before) ≠ none ↔
    (store before).get name ≠ none := by
  rw [run_filesOf, Command.exec, exec_use, SelectedMap.apply]
  split <;> rename_i h <;> simp [h]

theorem uses_use {n : Name} (before : List Command) :
    Uses name before (.use (some n)) ↔ n = name ∧ (store before).get name ≠ none := by
  rw [Uses, exec_ne_none, Command.use.injEq, Option.some.injEq]
  constructor <;> rintro ⟨rfl, h⟩ <;> exact ⟨rfl, h⟩

theorem staysUsed_use {n : Name} (before : List Command) :
    StaysUsed name before (.use (some n)) ↔ (store before).get n = none := by
  have hexec : (Command.use (some n)).exec (run before) = none ↔ (store before).get n = none :=
    not_iff_not.mp (exec_ne_none before)
  rw [← hexec]
  constructor
  · exact fun h => h.2 n rfl
  · refine fun h => ⟨nofun, ?_⟩
    rintro _ ⟨⟩
    exact h

theorem selected_onStore (c : Command) (before : List Command) : (c.onStore (store before)).selected = some name ↔
    Uses name before c ∨ (store before).selected = some name ∧ StaysUsed name before c := by
  rw [Command.onStore]
  cases c with
  | add n r project =>
    rcases n with _ | n
    · simp [Command.edit, Uses, StaysUsed]
    · rcases r with _ | r
      · simp [Command.edit, Uses, StaysUsed]
      · by_cases hproject : project r <;> simp [Command.edit, Uses, StaysUsed, hproject, SelectedMap.selected_step]
  | use n =>
    rcases n with _ | n
    · simp [Command.edit, Uses, StaysUsed]
    · rw [uses_use, staysUsed_use]
      simp [Command.edit, SelectedMap.selected_step]
  | del n =>
    rcases n with _ | n
    · simp [Command.edit, Uses, StaysUsed]
    · simp [Command.edit, Uses, StaysUsed, SelectedMap.selected_step]

theorem get_store (commands : List Command) : (store commands).get name = some root ↔
    Since (Adds name root) (StaysAdded name) commands := by
  refine since_iff (P := fun commands => (store commands).get name = some root) nofun (fun commands c => ?_) commands
  rw [store_concat]
  exact get_onStore c (store commands) commands

theorem selected_store (commands : List Command) : (store commands).selected = some name ↔
    Since (Uses name) (StaysUsed name) commands := by
  refine since_iff (P := fun commands => (store commands).selected = some name) nofun (fun commands c => ?_) commands
  rw [store_concat]
  exact selected_onStore c commands

/-- The root of the environment that was used last, unless it was deleted since. -/
theorem currentRoot_run (commands : List Command) (found : Contents) : emberEnvCurrentRoot (run commands) = some found ↔
    ∃ name root, root.text = found ∧ Since (Uses name) (StaysUsed name) commands ∧
      Since (Adds name root) (StaysAdded name) commands := by
  rw [run_filesOf, currentRoot_filesOf, SelectedMap.current]
  simp only [Option.map_eq_some_iff, Option.bind_eq_some_iff, selected_store, get_store]
  constructor
  · rintro ⟨root, ⟨name, hused, hadded⟩, rfl⟩
    exact ⟨name, root, rfl, hused, hadded⟩
  · rintro ⟨name, root, rfl, hused, hadded⟩
    exact ⟨root, ⟨name, hused, hadded⟩, rfl⟩

/-- After any commands the root of a project is the override, or the working directory, or that of the script, or the root
    of the environment that was used last and has not been deleted since: the first of these that is one. -/
theorem findProjectRoot_iff (around : Surroundings) (commands : List Command) (found : Contents) :
    findProjectRoot around (run commands) = some found ↔
      if around.override ≠ [] then found = around.override
      else if around.project around.pwd then found = around.pwd
      else if around.project around.candidate then found = around.candidate
      else around.project found = true ∧ ∃ name root, root.text = found ∧
        Since (Uses name) (StaysUsed name) commands ∧ Since (Adds name root) (StaysAdded name) commands := by
  rw [findProjectRoot]
  split_ifs
  · exact ⟨fun h => (Option.some.inj h).symm, fun h => congrArg some h.symm⟩
  · exact ⟨fun h => (Option.some.inj h).symm, fun h => congrArg some h.symm⟩
  · exact ⟨fun h => (Option.some.inj h).symm, fun h => congrArg some h.symm⟩
  · rw [← currentRoot_run]
    cases hroot : emberEnvCurrentRoot (run commands) with
    | none => simp
    | some root =>
      dsimp only
      split <;> rename_i hproject
      · constructor
        · rintro ⟨⟩
          exact ⟨hproject, rfl⟩
        · exact And.right
      · refine iff_of_false nofun ?_
        rintro ⟨hfound, ⟨⟩⟩
        exact hproject hfound

end Found

/-! ### The list -/

section List
variable {ls : List Name} {commands : List Command}

theorem marked_iff {dir : Bool} {m : Store} {name : Name} :
    (captured (emberEnvCurrent (filesOf dir m)) ≠ [] ∧ name.text = captured (emberEnvCurrent (filesOf dir m))) ↔
      m.selected = some name := by
  rw [← current_eq_iff]
  constructor
  · exact fun h => h.2.symm
  · exact fun h => ⟨fun hnil => name.plain.1 (h.symm.trans hnil), h.symm⟩

/-- What `ember_env_list` prints for an environment. -/
def Shown (commands : List Command) (name : Name) (line : Contents) : Prop :=
  ∃ root mark, Since (Adds name root) (StaysAdded name) commands ∧
    line = mark ++ name.text ++ lit " -> " ++ root.text ++ [newline] ∧
    (Since (Uses name) (StaysUsed name) commands ∧ mark = lit "* " ∨
      ¬Since (Uses name) (StaysUsed name) commands ∧ mark = lit "  ")

/-- The line of the source is the one that is asked for. -/
theorem shown_line {name : Name} (hls : (run commands).Lists ls) (hadds : commands.any Command.adds = true)
    (hname : name ∈ ls) : Shown commands name ((if captured (emberEnvCurrent (run commands)) ≠ [] ∧
      name.text = captured (emberEnvCurrent (run commands)) then lit "* " else lit "  ") ++ name.text ++ lit " -> " ++
      captured (((run commands).envs name).getD []) ++ [newline]) := by
  obtain ⟨hget, -⟩ := (hls.shown name).mp hname
  rw [run_filesOf, hadds] at hget ⊢
  simp only [filesOf, ne_eq, Option.map_eq_none_iff] at hget
  obtain ⟨root, hroot⟩ := Option.ne_none_iff_exists'.mp hget
  have hline : captured (((filesOf true (store commands)).envs name).getD []) = root.text := by
    simp [filesOf, hroot, root.captured_text]
  simp only [marked_iff, hline]
  refine ⟨root, _, (get_store commands).mp hroot, rfl, ?_⟩
  rw [← selected_store]
  by_cases hselected : (store commands).selected = some name
  · exact .inl ⟨hselected, if_pos hselected⟩
  · exact .inr ⟨hselected, if_neg hselected⟩

/-- `ember_env_list` has a line for each environment that was added and not deleted since, but for those that `ls` leaves
    out, with the root that it was given last, and marks the one that was used last. -/
theorem list_shows (hls : (run commands).Lists ls) :
    (∀ name, name ∈ ls ↔ (∃ root, Since (Adds name root) (StaysAdded name) commands) ∧ ¬name.Hidden) ∧
    if commands.any Command.adds then
      ∃ line : Name → Contents, emberEnvList ls (run commands) = ls.flatMap line ∧
        ∀ name ∈ ls, Shown commands name (line name)
    else emberEnvList ls (run commands) = lit "(no envs)\n" := by
  refine ⟨fun name => ?_, ?_⟩
  · rw [hls.shown]
    refine and_congr_left fun _ => ?_
    rw [run_filesOf]
    simp only [filesOf, ne_eq, Option.map_eq_none_iff, ← get_store]
    exact Option.ne_none_iff_exists'
  · split
    · rename_i hadds
      have hdir : (run commands).dir = true := by rw [run_filesOf, hadds]; rfl
      refine ⟨_, ?_, fun name hname => shown_line hls hadds hname⟩
      rw [emberEnvList, hdir, if_neg nofun]
    · rename_i hadds
      have hdir : (run commands).dir = false := by rw [run_filesOf]; exact Bool.eq_false_iff.mpr hadds
      rw [emberEnvList, hdir, if_pos rfl]

theorem list_shows_one : ∃ (name : Name) (commands : List Command) (line : Contents),
    emberEnvList [name] (run commands) = line ∧ Shown commands name line := by
  let name : Name := ⟨lit "e", by decide⟩
  let commands : List Command := [.add (some name) (some ⟨lit "/p", by decide, by decide⟩) fun _ => true]
  have henvs : (run commands).envs = Function.update (fun _ => none) name (some (recorded (lit "/p"))) := rfl
  have hhidden : ¬name.Hidden := by
    rw [Name.Hidden]
    decide
  have hls : (run commands).Lists [name] := ⟨by simp, fun n => by
    rw [henvs, List.mem_singleton]
    by_cases hn : n = name
    · simp [hn, hhidden]
    · simp [hn]⟩
  have hadds : commands.any Command.adds = true := rfl
  obtain ⟨-, hlist⟩ := list_shows hls
  rw [if_pos hadds] at hlist
  obtain ⟨line, hlines, hshown⟩ := hlist
  exact ⟨name, commands, line name, hlines.trans (List.append_nil _), hshown name List.mem_cons_self⟩

end List

end Envs
end Scripts
end Emberlite
