import Emberlite.Lib.CString
import Emberlite.Lib.Lines
import Emberlite.Lib.Marks

/-! The blocks that `scripts/ember` puts into the user's .bashrc and takes out again, with `upsert_block_in_file` and
    `remove_block_in_file`. -/

namespace Emberlite
namespace Scripts
namespace RcBlocks
open CString Lines Marks

/-- A line of a file, without its end. -/
abbrev Line : Type := List UInt8

/-- The bytes of a file. -/
abbrev Contents : Type := List UInt8

/-- `'\n'` -/
def newline : UInt8 := 10

/-- The two blocks of an rc file. -/
inductive Kind
  | path
  | completion
  deriving DecidableEq, Repr

namespace Kind

/-- `EMBER_PATH_BEGIN` and `EMBER_COMPLETION_BEGIN`. -/
def first : Kind → Line
  | path => lit "# >>> openember ember path >>>"
  | completion => lit "# >>> openember ember completion >>>"

/-- `EMBER_PATH_END` and `EMBER_COMPLETION_END`. -/
def last : Kind → Line
  | path => lit "# <<< openember ember path <<<"
  | completion => lit "# <<< openember ember completion <<<"

/-- The other block. -/
def other : Kind → Kind
  | path => completion
  | completion => path

end Kind

/-! ### The source -/

/-- The `awk` program, which puts an end to every line that it prints. -/
def awk (first last : Line) (file : Contents) : Contents :=
  unrecords newline (strip first last false (records newline file))

/-- `upsert_block_in_file`, which makes the file where there is none. -/
def upsertBlockInFile (first last : Line) (content : Contents) (file : Option Contents) : Contents :=
  let file := file.getD []
  let file := awk first last file
  file ++ (([newline] ++ first ++ [newline]) ++ (content ++ [newline]) ++ (last ++ [newline]))

/-- `remove_block_in_file` -/
def removeBlockInFile (first last : Line) (file : Option Contents) : Option Contents := file.map (awk first last)

/-! ### Sequences of calls -/

/-- The lines that are printed for a block. -/
def linesOfContent (content : Contents) : List Line := records newline (content ++ [newline])

/-- What is put between the markers has no marker in it. -/
structure Content where
  text : Contents
  free : ∀ k : Kind, Free k.first k.last (linesOfContent text)

/-- The calls on an rc file. -/
inductive Call
  | upsert (k : Kind) (content : Content)
  | remove (k : Kind)

namespace Call

/-- The block that a call is about. -/
def kind : Call → Kind
  | upsert k _ => k
  | remove k => k

/-- One call. -/
def run : Call → Option Contents → Option Contents
  | upsert k content, file => some (upsertBlockInFile k.first k.last content.text file)
  | remove k, file => removeBlockInFile k.first k.last file

end Call

/-- The file after the calls. -/
def run (calls : List Call) (file : Option Contents) : Option Contents := calls.foldl (fun file c => c.run file) file

/-! ### What should become of the file -/

/-- The lines of a file. -/
def linesOf (file : Option Contents) : List Line := records newline (file.getD [])

/-- What calls leave at the end of a file. -/
inductive Item
  | blank
  | block (k : Kind) (content : Content)

/-- The lines of an item. -/
def Item.lines : Item → List Line
  | blank => [[]]
  | block k content => k.first :: (linesOfContent content.text ++ [k.last])

/-- The lines of all items. -/
def written (items : List Item) : List Line := items.flatMap Item.lines

/-- What a call appends. -/
def Call.items : Call → List Item
  | upsert k content => [.blank, .block k content]
  | remove _ => []

/-- What is in no pair of the markers of the call is still there, before what the call appends. -/
def Survives (c : Call) (file : Option Contents) : Prop :=
  ∃ kept, linesOf (c.run file) = kept ++ written c.items ∧
    (outside c.kind.first c.kind.last false (linesOf file)).Sublist kept

/-- So it is for every call of the run. -/
def SurvivesAll : List Call → Option Contents → Prop
  | [], _ => True
  | c :: calls, file => Survives c file ∧ SurvivesAll calls (c.run file)

/-- A block that is upserted twice is there as if it had been upserted once. -/
def Idempotent (k : Kind) (content : Content) (file : Option Contents) : Prop :=
  run [.upsert k content, .upsert k content] file = run [.upsert k content] file

/-- A file without a marker. -/
structure PlainFile where
  file : Option Contents
  free : ∀ k : Kind, Free k.first k.last (linesOf file)

/-- The upserts, and then the removal of both blocks. -/
def thereAndBack (upserts : List (Kind × Content)) (k : Kind) : List Call :=
  upserts.map (fun upsert => .upsert upsert.1 upsert.2) ++ [.remove k, .remove k.other]

/-- Once both blocks are removed, the file is the one before. -/
def Undone (plain : PlainFile) (upserts : List (Kind × Content)) (k : Kind) : Prop :=
  run (thereAndBack upserts k) plain.file = plain.file

/-- Every marker of the first call's kind is in a pair, and so is every one of the other kind outside of these
    pairs, if a later call is of that kind. -/
def Tidy : List Call → Option Contents → Prop
  | [], _ => True
  | c :: calls, file => Paired c.kind.first c.kind.last (linesOf file) ∧
    (c.kind.other ∈ calls.map Call.kind →
      Paired c.kind.other.first c.kind.other.last (outside c.kind.first c.kind.last false (linesOf file)))

/-! ### Markers -/

theorem first_ne_last (k : Kind) : k.first ≠ k.last := by
  cases k <;> decide +kernel

theorem free_nil (k : Kind) : Free k.first k.last [[]] := by
  cases k <;> decide +kernel

theorem free_markers {k k' : Kind} (h : k' ≠ k) : Free k'.first k'.last [k.first, k.last] := by
  cases k <;> cases k' <;> first | exact absurd rfl h | decide +kernel

theorem other_ne (k : Kind) : k.other ≠ k := by
  cases k <;> nofun

theorem eq_or_eq_other (k k' : Kind) : k' = k ∨ k' = k.other := by
  cases k <;> cases k' <;> simp [Kind.other]

theorem newline_notMem_marker (k : Kind) : newline ∉ k.first ∧ newline ∉ k.last := by
  cases k <;> decide +kernel

/-! ### The end of the file -/

section Items
variable {k k' : Kind} {items : List Item} {content : Content}

/-- The block that an item is. -/
def Item.kind : Item → Option Kind
  | blank => none
  | block k _ => some k

theorem newline_notMem_item (item : Item) : ∀ line ∈ item.lines, newline ∉ line := by
  intro line hline
  cases item with
  | blank => simp_all [Item.lines]
  | block k content =>
    obtain ⟨hfirst, hlast⟩ := newline_notMem_marker k
    simp only [Item.lines, List.mem_cons, List.mem_append, List.not_mem_nil, or_false] at hline
    rcases hline with rfl | hline | rfl
    · exact hfirst
    · exact notMem_of_mem_records line hline
    · exact hlast

theorem newline_notMem_written (items : List Item) : ∀ line ∈ written items, newline ∉ line := by
  intro line hline
  obtain ⟨item, -, hline⟩ := List.mem_flatMap.mp hline
  exact newline_notMem_item item line hline

theorem written_append (items items' : List Item) : written (items ++ items') = written items ++ written items' :=
  List.flatMap_append

theorem free_item {item : Item} (h : item.kind ≠ some k) : Free k.first k.last item.lines := by
  cases item with
  | blank => exact free_nil k
  | block k' content =>
    have hne : k ≠ k' := fun heq => h (congrArg some heq.symm)
    obtain ⟨hfirst, hlast⟩ := free_markers hne
    simp only [List.mem_cons, List.not_mem_nil, or_false, not_or] at hfirst hlast
    have hends : Free k.first k.last [k'.last] := by simp [Free, hfirst, hlast]
    exact free_cons.mpr ⟨⟨Ne.symm hfirst.1, Ne.symm hlast.1⟩, free_append.mpr ⟨content.free k, hends⟩⟩

theorem free_written (h : ∀ item ∈ items, item.kind ≠ some k) : Free k.first k.last (written items) := by
  induction items with
  | nil => exact ⟨List.not_mem_nil, List.not_mem_nil⟩
  | cons item items ih =>
    obtain ⟨hitem, hitems⟩ := List.forall_mem_cons.mp h
    exact free_append.mpr ⟨free_item hitem, ih hitems⟩

/-- The filter takes a block of its own kind out as a whole. -/
theorem strip_item (k : Kind) (item : Item) (rest : List Line) : strip k.first k.last false (item.lines ++ rest) =
    (if item.kind = some k then [] else item.lines) ++ strip k.first k.last false rest := by
  split
  · case _ h =>
    cases item with
    | blank => cases h
    | block k' content =>
      obtain rfl := Option.some.inj h
      rw [Item.lines, List.cons_append, List.append_assoc, List.singleton_append, strip, if_pos rfl,
        strip_block (first_ne_last _) (content.free _), List.nil_append]
  · case _ h => exact strip_append_of_free (free_item h) rest

theorem strip_written (k : Kind) (items : List Item) : strip k.first k.last false (written items) =
    written (items.filter fun item => item.kind ≠ some k) := by
  induction items with
  | nil => rfl
  | cons item items ih =>
    have hcons : written (item :: items) = item.lines ++ written items := rfl
    rw [hcons, strip_item, ih]
    by_cases h : item.kind = some k
    · rw [if_pos h, List.filter_cons_of_neg (by simpa using h)]
      rfl
    · rw [if_neg h, List.filter_cons_of_pos (by simpa using h)]
      rfl

end Items

/-! ### One call -/

section Calls
variable {c : Call} {calls : List Call} {file : Option Contents} {own : List Line} {items : List Item}

theorem appended_eq (k : Kind) (content : Content) :
    ([newline] ++ k.first ++ [newline]) ++ (content.text ++ [newline]) ++ (k.last ++ [newline]) =
      unrecords newline (written [.blank, .block k content]) := by
  have hcontent : unrecords newline (linesOfContent content.text) = content.text ++ [newline] :=
    unrecords_records_iff.mpr (by simp [Ended])
  have hlines : written [.blank, .block k content] = [[], k.first] ++ linesOfContent content.text ++ [k.last] := by
    simp [written, Item.lines]
  rw [hlines, unrecords_append, unrecords_append, hcontent]
  simp [unrecords]

/-- A call takes the blocks of its kind out, and appends its own. -/
theorem linesOf_run (c : Call) (file : Option Contents) :
    linesOf (c.run file) = strip c.kind.first c.kind.last false (linesOf file) ++ written c.items := by
  have hstrip : ∀ (k : Kind) (s : Contents), ∀ line ∈ strip k.first k.last false (records newline s), newline ∉ line :=
    fun k s line hline => notMem_of_mem_records line ((strip_sublist false _).subset hline)
  cases c with
  | upsert k content =>
    have hall : ∀ line ∈ strip k.first k.last false (linesOf file) ++ written [.blank, .block k content],
        newline ∉ line := by
      intro line hline
      rcases List.mem_append.mp hline with hline | hline
      · exact hstrip k _ line hline
      · exact newline_notMem_written _ line hline
    have hrun : (Call.upsert k content).run file = some (unrecords newline
        (strip k.first k.last false (linesOf file) ++ written [.blank, .block k content])) := by
      rw [unrecords_append, ← appended_eq]
      rfl
    rw [hrun, linesOf, Option.getD_some, records_unrecords hall]
    rfl
  | remove k =>
    cases file with
    | none => rfl
    | some s => exact (records_unrecords (hstrip k s)).trans (List.append_nil _).symm

theorem survives_iff (c : Call) (file : Option Contents) :
    Survives c file ↔ Paired c.kind.first c.kind.last (linesOf file) := by
  rw [← sublist_strip_iff (first_ne_last c.kind), Survives, linesOf_run]
  constructor
  · rintro ⟨kept, hkept, hsub⟩
    exact List.append_cancel_right hkept ▸ hsub
  · exact fun hsub => ⟨_, rfl, hsub⟩

/-! ### Sequences of calls -/

/-- The file has lines of its own, without markers of the blocks that follow them. -/
structure Shape (own : List Line) (items : List Item) (file : Option Contents) : Prop where
  lines : linesOf file = own ++ written items
  free : ∀ item ∈ items, ∀ k ∈ item.kind, Free k.first k.last own

theorem shape_start (file : Option Contents) : Shape (linesOf file) [] file := ⟨(List.append_nil _).symm, nofun⟩

theorem kind_of_mem_items {item : Item} {k : Kind} (hitem : item ∈ c.items) (hk : item.kind = some k) : k = c.kind := by
  cases c with
  | upsert k' content =>
    rcases List.mem_cons.mp hitem with rfl | hitem
    · cases hk
    · obtain rfl := List.mem_singleton.mp hitem
      exact (Option.some.inj hk).symm
  | remove k' => nomatch hitem

/-- What a call does to the items. -/
def Call.edit (c : Call) (items : List Item) : List Item := (items.filter fun item => item.kind ≠ some c.kind) ++ c.items

theorem matched_item (k : Kind) (item : Item) : Matched k.first k.last false item.lines := by
  by_cases hkind : item.kind = some k
  · cases item with
    | blank => cases hkind
    | block k' content =>
      obtain rfl := Option.some.inj hkind
      exact matched_block (first_ne_last _) (content.free _)
  · exact (matched_of_free (free_item hkind)).mpr rfl

theorem matched_written (k : Kind) (items : List Item) : Matched k.first k.last false (written items) := by
  induction items with
  | nil => rfl
  | cons item items ih => exact (matched_append (matched_item k item) _).mpr ih

theorem Shape.paired_iff (h : Shape own items file) (k : Kind) :
    Paired k.first k.last (linesOf file) ↔ Paired k.first k.last own := by
  rw [h.lines, Marks.paired_iff (first_ne_last k), Marks.paired_iff (first_ne_last k)]
  by_cases hkind : ∀ item ∈ items, item.kind ≠ some k
  · exact matched_append_of_free (free_written hkind)
  · obtain ⟨item, hitem, hk⟩ : ∃ item ∈ items, item.kind = some k := by simpa using hkind
    have hown : Matched k.first k.last false own := (matched_of_free (h.free item hitem k hk)).mpr rfl
    exact iff_of_true ((matched_append hown _).mpr (matched_written k items)) hown

/-- Lines of its own stay but for those in pairs. -/
theorem Shape.run (h : Shape own items file) (hpaired : Paired c.kind.first c.kind.last own) :
    Shape (outside c.kind.first c.kind.last false own) (c.edit items) (c.run file) := by
  have hne := first_ne_last c.kind
  have hmatched : Matched c.kind.first c.kind.last false own := (Marks.paired_iff hne).mp hpaired
  refine ⟨?_, fun item hitem k hk => ?_⟩
  · rw [linesOf_run, h.lines, strip_append_of_matched hmatched, strip_of_paired hne hpaired, strip_written,
      List.append_assoc, ← written_append]
    rfl
  · rw [← strip_of_paired hne hpaired]
    by_cases hkind : k = c.kind
    · subst hkind
      exact free_strip false own
    · rcases List.mem_append.mp hitem with hitem | hitem
      · exact (h.free item (List.mem_of_mem_filter hitem) k hk).sublist (strip_sublist false own)
      · exact absurd (kind_of_mem_items hitem hk) hkind

/-- Once nothing is left of either kind in the lines of the user, nothing is lost. -/
theorem survivesAll_of_free (h : Shape own items file) (hown : ∀ k : Kind, Free k.first k.last own) :
    SurvivesAll calls file := by
  induction calls generalizing own items file with
  | nil => trivial
  | cons c calls ih =>
    have hpaired := paired_of_free (first_ne_last _) (hown c.kind)
    refine ⟨(survives_iff c file).mpr ((h.paired_iff c.kind).mpr hpaired), ih (h.run hpaired) fun k => ?_⟩
    exact (hown k).sublist (strip_of_paired (first_ne_last _) hpaired ▸ strip_sublist false own)

/-- Once nothing is left of one kind, only the first call of the other kind can lose a line. -/
theorem survivesAll_iff_of_free {k : Kind} (h : Shape own items file) (hown : Free k.first k.last own) :
    SurvivesAll calls file ↔ (k.other ∈ calls.map Call.kind → Paired k.other.first k.other.last own) := by
  induction calls generalizing own items file with
  | nil => exact iff_of_true trivial nofun
  | cons c calls ih =>
    rw [SurvivesAll, survives_iff, h.paired_iff]
    rcases eq_or_eq_other k c.kind with hkind | hkind
    · have hpaired : Paired c.kind.first c.kind.last own := paired_of_free (first_ne_last _) (hkind ▸ hown)
      have hsame : outside c.kind.first c.kind.last false own = own := by
        rw [← strip_of_paired (first_ne_last _) hpaired, strip_of_free (hkind ▸ hown)]
      have hrun := h.run hpaired
      rw [hsame] at hrun
      rw [and_iff_right hpaired, ih hrun hown, List.map_cons, List.mem_cons, hkind]
      simp [other_ne]
    · rw [List.map_cons, hkind]
      constructor
      · rintro ⟨hpaired, -⟩ -
        exact hpaired
      · intro himp
        have hpaired := himp List.mem_cons_self
        refine ⟨hpaired, survivesAll_of_free (h.run (hkind.symm ▸ hpaired)) fun k' => ?_⟩
        rw [hkind, ← strip_of_paired (first_ne_last _) hpaired]
        rcases eq_or_eq_other k k' with rfl | rfl
        · exact hown.sublist (strip_sublist false own)
        · exact free_strip false own

theorem survivesAll_iff (calls : List Call) (file : Option Contents) : SurvivesAll calls file ↔ Tidy calls file := by
  cases calls with
  | nil => exact Iff.rfl
  | cons c calls =>
    rw [SurvivesAll, Tidy, survives_iff]
    refine and_congr_right fun hpaired => ?_
    have hfree : Free c.kind.first c.kind.last (outside c.kind.first c.kind.last false (linesOf file)) := hpaired
    exact survivesAll_iff_of_free ((shape_start file).run hpaired) hfree

/-! ### Blank lines -/

/-- The second upsert takes the block of the first one out, but not the blank line before it. -/
theorem not_idempotent (k : Kind) (content : Content) (file : Option Contents) : ¬Idempotent k content file := by
  intro h
  let c : Call := .upsert k content
  have hlines : linesOf (c.run (c.run file)) = linesOf (c.run file) := congrArg linesOf h
  have hblank : strip k.first k.last false (written c.items) = [[]] := by
    rw [strip_written]
    simp [c, Call.items, Item.kind, written, Item.lines]
  rw [linesOf_run, linesOf_run c file, strip_append_of_free (free_strip _ _)] at hlines
  have hkind : c.kind = k := rfl
  rw [hkind, hblank] at hlines
  have hlength := congrArg List.length hlines
  simp at hlength

/-- How many items are blank. -/
def blanks (items : List Item) : Nat := items.countP fun item => item.kind.isNone

theorem blanks_edit (c : Call) (items : List Item) : blanks (c.edit items) = blanks items + blanks c.items := by
  have hkept : blanks (items.filter fun item => item.kind ≠ some c.kind) = blanks items := by
    rw [blanks, List.countP_filter]
    refine List.countP_congr fun item _ => ?_
    cases item <;> simp [Item.kind]
  rw [Call.edit, blanks, List.countP_append]
  exact congrArg (· + _) hkept

theorem shape_run (h : Shape own items file) (hown : ∀ k : Kind, Free k.first k.last own) (calls : List Call) :
    Shape own (calls.foldl (fun items c => c.edit items) items) (run calls file) := by
  induction calls generalizing items file with
  | nil => exact h
  | cons c calls ih =>
    have hpaired := paired_of_free (first_ne_last _) (hown c.kind)
    have hsame : outside c.kind.first c.kind.last false own = own := by
      rw [← strip_of_paired (first_ne_last _) hpaired, strip_of_free (hown c.kind)]
    have hrun := h.run hpaired
    rw [hsame] at hrun
    exact ih hrun

end Calls

section Undo
variable {plain : PlainFile} {upserts : List (Kind × Content)} {k : Kind}

/-- A blank line stays for every upsert. -/
theorem blanks_thereAndBack (upserts : List (Kind × Content)) (k : Kind) (items : List Item) :
    blanks ((thereAndBack upserts k).foldl (fun items c => c.edit items) items) = blanks items + upserts.length := by
  induction upserts generalizing items with
  | nil => exact (blanks_edit _ _).trans (blanks_edit _ _)
  | cons upsert upserts ih =>
    have hcons : thereAndBack (upsert :: upserts) k = .upsert upsert.1 upsert.2 :: thereAndBack upserts k := rfl
    have hone : blanks (Call.upsert upsert.1 upsert.2).items = 1 := rfl
    rw [hcons, List.foldl_cons, ih, blanks_edit, hone, List.length_cons, Nat.add_right_comm, Nat.add_assoc]

theorem written_eq_nil {items : List Item} (h : written items = []) : items = [] := by
  cases items with
  | nil => rfl
  | cons item items => cases item <;> cases h

/-- A file with a blank line more is another one. -/
theorem nil_of_undone (h : Undone plain upserts k) : upserts = [] := by
  obtain ⟨hlines, -⟩ := shape_run (shape_start plain.file) plain.free (thereAndBack upserts k)
  rw [show run (thereAndBack upserts k) plain.file = plain.file from h, List.self_eq_append_right] at hlines
  have hblanks := blanks_thereAndBack upserts k []
  rw [written_eq_nil hlines] at hblanks
  simpa [blanks, eq_comm] using hblanks

theorem awk_of_free {s : Contents} (h : ∀ k : Kind, Free k.first k.last (records newline s)) (hended : Ended newline s)
    (k : Kind) : awk k.first k.last s = s := by
  rw [awk, strip_of_free (h k), unrecords_records_iff]
  exact hended

theorem undone_iff (plain : PlainFile) (upserts : List (Kind × Content)) (k : Kind) :
    Undone plain upserts k ↔ upserts = [] ∧ ∀ s ∈ plain.file, Ended newline s := by
  obtain ⟨file, hfree⟩ := plain
  constructor
  · intro h
    obtain rfl := nil_of_undone h
    refine ⟨rfl, fun s hs => ?_⟩
    obtain rfl : file = some s := hs
    have hawk : awk k.other.first k.other.last (awk k.first k.last s) = s := Option.some.inj h
    rw [← hawk]
    exact ended_unrecords _
  · rintro ⟨rfl, hended⟩
    cases file with
    | none => rfl
    | some s =>
      have hsame : ∀ k : Kind, awk k.first k.last s = s := awk_of_free hfree (hended s rfl)
      have hback : some (awk k.other.first k.other.last (awk k.first k.last s)) = some s := by rw [hsame k, hsame k.other]
      exact hback

end Undo

/-- A sequence of calls loses no line if and only if the markers that it meets are in pairs; a block is never the same
    after a second upsert; and only without any upsert does the removal give the file back, where its last line ends. -/
theorem edits_iff (calls : List Call) (file : Option Contents) (plain : PlainFile) (upserts : List (Kind × Content))
    (k : Kind) (content : Content) :
    (SurvivesAll calls file ↔ Tidy calls file) ∧ ¬Idempotent k content file ∧
      (Undone plain upserts k ↔ upserts = [] ∧ ∀ s ∈ plain.file, Ended newline s) :=
  ⟨survivesAll_iff calls file, not_idempotent k content file, undone_iff plain upserts k⟩

/-- A begin marker without an end takes the rest of the file with it. -/
theorem unclosed_block_loses : ¬∀ calls file, SurvivesAll calls file := by
  intro hclaim
  have htidy := (survivesAll_iff _ _).mp
    (hclaim [.remove .path] (some (lit "# >>> openember ember path >>>\nexport EDITOR=vi\n")))
  exact absurd htidy.1 (by decide +kernel)

end RcBlocks
end Scripts
end Emberlite
