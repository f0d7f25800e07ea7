import Emberlite.Apps.Console

/-! A terminal and a device that edits its line, and that the keys leave the same lines on both.

    Every byte but the control bytes of the keys is a character of one cell. -/

namespace Emberlite
namespace Apps
open Hal

/-- The rows that the cursor has left, and the row it is in. -/
structure Screen where
  rows : List (List Byte)
  row : List Byte
  cursor : Nat
  deriving DecidableEq, Repr

/-- What a byte does to the screen. -/
def Screen.put (s : Screen) (b : Byte) : Screen :=
  if b = backspace then { s with cursor := s.cursor - 1 }
  else if b = carriageReturn then { s with cursor := 0 }
  else if b = lineFeed then { s with rows := s.rows ++ [s.row], row := List.replicate s.cursor blank }
  else { s with row := s.row.take s.cursor ++ b :: s.row.drop (s.cursor + 1), cursor := s.cursor + 1 }

/-- The lines that the device was given, and the one it is being given. -/
structure Device where
  entered : List (List Byte)
  line : List Byte
  deriving DecidableEq, Repr

/-- DEL takes a character back, CR enters the line, and LF is left out. -/
def Device.take (d : Device) (b : Byte) : Device :=
  if b = delete then { d with line := d.line.dropLast }
  else if b = carriageReturn then ⟨d.entered ++ [d.line], []⟩
  else if b = lineFeed then d
  else { d with line := d.line ++ [b] }

/-- The screen after the writes, byte by byte. -/
def Screen.show (s : Screen) (writes : List (List Byte)) : Screen := writes.flatten.foldl Screen.put s

/-- The device after the writes, byte by byte. -/
def Device.receive (d : Device) (writes : List (List Byte)) : Device := writes.flatten.foldl Device.take d

/-- Up to blanks at the end. -/
def Looks (row line : List Byte) : Prop := ∃ k, row = line ++ List.replicate k blank

/-- The screen shows the lines of the device, with the cursor behind the last. -/
structure Mirrors (s : Screen) (d : Device) : Prop where
  rows : List.Forall₂ Looks s.rows d.entered
  row : Looks s.row d.line
  cursor : s.cursor = d.line.length

theorem Screen.show_append (s : Screen) (writes writes' : List (List Byte)) :
    s.show (writes ++ writes') = (s.show writes).show writes' := by
  rw [Screen.show, List.flatten_append, List.foldl_append]
  rfl

theorem Device.receive_append (d : Device) (writes writes' : List (List Byte)) :
    d.receive (writes ++ writes') = (d.receive writes).receive writes' := by
  rw [Device.receive, List.flatten_append, List.foldl_append]
  rfl

section Keys
variable {s : Screen} {d : Device} {c : Byte}

/-- The last character is rubbed out. -/
theorem Mirrors.erase (h : Mirrors s d) (hline : d.line ≠ []) :
    Mirrors (s.show [[backspace, blank, backspace]]) (d.receive [[delete]]) := by
  obtain ⟨line, last, hlast⟩ := List.eq_nil_or_concat d.line |>.resolve_left hline
  obtain ⟨k, hrow⟩ := h.row
  have hcursor : s.cursor = line.length + 1 := by simp [h.cursor, hlast]
  have hshow : s.show [[backspace, blank, backspace]] =
      ⟨s.rows, s.row.take line.length ++ blank :: s.row.drop (line.length + 1), line.length⟩ := by
    simp [Screen.show, Screen.put, hcursor, blank, backspace, carriageReturn, lineFeed]
  have hreceive : d.receive [[delete]] = ⟨d.entered, line⟩ := by
    simp [Device.receive, Device.take, hlast]
  rw [hshow, hreceive]
  refine ⟨h.rows, ⟨k + 1, ?_⟩, rfl⟩
  simp [hrow, hlast, List.replicate_succ]

theorem Mirrors.enter (h : Mirrors s d) : Mirrors (s.show [crlf]) (d.receive [crlf]) := by
  have hshow : s.show [crlf] = ⟨s.rows ++ [s.row], [], 0⟩ := by
    simp [Screen.show, Screen.put, crlf, backspace, carriageReturn, lineFeed]
  have hreceive : d.receive [crlf] = ⟨d.entered ++ [d.line], []⟩ := by
    simp [Device.receive, Device.take, crlf, delete, carriageReturn, lineFeed]
  rw [hshow, hreceive]
  exact ⟨List.rel_append h.rows (.cons h.row .nil), ⟨0, rfl⟩, rfl⟩

/-- A character stands behind the others. -/
theorem Mirrors.type (h : Mirrors s d) (herase : ¬isErase c) (heol : ¬isEol c) :
    Mirrors (s.show [[c]]) (d.receive [[c]]) := by
  simp only [isErase, isEol, Bool.or_eq_true, decide_eq_true_eq, not_or] at herase heol
  obtain ⟨hdel, hbackspace⟩ := herase
  obtain ⟨hreturn, hfeed⟩ := heol
  obtain ⟨k, hrow⟩ := h.row
  have hshow : s.show [[c]] = ⟨s.rows, s.row.take s.cursor ++ c :: s.row.drop (s.cursor + 1), s.cursor + 1⟩ := by
    simp [Screen.show, Screen.put, hbackspace, hreturn, hfeed]
  have hreceive : d.receive [[c]] = ⟨d.entered, d.line ++ [c]⟩ := by
    simp [Device.receive, Device.take, hdel, hreturn, hfeed]
  rw [hshow, hreceive]
  refine ⟨h.rows, ⟨k - 1, ?_⟩, by simp [h.cursor]⟩
  simp [hrow, h.cursor]

/-- A key leaves the same lines on both, and its column is where the line ends. -/
theorem Mirrors.key (h : Mirrors s d) (c : Byte) :
    Mirrors (s.show (shown c d.line.length)) (d.receive (sent c d.line.length)) ∧
      (d.receive (sent c d.line.length)).line.length = colAfter c d.line.length := by
  unfold shown sent colAfter
  split_ifs with herase hline heol
  · refine ⟨h.erase (List.length_pos_iff.mp hline), ?_⟩
    simp [Device.receive, Device.take]
  · exact ⟨h, by simp [Device.receive, Nat.eq_zero_of_not_pos hline]⟩
  · exact ⟨h.enter, by simp [Device.receive, Device.take, crlf, delete, carriageReturn, lineFeed]⟩
  · refine ⟨h.type herase heol, ?_⟩
    rw [(h.type herase heol).cursor.symm]
    simp only [isErase, isEol, Bool.or_eq_true, decide_eq_true_eq, not_or] at herase heol
    simp [Screen.show, Screen.put, herase, heol, h.cursor]

/-- So does any row of keys. -/
theorem Mirrors.keys (h : Mirrors s d) (keys : List Byte) :
    Mirrors (s.show (shownAll keys d.line.length)) (d.receive (sentAll keys d.line.length)) := by
  induction keys generalizing s d with
  | nil => exact h
  | cons c keys ih =>
    obtain ⟨hkey, hcol⟩ := h.key c
    rw [shownAll, sentAll, Screen.show_append, Device.receive_append, ← hcol]
    exact ih hkey

end Keys

/-- The screen before anything was shown. -/
def Screen.clear : Screen := ⟨[], [], 0⟩

/-- The device before anything was sent. -/
def Device.idle : Device := ⟨[], []⟩

theorem mirrors_idle : Mirrors .clear .idle := ⟨.nil, ⟨0, rfl⟩, rfl⟩

end Apps
end Emberlite
