import Emberlite.Apps.UartEcho
import Emberlite.Apps.UartTerm

/-! `uart_term` at one end of a line and `uart_echo` at the other: what comes back to the screen is what was typed. -/

namespace Emberlite
namespace Apps
namespace Link
open CString Dialogue Hal Segments

/-- Keys that do not erase, and no Ctrl-A. -/
def Plain (keys : List Byte) : Prop := ∀ c ∈ keys, ¬isErase c ∧ c ≠ UartTerm.ctrlA

/-- The bytes that `hal_uart_write` has put on the line. -/
def written (talk : Talk) : List Byte := talk.flatMap fun
  | ⟨.uartWrite buffer, (_, w)⟩ => buffer.take w
  | _ => []

/-- A call of `hal_uart_write` does not come up short, as it may with a timeout. -/
def Taken : Exchange Ask Ask.Answer → Prop
  | ⟨.uartWrite buffer, (_, w)⟩ => w = buffer.length
  | _ => True

/-- Every write of the record was taken whole. -/
def Whole (talk : Talk) : Prop := ∀ e ∈ talk, Taken e

/-- What such keys are on the line. -/
def wire (keys : List Byte) : List Byte := keys.flatMap fun c => if isEol c then crlf else [c]

/-- What comes back of some lines. -/
def reply (suffix : List Byte) (lines : List (List Byte)) : List Byte := (lines.flatMap (UartEcho.triple suffix)).flatten

theorem written_append (talk talk' : Talk) : written (talk ++ talk') = written talk ++ written talk' :=
  List.flatMap_append

theorem written_of_whole {talk : Talk} (h : Whole talk) : written talk = (calls talk).flatten := by
  induction talk with
  | nil => rfl
  | cons e talk ih =>
    obtain ⟨he, hrest⟩ := List.forall_mem_cons.mp h
    have hcalls : calls (e :: talk) = calls [e] ++ calls talk := calls_append [e] talk
    have hwritten : written (e :: talk) = written [e] ++ written talk := written_append [e] talk
    rw [hwritten, hcalls, List.flatten_append, ih hrest]
    congr 1
    obtain ⟨req, res⟩ := e
    cases req with
    | uartWrite buffer =>
      obtain ⟨st, w⟩ := res
      obtain rfl : w = buffer.length := he
      simp [written, calls]
    | _ => rfl

theorem whole_of_silent {talk : Talk} (h : calls talk = []) : Whole talk := by
  rintro ⟨req, res⟩ he
  cases req with
  | uartWrite buffer =>
    have hnil := List.flatMap_eq_nil_iff.mp h _ he
    cases hnil
  | _ => trivial

theorem wire_concat (keys : List Byte) (c : Byte) :
    wire (keys ++ [c]) = wire keys ++ if isEol c then crlf else [c] := by
  simp [wire]

theorem flatten_said {keys : List Byte} (h : Plain keys) (localCol : Nat) :
    (UartTerm.said sent keys (false, localCol)).flatten = wire keys := by
  induction keys generalizing localCol with
  | nil => rfl
  | cons c keys ih =>
    obtain ⟨⟨herase, hctrl⟩, hrest⟩ := List.forall_mem_cons.mp h
    rw [UartTerm.said, if_neg hctrl, List.flatten_append, ih hrest, sent, if_neg herase]
    simp only [wire, List.flatMap_cons]
    split_ifs <;> simp

/-- CRLF ends the same lines as CR or LF. -/
theorem lines_wire (keys : List Byte) :
    UartEcho.lines (wire keys) = UartEcho.lines keys ∧ unfinished isEol (wire keys) = unfinished isEol keys := by
  induction keys using List.reverseRecOn with
  | nil => exact ⟨rfl, rfl⟩
  | append_singleton keys c ih =>
    obtain ⟨hlines, hunfinished⟩ := ih
    rw [wire_concat]
    by_cases hc : isEol c
    · have hreturn : isEol carriageReturn := rfl
      have hfeed : isEol lineFeed := rfl
      have hsplit : wire keys ++ crlf = wire keys ++ [carriageReturn] ++ [lineFeed] := by simp [crlf]
      rw [if_pos hc, hsplit, UartEcho.lines_concat_eol hfeed, (concat_sep hreturn).2, (concat_sep hfeed).2,
        UartEcho.lines_concat_eol hreturn, UartEcho.lines_concat_eol hc, (concat_sep hc).2, hlines, hunfinished]
      exact ⟨List.append_nil _, rfl⟩
    · have hother : isEol c = false := Bool.eq_false_iff.mpr hc
      rw [if_neg hc, UartEcho.lines_concat_other hother, UartEcho.lines_concat_other hother, (concat_other hother).2,
        (concat_other hother).2, hlines, hunfinished]
      exact ⟨rfl, rfl⟩

theorem isEol_of_mem_lines {stream line : List Byte} (h : line ∈ UartEcho.lines stream) : ∀ c ∈ line, ¬isEol c := by
  obtain ⟨segment, hsegment, rfl⟩ := List.mem_map.mp (List.mem_of_mem_filter h)
  intro c hc
  have hsep := (sep_of_mem stream).1 segment hsegment c (List.mem_of_mem_drop hc)
  rw [hsep]
  exact Bool.false_ne_true

/-- A text of one line is shown as it is, whatever came before it. -/
theorem normalise_line {text : List Byte} (h : ∀ c ∈ text, ¬isEol c) (afterCr : Bool) (rest : List Byte) :
    UartTerm.normalise afterCr (text ++ crlf ++ rest) = text ++ crlf ++ UartTerm.normalise false rest := by
  induction text generalizing afterCr with
  | nil => rfl
  | cons c text ih =>
    obtain ⟨hc, htext⟩ := List.forall_mem_cons.mp h
    have hfeed : c ≠ lineFeed := by
      rintro rfl
      exact hc rfl
    rw [List.cons_append, List.cons_append, UartTerm.normalise_cons hfeed, ih htext]
    rfl

theorem normalise_reply {suffix : List Byte} {lines : List (List Byte)} (hsuffix : ∀ c ∈ suffix, ¬isEol c)
    (hlines : ∀ line ∈ lines, ∀ c ∈ line, ¬isEol c) :
    UartTerm.normalise false (reply suffix lines) = reply suffix lines := by
  induction lines with
  | nil => rfl
  | cons line lines ih =>
    obtain ⟨hline, hrest⟩ := List.forall_mem_cons.mp hlines
    have hsplit : reply suffix (line :: lines) = line ++ suffix ++ crlf ++ reply suffix lines := by
      simp [reply, UartEcho.triple]
    have htext : ∀ c ∈ line ++ suffix, ¬isEol c := List.forall_mem_append.mpr ⟨hline, hsuffix⟩
    rw [hsplit, normalise_line htext, ih hrest]

theorem normalise_mono {stream stream' : List Byte} (h : stream <+: stream') :
    UartTerm.normalise false stream <+: UartTerm.normalise false stream' := by
  obtain ⟨rest, rfl⟩ := h
  rw [UartTerm.normalise_append]
  exact List.prefix_append _ _

theorem reply_mono {suffix stream stream' : List Byte} (h : stream <+: stream') :
    reply suffix (UartEcho.lines stream) <+: reply suffix (UartEcho.lines stream') := by
  obtain ⟨rest, rfl⟩ := h
  obtain ⟨new, hnew⟩ := UartEcho.lines_append stream rest
  rw [hnew, reply, reply, List.flatMap_append, List.flatten_append]
  exact List.prefix_append _ _

/-- Where no key was typed, the calls are those of the lines. -/
theorem calls_of_quiet {suffix : List Byte} {blocks : List UartEcho.Block}
    (h : blocks.filterMap UartEcho.Block.keyOf = []) :
    blocks.flatMap (UartEcho.Block.calls suffix) =
      (blocks.filterMap UartEcho.Block.lineOf).flatMap (UartEcho.triple suffix) := by
  induction blocks with
  | nil => rfl
  | cons block blocks ih =>
    cases block with
    | key buffer => cases h
    | line text =>
      have hrest := ih h
      simp only [List.flatMap_cons, hrest]
      rfl

section Ends
variable {argv0 argv0' : List UInt8} {args args' : List (List UInt8)} {talk₀ talk talk₀' talk' : Talk}
  {s t : UartTerm.State} {s' t' : UartEcho.State}

/-- Whatever is still on its way in both directions, what has come back to the screen is the lines that were typed, each
    with the suffix; and it is all of them once nothing is on its way. -/
theorem echoes_typed (hstart : Ends (UartTerm.main argv0 args).start talk₀ (.inr s))
    (hturns : Turns (UartTerm.main argv0 args).turn s talk t)
    (hstart' : Ends (UartEcho.main argv0' args').start talk₀' (.inr s'))
    (hturns' : Turns (UartEcho.main argv0' args').turn s' talk' t')
    (hwhole : Whole (talk₀ ++ talk)) (hwhole' : Whole (talk₀' ++ talk'))
    (hto : received (talk₀' ++ talk') <+: written (talk₀ ++ talk))
    (hfrom : received (talk₀ ++ talk) <+: written (talk₀' ++ talk'))
    (hplain : Plain (keysOf (talk₀ ++ talk))) (hquiet : keysOf (talk₀' ++ talk') = [])
    (hsuffix : ∀ c ∈ s'.suffix, ¬isEol c) :
    ∃ pieces, UartTerm.Says (talk₀ ++ talk) pieces ∧
      (pieces.filterMap UartTerm.Piece.deviceOf).flatten <+:
        reply s'.suffix (UartEcho.lines (keysOf (talk₀ ++ talk))) ∧
      (received (talk₀' ++ talk') = written (talk₀ ++ talk) → received (talk₀ ++ talk) = written (talk₀' ++ talk') →
        (pieces.filterMap UartTerm.Piece.deviceOf).flatten =
          reply s'.suffix (UartEcho.lines (keysOf (talk₀ ++ talk)))) := by
  obtain ⟨-, -, pieces, htold⟩ := UartTerm.launched_say hstart hturns
  obtain ⟨-, -, -, blocks, htold'⟩ := UartEcho.launched_say hstart' hturns'
  have hwire : written (talk₀ ++ talk) = wire (keysOf (talk₀ ++ talk)) := by
    rw [written_of_whole hwhole, htold.calls, flatten_said hplain]
  have hquiet' : blocks.filterMap UartEcho.Block.keyOf = [] := by
    rw [htold'.keys, hquiet]
    rfl
  have hback : written (talk₀' ++ talk') = reply s'.suffix (UartEcho.lines (received (talk₀' ++ talk'))) := by
    rw [written_of_whole hwhole', htold'.calls, calls_of_quiet hquiet', htold'.lines]
    rfl
  have hshown : (pieces.filterMap UartTerm.Piece.deviceOf).flatten =
      UartTerm.normalise false (received (talk₀ ++ talk)) := by
    rw [htold.device, (UartTerm.normalise_spec _).1]
  have hlines := (lines_wire (keysOf (talk₀ ++ talk))).1
  have hnormal : UartTerm.normalise false (reply s'.suffix (UartEcho.lines (keysOf (talk₀ ++ talk)))) =
      reply s'.suffix (UartEcho.lines (keysOf (talk₀ ++ talk))) :=
    normalise_reply hsuffix fun line hline => isEol_of_mem_lines hline
  rw [hwire] at hto
  rw [hback] at hfrom
  refine ⟨pieces, htold, ?_, fun hall hall' => ?_⟩
  · have hsent := hfrom.trans (reply_mono hto)
    rw [hlines] at hsent
    rw [hshown, ← hnormal]
    exact normalise_mono hsent
  · rw [hshown, hall', hback, hall, hwire, hlines, hnormal]

end Ends

/-- `a` and Return are typed, and `a !` comes back. -/
theorem echoes_typed_line : ∃ (talk : Talk) (pieces : List UartTerm.Piece), UartTerm.Says talk pieces ∧
    keysOf talk = [97, 13] ∧ (pieces.filterMap UartTerm.Piece.deviceOf).flatten = [97, 32, 33, 13, 10] := by
  have hturn : Ends (UartTerm.turn ⟨some default, false, false, 0⟩)
      [⟨.stopped, false⟩, ⟨.poll, .ok (true, false)⟩, ⟨.readStdin 256, .ok ⟨[97, 13], by decide⟩⟩,
        ⟨.uartWrite [97], (.ok, 1)⟩, ⟨.display [97], ()⟩, ⟨.uartWrite crlf, (.ok, 2)⟩, ⟨.display crlf, ()⟩]
      (.inl ⟨some default, false, false, 0⟩) := .ask (.ask (.ask (.ask (.ask (.ask (.ask (.ret _)))))))
  have hturn₁ : Ends (UartTerm.turn ⟨some default, false, false, 0⟩)
      [⟨.stopped, false⟩, ⟨.poll, .ok (false, true)⟩, ⟨.uartRead 1024, (.ok, ⟨[97, 32, 33, 13, 10], by decide⟩)⟩,
        ⟨.display [97, 32, 33, 13, 10], ()⟩]
      (.inl ⟨some default, false, false, 0⟩) := .ask (.ask (.ask (.ask (.ret _))))
  have hturn' : Ends (UartEcho.turn ⟨[32, 33], some default, .empty, 0⟩)
      [⟨.stopped, false⟩, ⟨.poll, .ok (false, true)⟩, ⟨.uartRead 256, (.ok, ⟨[97, 13, 10], by decide⟩)⟩,
        ⟨.uartWrite [97], (.ok, 1)⟩, ⟨.uartWrite [32, 33], (.ok, 2)⟩, ⟨.uartWrite crlf, (.ok, 2)⟩]
      (.inl ⟨[32, 33], some default, .empty, 0⟩) := .ask (.ask (.ask (.ask (.ask (.ask (.ret _))))))
  obtain ⟨talk₀, hstart⟩ := UartTerm.main_starts
  obtain ⟨talk₀', hstart'⟩ := UartEcho.main_starts
  obtain ⟨⟨hcalls, -, hreceived, hkeys⟩, -⟩ := UartTerm.start_silent hstart
  obtain ⟨⟨hcalls', -, hreceived', hkeys'⟩, -⟩ := UartEcho.start_silent hstart'
  have hwritten : written talk₀ = [] := by rw [written_of_whole (whole_of_silent hcalls), hcalls]; rfl
  have hwritten' : written talk₀' = [] := by rw [written_of_whole (whole_of_silent hcalls'), hcalls']; rfl
  obtain ⟨pieces, htold, -, hall⟩ := echoes_typed hstart (.again (.again .none hturn) hturn₁)
    hstart' (.again .none hturn')
    (List.forall_mem_append.mpr ⟨whole_of_silent hcalls, by simp [Taken, crlf]⟩)
    (List.forall_mem_append.mpr ⟨whole_of_silent hcalls', by simp [Taken, crlf]⟩)
    (by rw [received_append, written_append, hreceived', hwritten]; exact List.prefix_rfl)
    (by rw [received_append, written_append, hreceived, hwritten']; exact List.prefix_rfl)
    (by rw [keysOf_append, hkeys]; unfold Plain; decide) (by rw [keysOf_append, hkeys']; rfl) (by decide)
  refine ⟨_, pieces, htold, by rw [keysOf_append, hkeys]; rfl, ?_⟩
  rw [hall (by rw [received_append, written_append, hreceived', hwritten]; rfl)
    (by rw [received_append, written_append, hreceived, hwritten']; rfl), keysOf_append, hkeys]
  rfl

end Link
end Apps
end Emberlite
