import Mathlib.Data.List.FinRange

/-! Buffers of a fixed size. An access that leaves the buffer has no result. -/

namespace FixedBuffer
variable {α : Type} {n : Nat}

/-- Copies `src` into the buffer, from `offset` on. -/
def write (buffer : Vector α n) (offset : Nat) (src : List α) : Option (Vector α n) :=
  if h : offset + src.length ≤ n then
    some ⟨(buffer.toList.take offset ++ src ++ buffer.toList.drop (offset + src.length)).toArray, by
      simp
      omega⟩
  else none

/-- The first `len` elements. -/
def read (buffer : Vector α n) (len : Nat) : Option (List α) :=
  if len ≤ n then some (buffer.toList.take len) else none

/-- The `len` elements of `data` from index `i` on. -/
def slice (data : List α) (i len : Nat) : Option (List α) :=
  if i + len ≤ data.length then some ((data.drop i).take len) else none

variable {buffer : Vector α n} {offset len : Nat} {src : List α}

theorem read_eq (hlen : len ≤ n) : read buffer len = some (buffer.toList.take len) := if_pos hlen

theorem write_eq (buffer : Vector α n) (hfit : offset + src.length ≤ n) :
    ∃ buffer' : Vector α n, write buffer offset src = some buffer' ∧
      buffer'.toList = buffer.toList.take offset ++ src ++ buffer.toList.drop (offset + src.length) :=
  ⟨_, dif_pos hfit, rfl⟩

theorem write_after {front : List α} (hfront : buffer.toList.take offset = front) (hfit : offset + src.length ≤ n) :
    ∃ buffer' : Vector α n, write buffer offset src = some buffer' ∧
      buffer'.toList.take (offset + src.length) = front ++ src := by
  obtain ⟨buffer', hwrite, hlist⟩ := write_eq buffer hfit
  have hlength : (front ++ src).length = offset + src.length := by
    rw [List.length_append, ← hfront, List.length_take, Vector.length_toList]
    omega
  refine ⟨buffer', hwrite, ?_⟩
  rw [hlist, hfront, ← hlength, List.take_left]

theorem getD_toList (buffer : Vector α n) (d : α) {i : Nat} (hi : i < n) : buffer.toList.getD i d = buffer[i] := by
  simp [hi]

/-- The elements `waiting` are the front of the buffer, and there is room for more. -/
structure Front (buffer : Vector α n) (waiting : List α) : Prop where
  room : waiting.length < n
  front : buffer.toList.take waiting.length = waiting

theorem toList_take_self (buffer : Vector α n) : buffer.toList.take n = buffer.toList :=
  List.take_of_length_le (Nat.le_of_eq Vector.length_toList)

theorem Front.fill {waiting : List α} (h : Front buffer waiting) (p : List α) : ∃ buffer' : Vector α n,
    write buffer waiting.length (p.take (n - waiting.length)) = some buffer' ∧
      (waiting.length + p.length < n → Front buffer' (waiting ++ p)) ∧
      (n ≤ waiting.length + p.length → buffer'.toList = waiting ++ p.take (n - waiting.length)) := by
  obtain ⟨hroom, hfront⟩ := h
  have hfit : waiting.length + (p.take (n - waiting.length)).length ≤ n := by
    rw [List.length_take]
    omega
  obtain ⟨buffer', hwrite, hfront'⟩ := write_after hfront hfit
  refine ⟨buffer', hwrite, fun hlt => ?_, fun hge => ?_⟩
  · have hall : p.take (n - waiting.length) = p := List.take_of_length_le (by omega)
    rw [hall] at hfront'
    exact ⟨by rwa [List.length_append], by rwa [List.length_append]⟩
  · have hlength : waiting.length + (p.take (n - waiting.length)).length = n := by
      rw [List.length_take]
      omega
    rwa [hlength, toList_take_self] at hfront'

/-- The rule of a loop that counts up to `n`: `P i` holds when it reaches index `i`. -/
theorem foldl_finRange {S : Type} (P : Nat → S → Prop) {body : S → Fin n → S} {s : S} (hinit : P 0 s)
    (hbody : ∀ (i : Fin n) (s : S), P i s → P (i + 1) (body s i)) : P n ((List.finRange n).foldl body s) := by
  induction n with
  | zero => exact hinit
  | succ n ih =>
    rw [List.finRange_succ_last, List.foldl_append, List.foldl_map]
    exact hbody (Fin.last n) _ (ih fun i => hbody i.castSucc)

end FixedBuffer
