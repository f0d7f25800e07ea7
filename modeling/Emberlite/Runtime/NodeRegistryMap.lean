import Emberlite.Lib.OrderedMap
import Emberlite.Runtime.NodeRegistry

/-! The registry is a bounded map from node names, in the order of registration. `registryOf` lays a map
    out as the C structures; each call on the layout gives the layout of the map after the same call. -/

namespace Emberlite
namespace NodeRegistry
open CString

/-! ### The map -/

/-- A node name: 1 to 31 bytes, none of them NUL. -/
abbrev NodeName := { s : List UInt8 // 0 < s.length ∧ s.length < nameMax ∧ ∀ c ∈ s, c ≠ 0 }

/-- What a record says about its node. -/
structure NodeInfo where
  nodeId : UInt16
  kind : NodeKind
  state : NodeState
  lastHeartbeatMs : UInt32
  userData : UInt64
  deriving DecidableEq

/-- The map that a registry of this capacity stands for. -/
abbrev NodeMap (cap : Nat) := OrderedMap NodeName NodeInfo cap

/-- The name that a string argument stands for; there is none for NULL, for the empty string, and for a
    string without a NUL in its first 32 bytes. -/
def nameOf : Option (List UInt8) → Option NodeName
  | none => none
  | some s =>
    if h : 0 < (text s).length ∧ (text s).length < nameMax then
      some ⟨text s, h.1, h.2, fun _ => ne_zero_of_mem_text⟩
    else none

/-- The value of a record. -/
def infoOf (record : NodeRecord) : NodeInfo :=
  ⟨record.nodeId, record.kind, record.state, record.lastHeartbeatMs, record.userData⟩

/-- The record of an entry: its name filled up with NULs. -/
def recordOf (e : NodeName × NodeInfo) : NodeRecord where
  name := ⟨e.1.val ++ List.replicate (nameMax - e.1.val.length) 0, by
    rw [List.length_append, List.length_replicate]
    have := e.1.property.2.1
    omega⟩
  nodeId := e.2.nodeId
  kind := e.2.kind
  state := e.2.state
  lastHeartbeatMs := e.2.lastHeartbeatMs
  userData := e.2.userData

namespace NodeMap
variable {cap : Nat}

/-- A record is added, where its name is valid and new and there is room. -/
def register (m : NodeMap cap) : Option NodeRecord → Result × NodeMap cap
  | none => (.einval, m)
  | some record =>
    match nameOf (some record.name.toList) with
    | none => (.einval, m)
    | some n =>
      if hcap : cap ≤ m.entries.length then (.enospc, m)
      else if hn : n ∈ m.keys then (.edup, m)
      else (.ok, m.insert n (infoOf record) hn (Nat.lt_of_not_le hcap))

/-- A name is taken out. -/
def unregister (m : NodeMap cap) (name : Option (List UInt8)) : Result × NodeMap cap :=
  match nameOf name with
  | none => (.einval, m)
  | some n => if n ∈ m.keys then (.ok, m.erase n) else (.enotfound, m)

/-- The value of a name is changed. -/
def update (m : NodeMap cap) (name : Option (List UInt8)) (f : NodeInfo → NodeInfo) : Result × NodeMap cap :=
  match nameOf name with
  | none => (.enotfound, m)
  | some n => if n ∈ m.keys then (.ok, m.modify n f) else (.enotfound, m)

/-- The position of a name, with its record. -/
def find (m : NodeMap cap) (name : Option (List UInt8)) : Option (Nat × NodeRecord) := do
  let n ← nameOf name
  let i ← m.index? n
  let e ← m.entries[i]?
  return (i, recordOf e)

/-- The entry at an index, as a record. -/
def recordAt (m : NodeMap cap) (index : Nat) : Option (Nat × NodeRecord) := do
  let e ← m.entries[index]?
  return (index, recordOf e)

end NodeMap

/-- The calls that change the record of a name. -/
inductive NamedCall where
  | unregister
  | updateState (state : NodeState)
  | heartbeat (nowMs : UInt32)

/-- The call on a registry. -/
def NamedCall.apply (call : NamedCall) (r : NodeRegistry) (name : Option (List UInt8)) : Result × NodeRegistry :=
  match call with
  | .unregister => r.unregister name
  | .updateState state => r.updateState name state
  | .heartbeat nowMs => r.heartbeat name nowMs

/-- What the call does to the entry of a name that is in the map. -/
def NamedCall.onEntry {cap : Nat} (call : NamedCall) (m : NodeMap cap) (n : NodeName) : NodeMap cap :=
  match call with
  | .unregister => m.erase n
  | .updateState state => m.modify n fun v => { v with state }
  | .heartbeat nowMs => m.modify n fun v => { v with lastHeartbeatMs := nowMs }

/-- The code for an argument that is no name: only `ember_node_registry_unregister` tells it from a name that is
    absent. -/
def NamedCall.invalidCode : NamedCall → Result
  | .unregister => .einval
  | .updateState _ | .heartbeat _ => .enotfound

/-- The call on the map. -/
def NamedCall.onMap {cap : Nat} (call : NamedCall) (m : NodeMap cap) (name : Option (List UInt8)) :
    Result × NodeMap cap :=
  match nameOf name with
  | none => (call.invalidCode, m)
  | some n => if n ∈ m.keys then (.ok, call.onEntry m n) else (.enotfound, m)

/-- The storage of a map: its entries in order, then zeroed records up to the capacity. -/
def storageOf {cap : Nat} (m : NodeMap cap) : List NodeRecord :=
  m.entries.map recordOf ++ List.replicate (cap - m.entries.length) .zero

/-- The registry that holds the entries of a map. -/
def registryOf {cap : Nat} (m : NodeMap cap) : NodeRegistry := ⟨storageOf m, cap, m.entries.length⟩

/-! ### Names -/

theorem nodeNameLenLoop_eq (s : List UInt8) (n len : Nat) :
    nodeNameLenLoop s n len = len + min n (text (s.drop len)).length := by
  induction n generalizing len with
  | zero => simp [nodeNameLenLoop]
  | succ n ih =>
    have hhead : (s.drop len).headD 0 = s.getD len 0 := by
      rw [List.headD_eq_head?_getD, List.head?_drop, List.getD_eq_getElem?_getD]
    rw [nodeNameLenLoop, text_eq, hhead]
    by_cases hc : s.getD len 0 = 0
    · simp only [hc, ne_eq, not_true_eq_false, if_false, if_true, List.length_nil]
      omega
    · simp only [hc, ne_eq, not_false_eq_true, if_true, if_false, ih, List.tail_drop, List.length_cons]
      omega

theorem nodeNameLen_eq (s : List UInt8) : nodeNameLen s = min nameMax (text s).length := by
  rw [nodeNameLen, nodeNameLenLoop_eq, List.drop_zero, Nat.zero_add]

/-- The code accepts exactly the strings that stand for a name. -/
theorem nodeNameValid_eq (p : Option (List UInt8)) : nodeNameValid p = (nameOf p).isSome := by
  rcases p with _ | s
  · rfl
  · have hpos : s.getD 0 0 ≠ 0 ↔ 0 < (text s).length := by
      rw [text_eq]
      rcases s with _ | ⟨c, s⟩
      · simp
      · by_cases hc : c = 0 <;> simp [hc]
    simp only [nodeNameValid, nodeNameLen_eq, nameOf, hpos]
    split <;> rename_i h
    · simp [h]
    · rw [Option.isSome_none, decide_eq_false_iff_not]
      intro h'
      exact h ⟨h'.1, by omega⟩

theorem nameOf_some {s : List UInt8} {n : NodeName} (h : nameOf (some s) = some n) : text s = n.val := by
  obtain ⟨_, h⟩ := Option.dite_none_right_eq_some.mp h
  exact congrArg Subtype.val (Option.some.inj h)

theorem text_recordOf (e : NodeName × NodeInfo) : text (recordOf e).name.toList = e.1.val :=
  text_append_zeros e.1.property.2.2 _

/-- A stored name compares equal to exactly the strings that stand for it. -/
theorem strncmp_recordOf {s : List UInt8} {n : NodeName} (h : nameOf (some s) = some n)
    (e : NodeName × NodeInfo) : strncmp nameMax (recordOf e).name.toList s = 0 ↔ e.1 = n := by
  have hlen := e.1.property.2.1
  have hlen' := n.property.2.1
  rw [strncmp_eq_zero, text_recordOf, nameOf_some h, List.take_of_length_le (Nat.le_of_lt hlen),
    List.take_of_length_le (Nat.le_of_lt hlen'), Subtype.ext_iff]

/-- A copied record keeps its name, cut at the NUL, and all other fields. -/
theorem nodeRecordCopy_eq {record : NodeRecord} {n : NodeName}
    (h : nameOf (some record.name.toList) = some n) : nodeRecordCopy record = recordOf (n, infoOf record) := by
  have htext := nameOf_some h
  have hne : record.name.toList.getD 0 0 ≠ 0 := by
    have := nodeNameValid_eq (some record.name.toList)
    rw [h] at this
    simp only [nodeNameValid, Option.isSome_some, decide_eq_true_eq] at this
    exact this.1
  have hlen := n.property.2.1
  have hname : (copyName NodeRecord.zero.name record.name.toList).toList =
      n.val ++ List.replicate (nameMax - n.val.length) 0 := by
    have hzero : (NodeRecord.zero.name.toList.drop (nameMax - 1)) = List.replicate 1 (0 : UInt8) := rfl
    have hfill : nameMax - n.val.length = nameMax - 1 - n.val.length + 1 := by omega
    show strncpy (nameMax - 1) record.name.toList ++ NodeRecord.zero.name.toList.drop (nameMax - 1) = _
    rw [strncpy_eq, htext, hzero, List.take_of_length_le (by omega), List.append_assoc,
      List.replicate_append_replicate, hfill]
  have hbuf : copyName NodeRecord.zero.name record.name.toList = (recordOf (n, infoOf record)).name :=
    List.Vector.eq _ _ hname
  simp only [nodeRecordCopy, hne, ne_eq, not_false_eq_true, if_true, hbuf]
  rfl

/-! ### The storage of a map -/

section Storage
variable {cap : Nat} {m : NodeMap cap}

theorem slot_storageOf {i : Nat} {e : NodeName × NodeInfo} (h : m.entries[i]? = some e) :
    slot (storageOf m) i = recordOf e := by
  have hi : i < m.entries.length := (List.getElem?_eq_some_iff.mp h).1
  rw [slot, storageOf, List.getD_eq_getElem?_getD, List.getElem?_append_left (by simpa using hi),
    List.getElem?_map, h]
  rfl

theorem storageOf_split {pre post : List (NodeName × NodeInfo)} {e : NodeName × NodeInfo}
    (h : m.entries = pre ++ e :: post) :
    storageOf m = pre.map recordOf ++ recordOf e ::
      (post.map recordOf ++ List.replicate (cap - m.entries.length) .zero) := by
  rw [storageOf, h]
  simp

theorem nameMatches_storageOf {s : List UInt8} {n : NodeName} (hs : nameOf (some s) = some n) {i : Nat}
    {e : NodeName × NodeInfo} (h : m.entries[i]? = some e) :
    nameMatches (storageOf m) s i = true ↔ e.1 = n := by
  rw [nameMatches, slot_storageOf h, decide_eq_true_eq, strncmp_recordOf hs]

end Storage

/-! ### Loops -/

section Loops
variable {records : List NodeRecord} {name : List UInt8}

theorem findLoop_none {n i : Nat} (h : ∀ j, i ≤ j → j < i + n → nameMatches records name j = false) :
    findLoop records name n i = none := by
  induction n generalizing i with
  | zero => rfl
  | succ n ih =>
    rw [findLoop, h i (Nat.le_refl i) (by omega)]
    exact ih fun j hj hj' => h j (by omega) (by omega)

theorem findLoop_some {n i k : Nat} (hk : i ≤ k) (hkn : k < i + n) (hmatch : nameMatches records name k = true)
    (h : ∀ j, i ≤ j → j < k → nameMatches records name j = false) : findLoop records name n i = some k := by
  induction n generalizing i with
  | zero => omega
  | succ n ih =>
    by_cases hik : i = k
    · subst hik
      simp [findLoop, hmatch]
    · rw [findLoop, h i (Nat.le_refl i) (by omega)]
      exact ih (by omega) (by omega) fun j hj hj' => h j (by omega) hj'

theorem unregisterLoop_eq (registry : NodeRegistry) (n i : Nat) :
    unregisterLoop registry name n i =
      match findLoop registry.records name n i with
      | none => (.enotfound, registry)
      | some k =>
        (.ok, { registry with
          records := (shiftLoop registry.records (k + 1) (registry.count - (k + 1))).set
            (registry.count - 1) .zero
          count := registry.count - 1 }) := by
  induction n generalizing i with
  | zero => rfl
  | succ n ih =>
    rw [unregisterLoop, findLoop]
    cases nameMatches registry.records name i with
    | false => exact ih (i + 1)
    | true => rfl

/-- The shifting loop moves the records of `mid` down over `x`; the zeroed slot is the last of them. -/
theorem shiftLoop_split (pre mid post : List NodeRecord) (x : NodeRecord) :
    (shiftLoop (pre ++ x :: (mid ++ post)) (pre.length + 1) mid.length).set (pre.length + mid.length) .zero =
      pre ++ mid ++ .zero :: post := by
  induction mid generalizing pre x with
  | nil => simp [shiftLoop]
  | cons y mid ih =>
    have hslot : slot (pre ++ x :: (y :: mid ++ post)) (pre.length + 1) = y := by
      rw [slot, List.getD_eq_getElem?_getD, List.getElem?_append_right (by omega)]
      simp
    have hset : (pre ++ x :: (y :: mid ++ post)).set pre.length y = (pre ++ [y]) ++ y :: (mid ++ post) := by
      simp
    have hpos : pre.length + (mid.length + 1) = (pre ++ [y]).length + mid.length := by
      rw [List.length_append, List.length_singleton]
      omega
    have hnext : pre.length + 1 = (pre ++ [y]).length := by simp
    rw [List.length_cons, shiftLoop, Nat.add_sub_cancel, hslot, hset, hpos, hnext, ih]
    simp

end Loops

/-! ### Each call on the layout of a map -/

section Calls
variable {cap : Nat} {m : NodeMap cap}

theorem lookup_none {p : Option (List UInt8)} (h : nameOf p = none) : (registryOf m).lookup p = none := by
  rcases p with _ | s
  · rfl
  · have hvalid : nodeNameValid (some s) = false := by rw [nodeNameValid_eq, h, Option.isSome_none]
    simp [lookup, hvalid]

theorem findLoop_storageOf {s : List UInt8} {n : NodeName} (hs : nameOf (some s) = some n) :
    findLoop (storageOf m) s m.entries.length 0 = m.index? n := by
  have hmatch : ∀ {j : Nat} {e : NodeName × NodeInfo}, m.entries[j]? = some e →
      nameMatches (storageOf m) s j = decide (e.1 = n) := fun {j e} he => by
    rw [Bool.eq_iff_iff, nameMatches_storageOf hs he, decide_eq_true_eq]
  cases hi : m.index? n with
  | none =>
    have hfresh := OrderedMap.index?_eq_none.mp hi
    refine findLoop_none fun j _ hj => ?_
    rw [Nat.zero_add] at hj
    have he := List.getElem?_eq_getElem hj
    rw [hmatch he, decide_eq_false_iff_not]
    exact fun heq => hfresh (List.mem_map.mpr ⟨_, List.getElem_mem hj, heq⟩)
  | some i =>
    obtain ⟨pre, v, post, hsplit, hlen, hpre, -⟩ := OrderedMap.index?_eq_some hi
    have hat : m.entries[i]? = some (n, v) := by rw [hsplit, ← hlen]; simp
    refine findLoop_some (Nat.zero_le i) ?_ ?_ fun j _ hj => ?_
    · rw [Nat.zero_add]
      exact (List.getElem?_eq_some_iff.mp hat).1
    · rw [hmatch hat]
      simp
    · have hj' : j < pre.length := hlen ▸ hj
      have he : m.entries[j]? = some pre[j] := by rw [hsplit, List.getElem?_append_left hj']; simp
      rw [hmatch he, decide_eq_false_iff_not]
      exact hpre _ (List.getElem_mem hj')

theorem lookup_some {p : Option (List UInt8)} {n : NodeName} (h : nameOf p = some n) :
    (registryOf m).lookup p = m.index? n := by
  rcases p with _ | s
  · cases h
  · have hvalid : nodeNameValid (some s) = true := by rw [nodeNameValid_eq, h, Option.isSome_some]
    simp only [lookup, hvalid, if_true]
    exact findLoop_storageOf h

/-- The shift and the zeroing of `ember_node_registry_unregister` leave the entries before and after the
    removed one, and one more zeroed slot. -/
theorem shift_storageOf {pre post : List (NodeName × NodeInfo)} {e : NodeName × NodeInfo}
    (h : m.entries = pre ++ e :: post) :
    (shiftLoop (storageOf m) (pre.length + 1) (m.entries.length - (pre.length + 1))).set
        (m.entries.length - 1) .zero =
      (pre ++ post).map recordOf ++ List.replicate (cap - (pre.length + post.length)) .zero := by
  have hcount : m.entries.length = pre.length + post.length + 1 := by
    rw [h, List.length_append, List.length_cons]
    omega
  have hfill : cap - (pre.length + post.length) = cap - m.entries.length + 1 := by
    have := m.bounded
    omega
  have htodo : m.entries.length - (pre.length + 1) = (post.map recordOf).length := by
    rw [List.length_map]
    omega
  have hlast : m.entries.length - 1 = (pre.map recordOf).length + (post.map recordOf).length := by
    rw [List.length_map, List.length_map]
    omega
  have hslot : pre.length + 1 = (pre.map recordOf).length + 1 := by rw [List.length_map]
  have hshift := shiftLoop_split (pre.map recordOf) (post.map recordOf)
    (List.replicate (cap - m.entries.length) .zero) (recordOf e)
  rw [htodo, hlast, hslot, storageOf_split h, hshift, hfill, List.replicate_succ, List.map_append]

theorem lookup_registryOf (p : Option (List UInt8)) :
    ((registryOf m).lookup p).map (fun i => (i, slot (storageOf m) i)) = m.find p := by
  cases hn : nameOf p with
  | none => simp [lookup_none hn, NodeMap.find, hn]
  | some n =>
    rw [lookup_some hn]
    cases hi : m.index? n with
    | none => simp [NodeMap.find, hn, hi]
    | some i =>
      obtain ⟨pre, v, post, hsplit, hlen, -, -⟩ := OrderedMap.index?_eq_some hi
      have hat : m.entries[i]? = some (n, v) := by rw [hsplit, ← hlen]; simp
      simp [NodeMap.find, hn, hi, hat, slot_storageOf hat]

theorem access_registryOf (i : Nat) :
    ((registryOf m).access i).map (fun i => (i, slot (storageOf m) i)) = m.recordAt i := by
  unfold access NodeMap.recordAt
  by_cases hi : i < m.entries.length
  · have hat := List.getElem?_eq_getElem hi
    have hge : ¬i ≥ (registryOf m).count := Nat.not_le.mpr hi
    simp [hge, hat, slot_storageOf hat]
  · have hge : i ≥ (registryOf m).count := Nat.not_lt.mp hi
    simp [hge, List.getElem?_eq_none (Nat.not_lt.mp hi)]

theorem clear_registryOf : (registryOf m).clear = registryOf (OrderedMap.empty : NodeMap cap) := by
  simp [clear, registryOf, storageOf, OrderedMap.empty]

theorem mem_keys_iff_index? {n : NodeName} : n ∈ m.keys ↔ (m.index? n).isSome := by
  rw [← not_iff_not, ← OrderedMap.index?_eq_none, Option.not_isSome_iff_eq_none]

theorem register_registryOf (record : Option NodeRecord) :
    (registryOf m).register record = ((m.register record).1, registryOf (m.register record).2) := by
  rcases record with _ | record
  · rfl
  · simp only [register, NodeMap.register, nodeNameValid_eq]
    cases hn : nameOf (some record.name.toList) with
    | none => simp
    | some n =>
      simp only [Option.isSome_some, not_true_eq_false, if_false]
      by_cases hcap : cap ≤ m.entries.length
      · have hfull : (registryOf m).count ≥ (registryOf m).capacity := hcap
        simp [hcap, hfull]
      · have hroom : ¬(registryOf m).count ≥ (registryOf m).capacity := hcap
        simp only [hcap, hroom, if_false, dite_false, find, lookup_some hn]
        by_cases hmem : n ∈ m.keys
        · simp [hmem, mem_keys_iff_index?.mp hmem]
        · have hnone := OrderedMap.index?_eq_none.mpr hmem
          have hfill : cap - m.entries.length = cap - (m.entries.length + 1) + 1 := by omega
          simp only [hmem, hnone, dite_false, nodeRecordCopy_eq hn]
          simp [registryOf, storageOf, OrderedMap.insert, hfill, List.replicate_succ]

theorem unregister_registryOf (p : Option (List UInt8)) :
    (registryOf m).unregister p = ((m.unregister p).1, registryOf (m.unregister p).2) := by
  rcases p with _ | s
  · rfl
  · simp only [unregister, NodeMap.unregister, nodeNameValid_eq]
    cases hn : nameOf (some s) with
    | none => simp
    | some n =>
      simp only [Option.isSome_some, not_true_eq_false, if_false, unregisterLoop_eq]
      have hloop : findLoop (registryOf m).records s (registryOf m).count 0 = m.index? n :=
        findLoop_storageOf hn
      rw [hloop]
      cases hi : m.index? n with
      | none => simp [OrderedMap.index?_eq_none.mp hi]
      | some i =>
        have hmem : n ∈ m.keys := mem_keys_iff_index?.mpr (by rw [hi, Option.isSome_some])
        obtain ⟨pre, v, post, hsplit, hlen, hpre, hpost⟩ := OrderedMap.index?_eq_some hi
        have herase := OrderedMap.erase_entries hsplit hpre hpost
        have hcount : m.entries.length - 1 = (m.erase n).entries.length := by
          rw [herase, hsplit]
          simp
        have hshift : (shiftLoop (storageOf m) (i + 1) (m.entries.length - (i + 1))).set
            (m.entries.length - 1) .zero = storageOf (m.erase n) := by
          rw [← hlen, shift_storageOf hsplit, storageOf, herase]
          simp
        have hlayout : registryOf m = ⟨storageOf m, cap, m.entries.length⟩ := rfl
        rw [hcount] at hshift
        simp only [hmem, if_true, hlayout, hcount, hshift]
        rfl

/-- A write through the found pointer changes the entry it points to. -/
theorem update_registryOf (p : Option (List UInt8)) (f : NodeRecord → NodeRecord) (g : NodeInfo → NodeInfo)
    (hfg : ∀ n v, f (recordOf (n, v)) = recordOf (n, g v)) :
    (registryOf m).update p f = ((m.update p g).1, registryOf (m.update p g).2) := by
  unfold update NodeMap.update find
  cases hn : nameOf p with
  | none => simp [lookup_none hn]
  | some n =>
    rw [lookup_some hn]
    cases hi : m.index? n with
    | none => simp [OrderedMap.index?_eq_none.mp hi]
    | some i =>
      have hmem : n ∈ m.keys := mem_keys_iff_index?.mpr (by rw [hi, Option.isSome_some])
      obtain ⟨pre, v, post, hsplit, hlen, hpre, hpost⟩ := OrderedMap.index?_eq_some hi
      have hmod := OrderedMap.modify_entries hsplit hpre hpost g
      have hat : m.entries[i]? = some (n, v) := by rw [hsplit, ← hlen]; simp
      have hcount : (m.modify n g).entries.length = m.entries.length := by rw [hmod, hsplit]; simp
      have hset : (storageOf m).set i (recordOf (n, g v)) = storageOf (m.modify n g) := by
        rw [storageOf_split hsplit, storageOf_split hmod, hcount, ← hlen]
        simp
      have hlayout : registryOf m = ⟨storageOf m, cap, m.entries.length⟩ := rfl
      simp only [hmem, if_true, hlayout, slot_storageOf hat, hfg, hset, ← hcount]
      rfl

end Calls

/-! ### Runs -/

/-- One call on an initialised registry. -/
inductive Op where
  | register (record : Option NodeRecord)
  | unregister (name : Option (List UInt8))
  | updateState (name : Option (List UInt8)) (state : NodeState)
  | heartbeat (name : Option (List UInt8)) (nowMs : UInt32)
  | clear
  | find (name : Option (List UInt8))
  | findConst (name : Option (List UInt8))
  | recordAt (index : Nat)
  | recordAtConst (index : Nat)
  | count

/-- What a call returns; a record pointer is its slot and the record there. -/
inductive Answer where
  | void
  | code (result : Result)
  | pointer (p : Option (Nat × NodeRecord))
  | size (n : Nat)

/-- One call on a registry. -/
def step (r : NodeRegistry) : Op → NodeRegistry × Answer
  | .register record => ((r.register record).2, .code (r.register record).1)
  | .unregister name => ((r.unregister name).2, .code (r.unregister name).1)
  | .updateState name state => ((r.updateState name state).2, .code (r.updateState name state).1)
  | .heartbeat name nowMs => ((r.heartbeat name nowMs).2, .code (r.heartbeat name nowMs).1)
  | .clear => (r.clear, .void)
  | .find name => (r, .pointer ((r.find name).map fun i => (i, slot r.records i)))
  | .findConst name => (r, .pointer ((r.findConst name).map fun i => (i, slot r.records i)))
  | .recordAt index => (r, .pointer ((r.recordAt index).map fun i => (i, slot r.records i)))
  | .recordAtConst index => (r, .pointer ((r.recordAtConst index).map fun i => (i, slot r.records i)))
  | .count => (r, .size r.count)

/-- A history of calls on a registry. -/
def run (r : NodeRegistry) : List Op → NodeRegistry × List Answer
  | [] => (r, [])
  | op :: ops =>
    let s := r.step op
    let t := run s.1 ops
    (t.1, s.2 :: t.2)

namespace NodeMap
variable {cap : Nat}

/-- One call on a map. -/
def step (m : NodeMap cap) : Op → NodeMap cap × Answer
  | .register record => ((m.register record).2, .code (m.register record).1)
  | .unregister name => ((m.unregister name).2, .code (m.unregister name).1)
  | .updateState name state =>
    let u := m.update name fun v => { v with state }
    (u.2, .code u.1)
  | .heartbeat name nowMs =>
    let u := m.update name fun v => { v with lastHeartbeatMs := nowMs }
    (u.2, .code u.1)
  | .clear => (OrderedMap.empty, .void)
  | .find name => (m, .pointer (m.find name))
  | .findConst name => (m, .pointer (m.find name))
  | .recordAt index => (m, .pointer (m.recordAt index))
  | .recordAtConst index => (m, .pointer (m.recordAt index))
  | .count => (m, .size m.entries.length)

/-- A history of calls on a map. -/
def run (m : NodeMap cap) : List Op → NodeMap cap × List Answer
  | [] => (m, [])
  | op :: ops =>
    let s := m.step op
    let t := run s.1 ops
    (t.1, s.2 :: t.2)

end NodeMap

section Refinement
variable {cap : Nat}

theorem step_registryOf (m : NodeMap cap) (op : Op) :
    (registryOf m).step op = (registryOf (m.step op).1, (m.step op).2) := by
  cases op with
  | register record => simp only [step, NodeMap.step, register_registryOf]
  | unregister name => simp only [step, NodeMap.step, unregister_registryOf]
  | updateState name state =>
    have h := update_registryOf (m := m) name (fun record => { record with state })
      (fun v => { v with state }) fun _ _ => rfl
    simp only [step, NodeMap.step, updateState, h]
  | heartbeat name nowMs =>
    have h := update_registryOf (m := m) name (fun record => { record with lastHeartbeatMs := nowMs })
      (fun v => { v with lastHeartbeatMs := nowMs }) fun _ _ => rfl
    simp only [step, NodeMap.step, heartbeat, h]
  | clear => simp only [step, NodeMap.step, clear_registryOf]
  | find name => exact congrArg (fun p => (registryOf m, Answer.pointer p)) (lookup_registryOf name)
  | findConst name => exact congrArg (fun p => (registryOf m, Answer.pointer p)) (lookup_registryOf name)
  | recordAt index => exact congrArg (fun p => (registryOf m, Answer.pointer p)) (access_registryOf index)
  | recordAtConst index => exact congrArg (fun p => (registryOf m, Answer.pointer p)) (access_registryOf index)
  | count => rfl

theorem run_registryOf (m : NodeMap cap) (ops : List Op) :
    (registryOf m).run ops = (registryOf (m.run ops).1, (m.run ops).2) := by
  induction ops generalizing m with
  | nil => rfl
  | cons op ops ih => simp only [run, NodeMap.run, step_registryOf, ih]

theorem init_eq_ok {storage : Option (List NodeRecord)} {r : NodeRegistry} (h : init storage cap = .ok r) :
    r = registryOf (OrderedMap.empty : NodeMap cap) := by
  unfold init at h
  split at h
  · cases h
  · cases h
    simp [registryOf, storageOf, OrderedMap.empty]

/-- **The registry is a bounded map in the order of registration.** After any calls on an initialised
    registry, its structures are the layout of the map after the same calls, and every call answered as
    the map does. The map has distinct names of 1 to 31 bytes and at most `cap` of them (`NodeMap`), and
    its layout has a zeroed record in every slot past the last entry (`storageOf`). -/
theorem run_refines_map {storage : Option (List NodeRecord)} {r : NodeRegistry}
    (h : init storage cap = .ok r) (ops : List Op) :
    let m := NodeMap.run (OrderedMap.empty : NodeMap cap) ops
    r.run ops = (registryOf m.1, m.2) := by
  rw [init_eq_ok h, run_registryOf]

/-- A registry of one slot: the second name finds it full, and its record comes back zeroed. -/
theorem run_refines_map_full :
    let record (c : UInt8) : NodeRecord := ⟨⟨c :: List.replicate 31 0, rfl⟩, 7, .driver, .init, 5, 0⟩
    ∃ r, init (some [record 1]) 1 = .ok r ∧
      r.run [.register (some (record 65)), .register (some (record 66)), .unregister (some [65])] =
        (⟨[.zero], 1, 0⟩, [.code .ok, .code .enospc, .code .ok]) := by
  intro record
  have h : init (some [record 1]) 1 = .ok ⟨[.zero], 1, 0⟩ := rfl
  exact ⟨_, h, run_refines_map h _⟩

end Refinement

end NodeRegistry
end Emberlite
