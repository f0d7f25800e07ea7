import Emberlite.Lib.CString
import Mathlib.Data.Vector.Basic

/-! The fixed-capacity node registry of `core/runtime/src/node_registry.c`.

    The registry and its storage are never NULL here: every entry point returns on a NULL registry, and
    `ember_node_registry_init` refuses a NULL storage. A pointer to a record of the storage is its slot
    number, and a name that a caller passes is `none` for NULL. -/

namespace Emberlite
namespace NodeRegistry

/-- `EMBER_NODE_NAME_MAX`. -/
def nameMax : Nat := 32

/-- `ember_node_registry_result_t`. -/
inductive Result where
  | ok
  | einval
  | enospc
  | enotfound
  | edup
  deriving DecidableEq, Repr

/-- `ember_node_kind_t`. -/
inductive NodeKind where
  | unknown
  | system
  | service
  | application
  | device
  | driver
  | tool
  deriving DecidableEq, Repr

/-- `ember_node_state_t`. -/
inductive NodeState where
  | unknown
  | init
  | ready
  | running
  | degraded
  | error
  | stopped
  deriving DecidableEq, Repr

/-- `ember_node_record_t`; `userData` is an address. -/
structure NodeRecord where
  name : List.Vector UInt8 nameMax
  nodeId : UInt16
  kind : NodeKind
  state : NodeState
  lastHeartbeatMs : UInt32
  userData : UInt64
  deriving DecidableEq

/-- A record that `memset` has zeroed. -/
def NodeRecord.zero : NodeRecord := ⟨List.Vector.replicate nameMax 0, 0, .unknown, .unknown, 0, 0⟩

end NodeRegistry

/-- `ember_node_registry_t`. -/
structure NodeRegistry where
  records : List NodeRegistry.NodeRecord
  capacity : Nat
  count : Nat
  deriving DecidableEq

namespace NodeRegistry
open CString

/-- The loop of `node_name_len`, with at most `n` bytes to go. -/
def nodeNameLenLoop (name : List UInt8) : (n len : Nat) → Nat
  | 0, len => len
  | n + 1, len => if name.getD len 0 ≠ 0 then nodeNameLenLoop name n (len + 1) else len

/-- `node_name_len` -/
def nodeNameLen (name : List UInt8) : Nat := nodeNameLenLoop name nameMax 0

/-- `node_name_valid` -/
def nodeNameValid : Option (List UInt8) → Bool
  | none => false
  | some name => name.getD 0 0 ≠ 0 ∧ nodeNameLen name < nameMax

/-- `strncpy` into the first bytes of a name buffer. -/
def copyName (dst : List.Vector UInt8 nameMax) (src : List UInt8) : List.Vector UInt8 nameMax :=
  ⟨strncpy (nameMax - 1) src ++ dst.toList.drop (nameMax - 1), by
    rw [List.length_append, length_strncpy, List.length_drop, dst.toList_length]
    rfl⟩

/-- `node_record_copy` -/
def nodeRecordCopy (src : NodeRecord) : NodeRecord :=
  let dst := NodeRecord.zero
  let dst := if src.name.toList.getD 0 0 ≠ 0 then { dst with name := copyName dst.name src.name.toList } else dst
  { dst with
    nodeId := src.nodeId
    kind := src.kind
    state := src.state
    lastHeartbeatMs := src.lastHeartbeatMs
    userData := src.userData }

/-- `ember_node_registry_init`: the storage is `none` for NULL, and has `capacity` records. -/
def init (storage : Option (List NodeRecord)) (capacity : Nat) : Except Result NodeRegistry :=
  if storage.isNone ∨ capacity = 0 then .error .einval
  else .ok ⟨List.replicate capacity .zero, capacity, 0⟩

/-- `ember_node_registry_clear` -/
def clear (registry : NodeRegistry) : NodeRegistry :=
  { registry with records := List.replicate registry.capacity .zero, count := 0 }

/-- The record at slot `i`. -/
def slot (records : List NodeRecord) (i : Nat) : NodeRecord := records.getD i .zero

/-- The name at slot `i` compares equal to `name`. -/
def nameMatches (records : List NodeRecord) (name : List UInt8) (i : Nat) : Bool :=
  strncmp nameMax (slot records i).name.toList name = 0

/-- The loop of both lookups, from slot `i` with `n` slots to go. -/
def findLoop (records : List NodeRecord) (name : List UInt8) : (n i : Nat) → Option Nat
  | 0, _ => none
  | n + 1, i => if nameMatches records name i then some i else findLoop records name n (i + 1)

/-- The body of both lookups. -/
def lookup (registry : NodeRegistry) (name : Option (List UInt8)) : Option Nat :=
  match name with
  | none => none
  | some s => if nodeNameValid (some s) then findLoop registry.records s registry.count 0 else none

/-- `ember_node_registry_find` -/
def find (registry : NodeRegistry) (name : Option (List UInt8)) : Option Nat := registry.lookup name

/-- `ember_node_registry_find_const` -/
def findConst (registry : NodeRegistry) (name : Option (List UInt8)) : Option Nat := registry.lookup name

/-- The body of both accesses by position. -/
def access (registry : NodeRegistry) (index : Nat) : Option Nat :=
  if index ≥ registry.count then none else some index

/-- `ember_node_registry_at` -/
def recordAt (registry : NodeRegistry) (index : Nat) : Option Nat := registry.access index

/-- `ember_node_registry_at_const` -/
def recordAtConst (registry : NodeRegistry) (index : Nat) : Option Nat := registry.access index

/-- `ember_node_registry_register` -/
def register (registry : NodeRegistry) (record : Option NodeRecord) : Result × NodeRegistry :=
  match record with
  | none => (.einval, registry)
  | some record =>
    if ¬nodeNameValid (some record.name.toList) then (.einval, registry)
    else if registry.count ≥ registry.capacity then (.enospc, registry)
    else if (registry.find (some record.name.toList)).isSome then (.edup, registry)
    else
      (.ok, { registry with
        records := registry.records.set registry.count (nodeRecordCopy record)
        count := registry.count + 1 })

/-- The inner loop of `ember_node_registry_unregister`, from slot `j` with `n` slots to go. -/
def shiftLoop : (records : List NodeRecord) → (j n : Nat) → List NodeRecord
  | records, _, 0 => records
  | records, j, n + 1 => shiftLoop (records.set (j - 1) (slot records j)) (j + 1) n

/-- The outer loop of `ember_node_registry_unregister`, from slot `i` with `n` slots to go. -/
def unregisterLoop (registry : NodeRegistry) (name : List UInt8) : (n i : Nat) → Result × NodeRegistry
  | 0, _ => (.enotfound, registry)
  | n + 1, i =>
    if ¬nameMatches registry.records name i then unregisterLoop registry name n (i + 1)
    else
      let records := shiftLoop registry.records (i + 1) (registry.count - (i + 1))
      let count := registry.count - 1
      (.ok, { registry with records := records.set count .zero, count })

/-- `ember_node_registry_unregister` -/
def unregister (registry : NodeRegistry) (name : Option (List UInt8)) : Result × NodeRegistry :=
  match name with
  | none => (.einval, registry)
  | some s =>
    if ¬nodeNameValid (some s) then (.einval, registry)
    else unregisterLoop registry s registry.count 0

/-- A write through the pointer that `ember_node_registry_find` returns. -/
def update (registry : NodeRegistry) (name : Option (List UInt8)) (f : NodeRecord → NodeRecord) :
    Result × NodeRegistry :=
  match registry.find name with
  | none => (.enotfound, registry)
  | some i => (.ok, { registry with records := registry.records.set i (f (slot registry.records i)) })

/-- `ember_node_registry_update_state` -/
def updateState (registry : NodeRegistry) (name : Option (List UInt8)) (state : NodeState) :
    Result × NodeRegistry :=
  registry.update name fun record => { record with state }

/-- `ember_node_registry_heartbeat` -/
def heartbeat (registry : NodeRegistry) (name : Option (List UInt8)) (nowMs : UInt32) :
    Result × NodeRegistry :=
  registry.update name fun record => { record with lastHeartbeatMs := nowMs }

end NodeRegistry
end Emberlite
