import Emberlite.Runtime.NodeRegistryMap

/-! The result codes of the calls on a registry, and what two calls do in turn. -/

namespace Emberlite
namespace NodeRegistry
open CString

/-- After `ember_node_registry_init` and any calls. -/
def Reachable (r : NodeRegistry) : Prop :=
  ∃ cap storage r₀ ops, init storage cap = .ok r₀ ∧ r = (r₀.run ops).1

/-- A record that is in use has this name. -/
def Registered (r : NodeRegistry) (n : NodeName) : Prop :=
  ∃ i < r.count, text (slot r.records i).name.toList = n.val

theorem Reachable.exists_map {r : NodeRegistry} (h : Reachable r) : ∃ cap, ∃ m : NodeMap cap, r = registryOf m := by
  obtain ⟨cap, storage, r₀, ops, hinit, rfl⟩ := h
  refine ⟨cap, (NodeMap.run (OrderedMap.empty : NodeMap cap) ops).1, ?_⟩
  rw [init_eq_ok hinit, run_registryOf]

section Map
variable {cap : Nat} {m : NodeMap cap} {name : Option (List UInt8)} {n k : NodeName} {f g : NamedCall}

theorem apply_registryOf (f : NamedCall) (m : NodeMap cap) (name : Option (List UInt8)) :
    f.apply (registryOf m) name = ((f.onMap m name).1, registryOf (f.onMap m name).2) := by
  cases f with
  | unregister => exact unregister_registryOf name
  | updateState state =>
    exact update_registryOf name (fun record => { record with state }) (fun v => { v with state }) fun _ _ => rfl
  | heartbeat nowMs =>
    exact update_registryOf name (fun record => { record with lastHeartbeatMs := nowMs })
      (fun v => { v with lastHeartbeatMs := nowMs }) fun _ _ => rfl

theorem registered_registryOf : Registered (registryOf m) n ↔ n ∈ m.keys := by
  constructor
  · rintro ⟨i, hi, hname⟩
    have hat := List.getElem?_eq_getElem (l := m.entries) hi
    have hslot : slot (registryOf m).records i = recordOf m.entries[i] := slot_storageOf hat
    rw [hslot, text_recordOf] at hname
    exact List.mem_map.mpr ⟨m.entries[i], List.getElem_mem hi, Subtype.ext hname⟩
  · intro hn
    obtain ⟨e, he, rfl⟩ := List.mem_map.mp hn
    obtain ⟨i, hi, rfl⟩ := List.mem_iff_getElem.mp he
    refine ⟨i, hi, ?_⟩
    have hslot : slot (registryOf m).records i = recordOf m.entries[i] :=
      slot_storageOf (List.getElem?_eq_getElem hi)
    rw [hslot, text_recordOf]

theorem onMap_of_none (h : nameOf name = none) : f.onMap m name = (f.invalidCode, m) := by
  rw [NamedCall.onMap, h]

theorem onMap_of_mem (h : nameOf name = some n) (hn : n ∈ m.keys) : f.onMap m name = (.ok, f.onEntry m n) := by
  simp only [NamedCall.onMap, h, if_pos hn]

theorem onMap_of_notMem (h : nameOf name = some n) (hn : n ∉ m.keys) : f.onMap m name = (.enotfound, m) := by
  simp only [NamedCall.onMap, h, if_neg hn]

/-- A call removes the entry, or changes what it says. -/
theorem onEntry_cases (c : Nat) (f : NamedCall) :
    (∀ (m : NodeMap c) n, f.onEntry m n = m.erase n) ∨
      ∃ u, ∀ (m : NodeMap c) n, f.onEntry m n = m.modify n u := by
  cases f with
  | unregister => exact .inl fun _ _ => rfl
  | updateState state => exact .inr ⟨fun v => { v with state }, fun _ _ => rfl⟩
  | heartbeat nowMs => exact .inr ⟨fun v => { v with lastHeartbeatMs := nowMs }, fun _ _ => rfl⟩

theorem mem_onEntry (f : NamedCall) (hkn : k ≠ n) : k ∈ (f.onEntry m n).keys ↔ k ∈ m.keys := by
  rcases onEntry_cases cap f with hf | ⟨u, hf⟩
  · rw [hf, OrderedMap.mem_keys_erase]
    exact and_iff_left hkn
  · rw [hf, OrderedMap.keys_modify]

theorem onEntry_comm (f g : NamedCall) (hkn : k ≠ n) (m : NodeMap cap) :
    g.onEntry (f.onEntry m n) k = f.onEntry (g.onEntry m k) n := by
  rcases onEntry_cases cap f with hf | ⟨u, hf⟩ <;> rcases onEntry_cases cap g with hg | ⟨v, hg⟩
  · rw [hf, hg, hf, hg, OrderedMap.erase_comm]
  · rw [hf, hg, hf, hg, OrderedMap.erase_modify_comm]
  · rw [hf, hg, hf, hg, OrderedMap.erase_modify_comm]
  · rw [hf, hg, hf, hg, OrderedMap.modify_comm (Ne.symm hkn)]

end Map

/-! ### Result codes -/

/-- The codes of a call that takes a name, for a name that is one. -/
structure NamedCodes (r : NodeRegistry) (name : Option (List UInt8)) (result : Result) : Prop where
  ok : result = .ok ↔ ∃ n, nameOf name = some n ∧ Registered r n
  enotfound : ∀ n, nameOf name = some n → (result = .enotfound ↔ ¬Registered r n)

/-- The codes of `ember_node_registry_register`: a full registry is reported before a name that is taken. -/
structure RegisterCodes (r : NodeRegistry) (name : Option NodeName) (result : Result) : Prop where
  einval : result = .einval ↔ name = none
  enospc : result = .enospc ↔ ∃ n, name = some n ∧ r.count = r.capacity
  edup : result = .edup ↔ ∃ n, name = some n ∧ r.count < r.capacity ∧ Registered r n
  ok : result = .ok ↔ ∃ n, name = some n ∧ r.count < r.capacity ∧ ¬Registered r n

/-- The name of the record that is passed. -/
def recordName (record : Option NodeRecord) : Option NodeName :=
  record.bind fun record => nameOf (some record.name.toList)

section Codes
variable {cap : Nat} {m : NodeMap cap} {r : NodeRegistry}

theorem namedCodes_registryOf (f : NamedCall) (name : Option (List UInt8)) :
    NamedCodes (registryOf m) name (f.onMap m name).1 ∧ ((f.onMap m name).1 ≠ .ok → (f.onMap m name).2 = m) := by
  rcases hname : nameOf name with _ | n
  · rw [onMap_of_none hname]
    refine ⟨⟨?_, ?_⟩, fun _ => rfl⟩
    · cases f <;> simp [NamedCall.invalidCode, hname]
    · simp [hname]
  · by_cases hn : n ∈ m.keys
    · rw [onMap_of_mem hname hn]
      refine ⟨⟨?_, ?_⟩, fun h => absurd rfl h⟩
      · simpa [hname] using registered_registryOf.mpr hn
      · intro k hk
        rw [hname, Option.some_inj] at hk
        simpa using registered_registryOf.mpr (hk ▸ hn)
    · rw [onMap_of_notMem hname hn]
      refine ⟨⟨?_, ?_⟩, fun _ => rfl⟩
      · simpa [hname] using fun h => hn (registered_registryOf.mp h)
      · intro k hk
        rw [hname, Option.some_inj] at hk
        simpa using fun h => hn (hk ▸ registered_registryOf.mp h)

variable {record : NodeRecord} {n : NodeName}

theorem register_of_none (h : nameOf (some record.name.toList) = none) : m.register (some record) = (.einval, m) := by
  simp only [NodeMap.register, h]

theorem register_of_full (h : nameOf (some record.name.toList) = some n) (hcap : cap ≤ m.entries.length) :
    m.register (some record) = (.enospc, m) := by
  simp only [NodeMap.register, h, dif_pos hcap]

theorem register_of_mem (h : nameOf (some record.name.toList) = some n) (hcap : m.entries.length < cap)
    (hn : n ∈ m.keys) : m.register (some record) = (.edup, m) := by
  simp only [NodeMap.register, h, dif_neg (Nat.not_le_of_lt hcap), dif_pos hn]

theorem register_of_new (h : nameOf (some record.name.toList) = some n) (hcap : m.entries.length < cap)
    (hn : n ∉ m.keys) : m.register (some record) = (.ok, m.insert n (infoOf record) hn hcap) := by
  simp only [NodeMap.register, h, dif_neg (Nat.not_le_of_lt hcap), dif_neg hn]

theorem registerCodes_registryOf (record : Option NodeRecord) :
    RegisterCodes (registryOf m) (recordName record) (m.register record).1 ∧
      ((m.register record).1 ≠ .ok → (m.register record).2 = m) := by
  have hcount : (registryOf m).count = m.entries.length := rfl
  have hcapacity : (registryOf m).capacity = cap := rfl
  rcases record with _ | record
  · have hnull : m.register none = (.einval, m) := rfl
    rw [hnull]
    exact ⟨⟨by simp [recordName], by simp [recordName], by simp [recordName], by simp [recordName]⟩, fun _ => rfl⟩
  · have hrecord : recordName (some record) = nameOf (some record.name.toList) := rfl
    rw [hrecord]
    rcases hname : nameOf (some record.name.toList) with _ | n
    · rw [register_of_none hname]
      exact ⟨⟨by simp, by simp, by simp, by simp⟩, fun _ => rfl⟩
    · rcases Nat.lt_or_ge m.entries.length cap with hroom | hfull
      · by_cases hn : n ∈ m.keys
        · have hreg : Registered (registryOf m) n := registered_registryOf.mpr hn
          rw [register_of_mem hname hroom hn]
          exact ⟨⟨by simp, by simp [hcount, hcapacity, Nat.ne_of_lt hroom], by simp [hcount, hcapacity, hroom, hreg],
            by simp [hreg]⟩, fun _ => rfl⟩
        · have hreg : ¬Registered (registryOf m) n := fun h => hn (registered_registryOf.mp h)
          rw [register_of_new hname hroom hn]
          exact ⟨⟨by simp, by simp [hcount, hcapacity, Nat.ne_of_lt hroom], by simp [hreg],
            by simp [hcount, hcapacity, hroom, hreg]⟩, fun h => absurd rfl h⟩
      · have heq : m.entries.length = cap := Nat.le_antisymm m.bounded hfull
        rw [register_of_full hname hfull]
        exact ⟨⟨by simp, by simp [hcount, hcapacity, heq], by simp [hcount, hcapacity, heq],
          by simp [hcount, hcapacity, heq]⟩, fun _ => rfl⟩

/-- The codes of the four calls, in every reachable registry. A call that fails changes nothing. -/
theorem codes_of_reachable (h : Reachable r) :
    (∀ f name, NamedCodes r name (NamedCall.apply f r name).1 ∧
      ((NamedCall.apply f r name).1 ≠ .ok → (NamedCall.apply f r name).2 = r)) ∧
    (∀ name, (r.unregister name).1 = .einval ↔ nameOf name = none) ∧
    ∀ record, RegisterCodes r (recordName record) (r.register record).1 ∧
      ((r.register record).1 ≠ .ok → (r.register record).2 = r) := by
  obtain ⟨cap, m, rfl⟩ := h.exists_map
  refine ⟨fun f name => ?_, fun name => ?_, fun record => ?_⟩
  · obtain ⟨hcodes, hkept⟩ := namedCodes_registryOf (m := m) f name
    rw [apply_registryOf]
    exact ⟨hcodes, fun hne => congrArg registryOf (hkept hne)⟩
  · have happly := apply_registryOf .unregister m name
    rw [NamedCall.apply] at happly
    rw [happly]
    rcases hname : nameOf name with _ | n
    · rw [onMap_of_none hname]
      exact iff_of_true rfl rfl
    · by_cases hn : n ∈ m.keys
      · rw [onMap_of_mem hname hn]
        exact iff_of_false nofun nofun
      · rw [onMap_of_notMem hname hn]
        exact iff_of_false nofun nofun
  · obtain ⟨hcodes, hkept⟩ := registerCodes_registryOf (m := m) record
    rw [register_registryOf]
    exact ⟨hcodes, fun hne => congrArg registryOf (hkept hne)⟩

/-- A record with a name of one byte. -/
def recordNamed (c : UInt8) : NodeRecord := ⟨⟨c :: List.replicate 31 0, rfl⟩, 7, .driver, .init, 5, 0⟩

/-- A registry of one slot, in use. -/
theorem reachable_full : Reachable ⟨[recordNamed 65], 1, 1⟩ :=
  ⟨1, some [recordNamed 66], ⟨[.zero], 1, 0⟩, [.register (some (recordNamed 65))], rfl, rfl⟩

/-- A new name finds it full, and nothing has changed. -/
theorem codes_of_reachable_full :
    (NodeRegistry.register ⟨[recordNamed 65], 1, 1⟩ (some (recordNamed 66))).1 = .enospc ∧
      (NodeRegistry.register ⟨[recordNamed 65], 1, 1⟩ (some (recordNamed 66))).2 = ⟨[recordNamed 65], 1, 1⟩ := by
  obtain ⟨-, -, hregister⟩ := codes_of_reachable reachable_full
  have hcode : (NodeRegistry.register ⟨[recordNamed 65], 1, 1⟩ (some (recordNamed 66))).1 = .enospc := rfl
  exact ⟨hcode, (hregister (some (recordNamed 66))).2 (by rw [hcode]; exact nofun)⟩

/-- The registered name finds it full too; and an empty name is not found by `ember_node_registry_heartbeat`. -/
theorem full_before_duplicate :
    ¬ (∀ r, Reachable r → ∀ record n, recordName (some record) = some n →
      ((r.register (some record)).1 = .edup ↔ Registered r n)) ∧
    ¬ ∀ r, Reachable r → ∀ name nowMs, ((r.heartbeat name nowMs).1 = .einval ↔ nameOf name = none) := by
  constructor
  · intro h
    have hreg : Registered ⟨[recordNamed 65], 1, 1⟩ ⟨[65], by decide +kernel⟩ := ⟨0, by decide, by decide +kernel⟩
    have hcode := (h _ reachable_full (recordNamed 65) ⟨[65], by decide +kernel⟩ (by decide +kernel)).mpr hreg
    exact absurd hcode (by decide +kernel)
  · intro h
    have hcode := (h _ reachable_full (some []) 0).mpr (by decide +kernel)
    exact absurd hcode (by decide +kernel)

end Codes

/-! ### Two calls in turn -/

/-- Two calls give the same codes and the same registry in either order. -/
def Commute (r : NodeRegistry) (a b : Option (List UInt8)) (f g : NamedCall) : Prop :=
  (g.apply (f.apply r a).2 b).2 = (f.apply (g.apply r b).2 a).2 ∧
    (f.apply r a).1 = (f.apply (g.apply r b).2 a).1 ∧ (g.apply (f.apply r a).2 b).1 = (g.apply r b).1

section Turns
variable {cap : Nat} {m : NodeMap cap} {r : NodeRegistry} {a b : Option (List UInt8)}

/-- A call for one name leaves the code of a call for another as it is. -/
theorem code_onMap (f g : NamedCall) (hne : ∀ n, nameOf a = some n → nameOf b ≠ some n) :
    (g.onMap (f.onMap m a).2 b).1 = (g.onMap m b).1 := by
  rcases ha : nameOf a with _ | n
  · rw [onMap_of_none ha]
  · rcases hb : nameOf b with _ | k
    · rw [onMap_of_none hb, onMap_of_none hb]
    · have hkn : k ≠ n := fun h => hne n ha (h ▸ hb)
      by_cases hn : n ∈ m.keys
      · rw [onMap_of_mem ha hn]
        by_cases hk : k ∈ m.keys
        · rw [onMap_of_mem hb hk, onMap_of_mem hb ((mem_onEntry f hkn).mpr hk)]
        · rw [onMap_of_notMem hb hk, onMap_of_notMem hb fun h => hk ((mem_onEntry f hkn).mp h)]
      · rw [onMap_of_notMem ha hn]

theorem map_commute (f g : NamedCall) (hne : ∀ n, nameOf a = some n → nameOf b ≠ some n) :
    (g.onMap (f.onMap m a).2 b).2 = (f.onMap (g.onMap m b).2 a).2 := by
  rcases ha : nameOf a with _ | n
  · rw [onMap_of_none ha, onMap_of_none ha]
  · rcases hb : nameOf b with _ | k
    · rw [onMap_of_none hb, onMap_of_none hb]
    · have hkn : k ≠ n := fun h => hne n ha (h ▸ hb)
      by_cases hn : n ∈ m.keys
      · rw [onMap_of_mem ha hn]
        by_cases hk : k ∈ m.keys
        · rw [onMap_of_mem hb hk, onMap_of_mem hb ((mem_onEntry f hkn).mpr hk),
            onMap_of_mem ha ((mem_onEntry g hkn.symm).mpr hn), onEntry_comm f g hkn]
        · rw [onMap_of_notMem hb hk, onMap_of_notMem hb fun h => hk ((mem_onEntry f hkn).mp h), onMap_of_mem ha hn]
      · rw [onMap_of_notMem ha hn]
        by_cases hk : k ∈ m.keys
        · rw [onMap_of_mem hb hk, onMap_of_notMem ha fun h => hn ((mem_onEntry g hkn.symm).mp h)]
        · rw [onMap_of_notMem hb hk, onMap_of_notMem ha hn]

/-- A name that is registered and unregistered again leaves the registry and its storage as they were, and calls for
    distinct names commute. -/
theorem undo_and_commute (h : Reachable r) :
    (∀ record, (r.register (some record)).1 = .ok →
      (r.register (some record)).2.unregister (some record.name.toList) = (.ok, r)) ∧
    ∀ a b, (∀ n, nameOf a = some n → nameOf b ≠ some n) → ∀ f g, Commute r a b f g := by
  obtain ⟨cap, m, rfl⟩ := h.exists_map
  constructor
  · intro record hok
    obtain ⟨hcodes, -⟩ := registerCodes_registryOf (m := m) (some record)
    rw [register_registryOf] at hok ⊢
    obtain ⟨n, hrecord, hcount, hnew⟩ := hcodes.ok.mp hok
    have hname : nameOf (some record.name.toList) = some n := hrecord
    have hroom : m.entries.length < cap := hcount
    have hn : n ∉ m.keys := fun h => hnew (registered_registryOf.mpr h)
    have hmem : n ∈ (m.insert n (infoOf record) hn hroom).keys := by simp [OrderedMap.keys, OrderedMap.insert]
    have hunregister := apply_registryOf .unregister (m.insert n (infoOf record) hn hroom) (some record.name.toList)
    rw [onMap_of_mem hname hmem, NamedCall.onEntry, OrderedMap.erase_insert] at hunregister
    rw [register_of_new hname hroom hn]
    exact hunregister
  · intro a b hne f g
    have hne' : ∀ n, nameOf b = some n → nameOf a ≠ some n := fun n hb ha => hne n ha hb
    simp only [Commute, apply_registryOf]
    refine ⟨congrArg registryOf (map_commute f g hne), ?_, code_onMap f g hne⟩
    exact (code_onMap g f hne').symm

/-- Two names, one of them registered. -/
theorem undo_and_commute_full :
    Commute ⟨[recordNamed 65], 1, 1⟩ (some [65]) (some [66]) .unregister (.heartbeat 9) :=
  (undo_and_commute reachable_full).2 _ _ (fun n ha hb => by
    have h : nameOf (some [65]) = nameOf (some [66]) := ha.trans hb.symm
    exact absurd h (by decide +kernel)) _ _

end Turns

end NodeRegistry
end Emberlite
