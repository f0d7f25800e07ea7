import Mathlib.Data.List.Nodup

/-! Bounded maps that keep the order of insertion. -/

/-- At most `cap` entries with distinct keys, oldest first. -/
structure OrderedMap (κ ν : Type) (cap : Nat) where
  entries : List (κ × ν)
  nodup : (entries.map Prod.fst).Nodup
  bounded : entries.length ≤ cap

namespace OrderedMap
variable {κ ν : Type} {cap : Nat}

theorem ext {m m' : OrderedMap κ ν cap} (h : m.entries = m'.entries) : m = m' := by
  cases m
  cases m'
  cases h
  rfl

/-- The map without entries. -/
def empty : OrderedMap κ ν cap := ⟨[], List.nodup_nil, Nat.zero_le cap⟩

/-- The keys, in their order. -/
def keys (m : OrderedMap κ ν cap) : List κ := m.entries.map Prod.fst

/-- A new entry goes last. -/
def insert (m : OrderedMap κ ν cap) (k : κ) (v : ν) (hk : k ∉ m.keys) (hcap : m.entries.length < cap) :
    OrderedMap κ ν cap where
  entries := m.entries ++ [(k, v)]
  nodup := by
    rw [List.map_append, List.nodup_append]
    refine ⟨m.nodup, List.nodup_singleton _, fun a ha b hb => ?_⟩
    obtain rfl := List.mem_singleton.mp hb
    exact fun heq => hk (heq ▸ ha)
  bounded := by
    rw [List.length_append]
    exact hcap

variable [DecidableEq κ]

/-- The place of a key. -/
def index? (m : OrderedMap κ ν cap) (k : κ) : Option Nat := m.entries.findIdx? (·.1 == k)

/-- The map without a key; the others keep their order. -/
def erase (m : OrderedMap κ ν cap) (k : κ) : OrderedMap κ ν cap where
  entries := m.entries.filter (·.1 != k)
  nodup := m.nodup.sublist (List.filter_sublist.map Prod.fst)
  bounded := Nat.le_trans (List.length_filter_le _ _) m.bounded

/-- The map with the value of a key changed. -/
def modify (m : OrderedMap κ ν cap) (k : κ) (f : ν → ν) : OrderedMap κ ν cap where
  entries := m.entries.map fun e => if e.1 = k then (e.1, f e.2) else e
  nodup := by
    have hkeys : Prod.fst ∘ (fun e : κ × ν => if e.1 = k then (e.1, f e.2) else e) = Prod.fst := by
      funext e
      simp only [Function.comp_apply]
      split <;> rfl
    rw [List.map_map, hkeys]
    exact m.nodup
  bounded := by
    rw [List.length_map]
    exact m.bounded

variable {m : OrderedMap κ ν cap} {k : κ} {i : Nat}

theorem index?_eq_none : m.index? k = none ↔ k ∉ m.keys := by
  simp only [index?, keys, List.findIdx?_eq_none_iff, List.mem_map, not_exists, not_and, beq_eq_false_iff_ne]

theorem index?_eq_some (h : m.index? k = some i) :
    ∃ pre v post, m.entries = pre ++ (k, v) :: post ∧ pre.length = i ∧
      (∀ e ∈ pre, e.1 ≠ k) ∧ ∀ e ∈ post, e.1 ≠ k := by
  obtain ⟨hi, hkey, -⟩ := List.findIdx?_eq_some_iff_getElem.mp h
  have hsplit : m.entries = m.entries.take i ++ m.entries[i] :: m.entries.drop (i + 1) := by
    rw [← List.drop_eq_getElem_cons hi, List.take_append_drop]
  have hk : m.entries[i].1 = k := by simpa using hkey
  have hnodup := m.nodup
  rw [hsplit, List.map_append, List.map_cons, hk] at hnodup
  have hdist := List.nodup_middle.mp hnodup
  rw [List.nodup_cons, List.mem_append] at hdist
  refine ⟨m.entries.take i, m.entries[i].2, m.entries.drop (i + 1), ?_, ?_, ?_, ?_⟩
  · rw [← hk]
    exact hsplit
  · rw [List.length_take]
    omega
  · exact fun e he heq => hdist.1 (.inl (List.mem_map.mpr ⟨e, he, heq⟩))
  · exact fun e he heq => hdist.1 (.inr (List.mem_map.mpr ⟨e, he, heq⟩))

section Split
variable {pre post : List (κ × ν)} {v : ν} (h : m.entries = pre ++ (k, v) :: post)
  (hpre : ∀ e ∈ pre, e.1 ≠ k) (hpost : ∀ e ∈ post, e.1 ≠ k)
include h hpre hpost

theorem erase_entries : (m.erase k).entries = pre ++ post := by
  have hp : pre.filter (·.1 != k) = pre := List.filter_eq_self.mpr fun e he => by simpa using hpre e he
  have hq : post.filter (·.1 != k) = post := List.filter_eq_self.mpr fun e he => by simpa using hpost e he
  simp only [erase, h, List.filter_append, List.filter_cons, bne_self_eq_false, Bool.false_eq_true, if_false,
    hp, hq]

theorem modify_entries (f : ν → ν) : (m.modify k f).entries = pre ++ (k, f v) :: post := by
  have hsame : ∀ l : List (κ × ν), (∀ e ∈ l, e.1 ≠ k) →
      (l.map fun e => if e.1 = k then (e.1, f e.2) else e) = l := fun l hl => by
    rw [List.map_congr_left fun e he => if_neg (hl e he), List.map_id']
  simp only [modify, h, List.map_append, List.map_cons, if_true, hsame pre hpre, hsame post hpost]

end Split

/-! ### What two operations do in turn -/

section Turns
variable {v : ν}

theorem mem_keys_erase {n : κ} : n ∈ (m.erase k).keys ↔ n ∈ m.keys ∧ n ≠ k := by
  simp only [keys, erase, List.mem_map, List.mem_filter, bne_iff_ne]
  constructor
  · rintro ⟨e, ⟨he, hk⟩, rfl⟩
    exact ⟨⟨e, he, rfl⟩, hk⟩
  · rintro ⟨⟨e, he, rfl⟩, hk⟩
    exact ⟨e, ⟨he, hk⟩, rfl⟩

theorem keys_modify (m : OrderedMap κ ν cap) (k : κ) (f : ν → ν) : (m.modify k f).keys = m.keys := by
  rw [keys, modify, List.map_map]
  refine List.map_congr_left fun e _ => ?_
  rw [Function.comp_apply]
  split <;> rfl

/-- A new key that is erased leaves the map as it was. -/
theorem erase_insert (hk : k ∉ m.keys) (hcap : m.entries.length < cap) : (m.insert k v hk hcap).erase k = m := by
  refine ext ?_
  have hrest : m.entries.filter (·.1 != k) = m.entries := List.filter_eq_self.mpr fun e he =>
    bne_iff_ne.mpr fun heq => hk (List.mem_map.mpr ⟨e, he, heq⟩)
  simp only [erase, insert, List.filter_append, hrest, List.filter_cons, List.filter_nil, bne_self_eq_false,
    Bool.false_eq_true, if_false, List.append_nil]

theorem erase_comm (m : OrderedMap κ ν cap) (k l : κ) : (m.erase k).erase l = (m.erase l).erase k := by
  refine ext ?_
  simp only [erase, List.filter_filter]
  exact List.filter_congr fun e _ => Bool.and_comm _ _

theorem modify_comm {l : κ} (hkl : k ≠ l) (m : OrderedMap κ ν cap) (f g : ν → ν) :
    (m.modify k f).modify l g = (m.modify l g).modify k f := by
  refine ext ?_
  simp only [modify, List.map_map]
  refine List.map_congr_left fun e _ => ?_
  simp only [Function.comp_apply]
  by_cases hk : e.1 = k
  · have hl : e.1 ≠ l := hk ▸ hkl
    simp only [hk, if_true, hkl, if_false]
  · by_cases hl : e.1 = l
    · simp only [hl, if_true, Ne.symm hkl, if_false]
    · simp only [hk, hl, if_false]

theorem erase_modify_comm (m : OrderedMap κ ν cap) (k l : κ) (f : ν → ν) :
    (m.modify l f).erase k = (m.erase k).modify l f := by
  refine ext ?_
  simp only [erase, modify, List.filter_map]
  refine congrArg _ (List.filter_congr fun e _ => ?_)
  simp only [Function.comp_apply]
  split <;> rfl

end Turns

end OrderedMap
