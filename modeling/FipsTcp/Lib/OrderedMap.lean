/-
Maps that remember in which order their keys were added, as a `Map` of JavaScript does.

The entries stand in an association list without repeated keys, the newest first. `set` leaves an entry that exists at its place
and adds a new one in front, so `pairs` lists them in the order of insertion. A map is told from its entries; what the proofs
need is what `get` finds after `set` and `delete`, and that `delete` takes back a `set` (`delete_set`).
-/
import Mathlib.Data.List.AList

abbrev OrderedMap (K V : Type*) := AList fun _ : K => V

namespace OrderedMap

variable {K V : Type*} {m : OrderedMap K V}

def size (m : OrderedMap K V) : ℕ := m.entries.length

/-- the entries from the oldest on -/
def pairs (m : OrderedMap K V) : List (K × V) := (m.entries.map fun e => (e.1, e.2)).reverse

theorem mem_of_pairs {e : K × V} (h : e ∈ m.pairs) : e.1 ∈ m := by
  obtain ⟨e', he', rfl⟩ := List.mem_map.1 (List.mem_reverse.1 h)
  exact AList.mem_keys.2 (List.mem_keys_of_mem he')

theorem nodup_keys (m : OrderedMap K V) : (m.pairs.map Prod.fst).Nodup := by
  have hkeys : m.pairs.map Prod.fst = m.keys.reverse := by
    rw [pairs, List.map_reverse, List.map_map]
    rfl
  rw [hkeys]
  exact List.nodup_reverse.2 m.keys_nodup

variable [DecidableEq K] {k k' : K} {v : V}

def get (m : OrderedMap K V) (k : K) : Option V := AList.lookup k m

def set (m : OrderedMap K V) (k : K) (v : V) : OrderedMap K V := if k ∈ m then AList.replace k v m else AList.insert k v m

def delete (m : OrderedMap K V) (k : K) : OrderedMap K V := AList.erase k m

theorem mem_iff : k ∈ m ↔ ∃ v, m.get k = some v := AList.lookup_isSome.symm.trans Option.isSome_iff_exists

theorem get_eq_none : m.get k = none ↔ k ∉ m := AList.lookup_eq_none

theorem get_of_pairs {e : K × V} (h : e ∈ m.pairs) : m.get e.1 = some e.2 := by
  obtain ⟨e', he', rfl⟩ := List.mem_map.1 (List.mem_reverse.1 h)
  exact AList.mem_lookup_iff.2 he'

theorem mem_keys : k ∈ m.pairs.map Prod.fst ↔ k ∈ m := by
  constructor
  · intro hk
    obtain ⟨e, he, rfl⟩ := List.mem_map.1 hk
    exact mem_of_pairs he
  · intro hk
    obtain ⟨v, hv⟩ := mem_iff.1 hk
    refine List.mem_map.2 ⟨(k, v), List.mem_reverse.2 (List.mem_map.2 ⟨⟨k, v⟩, ?_, rfl⟩), rfl⟩
    exact AList.mem_lookup_iff.1 hv

@[simp] theorem get_empty (k : K) : (∅ : OrderedMap K V).get k = none := rfl

theorem kreplace_cons (k : K) (v : V) (e : Sigma fun _ : K => V) (l : List (Sigma fun _ : K => V)) :
    List.kreplace k v (e :: l) = if k = e.1 then ⟨k, v⟩ :: l else e :: List.kreplace k v l := by
  split_ifs with h
  · exact List.lookmap_cons_some (fun s => if k = s.1 then some ⟨k, v⟩ else none) l (if_pos h)
  · exact List.lookmap_cons_none (fun s => if k = s.1 then some ⟨k, v⟩ else none) l (if_neg h)

theorem dlookup_kreplace (k k' : K) (v : V) (l : List (Sigma fun _ : K => V)) :
    List.dlookup k' (List.kreplace k v l) = if k' = k then (List.dlookup k l).map fun _ => v else List.dlookup k' l := by
  induction l with
  | nil => split_ifs <;> rfl
  | cons e l ih =>
    obtain ⟨k₁, v₁⟩ := e
    rw [kreplace_cons]
    by_cases h : k = k₁
    · rw [if_pos h, ← h]
      by_cases hk : k' = k
      · rw [if_pos hk, hk, List.dlookup_cons_eq, List.dlookup_cons_eq]
        rfl
      · rw [if_neg hk, List.dlookup_cons_ne _ _ hk, List.dlookup_cons_ne _ _ hk]
    · rw [if_neg h]
      by_cases hk : k' = k
      · rw [if_pos hk] at ih ⊢
        rw [hk, List.dlookup_cons_ne _ _ h, List.dlookup_cons_ne _ _ h, ← ih, hk]
      · rw [if_neg hk] at ih ⊢
        by_cases he : k' = k₁
        · rw [he, List.dlookup_cons_eq, List.dlookup_cons_eq]
        · rw [List.dlookup_cons_ne _ _ he, List.dlookup_cons_ne _ _ he, ih]

/-- **Setting.** -/
theorem get_set (m : OrderedMap K V) (k k' : K) (v : V) :
    (m.set k v).get k' = if k' = k then some v else m.get k' := by
  unfold OrderedMap.set
  split_ifs with hm hk hk
  · obtain ⟨w, hw⟩ := mem_iff.1 hm
    have hl : List.dlookup k m.entries = some w := hw
    exact (dlookup_kreplace k k' v m.entries).trans (by rw [if_pos hk, hl]; rfl)
  · exact (dlookup_kreplace k k' v m.entries).trans (if_neg hk)
  · rw [hk]
    exact AList.lookup_insert m
  · exact AList.lookup_insert_ne hk

@[simp] theorem get_set_self (m : OrderedMap K V) (k : K) (v : V) : (m.set k v).get k = some v := by
  rw [get_set, if_pos rfl]

theorem get_set_ne (h : k' ≠ k) : (m.set k v).get k' = m.get k' := by rw [get_set, if_neg h]

/-- **Deleting.** -/
theorem get_delete (m : OrderedMap K V) (k k' : K) :
    (m.delete k).get k' = if k' = k then none else m.get k' := by
  split_ifs with h
  · rw [h]
    exact AList.lookup_erase k m
  · exact AList.lookup_erase_ne h

theorem mem_set : k' ∈ m.set k v ↔ k' = k ∨ k' ∈ m := by
  rw [mem_iff, get_set, mem_iff]
  split_ifs with h
  · simp [h]
  · simp [h]

theorem mem_delete : k' ∈ m.delete k ↔ k' ≠ k ∧ k' ∈ m := AList.mem_erase

theorem kerase_kreplace (k : K) (v : V) (l : List (Sigma fun _ : K => V)) :
    List.kerase k (List.kreplace k v l) = List.kerase k l := by
  induction l with
  | nil => rfl
  | cons e l ih =>
    rw [kreplace_cons]
    split_ifs with h
    · exact (List.kerase_cons_eq (s := ⟨k, v⟩) rfl).trans (List.kerase_cons_eq h).symm
    · rw [List.kerase_cons_ne h, List.kerase_cons_ne h, ih]

/-- deleting takes back what `set` did, and nothing moves -/
theorem delete_set (m : OrderedMap K V) (k : K) (v : V) : (m.set k v).delete k = m.delete k := by
  unfold OrderedMap.set
  split_ifs with hm
  · exact AList.ext (kerase_kreplace k v m.entries)
  · apply AList.ext
    rw [AList.insert_of_notMem hm]
    exact (List.kerase_cons_eq (s := ⟨k, v⟩) rfl).trans (List.kerase_of_notMem_keys hm).symm

theorem delete_of_absent (h : m.get k = none) : m.delete k = m :=
  AList.ext (List.kerase_of_notMem_keys (get_eq_none.1 h))

end OrderedMap
