/-
An ordered map in the place of a finite map.

`Mirrors name R m o`: the ordered map holds, under the names of the keys of the finite map, values that stand in a relation to
its values, and nothing else. Edits of an entry on both sides keep it (`insert`, `erase`). What a program counts or walks is the
same on both sides: the number of the entries (`size_eq`), that of the entries with a property (`count_eq`), and the entries in
the order of the one, which is an order of the keys of the other (`order`).
-/
import FipsTcp.Lib.OrderedMap
import FipsTcp.Lib.Table

namespace OrderedMap

variable {α β γ δ : Type*} [DecidableEq α] [DecidableEq β] {name : α → β} {R : γ → δ → Prop}
  {m : Finmap fun _ : α => γ} {o : OrderedMap β δ} {a : α} {x : γ} {y : δ}

structure Mirrors (name : α → β) (R : γ → δ → Prop) (m : Finmap fun _ : α => γ) (o : OrderedMap β δ) : Prop where
  entry : ∀ a, Option.Rel R (m.lookup a) (o.get (name a))
  named : ∀ b ∈ o, ∃ a, name a = b

namespace Mirrors

theorem empty : Mirrors name R ∅ ∅ :=
  ⟨fun a => by rw [Finmap.lookup_empty]; exact .none, fun b hb => absurd hb (AList.notMem_empty b)⟩

/-! ## Entries -/

theorem found (h : Mirrors name R m o) (hx : m.lookup a = some x) : ∃ y, o.get (name a) = some y ∧ R x y := by
  have hentry := h.entry a
  rw [hx] at hentry
  cases hget : o.get (name a) with
  | none => rw [hget] at hentry; cases hentry
  | some y =>
    rw [hget] at hentry
    cases hentry with
    | some hR => exact ⟨y, rfl, hR⟩

theorem missing (h : Mirrors name R m o) (hx : m.lookup a = none) : o.get (name a) = none := by
  have hentry := h.entry a
  rw [hx] at hentry
  cases hget : o.get (name a) with
  | none => rfl
  | some y => rw [hget] at hentry; cases hentry

theorem mem_iff (h : Mirrors name R m o) : name a ∈ o ↔ a ∈ m := by
  constructor
  · intro ho
    obtain ⟨y, hy⟩ := OrderedMap.mem_iff.1 ho
    by_contra hm
    rw [h.missing (Finmap.lookup_eq_none.2 hm)] at hy
    cases hy
  · intro hm
    obtain ⟨x, hx⟩ := Finmap.mem_iff.1 hm
    obtain ⟨y, hy, -⟩ := h.found hx
    exact OrderedMap.mem_iff.2 ⟨y, hy⟩

/-! ## Edits -/

theorem insert (hname : Function.Injective name) (h : Mirrors name R m o) (a : α) (hR : R x y) :
    Mirrors name R (m.insert a x) (o.set (name a) y) := by
  refine ⟨fun a' => ?_, fun b hb => ?_⟩
  · rw [get_set]
    by_cases ha : a' = a
    · rw [ha, Finmap.lookup_insert, if_pos rfl]
      exact .some hR
    · rw [Finmap.lookup_insert_of_ne _ ha, if_neg fun hn => ha (hname hn)]
      exact h.entry a'
  · rcases mem_set.1 hb with hb | hb
    · exact ⟨a, hb.symm⟩
    · exact h.named b hb

theorem erase (hname : Function.Injective name) (h : Mirrors name R m o) (a : α) :
    Mirrors name R (m.erase a) (o.delete (name a)) := by
  refine ⟨fun a' => ?_, fun b hb => h.named b (mem_delete.1 hb).2⟩
  rw [get_delete]
  by_cases ha : a' = a
  · rw [ha, Finmap.lookup_erase, if_pos rfl]
    exact .none
  · rw [Finmap.lookup_erase_ne ha, if_neg fun hn => ha (hname hn)]
    exact h.entry a'

/-! ## The whole map -/

/-- the order of the one is an order of the keys of the other -/
theorem order (hname : Function.Injective name) (h : Mirrors name R m o) :
    ∃ keys : List α, keys.map name = o.pairs.map Prod.fst ∧ keys.Nodup ∧ keys.toFinset = m.keys := by
  obtain ⟨keys, hkeys⟩ : o.pairs.map Prod.fst ∈ Set.range (List.map name) := by
    rw [Set.range_list_map]
    exact fun b hb => h.named b (mem_keys.1 hb)
  refine ⟨keys, hkeys, List.Nodup.of_map name (hkeys ▸ o.nodup_keys), ?_⟩
  ext a
  rw [List.mem_toFinset, Finmap.mem_keys, ← h.mem_iff, ← mem_keys, ← hkeys, List.mem_map_of_injective hname]

theorem size_eq (hname : Function.Injective name) (h : Mirrors name R m o) : o.size = m.keys.card := by
  obtain ⟨keys, hkeys, hnodup, hset⟩ := h.order hname
  have hlength := congrArg List.length hkeys
  rw [List.length_map, List.length_map, pairs, List.length_reverse, List.length_map] at hlength
  rw [← hset, List.toFinset_card_of_nodup hnodup, hlength]
  rfl

/-- the entries with a property that the relation respects -/
theorem count_eq (hname : Function.Injective name) (h : Mirrors name R m o) {p : γ → Bool} {q : δ → Bool}
    (hpq : ∀ x y, R x y → p x = q y) : (o.pairs.filter fun e => q e.2).length = (Table.having p m).card := by
  obtain ⟨keys, hkeys, hnodup, hset⟩ := h.order hname
  have hvalue : ∀ e ∈ o.pairs, q e.2 = (o.get e.1).any q := fun e he => by rw [get_of_pairs he, Option.any_some]
  have hentry : ∀ a, (o.get (name a)).any q = (m.lookup a).any p := fun a => by
    cases hx : m.lookup a with
    | none => rw [h.missing hx]; rfl
    | some x =>
      obtain ⟨y, hy, hR⟩ := h.found hx
      rw [hy]
      exact (hpq x y hR).symm
  calc (o.pairs.filter fun e => q e.2).length
      = (o.pairs.filter ((fun b => (o.get b).any q) ∘ Prod.fst)).length := by rw [List.filter_congr hvalue]; rfl
    _ = ((o.pairs.map Prod.fst).filter fun b => (o.get b).any q).length := by rw [List.filter_map, List.length_map]
    _ = (keys.filter fun a => (m.lookup a).any p).length := by
        rw [← hkeys, List.filter_map, List.length_map]
        simp only [Function.comp_def, hentry]
    _ = (Table.having p m).card := by
        rw [← List.toFinset_card_of_nodup (hnodup.filter _), List.toFinset_filter, hset]
        rfl

end Mirrors

end OrderedMap
