/-
A table of entries with an index on one of their attributes.

`Indexed key table index`: the index maps the key of every entry to the entry's id, and nothing else. So an id found in
the index is in the table, and no two entries share a key. The four edits that keep it are an insertion of a fresh entry
under a fresh key, a change that leaves the key alone, a removal from both maps, and their combination. `having p table` are
the entries with a property; an edit of one entry moves their number by at most one. `weigh f table` adds up the weights of
the entries.
-/
import Mathlib.Data.Finmap
import Mathlib.Tactic

namespace Table

variable {ι κ β : Type*} [DecidableEq ι] [DecidableEq κ] {key : β → κ} {table : Finmap fun _ : ι => β}
  {index : Finmap fun _ : κ => ι} {id : ι} {b b' : β}

structure Indexed (key : β → κ) (table : Finmap fun _ : ι => β) (index : Finmap fun _ : κ => ι) : Prop where
  forward : ∀ {id b}, table.lookup id = some b → index.lookup (key b) = some id
  backward : ∀ {k id}, index.lookup k = some id → ∃ b, table.lookup id = some b ∧ key b = k

namespace Indexed

theorem empty : Indexed key (∅ : Finmap fun _ : ι => β) ∅ :=
  ⟨(fun h => nomatch (Finmap.lookup_empty _).symm.trans h), (fun h => nomatch (Finmap.lookup_empty _).symm.trans h)⟩

/-- no two entries share a key -/
theorem injective (h : Indexed key table index) {id' : ι} (h1 : table.lookup id = some b) (h2 : table.lookup id' = some b')
    (hk : key b = key b') : id = id' :=
  Option.some.inj ((h.forward h1).symm.trans (hk ▸ h.forward h2))

theorem insert (h : Indexed key table index) (hid : table.lookup id = none) (hkey : index.lookup (key b) = none) :
    Indexed key (table.insert id b) (index.insert (key b) id) := by
  constructor
  · intro i x hx
    by_cases hi : i = id
    · subst hi
      rw [Finmap.lookup_insert, Option.some.injEq] at hx
      subst hx; exact Finmap.lookup_insert _
    · rw [Finmap.lookup_insert_of_ne _ hi] at hx
      have hf := h.forward hx
      rw [Finmap.lookup_insert_of_ne _ fun he => by rw [he, hkey] at hf; cases hf]
      exact hf
  · intro k i hk
    by_cases he : k = key b
    · subst he
      rw [Finmap.lookup_insert, Option.some.injEq] at hk
      subst hk; exact ⟨b, Finmap.lookup_insert _, rfl⟩
    · rw [Finmap.lookup_insert_of_ne _ he] at hk
      obtain ⟨x, hx, hkx⟩ := h.backward hk
      refine ⟨x, ?_, hkx⟩
      rw [Finmap.lookup_insert_of_ne _ fun hi => by rw [hi, hid] at hx; cases hx]
      exact hx

/-- a change that leaves the key alone -/
theorem update (h : Indexed key table index) (hid : table.lookup id = some b) (hkey : key b' = key b) :
    Indexed key (table.insert id b') index := by
  constructor
  · intro i x hx
    by_cases hi : i = id
    · subst hi
      rw [Finmap.lookup_insert, Option.some.injEq] at hx
      subst hx; rw [hkey]; exact h.forward hid
    · rw [Finmap.lookup_insert_of_ne _ hi] at hx
      exact h.forward hx
  · intro k i hk
    obtain ⟨x, hx, hkx⟩ := h.backward hk
    by_cases hi : i = id
    · subst hi
      rw [hid, Option.some.injEq] at hx
      subst hx; exact ⟨b', Finmap.lookup_insert _, hkey.trans hkx⟩
    · exact ⟨x, by rw [Finmap.lookup_insert_of_ne _ hi]; exact hx, hkx⟩

theorem erase (h : Indexed key table index) (hid : table.lookup id = some b) :
    Indexed key (table.erase id) (index.erase (key b)) := by
  constructor
  · intro i x hx
    have hi : i ≠ id := fun hi => by rw [hi, Finmap.lookup_erase] at hx; cases hx
    rw [Finmap.lookup_erase_ne hi] at hx
    rw [Finmap.lookup_erase_ne fun hk => hi (h.injective hx hid hk)]
    exact h.forward hx
  · intro k i hk
    have hne : k ≠ key b := fun hn => by rw [hn, Finmap.lookup_erase] at hk; cases hk
    rw [Finmap.lookup_erase_ne hne] at hk
    obtain ⟨x, hx, hkx⟩ := h.backward hk
    refine ⟨x, ?_, hkx⟩
    rw [Finmap.lookup_erase_ne fun hi => hne ?_]
    · exact hx
    · rw [hi, hid, Option.some.injEq] at hx
      exact hkx.symm.trans (congrArg key hx.symm)

/-- a table has one index -/
theorem unique (h : Indexed key table index) {index' : Finmap fun _ : κ => ι} (h' : Indexed key table index') : index = index' := by
  refine Finmap.ext_lookup fun k => Option.ext fun id => ⟨fun hk => ?_, fun hk => ?_⟩
  · obtain ⟨x, hx, rfl⟩ := h.backward hk
    exact h'.forward hx
  · obtain ⟨x, hx, rfl⟩ := h'.backward hk
    exact h.forward hx

end Indexed

/-! ## Maps after an edit -/

theorem insert_self (h : table.lookup id = some b) : table.insert id b = table := by
  refine Finmap.ext_lookup fun i => ?_
  by_cases hi : i = id
  · rw [hi, Finmap.lookup_insert, h]
  · rw [Finmap.lookup_insert_of_ne _ hi]

theorem erase_insert (table : Finmap fun _ : ι => β) (id : ι) (b : β) : (table.insert id b).erase id = table.erase id := by
  refine Finmap.ext_lookup fun i => ?_
  by_cases hi : i = id
  · rw [hi, Finmap.lookup_erase, Finmap.lookup_erase]
  · rw [Finmap.lookup_erase_ne hi, Finmap.lookup_erase_ne hi, Finmap.lookup_insert_of_ne _ hi]

theorem keys_insert : (table.insert id b).keys = Insert.insert id table.keys := by
  ext i
  rw [Finmap.mem_keys, Finmap.mem_insert, Finset.mem_insert, Finmap.mem_keys]

/-! ## Counting entries -/

/-- the ids of the entries with a property -/
def having (p : β → Bool) (table : Finmap fun _ : ι => β) : Finset ι :=
  table.keys.filter fun id => (table.lookup id).any p

variable {p : β → Bool}

theorem mem_having {i : ι} : i ∈ having p table ↔ ∃ x, table.lookup i = some x ∧ p x = true := by
  rw [having, Finset.mem_filter, Finmap.mem_keys, Finmap.mem_iff]
  constructor
  · rintro ⟨⟨x, hx⟩, hp⟩
    rw [hx] at hp
    exact ⟨x, hx, hp⟩
  · rintro ⟨x, hx, hp⟩
    exact ⟨⟨x, hx⟩, by rw [hx]; exact hp⟩

theorem having_update (h : table.lookup id = some b) (hp : p b' = p b) : having p (table.insert id b') = having p table := by
  ext i
  rw [mem_having, mem_having]
  by_cases hi : i = id
  · rw [hi, Finmap.lookup_insert, h]
    simp [hp]
  · rw [Finmap.lookup_insert_of_ne _ hi]

theorem having_erase : having p (table.erase id) = (having p table).erase id := by
  ext i
  rw [Finset.mem_erase, mem_having, mem_having]
  by_cases hi : i = id
  · subst hi
    rw [Finmap.lookup_erase]
    simp
  · rw [Finmap.lookup_erase_ne hi]
    simp [hi]

theorem having_erase_subset : having p (table.erase id) ⊆ having p table := by
  rw [having_erase]
  exact Finset.erase_subset _ _

/-- a removal frees one place -/
theorem card_having_erase (h : table.lookup id = some b) (hp : p b = true) :
    (having p (table.erase id)).card + 1 = (having p table).card := by
  rw [having_erase]
  exact Finset.card_erase_add_one (mem_having.2 ⟨b, h, hp⟩)

theorem having_insert_subset (p : β → Bool) (table : Finmap fun _ : ι => β) (id : ι) (b : β) :
    having p (table.insert id b) ⊆ if p b then Insert.insert id (having p table) else having p table := by
  intro i hi
  obtain ⟨x, hx, hp⟩ := mem_having.1 hi
  by_cases he : i = id
  · rw [he, Finmap.lookup_insert, Option.some.injEq] at hx
    rw [hx, hp, if_pos rfl, he]; exact Finset.mem_insert_self _ _
  · rw [Finmap.lookup_insert_of_ne _ he] at hx
    have hmem : i ∈ having p table := mem_having.2 ⟨x, hx, hp⟩
    split_ifs
    · exact Finset.mem_insert_of_mem hmem
    · exact hmem

/-! ## Weighing entries -/

/-- the sum of the weights of the entries -/
def weigh (f : β → ℕ) (table : Finmap fun _ : ι => β) : ℕ := ∑ id ∈ table.keys, (table.lookup id).elim 0 f

/-- one entry, and the rest -/
theorem weigh_erase (f : β → ℕ) (h : table.lookup id = some b) : weigh f table = weigh f (table.erase id) + f b := by
  have hid : id ∈ table.keys := Finmap.mem_keys.2 (Finmap.mem_of_lookup_eq_some h)
  have hrest : ∑ i ∈ table.keys.erase id, (table.lookup i).elim 0 f = weigh f (table.erase id) := by
    rw [weigh, Finmap.keys_erase]
    refine Finset.sum_congr rfl fun i hi => ?_
    rw [Finmap.lookup_erase_ne (Finset.ne_of_mem_erase hi)]
  rw [weigh, ← Finset.sum_erase_add _ _ hid, hrest, h]
  rfl

/-- an entry changes -/
theorem weigh_update (f : β → ℕ) (h : table.lookup id = some b) (b' : β) : weigh f (table.insert id b') + f b = weigh f table + f b' := by
  rw [weigh_erase f (Finmap.lookup_insert table), erase_insert, weigh_erase f h]
  exact Nat.add_right_comm _ _ _

end Table
