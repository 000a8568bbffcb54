/-
A cursor that goes round a range of positions.

`next lo n` moves on by one and from the last of the `n` positions at `lo` back to the first. A function `f` on arbitrary values
goes round when their positions do (`Rounds`); one round from a value of the range visits every value of the range
(`Rounds.mem_iff`), and each once (`Rounds.nodup`). So a search along one round finds what there is to find, wherever it starts.
-/
import Mathlib.Data.List.Iterate
import Mathlib.Tactic

namespace Cursor

variable {lo n k : ℕ}

def next (lo n p : ℕ) : ℕ := if p + 1 = lo + n then lo else p + 1

/-- after `i` moves -/
theorem iterate_next (hk : k < n) (i : ℕ) : (next lo n)^[i] (lo + k) = lo + (k + i) % n := by
  induction i with
  | zero => rw [Function.iterate_zero_apply, Nat.add_zero, Nat.mod_eq_of_lt hk]
  | succ i ih =>
    have hlt : (k + i) % n < n := Nat.mod_lt _ (Nat.zero_lt_of_lt hk)
    have hsucc : (k + (i + 1)) % n = ((k + i) % n + 1) % n := (Nat.mod_add_mod (k + i) n 1).symm
    rw [Function.iterate_succ_apply', ih, hsucc, next]
    split_ifs with hlast
    · have hn : (k + i) % n + 1 = n := by omega
      rw [hn, Nat.mod_self, Nat.add_zero]
    · have hn : (k + i) % n + 1 < n := by omega
      rw [Nat.mod_eq_of_lt hn, Nat.add_assoc]

/-- the positions of `f`'s values go round the range -/
structure Rounds {α : Type*} (pos : α → ℕ) (lo n : ℕ) (f : α → α) : Prop where
  injective : Function.Injective pos
  step : Function.Semiconj pos f (next lo n)

namespace Rounds

variable {α : Type*} {pos : α → ℕ} {f : α → α} {a b : α}

theorem iterate (h : Rounds pos lo n f) (ha : pos a = lo + k) (hk : k < n) (i : ℕ) : pos (f^[i] a) = lo + (k + i) % n := by
  rw [(h.step.iterate_right i).eq, ha, iterate_next hk]

/-- **One round** visits the range. -/
theorem mem_iff (h : Rounds pos lo n f) (ha : pos a = lo + k) (hk : k < n) :
    b ∈ List.iterate f a n ↔ lo ≤ pos b ∧ pos b < lo + n := by
  rw [List.mem_iterate]
  constructor
  · rintro ⟨i, -, rfl⟩
    rw [h.iterate ha hk]
    have hlt : (k + i) % n < n := Nat.mod_lt _ (Nat.zero_lt_of_lt hk)
    exact ⟨Nat.le_add_right _ _, Nat.add_lt_add_left hlt lo⟩
  · rintro ⟨hlo, hhi⟩
    obtain ⟨j, hj⟩ := Nat.exists_eq_add_of_le hlo
    have hjn : j < n := by omega
    -- the distance from the cursor, through the end of the range where the value is behind it
    obtain ⟨i, hi, hmod⟩ : ∃ i < n, (k + i) % n = j := by
      by_cases hle : k ≤ j
      · exact ⟨j - k, by omega, by rw [Nat.add_sub_cancel' hle, Nat.mod_eq_of_lt hjn]⟩
      · refine ⟨j + n - k, by omega, ?_⟩
        rw [Nat.add_sub_cancel' (by omega), Nat.add_mod_right, Nat.mod_eq_of_lt hjn]
    refine ⟨i, hi, h.injective ?_⟩
    rw [h.iterate ha hk, hmod, hj]

/-- and visits nothing twice -/
theorem nodup (h : Rounds pos lo n f) (ha : pos a = lo + k) (hk : k < n) : (List.iterate f a n).Nodup := by
  rw [← List.range_map_iterate]
  refine List.nodup_range.map_on fun i hi j hj heq => ?_
  have hpos := congrArg pos heq
  simp only [h.iterate ha hk, Nat.add_left_cancel_iff] at hpos
  have hmod : i ≡ j [MOD n] := Nat.ModEq.add_left_cancel' k hpos
  exact hmod.eq_of_lt_of_lt (List.mem_range.1 hi) (List.mem_range.1 hj)

end Rounds

end Cursor
