/-
Counting how often the pieces of a stream were sent.

A log holds the end position of each transmission. `Paid len times log p l` says that the pieces `l`, which cover the
positions from `p` on, were sent as often as they say themselves, and that nothing beyond them was sent. The end of a piece
is what identifies it: an acknowledgment of a part of it moves its start. Sending a new piece, sending the first one again
and acknowledging keep the statement.
- `Paid.push`, `Paid.again`: a transmission adds one to the count of one piece and leaves the others alone.
-/
import Mathlib.Tactic

namespace Tally

variable {β : Type*} {len times : β → ℕ} {log : List ℕ} {p q n limit : ℕ} {x x' : β} {l : List β}

theorem count_concat (log : List ℕ) (q r : ℕ) : (log ++ [q]).count r = log.count r + if q = r then 1 else 0 := by
  rw [List.count_append, List.count_singleton]
  simp

/-- every position is the end of at most `limit` transmissions -/
def Bounded (limit : ℕ) (log : List ℕ) : Prop := ∀ q, log.count q ≤ limit

theorem Bounded.concat (h : Bounded limit log) (hq : log.count q < limit) : Bounded limit (log ++ [q]) := by
  intro r
  rw [count_concat]
  split_ifs with hr
  · rw [← hr]; exact hq
  · exact h r

/-- the log counts each piece as often as it was sent, and nothing beyond the last -/
def Paid (len times : β → ℕ) (log : List ℕ) : ℕ → List β → Prop
  | p, [] => ∀ q, p < q → log.count q = 0
  | p, x :: l => log.count (p + len x) = times x ∧ Paid len times log (p + len x) l

namespace Paid

theorem beyond (h : Paid len times log p l) (hq : p + (l.map len).sum < q) : log.count q = 0 := by
  induction l generalizing p with
  | nil => exact h q hq
  | cons x l ih =>
    rw [List.map_cons, List.sum_cons, ← Nat.add_assoc] at hq
    exact ih h.2 hq

/-- the count of a piece -/
theorem mem (h : Paid len times log p l) {before after : List β} (hl : l = before ++ x :: after) :
    log.count (p + (before.map len).sum + len x) = times x := by
  subst hl
  induction before generalizing p with
  | nil => exact h.1
  | cons y before ih =>
    rw [List.map_cons, List.sum_cons, ← Nat.add_assoc]
    exact ih h.2

/-- a transmission that ends before the pieces start does not count for them -/
theorem earlier (h : Paid len times log p l) (hpos : ∀ y ∈ l, 0 < len y) (hq : q ≤ p) : Paid len times (log ++ [q]) p l := by
  induction l generalizing p with
  | nil =>
    intro r hr
    rw [count_concat, if_neg (by omega), h r hr]
  | cons y l ih =>
    have hy := hpos y List.mem_cons_self
    refine ⟨?_, ih h.2 (fun z hz => hpos z (List.mem_cons_of_mem _ hz)) (by omega)⟩
    rw [count_concat, if_neg (by omega), h.1, Nat.add_zero]

/-- **The first piece, once more.** -/
theorem again (h : Paid len times log p (x :: l)) (hpos : ∀ y ∈ l, 0 < len y) (hlen : len x' = len x)
    (htimes : times x' = times x + 1) : Paid len times (log ++ [p + len x]) p (x' :: l) := by
  refine ⟨?_, ?_⟩
  · rw [hlen, count_concat, if_pos rfl, h.1, htimes]
  · rw [hlen]
    exact h.2.earlier hpos le_rfl

/-- **A new piece.** -/
theorem push (h : Paid len times log p l) (hlen : 0 < len x) (htimes : times x = 1) :
    Paid len times (log ++ [p + (l.map len).sum + len x]) p (l ++ [x]) := by
  induction l generalizing p with
  | nil =>
    have h0 := h (p + len x) (by omega)
    rw [List.map_nil, List.sum_nil, Nat.add_zero]
    refine ⟨?_, fun q hq => ?_⟩
    · rw [count_concat, if_pos rfl, h0, htimes]
    · rw [count_concat, if_neg (by omega), h q (by omega)]
  | cons y l ih =>
    rw [List.map_cons, List.sum_cons, ← Nat.add_assoc]
    refine ⟨?_, ih h.2⟩
    rw [count_concat, if_neg (by omega), h.1, Nat.add_zero]

/-- **A part of the first piece is acknowledged**: its end stays. -/
theorem trim (h : Paid len times log p (x :: l)) (hlen : len x = n + len x') (htimes : times x' = times x) :
    Paid len times log (p + n) (x' :: l) := by
  have hend : p + n + len x' = p + len x := by rw [hlen, Nat.add_assoc]
  refine ⟨?_, ?_⟩
  · rw [hend, h.1, htimes]
  · rw [hend]
    exact h.2

end Paid

end Tally
