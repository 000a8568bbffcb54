/-
Runs that end.

A step relation has no endless run from a state that satisfies an invariant, if every step from such a state keeps the
invariant and makes a measure smaller (`ends`). Where a system takes messages out of a pool and puts replies into it, the
measure adds up the weights of the messages (`sum_exchange`), and several measures are combined by giving one precedence over
the next (`levels_lt`).
-/
import Mathlib.Tactic

namespace Descent

variable {σ μ α : Type*}

/-- a run without an end -/
def Endless (step : σ → σ → Prop) (s : σ) : Prop := ∃ run : ℕ → σ, run 0 = s ∧ ∀ n, step (run n) (run (n + 1))

/-- **Descent.** -/
theorem ends [Preorder μ] [WellFoundedLT μ] {step : σ → σ → Prop} {I : σ → Prop} (measure : σ → μ)
    (hstep : ∀ {s t}, I s → step s t → I t ∧ measure t < measure s) {s : σ} (hs : I s) : ¬ Endless step s := by
  rintro ⟨run, h0, hrun⟩
  have hinv : ∀ n, I (run n) := fun n => by
    induction n with
    | zero => exact h0 ▸ hs
    | succ n ih => exact (hstep ih (hrun n)).1
  obtain ⟨n, hn⟩ := WellFounded.not_rel_apply_succ (r := (· < ·)) fun n => measure (run n)
  exact hn (hstep (hinv n) (hrun n)).2

/-! ## Measures -/

/-- a message leaves the pool, and the replies enter it -/
theorem sum_exchange [DecidableEq α] (weight : α → ℕ) {pool : Multiset α} {m : α} (h : m ∈ pool) (replies : Multiset α) :
    ((pool.erase m + replies).map weight).sum + weight m = (pool.map weight).sum + (replies.map weight).sum := by
  rw [Multiset.map_add, Multiset.sum_add, ← Multiset.sum_map_erase h]
  omega

/-- four measures in their order of precedence -/
abbrev Levels := ℕ ×ₗ ℕ ×ₗ ℕ ×ₗ ℕ

def levels (a b c d : ℕ) : Levels := toLex (a, toLex (b, toLex (c, d)))

/-- a measure may grow when one before it falls -/
theorem levels_lt {a a' b b' c c' d d' : ℕ} (ha : a' ≤ a) (hb : a' = a → b' ≤ b) (hc : a' = a → b' = b → c' ≤ c)
    (hd : a' = a → b' = b → c' = c → d' < d) : levels a' b' c' d' < levels a b c d := by
  simp only [levels, Prod.Lex.toLex_lt_toLex']
  exact ⟨ha, fun h1 => ⟨hb h1, fun h2 => ⟨hc h1 h2, hd h1 h2⟩⟩⟩

end Descent
