/-
Serial-number arithmetic: positions of an unbounded stream, seen through a w-bit counter that wraps.

A stream starts at a `base` counter value. Position `p : ℕ` carries the counter value `pos base p`. Two counter values
are compared by the sign of their wrapping difference (`lt`), and subtracted by their unsigned difference (`dist`).
Neither function knows the positions. The results say when they agree with the positions:
- `dist_pos`: the distance is the true one while the positions differ by less than 2^w;
- `lt_pos_iff`: the comparison is the true one while they differ by less than 2^(w-1);
- `pos_inj`: equal counter values are equal positions while they differ by less than 2^w;
- `within_window`: a counter value that is neither before `a` nor after `a + n` is `a + k` for some k ≤ n. Nothing is
  assumed about the value: it may come from an adversary.
-/
import Mathlib.Tactic
import Mathlib.Data.BitVec

namespace Serial

variable {w : ℕ}

/-- the counter value at position `p` of a stream that starts at `base` -/
def pos (base : BitVec w) (p : ℕ) : BitVec w := base + BitVec.ofNat w p

/-- `a` precedes `b`: their wrapping difference is negative -/
def lt (a b : BitVec w) : Prop := (a - b).toInt < 0

instance (a b : BitVec w) : Decidable (lt a b) := by unfold lt; infer_instance

/-- how far `b` lies after `a` -/
def dist (a b : BitVec w) : ℕ := (b - a).toNat

/-! ## Positions -/

@[simp] theorem pos_zero (base : BitVec w) : pos base 0 = base := by simp [pos]

theorem pos_add (base : BitVec w) (p q : ℕ) : pos base (p + q) = pos base p + BitVec.ofNat w q := by
  simp [pos, BitVec.ofNat_add, BitVec.add_assoc]

theorem pos_pos (base : BitVec w) (p q : ℕ) : pos (pos base p) q = pos base (p + q) := by
  rw [pos_add]; rfl

theorem pos_sub (base : BitVec w) {p q : ℕ} (h : p ≤ q) : pos base q - pos base p = BitVec.ofNat w (q - p) := by
  obtain ⟨d, rfl⟩ := Nat.exists_eq_add_of_le h
  rw [pos_add, Nat.add_sub_cancel_left, add_sub_cancel_left]

theorem pos_dist (a b : BitVec w) : pos a (dist a b) = b := by
  rw [pos, dist, BitVec.ofNat_toNat, BitVec.setWidth_eq, add_sub_cancel]

@[simp] theorem dist_self (a : BitVec w) : dist a a = 0 := by simp [dist]

theorem dist_lt (a b : BitVec w) : dist a b < 2 ^ w := (b - a).isLt

/-! ## Distances and comparisons of positions -/

theorem dist_pos (base : BitVec w) {p q : ℕ} (h : p ≤ q) (hw : q < p + 2 ^ w) :
    dist (pos base p) (pos base q) = q - p := by
  rw [dist, pos_sub base h, BitVec.toNat_ofNat, Nat.mod_eq_of_lt (by omega)]

theorem dist_base (base : BitVec w) {q : ℕ} (hw : q < 2 ^ w) : dist base (pos base q) = q := by
  simpa using dist_pos base (Nat.zero_le q) (by simpa using hw)

theorem pos_inj (base : BitVec w) {p q : ℕ} (h1 : p < q + 2 ^ w) (h2 : q < p + 2 ^ w) :
    pos base p = pos base q ↔ p = q := by
  refine ⟨fun h => ?_, fun h => h ▸ rfl⟩
  rcases Nat.le_total p q with hpq | hpq
  · have := dist_pos base hpq h2
    rw [h, dist_self] at this; omega
  · have := dist_pos base hpq h1
    rw [h, dist_self] at this; omega

theorem lt_iff_dist (a b : BitVec w) : lt a b ↔ 2 ^ w ≤ 2 * dist b a := by
  rw [lt, BitVec.toInt_neg_iff, dist]

theorem dist_comm_of_ne {a b : BitVec w} (h : a ≠ b) : dist a b + dist b a = 2 ^ w := by
  have hb : (b - a).toNat ≠ 0 := by
    intro h0
    have : b - a = 0#w := BitVec.eq_of_toNat_eq (by simpa using h0)
    exact h (sub_eq_zero.1 this).symm
  have hneg : a - b = -(b - a) := (neg_sub b a).symm
  have hlt := (b - a).isLt
  rw [dist, dist, hneg, BitVec.toNat_neg, Nat.mod_eq_of_lt (by omega)]
  omega

/-- **Comparison of positions.** While the positions differ by less than 2^(w-1), the wrapping comparison is the
comparison of the positions. -/
theorem lt_pos_iff (base : BitVec w) {p q : ℕ} (h1 : 2 * p < 2 * q + 2 ^ w) (h2 : 2 * q < 2 * p + 2 ^ w) :
    lt (pos base p) (pos base q) ↔ p < q := by
  rw [lt_iff_dist]
  rcases Nat.lt_or_ge p q with hpq | hpq
  · have hne : pos base p ≠ pos base q := fun h => by
      rw [pos_inj base (by omega) (by omega)] at h; omega
    have hd := dist_pos base hpq.le (by omega)
    have hsum := dist_comm_of_ne hne
    constructor <;> intro _ <;> omega
  · rw [dist_pos base hpq (by omega)]
    constructor <;> intro _ <;> omega

theorem not_lt_self (a : BitVec w) : ¬ lt a a := by
  rw [lt_iff_dist, dist_self]; have := Nat.two_pow_pos w; omega

/-- **Window test.** A value neither before `a` nor after `a + n` is `a + k` with k ≤ n, whatever the value is. -/
theorem within_window {a c : BitVec w} {n : ℕ} (h1 : ¬ lt c a) (h2 : ¬ lt (pos a n) c) :
    dist a c ≤ n ∧ c = pos a (dist a c) := by
  refine ⟨?_, (pos_dist a c).symm⟩
  rw [lt_iff_dist] at h1 h2
  by_contra hk
  have hc : c = pos a (dist a c) := (pos_dist a c).symm
  have hd : dist c (pos a n) = 2 ^ w - (dist a c - n) := by
    have hlt := dist_lt a c
    have hne : pos a n ≠ c := by
      rw [hc]; intro h; rw [pos_inj a (by omega) (by omega)] at h; omega
    have hsum := dist_comm_of_ne hne
    have : dist (pos a n) c = dist a c - n := by
      conv_lhs => rw [hc]
      exact dist_pos a (by omega) (by omega)
    omega
  omega

end Serial
