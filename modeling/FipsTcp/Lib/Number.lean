/-
Whole numbers as the IEEE 754 doubles of a JavaScript program hold them.

A number below 2^53 is held exactly; the result of an operation from there on is rounded to 53 significant bits, ties to even
(`rounded`). Rounding never crosses 2^53, so a comparison with a number below 2^53, or a minimum with one, sees the exact value
(`rounded_le_iff`, `min_rounded`). The bitwise operators convert to 32 bits first (`toUint32`, `toInt32`), which is the arithmetic
of 32-bit words (`toUint32_add`, `toInt32_sub`).
-/
import Mathlib.Tactic

namespace Number

/-- `Number.MAX_SAFE_INTEGER` -/
def maxSafe : ℕ := 2 ^ 53 - 1

/-- the double closest to a natural number -/
def rounded (n : ℕ) : ℕ :=
  if n < 2 ^ 53 then n
  else
    let unit := 2 ^ (n.log2 - 52)
    let low := n / unit
    let rest := n % unit
    (if 2 * rest < unit then low else if unit < 2 * rest then low + 1 else low + low % 2) * unit

@[simp] theorem rounded_of_lt {n : ℕ} (h : n < 2 ^ 53) : rounded n = n := if_pos h

theorem le_rounded {n : ℕ} (h : 2 ^ 53 ≤ n) : 2 ^ 53 ≤ rounded n := by
  have hlog : 53 ≤ n.log2 := (Nat.le_log2 (by omega)).2 h
  have hpow : 2 ^ 53 ≤ n / 2 ^ (n.log2 - 52) * 2 ^ (n.log2 - 52) := by
    -- the quotient has 53 bits, and the unit is at least 2
    have hq : 2 ^ 52 ≤ n / 2 ^ (n.log2 - 52) := by
      rw [Nat.le_div_iff_mul_le (by positivity), ← pow_add, show 52 + (n.log2 - 52) = n.log2 by omega]
      exact Nat.log2_self_le (by omega)
    have hu : 2 ≤ 2 ^ (n.log2 - 52) := Nat.le_self_pow (by omega) 2
    calc 2 ^ 53 = 2 ^ 52 * 2 := by norm_num
      _ ≤ n / 2 ^ (n.log2 - 52) * 2 ^ (n.log2 - 52) := Nat.mul_le_mul hq hu
  unfold rounded
  rw [if_neg (by omega)]
  refine hpow.trans (Nat.mul_le_mul_right _ ?_)
  split_ifs <;> omega

theorem rounded_cases (n : ℕ) : n < 2 ^ 53 ∧ rounded n = n ∨ 2 ^ 53 ≤ n ∧ 2 ^ 53 ≤ rounded n :=
  (lt_or_ge n (2 ^ 53)).imp (fun h => ⟨h, rounded_of_lt h⟩) fun h => ⟨h, le_rounded h⟩

/-- a comparison with an exact number sees the exact value -/
theorem rounded_le_iff {n m : ℕ} (hm : m < 2 ^ 53) : rounded n ≤ m ↔ n ≤ m := by
  have := rounded_cases n
  omega

theorem min_rounded {n m : ℕ} (hm : m < 2 ^ 53) : min m (rounded n) = min m n := by
  have := rounded_cases n
  omega

/-! ## 32-bit words -/

/-- `x >>> 0` -/
def toUint32 (x : ℤ) : ℕ := (x % 2 ^ 32).toNat

/-- `x | 0` -/
def toInt32 (x : ℤ) : ℤ := x.bmod (2 ^ 32)

variable (a b : BitVec 32)

@[simp] theorem toUint32_add (n : ℕ) : toUint32 (a.toNat + n : ℕ) = (a + BitVec.ofNat 32 n).toNat := by
  rw [BitVec.toNat_add, BitVec.toNat_ofNat]
  unfold toUint32
  omega

@[simp] theorem toUint32_sub : toUint32 (a.toNat - b.toNat) = (a - b).toNat := by
  have ha := a.isLt
  have hb := b.isLt
  rw [BitVec.toNat_sub]
  unfold toUint32
  omega

@[simp] theorem toInt32_sub : toInt32 (a.toNat - b.toNat) = (a - b).toInt := by
  unfold toInt32
  rw [BitVec.toInt_sub, BitVec.toInt_eq_toNat_bmod, BitVec.toInt_eq_toNat_bmod, Int.sub_bmod_bmod, Int.bmod_sub_bmod]

end Number
