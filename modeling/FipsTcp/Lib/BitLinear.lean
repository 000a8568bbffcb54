/-
Linear maps of words over GF(2), and how long they take to return.

A word of w bits stands for a polynomial of degree less than w. `eval T p` is the polynomial `p` in the linear map `T`; if `T`
satisfies x^w = `low`, then multiplication modulo x^w + `low` is composition (`eval_mul`), and powers are iterates (`eval_pow`).
So what 2^64 rounds of a map do is read off a few thousand exclusive ors.
- `Primitive`: a certificate that the polynomial of a map is primitive;
- `Primitive.minimalPeriod`: such a map returns to a word that is not zero after 2^w - 1 rounds, and not before;
- `Primitive.orbit`: on the way it meets every word that is not zero once.
-/
import Mathlib.Dynamics.PeriodicPts.Defs
import Mathlib.Data.BitVec
import Mathlib.Data.Nat.Prime.Basic
import Mathlib.Data.Set.Card
import Mathlib.Tactic

namespace BitLinear

variable {m : ℕ} {T S : BitVec (m + 1) → BitVec (m + 1)} {low a b p q u v : BitVec (m + 1)}

/-- the map commutes with exclusive or -/
def Linear (T : BitVec (m + 1) → BitVec (m + 1)) : Prop := ∀ u v, T (u ^^^ v) = T u ^^^ T v

/-- a word, or nothing -/
def pick (b : Bool) (v : BitVec (m + 1)) : BitVec (m + 1) := bif b then v else 0

/-- `n` coefficients of a polynomial in the map, from the `i`-th on -/
def evalFrom (T : BitVec (m + 1) → BitVec (m + 1)) (p : BitVec (m + 1)) : ℕ → ℕ → BitVec (m + 1) → BitVec (m + 1)
  | 0, _, _ => 0
  | n + 1, i, v => pick (p.getLsbD i) v ^^^ evalFrom T p n (i + 1) (T v)

/-- a polynomial in the map -/
def eval (T : BitVec (m + 1) → BitVec (m + 1)) (p v : BitVec (m + 1)) : BitVec (m + 1) := evalFrom T p (m + 1) 0 v

/-- x times a polynomial, modulo x^w + `low` -/
def timesX (low a : BitVec (m + 1)) : BitVec (m + 1) := a <<< 1 ^^^ pick (a.getLsbD m) low

def mulFrom (low a : BitVec (m + 1)) : ℕ → ℕ → BitVec (m + 1) → BitVec (m + 1) → BitVec (m + 1)
  | 0, _, _, acc => acc
  | n + 1, i, b, acc => mulFrom low a n (i + 1) (timesX low b) (acc ^^^ pick (a.getLsbD i) b)

/-- the product of two polynomials, modulo x^w + `low` -/
def mul (low a b : BitVec (m + 1)) : BitVec (m + 1) := mulFrom low a (m + 1) 0 b 0

/-- a power of a polynomial, for an exponent of `k` bits -/
def pow (low : BitVec (m + 1)) : ℕ → BitVec (m + 1) → ℕ → BitVec (m + 1)
  | 0, _, _ => 1
  | k + 1, a, e =>
    let rest := pow low k (mul low a a) (e / 2)
    if e % 2 = 1 then mul low a rest else rest

/-! ## Linear maps -/

theorem pick_xor (c : Bool) (u v : BitVec (m + 1)) : pick c (u ^^^ v) = pick c u ^^^ pick c v := by
  cases c <;> simp [pick]

theorem pick_bits (c d : Bool) (v : BitVec (m + 1)) : pick (c ^^ d) v = pick c v ^^^ pick d v := by
  cases c <;> cases d <;> simp [pick]

theorem Linear.zero (hT : Linear T) : T 0 = 0 := by
  have h := hT 0 0
  simpa using h

theorem Linear.pick (hT : Linear T) (c : Bool) (v : BitVec (m + 1)) : T (pick c v) = BitLinear.pick c (T v) := by
  cases c
  · exact hT.zero
  · rfl

theorem Linear.comp (hT : Linear T) (hS : Linear S) : Linear (T ∘ S) := fun u v => by
  rw [Function.comp_apply, Function.comp_apply, Function.comp_apply, hS u v]
  exact hT _ _

theorem Linear.iterate (hT : Linear T) (n : ℕ) : Linear T^[n] := by
  induction n with
  | zero => exact fun _ _ => rfl
  | succ n ih =>
    rw [Function.iterate_succ']
    exact hT.comp ih

theorem xor_exchange : ∀ a b c d : Bool, ((a ^^ b) ^^ (c ^^ d)) = ((a ^^ c) ^^ (b ^^ d)) := by decide

theorem linear_shiftLeft (k : ℕ) : Linear fun v : BitVec (m + 1) => v ^^^ v <<< k := fun u v => by
  ext i hi
  simp only [BitVec.getElem_xor, BitVec.getElem_shiftLeft]
  cases decide (i < k)
  · exact xor_exchange _ _ _ _
  · simp

theorem linear_shiftRight (k : ℕ) : Linear fun v : BitVec (m + 1) => v ^^^ v >>> k := fun u v => by
  ext i hi
  simp only [BitVec.getElem_xor, BitVec.getElem_ushiftRight, BitVec.getLsbD_xor]
  exact xor_exchange _ _ _ _

/-- the lower bits of a word -/
theorem low_succ (v : BitVec (m + 1)) (n : ℕ) :
    (v.setWidth (n + 1)).setWidth (m + 1) = (v.setWidth n).setWidth (m + 1) ^^^ pick (v.getLsbD n) (BitVec.twoPow (m + 1) n) := by
  ext i hi
  simp only [BitVec.getElem_setWidth, BitVec.getLsbD_setWidth, BitVec.getElem_xor]
  rcases lt_trichotomy i n with h | rfl | h
  · have hb : (pick (v.getLsbD n) (BitVec.twoPow (m + 1) n))[i] = false := by
      cases v.getLsbD n <;> simp [pick, BitVec.getElem_twoPow]; omega
    simp [hb, h, Nat.lt_succ_of_lt h]
  · cases hv : v.getLsbD i <;> simp [pick, BitVec.getElem_twoPow]
  · have hb : (pick (v.getLsbD n) (BitVec.twoPow (m + 1) n))[i] = false := by
      cases v.getLsbD n <;> simp [pick, BitVec.getElem_twoPow]; omega
    have h1 : ¬ i < n + 1 := by omega
    have h2 : ¬ i < n := by omega
    simp [hb, h1, h2]

/-- a linear map is known by what it does to the bits -/
theorem linear_ext (hT : Linear T) (hS : Linear S)
    (h : ∀ i < m + 1, T (BitVec.twoPow (m + 1) i) = S (BitVec.twoPow (m + 1) i)) (v : BitVec (m + 1)) : T v = S v := by
  have hlow : ∀ n ≤ m + 1, T ((v.setWidth n).setWidth (m + 1)) = S ((v.setWidth n).setWidth (m + 1)) := by
    intro n
    induction n with
    | zero =>
      intro _
      have hzero : (v.setWidth 0).setWidth (m + 1) = 0 := by ext i hi; simp
      rw [hzero, hT.zero, hS.zero]
    | succ n ih =>
      intro hn
      rw [low_succ, hT, hS, ih (by omega), hT.pick, hS.pick, h n (by omega)]
  have hall := hlow (m + 1) le_rfl
  rwa [BitVec.setWidth_eq, BitVec.setWidth_eq] at hall

/-! ## Polynomials in a map -/

theorem evalFrom_xor (T : BitVec (m + 1) → BitVec (m + 1)) (p q : BitVec (m + 1)) (n i : ℕ) (v : BitVec (m + 1)) :
    evalFrom T (p ^^^ q) n i v = evalFrom T p n i v ^^^ evalFrom T q n i v := by
  induction n generalizing i v with
  | zero => simp [evalFrom]
  | succ n ih =>
    simp only [evalFrom, ih, BitVec.getLsbD_xor, pick_bits]
    ac_rfl

theorem evalFrom_linear (hT : Linear T) (p : BitVec (m + 1)) (n i : ℕ) : Linear (evalFrom T p n i) := by
  induction n generalizing i with
  | zero => exact fun _ _ => by simp [evalFrom]
  | succ n ih =>
    intro u v
    simp only [evalFrom, hT u v, ih (i + 1) _ _, pick_xor]
    ac_rfl

theorem evalFrom_comm (hT : Linear T) (p : BitVec (m + 1)) (n i : ℕ) (v : BitVec (m + 1)) :
    evalFrom T p n i (T v) = T (evalFrom T p n i v) := by
  induction n generalizing i v with
  | zero => exact hT.zero.symm
  | succ n ih => simp only [evalFrom, ih, hT _ _, hT.pick]

theorem evalFrom_snoc (T : BitVec (m + 1) → BitVec (m + 1)) (p : BitVec (m + 1)) (n i : ℕ) (v : BitVec (m + 1)) :
    evalFrom T p (n + 1) i v = evalFrom T p n i v ^^^ pick (p.getLsbD (i + n)) (T^[n] v) := by
  induction n generalizing i v with
  | zero => simp [evalFrom]
  | succ n ih =>
    have hstep : evalFrom T p (n + 1 + 1) i v = pick (p.getLsbD i) v ^^^ evalFrom T p (n + 1) (i + 1) (T v) := rfl
    rw [hstep, ih (i + 1) (T v)]
    simp only [evalFrom, Function.iterate_succ_apply, show i + 1 + n = i + (n + 1) by omega]
    ac_rfl

theorem evalFrom_shift (T : BitVec (m + 1) → BitVec (m + 1)) (a : BitVec (m + 1)) (n i : ℕ) (hn : i + n ≤ m) (v : BitVec (m + 1)) :
    evalFrom T (a <<< 1) n (i + 1) v = evalFrom T a n i v := by
  induction n generalizing i v with
  | zero => rfl
  | succ n ih =>
    have hbit : (a <<< 1).getLsbD (i + 1) = a.getLsbD i := by
      rw [BitVec.getLsbD_shiftLeft]
      have h1 : i + 1 < m + 1 := by omega
      simp [h1]
    simp only [evalFrom, hbit, ih (i + 1) (by omega)]

theorem eval_linear (hT : Linear T) (p : BitVec (m + 1)) : Linear (eval T p) := evalFrom_linear hT p _ _

theorem eval_xor (T : BitVec (m + 1) → BitVec (m + 1)) (p q v : BitVec (m + 1)) : eval T (p ^^^ q) v = eval T p v ^^^ eval T q v :=
  evalFrom_xor T p q _ _ v

theorem evalFrom_nil (T : BitVec (m + 1) → BitVec (m + 1)) (n i : ℕ) (hp : ∀ j ≥ i, p.getLsbD j = false) (v : BitVec (m + 1)) :
    evalFrom T p n i v = 0 := by
  induction n generalizing i v with
  | zero => rfl
  | succ n ih => simp [evalFrom, hp i le_rfl, pick, ih (i + 1) fun j hj => hp j (by omega)]

theorem eval_zero (T : BitVec (m + 1) → BitVec (m + 1)) (v : BitVec (m + 1)) : eval T 0 v = 0 :=
  evalFrom_nil T _ _ (fun j _ => by simp) v

theorem eval_one (T : BitVec (m + 1) → BitVec (m + 1)) (v : BitVec (m + 1)) : eval T 1 v = v := by
  have hrest : evalFrom T 1 m 1 (T v) = 0 := evalFrom_nil T _ _ (fun j hj => by simp; omega) _
  have hfirst : eval T 1 v = pick ((1 : BitVec (m + 1)).getLsbD 0) v ^^^ evalFrom T 1 m 1 (T v) := rfl
  rw [hfirst, hrest]
  simp [pick]

/-- x is the map -/
theorem eval_timesX (hT : Linear T) (hlow : ∀ v, T^[m + 1] v = eval T low v) (a v : BitVec (m + 1)) :
    eval T (timesX low a) v = T (eval T a v) := by
  have hshift : eval T (a <<< 1) v = evalFrom T a m 0 (T v) := by
    have hfirst : eval T (a <<< 1) v = pick ((a <<< 1).getLsbD 0) v ^^^ evalFrom T (a <<< 1) m 1 (T v) := rfl
    rw [hfirst, evalFrom_shift T a m 0 (by omega)]
    simp [pick]
  have htop : eval T (pick (a.getLsbD m) low) v = pick (a.getLsbD m) (T^[m + 1] v) := by
    cases a.getLsbD m
    · exact eval_zero T v
    · exact (hlow v).symm
  calc eval T (timesX low a) v
      = eval T (a <<< 1) v ^^^ eval T (pick (a.getLsbD m) low) v := eval_xor T _ _ v
    _ = evalFrom T a m 0 (T v) ^^^ pick (a.getLsbD (0 + m)) (T^[m] (T v)) := by
        rw [hshift, htop, Nat.zero_add, Function.iterate_succ_apply]
    _ = eval T a (T v) := (evalFrom_snoc T a m 0 (T v)).symm
    _ = T (eval T a v) := evalFrom_comm hT a _ _ v

theorem eval_mulFrom (hT : Linear T) (hlow : ∀ v, T^[m + 1] v = eval T low v) (a b acc v : BitVec (m + 1)) (n i : ℕ) :
    eval T (mulFrom low a n i b acc) v = eval T acc v ^^^ evalFrom T a n i (eval T b v) := by
  induction n generalizing i b acc with
  | zero => simp [mulFrom, evalFrom]
  | succ n ih =>
    have hpick : eval T (pick (a.getLsbD i) b) v = pick (a.getLsbD i) (eval T b v) := by
      cases a.getLsbD i
      · exact eval_zero T v
      · rfl
    simp only [mulFrom, evalFrom, ih, eval_xor, hpick, eval_timesX hT hlow]
    ac_rfl

/-- **A product is a composition.** -/
theorem eval_mul (hT : Linear T) (hlow : ∀ v, T^[m + 1] v = eval T low v) (a b v : BitVec (m + 1)) :
    eval T (mul low a b) v = eval T a (eval T b v) := by
  have h := eval_mulFrom hT hlow a b 0 v (m + 1) 0
  rw [eval_zero] at h
  exact h.trans (BitVec.zero_xor)

/-- **A power is an iterate.** -/
theorem eval_pow (hT : Linear T) (hlow : ∀ v, T^[m + 1] v = eval T low v) (k : ℕ) (a : BitVec (m + 1)) {e : ℕ} (he : e < 2 ^ k)
    (v : BitVec (m + 1)) : eval T (pow low k a e) v = (eval T a)^[e] v := by
  induction k generalizing a e v with
  | zero =>
    obtain rfl : e = 0 := by simpa using he
    exact eval_one T v
  | succ k ih =>
    have hsquare : eval T (mul low a a) = (eval T a)^[2] := funext fun v => eval_mul hT hlow a a v
    have hhalf : ∀ v, eval T (pow low k (mul low a a) (e / 2)) v = (eval T a)^[2 * (e / 2)] v := fun v => by
      rw [ih _ (by omega), hsquare, ← Function.iterate_mul]
    simp only [pow]
    split_ifs with hodd
    · rw [eval_mul hT hlow, hhalf, ← Function.iterate_succ_apply' (eval T a)]
      congr 2
      omega
    · rw [hhalf]
      congr 2
      omega

/-! ## Periods -/

/-- a certificate that the map has a primitive polynomial, x^w + `low` -/
structure Primitive (T : BitVec (m + 1) → BitVec (m + 1)) (low : BitVec (m + 1)) : Prop where
  linear : Linear T
  root : ∀ v, T^[m + 1] v = eval T low v
  /-- the powers of x return after 2^w - 1 rounds -/
  returns : pow low (m + 1) (timesX low 1) (2 ^ (m + 1) - 1) = 1
  /-- and not before: there the difference to 1 has an inverse -/
  proper : ∀ r, r.Prime → r ∣ 2 ^ (m + 1) - 1 →
    ∃ q, mul low q (pow low (m + 1) (timesX low 1) ((2 ^ (m + 1) - 1) / r) ^^^ 1) = 1

theorem Primitive.iterate (h : Primitive T low) {e : ℕ} (he : e < 2 ^ (m + 1)) (v : BitVec (m + 1)) :
    T^[e] v = eval T (pow low (m + 1) (timesX low 1) e) v := by
  have hx : eval T (timesX low 1) = T := funext fun v => by rw [eval_timesX h.linear h.root, eval_one]
  rw [eval_pow h.linear h.root _ _ he, hx]

/-- **The period** of a map with a primitive polynomial, at a word that is not zero. -/
theorem Primitive.minimalPeriod (h : Primitive T low) (hv : v ≠ 0) : Function.minimalPeriod T v = 2 ^ (m + 1) - 1 := by
  have hlt : 2 ^ (m + 1) - 1 < 2 ^ (m + 1) := Nat.sub_lt (Nat.two_pow_pos _) Nat.one_pos
  have hdvd : Function.minimalPeriod T v ∣ 2 ^ (m + 1) - 1 := by
    refine Function.IsPeriodicPt.minimalPeriod_dvd ?_
    change T^[2 ^ (m + 1) - 1] v = v
    rw [h.iterate hlt, h.returns, eval_one]
  obtain ⟨k, hk⟩ := hdvd
  by_contra hne
  have hk1 : k ≠ 1 := by
    rintro rfl
    exact hne (by omega)
  obtain ⟨r, hr, hrk⟩ := Nat.exists_prime_and_dvd hk1
  have hpos : 0 < 2 ^ (m + 1) - 1 := by
    have := Nat.one_lt_two_pow (n := m + 1) (by omega)
    omega
  -- the period divides what is left when the prime is taken out
  have hperiod : Function.minimalPeriod T v ∣ (2 ^ (m + 1) - 1) / r := by
    obtain ⟨j, rfl⟩ := hrk
    refine ⟨j, ?_⟩
    rw [hk, ← mul_assoc, mul_comm (Function.minimalPeriod T v) r, mul_assoc]
    exact Nat.mul_div_cancel_left _ hr.pos
  obtain ⟨q, hq⟩ := h.proper r hr (hk ▸ Dvd.dvd.mul_left hrk _)
  have hback : T^[(2 ^ (m + 1) - 1) / r] v = v := (Function.isPeriodicPt_minimalPeriod T v).trans_dvd hperiod
  rw [h.iterate (lt_of_le_of_lt (Nat.div_le_self _ _) hlt)] at hback
  have hzero : eval T (pow low (m + 1) (timesX low 1) ((2 ^ (m + 1) - 1) / r) ^^^ 1) v = 0 := by
    rw [eval_xor, hback, eval_one]
    exact BitVec.xor_self
  have hinv := eval_mul h.linear h.root q (pow low (m + 1) (timesX low 1) ((2 ^ (m + 1) - 1) / r) ^^^ 1) v
  rw [hq, eval_one, hzero, (eval_linear h.linear q).zero] at hinv
  exact hv hinv

/-- the words of a length -/
theorem card_word (w : ℕ) : Nat.card (BitVec w) = 2 ^ w := by
  rw [Nat.card_congr BitVec.equivFin.toEquiv, Nat.card_fin]

theorem finite_word (w : ℕ) : Finite (BitVec w) := Finite.of_equiv _ BitVec.equivFin.symm.toEquiv

/-- a word that is not zero never becomes zero -/
theorem Primitive.iterate_ne (h : Primitive T low) (hv : v ≠ 0) (k : ℕ) : T^[k] v ≠ 0 := by
  intro hzero
  have hperiod := h.minimalPeriod hv
  have hpos : 0 < 2 ^ (m + 1) - 1 := by
    have := Nat.one_lt_two_pow (n := m + 1) (by omega)
    omega
  -- from zero on there is only zero, but the word comes back
  have hback : T^[k * (2 ^ (m + 1) - 1)] v = v := by
    have hdvd : Function.minimalPeriod T v ∣ k * (2 ^ (m + 1) - 1) := hperiod ▸ Dvd.intro_left k rfl
    exact (Function.isPeriodicPt_minimalPeriod T v).trans_dvd hdvd
  have hle : k ≤ k * (2 ^ (m + 1) - 1) := Nat.le_mul_of_pos_right k hpos
  obtain ⟨j, hj⟩ := Nat.exists_eq_add_of_le' hle
  rw [hj, Function.iterate_add_apply, hzero, (h.linear.iterate j).zero] at hback
  exact hv hback.symm

/-- **The orbit** of a word that is not zero. -/
theorem Primitive.orbit (h : Primitive T low) (hv : v ≠ 0) :
    Set.BijOn (fun k => T^[k + 1] v) {k | k < 2 ^ (m + 1) - 1} {w | w ≠ 0} := by
  have := finite_word (m + 1)
  have hmaps : Set.MapsTo (fun k => T^[k + 1] v) {k | k < 2 ^ (m + 1) - 1} {w | w ≠ 0} := fun k _ => h.iterate_ne hv (k + 1)
  have hinj : Set.InjOn (fun k => T^[k + 1] v) {k | k < 2 ^ (m + 1) - 1} := by
    have hperiod : Function.minimalPeriod T (T v) = 2 ^ (m + 1) - 1 := h.minimalPeriod (h.iterate_ne hv 1)
    have := Function.iterate_injOn_Iio_minimalPeriod (f := T) (x := T v)
    rw [hperiod] at this
    exact this
  have hcount : ({w | w ≠ 0} : Set (BitVec (m + 1))).ncard = 2 ^ (m + 1) - 1 := by
    have hcompl : ({w | w ≠ 0} : Set (BitVec (m + 1))) = Set.univ \ {0} := by ext w; simp
    rw [hcompl, Set.ncard_sdiff_singleton_of_mem (Set.mem_univ _), Set.ncard_univ, card_word]
  have himage : ((fun k => T^[k + 1] v) '' {k | k < 2 ^ (m + 1) - 1}).ncard = 2 ^ (m + 1) - 1 := by
    have hiio : {k | k < 2 ^ (m + 1) - 1} = (Finset.range (2 ^ (m + 1) - 1) : Set ℕ) := by ext k; simp
    rw [hinj.ncard_image, hiio, Set.ncard_coe_finset, Finset.card_range]
  refine ⟨hmaps, hinj, ?_⟩
  have hall := Set.eq_of_subset_of_ncard_le hmaps.image_subset (hcount.trans himage.symm).le
  exact hall.ge

end BitLinear
