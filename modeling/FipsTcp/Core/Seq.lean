/-
Wrapping 32-bit sequence arithmetic (`seq.rs`).

The comparisons are the code's own, on `u32` values. `Serial` says when they agree with positions of the byte stream;
the lemmas below restate that for the functions of the code, at the widths the code can reach.
-/
import FipsTcp.Lib.Serial

namespace FipsTcp

abbrev U8 := BitVec 8
abbrev U16 := BitVec 16
abbrev U32 := BitVec 32

/-- the largest `u64`, and the largest `usize` of a 64-bit target -/
def maxU64 : ℕ := 2 ^ 64 - 1

/-- `saturating_add` and `saturating_mul` on `u64` and `usize` -/
def satAdd (a b : ℕ) : ℕ := min (a + b) maxU64

def satMul (a b : ℕ) : ℕ := min (a * b) maxU64

/-- `saturating_add(1)` on `u8` -/
def satSucc8 (a : ℕ) : ℕ := min (a + 1) 255

/-! ## Comparisons -/

def before (left right : U32) : Prop := (left - right).toInt < 0

instance (left right : U32) : Decidable (before left right) := by unfold before; infer_instance

def after (left right : U32) : Prop := before right left

instance (left right : U32) : Decidable (after left right) := by unfold after; infer_instance

def beforeOrEqual (left right : U32) : Prop := left = right ∨ before left right

instance (left right : U32) : Decidable (beforeOrEqual left right) := by unfold beforeOrEqual; infer_instance

def inClosedInterval (value start end_ : U32) : Prop := ¬ before value start ∧ ¬ after value end_

instance (value start end_ : U32) : Decidable (inClosedInterval value start end_) := by
  unfold inClosedInterval; infer_instance

def distance (start end_ : U32) : ℕ := (end_ - start).toNat

/-- `len as u32` -/
def asU32 (n : ℕ) : U32 := BitVec.ofNat 32 n

/-! ## Agreement with positions -/

open Serial

theorem before_iff_lt {a b : U32} : before a b ↔ lt a b := Iff.rfl

theorem distance_eq_dist (a b : U32) : distance a b = dist a b := rfl

@[simp] theorem distance_self (a : U32) : distance a a = 0 := dist_self a

theorem add_asU32 (base : U32) (p n : ℕ) : pos base p + asU32 n = pos base (p + n) := (pos_add base p n).symm

theorem before_pos {base : U32} {p q : ℕ} (hp : p < q + 2 ^ 31) (hq : q < p + 2 ^ 31) :
    before (pos base p) (pos base q) ↔ p < q := lt_pos_iff base (by omega) (by omega)

theorem beforeOrEqual_pos {base : U32} {p q : ℕ} (hp : p < q + 2 ^ 31) (hq : q < p + 2 ^ 31) :
    beforeOrEqual (pos base p) (pos base q) ↔ p ≤ q := by
  rw [beforeOrEqual, before_pos hp hq, pos_inj base (by omega) (by omega)]; omega

theorem after_of_not_beforeOrEqual {a b : U32} (h : ¬ beforeOrEqual a b) : after a b := by
  obtain ⟨hne, hlt⟩ := not_or.1 h
  have hsum := dist_comm_of_ne hne
  rw [before_iff_lt, lt_iff_dist] at hlt
  rw [after, before_iff_lt, lt_iff_dist]
  omega

theorem distance_pos {base : U32} {p q : ℕ} (h : p ≤ q) (hq : q < p + 2 ^ 32) :
    distance (pos base p) (pos base q) = q - p := dist_pos base h hq

/-- a value that passes the code's window test lies in the window, whoever sent it -/
theorem ack_within {una ack : U32} {n : ℕ} (h1 : ¬ before ack una) (h2 : ¬ after ack (pos una n)) :
    distance una ack ≤ n ∧ ack = pos una (distance una ack) := within_window h1 h2

end FipsTcp
