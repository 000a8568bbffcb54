/-
Two orders of the same items, in which the items of every class stand in one order.

A program that walks a table without an order may say what it says of the entries in any order, but of each entry it says the same.
`Shuffle belongs l l'`: both lists have the same items, and for every class the items that belong to it are in the same order.
Appending and purging on both sides keep it.
-/
import Mathlib.Data.List.Basic

variable {κ α : Type*} {belongs : κ → α → Bool} {l l' l₁ l₁' : List α}

structure Shuffle (belongs : κ → α → Bool) (l l' : List α) : Prop where
  perm : l.Perm l'
  each : ∀ k, l.filter (belongs k) = l'.filter (belongs k)

namespace Shuffle

theorem refl (belongs : κ → α → Bool) (l : List α) : Shuffle belongs l l := ⟨.refl l, fun _ => rfl⟩

theorem symm (h : Shuffle belongs l l') : Shuffle belongs l' l := ⟨h.perm.symm, fun k => (h.each k).symm⟩

theorem trans {l'' : List α} (h : Shuffle belongs l l') (h' : Shuffle belongs l' l'') : Shuffle belongs l l'' :=
  ⟨h.perm.trans h'.perm, fun k => (h.each k).trans (h'.each k)⟩

theorem append (h : Shuffle belongs l l') (h₁ : Shuffle belongs l₁ l₁') : Shuffle belongs (l ++ l₁) (l' ++ l₁') := by
  refine ⟨h.perm.append h₁.perm, fun k => ?_⟩
  rw [List.filter_append, List.filter_append, h.each, h₁.each]

theorem filter (h : Shuffle belongs l l') (p : α → Bool) : Shuffle belongs (l.filter p) (l'.filter p) := by
  refine ⟨h.perm.filter p, fun k => ?_⟩
  calc (l.filter p).filter (belongs k)
      = (l.filter (belongs k)).filter p := (List.filter_comm p (belongs k) l).symm
    _ = (l'.filter (belongs k)).filter p := by rw [h.each]
    _ = (l'.filter p).filter (belongs k) := (List.filter_comm (belongs k) p l').symm

end Shuffle
