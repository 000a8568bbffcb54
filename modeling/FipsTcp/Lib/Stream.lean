/-
Pieces of a growing stream, and the reliable pipe that a stream transport promises.

(1) `Occurs s p l`: the list `l` is found in the stream `s` from position `p` on. A stream only grows at its end, so what
occurs in it occurs in every later version of it (`Occurs.append`). Cutting a piece at its front or its back leaves a
piece (`Occurs.drop`, `Occurs.take`), and a piece that starts where a prefix ends extends the prefix (`Occurs.extend`):
a receiver that only ever appends such pieces holds a prefix of the stream.

(2) `Pipe`: what a one-way byte stream with an end-of-stream mark is for. The writer appends and may close; the reader
sees a growing prefix of what was written, and sees the end of the stream only after it has everything.
`Pipe.Steps.inv` is the safety of the pipe over whole runs; a transport that refines the pipe inherits it.
-/
import Mathlib.Tactic

namespace Stream

variable {α : Type*}

/-! ## Pieces of a stream -/

/-- `l` is found in `s` from position `p` on -/
def Occurs (s : List α) (p : ℕ) (l : List α) : Prop := l <+: s.drop p

namespace Occurs

variable {s : List α} {p : ℕ} {l m : List α}

theorem nil (s : List α) (p : ℕ) : Occurs s p [] := List.nil_prefix

theorem append (h : Occurs s p l) (t : List α) : Occurs (s ++ t) p l := by
  rw [Occurs, List.drop_append]
  exact h.trans (List.prefix_append _ _)

theorem take (h : Occurs s p l) (k : ℕ) : Occurs s p (l.take k) := (List.take_prefix k l).trans h

theorem drop (h : Occurs s p l) (k : ℕ) : Occurs s (p + k) (l.drop k) := by
  obtain ⟨t, ht⟩ := h
  rcases Nat.lt_or_ge l.length k with hk | hk
  · rw [List.drop_eq_nil_of_le hk.le]; exact nil _ _
  · refine ⟨t, ?_⟩
    rw [← List.drop_drop, ← ht, List.drop_append_of_le_length hk]

theorem append_iff : Occurs s p (l ++ m) ↔ Occurs s p l ∧ Occurs s (p + l.length) m := by
  constructor
  · intro h
    exact ⟨(List.prefix_append l m).trans h, by simpa using h.drop l.length⟩
  · rintro ⟨⟨t, ht⟩, h2⟩
    rw [Occurs, ← List.drop_drop, ← ht, List.drop_left] at h2
    rw [Occurs, ← ht]
    exact (List.prefix_append_right_inj l).2 h2

/-- the piece that starts where a prefix ends extends the prefix -/
theorem extend (hm : m <+: s) (h : Occurs s m.length l) : m ++ l <+: s := by
  have h0 : Occurs s 0 m := hm
  simpa [Occurs] using append_iff.2 ⟨h0, by simpa using h⟩

end Occurs

/-! ## The pipe -/

/-- a one-way stream: what was written, what was delivered, whether the writer closed, whether the reader saw the end -/
structure Pipe (α : Type*) where
  accepted : List α
  delivered : List α
  closed : Bool
  eof : Bool

namespace Pipe

inductive Step : Pipe α → Pipe α → Prop
  | write (s : Pipe α) (l : List α) (h : s.closed = false) : Step s { s with accepted := s.accepted ++ l }
  | close (s : Pipe α) : Step s { s with closed := true }
  | deliver (s : Pipe α) (l : List α) (h : s.delivered ++ l <+: s.accepted) :
      Step s { s with delivered := s.delivered ++ l }
  | finish (s : Pipe α) (h : s.closed = true) (hd : s.delivered = s.accepted) : Step s { s with eof := true }

abbrev Steps : Pipe α → Pipe α → Prop := Relation.ReflTransGen Step

/-- nothing is delivered that was not written, in the order it was written; the end is seen only after everything -/
structure Inv (s : Pipe α) : Prop where
  isPrefix : s.delivered <+: s.accepted
  eof_closed : s.eof = true → s.closed = true
  eof_all : s.eof = true → s.delivered = s.accepted

theorem Step.inv {s t : Pipe α} (h : Step s t) (hs : Inv s) : Inv t := by
  cases h with
  | write l hc =>
    refine ⟨hs.isPrefix.trans (List.prefix_append _ _), hs.eof_closed, fun he => ?_⟩
    exact absurd (hs.eof_closed he) (by simp [hc])
  | close => exact ⟨hs.isPrefix, fun _ => rfl, hs.eof_all⟩
  | deliver l hl =>
    refine ⟨hl, hs.eof_closed, fun he => ?_⟩
    -- after the end was seen only the empty piece is left to deliver
    have hall := hs.eof_all he
    have hlen := hl.length_le
    rw [hall, List.length_append] at hlen
    have hnil : l = [] := List.eq_nil_of_length_eq_zero (by omega)
    simpa [hnil] using hall
  | finish hc hd => exact ⟨hs.isPrefix, fun _ => hc, fun _ => hd⟩

/-- **Safety of the pipe over whole runs.** -/
theorem Steps.inv {s t : Pipe α} (h : Steps s t) (hs : Inv s) : Inv t := by
  induction h with
  | refl => exact hs
  | tail _ hstep ih => exact hstep.inv ih

/-- **The end is final.** Once the reader saw the end, nothing more is written or delivered. -/
theorem Steps.eof_final {s t : Pipe α} (h : Steps s t) (hs : Inv s) (he : s.eof = true) :
    t.eof = true ∧ t.accepted = s.accepted ∧ t.delivered = s.delivered := by
  induction h with
  | refl => exact ⟨he, rfl, rfl⟩
  | tail hsteps hstep ih =>
    obtain ⟨h1, h2, h3⟩ := ih
    have hi := Steps.inv hsteps hs
    cases hstep with
    | write l hc => exact absurd (hi.eof_closed h1) (by simp [hc])
    | close => exact ⟨h1, h2, h3⟩
    | deliver l hl =>
      have hlen := hl.length_le
      rw [hi.eof_all h1, List.length_append] at hlen
      have hnil : l = [] := List.eq_nil_of_length_eq_zero (by omega)
      exact ⟨h1, h2, by simpa [hnil] using h3⟩
    | finish => exact ⟨rfl, h2, h3⟩

/-- **Building a run.** Two states whose four components only move forward are joined by a run, provided the second
satisfies the safety condition and nothing was written after the close. -/
theorem Steps.of_forward {s t : Pipe α} (ha : s.accepted <+: t.accepted) (hd : s.delivered <+: t.delivered)
    (hc : s.closed = true → t.closed = true ∧ t.accepted = s.accepted) (he : s.eof = true → t.eof = true)
    (ht : Inv t) : Steps s t := by
  obtain ⟨la, hla⟩ := ha
  obtain ⟨ld, hld⟩ := hd
  have h1 : Steps s { s with accepted := t.accepted } := by
    by_cases hcl : s.closed = true
    · rw [(hc hcl).2]
    · have := Relation.ReflTransGen.single (Step.write s la (by simpa using hcl))
      rwa [hla] at this
  have h2 : Steps s { s with accepted := t.accepted, delivered := t.delivered } := by
    have := Step.deliver { s with accepted := t.accepted } ld (by simpa [hld] using ht.isPrefix)
    simp only [hld] at this
    exact h1.tail this
  have h3 : Steps s ⟨t.accepted, t.delivered, t.closed, s.eof⟩ := by
    cases hcl : t.closed with
    | true => exact h2.tail (Step.close _)
    | false =>
      have hs : s.closed = false := by
        by_contra hn
        have := (hc (by simpa using hn)).1
        rw [hcl] at this; exact absurd this (by decide)
      rw [← hs]; exact h2
  cases hte : t.eof with
  | true =>
    have := h3.tail (Step.finish _ (ht.eof_closed hte) (ht.eof_all hte))
    rw [← hte] at this; exact this
  | false =>
    have hs : s.eof = false := by
      by_contra hn
      have := he (by simpa using hn)
      rw [hte] at this; exact absurd this (by decide)
    rw [hs, ← hte] at h3; exact h3

end Pipe

end Stream
