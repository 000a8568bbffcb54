/-
A tap on a wire whose positions wrap.

The tap writes down, for everything that is sent, which positions of the stream it holds and when it was sent. It sees counter
values only, and takes them for the last positions that they can stand for (`place`). An entry repeats if it holds a position
that an earlier entry holds, and `Fresh log k` says that neither the entry `k` nor a later one does: what it holds was sent
once, and nothing was sent again since.
- `Fresh.once`: no other entry holds a position of a fresh entry;
- `Fresh.after_repeat`: a fresh entry comes after every entry that repeats;
- `First.snoc`, `First.new`: what is sent beyond everything else leaves what is fresh as it is, and is fresh;
- `Covered.first`: what does not repeat lies beyond everything sent;
- `Since.snoc`, `Covered.again`: a bound for what was sent since a repetition (`Since.le`);
- `Dated`: the pieces of a window that are entitled to be fresh are fresh.
-/
import FipsTcp.Lib.Serial

namespace Tap

open Serial

variable {w : ℕ} {base : BitVec w}

/-- the positions `start` to `start + len`, sent at a time -/
structure Sent where
  start : ℕ
  len : ℕ
  atMs : ℕ
deriving DecidableEq, Repr

def Sent.Holds (t : Sent) (p : ℕ) : Prop := t.start ≤ p ∧ p < t.start + t.len

instance (t : Sent) (p : ℕ) : Decidable (t.Holds p) := inferInstanceAs (Decidable (_ ∧ _))

variable {log : List Sent} {t u : Sent} {j k p q a : ℕ}

/-- the first position that nothing was sent of -/
def high (log : List Sent) : ℕ := log.foldl (fun h t => max h (t.start + t.len)) 0

/-- the last position before `high` that carries a counter value -/
def place (base : BitVec w) (high : ℕ) (value : BitVec w) : ℕ := high - dist value (pos base high)

def record (base : BitVec w) (atMs : ℕ) (log : List Sent) (value : BitVec w) (len : ℕ) : List Sent :=
  log ++ [⟨place base (high log) value, len, atMs⟩]

/-- entry `k` holds the position `p` -/
def HoldsAt (log : List Sent) (k p : ℕ) : Prop := ∃ t, log[k]? = some t ∧ t.Holds p

/-- entry `k` sends a position again -/
def Repeats (log : List Sent) (k : ℕ) : Prop := ∃ j < k, ∃ p, HoldsAt log j p ∧ HoldsAt log k p

/-- neither entry `k` nor a later one sends a position again -/
def Fresh (log : List Sent) (k : ℕ) : Prop := ∀ l, k ≤ l → ¬ Repeats log l

/-! ## Positions -/

theorem place_pos (h : p ≤ q) (hw : q < p + 2 ^ w) : place base q (pos base p) = p := by
  rw [place, dist_pos base h hw]
  omega

@[simp] theorem high_nil : high [] = 0 := rfl

theorem high_snoc (log : List Sent) (t : Sent) : high (log ++ [t]) = max (high log) (t.start + t.len) := by
  rw [high, List.foldl_append]
  rfl

theorem le_high (h : t ∈ log) : t.start + t.len ≤ high log := by
  induction log using List.reverseRecOn with
  | nil => cases h
  | append_singleton log u ih =>
    rw [high_snoc]
    rcases List.mem_append.1 h with h | h
    · exact (ih h).trans (le_max_left _ _)
    · rw [List.mem_singleton.1 h]
      exact le_max_right _ _

/-! ## What is fresh -/

theorem HoldsAt.lt_high (h : HoldsAt log k p) : p < high log := by
  obtain ⟨t, ht, hp⟩ := h
  exact hp.2.trans_le (le_high (List.mem_of_getElem? ht))

theorem HoldsAt.lt_length (h : HoldsAt log k p) : k < log.length := by
  obtain ⟨t, ht, -⟩ := h
  exact (List.getElem?_eq_some_iff.1 ht).1

theorem holdsAt_snoc (hk : k < log.length) : HoldsAt (log ++ [t]) k p ↔ HoldsAt log k p := by
  rw [HoldsAt, HoldsAt, List.getElem?_append_left hk]

theorem holdsAt_last : HoldsAt (log ++ [t]) log.length p ↔ t.Holds p := by
  rw [HoldsAt, List.getElem?_concat_length]
  exact ⟨fun ⟨u, hu, hp⟩ => Option.some.inj hu ▸ hp, fun hp => ⟨t, rfl, hp⟩⟩

/-- **Sent once.** -/
theorem Fresh.once (h : Fresh log k) (hk : HoldsAt log k p) (hj : HoldsAt log j p) : j = k := by
  rcases Nat.lt_trichotomy j k with hlt | heq | hgt
  · exact absurd ⟨j, hlt, p, hj, hk⟩ (h k le_rfl)
  · exact heq
  · exact absurd ⟨k, hgt, p, hk, hj⟩ (h j hgt.le)

/-- **After every repetition.** -/
theorem Fresh.after_repeat (h : Fresh log k) (hj : Repeats log j) : j < k := by
  by_contra hn
  exact h j (Nat.le_of_not_lt hn) hj

/-- an entry beyond everything sent repeats nothing -/
theorem not_repeats_snoc (ht : high log ≤ t.start) {l : ℕ} (hl : l < log.length → ¬ Repeats log l) : ¬ Repeats (log ++ [t]) l := by
  rintro ⟨j, hj, p, hpj, hpl⟩
  have hlen := hpl.lt_length
  rw [List.length_append, List.length_singleton] at hlen
  rw [holdsAt_snoc (by omega)] at hpj
  rcases Nat.lt_or_eq_of_le (Nat.le_of_lt_succ hlen) with hlt | heq
  · rw [holdsAt_snoc hlt] at hpl
    exact hl hlt ⟨j, hj, p, hpj, hpl⟩
  · rw [heq, holdsAt_last] at hpl
    exact absurd (hpj.lt_high.trans_le (ht.trans hpl.1)) (Nat.lt_irrefl p)

theorem Fresh.snoc (h : Fresh log k) (ht : high log ≤ t.start) : Fresh (log ++ [t]) k :=
  fun l hl => not_repeats_snoc ht fun _ => h l hl

theorem fresh_last (ht : high log ≤ t.start) : Fresh (log ++ [t]) log.length :=
  fun _ hl => not_repeats_snoc ht fun hlt => absurd hl (Nat.not_le_of_lt hlt)

/-! ## Everything before `high` -/

/-- every position before `high` was sent -/
def Covered (log : List Sent) : Prop := ∀ p < high log, ∃ j, HoldsAt log j p

theorem Covered.nil : Covered [] := fun p hp => absurd hp (Nat.not_lt_zero p)

theorem Covered.snoc (h : Covered log) (ht : t.start ≤ high log) : Covered (log ++ [t]) := by
  intro p hp
  rw [high_snoc] at hp
  by_cases hold : p < high log
  · obtain ⟨j, hj⟩ := h p hold
    exact ⟨j, (holdsAt_snoc hj.lt_length).2 hj⟩
  · refine ⟨log.length, holdsAt_last.2 ⟨?_, ?_⟩⟩ <;> omega

/-- the tap takes a counter value for a position that was sent, or for the next one -/
theorem Covered.record (h : Covered log) (base : BitVec w) (atMs : ℕ) (value : BitVec w) (len : ℕ) :
    Covered (Tap.record base atMs log value len) := h.snoc (Nat.sub_le _ _)

/-- what begins before `high` repeats -/
theorem Covered.repeats (h : Covered log) (hlen : 0 < t.len) (ht : t.start < high log) : Repeats (log ++ [t]) log.length := by
  obtain ⟨j, hj⟩ := h t.start ht
  exact ⟨j, hj.lt_length, t.start, (holdsAt_snoc hj.lt_length).2 hj, holdsAt_last.2 ⟨le_rfl, by omega⟩⟩

/-- **What does not repeat** lies beyond everything sent. -/
theorem Covered.first (h : Covered log) (hlen : 0 < t.len) (hnew : ¬ Repeats (log ++ [t]) log.length) : high log ≤ t.start := by
  by_contra hlt
  exact hnew (h.repeats hlen (Nat.lt_of_not_le hlt))

/-! ## Since a repetition -/

/-- an entry repeats, and every later one starts at `p` or beyond -/
def Since (log : List Sent) (p : ℕ) : Prop := ∃ j, Repeats log j ∧ ∀ k t, j < k → log[k]? = some t → p ≤ t.start

theorem Repeats.snoc (h : Repeats log k) : Repeats (log ++ [t]) k := by
  obtain ⟨j, hj, p, hpj, hpk⟩ := h
  exact ⟨j, hj, p, (holdsAt_snoc hpj.lt_length).2 hpj, (holdsAt_snoc hpk.lt_length).2 hpk⟩

theorem Since.snoc (h : Since log p) (ht : p ≤ t.start) : Since (log ++ [t]) p := by
  obtain ⟨j, hj, hlater⟩ := h
  refine ⟨j, hj.snoc, fun k u hk hu => ?_⟩
  by_cases hlt : k < log.length
  · rw [List.getElem?_append_left hlt] at hu
    exact hlater k u hk hu
  · have hlen := (List.getElem?_eq_some_iff.1 hu).1
    rw [List.length_append, List.length_singleton] at hlen
    rw [show k = log.length by omega, List.getElem?_concat_length, Option.some.injEq] at hu
    exact hu ▸ ht

/-- a repetition, after which nothing was sent yet -/
theorem Covered.again (h : Covered log) (hlen : 0 < t.len) (ht : t.start < high log) (p : ℕ) : Since (log ++ [t]) p := by
  refine ⟨log.length, h.repeats hlen ht, fun k u hk hu => ?_⟩
  have hlast := (List.getElem?_eq_some_iff.1 hu).1
  rw [List.length_append, List.length_singleton] at hlast
  omega

/-- **What comes after every repetition** starts at the bound or beyond. -/
theorem Since.le (h : Since log p) (hlatest : ∀ j, Repeats log j → j < k) (ht : log[k]? = some t) : p ≤ t.start := by
  obtain ⟨j, hj, hlater⟩ := h
  exact hlater k t (hlatest j hj) ht

/-! ## The pieces of a window -/

/-- the positions `p` to `q` are the end of an entry that is fresh, sent at the time `a` -/
def First (log : List Sent) (a p q : ℕ) : Prop :=
  ∃ k t, log[k]? = some t ∧ Fresh log k ∧ t.atMs = a ∧ t.start ≤ p ∧ t.start + t.len = q

theorem First.snoc (h : First log a p q) (ht : high log ≤ t.start) : First (log ++ [t]) a p q := by
  obtain ⟨k, u, hu, hfresh, hrest⟩ := h
  refine ⟨k, u, ?_, hfresh.snoc ht, hrest⟩
  rw [List.getElem?_append_left (List.getElem?_eq_some_iff.1 hu).1]
  exact hu

theorem First.new (ht : high log ≤ t.start) : First (log ++ [t]) t.atMs t.start (t.start + t.len) :=
  ⟨log.length, t, List.getElem?_concat_length, fresh_last ht, rfl, le_rfl, rfl⟩

/-- a later start -/
theorem First.trim {p' : ℕ} (h : First log a p q) (hp : p ≤ p') : First log a p' q := by
  obtain ⟨k, t, ht, hfresh, hat, hstart, hend⟩ := h
  exact ⟨k, t, ht, hfresh, hat, hstart.trans hp, hend⟩

section Pieces

variable {β : Type*} {len sentAt : β → ℕ} {G G' : ℕ → Prop} {x x' y : β} {l : List β}

/-- the pieces from `p` on, of which those whose end satisfies `G` are fresh -/
def Dated (len sentAt : β → ℕ) (log : List Sent) (G : ℕ → Prop) : ℕ → List β → Prop
  | _, [] => True
  | p, x :: l => (G (p + len x) → First log (sentAt x) p (p + len x)) ∧ Dated len sentAt log G (p + len x) l

/-- where the pieces from `p` on end -/
def ends (len : β → ℕ) : ℕ → List β → List ℕ
  | _, [] => []
  | p, x :: l => (p + len x) :: ends len (p + len x) l

namespace Dated

/-- another claim to freshness, which entails the old one -/
theorem weaken (h : Dated len sentAt log G p l) (hG : ∀ e ∈ ends len p l, G' e → G e) : Dated len sentAt log G' p l := by
  induction l generalizing p with
  | nil => trivial
  | cons x l ih =>
    exact ⟨fun hx => h.1 (hG _ List.mem_cons_self hx), ih h.2 fun e he => hG e (List.mem_cons_of_mem _ he)⟩

theorem none (hG : ∀ e ∈ ends len p l, ¬ G e) : Dated len sentAt log G p l := by
  induction l generalizing p with
  | nil => trivial
  | cons x l ih =>
    exact ⟨fun hx => absurd hx (hG _ List.mem_cons_self), ih fun e he => hG e (List.mem_cons_of_mem _ he)⟩

/-- a piece beyond everything sent -/
theorem push (h : Dated len sentAt log G p l) (ht : high log ≤ t.start) (hx : t.start = p + (l.map len).sum) (hlen : t.len = len x)
    (hat : t.atMs = sentAt x) : Dated len sentAt (log ++ [t]) G p (l ++ [x]) := by
  induction l generalizing p with
  | nil =>
    rw [List.map_nil, List.sum_nil, Nat.add_zero] at hx
    refine ⟨fun _ => ?_, trivial⟩
    rw [← hat, ← hx, ← hlen]
    exact First.new ht
  | cons y l ih =>
    rw [List.map_cons, List.sum_cons, ← Nat.add_assoc] at hx
    exact ⟨fun hy => (h.1 hy).snoc ht, ih h.2 hx⟩

/-- a piece that lost its beginning -/
theorem trim {n : ℕ} (h : Dated len sentAt log G p (x :: l)) (hlen : len x = n + len x') (hat : sentAt x' = sentAt x) :
    Dated len sentAt log G (p + n) (x' :: l) := by
  have hend : p + n + len x' = p + len x := by rw [hlen, Nat.add_assoc]
  refine ⟨fun hG => ?_, ?_⟩
  · rw [hend] at hG ⊢
    rw [hat]
    exact (h.1 hG).trim (Nat.le_add_right _ _)
  · rw [hend]
    exact h.2

end Dated

/-- the ends of the pieces lie between their start and the end of the last -/
theorem ends_bounds (hlen : ∀ x ∈ l, 0 < len x) : ∀ e ∈ ends len p l, p < e ∧ e ≤ p + (l.map len).sum := by
  induction l generalizing p with
  | nil => exact fun e he => nomatch he
  | cons x l ih =>
    intro e he
    have hx := hlen x List.mem_cons_self
    rw [List.map_cons, List.sum_cons]
    rcases List.mem_cons.1 he with rfl | he
    · omega
    · obtain ⟨h1, h2⟩ := ih (fun y hy => hlen y (List.mem_cons_of_mem _ hy)) e he
      omega

/-- where a piece ends -/
theorem mem_ends {before after : List β} : p + (before.map len).sum + len x ∈ ends len p (before ++ x :: after) := by
  induction before generalizing p with
  | nil => exact List.mem_cons_self
  | cons y before ih =>
    rw [List.map_cons, List.sum_cons, ← Nat.add_assoc]
    exact List.mem_cons_of_mem _ ih

/-- the last piece ends where all of them do -/
theorem last_mem_ends (hl : l ≠ []) : p + (l.map len).sum ∈ ends len p l := by
  induction l generalizing p with
  | nil => exact absurd rfl hl
  | cons x l ih =>
    rw [List.map_cons, List.sum_cons, ← Nat.add_assoc]
    by_cases h : l = []
    · subst h
      exact List.mem_cons_self
    · exact List.mem_cons_of_mem _ (ih h)

end Pieces

end Tap
