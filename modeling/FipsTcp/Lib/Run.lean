/-
Runs of a deterministic machine with a chosen operation at each step.

Every choice an environment makes (which message arrives, which timer fires, in which order a table is walked) is an
operation, so "every run" is "every list of operations". An operation that is not possible in a state leaves the state
unchanged.
- `exec_invariant`: what holds at the start and is preserved by every step holds after every run;
- `exec_invariant_along`: the same for the runs whose steps all satisfy a guard on the state before the step;
- `exec_invariant_known`: the same with an invariant that was shown before;
- `exec_reaches`: a run can go on to a goal when it can go on to a state that is closer to it;
- `exec_map`: a machine that is followed by another is in the state of the other after every run;
- `exec_related`, `exec_lockstep`: two machines whose steps keep a relation and answer alike do so over a whole run;
- `exec_matched`: the same when their operations differ.
-/
import Mathlib.Tactic

namespace Run

variable {σ τ ο ο' ρ ρ' : Type*}

/-- the state after a list of operations -/
def exec (step : σ → ο → σ) (s : σ) (ops : List ο) : σ := ops.foldl step s

variable {step : σ → ο → σ}

@[simp] theorem exec_nil (s : σ) : exec step s [] = s := rfl

@[simp] theorem exec_cons (s : σ) (o : ο) (ops : List ο) : exec step s (o :: ops) = exec step (step s o) ops := rfl

theorem exec_append (s : σ) (a b : List ο) : exec step s (a ++ b) = exec step (exec step s a) b :=
  List.foldl_append

/-- the guard `G` holds at every step of the run, in the state before the step -/
def Along (step : σ → ο → σ) (G : σ → ο → Prop) : σ → List ο → Prop
  | _, [] => True
  | s, o :: ops => G s o ∧ Along step G (step s o) ops

instance Along.decidable {G : σ → ο → Prop} [∀ s o, Decidable (G s o)] (s : σ) (ops : List ο) :
    Decidable (Along step G s ops) :=
  match ops with
  | [] => isTrue trivial
  | o :: ops => @instDecidableAnd _ _ _ (Along.decidable (step s o) ops)

theorem Along.of_forall {G : σ → ο → Prop} (h : ∀ s o, G s o) (s : σ) (ops : List ο) : Along step G s ops := by
  induction ops generalizing s with
  | nil => trivial
  | cons o ops ih => exact ⟨h s o, ih _⟩

/-- **Invariants.** -/
theorem exec_invariant_along {P : σ → Prop} {G : σ → ο → Prop} (hstep : ∀ s o, G s o → P s → P (step s o)) {s : σ}
    (hs : P s) {ops : List ο} (hG : Along step G s ops) : P (exec step s ops) := by
  induction ops generalizing s with
  | nil => exact hs
  | cons o ops ih => exact ih (hstep s o hG.1 hs) hG.2

theorem exec_invariant {P : σ → Prop} (hstep : ∀ s o, P s → P (step s o)) {s : σ} (hs : P s) (ops : List ο) :
    P (exec step s ops) :=
  exec_invariant_along (G := fun _ _ => True) (fun s o _ => hstep s o) hs (Along.of_forall (fun _ _ => trivial) s ops)

/-- **Invariants** that rest on what is already known of every state reached. -/
theorem exec_invariant_known {P Q : σ → Prop} {s : σ} (hQ : ∀ ops, Q (exec step s ops))
    (hstep : ∀ s o, Q s → P s → P (step s o)) (hs : P s) (ops : List ο) : P (exec step s ops) := by
  induction ops using List.reverseRecOn with
  | nil => exact hs
  | append_singleton ops o ih =>
    rw [exec_append]
    exact hstep _ o (hQ ops) ih

/-- **Progress.** From every state that satisfies the invariant, some run of the allowed operations ends at the goal. -/
theorem exec_reaches {I Goal : σ → Prop} {A : ο → Prop} (measure : σ → ℕ)
    (hstep : ∀ s, I s → ¬ Goal s → ∃ ops, (∀ o ∈ ops, A o) ∧ I (exec step s ops) ∧ measure (exec step s ops) < measure s)
    {s : σ} (hs : I s) : ∃ ops, (∀ o ∈ ops, A o) ∧ I (exec step s ops) ∧ Goal (exec step s ops) := by
  induction hn : measure s using Nat.strong_induction_on generalizing s with
  | _ n ih =>
    by_cases hgoal : Goal s
    · exact ⟨[], List.forall_mem_nil _, hs, hgoal⟩
    · obtain ⟨ops, hall, hinv, hlt⟩ := hstep s hs hgoal
      obtain ⟨more, hmore, hinv', hgoal'⟩ := ih _ (hn ▸ hlt) hinv rfl
      refine ⟨ops ++ more, fun o ho => ?_, ?_, ?_⟩
      · exact (List.mem_append.1 ho).elim (hall o) (hmore o)
      · rw [exec_append]; exact hinv'
      · rw [exec_append]; exact hgoal'

/-! ## Two machines -/

/-- **What is kept beside a machine** does not disturb it. -/
theorem exec_map {step' : τ → ο → τ} (f : σ → τ) (h : ∀ s o, f (step s o) = step' (f s) o) (s : σ) (ops : List ο) :
    f (exec step s ops) = exec step' (f s) ops := by
  induction ops generalizing s with
  | nil => rfl
  | cons o ops ih => rw [exec_cons, exec_cons, ih, h]

/-- what the operations of a list answer -/
def answers (step : σ → ο → σ × ρ) : σ → List ο → List ρ
  | _, [] => []
  | s, o :: ops => (step s o).2 :: answers step (step s o).1 ops

/-- **Lockstep.** Two machines whose steps keep a relation, with related answers. -/
theorem exec_related {step : σ → ο → σ × ρ} {step' : τ → ο → τ × ρ'} {R : σ → τ → Prop} {S : ρ → ρ' → Prop} {G : σ → ο → Prop}
    (hstep : ∀ s t o, G s o → R s t → R (step s o).1 (step' t o).1 ∧ S (step s o).2 (step' t o).2) {s : σ} {t : τ}
    (hR : R s t) {ops : List ο} (hG : Along (fun s o => (step s o).1) G s ops) :
    R (exec (fun s o => (step s o).1) s ops) (exec (fun t o => (step' t o).1) t ops) ∧
      List.Forall₂ S (answers step s ops) (answers step' t ops) := by
  induction ops generalizing s t with
  | nil => exact ⟨hR, .nil⟩
  | cons o ops ih =>
    obtain ⟨h1, h2⟩ := hstep s t o hG.1 hR
    obtain ⟨h3, h4⟩ := ih h1 hG.2
    exact ⟨h3, .cons h2 h4⟩

/-- the same with operations that match one by one -/
theorem exec_matched {step : σ → ο → σ × ρ} {step' : τ → ο' → τ × ρ'} {R : σ → τ → Prop} {S : ρ → ρ' → Prop} {Q : ο → ο' → Prop}
    {G : σ → ο → Prop} {G' : τ → ο' → Prop}
    (hstep : ∀ s t o o', Q o o' → G s o → G' t o' → R s t → R (step s o).1 (step' t o').1 ∧ S (step s o).2 (step' t o').2)
    {s : σ} {t : τ} (hR : R s t) {ops : List ο} {ops' : List ο'} (hQ : List.Forall₂ Q ops ops')
    (hG : Along (fun s o => (step s o).1) G s ops) (hG' : Along (fun t o => (step' t o).1) G' t ops') :
    R (exec (fun s o => (step s o).1) s ops) (exec (fun t o => (step' t o).1) t ops') ∧
      List.Forall₂ S (answers step s ops) (answers step' t ops') := by
  induction hQ generalizing s t with
  | nil => exact ⟨hR, .nil⟩
  | @cons o o' ops ops' ho _ ih =>
    obtain ⟨h1, h2⟩ := hstep s t o o' ho hG.1 hG'.1 hR
    obtain ⟨h3, h4⟩ := ih h1 hG.2 hG'.2
    exact ⟨h3, .cons h2 h4⟩

/-- the same with equal answers -/
theorem exec_lockstep {step : σ → ο → σ × ρ} {step' : τ → ο → τ × ρ'} {R : σ → τ → Prop} {G : σ → ο → Prop} {f : ρ → ρ'}
    (hstep : ∀ s t o, G s o → R s t → R (step s o).1 (step' t o).1 ∧ (step' t o).2 = f (step s o).2) {s : σ} {t : τ}
    (hR : R s t) {ops : List ο} (hG : Along (fun s o => (step s o).1) G s ops) :
    R (exec (fun s o => (step s o).1) s ops) (exec (fun t o => (step' t o).1) t ops) ∧
      answers step' t ops = (answers step s ops).map f := by
  have hstep' : ∀ s t o, G s o → R s t → R (step s o).1 (step' t o).1 ∧ f (step s o).2 = (step' t o).2 := fun s t o hs h =>
    (hstep s t o hs h).imp id Eq.symm
  obtain ⟨h1, h2⟩ := exec_related (S := fun a b => f a = b) hstep' hR hG
  refine ⟨h1, ?_⟩
  have hmap := List.forall₂_map_left_iff.2 h2
  rw [List.forall₂_eq_eq_eq] at hmap
  exact hmap.symm

end Run
