/-
Noninterference by unwinding, for machines that get an operation at each step.

An observer sees a part of the state (`view`) and some of what the steps put out (`out`); an operation means something to it or
not (`act`). A machine unwinds to a small machine on the views if operations that mean nothing leave the view alone and put out
nothing, and the others do to the view what the small machine does.
- `Unwinds.exec`: the view after a run, and what it put out, are those of the small machine on the operations that mean something;
- `Unwinds.two_runs`: so they agree for two machines, in whatever else their operations differ.
-/
import FipsTcp.Lib.Run

namespace Run

variable {σ τ ο ο' α υ ε : Type*}

/-- what the steps of a run put out, one after the other -/
def collect (step : σ → ο → σ) (out : σ → ο → List ε) : σ → List ο → List ε
  | _, [] => []
  | s, o :: ops => out s o ++ collect step out (step s o) ops

/-- the operations of a run that mean something -/
abbrev acts (step : σ → ο → σ) (act : σ → ο → Option α) : σ → List ο → List α := collect step fun s o => (act s o).toList

/-- the unwinding conditions, in states with `I` and for operations with `G` -/
structure Unwinds (step : σ → ο → σ) (I : σ → Prop) (G : σ → ο → Prop) (act : σ → ο → Option α) (view : σ → υ)
    (out : σ → ο → List ε) (small : υ → α → υ) (smallOut : υ → α → List ε) : Prop where
  inv : ∀ {s o}, I s → G s o → I (step s o)
  hidden : ∀ {s o}, I s → G s o → act s o = none → view (step s o) = view s ∧ out s o = []
  visible : ∀ {s o a}, I s → G s o → act s o = some a → view (step s o) = small (view s) a ∧ out s o = smallOut (view s) a

variable {step : σ → ο → σ} {I : σ → Prop} {G : σ → ο → Prop} {act : σ → ο → Option α} {view : σ → υ} {out : σ → ο → List ε}
  {small : υ → α → υ} {smallOut : υ → α → List ε} {s : σ} {ops : List ο}

/-- **A run, as its observer sees it.** -/
theorem Unwinds.exec (h : Unwinds step I G act view out small smallOut) (hI : I s) (hG : Along step G s ops) :
    view (Run.exec step s ops) = Run.exec small (view s) (acts step act s ops) ∧
      collect step out s ops = collect small smallOut (view s) (acts step act s ops) := by
  induction ops generalizing s with
  | nil => exact ⟨rfl, rfl⟩
  | cons o ops ih =>
    obtain ⟨h1, h2⟩ := ih (h.inv hI hG.1) hG.2
    simp only [acts, exec_cons, collect] at h1 h2 ⊢
    rw [h1, h2]
    cases ha : act s o with
    | none =>
      obtain ⟨hv, ho⟩ := h.hidden hI hG.1 ha
      rw [hv, ho]
      exact ⟨rfl, rfl⟩
    | some a =>
      obtain ⟨hv, ho⟩ := h.visible hI hG.1 ha
      rw [hv, ho]
      exact ⟨rfl, rfl⟩

/-- **Noninterference.** -/
theorem Unwinds.two_runs {step' : τ → ο' → τ} {I' : τ → Prop} {G' : τ → ο' → Prop} {act' : τ → ο' → Option α} {view' : τ → υ}
    {out' : τ → ο' → List ε} {t : τ} {ops' : List ο'} (h : Unwinds step I G act view out small smallOut)
    (h' : Unwinds step' I' G' act' view' out' small smallOut) (hI : I s) (hG : Along step G s ops) (hI' : I' t)
    (hG' : Along step' G' t ops') (hview : view s = view' t) (hacts : acts step act s ops = acts step' act' t ops') :
    view (Run.exec step s ops) = view' (Run.exec step' t ops') ∧ collect step out s ops = collect step' out' t ops' := by
  obtain ⟨h1, h2⟩ := h.exec hI hG
  obtain ⟨h3, h4⟩ := h'.exec hI' hG'
  rw [h1, h2, h3, h4, hview, hacts]
  exact ⟨rfl, rfl⟩

end Run
