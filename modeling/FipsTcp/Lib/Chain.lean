/-
Works chained by promises.

Each call hangs its work on a promise of the call before, as the handler of both outcomes, and leaves a promise of its own for the
next call, which is fulfilled once the result is settled, whichever way. A work may suspend until the world answers, and others
may be called meanwhile. The steps of all links interleave freely: a link is only kept back by the promise it hangs on.
- `InOrder`: the links as one work after the other, each from the state that the one before left;
- `inOrder_step`, `inOrder_run`: every interleaving is such an execution, in the order of the calls;
- `drains`: whatever the world answers, every work that was called comes to its end, after a rejection too.
-/
import FipsTcp.Lib.Run

namespace Chain

inductive Promise (ε α : Type) where
  | pending
  | fulfilled (value : α)
  | rejected (error : ε)
deriving DecidableEq, Repr

namespace Promise

variable {ε α β : Type}

/-- what the handlers of `then` make of a settled promise -/
def react (onFulfilled : α → β) (onRejected : ε → β) : Promise ε α → Option β
  | .pending => none
  | .fulfilled value => some (onFulfilled value)
  | .rejected error => some (onRejected error)

def settle : Except ε α → Promise ε α
  | .ok value => .fulfilled value
  | .error error => .rejected error

/-- both handlers being one, the outcome makes no difference -/
theorem react_settle (f : β) (outcome : Except ε α) : (settle outcome).react (fun _ => f) (fun _ => f) = some f := by
  cases outcome with
  | ok value => rfl
  | error error => rfl

end Promise

/-- how far a work has come: it waits for an answer, or its outcome is there -/
inductive Progress (ρ ε β : Type) where
  | await (rest : ρ)
  | done (outcome : Except ε β)

/-- works `ω` on a shared state `σ`: a start reads `κ` of the world, a suspended work `ρ` goes on with an answer `ι` -/
structure Works (σ ω κ ι ρ ε β : Type) where
  start : κ → ω → σ → σ × Progress ρ ε β
  resume : ι → ρ → σ → σ × Progress ρ ε β

/-- a link: its work has not started, is suspended, has come to its outcome; its result is settled; the promise it leaves is
fulfilled -/
inductive Phase (ρ ε β : Type) where
  | waiting
  | running (rest : ρ)
  | completed (outcome : Except ε β)
  | answered (outcome : Except ε β)
  | released (outcome : Except ε β)

namespace Phase

variable {ρ ε β : Type}

/-- the promise that the caller is given -/
def result : Phase ρ ε β → Promise ε β
  | .answered outcome | .released outcome => .settle outcome
  | .waiting | .running _ | .completed _ => .pending

/-- the promise that the next link hangs on -/
def operation : Phase ρ ε β → Promise ε Unit
  | .released _ => .fulfilled ()
  | .waiting | .running _ | .completed _ | .answered _ => .pending

def ofProgress : Progress ρ ε β → Phase ρ ε β
  | .await rest => .running rest
  | .done outcome => .completed outcome

/-- how far the work of a link in progress has come -/
def progress : Phase ρ ε β → Option (Progress ρ ε β)
  | .running rest => some (.await rest)
  | .completed outcome | .answered outcome => some (.done outcome)
  | .waiting | .released _ => none

def Released (p : Phase ρ ε β) : Prop := ∃ outcome, p = .released outcome

@[simp] theorem progress_ofProgress (p : Progress ρ ε β) : (ofProgress p).progress = some p := by
  cases p with
  | await rest => rfl
  | done outcome => rfl

theorem operation_of_progress {phase : Phase ρ ε β} {p : Progress ρ ε β} (h : phase.progress = some p) :
    phase.operation = .pending := by
  cases phase with
  | running rest => rfl
  | completed outcome => rfl
  | answered outcome => rfl
  | waiting => rfl
  | released outcome => cases h

end Phase

structure Link (ω ρ ε β : Type) where
  work : ω
  phase : Phase ρ ε β

structure State (σ ω ρ ε β : Type) where
  shared : σ
  links : List (Link ω ρ ε β)

/-- a call, or a step of the link with a number -/
inductive Event (ω κ ι : Type) where
  | call (work : ω)
  | start (link : ℕ) (moment : κ)
  | resume (link : ℕ) (answer : ι)
  | settle (link : ℕ)
  | release (link : ℕ)

variable {σ ω κ ι ρ ε β : Type}

/-- the promise that a link hangs on, the first link on `first` -/
def before (first : Promise ε Unit) : List (Link ω ρ ε β) → ℕ → Promise ε Unit
  | _, 0 => first
  | [], _ + 1 => .pending
  | link :: links, k + 1 => before link.phase.operation links k

def State.setPhase (s : State σ ω ρ ε β) (k : ℕ) (work : ω) (phase : Phase ρ ε β) : State σ ω ρ ε β :=
  { s with links := s.links.set k ⟨work, phase⟩ }

/-- what a work did and how far it has come -/
def State.progressed (s : State σ ω ρ ε β) (k : ℕ) (work : ω) : σ × Progress ρ ε β → State σ ω ρ ε β
  | (shared, p) => { s with shared }.setPhase k work (.ofProgress p)

/-- a step that is not possible changes nothing; `first` is the promise of `Promise.resolve()` -/
def step (works : Works σ ω κ ι ρ ε β) (s : State σ ω ρ ε β) : Event ω κ ι → State σ ω ρ ε β
  | .call work => { s with links := s.links ++ [⟨work, .waiting⟩] }
  | .start k moment =>
    match s.links[k]? with
    | some ⟨work, .waiting⟩ =>
      match (before (.fulfilled ()) s.links k).react (fun _ => work) (fun _ => work) with
      | some work => s.progressed k work (works.start moment work s.shared)
      | none => s
    | _ => s
  | .resume k answer =>
    match s.links[k]? with
    | some ⟨work, .running rest⟩ => s.progressed k work (works.resume answer rest s.shared)
    | _ => s
  | .settle k =>
    match s.links[k]? with
    | some ⟨work, .completed outcome⟩ => s.setPhase k work (.answered outcome)
    | _ => s
  | .release k =>
    match s.links[k]? with
    | some ⟨work, .answered outcome⟩ =>
      match (Promise.settle outcome).react (fun _ => ()) (fun _ => ()) with
      | some () => s.setPhase k work (.released outcome)
      | none => s
    | _ => s

def Event.link : Event ω κ ι → Option ℕ
  | .call _ => none
  | .start k _ | .resume k _ | .settle k | .release k => some k

variable {works : Works σ ω κ ι ρ ε β} {first : Promise ε Unit} {links : List (Link ω ρ ε β)} {s s' s₁ : σ} {w : ω} {k : ℕ}
  {phase phase' : Phase ρ ε β} {p : Progress ρ ε β}

/-! ## One step -/

/-- what the step of a link does to its phase and to the shared state -/
inductive Move (works : Works σ ω κ ι ρ ε β) (s : σ) (w : ω) : Phase ρ ε β → Phase ρ ε β → σ → Prop where
  | start (moment : κ) : Move works s w .waiting (.ofProgress (works.start moment w s).2) (works.start moment w s).1
  | resume (rest : ρ) (answer : ι) :
    Move works s w (.running rest) (.ofProgress (works.resume answer rest s).2) (works.resume answer rest s).1
  | settle (outcome : Except ε β) : Move works s w (.completed outcome) (.answered outcome) s
  | release (outcome : Except ε β) : Move works s w (.answered outcome) (.released outcome) s

/-- **What a step can do.** -/
theorem step_cases (works : Works σ ω κ ι ρ ε β) (t : State σ ω ρ ε β) (e : Event ω κ ι) :
    (∃ w, e = .call w ∧ step works t e = { t with links := t.links ++ [⟨w, .waiting⟩] }) ∨
      (∃ k, e.link = some k ∧ step works t e = t) ∨
      ∃ k w phase phase' s', e.link = some k ∧ t.links[k]? = some ⟨w, phase⟩ ∧
        (phase = .waiting → before (.fulfilled ()) t.links k ≠ .pending) ∧ Move works t.shared w phase phase' s' ∧
        step works t e = ⟨s', t.links.set k ⟨w, phase'⟩⟩ := by
  cases e with
  | call w => exact Or.inl ⟨w, rfl, rfl⟩
  | start k moment =>
    refine Or.inr ?_
    simp only [step]
    split
    · rename_i w hk
      cases hb : before (.fulfilled ()) t.links k with
      | pending => exact Or.inl ⟨k, rfl, rfl⟩
      | fulfilled u =>
        have hset : before (.fulfilled ()) t.links k ≠ .pending := by simp [hb]
        exact Or.inr ⟨k, w, _, _, _, rfl, hk, fun _ => hset, .start moment, rfl⟩
      | rejected e =>
        have hset : before (.fulfilled ()) t.links k ≠ .pending := by simp [hb]
        exact Or.inr ⟨k, w, _, _, _, rfl, hk, fun _ => hset, .start moment, rfl⟩
    · exact Or.inl ⟨k, rfl, rfl⟩
  | resume k answer =>
    refine Or.inr ?_
    simp only [step]
    split
    · rename_i w rest hk
      exact Or.inr ⟨k, w, _, _, _, rfl, hk, (fun h => by cases h), .resume rest answer, rfl⟩
    · exact Or.inl ⟨k, rfl, rfl⟩
  | settle k =>
    refine Or.inr ?_
    simp only [step]
    split
    · rename_i w outcome hk
      exact Or.inr ⟨k, w, _, _, _, rfl, hk, (fun h => by cases h), .settle outcome, rfl⟩
    · exact Or.inl ⟨k, rfl, rfl⟩
  | release k =>
    refine Or.inr ?_
    simp only [step, Promise.react_settle]
    split
    · rename_i w outcome hk
      exact Or.inr ⟨k, w, _, _, _, rfl, hk, (fun h => by cases h), .release outcome, rfl⟩
    · exact Or.inl ⟨k, rfl, rfl⟩

/-! ## The order -/

/-- a work alone, from its start on -/
inductive Reaches (works : Works σ ω κ ι ρ ε β) (w : ω) (s : σ) : σ → Progress ρ ε β → Prop where
  | start (moment : κ) : Reaches works w s (works.start moment w s).1 (works.start moment w s).2
  | resume {s' : σ} {rest : ρ} (h : Reaches works w s s' (.await rest)) (answer : ι) :
    Reaches works w s (works.resume answer rest s').1 (works.resume answer rest s').2

/-- the links as one work after the other: those released to their outcome, then at most one in progress, then those waiting -/
inductive InOrder (works : Works σ ω κ ι ρ ε β) : σ → List (Link ω ρ ε β) → σ → Prop where
  | idle {s : σ} {links : List (Link ω ρ ε β)} (h : ∀ l ∈ links, l.phase = .waiting) : InOrder works s links s
  | current {s s' : σ} {w : ω} {phase : Phase ρ ε β} {p : Progress ρ ε β} {links : List (Link ω ρ ε β)}
    (hp : phase.progress = some p) (hrun : Reaches works w s s' p) (h : ∀ l ∈ links, l.phase = .waiting) :
    InOrder works s (⟨w, phase⟩ :: links) s'
  | released {s s₁ s' : σ} {w : ω} {outcome : Except ε β} {links : List (Link ω ρ ε β)}
    (hrun : Reaches works w s s₁ (.done outcome)) (h : InOrder works s₁ links s') :
    InOrder works s (⟨w, .released outcome⟩ :: links) s'

/-- calls that wait change nothing -/
theorem InOrder.append (h : InOrder works s links s') {later : List (Link ω ρ ε β)} (hl : ∀ l ∈ later, l.phase = .waiting) :
    InOrder works s (links ++ later) s' := by
  induction h with
  | idle h => exact .idle fun l hmem => (List.mem_append.1 hmem).elim (h l) (hl l)
  | current hp hrun h => exact .current hp hrun fun l hmem => (List.mem_append.1 hmem).elim (h l) (hl l)
  | released hrun _ ih => exact .released hrun ih

/-- a link behind one that has left no promise is kept back -/
theorem before_pending (h : ∀ l ∈ links, l.phase = .waiting) (k : ℕ) : before (.pending : Promise ε Unit) links k = .pending := by
  induction links generalizing k with
  | nil => cases k <;> rfl
  | cons l links ih =>
    cases k with
    | zero => rfl
    | succ k =>
      rw [before, h l List.mem_cons_self]
      exact ih (fun l' hmem => h l' (List.mem_cons_of_mem _ hmem)) k

/-- a link starts: everything before it is released -/
theorem InOrder.begin (h : InOrder works s links s') (hk : links[k]? = some ⟨w, .waiting⟩)
    (hb : before (.fulfilled ()) links k ≠ .pending) (hnew : InOrder works s' [⟨w, phase'⟩] s₁) :
    InOrder works s (links.set k ⟨w, phase'⟩) s₁ := by
  induction h generalizing k with
  | @idle s links h =>
    cases links with
    | nil => cases hk
    | cons l links =>
      have hrest : ∀ l' ∈ links, l'.phase = .waiting := fun l' hmem => h l' (List.mem_cons_of_mem _ hmem)
      cases k with
      | zero => exact hnew.append hrest
      | succ k =>
        rw [before, h l List.mem_cons_self] at hb
        exact absurd (before_pending hrest k) hb
  | current hp hrun h =>
    cases k with
    | zero =>
      cases hk
      cases hp
    | succ k =>
      rw [before, Phase.operation_of_progress hp] at hb
      exact absurd (before_pending h k) hb
  | released hrun h ih =>
    cases k with
    | zero => cases hk
    | succ k => exact .released hrun (ih hk hb hnew)

/-- the link in progress goes on -/
theorem InOrder.advance (h : InOrder works s links s') (hk : links[k]? = some ⟨w, phase⟩) (hp : phase.progress = some p)
    (hnew : ∀ s₀, Reaches works w s₀ s' p → InOrder works s₀ [⟨w, phase'⟩] s₁) :
    InOrder works s (links.set k ⟨w, phase'⟩) s₁ := by
  induction h generalizing k with
  | idle h =>
    have hwait : phase = .waiting := h _ (List.mem_of_getElem? hk)
    rw [hwait] at hp
    cases hp
  | current hp' hrun h =>
    cases k with
    | zero =>
      cases hk
      cases hp'.symm.trans hp
      exact (hnew _ hrun).append h
    | succ k =>
      have hwait : phase = .waiting := h _ (List.mem_of_getElem? hk)
      rw [hwait] at hp
      cases hp
  | released hrun h ih =>
    cases k with
    | zero =>
      cases hk
      cases hp
    | succ k => exact .released hrun (ih hk hnew)

theorem InOrder.move (h : InOrder works s links s') (hk : links[k]? = some ⟨w, phase⟩)
    (hb : phase = .waiting → before (.fulfilled ()) links k ≠ .pending) (hm : Move works s' w phase phase' s₁) :
    InOrder works s (links.set k ⟨w, phase'⟩) s₁ := by
  have hnone : ∀ l ∈ ([] : List (Link ω ρ ε β)), l.phase = .waiting := fun l hl => absurd hl List.not_mem_nil
  cases hm with
  | start moment => exact h.begin hk (hb rfl) (.current (Phase.progress_ofProgress _) (.start moment) hnone)
  | resume rest answer =>
    exact h.advance hk rfl fun s₀ hrun => .current (Phase.progress_ofProgress _) (hrun.resume answer) hnone
  | settle outcome => exact h.advance hk rfl fun s₀ hrun => .current rfl hrun hnone
  | release outcome => exact h.advance hk rfl fun s₀ hrun => .released hrun (.idle hnone)

/-- **One step.** -/
theorem inOrder_step {t : State σ ω ρ ε β} (h : InOrder works s t.links t.shared) (e : Event ω κ ι) :
    InOrder works s (step works t e).links (step works t e).shared := by
  obtain ⟨w, -, heq⟩ | ⟨k, -, heq⟩ | ⟨k, w, phase, phase', s', -, hk, hb, hm, heq⟩ := step_cases works t e
  · rw [heq]
    exact h.append fun _ hl => by rw [List.mem_singleton.1 hl]
  · rw [heq]
    exact h
  · rw [heq]
    exact h.move hk hb hm

/-- **Every interleaving.** -/
theorem inOrder_run (works : Works σ ω κ ι ρ ε β) (s : σ) (events : List (Event ω κ ι)) :
    let t := Run.exec (step works) ⟨s, []⟩ events
    InOrder works s t.links t.shared :=
  Run.exec_invariant (P := fun t : State σ ω ρ ε β => InOrder works s t.links t.shared) (fun _ e h => inOrder_step h e)
    (.idle fun _ hl => absurd hl List.not_mem_nil) events

/-- a link in progress started in the state that the links before it left -/
theorem InOrder.reaches (h : InOrder works s links s') (hk : links[k]? = some ⟨w, phase⟩) (hp : phase.progress = some p) :
    ∃ s₀, InOrder works s (links.take k) s₀ ∧ Reaches works w s₀ s' p := by
  induction h generalizing k with
  | idle h =>
    have hwait : phase = .waiting := h _ (List.mem_of_getElem? hk)
    rw [hwait] at hp
    cases hp
  | current hp' hrun h =>
    cases k with
    | zero =>
      cases hk
      cases hp'.symm.trans hp
      exact ⟨_, .idle fun _ hl => absurd hl List.not_mem_nil, hrun⟩
    | succ k =>
      have hwait : phase = .waiting := h _ (List.mem_of_getElem? hk)
      rw [hwait] at hp
      cases hp
  | released hrun h ih =>
    cases k with
    | zero =>
      cases hk
      cases hp
    | succ k =>
      obtain ⟨s₀, hbefore, hreach⟩ := ih hk
      exact ⟨s₀, .released hrun hbefore, hreach⟩

/-! ## The calls -/

/-- the works that were called -/
def called : List (Event ω κ ι) → List ω := List.filterMap fun
  | .call work => some work
  | _ => none

theorem map_work_set (hk : links[k]? = some ⟨w, phase⟩) (phase' : Phase ρ ε β) :
    (links.set k ⟨w, phase'⟩).map Link.work = links.map Link.work := by
  induction links generalizing k with
  | nil => rfl
  | cons l links ih =>
    cases k with
    | zero =>
      cases hk
      rfl
    | succ k => exact congrArg (l.work :: ·) (ih hk)

theorem called_of_link {e : Event ω κ ι} (h : e.link = some k) : called [e] = [] := by
  cases e with
  | call w => cases h
  | start k moment => rfl
  | resume k answer => rfl
  | settle k => rfl
  | release k => rfl

/-- the links are the calls, in their order -/
theorem called_run (works : Works σ ω κ ι ρ ε β) (s : σ) (events : List (Event ω κ ι)) :
    (Run.exec (step works) ⟨s, []⟩ events).links.map Link.work = called events := by
  induction events using List.reverseRecOn with
  | nil => rfl
  | append_singleton events e ih =>
    have hsplit : called (events ++ [e]) = called events ++ called [e] := List.filterMap_append
    rw [Run.exec_append, Run.exec_cons, Run.exec_nil, hsplit, ← ih]
    generalize Run.exec (step works) ⟨s, []⟩ events = t
    obtain ⟨w, rfl, heq⟩ | ⟨k, hlink, heq⟩ | ⟨k, w, phase, phase', s', hlink, hk, -, -, heq⟩ := step_cases works t e
    · rw [heq]
      exact List.map_append
    · rw [heq, called_of_link hlink, List.append_nil]
    · rw [heq, called_of_link hlink, List.append_nil]
      exact map_work_set hk phase'

/-! ## The end -/

def Quiet (links : List (Link ω ρ ε β)) : Prop := ∀ l ∈ links, l.phase.Released

/-- the step that a link can make -/
def stepOf (moment : κ) (answer : ι) (k : ℕ) : Phase ρ ε β → Option (Event ω κ ι)
  | .waiting => some (.start k moment)
  | .running _ => some (.resume k answer)
  | .completed _ => some (.settle k)
  | .answered _ => some (.release k)
  | .released _ => none

/-- the step of the first link that can make one, the links being numbered from `k` on -/
def next (moment : κ) (answer : ι) : ℕ → List (Link ω ρ ε β) → Option (Event ω κ ι)
  | _, [] => none
  | k, link :: links => (stepOf moment answer k link.phase).or (next moment answer (k + 1) links)

theorem next_split (moment : κ) (answer : ι) (h : ¬ Quiet links) (k : ℕ) :
    ∃ pre l post e, links = pre ++ l :: post ∧ Quiet pre ∧ stepOf (ω := ω) moment answer (k + pre.length) l.phase = some e ∧
      next moment answer k links = some e := by
  induction links generalizing k with
  | nil => exact absurd (fun l hl => absurd hl List.not_mem_nil) h
  | cons l links ih =>
    cases hstep : stepOf (ω := ω) moment answer k l.phase with
    | some e =>
      refine ⟨[], l, links, e, rfl, fun l hl => absurd hl List.not_mem_nil, hstep, ?_⟩
      rw [next, hstep]
      rfl
    | none =>
      have hrel : l.phase.Released := by
        cases hp : l.phase with
        | released outcome => exact ⟨outcome, rfl⟩
        | waiting => rw [hp] at hstep; cases hstep
        | running rest => rw [hp] at hstep; cases hstep
        | completed outcome => rw [hp] at hstep; cases hstep
        | answered outcome => rw [hp] at hstep; cases hstep
      have hrest : ¬ Quiet links := fun hq => h (List.forall_mem_cons.2 ⟨hrel, hq⟩)
      obtain ⟨pre, l', post, e, rfl, hpre, he, hnext⟩ := ih hrest (k + 1)
      refine ⟨l :: pre, l', post, e, rfl, List.forall_mem_cons.2 ⟨hrel, hpre⟩, ?_, ?_⟩
      · rwa [List.length_cons, Nat.add_comm pre.length, ← Nat.add_assoc]
      · rw [next, hstep, hnext]
        rfl

theorem before_quiet {pre : List (Link ω ρ ε β)} (h : Quiet pre) (post : List (Link ω ρ ε β)) :
    before (.fulfilled ()) (pre ++ post) pre.length = .fulfilled () := by
  induction pre with
  | nil => cases post <;> rfl
  | cons l pre ih =>
    obtain ⟨⟨outcome, hl⟩, hrest⟩ := List.forall_mem_cons.1 h
    rw [List.cons_append, List.length_cons, before, hl]
    exact ih hrest

/-- nothing keeps back the first link that is not released, whatever the outcomes before it -/
theorem step_stepOf {pre : List (Link ω ρ ε β)} {l : Link ω ρ ε β} {moment : κ} {answer : ι} {e : Event ω κ ι}
    (works : Works σ ω κ ι ρ ε β) (s : σ) (post : List (Link ω ρ ε β)) (h : Quiet pre) (he : stepOf moment answer pre.length l.phase = some e) :
    ∃ phase' s', Move works s l.work l.phase phase' s' ∧
      step works ⟨s, pre ++ l :: post⟩ e = ⟨s', pre ++ ⟨l.work, phase'⟩ :: post⟩ := by
  obtain ⟨w, phase⟩ := l
  have hk : (pre ++ ⟨w, phase⟩ :: post)[pre.length]? = some ⟨w, phase⟩ := by simp
  have hset : ∀ phase' : Phase ρ ε β, (pre ++ ⟨w, phase⟩ :: post).set pre.length ⟨w, phase'⟩ = pre ++ ⟨w, phase'⟩ :: post := by
    intro phase'
    rw [List.set_append_right _ _ le_rfl, Nat.sub_self, List.set_cons_zero]
  cases phase with
  | waiting =>
    cases he
    refine ⟨_, _, .start moment, ?_⟩
    simp only [step, hk, before_quiet h, Promise.react, State.progressed, State.setPhase, hset]
  | running rest =>
    cases he
    refine ⟨_, _, .resume rest answer, ?_⟩
    simp only [step, hk, State.progressed, State.setPhase, hset]
  | completed outcome =>
    cases he
    refine ⟨_, _, .settle outcome, ?_⟩
    simp only [step, hk, State.setPhase, hset]
  | answered outcome =>
    cases he
    refine ⟨_, _, .release outcome, ?_⟩
    simp only [step, hk, Promise.react_settle, State.setPhase, hset]
  | released outcome => cases he

/-! The links that wait come first in the measure, then what the link in progress has before it. -/

def Phase.waits : Phase ρ ε β → ℕ
  | .waiting => 1
  | _ => 0

def Phase.weight (size : ρ → ℕ) : Phase ρ ε β → ℕ
  | .running rest => size rest + 3
  | .completed _ => 2
  | .answered _ => 1
  | .waiting | .released _ => 0

def waiting (links : List (Link ω ρ ε β)) : ℕ := (links.map fun l => l.phase.waits).sum

def load (size : ρ → ℕ) (links : List (Link ω ρ ε β)) : ℕ := (links.map fun l => l.phase.weight size).sum

/-- an answer leaves less to wait for -/
def Shrinks (works : Works σ ω κ ι ρ ε β) (size : ρ → ℕ) : Prop :=
  ∀ answer rest s rest', (works.resume answer rest s).2 = .await rest' → size rest' < size rest

theorem Move.lighter {size : ρ → ℕ} (hsize : Shrinks works size) (hm : Move works s w phase phase' s') :
    phase'.waits < phase.waits ∨ phase'.waits = phase.waits ∧ phase'.weight size < phase.weight size := by
  cases hm with
  | start moment =>
    refine Or.inl ?_
    cases (works.start moment w s).2 with
    | await rest => exact Nat.zero_lt_one
    | done outcome => exact Nat.zero_lt_one
  | resume rest answer =>
    refine Or.inr ?_
    cases hp : (works.resume answer rest s).2 with
    | await rest' => exact ⟨rfl, Nat.add_lt_add_right (hsize answer rest s rest' hp) 3⟩
    | done outcome => exact ⟨rfl, Nat.lt_add_left (size rest) (Nat.lt_succ_self 2)⟩
  | settle outcome => exact Or.inr ⟨rfl, Nat.lt_succ_self 1⟩
  | release outcome => exact Or.inr ⟨rfl, Nat.zero_lt_one⟩

/-- **The end.** Whatever the world says and answers, the works that were called all come to their outcome. -/
theorem drains {size : ρ → ℕ} (hsize : Shrinks works size) (world : State σ ω ρ ε β → κ × ι) (t : State σ ω ρ ε β) :
    ∃ later, Run.Along (step works) (fun t e => next (world t).1 (world t).2 0 t.links = some e) t later ∧
      Quiet (Run.exec (step works) t later).links := by
  by_cases hq : Quiet t.links
  · exact ⟨[], trivial, hq⟩
  obtain ⟨pre, l, post, e, hsplit, hpre, he, hnext⟩ := next_split (world t).1 (world t).2 hq 0
  rw [Nat.zero_add] at he
  obtain ⟨phase', s', hm, hstep⟩ := step_stepOf works t.shared post hpre he
  have ht : t = ⟨t.shared, pre ++ l :: post⟩ := by rw [← hsplit]
  rw [← ht] at hstep
  have hless : waiting (step works t e).links < waiting t.links ∨ waiting (step works t e).links = waiting t.links ∧
      load size (step works t e).links < load size t.links := by
    have hlighter := hm.lighter hsize
    rw [hstep, hsplit]
    simp only [waiting, load, List.map_append, List.map_cons, List.sum_append, List.sum_cons]
    omega
  obtain ⟨later, halong, hend⟩ := drains hsize world (step works t e)
  exact ⟨e :: later, ⟨hnext, halong⟩, hend⟩
termination_by (waiting t.links, load size t.links)
decreasing_by
  rw [Prod.lex_def]
  exact hless

end Chain
