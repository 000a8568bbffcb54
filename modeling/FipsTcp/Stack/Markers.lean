/-
The life of a payload marker.

A process has any number of stacks, which are made, used and dropped in any order. An observer who sees the operations, what
the writes answer and `send_una` keeps notes about every retained connection: which operation made it, how many payload bytes
its writes accepted, and how many sequence numbers `send_una` has passed (`Notes`, `Noted`). A marker is judged against the
notes, which know neither tokens nor counters of acknowledged bytes.
- `Inv.step`: the notes are right, and no two connections of the process have one token;
- `Tracks.step`: a connection has the token of a marker if it is the one that the marker was made for;
- `marker_lifecycle`: what a marker says after every later run, in every stack.
-/
import FipsTcp.Stack.Progress

namespace FipsTcp

open Connection

/-- what an observer notes about a retained connection -/
structure Notes where
  /-- the operation that made it, counted from the first -/
  made : ℕ
  /-- the payload bytes that its writes accepted -/
  accepted : ℕ
  /-- the sequence numbers that `send_una` has passed -/
  passed : ℕ
deriving DecidableEq, Repr

/-- the status only grows: pending, acknowledged, gone -/
def MarkerStatus.rank : MarkerStatus → ℕ
  | .pending => 0
  | .acked => 1
  | .connectionGone => 2

namespace Stack

variable {P : Type} [DecidableEq P]

/-- the bytes that a write to the connection `id` accepts -/
def acceptedBy (s : Stack P) (id : ConnectionId) : StackOp P → ℕ
  | .write i bytes nowMs =>
    if i = id then
      match (s.writeWithMarker i bytes nowMs).2 with
      | .ok (count, _) => count
      | .error _ => 0
    else 0
  | _ => 0

/-- the notes about the entry `id` after the operation number `time`; an operation that draws a token makes a connection -/
def note (time : ℕ) (s : Stack P) (op : StackOp P) (id : ConnectionId) (notes : Option Notes) : Option Notes :=
  let s' := (s.perform op).1
  match s'.connections.lookup id with
  | none => none
  | some c' =>
    if s'.nextConnectionToken ≠ s.nextConnectionToken ∧ id = s.nextId then some ⟨time, 0, 0⟩
    else
      match s.connections.lookup id, notes with
      | some c, some n => some ⟨n.made, n.accepted + s.acceptedBy id op, n.passed + distance c.sendUna c'.sendUna⟩
      | _, _ => none

variable {s : Stack P} {id : ConnectionId} {c c' : Connection P} {isn : U32} {acc : List U8}

/-- the stack counts what the connection accepts -/
theorem acceptedBy_eq (hs : s.AllSound) (hl : s.connections.lookup id = some c) (op : StackOp P) :
    s.acceptedBy id op = ((s.act id op).map fun o => c.accepts s.config.1 o).getD 0 := by
  cases op with
  | write i bytes nowMs =>
    simp only [acceptedBy, act]
    split_ifs with hi
    · subst hi
      simp only [Option.map_some, Option.getD_some, Connection.accepts]
      rcases hw : c.write bytes nowMs s.config.1 with e | ⟨c', count, out⟩
      · simp only [writeWithMarker, hl, hw]
      · simp only [writeWithMarker_eq hl (hs i c hl) hw]
    · rfl
  | input peer bytes nowMs =>
    simp only [acceptedBy, act]
    cases Segment.decode bytes with
    | error e => rfl
    | ok segment => simp only; split_ifs <;> rfl
  | poll | read | close | abort | abortPeer => simp only [acceptedBy, act]; split_ifs <;> rfl
  | listen | closeListener | accept | connect | connectFromWithIsn | setConnectionReservation | drainOutbound => rfl

/-- **An entry that stays.** -/
theorem afterOp_progress (hs : s.AllSound) (hl : s.connections.lookup id = some c) (hsend : c.SendInv s.config.1 isn acc)
    {op : StackOp P} (h : s.afterOp op id c = some c') :
    c'.sendProgress.connectionToken = c.sendProgress.connectionToken ∧
      c'.sendProgress.acceptedPayloadBytes = c.sendProgress.acceptedPayloadBytes + s.acceptedBy id op ∧
      c'.unaPosition = c.unaPosition + distance c.sendUna c'.sendUna := by
  rw [acceptedBy_eq hs hl]
  unfold afterOp at h
  cases ha : s.act id op with
  | none =>
    rw [ha] at h
    cases h
    exact ⟨rfl, rfl, (AdvancedBy.refl c : AdvancedBy none c c).position⟩
  | some o =>
    rw [ha] at h
    exact after_progress hsend h

end Stack

structure Noted (ι P : Type) [DecidableEq P] where
  process : Process ι P
  time : ℕ
  notes : ι → ConnectionId → Option Notes

namespace Noted

variable {ι P : Type} [DecidableEq ι] [DecidableEq P]

/-- a process without stacks -/
def new (token : ℕ) : Noted ι P := ⟨⟨fun _ => none, token⟩, 0, fun _ _ => none⟩

def step (o : Noted ι P) (op : ProcessOp ι P) : Noted ι P where
  process := o.process.step op
  time := o.time + 1
  notes := match op with
    | .create i _ _ | .drop i => Function.update o.notes i fun _ => none
    | .perform i op =>
      match o.process.stack i with
      | none => o.notes
      | some s => Function.update o.notes i fun id => s.note o.time op id (o.notes i id)

abbrev run (o : Noted ι P) (ops : List (ProcessOp ι P)) : Noted ι P := Run.exec step o ops

/-- the connection that the operation number `made` entered under `id` is still retained -/
def Retained (o : Noted ι P) (i : ι) (id : ConnectionId) (made : ℕ) : Prop := ∃ n, o.notes i id = some n ∧ n.made = made

/-- an entry of a stack of the process -/
def Entry (o : Noted ι P) (i : ι) (id : ConnectionId) (c : Connection P) : Prop :=
  ∃ s, o.process.stack i = some s ∧ s.connections.lookup id = some c

/-- the notes are right, and tokens are unique -/
structure Inv (o : Noted ι P) : Prop where
  genuine : ∀ i s, o.process.stack i = some s → s.Genuine s.config
  noted : ∀ i id c, o.Entry i id c → ∃ n, o.notes i id = some n ∧ n.made < o.time ∧
    n.accepted = c.sendProgress.acceptedPayloadBytes ∧ n.passed = c.unaPosition
  retained : ∀ i id n, o.notes i id = some n → ∃ c, o.Entry i id c
  drawn : ∀ i id c, o.Entry i id c → c.sendProgress.connectionToken < o.process.nextConnectionToken
  unique : ∀ {i j id id' c c'}, o.Entry i id c → o.Entry j id' c' →
    c.sendProgress.connectionToken = c'.sendProgress.connectionToken → i = j ∧ id = id'

variable {o : Noted ι P} {i j : ι} {id id' : ConnectionId} {c c' : Connection P} {n n' : Notes} {op : ProcessOp ι P} {s t : Stack P}

/-! ## The stacks after an operation -/

omit [DecidableEq ι] in
theorem entry_of_stack (h : o.process.stack i = some s) : o.Entry i id c ↔ s.connections.lookup id = some c := by
  refine ⟨fun ⟨t, ht, hl⟩ => ?_, fun hl => ⟨s, h, hl⟩⟩
  rw [h] at ht
  cases ht
  exact hl

omit [DecidableEq ι] in
/-- the counter is no matter of the tables -/
theorem entry_congr {o' : Noted ι P} (h : o'.process.alive i = o.process.alive i) : o'.Entry i id c ↔ o.Entry i id c := by
  unfold Entry Process.stack
  rw [h]
  cases o.process.alive i with
  | none => exact ⟨(fun ⟨_, h, _⟩ => nomatch h), (fun ⟨_, h, _⟩ => nomatch h)⟩
  | some s =>
    refine ⟨fun ⟨t, ht, hl⟩ => ⟨_, rfl, ?_⟩, fun ⟨t, ht, hl⟩ => ⟨_, rfl, ?_⟩⟩ <;> cases ht <;> exact hl

theorem step_perform {sop : StackOp P} (h : o.process.stack i = some s) :
    (o.step (.perform i sop)).process =
      ⟨Function.update o.process.alive i (some (s.perform sop).1), (s.perform sop).1.nextConnectionToken⟩ := by
  simp only [step, Process.step, h]

theorem stack_perform {sop : StackOp P} (h : o.process.stack i = some s) :
    (o.step (.perform i sop)).process.stack i = some (s.perform sop).1 := by
  rw [step_perform h, Process.stack]
  simp only [Function.update_self, Option.map_some]

theorem notes_perform {sop : StackOp P} (h : o.process.stack i = some s) (id : ConnectionId) :
    (o.step (.perform i sop)).notes i id = s.note o.time sop id (o.notes i id) := by
  simp only [step, h, Function.update_self]

/-- the stack that an operation is about -/
def target : ProcessOp ι P → ι
  | .create i _ _ | .drop i | .perform i _ => i

/-- an operation leaves the other stacks and the notes about them alone -/
theorem step_other (h : j ≠ target op) :
    (o.step op).process.alive j = o.process.alive j ∧ (o.step op).notes j = o.notes j := by
  cases op with
  | create i config isnSeed => exact ⟨Function.update_of_ne h _ _, Function.update_of_ne h _ _⟩
  | drop i => exact ⟨Function.update_of_ne h _ _, Function.update_of_ne h _ _⟩
  | perform i sop =>
    simp only [step, Process.step]
    cases o.process.stack i with
    | none => exact ⟨rfl, rfl⟩
    | some s => exact ⟨Function.update_of_ne h _ _, Function.update_of_ne h _ _⟩

omit [DecidableEq ι] in
theorem stack_token (h : o.process.stack i = some s) : s.nextConnectionToken = o.process.nextConnectionToken := by
  obtain ⟨t, -, rfl⟩ := Option.map_eq_some_iff.1 h
  rfl

/-- an operation on a process without the stack -/
theorem step_none (sop : StackOp P) (h : o.process.stack i = none) :
    (o.step (.perform i sop)).process = o.process ∧ (o.step (.perform i sop)).notes = o.notes := by
  simp only [step, Process.step, h, and_self]

/-! ## Where the entries come from -/

/-- an entry after an operation was one before, or the operation made it -/
inductive Origin (o : Noted ι P) (op : ProcessOp ι P) (i : ι) (id : ConnectionId) (c' : Connection P) (n' : Notes) : Prop
  | kept (c : Connection P) (n : Notes) (he : o.Entry i id c) (hn : o.notes i id = some n) (hmade : n'.made = n.made)
      (htoken : c'.sendProgress.connectionToken = c.sendProgress.connectionToken) (haccepted : n.accepted ≤ n'.accepted)
      (hpassed : n.passed ≤ n'.passed)
  | made (sop : StackOp P) (s : Stack P) (hop : op = .perform i sop) (hs : o.process.stack i = some s) (hid : id = s.nextId)
      (hmade : n'.made = o.time) (htoken : c'.sendProgress.connectionToken = o.process.nextConnectionToken)
      (hnext : (o.step op).process.nextConnectionToken = o.process.nextConnectionToken + 1)

/-- the notes about an entry are right after an operation, and it has an origin -/
def Traced (o : Noted ι P) (op : ProcessOp ι P) (i : ι) (id : ConnectionId) (c' : Connection P) : Prop :=
  ∃ n', (o.step op).notes i id = some n' ∧ n'.accepted = c'.sendProgress.acceptedPayloadBytes ∧
    n'.passed = c'.unaPosition ∧ Origin o op i id c' n'

/-- an entry that the operation does not touch -/
theorem Inv.traced_same (h : o.Inv) (he : o.Entry i id c') (hnotes : (o.step op).notes i = o.notes i) : o.Traced op i id c' := by
  obtain ⟨n, hn, -, hacc, hpassed⟩ := h.noted i id c' he
  exact ⟨n, by rw [hnotes]; exact hn, hacc, hpassed, .kept c' n he hn rfl rfl le_rfl le_rfl⟩

section Perform

variable {sop : StackOp P} (hs : o.process.stack i = some s) (hl : (s.perform sop).1.connections.lookup id = some c')
include hs hl

/-- the entry that the operation makes -/
theorem traced_made (hid : id = s.nextId) (hnew : c'.sendProgress.connectionToken = s.nextConnectionToken)
    (hacc : c'.sendProgress.acceptedPayloadBytes = 0) (hpassed : c'.unaPosition = 0)
    (htoken : (s.perform sop).1.nextConnectionToken = s.nextConnectionToken + 1) : o.Traced (.perform i sop) i id c' := by
  have hmade : (s.perform sop).1.nextConnectionToken ≠ s.nextConnectionToken ∧ id = s.nextId :=
    ⟨by rw [htoken]; exact Nat.succ_ne_self _, hid⟩
  refine ⟨⟨o.time, 0, 0⟩, ?_, hacc.symm, hpassed.symm, .made sop s rfl hs hid rfl ?_ ?_⟩
  · rw [notes_perform hs]
    simp only [Stack.note, hl, if_pos hmade]
  · rw [hnew, stack_token hs]
  · rw [step_perform hs, ← stack_token hs]
    exact htoken

variable (h : o.Inv)
include h

/-- an entry that goes on -/
theorem traced_follow (hc : s.connections.lookup id = some c) (hafter : s.afterOp sop id c = some c')
    (htoken : (s.perform sop).1.nextConnectionToken = s.nextConnectionToken) : o.Traced (.perform i sop) i id c' := by
  have hg := h.genuine i s hs
  obtain ⟨n, hn, -, hacc, hpassed⟩ := h.noted i id c ((entry_of_stack hs).2 hc)
  obtain ⟨isn, acc, hinv⟩ := (hg.reachable id c hc).inv s.config.valid
  obtain ⟨h1, h2, h3⟩ := Stack.afterOp_progress hg.sound hc hinv.send hafter
  have hno : ¬ ((s.perform sop).1.nextConnectionToken ≠ s.nextConnectionToken ∧ id = s.nextId) := fun h => h.1 htoken
  refine ⟨⟨n.made, n.accepted + s.acceptedBy id sop, n.passed + distance c.sendUna c'.sendUna⟩, ?_, ?_, ?_, ?_⟩
  · rw [notes_perform hs]
    simp only [Stack.note, hl, hc, hn, if_neg hno]
  · rw [h2, hacc]
  · rw [h3, hpassed]
  · exact .kept c n ((entry_of_stack hs).2 hc) hn rfl h1 (Nat.le_add_right _ _) (Nat.le_add_right _ _)

/-- an entry beside the one that the operation makes -/
theorem traced_beside (hl' : s.connections.lookup id = some c') (hid : id ≠ s.nextId) (hact : s.act id sop = none) :
    o.Traced (.perform i sop) i id c' := by
  obtain ⟨n, hn, -, hacc, hpassed⟩ := h.noted i id c' ((entry_of_stack hs).2 hl')
  have hno : ¬ ((s.perform sop).1.nextConnectionToken ≠ s.nextConnectionToken ∧ id = s.nextId) := fun h => hid h.2
  have hzero : s.acceptedBy id sop = 0 := by
    rw [Stack.acceptedBy_eq (h.genuine i s hs).sound hl', hact]
    rfl
  have hstill := (AdvancedBy.refl c' : AdvancedBy none c' c').position
  refine ⟨⟨n.made, n.accepted + s.acceptedBy id sop, n.passed + distance c'.sendUna c'.sendUna⟩, ?_, ?_, ?_, ?_⟩
  · rw [notes_perform hs]
    simp only [Stack.note, hl, hl', hn, if_neg hno]
  · rw [hzero]; exact hacc
  · rw [hpassed]; exact hstill.symm
  · exact .kept c' n ((entry_of_stack hs).2 hl') hn rfl rfl (Nat.le_add_right _ _) (Nat.le_add_right _ _)

theorem traced_perform : o.Traced (.perform i sop) i id c' := by
  cases Stack.perform_entries (h.genuine i s hs).sound sop with
  | follow hfollow htoken =>
    have hl' := hl
    rw [hfollow] at hl'
    obtain ⟨c, hc, hafter⟩ := Option.bind_eq_some_iff.1 hl'
    exact traced_follow hs hl h hc hafter htoken
  | create opening ht hcreate hact htoken hdraws =>
    have hl' := hl
    rw [hcreate] at hl'
    by_cases hid : id = s.nextId
    · rw [hid, Finmap.lookup_insert, Option.some.injEq] at hl'
      refine traced_made hs hl hid ?_ ?_ ?_ htoken
      · rw [← hl', hdraws]; rfl
      · rw [← hl', hdraws]; rfl
      · rw [← hl', opening.unaPosition]
    · rw [Finmap.lookup_insert_of_ne _ hid] at hl'
      exact traced_beside hs hl h hl' hid (hact id (Finmap.mem_of_lookup_eq_some hl'))

end Perform

/-- **Origins.** The notes about an entry are right after an operation. -/
theorem Inv.origin (h : o.Inv) (he : (o.step op).Entry i id c') : o.Traced op i id c' := by
  by_cases hi : i = target op
  case neg =>
    obtain ⟨halive, hnotes⟩ := step_other hi
    exact h.traced_same ((entry_congr halive).1 he) hnotes
  case pos =>
    subst hi
    cases op with
    | create i config isnSeed =>
      obtain ⟨s, hs, hl⟩ := he
      simp only [target, step, Process.step, Process.stack, Function.update_self, Option.map_some, Option.some.injEq] at hs
      rw [← hs] at hl
      exact (Stack.no_connection hl).elim
    | drop i =>
      obtain ⟨s, hs, -⟩ := he
      simp only [target, step, Process.step, Process.stack, Function.update_self, Option.map_none] at hs
      cases hs
    | perform i sop =>
      simp only [target] at he ⊢
      cases hs : o.process.stack i with
      | none =>
        obtain ⟨hp, hn⟩ := step_none sop hs
        exact h.traced_same ((entry_congr (by rw [hp])).1 he) (by rw [hn])
      | some s => exact traced_perform hs ((entry_of_stack (stack_perform hs)).1 he) h

/-- an operation draws tokens, and gives none back -/
theorem Inv.token_mono (h : o.Inv) (op : ProcessOp ι P) :
    o.process.nextConnectionToken ≤ (o.step op).process.nextConnectionToken := by
  cases op with
  | create | drop => exact le_rfl
  | perform i sop =>
    cases hs : o.process.stack i with
    | none => rw [(step_none sop hs).1]
    | some s =>
      rw [step_perform hs, ← stack_token hs]
      cases Stack.perform_entries (h.genuine i s hs).sound sop with
      | follow _ htoken => exact htoken.ge
      | create _ _ _ _ htoken => exact htoken.ge.trans' (Nat.le_succ _)

theorem Inv.genuine_step (h : o.Inv) (hs : (o.step op).process.stack i = some s) : s.Genuine s.config := by
  by_cases hi : i = target op
  case neg =>
    have halive := (step_other (o := o) hi).1
    simp only [Process.stack, halive] at hs
    obtain ⟨t, ht, rfl⟩ := Option.map_eq_some_iff.1 hs
    have hg := h.genuine i { t with nextConnectionToken := o.process.nextConnectionToken } (by rw [Process.stack, ht]; rfl)
    exact ⟨hg.sound, rfl, hg.reachable⟩
  case pos =>
    subst hi
    cases op with
    | create i config isnSeed =>
      simp only [target, Noted.step, Process.step, Process.stack, Function.update_self, Option.map_some, Option.some.injEq] at hs
      rw [← hs]
      exact Stack.Genuine.new config isnSeed _
    | drop i =>
      simp only [target, Noted.step, Process.step, Process.stack, Function.update_self, Option.map_none] at hs
      cases hs
    | perform i sop =>
      simp only [target] at hs
      cases ht : o.process.stack i with
      | none =>
        rw [(step_none sop ht).1, ht] at hs
        cases hs
      | some t =>
        rw [stack_perform ht] at hs
        cases hs
        have hg := (h.genuine i t ht).step sop
        rw [hg.same]
        exact hg

theorem Inv.noted_step (h : o.Inv) (he : (o.step op).Entry i id c') : ∃ n, (o.step op).notes i id = some n ∧
    n.made < (o.step op).time ∧ n.accepted = c'.sendProgress.acceptedPayloadBytes ∧ n.passed = c'.unaPosition := by
  obtain ⟨n', hn', hacc, hpassed, horigin⟩ := h.origin he
  refine ⟨n', hn', ?_, hacc, hpassed⟩
  cases horigin with
  | kept c n he hn hmade =>
    obtain ⟨n0, hn0, hlt, -⟩ := h.noted i id c he
    rw [hn, Option.some.injEq] at hn0
    rw [hmade, hn0]
    exact Nat.lt_succ_of_lt hlt
  | made _ _ _ _ _ hmade => rw [hmade]; exact Nat.lt_succ_self _

theorem Inv.retained_step (h : o.Inv) (hn : (o.step op).notes i id = some n) : ∃ c, (o.step op).Entry i id c := by
  by_cases hi : i = target op
  case neg =>
    obtain ⟨halive, hnotes⟩ := step_other hi
    rw [hnotes] at hn
    obtain ⟨c, hc⟩ := h.retained i id n hn
    exact ⟨c, (entry_congr halive).2 hc⟩
  case pos =>
    subst hi
    cases op with
    | create | drop =>
      simp only [target, Noted.step, Function.update_self] at hn
      cases hn
    | perform i sop =>
      simp only [target] at hn ⊢
      cases ht : o.process.stack i with
      | none =>
        obtain ⟨hp, hnotes⟩ := step_none sop ht
        rw [hnotes] at hn
        obtain ⟨c, hc⟩ := h.retained i id n hn
        exact ⟨c, (entry_congr (by rw [hp])).2 hc⟩
      | some t =>
        rw [notes_perform ht] at hn
        cases hl : (t.perform sop).1.connections.lookup id with
        | none => simp only [Stack.note, hl] at hn; cases hn
        | some c => exact ⟨c, (entry_of_stack (stack_perform ht)).2 hl⟩

theorem Inv.drawn_step (h : o.Inv) (he : (o.step op).Entry i id c') :
    c'.sendProgress.connectionToken < (o.step op).process.nextConnectionToken := by
  obtain ⟨n', -, -, -, horigin⟩ := h.origin he
  cases horigin with
  | kept c n he hn hmade htoken =>
    rw [htoken]
    exact (h.drawn i id c he).trans_le (h.token_mono op)
  | made _ _ _ _ _ _ htoken hnext => rw [htoken, hnext]; exact Nat.lt_succ_self _

omit [DecidableEq ι] in
/-- the token of an entry is not the next one -/
theorem Inv.token_ne (h : o.Inv) (he : o.Entry i id c) : c.sendProgress.connectionToken ≠ o.process.nextConnectionToken :=
  (h.drawn i id c he).ne

theorem Inv.unique_step (h : o.Inv) {c c' : Connection P} (he : (o.step op).Entry i id c) (he' : (o.step op).Entry j id' c')
    (htok : c.sendProgress.connectionToken = c'.sendProgress.connectionToken) : i = j ∧ id = id' := by
  obtain ⟨_, -, -, -, horigin⟩ := h.origin he
  obtain ⟨_, -, -, -, horigin'⟩ := h.origin he'
  cases horigin with
  | kept c0 n0 he0 _ _ htoken0 =>
    cases horigin' with
    | kept c1 n1 he1 _ _ htoken1 => exact h.unique he0 he1 (htoken0.symm.trans (htok.trans htoken1))
    | made _ _ _ _ _ _ htoken1 => exact absurd (htoken0.symm.trans (htok.trans htoken1)) (h.token_ne he0)
  | made sop s hop hs hid _ htoken0 =>
    cases horigin' with
    | kept c1 n1 he1 _ _ htoken1 => exact absurd (htoken1.symm.trans (htok.symm.trans htoken0)) (h.token_ne he1)
    | made sop' s' hop' hs' hid' =>
      rw [hop] at hop'
      cases hop'
      rw [hs] at hs'
      cases hs'
      exact ⟨rfl, hid.trans hid'.symm⟩

/-- **Preservation, one operation.** -/
theorem Inv.step (h : o.Inv) (op : ProcessOp ι P) : (o.step op).Inv where
  genuine _ _ hs := h.genuine_step hs
  noted _ _ _ he := h.noted_step he
  retained _ _ _ hn := h.retained_step hn
  drawn _ _ _ he := h.drawn_step he
  unique he he' htok := h.unique_step he he' htok

theorem inv_run (token : ℕ) (ops : List (ProcessOp ι P)) : ((new token).run ops : Noted ι P).Inv := by
  have hno : ∀ i s, (new token : Noted ι P).process.stack i ≠ some s := fun _ _ h => nomatch h
  refine Run.exec_invariant (fun _ op h => h.step op) ⟨?_, ?_, ?_, ?_, ?_⟩ ops
  · exact fun i s hs => (hno i s hs).elim
  · exact fun i id c ⟨s, hs, _⟩ => (hno i s hs).elim
  · exact fun i id n hn => nomatch hn
  · exact fun i id c ⟨s, hs, _⟩ => (hno i s hs).elim
  · exact fun ⟨s, hs, _⟩ => (hno _ s hs).elim

/-! ## Markers -/

/-- the connection that the notes `n` are about has the token, and no other connection has; `n` are notes of the past -/
structure Tracks (i : ι) (id : ConnectionId) (n : Notes) (token : ℕ) (o : Noted ι P) : Prop where
  mine : ∀ j id' c, o.Entry j id' c → c.sendProgress.connectionToken = token → j = i ∧ id' = id ∧ o.Retained i id n.made
  theirs : ∀ c k, o.Entry i id c → o.notes i id = some k → k.made = n.made →
    c.sendProgress.connectionToken = token ∧ n.accepted ≤ k.accepted ∧ n.passed ≤ k.passed
  below : token < o.process.nextConnectionToken
  before : n.made < o.time

omit [DecidableEq ι] in
theorem Inv.tracks (h : o.Inv) (he : o.Entry i id c) (hn : o.notes i id = some n) :
    Tracks i id n c.sendProgress.connectionToken o := by
  obtain ⟨n0, hn0, hlt, -⟩ := h.noted i id c he
  rw [hn, Option.some.injEq] at hn0
  refine ⟨fun j id' c' he' htok => ?_, fun c' k he' hk _ => ?_, h.drawn i id c he, hn0 ▸ hlt⟩
  · obtain ⟨rfl, rfl⟩ := h.unique he' he htok
    exact ⟨rfl, rfl, n, hn, rfl⟩
  · obtain ⟨s, hs, hl⟩ := he
    have hl' := (entry_of_stack hs).1 he'
    rw [hl, Option.some.injEq] at hl'
    rw [hn, Option.some.injEq] at hk
    rw [hl', hk]
    exact ⟨rfl, le_rfl, le_rfl⟩

/-- **Preservation, one operation.** -/
theorem Tracks.step {token : ℕ} (ht : Tracks i id n token o) (h : o.Inv) (op : ProcessOp ι P) : Tracks i id n token (o.step op) := by
  refine ⟨fun j id' c' he htok => ?_, fun c' k he hk hmade => ?_, ht.below.trans_le (h.token_mono op), Nat.lt_succ_of_lt ht.before⟩
  · obtain ⟨k, hk, -, -, horigin⟩ := h.origin he
    cases horigin with
    | kept c k0 he0 hk0 hmade htoken =>
      obtain ⟨rfl, rfl, k1, hk1, hmade1⟩ := ht.mine j id' c he0 (htoken.symm.trans htok)
      rw [hk0, Option.some.injEq] at hk1
      exact ⟨rfl, rfl, k, hk, by rw [hmade, hk1, hmade1]⟩
    | made _ _ _ _ _ _ htoken =>
      -- a token that was drawn later
      have hlt := ht.below
      rw [← htok, htoken] at hlt
      exact absurd hlt (Nat.lt_irrefl _)
  · obtain ⟨k', hk', -, -, horigin⟩ := h.origin he
    rw [hk, Option.some.injEq] at hk'
    subst hk'
    cases horigin with
    | kept c k0 he0 hk0 hmade0 htoken haccepted hpassed =>
      obtain ⟨h1, h2, h3⟩ := ht.theirs c k0 he0 hk0 (hmade0.symm.trans hmade)
      exact ⟨htoken.trans h1, h2.trans haccepted, h3.trans hpassed⟩
    | made _ _ _ _ _ hmade0 =>
      have hlt := ht.before
      rw [← hmade, hmade0] at hlt
      exact absurd hlt (Nat.lt_irrefl _)

theorem Tracks.run {token : ℕ} (ht : Tracks i id n token o) (h : o.Inv) (ops : List (ProcessOp ι P)) :
    Tracks i id n token (o.run ops) ∧ (o.run ops).Inv :=
  Run.exec_invariant (P := fun o => Tracks i id n token o ∧ o.Inv) (fun _ op ⟨h1, h2⟩ => ⟨h1.step h2 op, h2.step op⟩) ⟨ht, h⟩ ops

/-- the marker that was handed out when the notes were `n` -/
structure Marks (id : ConnectionId) (n : Notes) (token : ℕ) (m : SendMarker) : Prop where
  id : m.connectionId = id
  token : m.connectionToken = token
  accepted : m.acceptedPayloadBytes = n.accepted

section Marked

variable {token : ℕ} {m : SendMarker} (hm : Marks id n token m)
include hm

omit [DecidableEq ι] in
/-- while its connection is retained -/
theorem Tracks.status (ht : Tracks i id n token o) (h : o.Inv) (hk : o.notes i id = some n') (hmade : n'.made = n.made)
    (hs : o.process.stack i = some s) :
    s.markerStatus m = if ∀ b < n.accepted, b + 1 < n'.passed then .acked else .pending := by
  obtain ⟨c, he⟩ := h.retained i id n' hk
  have hl := (entry_of_stack hs).1 he
  obtain ⟨htok, hle, -⟩ := ht.theirs c n' he hk hmade
  obtain ⟨n0, hn0, -, hacc, hpassed⟩ := h.noted i id c he
  rw [hk, Option.some.injEq] at hn0
  subst hn0
  obtain ⟨isn, acc, hinv⟩ := ((h.genuine i s hs).reachable id c hl).inv s.config.valid
  have hiff := hinv.send.acked_iff (hle.trans hacc.le)
  rw [← hpassed] at hiff
  have hstatus : s.markerStatus m = c.sendProgress.status m := by
    unfold Stack.markerStatus
    rw [hm.id, hl]
  rw [hstatus, SendProgress.status, if_neg (not_not.2 (hm.token.trans htok.symm)), hm.accepted]
  exact if_congr hiff rfl rfl

omit [DecidableEq ι] in
/-- when its connection is not in the stack -/
theorem Tracks.gone (ht : Tracks i id n token o) (hs : o.process.stack j = some s) (hno : j ≠ i ∨ ¬ o.Retained i id n.made) :
    s.markerStatus m = .connectionGone := by
  unfold Stack.markerStatus
  cases hl : s.connections.lookup m.connectionId with
  | none => rfl
  | some c =>
    have htok : m.connectionToken ≠ c.sendProgress.connectionToken := fun htok => by
      obtain ⟨hj, -, hret⟩ := ht.mine j m.connectionId c ((entry_of_stack hs).2 hl) (htok.symm.trans hm.token)
      exact hno.elim (fun h => h hj) fun h => h hret
    simp only [SendProgress.status, if_pos htok]

end Marked

/-- a connection that is gone stays gone -/
theorem Inv.retained_back (h : o.Inv) {made : ℕ} (hlt : made < o.time) (hr : (o.step op).Retained i id made) : o.Retained i id made := by
  obtain ⟨n', hn', hmade'⟩ := hr
  obtain ⟨c', he⟩ := (h.step op).retained i id n' hn'
  obtain ⟨k, hk, -, -, horigin⟩ := h.origin he
  rw [hn', Option.some.injEq] at hk
  subst hk
  cases horigin with
  | kept c n he0 hn hmade => exact ⟨n, hn, hmade.symm.trans hmade'⟩
  | made _ _ _ _ _ hmade =>
    rw [← hmade', hmade] at hlt
    exact absurd hlt (Nat.lt_irrefl _)

theorem Inv.retained_run (h : o.Inv) {made : ℕ} (hlt : made < o.time) (hno : ¬ o.Retained i id made) (ops : List (ProcessOp ι P)) :
    ¬ (o.run ops).Retained i id made :=
  (Run.exec_invariant (P := fun o : Noted ι P => o.Inv ∧ made < o.time ∧ ¬ o.Retained i id made)
    (fun _ op ⟨h1, h2, h3⟩ => ⟨h1.step op, Nat.lt_succ_of_lt h2, fun h => h3 (h1.retained_back h2 h)⟩) ⟨h, hlt, hno⟩ ops).2.2

/-- what a write hands out -/
theorem Inv.marks (h : o.Inv) (hs : o.process.stack i = some s) {bytes : List U8} {nowMs count : ℕ} {m : SendMarker}
    (hw : (s.writeWithMarker id bytes nowMs).2 = .ok (count, m)) :
    ∃ c n, (o.step (.perform i (.write id bytes nowMs))).Entry i id c ∧
      (o.step (.perform i (.write id bytes nowMs))).notes i id = some n ∧ Marks id n c.sendProgress.connectionToken m := by
  have hsound := (h.genuine i s hs).sound
  cases hl : s.connections.lookup id with
  | none =>
    simp only [Stack.writeWithMarker, hl] at hw
    cases hw
  | some c =>
    rcases hc : c.write bytes nowMs s.config.1 with e | ⟨c', count', out⟩
    · simp only [Stack.writeWithMarker, hl, hc] at hw
      cases hw
    · have heq := Stack.writeWithMarker_eq hl (hsound id c hl) hc
      rw [heq] at hw
      cases hw
      have he : (o.step (.perform i (.write id bytes nowMs))).Entry i id c' := by
        refine (entry_of_stack (stack_perform hs)).2 ?_
        simp only [Stack.perform, heq]
        exact Stack.lookup_setConnection s id c'
      obtain ⟨n, hn, -, hacc, -⟩ := (h.step _).noted i id c' he
      exact ⟨c', n, he, hn, rfl, rfl, hacc.symm⟩

/-- the status never goes back -/
theorem Inv.rank_mono (h : o.Inv) {token : ℕ} {m : SendMarker} (hm : Marks id n token m) (ht : Tracks i id n token o)
    (hs : o.process.stack j = some s) (ops : List (ProcessOp ι P)) (hs' : (o.run ops).process.stack j = some t) :
    (s.markerStatus m).rank ≤ (t.markerStatus m).rank := by
  obtain ⟨ht', h'⟩ := ht.run h ops
  have htop : ∀ x : MarkerStatus, x.rank ≤ MarkerStatus.connectionGone.rank := fun x => by cases x <;> decide
  by_cases hret' : j = i ∧ (o.run ops).Retained i id n.made
  case neg =>
    rw [ht'.gone hm hs' (not_and_or.1 hret')]
    exact htop _
  case pos =>
    obtain ⟨rfl, hret'⟩ := hret'
    have hret : o.Retained j id n.made := by
      by_contra hno
      exact h.retained_run ht.before hno ops hret'
    obtain ⟨k', hk', hmade'⟩ := hret'
    obtain ⟨k, hk, hmade⟩ := hret
    rw [ht.status hm h hk hmade hs, ht'.status hm h' hk' hmade' hs']
    split_ifs with h1 h2
    · exact le_rfl
    · -- the notes have only grown
      obtain ⟨c, he⟩ := h.retained j id k hk
      obtain ⟨c', he'⟩ := h'.retained j id k' hk'
      have htrack := ((h.tracks he hk).run h ops).1
      have hle := (htrack.theirs c' k' he' hk' (hmade'.trans hmade.symm)).2.2
      exact absurd (fun b hb => (h1 b hb).trans_le hle) h2
    · exact Nat.zero_le _
    · exact le_rfl

end Noted

/-- **The life of a marker.** While its connection is retained a marker is acknowledged if every byte accepted up to its write
lies before `send_una` (byte `b` has position `b + 1`, after the SYN), else pending; in every other stack, and in its own from
the removal of the connection on, the connection is gone; and the status never goes back. -/
theorem marker_lifecycle {ι P : Type} [DecidableEq ι] [DecidableEq P] (token : ℕ) (before : List (ProcessOp ι P)) (i : ι)
    (id : ConnectionId) (bytes : List U8) (nowMs count : ℕ) (m : SendMarker) (s : Stack P)
    (hs : ((Noted.new token).run before).process.stack i = some s)
    (hw : (s.writeWithMarker id bytes nowMs).2 = .ok (count, m)) :
    let o := ((Noted.new token).run before).step (.perform i (.write id bytes nowMs))
    ∃ n, o.notes i id = some n ∧ ∀ later : List (ProcessOp ι P),
      (∀ k t, (o.run later).notes i id = some k → k.made = n.made → (o.run later).process.stack i = some t →
        t.markerStatus m = if ∀ b < n.accepted, b + 1 < k.passed then .acked else .pending) ∧
      (∀ j t, j ≠ i → (o.run later).process.stack j = some t → t.markerStatus m = .connectionGone) ∧
      (¬ (o.run later).Retained i id n.made → ∀ more j t, (o.run (later ++ more)).process.stack j = some t →
        t.markerStatus m = .connectionGone) ∧
      (∀ more j t t', (o.run later).process.stack j = some t → (o.run (later ++ more)).process.stack j = some t' →
        (t.markerStatus m).rank ≤ (t'.markerStatus m).rank) := by
  intro o
  have h0 := Noted.inv_run token before
  obtain ⟨c, n, he, hn, hm⟩ := h0.marks hs hw
  have hinv : o.Inv := h0.step _
  have htracks := hinv.tracks he hn
  refine ⟨n, hn, fun later => ?_⟩
  obtain ⟨ht, h⟩ := htracks.run hinv later
  refine ⟨fun k t hk hmade hst => ht.status hm h hk hmade hst, fun j t hj hst => ht.gone hm hst (.inl hj), fun hno more j t hst => ?_,
    fun more j t t' hst hst' => ?_⟩
  · have hrun : o.run (later ++ more) = (o.run later).run more := Run.exec_append _ _ _
    rw [hrun] at hst
    exact (ht.run h more).1.gone hm hst (.inr (h.retained_run ht.before hno more))
  · have hrun : o.run (later ++ more) = (o.run later).run more := Run.exec_append _ _ _
    rw [hrun] at hst'
    exact h.rank_mono hm ht hst more hst'

/-- one stack that listens, and a handshake -/
def markedProcess : List (ProcessOp Unit ℕ) :=
  [.create () ⟨Config.default, by decide⟩ 5, .perform () (.listen 443),
    .perform () (.input 7 [195, 80, 1, 187, 0, 0, 0, 100, 0, 0, 0, 0, 112, 2, 255, 255, 0, 0, 0, 0, 2, 4, 4, 0, 254, 4, 1, 0] 0),
    .perform () (.input 7 [195, 80, 1, 187, 0, 0, 0, 101, 66, 138, 161, 69, 80, 16, 255, 255, 0, 0, 0, 0] 0)]

/-- the ACK of the first of two bytes -/
def firstByteAcked : ProcessOp Unit ℕ :=
  .perform () (.input 7 [195, 80, 1, 187, 0, 0, 0, 101, 66, 138, 161, 70, 80, 16, 255, 255, 0, 0, 0, 0] 0)

/-- the ACK of both -/
def bothBytesAcked : ProcessOp Unit ℕ :=
  .perform () (.input 7 [195, 80, 1, 187, 0, 0, 0, 101, 66, 138, 161, 71, 80, 16, 255, 255, 0, 0, 0, 0] 0)

theorem marker_lifecycle_two :
    let o := ((Noted.new 1).run markedProcess).step (.perform () (.write ⟨1⟩ [1, 2] 0))
    ((o.run [firstByteAcked]).process.stack ()).map (fun t => t.markerStatus ⟨⟨1⟩, 1, 2⟩) = some .pending ∧
      ((o.run [firstByteAcked, bothBytesAcked]).process.stack ()).map (fun t => t.markerStatus ⟨⟨1⟩, 1, 2⟩) = some .acked := by
  intro o
  obtain ⟨s, hs⟩ : ∃ s, ((Noted.new 1).run markedProcess).process.stack () = some s :=
    Option.isSome_iff_exists.1 (by decide)
  have hw : (s.writeWithMarker ⟨1⟩ [1, 2] 0).2 = .ok (2, ⟨⟨1⟩, 1, 2⟩) := by
    cases hs
    rfl
  obtain ⟨n, hn, h⟩ := marker_lifecycle 1 markedProcess () ⟨1⟩ [1, 2] 0 2 ⟨⟨1⟩, 1, 2⟩ s hs hw
  have hn' : n = ⟨2, 2, 1⟩ := Option.some.inj (hn.symm.trans (by decide : o.notes () ⟨1⟩ = some ⟨2, 2, 1⟩))
  subst hn'
  have hstatus : ∀ (later : List (ProcessOp Unit ℕ)) (k : Notes), (o.run later).notes () ⟨1⟩ = some k → k.made = 2 →
      ((o.run later).process.stack ()).isSome = true →
      ((o.run later).process.stack ()).map (fun t => t.markerStatus ⟨⟨1⟩, 1, 2⟩) =
        some (if ∀ b < (2 : ℕ), b + 1 < k.passed then .acked else .pending) := fun later k hk hmade hsome => by
    obtain ⟨t, ht⟩ := Option.isSome_iff_exists.1 hsome
    rw [ht]
    exact congrArg some ((h later).1 k t hk hmade ht)
  exact ⟨hstatus [firstByteAcked] ⟨2, 2, 2⟩ (by decide) rfl (by decide),
    hstatus [firstByteAcked, bothBytesAcked] ⟨2, 2, 3⟩ (by decide) rfl (by decide)⟩

end FipsTcp
