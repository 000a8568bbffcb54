/-
What `accept` returns over a whole run.

`Observed` is a stack with the history of its server connections: which connections were made by a segment, when their
handshakes completed, when each port was last closed, and what `accept` returned. `Served` is the invariant: every queue holds
connections with complete handshakes, in the order of completion, later than all that was returned for its port; and nothing
is lost from a queue but by `accept` and `close_listener`.
- `Known.step`, `Served.step`: every operation keeps it;
- `accept_exactly_once`: what it says about the calls of `accept`.
-/
import FipsTcp.Stack.Queues

namespace FipsTcp

open Table Connection

namespace Stack

instance {P : Type} [DecidableEq P] (s s' : Stack P) (id : ConnectionId) : Decidable (s.Completes s' id) := by
  unfold Completes
  infer_instance

end Stack

/-- a stack with the history of its server connections -/
structure Observed (P : Type) [DecidableEq P] where
  stack : Stack P
  /-- the number of operations so far -/
  time : ℕ
  /-- made for a segment, not by a call -/
  passive : ConnectionId → Bool
  /-- when the handshake of a server connection completed -/
  completed : ConnectionId → Option ℕ
  /-- when `close_listener` was last called for a port -/
  closedAt : U16 → ℕ
  /-- what `accept` returned for which port, in order -/
  returned : List (U16 × ConnectionId)

namespace Observed

variable {P : Type} [DecidableEq P] {o : Observed P} {token : ℕ} {id : ConnectionId} {port : U16}

def start (config : ValidConfig) (isnSeed : BitVec 64) (token : ℕ) : Observed P :=
  ⟨.new config isnSeed token, 0, fun _ => false, fun _ => none, fun _ => 0, []⟩

/-- a segment comes in -/
def isInput : StackOp P → Bool
  | .input _ _ _ => true
  | _ => false

def step (o : Observed P) (op : StackOp P) : Observed P where
  stack := (o.stack.perform op).1
  time := o.time + 1
  passive :=
    if (o.stack.perform op).1.nextConnectionToken = o.stack.nextConnectionToken then o.passive
    else Function.update o.passive o.stack.nextId (isInput op)
  completed := fun id => if o.stack.Completes (o.stack.perform op).1 id then some (o.time + 1) else o.completed id
  closedAt :=
    match op with
    | .closeListener port => Function.update o.closedAt port (o.time + 1)
    | _ => o.closedAt
  returned :=
    match op with
    | .accept port => o.returned ++ ((o.stack.accept port).2.map fun id => (port, id)).toList
    | _ => o.returned

abbrev run (config : ValidConfig) (isnSeed : BitVec 64) (token : ℕ) (ops : List (StackOp P)) : Observed P :=
  Run.exec step (start config isnSeed token) ops

/-- the history only watches its stack -/
theorem run_stack (config : ValidConfig) (isnSeed : BitVec 64) (token : ℕ) (ops : List (StackOp P)) :
    (run config isnSeed token ops).stack = Stack.run config isnSeed token ops := by
  have h : ∀ o : Observed P, (Run.exec step o ops).stack = Run.exec (fun s op => (s.perform op).1) o.stack ops := by
    induction ops with
    | nil => exact fun _ => rfl
    | cons op ops ih => exact fun o => ih (o.step op)
  exact h _

/-! ## Whose handshake is complete -/

/-- a handshake completed before another -/
def Before (o : Observed P) (x y : ConnectionId) : Prop :=
  ∃ t t', o.completed x = some t ∧ o.completed y = some t' ∧ t < t'

/-- what is known of the connections -/
structure Known (token : ℕ) (o : Observed P) : Prop where
  sound : o.stack.view.Ok
  table : o.stack.view.Inv token
  waiting : ∀ id c, o.stack.connections.lookup id = some c → c.state = .synReceived →
    o.passive id = true ∧ o.completed id = none
  past : ∀ id c, o.stack.connections.lookup id = some c → o.passive id = true → c.state ≠ .synReceived → o.completed id ≠ none
  origin : ∀ id t, o.completed id = some t →
    o.passive id = true ∧ t ≤ o.time ∧ id.raw ≤ o.stack.nextConnectionToken - token

/-- a connection that is in its handshake, or was not there, does not complete -/
theorem completed_still {op : StackOp P} (hstill : (o.step op).stack.state id = some .synReceived ∨ o.stack.connections.lookup id = none) :
    (o.step op).completed id = o.completed id := by
  refine if_neg fun hnow => ?_
  rcases hstill with hst | hl
  · exact hnow.2.1 hst
  · rw [Stack.Completes, Stack.state, hl] at hnow
    cases hnow.1

section Step

variable (h : o.Known token) {op : StackOp P} (hb : (o.step op).stack.nextConnectionToken < token + 2 ^ 64)
include h

/-- what completed stays so -/
theorem Known.completed_step {t : ℕ} (hc : o.completed id = some t) : (o.step op).completed id = some t := by
  refine (if_neg fun hnow => ?_).trans hc
  obtain ⟨c, hl, hst⟩ := Option.map_eq_some_iff.1 hnow.1
  rw [(h.waiting id c hl hst).2] at hc
  cases hc

include hb

/-- a connection is made under an id that was never given out -/
theorem Known.unused (hmade : (o.step op).stack.nextConnectionToken ≠ o.stack.nextConnectionToken)
    (hid : id.raw ≤ o.stack.nextConnectionToken - token) : id ≠ o.stack.nextId := by
  refine h.table.unused ?_ hid
  cases Stack.perform_entries h.sound op with
  | follow _ htoken => exact absurd htoken hmade
  | create _ _ _ _ htoken => exact lt_of_eq_of_lt htoken.symm hb

theorem Known.fresh (hmade : (o.step op).stack.nextConnectionToken ≠ o.stack.nextConnectionToken) : o.stack.FreshId :=
  Finmap.lookup_eq_none.2 fun hmem => h.unused hb hmade (h.table.used _ hmem) rfl

/-- a connection with a complete handshake was there before -/
theorem Known.carried {t : ℕ} (hc : o.completed id = some t) {c' : Connection P}
    (hl' : (o.step op).stack.connections.lookup id = some c') :
    ∃ c, o.stack.connections.lookup id = some c ∧ c'.localPort = c.localPort := by
  rcases Stack.perform_carries h.sound op hl' with ⟨c, hl, hkey, -⟩ | ⟨rfl, htoken⟩
  · exact ⟨c, hl, congrArg ConnectionKey.localPort hkey⟩
  · exact absurd rfl (h.unused hb (by rw [show (o.step op).stack.nextConnectionToken = _ from htoken]; omega) (h.origin _ t hc).2.2)

/-- the origin of a connection does not change -/
theorem Known.passive_step (hid : id.raw ≤ o.stack.nextConnectionToken - token) : (o.step op).passive id = o.passive id := by
  by_cases hmade : (o.step op).stack.nextConnectionToken = o.stack.nextConnectionToken
  · exact congrFun (if_pos hmade) id
  · exact (congrFun (if_neg hmade) id).trans (Function.update_of_ne (h.unused hb hmade hid) _ _)

/-- a connection that was made has its handshake before it, if it was made by a segment -/
theorem Known.made {c' : Connection P} (hl' : (o.step op).stack.connections.lookup o.stack.nextId = some c')
    (htoken : (o.step op).stack.nextConnectionToken = o.stack.nextConnectionToken + 1) :
    (o.step op).completed o.stack.nextId = none ∧ ((o.step op).passive o.stack.nextId = true ↔ c'.state = .synReceived) := by
  have hne : (o.step op).stack.nextConnectionToken ≠ o.stack.nextConnectionToken := by omega
  refine ⟨(completed_still (.inr (h.fresh hb hne))).trans ?_, ?_⟩
  · refine Option.eq_none_iff_forall_ne_some.2 fun t ht => ?_
    exact h.unused hb hne (h.origin _ t ht).2.2 rfl
  · have hpassive : (o.step op).passive o.stack.nextId = isInput op :=
      (congrFun (if_neg hne) _).trans (Function.update_self _ _ _)
    have hstate : (o.step op).stack.state o.stack.nextId = some c'.state := by rw [Stack.state, hl', Option.map_some]
    rw [hpassive]
    rcases Stack.perform_made h.sound op hne with ⟨⟨peer, bytes, t, rfl⟩, hst⟩ | ⟨hop, hst⟩ <;>
      rw [show (o.step _).stack.state _ = _ from hst, Option.some.injEq] at hstate
    · exact iff_of_true rfl hstate.symm
    · refine iff_of_false (fun hin => ?_) fun he => by rw [he] at hstate; cases hstate
      cases op with
      | input peer bytes t => exact hop peer bytes t rfl
      | _ => cases hin

/-- **Preservation, one operation.** -/
theorem Known.step : (o.step op).Known token := by
  have hchange := (Stack.perform_change h.sound op).1
  have hcursor : o.stack.nextConnectionToken ≤ (o.step op).stack.nextConnectionToken := hchange.cursors.1
  refine ⟨hchange.ok h.sound, h.table.change hchange hb, fun id c' hl' hst => ?_, fun id c' hl' hpassive hst => ?_,
    fun id t ht => ?_⟩
  · rcases Stack.perform_carries h.sound op hl' with ⟨c, hl, -, hback⟩ | ⟨hid, htoken⟩
    · obtain ⟨h1, h2⟩ := h.waiting id c hl (hback hst)
      rw [h.passive_step hb (h.table.used id (Finmap.mem_of_lookup_eq_some hl)),
        completed_still (.inl (by rw [Stack.state, hl', Option.map_some, hst]))]
      exact ⟨h1, h2⟩
    · subst hid
      obtain ⟨h1, h2⟩ := h.made hb hl' htoken
      exact ⟨h2.2 hst, h1⟩
  · rcases Stack.perform_carries h.sound op hl' with ⟨c, hl, -, -⟩ | ⟨hid, htoken⟩
    · rw [h.passive_step hb (h.table.used id (Finmap.mem_of_lookup_eq_some hl))] at hpassive
      by_cases hwas : c.state = .synReceived
      · have hnow : o.stack.Completes (o.stack.perform op).1 id := by
          refine ⟨by rw [Stack.state, hl, Option.map_some, hwas], ?_, Finmap.mem_of_lookup_eq_some hl'⟩
          rw [Stack.state, show (o.stack.perform op).1.connections.lookup id = _ from hl', Option.map_some]
          exact fun he => hst (Option.some.inj he)
        rw [show (o.step op).completed id = _ from if_pos hnow]
        exact Option.some_ne_none _
      · obtain ⟨t, ht⟩ := Option.ne_none_iff_exists'.1 (h.past id c hl hpassive hwas)
        rw [h.completed_step ht]
        exact Option.some_ne_none _
    · subst hid
      exact absurd ((h.made hb hl' htoken).2.1 hpassive) hst
  · by_cases hnow : o.stack.Completes (o.stack.perform op).1 id
    · obtain ⟨c, hl, hst⟩ := Option.map_eq_some_iff.1 hnow.1
      have hused := h.table.used id (Finmap.mem_of_lookup_eq_some hl)
      rw [show (o.step op).completed id = _ from if_pos hnow, Option.some.injEq] at ht
      rw [h.passive_step hb hused]
      exact ⟨(h.waiting id c hl hst).1, ht.ge, hused.trans (Nat.sub_le_sub_right hcursor _)⟩
    · rw [show (o.step op).completed id = _ from if_neg hnow] at ht
      obtain ⟨h1, h2, h3⟩ := h.origin id t ht
      rw [h.passive_step hb h3]
      exact ⟨h1, h2.trans (Nat.le_succ _), h3.trans (Nat.sub_le_sub_right hcursor _)⟩

end Step

/-! ## What is queued and returned -/

/-- what is queued and what was returned -/
structure Served (o : Observed P) : Prop where
  closed : ∀ port, o.closedAt port ≤ o.time
  /-- a queue is in the order of completion, after the last time its port was closed -/
  sorted : ∀ port q, o.stack.accepts.lookup port = some q → q.Pairwise o.Before
  queued : ∀ port q, o.stack.accepts.lookup port = some q → ∀ id ∈ q, ∃ t, o.completed id = some t ∧ o.closedAt port < t
  /-- what is queued for a port is a connection of that port, later than all that was returned for it -/
  ported : ∀ port q, o.stack.accepts.lookup port = some q → ∀ id ∈ q, ∀ c, o.stack.connections.lookup id = some c →
    c.localPort = port ∧ ∀ p, (p, id) ∉ o.returned
  later : ∀ port q, o.stack.accepts.lookup port = some q → ∀ id ∈ q, ∀ x, (port, x) ∈ o.returned → o.Before x id
  /-- nothing is lost -/
  kept : ∀ id c t, o.stack.connections.lookup id = some c → o.completed id = some t → o.closedAt c.localPort < t →
    (∀ p, (p, id) ∉ o.returned) → ∃ q, o.stack.accepts.lookup c.localPort = some q ∧ id ∈ q
  done : ∀ x ∈ o.returned, ∃ t, o.completed x.2 = some t
  once : (o.returned.map Prod.snd).Nodup
  inOrder : o.returned.Pairwise fun x y => x.1 = y.1 → o.Before x.2 y.2

theorem Before.irrefl (x : ConnectionId) : ¬ o.Before x x := by
  rintro ⟨t, t', h1, h2, hlt⟩
  rw [h1, Option.some.injEq] at h2
  exact Nat.ne_of_lt hlt h2

/-- what an operation leaves of the history -/
structure Follows (o o' : Observed P) : Prop where
  time : o.time ≤ o'.time
  keep : ∀ id t, o.completed id = some t → o'.completed id = some t
  carried : ∀ id t c', o.completed id = some t → o'.stack.connections.lookup id = some c' →
    ∃ c, o.stack.connections.lookup id = some c ∧ c'.localPort = c.localPort

theorem Follows.before {o' : Observed P} (hf : o.Follows o') {x y : ConnectionId} (hxy : o.Before x y) : o'.Before x y := by
  obtain ⟨t, t', hx, hy, hlt⟩ := hxy
  exact ⟨t, t', hf.keep _ _ hx, hf.keep _ _ hy, hlt⟩

theorem Known.follows (hk : o.Known token) {op : StackOp P} (hb : (o.step op).stack.nextConnectionToken < token + 2 ^ 64) :
    o.Follows (o.step op) :=
  ⟨Nat.le_succ _, fun _ _ hc => hk.completed_step hc, fun _ _ _ hc hl' => hk.carried hb hc hl'⟩

section Served

variable {o' : Observed P} (h : o.Served) (hf : o.Follows o')
include h hf

/-- what was returned stays as it was -/
theorem Served.answered (hreturned : o'.returned = o.returned) :
    (∀ x ∈ o'.returned, ∃ t, o'.completed x.2 = some t) ∧ (o'.returned.map Prod.snd).Nodup ∧
      o'.returned.Pairwise fun x y => x.1 = y.1 → o'.Before x.2 y.2 := by
  rw [hreturned]
  refine ⟨fun x hx => ?_, h.once, h.inOrder.imp fun hxy heq => hf.before (hxy heq)⟩
  obtain ⟨t, hc⟩ := h.done x hx
  exact ⟨t, hf.keep _ _ hc⟩

/-- what was returned, with a queued connection after it -/
theorem Served.answers (hreturned : o'.returned = o.returned ++ [(port, id)]) {q : List ConnectionId}
    (hq : o.stack.accepts.lookup port = some q) (hin : id ∈ q) (hnew : ∀ p, (p, id) ∉ o.returned) :
    (∀ x ∈ o'.returned, ∃ t, o'.completed x.2 = some t) ∧ (o'.returned.map Prod.snd).Nodup ∧
      o'.returned.Pairwise fun x y => x.1 = y.1 → o'.Before x.2 y.2 := by
  rw [hreturned]
  refine ⟨fun x hx => ?_, ?_, ?_⟩
  · rcases List.mem_append.1 hx with hx | hx
    · obtain ⟨t, hc⟩ := h.done x hx
      exact ⟨t, hf.keep _ _ hc⟩
    · obtain ⟨t, hc, -⟩ := h.queued port q hq id hin
      rw [List.mem_singleton.1 hx]
      exact ⟨t, hf.keep _ _ hc⟩
  · rw [List.map_append]
    refine List.nodup_append.2 ⟨h.once, List.nodup_singleton _, fun i hi j hj hij => ?_⟩
    obtain ⟨⟨p, i'⟩, hmem, rfl⟩ := List.mem_map.1 hi
    have hj' : j = id := List.mem_singleton.1 hj
    exact hnew p (by rw [← hj', ← hij]; exact hmem)
  · refine List.pairwise_append.2 ⟨h.inOrder.imp fun hxy heq => hf.before (hxy heq), List.pairwise_singleton _ _,
      fun x hx y hy heq => ?_⟩
    have hy' : y = (port, id) := List.mem_singleton.1 hy
    rw [hy'] at heq ⊢
    exact hf.before (h.later port q hq id hin x.2 ((Prod.ext heq rfl : x = (port, x.2)) ▸ hx))

/-- queues that only lose what is closed, while no handshake completes -/
theorem Served.still (hcompleted : o'.completed = o.completed) (hreturned : o'.returned = o.returned)
    (hclosed : ∀ port, o'.closedAt port = o.closedAt port ∨
      o'.stack.accepts.lookup port = none ∧ o.time < o'.closedAt port ∧ o'.closedAt port ≤ o'.time)
    (hold : ∀ port q, o'.stack.accepts.lookup port = some q → q = [] ∨ o.stack.accepts.lookup port = some q)
    (hnew : ∀ port q, o.stack.accepts.lookup port = some q → ∀ id ∈ q, id ∈ o.stack.connections →
      (∃ q, o'.stack.accepts.lookup port = some q ∧ id ∈ q) ∨ o.time < o'.closedAt port) (hk : o.Known token) : o'.Served := by
  have hmem : ∀ {port q id}, o'.stack.accepts.lookup port = some q → id ∈ q → o.stack.accepts.lookup port = some q :=
    fun {port q id} hq hid => (hold port q hq).resolve_left fun hnil => by rw [hnil] at hid; cases hid
  refine ⟨fun port => ?_, fun port q hq => ?_, fun port q hq id hid => ?_, fun port q hq id hid c' hl' => ?_,
    fun port q hq id hid x hx => ?_, fun id c' t hl' hc hlt hnot => ?_,
    (h.answered hf hreturned).1, (h.answered hf hreturned).2.1, (h.answered hf hreturned).2.2⟩
  · rcases hclosed port with heq | ⟨-, -, hle⟩
    · rw [heq]
      exact (h.closed port).trans hf.time
    · exact hle
  · rcases hold port q hq with rfl | hq0
    · exact List.Pairwise.nil
    · exact (h.sorted port q hq0).imp hf.before
  · obtain ⟨t, hc, hlt⟩ := h.queued port q (hmem hq hid) id hid
    rcases hclosed port with heq | ⟨hnone, -⟩
    · exact ⟨t, by rw [hcompleted]; exact hc, by rw [heq]; exact hlt⟩
    · rw [hnone] at hq
      cases hq
  · obtain ⟨t, hc, -⟩ := h.queued port q (hmem hq hid) id hid
    obtain ⟨c, hl, hport⟩ := hf.carried id t c' hc hl'
    rw [hport, hreturned]
    exact h.ported port q (hmem hq hid) id hid c hl
  · rw [hreturned] at hx
    exact hf.before (h.later port q (hmem hq hid) id hid x hx)
  · rw [hcompleted] at hc
    obtain ⟨c, hl, hport⟩ := hf.carried id t c' hc hl'
    have hle := (hk.origin id t hc).2.1
    rw [hreturned] at hnot
    rcases hclosed c'.localPort with heq | ⟨-, hlt', -⟩
    · rw [heq, hport] at hlt
      obtain ⟨q, hq, hid⟩ := h.kept id c t hl hc hlt hnot
      rw [hport]
      rcases hnew c.localPort q hq id hid (Finmap.mem_of_lookup_eq_some hl) with hq' | hlt''
      · exact hq'
      · rw [hport] at heq
        have := h.closed c.localPort
        omega
    · omega

/-- a connection whose handshake completes goes to the end of its queue -/
theorem Served.push {id : ConnectionId} (c' : Connection P) (hwas : o.completed id = none) (htime : o'.time = o.time + 1)
    (hcompleted : ∀ i, o'.completed i = if i = id then some o'.time else o.completed i) (hreturned : o'.returned = o.returned)
    (hclosed : o'.closedAt = o.closedAt) (hl : o'.stack.connections.lookup id = some c')
    (hq : o'.stack.accepts =
      o.stack.accepts.insert c'.localPort ((o.stack.accepts.lookup c'.localPort).getD [] ++ [id]))
    (hk : o.Known token) : o'.Served := by
  have hself : o'.completed id = some o'.time := (hcompleted id).trans (if_pos rfl)
  have hfirst : ∀ {x t}, o.completed x = some t → o'.Before x id := fun {x t} hx =>
    ⟨t, o'.time, hf.keep x t hx, hself, by have := (hk.origin x t hx).2.1; omega⟩
  -- an entry is the new one, or it was there
  have hmem : ∀ {port q i}, o'.stack.accepts.lookup port = some q → i ∈ q →
      (∃ q0, o.stack.accepts.lookup port = some q0 ∧ i ∈ q0) ∨ i = id ∧ port = c'.localPort := by
    intro port q i hq' hi
    rw [hq] at hq'
    by_cases hport : port = c'.localPort
    · rw [hport, Finmap.lookup_insert, Option.some.injEq] at hq'
      rw [← hq', List.mem_append, List.mem_singleton] at hi
      rw [hport]
      refine hi.imp (fun hi => ?_) fun hi => ⟨hi, rfl⟩
      cases hl0 : o.stack.accepts.lookup c'.localPort with
      | none => rw [hl0] at hi; cases hi
      | some q0 => rw [hl0] at hi; exact ⟨q0, rfl, hi⟩
    · rw [Finmap.lookup_insert_of_ne _ hport] at hq'
      exact .inl ⟨q, hq', hi⟩
  refine ⟨fun port => ?_, fun port q hq' => ?_, fun port q hq' i hi => ?_, fun port q hq' i hi x hl' => ?_,
    fun port q hq' i hi x hx => ?_, fun i x t hl' hc hlt hnot => ?_,
    (h.answered hf hreturned).1, (h.answered hf hreturned).2.1, (h.answered hf hreturned).2.2⟩
  · rw [hclosed]
    exact (h.closed port).trans hf.time
  · rw [hq] at hq'
    by_cases hport : port = c'.localPort
    · rw [hport, Finmap.lookup_insert, Option.some.injEq] at hq'
      rw [← hq']
      cases hl0 : o.stack.accepts.lookup c'.localPort with
      | none => exact List.pairwise_singleton _ _
      | some q0 =>
        refine List.pairwise_append.2 ⟨(h.sorted _ q0 hl0).imp hf.before, List.pairwise_singleton _ _, fun x hx y hy => ?_⟩
        obtain ⟨t, hc, -⟩ := h.queued _ q0 hl0 x hx
        rw [List.mem_singleton.1 hy]
        exact hfirst hc
    · rw [Finmap.lookup_insert_of_ne _ hport] at hq'
      exact (h.sorted port q hq').imp hf.before
  · rw [hclosed]
    rcases hmem hq' hi with ⟨q0, hq0, hi0⟩ | ⟨rfl, -⟩
    · obtain ⟨t, hc, hlt⟩ := h.queued port q0 hq0 i hi0
      exact ⟨t, hf.keep i t hc, hlt⟩
    · exact ⟨_, hself, by have := h.closed port; omega⟩
  · rw [hreturned]
    rcases hmem hq' hi with ⟨q0, hq0, hi0⟩ | ⟨rfl, rfl⟩
    · obtain ⟨t, hc, -⟩ := h.queued port q0 hq0 i hi0
      obtain ⟨c, hl0, hport⟩ := hf.carried i t x hc hl'
      rw [hport]
      exact h.ported port q0 hq0 i hi0 c hl0
    · rw [hl, Option.some.injEq] at hl'
      refine ⟨congrArg Connection.localPort hl'.symm, fun p hp => ?_⟩
      obtain ⟨t, hc⟩ := h.done _ hp
      rw [hwas] at hc
      cases hc
  · rw [hreturned] at hx
    rcases hmem hq' hi with ⟨q0, hq0, hi0⟩ | ⟨rfl, -⟩
    · exact hf.before (h.later port q0 hq0 i hi0 x hx)
    · obtain ⟨t, hc⟩ := h.done _ hx
      exact hfirst hc
  · rw [hreturned] at hnot
    rw [hclosed] at hlt
    by_cases hid : i = id
    · subst hid
      rw [hl, Option.some.injEq] at hl'
      subst hl'
      exact ⟨_, by rw [hq]; exact Finmap.lookup_insert _, List.mem_append_right _ (List.mem_singleton_self _)⟩
    · rw [hcompleted, if_neg hid] at hc
      obtain ⟨c, hl0, hport⟩ := hf.carried i t x hc hl'
      rw [hport] at hlt ⊢
      obtain ⟨q0, hq0, hi0⟩ := h.kept i c t hl0 hc hlt hnot
      by_cases hp : c.localPort = c'.localPort
      · rw [hp] at hq0 ⊢
        exact ⟨_, by rw [hq]; exact Finmap.lookup_insert _, List.mem_append_left _ (by rw [hq0]; exact hi0)⟩
      · exact ⟨q0, by rw [hq, Finmap.lookup_insert_of_ne _ hp]; exact hq0, hi0⟩

/-- the first connection of a queue that is still there is returned, and what stood before it goes -/
theorem Served.taken (hconn : o'.stack.connections = o.stack.connections) (hcompleted : o'.completed = o.completed)
    (hclosed : o'.closedAt = o.closedAt) (hreturned : o'.returned = o.returned ++ [(port, id)]) {dead rest : List ConnectionId}
    (hq : o.stack.accepts.lookup port = some (dead ++ id :: rest)) (hdead : ∀ i ∈ dead, i ∉ o.stack.connections)
    (hid : id ∈ o.stack.connections) (haccepts : o'.stack.accepts = o.stack.accepts.insert port rest) : o'.Served := by
  have hold : ∀ {p q}, o'.stack.accepts.lookup p = some q → ∃ q0, o.stack.accepts.lookup p = some q0 ∧ q.Sublist q0 := by
    intro p q hp
    rw [haccepts] at hp
    by_cases heq : p = port
    · rw [heq, Finmap.lookup_insert, Option.some.injEq] at hp
      rw [heq, ← hp]
      exact ⟨_, hq, (List.sublist_cons_self _ _).trans (List.sublist_append_right _ _)⟩
    · rw [Finmap.lookup_insert_of_ne _ heq] at hp
      exact ⟨q, hp, List.Sublist.refl q⟩
  obtain ⟨c, hl⟩ := Finmap.mem_iff.1 hid
  have hin : id ∈ dead ++ id :: rest := List.mem_append_right _ List.mem_cons_self
  obtain ⟨hport, hnew⟩ := h.ported port _ hq id hin c hl
  obtain ⟨hdone, honce, hinOrder⟩ := h.answers hf hreturned hq hin hnew
  have hrest : ∀ {q}, o'.stack.accepts.lookup port = some q → ∀ i ∈ q, o.Before id i := by
    intro q hp i hi
    rw [haccepts, Finmap.lookup_insert, Option.some.injEq] at hp
    rw [← hp] at hi
    exact List.rel_of_pairwise_cons (List.pairwise_append.1 (h.sorted port _ hq)).2.1 hi
  have hreturned' : ∀ {x}, x ∈ o'.returned ↔ x ∈ o.returned ∨ x = (port, id) := by
    intro x
    rw [hreturned, List.mem_append, List.mem_singleton]
  refine ⟨fun p => ?_, fun p q hp => ?_, fun p q hp i hi => ?_, fun p q hp i hi x hx => ?_, fun p q hp i hi x hx => ?_,
    fun i x t hx hc hlt hnot => ?_, hdone, honce, hinOrder⟩
  · rw [hclosed]
    exact (h.closed p).trans hf.time
  · obtain ⟨q0, hq0, hsub⟩ := hold hp
    exact ((h.sorted p q0 hq0).sublist hsub).imp hf.before
  · obtain ⟨q0, hq0, hsub⟩ := hold hp
    rw [hcompleted, hclosed]
    exact h.queued p q0 hq0 i (hsub.subset hi)
  · obtain ⟨q0, hq0, hsub⟩ := hold hp
    rw [hconn] at hx
    obtain ⟨hxport, hxnew⟩ := h.ported p q0 hq0 i (hsub.subset hi) x hx
    refine ⟨hxport, fun p' hp' => ?_⟩
    rcases hreturned'.1 hp' with hp' | heq
    · exact hxnew p' hp'
    · -- what was just returned is in no queue
      obtain ⟨rfl, rfl⟩ := Prod.mk.inj heq
      rw [hl, Option.some.injEq] at hx
      have hpp : p = p' := hxport.symm.trans ((congrArg Connection.localPort hx.symm).trans hport)
      rw [hpp] at hp
      exact Before.irrefl i (hrest hp i hi)
  · obtain ⟨q0, hq0, hsub⟩ := hold hp
    rcases hreturned'.1 hx with hx | heq
    · exact hf.before (h.later p q0 hq0 i (hsub.subset hi) x hx)
    · obtain ⟨rfl, rfl⟩ := Prod.mk.inj heq
      exact hf.before (hrest hp i hi)
  · rw [hconn] at hx
    rw [hcompleted] at hc
    rw [hclosed] at hlt
    obtain ⟨q0, hq0, hi⟩ := h.kept i x t hx hc hlt fun p hp => hnot p (hreturned'.2 (.inl hp))
    by_cases hp : x.localPort = port
    · rw [hp, hq, Option.some.injEq] at hq0
      rw [hp]
      refine ⟨rest, by rw [haccepts]; exact Finmap.lookup_insert _, ?_⟩
      rw [← hq0, List.mem_append, List.mem_cons] at hi
      rcases hi with hi | rfl | hi
      · exact absurd (Finmap.mem_of_lookup_eq_some hx) (hdead i hi)
      · exact absurd (hreturned'.2 (.inr rfl)) (hnot port)
      · exact hi
    · exact ⟨q0, by rw [haccepts, Finmap.lookup_insert_of_ne _ hp]; exact hq0, hi⟩

/-- `accept` takes the first connection that is still there -/
theorem Served.pop (port : U16) (hconn : o'.stack.connections = o.stack.connections) (hcompleted : o'.completed = o.completed)
    (hclosed : o'.closedAt = o.closedAt) (haccepts : o'.stack.accepts = (o.stack.accept port).1.accepts)
    (hreturned : o'.returned = o.returned ++ ((o.stack.accept port).2.map fun id => (port, id)).toList) (hk : o.Known token) :
    o'.Served := by
  rcases o.stack.accept_cases port with ⟨hnone, hdead, hlookup⟩ | ⟨dead, id, rest, hq, hdead, hid, hsome, hq'⟩
  · -- the queue had nothing but entries of removed connections
    rw [hnone, Option.map_none, Option.toList_none, List.append_nil] at hreturned
    refine h.still hf hcompleted hreturned (fun p => .inl (by rw [hclosed])) (fun p q hp => ?_) (fun p q hp i hi hmem => ?_) hk
    · rw [haccepts, hlookup] at hp
      obtain ⟨q0, hq0, rfl⟩ := Option.map_eq_some_iff.1 hp
      split_ifs
      · exact .inl rfl
      · exact .inr hq0
    · refine .inl ⟨_, by rw [haccepts, hlookup, hp, Option.map_some], ?_⟩
      by_cases heq : p = port
      · rw [heq] at hp
        exact absurd hmem (hdead q hp i hi)
      · rw [if_neg heq]
        exact hi
  · rw [hsome] at hreturned
    rw [hq'] at haccepts
    exact h.taken hf hconn hcompleted hclosed hreturned hq hdead hid haccepts

end Served

/-- **Preservation, one operation.** -/
theorem Served.step {op : StackOp P} (h : o.Served) (hk : o.Known token)
    (hb : (o.step op).stack.nextConnectionToken < token + 2 ^ 64) : (o.step op).Served := by
  have hf := hk.follows hb
  have hsame : (∀ id, ¬ o.stack.Completes (o.stack.perform op).1 id) → (o.step op).completed = o.completed :=
    fun h => funext fun id => if_neg (h id)
  have hqueues := Stack.perform_queues hk.sound op (fun hmade => hk.fresh hb hmade)
  have hstack : (o.step op).stack = (o.stack.perform op).1 := rfl
  generalize hs' : (o.stack.perform op).1 = s' at hqueues hstack hsame
  -- the queues of the other ports, and their entries
  have hkept : ∀ {port q}, (o.step op).stack.accepts.lookup port = some q → ∀ id ∈ q, id ∈ o.stack.connections →
      (∃ q, (o.step op).stack.accepts.lookup port = some q ∧ id ∈ q) ∨ o.time < (o.step op).closedAt port :=
    fun hq id hid _ => .inl ⟨_, hq, hid⟩
  cases hqueues with
  | still op _ hop haccepts hnone =>
    have hclosed : (o.step op).closedAt = o.closedAt := by
      cases op with
      | closeListener port => exact absurd rfl (hop port).2
      | _ => rfl
    have hreturned : (o.step op).returned = o.returned := by
      cases op with
      | accept port => exact absurd rfl (hop port).1
      | _ => rfl
    refine h.still hf (hsame hnone) hreturned (fun port => .inl (by rw [hclosed])) (fun port q hq => .inr ?_)
      (fun port q hq => hkept ?_) hk
    · rw [hstack, haccepts] at hq
      exact hq
    · rw [hstack, haccepts]
      exact hq
  | listened port _ haccepts hconn =>
    refine h.still hf (hsame fun _ => Stack.not_completes_of_same (by rw [hconn])) rfl (fun _ => .inl rfl) (fun p q hq => ?_)
      (fun p q hq => hkept ?_) hk
    · rw [hstack, haccepts] at hq
      split_ifs at hq with hmem
      · exact .inr hq
      · by_cases hp : p = port
        · rw [hp, Finmap.lookup_insert, Option.some.injEq] at hq
          exact .inl hq.symm
        · rw [Finmap.lookup_insert_of_ne _ hp] at hq
          exact .inr hq
    · rw [hstack, haccepts]
      split_ifs with hmem
      · exact hq
      · have hp : p ≠ port := fun hp => hmem (hp ▸ Finmap.mem_of_lookup_eq_some hq)
        rw [Finmap.lookup_insert_of_ne _ hp]
        exact hq
  | closedListener port _ haccepts hconn =>
    have hclosed : (o.step (.closeListener port)).closedAt = Function.update o.closedAt port (o.time + 1) := rfl
    refine h.still hf (hsame fun _ => Stack.not_completes_of_same (by rw [hconn])) rfl (fun p => ?_) (fun p q hq => .inr ?_)
      (fun p q hq id hid hmem => ?_) hk
    · rw [hclosed, hstack, haccepts]
      by_cases hp : p = port
      · rw [hp, Function.update_self]
        exact .inr ⟨Finmap.lookup_erase _ _, Nat.lt_succ_self _, le_rfl⟩
      · exact .inl (Function.update_of_ne hp _ _)
    · rw [hstack, haccepts] at hq
      by_cases hp : p = port
      · rw [hp, Finmap.lookup_erase] at hq
        cases hq
      · rw [Finmap.lookup_erase_ne hp] at hq
        exact hq
    · by_cases hp : p = port
      · rw [hclosed, hp, Function.update_self]
        exact .inr (Nat.lt_succ_self _)
      · refine hkept ?_ id hid hmem
        rw [hstack, haccepts, Finmap.lookup_erase_ne hp]
        exact hq
  | accepted port =>
    refine h.pop hf port ?_ (hsame fun _ => Stack.not_completes_of_same ?_) rfl (by rw [hstack]) rfl hk
    · rw [hstack]
      exact o.stack.accept_table port
    · rw [o.stack.accept_table port]
  | completed peer bytes nowMs _ id c c' hl hst hl' hst' hport haccepts hother =>
    have hnow : o.stack.Completes (o.stack.perform (.input peer bytes nowMs)).1 id := by
      rw [hs']
      refine ⟨by rw [Stack.state, hl, Option.map_some, hst], ?_, Finmap.mem_of_lookup_eq_some hl'⟩
      rw [Stack.state, hl', Option.map_some]
      exact fun he => hst' (Option.some.inj he)
    refine h.push hf c' (hk.waiting id c hl hst).2 rfl (fun i => ?_) rfl rfl (by rw [hstack]; exact hl')
      (by rw [hstack]; exact haccepts) hk
    by_cases hi : i = id
    · rw [if_pos hi, hi]
      exact if_pos hnow
    · rw [if_neg hi]
      exact if_neg fun h => hi (hother i (hs' ▸ h))

/-! ## Every run -/

/-- the histories after every run that makes fewer than 2^64 connections -/
theorem served_run (config : ValidConfig) (isnSeed : BitVec 64) (token : ℕ) (ops : List (StackOp P))
    (hb : (run config isnSeed token ops).stack.nextConnectionToken < token + 2 ^ 64) :
    (run config isnSeed token ops).Known token ∧ (run config isnSeed token ops).Served := by
  have hstart : (start config isnSeed token : Observed P).Known token ∧ (start config isnSeed token : Observed P).Served := by
    refine ⟨⟨fun _ _ h => (Stack.no_connection h).elim, Stack.inv_new config isnSeed token, fun _ _ h => (Stack.no_connection h).elim,
      fun _ _ h => (Stack.no_connection h).elim, fun _ _ h => nomatch h⟩, ?_⟩
    have hnone : ∀ port q, (start config isnSeed token : Observed P).stack.accepts.lookup port ≠ some q :=
      fun port q h => by cases h
    exact ⟨fun _ => le_rfl, fun port q h => absurd h (hnone port q), fun port q h => absurd h (hnone port q),
      fun port q h => absurd h (hnone port q), fun port q h => absurd h (hnone port q), fun _ _ _ h => (Stack.no_connection h).elim,
      (fun _ h => nomatch h), List.nodup_nil, List.Pairwise.nil⟩
  refine (Run.exec_invariant (P := fun o : Observed P => o.stack.view.Ok ∧
    (o.stack.nextConnectionToken < token + 2 ^ 64 → o.Known token ∧ o.Served)) (fun o op ⟨hok, hi⟩ => ?_)
    ⟨hstart.1.sound, fun _ => hstart⟩ ops).2 hb
  have hchange := (Stack.perform_change hok op).1
  refine ⟨hchange.ok hok, fun hb => ?_⟩
  -- the counter only moves forward, so the bound held before
  obtain ⟨hk, hs⟩ := hi (lt_of_le_of_lt hchange.cursors.1 hb)
  exact ⟨hk.step hb, hs.step hk hb⟩

/-- what `accept` returned so far, and what it returns next -/
structure AcceptsOnce (o : Observed P) : Prop where
  /-- no id was returned twice -/
  once : (o.returned.map Prod.snd).Nodup
  /-- the ids of one port were returned in the order in which their handshakes completed -/
  inOrder : o.returned.Pairwise fun x y => x.1 = y.1 → o.Before x.2 y.2
  /-- a retained server connection is past its handshake exactly when the history says so -/
  completed : ∀ id c, o.stack.connections.lookup id = some c → o.passive id = true →
    (c.state ≠ .synReceived ↔ o.completed id ≠ none)
  /-- the next id is a retained server connection of the port with a complete handshake, later than all that was returned -/
  next : ∀ port id, (o.stack.accept port).2 = some id →
    (∃ c, o.stack.connections.lookup id = some c ∧ c.localPort = port ∧ c.state ≠ .synReceived) ∧ o.passive id = true ∧
      o.completed id ≠ none ∧ (∀ p, (p, id) ∉ o.returned) ∧ ∀ x, (port, x) ∈ o.returned → o.Before x id
  /-- nothing is lost but by closing the listener after the handshake -/
  obtainable : ∀ id c t, o.stack.connections.lookup id = some c → o.passive id = true → c.state ≠ .synReceived →
    o.completed id = some t → o.closedAt c.localPort < t → (∀ p, (p, id) ∉ o.returned) →
    ∃ n, (((fun s : Stack P => (s.accept c.localPort).1)^[n] o.stack).accept c.localPort).2 = some id

/-- a connection without a complete handshake is in it, if it is a server connection -/
theorem Known.state_ne (h : o.Known token) {c : Connection P} (hl : o.stack.connections.lookup id = some c) {t : ℕ}
    (hc : o.completed id = some t) : c.state ≠ .synReceived := by
  intro hst
  rw [(h.waiting id c hl hst).2] at hc
  cases hc

theorem Served.acceptsOnce (h : o.Served) (hk : o.Known token) : o.AcceptsOnce := by
  refine ⟨h.once, h.inOrder, fun id c hl hpassive => ⟨hk.past id c hl hpassive, fun hne => ?_⟩, fun port id hsome => ?_,
    fun id c t hl _ _ hc hlt hnot => ?_⟩
  · obtain ⟨t, hc⟩ := Option.ne_none_iff_exists'.1 hne
    exact hk.state_ne hl hc
  · rcases o.stack.accept_cases port with ⟨hnone, -⟩ | ⟨dead, i, rest, hq, -, hid, hsome', -⟩
    · rw [hnone] at hsome
      cases hsome
    · rw [hsome', Option.some.injEq] at hsome
      subst hsome
      have hin : i ∈ dead ++ i :: rest := List.mem_append_right _ List.mem_cons_self
      obtain ⟨c, hl⟩ := Finmap.mem_iff.1 hid
      obtain ⟨t, hc, -⟩ := h.queued port _ hq i hin
      obtain ⟨hport, hnew⟩ := h.ported port _ hq i hin c hl
      exact ⟨⟨c, hl, hport, hk.state_ne hl hc⟩, (hk.origin i t hc).1, by rw [hc]; exact Option.some_ne_none t, hnew,
        h.later port _ hq i hin⟩
  · obtain ⟨q, hq, hid⟩ := h.kept id c t hl hc hlt hnot
    exact Stack.accept_reaches hq hid (Finmap.mem_of_lookup_eq_some hl)

end Observed

/-- **Accepting.** In every run that makes fewer than 2^64 connections, `accept` returns each server connection at most once,
after its handshake, in the order of the handshakes, while it is retained; and a retained one that was not returned is still
to be had, unless its port was closed after its handshake. -/
theorem accept_exactly_once {P : Type} [DecidableEq P] (config : ValidConfig) (isnSeed : BitVec 64) (token : ℕ)
    (ops : List (StackOp P)) (hb : (Stack.run config isnSeed token ops).nextConnectionToken < token + 2 ^ 64) :
    (Observed.run config isnSeed token ops).stack = Stack.run config isnSeed token ops ∧
      (Observed.run config isnSeed token ops).AcceptsOnce := by
  have hstack := Observed.run_stack config isnSeed token ops
  obtain ⟨hk, hs⟩ := Observed.served_run config isnSeed token ops (by rw [hstack]; exact hb)
  exact ⟨hstack, hs.acceptsOnce hk⟩

/-- a SYN 50000 -> 443 of peer 7, the acknowledgement of its answer, and two calls of `accept` -/
def acceptRun : List (StackOp ℕ) :=
  [.listen 443, .input 7 [195, 80, 1, 187, 0, 0, 0, 100, 0, 0, 0, 0, 112, 2, 255, 255, 0, 0, 0, 0, 2, 4, 4, 0, 254, 4, 1, 0] 0,
    .accept 443, .input 7 [195, 80, 1, 187, 0, 0, 0, 101, 66, 138, 161, 69, 80, 16, 255, 255, 0, 0, 0, 0] 0, .accept 443]

theorem accept_exactly_once_run :
    (Observed.run ⟨Config.default, Config.default_validate⟩ 5 1 acceptRun).returned = [(443, ⟨1⟩)] ∧
      (Observed.run ⟨Config.default, Config.default_validate⟩ 5 1 acceptRun).AcceptsOnce :=
  ⟨by decide, (accept_exactly_once ⟨Config.default, Config.default_validate⟩ 5 1 acceptRun (by decide)).2⟩

end FipsTcp
