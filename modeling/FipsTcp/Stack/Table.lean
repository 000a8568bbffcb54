/-
The connection table after every run.

`View.Inv`: `lookup` is the index of `connections`, the limits hold, and the ids given out are fresh while fewer than 2^64
connections were created. Every edit keeps it (`Inv.edit`), and so does a creation (`Inv.change`).
- `inv_run`: the invariant after every run;
- `connection_table`: what it says in the words of the code, with the admission of every later operation.
-/
import FipsTcp.Stack.Edits

namespace FipsTcp

open Table Connection

namespace Stack

variable {P : Type} [DecidableEq P]

namespace View

variable {v v' : View P}

/-- the entries of a peer are at most those it had -/
theorem Edit.having_subset (h : Edit v v') (peer : P) :
    having (fun c => decide (c.peer = peer)) v'.connections ⊆ having (fun c => decide (c.peer = peer)) v.connections := by
  cases h with
  | update id c c' h hkey hsound => rw [having_update h (by rw [show c'.peer = c.peer from congrArg ConnectionKey.peer hkey])]
  | remove id c h => exact having_erase_subset
  | reserve => exact Finset.Subset.refl _

theorem Edit.keys_subset (h : Edit v v') : v'.connections.keys ⊆ v.connections.keys := fun i hi =>
  Finmap.mem_keys.2 (h.no_new.1 i (Finmap.mem_keys.1 hi))

/-- the limits of the configuration, and the ids given out since the token was `token` -/
structure Inv (token : ℕ) (v : View P) : Prop where
  index : Indexed Connection.key v.connections v.lookup
  size : v.connections.keys.card ≤ v.config.1.maxConnections
  perPeer : ∀ peer, (having (fun c => decide (c.peer = peer)) v.connections).card ≤ v.config.1.maxConnectionsPerPeer
  token_le : token ≤ v.nextConnectionToken
  next : v.nextConnectionToken + 1 < token + 2 ^ 64 → v.nextConnectionId = v.nextConnectionToken - token + 1
  used : ∀ id ∈ v.connections, id.raw ≤ v.nextConnectionToken - token

theorem Inv.edit {token : ℕ} (h : Edit v v') (hv : v.Inv token) : v'.Inv token := by
  obtain ⟨hnew, hid, htok⟩ := h.no_new
  refine ⟨h.index hv.index, ?_, fun peer => ?_, ?_, ?_, ?_⟩
  · rw [h.config]; exact (Finset.card_le_card h.keys_subset).trans hv.size
  · rw [h.config]; exact (Finset.card_le_card (h.having_subset peer)).trans (hv.perPeer peer)
  · rw [htok]; exact hv.token_le
  · rw [htok, hid]; exact hv.next
  · rw [htok]; exact fun id hi => hv.used id (hnew id hi)

/-- while fewer than 2^64 connections were created, the next id is none of those given out -/
theorem Inv.unused {token : ℕ} (hv : v.Inv token) (hlt : v.nextConnectionToken + 1 < token + 2 ^ 64) {id : ConnectionId}
    (hid : id.raw ≤ v.nextConnectionToken - token) : id ≠ ⟨v.nextConnectionId⟩ := by
  have hnext := hv.next hlt
  rintro rfl
  simp only at hid
  omega

theorem Inv.fresh {token : ℕ} (hv : v.Inv token) (hlt : v.nextConnectionToken + 1 < token + 2 ^ 64) :
    v.connections.lookup ⟨v.nextConnectionId⟩ = none :=
  Finmap.lookup_eq_none.2 fun hmem => hv.unused hlt (hv.used _ hmem) rfl

/-- **Preservation, one operation**, while fewer than 2^64 connections were created. -/
theorem Inv.change {token : ℕ} (h : Change v v') (hlt : v'.nextConnectionToken < token + 2 ^ 64) (hv : v.Inv token) :
    v'.Inv token := by
  cases h with
  | edits h =>
    clear hlt
    induction h with
    | refl => exact hv
    | tail _ h ih => exact ih.edit h
  | create c hroom hkey hsound =>
    have htok := hv.token_le
    have hnext := hv.next hlt
    simp only at hlt
    have hfresh := hv.fresh hlt
    refine ⟨hv.index.insert hfresh hkey, ?_, fun peer => ?_, ?_, ?_, ?_⟩
    · rw [keys_insert]
      exact (Finset.card_insert_le _ _).trans (Nat.succ_le_of_lt hroom.size)
    · have hsub := Finset.card_le_card
        (having_insert_subset (fun x : Connection P => decide (x.peer = peer)) v.connections ⟨v.nextConnectionId⟩ c)
      refine hsub.trans ?_
      split_ifs with hp
      · have := hroom.perPeer
        rw [of_decide_eq_true hp] at this
        exact (Finset.card_insert_le _ _).trans (Nat.succ_le_of_lt this)
      · exact hv.perPeer peer
    · simp only; omega
    · intro hlt'
      simp only at hlt' ⊢
      rw [Nat.mod_eq_of_lt (by omega)]; omega
    · intro id hi
      rcases Finmap.mem_insert.1 hi with rfl | hi
      · simp only; omega
      · have := hv.used id hi
        simp only; omega

/-- an operation that adds a connection was granted the room for it -/
theorem Change.admits (h : Change v v') {id : ConnectionId} {c : Connection P} (h0 : v.connections.lookup id = none)
    (h1 : v'.connections.lookup id = some c) : v.Admits c.peer := by
  cases h with
  | edits h => exact absurd (h.no_new.1 id (Finmap.mem_of_lookup_eq_some h1)) (Finmap.lookup_eq_none.1 h0)
  | create x hroom =>
    by_cases hi : id = ⟨v.nextConnectionId⟩
    · subst hi
      rw [Finmap.lookup_insert, Option.some.injEq] at h1
      exact h1 ▸ hroom
    · rw [Finmap.lookup_insert_of_ne _ hi, h0] at h1; cases h1

end View

theorem inv_new (config : ValidConfig) (isnSeed : BitVec 64) (token : ℕ) :
    (new config isnSeed token : Stack P).view.Inv token := by
  refine ⟨Indexed.empty, ?_, fun peer => ?_, le_rfl, fun _ => ?_, fun id hid => ?_⟩
  · exact Nat.zero_le _
  · exact Nat.zero_le _
  · simp [view, new]
  · exact absurd hid Finmap.notMem_empty

/-- **The invariant after every run** that creates fewer than 2^64 connections. -/
theorem inv_run (config : ValidConfig) (isnSeed : BitVec 64) (token : ℕ) (ops : List (StackOp P))
    (hb : (run config isnSeed token ops).nextConnectionToken < token + 2 ^ 64) :
    (run config isnSeed token ops).view.Inv token := by
  refine (Run.exec_invariant (P := fun s : Stack P => s.view.Ok ∧ (s.nextConnectionToken < token + 2 ^ 64 → s.view.Inv token))
    (fun s op ⟨hok, hi⟩ => ?_) ⟨fun _ _ h => (no_connection h).elim, fun _ => inv_new config isnSeed token⟩ ops).2 hb
  have hchange := (perform_change hok op).1
  -- the counter only moves forward, so the bound held before
  exact ⟨hchange.ok hok, fun hb => (hi (lt_of_le_of_lt hchange.cursors.1 hb)).change hchange hb⟩

/-- the next id is not in use -/
def FreshId (s : Stack P) : Prop := s.connections.lookup s.nextId = none

/-- the runs that make no connection under an id in use -/
abbrev FreshIds (config : ValidConfig) (isnSeed : BitVec 64) (token : ℕ) (ops : List (StackOp P)) : Prop :=
  Run.Along (fun s op => (s.perform op).1) (fun s _ => s.FreshId) (new config isnSeed token) ops

/-- in such a run the index is exact -/
theorem indexed_run {config : ValidConfig} {isnSeed : BitVec 64} {token : ℕ} {ops : List (StackOp P)}
    (h : FreshIds config isnSeed token ops) :
    Indexed Connection.key (run config isnSeed token ops).connections (run config isnSeed token ops).lookup := by
  refine (Run.exec_invariant_along (P := fun s : Stack P => s.view.Ok ∧ Indexed Connection.key s.connections s.lookup)
    (fun s op hfresh ⟨hok, hi⟩ => ?_) ⟨fun _ _ h => (no_connection h).elim, Indexed.empty⟩ h).2
  have hchange := (perform_change hok op).1
  exact ⟨hchange.ok hok, hchange.index hfresh hi⟩

/-- the connection table of a stack -/
structure Consistent (s : Stack P) : Prop where
  /-- each retained connection's tuple maps to its id -/
  forward : ∀ id c, s.connections.lookup id = some c → s.lookup.lookup c.key = some id
  /-- and there is no other tuple -/
  backward : ∀ key id, s.lookup.lookup key = some id → ∃ c, s.connections.lookup id = some c ∧ c.key = key
  /-- so no two connections share a tuple -/
  distinct : ∀ id id' c c', s.connections.lookup id = some c → s.connections.lookup id' = some c' → c.key = c'.key → id = id'
  size : s.size ≤ s.config.1.maxConnections
  perPeer : ∀ peer, (s.peerConnections peer).card ≤ s.config.1.maxConnectionsPerPeer
  noPanic : ∀ op, (s.perform op).2 ≠ .error .panic
  /-- a peer that the classifier does not accept finds room only outside the reserved slots -/
  admission : ∀ op id c reservation, s.connections.lookup id = none → (s.perform op).1.connections.lookup id = some c →
    s.reservation = some reservation → reservation.eligible c.peer = false →
    s.size < s.config.1.maxConnections - reservation.slots

end Stack

/-- **The connection table.** After every sequence of operations on a new stack, `lookup` and `connections` are inverse to
each other, the limits hold, no operation panics, and reserved slots go to no other peer. -/
theorem connection_table {P : Type} [DecidableEq P] (config : ValidConfig) (isnSeed : BitVec 64) (token : ℕ)
    (ops : List (StackOp P)) (hb : (Stack.run config isnSeed token ops).nextConnectionToken < token + 2 ^ 64) :
    (Stack.run config isnSeed token ops).Consistent := by
  have hi := Stack.inv_run config isnSeed token ops hb
  have hok := (Stack.ok_run config isnSeed token ops).1
  generalize Stack.run config isnSeed token ops = s at hi hok
  refine ⟨fun _ _ h => hi.index.forward h, fun _ _ h => hi.index.backward h,
    fun _ _ _ _ h h' hk => hi.index.injective h h' hk, hi.size, hi.perPeer,
    fun op => (Stack.perform_change hok op).2 hi.index, fun op id c reservation h0 h1 hr he => ?_⟩
  exact ((Stack.perform_change hok op).1.admits h0 h1).reserved reservation hr he

/-- a listener, a client connection, and a reservation of one slot that no peer may use -/
def tableRun : List (StackOp ℕ) :=
  [.listen 80, .connectFromWithIsn 7 9000 80 100 0, .setConnectionReservation 1 fun _ => false]

theorem connection_table_one :
    (Stack.run ⟨Config.default, Config.default_validate⟩ 5 1 tableRun).Consistent :=
  connection_table ⟨Config.default, Config.default_validate⟩ 5 1 tableRun (by decide)

end FipsTcp
