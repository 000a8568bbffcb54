/-
The two connection tables side by side.

`Stack.Twin s t`: the TypeScript stack `t` stands in the place of the Rust stack `s`. Its maps mirror the finite maps, under the
names of the keys; the connections in the same place follow each other (`Connection.Alike`); the cursors are equal; and what is
queued is the same for every tuple (`Shuffle`), since the two walk their tables in different orders. `Agree` says of two calls
that both succeed, with values in a relation, or both fail, and that they leave twins. The lemmas go through the functions that
the calls are made of.
-/
import FipsTcp.Core.Stack
import FipsTcp.Lib.Mirror
import FipsTcp.Lib.Shuffle
import FipsTcp.Lockstep.Calls
import FipsTcp.Lockstep.Wire
import FipsTcp.Ts.Key

namespace FipsTcp

open OrderedMap Number

/-! ## Twins -/

def Ts.Outbound.toRust (o : Ts.Outbound) : FipsTcp.Outbound Ts.JsString := ⟨o.peer, o.bytes⟩

/-- the text under which the TypeScript index holds a tuple -/
def ConnectionKey.text (key : ConnectionKey Ts.JsString) : Ts.JsString :=
  Ts.connectionKey key.peer key.localPort.toNat key.remotePort.toNat

/-- a reservation, with a classifier that does not throw -/
def ConnectionReservation.toTs (r : ConnectionReservation Ts.JsString) : Ts.ConnectionReservation :=
  ⟨r.slots, fun peer => .ok (r.eligible peer)⟩

/-- the connections that two stacks hold in the same place, up to the token of their markers -/
def Connection.Alike (config : Config) (c : Connection Ts.JsString) (t : Ts.Connection) : Prop :=
  ∃ token, Connection.Follows .numbers config token c t

section Alike

variable {config : Config} {c : Connection Ts.JsString} {c' : Ts.Connection}

theorem Connection.Alike.key (h : c.Alike config c') : c'.key = c.key.text := by
  obtain ⟨token, -, reno, -, rfl⟩ := h
  rfl

theorem Connection.Alike.peer (h : c.Alike config c') : c'.peer = c.peer := by
  obtain ⟨token, -, reno, -, rfl⟩ := h
  rfl

theorem Connection.Alike.localPort (h : c.Alike config c') : c'.localPort = c.localPort.toNat := by
  obtain ⟨token, -, reno, -, rfl⟩ := h
  rfl

theorem Connection.Alike.remotePort (h : c.Alike config c') : c'.remotePort = c.remotePort.toNat := by
  obtain ⟨token, -, reno, -, rfl⟩ := h
  rfl

end Alike

namespace Stack

structure Twin (s : Stack Ts.JsString) (t : Ts.Stack) : Prop where
  shared : s.config.1.Shared
  config : t.config = s.config.1.toTs
  reservation : t.reservation = s.reservation.map ConnectionReservation.toTs
  listeners : ∀ port : U16, port.toNat ∈ t.listeners ↔ port ∈ s.listeners
  accepts : Mirrors BitVec.toNat (fun queue queue' => queue' = queue.map ConnectionId.raw) s.accepts t.accepts
  connections : Mirrors ConnectionId.raw (Connection.Alike s.config.1) s.connections t.connections
  lookup : Mirrors ConnectionKey.text (fun id id' => id' = id.raw) s.lookup t.lookup
  outbound : Shuffle (fun key o => belongsTo o key) s.outbound (t.outbound.map Ts.Outbound.toRust)
  nextConnectionId : t.nextConnectionId = s.nextConnectionId
  nextEphemeralPort : t.nextEphemeralPort = s.nextEphemeralPort.toNat
  isnState : t.isnState = s.isnState.toNat

/-- two calls that end alike -/
inductive Agree {ε ε' α β : Type} (R : α → β → Prop) : Stack Ts.JsString × Except ε α → Ts.Stack × Except ε' β → Prop
  | done {s : Stack Ts.JsString} {t : Ts.Stack} {a : α} {b : β} (htwin : s.Twin t) (hvalue : R a b) : Agree R (s, .ok a) (t, .ok b)
  | failed {s : Stack Ts.JsString} {t : Ts.Stack} {e : ε} {e' : ε'} (htwin : s.Twin t) : Agree R (s, .error e) (t, .error e')

variable {s : Stack Ts.JsString} {t : Ts.Stack} {id : ConnectionId} {c : Connection Ts.JsString} {c' : Ts.Connection}
  {peer : Ts.JsString} {nowMs : ℕ}

/-- the two results as equations -/
theorem Agree.results {ε ε' α β : Type} {R : α → β → Prop} {x : Stack Ts.JsString × Except ε α} {y : Ts.Stack × Except ε' β}
    (h : Agree R x y) : (∃ s t a b, x = (s, .ok a) ∧ y = (t, .ok b) ∧ s.Twin t ∧ R a b) ∨
      ∃ s t e e', x = (s, .error e) ∧ y = (t, .error e') ∧ s.Twin t := by
  cases h with
  | done htwin hvalue => exact .inl ⟨_, _, _, _, rfl, rfl, htwin, hvalue⟩
  | failed htwin => exact .inr ⟨_, _, _, _, rfl, rfl, htwin⟩

/-! ## Names -/

theorem raw_injective : Function.Injective ConnectionId.raw := fun a b h => by
  cases a
  cases b
  exact congrArg ConnectionId.mk h

theorem port_injective : Function.Injective (BitVec.toNat : U16 → ℕ) := fun _ _ => BitVec.eq_of_toNat_eq

theorem text_injective : Function.Injective ConnectionKey.text := by
  intro a b h
  obtain ⟨hpeer, hlocal, hremote⟩ := Ts.connectionKey_injective h
  cases a
  cases b
  simp only [ConnectionKey.mk.injEq]
  exact ⟨hpeer, port_injective hlocal, port_injective hremote⟩

/-! ## The table -/

theorem Twin.setConnection (h : s.Twin t) (id : ConnectionId) (hc : c.Alike s.config.1 c') :
    (s.setConnection id c).Twin (t.setConnection id.raw c') :=
  { h with connections := h.connections.insert raw_injective id hc }

theorem Twin.insertConnection (h : s.Twin t) (id : ConnectionId) (hc : c.Alike s.config.1 c') :
    (s.insertConnection id c).Twin (t.insertConnection id.raw c') := by
  refine { h with connections := h.connections.insert raw_injective id hc, lookup := ?_ }
  have hlookup := h.lookup.insert text_injective c.key (rfl : id.raw = id.raw)
  rwa [← hc.key] at hlookup

theorem Twin.removeConnection (h : s.Twin t) (id : ConnectionId) : (s.removeConnection id).Twin (t.removeConnection id.raw) := by
  unfold Stack.removeConnection Ts.Stack.removeConnection
  cases hl : s.connections.lookup id with
  | none =>
    rw [h.connections.missing hl]
    exact h
  | some c =>
    obtain ⟨c', hget, hc⟩ := h.connections.found hl
    rw [hget]
    refine { h with connections := h.connections.erase raw_injective id, lookup := ?_ }
    have hlookup := h.lookup.erase text_injective c.key
    rwa [← hc.key] at hlookup

theorem Twin.enqueue (h : s.Twin t) (port : U16) (id : ConnectionId) :
    { s with accepts := s.accepts.insert port ((s.accepts.lookup port).getD [] ++ [id]) }.Twin
      { t with accepts := t.accepts.set port.toNat ((t.accepts.get port.toNat).getD [] ++ [id.raw]) } := by
  have hqueue : (t.accepts.get port.toNat).getD [] = ((s.accepts.lookup port).getD []).map ConnectionId.raw := by
    cases hl : s.accepts.lookup port with
    | none =>
      rw [h.accepts.missing hl]
      rfl
    | some queue =>
      obtain ⟨queue', hget, hq⟩ := h.accepts.found hl
      rw [hget]
      exact hq
  refine { h with accepts := h.accepts.insert port_injective port ?_ }
  rw [hqueue, List.map_append]
  rfl

/-- a tuple is in use -/
theorem Twin.taken (h : s.Twin t) (peer : Ts.JsString) (localPort remotePort : U16) :
    Ts.connectionKey peer localPort.toNat remotePort.toNat ∈ t.lookup ↔
      (⟨peer, localPort, remotePort⟩ : ConnectionKey Ts.JsString) ∈ s.lookup := by
  have hmem := h.lookup.mem_iff (a := (⟨peer, localPort, remotePort⟩ : ConnectionKey Ts.JsString))
  rw [ConnectionKey.text] at hmem
  exact hmem

theorem Twin.size (h : s.Twin t) : t.connections.size = s.size := h.connections.size_eq raw_injective

theorem Twin.peerConnections (h : s.Twin t) (peer : Ts.JsString) :
    (t.connections.pairs.filter fun e => e.2.peer == peer).length = (s.peerConnections peer).card := by
  have hpeer : ∀ c c', Connection.Alike s.config.1 c c' → decide (c.peer = peer) = (c'.peer == peer) := by
    intro c c' hc
    rw [hc.peer, beq_eq_decide]
  exact h.connections.count_eq raw_injective hpeer

/-- **Admission.** -/
theorem Twin.capacity (h : s.Twin t) (peer : Ts.JsString) :
    s.ensureConnectionCapacity peer = .ok () ∧ t.ensureConnectionCapacity peer = .ok () ∨
      ∃ e e', s.ensureConnectionCapacity peer = .error e ∧ t.ensureConnectionCapacity peer = .error e' := by
  unfold Stack.ensureConnectionCapacity Ts.Stack.ensureConnectionCapacity
  simp only [h.size, h.peerConnections, h.config, h.reservation]
  rw [show s.config.1.toTs.maxConnections = s.config.1.maxConnections from rfl,
    show s.config.1.toTs.maxConnectionsPerPeer = s.config.1.maxConnectionsPerPeer from rfl]
  by_cases hfull : s.config.1.maxConnections ≤ s.size ∨ s.config.1.maxConnectionsPerPeer ≤ (s.peerConnections peer).card
  · rw [if_pos hfull, if_pos hfull]
    exact .inr ⟨_, _, rfl, rfl⟩
  rw [if_neg hfull, if_neg hfull]
  cases s.reservation with
  | none => exact .inl ⟨rfl, rfl⟩
  | some reservation =>
    simp only [Option.map_some, ConnectionReservation.toTs]
    by_cases hres : s.config.1.maxConnections - reservation.slots ≤ s.size
    · simp only [hres, true_and, if_true]
      cases reservation.eligible peer with
      | true => exact .inl ⟨rfl, rfl⟩
      | false => exact .inr ⟨_, _, rfl, rfl⟩
    · simp only [hres, false_and, if_false]
      exact .inl ⟨trivial, trivial⟩

/-! ## Cursors -/

theorem Twin.allocateConnectionId (h : s.Twin t) (hroom : s.nextConnectionId < maxSafe) :
    s.allocateConnectionId.1.Twin t.allocateConnectionId.1 ∧ t.allocateConnectionId.2 = s.allocateConnectionId.2.raw := by
  refine ⟨{ h with nextConnectionId := ?_ }, h.nextConnectionId⟩
  have hnext : ¬ maxSafe < s.nextConnectionId + 1 := Nat.not_lt.2 hroom
  have hwrap : (s.nextConnectionId + 1) % 2 ^ 64 = s.nextConnectionId + 1 :=
    Nat.mod_eq_of_lt (lt_of_le_of_lt hroom (by decide))
  simp only [Ts.Stack.allocateConnectionId, Stack.allocateConnectionId, h.nextConnectionId, if_neg hnext, hwrap]
  exact (max_eq_left (Nat.le_add_left 1 _)).symm

theorem Twin.nextToken (h : s.Twin t) : s.nextToken.1.Twin t.nextToken.1 := { h with }

/-- a shift to the left that the mask cuts -/
theorem xor_shiftLeft (x : BitVec 64) (n : ℕ) : x.toNat ^^^ ((x.toNat <<< n) &&& (2 ^ 64 - 1)) = (x ^^^ x <<< n).toNat := by
  rw [Nat.and_two_pow_sub_one_eq_mod, BitVec.toNat_xor, BitVec.toNat_shiftLeft]

theorem xor_shiftRight (x : BitVec 64) (n : ℕ) : x.toNat ^^^ (x.toNat >>> n) = (x ^^^ x >>> n).toNat := by
  rw [BitVec.toNat_xor, BitVec.toNat_ushiftRight]

/-- **The initial sequence numbers.** -/
theorem Twin.nextIsn (h : s.Twin t) : s.nextIsn.1.Twin t.nextIsn.1 ∧ t.nextIsn.2 = s.nextIsn.2.toNat := by
  have hmask : ∀ x : BitVec 64, x.toNat &&& (2 ^ 64 - 1) = x.toNat := fun x => by
    rw [Nat.and_two_pow_sub_one_eq_mod, Nat.mod_eq_of_lt x.isLt]
  have hzero : ∀ x : BitVec 64, 0 < x.toNat ↔ ¬ x = 0 := fun x => by
    rw [Nat.pos_iff_ne_zero]
    exact not_congr (BitVec.toNat_inj (y := 0))
  refine ⟨{ h with isnState := ?_ }, ?_⟩
  · simp only [Ts.Stack.nextIsn, Stack.nextIsn, h.isnState, xor_shiftLeft, xor_shiftRight, hmask, hzero]
    split_ifs with h0
    · rfl
    · rfl
  · simp only [Ts.Stack.nextIsn, Stack.nextIsn, h.isnState, xor_shiftLeft, xor_shiftRight, hmask]
    rw [Nat.and_two_pow_sub_one_eq_mod, BitVec.toNat_setWidth]

/-- **The ephemeral ports.** -/
theorem Twin.allocateEphemeralPortLoop (peer : Ts.JsString) (remotePort : U16) (attempts : ℕ) (h : s.Twin t) :
    Agree (fun port port' => port' = port.toNat) (Stack.allocateEphemeralPortLoop peer remotePort attempts s)
      (Ts.Stack.allocateEphemeralPortLoop peer remotePort.toNat attempts t) := by
  induction attempts generalizing s t with
  | zero => exact .failed h
  | succ attempts ih =>
    have hport : (t.nextEphemeralPort = 65535) ↔ s.nextEphemeralPort = 65535 := by
      have hlast : (65535 : U16).toNat = 65535 := by decide
      rw [h.nextEphemeralPort, ← BitVec.toNat_inj, hlast]
    have hmoved : { s with nextEphemeralPort := if s.nextEphemeralPort = 65535 then 49152 else s.nextEphemeralPort + 1 }.Twin
        { t with nextEphemeralPort := if t.nextEphemeralPort = 65535 then 49152 else t.nextEphemeralPort + 1 } := by
      refine { h with nextEphemeralPort := ?_ }
      simp only [hport]
      split_ifs with hlast
      · rfl
      · have hlt : s.nextEphemeralPort.toNat ≠ 65535 := fun heq => hlast (port_injective heq)
        have hsucc : (s.nextEphemeralPort + 1).toNat = (s.nextEphemeralPort.toNat + 1) % 2 ^ 16 := BitVec.toNat_add _ _
        have := s.nextEphemeralPort.isLt
        rw [h.nextEphemeralPort, hsucc]
        omega
    have htaken : Ts.connectionKey peer t.nextEphemeralPort remotePort.toNat ∈ t.lookup ↔
        (⟨peer, s.nextEphemeralPort, remotePort⟩ : ConnectionKey Ts.JsString) ∈ s.lookup := by
      rw [h.nextEphemeralPort]
      exact h.taken peer s.nextEphemeralPort remotePort
    rw [Stack.allocateEphemeralPortLoop, Ts.Stack.allocateEphemeralPortLoop]
    by_cases hused : (⟨peer, s.nextEphemeralPort, remotePort⟩ : ConnectionKey Ts.JsString) ∈ s.lookup
    · rw [if_pos hused, if_pos (htaken.2 hused)]
      exact ih hmoved
    · rw [if_neg hused, if_neg fun ht => hused (htaken.1 ht)]
      exact .done hmoved h.nextEphemeralPort

/-! ## Output -/

/-- both encoders give the same bytes, or none -/
theorem encode_pair (segment : Segment) :
    (∃ bytes, segment.encode = .ok bytes ∧ segment.toTs.encode = .ok bytes) ∨
      ∃ e e', segment.encode = .error e ∧ segment.toTs.encode = .error e' := by
  have h := segment.encode_toTs_segment
  cases hr : segment.encode with
  | ok bytes =>
    cases ht : segment.toTs.encode with
    | ok bytes' =>
      rw [hr, ht] at h
      cases h
      exact .inl ⟨bytes, rfl, rfl⟩
    | error e =>
      rw [hr, ht] at h
      cases h
  | error e =>
    cases ht : segment.toTs.encode with
    | ok bytes' =>
      rw [hr, ht] at h
      cases h
    | error e' => exact .inr ⟨e, e', rfl, rfl⟩

theorem Twin.queue (h : s.Twin t) (peer : Ts.JsString) (bytes : List U8) :
    Twin { s with outbound := s.outbound ++ [⟨peer, bytes⟩] } { t with outbound := t.outbound ++ [⟨peer, bytes⟩] } := by
  refine { h with outbound := ?_ }
  rw [List.map_append]
  exact h.outbound.append (.refl _ _)

theorem Twin.emitTo (peer : Ts.JsString) (segments : List Segment) (h : s.Twin t) :
    Agree Eq (Stack.emitTo peer segments s) (Ts.Stack.emitTo peer (segments.map Segment.toTs) t) := by
  induction segments generalizing s t with
  | nil => exact .done h rfl
  | cons segment rest ih =>
    rw [List.map_cons, Stack.emitTo, Ts.Stack.emitTo]
    obtain ⟨bytes, hr, ht⟩ | ⟨e, e', hr, ht⟩ := encode_pair segment
    · rw [hr, ht]
      exact ih (h.queue peer bytes)
    · rw [hr, ht]
      exact .failed h

theorem Twin.emit (h : s.Twin t) (id : ConnectionId) (segments : List Segment) :
    Agree Eq (s.emit id segments) (t.emit id.raw (segments.map Segment.toTs)) := by
  unfold Stack.emit Ts.Stack.emit
  cases hl : s.connections.lookup id with
  | none =>
    rw [h.connections.missing hl]
    exact .done h rfl
  | some c =>
    obtain ⟨c', hget, hc⟩ := h.connections.found hl
    simp only [hget, hc.peer]
    exact h.emitTo c.peer segments

theorem Twin.emitReset (h : s.Twin t) (peer : Ts.JsString) (segment : Segment) :
    Agree Eq (s.emitReset peer segment) (t.emitReset peer segment.toTs) := by
  rw [Ts.Stack.emitReset, resetFor_toTs]
  exact h.emitTo peer [resetFor segment]

theorem Twin.finishUpdate (h : s.Twin t) (id : ConnectionId) (update : Update) :
    Agree Eq (s.finishUpdate id update) (t.finishUpdate id.raw update.toTs) := by
  have hemit := h.emit id update.segments
  unfold Stack.finishUpdate Ts.Stack.finishUpdate
  rw [show update.toTs.segments = update.segments.map Segment.toTs from rfl, show update.toTs.closed = update.closed from rfl]
  generalize s.emit id update.segments = x at hemit
  generalize t.emit id.raw (update.segments.map Segment.toTs) = y at hemit
  cases hemit with
  | done htwin =>
    cases update.closed with
    | true => exact .done (htwin.removeConnection id) rfl
    | false => exact .done htwin rfl
  | failed htwin => exact .failed htwin

end Stack

end FipsTcp
