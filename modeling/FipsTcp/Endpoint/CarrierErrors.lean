/-
What a failed send costs.

Every method of the endpoint changes the stack first and flushes afterwards. When the carrier refuses a datagram, `connect`
takes its change back; `read` and `write` do not. `carrier_errors` says exactly when nothing is lost or accepted: when the
call had no byte to move. `carrier_error_loses_bytes` is a read whose bytes are gone, on an endpoint that a client reached
through the wire.
-/
import FipsTcp.Core.Endpoint
import FipsTcp.Stack.Edits

namespace FipsTcp

open Connection

namespace Connection

variable {P : Type} {config : Config} {c c' : Connection P} {nowMs : ℕ}

theorem flushLoop_progress (nowMs fuel : ℕ) (c : Connection P) : (flushLoop nowMs fuel c).1.sendProgress = c.sendProgress := by
  induction fuel generalizing c with
  | zero => rfl
  | succ fuel ih =>
    simp only [flushLoop]
    split_ifs
    · rfl
    · exact ih _

theorem flushData_progress (nowMs : ℕ) (c : Connection P) : (c.flushData nowMs).1.sendProgress = c.sendProgress := by
  unfold flushData flushFin
  split_ifs
  · simp only
    split_ifs
    · exact flushLoop_progress nowMs c.sendQueue.length c
    · exact flushLoop_progress nowMs c.sendQueue.length c
  · rfl

/-- what a write adds to the stream -/
theorem write_accepts {bytes : List U8} {count : ℕ} {out : List Segment}
    (h : c.write bytes nowMs config = .ok (c', count, out)) :
    count = min bytes.length (config.sendBuffer - c.buffered) ∧
      c'.sendProgress.acceptedPayloadBytes = c.sendProgress.acceptedPayloadBytes + count := by
  unfold write at h
  split_ifs at h
  simp only [Except.ok.injEq, Prod.mk.injEq] at h
  obtain ⟨rfl, rfl, -⟩ := h
  rw [flushData_progress]
  exact ⟨rfl, rfl⟩

end Connection

namespace Stack

variable {P : Type} [DecidableEq P] {s : Stack P} {id : ConnectionId} {nowMs : ℕ}

/-- a read that succeeded took its bytes from the connection -/
theorem read_ok {max : ℕ} {bytes : List U8} (h : (s.read id max).2 = .ok bytes) :
    ∃ c, s.connections.lookup id = some c ∧ (s.read id max).1.connections = s.connections.insert id (c.read max).1 := by
  unfold Stack.read at h ⊢
  cases hl : s.connections.lookup id with
  | none => rw [hl] at h; cases h
  | some c =>
    obtain ⟨queued, hframe⟩ := (s.setConnection id (c.read max).1).emit_frame id (c.read max).2.2
    simp only [hl] at h ⊢
    rcases hemit : (s.setConnection id (c.read max).1).emit id (c.read max).2.2 with ⟨s', e | u⟩
    · rw [hemit] at h; cases h
    · rw [hemit] at hframe
      exact ⟨c, rfl, congrArg Stack.connections hframe⟩

/-- a write that succeeded left its bytes with the connection -/
theorem write_ok {bytes : List U8} {result : ℕ × SendMarker} (h : (s.writeWithMarker id bytes nowMs).2 = .ok result) :
    ∃ c c' out, s.connections.lookup id = some c ∧ c.write bytes nowMs s.config.1 = .ok (c', result.1, out) ∧
      (s.writeWithMarker id bytes nowMs).1.connections = s.connections.insert id c' := by
  unfold writeWithMarker at h ⊢
  cases hl : s.connections.lookup id with
  | none => rw [hl] at h; cases h
  | some c =>
    simp only [hl] at h ⊢
    rcases hw : c.write bytes nowMs s.config.1 with e | ⟨c', count, out⟩
    · rw [hw] at h; cases h
    · obtain ⟨queued, hframe⟩ := (s.setConnection id c').emit_frame id out
      simp only [hw] at h ⊢
      rcases hemit : (s.setConnection id c').emit id out with ⟨s', e | u⟩
      · rw [hemit] at h; cases h
      · rw [hemit] at h hframe
        cases h
        exact ⟨c, c', out, rfl, hw, congrArg Stack.connections hframe⟩

theorem write_eq (s : Stack P) (id : ConnectionId) (bytes : List U8) (nowMs : ℕ) :
    (s.write id bytes nowMs).1 = (s.writeWithMarker id bytes nowMs).1 ∧
      ∀ count, (s.write id bytes nowMs).2 = .ok count → ∃ marker, (s.writeWithMarker id bytes nowMs).2 = .ok (count, marker) := by
  unfold write
  rcases s.writeWithMarker id bytes nowMs with ⟨s', e | ⟨count, marker⟩⟩
  · exact ⟨rfl, fun _ h => nomatch h⟩
  · exact ⟨rfl, fun _ h => by cases h; exact ⟨marker, rfl⟩⟩

/-- a connect that succeeded left a connection in SYN-SENT -/
theorem connectFromWithIsn_ok {peer : P} {localPort remotePort : U16} {isn : U32}
    (h : (s.connectFromWithIsn peer localPort remotePort isn nowMs).2 = .ok id) :
    ∃ c, c.state = .synSent ∧
      (s.connectFromWithIsn peer localPort remotePort isn nowMs).1.connections = s.connections.insert id c := by
  unfold connectFromWithIsn at h ⊢
  by_cases hport : localPort = 0 ∨ remotePort = 0
  · rw [if_pos hport] at h; cases h
  rw [if_neg hport] at h ⊢
  cases hcap : s.ensureConnectionCapacity peer with
  | error e => rw [hcap] at h; cases h
  | ok u =>
    simp only [hcap] at h ⊢
    by_cases hkey : ⟨peer, localPort, remotePort⟩ ∈ s.lookup
    · rw [if_pos hkey] at h; cases h
    rw [if_neg hkey] at h ⊢
    generalize hc : Connection.client peer localPort remotePort isn nowMs s.config.1 s.nextConnectionToken = result
    have hst : result.1.state = .synSent := by rw [← hc]; rfl
    have hid : s.allocateConnectionId.2 = ⟨s.nextConnectionId⟩ := rfl
    have htok : s.allocateConnectionId.1.nextToken.2 = s.nextConnectionToken := rfl
    obtain ⟨queued, hframe⟩ := emit_frame (s.allocateConnectionId.1.nextToken.1.insertConnection ⟨s.nextConnectionId⟩ result.1)
      ⟨s.nextConnectionId⟩ result.2
    simp only [hid, htok, hc] at h ⊢
    rcases hemit : (s.allocateConnectionId.1.nextToken.1.insertConnection ⟨s.nextConnectionId⟩ result.1).emit
      ⟨s.nextConnectionId⟩ result.2 with ⟨s', e | u⟩
    · rw [hemit] at h; cases h
    · rw [hemit] at h hframe
      cases h
      exact ⟨result.1, hst, congrArg Stack.connections hframe⟩

theorem connect_ok {peer : P} {remotePort : U16} (h : (s.connect peer remotePort nowMs).2 = .ok id) :
    ∃ c, c.state = .synSent ∧ (s.connect peer remotePort nowMs).1.connections = s.connections.insert id c := by
  unfold connect at h ⊢
  obtain ⟨cursor, hport⟩ : ∃ cursor, (s.allocateEphemeralPort peer remotePort).1 = { s with nextEphemeralPort := cursor } :=
    allocateEphemeralPortLoop_frame peer remotePort 16384 s
  rcases halloc : s.allocateEphemeralPort peer remotePort with ⟨s1, e | port⟩
  · rw [halloc] at h; cases h
  · rw [halloc] at h hport
    obtain ⟨c, hst, hconn⟩ := connectFromWithIsn_ok h
    exact ⟨c, hst, hconn.trans (congrArg (·.insert id c) (congrArg Stack.connections hport))⟩

/-- closing a connection in SYN-SENT removes it -/
theorem close_synSent {c : Connection P} (hl : s.connections.lookup id = some c) (hst : c.state = .synSent) :
    (s.close id nowMs).1.connections = s.connections.erase id := by
  have hclose : c.close nowMs = (c, .close []) := by unfold Connection.close; rw [hst]
  unfold Stack.close
  simp only [hl, hclose, Stack.setConnection, Table.insert_self hl, finishUpdate, emit, Update.close, emitTo, if_true,
    removeConnection]

end Stack

namespace FipsTcpEndpoint

variable {P E : Type} [DecidableEq P] {send : Carrier P E} {ep : FipsTcpEndpoint P} {id : ConnectionId}

/-- the call failed because a send failed -/
def SendFailed {α : Type} (result : Except (AdapterError E) α) : Prop := ∃ e, result = .error (.fips e)

/-- the bytes of a stream that its reader has not got yet -/
def unread (ep : FipsTcpEndpoint P) (id : ConnectionId) : List U8 :=
  ((ep.stack.connections.lookup id).map (·.recvQueue)).getD []

/-- the number of bytes a stream accepted from its writer -/
def acceptedBytes (ep : FipsTcpEndpoint P) (id : ConnectionId) : ℕ :=
  ((ep.stack.connections.lookup id).map (·.sendProgress.acceptedPayloadBytes)).getD 0

/-- the number of bytes that a stream has room for -/
def room (ep : FipsTcpEndpoint P) (id : ConnectionId) : ℕ :=
  ((ep.stack.connections.lookup id).map fun c => ep.stack.config.1.sendBuffer - c.buffered).getD 0

theorem flush_connections (send : Carrier P E) (ep : FipsTcpEndpoint P) :
    (ep.flush send).1.stack.connections = ep.stack.connections := rfl

/-- what a failed send leaves is what the stack did -/
theorem flushed_failed {α : Type} {result : Stack P × Except StackError α} (h : SendFailed (ep.flushed send result).2) :
    (∃ a, result.2 = .ok a) ∧ (ep.flushed send result).1.stack.connections = result.1.connections := by
  rcases result with ⟨stack, e | a⟩
  · obtain ⟨e', h⟩ := h
    cases h
  · refine ⟨⟨a, rfl⟩, ?_⟩
    simp only [flushed]
    rcases hf : FipsTcpEndpoint.flush send { ep with stack } with ⟨ep', e | u⟩ <;>
      · have := flush_connections send { ep with stack }
        rwa [hf] at this

/-- **A read whose send failed** has lost the bytes it took. -/
theorem read_failed {max : ℕ} (h : SendFailed (ep.read send id max).2) :
    (ep.read send id max).1.unread id = (ep.unread id).drop (min max (ep.unread id).length) := by
  obtain ⟨⟨bytes, hok⟩, hconn⟩ := flushed_failed h
  obtain ⟨c, hl, hc⟩ := Stack.read_ok hok
  have hafter : (ep.read send id max).1.stack.connections.lookup id = some (c.read max).1 := by
    rw [read, hconn, hc, Finmap.lookup_insert]
  rw [unread, unread, hafter, hl]; rfl

/-- **A write whose send failed** has left its bytes with the stream. -/
theorem writeWithMarker_failed {bytes : List U8} {nowMs : ℕ} (h : SendFailed (ep.writeWithMarker send id bytes nowMs).2) :
    (ep.writeWithMarker send id bytes nowMs).1.acceptedBytes id = ep.acceptedBytes id + min bytes.length (ep.room id) := by
  obtain ⟨⟨result, hok⟩, hconn⟩ := flushed_failed h
  obtain ⟨c, c', out, hl, hw, hc⟩ := Stack.write_ok hok
  obtain ⟨hcount, hacc⟩ := write_accepts hw
  have hafter : (ep.writeWithMarker send id bytes nowMs).1.stack.connections.lookup id = some c' := by
    rw [writeWithMarker, hconn, hc, Finmap.lookup_insert]
  simp only [acceptedBytes, room, hafter, hl, Option.map_some, Option.getD_some, hacc, hcount]

theorem write_failed {bytes : List U8} {nowMs : ℕ} (h : SendFailed (ep.write send id bytes nowMs).2) :
    (ep.write send id bytes nowMs).1.acceptedBytes id = ep.acceptedBytes id + min bytes.length (ep.room id) := by
  obtain ⟨⟨count, hok⟩, hconn⟩ := flushed_failed h
  obtain ⟨hsame, hmarker⟩ := ep.stack.write_eq id bytes nowMs
  obtain ⟨marker, hok'⟩ := hmarker count hok
  obtain ⟨c, c', out, hl, hw, hc⟩ := Stack.write_ok hok'
  obtain ⟨hcount, hacc⟩ := write_accepts hw
  have hafter : (ep.write send id bytes nowMs).1.stack.connections.lookup id = some c' := by
    rw [write, hconn, hsame, hc, Finmap.lookup_insert]
  simp only [acceptedBytes, room, hafter, hl, Option.map_some, Option.getD_some, hacc]
  rw [← hcount]

/-- **A connect whose send failed** has released its connection. -/
theorem connect_failed {peer : P} {nowMs : ℕ} (h : SendFailed (ep.connect send peer nowMs).2) :
    ∃ id, (ep.stack.connect peer ep.fspServicePort nowMs).2 = .ok id ∧
      (ep.connect send peer nowMs).1.stack.connections = ep.stack.connections.erase id := by
  unfold connect at h ⊢
  rcases hs : ep.stack.connect peer ep.fspServicePort nowMs with ⟨stack, e | id⟩
  · rw [hs] at h
    obtain ⟨e', h⟩ := h
    cases h
  · rw [hs] at h
    have hok : (ep.stack.connect peer ep.fspServicePort nowMs).2 = .ok id := by rw [hs]
    obtain ⟨c, hst, hconn⟩ := Stack.connect_ok hok
    rw [hs] at hconn
    have hstack := flush_connections send { ep with stack }
    simp only at h ⊢
    rcases hf : FipsTcpEndpoint.flush send { ep with stack } with ⟨ep', e | u⟩
    · rw [hf] at hstack
      refine ⟨id, rfl, ?_⟩
      have hall : ep'.stack.connections = ep.stack.connections.insert id c := hstack.trans hconn
      rw [Stack.close_synSent (by rw [hall, Finmap.lookup_insert]) hst, hall]
      exact Table.erase_insert _ _ _
    · rw [hf] at h
      obtain ⟨e', h⟩ := h
      cases h

end FipsTcpEndpoint

/-- **What a failed send costs.** Whatever state the endpoint is in and whichever send fails: a read keeps its bytes exactly
when it had none to take, a write leaves nothing behind exactly when it had nothing to accept, a connect retains nothing. -/
theorem carrier_errors {P E : Type} [DecidableEq P] (send : Carrier P E) (ep : FipsTcpEndpoint P) :
    (∀ id max, FipsTcpEndpoint.SendFailed (ep.read send id max).2 →
      ((ep.read send id max).1.unread id = ep.unread id ↔ max = 0 ∨ ep.unread id = [])) ∧
    (∀ id bytes nowMs, FipsTcpEndpoint.SendFailed (ep.write send id bytes nowMs).2 →
      ((ep.write send id bytes nowMs).1.acceptedBytes id = ep.acceptedBytes id ↔ bytes = [] ∨ ep.room id = 0)) ∧
    (∀ id bytes nowMs, FipsTcpEndpoint.SendFailed (ep.writeWithMarker send id bytes nowMs).2 →
      ((ep.writeWithMarker send id bytes nowMs).1.acceptedBytes id = ep.acceptedBytes id ↔ bytes = [] ∨ ep.room id = 0)) ∧
    (∀ peer nowMs, FipsTcpEndpoint.SendFailed (ep.connect send peer nowMs).2 →
      ∃ id, (ep.stack.connect peer ep.fspServicePort nowMs).2 = .ok id ∧
        id ∉ (ep.connect send peer nowMs).1.stack.connections) := by
  have hcount : ∀ (accepted room : ℕ) (bytes : List U8),
      accepted + min bytes.length room = accepted ↔ bytes = [] ∨ room = 0 := fun accepted room bytes => by
    rw [← List.length_eq_zero_iff]; omega
  refine ⟨fun id max h => ?_, fun id bytes nowMs h => ?_, fun id bytes nowMs h => ?_, fun peer nowMs h => ?_⟩
  · rw [FipsTcpEndpoint.read_failed h]
    constructor
    · intro heq
      have hlen := congrArg List.length heq
      rw [List.length_drop] at hlen
      rw [← List.length_eq_zero_iff]; omega
    · rintro (rfl | hnil)
      · rw [Nat.zero_min, List.drop_zero]
      · rw [hnil, List.drop_nil]
  · rw [FipsTcpEndpoint.write_failed h]; exact hcount _ _ _
  · rw [FipsTcpEndpoint.writeWithMarker_failed h]; exact hcount _ _ _
  · obtain ⟨id, hok, hconn⟩ := FipsTcpEndpoint.connect_failed h
    exact ⟨id, hok, by rw [hconn]; exact Finmap.notMem_erase_self⟩

/-- a carrier that takes every datagram -/
def deliverAll : Carrier ℕ Unit := fun _ _ _ _ _ => .ok ()

/-- a carrier that refuses every datagram -/
def refuseAll : Carrier ℕ Unit := fun _ _ _ _ _ => .error ()

/-- a listening endpoint after a client's SYN and its first two bytes -/
def reachedEndpoint : FipsTcpEndpoint ℕ :=
  (FipsTcpEndpoint.receiveReportFilteredDatagrams deliverAll
    ⟨80, ((Stack.new ⟨Config.default, Config.default_validate⟩ 5 1).listen 80).1⟩
    [⟨7, [35, 40, 0, 80, 0, 0, 0, 100, 0, 0, 0, 0, 112, 2, 255, 255, 0, 0, 0, 0, 2, 4, 4, 0, 254, 4, 1, 0]⟩,
      ⟨7, [35, 40, 0, 80, 0, 0, 0, 101, 66, 138, 161, 69, 80, 24, 255, 255, 0, 0, 0, 0, 5, 6]⟩] 0 fun _ _ => true).1

/-- **Lost bytes.** The window update that the read queued is refused, and the two bytes are gone. -/
theorem carrier_error_loses_bytes :
    FipsTcpEndpoint.SendFailed (reachedEndpoint.read refuseAll ⟨1⟩ 2).2 ∧ reachedEndpoint.unread ⟨1⟩ = [5, 6] ∧
      (reachedEndpoint.read refuseAll ⟨1⟩ 2).1.unread ⟨1⟩ = [] :=
  ⟨⟨(), by rfl⟩, by decide, by decide⟩

theorem carrier_errors_read :
    (reachedEndpoint.read refuseAll ⟨1⟩ 2).1.unread ⟨1⟩ ≠ reachedEndpoint.unread ⟨1⟩ := fun heq =>
  (((carrier_errors refuseAll reachedEndpoint).1 ⟨1⟩ 2 ⟨(), by rfl⟩).1 heq).elim (by decide) (by decide)

end FipsTcp
