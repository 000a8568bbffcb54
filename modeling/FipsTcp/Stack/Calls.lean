/-
What each operation of a stack does, as an equation.

A sound connection emits only segments that can be encoded, so the error branches behind `emit` are never taken, and an
operation has one of a few forms: it queues segments (`queue`), stores a connection and queues what it emitted (`put`),
removes a connection (`drop`), or makes one (`create`). The equations say which, together with the result of the call; what
an operation leaves alone can be read off them. `Call` lists what an operation can do and how it ends, and `perform_call` says
that the list is complete: a property of all operations is proved by cases on it.
-/
import FipsTcp.Connection.Sound
import FipsTcp.Core.Machine
import FipsTcp.Lib.Table

namespace FipsTcp

open Table Connection

namespace Stack

variable {P : Type} [DecidableEq P]

/-- what is queued for a segment that can be encoded -/
def datagram (peer : P) (segment : Segment) : Outbound P := ⟨peer, segment.encode.toOption.getD []⟩

/-- queue segments for a peer -/
def queue (s : Stack P) (peer : P) (segments : List Segment) : Stack P :=
  { s with outbound := s.outbound ++ segments.map (datagram peer) }

/-- store a connection and queue what it emitted -/
def put (s : Stack P) (id : ConnectionId) (c : Connection P) (segments : List Segment) : Stack P :=
  (s.setConnection id c).queue c.peer segments

/-- remove an entry from both maps -/
def drop (s : Stack P) (id : ConnectionId) (key : ConnectionKey P) : Stack P :=
  { s with connections := s.connections.erase id, lookup := s.lookup.erase key }

/-- the id that the next connection gets -/
def nextId (s : Stack P) : ConnectionId := ⟨s.nextConnectionId⟩

/-- enter a new connection and queue what it emitted -/
def create (s : Stack P) (c : Connection P) (segments : List Segment) : Stack P :=
  ((s.allocateConnectionId.1.nextToken.1).insertConnection s.nextId c).queue c.peer segments

/-- the cursors of the next port and of the next initial sequence number -/
def moveCursors (s : Stack P) (port : U16) (isn : BitVec 64) : Stack P := { s with nextEphemeralPort := port, isnState := isn }

/-- let a connection wait for `accept` -/
def enqueue (s : Stack P) (port : U16) (id : ConnectionId) : Stack P :=
  { s with accepts := s.accepts.insert port ((s.accepts.lookup port).getD [] ++ [id]) }

/-- remove a connection with what is queued for it, and queue a reset -/
def aborted (s : Stack P) (id : ConnectionId) (c : Connection P) : Stack P :=
  { s with outbound := s.outbound.filter (fun o => !belongsTo o c.key) ++ [datagram c.peer c.resetSegment] }.drop id c.key

/-- a SYN that a listener answers -/
def Opens (s : Stack P) (segment : Segment) : Prop :=
  segment.flags.contains .SYN = true ∧ ¬ segment.flags.contains .ACK = true ∧ segment.dstPort ∈ s.listeners

instance (s : Stack P) (segment : Segment) : Decidable (s.Opens segment) := by unfold Opens; infer_instance

/-- every retained connection is sound -/
def AllSound (s : Stack P) : Prop := ∀ id c, s.connections.lookup id = some c → c.Sound s.config.1

variable {s : Stack P} {id : ConnectionId} {c c' : Connection P} {segments : List Segment} {nowMs : ℕ}

/-! ## Emitting -/

/-- emitting only appends to what is queued, whatever the encoder says -/
theorem emitTo_frame (peer : P) (s : Stack P) (segments : List Segment) :
    ∃ out, (emitTo peer segments s).1 = { s with outbound := s.outbound ++ out } := by
  induction segments generalizing s with
  | nil => exact ⟨[], by rw [List.append_nil]; rfl⟩
  | cons segment rest ih =>
    unfold emitTo
    cases segment.encode with
    | error e => exact ⟨[], by rw [List.append_nil]⟩
    | ok bytes =>
      obtain ⟨out, h⟩ := ih { s with outbound := s.outbound ++ [⟨peer, bytes⟩] }
      exact ⟨⟨peer, bytes⟩ :: out, by rw [h]; simp only [List.append_assoc, List.cons_append, List.nil_append]⟩

theorem emit_frame (s : Stack P) (id : ConnectionId) (segments : List Segment) :
    ∃ out, (s.emit id segments).1 = { s with outbound := s.outbound ++ out } := by
  unfold emit
  cases s.connections.lookup id with
  | none => exact ⟨[], by rw [List.append_nil]⟩
  | some c => exact emitTo_frame c.peer s segments

theorem emitTo_eq (peer : P) (s : Stack P) (segments : List Segment) (h : ∀ segment ∈ segments, segment.Encodes) :
    emitTo peer segments s = (s.queue peer segments, .ok ()) := by
  induction segments generalizing s with
  | nil => simp [emitTo, queue]
  | cons segment rest ih =>
    obtain ⟨bytes, hb⟩ := h segment List.mem_cons_self
    have hd : datagram peer segment = ⟨peer, bytes⟩ := by rw [datagram, hb]; rfl
    rw [emitTo, hb]
    simp only
    rw [ih _ fun x hx => h x (List.mem_cons_of_mem _ hx)]
    simp only [queue, List.map_cons, hd, List.append_assoc, List.cons_append, List.nil_append]

theorem emit_eq (hl : s.connections.lookup id = some c) (h : ∀ segment ∈ segments, segment.Encodes) :
    s.emit id segments = (s.queue c.peer segments, .ok ()) := by
  rw [emit, hl]
  exact emitTo_eq c.peer s segments h

theorem emitReset_eq (peer : P) (s : Stack P) {segment : Segment} (hp : segment.srcPort ≠ 0 ∧ segment.dstPort ≠ 0) :
    s.emitReset peer segment = (s.queue peer [resetFor segment], .ok ()) := by
  apply emitTo_eq
  intro x hx
  rw [List.mem_singleton.1 hx]
  exact resetFor_encodes hp.1 hp.2

theorem lookup_setConnection (s : Stack P) (id : ConnectionId) (c : Connection P) :
    (s.setConnection id c).connections.lookup id = some c := Finmap.lookup_insert _

/-- the entry of a stored connection is in both maps -/
theorem drop_setConnection (s : Stack P) (id : ConnectionId) (hk : c'.key = c.key) :
    (s.setConnection id c').removeConnection id = s.drop id c.key := by
  rw [removeConnection, lookup_setConnection]
  simp only [setConnection, erase_insert, hk]
  rfl

omit [DecidableEq P] in
theorem key_of_stable (h : c'.stable = c.stable) : c'.key = c.key := by
  have h1 := congrArg Stable.peer h
  have h2 := congrArg Stable.localPort h
  have h3 := congrArg Stable.remotePort h
  simp only [stable] at h1 h2 h3
  simp only [Connection.key, h1, h2, h3]

/-! ## One connection -/

section Retained

variable (hl : s.connections.lookup id = some c) (hc : c.Sound s.config.1)
include hl hc

theorem writeWithMarker_eq {bytes : List U8} {count : ℕ} (hw : c.write bytes nowMs s.config.1 = .ok (c', count, segments)) :
    s.writeWithMarker id bytes nowMs = (s.put id c' segments, .ok (count, c'.sendProgress.marker id)) := by
  have hk := hc.write s.config.valid hw
  unfold writeWithMarker
  simp only [hl, hw]
  rw [emit_eq (s.lookup_setConnection id c') hk.encodes]
  rfl

theorem read_eq (max : ℕ) :
    s.read id max = (s.put id (c.read max).1 (c.read max).2.2, .ok (c.read max).2.1) := by
  have hk := hc.read s.config.valid max
  unfold Stack.read
  simp only [hl]
  rw [emit_eq (s.lookup_setConnection id _) hk.encodes]
  rfl

theorem close_eq :
    s.close id nowMs =
      (if (c.close nowMs).2.closed then s.drop id c.key else s.put id (c.close nowMs).1 (c.close nowMs).2.segments,
        .ok ()) := by
  have hk := hc.close s.config.valid nowMs
  have hseg : (c.close nowMs).2.closed = true → (c.close nowMs).2.segments = [] := fun h => by
    unfold Connection.close at h ⊢
    split at h <;> first | rfl | cases h
  unfold Stack.close finishUpdate
  simp only [hl]
  rw [emit_eq (s.lookup_setConnection id _) hk.encodes]
  cases hcl : (c.close nowMs).2.closed with
  | false => simp only [Bool.false_eq_true, if_false]; rfl
  | true =>
    simp only [if_true, hseg hcl, queue, List.map_nil, List.append_nil]
    rw [← drop_setConnection s id (key_of_stable hk.key)]

theorem abort_eq : s.abort id = (s.aborted id c, .ok ()) := by
  obtain ⟨bytes, hb⟩ : c.resetSegment.Encodes := buildSegment_encodes hc.ports.1 hc.ports.2 []
  unfold abort
  simp only [hl, hb, removeConnection, aborted, drop, datagram]
  rfl

theorem pollOne_eq (t : ℕ) :
    pollOne t s id =
      if (c.poll t s.config.1).2.closed then s.drop id c.key
      else s.put id (c.poll t s.config.1).1 (c.poll t s.config.1).2.segments := by
  obtain ⟨hopen, hst⟩ := hc.poll s.config.valid t
  unfold pollOne
  simp only [hl]
  cases hcl : (c.poll t s.config.1).2.closed with
  | false =>
    rw [emit_eq (s.lookup_setConnection id _) (hopen hcl).encodes]
    simp only [Bool.false_eq_true, if_false]; rfl
  | true =>
    have hseg : (c.poll t s.config.1).2.segments = [] := by
      have h := poll_cases s.config.valid hc.timed hc.settled hc.mss t
      generalize c.poll t s.config.1 = result at h hcl
      cases h with
      | idle => cases hcl
      | gone => rfl
      | acted => cases hcl
    have hnil : ∀ segment ∈ ([] : List Segment), segment.Encodes := fun _ hx => nomatch hx
    rw [hseg, emit_eq (s.lookup_setConnection id _) hnil]
    simp only [if_true, queue, List.map_nil, List.append_nil]
    rw [← drop_setConnection s id (key_of_stable hst)]

end Retained

/-! ## New connections -/

/-- the allocation of a port moves its cursor only -/
theorem allocateEphemeralPortLoop_frame (peer : P) (remotePort : U16) (attempts : ℕ) (s : Stack P) :
    ∃ port, (allocateEphemeralPortLoop peer remotePort attempts s).1 = { s with nextEphemeralPort := port } := by
  induction attempts generalizing s with
  | zero => exact ⟨s.nextEphemeralPort, rfl⟩
  | succ attempts ih =>
    simp only [allocateEphemeralPortLoop]
    generalize (if s.nextEphemeralPort = 65535 then (49152 : U16) else s.nextEphemeralPort + 1) = port
    split_ifs
    · exact ih { s with nextEphemeralPort := port }
    · exact ⟨port, rfl⟩

section Created

variable {peer : P} {localPort remotePort : U16} {isn : U32} {segment : Segment}

theorem connectFromWithIsn_eq (hl : localPort ≠ 0) (hr : remotePort ≠ 0) (hcap : s.ensureConnectionCapacity peer = .ok ())
    (hkey : ⟨peer, localPort, remotePort⟩ ∉ s.lookup) :
    let result := Connection.client peer localPort remotePort isn nowMs s.config.1 s.nextConnectionToken
    s.connectFromWithIsn peer localPort remotePort isn nowMs = (s.create result.1 result.2, .ok s.nextId) := by
  intro result
  obtain ⟨-, -, -, -, henc⟩ := sound_client s.config.valid peer hl hr isn nowMs s.nextConnectionToken
  have hemit : (s.allocateConnectionId.1.nextToken.1.insertConnection s.nextId result.1).emit s.nextId result.2 =
      (s.create result.1 result.2, .ok ()) := emit_eq (Finmap.lookup_insert _) henc
  unfold connectFromWithIsn
  rw [if_neg (not_or.2 ⟨hl, hr⟩), hcap]
  simp only [if_neg hkey]
  simp only [allocateConnectionId, nextToken, nextId] at hemit ⊢
  rw [hemit]

/-- an error that does not come from the encoder or the decoder -/
def NoWire (error : StackError) : Prop := ∀ e, error ≠ .wire e

/-- admission has one error -/
theorem capacity_limit {e : StackError} (h : s.ensureConnectionCapacity peer = .error e) : e = .connectionLimit := by
  unfold ensureConnectionCapacity at h
  split_ifs at h
  · exact (Except.error.inj h).symm
  · split at h
    · split_ifs at h
      exact (Except.error.inj h).symm
    · cases h

theorem capacity_noWire {e : StackError} (h : s.ensureConnectionCapacity peer = .error e) : NoWire e := by
  rw [capacity_limit h]
  exact fun _ h => nomatch h

/-- a connect that fails changes nothing -/
theorem connectFromWithIsn_cases (s : Stack P) (peer : P) (localPort remotePort : U16) (isn : U32) (nowMs : ℕ) :
    (∃ e, s.connectFromWithIsn peer localPort remotePort isn nowMs = (s, .error e) ∧ NoWire e) ∨
      localPort ≠ 0 ∧ remotePort ≠ 0 ∧ s.ensureConnectionCapacity peer = .ok () ∧
        (⟨peer, localPort, remotePort⟩ : ConnectionKey P) ∉ s.lookup := by
  unfold connectFromWithIsn
  by_cases hport : localPort = 0 ∨ remotePort = 0
  · exact .inl ⟨.zeroPort, if_pos hport, fun _ h => nomatch h⟩
  rw [if_neg hport]
  cases hcap : s.ensureConnectionCapacity peer with
  | error e => exact .inl ⟨e, rfl, capacity_noWire hcap⟩
  | ok u =>
    by_cases hkey : (⟨peer, localPort, remotePort⟩ : ConnectionKey P) ∈ s.lookup
    · exact .inl ⟨.connectionExists, if_pos hkey, fun _ h => nomatch h⟩
    · exact .inr ⟨(not_or.1 hport).1, (not_or.1 hport).2, rfl, hkey⟩

theorem inputSyn_eq (hp : segment.srcPort ≠ 0 ∧ segment.dstPort ≠ 0) (hv : segment.supportsFipsVersion FIPS_VERSION = true)
    (hcap : s.ensureConnectionCapacity peer = .ok ()) :
    let result := Connection.server peer segment s.nextIsn.2 nowMs s.config.1 s.nextConnectionToken
    s.inputSyn peer segment nowMs = (s.nextIsn.1.create result.1 result.2, .ok ()) := by
  intro result
  obtain ⟨-, -, -, -, henc⟩ := sound_server s.config.valid peer hp s.nextIsn.2 nowMs s.nextConnectionToken
  have hemit : (s.allocateConnectionId.1.nextIsn.1.nextToken.1.insertConnection s.nextId result.1).emit s.nextId result.2 =
      (s.nextIsn.1.create result.1 result.2, .ok ()) := emit_eq (Finmap.lookup_insert _) henc
  unfold inputSyn
  rw [if_pos hv, hcap]
  exact hemit

end Created

/-! ## Segments of a retained connection -/

omit [DecidableEq P] in
theorem onReset_accepted (segment : Segment) : (c.onReset segment).accepted = false := by
  unfold onReset
  split_ifs
  · split
    · split_ifs <;> rfl
    · rfl
  all_goals rfl

omit [DecidableEq P] in
/-- what removes the connection completes no handshake -/
theorem onSegment_closed {config : Config} {segment : Segment} (h : (c.onSegment segment nowMs config).2.closed = true) :
    (c.onSegment segment nowMs config).2.accepted = false := by
  unfold onSegment at h ⊢
  split_ifs with hrst
  · exact onReset_accepted segment
  · rw [if_neg hrst] at h
    split at h
    · unfold onSynSent; split_ifs <;> rfl
    · unfold onSynReceived at h ⊢
      split_ifs at h ⊢
      · rfl
      · rfl
    · unfold onSynchronized
      simp only
      split_ifs <;> rfl

/-- what a segment does to the connection it is for -/
def onRetained (s : Stack P) (id : ConnectionId) (c : Connection P) (segment : Segment) (nowMs : ℕ) : Stack P :=
  let result := c.onSegment segment nowMs s.config.1
  if result.2.closed then s.drop id c.key
  else (if result.2.accepted then s.enqueue result.1.localPort id else s).put id result.1 result.2.segments

theorem inputRetained_eq (hl : s.connections.lookup id = some c) (hc : c.Sound s.config.1) (peer : P) {segment : Segment}
    (hp : segment.srcPort ≠ 0 ∧ segment.dstPort ≠ 0) :
    s.inputRetained peer id segment nowMs =
      (if c.unacceptableAck segment then s.queue peer [resetFor segment]
        else if c.unexpectedSyn segment then s.queue c.peer [c.ackSegment]
        else s.onRetained id c segment nowMs, .ok ()) := by
  obtain ⟨hopen, hclosed⟩ := hc.input s.config.valid hp nowMs
  unfold inputRetained
  simp only [hl]
  by_cases h1 : c.unacceptableAck segment = true
  · rw [if_pos h1, if_pos h1, emitReset_eq peer s hp]; rfl
  by_cases h2 : c.unexpectedSyn segment = true
  · have hack : ∀ x ∈ [c.ackSegment], x.Encodes := fun x hx => by
      rw [List.mem_singleton.1 hx]; exact buildSegment_encodes hc.ports.1 hc.ports.2 []
    rw [if_neg h1, if_pos h2, if_neg h1, if_pos h2, emit_eq hl hack]; rfl
  rw [Connection.input, if_neg h1, if_neg h2] at hopen hclosed
  rw [if_neg h1, if_neg h2, if_neg h1, if_neg h2, onRetained]
  have haccepted : (c.onSegment segment nowMs s.config.1).2.closed = true →
    (c.onSegment segment nowMs s.config.1).2.accepted = false := onSegment_closed
  generalize c.onSegment segment nowMs s.config.1 = result at hopen hclosed haccepted ⊢
  obtain ⟨c', update⟩ := result
  simp only at hopen hclosed haccepted ⊢
  cases hcl : update.closed with
  | true =>
    obtain ⟨hseg, hst⟩ := hclosed hcl
    have hnil : ∀ segment ∈ ([] : List Segment), segment.Encodes := fun _ hx => nomatch hx
    simp only [haccepted hcl, Bool.false_eq_true, if_false, finishUpdate, hseg, hcl, if_true]
    rw [emit_eq (s.lookup_setConnection id c') hnil]
    simp only [queue, List.map_nil, List.append_nil, lift]
    rw [← drop_setConnection s id (key_of_stable hst)]
  | false =>
    have hk := hopen hcl
    -- the entry that waits for `accept` does not touch the table
    have hfinish : ∀ s1 : Stack P, (s1.setConnection id c').finishUpdate id update = (s1.put id c' update.segments, .ok ()) := by
      intro s1
      rw [finishUpdate, emit_eq (s1.lookup_setConnection id c') hk.encodes]
      simp only [hcl, Bool.false_eq_true, if_false]; rfl
    cases update.accepted with
    | false => exact congrArg lift (hfinish s)
    | true => exact congrArg lift (hfinish (s.enqueue c'.localPort id))

/-! ## Every operation -/

/-- an operation that concerns no retained connection, or that its connection refuses -/
def Inert (s : Stack P) : StackOp P → Prop
  | .write id bytes nowMs => ∀ c, s.connections.lookup id = some c → ∃ e, c.write bytes nowMs s.config.1 = .error e
  | .read id _ | .close id _ | .abort id => s.connections.lookup id = none
  | .input peer bytes _ => ∀ segment, Segment.decode bytes = .ok segment →
      s.lookup.lookup ⟨peer, segment.dstPort, segment.srcPort⟩ = none
  | .poll _ _ | .abortPeer _ _ => False
  | _ => True

/-- what an operation can do, and how it ends -/
inductive Call (s : Stack P) : StackOp P → Stack P → Except Failure Unit → Prop
  | refused (op : StackOp P) (error : StackError) (h : NoWire error) (hop : s.Inert op) :
      Call s op s (.error (.error error))
  | connectRefused (peer : P) (remotePort : U16) (nowMs : ℕ) (port : U16) (isn : BitVec 64) (error : StackError)
      (h : NoWire error) : Call s (.connect peer remotePort nowMs) (s.moveCursors port isn) (.error (.error error))
  | connected (op : StackOp P) (peer : P) (localPort remotePort : U16) (isn : U32) (nowMs : ℕ) (port : U16)
      (cursor : BitVec 64)
      (hop : op = .connect peer remotePort nowMs ∨ op = .connectFromWithIsn peer localPort remotePort isn nowMs)
      (hl : localPort ≠ 0) (hr : remotePort ≠ 0) (hcap : s.ensureConnectionCapacity peer = .ok ())
      (hkey : s.lookup.lookup ⟨peer, localPort, remotePort⟩ = none) :
      Call s op ((s.moveCursors port cursor).create
        (Connection.client peer localPort remotePort isn nowMs s.config.1 s.nextConnectionToken).1
        (Connection.client peer localPort remotePort isn nowMs s.config.1 s.nextConnectionToken).2) (.ok ())
  | listened (port : U16) (h0 : port ≠ 0) (hnew : port ∉ s.listeners) :
      Call s (.listen port) { s with
        listeners := insert port s.listeners
        accepts := if port ∈ s.accepts then s.accepts else s.accepts.insert port [] } (.ok ())
  | closedListener (port : U16) : Call s (.closeListener port) (s.closeListener port) (.ok ())
  | accepted (port : U16) : Call s (.accept port) (s.accept port).1 (.ok ())
  | malformed (peer : P) (bytes : List U8) (nowMs : ℕ) (error : WireError) (hdec : Segment.decode bytes = .error error) :
      Call s (.input peer bytes nowMs) s (.error (.error (.wire error)))
  | stale (peer : P) (bytes : List U8) (nowMs : ℕ) (segment : Segment) (id : ConnectionId)
      (hdec : Segment.decode bytes = .ok segment)
      (hkey : s.lookup.lookup ⟨peer, segment.dstPort, segment.srcPort⟩ = some id) (hl : s.connections.lookup id = none) :
      Call s (.input peer bytes nowMs) s (.error .panic)
  | ignored (peer : P) (bytes : List U8) (nowMs : ℕ) (segment : Segment) (hdec : Segment.decode bytes = .ok segment)
      (hkey : s.lookup.lookup ⟨peer, segment.dstPort, segment.srcPort⟩ = none)
      (hrst : segment.flags.contains .RST = true) : Call s (.input peer bytes nowMs) s (.ok ())
  | rejected (peer : P) (bytes : List U8) (nowMs : ℕ) (segment : Segment) (hdec : Segment.decode bytes = .ok segment)
      (hkey : s.lookup.lookup ⟨peer, segment.dstPort, segment.srcPort⟩ = none)
      (hrst : segment.flags.contains .RST = true → s.Opens segment ∧ ¬ segment.supportsFipsVersion FIPS_VERSION) :
      Call s (.input peer bytes nowMs) (s.queue peer [resetFor segment]) (.ok ())
  | opened (peer : P) (bytes : List U8) (nowMs : ℕ) (segment : Segment) (hdec : Segment.decode bytes = .ok segment)
      (hkey : s.lookup.lookup ⟨peer, segment.dstPort, segment.srcPort⟩ = none) (hopen : s.Opens segment)
      (hver : segment.supportsFipsVersion FIPS_VERSION = true) (hcap : s.ensureConnectionCapacity peer = .ok ()) :
      Call s (.input peer bytes nowMs) (s.nextIsn.1.create
        (Connection.server peer segment s.nextIsn.2 nowMs s.config.1 s.nextConnectionToken).1
        (Connection.server peer segment s.nextIsn.2 nowMs s.config.1 s.nextConnectionToken).2) (.ok ())
  | reset (peer : P) (bytes : List U8) (nowMs : ℕ) (segment : Segment) (id : ConnectionId) (c : Connection P)
      (hdec : Segment.decode bytes = .ok segment)
      (hkey : s.lookup.lookup ⟨peer, segment.dstPort, segment.srcPort⟩ = some id) (hl : s.connections.lookup id = some c)
      (h : c.unacceptableAck segment = true) :
      Call s (.input peer bytes nowMs) (s.queue peer [resetFor segment]) (.ok ())
  | challenged (peer : P) (bytes : List U8) (nowMs : ℕ) (segment : Segment) (id : ConnectionId) (c : Connection P)
      (hdec : Segment.decode bytes = .ok segment)
      (hkey : s.lookup.lookup ⟨peer, segment.dstPort, segment.srcPort⟩ = some id) (hl : s.connections.lookup id = some c)
      (h : c.unacceptableAck segment = false) (h' : c.unexpectedSyn segment = true) :
      Call s (.input peer bytes nowMs) (s.queue c.peer [c.ackSegment]) (.ok ())
  | handled (peer : P) (bytes : List U8) (nowMs : ℕ) (segment : Segment) (id : ConnectionId) (c : Connection P)
      (hdec : Segment.decode bytes = .ok segment)
      (hkey : s.lookup.lookup ⟨peer, segment.dstPort, segment.srcPort⟩ = some id) (hl : s.connections.lookup id = some c)
      (h : c.unacceptableAck segment = false) (h' : c.unexpectedSyn segment = false) :
      Call s (.input peer bytes nowMs) (s.onRetained id c segment nowMs) (.ok ())
  | wrote (id : ConnectionId) (bytes : List U8) (nowMs : ℕ) (c c' : Connection P) (count : ℕ) (segments : List Segment)
      (hl : s.connections.lookup id = some c) (hw : c.write bytes nowMs s.config.1 = .ok (c', count, segments)) :
      Call s (.write id bytes nowMs) (s.put id c' segments) (.ok ())
  | read (id : ConnectionId) (max : ℕ) (c : Connection P) (hl : s.connections.lookup id = some c) :
      Call s (.read id max) (s.put id (c.read max).1 (c.read max).2.2) (.ok ())
  | closed (id : ConnectionId) (nowMs : ℕ) (c : Connection P) (hl : s.connections.lookup id = some c) :
      Call s (.close id nowMs)
        (if (c.close nowMs).2.closed then s.drop id c.key else s.put id (c.close nowMs).1 (c.close nowMs).2.segments)
        (.ok ())
  | aborted (id : ConnectionId) (c : Connection P) (hl : s.connections.lookup id = some c) :
      Call s (.abort id) (s.aborted id c) (.ok ())
  | abortedPeer (peer : P) (ids : List ConnectionId) (hids : IsOrderOf ids (s.peerConnections peer)) :
      Call s (.abortPeer peer ids) (abortAll ids s).1 (.ok ())
  | polled (ids : List ConnectionId) (nowMs : ℕ) (hids : IsOrderOf ids s.connections.keys) :
      Call s (.poll ids nowMs) (s.poll ids nowMs) (.ok ())
  | unpolled (ids : List ConnectionId) (nowMs : ℕ) (hids : ¬ IsOrderOf ids s.connections.keys) :
      Call s (.poll ids nowMs) s (.ok ())
  | unabortedPeer (peer : P) (ids : List ConnectionId) (hids : ¬ IsOrderOf ids (s.peerConnections peer)) :
      Call s (.abortPeer peer ids) s (.ok ())
  | reserved (slots : ℕ) (eligible : P → Bool) :
      Call s (.setConnectionReservation slots eligible)
        { s with reservation := if slots ≠ 0 then some ⟨slots, eligible⟩ else none } (.ok ())
  | drained : Call s .drainOutbound s.drainOutbound.1 (.ok ())

theorem AllSound.aborted (h : s.AllSound) (id : ConnectionId) (c : Connection P) : (s.aborted id c).AllSound := by
  intro i x hx
  have hi : i ≠ id := fun hi => by rw [hi] at hx; exact nomatch (Finmap.lookup_erase _ _).symm.trans hx
  exact h i x ((Finmap.lookup_erase_ne hi).symm.trans hx)

/-- aborting retained connections one after the other never fails -/
theorem abortAll_ok {ids : List ConnectionId} (hs : s.AllSound) (hn : ids.Nodup) (hids : ∀ id ∈ ids, id ∈ s.connections) :
    (abortAll ids s).2 = .ok () := by
  induction ids generalizing s with
  | nil => rfl
  | cons id ids ih =>
    obtain ⟨hid, hn⟩ := List.nodup_cons.1 hn
    obtain ⟨c, hl⟩ := Finmap.mem_iff.1 (hids id List.mem_cons_self)
    unfold abortAll
    rw [abort_eq hl (hs id c hl)]
    refine ih (hs.aborted id c) hn fun i hi => Finmap.mem_erase.2 ⟨?_, hids i (List.mem_cons_of_mem _ hi)⟩
    rintro rfl
    exact hid hi

theorem noPort_noWire (peer : P) (remotePort : U16) (attempts : ℕ) (s : Stack P) {e : StackError}
    (h : (allocateEphemeralPortLoop peer remotePort attempts s).2 = .error e) : NoWire e := by
  induction attempts generalizing s with
  | zero => cases h; exact fun _ h => nomatch h
  | succ attempts ih =>
    simp only [allocateEphemeralPortLoop] at h
    generalize (if s.nextEphemeralPort = 65535 then (49152 : U16) else s.nextEphemeralPort + 1) = port at h
    split_ifs at h
    exact ih _ h

theorem connect_call (s : Stack P) (peer : P) (remotePort : U16) (nowMs : ℕ) :
    Call s (.connect peer remotePort nowMs) (s.perform (.connect peer remotePort nowMs)).1
      (s.perform (.connect peer remotePort nowMs)).2 := by
  obtain ⟨port, hport⟩ := allocateEphemeralPortLoop_frame peer remotePort 16384 s
  have hwire := fun e => noPort_noWire peer remotePort 16384 s (e := e)
  simp only [perform, connect, allocateEphemeralPort]
  rcases hp : allocateEphemeralPortLoop peer remotePort 16384 s with ⟨s1, e | localPort⟩ <;> rw [hp] at hport hwire <;>
    simp only at hport hwire ⊢ <;> subst hport
  · exact .connectRefused peer remotePort nowMs port s.isnState e (hwire e rfl)
  · rcases connectFromWithIsn_cases (s.moveCursors port s.nextIsn.1.isnState) peer localPort remotePort s.nextIsn.2 nowMs with
      ⟨e, h, hw⟩ | ⟨hl, hr, hcap, hkey⟩
    · refine (congrArg outcome h) ▸ ?_
      exact .connectRefused peer remotePort nowMs port _ e hw
    · refine (congrArg outcome (connectFromWithIsn_eq hl hr hcap hkey)) ▸ ?_
      exact .connected _ peer localPort remotePort s.nextIsn.2 nowMs port s.nextIsn.1.isnState (.inl rfl) hl hr hcap
        (Finmap.lookup_eq_none.2 hkey)

theorem input_call (hs : s.AllSound) (peer : P) (bytes : List U8) (nowMs : ℕ) :
    Call s (.input peer bytes nowMs) (s.input peer bytes nowMs).1 (s.input peer bytes nowMs).2 := by
  unfold input
  cases hdec : Segment.decode bytes with
  | error e => exact .malformed peer bytes nowMs e hdec
  | ok segment =>
    have hp := Segment.decode_ports hdec
    simp only
    cases hkey : s.lookup.lookup ⟨peer, segment.dstPort, segment.srcPort⟩ with
    | some id =>
      simp only
      cases hl : s.connections.lookup id with
      | none =>
        unfold inputRetained
        rw [hl]
        exact .stale peer bytes nowMs segment id hdec hkey hl
      | some c =>
        rw [inputRetained_eq hl (hs id c hl) peer hp]
        simp only
        split_ifs with h1 h2
        · exact .reset peer bytes nowMs segment id c hdec hkey hl h1
        · exact .challenged peer bytes nowMs segment id c hdec hkey hl (by simpa using h1) h2
        · exact .handled peer bytes nowMs segment id c hdec hkey hl (by simpa using h1) (by simpa using h2)
    | none =>
      simp only
      rw [emitReset_eq peer s hp]
      split_ifs with hsyn hrst
      · by_cases hv : segment.supportsFipsVersion FIPS_VERSION = true
        · cases hcap : s.ensureConnectionCapacity peer with
          | error e =>
            have h : s.inputSyn peer segment nowMs = (s, .error e) := by unfold inputSyn; rw [if_pos hv, hcap]
            rw [h]
            refine .refused _ e (capacity_noWire hcap) fun x hx => ?_
            rw [hdec] at hx
            cases hx; exact hkey
          | ok u =>
            rw [inputSyn_eq hp hv hcap]
            exact .opened peer bytes nowMs segment hdec hkey hsyn hv hcap
        · have h : s.inputSyn peer segment nowMs = (s.queue peer [resetFor segment], .ok ()) := by
            unfold inputSyn
            rw [if_neg hv, emitReset_eq peer s hp]
          rw [h]
          exact .rejected peer bytes nowMs segment hdec hkey fun _ => ⟨hsyn, hv⟩
      · exact .ignored peer bytes nowMs segment hdec hkey hrst
      · exact .rejected peer bytes nowMs segment hdec hkey fun h => absurd h hrst

/-- **The list is complete.** -/
theorem perform_call (hs : s.AllSound) (op : StackOp P) : Call s op (s.perform op).1 (s.perform op).2 := by
  have hunknown : NoWire .unknownConnection := fun _ h => nomatch h
  cases op with
  | listen port =>
    simp only [perform, listen]
    by_cases h1 : port = 0
    · rw [if_pos h1]; exact .refused _ _ (fun _ h => nomatch h) trivial
    by_cases h2 : port ∈ s.listeners
    · rw [if_neg h1, if_pos h2]; exact .refused _ _ (fun _ h => nomatch h) trivial
    · rw [if_neg h1, if_neg h2]; exact .listened port h1 h2
  | closeListener port => exact .closedListener port
  | accept port => exact .accepted port
  | connect peer remotePort nowMs => exact connect_call s peer remotePort nowMs
  | connectFromWithIsn peer localPort remotePort isn nowMs =>
    simp only [perform]
    rcases connectFromWithIsn_cases s peer localPort remotePort isn nowMs with ⟨e, h, hw⟩ | ⟨hl, hr, hcap, hkey⟩
    · rw [h]; exact .refused _ e hw trivial
    · rw [connectFromWithIsn_eq hl hr hcap hkey]
      exact .connected _ peer localPort remotePort isn nowMs s.nextEphemeralPort s.isnState (.inr rfl) hl hr hcap
        (Finmap.lookup_eq_none.2 hkey)
  | input peer bytes nowMs => exact input_call hs peer bytes nowMs
  | poll ids nowMs =>
    simp only [perform]
    split_ifs with h
    · exact .polled ids nowMs h
    · exact .unpolled ids nowMs h
  | write id bytes nowMs =>
    simp only [perform]
    cases hl : s.connections.lookup id with
    | none =>
      have h : s.writeWithMarker id bytes nowMs = (s, .error .unknownConnection) := by unfold writeWithMarker; rw [hl]
      rw [h]
      exact .refused _ _ hunknown fun c hc => by rw [hl] at hc; cases hc
    | some c =>
      rcases hw : c.write bytes nowMs s.config.1 with e | ⟨c', count, segments⟩
      · have h : s.writeWithMarker id bytes nowMs = (s, .error e) := by unfold writeWithMarker; simp only [hl, hw]
        rw [h]
        refine .refused _ e ?_ fun x hx => ?_
        · unfold Connection.write at hw
          split_ifs at hw
          cases hw
          exact fun _ h => nomatch h
        · rw [hl] at hx
          cases hx; exact ⟨e, hw⟩
      · rw [writeWithMarker_eq hl (hs id c hl) hw]
        exact .wrote id bytes nowMs c c' count segments hl hw
  | read id max =>
    simp only [perform]
    cases hl : s.connections.lookup id with
    | none =>
      have h : s.read id max = (s, .error .unknownConnection) := by unfold Stack.read; rw [hl]
      rw [h]; exact .refused _ _ hunknown hl
    | some c => rw [read_eq hl (hs id c hl)]; exact .read id max c hl
  | close id nowMs =>
    simp only [perform]
    cases hl : s.connections.lookup id with
    | none =>
      have h : s.close id nowMs = (s, .error .unknownConnection) := by unfold Stack.close; rw [hl]
      rw [h]; exact .refused _ _ hunknown hl
    | some c => rw [close_eq hl (hs id c hl)]; exact .closed id nowMs c hl
  | abort id =>
    simp only [perform]
    cases hl : s.connections.lookup id with
    | none =>
      have h : s.abort id = (s, .error .unknownConnection) := by unfold abort; rw [hl]
      rw [h]; exact .refused _ _ hunknown hl
    | some c => rw [abort_eq hl (hs id c hl)]; exact .aborted id c hl
  | abortPeer peer ids =>
    simp only [perform]
    split_ifs with hids
    · have hmem : ∀ id ∈ ids, id ∈ s.connections := fun id hid => by
        have h : id ∈ s.peerConnections peer := by rw [← hids.2]; exact List.mem_toFinset.2 hid
        exact Finmap.mem_keys.1 (Finset.mem_filter.1 h).1
      have hok := abortAll_ok hs hids.1 hmem
      have h : s.abortPeer ids = ((abortAll ids s).1, .ok ids.length) := by
        unfold abortPeer
        rcases ha : abortAll ids s with ⟨s', e | u⟩ <;> rw [ha] at hok
        · cases hok
      rw [h]; exact .abortedPeer peer ids hids
    · exact .unabortedPeer peer ids hids
  | setConnectionReservation slots eligible =>
    simp only [perform, setConnectionReservation]
    by_cases h : s.config.1.maxConnections ≤ slots
    · rw [if_pos h]; exact .refused _ _ (fun _ h => nomatch h) trivial
    · rw [if_neg h]; exact .reserved slots eligible
  | drainOutbound => exact .drained

end Stack

end FipsTcp
