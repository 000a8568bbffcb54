/-
The order in which a stack walks its hash maps.

`poll` and `abort_peer` take the entries of a map in the order in which the map yields them, which differs from process to
process. No call reads the queue of datagrams (`Logs`), so that order shows where datagrams of different tuples stand in the
queue, and nowhere else.
- `poll_order`, `abortAll_walk`: one walk in two orders;
- `reply_requeue`: a call on a stack with another queue;
- `walk_order_hidden`: two runs that differ in the orders only.
-/
import FipsTcp.Lib.Shuffle
import FipsTcp.Stack.Abort

namespace FipsTcp

open Table Connection

/-- what a call returns, with the ids of connections -/
inductive StackReply (P : Type) where
  | done
  | accepted (id : Option ConnectionId)
  | connected (id : ConnectionId)
  | wrote (count : ℕ) (marker : SendMarker)
  | bytes (bytes : List U8)
  | aborted (count : ℕ)
  | drained (queue : List (Outbound P))

namespace Stack

variable {P : Type} [DecidableEq P]

/-- equal replies, where drained queues have their datagrams of each tuple in one order -/
def SameReply : Except Failure (StackReply P) → Except Failure (StackReply P) → Prop
  | .ok (.drained queue), .ok (.drained queue') => Shuffle (fun key o => belongsTo o key) queue queue'
  | reply, reply' => reply = reply'

def replied {α : Type} (f : α → StackReply P) : Stack P × Except StackError α → Stack P × Except Failure (StackReply P)
  | (s, .ok a) => (s, .ok (f a))
  | (s, .error e) => (s, .error (.error e))

/-- a call with all that it returns -/
def reply (s : Stack P) : StackOp P → Stack P × Except Failure (StackReply P)
  | .listen port => replied (fun _ => .done) (s.listen port)
  | .closeListener port => (s.closeListener port, .ok .done)
  | .accept port => ((s.accept port).1, .ok (.accepted (s.accept port).2))
  | .connect peer remotePort nowMs => replied .connected (s.connect peer remotePort nowMs)
  | .connectFromWithIsn peer localPort remotePort isn nowMs =>
    replied .connected (s.connectFromWithIsn peer localPort remotePort isn nowMs)
  | .input peer bytes nowMs => ((s.input peer bytes nowMs).1, (s.input peer bytes nowMs).2.map fun _ => .done)
  | .poll ids nowMs => (if IsOrderOf ids s.connections.keys then s.poll ids nowMs else s, .ok .done)
  | .write id bytes nowMs => replied (fun r => .wrote r.1 r.2) (s.writeWithMarker id bytes nowMs)
  | .read id max => replied .bytes (s.read id max)
  | .close id nowMs => replied (fun _ => .done) (s.close id nowMs)
  | .abort id => replied (fun _ => .done) (s.abort id)
  | .abortPeer peer ids => if IsOrderOf ids (s.peerConnections peer) then replied .aborted (s.abortPeer ids) else (s, .ok .done)
  | .setConnectionReservation slots eligible => replied (fun _ => .done) (s.setConnectionReservation slots eligible)
  | .drainOutbound => ((s.drainOutbound).1, .ok (.drained (s.drainOutbound).2))

/-- a call in its process, with what it returns -/
def turnReply (s : Stack P) (op : ℕ × StackOp P) : Stack P × Except Failure (StackReply P) := (s.elsewhere op.1).reply op.2

/-- two operations that differ at most in the order of a walk -/
inductive SameWalk : StackOp P → StackOp P → Prop
  | same (op : StackOp P) : SameWalk op op
  | poll (ids ids' : List ConnectionId) (nowMs : ℕ) : SameWalk (.poll ids nowMs) (.poll ids' nowMs)
  | abortPeer (peer : P) (ids ids' : List ConnectionId) : SameWalk (.abortPeer peer ids) (.abortPeer peer ids')

/-- the orders that the operation carries are orders of the map that it walks -/
def Walks (s : Stack P) (op : ℕ × StackOp P) : Prop :=
  match op.2 with
  | .poll ids _ => IsOrderOf ids s.connections.keys
  | .abortPeer peer ids => IsOrderOf ids (s.peerConnections peer)
  | _ => True

instance (s : Stack P) (op : ℕ × StackOp P) : Decidable (s.Walks op) := by
  unfold Walks
  split <;> infer_instance

/-- the same stack with another queue -/
def requeue (s : Stack P) (outbound : List (Outbound P)) : Stack P := { s with outbound }

/-- a call that purges some of the queue and adds to it, and does not look at it otherwise -/
def Logs {α : Type} (f : Stack P → Stack P × α) (s : Stack P) : Prop :=
  ∃ p out, ∀ queue, f (s.requeue queue) = ((f s).1.requeue (queue.filter p ++ out), (f s).2)

variable {s s' : Stack P} {id : ConnectionId} {c : Connection P} {nowMs : ℕ} {ids ids' : List ConnectionId} {peer : P}

/-! ## One walk in two orders -/

/-- **The order in which a poll walks the map** shows in the order of the queue only, and there not within a tuple. -/
theorem poll_order (hs : s.Tidy) {ids ids' : List ConnectionId} (hids : IsOrderOf ids s.connections.keys)
    (hids' : IsOrderOf ids' s.connections.keys) (nowMs : ℕ) :
    ∃ outbound, s.poll ids' nowMs = { s.poll ids nowMs with outbound } ∧
      Shuffle (fun key o => belongsTo o key) (s.poll ids nowMs).outbound outbound := by
  have hmem : ∀ i, i ∈ ids ↔ i ∈ ids' := fun i => by
    rw [← List.mem_toFinset, ← List.mem_toFinset, hids.2, hids'.2]
  have hconnections : (s.poll ids' nowMs).connections = (s.poll ids nowMs).connections := by
    refine Finmap.ext_lookup fun i => ?_
    rw [(poll_lookup ids' hids'.1 s i).1, (poll_lookup ids hids.1 s i).1]
    simp only [hmem]
  have hlookup : (s.poll ids' nowMs).lookup = (s.poll ids nowMs).lookup := by
    have hindex := (poll_edits hs.sound ids nowMs).index hs.index
    have hindex' := (poll_edits hs.sound ids' nowMs).index hs.index
    have heq : (s.poll ids' nowMs).view.connections = (s.poll ids nowMs).view.connections := hconnections
    rw [heq] at hindex'
    exact hindex'.unique hindex
  have hqueue := poll_queue (t := nowMs) hs.sound hids.1
  have hqueue' := poll_queue (t := nowMs) hs.sound hids'.1
  have hfor : ∀ c : Connection P, c.ForTuple (.poll nowMs) := fun c => c.forTuple_none rfl
  refine ⟨(s.poll ids' nowMs).outbound, ?_, ?_⟩
  · obtain ⟨c₁, l₁, o₁, hframe⟩ := poll_frame ids nowMs s
    obtain ⟨c₂, l₂, o₂, hframe'⟩ := poll_frame ids' nowMs s
    rw [hframe, hframe'] at hconnections hlookup
    rw [hframe, hframe', show c₂ = c₁ from hconnections, show l₂ = l₁ from hlookup]
  · rw [hqueue, hqueue']
    refine (Shuffle.refl _ s.outbound).append ⟨?_, fun key => ?_⟩
    · exact (List.perm_of_nodup_nodup_toFinset_eq hids.1 hids'.1 (hids.2.trans hids'.2.symm)).flatMap_right _
    · cases hkey : s.lookup.lookup key with
      | none => rw [chorus_strange hs hfor hkey, chorus_strange hs hfor hkey]
      | some id =>
        obtain ⟨c, hl, hk⟩ := hs.index.backward hkey
        rw [← hk, chorus_own hs hfor hids.1 hl, chorus_own hs hfor hids'.1 hl]
        simp only [hmem]


/-- the orders of a set have the same members -/
theorem order_iff {keys : Finset ConnectionId} (h : IsOrderOf ids keys) (h' : IsOrderOf ids' keys) (i : ConnectionId) :
    i ∈ ids ↔ i ∈ ids' := by
  rw [← List.mem_toFinset, ← List.mem_toFinset, h.2, h'.2]

/-- the resets of an abort in two orders -/
theorem abortAll_walk (hs : s.Tidy) (h : IsOrderOf ids (s.peerConnections peer)) (h' : IsOrderOf ids' (s.peerConnections peer)) :
    ∃ outbound, (abortAll ids' s).1 = (abortAll ids s).1.requeue outbound ∧
      Shuffle (fun key o => belongsTo o key) (abortAll ids s).1.outbound outbound := by
  obtain ⟨hperm, heq⟩ := abortAll_order hs h h'
  refine ⟨_, heq, ?_⟩
  rw [abortAll_outbound hs h]
  refine (Shuffle.refl _ _).append ⟨hperm, fun key => ?_⟩
  have hfor : ∀ c : Connection P, c.ForTuple .abort := fun c => c.forTuple_none rfl
  cases hkey : s.lookup.lookup key with
  | none => rw [chorus_strange hs hfor hkey, chorus_strange hs hfor hkey]
  | some id =>
    obtain ⟨c, hl, hk⟩ := hs.index.backward hkey
    rw [← hk, chorus_own hs hfor h.1 hl, chorus_own hs hfor h'.1 hl]
    simp only [order_iff h h']

/-! ## The queue is not read -/

theorem requeue_self (s : Stack P) : s.requeue s.outbound = s := rfl

section Logs

variable {α β : Type} {f g : Stack P → Stack P × Except StackError α}

/-- what one call of a composition does to the queue, by what the call amounts to -/
theorem Logs.congr {f g : Stack P → Stack P × α} (h : ∀ queue, f (s.requeue queue) = g (s.requeue queue)) (hg : Logs g s) :
    Logs f s := by
  obtain ⟨p, out, hout⟩ := hg
  have hself : f s = g s := h s.outbound
  refine ⟨p, out, fun queue => ?_⟩
  rw [h queue, hself]
  exact hout queue

/-- a call that leaves the queue alone -/
theorem Logs.nothing {k : Stack P → Stack P} (h : ∀ queue, k (s.requeue queue) = (k s).requeue queue) (r : α) :
    Logs (fun s => (k s, r)) s := by
  refine ⟨fun _ => true, [], fun queue => ?_⟩
  rw [List.filter_true, List.append_nil]
  exact congrArg (fun s => (s, r)) (h queue)

theorem Logs.return (r : α) : Logs (fun s : Stack P => (s, r)) s := Logs.nothing (k := fun s => s) (fun _ => rfl) r

/-- a change that is not one of the queue, before a call -/
theorem Logs.after {f : Stack P → Stack P × α} {k : Stack P → Stack P} (h : Logs f (k s))
    (hk : ∀ queue, k (s.requeue queue) = (k s).requeue queue) : Logs (fun s => f (k s)) s := by
  obtain ⟨p, out, hout⟩ := h
  refine ⟨p, out, fun queue => ?_⟩
  simp only [hk queue]
  exact hout queue

/-- the result of a call that returns nothing, replaced -/
theorem Logs.instead {f : Stack P → Stack P × Except StackError Unit} (h : Logs f s) (b : β) :
    Logs (fun s => match f s with | (s, .error e) => (s, .error e) | (s, .ok ()) => (s, Except.ok (ε := StackError) b)) s := by
  obtain ⟨p, out, hout⟩ := h
  refine ⟨p, out, fun queue => ?_⟩
  simp only [hout queue]
  obtain ⟨s', e | u⟩ := f s <;> rfl

theorem Logs.replied (h : Logs f s) (g : α → StackReply P) : Logs (fun s => Stack.replied g (f s)) s := by
  obtain ⟨p, out, hout⟩ := h
  refine ⟨p, out, fun queue => ?_⟩
  simp only [hout queue]
  obtain ⟨s', e | a⟩ := f s <;> rfl

theorem Logs.lift (h : Logs f s) : Logs (fun s => Stack.lift (f s)) s := by
  obtain ⟨p, out, hout⟩ := h
  refine ⟨p, out, fun queue => ?_⟩
  simp only [hout queue]
  obtain ⟨s', e | a⟩ := f s <;> rfl

end Logs

theorem emitTo_logs (peer : P) (segments : List Segment) (s : Stack P) : Logs (emitTo peer segments) s := by
  induction segments generalizing s with
  | nil => exact .return _
  | cons segment rest ih =>
    cases henc : segment.encode with
    | error e =>
      refine .congr (g := fun s => (s, .error (.wire e))) (fun queue => ?_) (.return _)
      simp only [emitTo, henc]
    | ok bytes =>
      obtain ⟨p, out, hout⟩ := ih s
      have hstep : ∀ queue, emitTo peer (segment :: rest) (s.requeue queue) = emitTo peer rest (s.requeue (queue ++ [⟨peer, bytes⟩])) :=
        fun queue => by simp only [emitTo, henc]; rfl
      have hself : emitTo peer (segment :: rest) s = emitTo peer rest (s.requeue (s.outbound ++ [⟨peer, bytes⟩])) := hstep s.outbound
      refine ⟨p, [⟨peer, bytes⟩].filter p ++ out, fun queue => ?_⟩
      rw [hstep, hself, hout, hout, List.filter_append, List.append_assoc]
      rfl

theorem emit_logs (s : Stack P) (id : ConnectionId) (segments : List Segment) : Logs (fun s => s.emit id segments) s := by
  cases hl : s.connections.lookup id with
  | none =>
    refine .congr (g := fun s => (s, .ok ())) (fun queue => ?_) (.return _)
    simp only [emit, requeue, hl]
  | some c =>
    refine .congr (g := emitTo c.peer segments) (fun queue => ?_) (emitTo_logs c.peer segments s)
    simp only [emit, requeue, hl]

theorem removeConnection_requeue (s : Stack P) (id : ConnectionId) (queue : List (Outbound P)) :
    (s.requeue queue).removeConnection id = (s.removeConnection id).requeue queue := by
  unfold removeConnection requeue
  simp only
  cases s.connections.lookup id <;> rfl

theorem finishUpdate_logs (s : Stack P) (id : ConnectionId) (update : Update) : Logs (fun s => s.finishUpdate id update) s := by
  obtain ⟨p, out, hout⟩ := s.emit_logs id update.segments
  refine ⟨p, out, fun queue => ?_⟩
  simp only [finishUpdate, hout queue]
  obtain ⟨s', e | u⟩ := s.emit id update.segments
  · rfl
  · simp only
    split_ifs
    · rw [removeConnection_requeue]
    · rfl

/-! ## The calls -/

theorem listen_logs (s : Stack P) (port : U16) : Logs (fun s => s.listen port) s := by
  by_cases hzero : port = 0
  · exact .congr (g := fun s => (s, .error .zeroPort)) (fun _ => if_pos hzero) (.return _)
  by_cases hmem : port ∈ s.listeners
  · exact .congr (g := fun s => (s, .error (.alreadyListening port))) (fun _ => (if_neg hzero).trans (if_pos hmem)) (.return _)
  · refine .congr (fun queue => ?_) (.nothing (k := fun s => { s with
      listeners := insert port s.listeners
      accepts := if port ∈ s.accepts then s.accepts else s.accepts.insert port [] }) (fun _ => rfl) (.ok ()))
    have hmem' : port ∉ (s.requeue queue).listeners := hmem
    simp only [listen, if_neg hzero, if_neg hmem']

theorem popAccepted_requeue (s : Stack P) (waiting : List ConnectionId) (queue : List (Outbound P)) :
    (s.requeue queue).popAccepted waiting = s.popAccepted waiting := by
  induction waiting with
  | nil => rfl
  | cons id waiting ih =>
    simp only [popAccepted, ih]
    rfl

theorem accept_logs (s : Stack P) (port : U16) : Logs (fun s => s.accept port) s := by
  cases hq : s.accepts.lookup port with
  | none =>
    refine .congr (g := fun s => (s, none)) (fun queue => ?_) (.return _)
    simp only [accept, requeue, hq]
  | some waiting =>
    refine .congr (fun queue => ?_) (.nothing (k := fun t => { t with
      accepts := t.accepts.insert port (s.popAccepted waiting).1 }) (fun _ => rfl) (s.popAccepted waiting).2)
    have hq' : (s.requeue queue).accepts.lookup port = some waiting := hq
    simp only [accept, hq', popAccepted_requeue]

/-- entering a connection and sending its first segment -/
theorem insert_logs (s : Stack P) (id : ConnectionId) (c : Connection P) (segments : List Segment) :
    Logs (fun s => (s.insertConnection id c).emit id segments) s :=
  .after (f := fun s => s.emit id segments) (k := fun s => s.insertConnection id c) (emit_logs _ id segments) fun _ => rfl

theorem connectFromWithIsn_logs (s : Stack P) (peer : P) (localPort remotePort : U16) (isn : U32) (nowMs : ℕ) :
    Logs (fun s => s.connectFromWithIsn peer localPort remotePort isn nowMs) s := by
  by_cases hport : localPort = 0 ∨ remotePort = 0
  · exact .congr (g := fun s => (s, .error .zeroPort)) (fun _ => if_pos hport) (.return _)
  cases hroom : s.ensureConnectionCapacity peer with
  | error e =>
    refine .congr (g := fun s => (s, .error e)) (fun queue => ?_) (.return _)
    have hroom' : (s.requeue queue).ensureConnectionCapacity peer = .error e := hroom
    simp only [connectFromWithIsn, if_neg hport, hroom']
  | ok u =>
    have hroom' : ∀ queue, (s.requeue queue).ensureConnectionCapacity peer = .ok u := fun _ => hroom
    by_cases hkey : (⟨peer, localPort, remotePort⟩ : ConnectionKey P) ∈ s.lookup
    · refine .congr (g := fun s => (s, .error .connectionExists)) (fun queue => ?_) (.return _)
      have hkey' : (⟨peer, localPort, remotePort⟩ : ConnectionKey P) ∈ (s.requeue queue).lookup := hkey
      simp only [connectFromWithIsn, if_neg hport, hroom', if_pos hkey']
    · have hinsert := (s.allocateConnectionId.1.nextToken.1).insert_logs s.nextId
        (Connection.client peer localPort remotePort isn nowMs s.config.1 s.nextConnectionToken).1
        (Connection.client peer localPort remotePort isn nowMs s.config.1 s.nextConnectionToken).2
      have hafter := hinsert.after (s := s) (k := fun s => s.allocateConnectionId.1.nextToken.1) fun _ => rfl
      refine .congr (fun queue => ?_) (hafter.instead s.nextId)
      have hkey' : ¬ (⟨peer, localPort, remotePort⟩ : ConnectionKey P) ∈ (s.requeue queue).lookup := hkey
      simp only [connectFromWithIsn, if_neg hport, hroom', if_neg hkey']
      rfl

theorem allocateEphemeralPortLoop_requeue (peer : P) (remotePort : U16) (attempts : ℕ) (s : Stack P) (queue : List (Outbound P)) :
    allocateEphemeralPortLoop peer remotePort attempts (s.requeue queue) =
      ((allocateEphemeralPortLoop peer remotePort attempts s).1.requeue queue,
        (allocateEphemeralPortLoop peer remotePort attempts s).2) := by
  induction attempts generalizing s with
  | zero => rfl
  | succ attempts ih =>
    simp only [allocateEphemeralPortLoop]
    by_cases hkey : (⟨peer, s.nextEphemeralPort, remotePort⟩ : ConnectionKey P) ∈ s.lookup
    · have hkey' : (⟨peer, (s.requeue queue).nextEphemeralPort, remotePort⟩ : ConnectionKey P) ∈ (s.requeue queue).lookup := hkey
      rw [if_pos hkey, if_pos hkey']
      exact ih { s with nextEphemeralPort := if s.nextEphemeralPort = 65535 then 49152 else s.nextEphemeralPort + 1 }
    · have hkey' : ¬ (⟨peer, (s.requeue queue).nextEphemeralPort, remotePort⟩ : ConnectionKey P) ∈ (s.requeue queue).lookup := hkey
      rw [if_neg hkey, if_neg hkey']
      rfl

theorem connect_logs (s : Stack P) (peer : P) (remotePort : U16) (nowMs : ℕ) : Logs (fun s => s.connect peer remotePort nowMs) s := by
  have hport : ∀ queue, (s.requeue queue).allocateEphemeralPort peer remotePort =
      ((s.allocateEphemeralPort peer remotePort).1.requeue queue, (s.allocateEphemeralPort peer remotePort).2) :=
    allocateEphemeralPortLoop_requeue peer remotePort 16384 s
  cases hlocal : (s.allocateEphemeralPort peer remotePort).2 with
  | error e =>
    refine .congr (fun queue => ?_) (.nothing (k := fun s => (s.allocateEphemeralPort peer remotePort).1)
      (fun queue => congrArg Prod.fst (hport queue)) (Except.error e))
    simp only [connect, hport, hlocal]
  | ok localPort =>
    have hconnect := ((s.allocateEphemeralPort peer remotePort).1.nextIsn.1).connectFromWithIsn_logs peer localPort remotePort
      (s.allocateEphemeralPort peer remotePort).1.nextIsn.2 nowMs
    refine .congr (fun queue => ?_) (hconnect.after (s := s) (k := fun s => (s.allocateEphemeralPort peer remotePort).1.nextIsn.1)
      fun queue => ?_)
    · simp only [connect, hport, hlocal]
      rfl
    · simp only [hport]
      rfl

theorem inputSyn_logs (s : Stack P) (peer : P) (segment : Segment) (nowMs : ℕ) : Logs (fun s => s.inputSyn peer segment nowMs) s := by
  by_cases hver : segment.supportsFipsVersion FIPS_VERSION = true
  · cases hroom : s.ensureConnectionCapacity peer with
    | error e =>
      refine .congr (g := fun s => (s, .error e)) (fun queue => ?_) (.return _)
      have hroom' : (s.requeue queue).ensureConnectionCapacity peer = .error e := hroom
      simp only [inputSyn, if_pos hver, hroom']
    | ok u =>
      have hinsert := (s.allocateConnectionId.1.nextIsn.1.nextToken.1).insert_logs s.nextId
        (Connection.server peer segment s.nextIsn.2 nowMs s.config.1 s.nextConnectionToken).1
        (Connection.server peer segment s.nextIsn.2 nowMs s.config.1 s.nextConnectionToken).2
      refine .congr (fun queue => ?_) (hinsert.after (s := s) (k := fun s => s.allocateConnectionId.1.nextIsn.1.nextToken.1)
        fun _ => rfl)
      have hroom' : (s.requeue queue).ensureConnectionCapacity peer = .ok u := hroom
      simp only [inputSyn, if_pos hver, hroom']
      rfl
  · exact .congr (g := fun s => s.emitReset peer segment) (fun queue => if_neg hver) (emitTo_logs peer _ s)

theorem inputRetained_logs (s : Stack P) (peer : P) (id : ConnectionId) (segment : Segment) (nowMs : ℕ) :
    Logs (fun s => s.inputRetained peer id segment nowMs) s := by
  cases hl : s.connections.lookup id with
  | none =>
    refine .congr (g := fun s => (s, .error .panic)) (fun queue => ?_) (.return _)
    simp only [inputRetained, requeue, hl]
  | some c =>
    have hl' : ∀ queue, (s.requeue queue).connections.lookup id = some c := fun _ => hl
    by_cases h1 : c.unacceptableAck segment = true
    · refine .congr (g := fun s => Stack.lift (s.emitReset peer segment)) (fun queue => ?_) (emitTo_logs peer _ s).lift
      simp only [inputRetained, hl', if_pos h1]
    by_cases h2 : c.unexpectedSyn segment = true
    · refine .congr (g := fun s => Stack.lift (s.emit id [c.ackSegment])) (fun queue => ?_) (emit_logs s id _).lift
      simp only [inputRetained, hl', if_neg h1, if_pos h2]
    -- the entry is stored, and waits for `accept` if the handshake is complete, before anything is sent
    refine .congr (fun queue => ?_) (Logs.lift (Logs.after (s := s)
      (f := fun t => t.finishUpdate id (c.onSegment segment nowMs s.config.1).2)
      (k := fun t => if (c.onSegment segment nowMs s.config.1).2.accepted then
        (t.setConnection id (c.onSegment segment nowMs s.config.1).1).enqueue (c.onSegment segment nowMs s.config.1).1.localPort id
        else t.setConnection id (c.onSegment segment nowMs s.config.1).1)
      (finishUpdate_logs _ id _) fun queue => ?_))
    · simp only [inputRetained, hl', if_neg h1, if_neg h2]
      rfl
    · split_ifs <;> rfl

theorem input_logs (s : Stack P) (peer : P) (bytes : List U8) (nowMs : ℕ) : Logs (fun s => s.input peer bytes nowMs) s := by
  cases hdec : Segment.decode bytes with
  | error e =>
    refine .congr (g := fun s => (s, .error (.error (.wire e)))) (fun queue => ?_) (.return _)
    simp only [Stack.input, hdec]
  | ok segment =>
    cases hkey : s.lookup.lookup ⟨peer, segment.dstPort, segment.srcPort⟩ with
    | some id =>
      refine .congr (fun queue => ?_) (s.inputRetained_logs peer id segment nowMs)
      simp only [Stack.input, hdec, requeue, hkey]
    | none =>
      have hkey' : ∀ queue, (s.requeue queue).lookup.lookup ⟨peer, segment.dstPort, segment.srcPort⟩ = none := fun _ => hkey
      by_cases hsyn : segment.flags.contains .SYN = true ∧ ¬ segment.flags.contains .ACK = true ∧ segment.dstPort ∈ s.listeners
      · refine .congr (fun queue => ?_) (s.inputSyn_logs peer segment nowMs).lift
        have hsyn' : segment.flags.contains .SYN = true ∧ ¬ segment.flags.contains .ACK = true ∧
            segment.dstPort ∈ (s.requeue queue).listeners := hsyn
        simp only [Stack.input, hdec, hkey', if_pos hsyn']
      have hsyn' : ∀ queue, ¬ (segment.flags.contains .SYN = true ∧ ¬ segment.flags.contains .ACK = true ∧
          segment.dstPort ∈ (s.requeue queue).listeners) := fun _ => hsyn
      by_cases hrst : segment.flags.contains .RST = true
      · refine .congr (g := fun s => (s, .ok ())) (fun queue => ?_) (.return _)
        simp only [Stack.input, hdec, hkey', if_neg (hsyn' queue), if_pos hrst]
      · refine .congr (g := fun s => Stack.lift (s.emitReset peer segment)) (fun queue => ?_) (emitTo_logs peer _ s).lift
        simp only [Stack.input, hdec, hkey', if_neg (hsyn' queue), if_neg hrst]

/-- a call on one connection that stores what became of it and sends something -/
theorem stored_logs {α : Type} (s : Stack P) (id : ConnectionId) (c : Connection P) (segments : List Segment) (a : α) :
    Logs (fun s => match (s.setConnection id c).emit id segments with
      | (s, .error e) => (s, .error e) | (s, .ok ()) => (s, Except.ok (ε := StackError) a)) s :=
  (Logs.after (f := fun s => s.emit id segments) (k := fun s => s.setConnection id c) (emit_logs _ id segments) fun _ => rfl).instead a

theorem writeWithMarker_logs (s : Stack P) (id : ConnectionId) (bytes : List U8) (nowMs : ℕ) :
    Logs (fun s => s.writeWithMarker id bytes nowMs) s := by
  cases hl : s.connections.lookup id with
  | none =>
    refine .congr (g := fun s => (s, .error .unknownConnection)) (fun queue => ?_) (.return _)
    simp only [writeWithMarker, requeue, hl]
  | some c =>
    have hl' : ∀ queue, (s.requeue queue).connections.lookup id = some c := fun _ => hl
    rcases hw : c.write bytes nowMs s.config.1 with e | ⟨c', count, segments⟩
    · refine .congr (g := fun s => (s, .error e)) (fun queue => ?_) (.return _)
      have hw' : c.write bytes nowMs (s.requeue queue).config.1 = .error e := hw
      simp only [writeWithMarker, hl', hw']
    · refine .congr (fun queue => ?_) (s.stored_logs id c' segments (count, c'.sendProgress.marker id))
      have hw' : c.write bytes nowMs (s.requeue queue).config.1 = .ok (c', count, segments) := hw
      rcases he : ((s.requeue queue).setConnection id c').emit id segments with ⟨s', e | u⟩ <;>
        simp only [writeWithMarker, hl', hw', he]

theorem read_logs (s : Stack P) (id : ConnectionId) (max : ℕ) : Logs (fun s => s.read id max) s := by
  cases hl : s.connections.lookup id with
  | none =>
    refine .congr (g := fun s => (s, .error .unknownConnection)) (fun queue => ?_) (.return _)
    simp only [Stack.read, requeue, hl]
  | some c =>
    refine .congr (fun queue => ?_) (s.stored_logs id (c.read max).1 (c.read max).2.2 (c.read max).2.1)
    have hl' : (s.requeue queue).connections.lookup id = some c := hl
    rcases he : ((s.requeue queue).setConnection id (c.read max).1).emit id (c.read max).2.2 with ⟨s', e | u⟩ <;>
      simp only [Stack.read, hl', he]

theorem close_logs (s : Stack P) (id : ConnectionId) (nowMs : ℕ) : Logs (fun s => s.close id nowMs) s := by
  cases hl : s.connections.lookup id with
  | none =>
    refine .congr (g := fun s => (s, .error .unknownConnection)) (fun queue => ?_) (.return _)
    simp only [Stack.close, requeue, hl]
  | some c =>
    refine .congr (fun queue => ?_) (Logs.after (s := s) (f := fun s => s.finishUpdate id (c.close nowMs).2)
      (k := fun s => s.setConnection id (c.close nowMs).1) (finishUpdate_logs _ id _) fun _ => rfl)
    have hl' : (s.requeue queue).connections.lookup id = some c := hl
    simp only [Stack.close, hl']

theorem pollOne_logs (s : Stack P) (nowMs : ℕ) (id : ConnectionId) : Logs (fun s => (pollOne nowMs s id, ())) s := by
  cases hl : s.connections.lookup id with
  | none =>
    refine .congr (g := fun s => (s, ())) (fun queue => ?_) (.return _)
    simp only [pollOne, requeue, hl]
  | some c =>
    obtain ⟨p, out, hout⟩ := (s.setConnection id (c.poll nowMs s.config.1).1).emit_logs id (c.poll nowMs s.config.1).2.segments
    have hl' : ∀ queue, (s.requeue queue).connections.lookup id = some c := fun _ => hl
    have hpoll : ∀ queue, c.poll nowMs (s.requeue queue).config.1 = c.poll nowMs s.config.1 := fun _ => rfl
    refine ⟨p, out, fun queue => ?_⟩
    have hemit : ((s.requeue queue).setConnection id (c.poll nowMs s.config.1).1).emit id (c.poll nowMs s.config.1).2.segments = _ :=
      hout queue
    simp only [pollOne, hl, hl', hpoll, hemit]
    split_ifs
    · exact congrArg (·, ()) (removeConnection_requeue _ id _)
    · rfl

theorem abort_logs (s : Stack P) (id : ConnectionId) : Logs (fun s => s.abort id) s := by
  cases hl : s.connections.lookup id with
  | none =>
    refine .congr (g := fun s => (s, .error .unknownConnection)) (fun queue => ?_) (.return _)
    simp only [abort, requeue, hl]
  | some c =>
    have hl' : ∀ queue, (s.requeue queue).connections.lookup id = some c := fun _ => hl
    cases hreset : c.resetSegment.encode with
    | error e =>
      refine .congr (g := fun s => (s, .error (.wire e))) (fun queue => ?_) (.return _)
      simp only [abort, hl', hreset]
    | ok bytes =>
      refine ⟨fun o => !belongsTo o c.key, [⟨c.peer, bytes⟩], fun queue => ?_⟩
      simp only [abort, hl, hl', hreset]
      have hleft : ∀ purged, { s with outbound := purged }.removeConnection id = (s.removeConnection id).requeue purged :=
        removeConnection_requeue s id
      have hright : ∀ purged, { s.requeue queue with outbound := purged }.removeConnection id = (s.removeConnection id).requeue purged :=
        removeConnection_requeue s id
      rw [hleft, hright]
      rfl

theorem abortAll_logs (s : Stack P) (ids : List ConnectionId) : Logs (abortAll ids) s := by
  induction ids generalizing s with
  | nil => exact .return _
  | cons id ids ih =>
    obtain ⟨p, out, hout⟩ := s.abort_logs id
    rcases habort : s.abort id with ⟨s1, e | u⟩
    · simp only [habort] at hout
      refine ⟨p, out, fun queue => ?_⟩
      simp only [abortAll, hout, habort]
    · simp only [habort] at hout
      obtain ⟨p', out', hout'⟩ := ih s1
      refine ⟨fun o => p' o && p o, out.filter p' ++ out', fun queue => ?_⟩
      simp only [abortAll, hout, habort, hout', List.filter_append, List.filter_filter, List.append_assoc]

theorem poll_logs (s : Stack P) (ids : List ConnectionId) (nowMs : ℕ) : Logs (fun s => (s.poll ids nowMs, ())) s := by
  induction ids generalizing s with
  | nil => exact .return _
  | cons id ids ih =>
    obtain ⟨p, out, hout⟩ := s.pollOne_logs nowMs id
    obtain ⟨p', out', hout'⟩ := ih (pollOne nowMs s id)
    refine ⟨fun o => p' o && p o, out.filter p' ++ out', fun queue => ?_⟩
    have hone : pollOne nowMs (s.requeue queue) id = _ := congrArg Prod.fst (hout queue)
    have hrest := hout' (queue.filter p ++ out)
    simp only [List.filter_append, List.filter_filter, List.append_assoc] at hrest
    simp only [poll, List.foldl_cons, hone]
    exact hrest

/-- **No call reads the queue**, besides the one that drains it. -/
theorem reply_logs (s : Stack P) (op : StackOp P) (hop : op ≠ .drainOutbound) : Logs (fun s => s.reply op) s := by
  cases op with
  | listen port => exact (s.listen_logs port).replied _
  | closeListener port => exact .nothing (k := fun s => s.closeListener port) (fun _ => rfl) _
  | accept port =>
    obtain ⟨p, out, hout⟩ := s.accept_logs port
    exact ⟨p, out, fun queue => by simp only [reply, hout]⟩
  | connect peer remotePort nowMs => exact (s.connect_logs peer remotePort nowMs).replied _
  | connectFromWithIsn peer localPort remotePort isn nowMs =>
    exact (s.connectFromWithIsn_logs peer localPort remotePort isn nowMs).replied _
  | input peer bytes nowMs =>
    obtain ⟨p, out, hout⟩ := s.input_logs peer bytes nowMs
    exact ⟨p, out, fun queue => by simp only [reply, hout]⟩
  | poll ids nowMs =>
    by_cases hids : IsOrderOf ids s.connections.keys
    · obtain ⟨p, out, hout⟩ := s.poll_logs ids nowMs
      refine ⟨p, out, fun queue => ?_⟩
      have hids' : IsOrderOf ids (s.requeue queue).connections.keys := hids
      have hpoll : (s.requeue queue).poll ids nowMs = _ := congrArg Prod.fst (hout queue)
      simp only [reply, if_pos hids, if_pos hids', hpoll]
    · refine .congr (g := fun s => (s, .ok .done)) (fun queue => ?_) (.return _)
      have hids' : ¬ IsOrderOf ids (s.requeue queue).connections.keys := hids
      simp only [reply, if_neg hids']
  | write id bytes nowMs => exact (s.writeWithMarker_logs id bytes nowMs).replied _
  | read id max => exact (s.read_logs id max).replied _
  | close id nowMs => exact (s.close_logs id nowMs).replied _
  | abort id => exact (s.abort_logs id).replied _
  | abortPeer peer ids =>
    by_cases hids : IsOrderOf ids (s.peerConnections peer)
    · have hall := (s.abortAll_logs ids).instead ids.length
      refine .congr (fun queue => ?_) (hall.replied .aborted)
      have hids' : IsOrderOf ids ((s.requeue queue).peerConnections peer) := hids
      simp only [reply, if_pos hids']
      rfl
    · refine .congr (g := fun s => (s, .ok .done)) (fun queue => ?_) (.return _)
      have hids' : ¬ IsOrderOf ids ((s.requeue queue).peerConnections peer) := hids
      simp only [reply, if_neg hids']
  | setConnectionReservation slots eligible =>
    refine Logs.replied (f := fun s => s.setConnectionReservation slots eligible) ?_ _
    by_cases hslots : s.config.1.maxConnections ≤ slots
    · exact .congr (g := fun s => (s, .error (.invalidConfig "reserved connections must leave ordinary capacity")))
        (fun queue => if_pos hslots) (.return _)
    · refine .congr (fun queue => ?_) (.nothing (k := fun s => { s with
        reservation := if slots ≠ 0 then some ⟨slots, eligible⟩ else none }) (fun _ => rfl) (.ok ()))
      exact if_neg hslots
  | drainOutbound => exact absurd rfl hop

/-! ## One call in two orders -/

theorem SameReply.refl (r : Except Failure (StackReply P)) : SameReply r r := by
  cases r with
  | error e => rfl
  | ok reply => cases reply <;> first | exact Shuffle.refl _ _ | rfl

theorem replied_outcome {α : Type} (f : α → StackReply P) (r : Stack P × Except StackError α) :
    (Stack.replied f r).1 = (outcome r).1 := by
  obtain ⟨s, e | a⟩ := r <;> rfl

theorem reply_fst (s : Stack P) (op : StackOp P) : (s.reply op).1 = (s.perform op).1 := by
  cases op with
  | abortPeer peer ids =>
    simp only [reply, perform]
    split_ifs
    · exact replied_outcome _ _
    · rfl
  | closeListener | accept | input | poll | drainOutbound => rfl
  | listen | connect | connectFromWithIsn | write | read | close | abort | setConnectionReservation => exact replied_outcome _ _

theorem turnReply_fst (s : Stack P) (op : ℕ × StackOp P) : (s.turnReply op).1 = s.turn op := reply_fst _ op.2

/-- the call on the same stack -/
theorem reply_walk (hs : s.Tidy) {tokens : ℕ} {op op' : StackOp P} (h : SameWalk op op') (hwalk : s.Walks (tokens, op))
    (hwalk' : s.Walks (tokens, op')) : ∃ queue, (s.reply op').1 = (s.reply op).1.requeue queue ∧
      Shuffle (fun key o => belongsTo o key) (s.reply op).1.outbound queue ∧ SameReply (s.reply op).2 (s.reply op').2 := by
  cases h with
  | same => exact ⟨_, (requeue_self _).symm, .refl _ _, .refl _⟩
  | poll ids ids' nowMs =>
    have hids : IsOrderOf ids s.connections.keys := hwalk
    have hids' : IsOrderOf ids' s.connections.keys := hwalk'
    obtain ⟨queue, hpoll, hshuffle⟩ := poll_order hs hids hids' nowMs
    have h1 : s.reply (.poll ids nowMs) = (s.poll ids nowMs, .ok .done) := by simp only [reply, if_pos hids]
    have h2 : s.reply (.poll ids' nowMs) = (s.poll ids' nowMs, .ok .done) := by simp only [reply, if_pos hids']
    rw [h1, h2]
    exact ⟨queue, hpoll, hshuffle, rfl⟩
  | abortPeer peer ids ids' =>
    have hids : IsOrderOf ids (s.peerConnections peer) := hwalk
    have hids' : IsOrderOf ids' (s.peerConnections peer) := hwalk'
    obtain ⟨queue, hall, hshuffle⟩ := abortAll_walk hs hids hids'
    have hlen : ids.length = ids'.length :=
      (List.perm_of_nodup_nodup_toFinset_eq hids.1 hids'.1 (hids.2.trans hids'.2.symm)).length_eq
    have h1 : s.reply (.abortPeer peer ids) = ((abortAll ids s).1, .ok (.aborted ids.length)) := by
      simp only [reply, if_pos hids]
      rw [abortPeer_eq hs.sound hids]
      rfl
    have h2 : s.reply (.abortPeer peer ids') = ((abortAll ids' s).1, .ok (.aborted ids'.length)) := by
      simp only [reply, if_pos hids']
      rw [abortPeer_eq hs.sound hids']
      rfl
    rw [h1, h2, hlen]
    exact ⟨queue, hall, hshuffle, rfl⟩

/-- **One call**, in two orders and with two queues. -/
theorem reply_requeue (hs : s.Tidy) {tokens : ℕ} {op op' : StackOp P} (h : SameWalk op op') (hwalk : s.Walks (tokens, op))
    (hwalk' : s.Walks (tokens, op')) {queue : List (Outbound P)} (hq : Shuffle (fun key o => belongsTo o key) s.outbound queue) :
    ∃ queue', ((s.requeue queue).reply op').1 = (s.reply op).1.requeue queue' ∧
      Shuffle (fun key o => belongsTo o key) (s.reply op).1.outbound queue' ∧
        SameReply (s.reply op).2 ((s.requeue queue).reply op').2 := by
  by_cases hdrain : op' = .drainOutbound
  · subst hdrain
    cases h
    exact ⟨[], rfl, .refl _ _, hq⟩
  obtain ⟨between, h1, h2, h3⟩ := reply_walk hs h hwalk hwalk'
  obtain ⟨p, out, hlogs⟩ := s.reply_logs op' hdrain
  have hout : ∀ queue, (s.requeue queue).reply op' = ((s.reply op').1.requeue (queue.filter p ++ out), (s.reply op').2) := hlogs
  -- the queue that the call leaves on this stack
  have hbetween : between = s.outbound.filter p ++ out := by
    have hself : s.reply op' = _ := hout s.outbound
    have hfst := congrArg (fun r => r.1.outbound) hself
    simp only [h1] at hfst
    exact hfst
  refine ⟨queue.filter p ++ out, ?_, h2.trans (hbetween ▸ (hq.filter p).append (.refl _ out)), ?_⟩
  · rw [hout queue]
    simp only [h1]
    rfl
  · rw [hout queue]
    exact h3

/-- two stacks that differ in the order of what they queued -/
def Paired (config : ValidConfig) (s t : Stack P) : Prop :=
  s.Orderly config ∧ ∃ queue, t = s.requeue queue ∧ Shuffle (fun key o => belongsTo o key) s.outbound queue

/-- **Preservation, one operation.** -/
theorem turnReply_paired {config : ValidConfig} (s t : Stack P) (op op' : ℕ × StackOp P) (hop : op.1 = op'.1 ∧ SameWalk op.2 op'.2)
    (hG : s.Walks op ∧ (s.turn op).nextConnectionToken < 2 ^ 64) (hwalk' : t.Walks op') (h : Paired config s t) :
    Paired config (s.turnReply op).1 (t.turnReply op').1 ∧ SameReply (s.turnReply op).2 (t.turnReply op').2 := by
  obtain ⟨tokens, op⟩ := op
  obtain ⟨tokens', op'⟩ := op'
  obtain ⟨rfl, hsame⟩ := hop
  obtain ⟨ho, queue, rfl, hq⟩ := h
  have ho' := ho.elsewhere tokens
  obtain ⟨queue', hfst, hshuffle, hreply⟩ := reply_requeue (s := s.elsewhere tokens) ho'.tidy hsame hG.1 hwalk' hq
  refine ⟨⟨?_, queue', hfst, hshuffle⟩, hreply⟩
  rw [turnReply_fst]
  exact (ho'.perform op hG.2).1

end Stack

/-- **The order in which hash maps yield their entries is hidden.** Two runs of one new stack whose calls are the same, besides
the orders in which `poll` and `abort_peer` walk their maps, end in the same stack: the same connections under the same ids, the
same index, listeners, accept queues and cursors. Every call returned the same, an id, a count, a marker and bytes included, and
what was drained each time, and is queued at the end, are the same datagrams, those of each tuple in the same order. -/
theorem walk_order_hidden {P : Type} [DecidableEq P] (config : ValidConfig) (isnSeed : BitVec 64) {token : ℕ} (htoken : 0 < token)
    {ops ops' : List (ℕ × StackOp P)} (hsame : List.Forall₂ (fun op op' => op.1 = op'.1 ∧ Stack.SameWalk op.2 op'.2) ops ops')
    (hwalk : Run.Along Stack.turn Stack.Walks (.new config isnSeed token) ops)
    (hwalk' : Run.Along Stack.turn Stack.Walks (.new config isnSeed token) ops')
    (hb : (Run.exec Stack.turn (.new config isnSeed token) ops).nextConnectionToken < 2 ^ 64) :
    (∃ queue, Run.exec Stack.turn (.new config isnSeed token) ops' =
        { Run.exec Stack.turn (.new config isnSeed token) ops with outbound := queue } ∧
      Shuffle (fun key o => Stack.belongsTo o key) (Run.exec Stack.turn (.new config isnSeed token) ops).outbound queue) ∧
    List.Forall₂ Stack.SameReply (Run.answers Stack.turnReply (.new config isnSeed token) ops)
      (Run.answers Stack.turnReply (.new config isnSeed token) ops') := by
  have hnew : (Stack.new config isnSeed token : Stack P).Orderly config := .new config isnSeed htoken
  have hturn : (fun (s : Stack P) op => (s.turnReply op).1) = Stack.turn := funext fun s => funext fun op => s.turnReply_fst op
  have hG := Stack.along_tokens hnew.genuine.sound hb hwalk
  obtain ⟨⟨-, h1⟩, h2⟩ := Run.exec_matched Stack.turnReply_paired ⟨hnew, _, (Stack.requeue_self _).symm, .refl _ _⟩ hsame
    (hturn ▸ hG) (hturn ▸ hwalk')
  rw [hturn] at h1
  exact ⟨h1, h2⟩

/-- three connections, two of them to one peer, which is aborted after all were polled -/
def walkOps (polled aborted : List ConnectionId) : List (ℕ × StackOp ℕ) :=
  [(0, .connectFromWithIsn 7 9000 80 100 0), (0, .connectFromWithIsn 8 9000 80 100 0), (0, .connectFromWithIsn 7 9001 80 100 0),
    (0, .poll polled 1000), (0, .abortPeer 7 aborted), (0, .drainOutbound)]

theorem walk_order_hidden_three :
    List.Forall₂ Stack.SameReply
      (Run.answers Stack.turnReply (.new ⟨Config.default, Config.default_validate⟩ 5 1) (walkOps [⟨1⟩, ⟨2⟩, ⟨3⟩] [⟨1⟩, ⟨3⟩]))
      (Run.answers Stack.turnReply (.new ⟨Config.default, Config.default_validate⟩ 5 1) (walkOps [⟨3⟩, ⟨1⟩, ⟨2⟩] [⟨3⟩, ⟨1⟩])) := by
  have hsame : List.Forall₂ (fun op op' => op.1 = op'.1 ∧ Stack.SameWalk op.2 op'.2) (walkOps [⟨1⟩, ⟨2⟩, ⟨3⟩] [⟨1⟩, ⟨3⟩])
      (walkOps [⟨3⟩, ⟨1⟩, ⟨2⟩] [⟨3⟩, ⟨1⟩]) :=
    .cons ⟨rfl, .same _⟩ (.cons ⟨rfl, .same _⟩ (.cons ⟨rfl, .same _⟩ (.cons ⟨rfl, .poll _ _ _⟩ (.cons ⟨rfl, .abortPeer _ _ _⟩
      (.cons ⟨rfl, .same _⟩ .nil)))))
  exact (walk_order_hidden ⟨Config.default, Config.default_validate⟩ 5 Nat.one_pos hsame (by decide +kernel) (by decide +kernel)
    (by decide +kernel)).2

end FipsTcp
