/-
A stack, entry by entry.

What an operation does to one entry of the table is what the corresponding operation of a socket does to its connection:
`act` says which operation of the socket that is, if any, and `perform_entries` that the entries follow it; the other thing
that an operation may do is to make a connection. So whatever holds of a socket after every run holds of the connections of a
stack (`reachable_run`).
-/
import FipsTcp.Connection.Lifecycle
import FipsTcp.Stack.Edits

namespace FipsTcp

open Table Connection

namespace Connection

variable {P : Type}

/-- what an operation leaves of a retained connection -/
protected def after (config : Config) (c : Connection P) : SocketOp → Option (Connection P)
  | .input segment nowMs =>
    let result := c.input segment nowMs config
    if result.2.closed then none else some result.1
  | .write bytes nowMs =>
    match c.write bytes nowMs config with
    | .error _ => some c
    | .ok (c', _, _) => some c'
  | .read max => some (c.read max).1
  | .close nowMs => if (c.close nowMs).2.closed then none else some (c.close nowMs).1
  | .abort => none
  | .poll nowMs => if (c.poll nowMs config).2.closed then none else some (c.poll nowMs config).1

/-- `after` is what a socket does -/
theorem after_eq (config : Config) (s : Socket P) (hr : s.retained = true) (o : SocketOp) :
    s.conn.after config o = if (s.step config o).retained then some (s.step config o).conn else none := by
  cases o with
  | input segment nowMs =>
    simp only [Connection.after, Socket.step, Socket.onInput, hr, if_true]
    cases (s.conn.input segment nowMs config).2.closed <;> rfl
  | write bytes nowMs =>
    simp only [Connection.after, Socket.step, Socket.onWrite, hr, if_true]
    rcases s.conn.write bytes nowMs config with _ | ⟨c', count, out⟩ <;> simp only [hr, if_true]
  | read max => simp only [Connection.after, Socket.step, Socket.onRead, hr, if_true]
  | close nowMs =>
    simp only [Connection.after, Socket.step, Socket.onUpdate, hr, if_true]
    cases (s.conn.close nowMs).2.closed <;> rfl
  | abort => simp only [Connection.after, Socket.step, Socket.onAbort, hr, if_true, Bool.false_eq_true, if_false]
  | poll nowMs =>
    simp only [Connection.after, Socket.step, Socket.onUpdate, hr, if_true]
    cases (s.conn.poll nowMs config).2.closed <;> rfl

theorem Reachable.after {config : Config} {c c' : Connection P} (h : c.Reachable config) {o : SocketOp}
    (ho : c.after config o = some c') : c'.Reachable config := by
  obtain ⟨opening, ops, hr, rfl⟩ := h
  rw [after_eq config _ hr] at ho
  split_ifs at ho with hr'
  have hrun : Socket.run config opening (ops ++ [o]) = (Socket.run config opening ops).step config o := Run.exec_append _ _ _
  cases ho
  exact ⟨opening, ops ++ [o], by rw [hrun]; exact hr', by rw [hrun]⟩

theorem Reachable.opening (config : Config) (o : Opening P) : (o.connection config).1.Reachable config := ⟨o, [], rfl, rfl⟩

end Connection

/-- the time of an operation that has one -/
def StackOp.time {P : Type} : StackOp P → Option ℕ
  | .connect _ _ nowMs | .connectFromWithIsn _ _ _ _ nowMs | .input _ _ nowMs | .poll _ nowMs | .write _ _ nowMs
  | .close _ nowMs => some nowMs
  | .listen _ | .closeListener _ | .accept _ | .read _ _ | .abort _ | .abortPeer _ _ | .setConnectionReservation _ _
  | .drainOutbound => none

/-- the time of an operation of a socket that has one -/
def SocketOp.clock : SocketOp → Option ℕ
  | .input _ nowMs | .write _ nowMs | .close nowMs | .poll nowMs => some nowMs
  | .read _ | .abort => none

namespace Stack

variable {P : Type} [DecidableEq P] {s : Stack P} {id : ConnectionId} {c c' : Connection P} {t nowMs : ℕ}

/-- what an operation is for the connection `id` -/
def act (s : Stack P) (id : ConnectionId) : StackOp P → Option SocketOp
  | .input peer bytes nowMs =>
    match Segment.decode bytes with
    | .error _ => none
    | .ok segment =>
      if s.lookup.lookup ⟨peer, segment.dstPort, segment.srcPort⟩ = some id then some (.input segment nowMs) else none
  | .poll ids nowMs => if IsOrderOf ids s.connections.keys then some (.poll nowMs) else none
  | .write i bytes nowMs => if i = id then some (.write bytes nowMs) else none
  | .read i max => if i = id then some (.read max) else none
  | .close i nowMs => if i = id then some (.close nowMs) else none
  | .abort i => if i = id then some .abort else none
  | .abortPeer peer ids => if IsOrderOf ids (s.peerConnections peer) ∧ id ∈ ids then some .abort else none
  | _ => none

/-- an operation happens to a connection when it happens to the stack -/
theorem act_clock {op : StackOp P} {o : SocketOp} (h : s.act id op = some o) (ht : o.clock = some t) : op.time = some t := by
  cases op with
  | input peer bytes nowMs =>
    simp only [act] at h
    split at h
    · cases h
    · split_ifs at h
      cases h; exact ht
  | poll ids nowMs | write i bytes nowMs | close i nowMs =>
    simp only [act] at h
    split_ifs at h
    cases h; exact ht
  | read | abort | abortPeer =>
    simp only [act] at h
    split_ifs at h
    cases h; cases ht
  | listen | closeListener | accept | connect | connectFromWithIsn | setConnectionReservation | drainOutbound => cases h

/-- what an operation leaves of an entry -/
def afterOp (s : Stack P) (op : StackOp P) (id : ConnectionId) (c : Connection P) : Option (Connection P) :=
  match s.act id op with
  | none => some c
  | some o => c.after s.config.1 o

/-! ## A poll, entry by entry -/

/-- what a poll leaves of a connection -/
def polledEntry (t : ℕ) (config : Config) (c : Connection P) : Option (Connection P) :=
  if (c.poll t config).2.closed then none else some (c.poll t config).1

theorem emit_connections (s : Stack P) (id : ConnectionId) (segments : List Segment) :
    (s.emit id segments).1.connections = s.connections ∧ (s.emit id segments).1.config = s.config := by
  obtain ⟨out, h⟩ := s.emit_frame id segments
  rw [h]
  exact ⟨rfl, rfl⟩

theorem removeConnection_connections (s : Stack P) (id : ConnectionId) :
    (s.removeConnection id).connections = s.connections.erase id ∧ (s.removeConnection id).config = s.config ∧
      (s.removeConnection id).outbound = s.outbound := by
  unfold removeConnection
  cases h : s.connections.lookup id with
  | some c => exact ⟨rfl, rfl, rfl⟩
  | none =>
    refine ⟨Finmap.ext_lookup fun i => ?_, rfl, rfl⟩
    by_cases hi : i = id
    · rw [hi, h, Finmap.lookup_erase]
    · rw [Finmap.lookup_erase_ne hi]

theorem pollOne_lookup (t : ℕ) (s : Stack P) (id i : ConnectionId) :
    (pollOne t s id).connections.lookup i =
        (if i = id then (s.connections.lookup id).bind (polledEntry t s.config.1) else s.connections.lookup i) ∧
      (pollOne t s id).config = s.config := by
  unfold pollOne
  cases hl : s.connections.lookup id with
  | none =>
    refine ⟨?_, rfl⟩
    split_ifs with hi
    · rw [hi, hl]; rfl
    · rfl
  | some c =>
    obtain ⟨h1, h2⟩ := (s.setConnection id (c.poll t s.config.1).1).emit_connections id (c.poll t s.config.1).2.segments
    have hset : ∀ c', (s.setConnection id c').connections = s.connections.insert id c' := fun _ => rfl
    simp only [Option.bind_some, polledEntry]
    split_ifs with hc hi hi
    · obtain ⟨h3, h4, -⟩ := removeConnection_connections
        ((s.setConnection id (c.poll t s.config.1).1).emit id (c.poll t s.config.1).2.segments).1 id
      exact ⟨by rw [h3, hi, Finmap.lookup_erase], h4.trans h2⟩
    · obtain ⟨h3, h4, -⟩ := removeConnection_connections
        ((s.setConnection id (c.poll t s.config.1).1).emit id (c.poll t s.config.1).2.segments).1 id
      exact ⟨by rw [h3, h1, hset, Finmap.lookup_erase_ne hi, Finmap.lookup_insert_of_ne _ hi], h4.trans h2⟩
    · exact ⟨by rw [h1, hset, hi, Finmap.lookup_insert], h2⟩
    · exact ⟨by rw [h1, hset, Finmap.lookup_insert_of_ne _ hi], h2⟩

/-- **The entries after a poll**, in every order. -/
theorem poll_lookup (ids : List ConnectionId) (hn : ids.Nodup) (s : Stack P) (i : ConnectionId) :
    (s.poll ids t).connections.lookup i =
        (if i ∈ ids then (s.connections.lookup i).bind (polledEntry t s.config.1) else s.connections.lookup i) ∧
      (s.poll ids t).config = s.config := by
  unfold Stack.poll
  induction ids generalizing s with
  | nil => simp
  | cons id ids ih =>
    obtain ⟨hid, hn⟩ := List.nodup_cons.1 hn
    obtain ⟨h1, h2⟩ := ih hn (pollOne t s id)
    obtain ⟨h3, h4⟩ := pollOne_lookup t s id i
    rw [List.foldl_cons, h1, h2, h3, h4]
    refine ⟨?_, rfl⟩
    by_cases hi : i = id
    · subst hi
      simp [hid]
    · simp [hi]

/-! ## Every operation, entry by entry -/

/-- what an operation does to the table, entry by entry -/
inductive Entries (s : Stack P) (op : StackOp P) (s' : Stack P) : Prop
  | follow (h : ∀ i, s'.connections.lookup i = (s.connections.lookup i).bind (s.afterOp op i))
      (htoken : s'.nextConnectionToken = s.nextConnectionToken)
  | create (o : Opening P) (ht : op.time = some o.time)
      (h : s'.connections = s.connections.insert s.nextId (o.connection s.config.1).1)
      (hact : ∀ i ∈ s.connections, s.act i op = none) (htoken : s'.nextConnectionToken = s.nextConnectionToken + 1)
      (hdraws : (o.connection s.config.1).1.sendProgress = SendProgress.new s.nextConnectionToken)

/-- an operation that leaves the table alone and means nothing to its entries -/
theorem Entries.still {op : StackOp P} {s' : Stack P} (h : s'.connections = s.connections)
    (hact : ∀ i c, s.connections.lookup i = some c → s.afterOp op i c = some c)
    (htoken : s'.nextConnectionToken = s.nextConnectionToken) : Entries s op s' := by
  refine .follow (fun i => ?_) htoken
  rw [h]
  cases hl : s.connections.lookup i with
  | none => rfl
  | some c => exact (hact i c hl).symm

/-- an operation that concerns one entry -/
theorem Entries.one {op : StackOp P} {s' : Stack P} {r : Option (Connection P)} (hl : s.connections.lookup id = some c)
    (h : s'.connections = match r with
      | none => s.connections.erase id
      | some c' => s.connections.insert id c')
    (hid : s.afterOp op id c = r) (hother : ∀ i ≠ id, s.act i op = none)
    (htoken : s'.nextConnectionToken = s.nextConnectionToken) : Entries s op s' := by
  refine .follow (fun i => ?_) htoken
  by_cases hi : i = id
  · rw [hi, hl, Option.bind_some, hid, h]
    cases r with
    | none => exact Finmap.lookup_erase _ _
    | some c' => exact Finmap.lookup_insert _
  · have hsame : s'.connections.lookup i = s.connections.lookup i := by
      rw [h]
      cases r with
      | none => exact Finmap.lookup_erase_ne hi
      | some c' => exact Finmap.lookup_insert_of_ne _ hi
    rw [hsame]
    cases s.connections.lookup i with
    | none => rfl
    | some x => simp only [Option.bind_some, afterOp, hother i hi]

/-- aborting a list of retained connections removes these -/
theorem abortAll_lookup {ids : List ConnectionId} (hs : s.AllSound) (hn : ids.Nodup) (hids : ∀ id ∈ ids, id ∈ s.connections)
    (i : ConnectionId) :
    (abortAll ids s).1.connections.lookup i = (if i ∈ ids then none else s.connections.lookup i) ∧
      (abortAll ids s).1.nextConnectionToken = s.nextConnectionToken := by
  induction ids generalizing s with
  | nil => exact ⟨rfl, rfl⟩
  | cons id ids ih =>
    obtain ⟨hid, hn⟩ := List.nodup_cons.1 hn
    obtain ⟨c, hl⟩ := Finmap.mem_iff.1 (hids id List.mem_cons_self)
    unfold abortAll
    rw [abort_eq hl (hs id c hl)]
    obtain ⟨h1, h2⟩ := ih (hs.aborted id c) hn fun j hj => Finmap.mem_erase.2
      ⟨fun he => hid (he ▸ hj), hids j (List.mem_cons_of_mem _ hj)⟩
    refine ⟨?_, h2⟩
    simp only
    rw [h1]
    by_cases hi : i = id
    · subst hi
      rw [if_neg hid, if_pos List.mem_cons_self]
      exact Finmap.lookup_erase _ _
    · simp only [List.mem_cons, hi, false_or]
      split_ifs
      · rfl
      · exact Finmap.lookup_erase_ne hi

/-- a poll touches the two maps and what is queued -/
theorem pollOne_frame (t : ℕ) (s : Stack P) (id : ConnectionId) :
    ∃ connections lookup outbound, pollOne t s id = { s with connections, lookup, outbound } := by
  unfold pollOne
  cases s.connections.lookup id with
  | none => exact ⟨_, _, _, rfl⟩
  | some c =>
    obtain ⟨out, hframe⟩ := (s.setConnection id (c.poll t s.config.1).1).emit_frame id (c.poll t s.config.1).2.segments
    simp only [hframe]
    split_ifs
    · unfold removeConnection
      split <;> exact ⟨_, _, _, rfl⟩
    · exact ⟨_, _, _, rfl⟩

theorem poll_frame (ids : List ConnectionId) (t : ℕ) (s : Stack P) :
    ∃ connections lookup outbound, s.poll ids t = { s with connections, lookup, outbound } := by
  unfold Stack.poll
  induction ids generalizing s with
  | nil => exact ⟨_, _, _, rfl⟩
  | cons id ids ih =>
    obtain ⟨c1, l1, o1, h1⟩ := pollOne_frame t s id
    obtain ⟨c2, l2, o2, h2⟩ := ih (pollOne t s id)
    exact ⟨c2, l2, o2, by rw [List.foldl_cons, h2, h1]⟩

theorem poll_token (ids : List ConnectionId) (s : Stack P) : (s.poll ids t).nextConnectionToken = s.nextConnectionToken := by
  obtain ⟨connections, lookup, outbound, h⟩ := poll_frame ids t s
  rw [h]

/-- a segment of a retained connection, entry by entry -/
theorem act_input {peer : P} {bytes : List U8} {segment : Segment} (hdec : Segment.decode bytes = .ok segment) (i : ConnectionId) :
    s.act i (.input peer bytes nowMs) =
      if s.lookup.lookup ⟨peer, segment.dstPort, segment.srcPort⟩ = some i then some (.input segment nowMs) else none := by
  simp only [act, hdec]

/-- what a connection makes of a segment that it answers without looking further -/
theorem afterOp_answered {peer : P} {bytes : List U8} {segment : Segment} (hdec : Segment.decode bytes = .ok segment)
    (hkey : s.lookup.lookup ⟨peer, segment.dstPort, segment.srcPort⟩ = some id) (hl : s.connections.lookup id = some c)
    {out : List Segment} (hin : c.input segment nowMs s.config.1 = (c, .open out)) (i : ConnectionId) (x : Connection P)
    (hx : s.connections.lookup i = some x) : s.afterOp (.input peer bytes nowMs) i x = some x := by
  simp only [afterOp, act_input hdec, hkey, Option.some.injEq]
  by_cases hi : id = i
  · subst hi
    rw [hl] at hx
    cases hx
    simp [Connection.after, hin, Update.open]
  · simp [hi]

/-- an operation that means nothing to the connections -/
theorem afterOp_none {op : StackOp P} (hact : ∀ i, s.act i op = none) (i : ConnectionId) (c : Connection P)
    (_ : s.connections.lookup i = some c) : s.afterOp op i c = some c := by
  simp only [afterOp, hact i]

theorem afterOp_inert {op : StackOp P} (hop : s.Inert op) (i : ConnectionId) (c : Connection P)
    (hl : s.connections.lookup i = some c) : s.afterOp op i c = some c := by
  cases op with
  | write id bytes nowMs =>
    simp only [afterOp, act]
    by_cases hi : id = i
    · subst hi
      obtain ⟨e, he⟩ := hop c hl
      simp [Connection.after, he]
    · simp [hi]
  | read id max | close id nowMs | abort id =>
    have hi : id ≠ i := fun hi => by rw [Inert, hi, hl] at hop; cases hop
    simp [afterOp, act, hi]
  | input peer bytes nowMs =>
    cases hdec : Segment.decode bytes with
    | error e => simp [afterOp, act, hdec]
    | ok segment => simp [afterOp, act_input hdec, hop segment hdec]
  | poll | abortPeer => exact hop.elim
  | listen | closeListener | accept | connect | connectFromWithIsn | setConnectionReservation | drainOutbound => rfl

theorem accept_entries (port : U16) : Entries s (.accept port) (s.accept port).1 := by
  have h : (s.accept port).1.connections = s.connections ∧ (s.accept port).1.nextConnectionToken = s.nextConnectionToken := by
    unfold accept
    cases s.accepts.lookup port <;> exact ⟨rfl, rfl⟩
  exact .still h.1 (afterOp_none fun _ => rfl) h.2

/-- a segment that reaches its connection -/
theorem handled_entries {peer : P} {bytes : List U8} {segment : Segment} (hdec : Segment.decode bytes = .ok segment)
    (hkey : s.lookup.lookup ⟨peer, segment.dstPort, segment.srcPort⟩ = some id) (hl : s.connections.lookup id = some c)
    (h : c.unacceptableAck segment = false) (h' : c.unexpectedSyn segment = false) :
    Entries s (.input peer bytes nowMs) (s.onRetained id c segment nowMs) := by
  refine .one hl (r := c.after s.config.1 (.input segment nowMs)) ?_ ?_ (fun i hi => ?_) ?_
  · have hin : c.input segment nowMs s.config.1 = c.onSegment segment nowMs s.config.1 := by
      rw [Connection.input, if_neg (by simp [h]), if_neg (by simp [h'])]
    simp only [Connection.after, hin, onRetained]
    split_ifs <;> rfl
  · simp [afterOp, act_input hdec, hkey]
  · simp [act_input hdec, hkey, Ne.symm hi]
  · unfold onRetained
    simp only
    split_ifs <;> rfl

theorem wrote_entries {bytes : List U8} {c' : Connection P} {count : ℕ} {segments : List Segment}
    (hl : s.connections.lookup id = some c) (hw : c.write bytes nowMs s.config.1 = .ok (c', count, segments)) :
    Entries s (.write id bytes nowMs) (s.put id c' segments) := by
  refine .one hl (r := some c') rfl ?_ (fun i hi => by simp [act, Ne.symm hi]) rfl
  simp [afterOp, act, Connection.after, hw]

theorem read_entries (hl : s.connections.lookup id = some c) (max : ℕ) :
    Entries s (.read id max) (s.put id (c.read max).1 (c.read max).2.2) := by
  refine .one hl (r := some (c.read max).1) rfl ?_ (fun i hi => by simp [act, Ne.symm hi]) rfl
  simp [afterOp, act, Connection.after]

theorem closed_entries (hl : s.connections.lookup id = some c) (nowMs : ℕ) : Entries s (.close id nowMs)
    (if (c.close nowMs).2.closed then s.drop id c.key else s.put id (c.close nowMs).1 (c.close nowMs).2.segments) := by
  refine .one hl (r := c.after s.config.1 (.close nowMs)) ?_ ?_ (fun i hi => by simp [act, Ne.symm hi]) ?_
  · simp only [Connection.after]
    split_ifs <;> rfl
  · simp [afterOp, act]
  · split_ifs <;> rfl

theorem aborted_entries (hl : s.connections.lookup id = some c) : Entries s (.abort id) (s.aborted id c) := by
  refine .one hl (r := none) rfl ?_ (fun i hi => by simp [act, Ne.symm hi]) rfl
  simp [afterOp, act, Connection.after]

theorem abortedPeer_entries (hs : s.AllSound) {peer : P} {ids : List ConnectionId} (hids : IsOrderOf ids (s.peerConnections peer)) :
    Entries s (.abortPeer peer ids) (abortAll ids s).1 := by
  have hmem : ∀ id ∈ ids, id ∈ s.connections := fun id hid => by
    have h : id ∈ s.peerConnections peer := by rw [← hids.2]; exact List.mem_toFinset.2 hid
    exact Finmap.mem_keys.1 (Finset.mem_filter.1 h).1
  refine .follow (fun i => ?_) (abortAll_lookup hs hids.1 hmem ⟨0⟩).2
  rw [(abortAll_lookup hs hids.1 hmem i).1]
  cases hl : s.connections.lookup i with
  | none => simp
  | some c =>
    by_cases hi : i ∈ ids
    · simp [hi, afterOp, act, hids, Connection.after]
    · simp [hi, afterOp, act]

theorem polled_entries {ids : List ConnectionId} (hids : IsOrderOf ids s.connections.keys) :
    Entries s (.poll ids nowMs) (s.poll ids nowMs) := by
  refine .follow (fun i => ?_) (poll_token ids s)
  rw [(poll_lookup ids hids.1 s i).1]
  cases hl : s.connections.lookup i with
  | none => simp
  | some c =>
    have hi : i ∈ ids := by
      rw [← List.mem_toFinset, hids.2]; exact Finmap.mem_keys.2 (Finmap.mem_of_lookup_eq_some hl)
    simp [hi, afterOp, act, hids, Connection.after, polledEntry]

theorem Call.entries (hs : s.AllSound) {op : StackOp P} {s' : Stack P} {result : Except Failure Unit}
    (h : s.Call op s' result) : Entries s op s' := by
  cases h with
  | refused op error hw hop => exact .still rfl (afterOp_inert hop) rfl
  | connectRefused => exact .still rfl (afterOp_none fun _ => rfl) rfl
  | connected op peer localPort remotePort isn nowMs port cursor hop =>
    refine .create (.client peer localPort remotePort isn nowMs s.nextConnectionToken) ?_ rfl (fun i _ => ?_) rfl rfl
    · rcases hop with rfl | rfl <;> rfl
    · rcases hop with rfl | rfl <;> rfl
  | listened | closedListener | reserved | drained => exact .still rfl (afterOp_none fun _ => rfl) rfl
  | accepted port => exact accept_entries port
  | malformed peer bytes nowMs error hdec => exact .still rfl (afterOp_none fun i => by simp only [act, hdec]) rfl
  | stale peer bytes nowMs segment id hdec hkey hl =>
    refine .still rfl (fun i c hc => ?_) rfl
    have hi : id ≠ i := fun hi => by rw [hi, hc] at hl; cases hl
    simp [afterOp, act_input hdec, hkey, hi]
  | ignored peer bytes nowMs segment hdec hkey | rejected peer bytes nowMs segment hdec hkey =>
    exact .still rfl (afterOp_none fun i => by simp [act_input hdec, hkey]) rfl
  | opened peer bytes nowMs segment hdec hkey =>
    exact .create (.server peer segment s.nextIsn.2 nowMs s.nextConnectionToken) rfl rfl
      (fun i _ => by simp [act_input hdec, hkey]) rfl (updateRemoteWindow_progress _ segment.window nowMs)
  | reset peer bytes nowMs segment id c hdec hkey hl h =>
    have hin : c.input segment nowMs s.config.1 = (c, .open [resetFor segment]) := by rw [Connection.input, if_pos h]
    exact .still rfl (afterOp_answered hdec hkey hl hin) rfl
  | challenged peer bytes nowMs segment id c hdec hkey hl h h' =>
    have hin : c.input segment nowMs s.config.1 = (c, .open [c.ackSegment]) := by
      rw [Connection.input, if_neg (by simp [h]), if_pos h']
    exact .still rfl (afterOp_answered hdec hkey hl hin) rfl
  | handled peer bytes nowMs segment id c hdec hkey hl h h' => exact handled_entries hdec hkey hl h h'
  | wrote id bytes nowMs c c' count segments hl hw => exact wrote_entries hl hw
  | read id max c hl => exact read_entries hl max
  | closed id nowMs c hl => exact closed_entries hl nowMs
  | aborted id c hl => exact aborted_entries hl
  | abortedPeer peer ids hids => exact abortedPeer_entries hs hids
  | polled ids nowMs hids => exact polled_entries hids
  | unpolled ids nowMs hids => exact .still rfl (afterOp_none fun i => by simp [act, hids]) rfl
  | unabortedPeer peer ids hids => exact .still rfl (afterOp_none fun i => by simp [act, hids]) rfl

/-- **Every operation, entry by entry.** -/
theorem perform_entries (hs : s.AllSound) (op : StackOp P) : Entries s op (s.perform op).1 := (perform_call hs op).entries hs

/-- every connection of the stack is one that a socket can have -/
structure Genuine (config : ValidConfig) (s : Stack P) : Prop where
  sound : s.AllSound
  same : s.config = config
  reachable : ∀ id c, s.connections.lookup id = some c → c.Reachable config.1

theorem Genuine.new (config : ValidConfig) (isnSeed : BitVec 64) (token : ℕ) : (Stack.new config isnSeed token : Stack P).Genuine config :=
  ⟨fun _ _ h => (no_connection h).elim, rfl, fun _ _ h => (no_connection h).elim⟩

/-- **Preservation, one operation.** -/
theorem Genuine.step {config : ValidConfig} (h : s.Genuine config) (op : StackOp P) : (s.perform op).1.Genuine config := by
  have hchange := (perform_change h.sound op).1
  refine ⟨hchange.ok h.sound, (show (s.perform op).1.config = s.config from hchange.cursors.2).trans h.same, fun id x hx => ?_⟩
  cases perform_entries h.sound op with
  | follow hfollow =>
    rw [hfollow] at hx
    obtain ⟨c0, h0, hx⟩ := Option.bind_eq_some_iff.1 hx
    unfold afterOp at hx
    cases ha : s.act id op with
    | none => rw [ha] at hx; exact Option.some.inj hx ▸ h.reachable id c0 h0
    | some o => rw [ha, h.same] at hx; exact (h.reachable id c0 h0).after hx
  | create o ht hcreate =>
    rw [hcreate, h.same] at hx
    by_cases hid : id = s.nextId
    · rw [hid, Finmap.lookup_insert] at hx
      cases hx
      exact Reachable.opening config.1 o
    · rw [Finmap.lookup_insert_of_ne _ hid] at hx
      exact h.reachable id x hx

theorem genuine_run (config : ValidConfig) (isnSeed : BitVec 64) (token : ℕ) (ops : List (StackOp P)) :
    (run config isnSeed token ops).Genuine config :=
  Run.exec_invariant (fun _ op h => h.step op) (Genuine.new config isnSeed token) ops

/-- **Every connection of a stack is the connection of a socket**, so what holds of sockets after every run holds of it. -/
theorem reachable_run (config : ValidConfig) (isnSeed : BitVec 64) (token : ℕ) (ops : List (StackOp P)) {c : Connection P}
    (hl : (run config isnSeed token ops).connections.lookup id = some c) : c.Reachable config.1 :=
  (genuine_run config isnSeed token ops).reachable id c hl

end Stack

end FipsTcp
