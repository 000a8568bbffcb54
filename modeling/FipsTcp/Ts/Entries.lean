/-
What the methods of the TypeScript table do to its entries.

Only `connect` and `input` add an entry, under the next id (`Adds`); every other method at most removes entries (`Keeps`). A
`connect` that throws adds none, since a SYN can always be encoded (`syn_encode`), and one that does not throw leaves a connection
in SYN-SENT under a key that was free (`Connects`). `close` takes such a connection out again and emits nothing (`close_synSent`).
-/
import FipsTcp.Ts.Stack

namespace FipsTcp.Ts

open Number

/-- what `makeConfig` returns is what it was given, and its MSS fits the option -/
theorem makeConfig_ok {config config' : Config} (h : makeConfig config = .ok config') : config' = config ∧ config.mss ≤ 65535 := by
  unfold makeConfig at h
  simp only [bind, Except.bind, pure, Except.pure] at h
  repeat' split at h
  all_goals cases h
  exact ⟨rfl, by omega⟩

/-- a SYN can be encoded -/
theorem syn_encode {localPort remotePort mss : ℕ} (isn window : ℕ) (hlocal : localPort ≠ 0) (hremote : remotePort ≠ 0)
    (hmss : mss ≤ 65535) : ∃ bytes, (buildSegment localPort remotePort isn 0 window mss ⟨Flags.Syn⟩ []).encode = .ok bytes := by
  have hport : ¬ (localPort = 0 ∨ remotePort = 0) := not_or.2 ⟨hlocal, hremote⟩
  have hoptions : Segment.encodeOptions [.maxSegmentSize mss, .fipsVersion FIPS_VERSION 0] =
      .ok [2, 4, BitVec.ofNat 8 (mss >>> 8), BitVec.ofNat 8 mss, 254, 4, 1, 0] := by
    rw [Segment.encodeOptions, encodeOption, if_neg (not_lt.2 hmss)]
    rfl
  have hsyn : buildSegment localPort remotePort isn 0 window mss ⟨Flags.Syn⟩ [] =
      ⟨localPort, remotePort, isn, none, ⟨Flags.Syn⟩, window, [.maxSegmentSize mss, .fipsVersion FIPS_VERSION 0], []⟩ := rfl
  rw [hsyn]
  unfold Segment.encode
  dsimp only
  rw [if_neg hport, if_neg (by decide), hoptions]
  simp only [bind, Except.bind]
  rw [if_neg (by simp [HEADER_LEN])]
  exact ⟨_, rfl⟩

theorem client_eq (peer : JsString) (localPort remotePort isn nowMs token : ℕ) (config : Config) :
    ∃ c window, Connection.client peer localPort remotePort isn nowMs config token =
        (c, [buildSegment localPort remotePort isn 0 window config.mss ⟨Flags.Syn⟩ []]) ∧
      c.state = .synSent ∧ c.key = connectionKey peer localPort remotePort := ⟨_, _, rfl, rfl, rfl⟩

namespace Stack

variable {s s' : Stack} {id : ConnectionId} {nowMs : ℕ} {peer : JsString} {remotePort : ℕ}

/-! ## Entries -/

/-- no entry is added -/
structure Keeps (s s' : Stack) : Prop where
  config : s'.config = s.config
  next : s'.nextConnectionId = s.nextConnectionId
  mem : ∀ id ∈ s'.connections, id ∈ s.connections

/-- the id that the stack gives next is taken -/
structure Adds (s s' : Stack) : Prop where
  config : s'.config = s.config
  next : s'.nextConnectionId ≠ s.nextConnectionId
  mem : ∀ id ∈ s'.connections, id = s.nextConnectionId ∨ id ∈ s.connections

theorem Keeps.refl (s : Stack) : Keeps s s := ⟨rfl, rfl, fun _ => id⟩

theorem Keeps.trans {s₁ : Stack} (h : Keeps s s₁) (h' : Keeps s₁ s') : Keeps s s' :=
  ⟨h'.config.trans h.config, h'.next.trans h.next, fun id hid => h.mem id (h'.mem id hid)⟩

theorem Adds.trans {s₁ : Stack} (h : Adds s s₁) (h' : Keeps s₁ s') : Adds s s' :=
  ⟨h'.config.trans h.config, fun heq => h.next (h'.next.symm.trans heq), fun id hid => h.mem id (h'.mem id hid)⟩

theorem Keeps.then_adds {s₁ : Stack} (h : Keeps s s₁) (h' : Adds s₁ s') : Adds s s' := by
  refine ⟨h'.config.trans h.config, fun heq => h'.next (heq.trans h.next.symm), fun id hid => ?_⟩
  rcases h'.mem id hid with heq | hmem
  · exact Or.inl (heq.trans h.next)
  · exact Or.inr (h.mem id hmem)

theorem Keeps.of_eq (hconfig : s'.config = s.config) (hnext : s'.nextConnectionId = s.nextConnectionId)
    (hconnections : s'.connections = s.connections) : Keeps s s' := ⟨hconfig, hnext, fun _ hid => hconnections ▸ hid⟩

theorem keeps_setConnection (h : id ∈ s.connections) (c : Connection) : Keeps s (s.setConnection id c) := by
  refine ⟨rfl, rfl, fun id' hid => ?_⟩
  rcases OrderedMap.mem_set.1 hid with rfl | hmem
  · exact h
  · exact hmem

theorem keeps_removeConnection (s : Stack) (id : ConnectionId) : Keeps s (s.removeConnection id) := by
  unfold removeConnection
  cases s.connections.get id with
  | none => exact .refl s
  | some c => exact ⟨rfl, rfl, fun id' hid => (OrderedMap.mem_delete.1 hid).2⟩

theorem emitTo_frame (peer : JsString) (segments : List Segment) (s : Stack) :
    ∃ queued, (emitTo peer segments s).1 = { s with outbound := s.outbound ++ queued } := by
  induction segments generalizing s with
  | nil => exact ⟨[], by rw [List.append_nil]; rfl⟩
  | cons segment segments ih =>
    unfold emitTo
    cases segment.encode with
    | error e => exact ⟨[], by rw [List.append_nil]⟩
    | ok bytes =>
      obtain ⟨queued, hq⟩ := ih { s with outbound := s.outbound ++ [⟨peer, bytes⟩] }
      exact ⟨[⟨peer, bytes⟩] ++ queued, by rw [hq, List.append_assoc]⟩

theorem emit_frame (s : Stack) (id : ConnectionId) (segments : List Segment) :
    ∃ queued, (s.emit id segments).1 = { s with outbound := s.outbound ++ queued } := by
  unfold emit
  cases s.connections.get id with
  | none => exact ⟨[], by rw [List.append_nil]⟩
  | some c => exact emitTo_frame c.peer segments s

theorem keeps_emitTo (peer : JsString) (segments : List Segment) (s : Stack) : Keeps s (emitTo peer segments s).1 := by
  obtain ⟨queued, hq⟩ := emitTo_frame peer segments s
  rw [hq]
  exact .of_eq rfl rfl rfl

theorem keeps_emit (s : Stack) (id : ConnectionId) (segments : List Segment) : Keeps s (s.emit id segments).1 := by
  obtain ⟨queued, hq⟩ := s.emit_frame id segments
  rw [hq]
  exact .of_eq rfl rfl rfl

theorem keeps_finishUpdate (s : Stack) (id : ConnectionId) (update : ConnectionUpdate) :
    Keeps s (s.finishUpdate id update).1 := by
  have hemit := s.keeps_emit id update.segments
  unfold finishUpdate
  rcases hq : s.emit id update.segments with ⟨s', e | u⟩
  · rwa [hq] at hemit
  · rw [hq] at hemit
    simp only
    split_ifs
    · exact hemit.trans (keeps_removeConnection s' id)
    · exact hemit

/-- the end of an update concerns its own entry -/
theorem finishUpdate_get (s : Stack) (update : ConnectionUpdate) {id' : ConnectionId} (hne : id' ≠ id) :
    (s.finishUpdate id update).1.connections.get id' = s.connections.get id' := by
  obtain ⟨queued, hframe⟩ := s.emit_frame id update.segments
  have hconnections : (s.emit id update.segments).1.connections = s.connections := by rw [hframe]
  unfold finishUpdate
  rcases hq : s.emit id update.segments with ⟨s', e | u⟩
  · rw [hq] at hconnections
    exact congrArg (OrderedMap.get · id') hconnections
  · rw [hq] at hconnections
    simp only at hconnections ⊢
    split_ifs
    · unfold removeConnection
      rw [hconnections]
      cases s.connections.get id with
      | none => rw [hconnections]
      | some c => exact (OrderedMap.get_delete s.connections id id').trans (if_neg hne)
    · rw [hconnections]

theorem mem_of_require {c : Connection} (h : s.requireConnection id = .ok c) : id ∈ s.connections := by
  unfold requireConnection at h
  cases hget : s.connections.get id with
  | none => rw [hget] at h; cases h
  | some c' => exact OrderedMap.mem_iff.2 ⟨c', hget⟩

/-! ## Methods -/

theorem keeps_accept (s : Stack) (port : ℕ) : Keeps s (s.accept port).1 := by
  unfold accept
  cases s.accepts.get port with
  | none => exact .refl s
  | some queue => exact .of_eq rfl rfl rfl

theorem keeps_setConnectionReservation (s : Stack) (slots : ℕ) (eligible : JsString → Except String Bool) :
    Keeps s (s.setConnectionReservation slots eligible).1 := by
  unfold setConnectionReservation
  split
  · exact .refl s
  · exact .of_eq rfl rfl rfl

theorem keeps_writeWithMarker (s : Stack) (id : ConnectionId) (bytes : List U8) (nowMs : ℕ) :
    Keeps s (s.writeWithMarker id bytes nowMs).1 := by
  unfold writeWithMarker
  cases checkNow nowMs with
  | error e => exact .refl s
  | ok u =>
    cases hreq : s.requireConnection id with
    | error e => exact .refl s
    | ok c =>
      simp only
      rcases c.write bytes nowMs s.config with e | ⟨c', accepted, segments⟩
      · exact .refl s
      · have hkeeps := (keeps_setConnection (mem_of_require hreq) c').trans ((s.setConnection id c').keeps_emit id segments)
        simp only
        rcases hq : (s.setConnection id c').emit id segments with ⟨s', e | u⟩
        · rwa [hq] at hkeeps
        · rwa [hq] at hkeeps

theorem write_eq (s : Stack) (id : ConnectionId) (bytes : List U8) (nowMs : ℕ) :
    (s.write id bytes nowMs).1 = (s.writeWithMarker id bytes nowMs).1 := by
  unfold write
  rcases s.writeWithMarker id bytes nowMs with ⟨s', e | ⟨accepted, marker⟩⟩
  · rfl
  · rfl

theorem keeps_read (s : Stack) (id : ConnectionId) (max nowMs : ℕ) : Keeps s (s.read id max nowMs).1 := by
  unfold Stack.read
  cases checkNow nowMs with
  | error e => exact .refl s
  | ok u =>
    cases hreq : s.requireConnection id with
    | error e => exact .refl s
    | ok c =>
      simp only
      rcases c.read max with e | ⟨c', bytes, segments⟩
      · exact .refl s
      · have hkeeps := (keeps_setConnection (mem_of_require hreq) c').trans ((s.setConnection id c').keeps_emit id segments)
        simp only
        rcases hq : (s.setConnection id c').emit id segments with ⟨s', e | u⟩
        · rwa [hq] at hkeeps
        · rwa [hq] at hkeeps

theorem keeps_close (s : Stack) (id : ConnectionId) (nowMs : ℕ) : Keeps s (s.close id nowMs).1 := by
  unfold Stack.close
  cases checkNow nowMs with
  | error e => exact .refl s
  | ok u =>
    cases hreq : s.requireConnection id with
    | error e => exact .refl s
    | ok c => exact (keeps_setConnection (mem_of_require hreq) _).trans (keeps_finishUpdate _ id _)

theorem keeps_abort (s : Stack) (id : ConnectionId) : Keeps s (s.abort id).1 := by
  unfold abort
  cases s.requireConnection id with
  | error e => exact .refl s
  | ok c =>
    simp only
    cases withoutTuple c s.outbound with
    | error e => exact .refl s
    | ok outbound =>
      have hqueue : Keeps s { s with outbound } := .of_eq rfl rfl rfl
      have hkeeps := hqueue.trans (keeps_emit { s with outbound } id [c.resetSegment])
      simp only
      rcases hq : Stack.emit { s with outbound } id [c.resetSegment] with ⟨s', e | u⟩
      · rwa [hq] at hkeeps
      · rw [hq] at hkeeps
        exact hkeeps.trans (keeps_removeConnection s' id)

/-- a round of `poll` sets an entry it copied -/
theorem pollAll_mem (nowMs : ℕ) (entries : List (ConnectionId × Connection)) (s : Stack) :
    (pollAll nowMs entries s).1.config = s.config ∧ (pollAll nowMs entries s).1.nextConnectionId = s.nextConnectionId ∧
      ∀ id ∈ (pollAll nowMs entries s).1.connections, id ∈ s.connections ∨ ∃ e ∈ entries, e.1 = id := by
  induction entries generalizing s with
  | nil => exact ⟨rfl, rfl, fun _ h => Or.inl h⟩
  | cons entry entries ih =>
    obtain ⟨id, c⟩ := entry
    have hkeeps := keeps_finishUpdate (s.setConnection id (c.poll nowMs s.config).1) id (c.poll nowMs s.config).2
    have hset : ∀ id' ∈ (s.setConnection id (c.poll nowMs s.config).1).connections,
        id' ∈ s.connections ∨ ∃ e ∈ (id, c) :: entries, e.1 = id' := fun id' hid =>
      (OrderedMap.mem_set.1 hid).elim (fun heq => Or.inr ⟨_, List.mem_cons_self, heq.symm⟩) Or.inl
    unfold pollAll
    simp only
    rcases hq : (s.setConnection id (c.poll nowMs s.config).1).finishUpdate id (c.poll nowMs s.config).2 with ⟨s', e | u⟩
    · rw [hq] at hkeeps
      exact ⟨hkeeps.config, hkeeps.next, fun id' hid => hset id' (hkeeps.mem id' hid)⟩
    · rw [hq] at hkeeps
      obtain ⟨hconfig, hnext, hmem⟩ := ih s'
      refine ⟨hconfig.trans hkeeps.config, hnext.trans hkeeps.next, fun id' hid => ?_⟩
      rcases hmem id' hid with h | ⟨e, he, heq⟩
      · exact hset id' (hkeeps.mem id' h)
      · exact Or.inr ⟨e, List.mem_cons_of_mem _ he, heq⟩

theorem keeps_poll (s : Stack) (nowMs : ℕ) : Keeps s (s.poll nowMs).1 := by
  unfold Stack.poll
  cases checkNow nowMs with
  | error e => exact .refl s
  | ok u =>
    obtain ⟨hconfig, hnext, hmem⟩ := pollAll_mem nowMs s.connections.pairs s
    refine ⟨hconfig, hnext, fun id hid => ?_⟩
    rcases hmem id hid with h | ⟨e, he, rfl⟩
    · exact h
    · exact OrderedMap.mem_of_pairs he

/-! ## New entries -/

/-- the counter moves -/
theorem allocateConnectionId_next (s : Stack) : s.allocateConnectionId.1.nextConnectionId ≠ s.nextConnectionId := by
  unfold allocateConnectionId maxSafe
  simp only
  split_ifs <;> omega

theorem adds_insertConnection (s s₁ : Stack) (hconfig : s₁.config = s.config)
    (hnext : s₁.nextConnectionId = s.allocateConnectionId.1.nextConnectionId) (hconnections : s₁.connections = s.connections)
    (c : Connection) : Adds s (s₁.insertConnection s.nextConnectionId c) := by
  refine ⟨hconfig, fun heq => s.allocateConnectionId_next (hnext.symm.trans heq), fun id' hid => ?_⟩
  rw [← hconnections]
  exact OrderedMap.mem_set.1 hid

theorem inputSyn_adds (s : Stack) (peer : JsString) (segment : Segment) (nowMs : ℕ) :
    Keeps s (s.inputSyn peer segment nowMs).1 ∨ Adds s (s.inputSyn peer segment nowMs).1 := by
  unfold inputSyn
  split_ifs
  · cases s.ensureConnectionCapacity peer with
    | error e => exact Or.inl (.refl s)
    | ok u =>
      refine Or.inr ?_
      exact (adds_insertConnection s s.allocateConnectionId.1.nextIsn.1.nextToken.1 rfl rfl rfl _).trans (keeps_emit _ _ _)
  · exact Or.inl (keeps_emitTo _ _ s)

theorem keeps_inputRetained (s : Stack) (id : ConnectionId) (segment : Segment) (nowMs : ℕ) :
    Keeps s (s.inputRetained id segment nowMs).1 := by
  unfold inputRetained
  cases hget : s.connections.get id with
  | none => exact .refl s
  | some c =>
    have hmem : id ∈ s.connections := OrderedMap.mem_iff.2 ⟨c, hget⟩
    simp only
    cases c.handshakeResponse segment with
    | some response => exact s.keeps_emit id [response]
    | none =>
      refine Keeps.trans ?_ (keeps_finishUpdate _ id _)
      have hset := keeps_setConnection hmem (c.onSegment segment nowMs s.config).1
      split_ifs
      · exact hset.trans (.of_eq rfl rfl rfl)
      · exact hset

theorem input_adds (s : Stack) (peer : JsString) (bytes : List U8) (nowMs : ℕ) :
    Keeps s (s.input peer bytes nowMs).1 ∨ Adds s (s.input peer bytes nowMs).1 := by
  unfold Stack.input
  cases checkPeer peer with
  | error e => exact Or.inl (.refl s)
  | ok u =>
    cases checkNow nowMs with
    | error e => exact Or.inl (.refl s)
    | ok u =>
      cases Segment.decode bytes with
      | error e => exact Or.inl (.refl s)
      | ok segment =>
        simp only
        cases s.lookup.get (connectionKey peer segment.dstPort segment.srcPort) with
        | some id => exact Or.inl (s.keeps_inputRetained id segment nowMs)
        | none =>
          simp only
          split_ifs
          · exact s.inputSyn_adds peer segment nowMs
          · exact Or.inl (.refl s)
          · exact Or.inl (keeps_emitTo _ _ s)

/-! ## Connecting -/

/-- the search for a port only moves its cursor -/
theorem allocateEphemeralPortLoop_frame (peer : JsString) (remotePort attempts : ℕ) (s : Stack) :
    ∃ port, (allocateEphemeralPortLoop peer remotePort attempts s).1 = { s with nextEphemeralPort := port } := by
  induction attempts generalizing s with
  | zero => exact ⟨s.nextEphemeralPort, rfl⟩
  | succ attempts ih =>
    unfold allocateEphemeralPortLoop
    simp only
    generalize hcursor : (if s.nextEphemeralPort = 65535 then 49152 else s.nextEphemeralPort + 1) = cursor
    split
    · exact ih { s with nextEphemeralPort := cursor }
    · exact ⟨cursor, rfl⟩

theorem allocateEphemeralPort_frame (s : Stack) (peer : JsString) (remotePort : ℕ) :
    ∃ port, (s.allocateEphemeralPort peer remotePort).1 = { s with nextEphemeralPort := port } := by
  unfold allocateEphemeralPort
  cases checkPeer peer with
  | error e => exact ⟨s.nextEphemeralPort, rfl⟩
  | ok u =>
    cases checkPort remotePort with
    | error e => exact ⟨s.nextEphemeralPort, rfl⟩
    | ok u => exact allocateEphemeralPortLoop_frame peer remotePort 16384 s

theorem checkPort_ok {port : ℕ} {u : Unit} (h : checkPort port = .ok u) : port ≠ 0 := by
  unfold checkPort at h
  split_ifs at h with hbad
  exact fun h0 => hbad (Or.inl h0)

theorem checkNow_ok {u : Unit} (h : checkNow nowMs = .ok u) : nowMs ≤ maxSafe := by
  unfold checkNow at h
  split_ifs at h with hbad
  exact not_lt.1 hbad

theorem checkConnect_ok {localPort isn : ℕ} {u : Unit} (h : checkConnect peer localPort remotePort isn nowMs = .ok u) :
    localPort ≠ 0 ∧ remotePort ≠ 0 ∧ nowMs ≤ maxSafe := by
  unfold checkConnect at h
  cases hpeer : checkPeer peer with
  | error e => rw [hpeer] at h; cases h
  | ok u =>
    cases hlocal : checkPort localPort with
    | error e => rw [hpeer, hlocal] at h; cases h
    | ok u =>
      cases hremote : checkPort remotePort with
      | error e => rw [hpeer, hlocal, hremote] at h; cases h
      | ok u =>
        cases hnow : checkNow nowMs with
        | error e => rw [hpeer, hlocal, hremote, hnow] at h; cases h
        | ok u => exact ⟨checkPort_ok hlocal, checkPort_ok hremote, checkNow_ok hnow⟩

/-- a connection is made: the entry of the next id, in SYN-SENT, under a key that was free -/
structure Connects (s s' : Stack) (nowMs : ℕ) (c : Connection) : Prop where
  state : c.state = .synSent
  now : nowMs ≤ maxSafe
  free : s.lookup.get c.key = none
  connections : s'.connections = s.connections.set s.nextConnectionId c
  lookup : s'.lookup = s.lookup.set c.key s.nextConnectionId
  adds : Adds s s'

theorem connectFromWithIsn_cases (s : Stack) (peer : JsString) (localPort remotePort isn nowMs : ℕ) (hmss : s.config.mss ≤ 65535) :
    (∃ e, s.connectFromWithIsn peer localPort remotePort isn nowMs = (s, .error e)) ∨
      ∃ s' c, s.connectFromWithIsn peer localPort remotePort isn nowMs = (s', .ok s.nextConnectionId) ∧ Connects s s' nowMs c := by
  unfold connectFromWithIsn
  cases hcheck : checkConnect peer localPort remotePort isn nowMs with
  | error e => exact Or.inl ⟨e, rfl⟩
  | ok u =>
    cases s.ensureConnectionCapacity peer with
    | error e => exact Or.inl ⟨e, rfl⟩
    | ok u =>
      simp only
      by_cases hkey : connectionKey peer localPort remotePort ∈ s.lookup
      · rw [if_pos hkey]
        exact Or.inl ⟨_, rfl⟩
      obtain ⟨hlocal, hremote, hnow⟩ := checkConnect_ok hcheck
      obtain ⟨c, window, hclient, hstate, hckey⟩ := client_eq peer localPort remotePort isn nowMs s.nextConnectionToken s.config
      obtain ⟨bytes, hencode⟩ := syn_encode isn window hlocal hremote hmss
      have htoken : s.allocateConnectionId.1.nextToken.2 = s.nextConnectionToken := rfl
      have hid : s.allocateConnectionId.2 = s.nextConnectionId := rfl
      have hconfig : s.allocateConnectionId.1.nextToken.1.config = s.config := rfl
      rw [if_neg hkey, htoken, hid, hconfig, hclient]
      have hget : (s.allocateConnectionId.1.nextToken.1.insertConnection s.nextConnectionId c).connections.get s.nextConnectionId =
          some c := OrderedMap.get_set_self _ _ _
      refine Or.inr ⟨{ s.allocateConnectionId.1.nextToken.1.insertConnection s.nextConnectionId c with
        outbound := s.outbound ++ [⟨c.peer, bytes⟩] }, c, ?_, hstate, hnow, ?_, rfl, rfl, ?_⟩
      · simp only [emit, hget, emitTo, hencode]
        rfl
      · rw [hckey]
        exact OrderedMap.get_eq_none.2 hkey
      · exact (adds_insertConnection s s.allocateConnectionId.1.nextToken.1 rfl rfl rfl c).trans (.of_eq rfl rfl rfl)

theorem connect_cases (s : Stack) (peer : JsString) (remotePort nowMs : ℕ) (hmss : s.config.mss ≤ 65535) :
    (∃ s' e, s.connect peer remotePort nowMs = (s', .error e) ∧ Keeps s s') ∨
      ∃ s' c, s.connect peer remotePort nowMs = (s', .ok s.nextConnectionId) ∧ Connects s s' nowMs c := by
  obtain ⟨port, hport⟩ := s.allocateEphemeralPort_frame peer remotePort
  unfold connect
  rcases hq : s.allocateEphemeralPort peer remotePort with ⟨s₁, e | localPort⟩
  · rw [hq] at hport
    exact Or.inl ⟨s₁, e, rfl, by rw [show s₁ = _ from hport]; exact .of_eq rfl rfl rfl⟩
  · rw [hq] at hport
    cases hport
    -- the search and the sequence number have moved two cursors
    have hmoved : Keeps s (Stack.nextIsn { s with nextEphemeralPort := port }).1 := .of_eq rfl rfl rfl
    rcases connectFromWithIsn_cases (Stack.nextIsn { s with nextEphemeralPort := port }).1 peer localPort remotePort
      (Stack.nextIsn { s with nextEphemeralPort := port }).2 nowMs hmss with ⟨e, heq⟩ | ⟨s', c, heq, h⟩
    · exact Or.inl ⟨_, e, heq, hmoved⟩
    · exact Or.inr ⟨s', c, heq, h.state, h.now, h.free, h.connections, h.lookup, hmoved.then_adds h.adds⟩

/-- `close` of a connection in SYN-SENT releases its slot, and nothing else changes -/
theorem close_synSent {c : Connection} (hget : s.connections.get id = some c) (hstate : c.state = .synSent) (hnow : nowMs ≤ maxSafe) :
    s.close id nowMs =
      ({ s with connections := s.connections.delete id, lookup := s.lookup.delete c.key }, .ok ()) := by
  have hcheck : checkNow nowMs = .ok () := if_neg (not_lt.2 hnow)
  have hreq : s.requireConnection id = .ok c := by
    unfold requireConnection
    rw [hget]
  have hclose : c.close nowMs = (c, closeUpdate []) := by
    unfold Connection.close
    rw [hstate]
    rfl
  unfold Stack.close
  rw [hcheck, hreq]
  simp only [hclose]
  simp only [finishUpdate, closeUpdate, emit, emitTo, if_true, removeConnection, setConnection, OrderedMap.get_set_self,
    OrderedMap.delete_set]

end Stack

end FipsTcp.Ts
