/-
The calls of the two stacks side by side.

Each theorem takes one call through both stacks: from twins it ends alike in both and leaves twins (`Agree`). The arguments are
those that the TypeScript methods accept: a peer with a name, a clock that is a safe integer. What else a call needs is where the
two stacks differ:
- `listen` finds no connections in the queue of its port, which TypeScript empties and Rust keeps;
- `connect` has a remote port, which TypeScript checks before it moves the cursor of the ports, and Rust after;
- ids have not reached `Number.MAX_SAFE_INTEGER`, where TypeScript starts again at 1;
- the maximum of a `read` is a safe integer;
- the sums of an acknowledgment's round trips are exact numbers (`SampleSafe`);
- a poll is before `Number.MAX_SAFE_INTEGER`, where TypeScript cuts the deadlines of the closing states.
-/
import FipsTcp.Lockstep.Table
import FipsTcp.Stack.WalkOrder
import FipsTcp.Ts.Entries

namespace FipsTcp

open OrderedMap Number

namespace Stack

variable {s : Stack Ts.JsString} {t : Ts.Stack} {id : ConnectionId} {peer : Ts.JsString} {port : U16} {nowMs : ℕ}

/-! ## Arguments -/

theorem port_zero (port : U16) : port.toNat = 0 ↔ port = 0 := BitVec.toNat_inj (y := 0)

theorem checkPort_eq (port : U16) :
    Ts.checkPort port.toNat = if port = 0 then .error "TCP/FIPS ports must be non-zero u16 values" else .ok () := by
  have hlt : ¬ 65535 < port.toNat := Nat.not_lt.2 (Nat.le_of_lt_succ port.isLt)
  unfold Ts.checkPort
  simp only [hlt, or_false, port_zero]

theorem checkPeer_ok (h : peer ≠ []) : Ts.checkPeer peer = .ok () := if_neg fun hlen => h (List.length_eq_zero_iff.1 hlen)

theorem checkNow_ok (h : nowMs < 2 ^ 53) : Ts.checkNow nowMs = .ok () := if_neg (Nat.not_lt.2 (Nat.le_sub_one_of_lt h))

theorem checkConnect_eq (hpeer : peer ≠ []) (hnow : nowMs < 2 ^ 53) (localPort remotePort : U16) (isn : U32) :
    Ts.Stack.checkConnect peer localPort.toNat remotePort.toNat isn.toNat nowMs =
      if localPort = 0 ∨ remotePort = 0 then .error "TCP/FIPS ports must be non-zero u16 values" else .ok () := by
  have hisn : ¬ 2 ^ 32 ≤ isn.toNat := Nat.not_le.2 isn.isLt
  unfold Ts.Stack.checkConnect
  rw [checkPeer_ok hpeer, checkNow_ok hnow, checkPort_eq, checkPort_eq]
  by_cases hlocal : localPort = 0
  · rw [if_pos hlocal, if_pos (Or.inl hlocal : localPort = 0 ∨ remotePort = 0)]
    rfl
  by_cases hremote : remotePort = 0
  · rw [if_neg hlocal, if_pos hremote, if_pos (Or.inr hremote : localPort = 0 ∨ remotePort = 0)]
    rfl
  rw [if_neg hlocal, if_neg hremote, if_neg (not_or.2 ⟨hlocal, hremote⟩)]
  simp only [bind, Except.bind, hisn, if_false]
  rfl

/-- the id that TypeScript gives a connection -/
def Names (id : ConnectionId) (id' : ℕ) : Prop := id' = id.raw

/-! ## Listening -/

theorem Twin.listen (h : s.Twin t) (hqueue : port ∉ s.listeners → (s.accepts.lookup port).getD [] = []) :
    Agree Eq (s.listen port) (t.listen port.toNat) := by
  unfold Stack.listen Ts.Stack.listen
  rw [checkPort_eq]
  by_cases hzero : port = 0
  · rw [if_pos hzero, if_pos hzero]
    exact .failed h
  rw [if_neg hzero, if_neg hzero]
  by_cases hlisten : port ∈ s.listeners
  · simp only [hlisten, (h.listeners port).2 hlisten, if_true]
    exact .failed h
  simp only [hlisten, mt (h.listeners port).1 hlisten, if_false]
  refine .done { h with listeners := fun port' => ?_, accepts := ?_ } rfl
  · simp only [Finset.mem_insert, h.listeners]
    exact or_congr_left port_injective.eq_iff
  · have hinsert := h.accepts.insert port_injective port (x := []) (y := []) rfl
    split_ifs with hmem
    · -- the queue that is there is empty
      obtain ⟨queue, hl⟩ := Finmap.mem_iff.1 hmem
      have hnil := hqueue hlisten
      rw [hl, Option.getD_some] at hnil
      rwa [Table.insert_self (hnil ▸ hl)] at hinsert
    · exact hinsert

theorem Twin.closeListener (h : s.Twin t) (port : U16) : (s.closeListener port).Twin (t.closeListener port.toNat) := by
  refine { h with listeners := fun port' => ?_, accepts := h.accepts.erase port_injective port }
  simp only [Stack.closeListener, Ts.Stack.closeListener, Finset.mem_erase, h.listeners]
  exact and_congr_left' (not_congr port_injective.eq_iff)

theorem Twin.popAccepted (h : s.Twin t) (queue : List ConnectionId) :
    t.popAccepted (queue.map ConnectionId.raw) =
      ((s.popAccepted queue).1.map ConnectionId.raw, (s.popAccepted queue).2.map ConnectionId.raw) := by
  induction queue with
  | nil => rfl
  | cons id queue ih =>
    rw [List.map_cons, Ts.Stack.popAccepted, Stack.popAccepted]
    by_cases hid : id ∈ s.connections
    · rw [if_pos hid, if_pos (h.connections.mem_iff.2 hid)]
      rfl
    · rw [if_neg hid, if_neg fun ht => hid (h.connections.mem_iff.1 ht)]
      exact ih

theorem Twin.accept (h : s.Twin t) (port : U16) :
    (s.accept port).1.Twin (t.accept port.toNat).1 ∧ (t.accept port.toNat).2 = (s.accept port).2.map ConnectionId.raw := by
  unfold Stack.accept Ts.Stack.accept
  cases hl : s.accepts.lookup port with
  | none =>
    rw [h.accepts.missing hl]
    exact ⟨h, rfl⟩
  | some queue =>
    obtain ⟨queue', hget, hq⟩ := h.accepts.found hl
    subst hq
    simp only [hget, h.popAccepted queue]
    exact ⟨{ h with accepts := h.accepts.insert port_injective port rfl }, trivial⟩

/-! ## New connections -/

/-- a new connection and its first segment -/
theorem Twin.create (h : s.Twin t) (id : ConnectionId) (o : Opening Ts.JsString) (token : ℕ) (hnow : o.nowMs < 2 ^ 53) :
    Agree Eq ((s.insertConnection id (o.connection s.config.1).1).emit id (o.connection s.config.1).2)
      ((t.insertConnection id.raw (o.tsConnection s.config.1 token).1).emit id.raw (o.tsConnection s.config.1 token).2) := by
  obtain ⟨hfollows, hsegments⟩ := o.lockstep h.shared token (Connection.Deadlines.numbers_fits h.shared hnow)
  rw [hsegments]
  exact (h.insertConnection id ⟨token, hfollows⟩).emit id _

theorem Twin.client (h : s.Twin t) (id : ConnectionId) (peer : Ts.JsString) (localPort remotePort : U16) (isn : U32)
    (hnow : nowMs < 2 ^ 53) (token token' : ℕ) :
    Agree Eq ((s.insertConnection id (Connection.client peer localPort remotePort isn nowMs s.config.1 token).1).emit id
        (Connection.client peer localPort remotePort isn nowMs s.config.1 token).2)
      ((t.insertConnection id.raw
          (Ts.Connection.client peer localPort.toNat remotePort.toNat isn.toNat nowMs t.config token').1).emit id.raw
        (Ts.Connection.client peer localPort.toNat remotePort.toNat isn.toNat nowMs t.config token').2) := by
  rw [h.config]
  exact h.create id (.client peer localPort remotePort isn nowMs token) token' hnow

theorem Twin.server (h : s.Twin t) (id : ConnectionId) (peer : Ts.JsString) (syn : Segment) (isn : U32)
    (hnow : nowMs < 2 ^ 53) (token token' : ℕ) :
    Agree Eq ((s.insertConnection id (Connection.server peer syn isn nowMs s.config.1 token).1).emit id
        (Connection.server peer syn isn nowMs s.config.1 token).2)
      ((t.insertConnection id.raw (Ts.Connection.server peer syn.toTs isn.toNat nowMs t.config token').1).emit id.raw
        (Ts.Connection.server peer syn.toTs isn.toNat nowMs t.config token').2) := by
  rw [h.config]
  exact h.create id (.server peer syn isn nowMs token) token' hnow

theorem Twin.connectFromWithIsn (h : s.Twin t) (hpeer : peer ≠ []) (hnow : nowMs < 2 ^ 53) (hroom : s.nextConnectionId < maxSafe)
    (localPort remotePort : U16) (isn : U32) :
    Agree Names (s.connectFromWithIsn peer localPort remotePort isn nowMs)
      (t.connectFromWithIsn peer localPort.toNat remotePort.toNat isn.toNat nowMs) := by
  unfold Stack.connectFromWithIsn Ts.Stack.connectFromWithIsn
  rw [checkConnect_eq hpeer hnow]
  by_cases hport : localPort = 0 ∨ remotePort = 0
  · rw [if_pos hport, if_pos hport]
    exact .failed h
  rw [if_neg hport, if_neg hport]
  obtain ⟨hr, ht⟩ | ⟨e, e', hr, ht⟩ := h.capacity peer
  · rw [hr, ht]
    simp only
    by_cases hused : (⟨peer, localPort, remotePort⟩ : ConnectionKey Ts.JsString) ∈ s.lookup
    · rw [if_pos hused, if_pos ((h.taken peer localPort remotePort).2 hused)]
      exact .failed h
    rw [if_neg hused, if_neg fun htaken => hused ((h.taken peer localPort remotePort).1 htaken)]
    obtain ⟨hmoved, hid⟩ := h.allocateConnectionId hroom
    have hclient := hmoved.nextToken.client s.allocateConnectionId.2 peer localPort remotePort isn hnow s.nextConnectionToken
      t.nextConnectionToken
    rw [← hid] at hclient
    obtain ⟨s', t', a, b, hx, hy, htwin, -⟩ | ⟨s', t', e, e', hx, hy, htwin⟩ := hclient.results
    · simp only [Stack.allocateConnectionId, Stack.nextToken, Ts.Stack.allocateConnectionId, Ts.Stack.nextToken] at hx hy hid ⊢
      rw [hx, hy]
      exact .done htwin hid
    · simp only [Stack.allocateConnectionId, Stack.nextToken, Ts.Stack.allocateConnectionId, Ts.Stack.nextToken] at hx hy hid ⊢
      rw [hx, hy]
      exact .failed htwin
  · rw [hr, ht]
    exact .failed h

theorem Twin.connect (h : s.Twin t) (hpeer : peer ≠ []) {remotePort : U16} (hport : remotePort ≠ 0) (hnow : nowMs < 2 ^ 53)
    (hroom : s.nextConnectionId < maxSafe) :
    Agree Names (s.connect peer remotePort nowMs) (t.connect peer remotePort.toNat nowMs) := by
  have hallocate := h.allocateEphemeralPortLoop peer remotePort 16384
  unfold Stack.connect Ts.Stack.connect Stack.allocateEphemeralPort Ts.Stack.allocateEphemeralPort
  rw [checkPeer_ok hpeer, checkPort_eq, if_neg hport]
  obtain ⟨s', t', port, port', hx, hy, htwin, hp⟩ | ⟨s', t', e, e', hx, hy, htwin⟩ := hallocate.results
  · have hroom' : s'.nextConnectionId < maxSafe := by
      obtain ⟨cursor, hframe⟩ := allocateEphemeralPortLoop_frame peer remotePort 16384 s
      rw [hx] at hframe
      rwa [show s' = _ from hframe]
    obtain ⟨hmoved, hisn⟩ := htwin.nextIsn
    have hconnect := hmoved.connectFromWithIsn hpeer hnow hroom' port remotePort s'.nextIsn.2
    rw [← hisn, ← hp] at hconnect
    rw [hx, hy]
    exact hconnect
  · rw [hx, hy]
    exact .failed htwin

/-! ## Input -/

/-- both decoders read the same segment, or none -/
theorem decode_pair (bytes : List U8) :
    (∃ segment, Segment.decode bytes = .ok segment ∧ Ts.Segment.decode bytes = .ok segment.toTs) ∨
      ∃ e e', Segment.decode bytes = .error e ∧ Ts.Segment.decode bytes = .error e' := by
  have h := Segment.decode_toTs bytes
  cases hr : Segment.decode bytes with
  | ok segment =>
    cases ht : Ts.Segment.decode bytes with
    | ok segment' =>
      rw [hr, ht] at h
      cases h
      exact .inl ⟨segment, rfl, rfl⟩
    | error e =>
      rw [hr, ht] at h
      cases h
  | error e =>
    cases ht : Ts.Segment.decode bytes with
    | ok segment' =>
      rw [hr, ht] at h
      cases h
    | error e' => exact .inr ⟨e, e', rfl, rfl⟩

theorem Agree.lift {α β : Type} {R : α → β → Prop} {x : Stack Ts.JsString × Except StackError α}
    {y : Ts.Stack × Except String β} (h : Agree R x y) : Agree R (Stack.lift x) y := by
  cases h with
  | done htwin hvalue => exact .done htwin hvalue
  | failed htwin => exact .failed htwin

theorem Twin.inputSyn (h : s.Twin t) (peer : Ts.JsString) (segment : Segment) (hnow : nowMs < 2 ^ 53)
    (hroom : s.nextConnectionId < maxSafe) :
    Agree Eq (s.inputSyn peer segment nowMs) (t.inputSyn peer segment.toTs nowMs) := by
  unfold Stack.inputSyn Ts.Stack.inputSyn
  rw [Segment.toTs_supportsFipsVersion]
  by_cases hversion : segment.supportsFipsVersion FIPS_VERSION = true
  · rw [if_pos hversion, if_pos hversion]
    obtain ⟨hr, ht⟩ | ⟨e, e', hr, ht⟩ := h.capacity peer
    · rw [hr, ht]
      obtain ⟨hmoved, hid⟩ := h.allocateConnectionId hroom
      obtain ⟨hdrawn, hisn⟩ := hmoved.nextIsn
      have hserver := hdrawn.nextToken.server s.allocateConnectionId.2 peer segment s.allocateConnectionId.1.nextIsn.2 hnow
        s.nextConnectionToken t.nextConnectionToken
      rw [← hid, ← hisn] at hserver
      exact hserver
    · rw [hr, ht]
      exact .failed h
  · rw [if_neg hversion, if_neg hversion]
    exact h.emitReset peer segment

/-- a segment of a retained connection, which is of the peer that it came from -/
theorem Twin.inputRetained (h : s.Twin t) (id : ConnectionId) (segment : Segment) (hnow : nowMs < 2 ^ 53)
    (hpeer : ∀ c, s.connections.lookup id = some c → c.peer = peer ∧ c.SampleSafe nowMs) :
    Agree Eq (s.inputRetained peer id segment nowMs) (t.inputRetained id.raw segment.toTs nowMs) := by
  unfold Stack.inputRetained Ts.Stack.inputRetained
  cases hl : s.connections.lookup id with
  | none =>
    rw [h.connections.missing hl]
    exact .failed h
  | some c =>
    obtain ⟨c', hget, hc⟩ := h.connections.found hl
    obtain ⟨hfrom, hsample⟩ := hpeer c hl
    obtain ⟨token, hfollows⟩ := hc
    have hemit : ∀ x : Segment, Agree Eq (s.emit id [x]) (t.emit id.raw [x.toTs]) := fun x => h.emit id [x]
    simp only [hget, hfollows.handshakeResponse segment]
    by_cases hack : c.unacceptableAck segment = true
    · rw [if_pos hack, if_pos hack]
      have hreset : s.emitReset peer segment = s.emit id [resetFor segment] := by
        rw [Stack.emitReset, Stack.emit, hl, ← hfrom]
      rw [hreset]
      exact (hemit (resetFor segment)).lift
    rw [if_neg hack, if_neg hack]
    by_cases hsyn : c.unexpectedSyn segment = true
    · rw [if_pos hsyn, if_pos hsyn]
      exact (hemit c.ackSegment).lift
    rw [if_neg hsyn, if_neg hsyn]
    obtain ⟨hnext, hupdate⟩ :=
      hfollows.onSegment h.shared (Connection.Deadlines.numbers_fits h.shared hnow) hsample segment
    have hset := h.setConnection id ⟨token, hnext⟩
    simp only [Option.map_none, h.config]
    rw [hupdate]
    refine Agree.lift (Twin.finishUpdate ?_ id _)
    rw [show (c.onSegment segment nowMs s.config.1).2.toTs.accepted = (c.onSegment segment nowMs s.config.1).2.accepted from rfl]
    split_ifs
    · have hport : (c'.onSegment segment.toTs nowMs s.config.1.toTs).1.localPort =
          (c.onSegment segment nowMs s.config.1).1.localPort.toNat := Connection.Alike.localPort ⟨token, hnext⟩
      rw [hport]
      exact hset.enqueue _ id
    · exact hset

/-- the retained connection that a datagram is for -/
def addressee (s : Stack Ts.JsString) (peer : Ts.JsString) (bytes : List U8) : Option (Connection Ts.JsString) :=
  match Segment.decode bytes with
  | .ok segment => (s.lookup.lookup ⟨peer, segment.dstPort, segment.srcPort⟩).bind fun id => s.connections.lookup id
  | .error _ => none

theorem Twin.input (h : s.Twin t) (hs : s.Tidy) (hpeer : peer ≠ []) (bytes : List U8) (hnow : nowMs < 2 ^ 53)
    (hroom : s.nextConnectionId < maxSafe) (hsample : ∀ c ∈ s.addressee peer bytes, c.SampleSafe nowMs) :
    Agree Eq (s.input peer bytes nowMs) (t.input peer bytes nowMs) := by
  unfold Stack.input Ts.Stack.input
  rw [checkPeer_ok hpeer, checkNow_ok hnow]
  obtain ⟨segment, hr, ht⟩ | ⟨e, e', hr, ht⟩ := decode_pair bytes
  · rw [hr, ht]
    simp only
    rw [show segment.toTs.dstPort = segment.dstPort.toNat from rfl, show segment.toTs.srcPort = segment.srcPort.toNat from rfl]
    cases hl : s.lookup.lookup ⟨peer, segment.dstPort, segment.srcPort⟩ with
    | some id =>
      obtain ⟨id', hget, hid⟩ := h.lookup.found hl
      rw [ConnectionKey.text] at hget
      subst hid
      simp only [hget]
      refine h.inputRetained id segment hnow fun c hc => ?_
      have hkey := key_of_lookup hs hl hc
      refine ⟨congrArg ConnectionKey.peer hkey, hsample c ?_⟩
      rw [addressee, hr]
      simp only [hl, hc, Option.bind_some, Option.mem_def]
    | none =>
      have hget := h.lookup.missing hl
      rw [ConnectionKey.text] at hget
      simp only [hget, Segment.toTs, Flags.toTs_names, h.listeners]
      by_cases hopens : segment.flags.contains .SYN ∧ ¬ segment.flags.contains .ACK ∧ segment.dstPort ∈ s.listeners
      · rw [if_pos hopens, if_pos hopens]
        exact (h.inputSyn peer segment hnow hroom).lift
      rw [if_neg hopens, if_neg hopens]
      by_cases hreset : segment.flags.contains .RST = true
      · rw [if_pos hreset, if_pos hreset]
        exact .done h rfl
      · rw [if_neg hreset, if_neg hreset]
        exact (h.emitReset peer segment).lift
  · rw [hr, ht]
    exact .failed h

/-! ## Local operations -/

theorem Twin.write (h : s.Twin t) (id : ConnectionId) (bytes : List U8) (hnow : nowMs < 2 ^ 53) :
    Agree Eq (s.write id bytes nowMs) (t.write id.raw bytes nowMs) := by
  unfold Stack.write Ts.Stack.write Stack.writeWithMarker Ts.Stack.writeWithMarker
  rw [checkNow_ok hnow, Ts.Stack.requireConnection]
  cases hl : s.connections.lookup id with
  | none =>
    rw [h.connections.missing hl]
    exact .failed h
  | some c =>
    obtain ⟨c', hget, token, hfollows⟩ := h.connections.found hl
    have hwrite := hfollows.write bytes nowMs
    simp only [hget, h.config]
    cases hw : c.write bytes nowMs s.config.1 with
    | error e =>
      rw [hw] at hwrite
      rw [hwrite]
      exact .failed h
    | ok result =>
      obtain ⟨c₁, accepted, segments⟩ := result
      rw [hw] at hwrite
      obtain ⟨c₁', hnext, heq⟩ := hwrite
      rw [heq]
      simp only
      have hemit := (h.setConnection id ⟨token, hnext⟩).emit id segments
      obtain ⟨s', t', a, b, hx, hy, htwin, -⟩ | ⟨s', t', e, e', hx, hy, htwin⟩ := hemit.results
      · rw [hx, hy]
        exact .done htwin rfl
      · rw [hx, hy]
        exact .failed htwin

theorem Twin.read (h : s.Twin t) (id : ConnectionId) {max : ℕ} (hmax : max < 2 ^ 53) (hnow : nowMs < 2 ^ 53) :
    Agree Eq (s.read id max) (t.read id.raw max nowMs) := by
  unfold Stack.read Ts.Stack.read
  rw [checkNow_ok hnow, Ts.Stack.requireConnection]
  cases hl : s.connections.lookup id with
  | none =>
    rw [h.connections.missing hl]
    exact .failed h
  | some c =>
    obtain ⟨c', hget, token, hfollows⟩ := h.connections.found hl
    obtain ⟨c₁', hnext, heq⟩ := hfollows.read hmax
    simp only [hget, heq]
    have hemit := (h.setConnection id ⟨token, hnext⟩).emit id (c.read max).2.2
    obtain ⟨s', t', a, b, hx, hy, htwin, -⟩ | ⟨s', t', e, e', hx, hy, htwin⟩ := hemit.results
    · rw [hx, hy]
      exact .done htwin rfl
    · rw [hx, hy]
      exact .failed htwin

theorem Twin.close (h : s.Twin t) (id : ConnectionId) (hnow : nowMs < 2 ^ 53) :
    Agree Eq (s.close id nowMs) (t.close id.raw nowMs) := by
  unfold Stack.close Ts.Stack.close
  rw [checkNow_ok hnow, Ts.Stack.requireConnection]
  cases hl : s.connections.lookup id with
  | none =>
    rw [h.connections.missing hl]
    exact .failed h
  | some c =>
    obtain ⟨c', hget, token, hfollows⟩ := h.connections.found hl
    obtain ⟨hnext, hupdate⟩ := hfollows.close nowMs
    simp only [hget, hupdate]
    exact (h.setConnection id ⟨token, hnext⟩).finishUpdate id (c.close nowMs).2

/-- what `abort` leaves of a queue in which every datagram can be read -/
theorem withoutTuple_eq {config : Config} {c : Connection Ts.JsString} {c' : Ts.Connection} (hc : c.Alike config c')
    {queue : List Ts.Outbound} (hread : ∀ o ∈ queue, ∃ key, o.toRust.tuple = some key) :
    ∃ kept, Ts.Stack.withoutTuple c' queue = .ok kept ∧
      kept.map Ts.Outbound.toRust = (queue.map Ts.Outbound.toRust).filter fun o => !belongsTo o c.key := by
  induction queue with
  | nil => exact ⟨[], rfl, rfl⟩
  | cons o queue ih =>
    obtain ⟨kept, hkept, hmap⟩ := ih fun o' ho' => hread o' (List.mem_cons_of_mem o ho')
    obtain ⟨key, hkey⟩ := hread o List.mem_cons_self
    rw [Ts.Stack.withoutTuple, hkept, hc.peer]
    by_cases hpeer : o.peer = c.peer
    · rw [if_neg (not_not.2 hpeer)]
      obtain ⟨segment, hr, ht⟩ | ⟨e, e', hr, ht⟩ := decode_pair o.bytes
      · have hbelongs : belongsTo o.toRust c.key = decide (segment.srcPort = c.localPort ∧ segment.dstPort = c.remotePort) := by
          unfold belongsTo
          rw [show o.toRust.bytes = o.bytes from rfl, hr, show o.toRust.peer = c.key.peer from hpeer]
          simp only [decide_true, Bool.true_and]
          rfl
        have hports : (segment.toTs.srcPort ≠ c'.localPort ∨ segment.toTs.dstPort ≠ c'.remotePort) ↔
            ¬ (segment.srcPort = c.localPort ∧ segment.dstPort = c.remotePort) := by
          rw [hc.localPort, hc.remotePort, not_and_or]
          exact or_congr (not_congr port_injective.eq_iff) (not_congr port_injective.eq_iff)
        rw [ht]
        simp only [bind, Except.bind, pure, Except.pure, hports]
        refine ⟨_, rfl, ?_⟩
        rw [List.map_cons, List.filter_cons, hbelongs]
        by_cases hsame : segment.srcPort = c.localPort ∧ segment.dstPort = c.remotePort
        · simp only [hsame, and_self, not_true_eq_false, if_false, decide_true, Bool.not_true, Bool.false_eq_true]
          exact hmap
        · simp only [hsame, not_false_eq_true, if_true, decide_false, Bool.not_false, List.map_cons, hmap]
      · rw [Outbound.tuple, show o.toRust.bytes = o.bytes from rfl, hr] at hkey
        cases hkey
    · have hbelongs : belongsTo o.toRust c.key = false := by
        unfold belongsTo
        rw [show decide (o.toRust.peer = c.key.peer) = false from decide_eq_false hpeer, Bool.false_and]
      rw [if_pos hpeer]
      refine ⟨o :: kept, rfl, ?_⟩
      rw [List.map_cons, List.map_cons, List.filter_cons, hbelongs, Bool.not_false, if_pos rfl, hmap]

theorem Twin.abort (h : s.Twin t) (hs : s.AllSound) (hlegible : s.Legible) (id : ConnectionId) :
    Agree Eq (s.abort id) (t.abort id.raw) := by
  cases hl : s.connections.lookup id with
  | none =>
    unfold Stack.abort Ts.Stack.abort
    rw [Ts.Stack.requireConnection, hl, h.connections.missing hl]
    exact .failed h
  | some c =>
    obtain ⟨c', hget, hc⟩ := h.connections.found hl
    have hread : ∀ o ∈ t.outbound, ∃ key, o.toRust.tuple = some key := fun o ho =>
      hlegible o.toRust (h.outbound.perm.mem_iff.2 (List.mem_map_of_mem ho))
    obtain ⟨kept, hkept, hmap⟩ := withoutTuple_eq hc hread
    let purged := { s with outbound := s.outbound.filter fun o => !belongsTo o c.key }
    have hpurged : purged.Twin { t with outbound := kept } := by
      refine { h with outbound := ?_ }
      rw [hmap]
      exact h.outbound.filter _
    have hreset : c'.resetSegment = c.resetSegment.toTs := by
      obtain ⟨token, hb, reno, -, rfl⟩ := hc
      exact c.toTsBy_resetSegment _ reno token hb.mss
    have hencodes : ∀ x ∈ [c.resetSegment], x.Encodes := fun x hx => by
      rw [List.mem_singleton.1 hx]
      exact buildSegment_encodes (hs id c hl).ports.1 (hs id c hl).ports.2 []
    have hemit := hpurged.emit id [c.resetSegment]
    rw [emit_eq (s := purged) hl hencodes] at hemit
    have hremoved : (purged.queue c.peer [c.resetSegment]).removeConnection id = s.aborted id c := by
      rw [Stack.removeConnection, show (purged.queue c.peer [c.resetSegment]).connections.lookup id = some c from hl]
      rfl
    rw [abort_eq hl (hs id c hl), Ts.Stack.abort, Ts.Stack.requireConnection, hget]
    simp only [hkept, hreset]
    obtain ⟨s', t', a, b, hx, hy, htwin, -⟩ | ⟨s', t', e, e', hx, -, -⟩ := hemit.results
    · obtain rfl := (Prod.ext_iff.1 hx).1
      rw [show Ts.Stack.emit { t with outbound := kept } id.raw [c.resetSegment.toTs] = _ from hy, ← hremoved]
      exact .done (htwin.removeConnection id) rfl
    · cases hx

theorem Twin.setConnectionReservation (h : s.Twin t) (slots : ℕ) (eligible : Ts.JsString → Bool) :
    Agree Eq (s.setConnectionReservation slots eligible) (t.setConnectionReservation slots fun peer => .ok (eligible peer)) := by
  have hmax := h.shared.safe.1
  unfold Stack.setConnectionReservation Ts.Stack.setConnectionReservation
  have hlimit : t.config.maxConnections = s.config.1.maxConnections := congrArg Ts.Config.maxConnections h.config
  rw [hlimit]
  by_cases hslots : s.config.1.maxConnections ≤ slots
  · rw [if_pos hslots, if_pos (Or.inr hslots)]
    exact .failed h
  · rw [if_neg hslots, if_neg (not_or.2 ⟨fun hlt => hslots (hmax.trans hlt.le), hslots⟩)]
    refine .done { h with reservation := ?_ } rfl
    by_cases hzero : slots = 0
    · simp only [hzero, ne_eq, not_true_eq_false, if_true, if_false]
      rfl
    · simp only [hzero, ne_eq, not_false_eq_true, if_true, if_false]
      rfl

theorem Twin.drainOutbound (h : s.Twin t) : s.drainOutbound.1.Twin t.drainOutbound.1 := { h with outbound := .refl _ [] }

/-! ## Timers -/

/-- a round of `poll` ends like a call -/
theorem pollOne_finish {c : Connection Ts.JsString} (hl : s.connections.lookup id = some c) (hc : c.Sound s.config.1) :
    (s.setConnection id (c.poll nowMs s.config.1).1).finishUpdate id (c.poll nowMs s.config.1).2 = (pollOne nowMs s id, .ok ()) := by
  have hencodes : ∀ x ∈ (c.poll nowMs s.config.1).2.segments, x.Encodes := by
    cases hclosed : (c.poll nowMs s.config.1).2.closed with
    | false => exact ((hc.poll s.config.valid nowMs).1 hclosed).encodes
    | true =>
      rw [(Connection.poll_moves s.config.1 nowMs hc.mss).2 hclosed]
      exact fun x hx => absurd hx List.not_mem_nil
  have hemit := emit_eq (s.lookup_setConnection id (c.poll nowMs s.config.1).1) hencodes
  unfold pollOne Stack.finishUpdate
  simp only [hl, hemit]

theorem Twin.pollAll (h : s.Twin t) (hs : s.AllSound) (hnow : nowMs < maxSafe) {ids : List ConnectionId}
    {entries : List (ℕ × Ts.Connection)} (hids : ids.map ConnectionId.raw = entries.map Prod.fst) (hn : ids.Nodup)
    (hget : ∀ e ∈ entries, t.connections.get e.1 = some e.2) :
    ∃ t', Ts.Stack.pollAll nowMs entries t = (t', .ok ()) ∧ (s.poll ids nowMs).Twin t' := by
  induction ids generalizing s t entries with
  | nil =>
    obtain rfl := List.map_eq_nil_iff.1 hids.symm
    exact ⟨t, rfl, h⟩
  | cons id ids ih =>
    obtain _ | ⟨⟨raw, c'⟩, entries⟩ := entries
    · cases hids
    obtain ⟨hraw, hrest⟩ := List.cons.inj hids
    obtain ⟨hid, hn⟩ := List.nodup_cons.1 hn
    obtain rfl : id.raw = raw := hraw
    have hfirst : t.connections.get id.raw = some c' := hget _ List.mem_cons_self
    obtain ⟨c, hl⟩ : ∃ c, s.connections.lookup id = some c := by
      cases hl : s.connections.lookup id with
      | none =>
        rw [h.connections.missing hl] at hfirst
        cases hfirst
      | some c => exact ⟨c, rfl⟩
    obtain ⟨c₁, hget₁, token, hfollows⟩ := h.connections.found hl
    obtain rfl : c₁ = c' := Option.some.inj (hget₁.symm.trans hfirst)
    obtain ⟨hnext, hupdate⟩ := hfollows.poll h.shared
      (Connection.Deadlines.numbers_fits h.shared (hnow.trans_le (Nat.sub_le _ _))) (Connection.Deadlines.numbers_tells hnow)
    have hround := (h.setConnection id ⟨token, hnext⟩).finishUpdate id (c.poll nowMs s.config.1).2
    rw [pollOne_finish hl (hs id c hl), ← hupdate, ← h.config] at hround
    obtain ⟨s', t', a, b, hx, hy, htwin, -⟩ | ⟨s', t', e, e', hx, -, -⟩ := hround.results
    · obtain rfl : pollOne nowMs s id = s' := congrArg Prod.fst hx
      -- the entries that are left are those that were copied
      have hget' : ∀ e ∈ entries, t'.connections.get e.1 = some e.2 := fun e he => by
        have hne : e.1 ≠ id.raw := fun heq => by
          have hmem : e.1 ∈ ids.map ConnectionId.raw := hrest ▸ List.mem_map_of_mem he
          rw [heq, List.mem_map_of_injective raw_injective] at hmem
          exact hid hmem
        have hfinish := (t.setConnection id.raw (c₁.poll nowMs t.config).1).finishUpdate_get (c₁.poll nowMs t.config).2 hne
        rw [hy] at hfinish
        refine hfinish.trans ((OrderedMap.get_set_ne hne).trans (hget e (List.mem_cons_of_mem _ he)))
      obtain ⟨t'', hall, hdone⟩ := ih htwin ((pollOne_edits hs id nowMs).ok hs) hrest hn hget'
      refine ⟨t'', ?_, hdone⟩
      unfold Ts.Stack.pollAll
      simp only [hy]
      exact hall
    · cases hx

theorem Twin.poll (h : s.Twin t) (hs : s.Tidy) (hnow : nowMs < maxSafe) {ids : List ConnectionId}
    (hids : IsOrderOf ids s.connections.keys) : ∃ t', t.poll nowMs = (t', .ok ()) ∧ (s.poll ids nowMs).Twin t' := by
  obtain ⟨keys, hkeys, hn, hset⟩ := h.connections.order raw_injective
  obtain ⟨t', hall, htwin⟩ := h.pollAll hs.sound hnow hkeys hn fun e he => OrderedMap.get_of_pairs he
  refine ⟨t', ?_, ?_⟩
  · rw [Ts.Stack.poll, checkNow_ok (hnow.trans_le (Nat.sub_le _ _))]
    exact hall
  · obtain ⟨outbound, hpoll, hshuffle⟩ := poll_order hs ⟨hn, hset⟩ hids nowMs
    rw [hpoll]
    exact { htwin with outbound := hshuffle.symm.trans htwin.outbound }

end Stack

end FipsTcp
