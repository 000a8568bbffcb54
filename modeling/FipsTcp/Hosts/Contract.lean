/-
What two stacks on an authenticated carrier promise each other.

All of it is about undisturbed runs of two new stacks (`Hosts.talk_run`): whatever the carrier does with the datagrams of the
conversation, whatever else the applications, the other connections and the other peers do.
- `hosts_stream_integrity`: what a host receives and reads on the connection is a prefix of what the other accepted on it;
- `hosts_acked_was_received`: a marker that counts as acknowledged, and a FIN, were received by the other stack;
- `hosts_end_of_stream`: a host that reads the end of the stream has all of it, and the other can write no more;
- `hosts_backpressure`: what was written and not read fits the send buffer of the one and the receive buffer of the other.
-/
import FipsTcp.Hosts.System

namespace FipsTcp

open Stream SendWindow Connection

/-! ## Acknowledgements -/

namespace Socket

variable {P : Type} {config : Config} {isn : U32} {f : Face} {s : Socket P}

/-- what counts as acknowledged is among the positions that the peer received -/
theorem Local.acked_rcv (h : s.Local config isn f) (hr : s.ackRemoved = false) :
    s.conn.sendProgress.ackedPayloadBytes ≤ f.rcv ∧ (s.conn.state.phase = .closed → s.accepted.length + 2 ≤ f.rcv) := by
  have hs := h.side hr
  have hinv := hs.send.sender
  have hu := hinv.unaPos_eq
  have hle := hs.una
  have hsum := hinv.sum
  have hacked : s.conn.sender.acked = s.conn.sendProgress.ackedPayloadBytes := rfl
  have hphase : s.conn.sender.phase = s.conn.state.phase := rfl
  rw [← hphase]
  constructor
  · cases hph : s.conn.sender.phase <;> rw [hph] at hu <;> simp only at hu
    · rw [hinv.fresh hph, List.length_nil] at hsum
      omega
    all_goals omega
  · intro hph
    have hshape := hinv.shape
    rw [hph] at hu hshape
    -- everything accepted was sent, and nothing is in flight
    rw [(hinv.idle (by rw [hph]; decide)).1, show s.conn.sender.flight = [] from hshape] at hsum
    simp only [bytes_nil, List.length_nil] at hu hsum
    omega

end Socket

namespace Stack

variable {P : Type} [DecidableEq P] {s : Stack P}

theorem markerStatus_acked {marker : SendMarker} (h : s.markerStatus marker = .acked) :
    ∃ c, s.connections.lookup marker.connectionId = some c ∧
      marker.acceptedPayloadBytes ≤ c.sendProgress.ackedPayloadBytes := by
  unfold markerStatus at h
  cases hl : s.connections.lookup marker.connectionId with
  | none =>
    rw [hl] at h
    cases h
  | some c =>
    rw [hl] at h
    simp only [SendProgress.status] at h
    split_ifs at h with htok hle
    exact ⟨c, rfl, hle⟩

end Stack

namespace Conversation

variable {P : Type} [DecidableEq P] {k : Conversation P} {hs : Hosts P} {side : Side}

/-! ## What a host has, and what its socket has -/

theorem Speaks.retained {s : Socket P} (h : k.Speaks hs side s) {c : Connection P}
    (hl : (hs side).stack.connections.lookup (k.id side) = some c) : s.retained = true ∧ s.conn = c := by
  have hentry := h.follows.entry
  rw [hl] at hentry
  split_ifs at hentry with hr
  exact ⟨hr, (Option.some.inj hentry).symm⟩

/-- what was read was received -/
theorem Talk.delivered (h : k.Talk hs) (side : Side) : (hs side).delivered (k.id side) <+: (hs side).received (k.id side) := by
  have hspeaks : ∀ {s : Socket P}, k.Speaks hs side s →
      (hs side).delivered (k.id side) <+: (hs side).received (k.id side) := fun {s} h => by
    rw [h.follows.delivers, h.follows.receives]
    exact List.prefix_append _ _
  have hsilent : k.Silent hs side → (hs side).delivered (k.id side) <+: (hs side).received (k.id side) := fun h => by
    rw [h.delivers]
    exact List.nil_prefix
  cases h with
  | quiet h => exact hsilent (h side)
  | called isn c hc hserver hside =>
    cases side with
    | client => exact hspeaks hc
    | server => exact hsilent hserver
  | joined isn s h => exact hspeaks (h.speaks side)

/-- what was received is a prefix of what the other accepted -/
theorem Talk.received (h : k.Talk hs) (side : Side) :
    (hs side.other).received (k.id side.other) <+: (hs side).accepted (k.id side) := by
  have hsilent : k.Silent hs side.other → (hs side.other).received (k.id side.other) <+: (hs side).accepted (k.id side) :=
    fun h => by
      rw [h.receives]
      exact List.nil_prefix
  cases h with
  | quiet h => exact hsilent (h side.other)
  | called isn c hc hserver hside =>
    cases side with
    | client => exact hsilent hserver
    | server =>
      -- a client to which nobody has answered has received nothing
      have hnil : c.stream = [] := List.prefix_nil.1 (hside 0).isPrefix
      have hrec : (hs .client).received (k.id .client) = c.stream := hc.follows.receives
      rw [show Side.server.other = Side.client from rfl, hrec, hnil]
      exact List.nil_prefix
  | joined isn s h =>
    rw [(h.speaks side.other).follows.receives, (h.speaks side).follows.accepts]
    exact (h.inv.pipe side).isPrefix

/-- what counts as acknowledged was received -/
theorem Talk.acked (h : k.Talk hs) {c : Connection P} (hl : (hs side).stack.connections.lookup (k.id side) = some c) :
    c.sendProgress.ackedPayloadBytes ≤ ((hs side.other).received (k.id side.other)).length ∧
      (c.state.phase = .closed → (hs side.other).received (k.id side.other) = (hs side).accepted (k.id side)) := by
  have habsent : k.Silent hs side → False := fun h => by
    have := h.absent
    rw [hl] at this
    cases this
  cases h with
  | quiet h => exact (habsent (h side)).elim
  | called isn s hc hserver hside =>
    cases side with
    | server => exact (habsent hserver).elim
    | client =>
      obtain ⟨hr, rfl⟩ := hc.retained hl
      obtain ⟨h1, h2⟩ := (hside 0).acked_rcv ((hside 0).kept hr)
      exact ⟨h1.trans (Nat.zero_le _), fun hph => absurd (h2 hph) (Nat.not_succ_le_zero _)⟩
  | joined isn s h =>
    obtain ⟨hr, rfl⟩ := (h.speaks side).retained hl
    have hkept := (h.inv side).kept hr
    rw [(h.speaks side.other).follows.receives, (h.speaks side).follows.accepts]
    refine ⟨h.inv.acked_le side hkept, fun hph => ?_⟩
    exact (h.inv.all_received side (((h.inv side).acked_rcv hkept).2 hph)).2

/-- a side that reads the end of the stream heard the other close it -/
theorem Talk.closed (h : k.Talk hs) {c : Connection P}
    (hl : (hs side.other).stack.connections.lookup (k.id side.other) = some c) (hclosed : c.readClosed = true) :
    ∃ isn s, k.Joined hs isn s ∧ (s side.other).conn.readClosed = true := by
  have habsent : k.Silent hs side.other → False := fun h => by
    have := h.absent
    rw [hl] at this
    cases this
  cases h with
  | quiet h => exact (habsent (h side.other)).elim
  | called isn s hc hserver hside =>
    cases side with
    | client => exact (habsent hserver).elim
    | server =>
      obtain ⟨hr, rfl⟩ := hc.retained hl
      have hlocal := hside 0
      by_cases hst : s.conn.state = .synSent
      · have hfresh := ((hlocal.side (hlocal.kept hr)).recv.fresh hst).2.2
        rw [hclosed] at hfresh
        cases hfresh
      · cases ((hlocal.stream hst).closed hclosed).2
  | joined isn s h =>
    obtain ⟨hr, rfl⟩ := (h.speaks side.other).retained hl
    exact ⟨isn, s, h, hclosed⟩

/-- a side that closed its stream writes nothing more -/
theorem Speaks.shut {s : Socket P} (h : k.Speaks hs side s) (hfin : s.conn.state.phase.finSent = true) (bytes : List U8) (nowMs : ℕ) :
    ∃ e, ((hs side).stack.writeWithMarker (k.id side) bytes nowMs).2 = .error e := by
  unfold Stack.writeWithMarker
  rw [h.follows.entry]
  split_ifs
  · -- a connection that sent its FIN is in none of the states that accept a write
    have hst : ¬ (s.conn.state = .established ∨ s.conn.state = .closeWait) := by
      rintro (hs | hs) <;> rw [hs] at hfin <;> cases hfin
    exact ⟨.invalidState s.conn.state, by simp only [Connection.write, if_pos (Or.inl (b := s.conn.closeRequested = true) hst)]⟩
  · exact ⟨_, rfl⟩

end Conversation

/-! ## Buffers -/

/-- what was accepted was acknowledged, or is in the send buffer -/
theorem Socket.Local.accepted_le {P : Type} {config : Config} {isn : U32} {f : Face} {s : Socket P} (h : s.Local config isn f)
    (hr : s.ackRemoved = false) : s.accepted.length ≤ s.conn.sendProgress.ackedPayloadBytes + config.sendBuffer := by
  have hs := (h.side hr).send
  have hsum := hs.sender.sum
  have hheld := hs.buffer
  simp only [Sender.held] at hheld
  have hacked : s.conn.sender.acked = s.conn.sendProgress.ackedPayloadBytes := rfl
  omega

/-- what was accepted was received, or is in the send buffer -/
theorem Conversation.Talk.unreceived {P : Type} [DecidableEq P] {k : Conversation P} {hs : Hosts P} (h : k.Talk hs) (side : Side) :
    ((hs side).accepted (k.id side)).length ≤
      ((hs side.other).received (k.id side.other)).length + (k.config side).1.sendBuffer := by
  have hsilent : k.Silent hs side → ((hs side).accepted (k.id side)).length ≤
      ((hs side.other).received (k.id side.other)).length + (k.config side).1.sendBuffer := fun h => by
    rw [h.accepts]
    exact Nat.zero_le _
  cases h with
  | quiet h => exact hsilent (h side)
  | called isn s hc hserver hside =>
    cases side with
    | server => exact hsilent hserver
    | client =>
      -- nobody has answered, so nothing was acknowledged
      have hkept : s.ackRemoved = false := by
        by_contra hno
        exact absurd ((hside 0).left (Bool.of_not_eq_false hno)).2.2 (Nat.not_succ_le_zero _)
      have hacked : s.conn.sendProgress.ackedPayloadBytes ≤ 0 := ((hside 0).acked_rcv hkept).1
      have hle := (hside 0).accepted_le hkept
      rw [hc.follows.accepts]
      omega
  | joined isn s h =>
    rw [(h.speaks side.other).follows.receives, (h.speaks side).follows.accepts]
    cases hr : (s side).ackRemoved with
    | true =>
      have hall := (h.inv.all_received side ((h.inv side).left hr).2.2).2
      rw [hall]
      exact Nat.le_add_right _ _
    | false =>
      have hacked := h.inv.acked_le side hr
      have hle := (h.inv side).accepted_le hr
      have hconfig : ((k.handshake isn).config side).1 = (k.config side).1 := rfl
      rw [hconfig] at hle
      omega

namespace Host

variable {P : Type} [DecidableEq P] {h : Host P} {config : ValidConfig}

/-- what was received was read, or is in the receive buffer -/
structure Unread (config : ValidConfig) (h : Host P) : Prop where
  genuine : h.stack.Genuine config
  fits : ∀ id, (h.received id).length ≤ (h.delivered id).length + config.1.receiveBuffer

theorem Unread.step (hu : h.Unread config) (op : ℕ × StackOp P) : (h.step op).Unread config := by
  have helsewhere : (h.stack.elsewhere op.1).Genuine config := ⟨hu.genuine.sound, hu.genuine.same, hu.genuine.reachable⟩
  have hgenuine : (h.stack.turn op).Genuine config := helsewhere.step op.2
  refine ⟨hgenuine, fun id => ?_⟩
  have hold := hu.fits id
  simp only [Host.step]
  cases hl : (h.stack.turn op).connections.lookup id with
  | none =>
    simp only [Option.elim_none, List.length_append]
    omega
  | some c =>
    obtain ⟨isn, acc, hi⟩ := (hgenuine.sound id c hl).inv
    have hfits := hi.recv.fits
    rw [hgenuine.same] at hfits
    simp only [Option.elim_some, List.length_append]
    omega

end Host

/-- **What waits to be read** fits the receive buffer, after every run. -/
theorem Hosts.unread_run {P : Type} [DecidableEq P] (k : Conversation P) (isnSeed : Side → BitVec 64) (token : Side → ℕ)
    (ops : List (HostsOp P)) (side : Side) : (run k isnSeed token ops side).Unread (k.config side) := by
  refine Run.exec_invariant (P := fun hs : Hosts P => ∀ side, (hs side).Unread (k.config side)) (fun hs op h => ?_)
    (fun side => ⟨.new (k.config side) (isnSeed side) (token side), fun _ => Nat.zero_le _⟩) ops side
  rcases hs.step_cases k op with heq | ⟨side, op', heq⟩ <;> rw [heq]
  · exact h
  · intro d
    rcases side.eq_or_other d with rfl | rfl
    · rw [Conversation.update_self]
      exact (h d).step op'
    · rw [Conversation.update_other]
      exact h side.other

/-! ## Results -/

section Results

variable {P : Type} [DecidableEq P] (k : Conversation P) (isnSeed : Side → BitVec 64) {token : Side → ℕ}

/-- **Stream integrity of two stacks.** On a carrier that may lose, duplicate, reorder and delay every datagram, what a host read on
the connection is a prefix of what its stack received, and that is a prefix of what the other stack accepted. -/
theorem hosts_stream_integrity (htoken : ∀ side, 0 < token side) (ops : List (HostsOp P))
    (hG : Run.Along (Hosts.step k) (Hosts.Undisturbed k) (.new k isnSeed token) ops)
    (hb : (Hosts.run k isnSeed token ops).Bounded k) (side : Side) :
    (Hosts.run k isnSeed token ops side.other).delivered (k.id side.other) <+:
        (Hosts.run k isnSeed token ops side.other).received (k.id side.other) ∧
      (Hosts.run k isnSeed token ops side.other).received (k.id side.other) <+:
        (Hosts.run k isnSeed token ops side).accepted (k.id side) := by
  have htalk := Hosts.talk_run k isnSeed htoken hG hb
  exact ⟨htalk.delivered side.other, htalk.received side⟩

/-- a client that knows its server as 7, and is known to it as 8; its sequence numbers wrap inside the first three bytes -/
def wrapConversation : Conversation ℕ where
  config _ := ⟨Config.default, Config.default_validate⟩
  peer
    | .client => 7
    | .server => 8
  localPort := 9000
  remotePort := 80
  id _ := ⟨1⟩

/-- three bytes arrive twice, while the client makes another connection; the close is acknowledged -/
def wrapOps : List (HostsOp ℕ) :=
  [.act .server (0, .listen 80), .act .client (0, .connectFromWithIsn 7 9000 80 0xfffffffe 0), .deliver .server 0 1 0,
    .deliver .client 0 2 0, .act .client (0, .write ⟨1⟩ [1, 2, 3] 3), .act .client (2, .connectFromWithIsn 7 9001 80 5 3),
    .act .client (0, .drainOutbound), .deliver .server 2 4 0, .deliver .server 2 5 0, .act .server (0, .read ⟨1⟩ 2),
    .deliver .server 3 6 1, .deliver .client 1 6 0, .act .client (0, .close ⟨1⟩ 7), .deliver .server 4 8 0, .deliver .client 5 9 0]

abbrev wrapHosts : Hosts ℕ := Hosts.run wrapConversation (fun _ => 5) (fun _ => 1) wrapOps

theorem wrapOps_undisturbed : Run.Along (Hosts.step wrapConversation) (Hosts.Undisturbed wrapConversation)
    (.new wrapConversation (fun _ => 5) (fun _ => 1)) wrapOps := by decide +kernel

theorem wrapHosts_bounded : wrapHosts.Bounded wrapConversation := by decide +kernel

theorem hosts_stream_integrity_wrap :
    (wrapHosts .server).delivered ⟨1⟩ = [1, 2] ∧ (wrapHosts .server).received ⟨1⟩ = [1, 2, 3] ∧
      (wrapHosts .server).received ⟨1⟩ <+: (wrapHosts .client).accepted ⟨1⟩ :=
  ⟨by decide +kernel, by decide +kernel, (hosts_stream_integrity wrapConversation (fun _ => 5) (fun _ => Nat.one_pos) wrapOps
    wrapOps_undisturbed wrapHosts_bounded .client).2⟩

/-- **Acknowledged means received, between two stacks.** An acknowledged marker has every byte up to its boundary in the other stack;
a connection whose FIN was acknowledged has its whole stream there. -/
theorem hosts_acked_was_received (htoken : ∀ side, 0 < token side) (ops : List (HostsOp P))
    (hG : Run.Along (Hosts.step k) (Hosts.Undisturbed k) (.new k isnSeed token) ops)
    (hb : (Hosts.run k isnSeed token ops).Bounded k) (side : Side) :
    (∀ marker, marker.connectionId = k.id side → (Hosts.run k isnSeed token ops side).stack.markerStatus marker = .acked →
        marker.acceptedPayloadBytes ≤ ((Hosts.run k isnSeed token ops side).accepted (k.id side)).length ∧
          ((Hosts.run k isnSeed token ops side).accepted (k.id side)).take marker.acceptedPayloadBytes <+:
            (Hosts.run k isnSeed token ops side.other).received (k.id side.other)) ∧
      ((Hosts.run k isnSeed token ops side).stack.state (k.id side) = some .finWait2 ∨
          (Hosts.run k isnSeed token ops side).stack.state (k.id side) = some .timeWait →
        (Hosts.run k isnSeed token ops side.other).received (k.id side.other) =
          (Hosts.run k isnSeed token ops side).accepted (k.id side)) := by
  have htalk := Hosts.talk_run k isnSeed htoken hG hb
  generalize Hosts.run k isnSeed token ops = hs at htalk ⊢
  have hpre := htalk.received side
  constructor
  · intro marker hid hacked
    obtain ⟨c, hl, hle⟩ := Stack.markerStatus_acked hacked
    rw [hid] at hl
    have hreceived := hle.trans (htalk.acked hl).1
    refine ⟨hreceived.trans hpre.length_le, ?_⟩
    refine List.prefix_of_prefix_length_le (List.take_prefix _ _) hpre ?_
    rw [List.length_take]
    omega
  · intro hstate
    have hentry : ∃ c, (hs side).stack.connections.lookup (k.id side) = some c ∧ c.state.phase = .closed := by
      simp only [Stack.state, Option.map_eq_some_iff] at hstate
      rcases hstate with ⟨c, hl, hst⟩ | ⟨c, hl, hst⟩ <;> exact ⟨c, hl, by rw [hst]; rfl⟩
    obtain ⟨c, hl, hph⟩ := hentry
    exact (htalk.acked hl).2 hph

theorem hosts_acked_was_received_wrap :
    ((wrapHosts .client).accepted ⟨1⟩).take 3 <+: (wrapHosts .server).received ⟨1⟩ ∧
      (wrapHosts .server).received ⟨1⟩ = (wrapHosts .client).accepted ⟨1⟩ :=
  have h := hosts_acked_was_received wrapConversation (fun _ => 5) (fun _ => Nat.one_pos) wrapOps wrapOps_undisturbed wrapHosts_bounded
    .client
  ⟨(h.1 ⟨⟨1⟩, 1, 3⟩ rfl (by decide +kernel)).2, h.2 (.inl (by decide +kernel))⟩

/-- **No premature end of stream, between two stacks.** A host that still has the connection and reads the end of its stream received
all that the other stack ever accepted; the other accepts nothing more, and every write there fails. -/
theorem hosts_end_of_stream (htoken : ∀ side, 0 < token side) (ops more : List (HostsOp P))
    (hG : Run.Along (Hosts.step k) (Hosts.Undisturbed k) (.new k isnSeed token) ops)
    (hG' : Run.Along (Hosts.step k) (Hosts.Undisturbed k) (Hosts.run k isnSeed token ops) more)
    (hb : (Hosts.run k isnSeed token (ops ++ more)).Bounded k) (side : Side)
    (hret : k.id side.other ∈ (Hosts.run k isnSeed token ops side.other).stack.connections)
    (hclosed : (Hosts.run k isnSeed token ops side.other).stack.isReadClosed (k.id side.other) = true) :
    (Hosts.run k isnSeed token ops side.other).received (k.id side.other) =
        (Hosts.run k isnSeed token ops side).accepted (k.id side) ∧
      (Hosts.run k isnSeed token (ops ++ more) side).accepted (k.id side) =
        (Hosts.run k isnSeed token ops side).accepted (k.id side) ∧
      ∀ bytes nowMs, ∃ e, ((Hosts.run k isnSeed token (ops ++ more) side).stack.writeWithMarker (k.id side) bytes nowMs).2 =
        .error e := by
  have happ : Hosts.run k isnSeed token (ops ++ more) = Run.exec (Hosts.step k) (Hosts.run k isnSeed token ops) more :=
    Run.exec_append _ _ _
  rw [happ] at hb ⊢
  obtain ⟨htalk, hsound⟩ := Hosts.talk_known k isnSeed htoken hG hb
  generalize Hosts.run k isnSeed token ops = hs at *
  obtain ⟨c, hl⟩ := Finmap.mem_iff.1 hret
  rw [Stack.isReadClosed, hl] at hclosed
  obtain ⟨isn, s, hjoined, hclosed'⟩ := htalk.closed hl hclosed
  obtain ⟨s', hjoined', hle⟩ := hjoined.run hsound hG' hb
  have hp := hjoined.inv.pipe side
  have hall : (s side.other).stream = (s side).accepted := hp.eof_all hclosed'
  have hfin : (s side).conn.state.phase.finSent = true := hp.eof_closed hclosed'
  obtain ⟨hfin', hsame⟩ := (hle side).fin hfin
  rw [(hjoined.speaks side.other).follows.receives, (hjoined.speaks side).follows.accepts,
    (hjoined'.speaks side).follows.accepts]
  exact ⟨hall, hsame, (hjoined'.speaks side).shut hfin'⟩

/-- the client tries to write after it closed -/
def lateWrite : List (HostsOp ℕ) := [.act .client (0, .write ⟨1⟩ [9] 14)]

theorem hosts_end_of_stream_wrap :
    (wrapHosts .server).received ⟨1⟩ = (wrapHosts .client).accepted ⟨1⟩ ∧
      (Hosts.run wrapConversation (fun _ => 5) (fun _ => 1) (wrapOps ++ lateWrite) .client).accepted ⟨1⟩ =
        (wrapHosts .client).accepted ⟨1⟩ :=
  have h := hosts_end_of_stream wrapConversation (fun _ => 5) (fun _ => Nat.one_pos) wrapOps lateWrite wrapOps_undisturbed
    (by decide +kernel) (by decide +kernel) .client (by decide +kernel) (by decide +kernel)
  ⟨h.1, h.2.1⟩

/-- **Backpressure between two applications.** What one application wrote and the other stack has not received fits the send buffer of
the first, and what that stack received and its application has not read fits the receive buffer of the second. -/
theorem hosts_backpressure (htoken : ∀ side, 0 < token side) (ops : List (HostsOp P))
    (hG : Run.Along (Hosts.step k) (Hosts.Undisturbed k) (.new k isnSeed token) ops)
    (hb : (Hosts.run k isnSeed token ops).Bounded k) (side : Side) :
    ((Hosts.run k isnSeed token ops side).accepted (k.id side)).length ≤
        ((Hosts.run k isnSeed token ops side.other).received (k.id side.other)).length + (k.config side).1.sendBuffer ∧
      ((Hosts.run k isnSeed token ops side.other).received (k.id side.other)).length ≤
        ((Hosts.run k isnSeed token ops side.other).delivered (k.id side.other)).length + (k.config side.other).1.receiveBuffer := by
  have htalk := Hosts.talk_run k isnSeed htoken hG hb
  have hunread := Hosts.unread_run k isnSeed token ops side.other
  exact ⟨htalk.unreceived side, hunread.fits (k.id side.other)⟩

theorem hosts_backpressure_wrap :
    ((wrapHosts .client).accepted ⟨1⟩).length = 3 ∧
      ((wrapHosts .client).accepted ⟨1⟩).length ≤ ((wrapHosts .server).received ⟨1⟩).length + Config.default.sendBuffer ∧
      ((wrapHosts .server).received ⟨1⟩).length ≤ ((wrapHosts .server).delivered ⟨1⟩).length + Config.default.receiveBuffer :=
  have h := hosts_backpressure wrapConversation (fun _ => 5) (fun _ => Nat.one_pos) wrapOps wrapOps_undisturbed wrapHosts_bounded
    .client
  ⟨by decide +kernel, h⟩

end Results

end FipsTcp
