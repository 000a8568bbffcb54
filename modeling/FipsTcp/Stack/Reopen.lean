/-
A client that has lost its state connects again over a tuple that the server still holds.

Four messages, each read by a different rule: the SYN is unexpected and is challenged with an ACK of the old stream
(`challenge`); that ACK does not acknowledge the new SYN, so the client answers with a reset at exactly its number
(`refuse_ack`); the reset is exact and removes the old connection (`exact_reset`); the SYN sent again then opens a new one,
whose SYN-ACK the client takes (`open_again`, `finish`).
- `Holds`, `Waits`: the two ends, and what either does with the message that reaches it (`Holds.challenges`, `Waits.refuses`,
  `Holds.resets`, `reopens`, `Waits.finishes`);
- `reopen_recovery`: the exchange, whatever is queued at the two stacks.
-/
import FipsTcp.Stack.Teardown

namespace FipsTcp

open Table Connection SendWindow

/-! ## The segments of the exchange -/

/-- the SYN of a client -/
structure Segment.OpeningSyn (s : Segment) (srcPort dstPort : U16) (isn : U32) : Prop where
  srcPort : s.srcPort = srcPort
  dstPort : s.dstPort = dstPort
  seq : s.seq = isn
  ack : s.ack = none
  flags : s.flags = .SYN
  version : s.supportsFipsVersion FIPS_VERSION = true

/-- a SYN-ACK of a sequence number -/
structure Segment.SynAck (s : Segment) (srcPort dstPort : U16) (ack : U32) : Prop where
  srcPort : s.srcPort = srcPort
  dstPort : s.dstPort = dstPort
  ack : s.ack = some ack
  flags : s.flags = Flags.SYN.union .ACK
  version : s.supportsFipsVersion FIPS_VERSION = true

/-- a reset without ACK, at a sequence number -/
structure Segment.ResetAt (s : Segment) (srcPort dstPort : U16) (seq : U32) : Prop where
  srcPort : s.srcPort = srcPort
  dstPort : s.dstPort = dstPort
  seq : s.seq = seq
  ack : s.ack = none
  flags : s.flags = .RST

/-- what is read of an encoding -/
def Reads (bytes : List U8) (p : Segment → Prop) : Prop := ∃ segment, Segment.decode bytes = .ok segment ∧ p segment

theorem version_of_syn (header : SegmentHeader) (h : header.flags.contains .SYN = true) (payload : List U8) :
    (buildSegment header payload).supportsFipsVersion FIPS_VERSION = true := by
  have hopts : (buildSegment header payload).options = [.maxSegmentSize header.mss, .fipsVersion FIPS_VERSION 0] := if_pos h
  unfold Segment.supportsFipsVersion
  rw [hopts]
  rfl

namespace Stack

variable {P : Type} [DecidableEq P]

/-- a stack with something else in its queue -/
def queued (s : Stack P) (outbound : List (Outbound P)) : Stack P := { s with outbound }

section Steps

variable {s : Stack P} {peer : P} {bytes : List U8} {segment : Segment} {id : ConnectionId} {c : Connection P}

/-- a datagram for a retained connection -/
theorem input_retained (hdec : Segment.decode bytes = .ok segment)
    (hkey : s.lookup.lookup ⟨peer, segment.dstPort, segment.srcPort⟩ = some id) (hl : s.connections.lookup id = some c)
    (hc : c.Sound s.config.1) (nowMs : ℕ) :
    s.input peer bytes nowMs = (if c.unacceptableAck segment then s.queue peer [resetFor segment]
        else if c.unexpectedSyn segment then s.queue c.peer [c.ackSegment]
        else s.onRetained id c segment nowMs, .ok ()) := by
  unfold input
  rw [hdec]
  simp only [hkey]
  exact inputRetained_eq hl hc peer (Segment.decode_ports hdec)

section Retained

variable (hdec : Segment.decode bytes = .ok segment)
  (hkey : s.lookup.lookup ⟨peer, segment.dstPort, segment.srcPort⟩ = some id) (hl : s.connections.lookup id = some c)
  (hc : c.Sound s.config.1)
include hdec hkey hl hc

/-- **The challenge.** A SYN that did not open the connection is answered with an ACK of its stream. -/
theorem challenge {srcPort dstPort : U16} {isn : U32} (hsyn : segment.OpeningSyn srcPort dstPort isn) (hst : c.state ≠ .synSent)
    (hne : isn + 1 ≠ c.recvNxt) (nowMs : ℕ) : s.input peer bytes nowMs = (s.queue c.peer [c.ackSegment], .ok ()) := by
  have h1 : c.unacceptableAck segment = false := by simp [unacceptableAck, hst]
  have h2 : c.unexpectedSyn segment = true := by
    unfold unexpectedSyn
    rw [hsyn.seq, hsyn.flags]
    simp only [hst, hne, ne_eq, not_false_eq_true, or_true, decide_true, Bool.and_true, Bool.true_and]
    decide
  rw [input_retained hdec hkey hl hc, h1, h2]
  rfl

/-- **The refusal.** An ACK of something else than the SYN is answered with a reset at its number. -/
theorem refuse_ack {ack : U32} (hack : segment.PureAck ack) (hst : c.state = .synSent) (hnxt : c.sendNxt = c.sendUna + 1)
    (hne : ack ≠ c.sendUna + 1) (nowMs : ℕ) : s.input peer bytes nowMs = (s.queue peer [resetFor segment], .ok ()) := by
  obtain ⟨isn, acc, hinv⟩ := hc.inv
  have hout : ¬ (after ack c.sendUna ∧ ¬ after ack c.sendNxt) := fun h => by
    obtain ⟨hpos, hle⟩ := (inFlight_iff hinv.send ack).1 h
    have hone : distance c.sendUna c.sendNxt = 1 := by rw [hnxt]; simp [distance]
    rw [hone] at hle
    refine hne ?_
    rw [← Serial.pos_dist c.sendUna ack, show Serial.dist c.sendUna ack = 1 from le_antisymm hle hpos]
    rfl
  have h1 : c.unacceptableAck segment = true := by
    unfold unacceptableAck
    rw [hst, hack.ack, hack.flags]
    simp only [Option.any_some, decide_true, Bool.true_and, Bool.and_eq_true, decide_eq_true_eq]
    exact ⟨by decide, by tauto⟩
  rw [input_retained hdec hkey hl hc, h1]
  rfl

/-- **The reset.** A reset at `recv_nxt` removes the connection. -/
theorem exact_reset {srcPort dstPort : U16} (hrst : segment.ResetAt srcPort dstPort c.recvNxt) (hst : c.state ≠ .synSent)
    (nowMs : ℕ) : s.input peer bytes nowMs = (s.drop id c.key, .ok ()) := by
  have hflag : segment.flags.contains .RST = true := by rw [hrst.flags]; decide
  have h1 : c.unacceptableAck segment = false := by simp [unacceptableAck, hst]
  have h2 : c.unexpectedSyn segment = false := by simp [unexpectedSyn, hflag]
  have hclose : c.onSegment segment nowMs s.config.1 = (c, .close []) := by
    have hreset : c.onReset segment = .close [] := by
      unfold onReset
      rw [if_neg hst, if_pos hrst.seq]
    rw [← hreset]
    exact if_pos hflag
  rw [input_retained hdec hkey hl hc, h1, h2]
  simp only [Bool.false_eq_true, if_false, onRetained, hclose]
  rfl

/-- **The answer.** The SYN-ACK of the SYN establishes the client. -/
theorem finish {srcPort dstPort : U16} (hack : segment.SynAck srcPort dstPort c.sendNxt) (hst : c.state = .synSent)
    (hnxt : c.sendNxt = c.sendUna + 1) (nowMs : ℕ) :
    (s.input peer bytes nowMs).2 = .ok () ∧ (s.input peer bytes nowMs).1.state id = some .established := by
  obtain ⟨isn, acc, hinv⟩ := hc.inv
  have hsyn : segment.flags.contains .SYN = true := by rw [hack.flags]; decide
  have hackflag : segment.flags.contains .ACK = true := by rw [hack.flags]; decide
  have hrst : ¬ segment.flags.contains .RST = true := by rw [hack.flags]; decide
  have hin : after c.sendNxt c.sendUna ∧ ¬ after c.sendNxt c.sendNxt := by
    refine (inFlight_iff hinv.send c.sendNxt).2 ⟨?_, le_rfl⟩
    rw [hnxt]
    simp [distance]
  have h1 : c.unacceptableAck segment = false := by
    unfold unacceptableAck
    rw [hack.ack]
    simp [hin.1, hin.2]
  have h2 : c.unexpectedSyn segment = false := by simp [unexpectedSyn, hst]
  have hseg : c.onSegment segment nowMs s.config.1 =
      (c.establishClient segment nowMs s.config.1, .open [(c.establishClient segment nowMs s.config.1).ackSegment]) := by
    unfold onSegment
    rw [if_neg hrst, hst]
    exact if_pos ⟨hsyn, hackflag, hack.ack, hack.version⟩
  rw [input_retained hdec hkey hl hc, h1, h2]
  refine ⟨rfl, ?_⟩
  have hconn := @onRetained_open P _ s nowMs segment c id (by rw [hseg]; rfl)
  simp only [Bool.false_eq_true, if_false]
  rw [state, hconn.1, Finmap.lookup_insert, hseg]
  rfl

end Retained

/-- **The second attempt.** A SYN for a tuple without a connection opens one, if it is admitted. -/
theorem open_again {srcPort dstPort : U16} {isn : U32} (hdec : Segment.decode bytes = .ok segment)
    (hsyn : segment.OpeningSyn srcPort dstPort isn) (hkey : s.lookup.lookup ⟨peer, dstPort, srcPort⟩ = none)
    (hlisten : dstPort ∈ s.listeners) (hcap : s.ensureConnectionCapacity peer = .ok ()) (nowMs : ℕ) :
    let result := Connection.server peer segment s.nextIsn.2 nowMs s.config.1 s.nextConnectionToken
    s.input peer bytes nowMs = (s.nextIsn.1.create result.1 result.2, .ok ()) := by
  intro result
  have hopen : segment.flags.contains .SYN ∧ ¬ segment.flags.contains .ACK ∧ segment.dstPort ∈ s.listeners := by
    rw [hsyn.flags, hsyn.dstPort]
    exact ⟨by decide, by decide, hlisten⟩
  rw [← hsyn.srcPort, ← hsyn.dstPort] at hkey
  unfold input
  rw [hdec]
  simp only [hkey]
  rw [if_pos hopen, inputSyn_eq (Segment.decode_ports hdec) hsyn.version hcap]
  rfl

end Steps

/-! ## What is sent -/

omit [DecidableEq P] in
/-- the SYN of a new client, and the connection that waits for its answer -/
theorem client_syn (peer : P) {localPort remotePort : U16} (hl : localPort ≠ 0) (hr : remotePort ≠ 0) (isn : U32) (nowMs : ℕ)
    (config : ValidConfig) (token : ℕ) :
    ∃ c syn, Connection.client peer localPort remotePort isn nowMs config.1 token = (c, [syn]) ∧ c.Sound config.1 ∧
      c.key = ⟨peer, localPort, remotePort⟩ ∧ c.state = .synSent ∧ c.sendUna = isn ∧ c.sendNxt = isn + 1 ∧ syn.Encodes ∧
      syn.Plain ∧ syn.OpeningSyn localPort remotePort isn := by
  obtain ⟨hsound, -, -, -, henc⟩ := sound_client config.valid peer hl hr isn nowMs token
  have hend : (⟨isn, .SYN, [], nowMs, 1⟩ : TrackedSegment).endSeq = isn + 1 := by
    rw [TrackedSegment.endSeq_eq]
    exact congrArg (isn + asU32 ·) (by decide : (⟨0, .SYN, [], 0, 1⟩ : TrackedSegment).piece.len = 1)
  refine ⟨_, _, rfl, hsound, rfl, rfl, rfl, hend, henc _ (List.mem_singleton_self _), ?_, ?_⟩
  · exact buildSegment_plain (by decide : Flags.SYN.bits &&& ~~~Flags.supportedMask = 0) []
  · exact ⟨rfl, rfl, rfl, if_neg (by decide : ¬ Flags.SYN.contains .ACK = true), rfl,
      version_of_syn _ (by decide : Flags.SYN.contains .SYN = true) []⟩

omit [DecidableEq P] in
/-- the SYN-ACK of a new server connection -/
theorem server_synAck (peer : P) {syn : Segment} (hp : syn.srcPort ≠ 0 ∧ syn.dstPort ≠ 0) (isn : U32) (nowMs : ℕ)
    (config : ValidConfig) (token : ℕ) :
    ∃ c synAck, Connection.server peer syn isn nowMs config.1 token = (c, [synAck]) ∧
      c.key = ⟨peer, syn.dstPort, syn.srcPort⟩ ∧ c.state = .synReceived ∧ synAck.Encodes ∧
      synAck.Plain ∧ synAck.SynAck syn.dstPort syn.srcPort (syn.seq + 1) := by
  obtain ⟨-, h1, h2, h3, henc⟩ := sound_server config.valid peer hp isn nowMs token
  obtain ⟨hrecv, -, -, hst⟩ := (Connection.new peer syn.dstPort syn.srcPort .synReceived isn (syn.seq + 1) config.1
    token).updateRemoteWindow_frame syn.window nowMs
  have hkey : (Connection.server peer syn isn nowMs config.1 token).1.key = ⟨peer, syn.dstPort, syn.srcPort⟩ := by
    rw [Connection.key, h1, h2, h3]
  refine ⟨_, _, rfl, hkey, hst, henc _ (List.mem_singleton_self _), ?_, ?_⟩
  · exact buildSegment_plain (by decide : (Flags.SYN.union .ACK).bits &&& ~~~Flags.supportedMask = 0) []
  · have hnxt := congrArg Receiver.recvNxt hrecv
    refine ⟨h2, h3, ?_, rfl, version_of_syn _ (by decide : (Flags.SYN.union .ACK).contains .SYN = true) []⟩
    refine (if_pos (by decide : (Flags.SYN.union .ACK).contains .ACK = true)).trans (congrArg some ?_)
    exact hnxt

/-! ## The messages -/

variable {s a : Stack P} {peer : P} {bytes : List U8} {id : ConnectionId} {c : Connection P} {key : ConnectionKey P}
  {localPort remotePort : U16} {isn n : U32} {nowMs : ℕ}

/-- a connection past SYN-SENT, in both maps under its tuple -/
structure Holds (s : Stack P) (id : ConnectionId) (key : ConnectionKey P) (c : Connection P) : Prop where
  lookup : s.lookup.lookup key = some id
  held : s.connections.lookup id = some c
  sound : c.Sound s.config.1
  key : c.key = key
  state : c.state ≠ .synSent

/-- a client that waits for the answer to its SYN -/
structure Waits (s : Stack P) (id : ConnectionId) (key : ConnectionKey P) (isn : U32) (c : Connection P) : Prop where
  lookup : s.lookup.lookup key = some id
  held : s.connections.lookup id = some c
  sound : c.Sound s.config.1
  state : c.state = .synSent
  una : c.sendUna = isn
  nxt : c.sendNxt = isn + 1

/-- **The SYN** that a call of `connect_from_with_isn` queues. -/
theorem connect_waits (hl : localPort ≠ 0) (hr : remotePort ≠ 0)
    (h : s.connectFromWithIsn peer localPort remotePort isn nowMs = (a, .ok id)) :
    ∃ c bytes, a.Waits id ⟨peer, localPort, remotePort⟩ isn c ∧ a.outbound = s.outbound ++ [⟨peer, bytes⟩] ∧
      Reads bytes (·.OpeningSyn localPort remotePort isn) := by
  obtain ⟨c, syn, hclient, hc, hkey, hst, huna, hnxt, henc, hplain, hsyn⟩ :=
    client_syn peer hl hr isn nowMs s.config s.nextConnectionToken
  obtain ⟨rfl, rfl⟩ : a = s.create c [syn] ∧ id = s.nextId := by
    rcases connectFromWithIsn_cases s peer localPort remotePort isn nowMs with ⟨e, he, -⟩ | ⟨h1, h2, hcap, hnew⟩
    · rw [he] at h
      cases h
    · rw [connectFromWithIsn_eq h1 h2 hcap hnew, hclient] at h
      cases h
      exact ⟨rfl, rfl⟩
  obtain ⟨bytes, hd, hdec⟩ := datagram_decode peer henc hplain
  have hpeer : c.peer = peer := congrArg ConnectionKey.peer hkey
  refine ⟨c, bytes, ⟨?_, Finmap.lookup_insert _, hc, hst, huna, hnxt⟩, ?_, syn, hdec, hsyn⟩
  · rw [← hkey]
    exact Finmap.lookup_insert _
  · rw [← hd, ← hpeer]
    rfl

/-- **The ACK** that the SYN is challenged with. -/
theorem Holds.challenges (h : s.Holds id ⟨peer, localPort, remotePort⟩ c) (hsyn : Reads bytes (·.OpeningSyn remotePort localPort isn))
    (hisn : isn + 1 ≠ c.recvNxt) (nowMs : ℕ) :
    ∃ ack, Reads ack (fun x => x.PureAck c.recvNxt ∧ x.srcPort = localPort ∧ x.dstPort = remotePort) ∧
      ∀ q, (s.queued q).input peer bytes nowMs = (s.queued (q ++ [⟨peer, ack⟩]), .ok ()) := by
  obtain ⟨syn, hdec, hsyn⟩ := hsyn
  obtain ⟨ack, hd, hack, hpure⟩ := ackSegment_decode h.sound
  have hpeer : c.peer = peer := congrArg ConnectionKey.peer h.key
  refine ⟨ack, ⟨_, hack, hpure, congrArg ConnectionKey.localPort h.key, congrArg ConnectionKey.remotePort h.key⟩, fun q => ?_⟩
  have hkey : s.lookup.lookup ⟨peer, syn.dstPort, syn.srcPort⟩ = some id := by rw [hsyn.srcPort, hsyn.dstPort]; exact h.lookup
  rw [challenge (s := s.queued q) hdec hkey h.held h.sound hsyn h.state hisn, ← hpeer, ← hd]
  rfl

/-- **The reset** that an ACK of something else is refused with. -/
theorem Waits.refuses (h : s.Waits id ⟨peer, localPort, remotePort⟩ isn c) (hl : localPort ≠ 0) (hr : remotePort ≠ 0)
    (hack : Reads bytes fun x => x.PureAck n ∧ x.srcPort = remotePort ∧ x.dstPort = localPort) (hne : n ≠ isn + 1) (nowMs : ℕ) :
    ∃ reset, Reads reset (·.ResetAt localPort remotePort n) ∧
      ∀ q, (s.queued q).input peer bytes nowMs = (s.queued (q ++ [⟨peer, reset⟩]), .ok ()) := by
  obtain ⟨ack, hdec, hack, hsrc, hdst⟩ := hack
  obtain ⟨reset, hd, hreset⟩ := datagram_decode peer (resetFor_encodes (hsrc.symm ▸ hr) (hdst.symm ▸ hl)) (resetFor_plain ack)
  refine ⟨reset, ⟨_, hreset, ?_⟩, fun q => ?_⟩
  · unfold resetFor
    rw [hack.ack]
    exact ⟨hdst, hsrc, rfl, rfl, rfl⟩
  · have hkey : s.lookup.lookup ⟨peer, ack.dstPort, ack.srcPort⟩ = some id := by rw [hsrc, hdst]; exact h.lookup
    rw [refuse_ack (s := s.queued q) hdec hkey h.held h.sound hack h.state (by rw [h.nxt, h.una]) (by rw [h.una]; exact hne), ← hd]
    rfl

/-- **The removal.** -/
theorem Holds.resets (h : s.Holds id ⟨peer, localPort, remotePort⟩ c)
    (hreset : Reads bytes (·.ResetAt remotePort localPort c.recvNxt)) (nowMs : ℕ) (q : List (Outbound P)) :
    (s.queued q).input peer bytes nowMs = ((s.drop id ⟨peer, localPort, remotePort⟩).queued q, .ok ()) := by
  obtain ⟨reset, hdec, hreset⟩ := hreset
  have hkey : s.lookup.lookup ⟨peer, reset.dstPort, reset.srcPort⟩ = some id := by
    rw [hreset.srcPort, hreset.dstPort]
    exact h.lookup
  rw [exact_reset (s := s.queued q) hdec hkey h.held h.sound hreset h.state, h.key]
  rfl

/-- **The SYN again,** where nothing holds its tuple. -/
theorem reopens (hsyn : Reads bytes (·.OpeningSyn remotePort localPort isn))
    (hkey : s.lookup.lookup ⟨peer, localPort, remotePort⟩ = none) (hlisten : localPort ∈ s.listeners)
    (hcap : s.ensureConnectionCapacity peer = .ok ()) (nowMs : ℕ) :
    ∃ synAck new, new.state = .synReceived ∧ new.key = ⟨peer, localPort, remotePort⟩ ∧
      Reads synAck (·.SynAck localPort remotePort (isn + 1)) ∧
      ∀ q, let result := (s.queued q).input peer bytes nowMs
        result.2 = .ok () ∧ result.1.connections = s.connections.insert s.nextId new ∧
          result.1.lookup = s.lookup.insert ⟨peer, localPort, remotePort⟩ s.nextId ∧
          result.1.outbound = q ++ [⟨peer, synAck⟩] := by
  obtain ⟨syn, hdec, hsyn⟩ := hsyn
  obtain ⟨new, synAck, hserver, hnkey, hst, henc, hplain, hsynAck⟩ :=
    server_synAck peer (Segment.decode_ports hdec) s.nextIsn.2 nowMs s.config s.nextConnectionToken
  rw [hsyn.srcPort, hsyn.dstPort] at hnkey hsynAck
  rw [hsyn.seq] at hsynAck
  obtain ⟨bytes', hd, hdec'⟩ := datagram_decode peer henc hplain
  have hpeer : new.peer = peer := congrArg ConnectionKey.peer hnkey
  refine ⟨bytes', new, hst, hnkey, ⟨synAck, hdec', hsynAck⟩, fun q => ?_⟩
  have hopen := open_again (s := s.queued q) hdec hsyn hkey hlisten hcap nowMs
  have hresult : (s.queued q).input peer bytes nowMs = ((s.queued q).nextIsn.1.create new [synAck], .ok ()) := by
    rw [hopen]
    exact congrArg (fun r : Connection P × List Segment => ((s.queued q).nextIsn.1.create r.1 r.2, Except.ok ())) hserver
  simp only [hresult]
  refine ⟨trivial, rfl, ?_, ?_⟩
  · rw [← hnkey]
    rfl
  · rw [← hd, ← hpeer]
    rfl

/-- **The SYN-ACK.** -/
theorem Waits.finishes (h : s.Waits id ⟨peer, localPort, remotePort⟩ isn c)
    (hsynAck : Reads bytes (·.SynAck remotePort localPort (isn + 1))) (nowMs : ℕ) (q : List (Outbound P)) :
    ((s.queued q).input peer bytes nowMs).2 = .ok () ∧ ((s.queued q).input peer bytes nowMs).1.state id = some .established := by
  obtain ⟨synAck, hdec, hsynAck⟩ := hsynAck
  have hkey : s.lookup.lookup ⟨peer, synAck.dstPort, synAck.srcPort⟩ = some id := by
    rw [hsynAck.srcPort, hsynAck.dstPort]
    exact h.lookup
  rw [← h.nxt] at hsynAck
  exact finish (s := s.queued q) hdec hkey h.held h.sound hsynAck h.state (by rw [h.nxt, h.una]) nowMs

end Stack

/-- **Reopening.** A server that listens and holds a connection for the tuple of a client, past SYN-SENT, and a client that
connects over the same tuple with another sequence number than the server expects, whatever is queued at either:
- the SYN makes the server emit one ACK and changes nothing else there;
- that ACK makes the client emit one reset and changes nothing else there;
- the reset removes exactly the old connection;
- the SYN delivered again opens a connection in SYN-RECEIVED, if it is admitted, and its SYN-ACK establishes the client. -/
theorem reopen_recovery {P Q : Type} [DecidableEq P] [DecidableEq Q] (config : ValidConfig) (isnSeed : BitVec 64) (token : ℕ)
    (ops : List (StackOp P)) (client : P) (id : ConnectionId) (old : Connection P) (port clientPort : U16)
    (a0 a : Stack Q) (server : Q) (isn : U32) (idA : ConnectionId) (t : ℕ → ℕ)
    (hlisten : port ∈ (Stack.run config isnSeed token ops).listeners)
    (hlookup : (Stack.run config isnSeed token ops).lookup.lookup ⟨client, port, clientPort⟩ = some id)
    (hold : (Stack.run config isnSeed token ops).connections.lookup id = some old)
    (hkey : old.key = ⟨client, port, clientPort⟩) (hst : old.state ≠ .synSent)
    (hconnect : a0.connectFromWithIsn server clientPort port isn (t 0) = (a, .ok idA)) (hisn : isn + 1 ≠ old.recvNxt) :
    let b := Stack.run config isnSeed token ops
    let b' := b.drop id ⟨client, port, clientPort⟩
    ∃ syn ack reset,
      a.outbound = a0.outbound ++ [⟨server, syn⟩] ∧ Reads syn (·.OpeningSyn clientPort port isn) ∧
      (Reads ack (·.PureAck old.recvNxt) ∧
        ∀ q, (b.queued q).input client syn (t 1) = (b.queued (q ++ [⟨client, ack⟩]), .ok ())) ∧
      (a.state idA = some .synSent ∧ Reads reset (·.ResetAt clientPort port old.recvNxt) ∧
        ∀ q, (a.queued q).input server ack (t 2) = (a.queued (q ++ [⟨server, reset⟩]), .ok ())) ∧
      (∀ q, (b.queued q).input client reset (t 3) = (b'.queued q, .ok ())) ∧
      (b'.ensureConnectionCapacity client = .ok () → ∃ synAck new,
        new.state = .synReceived ∧ new.key = ⟨client, port, clientPort⟩ ∧ Reads synAck (·.SynAck port clientPort (isn + 1)) ∧
        (∀ q, let result := (b'.queued q).input client syn (t 4)
          result.2 = .ok () ∧ result.1.connections = b'.connections.insert b'.nextId new ∧
            result.1.lookup = b'.lookup.insert ⟨client, port, clientPort⟩ b'.nextId ∧
            result.1.outbound = q ++ [⟨client, synAck⟩]) ∧
        ∀ q, ((a.queued q).input server synAck (t 5)).2 = .ok () ∧
          ((a.queued q).input server synAck (t 5)).1.state idA = some .established) := by
  intro b b'
  have hsound : old.Sound b.config.1 := (Stack.ok_run config isnSeed token ops).1 id old hold
  have hport : port ≠ 0 := fun h => hsound.ports.1 ((congrArg ConnectionKey.localPort hkey).trans h)
  have hclientPort : clientPort ≠ 0 := fun h => hsound.ports.2 ((congrArg ConnectionKey.remotePort hkey).trans h)
  have hholds : b.Holds id ⟨client, port, clientPort⟩ old := ⟨hlookup, hold, hsound, hkey, hst⟩
  obtain ⟨c, syn, hwaits, hout, hsyn⟩ := Stack.connect_waits hclientPort hport hconnect
  obtain ⟨ack, hack, hchallenge⟩ := hholds.challenges hsyn hisn (t 1)
  obtain ⟨reset, hreset, hrefuse⟩ := hwaits.refuses hclientPort hport hack hisn.symm (t 2)
  have hwaiting : a.state idA = some .synSent := by
    rw [Stack.state, hwaits.held]
    exact congrArg some hwaits.state
  obtain ⟨x, hx, hpure, -⟩ := hack
  refine ⟨syn, ack, reset, hout, hsyn, ⟨⟨x, hx, hpure⟩, hchallenge⟩, ⟨hwaiting, hreset, hrefuse⟩, hholds.resets hreset (t 3),
    fun hcap => ?_⟩
  obtain ⟨synAck, new, hnst, hnkey, hsynAck, hopen⟩ := Stack.reopens (s := b') hsyn (Finmap.lookup_erase _ _) hlisten hcap (t 4)
  exact ⟨synAck, new, hnst, hnkey, hsynAck, hopen, hwaits.finishes hsynAck (t 5)⟩

/-- a server that has answered a SYN 50000 -> 443 of peer 7 with sequence number 100 -/
def reopenRun : List (StackOp ℕ) :=
  [.listen 443, .input 7 [195, 80, 1, 187, 0, 0, 0, 100, 0, 0, 0, 0, 112, 2, 255, 255, 0, 0, 0, 0, 2, 4, 4, 0, 254, 4, 1, 0] 0]

/-- the connection of that SYN -/
def reopenOld : Connection ℕ :=
  ((Stack.run ⟨Config.default, Config.default_validate⟩ 5 1 reopenRun).connections.lookup ⟨1⟩).get (by decide)

theorem reopen_recovery_fresh :
    let config : ValidConfig := ⟨Config.default, Config.default_validate⟩
    let b := Stack.run config 5 1 reopenRun
    let a := ((Stack.new config 6 1 : Stack ℕ).connectFromWithIsn 9 50000 443 5000 0).1
    ∃ syn ack reset synAck,
      (b.queued []).input 7 syn 0 = (b.queued [⟨7, ack⟩], .ok ()) ∧ (a.queued []).input 9 ack 0 = (a.queued [⟨9, reset⟩], .ok ()) ∧
      (b.queued []).input 7 reset 0 = ((b.drop ⟨1⟩ ⟨7, 443, 50000⟩).queued [], .ok ()) ∧
      (((b.drop ⟨1⟩ ⟨7, 443, 50000⟩).queued []).input 7 syn 0).1.outbound = [⟨7, synAck⟩] ∧
      ((a.queued []).input 9 synAck 0).1.state ⟨1⟩ = some .established := by
  intro config b a
  obtain ⟨syn, ack, reset, -, -, ⟨-, hchallenge⟩, ⟨-, -, hrefuse⟩, hreset, hopen⟩ :=
    reopen_recovery config 5 1 reopenRun 7 ⟨1⟩ reopenOld 443 50000 (Stack.new config 6 1) a 9 5000 ⟨1⟩ (fun _ => 0) (by decide)
      (by decide) (Option.some_get _).symm (by decide) (by decide) (Prod.ext rfl (by decide)) (by decide)
  obtain ⟨synAck, new, -, -, -, hsynAck, hfinish⟩ := hopen (by decide)
  exact ⟨syn, ack, reset, synAck, hchallenge [], hrefuse [], hreset [], (hsynAck []).2.2.2, (hfinish []).2⟩

end FipsTcp
