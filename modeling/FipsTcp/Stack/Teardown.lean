/-
What a datagram may do to the connections of a stack.

`Guarded` says that one datagram removes at most the connection of its own tuple, and only as an acceptable reset or as the ACK
of our FIN in LAST-ACK; that any other reset, and a SYN to a connection past its handshake, changes no connection and is
answered with at most one ACK; and that a reset is never answered with a reset. A listening port breaks it: it answers a SYN
that is also a reset (`AnswersReset`), as if the RST flag were not there.
- `onReset_closed`, `onSegment_tornDown`: what removes a connection;
- `guarded_iff`: a datagram does what it may exactly if no listener answers a reset;
- `teardown_causes`: the same of every run that does not reuse an id.
-/
import FipsTcp.Stack.Table
import FipsTcp.Connection.EndOfStream
import FipsTcp.Wire.RoundTrip

namespace FipsTcp

open Table Connection SendWindow

/-! ## What removes a connection -/

namespace Connection

variable {P : Type} {config : Config} {nowMs : ℕ} {segment : Segment} {isn : U32} {acc : List U8} {c : Connection P}

/-- an acceptable reset: in SYN-SENT its ACK is in `(send_una, send_nxt]`, in every other state it is at `recv_nxt` -/
def AcceptsReset (c : Connection P) (segment : Segment) : Prop :=
  if c.state = .synSent then
    ∃ ack, segment.ack = some ack ∧ 0 < distance c.sendUna ack ∧ distance c.sendUna ack ≤ distance c.sendUna c.sendNxt
  else segment.seq = c.recvNxt

/-- what the network may do to end a connection: an acceptable reset, or in LAST-ACK the ACK of everything sent -/
def TornDown (c : Connection P) (segment : Segment) : Prop :=
  segment.flags.contains .RST = true ∧ c.AcceptsReset segment ∨ c.state = .lastAck ∧ segment.ack = some c.sendNxt

/-- an ACK number passes the code's test for resets exactly if it is in the flight -/
theorem inFlight_iff (hs : c.SendInv config isn acc) (ack : U32) :
    after ack c.sendUna ∧ ¬ after ack c.sendNxt ↔
      0 < distance c.sendUna ack ∧ distance c.sendUna ack ≤ distance c.sendUna c.sendNxt := by
  have hroom : total (c.unacked.map TrackedSegment.piece) ≤ 65535 := hs.sender.room
  have hnxt : c.sendNxt = Serial.pos c.sendUna (total (c.unacked.map TrackedSegment.piece)) := hs.sender.nxt_eq_add
  rw [hs.distance_eq, hnxt]
  generalize total (c.unacked.map TrackedSegment.piece) = n at hroom
  have hack : ack = Serial.pos c.sendUna (distance c.sendUna ack) := (Serial.pos_dist _ _).symm
  have hd : distance c.sendUna ack < 2 ^ 32 := Serial.dist_lt _ _
  generalize distance c.sendUna ack = d at hack hd
  constructor
  · rintro ⟨hafter, hnot⟩
    -- an ACK number past the flight is after its end, unless it is too far ahead to be after its start
    have hpos : 0 < d := Nat.pos_of_ne_zero fun h0 => by
      rw [hack, h0, Serial.pos_zero] at hafter
      exact Serial.not_lt_self _ hafter
    refine ⟨hpos, Nat.le_of_not_lt fun hlt => hnot ?_⟩
    have hle : d ≤ 2 ^ 31 := by
      have h1 := (Serial.lt_iff_dist _ _).1 hafter
      have h2 := Serial.dist_comm_of_ne (a := c.sendUna) (b := ack) fun h => Serial.not_lt_self ack (h ▸ hafter)
      rw [hack, Serial.dist_base _ hd] at h2
      rw [hack] at h1
      omega
    rcases Nat.eq_zero_or_pos n with rfl | hn
    · rw [Serial.pos_zero]
      exact hafter
    · rw [hack]
      exact (before_pos (by omega) (by omega)).2 hlt
  · rintro ⟨hpos, hle⟩
    have hstart : before (Serial.pos c.sendUna 0) (Serial.pos c.sendUna d) ↔ 0 < d := before_pos (by omega) (by omega)
    have hend : before (Serial.pos c.sendUna n) (Serial.pos c.sendUna d) ↔ n < d := before_pos (by omega) (by omega)
    rw [Serial.pos_zero, ← hack] at hstart
    rw [← hack] at hend
    exact ⟨hstart.2 hpos, fun h => absurd (hend.1 h) (Nat.not_lt.2 hle)⟩

/-- a reset that is acceptable removes its connection, and any other is answered with at most an ACK -/
theorem onReset_closed (hs : c.SendInv config isn acc) (segment : Segment) :
    (c.onReset segment).closed = true ↔ c.AcceptsReset segment := by
  unfold onReset AcceptsReset
  by_cases hst : c.state = .synSent
  · rw [if_pos hst, if_pos hst]
    cases segment.ack with
    | none => simp [Update.open]
    | some ack =>
      simp only [Option.some.injEq, exists_eq_left', ← inFlight_iff hs]
      split_ifs with h <;> simp [Update.open, Update.close, h]
  · rw [if_neg hst, if_neg hst]
    split_ifs with h <;> simp [Update.open, Update.close, h]

theorem onReset_answer (segment : Segment) :
    (c.onReset segment).segments = [] ∨ (c.onReset segment).closed = false ∧ (c.onReset segment).segments = [c.ackSegment] := by
  unfold onReset
  split_ifs
  · split
    · split_ifs <;> exact .inl rfl
    · exact .inl rfl
  · exact .inl rfl
  · exact .inr ⟨rfl, rfl⟩
  · exact .inl rfl

/-- **What removes a connection**, of the segments that reach it. -/
theorem onSegment_tornDown (hs : c.SendInv config isn acc) (nowMs : ℕ) (segment : Segment) :
    (c.onSegment segment nowMs config).2.closed = true → c.TornDown segment := by
  unfold onSegment
  split_ifs with hrst
  · exact fun h => .inl ⟨hrst, (onReset_closed hs segment).1 h⟩
  · have hrst' : segment.flags.contains .RST = false := by simpa using hrst
    intro h
    split at h
    · rename_i hst
      rw [(onSynSent_moves config nowMs hst hrst').2] at h
      cases h
    · rename_i hst
      rw [(onSynReceived_moves config nowMs hst hs.mss hrst').2] at h
      cases h
    · rename_i h1 h2
      exact .inr ((onSynchronized_closed_iff nowMs hs ⟨h1, h2⟩ hrst').1 h)

end Connection

/-! ## One datagram -/

/-- an ACK and nothing else -/
structure Segment.PureAck (s : Segment) (ack : U32) : Prop where
  flags : s.flags = .ACK
  ack : s.ack = some ack
  payload : s.payload = []

namespace Stack

variable {P : Type} [DecidableEq P]

/-- the connection of a segment's tuple -/
def Retains (s : Stack P) (peer : P) (segment : Segment) (id : ConnectionId) (c : Connection P) : Prop :=
  s.connections.lookup id = some c ∧ c.key = ⟨peer, segment.dstPort, segment.srcPort⟩

/-- no connection is touched, and what is emitted is at most one ACK of `recv_nxt` for the tuple -/
def Unharmed (s s' : Stack P) (peer : P) (segment : Segment) : Prop :=
  s'.connections = s.connections ∧
    (s'.outbound = s.outbound ∨ ∃ id c bytes ack, s.Retains peer segment id c ∧
      s'.outbound = s.outbound ++ [⟨peer, bytes⟩] ∧ Segment.decode bytes = .ok ack ∧ ack.PureAck c.recvNxt)

/-- the connection is removed: nothing under its id has its tuple -/
def Gone (s' : Stack P) (id : ConnectionId) (c : Connection P) : Prop :=
  ∀ c', s'.connections.lookup id = some c' → c'.key ≠ c.key

/-- what a datagram may do to the connections of a stack, `s'` being the stack after it -/
structure Guarded (s s' : Stack P) (peer : P) (bytes : List U8) : Prop where
  /-- what removes a connection is for its tuple, and tears it down -/
  cause : ∀ id c, s.connections.lookup id = some c → s'.Gone id c →
    ∃ segment, Segment.decode bytes = .ok segment ∧ s.Retains peer segment id c ∧ c.TornDown segment
  /-- at most one connection is removed -/
  single : ∀ id id' c c', s.connections.lookup id = some c → s.connections.lookup id' = some c' → s'.Gone id c →
    s'.Gone id' c' → id = id'
  /-- a reset that no connection accepts does nothing -/
  reset : ∀ segment, Segment.decode bytes = .ok segment → segment.flags.contains .RST = true →
    (∀ id c, s.Retains peer segment id c → ¬ c.AcceptsReset segment) → s.Unharmed s' peer segment
  /-- neither does a SYN to a connection past its handshake -/
  syn : ∀ segment id c, Segment.decode bytes = .ok segment → segment.flags.contains .RST = false →
    segment.flags.contains .SYN = true → s.Retains peer segment id c → c.state ≠ .synSent → c.state ≠ .synReceived →
    s.Unharmed s' peer segment
  /-- a reset is not answered with a reset -/
  quiet : ∀ segment, Segment.decode bytes = .ok segment → segment.flags.contains .RST = true →
    ∃ out, s'.outbound = s.outbound ++ out ∧
      ∀ o ∈ out, ∀ answer, Segment.decode o.bytes = .ok answer → answer.flags.contains .RST = false

/-- a listener answers a SYN that is also a reset: it rejects the version, or it opens a connection -/
def AnswersReset (s : Stack P) (peer : P) (bytes : List U8) : Prop :=
  ∃ segment, Segment.decode bytes = .ok segment ∧ segment.flags.contains .RST = true ∧ s.Opens segment ∧
    s.lookup.lookup ⟨peer, segment.dstPort, segment.srcPort⟩ = none ∧
    (segment.supportsFipsVersion FIPS_VERSION = true → s.ensureConnectionCapacity peer = .ok ())

section Datagram

variable {s s' : Stack P} {peer : P} {bytes : List U8} {nowMs : ℕ} {segment : Segment} {id : ConnectionId} {c : Connection P}

omit [DecidableEq P] in
/-- what is queued for a segment is read as the segment -/
theorem datagram_decode (peer : P) (he : segment.Encodes) (hp : segment.Plain) :
    ∃ bytes, datagram peer segment = ⟨peer, bytes⟩ ∧ Segment.decode bytes = .ok segment := by
  obtain ⟨bytes, hb⟩ := he
  refine ⟨bytes, ?_, Segment.decode_encode hp hb⟩
  rw [datagram, hb]
  rfl

omit [DecidableEq P] in
/-- the ACK of a sound connection, as its peer reads it -/
theorem ackSegment_decode {config : Config} (hc : c.Sound config) :
    ∃ bytes, datagram c.peer c.ackSegment = ⟨c.peer, bytes⟩ ∧ Segment.decode bytes = .ok c.ackSegment ∧
      c.ackSegment.PureAck c.recvNxt := by
  have hplain : c.ackSegment.Plain := buildSegment_plain (by decide : Flags.ACK.bits &&& ~~~Flags.supportedMask = 0) []
  obtain ⟨bytes, hd, hdec⟩ := datagram_decode c.peer (buildSegment_encodes hc.ports.1 hc.ports.2 []) hplain
  exact ⟨bytes, hd, hdec, rfl, if_pos (by decide : Flags.ACK.contains .ACK = true), rfl⟩

/-- an ACK to the connection of the tuple leaves every connection unharmed -/
theorem unharmed_queue (hc : c.Sound s.config.1) (hr : s.Retains peer segment id c) :
    s.Unharmed (s.queue c.peer [c.ackSegment]) peer segment := by
  obtain ⟨bytes, hd, hdec, hpure⟩ := ackSegment_decode hc
  have hpeer : c.peer = peer := congrArg ConnectionKey.peer hr.2
  refine ⟨rfl, .inr ⟨id, c, bytes, c.ackSegment, hr, ?_, hdec, hpure⟩⟩
  rw [queue, List.map_singleton, hd, hpeer]

/-- the one answer is no reset -/
theorem Unharmed.quiet (h : s.Unharmed s' peer segment) : ∃ out, s'.outbound = s.outbound ++ out ∧
    ∀ o ∈ out, ∀ answer, Segment.decode o.bytes = .ok answer → answer.flags.contains .RST = false := by
  obtain ⟨-, hout | ⟨id, c, bytes, ack, -, hout, hdec, hack⟩⟩ := h
  · exact ⟨[], by rw [hout, List.append_nil], List.forall_mem_nil _⟩
  · refine ⟨_, hout, fun o ho answer hanswer => ?_⟩
    rw [List.mem_singleton.1 ho, hdec] at hanswer
    cases hanswer
    rw [hack.flags]
    decide

/-- what leaves the connections alone removes none -/
theorem Guarded.of_same (hconn : s'.connections = s.connections)
    (hreset : ∀ segment, Segment.decode bytes = .ok segment → segment.flags.contains .RST = true →
      s.Unharmed s' peer segment)
    (hsyn : ∀ segment id c, Segment.decode bytes = .ok segment → segment.flags.contains .RST = false →
      segment.flags.contains .SYN = true → s.Retains peer segment id c → c.state ≠ .synSent → c.state ≠ .synReceived →
      s.Unharmed s' peer segment) : s.Guarded s' peer bytes := by
  have hstay : ∀ id c, s.connections.lookup id = some c → ¬ s'.Gone id c := fun id c hl hgone =>
    hgone c (by rw [hconn]; exact hl) rfl
  exact ⟨fun id c hl hgone => absurd hgone (hstay id c hl), fun id _ c _ hl _ hgone _ => absurd hgone (hstay id c hl),
    fun segment hdec hrst _ => hreset segment hdec hrst, hsyn, fun segment hdec hrst => (hreset segment hdec hrst).quiet⟩

/-! ### The connection of a tuple -/

section Tuple

variable (hi : Indexed Connection.key s.connections s.lookup)
include hi

theorem not_retains (hkey : s.lookup.lookup ⟨peer, segment.dstPort, segment.srcPort⟩ = none) : ¬ s.Retains peer segment id c := by
  intro hr
  have h := hi.forward hr.1
  rw [hr.2, hkey] at h
  cases h

theorem retains_of_lookup (hkey : s.lookup.lookup ⟨peer, segment.dstPort, segment.srcPort⟩ = some id)
    (hl : s.connections.lookup id = some c) : s.Retains peer segment id c := by
  obtain ⟨c', hc', hk⟩ := hi.backward hkey
  rw [hl] at hc'
  cases hc'
  exact ⟨hl, hk⟩

theorem Retains.unique {id' : ConnectionId} {c' : Connection P} (h : s.Retains peer segment id c)
    (h' : s.Retains peer segment id' c') : c' = c := by
  have hid := hi.injective h.1 h'.1 (h.2.trans h'.2.symm)
  subst hid
  exact Option.some.inj (h'.1.symm.trans h.1)

end Tuple

/-- the answer of a listener to a reset is a segment, and no connection has the tuple -/
theorem AnswersReset.harms (hi : Indexed Connection.key s.connections s.lookup) (nowMs : ℕ) (h : s.AnswersReset peer bytes) :
    ¬ s.Guarded (s.input peer bytes nowMs).1 peer bytes := by
  obtain ⟨segment, hdec, hrst, hopen, hkey, hcap⟩ := h
  have hp := Segment.decode_ports hdec
  have hemit : ∃ o, (s.input peer bytes nowMs).1.outbound = s.outbound ++ [o] := by
    have hinput : s.input peer bytes nowMs = lift (s.inputSyn peer segment nowMs) := by
      unfold input
      rw [hdec]
      simp only [hkey]
      exact if_pos hopen
    rw [hinput]
    by_cases hv : segment.supportsFipsVersion FIPS_VERSION = true
    · rw [inputSyn_eq hp hv (hcap hv)]
      exact ⟨_, rfl⟩
    · unfold inputSyn
      rw [if_neg hv, emitReset_eq peer s hp]
      exact ⟨_, rfl⟩
  intro hg
  obtain ⟨-, hout | ⟨id, c, -, -, hr, -⟩⟩ := hg.reset segment hdec hrst fun id c hr => (not_retains hi hkey hr).elim
  · obtain ⟨o, ho⟩ := hemit
    rw [hout] at ho
    simpa using congrArg List.length ho
  · exact not_retains hi hkey hr

/-- what a segment does to the two maps and to the queue, when it leaves the connection open -/
theorem onRetained_open (id : ConnectionId) (h : (c.onSegment segment nowMs s.config.1).2.closed = false) :
    (s.onRetained id c segment nowMs).connections = s.connections.insert id (c.onSegment segment nowMs s.config.1).1 ∧
      (s.onRetained id c segment nowMs).outbound = s.outbound ++
        (c.onSegment segment nowMs s.config.1).2.segments.map (datagram (c.onSegment segment nowMs s.config.1).1.peer) := by
  unfold onRetained
  simp only [h, Bool.false_eq_true, if_false]
  split_ifs <;> exact ⟨rfl, rfl⟩

/-- what a reset does to its connection -/
theorem onRetained_reset (hok : s.view.Ok) (hr : s.Retains peer segment id c) (nowMs : ℕ)
    (hrst : segment.flags.contains .RST = true) :
    c.AcceptsReset segment ∧ s.onRetained id c segment nowMs = s.drop id c.key ∨
      s.Unharmed (s.onRetained id c segment nowMs) peer segment := by
  have hc := hok id c hr.1
  obtain ⟨isn, acc, hinv⟩ := hc.inv
  have hseg : c.onSegment segment nowMs s.config.1 = (c, c.onReset segment) := if_pos hrst
  cases hcl : (c.onReset segment).closed with
  | true =>
    refine .inl ⟨(onReset_closed hinv.send segment).1 hcl, ?_⟩
    simp only [onRetained, hseg, hcl, if_true]
  | false =>
    obtain ⟨hconn, hout⟩ := onRetained_open (s := s) (c := c) id (by rw [hseg]; exact hcl)
    rw [hseg] at hconn hout
    rw [insert_self hr.1] at hconn
    refine .inr ?_
    rcases c.onReset_answer segment with hnil | ⟨-, hack⟩
    · rw [hnil, List.map_nil, List.append_nil] at hout
      exact ⟨hconn, .inl hout⟩
    · rw [hack] at hout
      obtain ⟨-, h | ⟨i, x, bytes, ack, hx, h, hrest⟩⟩ := unharmed_queue hc hr
      · exact ⟨hconn, .inl (hout.trans h)⟩
      · exact ⟨hconn, .inr ⟨i, x, bytes, ack, hx, hout.trans h, hrest⟩⟩

/-- a segment that reaches the connection of its tuple -/
theorem guarded_onRetained (hok : s.view.Ok) (hi : Indexed Connection.key s.connections s.lookup)
    (hdec : Segment.decode bytes = .ok segment) (hr : s.Retains peer segment id c) (nowMs : ℕ)
    (h : c.unacceptableAck segment = false) (h' : c.unexpectedSyn segment = false) : s.Guarded (s.onRetained id c segment nowMs) peer bytes := by
  obtain ⟨isn, acc, hinv⟩ := (hok id c hr.1).inv
  have hkept := ((hok id c hr.1).input s.config.valid (Segment.decode_ports hdec) nowMs).1
  rw [Connection.input, h, h'] at hkept
  -- only the connection of the tuple can be gone, and then the segment tore it down
  have hgone : ∀ i x, s.connections.lookup i = some x → (s.onRetained id c segment nowMs).Gone i x →
      i = id ∧ c.TornDown segment := by
    intro i x hl hnot
    cases hcl : (c.onSegment segment nowMs s.config.1).2.closed with
    | true =>
      have hdrop : s.onRetained id c segment nowMs = s.drop id c.key := by simp only [onRetained, hcl, if_true]
      rw [hdrop] at hnot
      refine ⟨by_contra fun hne => hnot x ((Finmap.lookup_erase_ne hne).trans hl) rfl, ?_⟩
      exact onSegment_tornDown hinv.send nowMs segment hcl
    | false =>
      refine absurd hnot fun hnot => ?_
      have hconn := (onRetained_open id hcl).1
      by_cases hid : i = id
      · subst hid
        cases hl.symm.trans hr.1
        exact hnot _ (by rw [hconn]; exact Finmap.lookup_insert _) (key_of_stable (hkept hcl).key)
      · exact hnot x (by rw [hconn, Finmap.lookup_insert_of_ne _ hid]; exact hl) rfl
  refine ⟨fun i x hl hnot => ?_, fun i i' x x' hl hl' hnot hnot' => ?_, fun x hx hrst hno => ?_,
    fun x i y hx hrst hsyn hy h1 h2 => ?_, fun x hx hrst => ?_⟩
  · obtain ⟨rfl, htorn⟩ := hgone i x hl hnot
    cases hl.symm.trans hr.1
    exact ⟨segment, hdec, hr, htorn⟩
  · exact (hgone i x hl hnot).1.trans (hgone i' x' hl' hnot').1.symm
  all_goals
    rw [hdec] at hx
    cases hx
  · exact (onRetained_reset hok hr nowMs hrst).resolve_left fun h => hno id c hr h.1
  · -- the handshake check has answered it before
    rw [hr.unique hi hy] at h1 h2
    unfold unexpectedSyn at h'
    simp [h1, h2, hrst, hsyn] at h'
  · rcases onRetained_reset hok hr nowMs hrst with ⟨-, hdrop⟩ | hu
    · rw [hdrop]
      exact ⟨[], (List.append_nil _).symm, List.forall_mem_nil _⟩
    · exact hu.quiet

/-- **One datagram** does what it may exactly if no listener answers a reset. -/
theorem guarded_iff (hok : s.view.Ok) (hi : Indexed Connection.key s.connections s.lookup) (hfresh : s.FreshId) (peer : P)
    (bytes : List U8) (nowMs : ℕ) : s.Guarded (s.input peer bytes nowMs).1 peer bytes ↔ ¬ s.AnswersReset peer bytes := by
  refine ⟨fun hg ha => ha.harms hi nowMs hg, fun hno => ?_⟩
  have hcall := input_call hok peer bytes nowMs
  generalize (s.input peer bytes nowMs).1 = s' at hcall ⊢
  generalize (s.input peer bytes nowMs).2 = result at hcall
  have hsame : s.Guarded s peer bytes := .of_same rfl (fun _ _ _ => ⟨rfl, .inl rfl⟩) fun _ _ _ _ _ _ _ _ _ => ⟨rfl, .inl rfl⟩
  cases hcall with
  | refused | malformed | stale | ignored => exact hsame
  | rejected _ _ _ segment hdec hkey hrst =>
    refine .of_same rfl (fun x hx hxrst => ?_) fun x id c hx _ _ hr _ _ => ?_ <;> rw [hdec] at hx <;> cases hx
    · obtain ⟨hopen, hv⟩ := hrst hxrst
      exact absurd ⟨segment, hdec, hxrst, hopen, hkey, fun h => absurd h hv⟩ hno
    · exact absurd hr (not_retains hi hkey)
  | connected _ _ _ _ _ _ _ _ hop => rcases hop with h | h <;> cases h
  | opened _ _ _ segment hdec hkey hopen hver hcap =>
    -- a new connection: none is removed, and no connection had the tuple
    have hnot : ¬ segment.flags.contains .RST = true := fun hrst => hno ⟨segment, hdec, hrst, hopen, hkey, fun _ => hcap⟩
    have hkept : ∀ i x, s.connections.lookup i = some x → ¬ (s.nextIsn.1.create
        (Connection.server peer segment s.nextIsn.2 nowMs s.config.1 s.nextConnectionToken).1
        (Connection.server peer segment s.nextIsn.2 nowMs s.config.1 s.nextConnectionToken).2).Gone i x := fun i x hl hgone => by
      have hne : i ≠ s.nextId := fun he => by rw [he, hfresh] at hl; cases hl
      exact hgone x ((Finmap.lookup_insert_of_ne _ hne).trans hl) rfl
    refine ⟨fun i x hl hgone => absurd hgone (hkept i x hl), fun i _ x _ hl _ hgone _ => absurd hgone (hkept i x hl),
      fun x hx hrst => ?_, fun x i y hx _ _ hr => ?_, fun x hx hrst => ?_⟩
    all_goals
      rw [hdec] at hx
      cases hx
    · exact absurd hrst hnot
    · exact absurd hr (not_retains hi hkey)
    · exact absurd hrst hnot
  | reset _ _ _ segment id c hdec hkey hl h =>
    have hr := retains_of_lookup hi hkey hl
    simp only [unacceptableAck, Bool.and_eq_true, decide_eq_true_eq, Bool.not_eq_true'] at h
    refine .of_same rfl (fun x hx hrst => ?_) fun x i y hx _ _ hy h1 _ => ?_ <;> rw [hdec] at hx <;> cases hx
    · rw [h.1.2] at hrst
      cases hrst
    · rw [hr.unique hi hy] at h1
      exact absurd h.1.1 h1
  | challenged _ _ _ segment id c hdec hkey hl h h' =>
    have hr := retains_of_lookup hi hkey hl
    refine .of_same rfl (fun x hx hrst => ?_) fun x i y hx _ _ _ _ _ => ?_ <;> rw [hdec] at hx <;> cases hx
    · simp [unexpectedSyn, hrst] at h'
    · exact unharmed_queue (hok id c hl) hr
  | handled _ _ _ segment id c hdec hkey hl h h' =>
    exact guarded_onRetained hok hi hdec (retains_of_lookup hi hkey hl) nowMs h h'

end Datagram

end Stack

/-- **Teardown.** In every run that makes no connection under an id in use, a datagram does what it may to the connections
exactly if it is not a reset that a listener answers. -/
theorem teardown_causes {P : Type} [DecidableEq P] (config : ValidConfig) (isnSeed : BitVec 64) (token : ℕ)
    (ops : List (StackOp P)) (hfresh : Stack.FreshIds config isnSeed token ops)
    (hnext : (Stack.run config isnSeed token ops).FreshId) (peer : P) (bytes : List U8) (nowMs : ℕ) :
    let s := Stack.run config isnSeed token ops
    s.Guarded (s.input peer bytes nowMs).1 peer bytes ↔ ¬ s.AnswersReset peer bytes :=
  Stack.guarded_iff (Stack.ok_run config isnSeed token ops).1 (Stack.indexed_run hfresh) hnext peer bytes nowMs

/-- the reset of a closed port, for the SYN of a client -/
def closedPortReset : List U8 := [0, 80, 35, 40, 0, 0, 0, 0, 0, 0, 0, 101, 80, 20, 0, 0, 0, 0, 0, 0]

/-- a client connection that waits for the answer to its SYN -/
def clientRun : List (StackOp ℕ) := [.connectFromWithIsn 7 9000 80 100 0]

theorem teardown_causes_client :
    let s := Stack.run ⟨Config.default, Config.default_validate⟩ 5 1 clientRun
    s.Guarded (s.input 7 closedPortReset 5).1 7 closedPortReset ∧ s.state ⟨1⟩ = some .synSent ∧
      (s.input 7 closedPortReset 5).1.state ⟨1⟩ = none := by
  intro s
  refine ⟨(teardown_causes ⟨Config.default, Config.default_validate⟩ 5 1 clientRun ⟨Finmap.lookup_empty _, trivial⟩ ?_ 7
    closedPortReset 5).2 ?_, by decide, by decide⟩
  · exact Option.isNone_iff_eq_none.1 (by decide)
  · rintro ⟨segment, -, -, ⟨-, -, hport⟩, -⟩
    exact absurd hport (Finset.notMem_empty _)

/-- a SYN that is also a reset -/
def resetSyn : List U8 := [35, 40, 0, 80, 0, 0, 0, 100, 0, 0, 0, 0, 80, 6, 255, 255, 0, 0, 0, 0]

/-- a listener on port 80 -/
def listenRun : List (StackOp ℕ) := [.listen 80]

/-- it is answered with a reset -/
theorem teardown_causes_answered_reset :
    let s := Stack.run ⟨Config.default, Config.default_validate⟩ 5 1 listenRun
    ¬ s.Guarded (s.input 7 resetSyn 0).1 7 resetSyn ∧
      ((s.input 7 resetSyn 0).1.outbound.map fun o => (Segment.decode o.bytes).toOption.map (·.flags)) =
        [some (Flags.RST.union .ACK)] := by
  intro s
  have hi : Indexed Connection.key s.connections s.lookup := Stack.indexed_run ⟨Finmap.lookup_empty _, trivial⟩
  have ha : s.AnswersReset 7 resetSyn := ⟨⟨9000, 80, 100, none, ⟨6⟩, 65535, [], []⟩, by decide, by decide, by decide, by decide,
    by decide⟩
  exact ⟨ha.harms hi 0, by decide⟩

end FipsTcp
