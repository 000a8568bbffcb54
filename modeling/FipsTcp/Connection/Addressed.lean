/-
What a connection emits carries its tuple.

A segment that a connection builds has the connection's ports, and is read back as itself if its flags are flags of the
protocol. Those of a retransmission are the ones of the tracked segment, so they have to be kept track of (`Flagged`).
- `Move.unacked_cases`: what a primitive leaves in flight descends from what was in flight, or is one segment more;
- `Move.addressed`: whatever a primitive emits in answer to a segment of the tuple is `Addressed`;
- `Connection.said`: what an operation of a retained connection emits, and `said_addressed`, the same for it.
-/
import FipsTcp.Connection.Budget
import FipsTcp.Connection.Sound
import FipsTcp.Wire.RoundTrip

namespace FipsTcp

namespace Connection

variable {P : Type} {config : Config} {nowMs : ℕ} {inp : Option Segment} {c c' : Connection P} {out : List Segment}
  {F : Flags → Prop}

/-- no bits but those of the flags -/
def Proper (flags : Flags) : Prop := flags.bits &&& ~~~Flags.supportedMask = 0

instance (flags : Flags) : Decidable (Proper flags) := inferInstanceAs (Decidable (_ = _))

/-- the tracked segments have flags -/
def Flagged (c : Connection P) : Prop := ∀ x ∈ c.unacked, Proper x.flags

/-- what is true of the flags of every tracked segment -/
def Tracks (F : Flags → Prop) (c : Connection P) : Prop := ∀ x ∈ c.unacked, F x.flags

/-- what is in flight was in flight before, with the same flags and the end of the payload -/
def Descends (c c' : Connection P) : Prop := ∀ x ∈ c'.unacked, ∃ y ∈ c.unacked, x.flags = y.flags ∧ x.payload <:+ y.payload

/-- a segment from the connection to its peer that is read back as itself -/
structure Addressed (c : Connection P) (x : Segment) : Prop where
  plain : x.Plain
  source : x.srcPort = c.localPort
  target : x.dstPort = c.remotePort

/-! ## What is in flight -/

theorem Descends.of_eq (h : c'.unacked = c.unacked) : c.Descends c' := fun x hx => ⟨x, h ▸ hx, rfl, List.suffix_refl _⟩

theorem Descends.trans {c'' : Connection P} (h1 : c.Descends c') (h2 : c'.Descends c'') : c.Descends c'' := by
  intro x hx
  obtain ⟨y, hy, hf, hp⟩ := h2 x hx
  obtain ⟨z, hz, hf', hp'⟩ := h1 y hy
  exact ⟨z, hz, hf.trans hf', hp.trans hp'⟩

theorem ackLoop_suffix (rtt : RttEstimator) (ack : U32) (nowMs : ℕ) (l : List TrackedSegment) (acked : ℕ) (fin : Bool)
    (sample : Option ℕ) : (ackLoop rtt ack nowMs l acked fin sample).1 <:+ l := by
  induction l generalizing acked fin sample with
  | nil => exact List.suffix_refl _
  | cons y l ih =>
    rw [ackLoop]
    split
    · exact (ih _ _ _).trans (List.suffix_cons y l)
    · exact List.suffix_refl _

theorem trimFront_descends (ack : U32) (l : List TrackedSegment) :
    ∀ x ∈ (trimFront ack l).1, ∃ y ∈ l, x.flags = y.flags ∧ x.payload <:+ y.payload := by
  cases l with
  | nil => exact fun _ hx => nomatch hx
  | cons y l =>
    intro x hx
    rw [trimFront] at hx
    split at hx
    · rcases List.mem_cons.1 hx with rfl | hx
      · exact ⟨y, List.mem_cons_self, rfl, List.drop_suffix _ _⟩
      · exact ⟨x, List.mem_cons_of_mem _ hx, rfl, List.suffix_refl _⟩
    · exact ⟨x, hx, rfl, List.suffix_refl _⟩

theorem advanceAck_descends (c : Connection P) (ack : U32) (nowMs : ℕ) : c.Descends (c.advanceAck ack nowMs).1 := by
  intro x hx
  obtain ⟨y, hy, hxy⟩ := trimFront_descends ack _ x hx
  exact ⟨y, (ackLoop_suffix _ _ _ _ _ _ _).subset hy, hxy⟩

theorem retransmitOldest_descends (c : Connection P) (nowMs : ℕ) (timeout : Bool) :
    c.Descends (c.retransmitOldest nowMs timeout).1 := by
  rcases c.retransmitOldest_cases nowMs timeout with heq | ⟨tracked, rest, transmissions, dups, hu, -, heq⟩ <;> rw [heq]
  · exact .of_eq rfl
  · intro x hx
    rcases List.mem_cons.1 hx with rfl | hx
    · exact ⟨tracked, hu ▸ List.mem_cons_self, rfl, List.suffix_refl _⟩
    · exact ⟨x, hu ▸ List.mem_cons_of_mem _ hx, rfl, List.suffix_refl _⟩

theorem applyAck_descends (c : Connection P) (ack : U32) (nowMs : ℕ) (dup : Bool) : c.Descends (c.applyAck ack nowMs dup).1 :=
  applyAck_preserves (Q := c.Descends) c ack nowMs dup (fun _ _ _ => .of_eq rfl)
    (fun duplicateAcks reno _ => retransmitOldest_descends { c with duplicateAcks, reno } nowMs false)
    (c.advanceAck_descends ack nowMs)

theorem establishServer_descends (c : Connection P) (segment : Segment) (nowMs : ℕ) :
    c.Descends (c.establishServer segment nowMs) :=
  (c.applyAck_descends c.sendNxt nowMs false).trans (.of_eq (updateRemoteWindow_unacked _ segment.window nowMs).1)

theorem establishClient_descends (c : Connection P) (segment : Segment) (nowMs : ℕ) (config : Config) :
    c.Descends (c.establishClient segment nowMs config) := by
  have h1 : c.Descends ((c.updateRemoteWindow segment.window nowMs).negotiateMss segment config) :=
    .of_eq (c.updateRemoteWindow_unacked segment.window nowMs).1
  exact (h1.trans (applyAck_descends _ _ nowMs false)).trans (.of_eq rfl)

/-- what a primitive leaves in flight: what descends from what was there, or that and one segment more, of data or a FIN -/
theorem Move.unacked_cases (hmove : Move config nowMs inp c out c') :
    c.Descends c' ∨ ∃ x, c'.unacked = c.unacked ++ [x] ∧
      (x.flags = Flags.ACK.union .PSH ∧ (x.payload.length ≤ 1 ∨ c.Sending ∧ x.payload.length ≤ c.mss) ∨
        x.flags = Flags.FIN.union .ACK ∧ x.payload = []) := by
  cases hmove with
  | establishClient segment => exact .inl (c.establishClient_descends segment nowMs config)
  | establishServer segment => exact .inl (c.establishServer_descends segment nowMs)
  | window segment => exact .inl (.of_eq (c.updateRemoteWindow_unacked segment.window nowMs).1)
  | timers => exact .inl (.of_eq rfl)
  | retransmit timeout => exact .inl (c.retransmitOldest_descends nowMs timeout)
  | advanceAck c' segment ack hin hrst hack hst hadv hafter =>
    refine .inl ((c.advanceAck_descends ack nowMs).trans (.of_eq ?_))
    unfold afterAck finAcked at hafter
    dsimp only at hafter
    split_ifs at hafter
    · split at hafter <;> cases hafter <;> rfl
    · cases hafter; rfl
  | receive segment =>
    have hout := congrArg Connection.unacked (c.receiveStreamData_outgoing segment nowMs config).1
    exact .inl (.of_eq hout)
  | sendData count hst h0 hallow hmss =>
    exact .inr ⟨_, rfl, .inl ⟨rfl, .inr ⟨hst, (List.length_take_le _ _).trans hmss⟩⟩⟩
  | sendFin => exact .inr ⟨_, rfl, .inr ⟨rfl, rfl⟩⟩
  | probe =>
    rcases c.zeroWindowProbe_cases nowMs with ⟨x, -, -, heq⟩ | ⟨-, ⟨-, heq⟩ | ⟨-, heq⟩⟩ <;> rw [heq]
    · exact .inl (.of_eq rfl)
    · exact .inl (.of_eq rfl)
    · exact .inr ⟨_, rfl, .inl ⟨rfl, .inl (List.length_take_le _ _)⟩⟩
  | ack => exact .inl (.of_eq rfl)
  | reset => exact .inl (.of_eq rfl)
  | requestClose => exact .inl (.of_eq rfl)

/-! ## Flags -/

theorem Tracks.descends (h : c.Tracks F) (hd : c.Descends c') : c'.Tracks F := by
  intro x hx
  obtain ⟨y, hy, hxy, -⟩ := hd x hx
  exact hxy ▸ h y hy

theorem Tracks.of_eq (h : c.Tracks F) (hu : c'.unacked = c.unacked) : c'.Tracks F := h.descends (.of_eq hu)

theorem Tracks.push (h : c.Tracks F) {x : TrackedSegment} (hx : F x.flags) (hu : c'.unacked = c.unacked ++ [x]) :
    c'.Tracks F := by
  intro y hy
  rw [hu] at hy
  rcases List.mem_append.1 hy with hy | hy
  · exact h y hy
  · exact List.mem_singleton.1 hy ▸ hx

/-- what is true of the flags of data and of a FIN stays true -/
theorem Move.tracks (hmove : Move config nowMs inp c out c') (hdata : F (Flags.ACK.union .PSH)) (hfin : F (Flags.FIN.union .ACK))
    (h : c.Tracks F) : c'.Tracks F := by
  rcases hmove.unacked_cases with hd | ⟨x, hu, ⟨hx, -⟩ | ⟨hx, -⟩⟩
  · exact h.descends hd
  · exact h.push (hx ▸ hdata) hu
  · exact h.push (hx ▸ hfin) hu

theorem Move.flagged (hmove : Move config nowMs inp c out c') (h : c.Flagged) : c'.Flagged :=
  hmove.tracks (F := Proper) (by decide) (by decide) h

/-! ## Segments -/

theorem Addressed.of_stable {x : Segment} (h : c.Addressed x) (hs : c'.stable = c.stable) : c'.Addressed x := by
  have h1 : c'.localPort = c.localPort := congrArg Stable.localPort hs
  have h2 : c'.remotePort = c.remotePort := congrArg Stable.remotePort hs
  exact ⟨h.plain, h.source.trans h1.symm, h.target.trans h2.symm⟩

/-- what is built from the connection's header -/
theorem addressed_build (c : Connection P) (seq : U32) {flags : Flags} (hf : Proper flags) (payload : List U8) :
    c.Addressed (buildSegment (c.header seq flags) payload) := by
  have hflags : (c.header seq flags).flags.bits &&& ~~~Flags.supportedMask = 0 := hf
  exact ⟨buildSegment_plain hflags payload, rfl, rfl⟩

/-- an answer to a segment of the tuple -/
theorem addressed_reset {segment : Segment} (hin : segment.dstPort = c.localPort ∧ segment.srcPort = c.remotePort) :
    c.Addressed (resetFor segment) := by
  refine ⟨resetFor_plain segment, ?_, ?_⟩
  · unfold resetFor
    cases segment.ack <;> exact hin.1
  · unfold resetFor
    cases segment.ack <;> exact hin.2

theorem sendTracked_addressed (c : Connection P) {flags : Flags} (hf : Proper flags) (payload : List U8) (nowMs : ℕ) :
    c.Addressed (c.sendTracked flags payload nowMs).2 :=
  (addressed_build { c with sendNxt := (c.sendTracked flags payload nowMs).1.sendNxt } c.sendNxt hf payload).of_stable rfl

theorem resetSegment_addressed (c : Connection P) : c.Addressed c.resetSegment := by
  have hflags : ({ c.header c.sendNxt .RST with window := 0 } : SegmentHeader).flags.bits &&& ~~~Flags.supportedMask = 0 :=
    (by decide : Proper Flags.RST)
  exact ⟨buildSegment_plain hflags [], rfl, rfl⟩

theorem Move.addressed (hmove : Move config nowMs inp c out c') (h : c.Flagged)
    (hin : ∀ segment, inp = some segment → segment.dstPort = c.localPort ∧ segment.srcPort = c.remotePort) :
    ∀ x ∈ out, c.Addressed x := by
  have hone : ∀ {a : Segment}, c.Addressed a → ∀ x ∈ [a], c.Addressed x := fun ha x hx => List.mem_singleton.1 hx ▸ ha
  have hack : Proper Flags.ACK := by decide
  have hdata : Proper (Flags.ACK.union .PSH) := by decide
  cases hmove with
  | establishClient => exact fun _ hx => nomatch hx
  | establishServer => exact fun _ hx => nomatch hx
  | window => exact fun _ hx => nomatch hx
  | timers => exact fun _ hx => nomatch hx
  | advanceAck => exact fun _ hx => nomatch hx
  | requestClose => exact fun _ hx => nomatch hx
  | retransmit timeout =>
    rcases c.retransmitOldest_cases nowMs timeout with heq | ⟨tracked, rest, transmissions, dups, hu, -, heq⟩ <;> rw [heq]
    · exact fun _ hx => nomatch hx
    · exact hone (addressed_build c _ (h tracked (hu ▸ List.mem_cons_self)) _)
  | receive segment =>
    have hst := (outgoing_frame (c.receiveStreamData_outgoing segment nowMs config).1).2.2
    exact hone ((addressed_build (c.receiveStreamData segment nowMs config).1 _ hack []).of_stable hst.symm)
  | sendData count => exact hone ((sendTracked_addressed _ hdata _ nowMs).of_stable rfl)
  | sendFin => exact hone ((sendTracked_addressed _ (by decide : Proper (Flags.FIN.union .ACK)) _ nowMs).of_stable rfl)
  | probe =>
    rcases c.zeroWindowProbe_cases nowMs with ⟨x, -, -, heq⟩ | ⟨-, ⟨-, heq⟩ | ⟨-, heq⟩⟩ <;> rw [heq]
    · exact hone (addressed_build c _ hdata _)
    · exact fun _ hx => nomatch hx
    · exact hone ((sendTracked_addressed _ hdata _ nowMs).of_stable rfl)
  | ack => exact hone (addressed_build c _ hack _)
  | reset segment hin' => exact hone (addressed_reset (hin segment hin'))

/-- **What an operation emits carries the tuple,** and the flags stay flags. -/
theorem Moves.addressed (hmoves : Moves config nowMs inp c out c') (h : c.Flagged)
    (hin : ∀ segment, inp = some segment → segment.dstPort = c.localPort ∧ segment.srcPort = c.remotePort) :
    (∀ x ∈ out, c.Addressed x) ∧ c'.Flagged := by
  induction hmoves with
  | refl c => exact ⟨fun _ hx => (nomatch hx), h⟩
  | @cons c c1 c2 out out' hmove _ ih =>
    have hst := hmove.stable_eq
    have h1 : c1.localPort = c.localPort := congrArg Stable.localPort hst
    have h2 : c1.remotePort = c.remotePort := congrArg Stable.remotePort hst
    obtain ⟨h3, h4⟩ := ih (hmove.flagged h) fun segment hs => by
      rw [h1, h2]
      exact hin segment hs
    refine ⟨fun x hx => ?_, h4⟩
    rcases List.mem_append.1 hx with hx | hx
    · exact hmove.addressed h hin x hx
    · exact (h3 x hx).of_stable hst.symm

/-! ## Operations -/

/-- what an operation of a retained connection emits -/
def said (config : Config) (c : Connection P) : SocketOp → List Segment
  | .input segment nowMs => (c.input segment nowMs config).2.segments
  | .write bytes nowMs =>
    match c.write bytes nowMs config with
    | .error _ => []
    | .ok (_, _, segments) => segments
  | .read max => (c.read max).2.2
  | .close nowMs => (c.close nowMs).2.segments
  | .abort => [c.resetSegment]
  | .poll nowMs => (c.poll nowMs config).2.segments

/-- a segment of the tuple, if the operation brings one -/
def ForTuple (c : Connection P) (o : SocketOp) : Prop :=
  ∀ segment, o.segment = some segment → segment.dstPort = c.localPort ∧ segment.srcPort = c.remotePort

/-- what no peer sent is for every tuple -/
theorem forTuple_none (c : Connection P) {o : SocketOp} (h : o.segment = none) : c.ForTuple o := by
  intro segment hsegment
  rw [h] at hsegment
  cases hsegment

/-- unless it aborts, an operation that emits something makes moves, after what the application gave or took -/
theorem said_moves (hm : 0 < c.mss) (o : SocketOp) : c.said config o = [] ∨ o = .abort ∨
    ∃ c0 c', c0.stable = c.stable ∧ c0.unacked = c.unacked ∧ c0.mss = c.mss ∧ c0.state = c.state ∧
      Moves config o.time o.segment c0 (c.said config o) c' := by
  cases o with
  | input segment nowMs =>
    obtain ⟨hopen, hclosed⟩ := input_moves config nowMs segment hm
    cases hc : (c.input segment nowMs config).2.closed with
    | false => exact .inr (.inr ⟨c, _, rfl, rfl, rfl, rfl, hopen hc⟩)
    | true => exact .inl (hclosed hc).1
  | write bytes nowMs =>
    simp only [said]
    rcases hw : c.write bytes nowMs config with _ | ⟨c1, count, out⟩
    · exact .inl rfl
    · obtain ⟨-, -, -, -, hmoves⟩ := write_moves config nowMs hm hw
      exact .inr (.inr ⟨c.acceptBytes (bytes.take count), _, rfl, rfl, rfl, rfl, hmoves⟩)
  | read max => exact .inr (.inr ⟨c.consume (min max c.recvQueue.length), _, rfl, rfl, rfl, rfl, (read_moves config 0 max).2⟩)
  | close nowMs => exact .inr (.inr ⟨c, _, rfl, rfl, rfl, rfl, (close_moves config nowMs hm).1⟩)
  | abort => exact .inr (.inl rfl)
  | poll nowMs => exact .inr (.inr ⟨c, _, rfl, rfl, rfl, rfl, (poll_moves config nowMs hm).1⟩)

/-- **What an operation emits**, in answer to a segment of the tuple if it brings one. -/
theorem said_addressed (hs : c.Sound config) (h : c.Flagged) {o : SocketOp} (ho : c.ForTuple o) :
    ∀ x ∈ c.said config o, x.Encodes ∧ c.Addressed x := by
  rcases said_moves hs.mss o with hnil | rfl | ⟨c0, c', hst, hu, -, -, hmoves⟩
  · rw [hnil]
    exact fun _ hx => nomatch hx
  · intro x hx
    rw [List.mem_singleton.1 hx]
    exact ⟨buildSegment_encodes hs.ports.1 hs.ports.2 [], c.resetSegment_addressed⟩
  · have h1 : c0.localPort = c.localPort := congrArg Stable.localPort hst
    have h2 : c0.remotePort = c.remotePort := congrArg Stable.remotePort hst
    have hin : ∀ segment, o.segment = some segment → segment.dstPort = c0.localPort ∧ segment.srcPort = c0.remotePort := by
      rw [h1, h2]
      exact ho
    have hports := hs.ports.of_stable hst
    intro x hx
    refine ⟨hmoves.encodes hports (fun segment hseg => ?_) x hx, ((hmoves.addressed (Tracks.of_eq (F := Proper) h hu) hin).1 x hx).of_stable hst.symm⟩
    rw [(hin segment hseg).1, (hin segment hseg).2]
    exact ⟨hports.2, hports.1⟩

/-- the segment that opens a connection -/
theorem opening_addressed (config : Config) (o : Opening P) : ∀ x ∈ (o.connection config).2, (o.connection config).1.Addressed x := by
  intro x hx
  cases o with
  | client => exact List.mem_singleton.1 hx ▸ (sendTracked_addressed _ (by decide : Proper Flags.SYN) [] _).of_stable rfl
  | server =>
    exact List.mem_singleton.1 hx ▸ (sendTracked_addressed _ (by decide : Proper (Flags.SYN.union .ACK)) [] _).of_stable rfl

/-- a server tracks its SYN-ACK -/
theorem server_tracks (config : Config) (peer : P) (syn : Segment) (isn : U32) (nowMs token : ℕ) (h : F (Flags.SYN.union .ACK)) :
    ((Opening.server peer syn isn nowMs token).connection config).1.Tracks F := by
  have hu := (updateRemoteWindow_unacked (Connection.new peer syn.dstPort syn.srcPort .synReceived isn (syn.seq + 1) config
    token) syn.window nowMs).1
  exact Tracks.push (c := Connection.new peer syn.dstPort syn.srcPort .synReceived isn (syn.seq + 1) config token)
    (fun _ hx => nomatch hx) h (congrArg (· ++ [_]) hu)

/-- **Invariants of reachable connections**, of the tracked segments and the state -/
theorem Reachable.invariant {config : ValidConfig} {Q : Connection P → Prop} (hstart : ∀ o : Opening P, Q (o.connection config.1).1)
    (hmove : ∀ {nowMs inp c out c' isn acc}, Move config.1 nowMs inp c out c' → c.SendInv config.1 isn acc → Q c → Q c')
    (hframe : ∀ {c c' : Connection P}, Q c → c'.unacked = c.unacked → c'.state = c.state → Q c') (h : c.Reachable config.1) : Q c := by
  obtain ⟨o, ops, hr, rfl⟩ := h
  refine (Run.exec_invariant (P := fun s : Socket P => s.retained = true → s.conn.SendInv config.1 o.isn s.accepted ∧ Q s.conn)
    (fun s op hs => ?_) (fun _ => ⟨o.sendInv config.valid, hstart o⟩) ops hr).2
  exact Socket.step_invariant (Q := fun acc c => c.SendInv config.1 o.isn acc ∧ Q c) (fun h => h.1.mss)
    (fun hm h => ⟨hm.sendInv h.1, hmove hm h.1 h.2⟩) (fun h hst hroom => ⟨h.1.accept hst hroom, hframe h.2 rfl rfl⟩)
    (fun _ h => ⟨⟨h.1.sender, h.1.window, h.1.mss, h.1.buffer⟩, hframe h.2 rfl rfl⟩) hs op

/-- **Flags, in every reachable connection.** -/
theorem Reachable.flagged {config : ValidConfig} (h : c.Reachable config.1) : c.Flagged := by
  refine h.invariant (fun o => ?_) (fun hm _ hf => hm.flagged hf) fun hf hu _ => Tracks.of_eq (F := Proper) hf hu
  cases o with
  | client => exact fun x hx => List.mem_singleton.1 hx ▸ (by decide : Proper Flags.SYN)
  | server peer syn isn nowMs token => exact server_tracks config.1 peer syn isn nowMs token (by decide : Proper (Flags.SYN.union .ACK))

end Connection

end FipsTcp
