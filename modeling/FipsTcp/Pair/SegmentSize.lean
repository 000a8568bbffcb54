/-
Two ends agree on how large a segment may be.

Each side announces an MSS on the SYN it sends, and `negotiate_mss` takes the smaller of what is announced and what is
configured. A SYN that is repeated later announces what was settled by then, but for the smaller of the two configured
(`Handshake.segmentSize`) every SYN comes to the same at the other end (`Segment.Fits`).
- `Move.sized`, `Move.fits`: what a connection has in flight and what it emits keep to the size, if what arrives does;
- `Socket.Sized.step`: so does a socket, after every operation;
- `segment_size_agreed`: the two ends of a handshake settle on the same size, and neither ever sends more.
-/
import FipsTcp.Hosts.Host

namespace FipsTcp

open Connection

/-- a segment of a size, whose SYN comes to that size where `mss` is configured -/
structure Segment.Fits (size mss : ℕ) (x : Segment) : Prop where
  payload : x.payload.length ≤ size
  offer : x.flags.contains .SYN = true → ∃ v, x.maxSegmentSize = some v ∧ min v.toNat mss = size

/-- a segment with nothing in it -/
theorem Segment.Fits.of_empty {size mss : ℕ} {x : Segment} (hp : x.payload = []) (hsyn : x.flags.contains .SYN = false) :
    x.Fits size mss := by
  refine ⟨by rw [hp]; exact Nat.zero_le _, fun h => ?_⟩
  rw [hsyn] at h
  cases h

/-- what `negotiate_mss` makes of a SYN -/
theorem Segment.Fits.settles {size mss : ℕ} {x : Segment} (h : x.Fits size mss) (hsyn : x.flags.contains .SYN = true)
    (h0 : 0 < size) : max (min (x.maxSegmentSize.getD 1024).toNat mss) 1 = size ∧ size ≤ mss := by
  obtain ⟨v, hv, hmin⟩ := h.offer hsyn
  rw [hv, Option.getD_some, hmin]
  exact ⟨max_eq_left h0, hmin ▸ min_le_right _ _⟩

theorem resetFor_fits (size mss : ℕ) (segment : Segment) : (resetFor segment).Fits size mss := by
  unfold resetFor
  cases segment.ack with
  | none => exact .of_empty rfl (by decide : (Flags.RST.union .ACK).contains .SYN = false)
  | some ack => exact .of_empty rfl (by decide : Flags.RST.contains .SYN = false)

namespace Connection

variable {P : Type} {config : Config} {nowMs : ℕ} {inp : Option Segment} {c c' : Connection P} {out : List Segment}
  {size mss : ℕ}

/-- a connection that sends segments of a size to where `mss` is configured -/
structure Sized (size mss : ℕ) (c : Connection P) : Prop where
  pos : 0 < size
  lt : c.mss < 2 ^ 16
  offer : min c.mss mss = size
  /-- what is configured may be more, until the other end has answered -/
  settled : c.state = .synSent ∨ c.mss = size
  flight : ∀ x ∈ c.unacked, x.payload.length ≤ size

theorem Sized.mss_pos (h : c.Sized size mss) : 0 < c.mss := lt_of_lt_of_le h.pos (h.offer ▸ min_le_left _ _)

theorem Sized.settled_sending (h : c.Sized size mss) (hst : c.Sending) : c.mss = size :=
  h.settled.resolve_left fun hsyn => by rcases hst with hst | hst <;> rw [hsyn] at hst <;> cases hst

theorem Sized.of_eq (h : c.Sized size mss) (hm : c'.mss = c.mss) (hst : c.state = .synSent → c'.state = .synSent)
    (hu : ∀ x ∈ c'.unacked, x.payload.length ≤ size) : c'.Sized size mss :=
  ⟨h.pos, hm.trans_lt h.lt, (congrArg (min · mss) hm).trans h.offer, h.settled.imp hst hm.trans, hu⟩

/-! ## What is built -/

theorem Sized.built (h : c.Sized size mss) (seq : U32) (flags : Flags) {payload : List U8} (hp : payload.length ≤ size) :
    (buildSegment (c.header seq flags) payload).Fits size mss := by
  refine ⟨hp, fun hsyn => ⟨BitVec.ofNat 16 c.mss, ?_, ?_⟩⟩
  · have hflags : (c.header seq flags).flags.contains .SYN = true := hsyn
    simp only [buildSegment, Segment.maxSegmentSize]
    rw [if_pos hflags]
    rfl
  · rw [BitVec.toNat_ofNat, Nat.mod_eq_of_lt h.lt]
    exact h.offer

/-- what is tracked, and what is sent with it -/
theorem Sized.tracked (h : c.Sized size mss) (flags : Flags) {payload : List U8} (hp : payload.length ≤ size) (nowMs : ℕ) :
    (c.sendTracked flags payload nowMs).1.Sized size mss ∧ (c.sendTracked flags payload nowMs).2.Fits size mss := by
  have hnext : ({ c with sendNxt := (c.sendTracked flags payload nowMs).1.sendNxt } : Connection P).Sized size mss :=
    h.of_eq rfl id h.flight
  refine ⟨h.of_eq rfl id ?_, hnext.built c.sendNxt flags hp⟩
  exact List.forall_mem_append.2 ⟨h.flight, List.forall_mem_singleton.2 hp⟩

theorem Sized.queued (h : c.Sized size mss) {count : ℕ} (hcount : count ≤ size) (nowMs : ℕ) :
    (c.sendQueued count nowMs).2.Fits size mss := by
  have hrest : ({ c with sendQueue := c.sendQueue.drop count } : Connection P).Sized size mss := h.of_eq rfl id h.flight
  exact (hrest.tracked (Flags.ACK.union .PSH) ((List.length_take_le _ _).trans hcount) nowMs).2

/-! ## One move -/

/-- the MSS changes when the handshake of a client completes -/
theorem Move.mss_cases (hmove : Move config nowMs inp c out c') :
    c'.mss = c.mss ∧ (c.state = .synSent → c'.state = .synSent) ∨
      ∃ segment, inp = some segment ∧ segment.flags.contains .SYN = true ∧
        c'.mss = max (min (segment.maxSegmentSize.getD 1024).toNat config.mss.toNat) 1 := by
  have hno : c.Sending → c.state ≠ .synSent := by
    rintro (h | h) hst <;> rw [hst] at h <;> cases h
  cases hmove with
  | establishClient segment hin hst hsyn =>
    refine .inr ⟨segment, hin, hsyn, ?_⟩
    exact (((c.updateRemoteWindow segment.window nowMs).negotiateMss segment config).applyAck_frame _ nowMs false).2.2.1
  | establishServer segment hin hst =>
    exact .inl ⟨(c.establishServer_frame segment nowMs).2.2.1, fun h => by rw [hst] at h; cases h⟩
  | window segment hin hst => exact .inl ⟨(c.updateRemoteWindow_frame segment.window nowMs).2.2.1, fun h => absurd h hst.1⟩
  | timers => exact .inl ⟨rfl, id⟩
  | retransmit timeout =>
    obtain ⟨-, -, hm, hst, -⟩ := c.retransmitOldest_frame nowMs timeout
    exact .inl ⟨hm, hst.trans⟩
  | advanceAck c' segment ack hin hrst hack hst hadv hafter =>
    exact .inl ⟨(afterAck_frame nowMs config hafter).2.2.1, fun h => absurd h hst.1⟩
  | receive segment hin hst =>
    exact .inl ⟨(outgoing_frame (c.receiveStreamData_outgoing segment nowMs config).1).1, fun h => absurd h hst.1⟩
  | sendData => exact .inl ⟨rfl, id⟩
  | sendFin hst => exact .inl ⟨rfl, fun h => absurd h (hno hst)⟩
  | probe =>
    rcases c.zeroWindowProbe_cases nowMs with ⟨x, -, -, heq⟩ | ⟨-, ⟨-, heq⟩ | ⟨-, heq⟩⟩ <;> rw [heq] <;> exact .inl ⟨rfl, id⟩
  | ack => exact .inl ⟨rfl, id⟩
  | reset => exact .inl ⟨rfl, id⟩
  | requestClose => exact .inl ⟨rfl, id⟩

/-- **What a connection has in flight keeps to the size,** and the answer to its SYN settles it. -/
theorem Move.sized (hmove : Move config nowMs inp c out c') (h : c.Sized size mss)
    (hin : ∀ segment, inp = some segment → segment.Fits size config.mss.toNat) : c'.Sized size mss := by
  have hflight : ∀ x ∈ c'.unacked, x.payload.length ≤ size := by
    intro x hx
    rcases hmove.unacked_cases with hd | ⟨last, hu, hlast⟩
    · obtain ⟨y, hy, -, hsuffix⟩ := hd x hx
      exact hsuffix.length_le.trans (h.flight y hy)
    · rw [hu] at hx
      rcases List.mem_append.1 hx with hx | hx
      · exact h.flight x hx
      · rw [List.mem_singleton.1 hx]
        rcases hlast with ⟨-, hone | ⟨hst, hle⟩⟩ | ⟨-, hnil⟩
        · exact hone.trans h.pos
        · exact hle.trans (h.settled_sending hst).le
        · exact hnil ▸ Nat.zero_le _
  rcases hmove.mss_cases with ⟨hm, hst⟩ | ⟨segment, hs, hsyn, hm⟩
  · exact h.of_eq hm hst hflight
  · obtain ⟨hsettled, hle⟩ := (hin segment hs).settles hsyn h.pos
    rw [← hm] at hsettled
    refine ⟨h.pos, ?_, ?_, .inr hsettled, hflight⟩
    · rw [hsettled]
      exact hle.trans_lt config.mss.isLt
    · rw [hsettled]
      exact min_eq_left (h.offer ▸ min_le_right _ _)

/-- **So does what it emits.** -/
theorem Move.fits (hmove : Move config nowMs inp c out c') (h : c.Sized size mss) : ∀ x ∈ out, x.Fits size mss := by
  have hone : ∀ {a : Segment}, a.Fits size mss → ∀ x ∈ [a], x.Fits size mss := fun ha x hx => List.mem_singleton.1 hx ▸ ha
  cases hmove with
  | establishClient => exact List.forall_mem_nil _
  | establishServer => exact List.forall_mem_nil _
  | window => exact List.forall_mem_nil _
  | timers => exact List.forall_mem_nil _
  | advanceAck => exact List.forall_mem_nil _
  | requestClose => exact List.forall_mem_nil _
  | retransmit timeout =>
    rcases c.retransmitOldest_cases nowMs timeout with heq | ⟨tracked, rest, transmissions, dups, hu, -, heq⟩ <;> rw [heq]
    · exact List.forall_mem_nil _
    · exact hone (h.built _ _ (h.flight tracked (hu ▸ List.mem_cons_self)))
  | receive segment => exact hone (.of_empty rfl (by decide : Flags.ACK.contains .SYN = false))
  | sendData count hst h0 hallow hmss => exact hone (h.queued (hmss.trans (h.settled_sending hst).le) nowMs)
  | sendFin => exact hone (.of_empty rfl (by decide : (Flags.FIN.union .ACK).contains .SYN = false))
  | probe =>
    rcases c.zeroWindowProbe_cases nowMs with ⟨x, -, -, heq⟩ | ⟨-, ⟨-, heq⟩ | ⟨-, heq⟩⟩ <;> rw [heq]
    · exact hone (h.built _ _ ((List.length_take_le _ _).trans h.pos))
    · exact List.forall_mem_nil _
    · exact hone (h.queued h.pos nowMs)
  | ack => exact hone (.of_empty rfl (by decide : Flags.ACK.contains .SYN = false))
  | reset segment => exact hone (resetFor_fits size mss segment)

/-- the same of a sequence of moves -/
theorem Moves.sized (hmoves : Moves config nowMs inp c out c') (h : c.Sized size mss)
    (hin : ∀ segment, inp = some segment → segment.Fits size config.mss.toNat) :
    (∀ x ∈ out, x.Fits size mss) ∧ c'.Sized size mss :=
  hmoves.history (Q := fun sent c => (∀ x ∈ sent, x.Fits size mss) ∧ c.Sized size mss)
    (fun hmove hc => ⟨List.forall_mem_append.2 ⟨hc.1, hmove.fits hc.2⟩, hmove.sized hc.2 hin⟩) []
    ⟨List.forall_mem_nil _, h⟩

/-! ## Operations -/

/-- the client's SYN announces what is configured -/
theorem client_sized (peer : P) (localPort remotePort : U16) (isn : U32) (nowMs : ℕ) (token : ℕ) (h0 : 0 < size)
    (hsize : min config.mss.toNat mss = size) :
    (Connection.client peer localPort remotePort isn nowMs config token).1.Sized size mss ∧
      ∀ x ∈ (Connection.client peer localPort remotePort isn nowMs config token).2, x.Fits size mss := by
  have hnew : (Connection.new peer localPort remotePort .synSent isn 0 config token).Sized size mss :=
    ⟨h0, config.mss.isLt, hsize, .inl rfl, List.forall_mem_nil _⟩
  have hempty : ([] : List U8).length ≤ size := Nat.zero_le _
  obtain ⟨h1, h2⟩ := hnew.tracked .SYN hempty nowMs
  exact ⟨h1, List.forall_mem_singleton.2 h2⟩

/-- the server has settled when it answers -/
theorem server_sized (peer : P) {syn : Segment} (isn : U32) (nowMs token : ℕ) (hsyn : syn.flags.contains .SYN = true)
    (hfits : syn.Fits size config.mss.toNat) (h0 : 0 < size) (hle : size ≤ mss) :
    (Connection.server peer syn isn nowMs config token).1.Sized size mss ∧
      ∀ x ∈ (Connection.server peer syn isn nowMs config token).2, x.Fits size mss := by
  obtain ⟨hsettled, hown⟩ := hfits.settles hsyn h0
  have hnone : ((Connection.new peer syn.dstPort syn.srcPort .synReceived isn (syn.seq + 1) config token).updateRemoteWindow
    syn.window nowMs).unacked = [] := (updateRemoteWindow_unacked _ syn.window nowMs).1
  generalize hc : ((Connection.new peer syn.dstPort syn.srcPort .synReceived isn (syn.seq + 1) config token).updateRemoteWindow
    syn.window nowMs).negotiateMss syn config = c
  have hm : c.mss = size := by rw [← hc]; exact hsettled
  have hu : c.unacked = [] := by rw [← hc]; exact hnone
  have hnew : c.Sized size mss := by
    refine ⟨h0, hm.trans_lt (hown.trans_lt config.mss.isLt), ?_, .inr hm, fun x hx => ?_⟩
    · rw [hm]
      exact min_eq_left hle
    · rw [hu] at hx
      cases hx
  have hempty : ([] : List U8).length ≤ size := Nat.zero_le _
  obtain ⟨h1, h2⟩ := hnew.tracked (Flags.SYN.union .ACK) hempty nowMs
  simp only [Connection.server, hc]
  exact ⟨h1, List.forall_mem_singleton.2 h2⟩

/-- what an operation of a retained connection emits -/
theorem Sized.said (h : c.Sized size mss) {o : SocketOp}
    (hin : ∀ segment, o.segment = some segment → segment.Fits size config.mss.toNat) :
    ∀ x ∈ c.said config o, x.Fits size mss := by
  rcases said_moves h.mss_pos o with hnil | rfl | ⟨c0, c1, -, hu, hm, hst, hmoves⟩
  · rw [hnil]
    exact List.forall_mem_nil _
  · exact fun x hx => List.mem_singleton.1 hx ▸ .of_empty rfl (by decide : Flags.RST.contains .SYN = false)
  · exact (hmoves.sized (h.of_eq hm hst.trans (hu ▸ h.flight)) hin).1

end Connection

namespace Socket

variable {P : Type} {config : Config} {s : Socket P} {size mss : ℕ}

structure Sized (size mss : ℕ) (s : Socket P) : Prop where
  conn : s.retained = true → s.conn.Sized size mss
  sent : ∀ x ∈ s.sent, x.Fits size mss

theorem Prepared.sized {c c' : Connection P} {acc acc' : List U8} (h : Prepared config c acc c' acc') (hc : c.Sized size mss) :
    c'.Sized size mss := by
  cases h with
  | none => exact hc
  | accept => exact hc.of_eq rfl id hc.flight
  | consume => exact hc.of_eq rfl id hc.flight

/-- **One operation of a socket.** -/
theorem Sized.step (h : s.Sized size mss) (op : SocketOp)
    (hin : ∀ segment, op.segment = some segment → segment.Fits size config.mss.toNat) :
    (s.step config op).Sized size mss := by
  cases hr : s.retained with
  | false =>
    refine ⟨fun hkept => ?_, ?_⟩
    · rw [(step_removed config hr op).2.2.2] at hkept
      cases hkept
    · -- a removed connection only answers with resets
      cases op <;> simp only [Socket.step, onInput, onWrite, onRead, onUpdate, onAbort, hr, Bool.false_eq_true, if_false]
      case input segment nowMs =>
        split_ifs
        · exact h.sent
        · exact List.forall_mem_append.2 ⟨h.sent, List.forall_mem_singleton.2 (resetFor_fits size mss segment)⟩
      all_goals exact h.sent
  | true =>
    have hc := h.conn hr
    refine ⟨fun hkept => ?_, ?_⟩
    · obtain ⟨c, out, hprepared, -, hmoves⟩ := step_moves hc.mss_pos hr op hkept
      exact (hmoves.sized (hprepared.sized hc) hin).2
    · rw [(step_retained hr op).2.2]
      exact List.forall_mem_append.2 ⟨h.sent, hc.said hin⟩

end Socket

/-! ## The two ends -/

variable {P : Type}

/-- the smaller of the two that are configured -/
def Handshake.segmentSize (h : Handshake P) : ℕ := min (h.config .client).1.mss.toNat (h.config .server).1.mss.toNat

theorem Handshake.segmentSize_eq (h : Handshake P) : ∀ side : Side,
    min (h.config side).1.mss.toNat (h.config side.other).1.mss.toNat = h.segmentSize
  | .client => rfl
  | .server => min_comm _ _

theorem Handshake.segmentSize_pos (h : Handshake P) : 0 < h.segmentSize := by
  have hpos : ∀ side, 0 < (h.config side).1.mss.toNat := fun side =>
    Nat.pos_of_ne_zero fun hz => (h.config side).valid.mss_pos (BitVec.eq_of_toNat_eq hz)
  exact lt_min (hpos .client) (hpos .server)

namespace Pair

variable {h : Handshake P} {p : Pair P}

/-- each side keeps to the size, and says so to the other -/
def Sized (h : Handshake P) (p : Pair P) : Prop :=
  ∀ side, (p side).Sized h.segmentSize (h.config side.other).1.mss.toNat

theorem sized_start (h : Handshake P) : (start h).Sized h := by
  obtain ⟨hclient, hsyn⟩ := client_sized (h.peer .client) h.localPort h.remotePort (h.isn .client)
    (h.nowMs .client) (h.token .client) h.segmentSize_pos (h.segmentSize_eq .client)
  intro side
  cases side with
  | client => exact ⟨fun _ => hclient, hsyn⟩
  | server =>
    have hflag : h.syn.flags.contains .SYN = true := (by decide : Flags.SYN.contains .SYN = true)
    obtain ⟨hserver, hanswer⟩ := server_sized (h.peer .server) (h.isn .server) (h.nowMs .server) (h.token .server) hflag
      (hsyn h.syn (List.mem_singleton.2 rfl)) h.segmentSize_pos (min_le_left _ _ : h.segmentSize ≤ _)
    exact ⟨fun _ => hserver, hanswer⟩

theorem Sized.update (hp : p.Sized h) (side : Side) (op : SocketOp)
    (hin : ∀ segment, op.segment = some segment → segment ∈ (p side.other).sent) : (p.update h side op).Sized h := by
  intro d
  rcases side.eq_or_other d with rfl | rfl
  · rw [update_self]
    refine (hp d).step op fun segment hs => ?_
    have hsent := (hp d.other).sent segment (hin segment hs)
    rwa [Side.other_other] at hsent
  · rw [update_other]
    exact hp side.other

/-- **One step of the system.** -/
theorem Sized.step (hp : p.Sized h) (op : PairOp) : (p.step h op).Sized h := by
  cases op with
  | deliver side index nowMs =>
    simp only [Pair.step]
    cases hget : (p side.other).sent[index]? with
    | none => exact hp
    | some segment =>
      refine hp.update side _ fun x hx => ?_
      cases hx
      exact List.mem_of_getElem? hget
  | act side op => exact hp.update side _ fun x hx => by cases op <;> cases hx

end Pair

/-- **The two ends of a handshake agree on a segment size,** the smaller of the two configured. Neither ever sends more in a
segment, and no SYN announces less, whatever the network loses, repeats or reorders and whatever the applications do. -/
theorem segment_size_agreed (h : Handshake P) (ops : List PairOp) (side : Side) :
    (∀ x ∈ (Pair.run h ops side).sent, x.payload.length ≤ h.segmentSize) ∧
      (∀ x ∈ (Pair.run h ops side).sent, x.flags.contains .SYN = true →
        ∃ v, x.maxSegmentSize = some v ∧ h.segmentSize ≤ v.toNat) ∧
      ((Pair.run h ops side).retained = true → (Pair.run h ops side).conn.state ≠ .synSent →
        (Pair.run h ops side).conn.mss = h.segmentSize) := by
  have hsized : (Pair.run h ops).Sized h :=
    Run.exec_invariant (P := fun p : Pair P => p.Sized h) (fun _ op hp => hp.step op) (Pair.sized_start h) ops
  refine ⟨fun x hx => ((hsized side).sent x hx).payload, fun x hx hsyn => ?_, fun hr hst => ?_⟩
  · obtain ⟨v, hv, hmin⟩ := ((hsized side).sent x hx).offer hsyn
    exact ⟨v, hv, hmin ▸ min_le_left _ _⟩
  · exact ((hsized side).conn hr).settled.resolve_left hst

end FipsTcp
