/-
What was sent is on record.

A connection trims its tracked segments as they are acknowledged, so what it tracks is not what it emitted. The record of what it
emitted keeps every position of the stream.
- `Move.fresh`: a primitive that moves `send_nxt` emits a segment that fills the positions in between;
- `Socket.covered_run`: in every run, every position between the SYN and `send_nxt` lies in a segment that was emitted.

What waits in the send queue was not sent, so the peer may rely on less than the face of a side: `Socket.shown` is the face without the
queue. The invariant of the pair holds against it too (`Pair.shown_run`), so nothing is received before it was sent
(`Pair.Shown.rcv_le`), and what the one expects next is among what the other has in flight (`positions_agree`).
-/
import FipsTcp.Pair.Contract

namespace FipsTcp

open Serial Stream SendWindow

/-- the position `p` of the stream lies in the segment, which lies among the positions before `nxt` -/
def Segment.Spans (isn : U32) (acc : List U8) (nxt p : ℕ) (segment : Segment) : Prop :=
  ∃ q, At isn acc q segment.piece ∧ q ≤ p ∧ p < q + segment.piece.len ∧ q + segment.piece.len ≤ nxt

theorem Segment.Spans.mono {isn : U32} {acc : List U8} {nxt nxt' p : ℕ} {x : Segment} (h : x.Spans isn acc nxt p) (hle : nxt ≤ nxt') :
    x.Spans isn acc nxt' p := by
  obtain ⟨q, hat, hq, hp, hn⟩ := h
  exact ⟨q, hat, hq, hp, hn.trans hle⟩

namespace Connection

variable {P : Type} {config : Config} {nowMs : ℕ} {inp : Option Segment} {isn : U32} {acc : List U8} {c c' : Connection P}
  {out sent : List Segment}

/-- every position after the SYN that was sent lies in a segment on record -/
structure Covered (config : Config) (isn : U32) (acc : List U8) (sent : List Segment) (c : Connection P) : Prop where
  send : c.SendInv config isn acc
  carried : ∀ p, 1 ≤ p → p < c.sender.nxtPos acc → ∃ x ∈ sent, x.Spans isn acc (c.sender.nxtPos acc) p

/-- **New positions are emitted.** -/
theorem Move.fresh (h : Move config nowMs inp c out c') (hs : c.SendInv config isn acc) :
    c'.sender.nxtPos acc = c.sender.nxtPos acc ∨
      ∃ x ∈ out, At isn acc (c.sender.nxtPos acc) x.piece ∧ c'.sender.nxtPos acc = c.sender.nxtPos acc + x.piece.len := by
  have hs' := h.sendInv hs
  have hsame : c'.sender = c.sender → c'.sender.nxtPos acc = c.sender.nxtPos acc := fun h => by rw [h]
  have hack : ∀ a, c'.sender = c.sender.ack a → c'.sender.nxtPos acc = c.sender.nxtPos acc := fun a h => by
    rw [h, Sender.nxtPos_ack]
  -- a segment that is sent is the last piece in flight
  have hpushed : ∀ count nowMs, 0 < count → count ≤ c.sendQueue.length → c' = (c.sendQueued count nowMs).1 →
      At isn acc (c.sender.nxtPos acc) (c.sendQueued count nowMs).2.piece ∧
        c'.sender.nxtPos acc = c.sender.nxtPos acc + (c.sendQueued count nowMs).2.piece.len := by
    rintro count nowMs h0 hcount rfl
    have hpiece : (c.sendQueued count nowMs).2.piece = ⟨c.sender.nxt, c.sender.queue.take count, false, false⟩ :=
      congrArg₂ (Piece.mk c.sendNxt (c.sendQueue.take count)) data_flags.1 data_flags.2
    have hlen : (c.sendQueued count nowMs).2.piece.len = count := by
      rw [hpiece]
      simp only [Piece.len, List.length_take, Bool.toNat_false]
      rw [show c.sender.queue = c.sendQueue from rfl]
      omega
    have hnxt : (c.sendQueued count nowMs).1.sender.nxtPos acc = c.sender.nxtPos acc + (c.sendQueued count nowMs).2.piece.len := by
      rw [sendQueued_sender, hlen]
      exact hs.sender.nxtPos_push hcount
    refine ⟨hs'.sender.at_last (l := c.sender.flight) ?_ hnxt, hnxt⟩
    rw [sendQueued_sender, hpiece]
    rfl
  cases h with
  | establishClient segment hin hst => exact .inl (hack _ (establishClient_sender hs.sender (by norm_num) hst segment nowMs config))
  | establishServer segment hin hst => exact .inl (hack _ (establishServer_sender hs.sender (by norm_num) hst segment nowMs))
  | window segment => exact .inl (hsame (updateRemoteWindow_sender ..))
  | timers => exact .inl rfl
  | retransmit timeout => exact .inl (hsame (retransmitOldest_sender ..))
  | advanceAck c' segment ack hin hrst hseg hst hadv h =>
    exact .inl (hack ack ((afterAck_sender hs.sender (by norm_num) hst hadv nowMs config).2 c' h))
  | receive segment => exact .inl (hsame (receiveStreamData_sender ..))
  | sendData count hst h0 hallow hmss hq => exact .inr ⟨_, List.mem_singleton.2 rfl, hpushed count nowMs h0 hq rfl⟩
  | sendFin hst hclose hq hallow =>
    have hpiece : (c.sendFin nowMs).2.piece = ⟨c.sender.nxt, [], false, true⟩ :=
      congrArg₂ (Piece.mk c.sendNxt []) fin_flags.1 fin_flags.2
    have hnxt : (c.sendFin nowMs).1.sender.nxtPos acc = c.sender.nxtPos acc + (c.sendFin nowMs).2.piece.len := by
      rw [sendFin_sender, Sender.nxtPos_pushFin acc hst.phase, hpiece]
      rfl
    refine .inr ⟨_, List.mem_singleton.2 rfl, hs'.sender.at_last (l := c.sender.flight) ?_ hnxt, hnxt⟩
    rw [sendFin_sender, hpiece]
    rfl
  | probe hwin =>
    rcases c.zeroWindowProbe_cases nowMs with ⟨x, -, -, h⟩ | ⟨hno, ⟨-, h⟩ | ⟨hq, h⟩⟩
    · rw [h]; exact .inl rfl
    · rw [h]; exact .inl rfl
    · rw [h] at hpushed ⊢
      exact .inr ⟨_, List.mem_singleton.2 rfl, hpushed 1 nowMs Nat.one_pos (List.length_pos_of_ne_nil hq) rfl⟩
  | requestClose => exact .inl rfl
  | reset => exact .inl rfl
  | ack => exact .inl rfl

/-- **Preservation, one primitive.** -/
theorem Covered.move (hc : Covered config isn acc sent c) (h : Move config nowMs inp c out c') :
    Covered config isn acc (sent ++ out) c' := by
  refine ⟨h.sendInv hc.send, fun p hp hlt => ?_⟩
  have hold : ∀ nxt, c.sender.nxtPos acc ≤ nxt → p < c.sender.nxtPos acc → ∃ x ∈ sent ++ out, x.Spans isn acc nxt p := by
    intro nxt hle hp'
    obtain ⟨x, hx, hspans⟩ := hc.carried p hp hp'
    exact ⟨x, List.mem_append_left _ hx, hspans.mono hle⟩
  rcases h.fresh hc.send with hsame | ⟨x, hx, hat, hnxt⟩
  · exact hold _ hsame.ge (hsame ▸ hlt)
  · rcases Nat.lt_or_ge p (c.sender.nxtPos acc) with hp' | hp'
    · exact hold _ (by omega) hp'
    · exact ⟨x, List.mem_append_right _ hx, _, hat, hp', by omega, by omega⟩

/-- what the application does before the moves -/
theorem Covered.prepared (hc : Covered config isn acc sent c) {acc' : List U8} (h : Socket.Prepared config c acc c' acc') :
    Covered config isn acc' sent c' := by
  cases h with
  | none => exact hc
  | accept bytes hst hclose hroom =>
    refine ⟨hc.send.accept hst hroom, fun p hp hlt => ?_⟩
    have hnxt : (c.acceptBytes bytes).sender.nxtPos (acc ++ bytes) = c.sender.nxtPos acc := (hc.send.sender.pos_accept bytes).1
    rw [hnxt] at hlt ⊢
    obtain ⟨x, hx, q, hat, hq, hpq, hle⟩ := hc.carried p hp hlt
    refine ⟨x, hx, q, hat.mono (List.prefix_append _ _) fun hfin => ?_, hq, hpq, hle⟩
    -- while bytes are accepted, no FIN was sent
    have hend := hat.fin hfin
    have hrun : c.sender.nxtPos acc ≤ 1 + acc.length := by
      rw [Sender.nxtPos, hst.phase]
      simp only [Phase.finSent, Bool.toNat_false]
      omega
    simp only [Piece.len, hfin, Bool.toNat_true] at hle
    omega
  | consume count => exact ⟨⟨hc.send.sender, hc.send.window, hc.send.mss, hc.send.buffer⟩, hc.carried⟩

end Connection

/-- a new connection has sent its SYN -/
theorem Opening.sender_start {P : Type} (config : Config) : ∀ o : Opening P, (o.connection config).1.sender = Sender.start o.isn
  | .client _ _ _ _ nowMs _ => Connection.sendTracked_start nowMs (by decide) (by decide) rfl
  | .server _ syn _ nowMs _ =>
    Connection.sendTracked_start nowMs (by decide) (by decide) (Connection.updateRemoteWindow_sender _ syn.window nowMs)

namespace Socket

open Connection

variable {P : Type} {config : Config} {isn : U32} {s : Socket P}

theorem covered_step (op : SocketOp) (h : s.retained = true → Covered config isn s.accepted s.sent s.conn)
    (hr : (s.step config op).retained = true) :
    Covered config isn (s.step config op).accepted (s.step config op).sent (s.step config op).conn := by
  have hret := retained_before hr
  obtain ⟨c, out, hprep, hsent, hmoves⟩ := step_moves (h hret).send.mss hret op hr
  rw [hsent]
  exact hmoves.history (Q := Covered config isn _) (fun hm hc => hc.move hm) s.sent ((h hret).prepared hprep)

/-- **What was sent is on record**, after every run. -/
theorem covered_run (o : Opening P) (hv : config.Valid) (ops : List SocketOp) (hr : (run config o ops).retained = true) :
    Covered config o.isn (run config o ops).accepted (run config o ops).sent (run config o ops).conn := by
  refine Run.exec_invariant (P := fun s : Socket P => s.retained = true → Covered config o.isn s.accepted s.sent s.conn)
    (fun s op h => covered_step op h) (fun _ => ⟨o.sendInv hv, fun p hp hlt => ?_⟩) ops hr
  -- at the start only the SYN was sent
  change p < (o.connection config).1.sender.nxtPos [] at hlt
  rw [o.sender_start] at hlt
  exact absurd hlt (Nat.not_lt.2 hp)

end Socket

/-! ## What was shown to the peer -/

namespace Socket

variable {P : Type} {config : Config} {isn : U32} {s s' : Socket P}

/-- the face of a side without what waits in its send queue -/
def shown (isn : U32) (s : Socket P) : Face :=
  { s.face isn with acc := s.accepted.take (s.accepted.length - s.conn.sendQueue.length) }

theorem shown_length (isn : U32) (s : Socket P) : (s.shown isn).acc.length = s.accepted.length - s.conn.sendQueue.length := by
  simp only [shown, List.length_take]
  omega

theorem shown_nxt (isn : U32) (s : Socket P) : (s.shown isn).nxt = 1 + (s.shown isn).acc.length + (s.shown isn).fin.toNat := by
  rw [shown_length]
  rfl

theorem shown_ok (h : s.accepted.length < 2 ^ 31 - 2 ^ 17) : (s.shown isn).Ok := by
  refine ⟨(shown_nxt isn s).le, lt_of_le_of_lt ?_ h⟩
  rw [shown_length]
  exact Nat.sub_le _ _

/-- after the FIN nothing waits -/
theorem shown_fin (hs : s.conn.SendInv config isn s.accepted) (hf : (s.face isn).fin = true) : (s.shown isn).acc = s.accepted := by
  have hphase : s.conn.sender.phase ≠ .running := fun hp => by
    have hfin : s.conn.sender.phase.finSent = true := hf
    rw [hp] at hfin
    cases hfin
  have hq : s.conn.sendQueue = [] := (hs.sender.idle hphase).1
  simp only [shown, hq, List.length_nil, Nat.sub_zero, List.take_length]

theorem shown_mono (hs : s.conn.SendInv config isn s.accepted) (hs' : s'.conn.SendInv config isn s'.accepted)
    (h : (s.face isn).Le (s'.face isn)) : (s.shown isn).Le (s'.shown isn) := by
  have hacc : s.accepted <+: s'.accepted := h.acc
  have hnxt := h.nxt
  refine ⟨h.isn, ?_, h.nxt, fun hf => ?_, h.rcv⟩
  · refine List.prefix_of_prefix_length_le ((List.take_prefix _ _).trans hacc) (List.take_prefix _ _) ?_
    have h1 := shown_nxt isn s
    have h2 := shown_nxt isn s'
    change (s.shown isn).acc.length ≤ (s'.shown isn).acc.length
    have hn : (s.shown isn).nxt ≤ (s'.shown isn).nxt := h.nxt
    cases hf' : (s'.shown isn).fin with
    | false =>
      rw [hf', Bool.toNat_false] at h2
      omega
    | true =>
      rw [shown_fin hs' hf', shown_length]
      exact (Nat.sub_le _ _).trans hacc.length_le
  · obtain ⟨hf', heq⟩ := h.fin hf
    exact ⟨hf', by rw [shown_fin hs hf, shown_fin hs' hf']; exact heq⟩

/-- what was emitted is a piece of what was sent -/
theorem shown_segOk (hs : s.conn.SendInv config isn s.accepted) {peer : U32} {segment : Segment} (h : SegOk (s.face isn) peer segment) :
    SegOk (s.shown isn) peer segment := by
  rcases h with hrst | ⟨⟨p, hat, hle⟩, hack⟩
  · exact .inl hrst
  · have hnxt : (s.face isn).nxt = 1 + (s.accepted.length - s.conn.sendQueue.length) + (s.face isn).fin.toNat := rfl
    -- with the FIN everything was sent
    have hall : (s.face isn).fin = true → (s.shown isn).acc = s.accepted := fun hf => shown_fin hs hf
    refine .inr ⟨⟨p, ⟨hat.seq, hat.syn, fun hsyn => ?_, fun hfin => ?_⟩, hle⟩, hack⟩
    · obtain ⟨hp, hocc⟩ := hat.data hsyn
      refine ⟨hp, ?_⟩
      cases hf : (s.face isn).fin with
      | true =>
        rw [hall hf]
        exact hocc
      | false =>
        rw [hnxt, hf, Bool.toNat_false] at hle
        simp only [Piece.len] at hle
        simp only [Occurs, shown, List.drop_take]
        exact List.prefix_take_iff.2 ⟨hocc, by omega⟩
    · have hend := hat.fin hfin
      have hf : (s.face isn).fin = true := by
        by_contra hno
        rw [hnxt, Bool.of_not_eq_true hno, Bool.toNat_false] at hle
        have hacc : (s.face isn).acc = s.accepted := rfl
        rw [hacc] at hend
        simp only [Piece.len, hfin, Bool.toNat_true] at hle
        omega
      rw [hall hf]
      exact hend

end Socket

namespace Pair

open Connection

variable {P : Type} {h : Handshake P} {p : Pair P}

def shown (h : Handshake P) (p : Pair P) (side : Side) : Face := (p side).shown (h.isn side)

/-- both connections are there -/
def Retained (p : Pair P) : Prop := ∀ side, (p side).retained = true

/-- the invariant of the pair against what was sent -/
def Shown (h : Handshake P) (p : Pair P) : Prop :=
  ∀ side, (p side).Local (h.config side).1 (h.isn side) (p.shown h side.other)

theorem Shown.sendInv (hi : p.Shown h) (hr : p.Retained) (side : Side) :
    (p side).conn.SendInv (h.config side).1 (h.isn side) (p side).accepted :=
  ((hi side).side ((hi side).kept (hr side))).send

theorem Retained.of_update {side : Side} {op : SocketOp} (hr : (p.update h side op).Retained) : p.Retained := by
  intro d
  rcases side.eq_or_other d with rfl | rfl
  · have hd := hr d
    rw [update_self] at hd
    exact Socket.retained_before hd
  · have hd := hr side.other
    rw [update_other] at hd
    exact hd

theorem Shown.update (hi : p.Shown h) (side : Side) (op : SocketOp) (hb : (p.update h side op).Bounded) (hb0 : p.Bounded)
    (hr : (p.update h side op).Retained)
    (hin : ∀ segment nowMs, op = .input segment nowMs → SegOk (p.face h side.other) (h.isn side) segment) : (p.update h side op).Shown h := by
  have hr0 := hr.of_update
  have hacc := hb side
  have hrside := hr side
  rw [update_self] at hacc hrside
  have hother : (p.shown h side.other).Ok := Socket.shown_ok (hb0 side.other)
  have hrcv : (p.shown h side.other).rcv < 2 ^ 31 := by
    have hle := (hi side.other).rcv_le
    rw [Side.other_other] at hle
    have hok : (p.shown h side).Ok := Socket.shown_ok (hb0 side)
    have hsmall := hok.small
    change (p.shown h side.other).rcv ≤ (p.shown h side).acc.length + 2 at hle
    omega
  obtain ⟨h1, h2⟩ := (hi side).step (h.config side).valid hother hrcv op hacc fun segment nowMs hop =>
    Socket.shown_segOk (hi.sendInv hr0 side.other) (hin segment nowMs hop)
  have hmono := Socket.shown_mono (hi.sendInv hr0 side) (h1.side (h1.kept hrside)).send h2
  intro d
  rcases side.eq_or_other d with rfl | rfl
  · rw [update_self, shown, update_other]
    exact h1
  · have hd := hi side.other
    rw [Side.other_other] at hd
    rw [update_other, Side.other_other, shown, update_self]
    exact hd.mono (Socket.shown_ok (hb0 side)) hmono

theorem Shown.step (hi : p.Shown h) (op : PairOp) (hb : (p.step h op).Bounded) (hr : (p.step h op).Retained) : (p.step h op).Shown h := by
  have hb0 := hb.of_step
  cases op with
  | deliver side index nowMs =>
    simp only [Pair.step] at hb hr ⊢
    cases hget : (p side.other).sent[index]? with
    | none => exact hi
    | some segment =>
      rw [hget] at hb hr
      refine hi.update side _ hb hb0 hr fun x now hx => ?_
      cases hx
      have hsent := (hi side.other).sent segment (List.mem_of_getElem? hget)
      rw [Side.other_other] at hsent
      exact hsent
  | act side op => exact hi.update side _ hb hb0 hr fun x now hx => by cases op <;> cases hx

theorem Retained.of_step {op : PairOp} (hr : (p.step h op).Retained) : p.Retained := by
  cases op with
  | deliver side index nowMs =>
    simp only [Pair.step] at hr
    cases hget : (p side.other).sent[index]? with
    | none =>
      rw [hget] at hr
      exact hr
    | some segment =>
      rw [hget] at hr
      exact hr.of_update
  | act side op => exact Retained.of_update hr

/-- at the start nothing waits to be sent -/
theorem shown_start (h : Handshake P) : (start h).Shown h := by
  intro side
  have hstart : (start h).shown h side.other = (start h).face h side.other := by
    have hacc : (start h side.other).accepted = [] := rfl
    simp only [shown, face, Socket.shown, hacc, List.take_nil]
    rfl
  rw [hstart]
  exact inv_start h side

/-- **What was sent** is all that the peer relies on, while both connections are there. -/
theorem shown_run (h : Handshake P) (ops : List PairOp) (hb : (run h ops).Bounded) (hr : (run h ops).Retained) :
    (run h ops).Shown h :=
  Run.exec_invariant (P := fun p : Pair P => p.Bounded → p.Retained → p.Shown h)
    (fun _ op hi hb hr => (hi hb.of_step hr.of_step).step op hb hr) (fun _ _ => shown_start h) ops hb hr

/-- **Nothing is received before it was sent.** -/
theorem Shown.rcv_le (hi : p.Shown h) (side : Side) : (p.face h side.other).rcv ≤ (p.face h side).nxt := by
  have hl := hi side.other
  rw [Side.other_other] at hl
  have hnxt := Socket.shown_nxt (h.isn side) (p side)
  change (p.face h side).nxt = _ at hnxt
  by_cases hst : (p side.other).conn.state = .synSent
  · simp only [face, Socket.face, Connection.face, rcvPos, if_pos hst]
    exact Nat.zero_le _
  · have hstream := hl.stream hst
    have hle := hstream.isPrefix.length_le
    change (p side.other).stream.length ≤ ((p side).shown (h.isn side)).acc.length at hle
    rw [hnxt]
    simp only [face, Socket.face, Connection.face, rcvPos, if_neg hst]
    cases hc : (p side.other).conn.readClosed with
    | false =>
      rw [Bool.toNat_false]
      omega
    | true =>
      have hfin : ((p side).shown (h.isn side)).fin = true := (hstream.closed hc).2
      rw [hfin]
      simp only [Bool.toNat_true]
      omega

end Pair

/-! ## Result -/

section Results

variable {P : Type} (h : Handshake P) (ops : List PairOp)

/-- **The two ends agree on the positions.** While both connections are there: when the handshake is over for one, the other knows its
initial sequence number; and what an end that knows it expects next lies, in the order of the sequence numbers, between the first
position that is not acknowledged and the next that will be sent. -/
theorem positions_agree (hb : (Pair.run h ops).Bounded) (hr : ∀ d, (Pair.run h ops d).retained = true) (side : Side) :
    ((Pair.run h ops side).conn.Synchronized → (Pair.run h ops side.other).conn.state ≠ .synSent) ∧
      ((Pair.run h ops side.other).conn.state ≠ .synSent →
        inClosedInterval (Pair.run h ops side.other).conn.recvNxt (Pair.run h ops side).conn.sendUna
          (Pair.run h ops side).conn.sendNxt) := by
  have hinv : (Pair.run h ops).Inv h := Pair.inv_run h ops hb
  have hrcv := (Pair.shown_run h ops hb hr).rcv_le side
  have hsmall := hb side
  generalize Pair.run h ops = p at hinv hrcv hsmall hr ⊢
  have hs := (hinv side).side ((hinv side).kept (hr side))
  have hsender := hs.send.sender
  have huna := hs.una
  change (p side).conn.sender.unaPos (p side).accepted ≤ (p.face h side.other).rcv at huna
  constructor
  · intro hsync hst
    rw [(hinv.synSent side.other hst).2.2] at huna
    have hpos := hsender.unaPos_eq
    have hphase : (p side).conn.sender.phase ≠ .opening := Connection.synchronized_iff.1 hsync
    cases hp : (p side).conn.sender.phase with
    | opening => exact hphase hp
    | running | closing | closed =>
      rw [hp] at hpos
      simp only at hpos
      omega
  · intro hst
    have hstream := (hinv side.other).stream hst
    rw [Side.other_other] at hstream
    have hnext : (p side.other).conn.recvNxt = pos (h.isn side) (p.face h side.other).rcv := by
      rw [Pair.rcv_eq h side.other hst]
      exact hstream.nxt
    have hend : (p.face h side).nxt ≤ (p side).accepted.length + 2 := by
      have hface : ((p side).face (h.isn side)).Ok := Socket.face_ok hsmall
      have hok := hface.nxt
      have hfin : ((p side).face (h.isn side)).fin.toNat ≤ 1 := Bool.toNat_le _
      have hacc : ((p side).face (h.isn side)).acc = (p side).accepted := rfl
      rw [hacc] at hok
      exact hok.trans (by omega)
    have hnxt : (p side).conn.sendNxt = pos (h.isn side) (p.face h side).nxt := hsender.nxt
    have hfirst : (p side).conn.sendUna = pos (h.isn side) ((p side).conn.sender.unaPos (p side).accepted) := hsender.una
    rw [hnext, hnxt, hfirst]
    refine ⟨fun hbefore => ?_, fun hafter => ?_⟩
    · rw [before_pos (by omega) (by omega)] at hbefore
      omega
    · rw [after, before_pos (by omega) (by omega)] at hafter
      omega

theorem positions_agree_wrap :
    (Pair.run wrapHandshake (wrapRun.take 6) .client).conn.Synchronized ∧
      inClosedInterval (Pair.run wrapHandshake (wrapRun.take 6) .server).conn.recvNxt
        (Pair.run wrapHandshake (wrapRun.take 6) .client).conn.sendUna
        (Pair.run wrapHandshake (wrapRun.take 6) .client).conn.sendNxt := by
  have hbounded : (Pair.run wrapHandshake (wrapRun.take 6)).Bounded
    | .client => by decide
    | .server => by decide
  have hretained : ∀ d, (Pair.run wrapHandshake (wrapRun.take 6) d).retained = true
    | .client => by decide
    | .server => by decide
  exact ⟨by decide, (positions_agree wrapHandshake (wrapRun.take 6) hbounded hretained .client).2 (by decide)⟩

end Results

end FipsTcp
