/-
Two endpoints of one connection, and a network that keeps everything.

`Socket.Local`: one side against a peer with face `f`, whether the connection is still there or was removed. A removed
connection shows the face it had, so the peer may go on relying on it. `Socket.Local.step` preserves it for every
operation of the socket.

`Pair`: the client and the server of one handshake. The network may deliver any segment that was ever emitted to the other
side, at any time and any number of times, or never; the applications act as they like. `Pair.Inv` puts each side's `Local`
against the face of the other.
- `Pair.inv_run`: the invariant holds after every run, while less than 2^31 - 2^17 bytes were accepted per direction;
- `Pair.face_run`: along a run, what a side shows only grows.
-/
import FipsTcp.Pair.Side
import FipsTcp.Core.Pair

namespace FipsTcp

open Serial Stream SendWindow Connection

/-! ## A socket against a peer -/

namespace Socket

variable {P : Type} {config : Config} {isn : U32} {f : Face} {s : Socket P} {nowMs : ℕ} {inp : Option Segment}

/-- what the socket shows -/
def face (isn : U32) (s : Socket P) : Face := Connection.face isn s.accepted s.conn s.stream

theorem face_ok (h : s.accepted.length < 2 ^ 31 - 2 ^ 17) : (s.face isn).Ok := Connection.face_ok h

structure Local (config : Config) (isn : U32) (f : Face) (s : Socket P) : Prop where
  kept : s.retained = true → s.ackRemoved = false
  side : s.ackRemoved = false → SideInv config isn f s.accepted s.delivered s.conn
  /-- removed by the ACK of its FIN: the peer received all there was -/
  left : s.ackRemoved = true → s.conn.state = .lastAck ∧ s.conn.StreamInv f s.stream ∧ s.accepted.length + 2 ≤ f.rcv
  sent : ∀ segment ∈ s.sent, SegOk (s.face isn) f.isn segment

theorem Local.stream (h : Local config isn f s) (hst : s.conn.state ≠ .synSent) : s.conn.StreamInv f s.stream := by
  cases hr : s.ackRemoved with
  | false => exact (h.side hr).stream hst
  | true => exact (h.left hr).2.1

theorem Local.start (h : Local config isn f s) (hst : s.conn.state = .synSent) : s.stream = [] := by
  cases hr : s.ackRemoved with
  | false =>
    have hs := h.side hr
    rw [Socket.stream, hs.start hst, (hs.recv.fresh hst).1]; rfl
  | true => rw [(h.left hr).1] at hst; cases hst

/-- what was received in order is a prefix of what the peer accepted -/
theorem Local.isPrefix (h : Local config isn f s) : s.stream <+: f.acc := by
  by_cases hst : s.conn.state = .synSent
  · rw [h.start hst]; exact List.nil_prefix
  · exact (h.stream hst).isPrefix

theorem Local.rcv_le (h : Local config isn f s) : (s.face isn).rcv ≤ f.acc.length + 2 := by
  simp only [face, Connection.face, rcvPos]
  split_ifs with hst
  · exact Nat.zero_le _
  · exact (h.stream hst).rcv_le

theorem Local.mono {f' : Face} (hf : f.Ok) (hle : f.Le f') (h : Local config isn f s) : Local config isn f' s := by
  refine ⟨h.kept, fun hr => (h.side hr).mono hf hle, fun hr => ?_, fun segment hseg => by rw [hle.isn]; exact h.sent segment hseg⟩
  obtain ⟨h1, h2, h3⟩ := h.left hr
  exact ⟨h1, h2.mono hf hle, h3.trans hle.rcv⟩

/-- the socket after a sequence of moves, which may have followed an acceptance or a reading -/
theorem Local.moved (hv : config.Valid) (hf : f.Ok) (hrcv : f.rcv < 2 ^ 31) (h : Local config isn f s)
    (hr : s.ackRemoved = false) (retained : Bool) {acc delivered : List U8} {c c' : Connection P} {out : List Segment}
    (hacc : acc.length < 2 ^ 31 - 2 ^ 17) (hside : SideInv config isn f acc delivered c)
    (hle : (s.face isn).Le (Connection.face isn acc c (delivered ++ c.recvQueue))) (hm : Moves config nowMs inp c out c')
    (hin : ∀ segment, inp = some segment → SegOk f isn segment) {s' : Socket P}
    (hs' : s' = { s with conn := c', retained, accepted := acc, delivered, sent := s.sent ++ out }) :
    Local config isn f s' ∧ (s.face isn).Le (s'.face isn) := by
  obtain ⟨h1, h2, h3⟩ := hside.moves hv hf hrcv hacc hm hin
  have hface : s'.face isn = Connection.face isn acc c' (delivered ++ c'.recvQueue) := by rw [hs']; rfl
  have hok : (s.face isn).Ok := face_ok (lt_of_le_of_lt hle.acc.length_le hacc)
  subst hs'
  refine ⟨⟨fun _ => hr, fun _ => h1, fun h => ?_, fun segment hseg => ?_⟩, hface ▸ hle.trans h2⟩
  · exact absurd h (by rw [hr]; decide)
  · rw [hface]
    rcases List.mem_append.1 hseg with hseg | hseg
    · exact (h.sent segment hseg).mono hok (hle.trans h2)
    · exact h3 segment hseg

/-- the same, when no application acted before the moves -/
theorem Local.moves (hv : config.Valid) (hf : f.Ok) (hrcv : f.rcv < 2 ^ 31) (hacc : s.accepted.length < 2 ^ 31 - 2 ^ 17)
    (h : Local config isn f s) (hr : s.ackRemoved = false) (retained : Bool) {c' : Connection P} {out : List Segment}
    (hm : Moves config nowMs inp s.conn out c') (hin : ∀ segment, inp = some segment → SegOk f isn segment) {s' : Socket P}
    (hs' : s' = { s with conn := c', retained, sent := s.sent ++ out }) :
    Local config isn f s' ∧ (s.face isn).Le (s'.face isn) :=
  h.moved hv hf hrcv hr retained hacc (h.side hr) (Face.Le.refl _) hm hin hs'

/-- a reset emitted while the connection stays as it is, or goes -/
theorem Local.reset (h : Local config isn f s) {segment : Segment} (hrst : segment.flags.contains .RST = true)
    {retained : Bool} (hret : retained = true → s.retained = true) :
    Local config isn f { s with retained, sent := s.sent ++ [segment] } := by
  refine ⟨fun hr => h.kept (hret hr), h.side, h.left, fun x hx => ?_⟩
  rcases List.mem_append.1 hx with hx | hx
  · exact h.sent x hx
  · rw [List.mem_singleton] at hx; subst hx; exact .inl hrst

/-- **The ACK of the FIN.** When it removes the connection, the peer received all there was. -/
theorem Local.lastAck (hrcv : f.rcv < 2 ^ 31) (hacc : s.accepted.length < 2 ^ 31 - 2 ^ 17)
    (h : Local config isn f s) (hr : s.ackRemoved = false) {segment : Segment} (hseg : SegOk f isn segment)
    {c' : Connection P} (hl : LastAcked s.conn segment nowMs config c') {s' : Socket P}
    (hs' : s' = { s with conn := c', retained := false, ackRemoved := true }) :
    Local config isn f s' ∧ s'.face isn = s.face isn := by
  obtain ⟨hlast, hrst, ack, hack, hadv, hnone, rfl⟩ := hl
  have hside := h.side hr
  have hsend := hside.send.sender
  have hst : s.conn.Synchronized := ⟨by rw [hlast]; decide, by rw [hlast]; decide⟩
  have hidle : s.conn.sendQueue = [] := (hsend.idle (by simp only [sender, hlast]; decide)).1
  have hface : s'.face isn = s.face isn := by subst hs'; rfl
  refine ⟨?_, hface⟩
  have hall : s.accepted.length + 2 ≤ f.rcv := by
    have hack' : ack = s.conn.sendNxt := (leftAfter_eq_nil hsend (by norm_num) hadv).1
      ((afterAck_sender hsend (by norm_num) hst hadv nowMs config).1.1 hnone).2
    have hnxt : s.conn.sendNxt = pos isn (s.accepted.length + 2) := by
      have h1 : s.conn.sender.nxtPos s.accepted = s.accepted.length + 2 := by
        simp only [Sender.nxtPos, sender, hidle, hlast, State.phase, Phase.finSent, List.length_nil, Bool.toNat_true]; omega
      rw [← h1]; exact hsend.nxt
    rcases hseg with hno | ⟨-, hno | ⟨q, hq, hseg⟩⟩
    · rw [hrst] at hno; cases hno
    · rw [hack] at hno; cases hno
    · rw [hack, Option.some.injEq, hack', hnxt, pos_inj isn (by omega) (by omega)] at hseg
      omega
  subst hs'
  refine ⟨fun h => absurd h Bool.false_ne_true, fun h => absurd h.symm Bool.false_ne_true, fun _ => ⟨hlast, ?_, hall⟩, fun x hx => ?_⟩
  · exact (hside.stream (by rw [hlast]; decide)).of_receiver rfl
  · rw [hface]; exact h.sent x hx

/-- **Preservation, one operation of a socket.** -/
theorem Local.step (hv : config.Valid) (hf : f.Ok) (hrcv : f.rcv < 2 ^ 31) (op : SocketOp)
    (hacc : (s.step config op).accepted.length < 2 ^ 31 - 2 ^ 17)
    (hin : ∀ segment nowMs, op = .input segment nowMs → SegOk f isn segment) (h : Local config isn f s) :
    Local config isn f (s.step config op) ∧ (s.face isn).Le ((s.step config op).face isn) := by
  cases hret : s.retained with
  | false =>
    cases op with
    | input segment nowMs =>
      simp only [Socket.step, onInput, hret, Bool.false_eq_true, if_false] at hacc ⊢
      split_ifs
      · exact ⟨h, Face.Le.refl _⟩
      · rw [← hret]; exact ⟨h.reset (resetFor_rst segment) id, Face.Le.refl _⟩
    | write bytes nowMs => simp only [Socket.step, onWrite, hret, Bool.false_eq_true, if_false]; exact ⟨h, Face.Le.refl _⟩
    | read max => simp only [Socket.step, onRead, hret, Bool.false_eq_true, if_false]; exact ⟨h, Face.Le.refl _⟩
    | close nowMs => simp only [Socket.step, onUpdate, hret, Bool.false_eq_true, if_false]; exact ⟨h, Face.Le.refl _⟩
    | abort => simp only [Socket.step, onAbort, hret, Bool.false_eq_true, if_false]; exact ⟨h, Face.Le.refl _⟩
    | poll nowMs => simp only [Socket.step, onUpdate, hret, Bool.false_eq_true, if_false]; exact ⟨h, Face.Le.refl _⟩
  | true =>
    have hr := h.kept hret
    have hside := h.side hr
    have hm := hside.send.mss
    have hno : ∀ segment, (none : Option Segment) = some segment → SegOk f isn segment := fun _ h => absurd h (by simp)
    cases op with
    | input segment nowMs =>
      simp only [Socket.step, onInput, hret, if_true] at hacc ⊢
      have hseg := hin segment nowMs rfl
      obtain ⟨hopen, hclosed⟩ := input_moves config nowMs (c := s.conn) segment hm
      cases hcl : (s.conn.input segment nowMs config).2.closed with
      | false =>
        refine h.moves hv hf hrcv hacc hr true (hopen hcl) (fun x hx => ?_) ?_
        · cases hx; exact hseg
        · simp [hr]
      | true =>
        obtain ⟨hout, hrem⟩ := hclosed hcl
        generalize (s.conn.input segment nowMs config).1 = c' at hrem hacc ⊢
        rw [hout, List.append_nil]
        cases hrem with
        | reset hrst =>
          simp only [hrst, Bool.not_true, Bool.and_false]
          exact ⟨⟨fun h => absurd h Bool.false_ne_true, fun _ => hside, fun h => absurd h Bool.false_ne_true, h.sent⟩, Face.Le.refl _⟩
        | lastAck c' hl =>
          obtain ⟨h1, h2⟩ := h.lastAck hrcv hacc hr hseg hl rfl
          simp only [hl.rst, Bool.not_true, Bool.not_false, Bool.and_true]
          exact ⟨h1, h2 ▸ Face.Le.refl _⟩
    | write bytes nowMs =>
      simp only [Socket.step, onWrite, hret, if_true] at hacc ⊢
      rcases hw : s.conn.write bytes nowMs config with e | ⟨conn, count, out⟩
      · exact ⟨h, Face.Le.refl _⟩
      · rw [hw] at hacc
        obtain ⟨hst, -, -, hroom, hmv⟩ := write_moves config nowMs hm hw
        obtain ⟨h1, h2⟩ := hside.accept hst (bytes.take count) (by rw [List.length_take]; omega)
        exact h.moved hv hf hrcv hr true hacc h1 h2 hmv hno (by rw [← hret])
    | read max =>
      simp only [Socket.step, onRead, hret, if_true] at hacc ⊢
      obtain ⟨hbytes, hmv⟩ := read_moves config 0 (c := s.conn) max
      have hall : s.face isn = Connection.face isn s.accepted (s.conn.consume (min max s.conn.recvQueue.length))
          (s.delivered ++ s.conn.recvQueue.take (min max s.conn.recvQueue.length) ++
            (s.conn.consume (min max s.conn.recvQueue.length)).recvQueue) := by
        rw [List.append_assoc]
        simp only [consume, List.take_append_drop]; rfl
      refine h.moved hv hf hrcv hr true hacc (hside.consume _) (hall ▸ Face.Le.refl _) hmv hno ?_
      simp only [hbytes, ← hret]
    | close nowMs =>
      simp only [Socket.step, onUpdate, hret, if_true] at hacc ⊢
      exact h.moves hv hf hrcv hacc hr _ (close_moves config nowMs hm).1 hno rfl
    | abort =>
      simp only [Socket.step, onAbort, hret, if_true] at hacc ⊢
      exact ⟨h.reset (by decide : (Flags.RST).contains .RST = true) fun h => absurd h (by decide), Face.Le.refl _⟩
    | poll nowMs =>
      simp only [Socket.step, onUpdate, hret, if_true] at hacc ⊢
      exact h.moves hv hf hrcv hacc hr _ (poll_moves config nowMs hm).1 hno rfl

/-- a write accepts at the end -/
theorem accepted_step (s : Socket P) (op : SocketOp) : s.accepted <+: (s.step config op).accepted := by
  cases op with
  | input segment nowMs => simp only [Socket.step, onInput]; split_ifs <;> exact List.prefix_refl _
  | write bytes nowMs =>
    simp only [Socket.step, onWrite]
    split_ifs
    · split
      · exact List.prefix_refl _
      · exact List.prefix_append _ _
    · exact List.prefix_refl _
  | read max => simp only [Socket.step, onRead]; split_ifs <;> exact List.prefix_refl _
  | close nowMs => simp only [Socket.step, onUpdate]; split_ifs <;> exact List.prefix_refl _
  | abort => simp only [Socket.step, onAbort]; split_ifs <;> exact List.prefix_refl _
  | poll nowMs => simp only [Socket.step, onUpdate]; split_ifs <;> exact List.prefix_refl _

end Socket

/-! ## The pair -/

namespace Pair

variable {P : Type} {h : Handshake P} {p : Pair P}

def face (h : Handshake P) (p : Pair P) (side : Side) : Face := (p side).face (h.isn side)

/-- less than 2^31 - 2^17 bytes were accepted in each direction -/
def Bounded (p : Pair P) : Prop := ∀ side, (p side).accepted.length < 2 ^ 31 - 2 ^ 17

def Inv (h : Handshake P) (p : Pair P) : Prop :=
  ∀ side, (p side).Local (h.config side).1 (h.isn side) (p.face h side.other)

theorem Bounded.face_ok (hb : p.Bounded) (side : Side) : (p.face h side).Ok := Socket.face_ok (hb side)

/-- what the other side received lies below 2^31 -/
theorem Inv.rcv_lt (hi : p.Inv h) (hb : p.Bounded) (side : Side) : (p.face h side).rcv < 2 ^ 31 := by
  have h1 := (hi side).rcv_le
  have h2 := hb side.other
  have h3 : (p.face h side.other).acc = (p side.other).accepted := rfl
  rw [h3] at h1
  exact lt_of_le_of_lt h1 (by omega)

theorem update_self (side : Side) (op : SocketOp) :
    p.update h side op side = (p side).step (h.config side).1 op := Function.update_self ..

theorem update_other (side : Side) (op : SocketOp) : p.update h side op side.other = p side.other :=
  Function.update_of_ne side.other_ne _ _

/-- **Preservation, one operation at one side.** -/
theorem Inv.update (hi : p.Inv h) (side : Side) (op : SocketOp) (hb : (p.update h side op).Bounded) (hb0 : p.Bounded)
    (hin : ∀ segment nowMs, op = .input segment nowMs → SegOk (p.face h side.other) (h.isn side) segment) :
    (p.update h side op).Inv h ∧ ∀ d, (p.face h d).Le ((p.update h side op).face h d) := by
  have hacc := hb side
  rw [update_self] at hacc
  obtain ⟨h1, h2⟩ := (hi side).step (h.config side).valid (hb0.face_ok side.other) (hi.rcv_lt hb0 side.other) op hacc hin
  have hself : (p.update h side op).face h side = ((p side).step (h.config side).1 op).face (h.isn side) := by
    rw [face, update_self]
  have hother : (p.update h side op).face h side.other = p.face h side.other := by rw [face, update_other]; rfl
  constructor
  · intro d
    rcases side.eq_or_other d with rfl | rfl
    · rw [update_self, hother]; exact h1
    · have hd := hi side.other
      rw [Side.other_other] at hd
      rw [update_other, Side.other_other, hself]
      exact hd.mono (hb0.face_ok side) h2
  · intro d
    rcases side.eq_or_other d with rfl | rfl
    · rw [hself]; exact h2
    · rw [hother]; exact Face.Le.refl _

theorem accepted_update (side : Side) (op : SocketOp) (d : Side) :
    (p d).accepted <+: (p.update h side op d).accepted := by
  rcases side.eq_or_other d with rfl | rfl
  · rw [update_self]; exact (p d).accepted_step op
  · rw [update_other]

theorem accepted_step (p : Pair P) (op : PairOp) (d : Side) : (p d).accepted <+: (p.step h op d).accepted := by
  cases op with
  | deliver side index nowMs =>
    cases hget : (p side.other).sent[index]? with
    | none => simp only [step, hget]; exact List.prefix_refl _
    | some segment => simp only [step, hget]; exact accepted_update side _ d
  | act side op => exact accepted_update side _ d

theorem Bounded.of_step {op : PairOp} (hb : (p.step h op).Bounded) : p.Bounded := fun side =>
  lt_of_le_of_lt (accepted_step p op side).length_le (hb side)

/-- **Preservation, one step of the system.** -/
theorem Inv.step (hi : p.Inv h) (op : PairOp) (hb : (p.step h op).Bounded) :
    (p.step h op).Inv h ∧ ∀ d, (p.face h d).Le ((p.step h op).face h d) := by
  have hb0 := hb.of_step
  cases op with
  | deliver side index nowMs =>
    simp only [Pair.step] at hb ⊢
    cases hget : (p side.other).sent[index]? with
    | none => exact ⟨hi, fun _ => Face.Le.refl _⟩
    | some segment =>
      rw [hget] at hb
      refine hi.update side _ hb hb0 fun x now hx => ?_
      cases hx
      have hsent := (hi side.other).sent segment (List.mem_of_getElem? hget)
      rw [Side.other_other] at hsent
      exact hsent
  | act side op => exact hi.update side _ hb hb0 fun x now hx => by cases op <;> cases hx

/-! ## The start -/

theorem start_client (h : Handshake P) :
    (start h .client).conn.state = .synSent ∧
      (start h .client).conn.unacked = [⟨h.isn .client, .SYN, [], h.nowMs .client, 1⟩] ∧
      (start h .client).sent = [buildSegment ((start h .client).conn.header (h.isn .client) .SYN) []] :=
  ⟨rfl, rfl, rfl⟩

theorem start_server (h : Handshake P) :
    (start h .server).conn.receiver = ⟨h.isn .client + 1, [], [], false⟩ ∧ (start h .server).conn.state = .synReceived ∧
      (start h .server).sent =
        [buildSegment ((start h .server).conn.header (h.isn .server) (Flags.SYN.union .ACK)) []] := by
  have hstart : ((start h .server).conn, (start h .server).sent) =
      (Connection.server (h.peer .server) h.syn (h.isn .server) (h.nowMs .server) (h.config .server).1
        (h.token .server)) := rfl
  generalize (start h .server).conn = c, (start h .server).sent = sent at hstart
  generalize hc : Connection.new (h.peer .server) h.syn.dstPort h.syn.srcPort .synReceived (h.isn .server)
    (h.syn.seq + 1) (h.config .server).1 (h.token .server) = c0
  obtain ⟨hr, -, -, hst⟩ := c0.updateRemoteWindow_frame h.syn.window (h.nowMs .server)
  have hnxt : (c0.updateRemoteWindow h.syn.window (h.nowMs .server)).sendNxt = h.isn .server := by
    have hn := congrArg Sender.nxt (c0.updateRemoteWindow_sender h.syn.window (h.nowMs .server))
    exact hn.trans (by rw [← hc]; rfl)
  simp only [Connection.server, hc, Prod.mk.injEq] at hstart
  generalize c0.updateRemoteWindow h.syn.window (h.nowMs .server) = c1 at hr hst hnxt hstart
  have hc0 : c0.receiver = ⟨h.isn .client + 1, [], [], false⟩ ∧ c0.state = .synReceived := by rw [← hc]; exact ⟨rfl, rfl⟩
  obtain ⟨rfl, rfl⟩ := hstart
  refine ⟨hr.trans hc0.1, hst.trans hc0.2, ?_⟩
  rw [← hnxt]; rfl

theorem start_phase (h : Handshake P) : ∀ side, (start h side).conn.state.phase = .opening
  | .client => rfl
  | .server => by rw [(start_server h).2.1]; rfl

theorem start_sendInv (h : Handshake P) (side : Side) :
    (start h side).conn.SendInv (h.config side).1 (h.isn side) [] := by
  have hs := (h.opening side).sendInv (h.config side).valid
  rwa [h.opening_isn] at hs

theorem start_side (h : Handshake P) (side : Side) :
    SideInv (h.config side).1 (h.isn side) ((start h).face h side.other) [] [] (start h side).conn := by
  refine ⟨start_sendInv h side, (h.opening side).recvInv, fun hst => ?_, fun _ => rfl, ?_, fun hst => ?_⟩
  · cases side with
    | client => exact absurd (start_client h).1 hst
    | server =>
      obtain ⟨hr, -, -⟩ := start_server h
      simp only [receiver, Receiver.mk.injEq] at hr
      obtain ⟨h1, h2, h3, h4⟩ := hr
      rw [h2]
      refine ⟨by rw [h1, h4]; rfl, List.nil_prefix, fun hc => ?_, fun x hx => ?_⟩
      · rw [h4] at hc; cases hc
      · rw [h3] at hx; cases hx
  · have hu := (start_sendInv h side).sender.unaPos_eq
    rw [show (start h side).conn.sender.phase = .opening from start_phase h side] at hu
    rw [hu]; exact Nat.zero_le _
  · cases side with
    | client =>
      rw [(start_client h).2.1]
      intro x hx
      rw [List.mem_singleton] at hx
      subst hx; exact (by decide : Flags.SYN.contains .ACK = false)
    | server => rw [(start_server h).2.1] at hst; cases hst

/-- **The invariant at the start.** -/
theorem inv_start (h : Handshake P) : (start h).Inv h := by
  intro side
  have hside := start_side h side
  refine ⟨fun _ => rfl, fun _ => hside, (fun hn => nomatch hn), fun segment hseg => ?_⟩
  -- the one segment in flight is the one that was emitted
  have hbuilt : ∀ flags : Flags, flags.contains .SYN = true → flags.contains .FIN = false →
      (flags.contains .ACK = true → (start h side).conn.state ≠ .synSent) →
      SegOk ((start h side).face (h.isn side)) (h.isn side.other)
        (buildSegment ((start h side).conn.header (h.isn side) flags) []) := fun flags hsyn hfin hack => by
    refine hside.built ⟨0, ⟨(pos_zero _).symm, fun _ => ⟨rfl, rfl, hfin⟩, fun hs => ?_, fun hf => ?_⟩, ?_⟩ hack
    · rw [show flags.contains .SYN = false from hs] at hsyn; cases hsyn
    · rw [show flags.contains .FIN = true from hf] at hfin; cases hfin
    · simp only [Piece.len, hsyn, hfin, Connection.face, Sender.nxtPos]
      simp only [List.length_nil, Bool.toNat_true, Bool.toNat_false]; omega
  cases side with
  | client =>
    rw [(start_client h).2.2, List.mem_singleton] at hseg
    subst hseg
    exact hbuilt _ (by decide) (by decide) fun h => absurd h (by decide)
  | server =>
    rw [(start_server h).2.2, List.mem_singleton] at hseg
    subst hseg
    exact hbuilt _ (by decide) (by decide) fun _ => by rw [(start_server h).2.1]; decide

/-! ## Runs -/

/-- **The invariant after every run.** -/
theorem inv_run (h : Handshake P) (ops : List PairOp) (hb : (run h ops).Bounded) : (run h ops).Inv h :=
  Run.exec_invariant (P := fun p : Pair P => p.Bounded → p.Inv h)
    (fun _ op hi hb => ((hi hb.of_step).step op hb).1) (fun _ => inv_start h) ops hb

theorem run_append (h : Handshake P) (ops more : List PairOp) :
    run h (ops ++ more) = Run.exec (step h) (run h ops) more := Run.exec_append _ _ _

theorem Bounded.of_run (ops more : List PairOp) (hb : (run h (ops ++ more)).Bounded) : (run h ops).Bounded := by
  rw [run_append] at hb
  generalize run h ops = p at hb ⊢
  induction more generalizing p with
  | nil => exact hb
  | cons op more ih => exact (ih _ hb).of_step

/-- **What a side shows only grows.** -/
theorem face_run (h : Handshake P) (ops more : List PairOp) (hb : (run h (ops ++ more)).Bounded) (side : Side) :
    ((run h ops).face h side).Le ((run h (ops ++ more)).face h side) := by
  induction more using List.reverseRecOn with
  | nil => rw [List.append_nil]; exact Face.Le.refl _
  | append_singleton more op ih =>
    have hlast : run h (ops ++ (more ++ [op])) = (run h (ops ++ more)).step h op := by
      rw [← List.append_assoc, run_append]; rfl
    rw [hlast] at hb ⊢
    exact (ih hb.of_step).trans (((inv_run h _ hb.of_step).step op hb).2 side)

end Pair

end FipsTcp
