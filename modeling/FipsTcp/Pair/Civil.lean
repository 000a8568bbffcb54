/-
Two honest ends do not reset each other.

A connection answers with a reset only when a segment acknowledges what was never sent, and nothing that an honest peer says does.
- `Talks`: no reset, and an ACK number that tells what has been received;
- `input_talks`: whatever a retained connection says to a segment that it does not refuse;
- `Civil`: a side has sent no reset while it is retained, and never an ACK of nothing;
- `honest_ends_civil`: so it is after every run, and the network removes a connection of two retained ones only by the ACK of its
  FIN, when both streams are complete.
-/
import FipsTcp.Connection.Addressed
import FipsTcp.Pair.Contract

namespace FipsTcp

open Serial Stream SendWindow

namespace Connection

variable {P : Type} {config : Config} {nowMs : ℕ} {inp : Option Segment} {c c1 c' : Connection P} {out : List Segment} {isn : U32}
  {acc : List U8}

/-- no reset -/
def NoReset (flags : Flags) : Prop := flags.contains .RST = false

instance (flags : Flags) : Decidable (NoReset flags) := inferInstanceAs (Decidable (_ = _))

/-- a segment that is no reset, and has an ACK number only if it is that of what the connection has received -/
structure Talks (c : Connection P) (x : Segment) : Prop where
  rst : x.flags.contains .RST = false
  ack : x.ack = none ∨ x.ack = some c.recvNxt ∧ c.state ≠ .synSent

/-- what a connection that talks so keeps: its tracked segments are no resets, and in SYN-SENT they have no ACK number -/
structure Clean (config : Config) (isn : U32) (acc : List U8) (c : Connection P) : Prop where
  send : c.SendInv config isn acc
  tracks : c.Tracks NoReset
  noAck : c.state = .synSent → ∀ x ∈ c.unacked, x.flags.contains .ACK = false

theorem Talks.built {seq : U32} {flags : Flags} {payload : List U8} (hrst : NoReset flags)
    (hack : flags.contains .ACK = true → c.state ≠ .synSent) : c.Talks (buildSegment (c.header seq flags) payload) := by
  refine ⟨hrst, ?_⟩
  cases hflag : flags.contains .ACK with
  | false => exact .inl (by simp [buildSegment, header, hflag])
  | true => exact .inr ⟨by simp [buildSegment, header, hflag], hack hflag⟩

theorem Talks.of_eq {x : Segment} (h : c.Talks x) (hr : c'.recvNxt = c.recvNxt) (hst : c'.state = .synSent → c.state = .synSent) :
    c'.Talks x :=
  ⟨h.rst, h.ack.imp id fun h => ⟨h.1.trans (congrArg some hr.symm), fun h' => h.2 (hst h')⟩⟩

theorem ackSegment_talks (hst : c.state ≠ .synSent) : c.Talks c.ackSegment :=
  .built (by decide : NoReset Flags.ACK) fun _ => hst

/-- **Preservation, one primitive.** -/
theorem Clean.move (hc : c.Clean config isn acc) (h : Move config nowMs inp c out c') : c'.Clean config isn acc :=
  ⟨h.sendInv hc.send, h.tracks (by decide) (by decide) hc.tracks, h.noAck hc.send hc.noAck⟩

theorem Clean.moves (hc : c.Clean config isn acc) (h : Moves config nowMs inp c out c') : c'.Clean config isn acc :=
  h.preserves (Q := Clean config isn acc) (fun hm hc => hc.move hm) hc

theorem Clean.segmentFor (hc : c.Clean config isn acc) {x : TrackedSegment} (hx : x ∈ c.unacked) : c.Talks (c.segmentFor x) := by
  refine .built (hc.tracks x hx) fun hack hst => ?_
  rw [hc.noAck hst x hx] at hack
  cases hack

/-- a primitive that no segment caused does not leave SYN-SENT, nor enter it -/
theorem Move.synSent (h : Move config nowMs none c out c') : c'.state = .synSent ↔ c.state = .synSent := by
  rcases h.recv_cases with ⟨-, hst⟩ | ⟨segment, hin, -⟩ | ⟨segment, hin, -⟩
  · exact hst
  · cases hin
  · cases hin

/-- **What a primitive says** that no segment caused. -/
theorem Move.talks (h : Move config nowMs none c out c') (hc : c.Clean config isn acc) : ∀ x ∈ out, c.Talks x := by
  cases h with
  | establishClient segment hin | establishServer segment hin | window segment hin | receive segment hin | reset segment hin =>
    cases hin
  | advanceAck c' segment ack hin => cases hin
  | timers | requestClose => exact fun _ hx => absurd hx List.not_mem_nil
  | retransmit timeout =>
    rcases c.retransmitOldest_cases nowMs timeout with h | ⟨tracked, rest, transmissions, dups, hu, -, h⟩ <;> rw [h]
    · exact fun _ hx => absurd hx List.not_mem_nil
    · intro x hx
      rw [Option.toList_some, List.mem_singleton] at hx
      subst hx
      exact hc.segmentFor (by rw [hu]; exact List.mem_cons_self)
  | sendData count hst =>
    intro x hx
    rw [List.mem_singleton] at hx
    subst hx
    have hflags : NoReset (Flags.ACK.union .PSH) := by decide
    refine Talks.built (c := c) hflags fun _ hsyn => ?_
    rcases hst with hst | hst <;> rw [hst] at hsyn <;> cases hsyn
  | sendFin hst =>
    intro x hx
    rw [List.mem_singleton] at hx
    subst hx
    have hflags : NoReset (Flags.FIN.union .ACK) := by decide
    refine Talks.built (c := c) hflags fun _ hsyn => ?_
    rcases hst with hst | hst <;> rw [hst] at hsyn <;> cases hsyn
  | probe hwin =>
    have hstate : ∀ x ∈ c.unacked, x.payload ≠ [] → c.state ≠ .synSent := fun x hx hp hst => by
      have hshape : c.state.phase.Shape (c.unacked.map TrackedSegment.piece) := hc.send.sender.shape
      rw [hst] at hshape
      obtain ⟨y, hy, hsyn⟩ := hshape
      have hmem : x.piece ∈ c.unacked.map TrackedSegment.piece := List.mem_map_of_mem hx
      rw [hy, List.mem_singleton] at hmem
      rw [← hmem] at hsyn
      exact hp hsyn.payload
    rcases c.zeroWindowProbe_cases nowMs with ⟨y, hy, hp, h⟩ | ⟨-, ⟨-, h⟩ | ⟨hq, h⟩⟩ <;> rw [h]
    · intro x hx
      rw [Option.toList_some, List.mem_singleton] at hx
      subst hx
      exact .built (by decide) fun _ => hstate y hy hp
    · exact fun _ hx => absurd hx List.not_mem_nil
    · intro x hx
      rw [Option.toList_some, List.mem_singleton] at hx
      subst hx
      have hflags : NoReset (Flags.ACK.union .PSH) := by decide
      refine Talks.built (c := c) hflags fun _ hst => hq ?_
      exact (hc.send.sender.idle (by simp [sender, hst, State.phase])).1
  | ack hst =>
    intro x hx
    rw [List.mem_singleton] at hx
    subst hx
    exact ackSegment_talks hst

theorem Moves.talks (h : Moves config nowMs none c out c') (hc : c.Clean config isn acc) :
    (∀ x ∈ out, c.Talks x) ∧ c'.recvNxt = c.recvNxt ∧ (c'.state = .synSent ↔ c.state = .synSent) := by
  have hrecv : c'.recvNxt = c.recvNxt := congrArg Receiver.recvNxt h.receiver_eq
  refine ⟨?_, hrecv, ?_⟩
  · clear hrecv
    induction h with
    | refl c => exact fun _ hx => absurd hx List.not_mem_nil
    | cons hm _ ih =>
      intro x hx
      rcases List.mem_append.1 hx with hx | hx
      · exact hm.talks hc x hx
      · have hnxt := congrArg Receiver.recvNxt (hm.receiver_eq_empty fun _ hin => absurd hin (by simp))
        exact (ih (hc.move hm) x hx).of_eq hnxt.symm hm.synSent.2
  · clear hrecv
    induction h with
    | refl c => exact Iff.rfl
    | cons hm _ ih => exact (ih (hc.move hm)).trans hm.synSent

/-! ## A segment -/

/-- the end of `on_segment` -/
theorem receive_flush_talks (hc : c.Clean config isn acc) (hst : c.Synchronized) {segment : Segment}
    (hrst : segment.flags.contains .RST = false) :
    ∀ x ∈ (c.receiveIfData segment nowMs config).2 ++ ((c.receiveIfData segment nowMs config).1.flushData nowMs).2,
      ((c.receiveIfData segment nowMs config).1.flushData nowMs).1.Talks x := by
  obtain ⟨hmoves, hmss⟩ := receiveIfData_moves config nowMs (some segment) rfl hrst hst
  have hc' := hc.moves hmoves
  have hst' : (c.receiveIfData segment nowMs config).1.state ≠ .synSent := by
    unfold receiveIfData
    split_ifs
    · intro h
      rw [synchronized_iff, ← (receiveStreamData_outgoing c segment nowMs config).2, h] at hst
      exact hst rfl
    · exact hst.1
  have hreceived : ∀ x ∈ (c.receiveIfData segment nowMs config).2, (c.receiveIfData segment nowMs config).1.Talks x := by
    revert hst'
    unfold receiveIfData
    split_ifs
    · intro hst' x hx
      obtain rfl := List.mem_singleton.1 hx
      exact ackSegment_talks hst'
    · exact fun _ x hx => absurd hx List.not_mem_nil
  obtain ⟨htalks, hnxt, hsyn⟩ := (flushData_moves config nowMs none (by rw [hmss]; exact hc.send.mss)).talks hc'
  intro x hx
  rcases List.mem_append.1 hx with hx | hx
  · exact (hreceived x hx).of_eq hnxt hsyn.1
  · exact (htalks x hx).of_eq hnxt hsyn.1

/-- the ACK part of `on_segment` says what a retransmission says -/
theorem ackResult_talks (hc : c.Clean config isn acc) (hst : c.Synchronized) {segment : Segment} {ack : U32}
    (hrst : segment.flags.contains .RST = false) (hack : segment.ack = some ack)
    (h : AckResult c segment ack nowMs config (c1, false, out)) : ∀ x ∈ out, c.Talks x := by
  cases h with
  | outside => exact fun _ hx => absurd hx List.not_mem_nil
  | repeated duplicate => exact ((repeatAck_moves config nowMs none duplicate).1.talks hc).1
  | advanced c2 hadv hc2 =>
    have hmove : Moves config nowMs (some segment) c [] c2 := (Move.advanceAck c c2 segment ack rfl hrst hack hst hadv hc2).one
    have hst2 := afterAck_synchronized config nowMs hst hc2
    have hclean := hc.moves (hmove.trans (window_moves config nowMs segment ack hst2))
    obtain ⟨-, hr, -, -, hs⟩ := windowOf_frame nowMs (c := c2) segment ack
    have hnxt : (c2.windowOf segment ack nowMs).recvNxt = c.recvNxt :=
      congrArg Receiver.recvNxt (hr.trans (afterAck_frame nowMs config hc2).1)
    intro x hx
    refine (((repairTimedOutFlight_moves config nowMs none).1.talks hclean).1 x hx).of_eq hnxt.symm fun hsyn => ?_
    exact absurd hsyn hst.1

/-- **What a connection says to a segment** that it does not refuse: each time, what it had received before or has received now. -/
theorem input_talks (hc : c.Clean config isn acc) {segment : Segment} (hok : c.unacceptableAck segment = false)
    (hopen : (c.input segment nowMs config).2.closed = false) :
    ∀ x ∈ (c.input segment nowMs config).2.segments, c.Talks x ∨ (c.input segment nowMs config).1.Talks x := by
  have hno : ¬ c.unacceptableAck segment = true := by rw [hok]; exact Bool.false_ne_true
  unfold input at hopen ⊢
  rw [if_neg hno] at hopen ⊢
  by_cases hsyn : c.unexpectedSyn segment = true
  · rw [if_pos hsyn]
    intro x hx
    obtain rfl := List.mem_singleton.1 hx
    simp only [unexpectedSyn, Bool.and_eq_true, decide_eq_true_eq] at hsyn
    exact .inl (ackSegment_talks hsyn.1.1.1)
  rw [if_neg hsyn] at hopen ⊢
  unfold onSegment at hopen ⊢
  by_cases hrst : segment.flags.contains .RST = true
  · simp only [if_pos hrst] at hopen ⊢
    have hst := (onReset_segments (c := c) segment).1
    intro x hx
    have hstate := hst (List.ne_nil_of_mem hx)
    unfold onReset at hx
    rw [if_neg hstate] at hx
    split_ifs at hx
    · exact absurd hx List.not_mem_nil
    · obtain rfl := List.mem_singleton.1 hx
      exact .inl (ackSegment_talks hstate)
    · exact absurd hx List.not_mem_nil
  have hrst' : segment.flags.contains .RST = false := by simpa using hrst
  simp only [if_neg hrst] at hopen ⊢
  split at hopen
  · -- SYN-SENT
    rename_i hst
    unfold onSynSent
    split_ifs with h
    · intro x hx
      obtain rfl := List.mem_singleton.1 hx
      exact .inr (ackSegment_talks (by simp [establishClient]))
    · exact fun _ hx => absurd hx List.not_mem_nil
  · -- SYN-RECEIVED
    rename_i hst
    unfold onSynReceived
    split_ifs with h1 h2
    · intro x hx
      have hmove : Move config nowMs none c _ _ := .retransmit c false
      exact .inl (hmove.talks hc x hx)
    · exact fun _ hx => absurd hx List.not_mem_nil
    · have hsync : (c.establishServer segment nowMs).Synchronized := by simp [Synchronized, establishServer]
      have hmove : Move config nowMs (some segment) c [] (c.establishServer segment nowMs) :=
        .establishServer c segment rfl hst hrst' (not_not.1 h2)
      exact fun x hx => .inr (receive_flush_talks (hc.move hmove) hsync hrst' x hx)
  · rename_i hn1 hn2
    have hst : c.Synchronized := ⟨hn1, hn2⟩
    obtain ⟨c1, out, hack, hst1, -, heq⟩ := onSynchronized_processed config nowMs hst hrst' hopen
    rw [heq]
    have hclean : c1.Clean config isn acc ∧ ∀ x ∈ out, c.Talks x := by
      rcases hack with ⟨-, rfl, rfl⟩ | ⟨ack, hseg, hp⟩
      · exact ⟨hc, fun _ hx => absurd hx List.not_mem_nil⟩
      · have hmoves := ((processAck_moves config nowMs hrst' hseg hst hp).1 rfl).1
        exact ⟨hc.moves hmoves, ackResult_talks hc hst hrst' hseg (hp ▸ processAck_cases config nowMs segment ack)⟩
    intro x hx
    rcases List.mem_append.1 hx with hx | hx
    · exact .inl (hclean.2 x hx)
    · exact .inr (receive_flush_talks hclean.1 hst1 hrst' x hx)

end Connection

/-! ## A socket -/

namespace Socket

open Connection

variable {P : Type} {config : Config} {isn : U32} {f : Face} {s : Socket P} {out : List Segment}

/-- a side that has sent no reset while it is retained, and never an ACK of nothing -/
structure Civil (peer : U32) (s : Socket P) : Prop where
  tracks : s.retained = true → s.conn.Tracks NoReset
  rst : s.retained = true → ∀ x ∈ s.sent, x.flags.contains .RST = false
  acks : ∀ x ∈ s.sent, x.flags.contains .RST = true ∨ x.ack ≠ some peer

/-- what a civil side may add -/
def Polite (peer : U32) (x : Segment) : Prop := x.flags.contains .RST = false ∧ x.ack ≠ some peer

/-- the ACK number of what was received is past the SYN -/
theorem Local.polite (hf : f.Ok) (h : Local config isn f s) {x : Segment} (hx : s.conn.Talks x) : Polite f.isn x := by
  refine ⟨hx.rst, ?_⟩
  rcases hx.ack with hnone | ⟨hack, hst⟩
  · rw [hnone]
    exact Option.some_ne_none _ |>.symm
  · have hstream := h.stream hst
    have hle := hstream.rcv_le
    have hsmall := hf.small
    intro hpeer
    have hzero : pos f.isn (1 + s.stream.length + s.conn.readClosed.toNat) = pos f.isn 0 := by
      rw [← hstream.nxt, pos_zero]
      exact Option.some.inj (hack.symm.trans hpeer)
    rw [pos_inj f.isn (by omega) (by omega)] at hzero
    omega

theorem Civil.clean (hc : s.Civil f.isn) (h : Local config isn f s) (hr : s.retained = true) :
    s.conn.Clean config isn s.accepted :=
  have hside := h.side (h.kept hr)
  ⟨hside.send, hc.tracks hr, hside.noAck⟩

/-- what is said politely keeps a side civil -/
theorem Civil.say (hc : s.Civil f.isn) (hr : s.retained = true) (out : List Segment) (hout : ∀ x ∈ out, Polite f.isn x) {c' : Connection P}
    (ht : c'.Tracks NoReset) {s' : Socket P} (hconn : s'.conn = c') (hsent : s'.sent = s.sent ++ out) : s'.Civil f.isn := by
  refine ⟨fun _ => hconn ▸ ht, fun _ x hx => ?_, fun x hx => ?_⟩
  all_goals
    rw [hsent] at hx
    rcases List.mem_append.1 hx with hx | hx
  · exact hc.rst hr x hx
  · exact (hout x hx).1
  · exact hc.acks x hx
  · exact .inr (hout x hx).2

/-- a side that is not retained may say resets -/
theorem Civil.leave (hc : s.Civil f.isn) (out : List Segment) (hout : ∀ x ∈ out, x.flags.contains .RST = true) {s' : Socket P}
    (hr : s'.retained = false) (hsent : s'.sent = s.sent ++ out) : s'.Civil f.isn := by
  refine ⟨fun h => absurd (hr.symm.trans h) Bool.false_ne_true, fun h => absurd (hr.symm.trans h) Bool.false_ne_true, fun x hx => ?_⟩
  rw [hsent] at hx
  rcases List.mem_append.1 hx with hx | hx
  · exact hc.acks x hx
  · exact .inl (hout x hx)

/-- an operation that no segment caused, after the application wrote or read -/
theorem Civil.moves (hf : f.Ok) (h : Local config isn f s) (hc : s.Civil f.isn) (hr : s.retained = true) {acc : List U8} {nowMs : ℕ}
    {c c' : Connection P} (hclean : c.Clean config isn acc) (hnxt : c.recvNxt = s.conn.recvNxt) (hstate : c.state = s.conn.state)
    (hm : Moves config nowMs none c out c') {s' : Socket P} (hconn : s'.conn = c') (hsent : s'.sent = s.sent ++ out) :
    s'.Civil f.isn := by
  refine hc.say hr out (fun x hx => h.polite hf ?_) (hclean.moves hm).tracks hconn hsent
  exact ((hm.talks hclean).1 x hx).of_eq hnxt.symm fun hst => hstate.trans hst

/-- **Preservation, one operation.** -/
theorem Civil.step (hf : f.Ok) (op : SocketOp) (h : Local config isn f s) (h' : Local config isn f (s.step config op))
    (hok : ∀ segment nowMs, op = .input segment nowMs → s.retained = true → s.conn.unacceptableAck segment = false)
    (hc : s.Civil f.isn) : (s.step config op).Civil f.isn := by
  cases hret : s.retained with
  | false =>
    cases op with
    | input segment nowMs =>
      simp only [Socket.step, onInput, hret, Bool.false_eq_true, if_false]
      split_ifs
      · exact hc
      · refine hc.leave [resetFor segment] (fun x hx => ?_) rfl rfl
        obtain rfl := List.mem_singleton.1 hx
        exact resetFor_rst segment
    | write bytes nowMs => simpa only [Socket.step, onWrite, hret, Bool.false_eq_true, if_false] using hc
    | read max => simpa only [Socket.step, onRead, hret, Bool.false_eq_true, if_false] using hc
    | close nowMs => simpa only [Socket.step, onUpdate, hret, Bool.false_eq_true, if_false] using hc
    | abort => simpa only [Socket.step, onAbort, hret, Bool.false_eq_true, if_false] using hc
    | poll nowMs => simpa only [Socket.step, onUpdate, hret, Bool.false_eq_true, if_false] using hc
  | true =>
    have hclean := hc.clean h hret
    have hm := hclean.send.mss
    cases op with
    | input segment nowMs =>
      have hunacc := hok segment nowMs rfl hret
      obtain ⟨hopen, hclosed⟩ := input_moves config nowMs (c := s.conn) segment hm
      cases hcl : (s.conn.input segment nowMs config).2.closed with
      | true =>
        refine hc.leave [] (fun x hx => absurd hx List.not_mem_nil) ?_ ?_
        · simp only [Socket.step, onInput, hret, if_true, hcl, Bool.not_true]
        · simp only [Socket.step, onInput, hret, if_true, (hclosed hcl).1]
      | false =>
        have htalks := input_talks hclean hunacc hcl
        have hconn : (s.step config (.input segment nowMs)).conn = (s.conn.input segment nowMs config).1 := by
          simp only [Socket.step, onInput, hret, if_true]
        refine hc.say hret (s.conn.input segment nowMs config).2.segments (fun x hx => ?_) (hclean.moves (hopen hcl)).tracks hconn ?_
        · rcases htalks x hx with hx | hx
          · exact h.polite hf hx
          · exact h'.polite hf (hconn ▸ hx)
        · simp only [Socket.step, onInput, hret, if_true]
    | write bytes nowMs =>
      simp only [Socket.step, onWrite, hret, if_true]
      rcases hw : s.conn.write bytes nowMs config with e | ⟨conn, count, out⟩
      · exact hc
      · obtain ⟨hst, -, -, hroom, hmv⟩ := write_moves config nowMs hm hw
        have hside := h.side (h.kept hret)
        obtain ⟨hacc, -⟩ := hside.accept hst (bytes.take count) (by rw [List.length_take]; omega)
        exact hc.moves hf h hret ⟨hacc.send, hclean.tracks, hacc.noAck⟩ rfl rfl hmv rfl rfl
    | read max =>
      simp only [Socket.step, onRead, hret, if_true]
      obtain ⟨-, hmv⟩ := read_moves config 0 (c := s.conn) max
      have hside := (h.side (h.kept hret)).consume (min max s.conn.recvQueue.length)
      exact hc.moves hf h hret ⟨hside.send, hclean.tracks, hside.noAck⟩ rfl rfl hmv rfl rfl
    | close nowMs =>
      simp only [Socket.step, onUpdate, hret, if_true]
      exact hc.moves hf h hret hclean rfl rfl (close_moves config nowMs hm).1 rfl rfl
    | abort =>
      simp only [Socket.step, onAbort, hret, if_true]
      refine hc.leave [s.conn.resetSegment] (fun x hx => ?_) rfl rfl
      obtain rfl := List.mem_singleton.1 hx
      exact (by decide : Flags.RST.contains .RST = true)
    | poll nowMs =>
      simp only [Socket.step, onUpdate, hret, if_true]
      exact hc.moves hf h hret hclean rfl rfl (poll_moves config nowMs hm).1 rfl rfl

end Socket

/-! ## The pair -/

namespace Pair

open Connection

variable {P : Type} {h : Handshake P} {p : Pair P}

/-- both ends are civil -/
def Civil (h : Handshake P) (p : Pair P) : Prop := ∀ side, (p side).Civil (h.isn side.other)

/-- an end in its handshake has accepted nothing and sent its SYN, and the other end received that at most -/
structure Handshaking (h : Handshake P) (p : Pair P) (side : Side) : Prop where
  stream : (p side.other).stream = []
  opened : (p side.other).conn.readClosed = false
  una : (p side).conn.sendUna = pos (h.isn side) 0
  nxt : (p side).conn.sendNxt = pos (h.isn side) 1

theorem Inv.handshaking (hi : p.Inv h) {side : Side} (hr : (p side).retained = true) (hst : ¬ (p side).conn.Synchronized) :
    p.Handshaking h side := by
  have hsend := ((hi side).side ((hi side).kept hr)).send.sender
  have hphase : (p side).conn.sender.phase = .opening := by
    by_contra hne
    exact hst (synchronized_iff.2 hne)
  have hacc : (p side).accepted = [] := hsend.fresh hphase
  have hpipe := hi.pipe side
  refine ⟨List.prefix_nil.1 (hacc ▸ hpipe.isPrefix), ?_, ?_, ?_⟩
  · by_contra hc
    have hclosed : (p side).conn.state.phase.finSent = true := hpipe.eof_closed (Bool.of_not_eq_false hc)
    rw [show (p side).conn.state.phase = .opening from hphase] at hclosed
    cases hclosed
  · have hpos : (p side).conn.sender.unaPos (p side).accepted = 0 := by rw [hsend.unaPos_eq, hphase]
    exact hpos ▸ hsend.una
  · have hpos : (p side).conn.sender.nxtPos (p side).accepted = 1 := by simp [Sender.nxtPos, hacc, hphase, Phase.finSent]
    exact hpos ▸ hsend.nxt

/-- nothing that a civil end sent is refused -/
theorem Inv.acceptable (hi : p.Inv h) {side : Side} (hother : (p side.other).Civil (h.isn side)) (hr : (p side).retained = true)
    {segment : Segment} (hmem : segment ∈ (p side.other).sent) : (p side).conn.unacceptableAck segment = false := by
  by_contra hno
  simp only [unacceptableAck, Bool.not_eq_false, Bool.and_eq_true, decide_eq_true_eq, Bool.not_eq_true', Option.any_eq_true] at hno
  obtain ⟨⟨hst, hrst⟩, ack, hack, hout⟩ := hno
  obtain ⟨hstream, hopen, huna, hnxt⟩ := hi.handshaking hr fun hsync => hsync.1 hst
  have hrcv : (p.face h side.other).rcv ≤ 1 := by
    by_cases hs : (p side.other).conn.state = .synSent
    · rw [(hi.synSent side.other hs).2.2]
      exact Nat.zero_le _
    · rw [rcv_eq h side.other hs, hstream, hopen]
      exact le_rfl
  have hsegment := (hi side.other).sent segment hmem
  rw [Side.other_other] at hsegment
  rcases hsegment with hrst' | ⟨-, hnone | ⟨q, hq, hq'⟩⟩
  · rw [hrst] at hrst'
    cases hrst'
  · rw [hack] at hnone
    cases hnone
  · have hle : q ≤ 1 := hq.trans hrcv
    have hne : q ≠ 0 := fun h0 => by
      rcases hother.acks segment hmem with hrst' | hack'
      · rw [hrst] at hrst'
        cases hrst'
      · exact hack' (by rw [hq', h0, pos_zero]; rfl)
    obtain rfl : q = 1 := by omega
    obtain rfl : ack = pos (h.isn side) 1 := Option.some.inj (hack.symm.trans hq')
    rw [huna, hnxt] at hout
    rcases hout with hout | hout
    · exact hout ((before_pos (by norm_num) (by norm_num)).2 Nat.zero_lt_one)
    · exact absurd ((before_pos (by norm_num) (by norm_num)).1 hout) (lt_irrefl 1)

theorem start_tracks (h : Handshake P) : ∀ side, (start h side).conn.Tracks NoReset
  | .client => by
    intro x hx
    obtain rfl := List.mem_singleton.1 hx
    exact (by decide : NoReset Flags.SYN)
  | .server => server_tracks (h.config .server).1 (h.peer .server) h.syn (h.isn .server) (h.nowMs .server) (h.token .server)
    (by decide : NoReset (Flags.SYN.union .ACK))

theorem civil_start (h : Handshake P) : (start h).Civil h := by
  have hb : (start h).Bounded := fun side => by
    change ([] : List U8).length < _
    norm_num
  intro side
  have hsay : ∀ flags : Flags, NoReset flags → (flags.contains .ACK = true → (start h side).conn.state ≠ .synSent) →
      (start h side).sent = [buildSegment ((start h side).conn.header (h.isn side) flags) []] →
      (start h side).Civil (h.isn side.other) := by
    intro flags hrst hack hsent
    have htalks : (start h side).conn.Talks (buildSegment ((start h side).conn.header (h.isn side) flags) []) :=
      .built hrst hack
    have hpolite := (inv_start h side).polite (hb.face_ok side.other) htalks
    refine ⟨fun _ => start_tracks h side, fun _ x hx => ?_, fun x hx => ?_⟩
    all_goals
      rw [hsent, List.mem_singleton] at hx
      subst hx
    · exact hpolite.1
    · exact .inr hpolite.2
  cases side with
  | client => exact hsay .SYN (by decide) (fun hack => absurd hack (by decide)) (start_client h).2.2
  | server =>
    refine hsay (Flags.SYN.union .ACK) (by decide) (fun _ hst => ?_) (start_server h).2.2
    rw [(start_server h).2.1] at hst
    cases hst

theorem Civil.update (hc : p.Civil h) (hi : p.Inv h) (side : Side) (op : SocketOp) (hi' : (p.update h side op).Inv h)
    (hb : p.Bounded) (hin : ∀ segment nowMs, op = .input segment nowMs → segment ∈ (p side.other).sent) :
    (p.update h side op).Civil h := by
  intro d
  rcases side.eq_or_other d with rfl | rfl
  · have hother := hc d.other
    rw [Side.other_other] at hother
    have hlocal := hi' d
    rw [face, update_other, update_self] at hlocal
    rw [update_self]
    exact (hc d).step (hb.face_ok d.other) op (hi d) hlocal
      (fun segment nowMs hop hr => hi.acceptable hother hr (hin segment nowMs hop))
  · rw [update_other]
    exact hc side.other

/-- **Preservation, one step of the system.** -/
theorem Civil.step (hc : p.Civil h) (hi : p.Inv h) (op : PairOp) (hb : (p.step h op).Bounded) : (p.step h op).Civil h := by
  have hi' := (hi.step op hb).1
  cases op with
  | deliver side index nowMs =>
    simp only [Pair.step] at hi' ⊢
    cases hget : (p side.other).sent[index]? with
    | none => exact hc
    | some segment =>
      rw [hget] at hi'
      refine hc.update hi side _ hi' hb.of_step fun x now hx => ?_
      cases hx
      exact List.mem_of_getElem? hget
  | act side op => exact hc.update hi side _ hi' hb.of_step fun x now hx => by cases op <;> cases hx

/-- **Both ends stay civil** in every run. -/
theorem civil_run (h : Handshake P) (ops : List PairOp) (hb : (run h ops).Bounded) : (run h ops).Civil h :=
  (Run.exec_invariant (P := fun p : Pair P => p.Bounded → p.Inv h ∧ p.Civil h)
    (fun _ op hi hb => ⟨((hi hb.of_step).1.step op hb).1, (hi hb.of_step).2.step (hi hb.of_step).1 op hb⟩)
    (fun _ => ⟨inv_start h, civil_start h⟩) ops hb).2

/-- a delivery accepts nothing -/
theorem Bounded.deliver (hb : p.Bounded) (side : Side) (index nowMs : ℕ) : (p.step h (.deliver side index nowMs)).Bounded := by
  intro d
  simp only [Pair.step]
  cases (p side.other).sent[index]? with
  | none => exact hb d
  | some segment =>
    rcases side.eq_or_other d with rfl | rfl
    · have heq : (p.update h d (.input segment nowMs) d).accepted = (p d).accepted := by
        rw [update_self]
        simp only [Socket.step, Socket.onInput]
        split_ifs <;> rfl
      simpa only [heq] using hb d
    · simpa only [update_other] using hb side.other

/-- what removes a connection when a segment that is no reset arrives: the ACK of its FIN, with both directions at their end -/
theorem Inv.removed (hi : p.Inv h) {side : Side} (hr : (p side).retained = true) {segment : Segment} {nowMs : ℕ}
    (hrst : segment.flags.contains .RST = false) (hi' : (p.update h side (.input segment nowMs)).Inv h)
    (hgone : (p.update h side (.input segment nowMs) side).retained = false) :
    (p.update h side (.input segment nowMs) side).ackRemoved = true ∧ (p side.other).stream = (p side).accepted ∧
      (p side).stream = (p side.other).accepted := by
  have hside := (hi side).side ((hi side).kept hr)
  obtain ⟨-, hclosed⟩ := input_moves (h.config side).1 nowMs (c := (p side).conn) segment hside.send.mss
  rw [update_self] at hgone ⊢
  simp only [Socket.step, Socket.onInput, hr, if_true, Bool.not_eq_false'] at hgone ⊢
  have hack : ((p side).step (h.config side).1 (.input segment nowMs)).ackRemoved = true := by
    simp only [Socket.step, Socket.onInput, hr, if_true, hgone, hrst, Bool.not_false, Bool.and_true]
  refine ⟨by simp only [hgone, hrst, Bool.not_false, Bool.and_true], ?_, ?_⟩
  · have hlocal := hi' side
    rw [face, update_other, update_self] at hlocal
    refine (hi.all_received side ?_).2
    have hleft := (hlocal.left hack).2.2
    simp only [Socket.step, Socket.onInput, hr, if_true] at hleft
    exact hleft
  · have hlast : (p side).conn.state = .lastAck := by
      have hrem := (hclosed hgone).2
      generalize ((p side).conn.input segment nowMs (h.config side).1).1 = c' at hrem
      cases hrem with
      | reset hyes => exact absurd hyes (by rw [hrst]; exact Bool.false_ne_true)
      | lastAck _ hl => exact hl.state
    have hdone : (p side).conn.readClosed = true := by
      rw [← hside.recv.done, hlast]
      rfl
    have hpipe := hi.pipe side.other
    simp only [Pair.pipe, Side.other_other] at hpipe
    exact hpipe.eof_all hdone

end Pair

section Results

variable {P : Type} (h : Handshake P) (ops : List PairOp)

/-- **Honest ends do not reset each other.** Over a network that may lose, duplicate, reorder and delay every segment, an end has sent
no reset as long as it is retained; and while the other end is retained, a delivery removes an end only as the ACK of its FIN, when
each end has received all that the other accepted. -/
theorem honest_ends_civil (hb : (Pair.run h ops).Bounded) (side : Side) (hr : (Pair.run h ops side).retained = true) :
    (∀ x ∈ (Pair.run h ops side).sent, x.flags.contains .RST = false) ∧
      ∀ index nowMs, (Pair.run h ops side.other).retained = true →
        (Pair.run h (ops ++ [.deliver side index nowMs]) side).retained = false →
        (Pair.run h (ops ++ [.deliver side index nowMs]) side).ackRemoved = true ∧
          (Pair.run h ops side.other).stream = (Pair.run h ops side).accepted ∧
          (Pair.run h ops side).stream = (Pair.run h ops side.other).accepted := by
  have hi := Pair.inv_run h ops hb
  have hc := Pair.civil_run h ops hb
  refine ⟨(hc side).rst hr, fun index nowMs hother => ?_⟩
  rw [Pair.run_append]
  generalize Pair.run h ops = p at hb hr hi hc hother ⊢
  have hi' := (hi.step _ (hb.deliver side index nowMs)).1
  simp only [Run.exec_cons, Run.exec_nil, Pair.step] at hi' ⊢
  cases hget : (p side.other).sent[index]? with
  | none => exact fun hgone => absurd (hr.symm.trans hgone) (by decide)
  | some segment =>
    rw [hget] at hi'
    exact hi.removed hr ((hc side.other).rst hother segment (List.mem_of_getElem? hget)) hi'

/-- after `wrapRun` the server writes a byte and closes too -/
def partingRun : List PairOp :=
  wrapRun ++ [.act .server (.write [7] 14), .act .server (.close 14), .deliver .client 5 15, .deliver .client 6 15,
    .deliver .client 7 15]

theorem partingRun_bounded : (Pair.run wrapHandshake partingRun).Bounded
  | .client => by decide +kernel
  | .server => by decide +kernel

/-- the ACK of its FIN removes the server -/
theorem honest_ends_civil_parting :
    (∀ x ∈ (Pair.run wrapHandshake partingRun .server).sent, x.flags.contains .RST = false) ∧
      (Pair.run wrapHandshake partingRun .client).stream = (Pair.run wrapHandshake partingRun .server).accepted :=
  have h := honest_ends_civil wrapHandshake partingRun partingRun_bounded .server (by decide +kernel)
  ⟨h.1, (h.2 5 17 (by decide +kernel) (by decide +kernel)).2.1⟩

end Results

end FipsTcp
