/-
One side of a connection between two honest endpoints.

`SideInv f acc delivered c`: the connection `c`, whose application wrote `acc` and read `delivered`, against a peer with
face `f`. Both halves are in order, what was received agrees with the peer's stream, and nothing counts as acknowledged
that the peer did not receive.
- `Move.emits`: every segment a primitive emits is `SegOk`;
- `Move.side`: a primitive that handles a `SegOk` segment keeps the invariant and lets the face only grow;
- `SideInv.mono`: the invariant stays true when the peer's face grows;
- `Local`, `Local.step`: the same for a socket, removed or not, and for every operation.
-/
import FipsTcp.Pair.Face

namespace FipsTcp

open Serial Stream SendWindow

namespace Connection

variable {P : Type} {config : Config} {nowMs : ℕ} {c c' : Connection P} {f : Face} {got : List U8}

variable {isn : U32} {acc delivered : List U8} {inp : Option Segment} {out : List Segment}

/-- what a connection shows when the bytes accepted are `acc` and the bytes received in order are `got` -/
def face (isn : U32) (acc : List U8) (c : Connection P) (got : List U8) : Face :=
  ⟨isn, acc, c.sender.nxtPos acc, c.state.phase.finSent, c.rcvPos got⟩

theorem face_ok (hacc : acc.length < 2 ^ 31 - 2 ^ 17) : (face isn acc c got).Ok := by
  refine ⟨?_, hacc⟩
  simp only [face, Sender.nxtPos, show c.sender.phase = c.state.phase from rfl]
  omega

structure SideInv (config : Config) (isn : U32) (f : Face) (acc delivered : List U8) (c : Connection P) : Prop where
  send : c.SendInv config isn acc
  recv : c.RecvInv config
  stream : c.state ≠ .synSent → c.StreamInv f (delivered ++ c.recvQueue)
  start : c.state = .synSent → delivered = []
  una : c.sender.unaPos acc ≤ f.rcv
  noAck : c.state = .synSent → ∀ x ∈ c.unacked, x.flags.contains .ACK = false

/-! ## What a side emits -/

/-- a segment that carries what was sent, with the current ACK number -/
theorem SideInv.built (hs : SideInv config isn f acc delivered c) {seq : U32} {flags : Flags} {payload : List U8}
    (hsent : Sent (face isn acc c (delivered ++ c.recvQueue)) ⟨seq, payload, flags.contains .SYN, flags.contains .FIN⟩)
    (hack : flags.contains .ACK = true → c.state ≠ .synSent) :
    SegOk (face isn acc c (delivered ++ c.recvQueue)) f.isn (buildSegment (c.header seq flags) payload) := by
  refine .inr ⟨hsent, ?_⟩
  cases hf : flags.contains .ACK with
  | false => exact .inl (by simp [buildSegment, header, hf])
  | true =>
    have hst := hack hf
    refine .inr ⟨_, le_rfl, ?_⟩
    simp only [buildSegment, header, hf, if_true, face, rcvPos, if_neg hst, (hs.stream hst).nxt]

theorem SideInv.tracked (hs : SideInv config isn f acc delivered c) {x : TrackedSegment} (hx : x ∈ c.unacked) :
    Sent (face isn acc c (delivered ++ c.recvQueue)) x.piece := by
  obtain ⟨q, -, hq, hat⟩ := hs.send.sender.chain.mem (List.mem_map_of_mem hx)
  have := hs.send.sender.total_le
  exact ⟨q, hat, hq.trans (by rw [Sender.unaPos]; simp only [face]; omega)⟩

theorem SideInv.ackSegment (hs : SideInv config isn f acc delivered c) (hst : c.state ≠ .synSent) :
    SegOk (face isn acc c (delivered ++ c.recvQueue)) f.isn c.ackSegment := by
  refine hs.built ⟨c.sender.nxtPos acc, ⟨hs.send.sender.nxt, ?_, fun _ => ⟨?_, Occurs.nil _ _⟩, ?_⟩, ?_⟩ fun _ => hst
  · simp
  · unfold Sender.nxtPos; omega
  · simp
  · simp [Piece.len, face]

theorem resetFor_rst (segment : Segment) : (resetFor segment).flags.contains .RST = true := by
  unfold resetFor
  cases segment.ack with
  | none => exact (by decide : (Flags.RST.union .ACK).contains .RST = true)
  | some ack => exact (by decide : Flags.RST.contains .RST = true)

/-- a data segment just sent -/
theorem SideInv.sentData {c0 : Connection P} {count : ℕ}
    (hs : SideInv config isn f acc delivered (c0.sendQueued count nowMs).1) (hst : c0.state ≠ .synSent) :
    SegOk (face isn acc (c0.sendQueued count nowMs).1 (delivered ++ (c0.sendQueued count nowMs).1.recvQueue)) f.isn
      (c0.sendQueued count nowMs).2 :=
  hs.built (hs.tracked (x := ⟨c0.sendNxt, Flags.ACK.union .PSH, c0.sendQueue.take count, nowMs, 1⟩)
    (List.mem_append_right _ (List.mem_singleton.2 rfl))) fun _ => hst

/-- **What a primitive emits** is a piece of the stream, with an ACK number that was received. -/
theorem Move.emits (h : Move config nowMs inp c out c') (h0 : SideInv config isn f acc delivered c)
    (hs : SideInv config isn f acc delivered c') :
    ∀ segment ∈ out, SegOk (face isn acc c' (delivered ++ c'.recvQueue)) f.isn segment := by
  cases h with
  | establishClient => exact fun _ h => nomatch h
  | establishServer => exact fun _ h => nomatch h
  | window => exact fun _ h => nomatch h
  | timers => exact fun _ h => nomatch h
  | advanceAck => exact fun _ h => nomatch h
  | requestClose => exact fun _ h => nomatch h
  | retransmit timeout =>
    rcases c.retransmitOldest_cases nowMs timeout with h | ⟨tracked, rest, transmissions, dups, hu, -, h⟩
    · rw [h]; exact fun _ h => nomatch h
    · rw [h] at hs ⊢
      intro segment hseg
      rw [Option.toList_some, List.mem_singleton] at hseg
      subst hseg
      refine hs.built (hs.tracked (x := { tracked with sentAtMs := nowMs, transmissions }) (List.mem_cons_self)) ?_
      intro hack hst
      have := h0.noAck hst tracked (by rw [hu]; exact List.mem_cons_self)
      rw [hack] at this; cases this
  | receive segment hin hst =>
    intro reply hseg
    obtain rfl := List.mem_singleton.1 hseg
    refine hs.ackSegment fun hsyn => ?_
    rw [synchronized_iff, ← (receiveStreamData_outgoing c segment nowMs config).2, hsyn] at hst
    exact hst rfl
  | sendData count hst =>
    intro segment hseg
    rw [List.mem_singleton] at hseg; subst hseg
    exact hs.sentData fun h => by rcases hst with hst | hst <;> rw [h] at hst <;> cases hst
  | sendFin hst =>
    intro segment hseg
    rw [List.mem_singleton] at hseg; subst hseg
    refine hs.built (hs.tracked (x := ⟨c.sendNxt, Flags.FIN.union .ACK, [], nowMs, 1⟩)
      (List.mem_append_right _ (List.mem_singleton.2 rfl))) fun _ => ?_
    rw [sendFin_state]; split_ifs <;> decide
  | probe hwin =>
    have hrun : ∀ x ∈ c.unacked, x.payload ≠ [] → c.state ≠ .synSent := fun x hx hp hst => by
      have hshape : c.state.phase.Shape (c.unacked.map TrackedSegment.piece) := h0.send.sender.shape
      rw [hst] at hshape
      obtain ⟨y, hy, hsyn⟩ := hshape
      have hmem : x.piece ∈ c.unacked.map TrackedSegment.piece := List.mem_map_of_mem hx
      rw [hy, List.mem_singleton] at hmem
      rw [← hmem] at hsyn
      exact hp hsyn.payload
    rcases c.zeroWindowProbe_cases nowMs with ⟨x, hx, hp, h⟩ | ⟨-, ⟨-, h⟩ | ⟨hq, h⟩⟩
    · rw [h] at hs ⊢
      intro segment hseg
      rw [Option.toList_some, List.mem_singleton] at hseg
      subst hseg
      refine hs.built ?_ fun _ => hrun x hx hp
      obtain ⟨p, hat, hle⟩ := hs.tracked (x := x) hx
      have hsyn : x.piece.syn = false := by
        by_contra hn
        exact hp (hat.syn (Bool.of_not_eq_false hn)).2.1
      have hback := hat.cutBack hsyn (k := 1) (f := false) (fun h => nomatch h)
      simp only [hsyn] at hback
      refine ⟨p, by simp only [data_flags]; exact hback, ?_⟩
      have := List.length_pos_of_ne_nil hp
      simp only [Piece.len, TrackedSegment.piece, data_flags, Bool.toNat_false, List.length_take] at hle ⊢
      omega
    · rw [h]; exact fun _ h => nomatch h
    · rw [h] at hs ⊢
      intro segment hseg
      rw [Option.toList_some, List.mem_singleton] at hseg
      subst hseg
      refine hs.sentData fun hst => hq ?_
      exact (h0.send.sender.idle (by simp [sender, hst, State.phase])).1
  | ack hst =>
    intro segment hseg
    rw [List.mem_singleton] at hseg; subst hseg
    exact hs.ackSegment hst
  | reset segment =>
    intro segment hseg
    rw [List.mem_singleton] at hseg; subst hseg
    exact .inl (resetFor_rst _)

/-! ## What a primitive does to a side -/

/-- a primitive leaves the receiving half alone, starts it at the peer's SYN, or receives a segment -/
theorem Move.recv_cases (h : Move config nowMs inp c out c') :
    c'.receiver = c.receiver ∧ (c'.state = .synSent ↔ c.state = .synSent) ∨
      (∃ segment, inp = some segment ∧ c.state = .synSent ∧ segment.flags.contains .SYN = true ∧
        segment.flags.contains .RST = false ∧ c' = c.establishClient segment nowMs config) ∨
      ∃ segment, inp = some segment ∧ c.Synchronized ∧ segment.flags.contains .RST = false ∧
        (segment.payload ≠ [] ∨ segment.flags.contains .FIN = true) ∧
        c' = (c.receiveStreamData segment nowMs config).1 := by
  cases h with
  | establishClient segment hin hst hsyn hrst => exact .inr (.inl ⟨segment, hin, hst, hsyn, hrst, rfl⟩)
  | establishServer segment hin hst =>
    obtain ⟨hr, -, -, hstate⟩ := c.establishServer_frame segment nowMs
    exact .inl ⟨hr, by rw [hstate, hst]; decide⟩
  | window segment =>
    obtain ⟨hr, -, -, hstate⟩ := c.updateRemoteWindow_frame segment.window nowMs
    exact .inl ⟨hr, by rw [hstate]⟩
  | timers => exact .inl ⟨rfl, Iff.rfl⟩
  | retransmit timeout =>
    obtain ⟨hr, -, -, hstate, -⟩ := c.retransmitOldest_frame nowMs timeout
    exact .inl ⟨hr, by rw [hstate]⟩
  | advanceAck c' segment ack hin hrst hseg hst hadv h =>
    have hst' := afterAck_synchronized config nowMs hst h
    exact .inl ⟨(afterAck_frame nowMs config h).1, iff_of_false hst'.1 hst.1⟩
  | receive segment hin hst hrst hdata => exact .inr (.inr ⟨segment, hin, hst, hrst, hdata, rfl⟩)
  | sendData => exact .inl ⟨rfl, Iff.rfl⟩
  | sendFin hst =>
    refine .inl ⟨rfl, iff_of_false ?_ ?_⟩
    · rw [sendFin_state]; split_ifs <;> decide
    · rcases hst with hst | hst <;> rw [hst] <;> decide
  | probe =>
    rcases c.zeroWindowProbe_cases nowMs with ⟨x, -, -, h⟩ | ⟨-, ⟨-, h⟩ | ⟨-, h⟩⟩ <;> rw [h] <;>
      exact .inl ⟨rfl, Iff.rfl⟩
  | ack => exact .inl ⟨rfl, Iff.rfl⟩
  | reset => exact .inl ⟨rfl, Iff.rfl⟩
  | requestClose => exact .inl ⟨rfl, Iff.rfl⟩

/-- only the ACK number of the segment at hand moves `send_una` -/
theorem Move.una_cases (h : Move config nowMs inp c out c') (hs : c.SendInv config isn acc) :
    c'.sendUna = c.sendUna ∨
      ∃ segment, inp = some segment ∧ segment.flags.contains .RST = false ∧ segment.ack = some c'.sendUna := by
  have hack : ∀ {ack : U32}, c'.sender = c.sender.ack ack → c'.sendUna = ack := fun h => congrArg Sender.una h
  cases h with
  | establishClient segment hin hst hsyn hrst h =>
    exact .inr ⟨segment, hin, hrst, by rw [hack (establishClient_sender hs.sender (by norm_num) hst _ _ _)]; exact h⟩
  | establishServer segment hin hst hrst h =>
    exact .inr ⟨segment, hin, hrst, by rw [hack (establishServer_sender hs.sender (by norm_num) hst _ _)]; exact h⟩
  | window segment => exact .inl (congrArg Sender.una (updateRemoteWindow_sender c segment.window nowMs))
  | timers => exact .inl rfl
  | retransmit timeout => exact .inl (congrArg Sender.una (retransmitOldest_sender c nowMs timeout))
  | advanceAck c' segment ack hin hrst hseg hst hadv h =>
    refine .inr ⟨segment, hin, hrst, ?_⟩
    rw [hack ((afterAck_sender hs.sender (by norm_num) hst hadv nowMs config).2 c' h)]; exact hseg
  | receive segment => exact .inl (congrArg Sender.una (receiveStreamData_sender c segment nowMs config))
  | sendData count => exact .inl rfl
  | sendFin => exact .inl rfl
  | probe =>
    rcases c.zeroWindowProbe_cases nowMs with ⟨x, -, -, h⟩ | ⟨-, ⟨-, h⟩ | ⟨-, h⟩⟩ <;> rw [h] <;> exact .inl rfl
  | ack => exact .inl rfl
  | reset => exact .inl rfl
  | requestClose => exact .inl rfl

/-- in SYN-SENT only the SYN is in flight, without an ACK -/
theorem Move.noAck (h : Move config nowMs inp c out c') (hs : c.SendInv config isn acc)
    (h0 : c.state = .synSent → ∀ x ∈ c.unacked, x.flags.contains .ACK = false) :
    c'.state = .synSent → ∀ x ∈ c'.unacked, x.flags.contains .ACK = false := by
  cases h with
  | establishClient segment =>
    rw [(c.establishClient_frame segment nowMs config).2.2.2]; exact fun h => nomatch h
  | establishServer segment =>
    rw [(c.establishServer_frame segment nowMs).2.2.2]; exact fun h => nomatch h
  | window segment hin hst =>
    rw [(c.updateRemoteWindow_frame segment.window nowMs).2.2.2]; exact fun h => absurd h hst.1
  | timers => exact h0
  | retransmit timeout =>
    rcases c.retransmitOldest_cases nowMs timeout with h | ⟨tracked, rest, transmissions, dups, hu, -, h⟩ <;> rw [h]
    · exact h0
    · intro hst x hx
      rcases List.mem_cons.1 hx with rfl | hx
      · exact h0 hst tracked (by rw [hu]; exact List.mem_cons_self)
      · exact h0 hst x (by rw [hu]; exact List.mem_cons_of_mem _ hx)
  | advanceAck c' segment ack hin hrst hseg hst hadv h =>
    exact fun h' => absurd h' (afterAck_synchronized config nowMs hst h).1
  | receive segment hin hst =>
    intro h'
    rw [synchronized_iff, ← (receiveStreamData_outgoing c segment nowMs config).2, h'] at hst
    exact absurd rfl hst
  | sendData count hst => exact fun h' => by rcases hst with hst | hst <;> cases hst.symm.trans h'
  | sendFin hst => rw [sendFin_state]; split_ifs <;> exact fun h => nomatch h
  | probe =>
    rcases c.zeroWindowProbe_cases nowMs with ⟨x, -, -, h⟩ | ⟨-, ⟨-, h⟩ | ⟨hq, h⟩⟩ <;> rw [h]
    · exact h0
    · exact h0
    · intro h'
      have hidle := hs.sender.idle (by simp only [sender, show c.state = .synSent from h']; decide)
      exact absurd hidle.1 hq
  | ack => exact h0
  | reset => exact h0
  | requestClose => exact h0

/-- positions acknowledged and sent lie below 2^31 -/
theorem unaPos_le (c : Connection P) (acc : List U8) : c.sender.unaPos acc ≤ acc.length + 2 := by
  have h : c.sender.phase.finSent.toNat ≤ 1 := by cases c.sender.phase.finSent <;> simp
  unfold Sender.unaPos Sender.nxtPos; omega

/-- **What counts as acknowledged was received**, through one primitive. -/
theorem Move.una_le (h : Move config nowMs inp c out c') (hacc : acc.length < 2 ^ 31 - 2 ^ 17) (hrcv : f.rcv < 2 ^ 31)
    (hin : ∀ segment, inp = some segment → SegOk f isn segment) (hs : c.SendInv config isn acc)
    (hu : c.sender.unaPos acc ≤ f.rcv) : c'.sender.unaPos acc ≤ f.rcv := by
  have h1 := c.unaPos_le acc
  have h2 := c'.unaPos_le acc
  have huna : c'.sendUna = pos isn (c'.sender.unaPos acc) := (h.sendInv hs).sender.una
  rcases h.una_cases hs with he | ⟨segment, hinp, hrst, hseg⟩
  · have huna0 : c.sendUna = pos isn (c.sender.unaPos acc) := hs.sender.una
    rw [he, huna0, pos_inj isn (by omega) (by omega)] at huna
    omega
  · rcases hin segment hinp with hr | ⟨-, hno | ⟨q, hq, hack⟩⟩
    · rw [hrst] at hr; cases hr
    · rw [hseg] at hno; cases hno
    · rw [hseg, Option.some.injEq, huna, pos_inj isn (by omega) (by omega)] at hack
      omega

/-- **The receiving half through one primitive.** -/
theorem Move.stream (h : Move config nowMs inp c out c') (hf : f.Ok)
    (hin : ∀ segment, inp = some segment → SegOk f isn segment) (hs : SideInv config isn f acc delivered c) :
    (c'.state ≠ .synSent → c'.StreamInv f (delivered ++ c'.recvQueue)) ∧ (c'.state = .synSent → c.state = .synSent) ∧
      c.rcvPos (delivered ++ c.recvQueue) ≤ c'.rcvPos (delivered ++ c'.recvQueue) := by
  rcases h.recv_cases with ⟨hr, hst⟩ | ⟨segment, hinp, hst, hsyn, hrst, rfl⟩ | ⟨segment, hinp, hst, hrst, hdata, rfl⟩
  · have hr' := hr
    simp only [receiver, Receiver.mk.injEq] at hr'
    obtain ⟨-, h2, -, h4⟩ := hr'
    rw [h2]
    refine ⟨fun h' => (hs.stream fun h => h' (hst.2 h)).of_receiver hr, hst.1, ?_⟩
    simp only [rcvPos, hst, h4]; exact le_rfl
  · obtain ⟨hr, -, -, hstate⟩ := c.establishClient_frame segment nowMs config
    obtain ⟨hq, hre, hrc⟩ := hs.recv.fresh hst
    simp only [receiver, Receiver.mk.injEq] at hr
    obtain ⟨h1, h2, h3, h4⟩ := hr
    rw [h2, hq, hs.start hst]
    refine ⟨fun _ => ⟨?_, List.nil_prefix, fun h => ?_, fun x hx => ?_⟩, fun h => ?_, ?_⟩
    · -- the SYN of the peer stands at position 0
      rcases hin segment hinp with hr | ⟨⟨p, hat, -⟩, -⟩
      · rw [hrst] at hr; cases hr
      · have hseq : segment.seq = pos f.isn p := hat.seq
        rw [h1, hseq, (hat.syn hsyn).1, h4, hrc, pos_zero]; rfl
    · rw [h4, hrc] at h; cases h
    · rw [h3, hre] at hx; cases hx
    · rw [hstate] at h; cases h
    · rw [rcvPos, if_pos hst]; exact Nat.zero_le _
  · have hseg : Sent f segment.piece := by
      rcases hin segment hinp with hr | ⟨hseg, -⟩
      · rw [hrst] at hr; cases hr
      · exact hseg
    obtain ⟨h1, ⟨t, ht⟩, h3⟩ := (hs.stream hst.1).receive nowMs hf hs.recv hst hseg hdata
    have hst' : (c.receiveStreamData segment nowMs config).1.state ≠ .synSent := fun h => by
      rw [synchronized_iff, ← (receiveStreamData_outgoing c segment nowMs config).2, h] at hst
      exact hst rfl
    refine ⟨fun _ => h1, fun h => absurd h hst', ?_⟩
    rw [rcvPos, rcvPos, if_neg hst', if_neg hst.1, ← ht]
    have hclosed : c.readClosed.toNat ≤ (c.receiveStreamData segment nowMs config).1.readClosed.toNat := by
      cases hrc : c.readClosed with
      | false => exact Nat.zero_le _
      | true => rw [h3 hrc]
    simp only [List.length_append]; omega

/-- **Preservation, one primitive.** -/
theorem Move.side (hv : config.Valid) (hf : f.Ok) (hrcv : f.rcv < 2 ^ 31) (hacc : acc.length < 2 ^ 31 - 2 ^ 17)
    (h : Move config nowMs inp c out c') (hin : ∀ segment, inp = some segment → SegOk f isn segment)
    (hs : SideInv config isn f acc delivered c) :
    SideInv config isn f acc delivered c' ∧
      (face isn acc c (delivered ++ c.recvQueue)).Le (face isn acc c' (delivered ++ c'.recvQueue)) := by
  obtain ⟨h1, h2, h3⟩ := h.stream hf hin hs
  obtain ⟨hnxt, hfin⟩ := (h.sender_step hs.send).mono hs.send.sender
  exact ⟨⟨h.sendInv hs.send, h.recvInv hv hs.recv, h1, fun hst => hs.start (h2 hst),
    h.una_le hacc hrcv hin hs.send hs.una, h.noAck hs.send hs.noAck⟩,
    ⟨rfl, List.prefix_refl _, hnxt, fun hf => ⟨hfin hf, rfl⟩, h3⟩⟩

/-- **Preservation, a whole operation.** -/
theorem SideInv.moves (hv : config.Valid) (hf : f.Ok) (hrcv : f.rcv < 2 ^ 31) (hacc : acc.length < 2 ^ 31 - 2 ^ 17)
    (h : Moves config nowMs inp c out c') (hin : ∀ segment, inp = some segment → SegOk f isn segment)
    (hs : SideInv config isn f acc delivered c) :
    SideInv config isn f acc delivered c' ∧
      (face isn acc c (delivered ++ c.recvQueue)).Le (face isn acc c' (delivered ++ c'.recvQueue)) ∧
      ∀ segment ∈ out, SegOk (face isn acc c' (delivered ++ c'.recvQueue)) f.isn segment := by
  induction h with
  | refl c => exact ⟨hs, Face.Le.refl _, fun _ h => nomatch h⟩
  | cons hm _ ih =>
    obtain ⟨hs1, hle1⟩ := hm.side hv hf hrcv hacc hin hs
    obtain ⟨hs2, hle2, hout⟩ := ih hs1
    refine ⟨hs2, hle1.trans hle2, fun segment hseg => ?_⟩
    rcases List.mem_append.1 hseg with hseg | hseg
    · exact (hm.emits hs hs1 segment hseg).mono (face_ok hacc) hle2
    · exact hout segment hseg

theorem SideInv.mono {f' : Face} (hf : f.Ok) (hle : f.Le f') (hs : SideInv config isn f acc delivered c) :
    SideInv config isn f' acc delivered c :=
  { hs with stream := fun h => (hs.stream h).mono hf hle, una := hs.una.trans hle.rcv }

/-- accepting bytes shows more to the peer -/
theorem SideInv.accept (hs : SideInv config isn f acc delivered c) (hst : c.Sending) (bytes : List U8)
    (hroom : bytes.length ≤ config.sendBuffer - c.buffered) :
    SideInv config isn f (acc ++ bytes) delivered (c.acceptBytes bytes) ∧
      (face isn acc c (delivered ++ c.recvQueue)).Le (face isn (acc ++ bytes) (c.acceptBytes bytes) (delivered ++ c.recvQueue)) := by
  obtain ⟨hnxt, huna⟩ := hs.send.sender.pos_accept bytes
  have hsend : (c.acceptBytes bytes).sender = c.sender.accept bytes := rfl
  have hrun := hst.phase
  refine ⟨⟨hs.send.accept hst hroom, hs.recv.of_frame rfl rfl id rfl, fun h => (hs.stream h).of_receiver rfl, hs.start,
    ?_, hs.noAck⟩, ⟨rfl, List.prefix_append _ _, ?_, fun hf => ?_, le_rfl⟩⟩
  · rw [hsend, huna]; exact hs.una
  · simp only [face, hsend, hnxt]; exact le_rfl
  · simp only [face, show c.state.phase = .running from hrun] at hf; cases hf

/-- reading moves bytes from the queue to the application -/
theorem SideInv.consume (hs : SideInv config isn f acc delivered c) (count : ℕ) :
    SideInv config isn f acc (delivered ++ c.recvQueue.take count) (c.consume count) := by
  have hall : delivered ++ c.recvQueue.take count ++ (c.consume count).recvQueue = delivered ++ c.recvQueue := by
    rw [List.append_assoc]; congr 1; exact List.take_append_drop count c.recvQueue
  refine ⟨⟨hs.send.sender, hs.send.window, hs.send.mss, hs.send.buffer⟩, hs.recv.consume count, fun h => ?_, fun h => ?_,
    hs.una, hs.noAck⟩
  · rw [hall]
    have hst := hs.stream h
    exact ⟨hst.nxt, hst.isPrefix, hst.closed, hst.chunks⟩
  · rw [hs.start h, (hs.recv.fresh h).1]; simp

end Connection

end FipsTcp
