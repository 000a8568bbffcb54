/-
Nothing that was accepted is stranded.

The network may have lost and reordered segments as it liked. From the state it left, deliveries of what was emitted and reads of the
application are enough to bring a direction to its end, at any one time of the clock: no timer is needed.
- `input_head`: a segment with something at `recv_nxt` moves the receiver on;
- `input_all_acked`: an ACK of everything that opens the window makes the sender send more, unless there is no more;
- `Underway.deliver`, `Underway.prompt`: the two rounds of the schedule, by which a state comes closer to the end;
- `stream_completes`: hence all of a stream can still be delivered, and its end. The one condition is that the receiver's list of
  out-of-order chunks has a free place.
-/
import FipsTcp.Pair.Civil
import FipsTcp.Pair.Coverage
import FipsTcp.Pair.Deadlock
import FipsTcp.Connection.Advertised
import FipsTcp.Connection.Flow
import FipsTcp.Connection.HeadOfLine
import FipsTcp.Connection.Lifecycle
import FipsTcp.Connection.Reassembly
import FipsTcp.Stack.Reopen

namespace FipsTcp

open Serial Stream SendWindow

namespace Connection

variable {P : Type} {config : Config} {nowMs : ℕ} {c c' : Connection P} {segment : Segment} {isn : U32} {acc : List U8}

/-! ## The receiver -/

theorem receivedChunk_eq (hr : c'.receiver = c.receiver) (hs : c'.stable = c.stable) (seq : U32) (payload : List U8) (fin : Bool) :
    c'.receivedChunk seq payload fin = c.receivedChunk seq payload fin := by
  have hnxt : c'.recvNxt = c.recvNxt := congrArg Receiver.recvNxt hr
  simp only [receivedChunk, availableWindow_eq hr hs, hnxt]

/-- a chunk at `recv_nxt` leaves the list again -/
theorem RecvInv.receive_head_length (nowMs : ℕ) (hv : config.Valid) (hi : c.RecvInv config) (hst : c.Synchronized)
    {chunk : ReassemblySegment}
    (h : c.receivedChunk segment.seq segment.payload (segment.flags.contains .FIN) = some chunk)
    (hseq : chunk.seq = c.recvNxt) (hlen : c.reassembly.length < config.maxReassemblySegments) :
    (c.receiveStreamData segment nowMs config).1.reassembly.length ≤ c.reassembly.length := by
  obtain ⟨r, m, hr0, hd⟩ := hi.receive_head nowMs hv hst h hseq hlen
  have hahead := (hi.receive segment nowMs hv hst).ahead
  have hsub := drainReassembly_sublist nowMs (hi.drained hst segment.seq segment.payload (segment.flags.contains .FIN)).fits
  rw [(hi.insert_head h hseq).2, if_pos hlen] at hsub
  have hreas : (c.receiveStreamData segment nowMs config).1.reassembly.Sublist (c.reassembly ++ [chunk]) := by
    simp only [receiveStreamData, (hi.insert_head h hseq).2, if_pos hlen]
    exact hsub
  have hle := hreas.length_le
  rw [List.length_append, List.length_singleton] at hle
  by_contra hlong
  -- all chunks are left, among them one that lies behind `recv_nxt`
  have hall := hreas.eq_of_length (by rw [List.length_append, List.length_singleton]; omega)
  have hchunk := hahead chunk (by rw [hall]; exact List.mem_append_right _ (List.mem_singleton.2 rfl))
  have hwithin := hchunk.within
  have hbuf := hv.receive_le
  have hle' := hd.le
  rw [hd.nxt, hseq] at hwithin
  have hne : pos c.recvNxt r ≠ pos c.recvNxt 0 := fun he => by
    rw [pos_inj c.recvNxt (by omega) (by omega)] at he
    omega
  have hsum := dist_comm_of_ne hne
  rw [dist_pos c.recvNxt (Nat.zero_le r) (by omega), pos_zero] at hsum
  rw [distance_eq_dist] at hwithin
  omega

/-- **The segment at `recv_nxt`.** It moves the receiver on, and does not end the connection. -/
theorem input_head (nowMs : ℕ) (hv : config.Valid) (hm : 0 < c.mss) (hi : c.RecvInv config) (hst : c.Synchronized)
    (hopen : c.readClosed = false) (hrst : segment.flags.contains .RST = false) (hsyn : segment.flags.contains .SYN = false)
    (hdata : segment.payload ≠ [] ∨ segment.flags.contains .FIN = true) {chunk : ReassemblySegment}
    (h : c.receivedChunk segment.seq segment.payload (segment.flags.contains .FIN) = some chunk) (hseq : chunk.seq = c.recvNxt)
    (hlen : c.reassembly.length < config.maxReassemblySegments) :
    (c.input segment nowMs config).2.closed = false ∧
      (∃ r, 0 < r ∧ r ≤ config.receiveBuffer + 1 ∧ (c.input segment nowMs config).1.recvNxt = pos c.recvNxt r) ∧
      (c.input segment nowMs config).1.reassembly.length ≤ c.reassembly.length := by
  have hnot := onSynchronized_open nowMs hi hm hst hrst hopen
  rw [input_synchronized hst hrst hsyn nowMs config]
  obtain ⟨c1, out, hmoves, hst1, hrec, hstab, hres⟩ := onSynchronized_receiver config nowMs hst hrst hnot
  have hi1 : c1.RecvInv config := hmoves.preserves (fun h hi => h.recvInv hv hi) hi
  rw [receiveIfData, if_pos hdata] at hres
  have hchunk := (receivedChunk_eq hrec hstab segment.seq segment.payload (segment.flags.contains .FIN)).trans h
  simp only [receiver, Receiver.mk.injEq] at hrec hres
  obtain ⟨hn, -, hre, -⟩ := hrec
  obtain ⟨hn', -, hre', -⟩ := hres
  rw [← hre] at hlen
  obtain ⟨r, m, hr0, hd⟩ := hi1.receive_head nowMs hv hst1 hchunk (hseq.trans hn.symm) hlen
  refine ⟨hnot, ⟨r, hr0, hd.le, ?_⟩, ?_⟩
  · rw [hn', hd.nxt, hn]
  · rw [hre', ← hre]
    exact hi1.receive_head_length nowMs hv hst1 hchunk (hseq.trans hn.symm) hlen

/-- the window of a connection whose queue was read has room -/
theorem RecvInv.window_pos (hv : config.Valid) (hi : c.RecvInv config) (hn : Nested c.recvNxt (c.room config) c.reassembly)
    (hq : c.recvQueue = []) : 0 < c.availableWindow := by
  cases hre : c.reassembly with
  | nil =>
    have hpos := hv.receive_pos
    rw [availableWindow, hi.capacity, hq, hre]
    exact hpos
  | cons x l =>
    obtain ⟨y, hy⟩ := exists_earliest c.recvNxt (l := c.reassembly) (by rw [hre]; exact List.cons_ne_nil x l)
    exact lt_of_lt_of_le (hi.ahead y hy.1).pos (hi.earliest_le hn hy)

/-- a piece that reaches past `recv_nxt` has something there -/
theorem receivedChunk_at {f : U32} {q rcv : ℕ} (hnxt : c.recvNxt = pos f rcv) (hseq : segment.seq = pos f q) (hq : q ≤ rcv)
    (hlt : rcv < q + (segment.payload.length + (segment.flags.contains .FIN).toNat)) (hsmall : rcv < 2 ^ 31)
    (hwin : 0 < c.availableWindow) :
    ∃ chunk, c.receivedChunk segment.seq segment.payload (segment.flags.contains .FIN) = some chunk ∧ chunk.seq = c.recvNxt := by
  have hb : beforeOrEqual segment.seq c.recvNxt := by
    rw [hseq, hnxt]
    exact (beforeOrEqual_pos (by omega) (by omega)).2 hq
  have hd : distance segment.seq c.recvNxt = rcv - q := by
    rw [hseq, hnxt]
    exact distance_pos hq (by omega)
  rw [receivedChunk_head hb, hd]
  simp only
  rw [if_neg]
  · exact ⟨_, rfl, rfl⟩
  · rintro ⟨hpay, hfin⟩
    have hlen := congrArg List.length hpay
    rw [List.length_take, List.length_drop, List.length_nil] at hlen
    have hnone : segment.payload.length - (rcv - q) = 0 := by omega
    cases hf : segment.flags.contains .FIN with
    | false =>
      rw [hf, Bool.toNat_false] at hlt
      omega
    | true =>
      rw [hf, Bool.toNat_true] at hlt
      rw [hf, Bool.true_and, decide_eq_false_iff_not, List.length_drop] at hfin
      exact hfin ⟨by omega, by omega⟩

/-! ## The handshake -/

/-- the SYN-ACK completes the handshake of a client -/
theorem input_synAck (config : Config) (nowMs : ℕ) (hst : c.state = .synSent) (hok : c.unacceptableAck segment = false)
    (hflags : segment.flags = Flags.SYN.union .ACK) (hack : segment.ack = some c.sendNxt)
    (hversion : segment.supportsFipsVersion FIPS_VERSION = true) :
    c.input segment nowMs config =
      (c.establishClient segment nowMs config, .open [(c.establishClient segment nowMs config).ackSegment]) := by
  have hsyn : c.unexpectedSyn segment = false := by simp [unexpectedSyn, hst]
  have hrst : segment.flags.contains .RST = false := by rw [hflags]; decide
  have hcomplete : segment.flags.contains .SYN = true ∧ segment.flags.contains .ACK = true ∧ segment.ack = some c.sendNxt ∧
      segment.supportsFipsVersion FIPS_VERSION = true := ⟨by rw [hflags]; decide, by rw [hflags]; decide, hack, hversion⟩
  unfold input
  rw [if_neg (by rw [hok]; exact Bool.false_ne_true), if_neg (by rw [hsyn]; exact Bool.false_ne_true)]
  unfold onSegment
  rw [if_neg (by rw [hrst]; exact Bool.false_ne_true), hst]
  simp only [onSynSent, if_pos hcomplete]

/-- the ACK of the SYN-ACK completes the handshake of a server -/
theorem input_synAcked (config : Config) (nowMs : ℕ) (hm : 0 < c.mss) (hst : c.state = .synReceived) (hflags : segment.flags = .ACK)
    (hpay : segment.payload = []) (hack : segment.ack = some c.sendNxt) :
    (c.input segment nowMs config).2.closed = false ∧ (c.input segment nowMs config).1.receiver = c.receiver ∧
      (c.input segment nowMs config).1.Synchronized := by
  have hok : c.unacceptableAck segment = false := by simp [unacceptableAck, hst]
  have hrst : segment.flags.contains .RST = false := by rw [hflags]; decide
  have hsyn : segment.flags.contains .SYN = false := by rw [hflags]; decide
  have hfin : segment.flags.contains .FIN = false := by rw [hflags]; decide
  have hunexpected : c.unexpectedSyn segment = false := by simp [unexpectedSyn, hsyn]
  have hdata : ¬ (segment.payload ≠ [] ∨ segment.flags.contains .FIN = true) := by rw [hpay, hfin]; simp
  have hinput : c.input segment nowMs config = (((c.establishServer segment nowMs).flushData nowMs).1,
      ⟨((c.establishServer segment nowMs).flushData nowMs).2, true, false⟩) := by
    unfold input
    rw [if_neg (by rw [hok]; exact Bool.false_ne_true), if_neg (by rw [hunexpected]; exact Bool.false_ne_true)]
    unfold onSegment
    rw [if_neg (by rw [hrst]; exact Bool.false_ne_true), hst]
    simp only [onSynReceived, hsyn, Bool.false_eq_true, false_and, if_false, hack, ne_eq, not_true_eq_false, receiveIfData, if_neg hdata,
      List.nil_append]
  obtain ⟨hr, -, hmss, hstate⟩ := c.establishServer_frame segment nowMs
  have hflush := flushData_moves config nowMs none (c := c.establishServer segment nowMs) (by rw [hmss]; exact hm)
  rw [hinput]
  refine ⟨rfl, (hflush.receiver_eq_empty fun _ hx => absurd hx (by simp)).trans hr, hflush.later.synchronized ?_⟩
  simp [Synchronized, hstate]

/-! ## The sender -/

/-- a second SYN is answered with the current ACK -/
theorem input_syn (config : Config) (nowMs : ℕ) (hst : c.Synchronized) (hsyn : segment.flags.contains .SYN = true) (hrst : segment.flags.contains .RST = false) :
    c.input segment nowMs config = (c, .open [c.ackSegment]) := by
  have h1 : c.unacceptableAck segment = false := by simp [unacceptableAck, hst.1]
  have h2 : c.unexpectedSyn segment = true := by simp [unexpectedSyn, hst.1, hst.2, hsyn, hrst]
  unfold input
  rw [if_neg (by rw [h1]; exact Bool.false_ne_true), if_pos h2]

theorem windowOf_open {ack : U32} (hin : inClosedInterval ack c.sendUna c.sendNxt) (hwin : segment.window ≠ 0) :
    0 < (c.windowOf segment ack nowMs).remoteWindow := by
  rw [windowOf, if_pos hin, updateRemoteWindow, if_neg hwin]
  exact Nat.pos_of_ne_zero fun h => hwin (BitVec.eq_of_toNat_eq h)

/-- the ACK part, for an ACK of everything sent that opens the window -/
theorem processAck_all (hs : c.SendInv config isn acc) (hst : c.Sending) (hwin : segment.window ≠ 0) {c1 : Connection P} {closed : Bool}
    {out : List Segment} (h : c.processAck segment c.sendNxt nowMs config = (c1, closed, out)) :
    c1.sendUna = c.sendNxt ∧ 0 < c1.remoteWindow := by
  have hself : ∀ a : U32, ¬ after a a ∧ ¬ before a a := fun a => ⟨not_lt_self a, not_lt_self a⟩
  have hsync : c.Synchronized := by rcases hst with hst | hst <;> simp [Synchronized, hst]
  have hin : inClosedInterval c.sendNxt c.sendUna c.sendNxt := by
    refine ⟨fun hbefore => ?_, (hself _).1⟩
    have hroom : total (c.unacked.map TrackedSegment.piece) ≤ 65535 := hs.sender.room
    have hnxt : c.sendNxt = pos c.sendUna (total (c.unacked.map TrackedSegment.piece)) := hs.sender.nxt_eq_add
    rw [hnxt] at hbefore
    conv at hbefore => rhs; rw [← pos_zero c.sendUna]
    exact Nat.not_lt_zero _ ((before_pos (by omega) (by omega)).1 hbefore)
  rcases c.ack_cases c.sendNxt with hout | ⟨hno, hsame⟩ | hadv
  · exact absurd hout (not_or.2 ⟨hin.2, hin.1⟩)
  · -- nothing was in flight
    rw [processAck_repeated config nowMs segment hno hsame] at h
    obtain ⟨rfl, -, -⟩ := h
    have hsend := repeatAck_sender (c := c) nowMs (isDuplicateAckCandidate segment c.sendUna c.remoteWindow)
    have huna := congrArg Sender.una hsend
    have hnxt := congrArg Sender.nxt hsend
    refine ⟨?_, windowOf_open ?_ hwin⟩
    · rw [windowOf_una]
      exact huna.trans hsame.symm
    · have huna' : (c.repeatAck nowMs (isDuplicateAckCandidate segment c.sendUna c.remoteWindow)).1.sendUna = c.sendUna := huna
      have hnxt' : (c.repeatAck nowMs (isDuplicateAckCandidate segment c.sendUna c.remoteWindow)).1.sendNxt = c.sendNxt := hnxt
      rw [huna', hnxt']
      exact hin
  · obtain ⟨hnone, hsome⟩ := afterAck_sender hs.sender (by norm_num) hsync hadv nowMs config
    cases hc2 : c.afterAck c.sendNxt nowMs config with
    | none =>
      have hlast := (hnone.1 hc2).1
      rcases hst with hst | hst <;> rw [hst] at hlast <;> cases hlast
    | some c2 =>
      rw [processAck_advanced config nowMs segment hadv hc2] at h
      obtain ⟨rfl, -, -⟩ := h
      have huna := afterAck_una config nowMs hc2
      have hnxt : c2.sendNxt = c.sendNxt := congrArg Sender.nxt (hsome c2 hc2)
      refine ⟨?_, ?_⟩
      · have hrepair := congrArg Sender.una (repairTimedOutFlight_sender (c := c2.windowOf segment c.sendNxt nowMs) nowMs config)
        exact hrepair.trans ((windowOf_una nowMs segment c.sendNxt).trans huna)
      · rw [Moves.window_eq (repairTimedOutFlight_moves config nowMs none).1]
        refine windowOf_open ?_ hwin
        rw [huna, hnxt]
        exact ⟨(hself _).2, (hself _).1⟩

/-- the FIN was sent, or will be -/
def Ending (c : Connection P) : Prop := c.closeRequested = true ∨ c.state.phase.finSent = true

theorem Move.ending {inp : Option Segment} {out : List Segment} (h : Move config nowMs inp c out c') (hs : c.SendInv config isn acc)
    (he : c.Ending) : c'.Ending := by
  have hstep := h.sender_step hs
  have hfin := (hstep.mono hs.sender).2
  change c'.sender.closeWanted = true ∨ c'.sender.phase.finSent = true
  rcases he with he | he
  · change c.sender.closeWanted = true at he
    generalize c.sender = s, c'.sender = s' at hstep he
    cases hstep with
    | idle => exact .inl he
    | ack => exact .inl he
    | push => exact .inl he
    | pushFin => exact .inr rfl
    | wantClose => exact .inl rfl
  · exact .inr (hfin he)

/-- **The ACK of everything.** When it opens the window, a sender that has more to send sends it. -/
theorem input_all_acked (nowMs : ℕ) (hv : config.Valid) (hs : c.SendInv config isn acc) (hsteady : c.Steady config) (hst : c.Sending)
    (hflags : segment.flags = .ACK) (hpay : segment.payload = []) (hack : segment.ack = some c.sendNxt) (hwin : segment.window ≠ 0)
    (hmore : ¬ (c.sendQueue = [] ∧ c.closeRequested = false)) :
    (c.input segment nowMs config).2.closed = false ∧ (c.input segment nowMs config).1.receiver = c.receiver ∧
      c.sender.nxtPos acc < (c.input segment nowMs config).1.sender.nxtPos acc := by
  have hsync : c.Synchronized := by rcases hst with hst | hst <;> simp [Synchronized, hst]
  have hrst : segment.flags.contains .RST = false := by rw [hflags]; decide
  have hsyn : segment.flags.contains .SYN = false := by rw [hflags]; decide
  have hfin : segment.flags.contains .FIN = false := by rw [hflags]; decide
  have hinput : c.input segment nowMs config = c.onSynchronized segment nowMs config := input_synchronized hsync hrst hsyn nowMs config
  obtain ⟨hmoves, hclosed⟩ := input_moves config nowMs (c := c) segment hsteady.mss
  have hopen : (c.input segment nowMs config).2.closed = false := by
    by_contra hc
    have hrem := (hclosed (Bool.of_not_eq_false hc)).2
    generalize (c.input segment nowMs config).1 = c' at hrem
    cases hrem with
    | reset hyes =>
      rw [hrst] at hyes
      cases hyes
    | lastAck c' hl =>
      have hlast := hl.state
      rcases hst with hst | hst <;> rw [hst] at hlast <;> cases hlast
  have hsteady' := hsteady.input hv segment nowMs hopen
  have hs' := hs.moves (hmoves hopen)
  have hle := ((hmoves hopen).positions hs).1
  refine ⟨hopen, (hmoves hopen).receiver_eq_empty fun x hx => ?_, ?_⟩
  · cases hx
    simp [Segment.occupies, hpay, hsyn, hfin]
  obtain ⟨c1, out, hp, -, hmss, heq⟩ := onSynchronized_processed config nowMs hsync hrst (hinput ▸ hopen)
  rw [← hinput] at heq
  have hdata : c1.receiveIfData segment nowMs config = (c1, []) := by
    rw [receiveIfData, if_neg]
    rw [hpay, hfin]
    simp
  rw [hdata] at heq
  obtain ⟨huna, hremote⟩ : c1.sendUna = c.sendNxt ∧ 0 < c1.remoteWindow := by
    rcases hp with ⟨hnone, -⟩ | ⟨ack, hack', hp⟩
    · rw [hack] at hnone
      cases hnone
    · obtain rfl := Option.some.inj (hack.symm.trans hack')
      exact processAck_all hs hst hwin hp
  have hflush : (c.input segment nowMs config).1 = (c1.flushData nowMs).1 := congrArg Prod.fst heq
  have hwindow : c1.remoteWindow ≤ 65535 := by
    have hend := hs'.window
    rw [hflush, Moves.window_eq (flushData_moves config nowMs none (by rw [hmss]; exact hsteady.mss))] at hend
    exact hend
  have hsame := (flushData_within (c := c1) nowMs (by rw [hmss]; exact hsteady.mss) hwindow).1
  rw [← hflush] at hsame
  have hending : c.Ending → (c.input segment nowMs config).1.Ending := fun he =>
    ((hmoves hopen).preserves (Q := fun c => c.SendInv config isn acc ∧ c.Ending) (fun hm hc => ⟨hm.sendInv hc.1, hm.ending hc.1 hc.2⟩)
      ⟨hs, he⟩).2
  generalize (c.input segment nowMs config).1 = c' at hsteady' hs' hle hsame hending ⊢
  refine lt_of_le_of_ne hle fun heq => ?_
  -- nothing new was sent, so nothing is in flight, and the windows are open
  have hnxt : c'.sendNxt = c.sendNxt := hs'.sender.nxt.trans (heq ▸ hs.sender.nxt.symm)
  have hallow : c'.sendAllowance ≠ 0 := by
    have hreno := Reno.window_pos hsteady'.timed.reno
    have hremote' : 0 < c'.remoteWindow := hsame.remote ▸ hremote
    rw [sendAllowance, hsame.una, huna, hnxt, distance_self]
    omega
  have hdone : c'.sendQueue = [] ∧ c'.closeRequested = false := by
    by_cases hrun : c'.Sending
    · exact (hsteady'.settled hrun).resolve_left hallow
    · exact hs'.sender.idle fun hp => hrun (sending_iff.2 hp)
  -- so what was left has been sent after all
  have hphase : c.sender.phase.finSent = false := by rw [hst.phase]; rfl
  have hq := hs.sender.queue_le
  rw [Sender.nxtPos, Sender.nxtPos, hphase, show c'.sender.queue = [] from hdone.1] at heq
  simp only [List.length_nil, Nat.sub_zero, Bool.toNat_false] at heq
  have hnone : c.sender.queue.length = 0 := by omega
  have hclose : c.closeRequested = true := by
    by_contra hno
    exact hmore ⟨List.length_eq_zero_iff.1 hnone, Bool.of_not_eq_true hno⟩
  rcases hending (.inl hclose) with hc | hf
  · rw [hdone.2] at hc
    cases hc
  · rw [show c'.sender.phase.finSent = true from hf, Bool.toNat_true] at heq
    omega

end Connection

namespace Socket

open Connection

variable {P : Type} {config : Config} {isn : U32} {s : Socket P}

theorem ending_step (hs : s.conn.SendInv config isn s.accepted) (op : SocketOp) (hr : (s.step config op).retained = true)
    (he : s.conn.Ending) : (s.step config op).conn.Ending := by
  obtain ⟨c, out, hprep, -, hmoves⟩ := step_moves hs.mss (retained_before hr) op hr
  have hready : c.SendInv config isn (s.step config op).accepted ∧ c.Ending := by
    generalize (s.step config op).accepted = acc at hprep
    cases hprep with
    | none => exact ⟨hs, he⟩
    | accept bytes hst hclose hroom => exact ⟨hs.accept hst hroom, he⟩
    | consume count => exact ⟨⟨hs.sender, hs.window, hs.mss, hs.buffer⟩, he⟩
  exact (hmoves.preserves (Q := fun c => c.SendInv config isn (s.step config op).accepted ∧ c.Ending)
    (fun hm hc => ⟨hm.sendInv hc.1, hm.ending hc.1 hc.2⟩) hready).2

end Socket

/-! ## The pair -/

namespace Pair

open Connection

variable {P : Type} {h : Handshake P} {p q r : Pair P} {side : Side} {acc : List U8} {ending : Bool} {nowMs : ℕ}

/-- the history of a side is one of its socket -/
theorem socket_run (h : Handshake P) (ops : List PairOp) (side : Side) :
    ∃ more, run h ops side = Socket.run (h.config side).1 (h.opening side) more := by
  have hupdate : ∀ (p : Pair P) (d : Side) (op : SocketOp), (∃ more, p side = Socket.run (h.config side).1 (h.opening side) more) →
      ∃ more, p.update h d op side = Socket.run (h.config side).1 (h.opening side) more := by
    rintro p d op ⟨more, hp⟩
    rcases d.eq_or_other side with rfl | rfl
    · exact ⟨more ++ [op], by rw [update_self, hp]; simp only [Socket.run, Run.exec_append]; rfl⟩
    · exact ⟨more, by rw [update_other, hp]⟩
  refine Run.exec_invariant (P := fun p : Pair P => ∃ more, p side = Socket.run (h.config side).1 (h.opening side) more)
    (fun p op hp => ?_) ⟨[], rfl⟩ ops
  cases op with
  | deliver d index nowMs =>
    cases hget : (p d.other).sent[index]? with
    | none => simpa only [Pair.step, hget] using hp
    | some segment => simpa only [Pair.step, hget] using hupdate p d (.input segment nowMs) hp
  | act d op => exact hupdate p d _ hp

theorem sync_step (hs : p.Steady h) (op : PairOp) (hr : (p.step h op).Retained) (d : Side) (hsync : (p d).conn.Synchronized) :
    (p.step h op d).conn.Synchronized := by
  have hupdate : ∀ (e : Side) (op : SocketOp), (p.update h e op).Retained → (p.update h e op d).conn.Synchronized := by
    intro e op hr
    rcases e.eq_or_other d with rfl | rfl
    · have hd := hr d
      rw [update_self] at hd ⊢
      exact (Socket.step_later (hs d (Socket.retained_before hd)).mss op hd).synchronized hsync
    · rw [update_other]
      exact hsync
  cases op with
  | deliver e index nowMs =>
    cases hget : (p e.other).sent[index]? with
    | none => simpa only [Pair.step, hget] using hsync
    | some segment =>
      simp only [Pair.step, hget] at hr ⊢
      exact hupdate e _ hr
  | act e op => exact hupdate e _ hr

/-- each side starts with its SYN -/
theorem start_syn (h : Handshake P) :
    ∀ d, ∃ x, (start h d).sent = [x] ∧ x.flags.contains .SYN = true ∧ x.flags.contains .RST = false
  | .client => ⟨_, (start_client h).2.2, (by decide : Flags.SYN.contains .SYN = true), (by decide : Flags.SYN.contains .RST = false)⟩
  | .server => ⟨_, (start_server h).2.2, (by decide : (Flags.SYN.union .ACK).contains .SYN = true),
    (by decide : (Flags.SYN.union .ACK).contains .RST = false)⟩

/-- deliveries at one time, and reads of one application -/
def Serves (reader : Side) (nowMs : ℕ) : PairOp → Prop
  | .deliver _ _ t => t = nowMs
  | .act d (.read _) => d = reader
  | .act _ _ => False

/-- such a run leads from one state to another -/
def Leads (h : Handshake P) (reader : Side) (nowMs : ℕ) (p q : Pair P) : Prop :=
  ∃ ops, (∀ o ∈ ops, Serves reader nowMs o) ∧ q = Run.exec (step h) p ops

theorem Leads.refl (p : Pair P) : Leads h side nowMs p p := ⟨[], List.forall_mem_nil _, rfl⟩

theorem Leads.trans (h1 : Leads h side nowMs p q) (h2 : Leads h side nowMs q r) : Leads h side nowMs p r := by
  obtain ⟨ops, hall, rfl⟩ := h1
  obtain ⟨more, hmore, rfl⟩ := h2
  exact ⟨ops ++ more, fun o ho => (List.mem_append.1 ho).elim (hall o) (hmore o), (Run.exec_append _ _ _).symm⟩

theorem Leads.one {op : PairOp} (hop : Serves side nowMs op) : Leads h side nowMs p (p.step h op) :=
  ⟨[op], fun _ ho => List.mem_singleton.1 ho ▸ hop, rfl⟩

/-- a state on the way to the end of the stream of `side`: `acc` was accepted, and with `ending` the close was asked for -/
structure Underway (h : Handshake P) (side : Side) (acc : List U8) (ending : Bool) (p : Pair P) : Prop where
  run : ∃ ops, p = Pair.run h ops
  bounded : p.Bounded
  retained : p.Retained
  room : (p side.other).conn.reassembly.length < (h.config side.other).1.maxReassemblySegments
  accepted : (p side).accepted = acc
  ending : ending = true → (p side).conn.Ending

namespace Underway

theorem inv (hu : Underway h side acc ending p) : p.Inv h := by
  obtain ⟨ops, rfl⟩ := hu.run
  exact inv_run h ops hu.bounded

theorem shown (hu : Underway h side acc ending p) : p.Shown h := by
  obtain ⟨ops, rfl⟩ := hu.run
  exact shown_run h ops hu.bounded hu.retained

theorem civil (hu : Underway h side acc ending p) : p.Civil h := by
  obtain ⟨ops, rfl⟩ := hu.run
  exact civil_run h ops hu.bounded

theorem steady (hu : Underway h side acc ending p) (d : Side) : (p d).conn.Steady (h.config d).1 := by
  obtain ⟨ops, rfl⟩ := hu.run
  exact steady_run h ops d (hu.retained d)

theorem sideInv (hu : Underway h side acc ending p) (d : Side) :
    SideInv (h.config d).1 (h.isn d) (p.face h d.other) (p d).accepted (p d).delivered (p d).conn :=
  (hu.inv d).side ((hu.inv d).kept (hu.retained d))

theorem covered (hu : Underway h side acc ending p) (d : Side) :
    Covered (h.config d).1 (h.isn d) (p d).accepted (p d).sent (p d).conn := by
  have hr := hu.retained d
  obtain ⟨ops, rfl⟩ := hu.run
  obtain ⟨more, hmore⟩ := socket_run h ops d
  rw [hmore] at hr ⊢
  exact h.opening_isn d ▸ Socket.covered_run (h.opening d) (h.config d).valid more hr

theorem nested (hu : Underway h side acc ending p) (d : Side) :
    Nested (p d).conn.recvNxt ((p d).conn.room (h.config d).1) (p d).conn.reassembly := by
  have hr := hu.retained d
  obtain ⟨ops, rfl⟩ := hu.run
  obtain ⟨more, hmore⟩ := socket_run h ops d
  rw [hmore] at hr ⊢
  exact (Socket.nested_run (h.opening d) (h.config d).valid more hr).2

/-- what the reader has received, as a position of the writer's stream -/
theorem recvNxt (hu : Underway h side acc ending p) (hsync : (p side.other).conn.Synchronized) :
    (p side.other).conn.recvNxt = pos (h.isn side) (p.face h side.other).rcv ∧ (p.face h side.other).rcv < 2 ^ 31 := by
  have hstream := (hu.sideInv side.other).stream hsync.1
  have hle := (hu.inv side.other).rcv_le
  rw [Side.other_other] at hstream hle
  have hsmall := (hu.bounded.face_ok (h := h) side).small
  refine ⟨?_, lt_of_le_of_lt hle (by omega)⟩
  rw [rcv_eq h side.other hsync.1]
  exact hstream.nxt

/-- an operation of one side that accepts nothing and leaves the connection there -/
theorem update (hu : Underway h side acc ending p) {pop : PairOp} {d : Side} (op : SocketOp) (hpop : p.step h pop = p.update h d op)
    (hacc : ((p d).step (h.config d).1 op).accepted = (p d).accepted) (hret : ((p d).step (h.config d).1 op).retained = true)
    (hroom : d = side.other → ((p d).step (h.config d).1 op).conn.reassembly.length ≤ (p d).conn.reassembly.length) :
    Underway h side acc ending (p.update h d op) := by
  have hsend := (hu.sideInv d).send
  refine ⟨?_, fun e => ?_, fun e => ?_, ?_, ?_, fun he => ?_⟩
  · obtain ⟨ops, hrun⟩ := hu.run
    exact ⟨ops ++ [pop], by rw [run_append, ← hrun, Run.exec_cons, Run.exec_nil, hpop]⟩
  · rcases d.eq_or_other e with rfl | rfl
    · rw [update_self, hacc]
      exact hu.bounded e
    · rw [update_other]
      exact hu.bounded d.other
  · rcases d.eq_or_other e with rfl | rfl
    · rw [update_self]
      exact hret
    · rw [update_other]
      exact hu.retained d.other
  · rcases d.eq_or_other side.other with hd | hd
    · subst hd
      rw [update_self]
      exact lt_of_le_of_lt (hroom rfl) hu.room
    · rw [hd, update_other, ← hd]
      exact hu.room
  · rcases d.eq_or_other side with rfl | hd
    · rw [update_self, hacc]
      exact hu.accepted
    · rw [hd, update_other, ← hd]
      exact hu.accepted
  · rcases d.eq_or_other side with rfl | hd
    · rw [update_self]
      exact Socket.ending_step hsend op hret (hu.ending he)
    · rw [hd, update_other, ← hd]
      exact hu.ending he

/-- a run never leads back into the handshake -/
theorem later {reader : Side} (hu : Underway h side acc ending p) (hl : Leads h reader nowMs p q) (hq : Underway h side acc ending q)
    (d : Side) (hsync : (p d).conn.Synchronized) : (q d).conn.Synchronized := by
  obtain ⟨ops, hrun⟩ := hu.run
  obtain ⟨more, -, rfl⟩ := hl
  refine Run.exec_invariant_known (Q := fun p : Pair P => p.Steady h) (P := fun p : Pair P => p.Retained → (p d).conn.Synchronized)
    (fun more => ?_) (fun s op hs hsync hr => ?_) (fun _ => hsync) more hq.retained
  · rw [hrun, ← run_append]
    exact steady_run h (ops ++ more)
  · exact sync_step hs op hr d (hsync hr.of_step)

/-- **The application reads** all there is, and the window has room. -/
theorem read (nowMs : ℕ) (hu : Underway h side acc ending p) :
    ∃ q, Leads h side.other nowMs p q ∧ Underway h side acc ending q ∧ q side = p side ∧
      (q.face h side.other).rcv = (p.face h side.other).rcv ∧ 0 < (q side.other).conn.availableWindow ∧
      (q side.other).stream = (p side.other).stream ∧ (q side.other).delivered = (p side.other).stream := by
  have hret := hu.retained side.other
  generalize hn : (p side.other).conn.recvQueue.length = n
  have hstep : (p side.other).step (h.config side.other).1 (.read n) = { p side.other with
      conn := ((p side.other).conn.read n).1
      delivered := (p side.other).delivered ++ ((p side.other).conn.read n).2.1
      sent := (p side.other).sent ++ ((p side.other).conn.read n).2.2 } := by
    simp only [Socket.step, Socket.onRead, hret, if_true]
  have hqueue : ((p side.other).conn.read n).1.recvQueue = [] := by
    simp only [Connection.read, hn, min_self]
    rw [← hn, List.drop_length]
  have hbytes : ((p side.other).conn.read n).2.1 = (p side.other).conn.recvQueue := by
    simp only [Connection.read, hn, min_self]
    rw [← hn, List.take_length]
  obtain ⟨q, hq⟩ : ∃ q, q = p.step h (.act side.other (.read n)) := ⟨_, rfl⟩
  have hreader : q side.other = (p side.other).step (h.config side.other).1 (.read n) := hq ▸ update_self _ _
  rw [hstep] at hreader
  have hwriter : q side = p side := by
    have hother := update_other (h := h) (p := p) side.other (.read n)
    rw [Side.other_other] at hother
    exact hq ▸ hother
  have hpop : p.step h (.act side.other (.read n)) = p.update h side.other (.read n) := rfl
  have hu' : Underway h side acc ending q := by
    rw [hq]
    refine hu.update (.read n) hpop ?_ ?_ fun _ => ?_
    · rw [hstep]
    · rw [hstep]
      exact hret
    · rw [hstep]
      exact le_rfl
  have hstream : (q side.other).stream = (p side.other).stream := by
    rw [hreader]
    simp only [Socket.stream, hqueue, hbytes, List.append_nil]
  have hserve : Serves side.other nowMs (.act side.other (.read n)) := rfl
  refine ⟨q, hq ▸ .one hserve, hu', hwriter, ?_, ?_, hstream, ?_⟩
  · simp only [face, Socket.face, Connection.face, rcvPos, hstream]
    rw [hreader]
    rfl
  · refine (hu'.sideInv side.other).recv.window_pos (h.config side.other).valid (hu'.nested side.other) ?_
    rw [hreader]
    exact hqueue
  · rw [hreader]
    simp only [Socket.stream, hbytes]

/-- the segment with the next position arrives -/
theorem deliver_next (nowMs : ℕ) (hu : Underway h side acc ending p) (hsync : (p side.other).conn.Synchronized) (hlt : (p.face h side.other).rcv < (p.face h side).nxt)
    (hwin : 0 < (p side.other).conn.availableWindow) : ∃ q, Leads h side.other nowMs p q ∧ Underway h side acc ending q ∧ (p.face h side.other).rcv < (q.face h side.other).rcv := by
  have hother := hu.sideInv side.other
  rw [Side.other_other] at hother
  have hstream := hother.stream hsync.1
  have hrcv : (p.face h side.other).rcv = 1 + (p side.other).stream.length + (p side.other).conn.readClosed.toNat :=
    rcv_eq h side.other hsync.1
  have hok := hu.bounded.face_ok (h := h) side
  have hsmall := hok.small
  have hnxt := hok.nxt
  have hfin : (p.face h side).fin.toNat ≤ 1 := by cases (p.face h side).fin <;> simp
  -- the segment with the next position
  obtain ⟨x, hx, q, hat, hq, hend, hle⟩ := (hu.covered side).carried (p.face h side.other).rcv (by omega) hlt
  obtain ⟨index, hindex⟩ := List.getElem?_of_mem hx
  have hrst := (hu.civil side).rst (hu.retained side) x hx
  have hsyn : x.flags.contains .SYN = false := by
    by_contra hyes
    obtain ⟨h0, hp, hf⟩ := hat.syn (Bool.of_not_eq_false hyes)
    have hlen : x.piece.len = 1 := by
      simp only [Piece.len, hp, hf, show x.piece.syn = true from Bool.of_not_eq_false hyes]
      rfl
    omega
  have hlen : x.piece.len = x.payload.length + (x.flags.contains .FIN).toNat := by
    simp only [Piece.len, Segment.piece, hsyn, Bool.toNat_false]
    rfl
  rw [hlen] at hend hle
  have hopen : (p side.other).conn.readClosed = false := by
    by_contra hc
    have hall := congrArg List.length (hstream.closed (Bool.of_not_eq_false hc)).1
    rw [Bool.of_not_eq_false hc, Bool.toNat_true] at hrcv
    have hacc : ((p side.other).delivered ++ (p side.other).conn.recvQueue).length = (p side.other).stream.length := rfl
    omega
  obtain ⟨hpos, hrcvlt⟩ := hu.recvNxt hsync
  obtain ⟨chunk, hchunk, hseq⟩ := receivedChunk_at hpos hat.seq hq hend hrcvlt hwin
  have hdata : x.payload ≠ [] ∨ x.flags.contains .FIN = true := by
    by_contra hno
    obtain ⟨hp, hf⟩ := not_or.1 hno
    rw [not_not.1 hp, Bool.of_not_eq_true hf] at hend
    simp only [List.length_nil, Bool.toNat_false] at hend
    omega
  obtain ⟨hkeep, ⟨r, hr0, hrle, hr⟩, hroom⟩ := input_head nowMs (h.config side.other).valid hother.send.mss hother.recv hsync hopen hrst
    hsyn hdata hchunk hseq hu.room
  have hstep : (p side.other).step (h.config side.other).1 (.input x nowMs) = { p side.other with
      conn := ((p side.other).conn.input x nowMs (h.config side.other).1).1
      retained := !((p side.other).conn.input x nowMs (h.config side.other).1).2.closed
      sent := (p side.other).sent ++ ((p side.other).conn.input x nowMs (h.config side.other).1).2.segments
      ackRemoved := ((p side.other).conn.input x nowMs (h.config side.other).1).2.closed && !x.flags.contains .RST } := by
    simp only [Socket.step, Socket.onInput, hu.retained side.other, if_true]
  have hpop : p.step h (.deliver side.other index nowMs) = p.update h side.other (.input x nowMs) := by
    simp only [Pair.step, Side.other_other, hindex]
  have hu' : Underway h side acc ending (p.update h side.other (.input x nowMs)) := by
    refine hu.update (.input x nowMs) hpop ?_ ?_ fun _ => ?_
    · rw [hstep]
    · rw [hstep, hkeep]
      rfl
    · rw [hstep]
      exact hroom
  refine ⟨p.update h side.other (.input x nowMs), hpop ▸ .one rfl, hu', ?_⟩
  have hleads : Leads h side.other nowMs p (p.update h side.other (.input x nowMs)) := hpop ▸ .one rfl
  obtain ⟨hpos', hrcvlt'⟩ := hu'.recvNxt (hu.later hleads hu' side.other hsync)
  have hbuf := (h.config side.other).valid.receive_le
  generalize ((p.update h side.other (.input x nowMs)).face h side.other).rcv = rcv' at hpos' hrcvlt' ⊢
  have hconn : (p.update h side.other (.input x nowMs) side.other).conn =
      ((p side.other).conn.input x nowMs (h.config side.other).1).1 := by rw [update_self, hstep]
  rw [hconn, hr, hpos, pos_pos, pos_inj (h.isn side) (by omega) (by omega)] at hpos'
  omega

/-- **A round of delivery.** What was sent and not received is on record; the segment with the next position moves the receiver on. -/
theorem deliver (nowMs : ℕ) (hu : Underway h side acc ending p) (hsync : (p side.other).conn.Synchronized) (hlt : (p.face h side.other).rcv < (p.face h side).nxt) :
    ∃ q, Leads h side.other nowMs p q ∧ Underway h side acc ending q ∧ (p.face h side.other).rcv < (q.face h side.other).rcv := by
  obtain ⟨q, hleads, hq, hsame, hrcv, hwin, -⟩ := hu.read nowMs
  have hnxt : (q.face h side).nxt = (p.face h side).nxt := by simp only [face, hsame]
  rw [← hrcv, ← hnxt] at hlt
  obtain ⟨r, hleads', hr, hlt'⟩ := hq.deliver_next nowMs (hu.later hleads hq side.other hsync) hlt hwin
  exact ⟨r, hleads.trans hleads', hr, hrcv ▸ hlt'⟩

/-- an arrival at a side, when it does not end the connection -/
theorem arrive (nowMs : ℕ) (hu : Underway h side acc ending p) {d : Side} {index : ℕ} {x : Segment} (hindex : (p d.other).sent[index]? = some x)
    (hopen : ((p d).conn.input x nowMs (h.config d).1).2.closed = false)
    (hroom : d = side.other → ((p d).conn.input x nowMs (h.config d).1).1.reassembly.length ≤ (p d).conn.reassembly.length) :
    ∃ q, Leads h side.other nowMs p q ∧ Underway h side acc ending q ∧ q d.other = p d.other ∧
      q d = { p d with
        conn := ((p d).conn.input x nowMs (h.config d).1).1
        sent := (p d).sent ++ ((p d).conn.input x nowMs (h.config d).1).2.segments } := by
  have hret := hu.retained d
  have hstep : (p d).step (h.config d).1 (.input x nowMs) = { p d with
      conn := ((p d).conn.input x nowMs (h.config d).1).1
      sent := (p d).sent ++ ((p d).conn.input x nowMs (h.config d).1).2.segments } := by
    have hkept := (hu.inv d).kept hret
    simp only [Socket.step, Socket.onInput, hret, if_true, hopen, Bool.not_false, Bool.false_and, hkept]
  have hpop : p.step h (.deliver d index nowMs) = p.update h d (.input x nowMs) := by simp only [Pair.step, hindex]
  refine ⟨p.update h d (.input x nowMs), hpop ▸ .one rfl, ?_, update_other d _, by rw [update_self, hstep]⟩
  refine hu.update (.input x nowMs) hpop ?_ ?_ fun hd => ?_
  · rw [hstep]
  · rw [hstep]
    exact hret
  · rw [hstep]
    exact hroom hd

/-- the first segment that a side emitted stays on record -/
theorem first (hu : Underway h side acc ending p) (d : Side) : (p d).sent[0]? = (start h d).sent[0]? := by
  obtain ⟨ops, rfl⟩ := hu.run
  obtain ⟨more, hmore⟩ := socket_run h ops d
  obtain ⟨t, ht⟩ : (start h d).sent <+: (Run.exec (Socket.step (h.config d).1) (start h d) more).sent :=
    Run.exec_invariant (P := fun s : Socket P => (start h d).sent <+: s.sent) (fun s op hs => hs.trans (s.sent_step (h.config d).1 op))
      (List.prefix_refl _) more
  have hne : 0 < (start h d).sent.length := by
    obtain ⟨x, hx, -⟩ := start_syn h d
    rw [hx]
    exact Nat.one_pos
  have hrun : Pair.run h ops d = Run.exec (Socket.step (h.config d).1) (start h d) more := hmore
  rw [hrun, ← ht, List.getElem?_append_left hne]

/-- a repeated SYN makes a side say what it has received -/
theorem challenge (nowMs : ℕ) (hu : Underway h side acc ending p) {d : Side} (hsync : (p d).conn.Synchronized) :
    ∃ q, Leads h side.other nowMs p q ∧ Underway h side acc ending q ∧ q d.other = p d.other ∧
      q d = { p d with sent := (p d).sent ++ [(p d).conn.ackSegment] } := by
  obtain ⟨syn, hstart, hflag, hrst⟩ := start_syn h d.other
  have hsyn : (p d.other).sent[0]? = some syn := by rw [hu.first d.other, hstart]; rfl
  have hinput := input_syn (h.config d).1 nowMs hsync hflag hrst
  obtain ⟨q, hleads, hq, hother, hself⟩ := hu.arrive nowMs hsyn (by rw [hinput]; rfl) (fun _ => by rw [hinput])
  rw [hinput] at hself
  exact ⟨q, hleads, hq, hother, hself⟩

/-- **A round of prompting.** The reader's application makes room, and a repeated SYN makes the reader say so; then the writer sends
more. -/
theorem prompt (nowMs : ℕ) (hu : Underway h side acc ending p) (hsync : (p side.other).conn.Synchronized) (hall : (p.face h side.other).rcv = (p.face h side).nxt)
    (hmore : ¬ ((p side).conn.sendQueue = [] ∧ (p side).conn.closeRequested = false)) :
    ∃ q, Leads h side.other nowMs p q ∧ Underway h side acc ending q ∧ (q.face h side.other).rcv = (p.face h side.other).rcv ∧
      (p.face h side.other).rcv < (q.face h side).nxt := by
  obtain ⟨p1, hleads1, hu1, hwriter1, hrcv1, hwin, -⟩ := hu.read nowMs
  have hnxt1 : (p1.face h side).nxt = (p.face h side).nxt := by simp only [face, hwriter1]
  rw [← hrcv1, ← hnxt1] at hall
  rw [← hwriter1] at hmore
  rw [← hrcv1]
  have hsync1 := hu.later hleads1 hu1 side.other hsync
  -- the SYN, once more
  obtain ⟨p2, hleads2, hu2, hwriter2, hreader2⟩ := hu1.challenge nowMs hsync1
  rw [Side.other_other] at hwriter2
  have hconn : (p2 side.other).conn = (p1 side.other).conn := by rw [hreader2]
  have hface : p2.face h side.other = p1.face h side.other := by
    simp only [face, Socket.face, Socket.stream, hreader2]
  -- the ACK that answers it
  have hlast : (p2 side.other).sent[(p1 side.other).sent.length]? = some (p1 side.other).conn.ackSegment := by
    rw [hreader2]
    exact List.getElem?_concat_length
  have hside := hu2.sideInv side
  have hsend := hside.send
  have hmore2 : ¬ ((p2 side).conn.sendQueue = [] ∧ (p2 side).conn.closeRequested = false) := by rw [hwriter2]; exact hmore
  have hrun : (p2 side).conn.Sending := by
    by_contra hno
    exact hmore2 (hsend.sender.idle fun hp => hno (sending_iff.2 hp))
  have hack : (p1 side.other).conn.ackSegment.ack = some (p2 side).conn.sendNxt := by
    have htells := ((p1 side.other).conn.ackSegment_tells).ack
    have hnxt : (p2 side).conn.sendNxt = pos (h.isn side) (p2.face h side).nxt := hsend.sender.nxt
    have hsame : (p2.face h side).nxt = (p1.face h side).nxt := by simp only [face, hwriter2]
    rw [htells, hnxt, hsame, ← hall, (hu1.recvNxt hsync1).1]
  have hwindow : (p1 side.other).conn.ackSegment.window ≠ 0 := by
    have hadv := (hu1.sideInv side.other).recv.advertised (h.config side.other).valid
    rw [((p1 side.other).conn.ackSegment_tells).window]
    intro h0
    rw [h0] at hadv
    exact absurd hadv.symm (Nat.pos_iff_ne_zero.1 hwin)
  obtain ⟨hopen, -, hlt⟩ := input_all_acked nowMs (h.config side).valid hsend (hu2.steady side) hrun rfl rfl hack hwindow hmore2
  obtain ⟨p3, hleads3, hu3, hreader3, hwriter3⟩ := hu2.arrive nowMs hlast hopen fun hd => absurd hd.symm side.other_ne
  refine ⟨p3, hleads1.trans (hleads2.trans hleads3), hu3, ?_, ?_⟩
  · have hsame : p3.face h side.other = p2.face h side.other := by simp only [face, hreader3]
    rw [hsame, hface]
  · have hnxt : (p1.face h side).nxt = (p2 side).conn.sender.nxtPos (p2 side).accepted := by rw [hwriter2]; rfl
    have hnew : (p3.face h side).nxt =
        ((p2 side).conn.input (p1 side.other).conn.ackSegment nowMs (h.config side).1).1.sender.nxtPos (p2 side).accepted := by
      simp only [face, hwriter3]
      rfl
    rw [hall, hnxt, hnew]
    exact hlt

/-- **One round of the schedule**: the reader receives more, unless it has received all there is. -/
theorem advance (nowMs : ℕ) (hu : Underway h side acc ending p) (hsync : (p side.other).conn.Synchronized)
    (hmore : ¬ ((p.face h side.other).rcv = (p.face h side).nxt ∧ (p side).conn.sendQueue = [] ∧ (p side).conn.closeRequested = false)) :
    ∃ q, Leads h side.other nowMs p q ∧ Underway h side acc ending q ∧ (p.face h side.other).rcv < (q.face h side.other).rcv := by
  rcases (hu.shown.rcv_le side).lt_or_eq with hlt | hall
  · exact hu.deliver nowMs hsync hlt
  · obtain ⟨q, hleads, hq, hrcv, hlt⟩ := hu.prompt nowMs hsync hall fun hdone => hmore ⟨hall, hdone⟩
    rw [← hrcv] at hlt ⊢
    obtain ⟨r, hleads', hr, hlt'⟩ := hq.deliver nowMs (hu.later hleads hq side.other hsync) hlt
    exact ⟨r, hleads.trans hleads', hr, hlt'⟩

/-- a side in its handshake is in the state of its start -/
theorem opening (hu : Underway h side acc ending p) (d : Side) :
    (p d).conn.Synchronized ∨ (p d).conn.state = (start h d).conn.state := by
  have hr := hu.retained d
  obtain ⟨ops, rfl⟩ := hu.run
  obtain ⟨more, hmore⟩ := socket_run h ops d
  rw [hmore] at hr ⊢
  refine Run.exec_invariant_known (Q := fun s : Socket P => s.retained = true → 0 < s.conn.mss)
    (P := fun s : Socket P => s.retained = true → s.conn.Synchronized ∨ s.conn.state = (start h d).conn.state)
    (fun more hr => (Socket.covered_run (h.opening d) (h.config d).valid more hr).send.mss) (fun s op hmss hs hr => ?_) (fun _ => .inr rfl)
    more hr
  have hret := Socket.retained_before hr
  have hlater := Socket.step_later (hmss hret) op hr
  rcases hs hret with hsync | hst
  · exact .inl (hlater.synchronized hsync)
  · rcases hlater.state with h' | h'
    · exact .inr (h'.trans hst)
    · left
      generalize (s.step (h.config d).1 op).conn = c at h'
      cases hc : c.state <;> simp [Synchronized, hc, State.rank] at h' ⊢

/-- the client can complete its handshake -/
theorem join_client (nowMs : ℕ) (hu : Underway h side acc ending p) :
    ∃ q, Leads h side.other nowMs p q ∧ Underway h side acc ending q ∧ (q .client).conn.Synchronized := by
  rcases hu.opening .client with hsync | hst
  · exact ⟨p, .refl p, hu, hsync⟩
  rw [(start_client h).1] at hst
  have hno : ¬ (p .client).conn.Synchronized := fun hsync => hsync.1 hst
  obtain ⟨-, -, -, hnxt⟩ := hu.inv.handshaking (hu.retained .client) hno
  -- the SYN-ACK is the first that the server emitted
  obtain ⟨hreceiver, -, hsent⟩ := start_server h
  generalize hx : buildSegment ((start h .server).conn.header (h.isn .server) (Flags.SYN.union .ACK)) [] = x at hsent
  have hindex : (p .server).sent[0]? = some x := by rw [hu.first .server, hsent]; rfl
  have hok : (p .client).conn.unacceptableAck x = false :=
    hu.inv.acceptable (hu.civil .server) (hu.retained .client) (List.mem_of_getElem? hindex)
  have hack : x.ack = some (p .client).conn.sendNxt := by
    have hrecv : (start h .server).conn.recvNxt = h.isn .client + 1 := congrArg Receiver.recvNxt hreceiver
    rw [hnxt, ← hx, ← pos_zero (h.isn .client)]
    simp [buildSegment, header, hrecv, pos]
    decide
  have hinput := input_synAck (h.config .client).1 nowMs hst hok (by rw [← hx]; rfl) hack
    (hx ▸ version_of_syn _ (by decide : (Flags.SYN.union .ACK).contains .SYN = true) [])
  obtain ⟨hr, -, -, hstate⟩ := (p .client).conn.establishClient_frame x nowMs (h.config .client).1
  obtain ⟨q, hleads, hq, -, hself⟩ := hu.arrive nowMs hindex (by rw [hinput]; rfl) fun _ => by
    rw [hinput, show ((p .client).conn.establishClient x nowMs (h.config .client).1).reassembly = (p .client).conn.reassembly from
      congrArg Receiver.reassembly hr]
  refine ⟨q, hleads, hq, ?_⟩
  rw [hself, hinput]
  simp [Synchronized, hstate]

/-- the server can complete its handshake -/
theorem join_server (nowMs : ℕ) (hu : Underway h side acc ending p) :
    ∃ q, Leads h side.other nowMs p q ∧ Underway h side acc ending q ∧ (q .server).conn.Synchronized := by
  obtain ⟨p1, hleads1, hu1, hsync⟩ := hu.join_client nowMs
  rcases hu1.opening .server with hdone | hst
  · exact ⟨p1, hleads1, hu1, hdone⟩
  rw [(start_server h).2.1] at hst
  have hno : ¬ (p1 .server).conn.Synchronized := fun hsync => hsync.2 hst
  obtain ⟨hstream, hopen, -, hnxt⟩ := hu1.inv.handshaking (hu1.retained .server) hno
  obtain ⟨p2, hleads2, hu2, hserver, hclient⟩ := hu1.challenge nowMs hsync
  have hlast : (p2 .client).sent[(p1 .client).sent.length]? = some (p1 .client).conn.ackSegment := by
    rw [hclient]
    exact List.getElem?_concat_length
  have hserver' : p2 .server = p1 .server := hserver
  have hack : (p1 .client).conn.ackSegment.ack = some (p2 .server).conn.sendNxt := by
    have hnxt' := ((hu1.sideInv .client).stream hsync.1).nxt
    rw [show (p1 .client).delivered ++ (p1 .client).conn.recvQueue = [] from hstream,
      show (p1 .client).conn.readClosed = false from hopen] at hnxt'
    rw [((p1 .client).conn.ackSegment_tells).ack, hserver', hnxt, hnxt']
    rfl
  obtain ⟨hkeep, hr, hsync'⟩ := input_synAcked (h.config .server).1 nowMs (hu2.sideInv .server).send.mss
    (by rw [hserver']; exact hst) (by rfl : (p1 .client).conn.ackSegment.flags = .ACK) rfl hack
  obtain ⟨p3, hleads3, hu3, -, hself⟩ := hu2.arrive nowMs hlast hkeep fun _ => by
    rw [show ((p2 .server).conn.input (p1 .client).conn.ackSegment nowMs (h.config .server).1).1.reassembly =
      (p2 .server).conn.reassembly from congrArg Receiver.reassembly hr]
  refine ⟨p3, hleads1.trans (hleads2.trans hleads3), hu3, ?_⟩
  rw [hself]
  exact hsync'

/-- **The handshake can be completed.** -/
theorem join (nowMs : ℕ) (hu : Underway h side acc ending p) (d : Side) :
    ∃ q, Leads h side.other nowMs p q ∧ Underway h side acc ending q ∧ (q d).conn.Synchronized := by
  cases d with
  | client => exact hu.join_client nowMs
  | server => exact hu.join_server nowMs

end Underway

/-- everything was sent and received -/
def Complete (h : Handshake P) (side : Side) (p : Pair P) : Prop :=
  (p.face h side.other).rcv = (p.face h side).nxt ∧ (p side).conn.sendQueue = [] ∧ (p side).conn.closeRequested = false

namespace Underway

/-- **Completion.** Round by round, until everything was received. -/
theorem complete (nowMs : ℕ) (hu : Underway h side acc ending p) :
    ∃ q, Leads h side.other nowMs p q ∧ Underway h side acc ending q ∧ (q side.other).conn.Synchronized ∧ Complete h side q := by
  obtain ⟨p1, hleads1, hu1, hsync1⟩ := hu.join nowMs side.other
  have hround : ∀ q, Underway h side acc ending q ∧ (q side.other).conn.Synchronized → ¬ Complete h side q →
      ∃ ops, (∀ o ∈ ops, Serves side.other nowMs o) ∧
        (Underway h side acc ending (Run.exec (Pair.step h) q ops) ∧ (Run.exec (Pair.step h) q ops side.other).conn.Synchronized) ∧
        acc.length + 2 - ((Run.exec (Pair.step h) q ops).face h side.other).rcv < acc.length + 2 - (q.face h side.other).rcv := by
    intro q ⟨hq, hsync⟩ hmore
    obtain ⟨r, ⟨ops, hall, rfl⟩, hr, hlt⟩ := hq.advance nowMs hsync hmore
    refine ⟨ops, hall, ⟨hr, hq.later ⟨ops, hall, rfl⟩ hr side.other hsync⟩, ?_⟩
    have hle := (hr.inv side.other).rcv_le
    rw [Side.other_other] at hle
    have hacc : ((Run.exec (Pair.step h) q ops).face h side).acc.length = acc.length := congrArg List.length hr.accepted
    rw [hacc] at hle
    change (Pair.face h (Run.exec (Pair.step h) q ops) side.other).rcv ≤ _ at hle
    omega
  obtain ⟨ops, hall, ⟨hq, hsync⟩, hdone⟩ := Run.exec_reaches (fun q : Pair P => acc.length + 2 - (q.face h side.other).rcv) hround ⟨hu1, hsync1⟩
  exact ⟨_, hleads1.trans ⟨ops, hall, rfl⟩, hq, hsync, hdone⟩

/-- where everything was received, the streams agree, and a close was seen -/
theorem agree (hu : Underway h side acc ending p) (hsync : (p side.other).conn.Synchronized) (hc : Complete h side p) :
    (p side.other).stream = acc ∧ (ending = true → (p side.other).conn.readClosed = true) := by
  obtain ⟨hall, hq, hclose⟩ := hc
  have hpipe := hu.inv.pipe side
  have hpre : (p side.other).stream <+: (p side).accepted := hpipe.isPrefix
  have hlen := hpre.length_le
  rw [rcv_eq h side.other hsync.1] at hall
  have hnxt : (p.face h side).nxt = 1 + (p side).accepted.length + (p side).conn.state.phase.finSent.toNat := by
    simp only [face, Socket.face, Connection.face, Sender.nxtPos]
    rw [show (p side).conn.sender.queue = [] from hq]
    rfl
  rw [hnxt] at hall
  have heof : (p side.other).conn.readClosed = true → (p side.other).stream = (p side).accepted := hpipe.eof_all
  cases hc : (p side.other).conn.readClosed with
  | true => exact ⟨(heof hc).trans hu.accepted, fun _ => rfl⟩
  | false =>
    rw [hc, Bool.toNat_false] at hall
    refine ⟨(hpre.eq_of_length (by omega)).trans hu.accepted, fun he => ?_⟩
    rcases hu.ending he with h' | h'
    · rw [hclose] at h'
      cases h'
    · rw [h', Bool.toNat_true] at hall
      omega

end Underway

end Pair

/-! ## Result -/

section Results

variable {P : Type} (h : Handshake P) (ops : List PairOp)

/-- **Nothing that was accepted is stranded.** From every state that the two ends and the network can reach in which both ends are
there, at any time of the clock, some sequence of deliveries of what was emitted and of reads of the receiving application ends with
all of the stream read, and with the end of it seen when the close was asked for, provided that the receiver's list of out-of-order
chunks has a free place. No timer is needed. -/
theorem stream_completes (hb : (Pair.run h ops).Bounded) (hr : ∀ d, (Pair.run h ops d).retained = true) (side : Side)
    (hroom : (Pair.run h ops side.other).conn.reassembly.length < (h.config side.other).1.maxReassemblySegments) (nowMs : ℕ) :
    ∃ more, (∀ op ∈ more, Pair.Serves side.other nowMs op) ∧ (∀ d, (Pair.run h (ops ++ more) d).retained = true) ∧
      (Pair.run h (ops ++ more) side.other).delivered = (Pair.run h ops side).accepted ∧
      ((Pair.run h ops side).conn.Ending → (Pair.run h (ops ++ more) side.other).conn.readClosed = true) := by
  classical
  have hu : Pair.Underway h side (Pair.run h ops side).accepted (decide (Pair.run h ops side).conn.Ending) (Pair.run h ops) :=
    ⟨⟨ops, rfl⟩, hb, hr, hroom, rfl, fun he => of_decide_eq_true he⟩
  obtain ⟨q, hleads, hq, hsync, hdone⟩ := hu.complete nowMs
  -- and what is left is read
  obtain ⟨r, hleads', hr', hwriter, hrcv, -, hsame, hread⟩ := hq.read nowMs
  have hsync' := hq.later hleads' hr' side.other hsync
  have hdone' : Pair.Complete h side r := by
    have hnxt : (r.face h side).nxt = (q.face h side).nxt := by simp only [Pair.face, hwriter]
    rw [Pair.Complete, hrcv, hnxt, hwriter]
    exact hdone
  obtain ⟨hstream, hclosed⟩ := hr'.agree hsync' hdone'
  obtain ⟨more, hall, hmore⟩ := hleads.trans hleads'
  refine ⟨more, hall, ?_, ?_, fun he => ?_⟩
  all_goals rw [Pair.run_append, ← hmore]
  · exact hr'.retained
  · rw [hread, ← hsame, hstream]
  · exact hclosed (decide_eq_true he)

/-- the client writes and closes, and nothing of it reaches the server, which still waits for the ACK of its SYN -/
def unheardRun : List PairOp := [.deliver .client 0 5, .act .client (.write [1, 2, 3] 6), .act .client (.close 7)]

theorem unheardRun_bounded : (Pair.run wrapHandshake unheardRun).Bounded
  | .client => by decide
  | .server => by decide

theorem stream_completes_unheard :
    ∃ more, (Pair.run wrapHandshake (unheardRun ++ more) .server).delivered = [1, 2, 3] ∧
      (Pair.run wrapHandshake (unheardRun ++ more) .server).conn.readClosed = true := by
  have hretained : ∀ d, (Pair.run wrapHandshake unheardRun d).retained = true
    | .client => by decide
    | .server => by decide
  obtain ⟨more, -, -, hread, hclosed⟩ :=
    stream_completes wrapHandshake unheardRun unheardRun_bounded hretained .client (by decide) 8
  have haccepted : (Pair.run wrapHandshake unheardRun .client).accepted = [1, 2, 3] := by decide
  exact ⟨more, hread.trans haccepted, hclosed (.inr (by decide))⟩

end Results

end FipsTcp
