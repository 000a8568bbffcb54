/-
The sending half against any peer.

`SendInv` is the invariant of the sending half: the connection, seen as a window sender, is in order, with at most 65535
positions in flight; the peer's window is a 16-bit value; and the send buffer bounds what is held. Nothing is assumed
about the segments: an ACK number is checked against the flight by the code, and that check is all the proof uses.
- `Move.sender_step`: every primitive is a step of the window sender, or leaves it alone (refinement);
- `Move.sendInv`, `Socket.step_sendInv`: the invariant is preserved by every primitive and by every operation;
- `sequence_space`: what it says in the words of the code, for every reachable connection.
-/
import FipsTcp.Connection.Moves
import FipsTcp.Core.Socket
import FipsTcp.Lib.Run

namespace FipsTcp

open SendWindow

namespace Connection

variable {P : Type} {config : Config} {nowMs : ℕ} {inp : Option Segment} {isn : U32} {acc : List U8}
  {c c' : Connection P} {out : List Segment}

structure SendInv (config : Config) (isn : U32) (acc : List U8) (c : Connection P) : Prop where
  sender : c.sender.Inv isn 65535 acc
  window : c.remoteWindow ≤ 65535
  mss : 0 < c.mss
  buffer : c.sender.held ≤ config.sendBuffer

/-! ## Every primitive is a step of the window sender -/

/-- the code's flight size is the number of positions in flight -/
theorem SendInv.distance_eq (h : c.SendInv config isn acc) :
    distance c.sendUna c.sendNxt = total (c.unacked.map TrackedSegment.piece) := by
  have hroom : total (c.unacked.map TrackedSegment.piece) ≤ 65535 := h.sender.room
  have hnxt : c.sendNxt = Serial.pos c.sendUna (total (c.unacked.map TrackedSegment.piece)) := h.sender.nxt_eq_add
  rw [hnxt]; exact Serial.dist_base _ (by omega)

/-- what the allowance admits keeps the flight within the peer's window -/
theorem SendInv.room (h : c.SendInv config isn acc) {count : ℕ} (h0 : 0 < count) (hc : count ≤ c.sendAllowance) :
    total (c.unacked.map TrackedSegment.piece) + count ≤ 65535 := by
  have hw := h.window
  have hd := h.distance_eq
  unfold sendAllowance at hc
  omega

theorem Sending.phase (h : c.Sending) : c.sender.phase = .running := by
  rcases h with h | h <;> simp [sender, h, State.phase]

/-- **Refinement.** A primitive of the code is a step of the window sender. -/
theorem Move.sender_step (h : Move config nowMs inp c out c') (hs : c.SendInv config isn acc) :
    Sender.Step 65535 c.sender c'.sender := by
  have hack : c.state.phase = .opening → Sender.Step 65535 c.sender (c.sender.ack c.sendNxt) := fun hp => by
    obtain ⟨h0, hn⟩ := (advances_sendNxt hs.sender (by norm_num) (unacked_opening hs.sender hp)).1.within hs.sender
    exact .ack _ _ h0 hn
  cases h with
  | establishClient segment hin hst =>
    rw [establishClient_sender hs.sender (by norm_num) hst]
    exact hack (by rw [hst]; rfl)
  | establishServer segment hin hst =>
    rw [establishServer_sender hs.sender (by norm_num) hst]
    exact hack (by rw [hst]; rfl)
  | window segment => rw [updateRemoteWindow_sender]; exact .idle _
  | timers => exact .idle _
  | retransmit timeout => rw [retransmitOldest_sender]; exact .idle _
  | advanceAck c' segment ack hin hrst hseg hst hadv h =>
    rw [(afterAck_sender hs.sender (by norm_num) hst hadv nowMs config).2 c' h]
    obtain ⟨h0, hn⟩ := hadv.within hs.sender
    exact .ack _ _ h0 hn
  | receive segment => rw [receiveStreamData_sender]; exact .idle _
  | sendData count hst h0 hallow hmss hq =>
    rw [sendQueued_sender]
    exact .push _ _ hst.phase h0 hq (hs.room h0 hallow)
  | sendFin hst hclose hq hallow =>
    rw [sendFin_sender]
    exact .pushFin _ hst.phase hq (hs.room Nat.one_pos hallow)
  | probe hwin =>
    rcases c.zeroWindowProbe_cases nowMs with ⟨x, -, -, h⟩ | ⟨hno, ⟨-, h⟩ | ⟨hq, h⟩⟩
    · rw [h]; exact .idle _
    · rw [h]; exact .idle _
    · rw [h]
      simp only [sendQueued_sender]
      have hrun : c.sender.phase = .running := by
        by_contra hn
        exact hq (hs.sender.idle hn).1
      -- a running sender has only data in flight, and no segment carries any
      have hempty : c.unacked = [] := by
        have hs' := hs.sender.shape
        rw [hrun] at hs'
        refine List.eq_nil_iff_forall_not_mem.2 fun x hx => ?_
        exact (hs' x.piece (List.mem_map_of_mem hx)).payload (hno x hx)
      refine .push _ _ hrun Nat.one_pos (List.length_pos_of_ne_nil hq) ?_
      simp [sender, hempty]
  | ack => exact .idle _
  | reset => exact .idle _
  | requestClose hst => exact .wantClose _ hst.phase

theorem Move.window_mss (h : Move config nowMs inp c out c') (hs : c.SendInv config isn acc) :
    c'.remoteWindow ≤ 65535 ∧ 0 < c'.mss := by
  cases h with
  | establishClient segment =>
    refine ⟨?_, (c.establishClient_frame segment nowMs config).2.2.1⟩
    have h := ((c.updateRemoteWindow segment.window nowMs).negotiateMss segment config).applyAck_frame
      ((c.updateRemoteWindow segment.window nowMs).negotiateMss segment config).sendNxt nowMs false
    exact h.2.2.2.2.le.trans (updateRemoteWindow_le c segment.window nowMs)
  | establishServer segment =>
    exact ⟨updateRemoteWindow_le _ segment.window nowMs, (c.establishServer_frame segment nowMs).2.2.1 ▸ hs.mss⟩
  | window segment =>
    exact ⟨updateRemoteWindow_le _ _ _, (c.updateRemoteWindow_frame segment.window nowMs).2.2.1 ▸ hs.mss⟩
  | timers => exact ⟨hs.window, hs.mss⟩
  | retransmit timeout =>
    obtain ⟨-, -, h1, -, h2⟩ := c.retransmitOldest_frame nowMs timeout
    exact ⟨h2 ▸ hs.window, h1 ▸ hs.mss⟩
  | advanceAck c' segment ack hin hrst hseg hst hadv h =>
    obtain ⟨-, -, h1, h2⟩ := afterAck_frame nowMs config h
    exact ⟨h2 ▸ hs.window, h1 ▸ hs.mss⟩
  | receive segment =>
    obtain ⟨h1, h2, -⟩ := outgoing_frame (c.receiveStreamData_outgoing segment nowMs config).1
    exact ⟨h2 ▸ hs.window, h1 ▸ hs.mss⟩
  | sendData => exact ⟨hs.window, hs.mss⟩
  | sendFin => exact ⟨hs.window, hs.mss⟩
  | probe =>
    rcases c.zeroWindowProbe_cases nowMs with ⟨x, -, -, h⟩ | ⟨-, ⟨-, h⟩ | ⟨-, h⟩⟩ <;> rw [h] <;>
      exact ⟨hs.window, hs.mss⟩
  | ack => exact ⟨hs.window, hs.mss⟩
  | reset => exact ⟨hs.window, hs.mss⟩
  | requestClose => exact ⟨hs.window, hs.mss⟩

/-- **Preservation, one primitive.** -/
theorem Move.sendInv (h : Move config nowMs inp c out c') (hs : c.SendInv config isn acc) : c'.SendInv config isn acc :=
  have hstep := h.sender_step hs
  ⟨hstep.inv hs.sender, (h.window_mss hs).1, (h.window_mss hs).2, (hstep.held_le hs.sender).1.trans hs.buffer⟩

theorem SendInv.moves (hs : c.SendInv config isn acc) (h : Moves config nowMs inp c out c') :
    c'.SendInv config isn acc := h.preserves (fun h hs => h.sendInv hs) hs

theorem held_eq_buffered (c : Connection P) : c.sender.held = c.buffered := by
  simp only [Sender.held, buffered, sender, SendWindow.bytes, List.length_flatMap, List.map_map]
  exact Nat.add_comm _ _

/-- accepting what `write` accepts -/
theorem SendInv.accept (hs : c.SendInv config isn acc) (hst : c.Sending) {bytes : List U8}
    (hroom : bytes.length ≤ config.sendBuffer - c.buffered) : (c.acceptBytes bytes).SendInv config isn (acc ++ bytes) := by
  refine ⟨hs.sender.accept hst.phase bytes, hs.window, hs.mss, ?_⟩
  have hb := hs.buffer
  rw [held_eq_buffered] at hb ⊢
  have hnew : (c.acceptBytes bytes).buffered = c.buffered + bytes.length := by
    simp only [buffered, acceptBytes, List.length_append]; omega
  omega

/-! ## Creation -/

theorem new_sendInv {c : Connection P} {isn : U32} (hsend : c.sender = Sender.start isn) (hwin : c.remoteWindow ≤ 65535)
    (hm : 0 < c.mss) : c.SendInv config isn [] :=
  ⟨hsend ▸ Sender.inv_start isn (by norm_num), hwin, hm, by rw [hsend]; exact Nat.zero_le _⟩

/-- sending the SYN of a fresh connection starts the window sender -/
theorem sendTracked_start {c : Connection P} {isn : U32} {flags : Flags} (nowMs : ℕ)
    (hsyn : flags.contains .SYN = true) (hfin : flags.contains .FIN = false)
    (hc : c.sender = ⟨.opening, isn, isn, [], [], false, 0, 0⟩) :
    (c.sendTracked flags [] nowMs).1.sender = Sender.start isn := by
  have hsend : (c.sendTracked flags [] nowMs).1.sender =
      { c.sender with nxt := c.sender.nxt + asU32 1, flight := c.sender.flight ++ [⟨c.sender.nxt, [], true, false⟩] } := by
    simp only [sender, sendTracked, TrackedSegment.endSeq_eq, TrackedSegment.piece, Piece.len, hsyn, hfin,
      List.map_append, List.map_cons, List.map_nil]
    rfl
  rw [hsend, hc]; rfl

theorem client_sendInv (peer : P) (localPort remotePort : U16) (isn : U32) (nowMs token : ℕ) (hv : config.Valid) :
    (client peer localPort remotePort isn nowMs config token).1.SendInv config isn [] := by
  refine new_sendInv ?_ le_rfl ?_
  · exact sendTracked_start nowMs (by decide) (by decide) rfl
  · exact Nat.pos_of_ne_zero fun h => hv.mss_pos (BitVec.eq_of_toNat_eq h)

theorem server_sendInv (peer : P) (syn : Segment) (isn : U32) (nowMs token : ℕ) :
    (server peer syn isn nowMs config token).1.SendInv config isn [] := by
  refine new_sendInv ?_ ?_ ?_
  · refine sendTracked_start nowMs (by decide) (by decide) ?_
    exact updateRemoteWindow_sender _ syn.window nowMs
  · exact updateRemoteWindow_le _ syn.window nowMs
  · exact Nat.lt_of_lt_of_le Nat.one_pos (le_max_right _ _)

end Connection

namespace Opening

variable {P : Type} {config : Config}

theorem sendInv (o : Opening P) (hv : config.Valid) : (o.connection config).1.SendInv config o.isn [] := by
  cases o with
  | client peer localPort remotePort isn nowMs token =>
    exact Connection.client_sendInv peer localPort remotePort isn nowMs token hv
  | server peer syn isn nowMs token => exact Connection.server_sendInv peer syn isn nowMs token

end Opening

/-! ## Sockets -/

/-- the segment that an operation handles, and its time -/
def SocketOp.segment : SocketOp → Option Segment
  | .input segment _ => some segment
  | _ => none

def SocketOp.time : SocketOp → ℕ
  | .input _ nowMs | .write _ nowMs | .close nowMs | .poll nowMs => nowMs
  | .read _ | .abort => 0

namespace Socket

variable {P : Type} {config : Config} {s : Socket P}

/-- a removed connection stays as it was -/
theorem step_removed (config : Config) (hret : s.retained = false) (op : SocketOp) :
    (s.step config op).conn = s.conn ∧ (s.step config op).accepted = s.accepted ∧
      (s.step config op).delivered = s.delivered ∧ (s.step config op).retained = false := by
  cases op <;>
    simp only [step, onInput, onWrite, onRead, onUpdate, onAbort, hret, Bool.false_eq_true, if_false]
  case input => split_ifs <;> simp [hret]
  all_goals exact ⟨trivial, trivial, trivial, trivial⟩

theorem retained_before {op : SocketOp} (hr : (s.step config op).retained = true) : s.retained = true := by
  cases hret : s.retained with
  | true => rfl
  | false => rw [(step_removed config hret op).2.2.2] at hr; cases hr

/-- what an operation does to the connection before it makes it move: nothing, or what the application gives or takes -/
inductive Prepared (config : Config) (c : Connection P) (acc : List U8) : Connection P → List U8 → Prop
  | none : Prepared config c acc c acc
  | accept (bytes : List U8) (hst : c.Sending) (hclose : c.closeRequested = false)
      (hroom : bytes.length ≤ config.sendBuffer - c.buffered) : Prepared config c acc (c.acceptBytes bytes) (acc ++ bytes)
  | consume (count : ℕ) : Prepared config c acc (c.consume count) acc

/-- an operation that leaves the connection retained is a sequence of moves, at its time -/
theorem step_moves (hm : 0 < s.conn.mss) (hret : s.retained = true) (op : SocketOp) (hr : (s.step config op).retained = true) :
    ∃ c out, Prepared config s.conn s.accepted c (s.step config op).accepted ∧ (s.step config op).sent = s.sent ++ out ∧
      Connection.Moves config op.time op.segment c out (s.step config op).conn := by
  cases op with
  | input segment nowMs =>
    simp only [step, onInput, hret, if_true] at hr ⊢
    exact ⟨_, _, .none, rfl, (Connection.input_moves config nowMs segment hm).1 (by simpa using hr)⟩
  | write bytes nowMs =>
    simp only [step, onWrite, hret, if_true]
    rcases hw : s.conn.write bytes nowMs config with _ | ⟨conn, count, out⟩
    · exact ⟨_, [], .none, (List.append_nil _).symm, Connection.Moves.refl _⟩
    · obtain ⟨hst, hclose, -, hroom, hmoves⟩ := Connection.write_moves config nowMs hm hw
      exact ⟨_, _, .accept _ hst hclose (by rw [List.length_take]; omega), rfl, hmoves⟩
  | read max =>
    simp only [step, onRead, hret, if_true]
    exact ⟨_, _, .consume _, rfl, (Connection.read_moves config 0 max).2⟩
  | close nowMs =>
    simp only [step, onUpdate, hret, if_true]
    exact ⟨_, _, .none, rfl, (Connection.close_moves config nowMs hm).1⟩
  | abort => simp only [step, onAbort, hret, if_true, Bool.false_eq_true] at hr
  | poll nowMs =>
    simp only [step, onUpdate, hret, if_true]
    exact ⟨_, _, .none, rfl, (Connection.poll_moves config nowMs hm).1⟩

/-- **Invariants of sockets with a history.** What every primitive, every acceptance and every reading preserves holds of a
retained connection, with what it accepted and what it emitted, after every operation. -/
theorem step_history {Q : List U8 → List Segment → Connection P → Prop} (hmss : ∀ {acc sent c}, Q acc sent c → 0 < c.mss)
    (hmove : ∀ {acc sent nowMs inp c out c'}, Connection.Move config nowMs inp c out c' → Q acc sent c → Q acc (sent ++ out) c')
    (haccept : ∀ {acc sent c bytes}, Q acc sent c → c.Sending → c.closeRequested = false →
      bytes.length ≤ config.sendBuffer - c.buffered → Q (acc ++ bytes) sent (c.acceptBytes bytes))
    (hconsume : ∀ {acc sent c} count, Q acc sent c → Q acc sent (c.consume count))
    (hs : s.retained = true → Q s.accepted s.sent s.conn) (op : SocketOp) (hr : (s.step config op).retained = true) :
    Q (s.step config op).accepted (s.step config op).sent (s.step config op).conn := by
  have hret := retained_before hr
  have hq := hs hret
  obtain ⟨c, out, hprep, hsent, hmoves⟩ := step_moves (hmss hq) hret op hr
  rw [hsent]
  refine hmoves.history hmove _ ?_
  generalize (s.step config op).accepted = acc at hprep ⊢
  cases hprep with
  | none => exact hq
  | accept bytes hst hclose hroom => exact haccept hq hst hclose hroom
  | consume count => exact hconsume count hq

/-- **Invariants of sockets**, without the history. -/
theorem step_invariant {Q : List U8 → Connection P → Prop} (hmss : ∀ {acc c}, Q acc c → 0 < c.mss)
    (hmove : ∀ {acc nowMs inp c out c'}, Connection.Move config nowMs inp c out c' → Q acc c → Q acc c')
    (haccept : ∀ {acc c bytes}, Q acc c → c.Sending → bytes.length ≤ config.sendBuffer - c.buffered →
      Q (acc ++ bytes) (c.acceptBytes bytes))
    (hconsume : ∀ {acc c} count, Q acc c → Q acc (c.consume count))
    (hs : s.retained = true → Q s.accepted s.conn) (op : SocketOp) (hr : (s.step config op).retained = true) :
    Q (s.step config op).accepted (s.step config op).conn :=
  step_history (Q := fun acc _ c => Q acc c) hmss hmove (fun hq hst _ => haccept hq hst) hconsume hs op hr

theorem sendInv_run (o : Opening P) (hv : config.Valid) (ops : List SocketOp)
    (hr : (run config o ops).retained = true) :
    (run config o ops).conn.SendInv config o.isn
      (run config o ops).accepted :=
  Run.exec_invariant (P := fun s : Socket P => s.retained = true → s.conn.SendInv config o.isn s.accepted)
    (fun _ op hs => step_invariant (Q := fun acc c => c.SendInv config o.isn acc) (fun h => h.mss)
      (fun h hq => h.sendInv hq) (fun hq hst hroom => hq.accept hst hroom) (fun _ hq => ⟨hq.sender, hq.window, hq.mss, hq.buffer⟩)
      hs op) (fun _ => o.sendInv hv) ops hr

end Socket

/-! ## The sequence space in the words of the code -/

/-- the segments lie one after the other: the first starts at `una`, the last ends at `nxt` -/
def Contiguous : U32 → List TrackedSegment → U32 → Prop
  | una, [], nxt => una = nxt
  | una, segment :: rest, nxt => segment.seq = una ∧ Contiguous segment.endSeq rest nxt

instance Contiguous.decidable : ∀ una segments nxt, Decidable (Contiguous una segments nxt)
  | una, [], nxt => inferInstanceAs (Decidable (una = nxt))
  | una, segment :: rest, nxt =>
    @instDecidableAnd _ _ (inferInstanceAs (Decidable (segment.seq = una)))
      (Contiguous.decidable segment.endSeq rest nxt)

/-- the sending half of a connection whose writes accepted the bytes `accepted` -/
structure SequenceSpace (config : Config) (accepted : List U8) {P : Type} (c : Connection P) : Prop where
  contiguous : Contiguous c.sendUna c.unacked c.sendNxt
  empty_iff : c.unacked = [] ↔ c.sendUna = c.sendNxt
  nonempty : ∀ segment ∈ c.unacked,
    0 < segment.payload.length + Segment.flagLen segment.flags .SYN + Segment.flagLen segment.flags .FIN
  flight : distance c.sendUna c.sendNxt ≤ 65535
  accepted_bytes : c.sendProgress.acceptedPayloadBytes = accepted.length
  conserved : c.sendProgress.ackedPayloadBytes + (c.unacked.map (·.payload.length)).sum + c.sendQueue.length =
    c.sendProgress.acceptedPayloadBytes
  buffer : (c.unacked.map (·.payload.length)).sum + c.sendQueue.length ≤ config.sendBuffer
  suffix : c.unacked.flatMap (·.payload) ++ c.sendQueue = accepted.drop c.sendProgress.ackedPayloadBytes

theorem contiguous_of_chain {isn : U32} {acc : List U8} {l : List TrackedSegment} {p : ℕ}
    (h : Chain isn acc p (l.map TrackedSegment.piece)) :
    Contiguous (Serial.pos isn p) l (Serial.pos isn (p + total (l.map TrackedSegment.piece))) := by
  induction l generalizing p with
  | nil => rfl
  | cons x l ih =>
    have hseq : x.seq = Serial.pos isn p := h.1.seq
    refine ⟨hseq, ?_⟩
    rw [x.endSeq_eq, hseq, add_asU32, List.map_cons, total_cons, ← Nat.add_assoc]
    exact ih h.2.2

theorem Connection.SendInv.sequenceSpace {P : Type} {config : Config} {isn : U32} {acc : List U8} {c : Connection P}
    (h : c.SendInv config isn acc) : SequenceSpace config acc c := by
  have hsum : (bytes (c.unacked.map TrackedSegment.piece)).length = (c.unacked.map (·.payload.length)).sum := by
    simp only [bytes, List.length_flatMap, List.map_map]; rfl
  have hd := h.distance_eq
  have hroom : total (c.unacked.map TrackedSegment.piece) ≤ 65535 := h.sender.room
  have hinv := h.sender
  constructor
  case contiguous =>
    have hc := contiguous_of_chain hinv.chain
    have hpos : c.sender.unaPos acc + total (c.unacked.map TrackedSegment.piece) = c.sender.nxtPos acc :=
      Nat.sub_add_cancel hinv.total_le
    rw [hpos, ← hinv.una, ← hinv.nxt] at hc
    exact hc
  case empty_iff =>
    have hnil := hinv.chain.eq_nil_iff
    rw [show c.sender.flight = c.unacked.map TrackedSegment.piece from rfl, List.map_eq_nil_iff] at hnil
    rw [hnil, ← hd]
    refine ⟨fun h0 => ?_, fun he => by rw [he, distance_self]⟩
    have := Serial.pos_dist c.sendUna c.sendNxt
    rw [← distance_eq_dist, h0, Serial.pos_zero] at this; exact this
  case nonempty =>
    intro x hx
    have := hinv.chain.len_pos (List.mem_map_of_mem hx)
    rw [flagLen_eq, flagLen_eq]; exact this
  case flight => omega
  case accepted_bytes => exact hinv.count
  case conserved =>
    have := hinv.sum
    have hcount := hinv.count
    rw [show c.sender.flight = c.unacked.map TrackedSegment.piece from rfl, hsum] at this
    rw [show c.sendProgress.acceptedPayloadBytes = acc.length from hcount]
    exact this
  case buffer =>
    have := h.buffer
    rw [Connection.held_eq_buffered, Connection.buffered] at this
    omega
  case suffix =>
    have := hinv.rest
    simp only [Connection.sender, bytes, List.flatMap_map] at this
    exact this

/-- **The sender's sequence space, against any peer.** However a connection is made and whatever segments and local
operations follow, a retained connection has its segments contiguous from `send_una` to `send_nxt`, at most 65535
positions in flight, and exactly the bytes not yet acknowledged in flight and queued. -/
theorem sequence_space {P : Type} (config : ValidConfig) (o : Opening P) (ops : List SocketOp)
    (hr : (Socket.run config.1 o ops).retained = true) :
    SequenceSpace config.1 (Socket.run config.1 o ops).accepted
      (Socket.run config.1 o ops).conn :=
  (Socket.sendInv_run o config.valid ops hr).sequenceSpace

/-- a client whose peer completes the handshake, takes three bytes and acknowledges the first -/
def partialAckRun : List SocketOp :=
  [.input { Segment.new 80 9000 700 with
      ack := some 101
      flags := Flags.SYN.union .ACK
      options := [.maxSegmentSize 1000, .fipsVersion FIPS_VERSION 0] } 5,
    .write [1, 2, 3] 6,
    .input { Segment.new 80 9000 701 with ack := some 102, flags := .ACK } 7]

theorem sequence_space_partial_ack :
    SequenceSpace Config.default
      (Socket.run Config.default (.client () 9000 80 100 0 0) partialAckRun).accepted
      (Socket.run Config.default (.client () 9000 80 100 0 0) partialAckRun).conn :=
  sequence_space ⟨Config.default, Config.default_validate⟩ (.client () 9000 80 100 0 0) partialAckRun (by decide)

example : (Socket.run Config.default (.client () 9000 80 100 0 0) partialAckRun).conn.unacked.map (·.payload) = [[2, 3]] := by decide

end FipsTcp
