/-
The sending and the receiving half of a connection.

`Connection.sender` is the connection as a sliding-window sender (`SendWindow.Sender`): its state names the phase, its
tracked segments are the pieces in flight. `Connection.receiver` is what the receiving half holds, `Connection.stable` what
no operation changes. The lemmas below say, primitive by primitive, what each of the three becomes: most leave two of
them alone, and the rest is an operation of the window sender. `afterAck_sender` is the main one: the ACK loop of the
source, with its partial trim and its FIN, is the cut of the sliding window.
-/
import FipsTcp.Core.Connection
import FipsTcp.Lib.SendWindow

namespace FipsTcp

open SendWindow Serial

def State.phase : State → Phase
  | .synSent | .synReceived => .opening
  | .established | .closeWait => .running
  | .finWait1 | .closing | .lastAck => .closing
  | .finWait2 | .timeWait => .closed

/-- a tracked segment as a piece of the stream -/
def TrackedSegment.piece (s : TrackedSegment) : Piece 32 U8 :=
  ⟨s.seq, s.payload, s.flags.contains .SYN, s.flags.contains .FIN⟩

theorem flagLen_eq (f flag : Flags) : Segment.flagLen f flag = (f.contains flag).toNat := by
  unfold Segment.flagLen; cases f.contains flag <;> rfl

theorem asU32_add (base : U32) (a b : ℕ) : base + asU32 a + asU32 b = base + asU32 (a + b) := by
  simp [asU32, BitVec.ofNat_add, BitVec.add_assoc]

theorem TrackedSegment.endSeq_eq (s : TrackedSegment) : s.endSeq = s.seq + asU32 s.piece.len := by
  rw [endSeq, asU32_add, asU32_add, flagLen_eq, flagLen_eq]
  simp only [piece, Piece.len, Nat.add_assoc]

@[simp] theorem data_flags : (Flags.ACK.union .PSH).contains .SYN = false ∧ (Flags.ACK.union .PSH).contains .FIN = false := by
  decide

@[simp] theorem ack_flags : Flags.ACK.contains .SYN = false ∧ Flags.ACK.contains .FIN = false := by decide

@[simp] theorem fin_flags : (Flags.FIN.union .ACK).contains .SYN = false ∧ (Flags.FIN.union .ACK).contains .FIN = true := by
  decide

/-- what the receiving half holds -/
structure Receiver where
  recvNxt : U32
  recvQueue : List U8
  reassembly : List ReassemblySegment
  readClosed : Bool

/-- what is fixed when a connection is created -/
structure Stable (P : Type) where
  peer : P
  localPort : U16
  remotePort : U16
  receiveCapacity : ℕ
  maxTransmissions : ℕ

/-! ## The ACK loop is the cut of the window -/

section Cut

variable {isn : U32} {acc : List U8} {l : List TrackedSegment} {p n : ℕ}

/-- the number of pieces with a closing mark -/
def fins (l : List (Piece 32 U8)) : ℕ := l.countP (·.fin)

theorem fins_cut_le (n : ℕ) (l : List (Piece 32 U8)) : fins (cut n l) ≤ fins l := by
  induction l generalizing n with
  | nil => simp [cut]
  | cons x l ih =>
    unfold cut
    split_ifs with h1 h2
    · exact (ih _).trans (by simp [fins, List.countP_cons])
    · exact le_rfl
    · simp [fins, List.countP_cons]

/-- what a segment of a chain ends with, and how that compares with the ACK number -/
theorem endSeq_le_iff {x : TrackedSegment} (h : At isn acc p x.piece) (hx : x.piece.len < 2 ^ 31) (hn : n < 2 ^ 31) :
    (beforeOrEqual x.endSeq (pos isn (p + n)) ↔ x.piece.len ≤ n) ∧
      (before (pos isn (p + n)) x.endSeq ↔ n < x.piece.len) ∧ (before x.seq (pos isn (p + n)) ↔ 0 < n) := by
  have hs : x.seq = pos isn p := h.seq
  rw [x.endSeq_eq, hs, add_asU32, beforeOrEqual_pos (by omega) (by omega), before_pos (by omega) (by omega),
    before_pos (by omega) (by omega)]
  omega

/-- **The ACK loop.** Popping the segments that end at or before the ACK number and trimming the next one is the cut; the
count is the payload that goes, and the flag tells whether a FIN goes. -/
theorem ackLoop_trimFront (rtt : RttEstimator) (nowMs : ℕ) (hc : Chain isn acc p (l.map TrackedSegment.piece))
    (hfin : ∀ x ∈ l.map TrackedSegment.piece, x.fin = true → x.payload = [])
    (hn : n ≤ total (l.map TrackedSegment.piece)) (hroom : total (l.map TrackedSegment.piece) < 2 ^ 31)
    (acked : ℕ) (fin : Bool) (sample : Option ℕ) {rest : List TrackedSegment} {acked' : ℕ} {fin' : Bool}
    {sample' : Option ℕ} (hloop : Connection.ackLoop rtt (pos isn (p + n)) nowMs l acked fin sample =
      (rest, acked', fin', sample')) {unacked : List TrackedSegment} {count : ℕ}
    (htrim : Connection.trimFront (pos isn (p + n)) rest = (unacked, count)) :
    let left := cut n (l.map TrackedSegment.piece)
    unacked.map TrackedSegment.piece = left ∧
      acked' + count + (bytes left).length = acked + (bytes (l.map TrackedSegment.piece)).length ∧
      fin' = (fin || decide (fins left < fins (l.map TrackedSegment.piece))) := by
  induction l generalizing p n acked fin sample with
  | nil =>
    cases hloop; cases htrim
    simp [cut]
  | cons x l ih =>
    rw [List.map_cons] at hc hfin hn hroom ⊢
    rw [total_cons] at hn hroom
    obtain ⟨he, hb, hs⟩ := endSeq_le_iff (n := n) hc.1 (by omega) (by omega)
    unfold Connection.ackLoop at hloop
    by_cases h1 : x.piece.len ≤ n
    · rw [if_pos (he.2 h1)] at hloop
      have hpos : p + x.piece.len + (n - x.piece.len) = p + n := by omega
      obtain ⟨i1, i2, i3⟩ := ih (n := n - x.piece.len) hc.2.2 (fun y hy => hfin y (List.mem_cons_of_mem _ hy))
        (by omega) (by omega) _ _ _ (by rw [hpos]; exact hloop) (by rw [hpos]; exact htrim)
      have hle := fins_cut_le (n - x.piece.len) (l.map TrackedSegment.piece)
      have hx : x.piece.payload = x.payload ∧ x.piece.fin = x.flags.contains .FIN := ⟨rfl, rfl⟩
      rw [cut, if_pos h1]
      refine ⟨i1, ?_, ?_⟩
      · rw [i2, bytes_cons, List.length_append, hx.1]; omega
      · rw [i3, show fins (x.piece :: l.map TrackedSegment.piece) =
          fins (l.map TrackedSegment.piece) + (x.flags.contains .FIN).toNat by
            rw [fins, List.countP_cons, hx.2]; cases x.flags.contains .FIN <;> rfl]
        cases x.flags.contains .FIN <;> cases fin <;> simp; omega
    · rw [if_neg (fun h => h1 (he.1 h))] at hloop
      cases hloop
      rw [cut, if_neg h1]
      by_cases h2 : n = 0
      · rw [if_pos h2]
        rw [Connection.trimFront, if_neg fun h => absurd (hs.1 h.1) (by omega)] at htrim
        cases htrim
        simp
      · obtain ⟨h3, h4, h5⟩ := len_split hc.1 (hfin _ List.mem_cons_self) h2 (by omega)
        have h3' : x.flags.contains .SYN = false := h3
        have h4' : x.flags.contains .FIN = false := h4
        have h5' : n < x.payload.length := h5
        have hd : distance x.seq (pos isn (p + n)) = n := by
          rw [show x.seq = pos isn p from hc.1.seq, distance_pos (by omega) (by omega)]; omega
        simp only [Connection.trimFront, hs, hb, hd, Nat.min_eq_left h5'.le] at htrim
        rw [if_pos ⟨by omega, by omega, by simp [h3'], by simp [h4']⟩] at htrim
        cases htrim
        rw [if_neg h2]
        refine ⟨?_, ?_, ?_⟩
        · rw [List.map_cons, pos_add, ← hc.1.seq]; rfl
        · simp only [bytes_cons, List.length_append, TrackedSegment.piece, List.length_drop]; omega
        · simp [fins, List.countP_cons]

end Cut

namespace Connection

variable {P : Type}

/-- the states after the handshake -/
def Synchronized (c : Connection P) : Prop := c.state ≠ .synSent ∧ c.state ≠ .synReceived

instance (c : Connection P) : Decidable c.Synchronized := inferInstanceAs (Decidable (_ ∧ _))

/-- the states in which the application may send -/
def Sending (c : Connection P) : Prop := c.state = .established ∨ c.state = .closeWait

/-- the bytes accepted and not yet acknowledged -/
def buffered (c : Connection P) : ℕ := c.sendQueue.length + (c.unacked.map (·.payload.length)).sum

/-- an ACK number in the flight and beyond its start -/
def Advances (c : Connection P) (ack : U32) : Prop :=
  ¬ after ack c.sendNxt ∧ ¬ before ack c.sendUna ∧ ack ≠ c.sendUna

/-- an ACK that advances `send_una`, with what the ACK of a FIN does to the state -/
def afterAck (c : Connection P) (ack : U32) (nowMs : ℕ) (config : Config) : Option (Connection P) :=
  let (c1, outcome) := c.advanceAck ack nowMs
  if outcome.finAcked then c1.finAcked nowMs config else some c1

def sender (c : Connection P) : Sender 32 U8 where
  phase := c.state.phase
  una := c.sendUna
  nxt := c.sendNxt
  flight := c.unacked.map TrackedSegment.piece
  queue := c.sendQueue
  closeWanted := c.closeRequested
  accepted := c.sendProgress.acceptedPayloadBytes
  acked := c.sendProgress.ackedPayloadBytes

def receiver (c : Connection P) : Receiver := ⟨c.recvNxt, c.recvQueue, c.reassembly, c.readClosed⟩

def stable (c : Connection P) : Stable P :=
  ⟨c.peer, c.localPort, c.remotePort, c.receiveCapacity, c.maxTransmissions⟩

/-! ## The data path -/

section DataPath

variable {c : Connection P} {segment : Segment}

theorem onSegment_synchronized (hst : c.Synchronized) (hrst : segment.flags.contains .RST = false) (nowMs : ℕ) (config : Config) :
    c.onSegment segment nowMs config = c.onSynchronized segment nowMs config := by
  unfold onSegment
  rw [if_neg (by simp [hrst])]
  cases hs : c.state with
  | synSent => exact absurd hs hst.1
  | synReceived => exact absurd hs hst.2
  | _ => rfl

theorem input_synchronized (hst : c.Synchronized) (hrst : segment.flags.contains .RST = false) (hsyn : segment.flags.contains .SYN = false)
    (nowMs : ℕ) (config : Config) : c.input segment nowMs config = c.onSynchronized segment nowMs config := by
  have hunacceptable : c.unacceptableAck segment = false := by simp [unacceptableAck, hst.1]
  have hunexpected : c.unexpectedSyn segment = false := by simp [unexpectedSyn, hsyn]
  unfold input
  rw [if_neg (by rw [hunacceptable]; decide), if_neg (by rw [hunexpected]; decide)]
  exact onSegment_synchronized hst hrst nowMs config

/-- what reaches the data path: neither a reset nor a SYN, which leave the connection as it is -/
theorem input_reaches (config : Config) (segment : Segment) (nowMs : ℕ) (hst : c.Synchronized) :
    (segment.flags.contains .RST = true ∨ segment.flags.contains .SYN = true) ∧
        (c.input segment nowMs config).1 = c ∨
      segment.flags.contains .RST = false ∧ segment.flags.contains .SYN = false ∧
        c.input segment nowMs config = c.onSynchronized segment nowMs config := by
  have hack : c.unacceptableAck segment = false := by simp [unacceptableAck, hst.1]
  cases hrst : segment.flags.contains .RST with
  | true =>
    refine .inl ⟨.inl rfl, ?_⟩
    have hsyn : c.unexpectedSyn segment = false := by simp [unexpectedSyn, hrst]
    unfold input
    rw [if_neg (by simp [hack]), if_neg (by simp [hsyn]), onSegment, if_pos hrst]
  | false =>
    cases hsyn : segment.flags.contains .SYN with
    | false => exact .inr ⟨rfl, rfl, input_synchronized hst hrst hsyn nowMs config⟩
    | true =>
      have hiff : c.unexpectedSyn segment = true := by simp [unexpectedSyn, hrst, hsyn, hst.1, hst.2]
      unfold input
      exact .inl ⟨.inr rfl, by rw [if_neg (by simp [hack]), if_pos hiff]⟩

end DataPath

/-! ## Primitives that move neither half -/

section Quiet

variable (c : Connection P) (window : U16) (nowMs : ℕ) (timeout : Bool) (config : Config) (segment : Segment)

@[simp] theorem updateRemoteWindow_sender : (c.updateRemoteWindow window nowMs).sender = c.sender := by
  unfold updateRemoteWindow; split_ifs <;> rfl

theorem updateRemoteWindow_frame :
    (c.updateRemoteWindow window nowMs).receiver = c.receiver ∧ (c.updateRemoteWindow window nowMs).stable = c.stable ∧
      (c.updateRemoteWindow window nowMs).mss = c.mss ∧ (c.updateRemoteWindow window nowMs).state = c.state := by
  unfold updateRemoteWindow; split_ifs <;> exact ⟨rfl, rfl, rfl, rfl⟩

theorem updateRemoteWindow_progress : (c.updateRemoteWindow window nowMs).sendProgress = c.sendProgress := by
  unfold updateRemoteWindow; split_ifs <;> rfl

theorem updateRemoteWindow_le : (c.updateRemoteWindow window nowMs).remoteWindow ≤ 65535 := by
  unfold updateRemoteWindow
  split_ifs
  · exact Nat.zero_le _
  · have := window.isLt
    simp only; omega

/-- the retransmission of the oldest segment counts and times it, and changes nothing else -/
theorem retransmitOldest_cases :
    c.retransmitOldest nowMs timeout = (c, none) ∨
      ∃ tracked rest transmissions duplicateAcks, c.unacked = tracked :: rest ∧ tracked.transmissions < c.maxTransmissions ∧
        c.retransmitOldest nowMs timeout =
          ({ c with
            rtt := c.rtt.onRetransmit c.sendNxt
            unacked := { tracked with sentAtMs := nowMs, transmissions } :: rest
            duplicateAcks }, some (c.segmentFor tracked)) := by
  unfold retransmitOldest
  cases h : c.unacked with
  | nil => exact .inl rfl
  | cons tracked rest =>
    by_cases ht : c.maxTransmissions ≤ tracked.transmissions
    · exact .inl (by simp only [if_pos ht])
    · exact .inr ⟨tracked, rest, _, _, rfl, by omega, by simp only [if_neg ht]; rfl⟩

@[simp] theorem retransmitOldest_sender : (c.retransmitOldest nowMs timeout).1.sender = c.sender := by
  rcases c.retransmitOldest_cases nowMs timeout with h | ⟨tracked, rest, _, _, hu, -, h⟩
  · rw [h]
  · rw [h]; simp only [sender, hu]; rfl

theorem retransmitOldest_frame :
    (c.retransmitOldest nowMs timeout).1.receiver = c.receiver ∧ (c.retransmitOldest nowMs timeout).1.stable = c.stable ∧
      (c.retransmitOldest nowMs timeout).1.mss = c.mss ∧ (c.retransmitOldest nowMs timeout).1.state = c.state ∧
      (c.retransmitOldest nowMs timeout).1.remoteWindow = c.remoteWindow := by
  rcases c.retransmitOldest_cases nowMs timeout with h | ⟨_, _, _, _, -, -, h⟩
  · rw [h]; exact ⟨rfl, rfl, rfl, rfl, rfl⟩
  · rw [h]; exact ⟨rfl, rfl, rfl, rfl, rfl⟩

end Quiet

/-! ## Sending -/

section Sending

variable (c : Connection P) (count : ℕ) (nowMs : ℕ)

theorem sendQueued_sender : (c.sendQueued count nowMs).1.sender = c.sender.push count := by
  simp only [sender, sendQueued, sendTracked, Sender.push, List.map_append, List.map_cons, List.map_nil,
    TrackedSegment.endSeq_eq, TrackedSegment.piece, Piece.len, data_flags, Bool.toNat_false, Nat.add_zero]
  rfl

theorem sendFin_sender : (c.sendFin nowMs).1.sender = c.sender.pushFin := by
  simp only [sender, sendFin, sendTracked, Sender.pushFin, List.map_append, List.map_cons, List.map_nil,
    TrackedSegment.endSeq_eq, TrackedSegment.piece, Piece.len, fin_flags, Bool.toNat_false, Bool.toNat_true]
  split_ifs <;> rfl

/-- a probe repeats a byte in flight, sends the first byte of the queue, or there is nothing to send -/
theorem zeroWindowProbe_cases :
    (∃ segment ∈ c.unacked, segment.payload ≠ [] ∧ c.zeroWindowProbe nowMs =
        ({ c with rtt := c.rtt.onRetransmit c.sendNxt },
          some (buildSegment (c.header segment.seq (Flags.ACK.union .PSH)) (segment.payload.take 1)))) ∨
      (∀ segment ∈ c.unacked, segment.payload = []) ∧
        (c.sendQueue = [] ∧ c.zeroWindowProbe nowMs = (c, none) ∨
          c.sendQueue ≠ [] ∧ c.zeroWindowProbe nowMs = ((c.sendQueued 1 nowMs).1, some (c.sendQueued 1 nowMs).2)) := by
  unfold zeroWindowProbe
  cases hf : c.unacked.find? fun segment => !segment.payload.isEmpty with
  | some segment =>
    have hp := List.find?_some hf
    exact .inl ⟨segment, List.mem_of_find?_eq_some hf, by simpa using hp, rfl⟩
  | none =>
    refine .inr ⟨fun x hx => by simpa using List.find?_eq_none.1 hf x hx, ?_⟩
    by_cases hq : c.sendQueue = []
    · exact .inl ⟨hq, by simp only [if_pos hq]⟩
    · exact .inr ⟨hq, by simp only [if_neg hq]⟩

@[simp] theorem sendQueued_receiver : (c.sendQueued count nowMs).1.receiver = c.receiver := rfl
@[simp] theorem sendQueued_stable : (c.sendQueued count nowMs).1.stable = c.stable := rfl
@[simp] theorem sendFin_receiver : (c.sendFin nowMs).1.receiver = c.receiver := rfl
theorem sendFin_state :
    (c.sendFin nowMs).1.state = if c.state = .established then .finWait1 else .lastAck := rfl
@[simp] theorem sendFin_stable : (c.sendFin nowMs).1.stable = c.stable := rfl

theorem flushLoop_frame (fuel : ℕ) :
    (flushLoop nowMs fuel c).1.receiver = c.receiver ∧ (flushLoop nowMs fuel c).1.stable = c.stable := by
  induction fuel generalizing c with
  | zero => exact ⟨rfl, rfl⟩
  | succ fuel ih =>
    simp only [flushLoop]
    split_ifs
    · exact ⟨rfl, rfl⟩
    · exact ih _

theorem flushData_frame : (c.flushData nowMs).1.receiver = c.receiver ∧ (c.flushData nowMs).1.stable = c.stable := by
  unfold flushData flushFin
  split_ifs
  · obtain ⟨h1, h2⟩ := c.flushLoop_frame nowMs c.sendQueue.length
    simp only
    split_ifs
    · exact ⟨h1, h2⟩
    · exact ⟨h1, h2⟩
  · exact ⟨rfl, rfl⟩

end Sending

/-! ## Acknowledgments -/

section Acks

variable {c : Connection P} {isn : U32} {limit : ℕ} {acc : List U8} {ack : U32}

/-- what is left of the flight after an ACK -/
def leftAfter (c : Connection P) (ack : U32) : List (Piece 32 U8) :=
  cut (distance c.sendUna ack) (c.unacked.map TrackedSegment.piece)

/-- the flight holds a FIN in the closing phase, and only there -/
theorem fins_flight (h : c.sender.Inv isn limit acc) :
    fins (c.unacked.map TrackedSegment.piece) = if c.state.phase = .closing then 1 else 0 := by
  have hs := h.shape
  have hdata : ∀ l : List (Piece 32 U8), (∀ x ∈ l, x.IsData) → fins l = 0 := fun l hl =>
    List.countP_eq_zero.2 fun x hx => by simp [(hl x hx).fin]
  change c.state.phase.Shape (c.unacked.map TrackedSegment.piece) at hs
  cases hp : c.state.phase with
  | opening =>
    rw [hp] at hs
    obtain ⟨x, hx, hsyn⟩ := hs
    simp [hx, fins, hsyn.fin]
  | running => rw [hp] at hs; simp [hdata _ hs]
  | closing =>
    rw [hp] at hs
    obtain ⟨ds, f, hl, hds, hf⟩ := hs
    have h0 : List.countP (·.fin) ds = 0 := hdata ds hds
    simp [hl, fins, hf.fin, h0]
  | closed => rw [hp] at hs; simp [show c.unacked.map TrackedSegment.piece = [] from hs, fins]

/-- the estimate after an ACK: the sample that its loop gives, if there is one -/
theorem advanceAck_rtt (c : Connection P) (ack : U32) (nowMs : ℕ) :
    (c.advanceAck ack nowMs).1.rtt = (ackLoop c.rtt ack nowMs c.unacked 0 false none).2.2.2.elim c.rtt c.rtt.sample := by
  unfold advanceAck
  obtain ⟨rest, acked, fin, sample⟩ := ackLoop c.rtt ack nowMs c.unacked 0 false none
  cases sample <;> rfl

/-- **An ACK that advances.** It cuts the flight, counts the payload that goes, and tells whether the FIN goes. -/
theorem advanceAck_sender (h : c.sender.Inv isn limit acc) (hlim : limit < 2 ^ 31) (nowMs : ℕ)
    (hn : distance c.sendUna ack ≤ total (c.unacked.map TrackedSegment.piece)) :
    (c.advanceAck ack nowMs).1.sender = { c.sender with
        una := ack
        flight := c.leftAfter ack
        acked := c.sender.acked + ((bytes c.sender.flight).length - (bytes (c.leftAfter ack)).length) } ∧
      (c.advanceAck ack nowMs).2 = ⟨decide (c.state.phase = .closing ∧ c.leftAfter ack = []), none⟩ := by
  have hroom := h.room
  have hack : ack = pos isn (c.sender.unaPos acc + distance c.sendUna ack) := by
    rw [← pos_pos, ← h.una]; exact (pos_dist _ _).symm
  rcases hloop : ackLoop c.rtt ack nowMs c.unacked 0 false none with ⟨rest, acked, fin, sample⟩
  rcases htrim : trimFront ack rest with ⟨unacked, count⟩
  have hloop' := hloop
  have htrim' := htrim
  rw [hack] at hloop' htrim'
  have hroom' : total (c.unacked.map TrackedSegment.piece) < 2 ^ 31 := lt_of_le_of_lt hroom hlim
  obtain ⟨h1, h2, h3⟩ := ackLoop_trimFront c.rtt nowMs h.chain h.fin_payload hn hroom' 0 false none hloop' htrim'
  have hleft : c.leftAfter ack = cut (distance c.sendUna ack) (c.unacked.map TrackedSegment.piece) := rfl
  rw [← hleft] at h1 h2 h3
  have hbytes : bytes c.sender.flight = bytes (c.unacked.map TrackedSegment.piece) := rfl
  unfold advanceAck
  simp only [hloop, htrim]
  refine ⟨?_, ?_⟩
  · simp only [sender, SendProgress.acknowledge, h1, Sender.mk.injEq, true_and]
    omega
  · -- the FIN goes with the whole flight
    have hf := fins_flight h
    have hfin : fins (c.leftAfter ack) < fins (c.unacked.map TrackedSegment.piece) ↔
        c.state.phase = .closing ∧ c.leftAfter ack = [] := by
      by_cases hp : c.state.phase = .closing
      · rw [hf, if_pos hp]
        refine ⟨fun hlt => ⟨hp, ?_⟩, fun hl => by simp [hl.2, fins]⟩
        obtain ⟨ds, f, hl, hds, hF⟩ : ∃ ds f, c.unacked.map TrackedSegment.piece = ds ++ [f] ∧
            (∀ x ∈ ds, Piece.IsData x) ∧ Piece.IsFin f := by
          have hs := h.shape
          change c.state.phase.Shape (c.unacked.map TrackedSegment.piece) at hs
          rw [hp] at hs; exact hs
        rw [hl, total_append, total_cons, total_nil, hF.len] at hn
        rw [leftAfter, hl, cut_concat hF.len hn] at hlt ⊢
        split_ifs at hlt ⊢
        · rfl
        · simp [fins, hF.fin] at hlt
      · rw [hf, if_neg hp]; simp [hp]
    simp only [h3, Bool.false_or, hfin]

theorem applyAck_of_advances (h : c.Advances ack) (nowMs : ℕ) (duplicate : Bool) :
    c.applyAck ack nowMs duplicate = c.advanceAck ack nowMs := by
  rw [applyAck, if_neg (by simp [h.1, h.2.1]), if_neg h.2.2]

/-- an ACK number in the window is `send_una` plus at most the flight, whoever sent it -/
theorem Advances.within (h : c.sender.Inv isn limit acc) (hadv : c.Advances ack) :
    0 < distance c.sendUna ack ∧ distance c.sendUna ack ≤ total (c.unacked.map TrackedSegment.piece) := by
  have hnxt : c.sendNxt = pos c.sendUna (total (c.unacked.map TrackedSegment.piece)) := h.nxt_eq_add
  obtain ⟨hle, heq⟩ := ack_within hadv.2.1 (by rw [← hnxt]; exact hadv.1)
  refine ⟨Nat.pos_of_ne_zero fun h0 => hadv.2.2 ?_, hle⟩
  rw [heq, h0, pos_zero]

/-- while something is in flight, the ACK of all of it advances -/
theorem advances_sendNxt (h : c.sender.Inv isn limit acc) (hlim : limit < 2 ^ 31) (hne : c.unacked ≠ []) :
    c.Advances c.sendNxt ∧ distance c.sendUna c.sendNxt = total (c.unacked.map TrackedSegment.piece) := by
  have hroom : total (c.unacked.map TrackedSegment.piece) ≤ limit := h.room
  have hnxt : c.sendNxt = pos c.sendUna (total (c.unacked.map TrackedSegment.piece)) := h.nxt_eq_add
  have hpos : total (c.unacked.map TrackedSegment.piece) ≠ 0 := fun h0 => by
    have hnil : c.unacked.map TrackedSegment.piece = [] := h.chain.eq_nil_iff.2 h0
    rw [List.map_eq_nil_iff] at hnil; exact hne hnil
  generalize total (c.unacked.map TrackedSegment.piece) = t at *
  have hd : distance c.sendUna c.sendNxt = t := by rw [hnxt]; exact dist_base _ (by omega)
  refine ⟨⟨not_lt_self _, fun hb => ?_, fun he => ?_⟩, hd⟩
  · have hb' : before (pos c.sendUna t) (pos c.sendUna 0) := by rw [← hnxt, pos_zero]; exact hb
    rw [before_pos (by omega) (by omega)] at hb'; omega
  · rw [he, distance_self] at hd; omega

/-- the SYN is in flight until the handshake is over -/
theorem unacked_opening (h : c.sender.Inv isn limit acc) (hp : c.state.phase = .opening) : c.unacked ≠ [] := by
  have hs := h.shape
  change c.state.phase.Shape (c.unacked.map TrackedSegment.piece) at hs
  rw [hp] at hs
  obtain ⟨x, hx, -⟩ := hs
  rintro hnil
  rw [hnil] at hx; cases hx

/-- an ACK that leaves nothing in flight is the ACK of all of it -/
theorem leftAfter_eq_nil (h : c.sender.Inv isn limit acc) (hlim : limit < 2 ^ 31) (hadv : c.Advances ack) :
    c.leftAfter ack = [] ↔ ack = c.sendNxt := by
  obtain ⟨h0, hn⟩ := hadv.within h
  have hnxt : c.sendNxt = pos c.sendUna (total (c.unacked.map TrackedSegment.piece)) := h.nxt_eq_add
  have hack : ack = pos c.sendUna (distance c.sendUna ack) := (pos_dist _ _).symm
  have hchain : Chain isn acc _ (c.leftAfter ack) := chain_cut h.chain h.fin_payload hn
  have htot : total (c.leftAfter ack) = total (c.unacked.map TrackedSegment.piece) - distance c.sendUna ack :=
    total_cut h.chain h.fin_payload hn
  rw [hchain.eq_nil_iff, htot]
  constructor
  · intro hz
    rw [hack, hnxt]; congr 1; omega
  · rintro rfl
    have hne : c.unacked ≠ [] := fun hnil => by rw [hnil] at hn; simp at hn; omega
    rw [(advances_sendNxt h hlim hne).2]; omega

/-- **The ACK of a synchronized connection** is the acknowledgment of the window sender, but for the ACK of the FIN in
LAST-ACK, which removes the connection. -/
theorem afterAck_sender (h : c.sender.Inv isn limit acc) (hlim : limit < 2 ^ 31) (hst : c.Synchronized)
    (hadv : c.Advances ack) (nowMs : ℕ) (config : Config) :
    (c.afterAck ack nowMs config = none ↔ c.state = .lastAck ∧ c.leftAfter ack = []) ∧
      ∀ c', c.afterAck ack nowMs config = some c' → c'.sender = c.sender.ack ack := by
  obtain ⟨h1, h2⟩ := advanceAck_sender h hlim nowMs (hadv.within h).2
  have hstate : (c.advanceAck ack nowMs).1.state = c.state := rfl
  -- the two senders differ in nothing but the phase
  have hack : ∀ {c' : Connection P}, c'.sender = { (c.advanceAck ack nowMs).1.sender with phase := c'.state.phase } →
      (c.sender.ack ack).phase = c'.state.phase → c'.sender = c.sender.ack ack := fun hc hp => by
    rw [hc, ← hp, h1]; rfl
  have hleft : cut (dist c.sender.una ack) c.sender.flight = c.leftAfter ack := rfl
  have hphase : c.sender.phase = c.state.phase := rfl
  simp only [afterAck, h2, finAcked, hstate, decide_eq_true_eq]
  cases hs : c.state with
  | synSent => exact absurd hs hst.1
  | synReceived => exact absurd hs hst.2
  | established | closeWait | finWait2 | timeWait =>
    refine ⟨by simp [State.phase], fun c' hc => ?_⟩
    simp only [State.phase, reduceCtorEq, false_and, if_false, Option.some.injEq] at hc
    subst hc
    exact hack rfl (by simp only [Sender.ack, hphase, hs, State.phase, hstate])
  | lastAck =>
    by_cases hl : c.leftAfter ack = []
    · simp [State.phase, hl]
    · refine ⟨by simp [State.phase, hl], fun c' hc => ?_⟩
      simp only [hl, and_false, if_false, Option.some.injEq] at hc
      subst hc
      exact hack rfl (by simp only [Sender.ack, hphase, hs, State.phase, hstate, hleft, hl, if_false])
  | finWait1 | closing =>
    by_cases hl : c.leftAfter ack = []
    · refine ⟨by simp [State.phase, hl], fun c' hc => ?_⟩
      simp only [State.phase, hl, and_self, if_true, Option.some.injEq] at hc
      subst hc
      exact hack rfl (by simp only [Sender.ack, hphase, hs, State.phase, hleft, hl, if_true, enterTimeWait])
    · refine ⟨by simp [State.phase, hl], fun c' hc => ?_⟩
      simp only [hl, and_false, if_false, Option.some.injEq] at hc
      subst hc
      exact hack rfl (by simp only [Sender.ack, hphase, hs, State.phase, hstate, hleft, hl, if_false])

/-- an ACK repeats `send_una`, with or without a retransmission, or advances it -/
theorem applyAck_preserves {Q : Connection P → Prop} (c : Connection P) (ack : U32) (nowMs : ℕ) (duplicate : Bool)
    (hrepeat : ∀ duplicateAcks reno, reno.mss = c.reno.mss → Q { c with duplicateAcks, reno })
    (hretransmit : ∀ duplicateAcks reno, reno.mss = c.reno.mss → Q ({ c with duplicateAcks, reno }.retransmitOldest nowMs false).1)
    (hadvance : Q (c.advanceAck ack nowMs).1) : Q (c.applyAck ack nowMs duplicate).1 := by
  unfold applyAck
  split_ifs
  · exact hrepeat c.duplicateAcks c.reno rfl
  · unfold repeatAck
    simp only
    split_ifs
    · exact hretransmit (satSucc8 c.duplicateAcks) _ (by simp)
    · exact hrepeat (satSucc8 c.duplicateAcks) _ (by simp)
    · exact hrepeat 0 c.reno rfl
  · exact hadvance

theorem applyAck_frame (c : Connection P) (ack : U32) (nowMs : ℕ) (duplicate : Bool) :
    (c.applyAck ack nowMs duplicate).1.receiver = c.receiver ∧ (c.applyAck ack nowMs duplicate).1.stable = c.stable ∧
      (c.applyAck ack nowMs duplicate).1.mss = c.mss ∧ (c.applyAck ack nowMs duplicate).1.state = c.state ∧
      (c.applyAck ack nowMs duplicate).1.remoteWindow = c.remoteWindow := by
  refine applyAck_preserves (Q := fun c' => c'.receiver = c.receiver ∧ c'.stable = c.stable ∧ c'.mss = c.mss ∧
    c'.state = c.state ∧ c'.remoteWindow = c.remoteWindow) c ack nowMs duplicate (fun _ _ _ => ?_) (fun _ _ _ => ?_) ?_
  · exact ⟨rfl, rfl, rfl, rfl, rfl⟩
  · exact retransmitOldest_frame _ nowMs false
  · exact ⟨rfl, rfl, rfl, rfl, rfl⟩

theorem establishServer_frame (c : Connection P) (segment : Segment) (nowMs : ℕ) :
    (c.establishServer segment nowMs).receiver = c.receiver ∧ (c.establishServer segment nowMs).stable = c.stable ∧
      (c.establishServer segment nowMs).mss = c.mss ∧ (c.establishServer segment nowMs).state = .established := by
  obtain ⟨h1, h2, h3, -, -⟩ := c.applyAck_frame c.sendNxt nowMs false
  obtain ⟨h4, h5, h6, -⟩ := (c.applyAck c.sendNxt nowMs false).1.updateRemoteWindow_frame segment.window nowMs
  exact ⟨h4.trans h1, h5.trans h2, h6.trans h3, rfl⟩

theorem establishClient_frame (c : Connection P) (segment : Segment) (nowMs : ℕ) (config : Config) :
    (c.establishClient segment nowMs config).receiver = { c.receiver with recvNxt := segment.seq + 1 } ∧
      (c.establishClient segment nowMs config).stable = c.stable ∧
      0 < (c.establishClient segment nowMs config).mss ∧
      (c.establishClient segment nowMs config).state = .established := by
  obtain ⟨h1, h2, -, -⟩ := c.updateRemoteWindow_frame segment.window nowMs
  obtain ⟨h3, h4, h5, -, -⟩ := ((c.updateRemoteWindow segment.window nowMs).negotiateMss segment config).applyAck_frame
    ((c.updateRemoteWindow segment.window nowMs).negotiateMss segment config).sendNxt nowMs false
  refine ⟨?_, h4.trans h2, ?_, rfl⟩
  · rw [← h1]
    exact congrArg (fun r : Receiver => { r with recvNxt := segment.seq + 1 }) h3
  · change 0 < (applyAck _ _ _ _).1.mss
    rw [h5]
    exact Nat.lt_of_lt_of_le Nat.one_pos (le_max_right _ _)

/-- what an ACK leaves alone -/
theorem afterAck_frame (nowMs : ℕ) (config : Config) {c' : Connection P} (h : c.afterAck ack nowMs config = some c') :
    c'.receiver = c.receiver ∧ c'.stable = c.stable ∧ c'.mss = c.mss ∧ c'.remoteWindow = c.remoteWindow := by
  have hstate : (c.advanceAck ack nowMs).1.state = c.state := rfl
  unfold afterAck finAcked at h
  simp only [hstate] at h
  split_ifs at h
  · split at h <;> cases h <;> exact ⟨rfl, rfl, rfl, rfl⟩
  · cases h; exact ⟨rfl, rfl, rfl, rfl⟩

/-- the states an ACK can lead to -/
theorem afterAck_state (nowMs : ℕ) (config : Config) {c' : Connection P} (h : c.afterAck ack nowMs config = some c') :
    c'.state = c.state ∨ c.state = .finWait1 ∧ c'.state = .finWait2 ∨ c.state = .closing ∧ c'.state = .timeWait := by
  have hstate : (c.advanceAck ack nowMs).1.state = c.state := rfl
  unfold afterAck finAcked at h
  simp only [hstate] at h
  split_ifs at h
  · split at h <;> rename_i hs <;> cases h
    · exact .inr (.inl ⟨hs, rfl⟩)
    · exact .inr (.inr ⟨hs, rfl⟩)
    · exact .inl rfl
  · cases h; exact .inl rfl

/-- the end of the handshake acknowledges the SYN -/
theorem establish_sender (h : c.sender.Inv isn limit acc) (hlim : limit < 2 ^ 31) (hp : c.state.phase = .opening)
    (nowMs : ℕ) {c' : Connection P} (hc : c'.sender = { (c.advanceAck c.sendNxt nowMs).1.sender with phase := .running }) :
    c'.sender = c.sender.ack c.sendNxt := by
  obtain ⟨h1, -⟩ := advanceAck_sender h hlim nowMs ((advances_sendNxt h hlim (unacked_opening h hp)).1.within h).2
  rw [hc, h1, Sender.ack]
  simp only [sender, hp]; rfl

theorem establishServer_sender (h : c.sender.Inv isn limit acc) (hlim : limit < 2 ^ 31)
    (hst : c.state = .synReceived) (segment : Segment) (nowMs : ℕ) :
    (c.establishServer segment nowMs).sender = c.sender.ack c.sendNxt := by
  have hp : c.state.phase = .opening := by rw [hst]; rfl
  refine establish_sender h hlim hp nowMs ?_
  unfold establishServer
  rw [applyAck_of_advances (advances_sendNxt h hlim (unacked_opening h hp)).1]
  have := updateRemoteWindow_sender (c.advanceAck c.sendNxt nowMs).1 segment.window nowMs
  simp only [sender, Sender.mk.injEq] at this ⊢
  exact ⟨rfl, this.2⟩

theorem establishClient_sender (h : c.sender.Inv isn limit acc) (hlim : limit < 2 ^ 31)
    (hst : c.state = .synSent) (segment : Segment) (nowMs : ℕ) (config : Config) :
    (c.establishClient segment nowMs config).sender = c.sender.ack c.sendNxt := by
  have hp : c.state.phase = .opening := by rw [hst]; rfl
  have hc1 : ((c.updateRemoteWindow segment.window nowMs).negotiateMss segment config).sender = c.sender :=
    updateRemoteWindow_sender c segment.window nowMs
  generalize hc : (c.updateRemoteWindow segment.window nowMs).negotiateMss segment config = c1 at hc1
  have hp1 : c1.state.phase = .opening := by rw [← hp]; exact congrArg Sender.phase hc1
  have hn : c1.sendNxt = c.sendNxt := congrArg Sender.nxt hc1
  rw [← hc1] at h
  rw [← hc1, ← hn]
  refine establish_sender h hlim hp1 nowMs ?_
  simp only [establishClient, hc, applyAck_of_advances (advances_sendNxt h hlim (unacked_opening h hp1)).1]
  rfl

end Acks

/-! ## Receiving -/

section Receiving

variable {c : Connection P} {nowMs : ℕ} {config : Config}

/-- everything but the receiving half, the state and its deadlines -/
def outgoing (c : Connection P) : Connection P :=
  { c with
    recvNxt := 0
    recvQueue := []
    reassembly := []
    readClosed := false
    state := .established
    finWait2UntilMs := none
    timeWaitUntilMs := none }

theorem sender_eq_of_outgoing {c' : Connection P} (h : c'.outgoing = c.outgoing) (hp : c'.state.phase = c.state.phase) :
    c'.sender = c.sender := by
  have h1 : { c'.outgoing.sender with phase := c'.state.phase } = { c.outgoing.sender with phase := c.state.phase } := by
    rw [h, hp]
  exact h1

theorem outgoing_frame {c' : Connection P} (h : c'.outgoing = c.outgoing) :
    c'.mss = c.mss ∧ c'.remoteWindow = c.remoteWindow ∧ c'.stable = c.stable := by
  have h1 := congrArg Connection.mss h
  have h2 := congrArg Connection.remoteWindow h
  have h3 := congrArg stable h
  exact ⟨h1, h2, h3⟩

/-- an invariant of one round of the loop is an invariant of the loop -/
theorem drainReassembly_invariant {I : Connection P → Prop} (hstep : ∀ c, I c → I (c.drainOnce nowMs config).1)
    (hc : I c) : I (c.drainReassembly nowMs config) := by
  unfold drainReassembly
  generalize c.reassembly.length + 1 = fuel
  induction fuel generalizing c with
  | zero => exact hc
  | succ fuel ih =>
    have h := hstep c hc
    unfold drainLoop
    rcases hd : c.drainOnce nowMs config with ⟨c', go⟩
    rw [hd] at h
    cases go with
    | true => exact ih h
    | false => exact h

/-- one round ends the loop with the chunks it keeps, or delivers one of them -/
theorem drainOnce_cases (c : Connection P) (nowMs : ℕ) (config : Config) :
    (∃ kept, kept = c.reassembly.filter (keepChunk c.recvNxt) ∧ (∀ x ∈ kept, dueChunk c.recvNxt x = false) ∧
        c.drainOnce nowMs config = ({ c with reassembly := kept }, false)) ∨
      ∃ x l₁ l₂, c.reassembly.filter (keepChunk c.recvNxt) = l₁ ++ x :: l₂ ∧ dueChunk c.recvNxt x = true ∧
        (∀ y ∈ l₁, dueChunk c.recvNxt y = false) ∧
        c.drainOnce nowMs config =
          { c with reassembly := l₁ ++ l₂ }.deliverChunk (trimChunk c.recvNxt x) nowMs config := by
  unfold drainOnce
  cases hf : (c.reassembly.filter (keepChunk c.recvNxt)).find? (dueChunk c.recvNxt) with
  | none => exact .inl ⟨_, rfl, fun x hx => by simpa using List.find?_eq_none.1 hf x hx, by simp only [hf]⟩
  | some x =>
    obtain ⟨hx, l₁, l₂, hl, hl₁⟩ := List.find?_eq_some_iff_append.1 hf
    have hl₁' : ∀ y ∈ l₁, dueChunk c.recvNxt y = false := fun y hy => by simpa using hl₁ y hy
    refine .inr ⟨x, l₁, l₂, hl, hx, hl₁', ?_⟩
    simp only [hf]
    rw [hl, List.eraseP_append_right _ (fun y hy => by simp [hl₁' y hy]), List.eraseP_cons_of_pos hx]

theorem onRemoteFin_outgoing (c : Connection P) (nowMs : ℕ) (config : Config) :
    (c.onRemoteFin nowMs config).outgoing = c.outgoing ∧ (c.onRemoteFin nowMs config).state.phase = c.state.phase := by
  unfold onRemoteFin
  simp only
  split <;> rename_i h
  case h_4 => exact ⟨rfl, rfl⟩
  all_goals exact ⟨rfl, by rw [h]; rfl⟩

theorem deliverChunk_outgoing (c : Connection P) (x : ReassemblySegment) (nowMs : ℕ) (config : Config) :
    (c.deliverChunk x nowMs config).1.outgoing = c.outgoing ∧
      (c.deliverChunk x nowMs config).1.state.phase = c.state.phase := by
  unfold deliverChunk
  simp only
  split_ifs
  · exact ⟨rfl, rfl⟩
  · exact onRemoteFin_outgoing _ nowMs config
  · exact ⟨rfl, rfl⟩

theorem drainReassembly_outgoing (c : Connection P) (nowMs : ℕ) (config : Config) :
    (c.drainReassembly nowMs config).outgoing = c.outgoing ∧
      (c.drainReassembly nowMs config).state.phase = c.state.phase := by
  refine drainReassembly_invariant (I := fun c' => c'.outgoing = c.outgoing ∧ c'.state.phase = c.state.phase)
    (fun c' hc => ?_) ⟨rfl, rfl⟩
  rcases c'.drainOnce_cases nowMs config with ⟨kept, -, -, h⟩ | ⟨x, l₁, l₂, -, -, -, h⟩ <;> rw [h]
  · exact hc
  · obtain ⟨h1, h2⟩ := deliverChunk_outgoing { c' with reassembly := l₁ ++ l₂ } (trimChunk c'.recvNxt x) nowMs config
    exact ⟨h1.trans hc.1, h2.trans hc.2⟩

/-- `insert_received` adds one chunk or nothing -/
theorem insertReceived_cases (c : Connection P) (seq : U32) (payload : List U8) (fin : Bool) (config : Config) :
    c.insertReceived seq payload fin config = c ∨
      ∃ chunk, c.receivedChunk seq payload fin = some chunk ∧ c.reassembly.length < config.maxReassemblySegments ∧
        c.insertReceived seq payload fin config = { c with reassembly := c.reassembly ++ [chunk] } := by
  unfold insertReceived
  cases h : c.receivedChunk seq payload fin with
  | none => exact .inl rfl
  | some chunk =>
    simp only
    split_ifs with h1 h2
    · exact .inl rfl
    · exact .inr ⟨chunk, rfl, h2, rfl⟩
    · exact .inl rfl

/-- **Receiving leaves the sending half alone.** -/
theorem receiveStreamData_outgoing (c : Connection P) (segment : Segment) (nowMs : ℕ) (config : Config) :
    (c.receiveStreamData segment nowMs config).1.outgoing = c.outgoing ∧
      (c.receiveStreamData segment nowMs config).1.state.phase = c.state.phase := by
  obtain ⟨h1, h2⟩ := drainReassembly_outgoing
    (c.insertReceived segment.seq segment.payload (segment.flags.contains .FIN) config) nowMs config
  have h3 : (c.insertReceived segment.seq segment.payload (segment.flags.contains .FIN) config).outgoing = c.outgoing ∧
      (c.insertReceived segment.seq segment.payload (segment.flags.contains .FIN) config).state = c.state := by
    rcases c.insertReceived_cases segment.seq segment.payload (segment.flags.contains .FIN) config with
      h | ⟨chunk, -, -, h⟩ <;> rw [h] <;> exact ⟨rfl, rfl⟩
  exact ⟨h1.trans h3.1, h2.trans (congrArg State.phase h3.2)⟩

theorem receiveStreamData_sender (c : Connection P) (segment : Segment) (nowMs : ℕ) (config : Config) :
    (c.receiveStreamData segment nowMs config).1.sender = c.sender :=
  sender_eq_of_outgoing (receiveStreamData_outgoing c segment nowMs config).1
    (receiveStreamData_outgoing c segment nowMs config).2

theorem receiveIfData_sender (c : Connection P) (segment : Segment) (nowMs : ℕ) (config : Config) :
    (c.receiveIfData segment nowMs config).1.sender = c.sender := by
  unfold receiveIfData
  split_ifs
  · exact receiveStreamData_sender c segment nowMs config
  · rfl

end Receiving

end Connection

end FipsTcp
