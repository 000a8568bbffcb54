/-
What an operation of a connection transmits, and what that counts for.

A tracked segment is identified by the position where it ends in the stream of sequence numbers (the SYN, the data, the FIN):
a partial ACK trims its start and leaves its end. `Funded` says that the transmission counts of the tracked segments agree with
a log of the end positions of everything emitted, and that no position has more than the budget.
- `Pays`: what is sent without an ACK is counted (`retransmitOldest_pays`, `flushData_pays`);
- `ackLoop_keeps`: the ACK loop leaves the counts in order;
- `Accounts`: so does every operation (`input_accounts`, `poll_accounts`); only the probe that repeats a byte in flight counts
  for nothing.
-/
import FipsTcp.Connection.Timers
import FipsTcp.Lib.Tally

namespace FipsTcp

open SendWindow Serial Tally

namespace Connection

variable {P : Type} {config : Config} {nowMs : ℕ} {inp : Option Segment} {isn : U32} {acc : List U8} {log : List ℕ}
  {c c' c1 c2 : Connection P} {out out' : List Segment} {n : ℕ}

/-! ## Positions of what is emitted -/

/-- the position of `send_una` in the stream of sequence numbers -/
def unaPosition (c : Connection P) : ℕ :=
  match c.state.phase with
  | .opening => 0
  | .running | .closing => 1 + c.sendProgress.ackedPayloadBytes
  | .closed => 2 + c.sendProgress.ackedPayloadBytes

/-- the position of a sequence number at or after `send_una` -/
def position (c : Connection P) (seq : U32) : ℕ := c.unaPosition + distance c.sendUna seq

/-- where the segments end that occupy sequence space -/
def endPositions (c : Connection P) (out : List Segment) : List ℕ :=
  (out.filter fun x => decide (x.sequenceLen ≠ 0)).map fun x => c.position (x.seq + x.sequenceLen)

/-- a poll of the connection repeats a byte in flight to probe the closed window -/
def RepeatsProbe (c : Connection P) : Prop := c.remoteWindow = 0 ∧ ∃ x ∈ c.unacked, x.payload ≠ []

instance : Decidable c.RepeatsProbe := by unfold RepeatsProbe; infer_instance

theorem SendInv.unaPosition_eq (hs : c.SendInv config isn acc) : c.unaPosition = c.sender.unaPos acc := hs.sender.unaPos_eq.symm

/-- positions are what they are called: the sequence number is the position, counted from the ISN -/
theorem SendInv.anchored (hs : c.SendInv config isn acc) : c.sendUna = isn + asU32 c.unaPosition := by
  have h : c.sendUna = pos isn (c.sender.unaPos acc) := hs.sender.una
  rw [h, hs.unaPosition_eq]; rfl

theorem position_add (c : Connection P) (hn : n < 2 ^ 32) : c.position (pos c.sendUna n) = c.unaPosition + n := by
  rw [position, distance_eq_dist, dist_base _ hn]

@[simp] theorem endPositions_nil (c : Connection P) : c.endPositions [] = [] := rfl

theorem endPositions_append (c : Connection P) (out out' : List Segment) :
    c.endPositions (out ++ out') = c.endPositions out ++ c.endPositions out' := by
  simp only [endPositions, List.filter_append, List.map_append]

theorem endPositions_congr (h : c'.sendUna = c.sendUna) (h' : c'.unaPosition = c.unaPosition) (out : List Segment) :
    c'.endPositions out = c.endPositions out := by
  simp only [endPositions, position, h, h']

/-- segments without a place in the stream do not count -/
theorem endPositions_quiet (h : ∀ x ∈ out, x.sequenceLen = 0) : c.endPositions out = [] := by
  rw [endPositions, List.filter_eq_nil_iff.2 fun x hx => by simp [h x hx]]
  rfl

/-- a tracked segment, wherever it is emitted -/
theorem endPositions_tracked {x : TrackedSegment} {y : Segment} (hseq : y.seq = pos c.sendUna n)
    (hlen : y.sequenceLen = asU32 x.piece.len) (h0 : 0 < x.piece.len) (hn : n + x.piece.len ≤ 65535) :
    c.endPositions [y] = [c.unaPosition + n + x.piece.len] := by
  have hne : y.sequenceLen ≠ 0 := fun h => by
    have hz : (asU32 x.piece.len).toNat = 0 := by rw [← hlen, h]; rfl
    rw [asU32, BitVec.toNat_ofNat, Nat.mod_eq_of_lt (by omega)] at hz
    omega
  simp only [endPositions, List.filter_cons, hne, ne_eq, not_false_eq_true, decide_true, if_true, List.filter_nil,
    List.map_cons, List.map_nil]
  rw [hseq, hlen, add_asU32, position_add c (by omega), Nat.add_assoc]

theorem asU32_ne_zero {n : ℕ} (h0 : 0 < n) (hn : n ≤ 65535) : asU32 n ≠ 0 := fun h => by
  have hnat := congrArg BitVec.toNat h
  rw [asU32, BitVec.toNat_ofNat, Nat.mod_eq_of_lt (by omega)] at hnat
  exact Nat.pos_iff_ne_zero.1 h0 hnat

theorem segmentFor_sequenceLen (c : Connection P) (x : TrackedSegment) : (c.segmentFor x).sequenceLen = asU32 x.piece.len := by
  rw [Segment.sequenceLen, flagLen_eq, flagLen_eq, asU32, asU32, asU32, ← BitVec.ofNat_add, ← BitVec.ofNat_add]
  rfl

/-- a segment without payload, SYN and FIN -/
theorem sequenceLen_empty {x : Segment} (hp : x.payload = []) (hs : x.flags.contains .SYN = false)
    (hf : x.flags.contains .FIN = false) : x.sequenceLen = 0 := by
  rw [Segment.sequenceLen, flagLen_eq, flagLen_eq, hp, hs, hf]
  rfl

theorem ackSegment_sequenceLen (c : Connection P) : c.ackSegment.sequenceLen = 0 :=
  sequenceLen_empty rfl ack_flags.1 ack_flags.2

theorem resetFor_sequenceLen (segment : Segment) : (resetFor segment).sequenceLen = 0 := by
  have hack : (Flags.RST.union .ACK).contains .SYN = false ∧ (Flags.RST.union .ACK).contains .FIN = false := by decide
  have hrst : Flags.RST.contains .SYN = false ∧ Flags.RST.contains .FIN = false := by decide
  unfold resetFor
  cases segment.ack with
  | none => exact sequenceLen_empty rfl hack.1 hack.2
  | some ack => exact sequenceLen_empty rfl hrst.1 hrst.2

theorem resetSegment_sequenceLen (c : Connection P) : c.resetSegment.sequenceLen = 0 :=
  sequenceLen_empty rfl (by decide : Flags.RST.contains .SYN = false) (by decide : Flags.RST.contains .FIN = false)

/-! ## Accounts -/

/-- the transmission counts of the connection agree with the log, and no position has more than the budget -/
structure Funded (config : Config) (isn : U32) (acc : List U8) (log : List ℕ) (c : Connection P) : Prop where
  send : c.SendInv config isn acc
  budget : c.maxTransmissions = config.maxRetransmissions.toNat
  bounded : Bounded (max 1 config.maxRetransmissions.toNat) log
  paid : Paid (fun x : TrackedSegment => x.piece.len) TrackedSegment.transmissions log c.unaPosition c.unacked

/-- the sum of the lengths is the flight -/
theorem sum_len (l : List TrackedSegment) : (l.map fun x => x.piece.len).sum = total (l.map TrackedSegment.piece) := by
  rw [total, List.map_map]; rfl

theorem SendInv.len_pos (hs : c.SendInv config isn acc) {x : TrackedSegment} (hx : x ∈ c.unacked) : 0 < x.piece.len :=
  hs.sender.chain.len_pos (List.mem_map_of_mem hx)

/-- **The count of a tracked segment.** -/
theorem Funded.count (h : Funded config isn acc log c) {x : TrackedSegment} (hx : x ∈ c.unacked) :
    log.count (c.position x.endSeq) = x.transmissions := by
  obtain ⟨before, after, hl⟩ := List.append_of_mem hx
  have hroom : total (c.unacked.map TrackedSegment.piece) ≤ 65535 := h.send.sender.room
  have hchain := h.send.sender.chain
  have hun : c.sendUna = pos isn (c.sender.unaPos acc) := h.send.sender.una
  change Chain isn acc _ (c.unacked.map TrackedSegment.piece) at hchain
  rw [hl, List.map_append, List.map_cons] at hchain hroom
  rw [total_append, total_cons] at hroom
  have hseq : x.seq = pos c.sendUna (total (before.map TrackedSegment.piece)) := by
    rw [hun, pos_pos]; exact (Chain.append_iff.1 hchain).2.1.seq
  rw [x.endSeq_eq, hseq, add_asU32, position_add c (by omega), ← Nat.add_assoc, ← sum_len]
  exact h.paid.mem hl

/-- an operation without an ACK pays for what it emits -/
structure Pays (config : Config) (c : Connection P) (out : List Segment) (c' : Connection P) : Prop where
  una : c'.sendUna = c.sendUna
  position : c'.unaPosition = c.unaPosition
  funded : ∀ {isn acc log}, Funded config isn acc log c → Funded config isn acc (log ++ c'.endPositions out) c'

theorem Pays.trans (h1 : Pays config c out c1) (h2 : Pays config c1 out' c2) : Pays config c (out ++ out') c2 := by
  refine ⟨h2.una.trans h1.una, h2.position.trans h1.position, fun h => ?_⟩
  rw [endPositions_append, endPositions_congr h2.una h2.position out, ← List.append_assoc]
  exact h2.funded (h1.funded h)

theorem unaPosition_congr (h : c'.sender = c.sender) : c'.unaPosition = c.unaPosition := by
  have hp : c'.state.phase = c.state.phase := congrArg Sender.phase h
  have ha : c'.sendProgress.ackedPayloadBytes = c.sendProgress.ackedPayloadBytes := congrArg Sender.acked h
  unfold unaPosition
  rw [hp, ha]

/-- nothing tracked is emitted -/
theorem Pays.quiet (hsend : c'.sender = c.sender) (hu : c'.unacked = c.unacked) (hmax : c'.maxTransmissions = c.maxTransmissions)
    (hinv : ∀ {isn acc}, c.SendInv config isn acc → c'.SendInv config isn acc) (hout : ∀ x ∈ out, x.sequenceLen = 0) :
    Pays config c out c' := by
  refine ⟨congrArg Sender.una hsend, unaPosition_congr hsend, fun h => ?_⟩
  rw [endPositions_quiet hout, List.append_nil]
  refine ⟨hinv h.send, hmax.trans h.budget, h.bounded, ?_⟩
  rw [unaPosition_congr hsend, hu]
  exact h.paid

theorem Pays.refl (c : Connection P) : Pays config c [] c := .quiet rfl rfl rfl id fun _ h => nomatch h

/-- **A new segment.** -/
theorem Pays.push {x : TrackedSegment} {y : Segment} (hu : c'.unacked = c.unacked ++ [x]) (hx : x.transmissions = 1)
    (hseq : x.seq = c.sendNxt) (huna : c'.sendUna = c.sendUna) (hpos : c'.unaPosition = c.unaPosition)
    (hmax : c'.maxTransmissions = c.maxTransmissions) (hinv : ∀ {isn acc}, c.SendInv config isn acc → c'.SendInv config isn acc)
    (hy : y.seq = x.seq) (hlen : y.sequenceLen = asU32 x.piece.len) : Pays config c [y] c' := by
  refine ⟨huna, hpos, fun {isn acc log} h => ?_⟩
  have hs' := hinv h.send
  have h0 : 0 < x.piece.len := hs'.len_pos (by rw [hu]; exact List.mem_append_right _ List.mem_cons_self)
  have hroom : total (c'.unacked.map TrackedSegment.piece) ≤ 65535 := hs'.sender.room
  have hnxt : c.sendNxt = pos c.sendUna (total (c.unacked.map TrackedSegment.piece)) := h.send.sender.nxt_eq_add
  rw [hu, List.map_append, total_append, List.map_cons, List.map_nil, total_cons, total_nil, Nat.add_zero] at hroom
  have hend : c'.endPositions [y] = [c'.unaPosition + total (c.unacked.map TrackedSegment.piece) + x.piece.len] :=
    endPositions_tracked (by rw [hy, hseq, hnxt, huna]) hlen h0 hroom
  rw [hend, hpos, ← sum_len]
  refine ⟨hs', hmax.trans h.budget, h.bounded.concat ?_, ?_⟩
  · rw [h.paid.beyond (by omega)]
    exact lt_of_lt_of_le Nat.one_pos (le_max_left _ _)
  · rw [hpos, hu]
    exact h.paid.push h0 hx

/-- a retransmission is one more transmission of the oldest segment, within the budget -/
theorem retransmitOldest_spends (nowMs : ℕ) (timeout : Bool) (hmax : c.maxTransmissions ≤ 255) :
    c.retransmitOldest nowMs timeout = (c, none) ∨
      ∃ oldest rest oldest', c.unacked = oldest :: rest ∧ oldest.transmissions < c.maxTransmissions ∧
        oldest'.piece = oldest.piece ∧ oldest'.transmissions = oldest.transmissions + 1 ∧ oldest'.sentAtMs = nowMs ∧
        (c.retransmitOldest nowMs timeout).1.unacked = oldest' :: rest ∧
        (c.retransmitOldest nowMs timeout).2 = some (c.segmentFor oldest) := by
  unfold retransmitOldest
  cases hu : c.unacked with
  | nil => exact .inl rfl
  | cons oldest rest =>
    by_cases hlt : c.maxTransmissions ≤ oldest.transmissions
    · exact .inl (by simp only [if_pos hlt])
    · refine .inr ⟨oldest, rest, { oldest with sentAtMs := nowMs, transmissions := satSucc8 oldest.transmissions }, rfl, by omega,
        rfl, ?_, rfl, by simp only [if_neg hlt], by simp only [if_neg hlt]; rfl⟩
      simp only [satSucc8]
      omega

/-- **The oldest segment, once more.** -/
theorem retransmitOldest_pays (nowMs : ℕ) (timeout : Bool) :
    Pays config c (c.retransmitOldest nowMs timeout).2.toList (c.retransmitOldest nowMs timeout).1 := by
  have hsend := c.retransmitOldest_sender nowMs timeout
  refine ⟨congrArg Sender.una hsend, unaPosition_congr hsend, fun {isn acc log} h => ?_⟩
  have hmove : Move config nowMs none c _ _ := .retransmit c timeout
  have hinv := hmove.sendInv h.send
  have hmax : c.maxTransmissions ≤ 255 := by
    have := config.maxRetransmissions.isLt
    rw [h.budget]; omega
  have hbudget : (c.retransmitOldest nowMs timeout).1.maxTransmissions = c.maxTransmissions :=
    congrArg Stable.maxTransmissions (c.retransmitOldest_frame nowMs timeout).2.1
  rcases c.retransmitOldest_spends nowMs timeout hmax with heq | ⟨oldest, rest, oldest', hu, hlt, hpiece, htimes, -, hu', hout⟩
  · rw [heq]
    exact (Pays.refl c).funded h
  · rw [hout, Option.toList, endPositions_congr (congrArg Sender.una hsend) (unaPosition_congr hsend)]
    generalize (c.retransmitOldest nowMs timeout).1 = c' at hsend hinv hbudget hu'
    have hpaid := h.paid
    have h0 : 0 < oldest.piece.len := h.send.len_pos (by rw [hu]; exact List.mem_cons_self)
    have hroom : total (c.unacked.map TrackedSegment.piece) ≤ 65535 := h.send.sender.room
    have hchain : Chain isn acc (c.sender.unaPos acc) (c.unacked.map TrackedSegment.piece) := h.send.sender.chain
    rw [hu, List.map_cons] at hroom hchain
    rw [total_cons] at hroom
    rw [hu] at hpaid
    have hseq : (c.segmentFor oldest).seq = pos c.sendUna 0 := by
      rw [pos_zero]; exact hchain.1.seq.trans h.send.sender.una.symm
    rw [endPositions_tracked hseq (segmentFor_sequenceLen c oldest) h0 (by omega), Nat.add_zero]
    refine ⟨hinv, hbudget.trans h.budget, h.bounded.concat ?_, ?_⟩
    · rw [hpaid.1, ← h.budget]
      omega
    · rw [unaPosition_congr hsend, hu']
      exact hpaid.again (fun y hy => h.send.len_pos (by rw [hu]; exact List.mem_cons_of_mem _ hy)) (by rw [hpiece]) htimes

/-! ## Sending pays -/

theorem sendQueued_pays {count : ℕ} (hmove : Move config nowMs inp c [(c.sendQueued count nowMs).2] (c.sendQueued count nowMs).1) :
    Pays config c [(c.sendQueued count nowMs).2] (c.sendQueued count nowMs).1 :=
  Pays.push (x := ⟨c.sendNxt, Flags.ACK.union .PSH, c.sendQueue.take count, nowMs, 1⟩) rfl rfl rfl rfl rfl rfl
    (fun hs => hmove.sendInv hs) rfl (segmentFor_sequenceLen _ _)

theorem sendFin_pays (hst : c.Sending) (hmove : Move config nowMs inp c [(c.sendFin nowMs).2] (c.sendFin nowMs).1) :
    Pays config c [(c.sendFin nowMs).2] (c.sendFin nowMs).1 := by
  have hpos : (c.sendFin nowMs).1.unaPosition = c.unaPosition := by
    have hp : (c.sendFin nowMs).1.state.phase = .closing := by
      rw [sendFin_state]; split_ifs <;> rfl
    have hrun : c.state.phase = .running := hst.phase
    unfold unaPosition
    rw [hp, hrun]
    rfl
  exact Pays.push (x := ⟨c.sendNxt, Flags.FIN.union .ACK, [], nowMs, 1⟩) rfl rfl rfl rfl hpos rfl
    (fun hs => hmove.sendInv hs) rfl (segmentFor_sequenceLen _ _)

theorem flushLoop_pays (config : Config) (nowMs fuel : ℕ) (hm : 0 < c.mss) (hst : c.Sending) :
    Pays config c (flushLoop nowMs fuel c).2 (flushLoop nowMs fuel c).1 ∧ (flushLoop nowMs fuel c).1.Sending := by
  induction fuel generalizing c with
  | zero => exact ⟨Pays.refl c, hst⟩
  | succ fuel ih =>
    simp only [flushLoop]
    split_ifs with h
    · exact ⟨Pays.refl c, hst⟩
    · obtain ⟨ha, hq⟩ := not_or.1 h
      have hlen := List.length_pos_of_ne_nil hq
      have hone : Move config nowMs none c _ _ := .sendData c (min (min c.sendAllowance c.mss) c.sendQueue.length) hst
        (by omega) (by omega) (by omega) (by omega)
      obtain ⟨h1, h2⟩ := ih (c := (c.sendQueued (min (min c.sendAllowance c.mss) c.sendQueue.length) nowMs).1) hm hst
      exact ⟨(sendQueued_pays hone).trans h1, h2⟩

theorem flushFin_pays (nowMs : ℕ) (hst : c.Sending) : Pays config c (c.flushFin nowMs).2 (c.flushFin nowMs).1 := by
  unfold flushFin
  split_ifs with h
  · have hmove : Move config nowMs none c _ _ := .sendFin c hst h.1 h.2.1 h.2.2
    exact sendFin_pays hst hmove
  · exact Pays.refl c

theorem flushData_pays (nowMs : ℕ) (hm : 0 < c.mss) : Pays config c (c.flushData nowMs).2 (c.flushData nowMs).1 := by
  unfold flushData
  split_ifs with hst
  · obtain ⟨h1, h2⟩ := flushLoop_pays config nowMs c.sendQueue.length hm hst
    exact h1.trans (flushFin_pays nowMs h2)
  · exact Pays.refl c

/-- a connection that differs in nothing that is sent -/
theorem Pays.still (hsend : c'.sender = c.sender) (hu : c'.unacked = c.unacked) (hmax : c'.maxTransmissions = c.maxTransmissions)
    (hwin : c'.remoteWindow = c.remoteWindow) (hmss : c'.mss = c.mss) : Pays config c [] c' :=
  .quiet hsend hu hmax (fun hs => ⟨hsend ▸ hs.sender, hwin ▸ hs.window, hmss ▸ hs.mss, hsend ▸ hs.buffer⟩) fun _ h => nomatch h

theorem ack_pays (c : Connection P) : Pays config c [c.ackSegment] c :=
  .quiet rfl rfl rfl id fun x hx => by rw [List.mem_singleton.1 hx]; exact c.ackSegment_sequenceLen

theorem window_pays (window : U16) : Pays config c [] (c.updateRemoteWindow window nowMs) := by
  have hsend := c.updateRemoteWindow_sender window nowMs
  obtain ⟨-, hst, hmss, -⟩ := c.updateRemoteWindow_frame window nowMs
  have hu : (c.updateRemoteWindow window nowMs).unacked = c.unacked := by unfold updateRemoteWindow; split_ifs <;> rfl
  exact .quiet hsend hu (congrArg Stable.maxTransmissions hst)
    (fun hs => ⟨hsend ▸ hs.sender, updateRemoteWindow_le c window nowMs, hmss ▸ hs.mss, hsend ▸ hs.buffer⟩) fun _ h => nomatch h

theorem receiveIfData_pays (config : Config) (nowMs : ℕ) (segment : Segment) :
    Pays config c (c.receiveIfData segment nowMs config).2 (c.receiveIfData segment nowMs config).1 := by
  unfold receiveIfData
  split_ifs
  · obtain ⟨h1, h2⟩ := c.receiveStreamData_outgoing segment nowMs config
    obtain ⟨hm, hw, hst⟩ := outgoing_frame h1
    have hu := congrArg Connection.unacked h1
    have hstill : Pays config c [] (c.receiveStreamData segment nowMs config).1 :=
      .still (sender_eq_of_outgoing h1 h2) hu (congrArg Stable.maxTransmissions hst) hw hm
    exact hstill.trans (ack_pays _)
  · exact Pays.refl c

theorem receive_flush_pays (config : Config) (nowMs : ℕ) (segment : Segment) (hm : 0 < c.mss) :
    Pays config c ((c.receiveIfData segment nowMs config).2 ++ ((c.receiveIfData segment nowMs config).1.flushData nowMs).2)
      ((c.receiveIfData segment nowMs config).1.flushData nowMs).1 := by
  refine (receiveIfData_pays config nowMs segment).trans (flushData_pays nowMs ?_)
  unfold receiveIfData
  split_ifs
  · rw [(outgoing_frame (c.receiveStreamData_outgoing segment nowMs config).1).1]; exact hm
  · exact hm

/-! ## An ACK leaves the accounts in order -/

/-- **The ACK loop** takes whole segments and trims one, which keeps its end. So what is said of the segments from a position
on stays true when it survives both. -/
theorem ackLoop_keeps {A : ℕ → List TrackedSegment → Prop} (htail : ∀ {p x l}, A p (x :: l) → A (p + x.piece.len) l)
    (htrim : ∀ {p n x x' l}, A p (x :: l) → x.piece.len = n + x'.piece.len → x'.transmissions = x.transmissions →
      x'.sentAtMs = x.sentAtMs → A (p + n) (x' :: l))
    {l : List TrackedSegment} {p : ℕ} (rtt : RttEstimator) (nowMs : ℕ) (hc : Chain isn acc p (l.map TrackedSegment.piece))
    (hfin : ∀ x ∈ l.map TrackedSegment.piece, x.fin = true → x.payload = [])
    (hn : n ≤ total (l.map TrackedSegment.piece)) (hroom : total (l.map TrackedSegment.piece) < 2 ^ 31)
    (acked : ℕ) (fin : Bool) (sample : Option ℕ) (hA : A p l) :
    A (p + n) (trimFront (pos isn (p + n)) (ackLoop rtt (pos isn (p + n)) nowMs l acked fin sample).1).1 := by
  induction l generalizing p n acked fin sample with
  | nil =>
    have h0 : n = 0 := Nat.le_zero.1 hn
    rw [h0, Nat.add_zero]
    exact hA
  | cons x l ih =>
    rw [List.map_cons] at hc hfin hn hroom
    rw [total_cons] at hn hroom
    obtain ⟨he, hb, hs⟩ := endSeq_le_iff (n := n) hc.1 (by omega) (by omega)
    unfold ackLoop
    by_cases h1 : x.piece.len ≤ n
    · rw [if_pos (he.2 h1)]
      have hpos : p + x.piece.len + (n - x.piece.len) = p + n := by omega
      have hrest := ih (n := n - x.piece.len) hc.2.2 (fun y hy => hfin y (List.mem_cons_of_mem _ hy)) (by omega) (by omega)
        (acked + x.payload.length) (fin || x.flags.contains .FIN)
        (if rtt.canSample x.endSeq then some (nowMs - x.sentAtMs) else sample) (htail hA)
      rw [hpos] at hrest
      exact hrest
    · rw [if_neg fun h => h1 (he.1 h)]
      simp only [trimFront]
      by_cases h2 : n = 0
      · rw [if_neg fun h => absurd (hs.1 h.1) (by omega), h2]
        exact hA
      · obtain ⟨h3, h4, h5⟩ := len_split hc.1 (hfin _ List.mem_cons_self) h2 (by omega)
        have h3' : x.flags.contains .SYN = false := h3
        have h4' : x.flags.contains .FIN = false := h4
        have h5' : n < x.payload.length := h5
        have hd : distance x.seq (pos isn (p + n)) = n := by
          rw [show x.seq = pos isn p from hc.1.seq, distance_pos (by omega) (by omega)]; omega
        rw [if_pos ⟨hs.2 (by omega), hb.2 (by omega), by simp [h3'], by simp [h4']⟩, hd, Nat.min_eq_left h5'.le]
        refine htrim hA ?_ rfl rfl
        simp only [Piece.len, TrackedSegment.piece, h3', h4', List.length_drop]
        omega

theorem advanceAck_paid (nowMs : ℕ) {ack : U32} (h : Funded config isn acc log c) (hadv : c.Advances ack) :
    Paid (fun x : TrackedSegment => x.piece.len) TrackedSegment.transmissions log (c.unaPosition + distance c.sendUna ack)
      (c.advanceAck ack nowMs).1.unacked := by
  have hinv := h.send.sender
  have hroom : total (c.unacked.map TrackedSegment.piece) ≤ 65535 := hinv.room
  have hack : ack = pos isn (c.sender.unaPos acc + distance c.sendUna ack) := by
    rw [← pos_pos, ← hinv.una]; exact (pos_dist _ _).symm
  have hpaid := h.paid
  rw [h.send.unaPosition_eq] at hpaid ⊢
  have hloop := ackLoop_keeps (A := Paid (fun x : TrackedSegment => x.piece.len) TrackedSegment.transmissions log)
    (fun h => h.2) (fun h hlen htimes _ => h.trim hlen htimes) c.rtt nowMs hinv.chain hinv.fin_payload (hadv.within hinv).2
    (show total (c.unacked.map TrackedSegment.piece) < 2 ^ 31 by omega) 0 false none hpaid
  rw [← hack] at hloop
  exact hloop

/-- what an acknowledgment leaves, when the sender is the one that acknowledged -/
theorem Funded.acked (nowMs : ℕ) {ack : U32} (h : Funded config isn acc log c) (hadv : c.Advances ack) (hinv : c'.SendInv config isn acc)
    (hsend : c'.sender = c.sender.ack ack) (hu : c'.unacked = (c.advanceAck ack nowMs).1.unacked)
    (hmax : c'.maxTransmissions = c.maxTransmissions) : Funded config isn acc log c' := by
  refine ⟨hinv, hmax.trans h.budget, h.bounded, ?_⟩
  have hpos : c'.unaPosition = c.unaPosition + distance c.sendUna ack := by
    rw [hinv.unaPosition_eq, hsend, h.send.unaPosition_eq]
    exact h.send.sender.unaPos_ack (hadv.within h.send.sender).2
  rw [hpos, hu]
  exact advanceAck_paid nowMs h hadv

theorem afterAck_acked {ack : U32} (hc : c.afterAck ack nowMs config = some c') :
    c'.unacked = (c.advanceAck ack nowMs).1.unacked ∧ c'.rtt = (c.advanceAck ack nowMs).1.rtt := by
  unfold afterAck finAcked at hc
  simp only at hc
  split_ifs at hc
  · split at hc <;> cases hc <;> exact ⟨rfl, rfl⟩
  · cases hc; exact ⟨rfl, rfl⟩

theorem afterAck_funded {ack : U32} (h : Funded config isn acc log c) (hst : c.Synchronized) (hadv : c.Advances ack)
    (hc : c.afterAck ack nowMs config = some c') : Funded config isn acc log c' := by
  have hsend := (afterAck_sender h.send.sender (by norm_num) hst hadv nowMs config).2 c' hc
  obtain ⟨-, hstable, hmss, hwin⟩ := afterAck_frame nowMs config hc
  have hu := (afterAck_acked hc).1
  have hack : Sender.Step 65535 c.sender (c.sender.ack ack) := by
    obtain ⟨h0, hn⟩ := hadv.within h.send.sender
    exact .ack _ _ h0 hn
  have hinv : c'.SendInv config isn acc := by
    refine ⟨hsend ▸ hack.inv h.send.sender, hwin ▸ h.send.window, hmss ▸ h.send.mss, ?_⟩
    rw [hsend]
    exact (hack.held_le h.send.sender).1.trans h.send.buffer
  exact h.acked nowMs hadv hinv hsend hu (congrArg Stable.maxTransmissions hstable)

theorem updateRemoteWindow_unacked (c : Connection P) (window : U16) (nowMs : ℕ) :
    (c.updateRemoteWindow window nowMs).unacked = c.unacked ∧ (c.updateRemoteWindow window nowMs).rtt = c.rtt := by
  unfold updateRemoteWindow
  split_ifs <;> exact ⟨rfl, rfl⟩

theorem establishServer_acked (hadv : c.Advances c.sendNxt) (segment : Segment) :
    (c.establishServer segment nowMs).unacked = (c.advanceAck c.sendNxt nowMs).1.unacked ∧
      (c.establishServer segment nowMs).rtt = (c.advanceAck c.sendNxt nowMs).1.rtt := by
  unfold establishServer
  rw [applyAck_of_advances hadv]
  exact updateRemoteWindow_unacked _ segment.window nowMs

theorem establishServer_funded (h : Funded config isn acc log c) (hst : c.state = .synReceived) {segment : Segment}
    (hrst : segment.flags.contains .RST = false) (hack : segment.ack = some c.sendNxt) :
    Funded config isn acc log (c.establishServer segment nowMs) := by
  have hp : c.state.phase = .opening := by rw [hst]; rfl
  have hadv := (advances_sendNxt h.send.sender (by norm_num) (unacked_opening h.send.sender hp)).1
  have hmove : Move config nowMs (some segment) c [] (c.establishServer segment nowMs) :=
    .establishServer c segment rfl hst hrst hack
  exact h.acked nowMs hadv (hmove.sendInv h.send) (establishServer_sender h.send.sender (by norm_num) hst segment nowMs)
    (establishServer_acked hadv segment).1 (congrArg Stable.maxTransmissions (c.establishServer_frame segment nowMs).2.1)

theorem establishClient_acked (hadv : c.Advances c.sendNxt) (segment : Segment) :
    (c.establishClient segment nowMs config).unacked = (c.advanceAck c.sendNxt nowMs).1.unacked ∧
      (c.establishClient segment nowMs config).rtt = (c.advanceAck c.sendNxt nowMs).1.rtt := by
  have hsend := c.updateRemoteWindow_sender segment.window nowMs
  obtain ⟨hu, hrtt⟩ := updateRemoteWindow_unacked c segment.window nowMs
  obtain ⟨c1, hc1⟩ : ∃ c1, c1 = (c.updateRemoteWindow segment.window nowMs).negotiateMss segment config := ⟨_, rfl⟩
  have hn : c1.sendNxt = c.sendNxt := by rw [hc1]; exact congrArg Sender.nxt hsend
  have huna : c1.sendUna = c.sendUna := by rw [hc1]; exact congrArg Sender.una hsend
  have hu1 : c1.unacked = c.unacked := by rw [hc1]; exact hu
  have hrtt1 : c1.rtt = c.rtt := by rw [hc1]; exact hrtt
  have hadv1 : c1.Advances c.sendNxt := by
    rw [Advances, hn, huna]; exact hadv
  have hleft : (c1.applyAck c1.sendNxt nowMs false).1.unacked = (c.advanceAck c.sendNxt nowMs).1.unacked ∧
      (c1.applyAck c1.sendNxt nowMs false).1.rtt = (c.advanceAck c.sendNxt nowMs).1.rtt := by
    rw [hn, applyAck_of_advances hadv1]
    simp only [advanceAck, hu1, hrtt1, and_self]
  rw [hc1] at hleft
  exact hleft

theorem establishClient_funded (h : Funded config isn acc log c) (hst : c.state = .synSent) {segment : Segment}
    (hsyn : segment.flags.contains .SYN = true) (hrst : segment.flags.contains .RST = false)
    (hack : segment.ack = some c.sendNxt) : Funded config isn acc log (c.establishClient segment nowMs config) := by
  have hp : c.state.phase = .opening := by rw [hst]; rfl
  have hadv := (advances_sendNxt h.send.sender (by norm_num) (unacked_opening h.send.sender hp)).1
  have hmove : Move config nowMs (some segment) c [] (c.establishClient segment nowMs config) :=
    .establishClient c segment rfl hst hsyn hrst hack
  exact h.acked nowMs hadv (hmove.sendInv h.send)
    (establishClient_sender h.send.sender (by norm_num) hst segment nowMs config) (establishClient_acked hadv segment).1
    (congrArg Stable.maxTransmissions (c.establishClient_frame segment nowMs config).2.1)

/-! ## Operations -/

/-- what an operation emits is counted -/
structure Accounts (config : Config) (c : Connection P) (out : List Segment) (c' : Connection P) : Prop where
  funded : ∀ {isn acc log}, Funded config isn acc log c → Funded config isn acc (log ++ c'.endPositions out) c'

theorem Pays.accounts (h : Pays config c out c') : Accounts config c out c' := ⟨h.funded⟩

/-- the ACK first, then what it makes room for -/
theorem Pays.after (h : Pays config c1 out c') (h1 : ∀ {isn acc log}, Funded config isn acc log c → Funded config isn acc log c1) :
    Accounts config c out c' := ⟨fun h0 => h.funded (h1 h0)⟩

theorem repeatAck_pays (config : Config) (nowMs : ℕ) (duplicate : Bool) :
    Pays config c (c.repeatAck nowMs duplicate).2.retransmit.toList (c.repeatAck nowMs duplicate).1 := by
  unfold repeatAck
  simp only
  split_ifs
  · have hstill : Pays config c [] { c with
        duplicateAcks := satSucc8 c.duplicateAcks
        reno := c.reno.onDuplicateAck.onFastLoss (distance c.sendUna c.sendNxt) } := .still rfl rfl rfl rfl rfl
    exact hstill.trans (retransmitOldest_pays nowMs false)
  · exact .still rfl rfl rfl rfl rfl
  · exact .still rfl rfl rfl rfl rfl

theorem repairTimedOutFlight_pays (config : Config) (nowMs : ℕ) :
    Pays config c (c.repairTimedOutFlight nowMs config).2.toList (c.repairTimedOutFlight nowMs config).1 := by
  unfold repairTimedOutFlight
  split
  · split_ifs
    · exact Pays.refl c
    · exact retransmitOldest_pays nowMs false
  · exact Pays.refl c

theorem windowOf_pays (config : Config) (nowMs : ℕ) (segment : Segment) (ack : U32) : Pays config c [] (c.windowOf segment ack nowMs) := by
  rcases windowOf_cases nowMs (c := c) segment ack with h | h <;> rw [h]
  · exact Pays.refl c
  · exact window_pays segment.window

theorem onSynchronized_accounts {segment : Segment} (hst : c.Synchronized) (hm : 0 < c.mss)
    (hrst : segment.flags.contains .RST = false) (hopen : (c.onSynchronized segment nowMs config).2.closed = false) :
    Accounts config c (c.onSynchronized segment nowMs config).2.segments (c.onSynchronized segment nowMs config).1 := by
  obtain ⟨c1, out, hack, -, hm1, heq⟩ := onSynchronized_parts config nowMs hst hrst hopen
  have hrest := receive_flush_pays config nowMs (c := c1) segment (by rw [hm1]; exact hm)
  rw [heq]
  rcases hack with ⟨-, rfl, rfl⟩ | ⟨ack, -, hcases⟩
  · exact ((Pays.refl c1).trans hrest).accounts
  · cases hcases with
    | outside => exact ((Pays.refl c).trans hrest).accounts
    | repeated duplicate =>
      have hfirst := (repeatAck_pays config nowMs (c := c) duplicate).trans (windowOf_pays config nowMs segment ack)
      rw [List.append_nil] at hfirst
      exact (hfirst.trans hrest).accounts
    | advanced c2 hadv hc2 =>
      have hfirst := (windowOf_pays config nowMs (c := c2) segment ack).trans (repairTimedOutFlight_pays config nowMs)
      exact (hfirst.trans hrest).after fun h => afterAck_funded h hst hadv hc2

theorem onReset_quiet (segment : Segment) : ∀ x ∈ (c.onReset segment).segments, x.sequenceLen = 0 := by
  unfold onReset
  intro x hx
  split_ifs at hx
  · split at hx
    · split_ifs at hx <;> cases hx
    · cases hx
  · cases hx
  · rw [List.mem_singleton.1 hx]; exact c.ackSegment_sequenceLen
  · cases hx

/-- **A segment.** -/
theorem input_accounts (segment : Segment) (hm : 0 < c.mss) (hopen : (c.input segment nowMs config).2.closed = false) :
    Accounts config c (c.input segment nowMs config).2.segments (c.input segment nowMs config).1 := by
  unfold input at hopen ⊢
  split_ifs at hopen ⊢ with h1 h2
  · refine (Pays.quiet rfl rfl rfl id fun x hx => ?_).accounts
    rw [List.mem_singleton.1 hx]; exact resetFor_sequenceLen segment
  · exact (ack_pays c).accounts
  · unfold onSegment at hopen ⊢
    split_ifs at hopen ⊢ with hrst
    · exact (Pays.quiet rfl rfl rfl id (onReset_quiet segment)).accounts
    · have hrst' : segment.flags.contains .RST = false := by simpa using hrst
      split at hopen
      · rename_i hst
        unfold onSynSent
        split_ifs with hsyn
        · exact (ack_pays _).after fun h => establishClient_funded h hst hsyn.1 hrst' hsyn.2.2.1
        · exact (Pays.refl c).accounts
      · rename_i hst
        unfold onSynReceived
        split_ifs with h3 h4
        · exact (retransmitOldest_pays nowMs false).accounts
        · exact (Pays.refl c).accounts
        · have hm1 := (c.establishServer_frame segment nowMs).2.2.1
          exact (receive_flush_pays config nowMs segment (by rw [hm1]; exact hm)).after fun h =>
            establishServer_funded h hst hrst' (not_not.1 h4)
      · rename_i hn1 hn2
        exact onSynchronized_accounts ⟨hn1, hn2⟩ hm hrst' hopen

theorem pollTimeout_pays (hm : 0 < c.mss) : Pays config c (c.pollTimeout nowMs).2 (c.pollTimeout nowMs).1 := by
  have hstill : Pays config c [] { c with
      rtoRecoveryUntil := some (c.rtoRecoveryUntil.getD c.sendNxt)
      reno := c.reno.onTimeout (distance c.sendUna c.sendNxt)
      rtt := c.rtt.onTimeout } := .still rfl rfl rfl rfl rfl
  unfold pollTimeout
  refine (hstill.trans (retransmitOldest_pays nowMs true)).trans (flushData_pays nowMs ?_)
  rw [(retransmitOldest_frame _ nowMs true).2.2.1]
  exact hm

/-- the probe sends a byte that was not sent before, or nothing -/
theorem pollZeroWindow_pays (hwin : c.remoteWindow = 0) (hno : ∀ x ∈ c.unacked, x.payload = []) :
    Pays config c (c.pollZeroWindow nowMs config).2.segments (c.pollZeroWindow nowMs config).1 := by
  unfold pollZeroWindow
  simp only
  generalize hc1 : ({ c with
    nextZeroWindowProbeMs := some (c.nextZeroWindowProbeMs.getD (satAdd nowMs config.initialRtoMs)) } : Connection P) = c1
  have hstill : Pays config c [] c1 := by rw [← hc1]; exact .still rfl rfl rfl rfl rfl
  have hwin1 : c1.remoteWindow = 0 := by rw [← hc1]; exact hwin
  have hno1 : ∀ x ∈ c1.unacked, x.payload = [] := by rw [← hc1]; exact hno
  have hmove : Move config nowMs none c1 _ _ := .probe c1 hwin1
  split_ifs
  · exact hstill
  · rcases c1.zeroWindowProbe_cases nowMs with ⟨x, hx, hp, -⟩ | ⟨-, ⟨-, h⟩ | ⟨-, h⟩⟩
    · exact absurd (hno1 x hx) hp
    · rw [h]; exact hstill
    · rw [h] at hmove ⊢
      have hprobe : Pays config (c1.sendQueued 1 nowMs).1 [] { (c1.sendQueued 1 nowMs).1 with
          zeroWindowProbes := satSucc8 (c1.sendQueued 1 nowMs).1.zeroWindowProbes
          nextZeroWindowProbeMs := some (satAdd nowMs (min (satMul config.initialRtoMs
            (2 ^ min (satSucc8 (c1.sendQueued 1 nowMs).1.zeroWindowProbes) 16)) config.maxRtoMs)) } :=
        .still rfl rfl rfl rfl rfl
      exact (hstill.trans (sendQueued_pays hmove)).trans hprobe
  · exact hstill

/-- a probe that repeats a byte is not counted, and changes no account -/
theorem pollZeroWindow_repeats (hprobe : c.RepeatsProbe) : Pays config c [] (c.pollZeroWindow nowMs config).1 := by
  unfold pollZeroWindow
  simp only
  generalize hc1 : ({ c with
    nextZeroWindowProbeMs := some (c.nextZeroWindowProbeMs.getD (satAdd nowMs config.initialRtoMs)) } : Connection P) = c1
  have hstill : Pays config c [] c1 := by rw [← hc1]; exact .still rfl rfl rfl rfl rfl
  have hprobe1 : ∃ x ∈ c1.unacked, x.payload ≠ [] := by rw [← hc1]; exact hprobe.2
  split_ifs
  · exact hstill
  · rcases c1.zeroWindowProbe_cases nowMs with ⟨x, -, -, h⟩ | ⟨hno, -⟩
    · rw [h]
      exact hstill.trans (.still rfl rfl rfl rfl rfl)
    · obtain ⟨x, hx, hp⟩ := hprobe1
      exact absurd (hno x hx) hp
  · exact hstill

theorem RepeatsProbe.work (h : c.RepeatsProbe) : c.ProbeWork :=
  ⟨h.1, .inr (hasProbePayload_iff.2 (.inr h.2))⟩

/-- **A poll.** -/
theorem poll_accounts (hm : 0 < c.mss) :
    Accounts config c (if c.RepeatsProbe then [] else (c.poll nowMs config).2.segments) (c.poll nowMs config).1 := by
  split_ifs with hrep
  · unfold poll
    split_ifs with h1 h2
    · exact (Pays.refl c).accounts
    · exact (pollZeroWindow_repeats hrep).accounts
    · exact absurd hrep.work h2
  · unfold poll
    split_ifs with h1 h2
    · exact (Pays.refl c).accounts
    · refine (pollZeroWindow_pays h2.1 fun x hx => ?_).accounts
      by_contra hp
      exact hrep ⟨h2.1, x, hx, hp⟩
    · split
      · split_ifs
        · exact (Pays.refl c).accounts
        · exact (pollTimeout_pays hm).accounts
        · exact (flushData_pays nowMs hm).accounts
      · exact (flushData_pays nowMs hm).accounts

theorem write_funded {bytes : List U8} {count : ℕ} (h : Funded config isn acc log c)
    (hw : c.write bytes nowMs config = .ok (c', count, out)) :
    Funded config isn (acc ++ bytes.take count) (log ++ c'.endPositions out) c' := by
  obtain ⟨hst, -, -, hroom, -⟩ := write_moves config nowMs h.send.mss hw
  have haccept : Funded config isn (acc ++ bytes.take count) log (c.acceptBytes (bytes.take count)) :=
    ⟨h.send.accept hst (by rw [List.length_take]; omega), h.budget, h.bounded, h.paid⟩
  unfold write at hw
  split_ifs at hw
  simp only [Except.ok.injEq, Prod.mk.injEq] at hw
  obtain ⟨hc', hcount, hout⟩ := hw
  have hlen : (bytes.take count).length = count := by rw [List.length_take]; omega
  have hflush := (flushData_pays nowMs haccept.send.mss).funded haccept
  rw [acceptBytes, hlen, ← hcount] at hflush
  rw [← hcount, ← hc', ← hout]
  exact hflush

theorem read_pays (max : ℕ) : Pays config c (c.read max).2.2 (c.read max).1 := by
  have hstill : Pays config c [] (c.read max).1 := .still rfl rfl rfl rfl rfl
  unfold read at hstill ⊢
  simp only at hstill ⊢
  split_ifs
  · exact hstill.trans (ack_pays _)
  · exact hstill

theorem close_pays (nowMs : ℕ) (hm : 0 < c.mss) : Pays config c (c.close nowMs).2.segments (c.close nowMs).1 := by
  have hrequest : c.Sending → Pays config c [] { c with closeRequested := true } := fun hst => by
    have hmove : Move config nowMs none c [] { c with closeRequested := true } := .requestClose c hst
    exact ⟨rfl, rfl, fun h => by
      rw [endPositions_nil, List.append_nil]
      exact ⟨hmove.sendInv h.send, h.budget, h.bounded, h.paid⟩⟩
  unfold close
  split
  · exact (hrequest (.inl ‹_›)).trans (flushData_pays nowMs hm)
  · exact (hrequest (.inr ‹_›)).trans (flushData_pays nowMs hm)
  · exact Pays.refl c
  · exact Pays.refl c
  · exact Pays.refl c

/-- the SYN, sent once -/
theorem sendTracked_funded {flags : Flags} (hsyn : flags.contains .SYN = true) (hfin : flags.contains .FIN = false)
    (hinv : (c.sendTracked flags [] nowMs).1.SendInv config isn []) (hp : c.state.phase = .opening) (hu : c.unacked = [])
    (hseq : c.sendUna = c.sendNxt) (hmax : c.maxTransmissions = config.maxRetransmissions.toNat) :
    Funded config isn [] ((c.sendTracked flags [] nowMs).1.endPositions [(c.sendTracked flags [] nowMs).2])
      (c.sendTracked flags [] nowMs).1 := by
  obtain ⟨x, hx⟩ : ∃ x, x = (⟨c.sendNxt, flags, [], nowMs, 1⟩ : TrackedSegment) := ⟨_, rfl⟩
  have hlen : x.piece.len = 1 := by simp [hx, TrackedSegment.piece, Piece.len, hsyn, hfin]
  have hpos : (c.sendTracked flags [] nowMs).1.unaPosition = 0 := by
    have hphase : (c.sendTracked flags [] nowMs).1.state.phase = .opening := hp
    unfold unaPosition
    rw [hphase]
  have hunacked : (c.sendTracked flags [] nowMs).1.unacked = [] ++ [x] := by
    change c.unacked ++ [_] = _
    rw [hu, hx]
  have hend : (c.sendTracked flags [] nowMs).1.endPositions [(c.sendTracked flags [] nowMs).2] =
      [] ++ [0 + (([] : List TrackedSegment).map fun x => x.piece.len).sum + x.piece.len] := by
    have hstart : (c.sendTracked flags [] nowMs).2.seq = pos (c.sendTracked flags [] nowMs).1.sendUna 0 := by
      rw [pos_zero]; exact hseq.symm
    have h := endPositions_tracked hstart (x := x) (by rw [hx]; exact segmentFor_sequenceLen _ _) (by omega) (by omega)
    rw [hpos] at h
    exact h
  have hempty : Paid (fun x : TrackedSegment => x.piece.len) TrackedSegment.transmissions [] 0 [] := fun _ _ => rfl
  have hnone : Bounded (max 1 config.maxRetransmissions.toNat) [] := fun _ => Nat.zero_le _
  rw [hend]
  refine ⟨hinv, hmax, hnone.concat (lt_of_lt_of_le Nat.one_pos (le_max_left _ _)), ?_⟩
  rw [hpos, hunacked]
  exact hempty.push (by rw [hlen]; exact Nat.one_pos) (by rw [hx])

end Connection

end FipsTcp
