/-
A window that the peer has closed.

Timeouts and repairs look at the window before they send a whole segment again, and the loop of `flush_data` has no allowance. The
fast retransmit does not: the third duplicate ACK is answered before its window is applied, and the window of before plays no part
either. `FillsClosed` is that case, and there is no other (`closed_window_iff`).
-/
import FipsTcp.Connection.Flow

namespace FipsTcp

open SendWindow Serial

namespace Connection

variable {P : Type} {config : Config} {nowMs : ℕ} {isn : U32} {acc : List U8} {c c1 : Connection P} {segment : Segment} {out : List Segment}

/-- no more than the byte of a probe -/
def AtMostProbes (out : List Segment) : Prop := ∀ x ∈ out, x.payload.length ≤ 1

theorem AtMostProbes.append {out' : List Segment} (h : AtMostProbes out) (h' : AtMostProbes out') : AtMostProbes (out ++ out') :=
  fun x hx => (List.mem_append.1 hx).elim (h x) (h' x)

theorem atMostProbes_nil : AtMostProbes [] := List.forall_mem_nil _

theorem atMostProbes_one {x : Segment} (h : x.payload.length ≤ 1) : AtMostProbes [x] := fun y hy => by
  rw [List.mem_singleton.1 hy]
  exact h

/-- the third duplicate ACK closes the window, while more than one byte is to be sent again and may be -/
structure FillsClosed (c : Connection P) (segment : Segment) : Prop where
  sync : c.Synchronized
  rst : segment.flags.contains .RST = false
  syn : segment.flags.contains .SYN = false
  fin : segment.flags.contains .FIN = false
  empty : segment.payload = []
  ack : segment.ack = some c.sendUna
  window : segment.window = 0
  third : c.duplicateAcks = 2
  oldest : ∃ oldest ∈ c.unacked.head?, 1 < oldest.payload.length ∧ oldest.transmissions < c.maxTransmissions

/-! ## What the parts of an operation emit -/

/-- the oldest segment, if it may be sent again -/
def resendable (c : Connection P) : Option TrackedSegment :=
  c.unacked.head?.filter fun oldest => decide (oldest.transmissions < c.maxTransmissions)

theorem retransmitOldest_emits (nowMs : ℕ) (timeout : Bool) :
    (c.retransmitOldest nowMs timeout).2 = c.resendable.map c.segmentFor := by
  unfold retransmitOldest resendable
  cases c.unacked with
  | nil => rfl
  | cons oldest rest =>
    by_cases hbudget : oldest.transmissions < c.maxTransmissions
    · simp only [if_neg (Nat.not_le_of_lt hbudget), List.head?_cons, Option.filter_some, decide_eq_true hbudget, if_true]
      rfl
    · simp only [if_pos (Nat.le_of_not_lt hbudget), List.head?_cons, Option.filter_some, decide_eq_false hbudget]
      rfl

/-- **A repeated ACK** sends the oldest segment again when it is the third that counts. -/
theorem repeatAck_emits (nowMs : ℕ) (duplicate : Bool) : (c.repeatAck nowMs duplicate).2.retransmit =
    if duplicate = true ∧ c.duplicateAcks = 2 then c.resendable.map c.segmentFor else none := by
  have hthird : satSucc8 c.duplicateAcks = 3 ↔ c.duplicateAcks = 2 := by
    unfold satSucc8
    omega
  unfold repeatAck
  by_cases hcounts : duplicate = true ∧ c.unacked ≠ []
  · simp only [if_pos hcounts, hthird]
    by_cases h2 : c.duplicateAcks = 2
    · rw [if_pos h2, if_pos ⟨hcounts.1, h2⟩]
      exact retransmitOldest_emits nowMs false
    · rw [if_neg h2, if_neg fun h => h2 h.2]
  · rw [if_neg hcounts]
    split_ifs with h
    · have hnil : c.unacked = [] := by
        by_contra hne
        exact hcounts ⟨h.1, hne⟩
      rw [resendable, hnil]
      rfl
    · rfl

theorem repairTimedOutFlight_closed (nowMs : ℕ) (config : Config) (h : c.remoteWindow = 0) :
    c.repairTimedOutFlight nowMs config = (c, none) := by
  unfold repairTimedOutFlight
  split
  · rw [if_pos (.inl h)]
  · rfl

theorem flushData_closed (nowMs : ℕ) (h : c.remoteWindow = 0) : c.flushData nowMs = (c, []) := (settled_of_window h).flushData nowMs

theorem repairTimedOutFlight_window (nowMs : ℕ) (config : Config) :
    (c.repairTimedOutFlight nowMs config).1.remoteWindow = c.remoteWindow :=
  Moves.window_eq (repairTimedOutFlight_moves config nowMs none).1

theorem receiveIfData_window (segment : Segment) : (c.receiveIfData segment nowMs config).1.remoteWindow = c.remoteWindow := by
  unfold receiveIfData
  split_ifs
  · exact (outgoing_frame (c.receiveStreamData_outgoing segment nowMs config).1).2.1
  · rfl

theorem receiveIfData_atMostProbes (segment : Segment) : AtMostProbes (c.receiveIfData segment nowMs config).2 := by
  unfold receiveIfData
  split_ifs
  · exact atMostProbes_one (Nat.zero_le 1)
  · exact atMostProbes_nil

/-- the end of `on_segment` leaves a closed window closed, and sends nothing into it -/
theorem receive_flush_closed (segment : Segment)
    (h : ((c.receiveIfData segment nowMs config).1.flushData nowMs).1.remoteWindow = 0) :
    c.remoteWindow = 0 ∧ AtMostProbes ((c.receiveIfData segment nowMs config).2 ++
      ((c.receiveIfData segment nowMs config).1.flushData nowMs).2) := by
  have hwin : (c.receiveIfData segment nowMs config).1.remoteWindow = 0 := by rw [← (flushData_keeps nowMs).2.2.1]; exact h
  refine ⟨(receiveIfData_window segment).symm.trans hwin, ?_⟩
  rw [flushData_closed nowMs hwin]
  exact (receiveIfData_atMostProbes segment).append atMostProbes_nil

/-! ## Every operation -/

/-- the ACK of a segment that does not fill the window it closes -/
theorem processAck_atMostProbes {segment : Segment} {ack : U32} (hst : c.Synchronized) (hrst : segment.flags.contains .RST = false)
    (hack : segment.ack = some ack) (hno : ¬ c.FillsClosed segment)
    (hp : c.processAck segment ack nowMs config = (c1, false, out)) (hwin : c1.remoteWindow = 0) : AtMostProbes out := by
  rcases c.ack_cases ack with h | ⟨h, rfl⟩ | hadv
  · rw [processAck_outside config nowMs segment h] at hp
    cases hp
    exact atMostProbes_nil
  · rw [processAck_repeated config nowMs segment h rfl] at hp
    obtain ⟨rfl, -, rfl⟩ := Prod.mk.inj hp |>.imp_right Prod.mk.inj
    have hin : inClosedInterval c.sendUna c.sendUna c.sendNxt := ⟨fun hb => h (.inr hb), fun ha => h (.inl ha)⟩
    rw [repeatAck_emits]
    split_ifs with hthird
    · intro x hx
      obtain ⟨oldest, hold, rfl⟩ := Option.map_eq_some_iff.1 (Option.mem_toList.1 hx)
      obtain ⟨hmem, hbudget⟩ := Option.filter_eq_some_iff.1 hold
      -- a candidate carries nothing and has no SYN
      have hcandidate := hthird.1
      simp only [isDuplicateAckCandidate, Bool.and_eq_true, List.isEmpty_iff, Bool.not_eq_true'] at hcandidate
      obtain ⟨⟨⟨⟨-, hempty⟩, hsyn⟩, hfin⟩, -⟩ := hcandidate
      have huna := congrArg Sender.una (repeatAck_sender (c := c) nowMs (isDuplicateAckCandidate segment c.sendUna c.remoteWindow))
      have hnxt := congrArg Sender.nxt (repeatAck_sender (c := c) nowMs (isDuplicateAckCandidate segment c.sendUna c.remoteWindow))
      have hzero : segment.window = 0 := by
        rw [windowOf, if_pos (by rw [show (c.repeatAck nowMs _).1.sendUna = _ from huna, show (c.repeatAck nowMs _).1.sendNxt = _ from hnxt]; exact hin)] at hwin
        unfold updateRemoteWindow at hwin
        split_ifs at hwin with h0
        · exact h0
        · exact BitVec.eq_of_toNat_eq hwin
      by_contra hbig
      exact hno ⟨hst, hrst, hsyn, hfin, hempty, hack, hzero, hthird.2, oldest, hmem, Nat.lt_of_not_le hbig, of_decide_eq_true hbudget⟩
    · exact atMostProbes_nil
  · cases hc2 : c.afterAck ack nowMs config with
    | none =>
      rw [processAck_removed config nowMs segment hadv hc2] at hp
      cases hp
    | some c2 =>
      rw [processAck_advanced config nowMs segment hadv hc2] at hp
      obtain ⟨rfl, -, rfl⟩ := Prod.mk.inj hp |>.imp_right Prod.mk.inj
      rw [repairTimedOutFlight_window] at hwin
      rw [repairTimedOutFlight_closed nowMs config hwin]
      exact atMostProbes_nil

/-- **A segment** that leaves the window closed. -/
theorem input_atMostProbes (hs : c.SendInv config isn acc) (segment : Segment) (hno : ¬ c.FillsClosed segment)
    (hwin : (c.input segment nowMs config).1.remoteWindow = 0) : AtMostProbes (c.input segment nowMs config).2.segments := by
  cases hopen : (c.input segment nowMs config).2.closed with
  | true =>
    rw [((input_moves config nowMs segment hs.mss).2 hopen).1]
    exact atMostProbes_nil
  | false =>
    unfold input at hopen hwin ⊢
    split_ifs at hopen hwin ⊢ with h1 h2
    · refine atMostProbes_one ?_
      unfold resetFor
      cases segment.ack <;> exact Nat.zero_le 1
    · exact atMostProbes_one (Nat.zero_le 1)
    · unfold onSegment at hopen hwin ⊢
      split_ifs at hopen hwin ⊢ with hrst
      · unfold onReset
        split_ifs
        · split <;> (try split_ifs) <;> exact atMostProbes_nil
        · exact atMostProbes_nil
        · exact atMostProbes_one (Nat.zero_le 1)
        · exact atMostProbes_nil
      · have hrst' : segment.flags.contains .RST = false := by simpa using hrst
        cases hst : c.state with
        | synSent =>
          simp only [hst] at hwin ⊢
          unfold onSynSent
          split_ifs
          · exact atMostProbes_one (Nat.zero_le 1)
          · exact atMostProbes_nil
        | synReceived =>
          simp only [hst] at hwin ⊢
          unfold onSynReceived at hwin ⊢
          split_ifs at hwin ⊢
          · -- the SYN-ACK has no payload
            intro x hx
            simp only [retransmitOldest_emits, Update.open, Option.mem_toList, Option.map_eq_some_iff] at hx
            obtain ⟨oldest, hold, rfl⟩ := hx
            have hshape := hs.sender.shape
            rw [show c.sender.phase = .opening by simp only [sender, hst, State.phase]] at hshape
            obtain ⟨piece, hflight, hsyn⟩ := hshape
            have hmem : oldest.piece ∈ c.unacked.map TrackedSegment.piece :=
              List.mem_map_of_mem (List.mem_of_mem_head? (Option.filter_eq_some_iff.1 hold).1)
            rw [show c.unacked.map TrackedSegment.piece = [piece] from hflight, List.mem_singleton] at hmem
            have hempty : oldest.payload = [] := by rw [← hsyn.payload, ← hmem]; rfl
            change oldest.payload.length ≤ 1
            rw [hempty]
            exact Nat.zero_le 1
          · exact atMostProbes_nil
          · exact (receive_flush_closed segment hwin).2
        | _ =>
          have hsync : c.Synchronized := ⟨by rw [hst]; decide, by rw [hst]; decide⟩
          simp only [hst] at hopen hwin ⊢
          obtain ⟨c1, out, hack, -, -, heq⟩ := onSynchronized_processed config nowMs hsync hrst' hopen
          rw [heq] at hwin ⊢
          obtain ⟨hwin1, hrest⟩ := receive_flush_closed segment hwin
          refine AtMostProbes.append ?_ hrest
          rcases hack with ⟨-, -, rfl⟩ | ⟨ack, hack, hp⟩
          · exact atMostProbes_nil
          · exact processAck_atMostProbes hsync hrst' hack hno hp hwin1

/-- **A poll** while the window is closed. -/
theorem poll_atMostProbes (nowMs : ℕ) (hwin : c.remoteWindow = 0) : AtMostProbes (c.poll nowMs config).2.segments := by
  unfold poll
  split_ifs with h1 h2
  · exact atMostProbes_nil
  · unfold pollZeroWindow
    simp only
    split_ifs
    · exact atMostProbes_nil
    · rcases zeroWindowProbe_cases { c with
        nextZeroWindowProbeMs := some (c.nextZeroWindowProbeMs.getD (satAdd nowMs config.initialRtoMs)) } nowMs with
        ⟨x, -, -, heq⟩ | ⟨-, ⟨-, heq⟩ | ⟨hq, heq⟩⟩ <;> rw [heq]
      · exact atMostProbes_one ((List.length_take_le _ _).trans le_rfl)
      · exact atMostProbes_nil
      · exact atMostProbes_one (sendQueued_len (c := c) nowMs (List.length_pos_of_ne_nil hq)).2.le
    · exact atMostProbes_nil
  · -- nothing in flight has payload
    have hnone : ∀ x ∈ c.unacked, x.payload = [] := fun x hx => by
      by_contra hne
      refine h2 ⟨hwin, .inr ?_⟩
      simp only [hasProbePayload, Bool.or_eq_true, List.any_eq_true]
      exact .inr ⟨x, hx, by simpa using hne⟩
    split
    · split_ifs
      · exact atMostProbes_nil
      · unfold pollTimeout
        simp only
        generalize hc1 : ({ c with
          rtoRecoveryUntil := some (c.rtoRecoveryUntil.getD c.sendNxt)
          reno := c.reno.onTimeout (distance c.sendUna c.sendNxt)
          rtt := c.rtt.onTimeout } : Connection P) = c1
        have hu : c1.unacked = c.unacked := by rw [← hc1]
        have hwin1 : (c1.retransmitOldest nowMs true).1.remoteWindow = 0 := by
          rw [(c1.retransmitOldest_frame nowMs true).2.2.2.2, ← hc1]
          exact hwin
        rw [flushData_closed nowMs hwin1, retransmitOldest_emits]
        refine AtMostProbes.append (fun x hx => ?_) atMostProbes_nil
        obtain ⟨oldest, hold, rfl⟩ := Option.map_eq_some_iff.1 (Option.mem_toList.1 hx)
        have hmem := List.mem_of_mem_head? (Option.filter_eq_some_iff.1 hold).1
        rw [hu] at hmem
        change oldest.payload.length ≤ 1
        rw [hnone oldest hmem]
        exact Nat.zero_le 1
      · rw [flushData_closed nowMs hwin]
        exact atMostProbes_nil
    · rw [flushData_closed nowMs hwin]
      exact atMostProbes_nil

/-- the flight begins with `send_una` -/
theorem SendInv.una_inside (hs : c.SendInv config isn acc) : ¬ (after c.sendUna c.sendNxt ∨ before c.sendUna c.sendUna) := by
  rintro (ha | hb)
  · have hroom := hs.sequenceSpace.flight
    have hnxt : c.sendNxt = pos c.sendUna (distance c.sendUna c.sendNxt) := (pos_dist _ _).symm
    have hlt : distance c.sendUna c.sendNxt < 0 := by
      have hbefore : before (pos c.sendUna (distance c.sendUna c.sendNxt)) (pos c.sendUna 0) := by
        rw [pos_zero, ← hnxt]
        exact ha
      exact (before_pos (by omega) (by omega)).1 hbefore
    omega
  · exact not_lt_self _ hb

/-- a segment that repeats `send_una` -/
theorem input_repeated (hs : c.SendInv config isn acc) (hst : c.Synchronized) (hrst : segment.flags.contains .RST = false)
    (hsyn : segment.flags.contains .SYN = false) (hack : segment.ack = some c.sendUna) (nowMs : ℕ) :
    let r := c.repeatAck nowMs (isDuplicateAckCandidate segment c.sendUna c.remoteWindow)
    let c1 := r.1.updateRemoteWindow segment.window nowMs
    c.input segment nowMs config = (((c1.receiveIfData segment nowMs config).1.flushData nowMs).1,
      .open (r.2.retransmit.toList ++ (c1.receiveIfData segment nowMs config).2 ++
        ((c1.receiveIfData segment nowMs config).1.flushData nowMs).2)) := by
  have hin := hs.una_inside
  simp only
  generalize hr : c.repeatAck nowMs (isDuplicateAckCandidate segment c.sendUna c.remoteWindow) = r
  have hsender : r.1.sender = c.sender := by rw [← hr]; exact repeatAck_sender nowMs _
  have hwindow : r.1.windowOf segment c.sendUna nowMs = r.1.updateRemoteWindow segment.window nowMs := by
    have huna : r.1.sendUna = c.sendUna := congrArg Sender.una hsender
    have hnxt : r.1.sendNxt = c.sendNxt := congrArg Sender.nxt hsender
    rw [windowOf, huna, hnxt, if_pos ⟨fun hb => hin (.inr hb), fun ha => hin (.inl ha)⟩]
  rw [input_synchronized hst hrst hsyn]
  unfold onSynchronized
  simp only [hack, processAck_repeated config nowMs segment hin rfl, hr, hwindow, Bool.false_eq_true, if_false]

/-- **The defect.** The third duplicate ACK closes the window, and is answered with the whole oldest segment. -/
theorem FillsClosed.input (h : c.FillsClosed segment) (hs : c.SendInv config isn acc) (nowMs : ℕ) :
    (c.input segment nowMs config).1.remoteWindow = 0 ∧ (c.input segment nowMs config).2.closed = false ∧
      ∃ x ∈ (c.input segment nowMs config).2.segments, 1 < x.payload.length := by
  obtain ⟨oldest, hhead, hbig, hbudget⟩ := h.oldest
  have hcandidate : isDuplicateAckCandidate segment c.sendUna c.remoteWindow = true := by
    simp [isDuplicateAckCandidate, h.ack, h.empty, h.syn, h.fin, h.window]
  have hresendable : c.resendable = some oldest := by
    rw [resendable, show c.unacked.head? = some oldest from hhead, Option.filter_some, decide_eq_true hbudget, if_pos rfl]
  have hout : (c.repeatAck nowMs (isDuplicateAckCandidate segment c.sendUna c.remoteWindow)).2.retransmit = some (c.segmentFor oldest) := by
    rw [repeatAck_emits, if_pos ⟨hcandidate, h.third⟩, hresendable]
    rfl
  have hresult := input_repeated hs h.sync h.rst h.syn h.ack nowMs
  simp only [hout] at hresult
  generalize (c.repeatAck nowMs (isDuplicateAckCandidate segment c.sendUna c.remoteWindow)).1 = c1 at hresult
  have hzero : (c1.updateRemoteWindow segment.window nowMs).remoteWindow = 0 := by rw [updateRemoteWindow, if_pos h.window]
  rw [hresult]
  refine ⟨?_, rfl, c.segmentFor oldest, by simp [Update.open], hbig⟩
  rw [(flushData_keeps nowMs).2.2.1, receiveIfData_window]
  exact hzero

end Connection

namespace Socket

open Connection

variable {P : Type} {config : Config} {s : Socket P}

/-- the operation answers the third duplicate ACK, which closes the window, with a whole segment -/
def FillsClosed (s : Socket P) : SocketOp → Prop
  | .input segment _ => s.conn.FillsClosed segment
  | _ => False

/-- a removed connection, or one that is being removed, emits no payload -/
theorem step_atMostProbes {isn : U32} (hret : s.retained = true) (hs : s.conn.SendInv config isn s.accepted) (op : SocketOp)
    (hno : ¬ s.FillsClosed op) (hwin : (s.step config op).conn.remoteWindow = 0) :
    ∃ out, (s.step config op).sent = s.sent ++ out ∧ AtMostProbes out := by
  have hnone : ∀ {t : Socket P}, t.sent = s.sent → ∃ out, t.sent = s.sent ++ out ∧ AtMostProbes out := fun h =>
    ⟨[], by rw [h, List.append_nil], atMostProbes_nil⟩
  cases op with
  | input segment nowMs =>
    simp only [step, onInput, hret, if_true] at hwin ⊢
    exact ⟨_, rfl, input_atMostProbes hs segment hno hwin⟩
  | write bytes nowMs =>
    simp only [step, onWrite, hret, if_true] at hwin ⊢
    rcases hw : s.conn.write bytes nowMs config with _ | ⟨conn, count, out⟩
    · exact hnone rfl
    · rw [hw] at hwin
      obtain ⟨-, -, -, -, hmoves⟩ := write_moves config nowMs hs.mss hw
      have hbefore : s.conn.remoteWindow = 0 := (Moves.window_eq hmoves).symm.trans hwin
      unfold Connection.write at hw
      split_ifs at hw
      simp only [Except.ok.injEq, Prod.mk.injEq] at hw
      rw [flushData_closed nowMs (by exact hbefore)] at hw
      obtain ⟨rfl, rfl, rfl⟩ := hw
      exact hnone (List.append_nil _)
  | read max =>
    simp only [step, onRead, hret, if_true]
    refine ⟨_, rfl, ?_⟩
    unfold Connection.read
    simp only
    split_ifs
    · exact atMostProbes_one (Nat.zero_le 1)
    · exact atMostProbes_nil
  | close nowMs =>
    simp only [step, onUpdate, hret, if_true] at hwin ⊢
    have hbefore : s.conn.remoteWindow = 0 := by rw [← hwin]; exact (Moves.window_eq (close_moves config nowMs hs.mss).1).symm
    refine ⟨_, rfl, ?_⟩
    unfold Connection.close
    split
    · rw [flushData_closed nowMs (by exact hbefore)]
      exact atMostProbes_nil
    · rw [flushData_closed nowMs (by exact hbefore)]
      exact atMostProbes_nil
    all_goals exact atMostProbes_nil
  | abort =>
    simp only [step, onAbort, hret, if_true]
    exact ⟨_, rfl, atMostProbes_one (Nat.zero_le 1)⟩
  | poll nowMs =>
    simp only [step, onUpdate, hret, if_true] at hwin ⊢
    have hbefore : s.conn.remoteWindow = 0 := by rw [← hwin]; exact (Moves.window_eq (poll_moves config nowMs hs.mss).1).symm
    exact ⟨_, rfl, poll_atMostProbes nowMs hbefore⟩

end Socket

/-- **A closed window.** In every run against any peer, an operation after which the window is closed has emitted at most a byte of
payload in each segment, exactly if it does not answer the third duplicate ACK with a segment of more than one. -/
theorem closed_window_iff {P : Type} (config : ValidConfig) (o : Opening P) (ops : List SocketOp) (op : SocketOp)
    (hr : (Socket.run config.1 o ops).retained = true) :
    let s := Socket.run config.1 o ops
    let t := s.step config.1 op
    (t.conn.remoteWindow = 0 → ∀ x ∈ t.sent.drop s.sent.length, x.payload.length ≤ 1) ↔ ¬ s.FillsClosed op := by
  have hs := Socket.sendInv_run o config.valid ops hr
  generalize Socket.run config.1 o ops = s at hr hs
  refine ⟨fun h hfills => ?_, fun hno hwin => ?_⟩
  · cases op with
    | input segment nowMs =>
      obtain ⟨hwin, -, x, hx, hbig⟩ := Connection.FillsClosed.input hfills hs nowMs
      have hle := h (by simpa [Socket.step, Socket.onInput, hr] using hwin) x (by simpa [Socket.step, Socket.onInput, hr] using hx)
      omega
    | write | read | close | abort | poll => exact hfills
  · obtain ⟨out, hsent, hsmall⟩ := Socket.step_atMostProbes hr hs op hno hwin
    rw [hsent, List.drop_left]
    exact hsmall

/-- a client that has sent three bytes, and two ACKs that close the window -/
def closedRun : List SocketOp :=
  [.input { Segment.new 80 9000 700 with
      ack := some 101
      flags := Flags.SYN.union .ACK
      options := [.maxSegmentSize 1000, .fipsVersion FIPS_VERSION 0] } 5,
    .write [1, 2, 3] 6,
    .input { Segment.new 80 9000 701 with ack := some 101, flags := .ACK, window := 0 } 7,
    .input { Segment.new 80 9000 701 with ack := some 101, flags := .ACK, window := 0 } 8]

/-- the third -/
def closedAck : SocketOp := .input { Segment.new 80 9000 701 with ack := some 101, flags := .ACK, window := 0 } 9

/-- **A full segment into a closed window.** -/
theorem closed_window_filled :
    (Socket.run Config.default (.client () 9000 80 100 0 0) closedRun).retained = true ∧
      ((Socket.run Config.default (.client () 9000 80 100 0 0) closedRun).step Config.default closedAck).conn.remoteWindow = 0 ∧
      (((Socket.run Config.default (.client () 9000 80 100 0 0) closedRun).step Config.default closedAck).sent.drop
        (Socket.run Config.default (.client () 9000 80 100 0 0) closedRun).sent.length).map (·.payload) = [[1, 2, 3]] :=
  ⟨by decide, by decide, by decide⟩

/-- the timeout that follows leaves the window to the probes -/
theorem closed_window_iff_poll :
    (((Socket.run Config.default (.client () 9000 80 100 0 0) closedRun).step Config.default (.poll 5000)).sent.drop
      (Socket.run Config.default (.client () 9000 80 100 0 0) closedRun).sent.length).all (fun x => decide (x.payload.length ≤ 1)) = true := by
  have h := closed_window_iff ⟨Config.default, Config.default_validate⟩ (.client () 9000 80 100 0 0) closedRun (.poll 5000) (by decide)
  exact List.all_eq_true.2 fun x hx => decide_eq_true (h.2 id (by decide) x hx)

end FipsTcp
