/-
What a connection can do, one primitive at a time.

Every operation of a connection (a segment, a poll, a write, a read, a close) is a sequence of moves, and a move is one
call of a primitive of the source with the guard under which the source calls it. `Move` lists them; `input_moves`,
`poll_moves`, `write_moves` and `close_moves` decompose the operations. An invariant of connections is then proved by
cases on `Move`, once for each primitive, and holds of every operation. What the application gives and takes
(`acceptBytes`, `consume`) is kept out of the moves: a move never changes what was accepted or delivered.

A segment may also remove the connection: `input_moves` says when, and what the connection looks like then.
-/
import FipsTcp.Connection.Views

namespace FipsTcp

/-- payload, a SYN or a FIN: what a connection numbers and acknowledges -/
def Segment.occupies (s : Segment) : Bool := !s.payload.isEmpty || s.flags.contains .SYN || s.flags.contains .FIN

namespace Connection

variable {P : Type}

/-- one primitive, at time `nowMs`, while the segment `inp` (if any) is handled; the list is what it emits -/
inductive Move (config : Config) (nowMs : ℕ) (inp : Option Segment) :
    Connection P → List Segment → Connection P → Prop
  | establishClient (c : Connection P) (segment : Segment) (hin : inp = some segment) (hst : c.state = .synSent)
      (hsyn : segment.flags.contains .SYN = true) (hrst : segment.flags.contains .RST = false)
      (hack : segment.ack = some c.sendNxt) :
      Move config nowMs inp c [] (c.establishClient segment nowMs config)
  | establishServer (c : Connection P) (segment : Segment) (hin : inp = some segment) (hst : c.state = .synReceived)
      (hrst : segment.flags.contains .RST = false) (hack : segment.ack = some c.sendNxt) :
      Move config nowMs inp c [] (c.establishServer segment nowMs)
  | window (c : Connection P) (segment : Segment) (hin : inp = some segment) (hst : c.Synchronized) :
      Move config nowMs inp c [] (c.updateRemoteWindow segment.window nowMs)
  | timers (c : Connection P) (rtt : RttEstimator) (reno : Reno) (duplicateAcks zeroWindowProbes : ℕ)
      (rtoRecoveryUntil : Option U32) (nextZeroWindowProbeMs : Option ℕ)
      (hrtt : rtt = c.rtt ∨ rtt = c.rtt.onTimeout) (hreno : reno.mss = c.reno.mss)
      (hprobe : c.nextZeroWindowProbeMs.isSome = true → nextZeroWindowProbeMs.isSome = true) :
      Move config nowMs inp c [] { c with
        rtt, reno, duplicateAcks, zeroWindowProbes, rtoRecoveryUntil, nextZeroWindowProbeMs }
  | retransmit (c : Connection P) (timeout : Bool) :
      Move config nowMs inp c (c.retransmitOldest nowMs timeout).2.toList (c.retransmitOldest nowMs timeout).1
  | advanceAck (c c' : Connection P) (segment : Segment) (ack : U32) (hin : inp = some segment)
      (hrst : segment.flags.contains .RST = false) (hack : segment.ack = some ack) (hst : c.Synchronized)
      (hadv : c.Advances ack) (h : c.afterAck ack nowMs config = some c') : Move config nowMs inp c [] c'
  | receive (c : Connection P) (segment : Segment) (hin : inp = some segment) (hst : c.Synchronized)
      (hrst : segment.flags.contains .RST = false)
      (hdata : segment.payload ≠ [] ∨ segment.flags.contains .FIN = true) :
      Move config nowMs inp c (c.receiveStreamData segment nowMs config).2 (c.receiveStreamData segment nowMs config).1
  | sendData (c : Connection P) (count : ℕ) (hst : c.Sending) (h0 : 0 < count) (hallow : count ≤ c.sendAllowance)
      (hmss : count ≤ c.mss) (hq : count ≤ c.sendQueue.length) :
      Move config nowMs inp c [(c.sendQueued count nowMs).2] (c.sendQueued count nowMs).1
  | sendFin (c : Connection P) (hst : c.Sending) (hclose : c.closeRequested = true) (hq : c.sendQueue = [])
      (hallow : 0 < c.sendAllowance) : Move config nowMs inp c [(c.sendFin nowMs).2] (c.sendFin nowMs).1
  | probe (c : Connection P) (hwin : c.remoteWindow = 0) :
      Move config nowMs inp c (c.zeroWindowProbe nowMs).2.toList (c.zeroWindowProbe nowMs).1
  | ack (c : Connection P) (hst : c.state ≠ .synSent) : Move config nowMs inp c [c.ackSegment] c
  | reset (c : Connection P) (segment : Segment) (hin : inp = some segment)
      (hrst : segment.flags.contains .RST = false) : Move config nowMs inp c [resetFor segment] c
  | requestClose (c : Connection P) (hst : c.Sending) : Move config nowMs inp c [] { c with closeRequested := true }

/-- a sequence of moves; the list is all they emit, in order -/
inductive Moves (config : Config) (nowMs : ℕ) (inp : Option Segment) :
    Connection P → List Segment → Connection P → Prop
  | refl (c : Connection P) : Moves config nowMs inp c [] c
  | cons {c c1 c2 : Connection P} {out out' : List Segment} :
      Move config nowMs inp c out c1 → Moves config nowMs inp c1 out' c2 → Moves config nowMs inp c (out ++ out') c2

section Moves

variable {config : Config} {nowMs : ℕ} {inp : Option Segment} {c c1 c2 : Connection P} {out out' : List Segment}

theorem Move.one (h : Move config nowMs inp c out c1) : Moves config nowMs inp c out c1 := by
  simpa using Moves.cons h (Moves.refl c1)

theorem Moves.trans (h1 : Moves config nowMs inp c out c1) (h2 : Moves config nowMs inp c1 out' c2) :
    Moves config nowMs inp c (out ++ out') c2 := by
  induction h1 with
  | refl c => exact h2
  | cons h _ ih => rw [List.append_assoc]; exact Moves.cons h (ih h2)

/-- moves that emit nothing first -/
theorem Moves.after (h1 : Moves config nowMs inp c [] c1) (h2 : Moves config nowMs inp c1 out c2) :
    Moves config nowMs inp c out c2 := by simpa using h1.trans h2

/-- **Invariants of connections with a history**: what every move preserves, with what it emits added to the history, every
sequence of moves preserves. -/
theorem Moves.history {Q : List Segment → Connection P → Prop}
    (hQ : ∀ {sent c out c'}, Move config nowMs inp c out c' → Q sent c → Q (sent ++ out) c')
    (h : Moves config nowMs inp c out c1) (sent : List Segment) (hc : Q sent c) : Q (sent ++ out) c1 := by
  induction h generalizing sent with
  | refl c => rw [List.append_nil]; exact hc
  | cons h _ ih => rw [← List.append_assoc]; exact ih _ (hQ h hc)

/-- **Invariants of connections**: what every move preserves, every sequence of moves preserves. -/
theorem Moves.preserves {Q : Connection P → Prop}
    (hQ : ∀ {c out c'}, Move config nowMs inp c out c' → Q c → Q c') (h : Moves config nowMs inp c out c1)
    (hc : Q c) : Q c1 := h.history (Q := fun _ c => Q c) hQ [] hc

theorem synchronized_iff : c.Synchronized ↔ c.state.phase ≠ .opening := by
  unfold Synchronized
  cases c.state <;> simp [State.phase]

/-- the fields that only the timers change -/
theorem Moves.timers (rtt : RttEstimator) (reno : Reno) (duplicateAcks zeroWindowProbes : ℕ)
    (rtoRecoveryUntil : Option U32) (nextZeroWindowProbeMs : Option ℕ)
    (h : c1 = { c with rtt, reno, duplicateAcks, zeroWindowProbes, rtoRecoveryUntil, nextZeroWindowProbeMs })
    (hrtt : rtt = c.rtt ∨ rtt = c.rtt.onTimeout) (hreno : reno.mss = c.reno.mss)
    (hprobe : c.nextZeroWindowProbeMs.isSome = true → nextZeroWindowProbeMs.isSome = true) :
    Moves config nowMs inp c [] c1 := by
  rw [h]
  exact (Move.timers c rtt reno duplicateAcks zeroWindowProbes rtoRecoveryUntil nextZeroWindowProbeMs hrtt hreno hprobe).one

/-- a segment that occupies no sequence space leaves the receiving half as it is, and so does an operation without one -/
theorem Move.receiver_eq_empty (h : Move config nowMs inp c out c1) (hinp : ∀ segment, inp = some segment → segment.occupies = false) :
    c1.receiver = c.receiver := by
  cases h with
  | establishClient segment hin hst hsyn =>
    have hempty := hinp segment hin
    simp [Segment.occupies, hsyn] at hempty
  | establishServer segment => exact (c.establishServer_frame segment nowMs).1
  | window segment => exact (c.updateRemoteWindow_frame segment.window nowMs).1
  | timers => rfl
  | retransmit timeout => exact (c.retransmitOldest_frame nowMs timeout).1
  | advanceAck c' segment ack hin hrst hack hst hadv h => exact (afterAck_frame nowMs config h).1
  | receive segment hin hst hrst hdata =>
    have hempty := hinp segment hin
    rcases hdata with hdata | hdata <;> simp [Segment.occupies, hdata] at hempty
  | sendData => rfl
  | sendFin => rfl
  | probe =>
    rcases c.zeroWindowProbe_cases nowMs with ⟨x, -, -, h⟩ | ⟨-, ⟨-, h⟩ | ⟨-, h⟩⟩ <;> rw [h] <;> rfl
  | ack => rfl
  | reset => rfl
  | requestClose => rfl

theorem Moves.receiver_eq_empty (h : Moves config nowMs inp c out c1) (hinp : ∀ segment, inp = some segment → segment.occupies = false) :
    c1.receiver = c.receiver :=
  h.preserves (Q := fun c' => c'.receiver = c.receiver) (fun h hc => (h.receiver_eq_empty hinp).trans hc) rfl

theorem Moves.receiver_eq (h : Moves config nowMs none c out c1) : c1.receiver = c.receiver :=
  h.receiver_eq_empty fun _ hin => nomatch hin

end Moves

/-! ## Sending and receiving -/

section Parts

variable (config : Config) (nowMs : ℕ) (inp : Option Segment) {c : Connection P}

theorem flushLoop_moves (fuel : ℕ) (hm : 0 < c.mss) (hst : c.Sending) :
    Moves config nowMs inp c (flushLoop nowMs fuel c).2 (flushLoop nowMs fuel c).1 ∧
      (flushLoop nowMs fuel c).1.Sending := by
  induction fuel generalizing c with
  | zero => exact ⟨Moves.refl c, hst⟩
  | succ fuel ih =>
    simp only [flushLoop]
    split_ifs with h
    · exact ⟨Moves.refl c, hst⟩
    · obtain ⟨ha, hq⟩ := not_or.1 h
      have hlen := List.length_pos_of_ne_nil hq
      obtain ⟨h1, h2⟩ := ih (c := (c.sendQueued (min (min c.sendAllowance c.mss) c.sendQueue.length) nowMs).1) hm hst
      exact ⟨Moves.cons (Move.sendData c _ hst (by omega) (by omega) (by omega) (by omega)) h1, h2⟩

theorem flushFin_moves (hst : c.Sending) : Moves config nowMs inp c (c.flushFin nowMs).2 (c.flushFin nowMs).1 := by
  unfold flushFin
  split_ifs with h
  · exact (Move.sendFin c hst h.1 h.2.1 h.2.2).one
  · exact Moves.refl c

theorem flushData_moves (hm : 0 < c.mss) : Moves config nowMs inp c (c.flushData nowMs).2 (c.flushData nowMs).1 := by
  unfold flushData
  split_ifs with h
  · obtain ⟨h1, h2⟩ := flushLoop_moves config nowMs inp c.sendQueue.length hm h
    exact h1.trans (flushFin_moves config nowMs inp h2)
  · exact Moves.refl c

theorem receiveIfData_moves {segment : Segment} (hin : inp = some segment) (hrst : segment.flags.contains .RST = false)
    (hst : c.Synchronized) :
    Moves config nowMs inp c (c.receiveIfData segment nowMs config).2 (c.receiveIfData segment nowMs config).1 ∧
      (c.receiveIfData segment nowMs config).1.mss = c.mss := by
  unfold receiveIfData
  split_ifs with h
  · exact ⟨(Move.receive c segment hin hst hrst h).one,
      (outgoing_frame (receiveStreamData_outgoing c segment nowMs config).1).1⟩
  · exact ⟨Moves.refl c, rfl⟩

/-- the end of `on_segment`: receive, then flush -/
theorem receive_flush_moves {segment : Segment} (hin : inp = some segment) (hrst : segment.flags.contains .RST = false)
    (hst : c.Synchronized) (hm : 0 < c.mss) :
    Moves config nowMs inp c
      ((c.receiveIfData segment nowMs config).2 ++ ((c.receiveIfData segment nowMs config).1.flushData nowMs).2)
      ((c.receiveIfData segment nowMs config).1.flushData nowMs).1 := by
  obtain ⟨h1, h2⟩ := receiveIfData_moves config nowMs inp hin hrst hst
  exact h1.trans (flushData_moves config nowMs inp (by rw [h2]; exact hm))

theorem repairTimedOutFlight_moves :
    Moves config nowMs inp c (c.repairTimedOutFlight nowMs config).2.toList (c.repairTimedOutFlight nowMs config).1 ∧
      (c.repairTimedOutFlight nowMs config).1.mss = c.mss ∧
      (c.repairTimedOutFlight nowMs config).1.state = c.state := by
  unfold repairTimedOutFlight
  split
  · split_ifs
    · exact ⟨Moves.refl c, rfl, rfl⟩
    · obtain ⟨-, -, h1, h2, -⟩ := c.retransmitOldest_frame nowMs false
      exact ⟨(Move.retransmit c false).one, h1, h2⟩
  · exact ⟨Moves.refl c, rfl, rfl⟩

end Parts

/-! ## Acknowledgments -/

section Acks

variable (config : Config) (nowMs : ℕ) {c : Connection P}

/-- a repeated ACK counts itself, and the third one retransmits -/
theorem repeatAck_moves (inp : Option Segment) (duplicate : Bool) :
    Moves config nowMs inp c (c.repeatAck nowMs duplicate).2.retransmit.toList (c.repeatAck nowMs duplicate).1 ∧
      (c.repeatAck nowMs duplicate).2.finAcked = false ∧ (c.repeatAck nowMs duplicate).1.mss = c.mss ∧
      (c.repeatAck nowMs duplicate).1.state = c.state ∧ (c.repeatAck nowMs duplicate).1.sendUna = c.sendUna := by
  unfold repeatAck
  simp only
  split_ifs
  · generalize hc : ({ c with
      duplicateAcks := satSucc8 c.duplicateAcks
      reno := c.reno.onDuplicateAck.onFastLoss (distance c.sendUna c.sendNxt) } : Connection P) = c2
    have h1 : Moves config nowMs inp c [] c2 := by
      rw [← hc]; exact Moves.timers _ _ _ _ _ _ rfl (.inl rfl) (by simp) id
    obtain ⟨-, -, hm, hst, -⟩ := c2.retransmitOldest_frame nowMs false
    have hu := congrArg SendWindow.Sender.una (retransmitOldest_sender c2 nowMs false)
    have hc' : c2.mss = c.mss ∧ c2.state = c.state ∧ c2.sendUna = c.sendUna := by rw [← hc]; exact ⟨rfl, rfl, rfl⟩
    exact ⟨h1.after (Move.retransmit c2 false).one, rfl, hm.trans hc'.1, hst.trans hc'.2.1, hu.trans hc'.2.2⟩
  · exact ⟨Moves.timers _ _ _ _ _ _ rfl (.inl rfl) (by simp) id, rfl, rfl, rfl, rfl⟩
  · exact ⟨Moves.timers _ _ _ _ _ _ rfl (.inl rfl) rfl id, rfl, rfl, rfl, rfl⟩

/-- the ACK of the FIN in LAST-ACK: the connection it leaves, which is removed -/
structure LastAcked (c : Connection P) (segment : Segment) (nowMs : ℕ) (config : Config) (c' : Connection P) :
    Prop where
  state : c.state = .lastAck
  rst : segment.flags.contains .RST = false
  acked : ∃ ack, segment.ack = some ack ∧ c.Advances ack ∧ c.afterAck ack nowMs config = none ∧
    c' = (c.advanceAck ack nowMs).1

/-- the window of a segment, which counts when its ACK lies in the flight -/
def windowOf (c : Connection P) (segment : Segment) (ack : U32) (nowMs : ℕ) : Connection P :=
  if inClosedInterval ack c.sendUna c.sendNxt then c.updateRemoteWindow segment.window nowMs else c

theorem windowOf_cases (segment : Segment) (ack : U32) :
    c.windowOf segment ack nowMs = c ∨ c.windowOf segment ack nowMs = c.updateRemoteWindow segment.window nowMs := by
  unfold windowOf
  split_ifs
  · exact .inr rfl
  · exact .inl rfl

theorem windowOf_frame (segment : Segment) (ack : U32) :
    (c.windowOf segment ack nowMs).sender = c.sender ∧ (c.windowOf segment ack nowMs).receiver = c.receiver ∧
      (c.windowOf segment ack nowMs).stable = c.stable ∧ (c.windowOf segment ack nowMs).mss = c.mss ∧
      (c.windowOf segment ack nowMs).state = c.state := by
  rcases windowOf_cases nowMs (c := c) segment ack with h | h <;> rw [h]
  · exact ⟨rfl, rfl, rfl, rfl, rfl⟩
  · exact ⟨c.updateRemoteWindow_sender segment.window nowMs, c.updateRemoteWindow_frame segment.window nowMs⟩

theorem windowOf_una (segment : Segment) (ack : U32) : (c.windowOf segment ack nowMs).sendUna = c.sendUna :=
  congrArg SendWindow.Sender.una (windowOf_frame nowMs segment ack).1

theorem window_moves (segment : Segment) (ack : U32) (hst : c.Synchronized) :
    Moves config nowMs (some segment) c [] (c.windowOf segment ack nowMs) := by
  rcases windowOf_cases nowMs (c := c) segment ack with h | h <;> rw [h]
  · exact Moves.refl c
  · exact (Move.window c segment rfl hst).one

theorem afterAck_synchronized {ack : U32} (hst : c.Synchronized) {c' : Connection P}
    (h : c.afterAck ack nowMs config = some c') : c'.Synchronized := by
  have hstate : (c.advanceAck ack nowMs).1.state = c.state := rfl
  unfold afterAck finAcked at h
  simp only [hstate] at h
  split_ifs at h
  · split at h <;> cases h
    · exact ⟨by simp, by simp⟩
    · exact ⟨by simp [enterTimeWait], by simp [enterTimeWait]⟩
    · exact hst
  · cases h; exact hst

/-- what the ACK part of `on_segment` does: nothing, a repeated ACK, the end of LAST-ACK, or an advance -/
inductive AckResult (c : Connection P) (segment : Segment) (ack : U32) (nowMs : ℕ) (config : Config) :
    Connection P × Bool × List Segment → Prop
  | outside : AckResult c segment ack nowMs config (c, false, [])
  | repeated (duplicate : Bool) : AckResult c segment ack nowMs config
      ((c.repeatAck nowMs duplicate).1.windowOf segment ack nowMs, false,
        (c.repeatAck nowMs duplicate).2.retransmit.toList)
  | removed (hadv : c.Advances ack) (h : c.afterAck ack nowMs config = none) :
      AckResult c segment ack nowMs config ((c.advanceAck ack nowMs).1, true, [])
  | advanced (c2 : Connection P) (hadv : c.Advances ack) (h : c.afterAck ack nowMs config = some c2) :
      AckResult c segment ack nowMs config
        (((c2.windowOf segment ack nowMs).repairTimedOutFlight nowMs config).1, false,
          ((c2.windowOf segment ack nowMs).repairTimedOutFlight nowMs config).2.toList)

theorem afterAck_una {ack : U32} {c' : Connection P} (h : c.afterAck ack nowMs config = some c') : c'.sendUna = ack := by
  have hstate : (c.advanceAck ack nowMs).1.sendUna = ack := rfl
  unfold afterAck finAcked at h
  simp only at h
  split_ifs at h
  · split at h <;> cases h <;> exact hstate
  · cases h; exact hstate

/-- an ACK outside the flight does nothing -/
theorem processAck_outside (segment : Segment) {ack : U32} (h : after ack c.sendNxt ∨ before ack c.sendUna) :
    c.processAck segment ack nowMs config = (c, false, []) := by
  have hno : ¬ inClosedInterval ack c.sendUna c.sendNxt := fun hi => h.elim hi.2 hi.1
  have hsame : ¬ after c.sendUna c.sendUna := Serial.not_lt_self _
  simp only [processAck, applyAck, if_pos h, Bool.false_eq_true, if_false, if_neg hno, if_neg hsame, Option.toList]

/-- a repeated ACK, judged by the window of before -/
theorem processAck_repeated (segment : Segment) {ack : U32} (h : ¬ (after ack c.sendNxt ∨ before ack c.sendUna)) (hsame : ack = c.sendUna) :
    c.processAck segment ack nowMs config =
      ((c.repeatAck nowMs (isDuplicateAckCandidate segment c.sendUna c.remoteWindow)).1.windowOf segment ack nowMs, false,
        (c.repeatAck nowMs (isDuplicateAckCandidate segment c.sendUna c.remoteWindow)).2.retransmit.toList) := by
  obtain ⟨-, hf, -, -, hu⟩ :=
    repeatAck_moves config nowMs (c := c) (some segment) (isDuplicateAckCandidate segment c.sendUna c.remoteWindow)
  have hno : ¬ after ((c.repeatAck nowMs (isDuplicateAckCandidate segment c.sendUna c.remoteWindow)).1.windowOf segment ack
      nowMs).sendUna c.sendUna := by
    rw [windowOf_una, hu]; exact Serial.not_lt_self _
  simp only [processAck, applyAck, if_neg h, if_pos hsame, hf, Bool.false_eq_true, if_false]
  exact if_neg hno

/-- an ACK that advances `send_una`, with the repair that may follow -/
theorem processAck_advanced (segment : Segment) {ack : U32} (hadv : c.Advances ack) {c2 : Connection P}
    (hc2 : c.afterAck ack nowMs config = some c2) :
    c.processAck segment ack nowMs config =
      (((c2.windowOf segment ack nowMs).repairTimedOutFlight nowMs config).1, false,
        ((c2.windowOf segment ack nowMs).repairTimedOutFlight nowMs config).2.toList) := by
  have hafter : (if (c.advanceAck ack nowMs).2.finAcked = true then (c.advanceAck ack nowMs).1.finAcked nowMs config
      else some (c.advanceAck ack nowMs).1) = c.afterAck ack nowMs config := rfl
  have hretr : (c.advanceAck ack nowMs).2.retransmit = none := rfl
  have hpast : after (c2.windowOf segment ack nowMs).sendUna c.sendUna := by
    rw [windowOf_una, afterAck_una config nowMs hc2]
    exact after_of_not_beforeOrEqual (not_or.2 ⟨hadv.2.2, hadv.2.1⟩)
  simp only [processAck, applyAck_of_advances hadv, hafter, hretr, hc2]
  exact if_pos hpast

/-- the ACK of the FIN in LAST-ACK -/
theorem processAck_removed (segment : Segment) {ack : U32} (hadv : c.Advances ack) (hnone : c.afterAck ack nowMs config = none) :
    c.processAck segment ack nowMs config = ((c.advanceAck ack nowMs).1, true, []) := by
  have hafter : (if (c.advanceAck ack nowMs).2.finAcked = true then (c.advanceAck ack nowMs).1.finAcked nowMs config
      else some (c.advanceAck ack nowMs).1) = c.afterAck ack nowMs config := rfl
  have hretr : (c.advanceAck ack nowMs).2.retransmit = none := rfl
  simp only [processAck, applyAck_of_advances hadv, hafter, hretr, hnone, Option.toList]

/-- an ACK lies outside the flight, repeats `send_una`, or advances it -/
theorem ack_cases (c : Connection P) (ack : U32) :
    (after ack c.sendNxt ∨ before ack c.sendUna) ∨ ¬ (after ack c.sendNxt ∨ before ack c.sendUna) ∧ ack = c.sendUna ∨ c.Advances ack := by
  by_cases hwin : after ack c.sendNxt ∨ before ack c.sendUna
  · exact .inl hwin
  · by_cases hsame : ack = c.sendUna
    · exact .inr (.inl ⟨hwin, hsame⟩)
    · exact .inr (.inr ⟨fun h => hwin (.inl h), fun h => hwin (.inr h), hsame⟩)

theorem processAck_cases (segment : Segment) (ack : U32) :
    AckResult c segment ack nowMs config (c.processAck segment ack nowMs config) := by
  rcases c.ack_cases ack with hwin | ⟨hwin, hsame⟩ | hadv
  · rw [processAck_outside config nowMs segment hwin]
    exact .outside
  · rw [processAck_repeated config nowMs segment hwin hsame]
    exact .repeated _
  · cases hc2 : c.afterAck ack nowMs config with
    | none =>
      rw [processAck_removed config nowMs segment hadv hc2]
      exact .removed hadv hc2
    | some c2 =>
      rw [processAck_advanced config nowMs segment hadv hc2]
      exact .advanced c2 hadv hc2

/-- **The ACK part of `on_segment`.** -/
theorem processAck_moves {segment : Segment} {ack : U32} (hrst : segment.flags.contains .RST = false)
    (hack : segment.ack = some ack) (hst : c.Synchronized) {c' : Connection P} {closed : Bool} {out : List Segment}
    (h : c.processAck segment ack nowMs config = (c', closed, out)) :
    (closed = false → Moves config nowMs (some segment) c out c' ∧ c'.mss = c.mss ∧ c'.Synchronized) ∧
      (closed = true → out = [] ∧ LastAcked c segment nowMs config c') := by
  have hcases := processAck_cases config nowMs (c := c) segment ack
  rw [h] at hcases
  cases hcases with
  | outside => exact ⟨fun _ => ⟨Moves.refl c, rfl, hst⟩, fun h => nomatch h⟩
  | repeated duplicate =>
    obtain ⟨hm, -, hmss, hs, -⟩ := repeatAck_moves config nowMs (c := c) (some segment) duplicate
    have hst1 : (c.repeatAck nowMs duplicate).1.Synchronized := by rw [Synchronized, hs]; exact hst
    obtain ⟨-, -, -, hwm, hws⟩ := windowOf_frame nowMs (c := (c.repeatAck nowMs duplicate).1) segment ack
    have hw := window_moves config nowMs segment ack hst1
    refine ⟨fun _ => ⟨by simpa using hm.trans hw, hwm.trans hmss, ?_⟩, fun h => nomatch h⟩
    rw [Synchronized, hws]; exact hst1
  | removed hadv hnone =>
    refine ⟨(fun h => nomatch h), fun _ => ⟨rfl, ⟨?_, hrst, ack, hack, hadv, hnone, rfl⟩⟩⟩
    have hstate : (c.advanceAck ack nowMs).1.state = c.state := rfl
    simp only [afterAck, finAcked, hstate] at hnone
    split_ifs at hnone
    split at hnone <;> first | assumption | cases hnone
  | advanced c2 hadv hc2 =>
    have hst2 := afterAck_synchronized config nowMs hst hc2
    have hmove : Moves config nowMs (some segment) c [] c2 :=
      (Move.advanceAck c c2 segment ack rfl hrst hack hst hadv hc2).one
    obtain ⟨-, -, -, hwm, hws⟩ := windowOf_frame nowMs (c := c2) segment ack
    have hw := window_moves config nowMs segment ack hst2
    have hm2 := (afterAck_frame nowMs config hc2).2.2.1
    obtain ⟨hr, hrm, hrs⟩ := repairTimedOutFlight_moves config nowMs (some segment) (c := c2.windowOf segment ack nowMs)
    refine ⟨fun _ => ⟨(hmove.after hw).after hr, hrm.trans (hwm.trans hm2), ?_⟩, fun h => nomatch h⟩
    rw [Synchronized, hrs, hws]; exact hst2

/-- the ACK part leaves the receiving half alone -/
theorem processAck_frame (segment : Segment) (ack : U32) :
    (c.processAck segment ack nowMs config).1.receiver = c.receiver ∧
      (c.processAck segment ack nowMs config).1.stable = c.stable := by
  have hrepair : ∀ c1 : Connection P, (c1.repairTimedOutFlight nowMs config).1.receiver = c1.receiver ∧
      (c1.repairTimedOutFlight nowMs config).1.stable = c1.stable := fun c1 => by
    unfold repairTimedOutFlight
    split
    · split_ifs
      · exact ⟨rfl, rfl⟩
      · obtain ⟨h1, h2, -⟩ := c1.retransmitOldest_frame nowMs false
        exact ⟨h1, h2⟩
    · exact ⟨rfl, rfl⟩
  have hrepeat : ∀ duplicate, (c.repeatAck nowMs duplicate).1.receiver = c.receiver ∧
      (c.repeatAck nowMs duplicate).1.stable = c.stable := fun duplicate => by
    unfold repeatAck
    simp only
    split_ifs
    · obtain ⟨h1, h2, -⟩ := retransmitOldest_frame _ nowMs false
      exact ⟨h1, h2⟩
    · exact ⟨rfl, rfl⟩
    · exact ⟨rfl, rfl⟩
  have hcases := processAck_cases config nowMs (c := c) segment ack
  generalize c.processAck segment ack nowMs config = result at hcases ⊢
  cases hcases with
  | outside => exact ⟨rfl, rfl⟩
  | repeated duplicate =>
    obtain ⟨-, w1, w2, -, -⟩ := windowOf_frame nowMs (c := (c.repeatAck nowMs duplicate).1) segment ack
    exact ⟨w1.trans (hrepeat duplicate).1, w2.trans (hrepeat duplicate).2⟩
  | removed => exact ⟨rfl, rfl⟩
  | advanced c2 hadv hc2 =>
    obtain ⟨h1, h2, -⟩ := afterAck_frame nowMs config hc2
    obtain ⟨-, w1, w2, -, -⟩ := windowOf_frame nowMs (c := c2) segment ack
    exact ⟨(hrepair _).1.trans (w1.trans h1), (hrepair _).2.trans (w2.trans h2)⟩

end Acks

/-! ## Operations -/

section Operations

variable (config : Config) (nowMs : ℕ) {c : Connection P}

theorem onReset_moves (segment : Segment) (hst : (c.onReset segment).segments ≠ [] → c.state ≠ .synSent) :
    Moves config nowMs (some segment) c (c.onReset segment).segments c := by
  revert hst
  unfold onReset
  repeat' split
  all_goals first
    | exact fun _ => Moves.refl c
    | exact fun hst => (Move.ack c (hst (by simp [Update.open]))).one

/-- a reset in SYN-SENT is answered with nothing, and a reset is never answered when it closes -/
theorem onReset_segments (segment : Segment) :
    ((c.onReset segment).segments ≠ [] → c.state ≠ .synSent) ∧
      ((c.onReset segment).closed = true → (c.onReset segment).segments = []) := by
  unfold onReset
  by_cases h : c.state = .synSent
  · simp only [h, if_true]
    split
    · split_ifs <;> simp [Update.open, Update.close]
    · simp [Update.open]
  · simp only [if_neg h]
    split_ifs <;> simp [Update.open, Update.close, h]

theorem onSynSent_moves {segment : Segment} (hst : c.state = .synSent) (hrst : segment.flags.contains .RST = false) :
    Moves config nowMs (some segment) c (c.onSynSent segment nowMs config).2.segments
        (c.onSynSent segment nowMs config).1 ∧ (c.onSynSent segment nowMs config).2.closed = false := by
  unfold onSynSent
  split_ifs with h
  · have h1 : Moves config nowMs (some segment) c [] (c.establishClient segment nowMs config) :=
      (Move.establishClient c segment rfl hst h.1 hrst h.2.2.1).one
    have h2 : (c.establishClient segment nowMs config).state ≠ .synSent := by
      simp [establishClient]
    exact ⟨h1.after (Move.ack _ h2).one, rfl⟩
  · exact ⟨Moves.refl c, rfl⟩

theorem onSynReceived_moves {segment : Segment} (hst : c.state = .synReceived) (hm : 0 < c.mss)
    (hrst : segment.flags.contains .RST = false) :
    Moves config nowMs (some segment) c (c.onSynReceived segment nowMs config).2.segments
        (c.onSynReceived segment nowMs config).1 ∧ (c.onSynReceived segment nowMs config).2.closed = false := by
  unfold onSynReceived
  split_ifs with h1 h2
  · exact ⟨(Move.retransmit c false).one, rfl⟩
  · exact ⟨Moves.refl c, rfl⟩
  · have hack : segment.ack = some c.sendNxt := not_not.1 h2
    have hm1 := (c.establishServer_frame segment nowMs).2.2.1
    have hst1 : (c.establishServer segment nowMs).Synchronized := by simp [Synchronized, establishServer]
    have h3 := receive_flush_moves config nowMs (some segment) rfl hrst hst1 (by rw [hm1]; exact hm)
    exact ⟨(Move.establishServer c segment rfl hst hrst hack).one.after h3, rfl⟩

theorem onSynchronized_moves {segment : Segment} (hst : c.Synchronized) (hm : 0 < c.mss)
    (hrst : segment.flags.contains .RST = false) :
    ((c.onSynchronized segment nowMs config).2.closed = false →
        Moves config nowMs (some segment) c (c.onSynchronized segment nowMs config).2.segments
          (c.onSynchronized segment nowMs config).1) ∧
      ((c.onSynchronized segment nowMs config).2.closed = true →
        (c.onSynchronized segment nowMs config).2.segments = [] ∧
          LastAcked c segment nowMs config (c.onSynchronized segment nowMs config).1) := by
  unfold onSynchronized
  cases hack : segment.ack with
  | none =>
    refine ⟨fun _ => ?_, fun h => nomatch h⟩
    simpa [Update.open] using receive_flush_moves config nowMs (some segment) rfl hrst hst hm
  | some ack =>
    rcases hp : c.processAck segment ack nowMs config with ⟨c1, closed, out⟩
    obtain ⟨hopen, hclosed⟩ := processAck_moves config nowMs hrst hack hst hp
    simp only [hp]
    cases closed with
    | true =>
      obtain ⟨rfl, hl⟩ := hclosed rfl
      exact ⟨(fun h => nomatch h), fun _ => ⟨rfl, hl⟩⟩
    | false =>
      obtain ⟨h1, hm1, hst1⟩ := hopen rfl
      refine ⟨fun _ => ?_, fun h => nomatch h⟩
      have h2 := receive_flush_moves config nowMs (some segment) rfl hrst hst1 (by rw [hm1]; exact hm)
      simpa [Update.open] using h1.trans h2

/-- a segment that leaves a synchronized connection open: its ACK, if it has one, then its data, then what can be sent -/
theorem onSynchronized_processed {segment : Segment} (hst : c.Synchronized) (hrst : segment.flags.contains .RST = false)
    (hopen : (c.onSynchronized segment nowMs config).2.closed = false) :
    ∃ c1 out, (segment.ack = none ∧ c1 = c ∧ out = [] ∨
        ∃ ack, segment.ack = some ack ∧ c.processAck segment ack nowMs config = (c1, false, out)) ∧
      c1.Synchronized ∧ c1.mss = c.mss ∧
      c.onSynchronized segment nowMs config = (((c1.receiveIfData segment nowMs config).1.flushData nowMs).1,
        .open (out ++ ((c1.receiveIfData segment nowMs config).2 ++
          ((c1.receiveIfData segment nowMs config).1.flushData nowMs).2))) := by
  unfold onSynchronized at hopen ⊢
  cases hack : segment.ack with
  | none => exact ⟨c, [], .inl ⟨rfl, rfl, rfl⟩, hst, rfl, rfl⟩
  | some ack =>
    rcases hp : c.processAck segment ack nowMs config with ⟨c1, closed, out⟩
    simp only [hack, hp] at hopen ⊢
    cases closed with
    | true => cases hopen
    | false =>
      obtain ⟨-, hm, hst1⟩ := (processAck_moves config nowMs hrst hack hst hp).1 rfl
      exact ⟨c1, out, .inr ⟨ack, rfl, hp⟩, hst1, hm, by simp only [Bool.false_eq_true, if_false, List.append_assoc]⟩

theorem onSynchronized_parts {segment : Segment} (hst : c.Synchronized) (hrst : segment.flags.contains .RST = false)
    (hopen : (c.onSynchronized segment nowMs config).2.closed = false) :
    ∃ c1 out, (segment.ack = none ∧ c1 = c ∧ out = [] ∨
        ∃ ack, segment.ack = some ack ∧ AckResult c segment ack nowMs config (c1, false, out)) ∧
      c1.Synchronized ∧ c1.mss = c.mss ∧
      c.onSynchronized segment nowMs config = (((c1.receiveIfData segment nowMs config).1.flushData nowMs).1,
        .open (out ++ ((c1.receiveIfData segment nowMs config).2 ++
          ((c1.receiveIfData segment nowMs config).1.flushData nowMs).2))) := by
  obtain ⟨c1, out, hack, hrest⟩ := onSynchronized_processed config nowMs hst hrst hopen
  refine ⟨c1, out, hack.imp_right fun h => ?_, hrest⟩
  obtain ⟨ack, hseg, hp⟩ := h
  exact ⟨ack, hseg, hp ▸ processAck_cases config nowMs segment ack⟩

/-- **The data path.** In a synchronized state, a segment that does not complete the close reaches the receiving half as
it was. -/
theorem onSynchronized_receiver {segment : Segment} (hst : c.Synchronized) (hrst : segment.flags.contains .RST = false)
    (hopen : (c.onSynchronized segment nowMs config).2.closed = false) :
    ∃ c1 out, Moves config nowMs (some segment) c out c1 ∧ c1.Synchronized ∧ c1.receiver = c.receiver ∧
      c1.stable = c.stable ∧
      (c.onSynchronized segment nowMs config).1.receiver = (c1.receiveIfData segment nowMs config).1.receiver := by
  unfold onSynchronized at hopen ⊢
  cases hack : segment.ack with
  | none => exact ⟨c, [], Moves.refl c, hst, rfl, rfl, (flushData_frame _ nowMs).1⟩
  | some ack =>
    obtain ⟨h1, h2⟩ := processAck_frame config nowMs (c := c) segment ack
    rcases hp : c.processAck segment ack nowMs config with ⟨c1, closed, out⟩
    rw [hp] at h1 h2
    simp only [hack, hp] at hopen ⊢
    cases closed with
    | true => cases hopen
    | false =>
      obtain ⟨hm, -, hst1⟩ := (processAck_moves config nowMs hrst hack hst hp).1 rfl
      exact ⟨c1, out, hm, hst1, h1, h2, (flushData_frame _ nowMs).1⟩

/-- why a segment removed the connection, and what was left of it -/
inductive Removed (c : Connection P) (segment : Segment) (nowMs : ℕ) (config : Config) : Connection P → Prop
  | reset (h : segment.flags.contains .RST = true) : Removed c segment nowMs config c
  | lastAck (c' : Connection P) (h : LastAcked c segment nowMs config c') : Removed c segment nowMs config c'

/-- **A segment.** It is a sequence of moves, or it removes the connection without an answer. -/
theorem input_moves (segment : Segment) (hm : 0 < c.mss) :
    ((c.input segment nowMs config).2.closed = false →
        Moves config nowMs (some segment) c (c.input segment nowMs config).2.segments (c.input segment nowMs config).1) ∧
      ((c.input segment nowMs config).2.closed = true →
        (c.input segment nowMs config).2.segments = [] ∧
          Removed c segment nowMs config (c.input segment nowMs config).1) := by
  unfold input
  split_ifs with h1 h2
  · refine ⟨fun _ => (Move.reset c segment rfl ?_).one, fun h => absurd h Bool.false_ne_true⟩
    simp only [unacceptableAck, Bool.and_eq_true, Bool.not_eq_true'] at h1; exact h1.1.2
  · refine ⟨fun _ => (Move.ack c ?_).one, fun h => absurd h Bool.false_ne_true⟩
    simp only [unexpectedSyn, Bool.and_eq_true, decide_eq_true_eq] at h2; exact h2.1.1.1
  · unfold onSegment
    split_ifs with hrst
    · obtain ⟨hs, hc⟩ := onReset_segments (c := c) segment
      exact ⟨fun _ => onReset_moves config nowMs segment hs, fun h => ⟨hc h, .reset hrst⟩⟩
    · have hrst' : segment.flags.contains .RST = false := by simpa using hrst
      split
      · rename_i hst
        obtain ⟨h3, h4⟩ := onSynSent_moves config nowMs hst hrst'
        exact ⟨fun _ => h3, fun h => by rw [h4] at h; cases h⟩
      · rename_i hst
        obtain ⟨h3, h4⟩ := onSynReceived_moves config nowMs hst hm hrst'
        exact ⟨fun _ => h3, fun h => by rw [h4] at h; cases h⟩
      · rename_i hn1 hn2
        obtain ⟨h3, h4⟩ := onSynchronized_moves config nowMs ⟨hn1, hn2⟩ hm hrst'
        exact ⟨h3, fun h => ⟨(h4 h).1, .lastAck _ (h4 h).2⟩⟩

theorem pollZeroWindow_moves (hwin : c.remoteWindow = 0) :
    Moves config nowMs none c (c.pollZeroWindow nowMs config).2.segments (c.pollZeroWindow nowMs config).1 ∧
      ((c.pollZeroWindow nowMs config).2.closed = true → (c.pollZeroWindow nowMs config).2.segments = []) := by
  unfold pollZeroWindow
  simp only
  generalize hc : ({ c with
    nextZeroWindowProbeMs := some (c.nextZeroWindowProbeMs.getD (satAdd nowMs config.initialRtoMs)) } :
      Connection P) = c1
  have h1 : Moves config nowMs none c [] c1 := by
    rw [← hc]; exact Moves.timers _ _ _ _ _ _ rfl (.inl rfl) rfl fun _ => rfl
  have hwin1 : c1.remoteWindow = 0 := by rw [← hc]; exact hwin
  split_ifs
  · exact ⟨h1, fun _ => rfl⟩
  · have h2 : Moves config nowMs none c1 _ _ := (Move.probe c1 hwin1).one
    rcases hp : c1.zeroWindowProbe nowMs with ⟨c2, probe⟩
    rw [hp] at h2
    cases probe with
    | none => exact ⟨h1.after h2, fun h => nomatch h⟩
    | some probe =>
      refine ⟨?_, fun h => nomatch h⟩
      have h3 := h2.trans (Move.timers c2 c2.rtt c2.reno c2.duplicateAcks (satSucc8 c2.zeroWindowProbes)
        c2.rtoRecoveryUntil (some (satAdd nowMs (min (satMul config.initialRtoMs
          (2 ^ min (satSucc8 c2.zeroWindowProbes) 16)) config.maxRtoMs))) (.inl rfl) rfl fun _ => rfl).one
      simpa [Update.open] using h1.after h3
  · exact ⟨h1, fun h => nomatch h⟩

theorem pollTimeout_moves (hm : 0 < c.mss) :
    Moves config nowMs none c (c.pollTimeout nowMs).2 (c.pollTimeout nowMs).1 := by
  unfold pollTimeout
  simp only
  generalize hc : ({ c with
    rtoRecoveryUntil := some (c.rtoRecoveryUntil.getD c.sendNxt)
    reno := c.reno.onTimeout (distance c.sendUna c.sendNxt)
    rtt := c.rtt.onTimeout } : Connection P) = c1
  have h1 : Moves config nowMs none c [] c1 := by
    rw [← hc]; exact Moves.timers _ _ _ _ _ _ rfl (.inr rfl) (by simp) id
  have hm1 : c1.mss = c.mss := by rw [← hc]
  obtain ⟨-, -, hm2, -, -⟩ := c1.retransmitOldest_frame nowMs true
  refine h1.after ((Move.retransmit c1 true).one.trans (flushData_moves config nowMs none ?_))
  rw [hm2, hm1]; exact hm

/-- **A poll.** It is a sequence of moves; when it removes the connection it emits nothing. -/
theorem poll_moves (hm : 0 < c.mss) :
    Moves config nowMs none c (c.poll nowMs config).2.segments (c.poll nowMs config).1 ∧
      ((c.poll nowMs config).2.closed = true → (c.poll nowMs config).2.segments = []) := by
  unfold poll
  split_ifs with h1 h2
  · exact ⟨Moves.refl c, fun _ => rfl⟩
  · exact pollZeroWindow_moves config nowMs h2.1
  · split
    · split_ifs
      · exact ⟨Moves.refl c, fun _ => rfl⟩
      · exact ⟨pollTimeout_moves config nowMs hm, fun h => nomatch h⟩
      · exact ⟨flushData_moves config nowMs none hm, fun h => nomatch h⟩
    · exact ⟨flushData_moves config nowMs none hm, fun h => nomatch h⟩

/-- the bytes that `write` accepts -/
def acceptBytes (c : Connection P) (bytes : List U8) : Connection P :=
  { c with
    sendQueue := c.sendQueue ++ bytes
    sendProgress := c.sendProgress.accept bytes.length }

/-- **A write.** What it accepts fits the send buffer; the rest is a sequence of moves. -/
theorem write_moves {bytes : List U8} (hm : 0 < c.mss) {c' : Connection P} {count : ℕ} {out : List Segment}
    (h : c.write bytes nowMs config = .ok (c', count, out)) :
    c.Sending ∧ c.closeRequested = false ∧ count ≤ bytes.length ∧ count ≤ config.sendBuffer - c.buffered ∧
      Moves config nowMs none (c.acceptBytes (bytes.take count)) out c' := by
  unfold write at h
  split_ifs at h with h1
  simp only [Except.ok.injEq, Prod.mk.injEq] at h
  obtain ⟨hc', rfl, rfl⟩ := h
  obtain ⟨hst, hclose⟩ := not_or.1 h1
  have hlen : ∀ n, (bytes.take (min bytes.length n)).length = min bytes.length n := fun n => by
    rw [List.length_take]; omega
  refine ⟨not_not.1 hst, by simpa using hclose, by omega, by unfold buffered; omega, ?_⟩
  rw [← hc', acceptBytes, hlen]
  exact flushData_moves config nowMs none hm

/-- **A close.** -/
theorem close_moves (hm : 0 < c.mss) :
    Moves config nowMs none c (c.close nowMs).2.segments (c.close nowMs).1 ∧
      ((c.close nowMs).2.closed = true → (c.close nowMs).2.segments = [] ∧ (c.close nowMs).1 = c) := by
  unfold close
  split
  · rename_i hst
    exact ⟨(Move.requestClose c (.inl hst)).one.after (flushData_moves config nowMs none hm), fun h => nomatch h⟩
  · rename_i hst
    exact ⟨(Move.requestClose c (.inr hst)).one.after (flushData_moves config nowMs none hm), fun h => nomatch h⟩
  · exact ⟨Moves.refl c, fun _ => ⟨rfl, rfl⟩⟩
  · exact ⟨Moves.refl c, fun _ => ⟨rfl, rfl⟩⟩
  · exact ⟨Moves.refl c, fun h => nomatch h⟩

/-- the connection after its application took bytes -/
def consume (c : Connection P) (count : ℕ) : Connection P := { c with recvQueue := c.recvQueue.drop count }

/-- **A read.** -/
theorem read_moves (max : ℕ) :
    (c.read max).2.1 = c.recvQueue.take (min max c.recvQueue.length) ∧
      Moves config nowMs none (c.consume (min max c.recvQueue.length)) (c.read max).2.2 (c.read max).1 := by
  unfold read
  refine ⟨rfl, ?_⟩
  simp only
  split_ifs with h
  · exact (Move.ack (c.consume (min max c.recvQueue.length)) fun hs => h.2.2 (.inl hs)).one
  · exact Moves.refl _

end Operations

end Connection

end FipsTcp
