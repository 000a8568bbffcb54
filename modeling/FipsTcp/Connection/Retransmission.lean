/-
What a segment makes a connection send again.

Two fields of a connection say that something was lost: how often `send_una` was repeated, and up to where a flight has timed out.
They are the loss marks. Nothing but an ACK and the retransmission timer moves them, and what is emitted from before `send_nxt`
on is emitted by the timer, in answer to a SYN, by the third duplicate ACK, or by the repair of a timed-out flight.
- `Response`: what a segment does to the marks, and the one segment at most that it makes the connection send again;
- `input_response`: every segment that leaves the connection is a response, and the rest of what it emits is new or empty;
- `poll_marks`: the timer.
-/
import FipsTcp.Connection.ClosedWindow
import FipsTcp.Connection.Sound

namespace FipsTcp

open SendWindow Serial

/-- what a connection knows of losses -/
structure LossMarks where
  duplicateAcks : ℕ
  rtoRecoveryUntil : Option U32

namespace Connection

variable {P : Type} {config : Config} {nowMs : ℕ} {inp : Option Segment} {isn : U32} {acc : List U8} {c c' c1 c2 : Connection P}
  {segment x : Segment} {out : List Segment}

def lossMarks (c : Connection P) : LossMarks := ⟨c.duplicateAcks, c.rtoRecoveryUntil⟩

/-- `x` occupies sequence space, from before `send_nxt` on -/
def Again (c : Connection P) (x : Segment) : Prop := x.sequenceLen ≠ 0 ∧ before x.seq c.sendNxt

instance (c : Connection P) (x : Segment) : Decidable (c.Again x) := inferInstanceAs (Decidable (_ ∧ _))

theorem not_again_of_empty (h : x.sequenceLen = 0) : ¬ c.Again x := fun ha => ha.1 h

theorem forall_not_again_singleton (h : x.sequenceLen = 0) : ∀ y ∈ [x], ¬ c.Again y := fun y hy => by
  rw [List.mem_singleton.1 hy]
  exact not_again_of_empty h

/-- the peer repeats `send_una` and nothing else, while something is in flight -/
structure LossSignal (c : Connection P) (segment : Segment) : Prop where
  ack : segment.ack = some c.sendUna
  empty : segment.payload = []
  rst : segment.flags.contains .RST = false
  syn : segment.flags.contains .SYN = false
  fin : segment.flags.contains .FIN = false
  window : segment.window.toNat ≤ c.remoteWindow
  flight : c.unacked ≠ []

theorem lossSignal_iff (hrst : segment.flags.contains .RST = false) : c.LossSignal segment ↔
    isDuplicateAckCandidate segment c.sendUna c.remoteWindow = true ∧ c.unacked ≠ [] := by
  simp only [isDuplicateAckCandidate, Bool.and_eq_true, beq_iff_eq, List.isEmpty_iff, Bool.not_eq_true', decide_eq_true_eq]
  constructor
  · exact fun h => ⟨⟨⟨⟨⟨h.ack, h.empty⟩, h.syn⟩, h.fin⟩, h.window⟩, h.flight⟩
  · rintro ⟨⟨⟨⟨⟨hack, hempty⟩, hsyn⟩, hfin⟩, hwindow⟩, hflight⟩
    exact ⟨hack, hempty, hrst, hsyn, hfin, hwindow, hflight⟩

instance (c : Connection P) (segment : Segment) : Decidable (c.LossSignal segment) :=
  decidable_of_iff (segment.flags.contains .RST = false ∧ isDuplicateAckCandidate segment c.sendUna c.remoteWindow = true ∧ c.unacked ≠ [])
    ⟨fun h => (lossSignal_iff h.1).2 h.2, fun h => ⟨h.rst, (lossSignal_iff h.rst).1 h⟩⟩

/-- a synchronized connection takes nothing from the ACK number of `segment` -/
def Ignores (c : Connection P) (segment : Segment) : Prop :=
  segment.flags.contains .RST = true ∨ segment.flags.contains .SYN = true ∨
    ∀ ack ∈ segment.ack, after ack c.sendNxt ∨ before ack c.sendUna

instance (c : Connection P) (segment : Segment) : Decidable (c.Ignores segment) :=
  inferInstanceAs (Decidable (_ ∨ _ ∨ _))

/-! ## The marks through the parts of an operation -/

theorem updateRemoteWindow_marks (window : U16) : (c.updateRemoteWindow window nowMs).lossMarks = c.lossMarks := by
  unfold updateRemoteWindow
  split_ifs <;> rfl

theorem windowOf_marks (segment : Segment) (ack : U32) : (c.windowOf segment ack nowMs).lossMarks = c.lossMarks := by
  rcases windowOf_cases nowMs (c := c) segment ack with h | h <;> rw [h]
  exact updateRemoteWindow_marks segment.window

theorem retransmitOldest_marks (nowMs : ℕ) : (c.retransmitOldest nowMs false).1.lossMarks = c.lossMarks := by
  unfold retransmitOldest
  simp only [Bool.false_eq_true, if_false]
  split
  · rfl
  · split_ifs <;> rfl

theorem repairTimedOutFlight_marks : (c.repairTimedOutFlight nowMs config).1.lossMarks = c.lossMarks := by
  unfold repairTimedOutFlight
  split
  · split_ifs
    · rfl
    · exact retransmitOldest_marks nowMs
  · rfl

theorem flushLoop_marks (nowMs fuel : ℕ) : (flushLoop nowMs fuel c).1.lossMarks = c.lossMarks := by
  induction fuel generalizing c with
  | zero => rfl
  | succ fuel ih =>
    simp only [flushLoop]
    split_ifs
    · rfl
    · exact ih

theorem flushData_marks (nowMs : ℕ) : (c.flushData nowMs).1.lossMarks = c.lossMarks := by
  have hloop := flushLoop_marks (c := c) nowMs c.sendQueue.length
  unfold flushData flushFin
  split_ifs
  · simp only
    split_ifs
    · exact hloop
    · exact hloop
  · rfl

/-- what follows the ACK of a segment leaves the marks -/
theorem receive_flush_marks (config : Config) (nowMs : ℕ) (segment : Segment) :
    ((c.receiveIfData segment nowMs config).1.flushData nowMs).1.lossMarks = c.lossMarks := by
  have hreceive : (c.receiveIfData segment nowMs config).1.lossMarks = c.lossMarks := by
    unfold receiveIfData
    split_ifs
    · have houtgoing := congrArg lossMarks (receiveStreamData_outgoing c segment nowMs config).1
      exact houtgoing
    · rfl
  exact (flushData_marks nowMs).trans hreceive

theorem afterAck_marks {ack : U32} (h : c.afterAck ack nowMs config = some c') :
    c'.lossMarks = ⟨0, c.rtoRecoveryUntil.filter fun end_ => decide (before ack end_)⟩ := by
  have hadvance : (c.advanceAck ack nowMs).1.lossMarks = ⟨0, c.rtoRecoveryUntil.filter fun end_ => decide (before ack end_)⟩ := rfl
  unfold afterAck finAcked at h
  simp only at h
  split_ifs at h
  · split at h <;> cases h <;> exact hadvance
  · cases h
    exact hadvance

/-- a repeated ACK is counted, or starts the count again -/
theorem repeatAck_marks (nowMs : ℕ) (duplicate : Bool) : (c.repeatAck nowMs duplicate).1.lossMarks =
    ⟨if duplicate = true ∧ c.unacked ≠ [] then satSucc8 c.duplicateAcks else 0, c.rtoRecoveryUntil⟩ := by
  unfold repeatAck
  simp only
  split_ifs
  · exact retransmitOldest_marks nowMs
  · rfl
  · rfl

/-! ## What is new -/

/-- `send_una` stays where it is -/
structure KeepsUna (acc : List U8) (c c' : Connection P) : Prop where
  una : c'.sendUna = c.sendUna
  pos : c'.sender.unaPos acc = c.sender.unaPos acc

theorem KeepsUna.of_sender (h : c'.sender = c.sender) : KeepsUna acc c c' := ⟨congrArg Sender.una h, congrArg (Sender.unaPos acc) h⟩

theorem KeepsUna.refl (c : Connection P) : KeepsUna acc c c := ⟨rfl, rfl⟩

theorem KeepsUna.trans (h1 : KeepsUna acc c c1) (h2 : KeepsUna acc c1 c2) : KeepsUna acc c c2 :=
  ⟨h2.una.trans h1.una, h2.pos.trans h1.pos⟩

/-- positions that were not sent before: those from `send_nxt` on, and not so far that they would wrap -/
def Unsent (isn : U32) (acc : List U8) (c : Connection P) (x : Segment) : Prop :=
  ∃ q, c.sender.nxtPos acc ≤ q ∧ q ≤ c.sender.unaPos acc + 65535 ∧ x.seq = pos isn q

theorem SendInv.nxtPos_le (hs : c.SendInv config isn acc) : c.sender.nxtPos acc ≤ c.sender.unaPos acc + 65535 := by
  have hroom := hs.sender.room
  unfold Sender.unaPos
  omega

/-- what is sent next to the flight -/
theorem SendInv.unsent (hs : c.SendInv config isn acc) (hseq : x.seq = c.sendNxt) : c.Unsent isn acc x :=
  ⟨c.sender.nxtPos acc, le_rfl, hs.nxtPos_le, hseq.trans hs.sender.nxt⟩

/-- the same of a connection that has sent more since -/
theorem Unsent.of_later (h : c1.Unsent isn acc x) (hnxt : c.sender.nxtPos acc ≤ c1.sender.nxtPos acc)
    (huna : KeepsUna acc c c1) : c.Unsent isn acc x := by
  obtain ⟨q, hq, hle, hseq⟩ := h
  exact ⟨q, hnxt.trans hq, huna.pos ▸ hle, hseq⟩

theorem Unsent.not_again (h : c1.Unsent isn acc x) (hs : c1.SendInv config isn acc) (hnxt : c1.sendNxt = c.sendNxt) : ¬ c.Again x := by
  obtain ⟨q, hq, hle, hseq⟩ := h
  rintro ⟨-, hbefore⟩
  have hinv : c1.sendNxt = pos isn (c1.sender.nxtPos acc) := hs.sender.nxt
  have htotal : c1.sender.unaPos acc ≤ c1.sender.nxtPos acc := Nat.sub_le _ _
  rw [hseq, ← hnxt, hinv, before_pos (by omega) (by omega)] at hbefore
  omega

theorem flushLoop_unsent (nowMs fuel : ℕ) (hs : c.SendInv config isn acc) (hst : c.Sending) :
    (flushLoop nowMs fuel c).1.SendInv config isn acc ∧ (flushLoop nowMs fuel c).1.Sending ∧
      c.sender.nxtPos acc ≤ (flushLoop nowMs fuel c).1.sender.nxtPos acc ∧ KeepsUna acc c (flushLoop nowMs fuel c).1 ∧
      ∀ x ∈ (flushLoop nowMs fuel c).2, c.Unsent isn acc x := by
  induction fuel generalizing c with
  | zero => exact ⟨hs, hst, le_rfl, .refl c, List.forall_mem_nil _⟩
  | succ fuel ih =>
    simp only [flushLoop]
    split_ifs with h
    · exact ⟨hs, hst, le_rfl, .refl c, List.forall_mem_nil _⟩
    · obtain ⟨ha, hq⟩ := not_or.1 h
      have hlen := List.length_pos_of_ne_nil hq
      have hm := hs.mss
      have hcount : min (min c.sendAllowance c.mss) c.sendQueue.length ≤ c.sendQueue.length := min_le_right _ _
      have hmove : Move config nowMs none c _ _ := .sendData c (min (min c.sendAllowance c.mss) c.sendQueue.length) hst (by omega) (by omega) (by omega) hcount
      have hsender := sendQueued_sender c (min (min c.sendAllowance c.mss) c.sendQueue.length) nowMs
      generalize hn : min (min c.sendAllowance c.mss) c.sendQueue.length = count at hcount hmove hsender ⊢
      obtain ⟨hs1, hst1, hnxt1, huna1, hrest⟩ := ih (hmove.sendInv hs) hst
      have huna : KeepsUna acc c (c.sendQueued count nowMs).1 := by
        refine ⟨rfl, ?_⟩
        rw [hsender]
        exact hs.sender.unaPos_push hcount
      have hnxt : c.sender.nxtPos acc ≤ (c.sendQueued count nowMs).1.sender.nxtPos acc := by
        rw [hsender, hs.sender.nxtPos_push hcount]
        exact Nat.le_add_right _ _
      refine ⟨hs1, hst1, hnxt.trans hnxt1, huna.trans huna1, fun x hx => ?_⟩
      rcases List.mem_cons.1 hx with rfl | hx
      · exact hs.unsent rfl
      · exact (hrest x hx).of_later hnxt huna

/-- **What `flush_data` emits** was not sent before. -/
theorem flushData_unsent (nowMs : ℕ) (hs : c.SendInv config isn acc) :
    KeepsUna acc c (c.flushData nowMs).1 ∧ ∀ x ∈ (c.flushData nowMs).2, c.Unsent isn acc x := by
  unfold flushData
  split_ifs with hst
  · obtain ⟨hs1, hst1, hnxt, huna, hloop⟩ := flushLoop_unsent nowMs c.sendQueue.length hs hst
    simp only
    generalize flushLoop nowMs c.sendQueue.length c = r at hs1 hst1 hnxt huna hloop
    unfold flushFin
    split_ifs
    · refine ⟨huna.trans ⟨rfl, ?_⟩, fun x hx => ?_⟩
      · rw [sendFin_sender]
        exact Sender.unaPos_pushFin acc hst1.phase
      · rcases List.mem_append.1 hx with hx | hx
        · exact hloop x hx
        · rw [List.mem_singleton.1 hx]
          exact (hs1.unsent rfl).of_later hnxt huna
    · simp only [List.append_nil]
      exact ⟨huna, hloop⟩
  · exact ⟨.refl c, List.forall_mem_nil _⟩

/-- the end of `on_segment` sends nothing again -/
theorem receive_flush_not_again (nowMs : ℕ) (hs : c1.SendInv config isn acc) (hst : c1.Synchronized) (hrst : segment.flags.contains .RST = false)
    (hnxt : c1.sendNxt = c.sendNxt) :
    KeepsUna acc c1 ((c1.receiveIfData segment nowMs config).1.flushData nowMs).1 ∧
      ∀ x ∈ (c1.receiveIfData segment nowMs config).2 ++ ((c1.receiveIfData segment nowMs config).1.flushData nowMs).2, ¬ c.Again x := by
  have hsender := receiveIfData_sender c1 segment nowMs config
  have hs2 := hs.moves (receiveIfData_moves config nowMs (some segment) rfl hrst hst).1
  obtain ⟨huna, hflush⟩ := flushData_unsent nowMs hs2
  refine ⟨(KeepsUna.of_sender hsender).trans huna, fun x hx => ?_⟩
  rcases List.mem_append.1 hx with hx | hx
  · unfold receiveIfData at hx
    split_ifs at hx
    · rw [List.mem_singleton.1 hx]
      exact not_again_of_empty (ackSegment_sequenceLen _)
    · cases hx
  · exact (hflush x hx).not_again hs2 ((congrArg Sender.nxt hsender).trans hnxt)

/-! ## Every segment -/

/-- **What a segment does to the marks**, what it makes `c` send again, and the connection it leaves. -/
inductive Response (acc : List U8) (c : Connection P) (segment : Segment) : Option Segment → Connection P → Prop
  /-- nothing is taken from its ACK number -/
  | ignored (c' : Connection P) (hi : c.Synchronized → c.Ignores segment) (hmarks : c'.lossMarks = c.lossMarks)
      (huna : KeepsUna acc c c') : Response acc c segment none c'
  /-- the SYN that opened the connection, again -/
  | reopened (c' : Connection P) (hst : c.state = .synReceived) (hsyn : segment.flags.contains .SYN = true)
      (hmarks : c'.lossMarks = c.lossMarks) (huna : KeepsUna acc c c') :
      Response acc c segment (c.resendable.map c.segmentFor) c'
  /-- the end of the handshake -/
  | established (c1 c' : Connection P) (hst : ¬ c.Synchronized)
      (hmarks : c'.lossMarks = ⟨0, c.rtoRecoveryUntil.filter fun end_ => decide (before c.sendNxt end_)⟩)
      (hsender : c1.sender = c.sender.ack c.sendNxt) (huna : KeepsUna acc c1 c') : Response acc c segment none c'
  /-- `send_una` repeated -/
  | repeated (c' : Connection P) (hst : c.Synchronized) (hi : ¬ c.Ignores segment) (hack : segment.ack = some c.sendUna)
      (hmarks : c'.lossMarks = ⟨if c.LossSignal segment then satSucc8 c.duplicateAcks else 0, c.rtoRecoveryUntil⟩)
      (huna : KeepsUna acc c c') :
      Response acc c segment (if c.LossSignal segment ∧ c.duplicateAcks = 2 then c.resendable.map c.segmentFor else none) c'
  /-- `send_una` advanced; what is sent again is the oldest segment that is left, while a timed-out flight is under repair -/
  | advanced (c1 c' : Connection P) (again : Option Segment) (ack : U32) (hst : c.Synchronized) (hi : ¬ c.Ignores segment)
      (hack : segment.ack = some ack) (hadv : c.Advances ack)
      (hmarks : c'.lossMarks = ⟨0, c.rtoRecoveryUntil.filter fun end_ => decide (before ack end_)⟩)
      (hsender : c1.sender = c.sender.ack ack) (huna : KeepsUna acc c1 c')
      (hagain : ∀ x ∈ again, (∃ end_, c'.rtoRecoveryUntil = some end_) ∧ ∃ oldest ∈ c1.unacked.head?, x = c1.segmentFor oldest) :
      Response acc c segment again c'

/-- the repair sends the oldest segment, if the flight has timed out -/
theorem repairTimedOutFlight_emits : ∀ x ∈ (c.repairTimedOutFlight nowMs config).2,
    (∃ end_, c.rtoRecoveryUntil = some end_) ∧ ∃ oldest ∈ c.unacked.head?, x = c.segmentFor oldest := by
  intro x hx
  unfold repairTimedOutFlight at hx
  split at hx
  · rename_i end_ oldest rest hend hu
    split_ifs at hx
    · cases hx
    · rw [retransmitOldest_emits, Option.mem_def, Option.map_eq_some_iff] at hx
      obtain ⟨found, hfound, hseg⟩ := hx
      obtain ⟨hhead, -⟩ := Option.filter_eq_some_iff.1 hfound
      exact ⟨⟨end_, hend⟩, found, hhead, hseg.symm⟩
  · cases hx

/-- a repeated ACK sends the oldest segment again when it is the third signal of a loss -/
theorem repeatAck_again (hrst : segment.flags.contains .RST = false) (nowMs : ℕ) :
    (c.repeatAck nowMs (isDuplicateAckCandidate segment c.sendUna c.remoteWindow)).2.retransmit =
      if c.LossSignal segment ∧ c.duplicateAcks = 2 then c.resendable.map c.segmentFor else none := by
  rw [repeatAck_emits]
  simp only [lossSignal_iff hrst]
  by_cases hflight : c.unacked = []
  · have hnone : c.resendable = none := by rw [resendable, hflight]; rfl
    rw [hnone, Option.map_none, ite_self, ite_self]
  · simp only [hflight, not_false_eq_true, and_true, ne_eq]

/-- **The ACK of a segment.** -/
theorem processAck_response {ack : U32} (hs : c.SendInv config isn acc) (hst : c.Synchronized)
    (hrst : segment.flags.contains .RST = false) (hsyn : segment.flags.contains .SYN = false) (hack : segment.ack = some ack)
    (hp : c.processAck segment ack nowMs config = (c1, false, out)) (hmarks : c'.lossMarks = c1.lossMarks)
    (huna : KeepsUna acc c1 c') : ∃ again, out = again.toList ∧ Response acc c segment again c' := by
  have hinside : ¬ (after ack c.sendNxt ∨ before ack c.sendUna) → ¬ c.Ignores segment := fun h hi => by
    rcases hi with hi | hi | hi
    · rw [hrst] at hi; cases hi
    · rw [hsyn] at hi; cases hi
    · exact h (hi ack hack)
  rcases c.ack_cases ack with h | ⟨h, rfl⟩ | hadv
  · rw [processAck_outside config nowMs segment h] at hp
    cases hp
    refine ⟨none, rfl, .ignored c' (fun _ => .inr (.inr fun found hfound => ?_)) hmarks huna⟩
    obtain rfl := Option.some.inj (hack.symm.trans hfound)
    exact h
  · rw [processAck_repeated config nowMs segment h rfl] at hp
    obtain ⟨rfl, -, rfl⟩ := Prod.mk.inj hp |>.imp_right Prod.mk.inj
    rw [windowOf_marks, repeatAck_marks] at hmarks
    have hsender := (windowOf_frame nowMs segment c.sendUna).1.trans
      (repeatAck_sender (c := c) nowMs (isDuplicateAckCandidate segment c.sendUna c.remoteWindow))
    have hsignal := lossSignal_iff (c := c) hrst
    refine ⟨_, rfl, ?_⟩
    rw [repeatAck_again hrst nowMs]
    exact .repeated c' hst (hinside h) hack (by simp only [hsignal]; exact hmarks) ((KeepsUna.of_sender hsender).trans huna)
  · cases hc2 : c.afterAck ack nowMs config with
    | none =>
      rw [processAck_removed config nowMs segment hadv hc2] at hp
      cases hp
    | some c2 =>
      rw [processAck_advanced config nowMs segment hadv hc2] at hp
      obtain ⟨rfl, -, rfl⟩ := Prod.mk.inj hp |>.imp_right Prod.mk.inj
      have hflight : ¬ (after ack c.sendNxt ∨ before ack c.sendUna) := fun h => h.elim hadv.1 hadv.2.1
      have hsender := (afterAck_sender hs.sender (by norm_num) hst hadv nowMs config).2 c2 hc2
      have hmarks2 : (c2.windowOf segment ack nowMs).lossMarks = c2.lossMarks := windowOf_marks segment ack
      have hrepair : c'.lossMarks = (c2.windowOf segment ack nowMs).lossMarks := hmarks.trans repairTimedOutFlight_marks
      refine ⟨_, rfl, .advanced (c2.windowOf segment ack nowMs) c' _ ack hst (hinside hflight) hack hadv
        (hrepair.trans (hmarks2.trans (afterAck_marks hc2))) ((windowOf_frame nowMs segment ack).1.trans hsender) ?_ fun x hx => ?_⟩
      · exact (KeepsUna.of_sender (repairTimedOutFlight_sender nowMs config)).trans huna
      · obtain ⟨⟨end_, hend⟩, holdest⟩ := repairTimedOutFlight_emits x hx
        have hrto : c'.rtoRecoveryUntil = (c2.windowOf segment ack nowMs).rtoRecoveryUntil := congrArg LossMarks.rtoRecoveryUntil hrepair
        exact ⟨⟨end_, hrto.trans hend⟩, holdest⟩

/-- the end of the handshake: everything in flight is acknowledged -/
theorem establishServer_marks (hs : c.SendInv config isn acc) (hst : c.state = .synReceived) :
    (c.establishServer segment nowMs).lossMarks =
      ⟨0, c.rtoRecoveryUntil.filter fun end_ => decide (before c.sendNxt end_)⟩ := by
  have hadv := (advances_sendNxt hs.sender (by norm_num) (unacked_opening hs.sender (by rw [hst]; rfl))).1
  unfold establishServer
  rw [applyAck_of_advances hadv]
  exact updateRemoteWindow_marks segment.window

theorem establishClient_marks (hs : c.SendInv config isn acc) (hst : c.state = .synSent) :
    (c.establishClient segment nowMs config).lossMarks =
      ⟨0, c.rtoRecoveryUntil.filter fun end_ => decide (before c.sendNxt end_)⟩ := by
  have hmarks : ((c.updateRemoteWindow segment.window nowMs).negotiateMss segment config).lossMarks = c.lossMarks :=
    updateRemoteWindow_marks segment.window
  have hsender : ((c.updateRemoteWindow segment.window nowMs).negotiateMss segment config).sender = c.sender :=
    updateRemoteWindow_sender c segment.window nowMs
  have hadv := (advances_sendNxt hs.sender (by norm_num) (unacked_opening hs.sender (by rw [hst]; rfl))).1
  unfold establishClient
  simp only
  generalize (c.updateRemoteWindow segment.window nowMs).negotiateMss segment config = c1 at hmarks hsender
  have huna : c1.sendUna = c.sendUna := congrArg Sender.una hsender
  have hnxt : c1.sendNxt = c.sendNxt := congrArg Sender.nxt hsender
  have hrto : c1.rtoRecoveryUntil = c.rtoRecoveryUntil := congrArg LossMarks.rtoRecoveryUntil hmarks
  have hadv1 : c1.Advances c1.sendNxt := by
    rw [Advances, huna, hnxt]
    exact hadv
  rw [applyAck_of_advances hadv1]
  change (⟨0, c1.rtoRecoveryUntil.filter fun end_ => decide (before c1.sendNxt end_)⟩ : LossMarks) = _
  rw [hrto, hnxt]

/-- **A segment** sends at most one segment again. -/
theorem input_response (hs : c.SendInv config isn acc) (segment : Segment) (nowMs : ℕ)
    (hopen : (c.input segment nowMs config).2.closed = false) :
    ∃ again rest, (c.input segment nowMs config).2.segments = again.toList ++ rest ∧ (∀ x ∈ rest, ¬ c.Again x) ∧
      Response acc c segment again (c.input segment nowMs config).1 := by
  unfold input at hopen ⊢
  split_ifs at hopen ⊢ with h1 h2
  · have hst : c.state = .synSent := by
      simp only [unacceptableAck, Bool.and_eq_true, decide_eq_true_eq] at h1
      exact h1.1.1
    exact ⟨none, _, rfl, forall_not_again_singleton (resetFor_sequenceLen segment), .ignored c (fun hsync => absurd hst hsync.1) rfl (.refl c)⟩
  · have hsyn : segment.flags.contains .SYN = true := by
      simp only [unexpectedSyn, Bool.and_eq_true, decide_eq_true_eq] at h2
      exact h2.1.2
    exact ⟨none, _, rfl, forall_not_again_singleton (ackSegment_sequenceLen c), .ignored c (fun _ => .inr (.inl hsyn)) rfl (.refl c)⟩
  · unfold onSegment at hopen ⊢
    split_ifs at hopen ⊢ with hrst
    · exact ⟨none, _, rfl, fun x hx => not_again_of_empty (onReset_quiet segment x hx), .ignored c (fun _ => .inl hrst) rfl (.refl c)⟩
    · have hrst' : segment.flags.contains .RST = false := by simpa using hrst
      cases hst : c.state with
      | synSent =>
        have hopening : ¬ c.Synchronized := fun hsync => hsync.1 hst
        unfold onSynSent
        simp only
        split_ifs
        · refine ⟨none, _, rfl, forall_not_again_singleton (ackSegment_sequenceLen _), .established _ _ hopening (establishClient_marks hs hst) ?_ (.refl _)⟩
          exact establishClient_sender hs.sender (by norm_num) hst segment nowMs config
        · exact ⟨none, [], rfl, List.forall_mem_nil _, .ignored c (fun hsync => absurd hsync hopening) rfl (.refl c)⟩
      | synReceived =>
        have hopening : ¬ c.Synchronized := fun hsync => hsync.2 hst
        unfold onSynReceived
        simp only
        split_ifs with h3 h4
        · refine ⟨_, [], ?_, List.forall_mem_nil _, .reopened _ hst h3.1 (retransmitOldest_marks nowMs) ?_⟩
          · rw [← retransmitOldest_emits nowMs false, List.append_nil]
            rfl
          · exact .of_sender (c.retransmitOldest_sender nowMs false)
        · exact ⟨none, [], rfl, List.forall_mem_nil _, .ignored c (fun hsync => absurd hsync hopening) rfl (.refl c)⟩
        · have hack : segment.ack = some c.sendNxt := not_not.1 h4
          have hsender := establishServer_sender hs.sender (by norm_num) hst segment nowMs
          have hmove : Moves config nowMs (some segment) c [] (c.establishServer segment nowMs) :=
            (Move.establishServer c segment rfl hst hrst' hack).one
          have hs1 := hs.moves hmove
          have hsync : (c.establishServer segment nowMs).Synchronized := ⟨by simp [establishServer], by simp [establishServer]⟩
          obtain ⟨huna, hrest⟩ := receive_flush_not_again nowMs hs1 hsync hrst' (congrArg Sender.nxt hsender)
          exact ⟨none, _, rfl, hrest,
            .established _ _ hopening ((receive_flush_marks config nowMs segment).trans (establishServer_marks hs hst)) hsender huna⟩
      | _ =>
        have hsync : c.Synchronized := ⟨by rw [hst]; decide, by rw [hst]; decide⟩
        have hsyn : segment.flags.contains .SYN = false := by
          cases hsyn : segment.flags.contains .SYN with
          | false => rfl
          | true => exact absurd (by simp [unexpectedSyn, hst, hrst', hsyn]) h2
        simp only [hst] at hopen ⊢
        obtain ⟨c1, out, hack, hst1, -, heq⟩ := onSynchronized_processed config nowMs hsync hrst' hopen
        have hmarks := receive_flush_marks (c := c1) config nowMs segment
        rw [heq]
        rcases hack with ⟨hack, rfl, rfl⟩ | ⟨ack, hack, hp⟩
        · obtain ⟨huna, hrest⟩ := receive_flush_not_again nowMs hs hsync hrst' rfl
          refine ⟨none, _, rfl, hrest, .ignored _ (fun _ => .inr (.inr ?_)) hmarks huna⟩
          rw [hack]
          exact fun _ h => absurd h (Option.not_mem_none _)
        · have hold := AckResult.old hs hsync hrst' hack (hp ▸ processAck_cases config nowMs segment ack)
          have hs1 := hs.moves hold.moves
          have hnxt : c1.sendNxt = c.sendNxt := by
            have h1 : c1.sendNxt = _ := hs1.sender.nxt
            rw [h1, hold.nxt]
            exact hs.sender.nxt.symm
          obtain ⟨huna, hrest⟩ := receive_flush_not_again nowMs hs1 hst1 hrst' hnxt
          obtain ⟨again, rfl, hresponse⟩ := processAck_response hs hsync hrst' hsyn hack hp hmarks huna
          exact ⟨again, _, rfl, hrest, hresponse⟩

/-! ## The timer -/

/-- the retransmission timer has run out, and the oldest segment may be sent again -/
def TimesOut (config : Config) (nowMs : ℕ) (c : Connection P) : Prop :=
  ¬ Due nowMs c.closeDeadline ∧ ¬ c.ProbeWork ∧ ∃ oldest ∈ c.unacked.head?,
    satAdd oldest.sentAtMs c.rtt.timeoutMs ≤ nowMs ∧ oldest.transmissions < config.maxRetransmissions.toNat

instance (config : Config) (nowMs : ℕ) (c : Connection P) : Decidable (c.TimesOut config nowMs) :=
  inferInstanceAs (Decidable (¬ (∃ d ∈ c.closeDeadline, d ≤ nowMs) ∧
    ¬ (c.remoteWindow = 0 ∧ (c.closeRequested = true ∨ c.hasProbePayload = true)) ∧ _))

theorem pollTimeout_marks {oldest : TrackedSegment} {rest : List TrackedSegment} (hs : c.SendInv config isn acc)
    (hu : c.unacked = oldest :: rest) (hbudget : oldest.transmissions < c.maxTransmissions) (nowMs : ℕ) :
    (c.pollTimeout nowMs).1.lossMarks = ⟨0, some (c.rtoRecoveryUntil.getD c.sendNxt)⟩ ∧ KeepsUna acc c (c.pollTimeout nowMs).1 := by
  unfold pollTimeout
  simp only
  generalize hc1 : ({ c with
    rtoRecoveryUntil := some (c.rtoRecoveryUntil.getD c.sendNxt)
    reno := c.reno.onTimeout (distance c.sendUna c.sendNxt)
    rtt := c.rtt.onTimeout } : Connection P) = c1
  have hsender : c1.sender = c.sender := by rw [← hc1]; rfl
  have hs1 : c1.SendInv config isn acc := by rw [← hc1]; exact ⟨hs.sender, hs.window, hs.mss, hs.buffer⟩
  have hmarks : (c1.retransmitOldest nowMs true).1.lossMarks = ⟨0, some (c.rtoRecoveryUntil.getD c.sendNxt)⟩ := by
    rw [← hc1]
    unfold retransmitOldest
    simp only [hu, if_neg (Nat.not_le_of_lt hbudget), if_true]
    rfl
  have hmove : Moves config nowMs none c1 _ (c1.retransmitOldest nowMs true).1 := (Move.retransmit c1 true).one
  have hs2 := hs1.moves hmove
  refine ⟨(flushData_marks nowMs).trans hmarks, (KeepsUna.of_sender ?_).trans (flushData_unsent nowMs hs2).1⟩
  exact (retransmitOldest_sender c1 nowMs true).trans hsender

theorem pollZeroWindow_marks (hs : c.SendInv config isn acc) (nowMs : ℕ) :
    (c.pollZeroWindow nowMs config).1.lossMarks = c.lossMarks ∧ KeepsUna acc c (c.pollZeroWindow nowMs config).1 := by
  unfold pollZeroWindow
  simp only
  split_ifs
  · exact ⟨rfl, rfl, rfl⟩
  · rcases zeroWindowProbe_cases { c with
      nextZeroWindowProbeMs := some (c.nextZeroWindowProbeMs.getD (satAdd nowMs config.initialRtoMs)) } nowMs with
      ⟨x, -, -, heq⟩ | ⟨-, ⟨-, heq⟩ | ⟨hq, heq⟩⟩ <;> rw [heq]
    · exact ⟨rfl, rfl, rfl⟩
    · exact ⟨rfl, rfl, rfl⟩
    · refine ⟨rfl, rfl, ?_⟩
      change (c.sendQueued 1 nowMs).1.sender.unaPos acc = c.sender.unaPos acc
      rw [sendQueued_sender]
      exact hs.sender.unaPos_push (List.length_pos_of_ne_nil hq)
  · exact ⟨rfl, rfl, rfl⟩

/-- **The timer.** -/
theorem poll_marks (hs : c.SendInv config isn acc) (hbudget : c.maxTransmissions = config.maxRetransmissions.toNat) (nowMs : ℕ) :
    (c.poll nowMs config).1.lossMarks = (if c.TimesOut config nowMs then ⟨0, some (c.rtoRecoveryUntil.getD c.sendNxt)⟩ else c.lossMarks) ∧
      KeepsUna acc c (c.poll nowMs config).1 := by
  have hflush : (c.flushData nowMs).1.lossMarks = c.lossMarks ∧ KeepsUna acc c (c.flushData nowMs).1 :=
    ⟨flushData_marks nowMs, (flushData_unsent nowMs hs).1⟩
  have hsame : ∀ {c' : Connection P}, c'.lossMarks = c.lossMarks ∧ KeepsUna acc c c' → ¬ c.TimesOut config nowMs →
      c'.lossMarks = (if c.TimesOut config nowMs then ⟨0, some (c.rtoRecoveryUntil.getD c.sendNxt)⟩ else c.lossMarks) ∧ KeepsUna acc c c' :=
    fun h hno => by rw [if_neg hno]; exact h
  by_cases h1 : (c.closeDeadline.any fun deadline => decide (deadline ≤ nowMs)) = true
  · rw [poll, if_pos h1]
    exact hsame ⟨rfl, .refl c⟩ fun h => h.1 (any_due.1 h1)
  by_cases h2 : c.remoteWindow = 0 ∧ (c.closeRequested = true ∨ c.hasProbePayload = true)
  · rw [poll, if_neg h1, if_pos h2]
    exact hsame (pollZeroWindow_marks hs nowMs) fun h => h.2.1 h2
  rw [poll, if_neg h1, if_neg h2]
  cases hu : c.unacked with
  | nil =>
    refine hsame hflush ?_
    rintro ⟨-, -, oldest, hold, -⟩
    rw [hu] at hold
    cases hold
  | cons oldest rest =>
    have hiff : c.TimesOut config nowMs ↔
        satAdd oldest.sentAtMs c.rtt.timeoutMs ≤ nowMs ∧ oldest.transmissions < config.maxRetransmissions.toNat := by
      simp only [TimesOut, hu, List.head?_cons, Option.mem_some_iff, exists_eq_left']
      exact ⟨fun h => h.2.2, fun h => ⟨fun hd => h1 (any_due.2 hd), h2, h⟩⟩
    simp only
    by_cases h3 : satAdd oldest.sentAtMs c.rtt.timeoutMs ≤ nowMs
    · rw [if_pos h3]
      by_cases h4 : config.maxRetransmissions.toNat ≤ oldest.transmissions
      · rw [if_pos h4]
        exact hsame ⟨rfl, .refl c⟩ fun h => absurd h4 (Nat.not_le_of_lt (hiff.1 h).2)
      · have hlt := Nat.lt_of_not_le h4
        rw [if_neg h4, if_pos (hiff.2 ⟨h3, hlt⟩)]
        exact pollTimeout_marks hs hu (hbudget ▸ hlt) nowMs
    · rw [if_neg h3]
      exact hsame hflush fun h => h3 (hiff.1 h).1

/-! ## The application -/

/-- what its application makes a connection do: nothing is sent again, and the marks stay -/
structure Undisturbed (acc acc' : List U8) (c : Connection P) (out : List Segment) (c' : Connection P) : Prop where
  again : ∀ x ∈ out, ¬ c.Again x
  marks : c'.lossMarks = c.lossMarks
  una : c'.sender.unaPos acc' = c.sender.unaPos acc

theorem Undisturbed.refl (c : Connection P) : Undisturbed acc acc c [] c := ⟨List.forall_mem_nil _, rfl, rfl⟩

theorem flushData_undisturbed {acc' : List U8} (nowMs : ℕ) (hs : c1.SendInv config isn acc') (hmarks : c1.lossMarks = c.lossMarks)
    (huna : c1.sender.unaPos acc' = c.sender.unaPos acc) (hnxt : c1.sendNxt = c.sendNxt) :
    Undisturbed acc acc' c (c1.flushData nowMs).2 (c1.flushData nowMs).1 := by
  obtain ⟨hkeeps, hflush⟩ := flushData_unsent nowMs hs
  exact ⟨fun x hx => (hflush x hx).not_again hs hnxt, (flushData_marks nowMs).trans hmarks, hkeeps.pos.trans huna⟩

theorem write_undisturbed (hs : c.SendInv config isn acc) {bytes : List U8} {count : ℕ}
    (h : c.write bytes nowMs config = .ok (c', count, out)) : Undisturbed acc (acc ++ bytes.take count) c out c' := by
  obtain ⟨hst, -, hle, hroom, -⟩ := write_moves config nowMs hs.mss h
  have htake : (bytes.take count).length = count := by rw [List.length_take, min_eq_left hle]
  have hs1 : (c.acceptBytes (bytes.take count)).SendInv config isn (acc ++ bytes.take count) := hs.accept hst (by omega)
  have huna : (c.acceptBytes (bytes.take count)).sender.unaPos (acc ++ bytes.take count) = c.sender.unaPos acc :=
    (hs.sender.pos_accept (bytes.take count)).2
  unfold write at h
  split_ifs at h
  simp only [Except.ok.injEq, Prod.mk.injEq] at h
  obtain ⟨rfl, rfl, rfl⟩ := h
  rw [acceptBytes, htake] at hs1 huna
  exact flushData_undisturbed nowMs hs1 rfl huna rfl

theorem close_undisturbed (hs : c.SendInv config isn acc) (nowMs : ℕ) :
    Undisturbed acc acc c (c.close nowMs).2.segments (c.close nowMs).1 := by
  have hclose : c.state.phase = .running → ({ c with closeRequested := true } : Connection P).SendInv config isn acc := fun hp =>
    ⟨hs.sender.wantClose hp, hs.window, hs.mss, hs.buffer⟩
  unfold close
  split
  · rename_i hst
    exact flushData_undisturbed nowMs (hclose (by rw [hst]; rfl)) rfl rfl rfl
  · rename_i hst
    exact flushData_undisturbed nowMs (hclose (by rw [hst]; rfl)) rfl rfl rfl
  all_goals exact .refl c

theorem read_undisturbed (max : ℕ) : Undisturbed acc acc c (c.read max).2.2 (c.read max).1 := by
  refine ⟨?_, rfl, rfl⟩
  unfold read
  simp only
  split_ifs
  · exact forall_not_again_singleton (ackSegment_sequenceLen _)
  · exact List.forall_mem_nil _

end Connection

namespace Socket

variable {P : Type} {config : Config} {s : Socket P} {isn : U32}

/-- **An operation of the application.** -/
theorem step_undisturbed (hret : s.retained = true)
    (hs : s.conn.SendInv config isn s.accepted) (op : SocketOp) (hinput : ∀ segment nowMs, op ≠ .input segment nowMs)
    (hpoll : ∀ nowMs, op ≠ .poll nowMs) :
    ∃ out, (s.step config op).sent = s.sent ++ out ∧
      Connection.Undisturbed s.accepted (s.step config op).accepted s.conn out (s.step config op).conn := by
  cases op with
  | input segment nowMs => exact absurd rfl (hinput segment nowMs)
  | poll nowMs => exact absurd rfl (hpoll nowMs)
  | write bytes nowMs =>
    simp only [step, onWrite, hret, if_true]
    rcases hw : s.conn.write bytes nowMs config with _ | ⟨conn, count, out⟩
    · exact ⟨[], (List.append_nil _).symm, .refl _⟩
    · exact ⟨out, rfl, Connection.write_undisturbed hs hw⟩
  | read max =>
    simp only [step, onRead, hret, if_true]
    exact ⟨_, rfl, Connection.read_undisturbed max⟩
  | close nowMs =>
    simp only [step, onUpdate, hret, if_true]
    exact ⟨_, rfl, Connection.close_undisturbed hs nowMs⟩
  | abort =>
    simp only [step, onAbort, hret, if_true]
    exact ⟨_, rfl, Connection.forall_not_again_singleton (Connection.resetSegment_sequenceLen s.conn), rfl, rfl⟩

/-- the retry budget of a connection is the configured one -/
theorem budget_run (o : Opening P) (hv : config.Valid) (ops : List SocketOp) (hr : (run config o ops).retained = true) :
    (run config o ops).conn.SendInv config o.isn (run config o ops).accepted ∧
      (run config o ops).conn.maxTransmissions = config.maxRetransmissions.toNat := by
  have hrun : (run config o ops).retained = true → (run config o ops).conn.SendInv config o.isn (run config o ops).accepted ∧
      (run config o ops).conn.maxTransmissions = config.maxRetransmissions.toNat := by
    refine Run.exec_invariant (P := fun s : Socket P => s.retained = true → s.conn.SendInv config o.isn s.accepted ∧
      s.conn.maxTransmissions = config.maxRetransmissions.toNat) (fun s op hs hr => ?_) (fun _ => ⟨o.sendInv hv, ?_⟩) ops
    · refine step_invariant (Q := fun acc c => c.SendInv config o.isn acc ∧ c.maxTransmissions = config.maxRetransmissions.toNat)
        (fun h => h.1.mss) (fun hm h => ⟨hm.sendInv h.1, ?_⟩) (fun h hst hroom => ⟨h.1.accept hst hroom, h.2⟩)
        (fun _ h => ⟨⟨h.1.sender, h.1.window, h.1.mss, h.1.buffer⟩, h.2⟩) hs op hr
      exact (congrArg Stable.maxTransmissions hm.stable_eq).trans h.2
    · cases o with
      | client => rfl
      | server peer syn isn nowMs token =>
        exact congrArg Stable.maxTransmissions (Connection.updateRemoteWindow_frame _ syn.window nowMs).2.1
  exact hrun hr

end Socket

end FipsTcp
