/-
What a connection can still send in answer to segments.

In answer to segments a connection sends what it holds back, its FIN and retransmissions, and all three are limited: its `charge`
pays for them, one unit for each segment (`Spends`), and only the application adds to it. What is not paid for are the
acknowledgment of a segment that occupies sequence space, the answer to a reset, and the reset that answers an unacceptable ACK.
- `input_spends`: every segment that a connection survives;
- `input_quiet`: a segment that occupies no sequence space moves nothing by which a reset is judged;
- `Reachable.calm`, `input_answers`: no answer is a SYN without an ACK.
-/
import FipsTcp.Connection.Addressed
import FipsTcp.Connection.Lifecycle

namespace FipsTcp

open SendWindow

/-- a SYN that may open a connection -/
def Segment.bareSyn (s : Segment) : Bool := s.flags.contains .SYN && !s.flags.contains .ACK

namespace Connection

variable {P : Type} {config : Config} {nowMs : ℕ} {inp : Option Segment} {c c' c1 c2 : Connection P} {out out' : List Segment}
  {p : Segment → Bool} {segment : Segment}

/-! ## The charge -/

/-- what is left of the budget of the tracked segments -/
def remaining (limit : ℕ) (l : List TrackedSegment) : ℕ := (l.map fun x => limit - x.transmissions).sum

/-- a byte that is held back may get a segment of its own, and so may the FIN: one transmission, and the rest of its budget -/
def charge (c : Connection P) : ℕ :=
  256 * (c.sendQueue.length + c.closeRequested.toNat) + remaining c.maxTransmissions c.unacked

/-- the connection pays for the segments that `p` counts -/
structure Spends (p : Segment → Bool) (c : Connection P) (out : List Segment) (c' : Connection P) : Prop where
  budget : c'.maxTransmissions = c.maxTransmissions
  paid : c'.charge + out.countP p ≤ c.charge

theorem Spends.refl (c : Connection P) : Spends p c [] c := ⟨rfl, le_rfl⟩

theorem Spends.trans (h1 : Spends p c out c1) (h2 : Spends p c1 out' c2) : Spends p c (out ++ out') c2 := by
  refine ⟨h2.budget.trans h1.budget, ?_⟩
  have := h1.paid
  have := h2.paid
  rw [List.countP_append]
  omega

/-- nothing that is charged moves, and what is sent is not counted -/
theorem Spends.free (hq : c'.sendQueue = c.sendQueue) (hclose : c'.closeRequested = c.closeRequested)
    (hu : c'.unacked = c.unacked) (hmax : c'.maxTransmissions = c.maxTransmissions) (hout : ∀ x ∈ out, p x = false) :
    Spends p c out c' := by
  have hcount : out.countP p = 0 := List.countP_eq_zero.2 fun x hx => by simp [hout x hx]
  refine ⟨hmax, ?_⟩
  rw [hcount, charge, charge, hq, hclose, hu, hmax, Nat.add_zero]

/-- every segment is paid for, whether it counts or not -/
theorem Spends.whole (hmax : c'.maxTransmissions = c.maxTransmissions) (h : c'.charge + out.length ≤ c.charge) :
    Spends p c out c' := ⟨hmax, (Nat.add_le_add_left List.countP_le_length _).trans h⟩

theorem remaining_append (limit : ℕ) (l : List TrackedSegment) (x : TrackedSegment) :
    remaining limit (l ++ [x]) = remaining limit l + (limit - x.transmissions) := by
  simp only [remaining, List.map_append, List.sum_append, List.map_cons, List.map_nil, List.sum_cons, List.sum_nil,
    Nat.add_zero]

/-! ## Sending -/

theorem sendQueued_spends (nowMs : ℕ) {count : ℕ} (h0 : 0 < count) (hq : count ≤ c.sendQueue.length) (hmax : c.maxTransmissions ≤ 255) :
    Spends p c [(c.sendQueued count nowMs).2] (c.sendQueued count nowMs).1 := by
  have hcharge : (c.sendQueued count nowMs).1.charge = 256 * (c.sendQueue.length - count + c.closeRequested.toNat) +
      remaining c.maxTransmissions (c.unacked ++ [⟨c.sendNxt, Flags.ACK.union .PSH, c.sendQueue.take count, nowMs, 1⟩]) := by
    rw [← List.length_drop]
    rfl
  refine .whole rfl ?_
  rw [hcharge, remaining_append, charge, List.length_singleton]
  omega

theorem sendFin_spends (hclose : c.closeRequested = true) (hmax : c.maxTransmissions ≤ 255) :
    Spends p c [(c.sendFin nowMs).2] (c.sendFin nowMs).1 := by
  have hcharge : (c.sendFin nowMs).1.charge = 256 * (c.sendQueue.length + 0) +
      remaining c.maxTransmissions (c.unacked ++ [⟨c.sendNxt, Flags.FIN.union .ACK, [], nowMs, 1⟩]) := rfl
  refine .whole rfl ?_
  rw [hcharge, remaining_append, charge, List.length_singleton, hclose, Bool.toNat_true]
  omega

theorem flushLoop_spends (nowMs fuel : ℕ) (hm : 0 < c.mss) (hmax : c.maxTransmissions ≤ 255) :
    Spends p c (flushLoop nowMs fuel c).2 (flushLoop nowMs fuel c).1 := by
  induction fuel generalizing c with
  | zero => exact .refl c
  | succ fuel ih =>
    simp only [flushLoop]
    split_ifs with h
    · exact .refl c
    · obtain ⟨ha, hq⟩ := not_or.1 h
      have hlen := List.length_pos_of_ne_nil hq
      have hone : Spends p c _ _ := sendQueued_spends nowMs
        (show 0 < min (min c.sendAllowance c.mss) c.sendQueue.length by omega) (by omega) hmax
      exact hone.trans (ih hm hmax)

theorem flushFin_spends (hmax : c.maxTransmissions ≤ 255) : Spends p c (c.flushFin nowMs).2 (c.flushFin nowMs).1 := by
  unfold flushFin
  split_ifs with h
  · exact sendFin_spends h.1 hmax
  · exact .refl c

theorem flushData_spends (nowMs : ℕ) (hm : 0 < c.mss) (hmax : c.maxTransmissions ≤ 255) :
    Spends p c (c.flushData nowMs).2 (c.flushData nowMs).1 := by
  unfold flushData
  split_ifs
  · have hloop : Spends p c _ _ := flushLoop_spends nowMs c.sendQueue.length hm hmax
    exact hloop.trans (flushFin_spends (hloop.budget ▸ hmax))
  · exact .refl c

/-- a retransmission uses up a part of the budget of its segment -/
theorem retransmitOldest_charged (nowMs : ℕ) (timeout : Bool) (hmax : c.maxTransmissions ≤ 255) :
    Spends p c (c.retransmitOldest nowMs timeout).2.toList (c.retransmitOldest nowMs timeout).1 := by
  rcases c.retransmitOldest_spends nowMs timeout hmax with h | ⟨oldest, rest, oldest', hu, hlt, -, htimes, -, hu', hout⟩
  · rw [h]
    exact .refl c
  · have hst := congrArg Stable.maxTransmissions (c.retransmitOldest_frame nowMs timeout).2.1
    have hsend := c.retransmitOldest_sender nowMs timeout
    have hq : (c.retransmitOldest nowMs timeout).1.sendQueue = c.sendQueue := congrArg Sender.queue hsend
    have hclose : (c.retransmitOldest nowMs timeout).1.closeRequested = c.closeRequested := congrArg Sender.closeWanted hsend
    refine .whole hst ?_
    rw [hout, Option.toList, List.length_singleton, charge, charge, hq, hclose, hu', hu,
      show (c.retransmitOldest nowMs timeout).1.maxTransmissions = c.maxTransmissions from hst]
    simp only [remaining, List.map_cons, List.sum_cons, htimes]
    omega

/-! ## Acknowledgments -/

theorem remaining_suffix {limit : ℕ} {l l' : List TrackedSegment} (h : l <:+ l') : remaining limit l ≤ remaining limit l' := by
  obtain ⟨before, rfl⟩ := h
  rw [remaining, remaining, List.map_append, List.sum_append]
  exact Nat.le_add_left _ _

theorem trimFront_remaining (limit : ℕ) (ack : U32) (l : List TrackedSegment) : remaining limit (trimFront ack l).1 = remaining limit l := by
  cases l with
  | nil => rfl
  | cons x l =>
    rw [trimFront]
    split_ifs <;> rfl

/-- an ACK takes segments out of the flight, or a part of one -/
theorem advanceAck_spends (ack : U32) (nowMs : ℕ) : Spends p c [] (c.advanceAck ack nowMs).1 := by
  have hcut : remaining c.maxTransmissions (trimFront ack (ackLoop c.rtt ack nowMs c.unacked 0 false none).1).1 ≤
      remaining c.maxTransmissions c.unacked := by
    rw [trimFront_remaining]
    exact remaining_suffix (ackLoop_suffix _ _ _ _ _ _ _)
  exact .whole rfl (Nat.add_le_add_left hcut _)

theorem afterAck_spends {ack : U32} (h : c.afterAck ack nowMs config = some c') : Spends p c [] c' := by
  have hadv : Spends p c [] (c.advanceAck ack nowMs).1 := advanceAck_spends ack nowMs
  refine hadv.trans (.free ?_ ?_ (afterAck_acked h).1 ?_ fun _ hx => nomatch hx)
  all_goals
    unfold afterAck finAcked at h
    dsimp only at h
    split_ifs at h
    · split at h <;> cases h <;> rfl
    · cases h; rfl

theorem repeatAck_spends (nowMs : ℕ) (duplicate : Bool) (hmax : c.maxTransmissions ≤ 255) :
    Spends p c (c.repeatAck nowMs duplicate).2.retransmit.toList (c.repeatAck nowMs duplicate).1 := by
  unfold repeatAck
  simp only
  split_ifs
  · have hcounted : Spends p c [] { c with
        duplicateAcks := satSucc8 c.duplicateAcks
        reno := c.reno.onDuplicateAck.onFastLoss (distance c.sendUna c.sendNxt) } := .free rfl rfl rfl rfl fun _ hx => nomatch hx
    exact hcounted.trans (retransmitOldest_charged nowMs false hmax)
  · exact .free rfl rfl rfl rfl fun _ hx => nomatch hx
  · exact .free rfl rfl rfl rfl fun _ hx => nomatch hx

theorem applyAck_spends (ack : U32) (nowMs : ℕ) (duplicate : Bool) (hmax : c.maxTransmissions ≤ 255) :
    Spends p c (c.applyAck ack nowMs duplicate).2.retransmit.toList (c.applyAck ack nowMs duplicate).1 := by
  unfold applyAck
  split_ifs
  · exact .refl c
  · exact repeatAck_spends nowMs duplicate hmax
  · exact advanceAck_spends ack nowMs

theorem window_spends (window : U16) (nowMs : ℕ) : Spends p c [] (c.updateRemoteWindow window nowMs) := by
  have hsend := c.updateRemoteWindow_sender window nowMs
  have hst := congrArg Stable.maxTransmissions (c.updateRemoteWindow_frame window nowMs).2.1
  exact .free (congrArg Sender.queue hsend) (congrArg Sender.closeWanted hsend) (c.updateRemoteWindow_unacked window nowMs).1 hst
    fun _ hx => nomatch hx

theorem windowOf_spends (segment : Segment) (ack : U32) (nowMs : ℕ) : Spends p c [] (c.windowOf segment ack nowMs) := by
  rcases windowOf_cases nowMs (c := c) segment ack with h | h <;> rw [h]
  · exact .refl c
  · exact window_spends segment.window nowMs

theorem repairTimedOutFlight_spends (nowMs : ℕ) (config : Config) (hmax : c.maxTransmissions ≤ 255) :
    Spends p c (c.repairTimedOutFlight nowMs config).2.toList (c.repairTimedOutFlight nowMs config).1 := by
  unfold repairTimedOutFlight
  split
  · split_ifs
    · exact .refl c
    · exact retransmitOldest_charged nowMs false hmax
  · exact .refl c

/-- what the end of the handshake retransmits is not sent -/
theorem Spends.unsent (h : Spends p c out c') : Spends p c [] c' :=
  ⟨h.budget, (Nat.add_le_add_left (Nat.zero_le _) _).trans h.paid⟩

theorem establishServer_spends (segment : Segment) (nowMs : ℕ) (hmax : c.maxTransmissions ≤ 255) :
    Spends p c [] (c.establishServer segment nowMs) := by
  have hack : Spends p c [] _ := (applyAck_spends c.sendNxt nowMs false hmax).unsent
  have hwindow : Spends p _ [] _ := window_spends (c := (c.applyAck c.sendNxt nowMs false).1) segment.window nowMs
  exact (hack.trans hwindow).trans (.free rfl rfl rfl rfl fun _ hx => nomatch hx)

theorem establishClient_spends (segment : Segment) (nowMs : ℕ) (config : Config) (hmax : c.maxTransmissions ≤ 255) :
    Spends p c [] (c.establishClient segment nowMs config) := by
  have hwindow : Spends p c [] (c.updateRemoteWindow segment.window nowMs) := window_spends segment.window nowMs
  have hmss : Spends p c [] ((c.updateRemoteWindow segment.window nowMs).negotiateMss segment config) :=
    hwindow.trans (.free rfl rfl rfl rfl fun _ hx => nomatch hx)
  have hack : Spends p _ [] _ := (applyAck_spends
    ((c.updateRemoteWindow segment.window nowMs).negotiateMss segment config).sendNxt nowMs false (hmss.budget ▸ hmax)).unsent
  exact (hmss.trans hack).trans (.free rfl rfl rfl rfl fun _ hx => nomatch hx)

/-! ## Segments -/

/-- the ACK for data is the one segment that is not paid for -/
theorem receiveIfData_spends (segment : Segment) (nowMs : ℕ) (config : Config)
    (hp : segment.occupies = true → ∀ y : Connection P, p y.ackSegment = false) :
    Spends p c (c.receiveIfData segment nowMs config).2 (c.receiveIfData segment nowMs config).1 ∧
      (c.receiveIfData segment nowMs config).1.mss = c.mss := by
  unfold receiveIfData
  split_ifs with hdata
  · have houtgoing := (c.receiveStreamData_outgoing segment nowMs config).1
    obtain ⟨hm, -, hst⟩ := outgoing_frame houtgoing
    have hoccupies : segment.occupies = true := by
      unfold Segment.occupies
      rcases hdata with hdata | hdata <;> simp [hdata]
    refine ⟨.free ?_ ?_ ?_ (congrArg Stable.maxTransmissions hst) fun x hx => ?_, hm⟩
    · have := congrArg Connection.sendQueue houtgoing
      exact this
    · have := congrArg Connection.closeRequested houtgoing
      exact this
    · have := congrArg Connection.unacked houtgoing
      exact this
    · rw [List.mem_singleton.1 hx]
      exact hp hoccupies _
  · exact ⟨.refl c, rfl⟩

theorem receive_flush_spends (segment : Segment) (nowMs : ℕ) (config : Config) (hm : 0 < c.mss) (hmax : c.maxTransmissions ≤ 255)
    (hp : segment.occupies = true → ∀ y : Connection P, p y.ackSegment = false) :
    Spends p c ((c.receiveIfData segment nowMs config).2 ++ ((c.receiveIfData segment nowMs config).1.flushData nowMs).2)
      ((c.receiveIfData segment nowMs config).1.flushData nowMs).1 := by
  obtain ⟨h1, h2⟩ := receiveIfData_spends (c := c) segment nowMs config hp
  exact h1.trans (flushData_spends nowMs (h2 ▸ hm) (h1.budget ▸ hmax))

theorem onSynchronized_spends (nowMs : ℕ) (hst : c.Synchronized) (hm : 0 < c.mss) (hmax : c.maxTransmissions ≤ 255)
    (hrst : segment.flags.contains .RST = false) (hp : segment.occupies = true → ∀ y : Connection P, p y.ackSegment = false)
    (hopen : (c.onSynchronized segment nowMs config).2.closed = false) :
    Spends p c (c.onSynchronized segment nowMs config).2.segments (c.onSynchronized segment nowMs config).1 := by
  obtain ⟨c1, out, hack, -, hm1, heq⟩ := onSynchronized_parts config nowMs hst hrst hopen
  have hfirst : Spends p c out c1 := by
    rcases hack with ⟨-, rfl, rfl⟩ | ⟨ack, -, hcases⟩
    · exact .refl c1
    · cases hcases with
      | outside => exact .refl c
      | repeated duplicate =>
        have hrepeat : Spends p c _ _ := repeatAck_spends nowMs duplicate hmax
        have hboth := hrepeat.trans (windowOf_spends segment ack nowMs)
        rwa [List.append_nil] at hboth
      | advanced c2 hadv hc2 =>
        have hwindow : Spends p c [] (c2.windowOf segment ack nowMs) := (afterAck_spends hc2).trans (windowOf_spends segment ack nowMs)
        exact hwindow.trans (repairTimedOutFlight_spends nowMs config (hwindow.budget ▸ hmax))
  rw [heq]
  exact hfirst.trans (receive_flush_spends segment nowMs config (hm1 ▸ hm) (hfirst.budget ▸ hmax) hp)

/-- a reset that is answered with an ACK -/
def Challenged (c : Connection P) (segment : Segment) : Prop :=
  c.state ≠ .synSent ∧ segment.seq ≠ c.recvNxt ∧ 0 < c.availableWindow ∧ distance c.recvNxt segment.seq < c.availableWindow

instance (c : Connection P) (segment : Segment) : Decidable (c.Challenged segment) := by unfold Challenged; infer_instance

theorem onReset_cases (segment : Segment) :
    (c.onReset segment).segments = [] ∨ (c.onReset segment).segments = [c.ackSegment] ∧ c.Challenged segment := by
  unfold onReset
  split_ifs with h1 h2 h3
  · split
    · split_ifs <;> exact .inl rfl
    · exact .inl rfl
  · exact .inl rfl
  · exact .inr ⟨rfl, h1, h2, h3⟩
  · exact .inl rfl

/-- how a segment is answered that does not remove the connection -/
inductive Reply (p : Segment → Bool) (c : Connection P) (segment : Segment) : List Segment → Connection P → Prop
  | reset (hrst : segment.flags.contains .RST = false) : Reply p c segment [resetFor segment] c
  | challenge (hrst : segment.flags.contains .RST = true) (h : c.Challenged segment) : Reply p c segment [c.ackSegment] c
  | paid (out : List Segment) (c' : Connection P) (h : Spends p c out c') : Reply p c segment out c'

/-- **What a segment costs.** -/
theorem input_spends (segment : Segment) (nowMs : ℕ) (config : Config) (hm : 0 < c.mss) (hmax : c.maxTransmissions ≤ 255)
    (hp : segment.occupies = true → ∀ y : Connection P, p y.ackSegment = false)
    (hopen : (c.input segment nowMs config).2.closed = false) :
    Reply p c segment (c.input segment nowMs config).2.segments (c.input segment nowMs config).1 := by
  have hack : ∀ {y : Connection P}, segment.flags.contains .SYN = true → Spends p y [y.ackSegment] y := fun hsyn =>
    .free rfl rfl rfl rfl fun x hx => by
      rw [List.mem_singleton.1 hx]
      exact hp (by simp [Segment.occupies, hsyn]) _
  unfold input at hopen ⊢
  split_ifs at hopen ⊢ with h1 h2
  · refine .reset ?_
    simp only [unacceptableAck, Bool.and_eq_true, Bool.not_eq_true'] at h1
    exact h1.1.2
  · refine .paid _ _ (hack ?_)
    simp only [unexpectedSyn, Bool.and_eq_true] at h2
    exact h2.1.2
  · unfold onSegment at hopen ⊢
    split_ifs at hopen ⊢ with hrst
    · rcases c.onReset_cases segment with h | ⟨h, hch⟩
      · exact h.symm ▸ .paid _ _ (.refl c)
      · exact h.symm ▸ .challenge hrst hch
    · have hrst' : segment.flags.contains .RST = false := by simpa using hrst
      split at hopen
      · unfold onSynSent
        split_ifs with hsyn
        · exact .paid _ _ ((establishClient_spends segment nowMs config hmax).trans (hack hsyn.1))
        · exact .paid _ _ (.refl c)
      · unfold onSynReceived
        split_ifs
        · exact .paid _ _ (retransmitOldest_charged nowMs false hmax)
        · exact .paid _ _ (.refl c)
        · have hm1 := (c.establishServer_frame segment nowMs).2.2.1
          have hserver : Spends p c [] (c.establishServer segment nowMs) := establishServer_spends segment nowMs hmax
          exact .paid _ _ (hserver.trans (receive_flush_spends segment nowMs config (hm1 ▸ hm) (hserver.budget ▸ hmax) hp))
      · rename_i hn1 hn2
        exact .paid _ _ (onSynchronized_spends nowMs ⟨hn1, hn2⟩ hm hmax hrst' hp hopen)

/-- **A segment without sequence space** moves nothing by which a reset is judged. -/
theorem input_quiet (segment : Segment) (nowMs : ℕ) (config : Config) (hm : 0 < c.mss) (hempty : segment.occupies = false)
    (hopen : (c.input segment nowMs config).2.closed = false) :
    (c.input segment nowMs config).1.receiver = c.receiver ∧
      ((c.input segment nowMs config).1.state = .synSent ↔ c.state = .synSent) := by
  have hmoves := (input_moves config nowMs segment hm).1 hopen
  refine ⟨hmoves.receiver_eq_empty fun x hx => Option.some.inj hx ▸ hempty, fun h => ?_, fun h => ?_⟩
  · rcases hmoves.later.state with hst | hlt
    · exact hst.symm.trans h
    · rw [h] at hlt
      exact absurd hlt (Nat.not_lt_zero _)
  · have hsyn : segment.flags.contains .SYN = false := by
      simp only [Segment.occupies, Bool.or_eq_false_iff] at hempty
      exact hempty.1.2
    unfold input
    split_ifs
    · exact h
    · exact h
    · unfold onSegment
      split_ifs
      · exact h
      · simp only [h, onSynSent, hsyn, Bool.false_eq_true, false_and, if_false]

theorem Challenged.congr (hst : c'.state = .synSent ↔ c.state = .synSent) (hr : c'.receiver = c.receiver)
    (hs : c'.stable = c.stable) : c'.Challenged segment ↔ c.Challenged segment := by
  have hnxt : c'.recvNxt = c.recvNxt := congrArg Receiver.recvNxt hr
  have hqueue : c'.recvQueue = c.recvQueue := congrArg Receiver.recvQueue hr
  have hchunks : c'.reassembly = c.reassembly := congrArg Receiver.reassembly hr
  have hcapacity : c'.receiveCapacity = c.receiveCapacity := congrArg Stable.receiveCapacity hs
  have hwindow : c'.availableWindow = c.availableWindow := by rw [availableWindow, availableWindow, hqueue, hchunks, hcapacity]
  unfold Challenged
  rw [hnxt, hwindow, ne_eq, hst]

/-! ## No answer opens a connection -/

/-- flags under which a SYN carries an ACK -/
def Answering (flags : Flags) : Prop := flags.contains .SYN = true → flags.contains .ACK = true

instance (flags : Flags) : Decidable (Answering flags) := by unfold Answering; infer_instance

/-- once SYN-SENT is left, the tracked segments are answers -/
def Calm (c : Connection P) : Prop := c.state ≠ .synSent → c.Tracks Answering

theorem Later.past_synSent (h : Later config nowMs inp c c') (hst : c.state ≠ .synSent) : c'.state ≠ .synSent := by
  intro hst'
  rcases h.state with hsame | hlt
  · exact hst (hsame.symm.trans hst')
  · rw [hst'] at hlt
    exact absurd hlt (Nat.not_lt_zero _)

/-- SYN-SENT is left when the handshake completes -/
theorem Move.leaves_synSent (hmove : Move config nowMs inp c out c') (hst : c.state = .synSent) :
    c'.state = .synSent ∨ ∃ segment, c' = c.establishClient segment nowMs config := by
  have hno : ¬ c.Sending := by
    rintro (h | h) <;> rw [hst] at h <;> cases h
  cases hmove with
  | establishClient segment => exact .inr ⟨segment, rfl⟩
  | establishServer segment hin hst' => rw [hst] at hst'; cases hst'
  | window segment hin hst' => exact absurd hst hst'.1
  | timers => exact .inl hst
  | retransmit timeout => exact .inl ((c.retransmitOldest_frame nowMs timeout).2.2.2.1.trans hst)
  | advanceAck c' segment ack hin hrst hack hst' => exact absurd hst hst'.1
  | receive segment hin hst' => exact absurd hst hst'.1
  | sendData count hst' => exact absurd hst' hno
  | sendFin hst' => exact absurd hst' hno
  | probe =>
    rcases c.zeroWindowProbe_cases nowMs with ⟨x, -, -, heq⟩ | ⟨-, ⟨-, heq⟩ | ⟨-, heq⟩⟩ <;> rw [heq] <;> exact .inl hst
  | ack => exact .inl hst
  | reset => exact .inl hst
  | requestClose hst' => exact absurd hst' hno

theorem Move.calm {isn : U32} {acc : List U8} (hmove : Move config nowMs inp c out c') (hs : c.SendInv config isn acc)
    (h : c.Calm) : c'.Calm := by
  intro hst'
  by_cases hst : c.state = .synSent
  · rcases hmove.leaves_synSent hst with hsame | ⟨segment, rfl⟩
    · exact absurd hsame hst'
    · -- the SYN is acknowledged, so only data may be tracked
      have hinv := (hmove.sendInv hs).sender.shape
      have hphase : (c.establishClient segment nowMs config).sender.phase = .running := by
        have hstate := (c.establishClient_frame segment nowMs config).2.2.2
        exact congrArg State.phase hstate
      rw [hphase] at hinv
      intro x hx hsyn
      have hdata := (hinv _ (List.mem_map_of_mem hx)).syn
      exact absurd (hdata.symm.trans hsyn) Bool.false_ne_true
  · exact hmove.tracks (F := Answering) (by decide) (by decide) (h hst)

/-- **Every reachable connection is calm.** -/
theorem Reachable.calm {config : ValidConfig} (h : c.Reachable config.1) : c.Calm := by
  refine h.invariant (fun o => ?_) (fun hm hs hcalm => hm.calm hs hcalm) fun hcalm hu hst hne => ?_
  · cases o with
    | client => exact fun hne => absurd rfl hne
    | server peer syn isn nowMs token => exact fun _ => server_tracks config.1 peer syn isn nowMs token (by decide)
  · exact Tracks.of_eq (F := Answering) (hcalm (hst ▸ hne)) hu

theorem bareSyn_of_answering {x : Segment} (h : Answering x.flags) : x.bareSyn = false := by
  unfold Segment.bareSyn
  cases hsyn : x.flags.contains .SYN with
  | false => rfl
  | true => rw [h hsyn]; rfl

theorem occupies_empty {x : Segment} (hp : x.payload = []) (hs : x.flags.contains .SYN = false) (hf : x.flags.contains .FIN = false) :
    x.occupies = false := by
  rw [Segment.occupies, hp, hs, hf]
  rfl

theorem ackSegment_occupies (c : Connection P) : c.ackSegment.occupies = false :=
  occupies_empty rfl (by decide : Flags.ACK.contains .SYN = false) (by decide : Flags.ACK.contains .FIN = false)

/-- a reset occupies no sequence space, and no reset opens a connection -/
theorem resetFor_flags (segment : Segment) :
    (resetFor segment).occupies = false ∧ (resetFor segment).bareSyn = false ∧ (resetFor segment).flags.contains .RST = true := by
  have hrst : Flags.RST.contains .SYN = false ∧ Flags.RST.contains .FIN = false := by decide
  have hack : (Flags.RST.union .ACK).contains .SYN = false ∧ (Flags.RST.union .ACK).contains .FIN = false := by decide
  unfold resetFor
  cases segment.ack with
  | none => exact ⟨occupies_empty rfl hack.1 hack.2, bareSyn_of_answering (by decide : Answering (Flags.RST.union .ACK)),
      (by decide : (Flags.RST.union .ACK).contains .RST = true)⟩
  | some ack => exact ⟨occupies_empty rfl hrst.1 hrst.2, bareSyn_of_answering (by decide : Answering Flags.RST),
      (by decide : Flags.RST.contains .RST = true)⟩

theorem Move.answers (hmove : Move config nowMs inp c out c') (h : c.Tracks Answering) : ∀ x ∈ out, x.bareSyn = false := by
  have hone : ∀ {a : Segment}, Answering a.flags → ∀ x ∈ [a], x.bareSyn = false := fun ha x hx =>
    bareSyn_of_answering (List.mem_singleton.1 hx ▸ ha)
  have hack : Answering Flags.ACK := by decide
  have hdata : Answering (Flags.ACK.union .PSH) := by decide
  cases hmove with
  | establishClient => exact fun _ hx => nomatch hx
  | establishServer => exact fun _ hx => nomatch hx
  | window => exact fun _ hx => nomatch hx
  | timers => exact fun _ hx => nomatch hx
  | advanceAck => exact fun _ hx => nomatch hx
  | requestClose => exact fun _ hx => nomatch hx
  | retransmit timeout =>
    rcases c.retransmitOldest_cases nowMs timeout with heq | ⟨tracked, rest, transmissions, dups, hu, -, heq⟩ <;> rw [heq]
    · exact fun _ hx => nomatch hx
    · have htracked : Answering tracked.flags := h tracked (hu ▸ List.mem_cons_self)
      exact hone htracked
  | receive => exact hone hack
  | sendData => exact hone hdata
  | sendFin => exact hone (by decide : Answering (Flags.FIN.union .ACK))
  | probe =>
    rcases c.zeroWindowProbe_cases nowMs with ⟨x, -, -, heq⟩ | ⟨-, ⟨-, heq⟩ | ⟨-, heq⟩⟩ <;> rw [heq]
    · exact hone hdata
    · exact fun _ hx => nomatch hx
    · exact hone hdata
  | ack => exact hone hack
  | reset segment =>
    intro x hx
    rw [List.mem_singleton.1 hx]
    exact (resetFor_flags segment).2.1

theorem Moves.answers (hmoves : Moves config nowMs inp c out c') (hst : c.state ≠ .synSent) (h : c.Tracks Answering) :
    ∀ x ∈ out, x.bareSyn = false := by
  induction hmoves with
  | refl => exact fun _ hx => nomatch hx
  | cons hmove _ ih =>
    intro x hx
    rcases List.mem_append.1 hx with hx | hx
    · exact hmove.answers h x hx
    · exact ih (hmove.later.past_synSent hst) (hmove.tracks (F := Answering) (by decide) (by decide) h) x hx

/-- **No answer opens a connection.** -/
theorem input_answers (hcalm : c.Calm) (segment : Segment) (nowMs : ℕ) (hm : 0 < c.mss)
    (hopen : (c.input segment nowMs config).2.closed = false) :
    ∀ x ∈ (c.input segment nowMs config).2.segments, x.bareSyn = false := by
  by_cases hst : c.state = .synSent
  · have hack : ∀ {y : Connection P}, ∀ x ∈ [y.ackSegment], x.bareSyn = false := fun x hx =>
      bareSyn_of_answering (List.mem_singleton.1 hx ▸ (by decide : Answering Flags.ACK))
    unfold input
    split_ifs
    · intro x hx
      rw [List.mem_singleton.1 hx]
      exact (resetFor_flags segment).2.1
    · exact hack
    · unfold onSegment
      split_ifs
      · rcases c.onReset_cases segment with h | ⟨h, -⟩ <;> rw [h]
        · exact fun _ hx => nomatch hx
        · exact hack
      · simp only [hst, onSynSent]
        split_ifs
        · exact hack
        · exact fun _ hx => nomatch hx
  · exact ((input_moves config nowMs segment hm).1 hopen).answers hst (hcalm hst)

end Connection

end FipsTcp
