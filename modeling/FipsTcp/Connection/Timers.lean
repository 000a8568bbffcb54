/-
When a connection has to be polled.

`poll` and `next_poll_at` derive what is due in different code. They agree because of two invariants: `Timed`, which every
primitive preserves (the timeout is never zero, and a closed window always has a probe deadline), and `Settled`, which
every operation restores (nothing is left that could be sent at once).
- `input_settled`, `write_settled`, `poll_settled`, ...: each operation leaves the connection settled;
- `poll_idle`: before the deadline, or without one, a poll does nothing;
- `poll_due`: at the deadline a poll emits a segment or removes the connection;
- `poll_next`: after a poll the next deadline lies in the future.
-/
import FipsTcp.Connection.Receiver

namespace FipsTcp

namespace Connection

variable {P : Type} {config : Config} {nowMs : ℕ} {inp : Option Segment} {c c' : Connection P} {out : List Segment}

structure Timed (config : Config) (c : Connection P) : Prop where
  rtt : c.rtt.InBounds config
  reno : 0 < c.reno.mss
  probe : c.remoteWindow = 0 → c.nextZeroWindowProbeMs.isSome = true
  budget : c.maxTransmissions = config.maxRetransmissions.toNat

/-- nothing can be sent now: the allowance is used up, or there is nothing to send -/
def Settled (c : Connection P) : Prop :=
  c.Sending → c.sendAllowance = 0 ∨ (c.sendQueue = [] ∧ c.closeRequested = false)

/-! ## The timers through every primitive -/

theorem Timed.of_outgoing (h : c.Timed config) (ho : c'.outgoing = c.outgoing) : c'.Timed config := by
  have h1 : c'.outgoing.rtt = c.outgoing.rtt := congrArg _ ho
  have h2 : c'.outgoing.reno = c.outgoing.reno := congrArg _ ho
  have h3 : c'.outgoing.remoteWindow = c.outgoing.remoteWindow := congrArg _ ho
  have h4 : c'.outgoing.nextZeroWindowProbeMs = c.outgoing.nextZeroWindowProbeMs := congrArg _ ho
  have h5 : c'.outgoing.maxTransmissions = c.outgoing.maxTransmissions := congrArg _ ho
  exact ⟨h1 ▸ h.rtt, h2 ▸ h.reno, h3 ▸ h4 ▸ h.probe, h5 ▸ h.budget⟩

theorem Timed.window (h : c.Timed config) (window : U16) (nowMs : ℕ) : (c.updateRemoteWindow window nowMs).Timed config := by
  unfold updateRemoteWindow
  split_ifs with h0
  · exact ⟨h.rtt, h.reno, fun _ => rfl, h.budget⟩
  · refine ⟨h.rtt, h.reno, fun hw => absurd (BitVec.eq_of_toNat_eq hw) h0, h.budget⟩

theorem Timed.negotiateMss (h : c.Timed config) (segment : Segment) (config' : Config) :
    (c.negotiateMss segment config').Timed config :=
  ⟨h.rtt, lt_of_lt_of_le Nat.one_pos (le_max_right _ _), h.probe, h.budget⟩

theorem Timed.retransmitOldest (h : c.Timed config) (nowMs : ℕ) (timeout : Bool) :
    (c.retransmitOldest nowMs timeout).1.Timed config := by
  rcases c.retransmitOldest_cases nowMs timeout with he | ⟨tracked, rest, transmissions, dups, -, -, he⟩ <;> rw [he]
  · exact h
  · exact ⟨h.rtt.onRetransmit _, h.reno, h.probe, h.budget⟩

theorem Timed.advanceAck (hv : config.Valid) (h : c.Timed config) (ack : U32) (nowMs : ℕ) :
    (c.advanceAck ack nowMs).1.Timed config := by
  unfold Connection.advanceAck
  rcases ackLoop c.rtt ack nowMs c.unacked 0 false none with ⟨rest, acked, fin, sample⟩
  refine ⟨?_, by simpa using h.reno, h.probe, h.budget⟩
  cases sample with
  | none => exact h.rtt
  | some sample => exact h.rtt.sample hv sample

theorem Timed.applyAck (hv : config.Valid) (h : c.Timed config) (ack : U32) (nowMs : ℕ) (duplicate : Bool) :
    (c.applyAck ack nowMs duplicate).1.Timed config := by
  have hrepeat : ∀ duplicateAcks reno, reno.mss = c.reno.mss → ({ c with duplicateAcks, reno } : Connection P).Timed config :=
    fun _ _ hm => ⟨h.rtt, hm ▸ h.reno, h.probe, h.budget⟩
  exact applyAck_preserves c ack nowMs duplicate hrepeat (fun _ _ hm => (hrepeat _ _ hm).retransmitOldest nowMs false)
    (h.advanceAck hv ack nowMs)

/-- **Preservation, one primitive.** -/
theorem Move.timed (hv : config.Valid) (h : Move config nowMs inp c out c') (ht : c.Timed config) : c'.Timed config := by
  cases h with
  | establishClient segment =>
    have h1 := ((ht.window segment.window nowMs).negotiateMss segment config).applyAck hv
      ((c.updateRemoteWindow segment.window nowMs).negotiateMss segment config).sendNxt nowMs false
    exact ⟨h1.rtt, h1.reno, h1.probe, h1.budget⟩
  | establishServer segment =>
    have h1 := (ht.applyAck hv c.sendNxt nowMs false).window segment.window nowMs
    exact ⟨h1.rtt, h1.reno, h1.probe, h1.budget⟩
  | window segment => exact ht.window segment.window nowMs
  | timers rtt reno duplicateAcks zeroWindowProbes rtoRecoveryUntil nextZeroWindowProbeMs hrtt hreno hprobe =>
    refine ⟨?_, by simp only [hreno]; exact ht.reno, fun hw => hprobe (ht.probe hw), ht.budget⟩
    rcases hrtt with rfl | rfl
    · exact ht.rtt
    · exact ht.rtt.onTimeout hv
  | retransmit timeout => exact ht.retransmitOldest nowMs timeout
  | advanceAck c' segment ack hin hrst hseg hst hadv h =>
    have h1 := ht.advanceAck hv ack nowMs
    unfold afterAck finAcked at h
    simp only at h
    split_ifs at h
    · split at h <;> cases h <;> exact ⟨h1.rtt, h1.reno, h1.probe, h1.budget⟩
    · cases h; exact h1
  | receive segment => exact ht.of_outgoing (c.receiveStreamData_outgoing segment nowMs config).1
  | sendData count => exact ⟨ht.rtt, ht.reno, ht.probe, ht.budget⟩
  | sendFin => exact ⟨ht.rtt, ht.reno, ht.probe, ht.budget⟩
  | probe =>
    rcases c.zeroWindowProbe_cases nowMs with ⟨x, -, -, h⟩ | ⟨-, ⟨-, h⟩ | ⟨-, h⟩⟩ <;> rw [h]
    · exact ⟨ht.rtt.onRetransmit _, ht.reno, ht.probe, ht.budget⟩
    · exact ht
    · exact ⟨ht.rtt, ht.reno, ht.probe, ht.budget⟩
  | ack => exact ht
  | reset => exact ht
  | requestClose => exact ⟨ht.rtt, ht.reno, ht.probe, ht.budget⟩

theorem Timed.moves (hv : config.Valid) (ht : c.Timed config) (h : Moves config nowMs inp c out c') : c'.Timed config :=
  h.preserves (fun h ht => h.timed hv ht) ht

/-! ## Flushing leaves nothing to send -/

theorem Settled.flushData (hs : c.Settled) (nowMs : ℕ) : c.flushData nowMs = (c, []) := by
  unfold Connection.flushData
  split_ifs with hst
  · rcases hs hst with h0 | ⟨hq, hc⟩
    · have hloop : ∀ fuel, flushLoop nowMs fuel c = (c, []) := fun fuel => by
        cases fuel with
        | zero => rfl
        | succ fuel => rw [flushLoop]; simp only [h0, true_or, if_true]
      have hfin : c.flushFin nowMs = (c, []) := by rw [flushFin, if_neg (by simp [h0])]
      simp only [hloop, hfin, List.append_nil]
    · have hfin : c.flushFin nowMs = (c, []) := by rw [flushFin, if_neg (by simp [hc])]
      simp only [hq, List.length_nil, flushLoop, hfin, List.append_nil]
  · rfl

/-- the loop sends until the allowance is used up or the queue is empty: the fuel never runs out before -/
theorem flushLoop_done (nowMs fuel : ℕ) (hm : 0 < c.mss) (hf : c.sendQueue.length ≤ fuel) :
    (flushLoop nowMs fuel c).1.sendAllowance = 0 ∨ (flushLoop nowMs fuel c).1.sendQueue = [] := by
  induction fuel generalizing c with
  | zero => exact .inr (List.eq_nil_of_length_eq_zero (Nat.le_zero.1 hf))
  | succ fuel ih =>
    simp only [flushLoop]
    split_ifs with h
    · exact h
    · obtain ⟨ha, hq⟩ := not_or.1 h
      have hlen := List.length_pos_of_ne_nil hq
      refine ih (c := (c.sendQueued (min (min c.sendAllowance c.mss) c.sendQueue.length) nowMs).1) hm ?_
      simp only [sendQueued, sendTracked, List.length_drop]
      omega

theorem flushData_settled (nowMs : ℕ) (hm : 0 < c.mss) : (c.flushData nowMs).1.Settled := by
  unfold Connection.flushData
  split_ifs with hst
  · have hdone := flushLoop_done (c := c) nowMs c.sendQueue.length hm le_rfl
    simp only
    generalize (flushLoop nowMs c.sendQueue.length c).1 = c1 at hdone ⊢
    unfold flushFin
    split_ifs with hfin
    · intro hs
      have : (c1.sendFin nowMs).1.state = .finWait1 ∨ (c1.sendFin nowMs).1.state = .lastAck := by
        rw [sendFin_state]; split_ifs <;> simp
      rcases hs with hs | hs <;> rcases this with h | h <;> cases hs.symm.trans h
    · intro _
      rcases hdone with h | h
      · exact .inl h
      · by_cases h0 : c1.sendAllowance = 0
        · exact .inl h0
        · exact .inr ⟨h, Bool.of_not_eq_true fun hc => hfin ⟨hc, h, Nat.pos_of_ne_zero h0⟩⟩
  · exact fun hs => absurd hs hst

/-- a connection that may not send is settled -/
theorem settled_of_not_sending (h : ¬ c.Sending) : c.Settled := fun hs => absurd hs h

theorem Settled.congr (h : c.Settled) (hs : c'.sender = c.sender) (hst : c'.state = c.state)
    (hw : c'.remoteWindow = c.remoteWindow) (hr : c'.reno = c.reno) : c'.Settled := by
  have h1 : c'.sendUna = c.sendUna := congrArg SendWindow.Sender.una hs
  have h2 : c'.sendNxt = c.sendNxt := congrArg SendWindow.Sender.nxt hs
  have h3 : c'.sendQueue = c.sendQueue := congrArg SendWindow.Sender.queue hs
  have h4 : c'.closeRequested = c.closeRequested := congrArg SendWindow.Sender.closeWanted hs
  unfold Settled Sending sendAllowance at *
  rw [h1, h2, h3, h4, hst, hw, hr]; exact h

theorem settled_of_window (h : c.remoteWindow = 0) : c.Settled := fun _ => .inl (by simp [sendAllowance, h])

/-- what a segment leaves -/
theorem input_settled {isn : U32} {acc : List U8} (hs : c.SendInv config isn acc) (h : c.Settled) (segment : Segment)
    (nowMs : ℕ) (hopen : (c.input segment nowMs config).2.closed = false) :
    (c.input segment nowMs config).1.Settled := by
  unfold input at hopen ⊢
  split_ifs at hopen ⊢ with h1 h2
  · exact h
  · exact h
  · unfold onSegment at hopen ⊢
    split_ifs at hopen ⊢ with hrst
    · exact h
    · split at hopen
      · rename_i hst
        unfold onSynSent
        split_ifs
        · -- nothing can be queued before the handshake is complete
          have hidle := hs.sender.idle (by simp only [sender, hst]; decide)
          have hsend := establishClient_sender hs.sender (by norm_num) hst segment nowMs config
          intro _
          have h3 : (c.establishClient segment nowMs config).sendQueue = c.sendQueue := congrArg SendWindow.Sender.queue hsend
          have h4 : (c.establishClient segment nowMs config).closeRequested = c.closeRequested :=
            congrArg SendWindow.Sender.closeWanted hsend
          exact .inr ⟨h3.trans hidle.1, h4.trans hidle.2⟩
        · exact h
      · rename_i hst
        unfold onSynReceived
        split_ifs
        · refine settled_of_not_sending fun hs' => ?_
          obtain ⟨-, -, -, hst', -⟩ := c.retransmitOldest_frame nowMs false
          rcases hs' with hs' | hs' <;> cases (hst.symm.trans hst'.symm).trans hs'
        · exact h
        · refine flushData_settled nowMs ?_
          obtain ⟨-, hm⟩ := receiveIfData_moves config nowMs (some segment) (c := c.establishServer segment nowMs) rfl
            (by simpa using hrst) (by simp [Synchronized, establishServer])
          rw [hm, (c.establishServer_frame segment nowMs).2.2.1]; exact hs.mss
      · rename_i hn1 hn2
        have hst : c.Synchronized := ⟨hn1, hn2⟩
        have hrst' : segment.flags.contains .RST = false := by simpa using hrst
        unfold onSynchronized at hopen ⊢
        cases hack : segment.ack with
        | none =>
          have hm := (receiveIfData_moves config nowMs (some segment) rfl hrst' hst).2
          exact flushData_settled nowMs (hm ▸ hs.mss)
        | some ack =>
          rcases hp : c.processAck segment ack nowMs config with ⟨c1, closed, out⟩
          simp only [hack, hp] at hopen ⊢
          cases closed with
          | true => cases hopen
          | false =>
            obtain ⟨-, hm, hst1⟩ := (processAck_moves config nowMs hrst' hack hst hp).1 rfl
            have hm2 := (receiveIfData_moves config nowMs (some segment) rfl hrst' hst1).2
            exact flushData_settled nowMs (hm2 ▸ hm ▸ hs.mss)

theorem write_settled (hm : 0 < c.mss) {bytes : List U8} {count : ℕ} (h : c.write bytes nowMs config = .ok (c', count, out)) :
    c'.Settled := by
  unfold write at h
  split_ifs at h
  simp only [Except.ok.injEq, Prod.mk.injEq] at h
  rw [← h.1]
  exact flushData_settled nowMs hm

theorem read_settled (h : c.Settled) (max : ℕ) : (c.read max).1.Settled := h.congr rfl rfl rfl rfl

theorem close_settled (hm : 0 < c.mss) (h : c.Settled) (nowMs : ℕ) : (c.close nowMs).1.Settled := by
  unfold close
  split
  · exact flushData_settled nowMs hm
  · exact flushData_settled nowMs hm
  all_goals exact h

/-! ## What is due, and what a poll does about it -/

/-- a time that has come -/
def Due (t : ℕ) (deadline : Option ℕ) : Prop := ∃ d ∈ deadline, d ≤ t

theorem due_some {t d : ℕ} : Due t (some d) ↔ d ≤ t := by simp [Due]

theorem any_due {t : ℕ} {deadline : Option ℕ} : (deadline.any fun d => decide (d ≤ t)) = true ↔ Due t deadline := by
  unfold Due
  cases deadline <;> simp

theorem not_due_none (t : ℕ) : ¬ Due t none := by simp [Due]

theorem due_earliest {t : ℕ} : ∀ {a b : Option ℕ}, Due t (earliest a b) ↔ Due t a ∨ Due t b
  | some a, some b => by simp only [earliest, due_some]; omega
  | some a, none => by simp only [earliest, due_some, not_due_none, or_false]
  | none, b => by simp only [earliest, not_due_none, false_or]

theorem due_nextPollAt {t : ℕ} :
    Due t (c.nextPollAt nowMs config) ↔ Due t c.closeDeadline ∨ Due t (c.transportDeadline nowMs config) := due_earliest

/-- only the two states that wait for a timer have a close deadline -/
theorem closeDeadline_none (h : c.state ≠ .finWait2) (h' : c.state ≠ .timeWait) : c.closeDeadline = none := by
  unfold closeDeadline
  split
  · exact absurd ‹_› h
  · exact absurd ‹_› h'
  · rfl

/-- what is in flight stays in flight, and the windows stay -/
theorem flushLoop_keeps (nowMs fuel : ℕ) : c.unacked <+: (flushLoop nowMs fuel c).1.unacked ∧
    (flushLoop nowMs fuel c).1.rtt = c.rtt ∧ (flushLoop nowMs fuel c).1.remoteWindow = c.remoteWindow ∧
    (flushLoop nowMs fuel c).1.state = c.state := by
  induction fuel generalizing c with
  | zero => exact ⟨List.prefix_refl _, rfl, rfl, rfl⟩
  | succ fuel ih =>
    simp only [flushLoop]
    split_ifs
    · exact ⟨List.prefix_refl _, rfl, rfl, rfl⟩
    · obtain ⟨h1, h2, h3, h4⟩ := ih (c := (c.sendQueued (min (min c.sendAllowance c.mss) c.sendQueue.length) nowMs).1)
      exact ⟨(List.prefix_append _ _).trans h1, h2, h3, h4⟩

theorem flushLoop_una (nowMs fuel : ℕ) : (flushLoop nowMs fuel c).1.sendUna = c.sendUna := by
  induction fuel generalizing c with
  | zero => rfl
  | succ fuel ih =>
    simp only [flushLoop]
    split_ifs
    · rfl
    · exact ih (c := (c.sendQueued (min (min c.sendAllowance c.mss) c.sendQueue.length) nowMs).1)

theorem flushData_una (nowMs : ℕ) : (c.flushData nowMs).1.sendUna = c.sendUna := by
  have hloop := flushLoop_una (c := c) nowMs c.sendQueue.length
  unfold Connection.flushData
  split_ifs
  · simp only
    generalize (flushLoop nowMs c.sendQueue.length c).1 = c1 at hloop ⊢
    unfold flushFin
    split_ifs <;> exact hloop
  · rfl

theorem flushData_keeps (nowMs : ℕ) : c.unacked <+: (c.flushData nowMs).1.unacked ∧
    (c.flushData nowMs).1.rtt = c.rtt ∧ (c.flushData nowMs).1.remoteWindow = c.remoteWindow ∧
    (c.flushData nowMs).1.closeDeadline = c.closeDeadline := by
  unfold Connection.flushData
  split_ifs with hst
  · obtain ⟨h1, h2, h3, h4⟩ := flushLoop_keeps (c := c) nowMs c.sendQueue.length
    have hnone : c.closeDeadline = none :=
      closeDeadline_none (by rcases hst with h | h <;> simp [h]) (by rcases hst with h | h <;> simp [h])
    simp only [hnone]
    generalize (flushLoop nowMs c.sendQueue.length c).1 = c1 at h1 h2 h3 h4 ⊢
    unfold flushFin
    split_ifs
    · refine ⟨h1.trans (List.prefix_append _ _), h2, h3, closeDeadline_none ?_ ?_⟩ <;>
        · simp only [sendFin_state]; split_ifs <;> decide
    · exact ⟨h1, h2, h3, closeDeadline_none (by rw [h4]; rcases hst with h | h <;> simp [h])
        (by rw [h4]; rcases hst with h | h <;> simp [h])⟩
  · exact ⟨List.prefix_refl _, rfl, rfl, rfl⟩

/-- what a poll at time `t` may be: nothing was due, or the connection goes, or something is emitted -/
inductive Polled (config : Config) (t : ℕ) (c : Connection P) : Connection P × Update → Prop
  | idle (hdue : ∀ nowMs, ¬ Due t (c.nextPollAt nowMs config)) : Polled config t c (c, .open [])
  | gone (c' : Connection P) (hdue : ∀ nowMs, Due t (c.nextPollAt nowMs config)) : Polled config t c (c', .close [])
  | acted (c' : Connection P) (segments : List Segment) (hdue : ∀ nowMs, Due t (c.nextPollAt nowMs config))
      (hout : segments ≠ []) (hset : c'.Settled)
      (hnext : t < maxU64 → ∀ nowMs, ¬ Due t (c'.nextPollAt nowMs config)) : Polled config t c (c', .open segments)

theorem not_due_satAdd {t d : ℕ} (ht : t < maxU64) (hd : 0 < d) : ¬ Due t (some (satAdd t d)) := by
  rw [due_some, satAdd]; omega

/-- the zero-window work of `poll` and of `next_poll_at` -/
def ProbeWork (c : Connection P) : Prop := c.remoteWindow = 0 ∧ (c.closeRequested = true ∨ c.hasProbePayload = true)

theorem hasProbePayload_iff :
    c.hasProbePayload = true ↔ c.sendQueue ≠ [] ∨ ∃ segment ∈ c.unacked, segment.payload ≠ [] := by
  simp [hasProbePayload]

theorem transportDeadline_probe {d : ℕ} (hwork : c.ProbeWork) (hd : c.nextZeroWindowProbeMs = some d) :
    c.transportDeadline nowMs config =
      if c.hasProbePayload = true ∨ config.maxRetransmissions.toNat ≤ c.zeroWindowProbes then some d else none := by
  unfold transportDeadline
  rw [ProbeWork] at hwork
  rw [if_pos hwork, hd]; rfl

theorem transportDeadline_flight (hwork : ¬ c.ProbeWork) :
    c.transportDeadline nowMs config = c.unacked.head?.map fun oldest => satAdd oldest.sentAtMs c.rtt.timeoutMs := by
  unfold transportDeadline
  rw [ProbeWork] at hwork
  rw [if_neg hwork]

/-- **The probe part of a poll.** -/
theorem pollZeroWindow_cases (hv : config.Valid) (ht : c.Timed config) {t : ℕ} (hclose : ¬ Due t c.closeDeadline)
    (hwork : c.ProbeWork) : Polled config t c (c.pollZeroWindow t config) := by
  obtain ⟨d, hd⟩ := Option.isSome_iff_exists.1 (ht.probe hwork.1)
  have hdue : ∀ nowMs, Due t (c.nextPollAt nowMs config) ↔
      (c.hasProbePayload = true ∨ config.maxRetransmissions.toNat ≤ c.zeroWindowProbes) ∧ d ≤ t := fun nowMs => by
    rw [due_nextPollAt, transportDeadline_probe hwork hd, or_iff_right hclose]
    split_ifs with h
    · simp [due_some, h]
    · simp [not_due_none, h]
  have hc : ({ c with nextZeroWindowProbeMs := some d } : Connection P) = c := by rw [← hd]
  unfold pollZeroWindow
  simp only [hd, Option.getD_some, hc]
  split_ifs with h1 h2
  · exact .gone c fun nowMs => (hdue nowMs).2 ⟨.inr h2, h1⟩
  · -- a probe is sent, and the next one is later
    have hafter : ∀ (c2 : Connection P) (probe : Segment), c2.remoteWindow = 0 → c2.state = c.state →
        c2.finWait2UntilMs = c.finWait2UntilMs → c2.timeWaitUntilMs = c.timeWaitUntilMs → c2.hasProbePayload = true →
        c.hasProbePayload = true →
        Polled config t c ({ c2 with
          zeroWindowProbes := satSucc8 c2.zeroWindowProbes
          nextZeroWindowProbeMs := some (satAdd t (min (satMul config.initialRtoMs
            (2 ^ min (satSucc8 c2.zeroWindowProbes) 16)) config.maxRtoMs)) }, .open [probe]) :=
      fun c2 probe hw hst hf2 htw hp hp0 => by
        refine .acted _ _ (fun nowMs => (hdue nowMs).2 ⟨.inl hp0, h1⟩) (List.cons_ne_nil _ _) (settled_of_window hw) ?_
        intro hlt nowMs
        have hclose' : c2.closeDeadline = c.closeDeadline := by unfold closeDeadline; rw [hst, hf2, htw]
        rw [due_nextPollAt, not_or]
        refine ⟨by rw [show ∀ a b, closeDeadline ({ c2 with zeroWindowProbes := a, nextZeroWindowProbeMs := b }) =
          c2.closeDeadline from fun _ _ => rfl, hclose']; exact hclose, ?_⟩
        rw [transportDeadline_probe (c := { c2 with
          zeroWindowProbes := satSucc8 c2.zeroWindowProbes
          nextZeroWindowProbeMs := some (satAdd t (min (satMul config.initialRtoMs
            (2 ^ min (satSucc8 c2.zeroWindowProbes) 16)) config.maxRtoMs)) }) ⟨hw, .inr hp⟩ rfl]
        have hinit := lt_of_lt_of_le hv.minRto_pos hv.minRto_le
        have hmax := lt_of_lt_of_le hinit hv.maxRto_ge
        have hpow : 0 < config.initialRtoMs * 2 ^ min (satSucc8 c2.zeroWindowProbes) 16 :=
          Nat.mul_pos hinit (Nat.two_pow_pos _)
        split_ifs
        · exact not_due_satAdd hlt (by unfold satMul maxU64; omega)
        · exact not_due_none t
    rcases c.zeroWindowProbe_cases t with ⟨x, hx, hp, h⟩ | ⟨hno, ⟨hq, h⟩ | ⟨hq, h⟩⟩ <;> rw [h]
    · have hpay : c.hasProbePayload = true := hasProbePayload_iff.2 (.inr ⟨x, hx, hp⟩)
      exact hafter _ _ hwork.1 rfl rfl rfl hpay hpay
    · refine .idle fun nowMs hn => ?_
      rcases ((hdue nowMs).1 hn).1 with hp | hp
      · rcases hasProbePayload_iff.1 hp with hp | ⟨x, hx, hp⟩
        · exact hp hq
        · exact hp (hno x hx)
      · exact h2 hp
    · refine hafter _ _ hwork.1 rfl rfl rfl (hasProbePayload_iff.2 (.inr
        ⟨⟨c.sendNxt, Flags.ACK.union .PSH, c.sendQueue.take 1, t, 1⟩, List.mem_append_right _ (List.mem_singleton.2 rfl), ?_⟩))
        (hasProbePayload_iff.2 (.inl hq))
      have := List.length_pos_of_ne_nil hq
      intro hn
      have := congrArg List.length hn
      simp only [List.length_take, List.length_nil] at this; omega
  · exact .idle fun nowMs hn => h1 ((hdue nowMs).1 hn).2

/-- **The retransmission part of a poll.** -/
theorem pollTimeout_cases (hv : config.Valid) (ht : c.Timed config) (hm : 0 < c.mss) {t : ℕ}
    (hclose : ¬ Due t c.closeDeadline) (hwork : ¬ c.ProbeWork) {oldest : TrackedSegment} {rest : List TrackedSegment}
    (hu : c.unacked = oldest :: rest) (htime : satAdd oldest.sentAtMs c.rtt.timeoutMs ≤ t)
    (hleft : oldest.transmissions < config.maxRetransmissions.toNat) :
    Polled config t c ((c.pollTimeout t).1, .open (c.pollTimeout t).2) := by
  have hdue : ∀ nowMs, Due t (c.nextPollAt nowMs config) := fun nowMs => by
    rw [due_nextPollAt, transportDeadline_flight hwork, hu]
    exact .inr (due_some.2 htime)
  unfold pollTimeout
  simp only
  generalize hc1 : ({ c with
    rtoRecoveryUntil := some (c.rtoRecoveryUntil.getD c.sendNxt)
    reno := c.reno.onTimeout (distance c.sendUna c.sendNxt)
    rtt := c.rtt.onTimeout } : Connection P) = c1
  have hu1 : c1.unacked = oldest :: rest := by rw [← hc1]; exact hu
  have hret : c1.retransmitOldest t true =
      ({ c1 with
        rtt := c1.rtt.onRetransmit c1.sendNxt
        unacked := { oldest with sentAtMs := t, transmissions := satSucc8 oldest.transmissions } :: rest
        duplicateAcks := 0 }, some (c1.segmentFor oldest)) := by
    have hb : ¬ c1.maxTransmissions ≤ oldest.transmissions := by
      rw [← hc1]
      show ¬ c.maxTransmissions ≤ oldest.transmissions
      rw [ht.budget]; omega
    unfold retransmitOldest
    simp only [hu1, if_neg hb, if_true]
    rfl
  rw [hret]
  simp only
  generalize hc2 : ({ c1 with
    rtt := c1.rtt.onRetransmit c1.sendNxt
    unacked := { oldest with sentAtMs := t, transmissions := satSucc8 oldest.transmissions } :: rest
    duplicateAcks := 0 } : Connection P) = c2
  have hu2 : c2.unacked = { oldest with sentAtMs := t, transmissions := satSucc8 oldest.transmissions } :: rest := by rw [← hc2]
  have hrtt2 : 0 < c2.rtt.timeoutMs := by
    rw [← hc2, ← hc1]
    exact (ht.rtt.onTimeout hv).pos
  have hsame : c2.remoteWindow = c.remoteWindow ∧ c2.closeDeadline = c.closeDeadline ∧ c2.sendQueue = c.sendQueue ∧
      c2.closeRequested = c.closeRequested ∧ c2.mss = c.mss := by rw [← hc2, ← hc1]; exact ⟨rfl, rfl, rfl, rfl, rfl⟩
  obtain ⟨hw2, hcd2, hq2, hcr2, hm2⟩ := hsame
  have hprobe2 : ¬ c2.ProbeWork := fun ⟨hw, hp⟩ => by
    refine hwork ⟨hw2 ▸ hw, hp.imp (fun h => hcr2 ▸ h) fun h => ?_⟩
    rw [hasProbePayload_iff, hu2, hq2] at h
    rw [hasProbePayload_iff, hu]
    refine h.imp id ?_
    rintro ⟨x, hx, hp⟩
    rcases List.mem_cons.1 hx with rfl | hx
    · exact ⟨oldest, List.mem_cons_self, hp⟩
    · exact ⟨x, List.mem_cons_of_mem _ hx, hp⟩
  obtain ⟨hpre, hrtt3, hw3, hcd3⟩ := flushData_keeps (c := c2) t
  refine .acted _ _ hdue (by simp) (flushData_settled t (hm2 ▸ hm)) fun hlt nowMs => ?_
  have hprobe3 : ¬ (c2.flushData t).1.ProbeWork := fun hp => by
    -- with a closed window the flush sends nothing
    have hset := (settled_of_window (hw3.symm.trans hp.1)).flushData t
    rw [hset] at hp
    exact hprobe2 hp
  rw [due_nextPollAt, not_or, hcd3, hcd2, transportDeadline_flight hprobe3]
  refine ⟨hclose, ?_⟩
  obtain ⟨tail, htail⟩ := hpre
  rw [← htail, hu2, List.cons_append, List.head?_cons, Option.map_some, hrtt3]
  exact not_due_satAdd hlt hrtt2

/-- **What a poll does.** It acts exactly when something is due. -/
theorem poll_cases (hv : config.Valid) (ht : c.Timed config) (hs : c.Settled) (hm : 0 < c.mss) (t : ℕ) :
    Polled config t c (c.poll t config) := by
  unfold poll
  split_ifs with h1 h2
  · exact .gone c fun nowMs => due_nextPollAt.2 (.inl (any_due.1 h1))
  · exact pollZeroWindow_cases hv ht (fun h => h1 (any_due.2 h)) h2
  · have hclose : ¬ Due t c.closeDeadline := fun h => h1 (any_due.2 h)
    have hwork : ¬ c.ProbeWork := h2
    split
    · rename_i oldest rest hu
      split_ifs with h3 h4
      · refine .gone c fun nowMs => ?_
        rw [due_nextPollAt, transportDeadline_flight hwork, hu]
        exact .inr (due_some.2 h3)
      · exact pollTimeout_cases hv ht hm hclose hwork hu h3 (Nat.lt_of_not_le h4)
      · rw [hs.flushData]
        refine .idle fun nowMs => ?_
        rw [due_nextPollAt, transportDeadline_flight hwork, hu, not_or]
        exact ⟨hclose, fun h => h3 (due_some.1 h)⟩
    · rename_i hu
      rw [hs.flushData]
      refine .idle fun nowMs => ?_
      rw [due_nextPollAt, transportDeadline_flight hwork, hu, not_or]
      exact ⟨hclose, not_due_none t⟩

theorem poll_settled (hv : config.Valid) (ht : c.Timed config) (hs : c.Settled) (hm : 0 < c.mss) (t : ℕ)
    (hopen : (c.poll t config).2.closed = false) : (c.poll t config).1.Settled := by
  have h := poll_cases hv ht hs hm t
  generalize c.poll t config = result at h hopen
  cases h with
  | idle => exact hs
  | gone c' => cases hopen
  | acted c' segments hdue hout hset => exact hset

end Connection

end FipsTcp
