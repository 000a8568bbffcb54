/-
What the state of a connection says about its other fields.

`Told` is what the segments emitted so far say about a connection: whether its FIN is among them, which bytes they carry, and
that all accepted bytes went ahead of the FIN. `Waiting` is what holds of fields that wait for a state. Both are kept by every
primitive.
- `Socket.known_run`: both after every run, with the invariants of the two halves;
- `Socket.accepted_of_close`: nothing is accepted after a close;
- `state_consistency`: the state tag of every reachable connection against its other fields.
-/
import FipsTcp.Connection.Lifecycle

namespace FipsTcp

open SendWindow Serial

/-! ## What was sent, and in which order -/

/-- byte `i` of the stream is in the segment, under its sequence number -/
def Segment.Carries (isn : U32) (acc : List U8) (i : ℕ) (x : Segment) : Prop :=
  ∃ k < x.payload.length, x.payload[k]? = acc[i]? ∧ x.seq + asU32 k = isn + 1 + asU32 i

theorem Segment.Carries.mono {isn : U32} {acc : List U8} {i : ℕ} {x : Segment} (h : x.Carries isn acc i) (hi : i < acc.length)
    (bytes : List U8) : x.Carries isn (acc ++ bytes) i := by
  obtain ⟨k, hk, hbyte, hseq⟩ := h
  exact ⟨k, hk, by rw [hbyte, List.getElem?_append_left hi], hseq⟩

/-- the sequence number of a stream position -/
theorem pos_succ (isn : U32) (n : ℕ) : pos isn (1 + n) = isn + 1 + asU32 n := (asU32_add isn 1 n).symm

namespace Connection

variable {P : Type} {config : Config} {nowMs : ℕ} {inp : Option Segment} {isn : U32} {acc : List U8} {sent out : List Segment}
  {c c' : Connection P}

/-- the FIN of the stream `acc` -/
def EndsStream (isn : U32) (acc : List U8) (x : Segment) : Prop := x.seq = isn + 1 + asU32 acc.length ∧ x.payload = []

/-- what the segments emitted so far say about the connection -/
structure Told (isn : U32) (acc : List U8) (sent : List Segment) (c : Connection P) : Prop where
  fin_iff : (∃ x ∈ sent, x.flags.contains .FIN = true) ↔ c.state.phase.finSent = true
  carried : ∀ i, i + c.sendQueue.length < acc.length → ∃ x ∈ sent, x.Carries isn acc i
  ahead : ∀ (n : ℕ) (fin : Segment), sent[n]? = some fin → fin.flags.contains .FIN = true →
    EndsStream isn acc fin ∧ ∀ i < acc.length, ∃ m < n, ∃ x : Segment, sent[m]? = some x ∧ x.Carries isn acc i

/-- more segments, each FIN among them after the whole stream -/
theorem Told.append (h : Told isn acc sent c)
    (hfin : (∃ x ∈ out, x.flags.contains .FIN = true) ∨ c.state.phase.finSent = true ↔ c'.state.phase.finSent = true)
    (hcarried : ∀ i, i + c'.sendQueue.length < acc.length →
      i + c.sendQueue.length < acc.length ∨ ∃ x ∈ out, x.Carries isn acc i)
    (hend : ∀ x ∈ out, x.flags.contains .FIN = true → EndsStream isn acc x ∧ c.sendQueue = []) :
    Told isn acc (sent ++ out) c' := by
  refine ⟨?_, fun i hi => ?_, fun n fin hn hf => ?_⟩
  · rw [← hfin, ← h.fin_iff]
    constructor
    · rintro ⟨x, hx, hf⟩
      exact (List.mem_append.1 hx).elim (fun hx => .inr ⟨x, hx, hf⟩) fun hx => .inl ⟨x, hx, hf⟩
    · rintro (⟨x, hx, hf⟩ | ⟨x, hx, hf⟩)
      · exact ⟨x, List.mem_append_right _ hx, hf⟩
      · exact ⟨x, List.mem_append_left _ hx, hf⟩
  · rcases hcarried i hi with hi | ⟨x, hx, hc⟩
    · obtain ⟨x, hx, hc⟩ := h.carried i hi
      exact ⟨x, List.mem_append_left _ hx, hc⟩
    · exact ⟨x, List.mem_append_right _ hx, hc⟩
  · rcases Nat.lt_or_ge n sent.length with hlt | hge
    · rw [List.getElem?_append_left hlt] at hn
      obtain ⟨hend, hall⟩ := h.ahead n fin hn hf
      refine ⟨hend, fun i hi => ?_⟩
      obtain ⟨m, hm, x, hx, hc⟩ := hall i hi
      exact ⟨m, hm, x, by rw [List.getElem?_append_left (hm.trans hlt)]; exact hx, hc⟩
    · -- the FIN is new: everything went out before
      rw [List.getElem?_append_right hge] at hn
      obtain ⟨he, hq⟩ := hend fin (List.mem_of_getElem? hn) hf
      refine ⟨he, fun i hi => ?_⟩
      obtain ⟨x, hx, hc⟩ := h.carried i (by rw [hq]; exact hi)
      obtain ⟨m, hm, hget⟩ := List.mem_iff_getElem.1 hx
      exact ⟨m, by omega, x, by rw [List.getElem?_append_left hm, List.getElem?_eq_getElem hm, hget], hc⟩

/-- segments without a FIN, and nothing taken from the queue -/
theorem Told.quiet (h : Told isn acc sent c) (hst : c'.state.phase.finSent = c.state.phase.finSent)
    (hq : c'.sendQueue = c.sendQueue) (hout : ∀ x ∈ out, x.flags.contains .FIN = false) : Told isn acc (sent ++ out) c' := by
  have hno : ¬ ∃ x ∈ out, x.flags.contains .FIN = true := fun ⟨x, hx, hf⟩ => by rw [hout x hx] at hf; cases hf
  refine h.append ?_ (fun i hi => .inl (by rw [← hq]; exact hi)) fun x hx hf => by rw [hout x hx] at hf; cases hf
  rw [hst]
  exact or_iff_right hno

theorem queue_eq_drop (hs : c.SendInv config isn acc) : c.sendQueue = acc.drop (acc.length - c.sendQueue.length) := by
  have hrest : bytes c.sender.flight ++ c.sendQueue = acc.drop c.sendProgress.ackedPayloadBytes := hs.sender.rest
  have hsum : c.sendProgress.ackedPayloadBytes + (bytes c.sender.flight).length + c.sendQueue.length = acc.length := hs.sender.sum
  rw [show acc.length - c.sendQueue.length = c.sendProgress.ackedPayloadBytes + (bytes c.sender.flight).length by omega,
    ← List.drop_drop, ← hrest, List.drop_left]

/-- the bytes that leave the queue are carried -/
theorem Told.sendQueued (h : Told isn acc sent c) (hs : c.SendInv config isn acc) (hrun : c.state.phase = .running) (count : ℕ)
    (hq : count ≤ c.sendQueue.length) : Told isn acc (sent ++ [(c.sendQueued count nowMs).2]) (c.sendQueued count nowMs).1 := by
  have hflags : (c.sendQueued count nowMs).2.flags = Flags.ACK.union .PSH := rfl
  refine h.append ?_ (fun i hi => ?_) fun x hx hf => ?_
  · simp only [List.mem_singleton, exists_eq_left, hflags, data_flags.2, Bool.false_eq_true, false_or]; rfl
  · rcases Nat.lt_or_ge (i + c.sendQueue.length) acc.length with hlt | hge
    · exact .inl hlt
    right
    have hlen : c.sendQueue.length ≤ acc.length := hs.sender.queue_le
    have hi' : i + (c.sendQueue.length - count) < acc.length := by
      have hd : (c.sendQueued count nowMs).1.sendQueue.length = c.sendQueue.length - count := List.length_drop
      rwa [hd] at hi
    obtain ⟨b, hb, hdrop⟩ : ∃ b, b = acc.length - c.sendQueue.length ∧ c.sendQueue = acc.drop b := ⟨_, rfl, queue_eq_drop hs⟩
    have hnxt : c.sendNxt = isn + 1 + asU32 b := by
      have hn : c.sendNxt = pos isn (c.sender.nxtPos acc) := hs.sender.nxt
      have hp : c.sender.nxtPos acc = 1 + b := by
        simp only [Sender.nxtPos, sender, hrun, Phase.finSent, Bool.toNat_false, Nat.add_zero, hb]
      rw [hn, hp, pos_succ]
    have hget : c.sendQueue[i - b]? = acc[i]? := by
      rw [hdrop, List.getElem?_drop]
      congr 1; omega
    refine ⟨_, List.mem_singleton_self _, i - b, ?_, ?_, ?_⟩
    · change _ < (c.sendQueue.take count).length
      rw [List.length_take]; omega
    · change (c.sendQueue.take count)[_]? = _
      rw [List.getElem?_take_of_lt (by omega), hget]
    · change c.sendNxt + _ = _
      rw [hnxt, asU32_add]
      congr 2; omega
  · rw [List.mem_singleton.1 hx, hflags, data_flags.2] at hf; cases hf

/-- the oldest segment again: a FIN in flight is the last position of the stream -/
theorem Told.retransmitOldest (h : Told isn acc sent c) (hs : c.SendInv config isn acc) (timeout : Bool) :
    Told isn acc (sent ++ (c.retransmitOldest nowMs timeout).2.toList) (c.retransmitOldest nowMs timeout).1 := by
  have hsend := c.retransmitOldest_sender nowMs timeout
  have hphase := congrArg Sender.phase hsend
  have hqueue := congrArg Sender.queue hsend
  simp only [sender] at hphase hqueue
  rcases c.retransmitOldest_cases nowMs timeout with heq | ⟨tracked, rest, transmissions, dups, hu, -, heq⟩
  · rw [heq]
    exact h.quiet rfl rfl (List.forall_mem_nil _)
  · rw [heq] at hphase hqueue ⊢
    have hmem : tracked.piece ∈ c.sender.flight := List.mem_map_of_mem (by rw [hu]; exact List.mem_cons_self)
    have hflags : (c.segmentFor tracked).flags = tracked.flags := rfl
    have hclosing : tracked.flags.contains .FIN = true → c.state.phase = .closing := hs.sender.fin_phase hmem
    refine h.append ?_ (fun i hi => .inl hi) fun x hx hf => ?_
    · simp only [Option.toList, List.mem_singleton, exists_eq_left, hflags]
      refine or_iff_right_of_imp fun hf => ?_
      rw [hclosing hf]; rfl
    · have hx' : x = c.segmentFor tracked := by simpa using hx
      subst hx'
      rw [hflags] at hf
      obtain ⟨q, -, -, hat⟩ := hs.sender.chain.mem hmem
      have hpay : tracked.payload = [] := hs.sender.fin_payload _ hmem hf
      have hq := hat.fin hf
      simp only [TrackedSegment.piece, hpay, List.length_nil, Nat.add_zero] at hq
      refine ⟨⟨?_, hpay⟩, (hs.sender.idle (by rw [show c.sender.phase = _ from hclosing hf]; decide)).1⟩
      change tracked.seq = _
      rw [← pos_succ, show 1 + acc.length = q by omega]
      exact hat.seq

/-- the FIN, which goes out when the queue is empty -/
theorem Told.sendFin (h : Told isn acc sent c) (hs : c.SendInv config isn acc) (hst : c.Sending) (hq : c.sendQueue = []) :
    Told isn acc (sent ++ [(c.sendFin nowMs).2]) (c.sendFin nowMs).1 := by
  have hflags : (c.sendFin nowMs).2.flags = Flags.FIN.union .ACK := rfl
  have hphase : (c.sendFin nowMs).1.state.phase = .closing := congrArg Sender.phase (c.sendFin_sender nowMs)
  refine h.append ?_ (fun i hi => .inl hi) fun x hx hf => ⟨⟨?_, ?_⟩, hq⟩
  · simp only [List.mem_singleton, exists_eq_left, hflags, fin_flags.2, true_or, hphase]
    exact iff_of_true trivial rfl
  · rw [List.mem_singleton.1 hx]
    change c.sendNxt = _
    have hn : c.sendNxt = pos isn (c.sender.nxtPos acc) := hs.sender.nxt
    have hrun : c.state.phase = .running := hst.phase
    rw [hn, ← pos_succ]
    simp only [Sender.nxtPos, sender, hrun, Phase.finSent, Bool.toNat_false, Nat.add_zero, hq, List.length_nil, Nat.sub_zero]
  · rw [List.mem_singleton.1 hx]; rfl

/-- **The history**, one primitive. -/
theorem Move.told (hm : Move config nowMs inp c out c') (hs : c.SendInv config isn acc) (h : Told isn acc sent c) :
    Told isn acc (sent ++ out) c' := by
  have hnil : ∀ x ∈ ([] : List Segment), x.flags.contains .FIN = false := List.forall_mem_nil _
  have hone : ∀ {x : Segment}, x.flags.contains .FIN = false → ∀ y ∈ [x], y.flags.contains .FIN = false := fun hx y hy => by
    rw [List.mem_singleton.1 hy]; exact hx
  cases hm with
  | establishClient segment hin hst =>
    have hst' := (c.establishClient_frame segment nowMs config).2.2.2
    have hq : (c.establishClient segment nowMs config).sendQueue = c.sendQueue :=
      congrArg Sender.queue (establishClient_sender hs.sender (by norm_num) hst segment nowMs config)
    exact h.quiet (by rw [hst', hst]; rfl) hq hnil
  | establishServer segment hin hst =>
    have hst' := (c.establishServer_frame segment nowMs).2.2.2
    have hq : (c.establishServer segment nowMs).sendQueue = c.sendQueue :=
      congrArg Sender.queue (establishServer_sender hs.sender (by norm_num) hst segment nowMs)
    exact h.quiet (by rw [hst', hst]; rfl) hq hnil
  | window segment =>
    have hsend := c.updateRemoteWindow_sender segment.window nowMs
    exact h.quiet (congrArg (fun s : Sender 32 U8 => s.phase.finSent) hsend) (congrArg Sender.queue hsend) hnil
  | timers => exact h.quiet rfl rfl hnil
  | retransmit timeout => exact h.retransmitOldest hs timeout
  | advanceAck c' segment ack hin hrst hack hst hadv hc =>
    have hsend := (afterAck_sender hs.sender (by norm_num) hst hadv nowMs config).2 c' hc
    refine h.quiet ?_ (congrArg Sender.queue hsend) hnil
    rcases afterAck_state nowMs config hc with hst' | ⟨h1, h2⟩ | ⟨h1, h2⟩
    · rw [hst']
    · rw [h1, h2]; rfl
    · rw [h1, h2]; rfl
  | receive segment =>
    have hsend := c.receiveStreamData_sender segment nowMs config
    exact h.quiet (congrArg (fun s : Sender 32 U8 => s.phase.finSent) hsend) (congrArg Sender.queue hsend)
      (hone (ack_flags.2 : Flags.ACK.contains .FIN = false))
  | sendData count hst h0 hallow hmss hq => exact h.sendQueued hs hst.phase count hq
  | sendFin hst hclose hq hallow => exact h.sendFin hs hst hq
  | probe hwin =>
    rcases c.zeroWindowProbe_cases nowMs with ⟨x, -, -, heq⟩ | ⟨-, ⟨-, heq⟩ | ⟨hq, heq⟩⟩ <;> rw [heq]
    · exact h.quiet rfl rfl (hone (data_flags.2 : (Flags.ACK.union .PSH).contains .FIN = false))
    · exact h.quiet rfl rfl hnil
    · have hrun : c.state.phase = .running := by
        by_contra hn
        exact hq (hs.sender.idle hn).1
      exact h.sendQueued hs hrun 1 (List.length_pos_of_ne_nil hq)
  | ack => exact h.quiet rfl rfl (hone (ack_flags.2 : Flags.ACK.contains .FIN = false))
  | reset segment =>
    refine h.quiet rfl rfl (hone ?_)
    unfold resetFor
    cases segment.ack with
    | none => exact (by decide : (Flags.RST.union .ACK).contains .FIN = false)
    | some ack => exact (by decide : Flags.RST.contains .FIN = false)
  | requestClose => exact h.quiet rfl rfl hnil

/-! ## Fields that wait for a state -/

/-- nothing is read before the handshake is over, and a closing connection has its deadline -/
structure Waiting (c : Connection P) : Prop where
  opening : c.state.phase = .opening → c.recvQueue = []
  finWait2 : c.state = .finWait2 → c.finWait2UntilMs.isSome = true
  timeWait : c.state = .timeWait → c.timeWaitUntilMs.isSome = true

theorem Waiting.later (h : c.Waiting) (hl : Later config nowMs inp c c')
    (hr : c.state.phase = .opening → c'.state.phase = .opening → c'.recvQueue = c.recvQueue) : c'.Waiting := by
  refine ⟨fun hp => ?_, fun hs => ?_, fun hs => ?_⟩
  · have hrank : c'.state.rank = 0 := by revert hp; cases c'.state <;> simp [State.phase, State.rank]
    have hp0 : c.state.phase = .opening := by
      rcases hl.state with h | h
      · rw [← h]; exact hp
      · omega
    rw [hr hp0 hp]
    exact h.opening hp0
  · rcases hl.finWait2 hs with ⟨h1, h2⟩ | ⟨-, -, h2⟩
    · rw [h2]; exact h.finWait2 h1
    · rw [h2]; rfl
  · rcases hl.timeWait hs with ⟨h1, h2⟩ | ⟨-, -, h2⟩
    · rw [h2]; exact h.timeWait h1
    · rw [h2]; rfl

theorem Move.waiting (hm : Move config nowMs inp c out c') (h : c.Waiting) : c'.Waiting := by
  have hsync : c.Synchronized → c.state.phase ≠ .opening := synchronized_iff.1
  refine h.later hm.later fun hp hp' => ?_
  cases hm with
  | establishClient segment => rw [(c.establishClient_frame segment nowMs config).2.2.2] at hp'; cases hp'
  | establishServer segment => rw [(c.establishServer_frame segment nowMs).2.2.2] at hp'; cases hp'
  | window segment => exact congrArg Receiver.recvQueue (c.updateRemoteWindow_frame segment.window nowMs).1
  | retransmit timeout => exact congrArg Receiver.recvQueue (c.retransmitOldest_frame nowMs timeout).1
  | advanceAck c' segment ack hin hrst hack hst => exact absurd hp (hsync hst)
  | receive segment hin hst => exact absurd hp (hsync hst)
  | probe =>
    rcases c.zeroWindowProbe_cases nowMs with ⟨x, -, -, h⟩ | ⟨-, ⟨-, h⟩ | ⟨-, h⟩⟩ <;> exact congrArg (·.1.recvQueue) h
  | timers | sendData | sendFin | ack | reset | requestClose => rfl

/-- a close was asked for, or the FIN was sent: nothing more is accepted -/
def Refusing (c : Connection P) : Prop := c.closeRequested = true ∨ c.state.phase.finSent = true

theorem Refusing.write (h : c.Refusing) (bytes : List U8) (nowMs : ℕ) (config : Config) :
    c.write bytes nowMs config = .error (.invalidState c.state) := by
  unfold Connection.write
  refine if_pos ?_
  rcases h with h | h
  · exact .inr h
  · left
    rintro (hs | hs) <;> rw [hs] at h <;> cases h

theorem Move.refusing (hm : Move config nowMs inp c out c') (hs : c.SendInv config isn acc) (h : c.Refusing) : c'.Refusing := by
  have hstep := hm.sender_step hs
  have hmono := (hstep.mono hs.sender).2
  have hwant : c'.closeRequested = c.closeRequested ∨ c'.closeRequested = true ∨ c'.state.phase.finSent = true := by
    change c'.sender.closeWanted = c.sender.closeWanted ∨ c'.sender.closeWanted = true ∨ c'.sender.phase.finSent = true
    generalize c'.sender = s' at hstep
    cases hstep with
    | idle | ack | push => exact .inl rfl
    | pushFin => exact .inr (.inr rfl)
    | wantClose => exact .inr (.inl rfl)
  rcases h with h | h
  · rcases hwant with hw | hw | hw
    · exact .inl (hw.trans h)
    · exact .inl hw
    · exact .inr hw
  · exact .inr (hmono h)

end Connection

/-! ## Reachable connections -/

namespace Socket

open Connection

variable {P : Type} {config : Config} {s : Socket P}

/-- what is known of a connection and its history after every run -/
structure Known (config : Config) (isn : U32) (acc : List U8) (sent : List Segment) (c : Connection P) : Prop where
  inv : Inv config isn acc c
  told : Told isn acc sent c
  waiting : c.Waiting

theorem known_opening (hv : config.Valid) (o : Opening P) :
    Known config o.isn [] (o.socket config).sent (o.socket config).conn := by
  have htold : ∀ (c : Connection P) (x : Segment), c.state.phase = .opening → x.flags.contains .FIN = false →
      Told o.isn [] [x] c := fun c x hp hx => by
    refine ⟨?_, (fun i hi => absurd hi (Nat.not_lt_zero _)), fun n fin hn hf => ?_⟩
    · simp [hp, hx, Phase.finSent]
    · rw [List.mem_singleton.1 (List.mem_of_getElem? hn), hx] at hf; cases hf
  have hwait : ∀ c : Connection P, c.state.phase = .opening → c.recvQueue = [] → c.Waiting := fun c hp hq =>
    ⟨fun _ => hq, (fun hs => by rw [hs] at hp; cases hp), fun hs => by rw [hs] at hp; cases hp⟩
  refine ⟨⟨o.sendInv hv, o.recvInv⟩, ?_, ?_⟩
  all_goals cases o with
  | client => first | exact htold _ _ rfl (by decide : Flags.SYN.contains .FIN = false) | exact hwait _ rfl rfl
  | server peer syn isn nowMs token =>
    obtain ⟨hr, -, -, hst⟩ := (Connection.new peer syn.dstPort syn.srcPort .synReceived isn (syn.seq + 1) config
      token).updateRemoteWindow_frame syn.window nowMs
    have hp : ((Connection.new peer syn.dstPort syn.srcPort .synReceived isn (syn.seq + 1) config token).updateRemoteWindow
      syn.window nowMs).state.phase = .opening := by rw [hst]; rfl
    first
      | exact htold _ _ hp (by decide : (Flags.SYN.union .ACK).contains .FIN = false)
      | exact hwait _ hp (congrArg Receiver.recvQueue hr)

/-- **The history, over any run.** -/
theorem known_run (o : Opening P) (hv : config.Valid) (ops : List SocketOp) (hr : (run config o ops).retained = true) :
    Known config o.isn (run config o ops).accepted (run config o ops).sent (run config o ops).conn := by
  refine Run.exec_invariant (P := fun s : Socket P => s.retained = true → Known config o.isn s.accepted s.sent s.conn)
    (fun s op hs hr => ?_) (fun _ => known_opening hv o) ops hr
  refine step_history (Q := fun acc sent c => Known config o.isn acc sent c) (fun hq => hq.inv.send.mss)
    (fun hm hq => ⟨hq.inv.move hv hm, hm.told hq.inv.send hq.told, hm.waiting hq.waiting⟩)
    (fun {acc sent c bytes} hq hst hclose hroom => ⟨⟨hq.inv.send.accept hst hroom, hq.inv.recv.of_frame rfl rfl id rfl⟩, ?_,
      ⟨hq.waiting.opening, hq.waiting.finWait2, hq.waiting.timeWait⟩⟩)
    (fun count hq => ⟨⟨⟨hq.inv.send.sender, hq.inv.send.window, hq.inv.send.mss, hq.inv.send.buffer⟩, hq.inv.recv.consume count⟩,
      ⟨hq.told.fin_iff, hq.told.carried, hq.told.ahead⟩, ⟨fun hp => by simp [consume, hq.waiting.opening hp],
        hq.waiting.finWait2, hq.waiting.timeWait⟩⟩) hs op hr
  -- what is accepted is accepted before the FIN
  have hno : ¬ ∃ x ∈ sent, x.flags.contains .FIN = true := fun h => by
    have hf := hq.told.fin_iff.1 h
    rw [show c.state.phase = .running from hst.phase] at hf; cases hf
  have hlen : c.sendQueue.length ≤ acc.length := hq.inv.send.sender.queue_le
  refine ⟨hq.told.fin_iff, fun i hi => ?_, fun n fin hn hf => absurd ⟨fin, List.mem_of_getElem? hn, hf⟩ hno⟩
  simp only [acceptBytes, List.length_append] at hi
  obtain ⟨x, hx, hc⟩ := hq.told.carried i (by omega)
  exact ⟨x, hx, hc.mono (by omega) bytes⟩

/-- once it refuses, a connection accepts nothing more -/
theorem accepted_of_refusing (isn : U32) (s : Socket P)
    (hs : s.retained = true → s.conn.SendInv config isn s.accepted ∧ s.conn.Refusing) (ops : List SocketOp) :
    (Run.exec (step config) s ops).accepted = s.accepted := by
  refine (Run.exec_invariant (P := fun s' : Socket P => s'.accepted = s.accepted ∧
    (s'.retained = true → s'.conn.SendInv config isn s'.accepted ∧ s'.conn.Refusing)) (fun s' op hs' => ⟨?_, fun hr => ?_⟩)
    ⟨rfl, hs⟩ ops).1
  · cases hret : s'.retained with
    | false => rw [(step_removed config hret op).2.1]; exact hs'.1
    | true =>
      rw [← hs'.1]
      cases op with
      | write bytes nowMs => simp only [step, onWrite, hret, if_true, (hs'.2 hret).2.write bytes nowMs config]
      | input segment nowMs => simp only [step, onInput, hret, if_true]
      | read max => simp only [step, onRead, hret, if_true]
      | close nowMs => simp only [step, onUpdate, hret, if_true]
      | abort => simp only [step, onAbort, hret, if_true]
      | poll nowMs => simp only [step, onUpdate, hret, if_true]
  · refine step_history (Q := fun acc _ c => SendInv config isn acc c ∧ c.Refusing) (fun hq => hq.1.mss)
      (fun hm hq => ⟨hm.sendInv hq.1, hm.refusing hq.1 hq.2⟩) (fun hq hst hclose => ?_)
      (fun count hq => ⟨⟨hq.1.sender, hq.1.window, hq.1.mss, hq.1.buffer⟩, hq.2⟩) hs'.2 op hr
    rcases hq.2 with h | h
    · rw [hclose] at h; cases h
    · have hrun := hst.phase
      simp only [sender] at hrun
      rw [hrun] at h; cases h

/-- after a close nothing is accepted -/
theorem accepted_of_close (isn : U32) (s : Socket P) (hs : s.retained = true → s.conn.SendInv config isn s.accepted)
    (nowMs : ℕ) (ops : List SocketOp) : (Run.exec (step config) (s.step config (.close nowMs)) ops).accepted = s.accepted := by
  have hacc : (s.step config (.close nowMs)).accepted = s.accepted := by simp only [step, onUpdate]; split_ifs <;> rfl
  rw [← hacc]
  refine accepted_of_refusing isn _ (fun hr => ?_) ops
  have hret := retained_before hr
  have hsend := hs hret
  rw [hacc]
  simp only [step, onUpdate, hret, if_true] at hr ⊢
  have hmoves := (close_moves config nowMs hsend.mss).1
  refine ⟨hsend.moves hmoves, ?_⟩
  have hflush : s.conn.Sending → ({ s.conn with closeRequested := true }.flushData nowMs).1.Refusing := fun hst => by
    have hreq : Move config nowMs none s.conn [] { s.conn with closeRequested := true } := .requestClose s.conn hst
    exact ((flushData_moves config nowMs none (c := { s.conn with closeRequested := true }) hsend.mss).preserves
      (Q := fun c => SendInv config isn s.accepted c ∧ c.Refusing)
      (fun hm hq => ⟨hm.sendInv hq.1, hm.refusing hq.1 hq.2⟩) ⟨hreq.sendInv hsend, .inl rfl⟩).2
  unfold Connection.close at hr ⊢
  split at hr <;> rename_i hst
  · exact hflush (.inl hst)
  · exact hflush (.inr hst)
  · cases hr
  · cases hr
  · refine .inr ?_
    cases hs : s.conn.state <;> simp_all [State.phase, Phase.finSent]

end Socket

/-! ## The state tag and the other fields -/

namespace Connection

variable {P : Type} {c : Connection P} {isn : U32} {limit : ℕ} {acc : List U8}

theorem opening_iff_syn (h : c.sender.Inv isn limit acc) :
    c.state.phase = .opening ↔ ∃ x, c.unacked = [x] ∧ x.flags.contains .SYN = true := by
  have hs : c.state.phase.Shape (c.unacked.map TrackedSegment.piece) := h.shape
  constructor
  · intro hp
    rw [hp] at hs
    obtain ⟨y, hy, hsyn⟩ := hs
    obtain ⟨x, hx, rfl⟩ := List.map_eq_singleton_iff.1 hy
    exact ⟨x, hx, hsyn.syn⟩
  · rintro ⟨x, hx, hf⟩
    have hmem : x.piece ∈ c.unacked.map TrackedSegment.piece := by rw [hx]; exact List.mem_singleton_self _
    cases hp : c.state.phase with
    | opening => rfl
    | running => rw [hp] at hs; exact absurd (hs _ hmem).syn (by rw [show x.piece.syn = true from hf]; decide)
    | closing =>
      rw [hp] at hs
      obtain ⟨ds, f, hl, hds, hfin⟩ := hs
      rw [hl, List.mem_append, List.mem_singleton] at hmem
      rcases hmem with hmem | hmem
      · exact absurd (hds _ hmem).syn (by rw [show x.piece.syn = true from hf]; decide)
      · exact absurd (hmem ▸ hfin.syn) (by rw [show x.piece.syn = true from hf]; decide)
    | closed => rw [hp] at hs; rw [show c.unacked.map TrackedSegment.piece = [] from hs] at hmem; cases hmem

theorem closing_iff_fin (h : c.sender.Inv isn limit acc) :
    c.state.phase = .closing ↔ ∃ x, c.unacked.getLast? = some x ∧ x.flags.contains .FIN = true := by
  constructor
  · intro hp
    have hs : c.state.phase.Shape (c.unacked.map TrackedSegment.piece) := h.shape
    rw [hp] at hs
    obtain ⟨ds, f, hl, -, hfin⟩ := hs
    obtain ⟨front, last, hu, -, hlast⟩ := List.map_eq_append_iff.1 hl
    obtain ⟨x, rfl, rfl⟩ := List.map_eq_singleton_iff.1 hlast
    exact ⟨x, by rw [hu, List.getLast?_concat], hfin.fin⟩
  · rintro ⟨x, hx, hf⟩
    exact h.fin_phase (List.mem_map_of_mem (List.mem_of_getLast? hx)) hf

end Connection

/-- the state tag of a retained connection and its other fields; `isn` is the initial sequence number of its side -/
structure StateConsistent {P : Type} (config : Config) (isn : U32) (s : Socket P) : Prop where
  /-- the handshake is under way while the SYN is all that is in flight -/
  syn : (s.conn.state = .synSent ∨ s.conn.state = .synReceived) ↔
    ∃ x, s.conn.unacked = [x] ∧ x.flags.contains .SYN = true
  opening : (s.conn.state = .synSent ∨ s.conn.state = .synReceived) →
    s.conn.sendQueue = [] ∧ s.conn.recvQueue = [] ∧ s.conn.closeRequested = false
  finSent : (∃ x ∈ s.sent, x.flags.contains .FIN = true) ↔
    s.conn.state ∈ [.finWait1, .finWait2, .closing, .lastAck, .timeWait]
  finInFlight : (∃ x, s.conn.unacked.getLast? = some x ∧ x.flags.contains .FIN = true) ↔
    s.conn.state ∈ [.finWait1, .closing, .lastAck]
  drained : s.conn.state ∈ [.finWait2, .timeWait] → s.conn.unacked = [] ∧ s.conn.sendQueue = []
  readClosed : s.conn.readClosed = true ↔ s.conn.state ∈ [.closeWait, .closing, .lastAck, .timeWait]
  closeRequested : s.conn.closeRequested = true → s.conn.state ∈ [.established, .closeWait]
  finWait2 : s.conn.state = .finWait2 → s.conn.finWait2UntilMs.isSome = true
  timeWait : s.conn.state = .timeWait → s.conn.timeWaitUntilMs.isSome = true
  /-- every FIN follows the last accepted byte, and each of these bytes went out in an earlier segment -/
  finLast : ∀ (n : ℕ) (fin : Segment), s.sent[n]? = some fin → fin.flags.contains .FIN = true →
    fin.seq = isn + 1 + asU32 s.accepted.length ∧
      ∀ i < s.accepted.length, ∃ m < n, ∃ x : Segment, s.sent[m]? = some x ∧ x.Carries isn s.accepted i
  /-- once a close was asked for or a FIN went out, no write is accepted -/
  refused : (s.conn.closeRequested = true ∨ ∃ x ∈ s.sent, x.flags.contains .FIN = true) →
    ∀ bytes nowMs, s.conn.write bytes nowMs config = .error (.invalidState s.conn.state)

/-- **The states of a connection.** After any run against any peer the state tag of a retained connection agrees with its
queues, its marks and its deadlines; the accepted bytes went ahead of the FIN, and nothing is accepted after a close. -/
theorem state_consistency {P : Type} (config : ValidConfig) (o : Opening P) (ops : List SocketOp)
    (hr : (Socket.run config.1 o ops).retained = true) :
    StateConsistent config.1 o.isn (Socket.run config.1 o ops) ∧
      ∀ nowMs more, (Socket.run config.1 o (ops ++ .close nowMs :: more)).accepted = (Socket.run config.1 o ops).accepted := by
  have hk := Socket.known_run o config.valid ops hr
  refine ⟨?_, fun nowMs more => ?_⟩
  · generalize Socket.run config.1 o ops = s at hk
    have hsend := hk.inv.send.sender
    have hphase : ∀ p, s.conn.state.phase = p → s.conn.sender.phase = p := fun _ h => h
    have hidle : s.conn.state.phase ≠ .running → s.conn.sendQueue = [] ∧ s.conn.closeRequested = false := hsend.idle
    have hopening : (s.conn.state = .synSent ∨ s.conn.state = .synReceived) ↔ s.conn.state.phase = .opening := by
      cases s.conn.state <;> simp [State.phase]
    refine ⟨?_, fun h => ?_, ?_, ?_, fun h => ?_, ?_, fun h => ?_, hk.waiting.finWait2, hk.waiting.timeWait,
      fun n fin hn hf => ?_, fun h => ?_⟩
    · rw [hopening]; exact Connection.opening_iff_syn hsend
    · have hp := hopening.1 h
      obtain ⟨hq, hc⟩ := hidle (by rw [hp]; decide)
      exact ⟨hq, hk.waiting.opening hp, hc⟩
    · rw [hk.told.fin_iff]
      cases s.conn.state <;> simp [State.phase, Phase.finSent]
    · rw [← Connection.closing_iff_fin hsend]
      cases s.conn.state <;> simp [State.phase]
    · have hp : s.conn.state.phase = .closed := by revert h; cases s.conn.state <;> simp [State.phase]
      have hflight : s.conn.state.phase.Shape (s.conn.unacked.map TrackedSegment.piece) := hsend.shape
      rw [hp] at hflight
      exact ⟨List.map_eq_nil_iff.1 hflight, (hidle (by rw [hp]; decide)).1⟩
    · rw [← hk.inv.recv.done]
      cases s.conn.state <;> simp [State.peerDone]
    · by_contra hn
      have hp : s.conn.state.phase ≠ .running := by revert hn; cases s.conn.state <;> simp [State.phase]
      rw [(hidle hp).2] at h; cases h
    · exact ⟨(hk.told.ahead n fin hn hf).1.1, (hk.told.ahead n fin hn hf).2⟩
    · exact fun bytes nowMs => Connection.Refusing.write (h.imp_right hk.told.fin_iff.1) bytes nowMs config.1
  · rw [show Socket.run config.1 o (ops ++ .close nowMs :: more) = _ from Run.exec_append _ _ _, Run.exec_cons]
    exact Socket.accepted_of_close o.isn _ (fun _ => hk.inv.send) nowMs more

/-- a client that writes two bytes and closes; its peer takes them with the FIN -/
def closingRun : List SocketOp :=
  [.input { Segment.new 80 9000 700 with
      ack := some 101
      flags := Flags.SYN.union .ACK
      options := [.maxSegmentSize 1000, .fipsVersion FIPS_VERSION 0] } 5,
    .write [1, 2] 6, .close 7,
    .input { Segment.new 80 9000 701 with ack := some 104, flags := .ACK } 8]

theorem state_consistency_closing :
    StateConsistent Config.default 100 (Socket.run Config.default (.client () 9000 80 100 0 0) closingRun) ∧
      ∀ nowMs more, (Socket.run Config.default (.client () 9000 80 100 0 0) (closingRun ++ .close nowMs :: more)).accepted =
        (Socket.run Config.default (.client () 9000 80 100 0 0) closingRun).accepted :=
  state_consistency ⟨Config.default, Config.default_validate⟩ (.client () 9000 80 100 0 0) closingRun (by decide)

example : (Socket.run Config.default (.client () 9000 80 100 0 0) closingRun).conn.state = .finWait2 := by decide

end FipsTcp
