/-
The operations of the two connections side by side: segments, calls and timers.

Each theorem says that an operation keeps the numeric ranges, and that the TypeScript method on `toTsBy` of the connection ends
in `toTsBy` of the new one, with a Reno that agrees, and answers the same.
-/
import FipsTcp.Lockstep.Connection

namespace FipsTcp

open Number

namespace Connection

/-! ## Receiving -/

section Receiving

variable (c : Connection Ts.JsString) (dl : Deadlines) (reno : Ts.Reno) (token : ℕ) {config : Config} {nowMs : ℕ}

theorem toTsBy_enterTimeWait (hclock : dl.Fits config nowMs) :
    (c.toTsBy dl reno token).enterTimeWait nowMs config.toTs = (c.enterTimeWait nowMs config).toTsBy dl reno token := by
  have htime : Ts.deadlineAfter nowMs config.toTs.timeWaitMs = _ := hclock.timeWait
  simp only [Ts.Connection.enterTimeWait, enterTimeWait, htime]
  rfl

theorem toTsBy_onRemoteFin (hclock : dl.Fits config nowMs) :
    (c.toTsBy dl reno token).onRemoteFin nowMs config.toTs = (c.onRemoteFin nowMs config).toTsBy dl reno token := by
  have hstate : (c.toTsBy dl reno token).state = c.state := rfl
  simp only [Ts.Connection.onRemoteFin, onRemoteFin, hstate]
  cases c.state with
  | finWait2 => exact toTsBy_enterTimeWait { c with readClosed := true } dl reno token hclock
  | _ => rfl

theorem toTsBy_receivedChunk (seq : U32) (payload : List U8) (fin : Bool) :
    (c.toTsBy dl reno token).receivedChunk seq.toNat payload fin =
      (c.receivedChunk seq payload fin).map ReassemblySegment.toTs := by
  have hdrop : ∀ n, (if payload.length ≤ n then [] else payload.drop n) = payload.drop n := fun n => by
    split_ifs with h
    · exact (List.drop_eq_nil_of_le h).symm
    · rfl
  have hstart : (if before seq c.recvNxt then c.recvNxt.toNat else seq.toNat) =
      (if before seq c.recvNxt then c.recvNxt else seq).toNat := (apply_ite BitVec.toNat _ _ _).symm
  unfold Ts.Connection.receivedChunk receivedChunk
  rw [show (c.toTsBy dl reno token).recvNxt = c.recvNxt.toNat from rfl]
  simp only [ts_before, ts_distance, hdrop, hstart, toTsBy_availableWindow, ts_after]
  generalize (if before seq c.recvNxt then c.recvNxt else seq) = start
  generalize (if before seq c.recvNxt then payload.drop (distance seq c.recvNxt) else payload) = data
  have hend : decide (Ts.u32 (seq.toNat + payload.length) = Ts.u32 (start.toNat + data.length)) =
      decide (seq + asU32 payload.length = start + asU32 data.length) := by
    rw [ts_u32, ts_u32, decide_eq_decide, BitVec.toNat_inj]
  simp only [hend, List.length_eq_zero_iff, Bool.not_eq_true]
  split_ifs <;> rfl

theorem toTsBy_insertReceived (seq : U32) (payload : List U8) (fin : Bool) :
    (c.toTsBy dl reno token).insertReceived seq.toNat payload fin config.toTs =
      (c.insertReceived seq payload fin config).toTsBy dl reno token := by
  unfold Ts.Connection.insertReceived insertReceived
  rw [toTsBy_receivedChunk]
  cases c.receivedChunk seq payload fin with
  | none => rfl
  | some chunk =>
    have hany : ((c.toTsBy dl reno token).reassembly.any fun existing =>
        existing.seq == chunk.toTs.seq && Ts.reassemblyEnd existing == Ts.reassemblyEnd chunk.toTs) =
        c.reassembly.any fun existing => existing.seq == chunk.seq && existing.endSeq == chunk.endSeq := by
      have hword : ∀ x y : U32, (x.toNat == y.toNat) = (x == y) := fun x y => by
        rw [Bool.eq_iff_iff, beq_iff_eq, beq_iff_eq, BitVec.toNat_inj]
      simp only [toTsBy, toTs, List.any_map, Function.comp_def, ReassemblySegment.toTs_end]
      simp only [ReassemblySegment.toTs, hword]
    have hlen : (c.toTsBy dl reno token).reassembly.length = c.reassembly.length := List.length_map _
    simp only [Option.map_some, hany, hlen]
    rw [show config.toTs.maxReassemblySegments = config.maxReassemblySegments from rfl]
    split_ifs
    · rfl
    · simp only [toTsBy, toTs, List.map_append, List.map_cons, List.map_nil]
    · rfl

theorem toTs_keepChunk (recvNxt : U32) (segment : ReassemblySegment) :
    Ts.Connection.keepChunk recvNxt.toNat segment.toTs = keepChunk recvNxt segment := by
  have hnext : segment.endSeq.toNat = Ts.u32 (recvNxt.toNat + 1) ↔ segment.endSeq = recvNxt + 1 := by
    rw [ts_u32_succ, BitVec.toNat_inj]
  rw [Ts.Connection.keepChunk, keepChunk, decide_eq_decide, ReassemblySegment.toTs_end, ts_beforeOrEqual, hnext, not_and_or,
    not_not]
  rfl

theorem toTs_dueChunk (recvNxt : U32) (segment : ReassemblySegment) :
    Ts.Connection.dueChunk recvNxt.toNat segment.toTs = dueChunk recvNxt segment := by
  rw [Ts.Connection.dueChunk, dueChunk, decide_eq_decide]
  exact or_congr BitVec.toNat_inj (ts_before _ _)

theorem toTs_trimChunk (recvNxt : U32) (segment : ReassemblySegment) :
    Ts.Connection.trimChunk recvNxt.toNat segment.toTs = (trimChunk recvNxt segment).toTs := by
  have hdrop : ∀ n, segment.payload.drop (min n segment.payload.length) = segment.payload.drop n := fun n => by
    rcases le_total n segment.payload.length with h | h
    · rw [min_eq_left h]
    · rw [min_eq_right h, List.drop_length, List.drop_eq_nil_of_le h]
  unfold Ts.Connection.trimChunk trimChunk
  simp only [ReassemblySegment.toTs, ts_before, ts_distance, hdrop]
  split_ifs <;> rfl

theorem toTsBy_deliverChunk (hq : c.recvQueue.length ≤ config.receiveBuffer) (hclock : dl.Fits config nowMs)
    (segment : ReassemblySegment) :
    (c.toTsBy dl reno token).deliverChunk segment.toTs nowMs config.toTs =
      ((c.deliverChunk segment nowMs config).1.toTsBy dl reno token, (c.deliverChunk segment nowMs config).2) := by
  let accepted := min (config.receiveBuffer - c.recvQueue.length) segment.payload.length
  have hacc : min ((config.toTs.receiveBuffer : ℤ) - (c.toTsBy dl reno token).recvQueue.length) segment.toTs.payload.length =
      (accepted : ℤ) := by
    change min ((config.receiveBuffer : ℤ) - c.recvQueue.length) segment.payload.length = _
    omega
  have hsplit : Ts.relativeIndex segment.toTs.payload.length (accepted : ℤ) = accepted := by
    rw [Ts.relativeIndex, if_neg (by omega), Int.toNat_natCast]
    exact min_eq_left (min_le_right _ _)
  have hnext : toUint32 ((c.toTsBy dl reno token).recvNxt + (accepted : ℤ)) = (c.recvNxt + asU32 accepted).toNat :=
    toUint32_add c.recvNxt accepted
  unfold Ts.Connection.deliverChunk deliverChunk
  simp only [hacc, hsplit, hnext]
  rw [show segment.toTs.payload = segment.payload from rfl, show segment.toTs.fin = segment.fin from rfl]
  by_cases hrest : segment.payload.drop accepted = []
  · rw [if_neg (not_not.2 hrest), if_neg (by rw [hrest]; exact lt_irrefl 0)]
    by_cases hf : segment.fin = true
    · rw [if_pos hf, if_pos hf]
      rw [show (c.toTsBy dl reno token).recvQueue = c.recvQueue from rfl]
      refine Prod.ext ?_ rfl
      simp only [ts_u32_succ]
      exact toTsBy_onRemoteFin { c with
        recvQueue := c.recvQueue ++ segment.payload.take accepted
        recvNxt := c.recvNxt + asU32 accepted + 1 } dl reno token hclock
    · rw [if_neg hf, if_neg hf]
      rfl
  · rw [if_pos hrest, if_pos (List.length_pos_iff.2 hrest)]
    refine Prod.ext ?_ rfl
    simp only [toTsBy, toTs, List.map_append, List.map_cons, List.map_nil]
    rfl

theorem toTsBy_drainOnce (hq : c.recvQueue.length ≤ config.receiveBuffer) (hclock : dl.Fits config nowMs) :
    (c.toTsBy dl reno token).drainOnce nowMs config.toTs =
      ((c.drainOnce nowMs config).1.toTsBy dl reno token, (c.drainOnce nowMs config).2) := by
  have hkeep : Ts.Connection.keepChunk c.recvNxt.toNat ∘ ReassemblySegment.toTs = keepChunk c.recvNxt :=
    funext (toTs_keepChunk c.recvNxt)
  have hdue : Ts.Connection.dueChunk c.recvNxt.toNat ∘ ReassemblySegment.toTs = dueChunk c.recvNxt :=
    funext (toTs_dueChunk c.recvNxt)
  have hkept : (c.toTsBy dl reno token).reassembly.filter (Ts.Connection.keepChunk c.recvNxt.toNat) =
      (c.reassembly.filter (keepChunk c.recvNxt)).map ReassemblySegment.toTs := by rw [toTsBy, toTs, List.filter_map, hkeep]
  unfold Ts.Connection.drainOnce drainOnce
  rw [show (c.toTsBy dl reno token).recvNxt = c.recvNxt.toNat from rfl]
  simp only [hkept, List.find?_map, List.eraseP_map, hdue]
  cases (c.reassembly.filter (keepChunk c.recvNxt)).find? (dueChunk c.recvNxt) with
  | none => rfl
  | some segment =>
    simp only [Option.map_some, toTs_trimChunk]
    exact toTsBy_deliverChunk
      { c with reassembly := (c.reassembly.filter (keepChunk c.recvNxt)).eraseP (dueChunk c.recvNxt) } dl reno token hq hclock _

/-- the receive queue stays within the receive buffer -/
theorem drainOnce_queue (hq : c.recvQueue.length ≤ config.receiveBuffer) :
    (c.drainOnce nowMs config).1.recvQueue.length ≤ config.receiveBuffer := by
  rcases c.drainOnce_cases nowMs config with ⟨kept, -, -, h⟩ | ⟨x, l₁, l₂, -, -, -, h⟩ <;> rw [h]
  · exact hq
  · have hfin : ∀ c : Connection Ts.JsString, (c.onRemoteFin nowMs config).recvQueue = c.recvQueue := fun c =>
      congrArg Receiver.recvQueue (onRemoteFin_receiver c nowMs config)
    unfold deliverChunk
    simp only
    split_ifs <;> simp only [hfin, List.length_append, List.length_take] <;> omega

theorem toTsBy_drainLoop (hq : c.recvQueue.length ≤ config.receiveBuffer) (hclock : dl.Fits config nowMs) (fuel : ℕ) :
    Ts.Connection.drainLoop nowMs config.toTs fuel (c.toTsBy dl reno token) = (drainLoop nowMs config fuel c).toTsBy dl reno token := by
  induction fuel generalizing c with
  | zero => rfl
  | succ fuel ih =>
    have hnext : (c.drainOnce nowMs config).1.recvQueue.length ≤ config.receiveBuffer := drainOnce_queue c hq
    rw [Ts.Connection.drainLoop, drainLoop, toTsBy_drainOnce c dl reno token hq hclock]
    rcases hd : c.drainOnce nowMs config with ⟨c1, go⟩
    rw [hd] at hnext
    cases go with
    | true => exact ih c1 hnext
    | false => rfl

theorem receiveStreamData_lockstep (hb : c.Bounds config) (hclock : dl.Fits config nowMs) (segment : Segment) :
    (c.receiveStreamData segment nowMs config).1.Bounds config ∧
      (c.receiveStreamData segment nowMs config).1.reno = c.reno ∧
      (c.toTsBy dl reno token).receiveStreamData segment.toTs nowMs config.toTs =
        ((c.receiveStreamData segment nowMs config).1.toTsBy dl reno token,
          (c.receiveStreamData segment nowMs config).2.map Segment.toTs) := by
  have hout := (receiveStreamData_outgoing c segment nowMs config).1
  obtain ⟨hmss, hwindow, hstable⟩ := outgoing_frame hout
  have hkeep : ∀ c' : Connection Ts.JsString, c'.outgoing = c.outgoing → c'.rtt = c.rtt ∧ c'.reno = c.reno := fun c' h =>
    ⟨(congrArg Connection.rtt h : c'.outgoing.rtt = _), (congrArg Connection.reno h : c'.outgoing.reno = _)⟩
  obtain ⟨hrtt, hreno⟩ := hkeep _ hout
  let inserted := c.insertReceived segment.seq segment.payload (segment.flags.contains .FIN) config
  have hq : inserted.recvQueue.length ≤ config.receiveBuffer := by
    rcases c.insertReceived_cases segment.seq segment.payload (segment.flags.contains .FIN) config with
      h | ⟨chunk, -, -, h⟩ <;> simp only [inserted, h] <;> exact hb.queue
  have hqueue : (inserted.drainReassembly nowMs config).recvQueue.length ≤ config.receiveBuffer :=
    drainReassembly_invariant (I := fun c => c.recvQueue.length ≤ config.receiveBuffer) (fun c => drainOnce_queue c) hq
  refine ⟨⟨hrtt ▸ hb.rtt, hrtt ▸ hb.rtos, hmss ▸ hb.mss, hwindow ▸ hb.window,
    (congrArg Stable.maxTransmissions hstable).trans hb.budget, hqueue⟩, hreno, ?_⟩
  have hdrain : (inserted.toTsBy dl reno token).drainReassembly nowMs config.toTs =
      (inserted.drainReassembly nowMs config).toTsBy dl reno token := by
    have hlen : (inserted.toTsBy dl reno token).reassembly.length = inserted.reassembly.length := List.length_map _
    rw [Ts.Connection.drainReassembly, hlen]
    exact toTsBy_drainLoop inserted dl reno token hq hclock _
  have hfin : segment.toTs.flags.has Ts.Flags.Fin = segment.flags.contains .FIN := segment.flags.toTs_names.1
  have hack := toTsBy_ackSegment (inserted.drainReassembly nowMs config) dl reno token (hmss ▸ hb.mss)
  simp only [Ts.Connection.receiveStreamData, hfin]
  rw [show segment.toTs.seq = segment.seq.toNat from rfl, show segment.toTs.payload = segment.payload from rfl,
    toTsBy_insertReceived, hdrain, hack]
  rfl

theorem receiveIfData_lockstep (hb : c.Bounds config) (hclock : dl.Fits config nowMs) (segment : Segment) :
    (c.receiveIfData segment nowMs config).1.Bounds config ∧ (c.receiveIfData segment nowMs config).1.reno = c.reno ∧
      (c.toTsBy dl reno token).receiveIfData segment.toTs nowMs config.toTs =
        ((c.receiveIfData segment nowMs config).1.toTsBy dl reno token,
          (c.receiveIfData segment nowMs config).2.map Segment.toTs) := by
  have hiff : (0 < segment.toTs.payload.length ∨ segment.toTs.flags.has Ts.Flags.Fin) ↔
      (segment.payload ≠ [] ∨ segment.flags.contains .FIN) :=
    or_congr List.length_pos_iff (by simp only [Segment.toTs, Flags.toTs_names])
  unfold Ts.Connection.receiveIfData receiveIfData
  simp only [hiff]
  split_ifs
  · exact receiveStreamData_lockstep c dl reno token hb hclock segment
  · exact ⟨hb, rfl, rfl⟩

end Receiving

/-! ## Corresponding connections -/

/-- a TypeScript connection in the place of a Rust one, both within the numeric ranges -/
structure Corresponds (config : Config) (token : ℕ) (c : Connection Ts.JsString) (t : Ts.Connection) : Prop where
  bounds : c.Bounds config
  twin : ∃ reno, c.reno.Agrees reno ∧ t = c.toTs reno token

/-- the same, with the deadlines as they are held -/
structure Follows (dl : Deadlines) (config : Config) (token : ℕ) (c : Connection Ts.JsString) (t : Ts.Connection) : Prop where
  bounds : c.Bounds config
  twin : ∃ reno, c.reno.Agrees reno ∧ t = c.toTsBy dl reno token

theorem follows_exact {config : Config} {token : ℕ} {c : Connection Ts.JsString} {t : Ts.Connection} :
    Follows .exact config token c t ↔ Corresponds config token c t := by
  refine ⟨fun ⟨hb, reno, hr, ht⟩ => ⟨hb, reno, hr, ?_⟩, fun ⟨hb, reno, hr, ht⟩ => ⟨hb, reno, hr, ?_⟩⟩
  · rw [ht, toTsBy_exact]
  · rw [ht, toTsBy_exact]

section Steps

variable {dl : Deadlines} {config : Config} {token nowMs : ℕ} {c : Connection Ts.JsString} {t : Ts.Connection}

theorem flushData_ranges (c : Connection Ts.JsString) (nowMs : ℕ) :
    (c.flushData nowMs).1.reno = c.reno ∧ (c.flushData nowMs).1.mss = c.mss ∧
      (c.flushData nowMs).1.remoteWindow = c.remoteWindow ∧ (c.flushData nowMs).1.rtt = c.rtt := by
  have hloop := flushLoop_ranges nowMs c.sendQueue.length c
  unfold flushData flushFin
  simp only
  split_ifs
  · exact hloop
  · exact hloop
  · exact ⟨rfl, rfl, rfl, rfl⟩

theorem Follows.flushData (h : Follows dl config token c t) (nowMs : ℕ) :
    Follows dl config token (c.flushData nowMs).1 (t.flushData nowMs).1 ∧
      (t.flushData nowMs).2 = (c.flushData nowMs).2.map Segment.toTs := by
  obtain ⟨hb, reno, hr, rfl⟩ := h
  obtain ⟨h1, h2, h3, h4⟩ := flushData_ranges c nowMs
  obtain ⟨h5, h6⟩ := c.flushData_frame nowMs
  have h7 : (c.flushData nowMs).1.recvQueue = c.recvQueue := congrArg Receiver.recvQueue h5
  rw [toTsBy_flushData hr hb.mss hb.window]
  refine ⟨⟨⟨h4 ▸ hb.rtt, h4 ▸ hb.rtos, h2 ▸ hb.mss, h3 ▸ hb.window, ?_, h7 ▸ hb.queue⟩, reno, h1 ▸ hr, rfl⟩, rfl⟩
  exact (congrArg Stable.maxTransmissions h6).trans hb.budget

theorem Follows.receiveIfData (h : Follows dl config token c t) (hclock : dl.Fits config nowMs) (segment : Segment) :
    Follows dl config token (c.receiveIfData segment nowMs config).1 (t.receiveIfData segment.toTs nowMs config.toTs).1 ∧
      (t.receiveIfData segment.toTs nowMs config.toTs).2 = (c.receiveIfData segment nowMs config).2.map Segment.toTs := by
  obtain ⟨hb, reno, hr, rfl⟩ := h
  obtain ⟨h1, h2, h3⟩ := receiveIfData_lockstep c dl reno token hb hclock segment
  rw [h3]
  exact ⟨⟨h1, reno, h2 ▸ hr, rfl⟩, rfl⟩

theorem Follows.updateRemoteWindow (h : Follows dl config token c t) (hclock : dl.Fits config nowMs) (window : U16) :
    Follows dl config token (c.updateRemoteWindow window nowMs) (t.updateRemoteWindow window.toNat nowMs) := by
  obtain ⟨hb, reno, hr, rfl⟩ := h
  have hle := c.updateRemoteWindow_le window nowMs
  rw [toTsBy_updateRemoteWindow hb.rtt hclock]
  unfold Connection.updateRemoteWindow at hle ⊢
  split_ifs at hle ⊢ <;> exact ⟨⟨hb.rtt, hb.rtos, hb.mss, hle, hb.budget, hb.queue⟩, reno, hr, rfl⟩

theorem Follows.negotiateMss (h : Follows dl config token c t) (segment : Segment) :
    Follows dl config token (c.negotiateMss segment config) (t.negotiateMss segment.toTs config.toTs) := by
  obtain ⟨hb, reno, hr, rfl⟩ := h
  obtain ⟨reno', hr', he⟩ : ∃ reno', (c.negotiateMss segment config).reno.Agrees reno' ∧
      (c.toTsBy dl reno token).negotiateMss segment.toTs config.toTs = (c.negotiateMss segment config).toTsBy dl reno' token :=
    toTsBy_negotiateMss hr segment
  have hmss : (c.negotiateMss segment config).mss ≤ 65535 := by
    have := config.mss.isLt
    change max (min _ config.mss.toNat) 1 ≤ 65535
    omega
  exact ⟨⟨hb.rtt, hb.rtos, hmss, hb.window, hb.budget, hb.queue⟩, reno', hr', he⟩

theorem Follows.applyAck (h : Follows dl config token c t) (hv : config.Shared) (hs : c.SampleSafe nowMs) (ack : U32)
    (duplicate : Bool) :
    Follows dl config token (c.applyAck ack nowMs duplicate).1 (t.applyAck ack.toNat nowMs duplicate).1 ∧
      (t.applyAck ack.toNat nowMs duplicate).2 = (c.applyAck ack nowMs duplicate).2.toTs := by
  obtain ⟨hb, reno, hr, rfl⟩ := h
  obtain ⟨hb', reno', hr', he⟩ := applyAck_lockstep hv hb hr hs ack duplicate
  exact ⟨⟨hb', reno', hr', congrArg Prod.fst he⟩, congrArg Prod.snd he⟩

theorem Follows.retransmitOldest (h : Follows dl config token c t) (nowMs : ℕ) (timeout : Bool) :
    Follows dl config token (c.retransmitOldest nowMs timeout).1 (t.retransmitOldest nowMs timeout).1 ∧
      (t.retransmitOldest nowMs timeout).2 = (c.retransmitOldest nowMs timeout).2.map Segment.toTs := by
  obtain ⟨hb, reno, hr, rfl⟩ := h
  obtain ⟨hb', hr'⟩ := hb.retransmitOldest nowMs timeout
  rw [toTsBy_retransmitOldest c dl reno token hb.mss]
  exact ⟨⟨hb', reno, hr'.symm ▸ hr, rfl⟩, rfl⟩

theorem Follows.ackSegment (h : Follows dl config token c t) : t.ackSegment = c.ackSegment.toTs := by
  obtain ⟨hb, reno, hr, rfl⟩ := h
  exact c.toTsBy_ackSegment dl reno token hb.mss

theorem Follows.fields (h : Follows dl config token c t) :
    t.state = c.state ∧ t.sendUna = c.sendUna.toNat ∧ t.sendNxt = c.sendNxt.toNat ∧ t.recvNxt = c.recvNxt.toNat ∧
      t.remoteWindow = c.remoteWindow ∧ t.unacked = c.unacked.map TrackedSegment.toTs := by
  obtain ⟨-, reno, -, rfl⟩ := h
  exact ⟨rfl, rfl, rfl, rfl, rfl, rfl⟩

theorem Follows.move (h : Follows dl config token c t) (state : State) (recvNxt : U32) :
    Follows dl config token { c with state, recvNxt } { t with state, recvNxt := recvNxt.toNat } := by
  obtain ⟨hb, reno, hr, rfl⟩ := h
  exact ⟨⟨hb.rtt, hb.rtos, hb.mss, hb.window, hb.budget, hb.queue⟩, reno, hr, rfl⟩

theorem Follows.enterTimeWait (h : Follows dl config token c t) (hclock : dl.Fits config nowMs) :
    Follows dl config token (c.enterTimeWait nowMs config) (t.enterTimeWait nowMs config.toTs) := by
  obtain ⟨hb, reno, hr, rfl⟩ := h
  exact ⟨⟨hb.rtt, hb.rtos, hb.mss, hb.window, hb.budget, hb.queue⟩, reno, hr, toTsBy_enterTimeWait c dl reno token hclock⟩

theorem Follows.enterFinWait2 (h : Follows dl config token c t) (hclock : dl.Fits config nowMs) :
    Follows dl config token { c with state := .finWait2, finWait2UntilMs := some (satAdd nowMs config.finWait2Ms) }
      { t with state := .finWait2, finWait2UntilMs := some (Ts.deadlineAfter nowMs config.toTs.finWait2Ms) } := by
  have htime : Ts.deadlineAfter nowMs config.toTs.finWait2Ms = _ := hclock.finWait2
  rw [htime]
  obtain ⟨hb, reno, hr, rfl⟩ := h
  exact ⟨⟨hb.rtt, hb.rtos, hb.mss, hb.window, hb.budget, hb.queue⟩, reno, hr, rfl⟩

/-! ## Incoming segments -/

theorem Follows.onReset (h : Follows dl config token c t) (segment : Segment) :
    t.onReset segment.toTs = (c.onReset segment).toTs := by
  have hack := h.ackSegment
  obtain ⟨hb, reno, hr, rfl⟩ := h
  have hwindow : (c.toTsBy dl reno token).availableWindow = c.availableWindow := c.toTsBy_availableWindow dl reno token
  unfold Ts.Connection.onReset onReset Ts.resetAction
  simp only [hwindow, hack]
  rw [show (c.toTsBy dl reno token).state = c.state from rfl]
  by_cases hs : c.state = .synSent
  · rw [if_pos hs, if_pos hs]
    rw [show segment.toTs.ack = segment.ack.map (·.toNat) from rfl]
    cases segment.ack with
    | none => rfl
    | some ack =>
      have hiff : (Ts.after ack.toNat (c.toTsBy dl reno token).sendUna ∧ ¬ Ts.after ack.toNat (c.toTsBy dl reno token).sendNxt) ↔
          (after ack c.sendUna ∧ ¬ after ack c.sendNxt) := and_congr (ts_after _ _) (not_congr (ts_after _ _))
      simp only [Option.map_some, hiff]
      split_ifs <;> rfl
  · rw [if_neg hs, if_neg hs]
    have hseq : segment.toTs.seq = (c.toTsBy dl reno token).recvNxt ↔ segment.seq = c.recvNxt := BitVec.toNat_inj
    have hdist : Ts.distance (c.toTsBy dl reno token).recvNxt segment.toTs.seq = distance c.recvNxt segment.seq := ts_distance _ _
    simp only [hseq, hdist]
    split_ifs <;> rfl

theorem some_ack_iff (segment : Segment) (ack : U32) : segment.toTs.ack = some ack.toNat ↔ segment.ack = some ack := by
  change segment.ack.map (·.toNat) = some ack.toNat ↔ _
  cases segment.ack with
  | none => simp
  | some ack' => simp [BitVec.toNat_inj]

theorem Follows.onSynSent (h : Follows dl config token c t) (hv : config.Shared) (hclock : dl.Fits config nowMs)
    (hs : c.SampleSafe nowMs) (segment : Segment) :
    Follows dl config token (c.onSynSent segment nowMs config).1 (t.onSynSent segment.toTs nowMs config.toTs).1 ∧
      (t.onSynSent segment.toTs nowMs config.toTs).2 = (c.onSynSent segment nowMs config).2.toTs := by
  have hiff : (segment.toTs.flags.has Ts.Flags.Syn ∧ segment.toTs.flags.has Ts.Flags.Ack ∧ segment.toTs.ack = some t.sendNxt ∧
      segment.toTs.supportsFipsVersion Ts.FIPS_VERSION) ↔
      (segment.flags.contains .SYN ∧ segment.flags.contains .ACK ∧ segment.ack = some c.sendNxt ∧
        segment.supportsFipsVersion FIPS_VERSION) := by
    rw [h.fields.2.2.1, some_ack_iff, Segment.toTs_supportsFipsVersion, show segment.toTs.flags = segment.flags.toTs from rfl]
    simp only [Flags.toTs_names]
  unfold Ts.Connection.onSynSent Connection.onSynSent establishClient
  simp only [hiff]
  split_ifs
  · have h1 := (h.updateRemoteWindow hclock segment.window).negotiateMss segment
    have hsafe : ((c.updateRemoteWindow segment.window nowMs).negotiateMss segment config).SampleSafe nowMs := by
      unfold Connection.updateRemoteWindow
      split_ifs <;> exact hs
    have hnxt := h1.fields.2.2.1
    have hwindow : segment.toTs.window = segment.window.toNat := rfl
    obtain ⟨h2, -⟩ := h1.applyAck hv hsafe ((c.updateRemoteWindow segment.window nowMs).negotiateMss segment config).sendNxt false
    have h3 := h2.move .established (segment.seq + 1)
    simp only [hwindow, hnxt]
    rw [show segment.toTs.seq = segment.seq.toNat from rfl, ts_u32_succ]
    exact ⟨h3, congrArg (fun ack => Ts.openUpdate [ack]) h3.ackSegment⟩
  · exact ⟨h, rfl⟩

theorem Follows.onSynReceived (h : Follows dl config token c t) (hv : config.Shared) (hclock : dl.Fits config nowMs)
    (hs : c.SampleSafe nowMs) (segment : Segment) :
    Follows dl config token (c.onSynReceived segment nowMs config).1 (t.onSynReceived segment.toTs nowMs config.toTs).1 ∧
      (t.onSynReceived segment.toTs nowMs config.toTs).2 = (c.onSynReceived segment nowMs config).2.toTs := by
  have hsyn : (segment.toTs.flags.has Ts.Flags.Syn ∧ ¬ segment.toTs.flags.has Ts.Flags.Ack ∧
      Ts.u32 (segment.toTs.seq + 1) = t.recvNxt) ↔
      (segment.flags.contains .SYN ∧ ¬ segment.flags.contains .ACK ∧ segment.seq + 1 = c.recvNxt) := by
    rw [h.fields.2.2.2.1, show segment.toTs.seq = segment.seq.toNat from rfl, ts_u32_succ, BitVec.toNat_inj,
      show segment.toTs.flags = segment.flags.toTs from rfl]
    simp only [Flags.toTs_names]
  have hack : segment.toTs.ack ≠ some t.sendNxt ↔ segment.ack ≠ some c.sendNxt := by
    rw [h.fields.2.2.1, Ne, some_ack_iff]
  unfold Ts.Connection.onSynReceived Connection.onSynReceived establishServer
  simp only [hsyn, hack]
  split_ifs with h1 h2
  · -- the SYN again: the SYN-ACK again
    obtain ⟨h3, h4⟩ := h.retransmitOldest nowMs false
    exact ⟨h3, congrArg Ts.openUpdate ((congrArg Option.toList h4).trans Option.toList_map)⟩
  · exact ⟨h, rfl⟩
  · -- the ACK of the SYN-ACK, and what the segment carries
    obtain ⟨h3, -⟩ := h.applyAck hv hs c.sendNxt false
    have h4 := h3.updateRemoteWindow hclock segment.window
    rw [← h.fields.2.2.1] at h4
    have h5 := h4.move .established ((c.applyAck c.sendNxt nowMs false).1.updateRemoteWindow segment.window nowMs).recvNxt
    rw [← h4.fields.2.2.2.1] at h5
    obtain ⟨h6, h7⟩ := h5.receiveIfData hclock segment
    obtain ⟨h8, h9⟩ := h6.flushData nowMs
    refine ⟨h8, ?_⟩
    exact congrArg (fun out => (⟨out, true, false⟩ : Ts.ConnectionUpdate)) ((congrArg₂ _ h7 h9).trans List.map_append.symm)

theorem Follows.onFinAcked (h : Follows dl config token c t) (hclock : dl.Fits config nowMs) :
    match c.finAcked nowMs config with
    | none => t.onFinAcked nowMs config.toTs = (t, true)
    | some c' => Follows dl config token c' (t.onFinAcked nowMs config.toTs).1 ∧ (t.onFinAcked nowMs config.toTs).2 = false := by
  unfold Ts.Connection.onFinAcked Connection.finAcked
  rw [h.fields.1]
  cases c.state with
  | finWait1 => exact ⟨h.enterFinWait2 hclock, rfl⟩
  | closing => exact ⟨h.enterTimeWait hclock, rfl⟩
  | lastAck => rfl
  | _ => exact ⟨h, rfl⟩

theorem Follows.repairFlight (h : Follows dl config token c t) (previousUna : U32) (nowMs : ℕ) :
    let result := if after c.sendUna previousUna then c.repairTimedOutFlight nowMs config else (c, none)
    Follows dl config token result.1 (t.repairFlight previousUna.toNat nowMs config.toTs).1 ∧
      (t.repairFlight previousUna.toNat nowMs config.toTs).2 = result.2.map Segment.toTs := by
  have hagain := h.retransmitOldest nowMs false
  obtain ⟨-, h2, -, -, h5, h6⟩ := h.fields
  have huntil : t.rtoRecoveryUntil ≠ none ↔ c.rtoRecoveryUntil ≠ none := by
    obtain ⟨-, reno, -, rfl⟩ := h
    exact not_congr Option.map_eq_none_iff
  unfold Ts.Connection.repairFlight repairTimedOutFlight
  rw [h2, h5, h6]
  simp only [huntil, ts_after]
  cases hu : c.unacked with
  | nil =>
    cases c.rtoRecoveryUntil <;> simp only [ite_self] <;> exact ⟨h, rfl⟩
  | cons oldest rest =>
    simp only [List.map_cons, List.head?_cons]
    by_cases ha : after c.sendUna previousUna
    · rw [if_pos ha]
      cases hr : c.rtoRecoveryUntil with
      | none =>
        rw [if_neg fun hc => hc.2.1 rfl]
        exact ⟨h, rfl⟩
      | some until_ =>
        have hiff : (after c.sendUna previousUna ∧ some until_ ≠ none ∧ 0 < c.remoteWindow ∧
            oldest.toTs.transmissions < config.toTs.maxRetransmissions) ↔
            ¬ (c.remoteWindow = 0 ∨ config.maxRetransmissions.toNat ≤ oldest.transmissions) := by
          change (_ ∧ _ ∧ _ ∧ oldest.transmissions < config.maxRetransmissions.toNat) ↔ _
          rw [not_or, not_le, Nat.pos_iff_ne_zero]
          exact ⟨fun hc => hc.2.2, fun hc => ⟨ha, Option.some_ne_none _, hc⟩⟩
        simp only [hiff, ite_not]
        split_ifs
        · exact ⟨h, rfl⟩
        · exact hagain
    · rw [if_neg ha, if_neg fun hc => ha hc.1]
      exact ⟨h, rfl⟩

theorem Follows.isDuplicate (h : Follows dl config token c t) (segment : Segment) :
    Ts.isDuplicateAckCandidate segment.toTs t.sendUna t.remoteWindow =
      isDuplicateAckCandidate segment c.sendUna c.remoteWindow := by
  have hack : (segment.toTs.ack == some c.sendUna.toNat) = (segment.ack == some c.sendUna) := by
    rw [Bool.eq_iff_iff, beq_iff_eq, beq_iff_eq, some_ack_iff]
  have hpayload : (segment.payload.length == 0) = segment.payload.isEmpty := by cases segment.payload <;> rfl
  rw [h.fields.2.1, h.fields.2.2.2.2.1, Ts.isDuplicateAckCandidate, isDuplicateAckCandidate, hack,
    show segment.toTs.payload = segment.payload from rfl, hpayload, show segment.toTs.flags = segment.flags.toTs from rfl]
  simp only [Flags.toTs_names]
  rfl

theorem Follows.onAck (h : Follows dl config token c t) (hv : config.Shared) (hclock : dl.Fits config nowMs)
    (hs : c.SampleSafe nowMs) (segment : Segment) (ack : U32) :
    Follows dl config token (c.processAck segment ack nowMs config).1 (t.onAck segment.toTs ack.toNat nowMs config.toTs).1 ∧
      (t.onAck segment.toTs ack.toNat nowMs config.toTs).2 =
        ((c.processAck segment ack nowMs config).2.1, (c.processAck segment ack nowMs config).2.2.map Segment.toTs) := by
  unfold Ts.Connection.onAck Connection.processAck
  have hdup := h.isDuplicate segment
  rw [h.fields.2.1] at hdup
  simp only [h.fields.2.1, hdup]
  obtain ⟨h1, h2⟩ := h.applyAck hv hs ack (isDuplicateAckCandidate segment c.sendUna c.remoteWindow)
  generalize c.applyAck ack nowMs (isDuplicateAckCandidate segment c.sendUna c.remoteWindow) = result at h1 h2
  generalize t.applyAck ack.toNat nowMs (isDuplicateAckCandidate segment c.sendUna c.remoteWindow) = tresult at h1 h2
  obtain ⟨c1, outcome⟩ := result
  obtain ⟨t1, _⟩ := tresult
  obtain rfl : _ = outcome.toTs := h2
  have hout : outcome.toTs.retransmit.toList = outcome.retransmit.toList.map Segment.toTs := by
    exact Option.toList_map
  have hfin := h1.onFinAcked hclock
  simp only [hout, show outcome.toTs.finAcked = outcome.finAcked from rfl] at hfin ⊢
  -- the FIN acknowledged: the state moves on, or the connection is removed
  have hstate : match (if outcome.finAcked then c1.finAcked nowMs config else some c1) with
      | none => (if outcome.finAcked then t1.onFinAcked nowMs config.toTs else (t1, false)) = (t1, true)
      | some c2 => Follows dl config token c2 (if outcome.finAcked then t1.onFinAcked nowMs config.toTs else (t1, false)).1 ∧
          (if outcome.finAcked then t1.onFinAcked nowMs config.toTs else (t1, false)).2 = false := by
    split_ifs
    · exact hfin
    · exact ⟨h1, rfl⟩
  generalize (if outcome.finAcked then t1.onFinAcked nowMs config.toTs else (t1, false)) = tstate at hstate
  cases hc : (if outcome.finAcked then c1.finAcked nowMs config else some c1) with
  | none =>
    rw [hc] at hstate
    simp only at hstate
    subst hstate
    exact ⟨h1, rfl⟩
  | some c2 =>
    rw [hc] at hstate
    obtain ⟨t2, _⟩ := tstate
    obtain ⟨h3, rfl⟩ := hstate
    simp only [Bool.false_eq_true, if_false] at h3 ⊢
    have h4 : Follows dl config token
        (if inClosedInterval ack c2.sendUna c2.sendNxt then c2.updateRemoteWindow segment.window nowMs else c2)
        (if Ts.inClosedInterval ack.toNat t2.sendUna t2.sendNxt then t2.updateRemoteWindow segment.toTs.window nowMs else t2) := by
      rw [h3.fields.2.1, h3.fields.2.2.1]
      simp only [ts_inClosedInterval]
      split_ifs
      · exact h3.updateRemoteWindow hclock segment.window
      · exact h3
    obtain ⟨h5, h6⟩ := h4.repairFlight c.sendUna nowMs
    generalize (if inClosedInterval ack c2.sendUna c2.sendNxt then c2.updateRemoteWindow segment.window nowMs else c2) = c3
      at h5 h6
    generalize (if Ts.inClosedInterval ack.toNat t2.sendUna t2.sendNxt then t2.updateRemoteWindow segment.toTs.window nowMs
      else t2) = t3 at h5 h6
    by_cases ha : after c3.sendUna c.sendUna
    · rw [if_pos ha] at h5 h6
      rw [if_pos ha, h6, Option.toList_map]
      exact ⟨h5, congrArg (Prod.mk false) List.map_append.symm⟩
    · rw [if_neg ha] at h5 h6
      rw [if_neg ha, h6]
      exact ⟨h5, congrArg (Prod.mk false) (List.append_nil _)⟩

/-- the end of `on_segment`, after the ACK part -/
theorem Follows.finish {result : Connection Ts.JsString × Bool × List Segment} {tresult : Ts.Connection × Bool × List Ts.Segment}
    (h : Follows dl config token result.1 tresult.1) (hout : tresult.2 = (result.2.1, result.2.2.map Segment.toTs))
    (hclock : dl.Fits config nowMs) (segment : Segment) :
    let after := if result.2.1 then (result.1, Update.close result.2.2)
      else
        let (c2, received) := result.1.receiveIfData segment nowMs config
        let (c3, flushed) := c2.flushData nowMs
        (c3, .open (result.2.2 ++ received ++ flushed))
    let tafter := if tresult.2.1 then (tresult.1, Ts.closeUpdate tresult.2.2)
      else
        let (t2, received) := tresult.1.receiveIfData segment.toTs nowMs config.toTs
        let (t3, flushed) := t2.flushData nowMs
        (t3, Ts.openUpdate (tresult.2.2 ++ received ++ flushed))
    Follows dl config token after.1 tafter.1 ∧ tafter.2 = after.2.toTs := by
  simp only [hout]
  split_ifs
  · exact ⟨h, rfl⟩
  · obtain ⟨h1, h2⟩ := h.receiveIfData hclock segment
    obtain ⟨h3, h4⟩ := h1.flushData nowMs
    refine ⟨h3, congrArg Ts.openUpdate ?_⟩
    rw [h2, h4, ← List.map_append, ← List.map_append]
    rfl

theorem Follows.onSynchronized (h : Follows dl config token c t) (hv : config.Shared) (hclock : dl.Fits config nowMs)
    (hs : c.SampleSafe nowMs) (segment : Segment) :
    Follows dl config token (c.onSynchronized segment nowMs config).1 (t.onSynchronized segment.toTs nowMs config.toTs).1 ∧
      (t.onSynchronized segment.toTs nowMs config.toTs).2 = (c.onSynchronized segment nowMs config).2.toTs := by
  unfold Ts.Connection.onSynchronized Connection.onSynchronized
  rw [show segment.toTs.ack = segment.ack.map (·.toNat) from rfl]
  cases segment.ack with
  | none =>
    have h0 : Follows dl config token (c, false, ([] : List Segment)).1 (t, false, ([] : List Ts.Segment)).1 := h
    exact h0.finish rfl hclock segment
  | some ack =>
    obtain ⟨h1, h2⟩ := h.onAck hv hclock hs segment ack
    exact h1.finish h2 hclock segment

theorem Follows.onSegment (h : Follows dl config token c t) (hv : config.Shared) (hclock : dl.Fits config nowMs)
    (hs : c.SampleSafe nowMs) (segment : Segment) :
    Follows dl config token (c.onSegment segment nowMs config).1 (t.onSegment segment.toTs nowMs config.toTs).1 ∧
      (t.onSegment segment.toTs nowMs config.toTs).2 = (c.onSegment segment nowMs config).2.toTs := by
  have hrst : segment.toTs.flags.has Ts.Flags.Rst = segment.flags.contains .RST := segment.flags.toTs_names.2.2.1
  unfold Ts.Connection.onSegment Connection.onSegment
  rw [hrst, h.fields.1]
  by_cases hr : segment.flags.contains .RST = true
  · rw [if_pos hr, if_pos hr]
    exact ⟨h, h.onReset segment⟩
  · rw [if_neg hr, if_neg hr]
    cases hstate : c.state with
    | synSent => exact h.onSynSent hv hclock hs segment
    | synReceived => exact h.onSynReceived hv hclock hs segment
    | _ => exact h.onSynchronized hv hclock hs segment

theorem Follows.handshakeResponse (h : Follows dl config token c t) (segment : Segment) :
    t.handshakeResponse segment.toTs =
      (if c.unacceptableAck segment then some (resetFor segment)
        else if c.unexpectedSyn segment then some c.ackSegment else none).map Segment.toTs := by
  obtain ⟨h1, h2, h3, h4, -⟩ := h.fields
  have hflags : segment.toTs.flags = segment.flags.toTs := rfl
  unfold Ts.Connection.handshakeResponse unacceptableAck unexpectedSyn
  rw [h1, h2, h3, h4, hflags, h.ackSegment, show segment.toTs.seq = segment.seq.toNat from rfl, resetFor_toTs]
  simp only [Flags.toTs_names, ts_u32_succ]
  by_cases hr : segment.flags.contains .RST = true
  · simp [hr]
  by_cases hs : c.state = .synSent
  · rw [show segment.toTs.ack = segment.ack.map (·.toNat) from rfl]
    cases segment.ack with
    | none => simp [hr, hs]
    | some ack =>
      simp only [hr, hs, Option.map_some, ts_after]
      simp
  · have hseq : (segment.seq + 1).toNat = c.recvNxt.toNat ↔ segment.seq + 1 = c.recvNxt := BitVec.toNat_inj
    simp only [Ne, hseq]
    simp [hr, hs]

theorem Follows.input (h : Follows dl config token c t) (hv : config.Shared) (hclock : dl.Fits config nowMs)
    (hs : c.SampleSafe nowMs) (segment : Segment) :
    Follows dl config token (c.input segment nowMs config).1 (t.input segment.toTs nowMs config.toTs).1 ∧
      (t.input segment.toTs nowMs config.toTs).2 = (c.input segment nowMs config).2.toTs := by
  unfold Ts.Connection.input Connection.input
  rw [h.handshakeResponse segment]
  split_ifs
  · exact ⟨h, rfl⟩
  · exact ⟨h, rfl⟩
  · exact h.onSegment hv hclock hs segment

end Steps

end Connection

end FipsTcp
