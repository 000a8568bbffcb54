/-
The two connections side by side, function by function.

`Connection.toTs` is the TypeScript connection in the place of a Rust one, up to Reno and the token of its markers, which are
its own, and `toTsBy` the same with the deadlines as the numbers of TypeScript hold them (`Deadlines`). Each lemma says that a
TypeScript method on it gives `toTsBy` of what the Rust function gives, and emits `toTs` of the same segments. They need `Bounds`,
the numeric ranges that the Rust types or the code ensure, that the sums of the round trips are exact numbers (`SampleSafe`), and
that the deadlines hold what the code computes (`Deadlines.Fits`): the deadlines themselves do while the sums of clocks and
durations are exact (`ClockSafe`), their numbers do at every clock that is a safe integer.
-/
import FipsTcp.Lockstep.Values
import FipsTcp.Connection.Timers

namespace FipsTcp

open Number

def TrackedSegment.toTs (s : TrackedSegment) : Ts.TrackedSegment :=
  ⟨s.seq.toNat, s.flags.toTs, s.payload, s.sentAtMs, s.transmissions⟩

def ReassemblySegment.toTs (s : ReassemblySegment) : Ts.ReassemblySegment := ⟨s.seq.toNat, s.payload, s.fin⟩

@[simp] theorem TrackedSegment.toTs_fields (s : TrackedSegment) :
    s.toTs.seq = s.seq.toNat ∧ s.toTs.flags = s.flags.toTs ∧ s.toTs.payload = s.payload ∧ s.toTs.sentAtMs = s.sentAtMs :=
  ⟨rfl, rfl, rfl, rfl⟩

@[simp] theorem TrackedSegment.toTs_end (s : TrackedSegment) : Ts.trackedEnd s.toTs = s.endSeq.toNat := by
  have hlen : ∀ f : Bool, f.toNat = if f then 1 else 0 := fun f => by cases f <;> rfl
  simp only [Ts.trackedEnd, toTs, Flags.toTs_names, hlen, add_assoc, endSeq, Segment.flagLen]
  rw [ts_u32, asU32, asU32, asU32, asU32, BitVec.ofNat_add, BitVec.ofNat_add]

@[simp] theorem ReassemblySegment.toTs_end (s : ReassemblySegment) : Ts.reassemblyEnd s.toTs = s.endSeq.toNat := by
  simp only [Ts.reassemblyEnd, toTs, add_assoc, endSeq]
  rw [ts_u32, asU32, asU32, asU32, BitVec.ofNat_add]

def AckOutcome.toTs (o : AckOutcome) : Ts.AckOutcome := ⟨o.finAcked, o.retransmit.map Segment.toTs⟩

def Update.toTs (u : Update) : Ts.ConnectionUpdate := ⟨u.segments.map Segment.toTs, u.accepted, u.closed⟩

namespace Connection

/-- the TypeScript connection in the place of a Rust one, with its own Reno and its own token -/
def toTs (c : Connection Ts.JsString) (reno : Ts.Reno) (token : ℕ) : Ts.Connection where
  state := c.state
  peer := c.peer
  localPort := c.localPort.toNat
  remotePort := c.remotePort.toNat
  readClosed := c.readClosed
  sendUna := c.sendUna.toNat
  sendNxt := c.sendNxt.toNat
  recvNxt := c.recvNxt.toNat
  remoteWindow := c.remoteWindow
  mss := c.mss
  receiveCapacity := c.receiveCapacity
  maxTransmissions := c.maxTransmissions
  sendQueue := c.sendQueue
  recvQueue := c.recvQueue
  reassembly := c.reassembly.map ReassemblySegment.toTs
  unacked := c.unacked.map TrackedSegment.toTs
  rtt := c.rtt.toTs
  reno
  duplicateAcks := c.duplicateAcks
  rtoRecoveryUntil := c.rtoRecoveryUntil.map (·.toNat)
  closeRequested := c.closeRequested
  persist := ⟨c.nextZeroWindowProbeMs, c.zeroWindowProbes⟩
  sendProgress := ⟨token, c.sendProgress.acceptedPayloadBytes, c.sendProgress.ackedPayloadBytes⟩
  finWait2UntilMs := c.finWait2UntilMs
  timeWaitUntilMs := c.timeWaitUntilMs

/-- the numeric ranges of a connection -/
structure Bounds {P : Type} (config : Config) (c : Connection P) : Prop where
  rtt : c.rtt.InBounds config
  rtos : c.rtt.consecutiveRtos < 3
  mss : c.mss ≤ 65535
  window : c.remoteWindow ≤ 65535
  budget : c.maxTransmissions = config.maxRetransmissions.toNat
  queue : c.recvQueue.length ≤ config.receiveBuffer

/-- the sums of a clock with the durations of a configuration are exact numbers -/
structure ClockSafe (config : Config) (nowMs : ℕ) : Prop where
  rto : nowMs + config.maxRtoMs < 2 ^ 53
  finWait2 : nowMs + config.finWait2Ms < 2 ^ 53
  timeWait : nowMs + config.timeWaitMs < 2 ^ 53

/-- so are those of the round trips that an acknowledgment can measure -/
def SampleSafe {P : Type} (c : Connection P) (nowMs : ℕ) : Prop := ∀ s ∈ c.unacked, c.rtt.SumsSafe (nowMs - s.sentAtMs)

/-! ## Deadlines -/

/-- how a TypeScript connection holds its deadlines: those of the closing states, and that of the zero-window probe -/
structure Deadlines where
  close : ℕ → ℕ
  probe : ℕ → ℕ

namespace Deadlines

/-- as they are -/
def exact : Deadlines := ⟨id, id⟩

/-- as the numbers that the code computes -/
def numbers : Deadlines := ⟨fun deadline => min maxSafe (rounded deadline), rounded⟩

/-- a deadline set now is held as what the code computes -/
structure Fits (dl : Deadlines) (config : Config) (nowMs : ℕ) : Prop where
  finWait2 : Ts.deadlineAfter nowMs config.finWait2Ms = dl.close (satAdd nowMs config.finWait2Ms)
  timeWait : Ts.deadlineAfter nowMs config.timeWaitMs = dl.close (satAdd nowMs config.timeWaitMs)
  probe : ∀ durationMs ≤ config.maxRtoMs, rounded (nowMs + durationMs) = dl.probe (satAdd nowMs durationMs)

/-- a deadline is due now as it is held -/
structure Tells (dl : Deadlines) (nowMs : ℕ) : Prop where
  now : nowMs < 2 ^ 53
  close : ∀ deadline, dl.close deadline ≤ nowMs ↔ deadline ≤ nowMs
  probe : ∀ deadline, dl.probe deadline ≤ nowMs ↔ deadline ≤ nowMs

variable {config : Config} {nowMs : ℕ}

theorem exact_fits (h : ClockSafe config nowMs) : exact.Fits config nowMs := by
  have hclose : ∀ {durationMs}, nowMs + durationMs < 2 ^ 53 →
      Ts.deadlineAfter nowMs durationMs = satAdd nowMs durationMs := fun {durationMs} hsum => by
    have hsafe : satAdd nowMs durationMs ≤ maxSafe := (min_le_left _ _).trans (Nat.le_sub_one_of_lt hsum)
    rw [Ts.deadlineAfter, rounded_eq_satAdd hsum]
    exact min_eq_right hsafe
  refine ⟨hclose h.finWait2, hclose h.timeWait, fun durationMs hle => ?_⟩
  exact rounded_eq_satAdd ((Nat.add_le_add_left hle nowMs).trans_lt h.rto)

theorem exact_tells (h : ClockSafe config nowMs) : exact.Tells nowMs :=
  ⟨(Nat.le_add_right _ _).trans_lt h.rto, fun _ => Iff.rfl, fun _ => Iff.rfl⟩

theorem numbers_fits (hv : config.Shared) (hnow : nowMs < 2 ^ 53) : numbers.Fits config nowMs := by
  -- no sum leaves the range of a u64
  have hsum : ∀ {durationMs}, durationMs ≤ maxSafe → satAdd nowMs durationMs = nowMs + durationMs := fun {durationMs} hle => by
    simp only [satAdd, maxU64, maxSafe] at *
    omega
  obtain ⟨-, hrto, hfin, htime⟩ := hv.safe
  refine ⟨?_, ?_, fun durationMs hle => ?_⟩
  · rw [hsum hfin]
    rfl
  · rw [hsum htime]
    rfl
  · rw [hsum (hle.trans hrto)]
    rfl

/-- at `Number.MAX_SAFE_INTEGER` itself a closing deadline that was cut there would be due -/
theorem numbers_tells (hnow : nowMs < maxSafe) : numbers.Tells nowMs := by
  have hlt : nowMs < 2 ^ 53 := hnow.trans_le (Nat.sub_le _ _)
  refine ⟨hlt, fun deadline => ?_, fun deadline => rounded_le_iff hlt⟩
  exact (min_le_iff.trans (or_iff_right (not_le.2 hnow))).trans (rounded_le_iff hlt)

end Deadlines

/-- the TypeScript connection in the place of a Rust one, with the deadlines as they are held -/
def toTsBy (c : Connection Ts.JsString) (dl : Deadlines) (reno : Ts.Reno) (token : ℕ) : Ts.Connection :=
  { c.toTs reno token with
    persist := ⟨c.nextZeroWindowProbeMs.map dl.probe, c.zeroWindowProbes⟩
    finWait2UntilMs := c.finWait2UntilMs.map dl.close
    timeWaitUntilMs := c.timeWaitUntilMs.map dl.close }

theorem toTsBy_exact (c : Connection Ts.JsString) (reno : Ts.Reno) (token : ℕ) : c.toTsBy .exact reno token = c.toTs reno token := by
  simp only [toTsBy, toTs, Deadlines.exact, Option.map_id, id]

/-! ## Windows and segments -/

section Segments

variable (c : Connection Ts.JsString) (dl : Deadlines) (reno : Ts.Reno) (token : ℕ)

@[simp] theorem toTsBy_availableWindow : (c.toTsBy dl reno token).availableWindow = c.availableWindow := by
  simp only [Ts.Connection.availableWindow, availableWindow, toTsBy, toTs, List.map_map]
  rw [Nat.sub_sub]
  rfl

theorem toTsBy_segment (hm : c.mss ≤ 65535) (seq : U32) (flags : Flags) (payload : List U8) :
    (c.toTsBy dl reno token).segment seq.toNat flags.toTs payload = (buildSegment (c.header seq flags) payload).toTs := by
  refine buildSegment_toTs _ _ rfl rfl rfl rfl ?_ ?_ rfl
  · rw [Ts.Connection.availableWindowU16, toTsBy_availableWindow]
    simp only [header, availableWindowU16, BitVec.toNat_ofNat]
    omega
  · simp only [header, toTsBy, toTs, BitVec.toNat_ofNat]
    omega

theorem toTsBy_ackSegment (hm : c.mss ≤ 65535) : (c.toTsBy dl reno token).ackSegment = c.ackSegment.toTs :=
  c.toTsBy_segment dl reno token hm c.sendNxt .ACK []

theorem toTsBy_segmentFor (hm : c.mss ≤ 65535) (tracked : TrackedSegment) :
    (c.toTsBy dl reno token).segmentFor tracked.toTs = (c.segmentFor tracked).toTs :=
  c.toTsBy_segment dl reno token hm tracked.seq tracked.flags tracked.payload

theorem toTsBy_resetSegment (hm : c.mss ≤ 65535) : (c.toTsBy dl reno token).resetSegment = c.resetSegment.toTs := by
  refine buildSegment_toTs _ _ rfl rfl rfl rfl rfl ?_ rfl
  simp only [header, toTsBy, toTs, BitVec.toNat_ofNat]
  omega

theorem toTsBy_sendTracked (hm : c.mss ≤ 65535) (flags : Flags) (payload : List U8) (nowMs : ℕ) :
    (c.toTsBy dl reno token).sendTracked flags.toTs payload nowMs =
      ((c.sendTracked flags payload nowMs).1.toTsBy dl reno token, (c.sendTracked flags payload nowMs).2.toTs) := by
  let tracked : TrackedSegment := ⟨c.sendNxt, flags, payload, nowMs, 1⟩
  have hend : Ts.trackedEnd tracked.toTs = tracked.endSeq.toNat := tracked.toTs_end
  have hconn : { c.toTsBy dl reno token with sendNxt := Ts.trackedEnd tracked.toTs } =
      ({ c with sendNxt := tracked.endSeq } : Connection Ts.JsString).toTsBy dl reno token := by rw [hend]; rfl
  have hseg := toTsBy_segmentFor { c with sendNxt := tracked.endSeq } dl reno token hm tracked
  rw [← hconn] at hseg
  refine Prod.ext ?_ hseg
  have hunacked : (c.unacked ++ [tracked]).map TrackedSegment.toTs = c.unacked.map TrackedSegment.toTs ++ [tracked.toTs] :=
    List.map_append
  simp only [Ts.Connection.sendTracked, sendTracked]
  change { c.toTsBy dl reno token with
    sendNxt := Ts.trackedEnd tracked.toTs, unacked := c.unacked.map TrackedSegment.toTs ++ [tracked.toTs] } = _
  rw [hend, ← hunacked]
  rfl

theorem toTsBy_retransmitOldest (hm : c.mss ≤ 65535) (nowMs : ℕ) (timeout : Bool) :
    (c.toTsBy dl reno token).retransmitOldest nowMs timeout =
      ((c.retransmitOldest nowMs timeout).1.toTsBy dl reno token, (c.retransmitOldest nowMs timeout).2.map Segment.toTs) := by
  unfold Ts.Connection.retransmitOldest retransmitOldest
  cases hu : c.unacked with
  | nil =>
    have hts : (c.toTsBy dl reno token).unacked = [] := by rw [toTsBy, toTs, hu, List.map_nil]
    simp only [hts]
    rfl
  | cons tracked rest =>
    have hts : (c.toTsBy dl reno token).unacked = tracked.toTs :: rest.map TrackedSegment.toTs := by rw [toTsBy, toTs, hu, List.map_cons]
    simp only [hts]
    by_cases hmax : c.maxTransmissions ≤ tracked.transmissions
    · rw [if_pos hmax, if_pos (show (c.toTsBy dl reno token).maxTransmissions ≤ tracked.toTs.transmissions from hmax)]
      rfl
    · rw [if_neg hmax, if_neg (show ¬ (c.toTsBy dl reno token).maxTransmissions ≤ tracked.toTs.transmissions from hmax)]
      let again : TrackedSegment := { tracked with sentAtMs := nowMs, transmissions := satSucc8 tracked.transmissions }
      have hagain : { tracked.toTs with sentAtMs := nowMs, transmissions := min 255 (tracked.transmissions + 1) } = again.toTs := by
        simp only [again, TrackedSegment.toTs, satSucc8, min_comm]
      have hseg := toTsBy_segmentFor { c with
        rtt := c.rtt.onRetransmit c.sendNxt
        unacked := again :: rest
        duplicateAcks := if timeout then 0 else c.duplicateAcks } dl reno token hm again
      refine Prod.ext ?_ (congrArg some ?_)
      · change { c.toTsBy dl reno token with
          rtt := (c.rtt.onRetransmit c.sendNxt).toTs
          unacked := { tracked.toTs with sentAtMs := nowMs, transmissions := min 255 (tracked.transmissions + 1) } ::
            rest.map TrackedSegment.toTs
          duplicateAcks := if timeout then 0 else c.duplicateAcks } = _
        rw [hagain]
        rfl
      · exact hagain ▸ hseg

end Segments

variable {config : Config} {c : Connection Ts.JsString} {dl : Deadlines} {reno : Ts.Reno} {token nowMs : ℕ}

/-! ## Sending -/

theorem toTsBy_available (hr : c.reno.Agrees reno) (hw : c.remoteWindow ≤ 65535) :
    (c.toTsBy dl reno token).available = c.sendAllowance := by
  have hwindow := hr.window (n := c.remoteWindow) (by simp only [maxSafe]; omega)
  simp only [Ts.Connection.available, sendAllowance, toTsBy, toTs, ts_distance, hwindow]

theorem toTsBy_sendQueued (hm : c.mss ≤ 65535) (count nowMs : ℕ) :
    (c.toTsBy dl reno token).sendQueued count nowMs =
      ((c.sendQueued count nowMs).1.toTsBy dl reno token, (c.sendQueued count nowMs).2.toTs) :=
  toTsBy_sendTracked { c with sendQueue := c.sendQueue.drop count } dl reno token hm (Flags.ACK.union .PSH) _ nowMs

theorem toTsBy_sendFin (hm : c.mss ≤ 65535) (nowMs : ℕ) :
    (c.toTsBy dl reno token).sendFin nowMs = ((c.sendFin nowMs).1.toTsBy dl reno token, (c.sendFin nowMs).2.toTs) :=
  toTsBy_sendTracked { c with closeRequested := false, state := if c.state = .established then .finWait1 else .lastAck } dl reno token
    hm (Flags.FIN.union .ACK) [] nowMs

/-- what sending leaves of the numeric ranges -/
theorem flushLoop_ranges (nowMs fuel : ℕ) (c : Connection Ts.JsString) :
    (flushLoop nowMs fuel c).1.reno = c.reno ∧ (flushLoop nowMs fuel c).1.mss = c.mss ∧
      (flushLoop nowMs fuel c).1.remoteWindow = c.remoteWindow ∧ (flushLoop nowMs fuel c).1.rtt = c.rtt := by
  induction fuel generalizing c with
  | zero => exact ⟨rfl, rfl, rfl, rfl⟩
  | succ fuel ih =>
    simp only [flushLoop]
    split_ifs
    · exact ⟨rfl, rfl, rfl, rfl⟩
    · exact ih _

theorem toTsBy_flushLoop (hr : c.reno.Agrees reno) (hm : c.mss ≤ 65535) (hw : c.remoteWindow ≤ 65535) (nowMs fuel : ℕ) :
    Ts.Connection.flushLoop nowMs fuel (c.toTsBy dl reno token) =
      ((flushLoop nowMs fuel c).1.toTsBy dl reno token, (flushLoop nowMs fuel c).2.map Segment.toTs) := by
  induction fuel generalizing c with
  | zero => rfl
  | succ fuel ih =>
    simp only [Ts.Connection.flushLoop, flushLoop, toTsBy_available hr hw]
    by_cases hstop : c.sendAllowance = 0 ∨ c.sendQueue = []
    · have hstop' : c.sendAllowance = 0 ∨ (c.toTsBy dl reno token).sendQueue.length = 0 :=
        hstop.imp_right fun h => List.length_eq_zero_iff.2 h
      rw [if_pos hstop, if_pos hstop']
      rfl
    · have hgo : ¬ (c.sendAllowance = 0 ∨ (c.toTsBy dl reno token).sendQueue.length = 0) := fun h =>
        hstop (h.imp_right List.length_eq_zero_iff.1)
      rw [if_neg hstop, if_neg hgo]
      change (let result := (c.toTsBy dl reno token).sendQueued (min (min c.sendAllowance c.mss) c.sendQueue.length) nowMs
        ((Ts.Connection.flushLoop nowMs fuel result.1).1, result.2 :: (Ts.Connection.flushLoop nowMs fuel result.1).2)) = _
      rw [toTsBy_sendQueued hm]
      simp only [ih (c := (c.sendQueued _ nowMs).1) hr hm hw, List.map_cons]

theorem toTsBy_flushData (hr : c.reno.Agrees reno) (hm : c.mss ≤ 65535) (hw : c.remoteWindow ≤ 65535) (nowMs : ℕ) :
    (c.toTsBy dl reno token).flushData nowMs =
      ((c.flushData nowMs).1.toTsBy dl reno token, (c.flushData nowMs).2.map Segment.toTs) := by
  unfold Ts.Connection.flushData flushData
  by_cases hst : c.state = .established ∨ c.state = .closeWait
  · rw [if_pos hst, if_neg (show ¬ ((c.toTsBy dl reno token).state ≠ .established ∧ (c.toTsBy dl reno token).state ≠ .closeWait) from
      fun h => hst.elim h.1 h.2)]
    obtain ⟨h1, h2, h3, -⟩ := flushLoop_ranges nowMs c.sendQueue.length c
    have hloop : Ts.Connection.flushLoop nowMs c.sendQueue.length (c.toTsBy dl reno token) = _ :=
      toTsBy_flushLoop hr hm hw nowMs c.sendQueue.length
    change (let result := Ts.Connection.flushLoop nowMs c.sendQueue.length (c.toTsBy dl reno token)
      if result.1.closeRequested ∧ result.1.sendQueue.length = 0 ∧ 0 < result.1.available then
        ((result.1.sendFin nowMs).1, result.2 ++ [(result.1.sendFin nowMs).2])
      else (result.1, result.2)) = _
    rw [hloop]
    generalize flushLoop nowMs c.sendQueue.length c = result at h1 h2 h3
    obtain ⟨c1, output⟩ := result
    simp only at h1 h2 h3 ⊢
    rw [toTsBy_available (h1 ▸ hr) (h3 ▸ hw), toTsBy_sendFin (h2 ▸ hm)]
    unfold flushFin
    have hiff : ((c1.toTsBy dl reno token).closeRequested ∧ (c1.toTsBy dl reno token).sendQueue.length = 0 ∧ 0 < c1.sendAllowance) ↔
        (c1.closeRequested ∧ c1.sendQueue = [] ∧ 0 < c1.sendAllowance) :=
      and_congr Iff.rfl (and_congr List.length_eq_zero_iff Iff.rfl)
    simp only [hiff]
    split_ifs
    · simp only [List.map_append, List.map_cons, List.map_nil]
    · simp only [List.append_nil]
  · rw [if_neg hst, if_pos (show (c.toTsBy dl reno token).state ≠ .established ∧ (c.toTsBy dl reno token).state ≠ .closeWait from
      not_or.1 hst)]
    rfl

theorem toTsBy_zeroWindowProbe (hm : c.mss ≤ 65535) (nowMs : ℕ) :
    (c.toTsBy dl reno token).zeroWindowProbe nowMs =
      ((c.zeroWindowProbe nowMs).1.toTsBy dl reno token, (c.zeroWindowProbe nowMs).2.map Segment.toTs) := by
  unfold Ts.Connection.zeroWindowProbe zeroWindowProbe
  have hfind : (c.toTsBy dl reno token).unacked.find? (fun segment => decide (0 < segment.payload.length)) =
      (c.unacked.find? fun segment => !segment.payload.isEmpty).map TrackedSegment.toTs := by
    have hpayload : ∀ payload : List U8, decide (0 < payload.length) = !payload.isEmpty := fun payload => by
      cases payload <;> simp
    rw [toTsBy, toTs, List.find?_map]
    congr 2
    funext segment
    exact hpayload segment.payload
  rw [hfind]
  cases c.unacked.find? fun segment => !segment.payload.isEmpty with
  | some segment =>
    exact Prod.ext rfl (congrArg some
      (toTsBy_segment { c with rtt := c.rtt.onRetransmit c.sendNxt } dl reno token hm segment.seq (Flags.ACK.union .PSH) _))
  | none =>
    simp only [Option.map_none]
    by_cases hq : c.sendQueue = []
    · rw [if_pos hq, if_pos (show (c.toTsBy dl reno token).sendQueue.length = 0 from List.length_eq_zero_iff.2 hq)]
      rfl
    · rw [if_neg hq, if_neg (show ¬ (c.toTsBy dl reno token).sendQueue.length = 0 from fun h => hq (List.length_eq_zero_iff.1 h))]
      rw [toTsBy_sendQueued hm]
      rfl

/-! ## Windows -/

theorem toTsBy_updateRemoteWindow (h : c.rtt.InBounds config) (hclock : dl.Fits config nowMs) (window : U16) :
    (c.toTsBy dl reno token).updateRemoteWindow window.toNat nowMs =
      (c.updateRemoteWindow window nowMs).toTsBy dl reno token := by
  have hprobe : rounded (nowMs + c.rtt.timeoutMs) = dl.probe (satAdd nowMs c.rtt.timeoutMs) := hclock.probe _ h.le
  have hzero : window.toNat = 0 ↔ window = 0 := by rw [← BitVec.toNat_inj]; rfl
  unfold Ts.Connection.updateRemoteWindow updateRemoteWindow
  simp only [Ts.PersistTimer.update, hzero]
  split_ifs with h0
  · subst h0
    simp only [toTsBy, toTs, RttEstimator.toTs_timeoutMs, hprobe]
    cases c.nextZeroWindowProbeMs <;> rfl
  · rfl

theorem toTsBy_negotiateMss (hr : c.reno.Agrees reno) (segment : Segment) :
    ∃ reno', (c.negotiateMss segment config).reno.Agrees reno' ∧
      (c.toTsBy dl reno token).negotiateMss segment.toTs config.toTs = (c.negotiateMss segment config).toTsBy dl reno' token := by
  have hmss : max 1 (min (segment.toTs.maxSegmentSize.getD 1024) config.toTs.mss) =
      max (min (segment.maxSegmentSize.getD 1024).toNat config.mss.toNat) 1 := by
    rw [max_comm, segment.toTs_maxSegmentSize]
    cases segment.maxSegmentSize <;> rfl
  have hle : max (min (segment.maxSegmentSize.getD 1024).toNat config.mss.toNat) 1 ≤ 65535 := by
    have := config.mss.isLt
    omega
  refine ⟨_, hr.setMss hle, ?_⟩
  unfold Ts.Connection.negotiateMss negotiateMss
  simp only [hmss]
  rfl

/-! ## Acknowledgments -/

theorem toTs_ackLoop (rtt : RttEstimator) (ack : U32) (nowMs : ℕ) (l : List TrackedSegment) (acked : ℕ) (fin : Bool)
    (sample : Option ℕ) :
    Ts.Connection.ackLoop rtt.toTs ack.toNat nowMs (l.map TrackedSegment.toTs) acked fin sample =
      ((ackLoop rtt ack nowMs l acked fin sample).1.map TrackedSegment.toTs, (ackLoop rtt ack nowMs l acked fin sample).2) := by
  induction l generalizing acked fin sample with
  | nil => rfl
  | cons segment rest ih =>
    simp only [List.map_cons, Ts.Connection.ackLoop, ackLoop, TrackedSegment.toTs_end, ts_beforeOrEqual,
      RttEstimator.toTs_canSample, TrackedSegment.toTs_fields, Flags.toTs_names]
    by_cases hend : beforeOrEqual segment.endSeq ack
    · rw [if_pos hend, if_pos hend]
      exact ih _ _ _
    · rw [if_neg hend, if_neg hend]
      rfl

/-- a sample is the age of a tracked segment -/
theorem ackLoop_sample {rtt : RttEstimator} {ack : U32} {nowMs : ℕ} {l : List TrackedSegment} {acked : ℕ} {fin : Bool}
    {sample : Option ℕ} {x : ℕ} (h : (ackLoop rtt ack nowMs l acked fin sample).2.2.2 = some x) :
    sample = some x ∨ ∃ s ∈ l, x = nowMs - s.sentAtMs := by
  induction l generalizing acked fin sample with
  | nil => exact .inl h
  | cons segment rest ih =>
    rw [ackLoop] at h
    split_ifs at h with h1 h2
    · rcases ih h with hs | ⟨s, hs, hx⟩
      · exact .inr ⟨segment, List.mem_cons_self, (Option.some.inj hs).symm⟩
      · exact .inr ⟨s, List.mem_cons_of_mem _ hs, hx⟩
    · exact (ih h).imp_right fun ⟨s, hs, hx⟩ => ⟨s, List.mem_cons_of_mem _ hs, hx⟩
    · exact .inl h

theorem toTs_trimFront (ack : U32) (l : List TrackedSegment) :
    Ts.Connection.trimFirst ack.toNat (l.map TrackedSegment.toTs) =
      ((trimFront ack l).1.map TrackedSegment.toTs, (trimFront ack l).2) := by
  cases l with
  | nil => rfl
  | cons segment rest =>
    have hiff : (Ts.before segment.toTs.seq ack.toNat ∧ Ts.before ack.toNat (Ts.trackedEnd segment.toTs) ∧
        ¬ segment.toTs.flags.has Ts.Flags.Syn ∧ ¬ segment.toTs.flags.has Ts.Flags.Fin) ↔
        (before segment.seq ack ∧ before ack segment.endSeq ∧ ¬ segment.flags.contains .SYN ∧ ¬ segment.flags.contains .FIN) := by
      simp only [TrackedSegment.toTs_end, TrackedSegment.toTs_fields, ts_before, Flags.toTs_names]
    rw [List.map_cons, Ts.Connection.trimFirst, trimFront]
    simp only [hiff]
    split_ifs
    · simp only [List.map_cons, TrackedSegment.toTs, ts_distance]
    · simp only [List.map_cons]

theorem Bounds.rto_le (hb : c.Bounds config) (hv : config.Valid) : c.rtt.minRtoMs ≤ c.rtt.maxRtoMs := by
  rw [hb.rtt.minRto, hb.rtt.maxRto]
  exact hv.minRto_le.trans hv.maxRto_ge

theorem advanceAck_lockstep (hv : config.Shared) (hb : c.Bounds config) (hr : c.reno.Agrees reno) (hs : c.SampleSafe nowMs)
    (ack : U32) :
    (c.advanceAck ack nowMs).1.Bounds config ∧ ∃ reno', (c.advanceAck ack nowMs).1.reno.Agrees reno' ∧
      (c.toTsBy dl reno token).applyNewAck ack.toNat nowMs =
        ((c.advanceAck ack nowMs).1.toTsBy dl reno' token, (c.advanceAck ack nowMs).2.toTs) := by
  have hsample : ∀ x, (ackLoop c.rtt ack nowMs c.unacked 0 false none).2.2.2 = some x →
      c.rtt.toTs.sample x = (c.rtt.sample x).toTs ∧ (c.rtt.sample x).consecutiveRtos < 3 := fun x hx => by
    rcases ackLoop_sample hx with h | ⟨s, hmem, rfl⟩
    · cases h
    · exact RttEstimator.toTs_sample (hs s hmem) (hb.rto_le hv.valid) (hb.rtt.maxRto ▸ hv.maxRto)
  have hnew : (c.advanceAck ack nowMs).1.rtt.InBounds config ∧ (c.advanceAck ack nowMs).1.rtt.consecutiveRtos < 3 := by
    rw [advanceAck_rtt]
    cases hx : (ackLoop c.rtt ack nowMs c.unacked 0 false none).2.2.2 with
    | none => exact ⟨hb.rtt, hb.rtos⟩
    | some x => exact ⟨hb.rtt.sample hv.valid x, (hsample x hx).2⟩
  have hloop := toTs_ackLoop c.rtt ack nowMs c.unacked 0 false none
  unfold Ts.Connection.applyNewAck
  unfold advanceAck at hnew ⊢
  rw [show (c.toTsBy dl reno token).rtt = c.rtt.toTs from rfl,
    show (c.toTsBy dl reno token).unacked = c.unacked.map TrackedSegment.toTs from rfl, hloop]
  generalize ackLoop c.rtt ack nowMs c.unacked 0 false none = result at hsample hnew
  obtain ⟨rest, acked, fin, sample⟩ := result
  simp only at hsample ⊢
  rw [toTs_trimFront]
  refine ⟨⟨hnew.1, hnew.2, hb.mss, hb.window, hb.budget, hb.queue⟩, _, hr.onAck _, ?_⟩
  have huntil : ((c.toTsBy dl reno token).rtoRecoveryUntil.bind fun until_ => if Ts.before ack.toNat until_ then some until_ else none) =
      (c.rtoRecoveryUntil.filter fun end_ => decide (before ack end_)).map (·.toNat) := by
    simp only [toTsBy, toTs]
    cases c.rtoRecoveryUntil with
    | none => rfl
    | some end_ =>
      simp only [Option.map_some, Option.bind_some, ts_before, Option.filter_some, decide_eq_true_eq]
      split_ifs <;> rfl
  cases sample with
  | none =>
    simp only [huntil]
    rfl
  | some x =>
    simp only [huntil, (hsample x rfl).1]
    rfl

theorem Bounds.retransmitOldest {P : Type} {c : Connection P} (hb : c.Bounds config) (nowMs : ℕ) (timeout : Bool) :
    (c.retransmitOldest nowMs timeout).1.Bounds config ∧ (c.retransmitOldest nowMs timeout).1.reno = c.reno := by
  rcases c.retransmitOldest_cases nowMs timeout with he | ⟨tracked, rest, transmissions, dups, -, -, he⟩ <;> rw [he]
  · exact ⟨hb, rfl⟩
  · exact ⟨⟨hb.rtt.onRetransmit _, hb.rtos, hb.mss, hb.window, hb.budget, hb.queue⟩, rfl⟩

theorem distance_lt (a b : U32) : distance a b < 2 ^ 32 := (b - a).isLt

theorem repeatAck_lockstep (hb : c.Bounds config) (hr : c.reno.Agrees reno) (nowMs : ℕ) (duplicate : Bool) :
    (c.repeatAck nowMs duplicate).1.Bounds config ∧ ∃ reno', (c.repeatAck nowMs duplicate).1.reno.Agrees reno' ∧
      (c.toTsBy dl reno token).applyOldAck nowMs duplicate =
        ((c.repeatAck nowMs duplicate).1.toTsBy dl reno' token, (c.repeatAck nowMs duplicate).2.toTs) := by
  unfold Ts.Connection.applyOldAck repeatAck
  have hiff : (duplicate ∧ 0 < (c.toTsBy dl reno token).unacked.length) ↔ (duplicate ∧ c.unacked ≠ []) := by
    simp only [toTsBy, toTs, List.length_map, List.length_pos_iff]
  have hmin : min 255 ((c.toTsBy dl reno token).duplicateAcks + 1) = satSucc8 c.duplicateAcks := min_comm _ _
  simp only [hiff, hmin]
  split_ifs with hd h3
  · -- the third duplicate
    have hloss := hr.onDuplicateAck.onFastLoss _ (distance_lt c.sendUna c.sendNxt)
    let lost := { c with
      duplicateAcks := satSucc8 c.duplicateAcks, reno := c.reno.onDuplicateAck.onFastLoss (distance c.sendUna c.sendNxt) }
    have hlost : lost.Bounds config := ⟨hb.rtt, hb.rtos, hb.mss, hb.window, hb.budget, hb.queue⟩
    obtain ⟨h1, h2⟩ := hlost.retransmitOldest nowMs false
    refine ⟨h1, reno.onDuplicateAck.onFastLoss (distance c.sendUna c.sendNxt), ?_, ?_⟩
    · change (lost.retransmitOldest nowMs false).1.reno.Agrees _
      rw [h2]
      exact hloss
    have hagain := lost.toTsBy_retransmitOldest dl (reno.onDuplicateAck.onFastLoss (distance c.sendUna c.sendNxt)) token hb.mss nowMs false
    have hflight : Ts.distance (c.toTsBy dl reno token).sendUna (c.toTsBy dl reno token).sendNxt = distance c.sendUna c.sendNxt :=
      ts_distance _ _
    simp only [hflight]
    exact congrArg (fun result : Ts.Connection × Option Ts.Segment => (result.1, (⟨false, result.2⟩ : Ts.AckOutcome))) hagain
  · exact ⟨⟨hb.rtt, hb.rtos, hb.mss, hb.window, hb.budget, hb.queue⟩, _, hr.onDuplicateAck, rfl⟩
  · exact ⟨⟨hb.rtt, hb.rtos, hb.mss, hb.window, hb.budget, hb.queue⟩, _, hr, rfl⟩

theorem applyAck_lockstep (hv : config.Shared) (hb : c.Bounds config) (hr : c.reno.Agrees reno) (hs : c.SampleSafe nowMs)
    (ack : U32) (duplicate : Bool) :
    (c.applyAck ack nowMs duplicate).1.Bounds config ∧ ∃ reno', (c.applyAck ack nowMs duplicate).1.reno.Agrees reno' ∧
      (c.toTsBy dl reno token).applyAck ack.toNat nowMs duplicate =
        ((c.applyAck ack nowMs duplicate).1.toTsBy dl reno' token, (c.applyAck ack nowMs duplicate).2.toTs) := by
  have hout : (Ts.after ack.toNat (c.toTsBy dl reno token).sendNxt ∨ Ts.before ack.toNat (c.toTsBy dl reno token).sendUna) ↔
      (after ack c.sendNxt ∨ before ack c.sendUna) := or_congr (ts_after _ _) (ts_before _ _)
  have heq : ack.toNat = (c.toTsBy dl reno token).sendUna ↔ ack = c.sendUna := BitVec.toNat_inj
  unfold Ts.Connection.applyAck applyAck
  simp only [hout, heq]
  split_ifs
  · exact ⟨hb, reno, hr, rfl⟩
  · exact repeatAck_lockstep hb hr nowMs duplicate
  · exact advanceAck_lockstep hv hb hr hs ack

end Connection

end FipsTcp
