/-
The values of the two implementations side by side.

`toTs` takes a value of the Rust model to the value that the TypeScript program holds in its place: words become numbers. The
lemmas say that the functions of `seq.ts`, `wire.ts`, `segment.ts` and `rtt.ts` compute on those what `seq.rs`, `wire.rs`,
`segment.rs` and `rtt.rs` compute on the words. Reno is different: the TypeScript window and threshold stop being exact at
2^53, so they agree with the Rust ones up to there (`Reno.Agrees`), which is more than any peer can advertise.
-/
import FipsTcp.Core.Connection
import FipsTcp.Ts.Connection

namespace FipsTcp

open Number

/-- a sum that both implementations hold exactly -/
theorem rounded_eq_satAdd {a b : ℕ} (h : a + b < 2 ^ 53) : rounded (a + b) = satAdd a b := by
  rw [rounded_of_lt h, satAdd, maxU64]
  omega

/-! ## Sequence numbers -/

@[simp] theorem ts_before (a b : U32) : Ts.before a.toNat b.toNat ↔ before a b := by rw [Ts.before, toInt32_sub, before]

@[simp] theorem ts_after (a b : U32) : Ts.after a.toNat b.toNat ↔ after a b := ts_before b a

@[simp] theorem ts_beforeOrEqual (a b : U32) : Ts.beforeOrEqual a.toNat b.toNat ↔ beforeOrEqual a b := by
  rw [Ts.beforeOrEqual, BitVec.toNat_inj, ts_before, beforeOrEqual]

@[simp] theorem ts_inClosedInterval (a b c : U32) :
    Ts.inClosedInterval a.toNat b.toNat c.toNat ↔ inClosedInterval a b c := by
  rw [Ts.inClosedInterval, ts_before, ts_after, inClosedInterval]

@[simp] theorem ts_distance (a b : U32) : Ts.distance a.toNat b.toNat = distance a b := toUint32_sub b a

@[simp] theorem ts_u32 (a : U32) (n : ℕ) : Ts.u32 (a.toNat + n) = (a + asU32 n).toNat := toUint32_add a n

@[simp] theorem ts_u32_succ (a : U32) : Ts.u32 (a.toNat + 1) = (a + 1).toNat := ts_u32 a 1

/-! ## Segments -/

def Flags.toTs (f : Flags) : Ts.FlagSet := ⟨f.bits.toNat⟩

theorem Flags.toTs_has (f flag : Flags) : f.toTs.has flag.bits.toNat = f.contains flag := by
  rw [Ts.FlagSet.has, toTs, ← BitVec.toNat_and, contains, Bool.eq_iff_iff, beq_iff_eq, beq_iff_eq, BitVec.toNat_inj]

/-- the flags by their names -/
@[simp] theorem Flags.toTs_names (f : Flags) :
    f.toTs.has Ts.Flags.Fin = f.contains .FIN ∧ f.toTs.has Ts.Flags.Syn = f.contains .SYN ∧
      f.toTs.has Ts.Flags.Rst = f.contains .RST ∧ f.toTs.has Ts.Flags.Ack = f.contains .ACK :=
  ⟨f.toTs_has .FIN, f.toTs_has .SYN, f.toTs_has .RST, f.toTs_has .ACK⟩

def TcpOption.toTs : TcpOption → Ts.TcpOption
  | .endOfList => .endOfList
  | .noOperation => .noOperation
  | .maxSegmentSize value => .maxSegmentSize value.toNat
  | .fipsVersion version reserved => .fipsVersion version.toNat reserved.toNat
  | .unknown kind data => .unknown kind.toNat data

namespace Segment

def toTs (s : Segment) : Ts.Segment where
  srcPort := s.srcPort.toNat
  dstPort := s.dstPort.toNat
  seq := s.seq.toNat
  ack := s.ack.map (·.toNat)
  flags := s.flags.toTs
  window := s.window.toNat
  options := s.options.map TcpOption.toTs
  payload := s.payload

variable (s : Segment)

/-- the constructor of the TypeScript class accepts it -/
theorem toTs_inRange : s.toTs.inRange = true := by
  have h1 := s.srcPort.isLt
  have h2 := s.dstPort.isLt
  have h3 := s.seq.isLt
  have h4 : (s.ack.map (·.toNat)).all (fun ack => decide (ack < 2 ^ 32)) = true := by
    cases s.ack with
    | none => rfl
    | some ack => exact decide_eq_true ack.isLt
  simp only [Ts.Segment.inRange, toTs, h4, Bool.and_true, Bool.and_eq_true]
  exact ⟨⟨decide_eq_true (by omega), decide_eq_true (by omega)⟩, decide_eq_true h3⟩

@[simp] theorem toTs_supportsFipsVersion : s.toTs.supportsFipsVersion Ts.FIPS_VERSION = s.supportsFipsVersion FIPS_VERSION := by
  simp only [Ts.Segment.supportsFipsVersion, supportsFipsVersion, toTs, List.any_map]
  congr 1
  funext o
  cases o with
  | fipsVersion version reserved =>
    have hv : (version.toNat == Ts.FIPS_VERSION) = (version == FIPS_VERSION) := by
      rw [Bool.eq_iff_iff, beq_iff_eq, beq_iff_eq, ← BitVec.toNat_inj]
      rfl
    have hr : (reserved.toNat == 0) = (reserved == 0) := by
      rw [Bool.eq_iff_iff, beq_iff_eq, beq_iff_eq, ← BitVec.toNat_inj]
      rfl
    simp only [Function.comp, TcpOption.toTs, hv, hr]
    exact Bool.and_comm _ _
  | _ => rfl

@[simp] theorem toTs_maxSegmentSize : s.toTs.maxSegmentSize = s.maxSegmentSize.map (·.toNat) := by
  simp only [Ts.Segment.maxSegmentSize, maxSegmentSize, toTs]
  induction s.options with
  | nil => rfl
  | cons o os ih =>
    cases o with
    | maxSegmentSize value => rfl
    | _ => exact ih

@[simp] theorem toTs_sequenceLength : Ts.u32 (s.seq.toNat + s.toTs.sequenceLength) = (s.seq + s.sequenceLen).toNat := by
  have hlen : ∀ f : Bool, f.toNat = if f then 1 else 0 := fun f => by cases f <;> rfl
  simp only [Ts.Segment.sequenceLength, toTs, Flags.toTs_names, hlen, sequenceLen, flagLen]
  rw [ts_u32, asU32, asU32, asU32, asU32, BitVec.ofNat_add, BitVec.ofNat_add]

end Segment

/-- a built segment, field by field -/
theorem buildSegment_toTs (header : SegmentHeader) (payload : List U8) {localPort remotePort seq ack window mss : ℕ}
    {flags : Ts.FlagSet} (h1 : localPort = header.localPort.toNat) (h2 : remotePort = header.remotePort.toNat)
    (h3 : seq = header.seq.toNat) (h4 : ack = header.ack.toNat) (h5 : window = header.window.toNat)
    (h6 : mss = header.mss.toNat) (h7 : flags = header.flags.toTs) :
    Ts.buildSegment localPort remotePort seq ack window mss flags payload = (buildSegment header payload).toTs := by
  subst h1 h2 h3 h4 h5 h6 h7
  simp only [Ts.buildSegment, buildSegment, Segment.toTs, Flags.toTs_names]
  congr 1
  · split_ifs <;> rfl
  · split_ifs <;> rfl

theorem resetFor_toTs (incoming : Segment) : Ts.resetResponse incoming.toTs = (resetFor incoming).toTs := by
  have hseq := incoming.toTs_sequenceLength
  unfold Ts.resetResponse resetFor
  cases hack : incoming.ack with
  | some ack => simp [Segment.toTs, Segment.new, hack, Flags.toTs, Ts.Flags.Rst, Flags.RST]
  | none =>
    have hts : incoming.toTs.ack = none := by rw [Segment.toTs, hack, Option.map_none]
    rw [hts]
    simp only [Option.getD_none, Option.isSome_none, Bool.false_eq_true, if_false]
    rw [show incoming.toTs.seq = incoming.seq.toNat from rfl, hseq]
    rfl

/-! ## Configurations -/

def Config.toTs (c : Config) : Ts.Config where
  mss := c.mss.toNat
  receiveBuffer := c.receiveBuffer
  sendBuffer := c.sendBuffer
  maxConnections := c.maxConnections
  maxConnectionsPerPeer := c.maxConnectionsPerPeer
  maxReassemblySegments := c.maxReassemblySegments
  initialRtoMs := c.initialRtoMs
  minRtoMs := c.minRtoMs
  maxRtoMs := c.maxRtoMs
  maxRetransmissions := c.maxRetransmissions.toNat
  finWait2Ms := c.finWait2Ms
  timeWaitMs := c.timeWaitMs

/-- a configuration that both implementations accept -/
structure Config.Shared (c : Config) : Prop where
  rust : c.validate = .ok ()
  ts : Ts.makeConfig c.toTs = .ok c.toTs

namespace Config

variable {c : Config}

theorem positiveInteger_ok {value : ℕ} {name : String} {u : Unit} (h : Ts.positiveInteger value name = .ok u) : value ≤ maxSafe := by
  unfold Ts.positiveInteger at h
  split_ifs at h with hbad
  exact not_lt.1 fun hlt => hbad (Or.inl hlt)

/-- the numbers of a shared configuration are exact -/
theorem Shared.safe (h : c.Shared) :
    c.maxConnections ≤ maxSafe ∧ c.maxRtoMs ≤ maxSafe ∧ c.finWait2Ms ≤ maxSafe ∧ c.timeWaitMs ≤ maxSafe := by
  have hok := h.ts
  unfold Ts.makeConfig at hok
  simp only [bind, Except.bind] at hok
  repeat' split at hok
  all_goals cases hok
  rename_i htime
  have hconnections : Ts.positiveInteger c.toTs.maxConnections "connection limit" = .ok () := by assumption
  have hrto : Ts.positiveInteger c.toTs.maxRtoMs "maximum RTO" = .ok () := by assumption
  have hfin : Ts.positiveInteger c.toTs.finWait2Ms "FIN-WAIT-2 duration" = .ok () := by assumption
  exact ⟨positiveInteger_ok hconnections, positiveInteger_ok hrto, positiveInteger_ok hfin, not_lt.1 htime⟩

theorem Shared.maxRto (h : c.Shared) : c.maxRtoMs < 2 ^ 53 := Nat.lt_succ_of_le h.safe.2.1

theorem Shared.valid (h : c.Shared) : c.Valid := (Config.validate_ok_iff c).1 h.rust

end Config

/-! ## Reno -/

namespace Reno

/-- the TypeScript window and threshold are the Rust ones, up to what a number holds exactly -/
structure Agrees (r : Reno) (t : Ts.Reno) : Prop where
  mss : t.mss = r.mss
  mss_le : r.mss ≤ 65535
  cwnd : min t.cwnd maxSafe = min r.cwnd maxSafe
  ssthresh : min t.ssthresh maxSafe = min r.ssthresh maxSafe
  inFastRecovery : t.inFastRecovery = r.inFastRecovery
  inRtoRecovery : t.inRtoRecovery = r.inRtoRecovery

variable {r : Reno} {t : Ts.Reno}

/-- a sum that saturates and a sum that is rounded -/
theorem capped_add {a b x y : ℕ} (h : min a maxSafe = min b maxSafe) (hx : min x maxSafe = min y maxSafe) :
    min (rounded (a + x)) maxSafe = min (satAdd b y) maxSafe := by
  have hround := rounded_cases (a + x)
  simp only [satAdd, maxU64, maxSafe] at *
  omega

theorem new_agrees {mss : ℕ} (h : mss ≤ 65535) : (Reno.new mss).Agrees (Ts.Reno.new mss) := by
  refine ⟨rfl, h, ?_, ?_, rfl, rfl⟩
  · simp only [Ts.Reno.new, Reno.new, satMul, maxU64]
    rw [rounded_of_lt (by omega)]
    omega
  · simp [Ts.Reno.new, Reno.new, maxSafe, maxU64]

/-- below a window that a peer can advertise there is no difference -/
theorem Agrees.window (h : r.Agrees t) {n : ℕ} (hn : n ≤ maxSafe) : min n t.window = min n r.window := by
  have hc := h.cwnd
  simp only [Ts.Reno.window, Reno.window, h.mss]
  omega

theorem Agrees.setMss (h : r.Agrees t) {mss : ℕ} (hm : mss ≤ 65535) : (r.setMss mss).Agrees (t.setMss mss) := by
  have hc := h.cwnd
  refine ⟨?_, ?_, ?_, h.ssthresh, h.inFastRecovery, h.inRtoRecovery⟩ <;> simp only [Ts.Reno.setMss, Reno.setMss]
  · exact Nat.max_comm 1 mss
  · omega
  · omega

theorem Agrees.onAck (h : r.Agrees t) (acked : ℕ) : (r.onAck acked).Agrees (t.onAck acked) := by
  have hmss := h.mss_le
  have hc := h.cwnd
  have hs := h.ssthresh
  unfold Reno.onAck Ts.Reno.onAck
  simp only [h.mss, h.inFastRecovery]
  by_cases h0 : acked = 0
  · rw [if_pos h0, if_pos h0]
    exact h
  rw [if_neg h0, if_neg h0]
  by_cases hf : r.inFastRecovery = true
  · rw [if_pos hf, if_pos hf]
    exact ⟨rfl, h.mss_le, hs, hs, rfl, rfl⟩
  rw [if_neg hf, if_neg hf]
  refine ⟨rfl, h.mss_le, ?_, hs, rfl, rfl⟩
  have hsq : satMul r.mss r.mss = r.mss * r.mss := by
    have := Nat.mul_le_mul hmss hmss
    simp only [satMul, maxU64]
    omega
  simp only [hsq, max_comm r.mss, max_comm 1]
  by_cases hbig : maxSafe ≤ r.cwnd
  · -- past 2^53 both windows stay past it, however they grow
    have hgrow : ∀ x y, min (max (rounded (t.cwnd + x)) r.mss) maxSafe = min (max (satAdd r.cwnd y) r.mss) maxSafe := by
      intro x y
      have hround := rounded_cases (t.cwnd + x)
      simp only [satAdd, maxU64, maxSafe] at *
      omega
    exact hgrow _ _
  · have heq : t.cwnd = r.cwnd := by omega
    have hslow : r.cwnd < t.ssthresh ↔ r.cwnd < r.ssthresh := by omega
    have hadd := fun x => capped_add h.cwnd (rfl : min x maxSafe = min x maxSafe)
    rw [heq] at hadd ⊢
    simp only [hslow]
    have := hadd (if r.cwnd < r.ssthresh then min acked r.mss else max (r.mss * r.mss / r.cwnd) 1)
    omega

theorem Agrees.onDuplicateAck (h : r.Agrees t) : r.onDuplicateAck.Agrees t.onDuplicateAck := by
  unfold Reno.onDuplicateAck Ts.Reno.onDuplicateAck
  rw [h.inFastRecovery, h.mss]
  split_ifs with hf
  · exact ⟨rfl, h.mss_le, capped_add h.cwnd rfl, h.ssthresh, rfl, h.inRtoRecovery⟩
  · exact h

theorem Agrees.onFastLoss (h : r.Agrees t) (inFlight : ℕ) (hflight : inFlight < 2 ^ 32) :
    (r.onFastLoss inFlight).Agrees (t.onFastLoss inFlight) := by
  have hmss := h.mss_le
  unfold Reno.onFastLoss Ts.Reno.onFastLoss
  rw [h.inFastRecovery, h.mss]
  split_ifs with hf
  · exact h
  · have h2 : rounded (r.mss * 2) = r.mss * 2 := rounded_of_lt (by omega)
    have h3 : rounded (r.mss * 3) = r.mss * 3 := rounded_of_lt (by omega)
    refine ⟨rfl, h.mss_le, ?_, ?_, rfl, h.inRtoRecovery⟩ <;> simp only [h2, h3, satMul, satAdd, maxU64, maxSafe]
    · rw [rounded_of_lt (by omega)]
      omega
    · omega

theorem Agrees.onTimeout (h : r.Agrees t) (inFlight : ℕ) (hflight : inFlight < 2 ^ 32) :
    (r.onTimeout inFlight).Agrees (t.onTimeout inFlight) := by
  have hmss := h.mss_le
  have h2 : rounded (r.mss * 2) = r.mss * 2 := rounded_of_lt (by omega)
  unfold Reno.onTimeout Ts.Reno.onTimeout
  rw [h.inRtoRecovery, h.mss]
  simp only [h2, satMul, maxU64]
  split_ifs with hr
  · exact ⟨h.mss, h.mss_le, by rw [h.mss], h.ssthresh, rfl, h.inRtoRecovery⟩
  · refine ⟨rfl, h.mss_le, rfl, ?_, rfl, rfl⟩
    simp only [maxSafe]
    omega

end Reno

/-! ## Retransmission timeout -/

namespace RttEstimator

def toTs (r : RttEstimator) : Ts.RttEstimator where
  haveMeasurement := r.haveMeasurement
  srttMs := r.srttMs
  rttvarMs := r.rttvarMs
  rtoMs := r.rtoMs
  minRtoMs := r.minRtoMs
  maxRtoMs := r.maxRtoMs
  consecutiveRtos := r.consecutiveRtos
  sampleAfter := r.sampleAfter.map (·.toNat)

variable {r : RttEstimator}

theorem clamp_eq {x lo hi : ℕ} (h : lo ≤ hi) : clamp x lo hi = min hi (max lo x) := by
  unfold clamp
  split_ifs <;> omega

theorem toTs_new {initialRtoMs minRtoMs maxRtoMs : ℕ} (h : minRtoMs ≤ maxRtoMs) :
    Ts.RttEstimator.new initialRtoMs minRtoMs maxRtoMs = (new initialRtoMs minRtoMs maxRtoMs).toTs := by
  simp only [Ts.RttEstimator.new, new, toTs, clamp_eq h, Option.map_none]

@[simp] theorem toTs_timeoutMs : r.toTs.timeoutMs = r.timeoutMs := rfl

@[simp] theorem toTs_canSample (endSeq : U32) : r.toTs.canSample endSeq.toNat = r.canSample endSeq := by
  simp only [Ts.RttEstimator.canSample, canSample, toTs]
  cases r.sampleAfter with
  | none => rfl
  | some end_ => simp

@[simp] theorem toTs_onRetransmit (endSeq : U32) : r.toTs.onRetransmit endSeq.toNat = (r.onRetransmit endSeq).toTs := rfl

theorem toTs_onTimeout (hrtos : r.consecutiveRtos < 3) (hmax : r.maxRtoMs < 2 ^ 53) :
    r.toTs.onTimeout = r.onTimeout.toTs ∧ r.onTimeout.consecutiveRtos < 3 := by
  have hrto : min r.maxRtoMs (rounded (r.rtoMs * 2)) = min (satMul r.rtoMs 2) r.maxRtoMs := by
    rw [min_rounded hmax]
    simp only [satMul, maxU64]
    omega
  have hsucc : satSucc8 r.consecutiveRtos = r.consecutiveRtos + 1 := by
    simp only [satSucc8]
    omega
  simp only [Ts.RttEstimator.onTimeout, onTimeout, toTs, hrto, hsucc]
  split_ifs with h3
  · exact ⟨rfl, Nat.zero_lt_succ 2⟩
  · exact ⟨rfl, not_le.1 h3⟩

/-- the sums of a sample with the estimates so far are exact numbers -/
def SumsSafe (r : RttEstimator) (sampleMs : ℕ) : Prop :=
  r.srttMs * 7 + max sampleMs 1 < 2 ^ 53 ∧
    r.rttvarMs * 3 + (max r.srttMs (max sampleMs 1) - min r.srttMs (max sampleMs 1)) < 2 ^ 53

instance (sampleMs : ℕ) : Decidable (r.SumsSafe sampleMs) := by unfold SumsSafe; infer_instance

theorem toTs_sample {sampleMs : ℕ} (h : r.SumsSafe sampleMs) (hle : r.minRtoMs ≤ r.maxRtoMs) (hmax : r.maxRtoMs < 2 ^ 53) :
    r.toTs.sample sampleMs = (r.sample sampleMs).toTs ∧ (r.sample sampleMs).consecutiveRtos < 3 := by
  obtain ⟨h7, h3⟩ := h
  -- the timeout is cut at the maximum, on either side of 2^53
  have hrto : ∀ srtt rttvar, min r.maxRtoMs (max r.minRtoMs (rounded (srtt + max 5 (rounded (rttvar * 4))))) =
      clamp (satAdd srtt (max 5 (satMul rttvar 4))) r.minRtoMs r.maxRtoMs := fun srtt rttvar => by
    have h1 := rounded_cases (rttvar * 4)
    have h2 := rounded_cases (srtt + max 5 (rounded (rttvar * 4)))
    rw [clamp_eq hle]
    simp only [satAdd, satMul, maxU64]
    omega
  have hvar : rounded (r.rttvarMs * 3) = r.rttvarMs * 3 := rounded_of_lt (by omega)
  have hsrtt : rounded (r.srttMs * 7) = r.srttMs * 7 := rounded_of_lt (by omega)
  simp only [Ts.RttEstimator.sample, sample, toTs, max_comm 1]
  by_cases hm : r.haveMeasurement = true
  · simp only [hm, if_true, hvar, hsrtt, rounded_of_lt h3, rounded_of_lt h7, hrto, wrap64]
    rw [Nat.mod_eq_of_lt (by omega), Nat.mod_eq_of_lt (by omega), Nat.mod_eq_of_lt (by omega), Nat.mod_eq_of_lt (by omega)]
    exact ⟨rfl, Nat.zero_lt_succ 2⟩
  · simp only [hm, Bool.false_eq_true, if_false, hrto]
    exact ⟨rfl, Nat.zero_lt_succ 2⟩

end RttEstimator

end FipsTcp
