/-
Per-connection accounting: Reno congestion control (`reno.rs`), the retransmission timeout (`rtt.rs`) and the payload
markers (`marker.rs`).

Sizes and times are natural numbers; where the code saturates or clamps, so does the model. The unchecked `u64`
arithmetic of `RttEstimator::sample` wraps, as it does in a release build.
-/
import FipsTcp.Core.Types

namespace FipsTcp

/-! ## Reno -/

structure Reno where
  cwnd : ℕ
  mss : ℕ
  ssthresh : ℕ
  inFastRecovery : Bool
  inRtoRecovery : Bool
deriving DecidableEq, Repr

namespace Reno

def new (mss : ℕ) : Reno := ⟨satMul mss 2, mss, maxU64, false, false⟩

def window (r : Reno) : ℕ := max r.cwnd r.mss

def setMss (r : Reno) (mss : ℕ) : Reno := { r with mss := max mss 1, cwnd := max r.cwnd (max mss 1) }

def onAck (r : Reno) (acked : ℕ) : Reno :=
  if acked = 0 then r
  else if r.inFastRecovery then { r with inRtoRecovery := false, inFastRecovery := false, cwnd := r.ssthresh }
  else
    -- `checked_div` by zero is `None`, and then zero: as the division of natural numbers has it
    let increment := if r.cwnd < r.ssthresh then min acked r.mss else max (satMul r.mss r.mss / r.cwnd) 1
    { r with inRtoRecovery := false, cwnd := max (satAdd r.cwnd increment) r.mss }

def onDuplicateAck (r : Reno) : Reno := if r.inFastRecovery then { r with cwnd := satAdd r.cwnd r.mss } else r

def onFastLoss (r : Reno) (inFlight : ℕ) : Reno :=
  if r.inFastRecovery then r
  else
    let ssthresh := max (inFlight / 2) (satMul r.mss 2)
    { r with ssthresh, cwnd := satAdd ssthresh (satMul r.mss 3), inFastRecovery := true }

def onTimeout (r : Reno) (inFlight : ℕ) : Reno :=
  let r' := if r.inRtoRecovery then r
    else { r with ssthresh := max (inFlight / 2) (satMul r.mss 2), inRtoRecovery := true }
  { r' with cwnd := r'.mss, inFastRecovery := false }

@[simp] theorem onAck_mss (r : Reno) (acked : ℕ) : (r.onAck acked).mss = r.mss := by unfold onAck; split_ifs <;> rfl

@[simp] theorem onDuplicateAck_mss (r : Reno) : r.onDuplicateAck.mss = r.mss := by unfold onDuplicateAck; split_ifs <;> rfl

@[simp] theorem onFastLoss_mss (r : Reno) (inFlight : ℕ) : (r.onFastLoss inFlight).mss = r.mss := by
  unfold onFastLoss; split_ifs <;> rfl

@[simp] theorem onTimeout_mss (r : Reno) (inFlight : ℕ) : (r.onTimeout inFlight).mss = r.mss := by
  unfold onTimeout; simp only; split_ifs <;> rfl

theorem window_pos {r : Reno} (h : 0 < r.mss) : 0 < r.window := lt_of_lt_of_le h (le_max_right _ _)

end Reno

/-! ## Retransmission timeout -/

structure RttEstimator where
  haveMeasurement : Bool
  srttMs : ℕ
  rttvarMs : ℕ
  rtoMs : ℕ
  minRtoMs : ℕ
  maxRtoMs : ℕ
  consecutiveRtos : ℕ
  sampleAfter : Option U32
deriving DecidableEq, Repr

/-- `u64::clamp` -/
def clamp (x lo hi : ℕ) : ℕ := if x < lo then lo else if hi < x then hi else x

/-- a `u64` result that wraps -/
def wrap64 (x : ℕ) : ℕ := x % 2 ^ 64

namespace RttEstimator

def new (initialRtoMs minRtoMs maxRtoMs : ℕ) : RttEstimator :=
  ⟨false, 0, 0, clamp initialRtoMs minRtoMs maxRtoMs, minRtoMs, maxRtoMs, 0, none⟩

def timeoutMs (r : RttEstimator) : ℕ := r.rtoMs

def canSample (r : RttEstimator) (endSeq : U32) : Bool :=
  match r.sampleAfter with
  | none => true
  | some end_ => decide (after endSeq end_)

def onRetransmit (r : RttEstimator) (endSeq : U32) : RttEstimator := { r with sampleAfter := some endSeq }

def sample (r : RttEstimator) (sampleMs : ℕ) : RttEstimator :=
  let sampleMs := max sampleMs 1
  let r' : RttEstimator :=
    if r.haveMeasurement then
      let diff := max r.srttMs sampleMs - min r.srttMs sampleMs
      { r with
        rttvarMs := (wrap64 (wrap64 (r.rttvarMs * 3) + diff) + 3) / 4
        srttMs := (wrap64 (wrap64 (r.srttMs * 7) + sampleMs) + 7) / 8 }
    else { r with haveMeasurement := true, srttMs := sampleMs, rttvarMs := sampleMs / 2 }
  let margin := max 5 (satMul r'.rttvarMs 4)
  { r' with
    rtoMs := clamp (satAdd r'.srttMs margin) r'.minRtoMs r'.maxRtoMs
    consecutiveRtos := 0
    sampleAfter := none }

def onTimeout (r : RttEstimator) : RttEstimator :=
  let r' := { r with rtoMs := min (satMul r.rtoMs 2) r.maxRtoMs, consecutiveRtos := satSucc8 r.consecutiveRtos }
  if 3 ≤ r'.consecutiveRtos then { r' with haveMeasurement := false, consecutiveRtos := 0 } else r'

/-- the timeout lies within the configured bounds, and is never zero -/
structure InBounds (config : Config) (r : RttEstimator) : Prop where
  minRto : r.minRtoMs = config.minRtoMs
  maxRto : r.maxRtoMs = config.maxRtoMs
  pos : 0 < r.rtoMs
  le : r.rtoMs ≤ config.maxRtoMs

theorem clamp_bounds {x lo hi : ℕ} (h : lo ≤ hi) : lo ≤ clamp x lo hi ∧ clamp x lo hi ≤ hi := by
  unfold clamp; split_ifs <;> omega

variable {config : Config} {r : RttEstimator}

theorem new_inBounds (hv : config.Valid) :
    (new config.initialRtoMs config.minRtoMs config.maxRtoMs).InBounds config := by
  have h := clamp_bounds (x := config.initialRtoMs) (hv.minRto_le.trans hv.maxRto_ge)
  have := hv.minRto_pos
  exact ⟨rfl, rfl, by simp only [new]; omega, h.2⟩

theorem InBounds.sample (hv : config.Valid) (h : r.InBounds config) (sampleMs : ℕ) : (r.sample sampleMs).InBounds config := by
  have hmin := hv.minRto_pos
  have hle := hv.minRto_le.trans hv.maxRto_ge
  have hmm : (r.sample sampleMs).minRtoMs = r.minRtoMs ∧ (r.sample sampleMs).maxRtoMs = r.maxRtoMs := by
    unfold RttEstimator.sample; simp only; split_ifs <;> exact ⟨rfl, rfl⟩
  have hrto : r.minRtoMs ≤ (r.sample sampleMs).rtoMs ∧ (r.sample sampleMs).rtoMs ≤ r.maxRtoMs := by
    have hr : r.minRtoMs ≤ r.maxRtoMs := by rw [h.minRto, h.maxRto]; exact hle
    unfold RttEstimator.sample; simp only; split_ifs <;> exact clamp_bounds hr
  rw [h.minRto, h.maxRto] at hrto hmm
  exact ⟨hmm.1, hmm.2, by omega, hrto.2⟩

theorem InBounds.onTimeout (hv : config.Valid) (h : r.InBounds config) : r.onTimeout.InBounds config := by
  have hmax := lt_of_lt_of_le hv.minRto_pos (hv.minRto_le.trans hv.maxRto_ge)
  have hpos := h.pos
  have hm := h.maxRto
  have hrto : r.onTimeout.rtoMs = min (satMul r.rtoMs 2) r.maxRtoMs := by
    unfold RttEstimator.onTimeout; simp only; split_ifs <;> rfl
  have hmm : r.onTimeout.minRtoMs = r.minRtoMs ∧ r.onTimeout.maxRtoMs = r.maxRtoMs := by
    unfold RttEstimator.onTimeout; simp only; split_ifs <;> exact ⟨rfl, rfl⟩
  refine ⟨hmm.1.trans h.minRto, hmm.2.trans h.maxRto, ?_, ?_⟩ <;> rw [hrto, hm]
  · simp only [satMul, maxU64]; omega
  · omega

theorem InBounds.onRetransmit (h : r.InBounds config) (endSeq : U32) : (r.onRetransmit endSeq).InBounds config :=
  ⟨h.minRto, h.maxRto, h.pos, h.le⟩

end RttEstimator

/-! ## Payload markers -/

structure SendMarker where
  connectionId : ConnectionId
  connectionToken : ℕ
  acceptedPayloadBytes : ℕ
deriving DecidableEq, Repr

inductive MarkerStatus where
  | pending
  | acked
  | connectionGone
deriving DecidableEq, Repr

structure SendProgress where
  connectionToken : ℕ
  acceptedPayloadBytes : ℕ
  ackedPayloadBytes : ℕ
deriving DecidableEq, Repr

namespace SendProgress

/-- the token is the value `NEXT_CONNECTION_TOKEN` had before it was advanced -/
def new (connectionToken : ℕ) : SendProgress := ⟨connectionToken, 0, 0⟩

def accept (p : SendProgress) (bytes : ℕ) : SendProgress :=
  { p with acceptedPayloadBytes := p.acceptedPayloadBytes + bytes }

def acknowledge (p : SendProgress) (bytes : ℕ) : SendProgress :=
  { p with ackedPayloadBytes := p.ackedPayloadBytes + bytes }

def marker (p : SendProgress) (connectionId : ConnectionId) : SendMarker :=
  ⟨connectionId, p.connectionToken, p.acceptedPayloadBytes⟩

def status (p : SendProgress) (marker : SendMarker) : MarkerStatus :=
  if marker.connectionToken ≠ p.connectionToken then .connectionGone
  else if marker.acceptedPayloadBytes ≤ p.ackedPayloadBytes then .acked
  else .pending

end SendProgress

end FipsTcp
