/-
Accounting of the TypeScript package: configuration (`types.ts`), Reno (`reno.ts`), the retransmission timeout (`rtt.ts`), the
zero-window timer (`persist.ts`) and the payload markers (`marker.ts`).

Where the Rust code saturates, these are doubles: a sum or a product is rounded (`rounded`), which changes nothing below 2^53.
Division by a power of two is exact, and the quotient of `onAck` is below 2^32, so its floor is exact as well.
-/
import FipsTcp.Ts.Wire
import FipsTcp.Core.Types

namespace FipsTcp.Ts

open Number

/-! ## `types.ts` -/

structure Config where
  mss : ℕ
  receiveBuffer : ℕ
  sendBuffer : ℕ
  maxConnections : ℕ
  maxConnectionsPerPeer : ℕ
  maxReassemblySegments : ℕ
  initialRtoMs : ℕ
  minRtoMs : ℕ
  maxRtoMs : ℕ
  maxRetransmissions : ℕ
  finWait2Ms : ℕ
  timeWaitMs : ℕ
deriving DecidableEq, Repr

def DEFAULT_CONFIG : Config where
  mss := 1024
  receiveBuffer := 65535
  sendBuffer := 1024 * 1024
  maxConnections := 1024
  maxConnectionsPerPeer := maxSafe
  maxReassemblySegments := 128
  initialRtoMs := 1000
  minRtoMs := 200
  maxRtoMs := 60000
  maxRetransmissions := 8
  finWait2Ms := 60000
  timeWaitMs := 30000

def positiveInteger (value : ℕ) (name : String) : Except String Unit :=
  if maxSafe < value ∨ value = 0 then .error s!"{name} must be a positive integer" else .ok ()

/-- `makeConfig`, for a configuration that overrides every default -/
def makeConfig (config : Config) : Except String Config := do
  positiveInteger config.mss "MSS"
  if 65535 < config.mss then .error "MSS must fit in a u16"
  positiveInteger config.receiveBuffer "receive buffer"
  if 65535 < config.receiveBuffer then .error "receive buffer must be at most 65535 bytes"
  positiveInteger config.sendBuffer "send buffer"
  positiveInteger config.maxConnections "connection limit"
  positiveInteger config.maxConnectionsPerPeer "per-peer connection limit"
  positiveInteger config.maxReassemblySegments "reassembly segment limit"
  positiveInteger config.initialRtoMs "initial RTO"
  positiveInteger config.minRtoMs "minimum RTO"
  positiveInteger config.maxRtoMs "maximum RTO"
  positiveInteger config.maxRetransmissions "retransmission limit"
  if 255 < config.maxRetransmissions then .error "retransmission limit must fit in a u8"
  positiveInteger config.finWait2Ms "FIN-WAIT-2 duration"
  if config.initialRtoMs < config.minRtoMs ∨ config.maxRtoMs < config.initialRtoMs then
    .error "invalid retransmission timeout bounds"
  if maxSafe < config.timeWaitMs then .error "TIME-WAIT duration must be a non-negative integer"
  return config

/-- the defaults pass their own check -/
theorem makeConfig_default : makeConfig DEFAULT_CONFIG = .ok DEFAULT_CONFIG := by rfl

/-- the value of a member of `State`, an enumeration with the members of the Rust one -/
def stateText : State → String
  | .synSent => "syn-sent"
  | .synReceived => "syn-received"
  | .established => "established"
  | .finWait1 => "fin-wait-1"
  | .finWait2 => "fin-wait-2"
  | .closeWait => "close-wait"
  | .closing => "closing"
  | .lastAck => "last-ack"
  | .timeWait => "time-wait"

/-! ## `reno.ts` -/

structure Reno where
  mss : ℕ
  cwnd : ℕ
  ssthresh : ℕ
  inFastRecovery : Bool
  inRtoRecovery : Bool
deriving DecidableEq, Repr

namespace Reno

def new (mss : ℕ) : Reno := ⟨mss, rounded (mss * 2), maxSafe, false, false⟩

def window (r : Reno) : ℕ := max r.cwnd r.mss

def setMss (r : Reno) (mss : ℕ) : Reno := { r with mss := max 1 mss, cwnd := max r.cwnd (max 1 mss) }

def onAck (r : Reno) (acked : ℕ) : Reno :=
  if acked = 0 then r
  else
    let r := { r with inRtoRecovery := false }
    if r.inFastRecovery then { r with inFastRecovery := false, cwnd := r.ssthresh }
    else
      let increment := if r.cwnd < r.ssthresh then min acked r.mss else max 1 (r.mss * r.mss / r.cwnd)
      { r with cwnd := max r.mss (rounded (r.cwnd + increment)) }

def onDuplicateAck (r : Reno) : Reno := if r.inFastRecovery then { r with cwnd := rounded (r.cwnd + r.mss) } else r

def onFastLoss (r : Reno) (inFlight : ℕ) : Reno :=
  if r.inFastRecovery then r
  else
    let r := { r with ssthresh := max (inFlight / 2) (rounded (r.mss * 2)) }
    { r with cwnd := rounded (r.ssthresh + rounded (r.mss * 3)), inFastRecovery := true }

def onTimeout (r : Reno) (inFlight : ℕ) : Reno :=
  let r :=
    if r.inRtoRecovery then r
    else { r with ssthresh := max (inFlight / 2) (rounded (r.mss * 2)), inRtoRecovery := true }
  { r with cwnd := r.mss, inFastRecovery := false }

end Reno

/-! ## `rtt.ts` -/

structure RttEstimator where
  haveMeasurement : Bool
  srttMs : ℕ
  rttvarMs : ℕ
  rtoMs : ℕ
  minRtoMs : ℕ
  maxRtoMs : ℕ
  consecutiveRtos : ℕ
  sampleAfter : Option ℕ
deriving DecidableEq, Repr

namespace RttEstimator

def new (initialRtoMs minRtoMs maxRtoMs : ℕ) : RttEstimator where
  haveMeasurement := false
  srttMs := 0
  rttvarMs := 0
  rtoMs := min maxRtoMs (max minRtoMs initialRtoMs)
  minRtoMs
  maxRtoMs
  consecutiveRtos := 0
  sampleAfter := none

def timeoutMs (r : RttEstimator) : ℕ := r.rtoMs

def sample (r : RttEstimator) (sampleMs : ℕ) : RttEstimator :=
  let sample := max 1 sampleMs
  let r :=
    if r.haveMeasurement then
      let difference := max r.srttMs sample - min r.srttMs sample
      { r with
        rttvarMs := (rounded (rounded (r.rttvarMs * 3) + difference) + 3) / 4
        srttMs := (rounded (rounded (r.srttMs * 7) + sample) + 7) / 8 }
    else { r with haveMeasurement := true, srttMs := sample, rttvarMs := sample / 2 }
  { r with
    rtoMs := min r.maxRtoMs (max r.minRtoMs (rounded (r.srttMs + max 5 (rounded (r.rttvarMs * 4)))))
    consecutiveRtos := 0
    sampleAfter := none }

def canSample (r : RttEstimator) (endSeq : ℕ) : Bool :=
  match r.sampleAfter with
  | none => true
  | some sampleAfter => decide (after endSeq sampleAfter)

def onRetransmit (r : RttEstimator) (endSeq : ℕ) : RttEstimator := { r with sampleAfter := some endSeq }

def onTimeout (r : RttEstimator) : RttEstimator :=
  let r := { r with rtoMs := min r.maxRtoMs (rounded (r.rtoMs * 2)), consecutiveRtos := r.consecutiveRtos + 1 }
  if 3 ≤ r.consecutiveRtos then { r with haveMeasurement := false, consecutiveRtos := 0 } else r

end RttEstimator

/-! ## `persist.ts` -/

structure PersistTimer where
  nextMs : Option ℕ
  probes : ℕ
deriving DecidableEq, Repr

inductive PersistAction where
  | wait
  | probe
  | abort
deriving DecidableEq, Repr

namespace PersistTimer

def new : PersistTimer := ⟨none, 0⟩

def update (p : PersistTimer) (window nowMs rtoMs : ℕ) : PersistTimer :=
  if window = 0 then { p with nextMs := some (p.nextMs.getD (rounded (nowMs + rtoMs))) } else ⟨none, 0⟩

def action (p : PersistTimer) (nowMs : ℕ) (config : Config) : PersistTimer × PersistAction :=
  let nextMs := p.nextMs.getD (rounded (nowMs + config.initialRtoMs))
  let p := { p with nextMs := some nextMs }
  if nowMs < nextMs then (p, .wait)
  else (p, if config.maxRetransmissions ≤ p.probes then .abort else .probe)

def onProbe (p : PersistTimer) (nowMs : ℕ) (config : Config) : PersistTimer :=
  let probes := p.probes + 1
  let delay := min config.maxRtoMs (rounded (config.initialRtoMs * 2 ^ min 16 probes))
  ⟨some (rounded (nowMs + delay)), probes⟩

end PersistTimer

/-! ## `marker.ts` -/

/-- the counters are `bigint`s -/
structure SendProgress where
  connectionToken : ℕ
  acceptedPayloadBytes : ℕ
  ackedPayloadBytes : ℕ
deriving DecidableEq, Repr

namespace SendProgress

/-- the token is the value `nextConnectionToken` had before it was advanced -/
def new (connectionToken : ℕ) : SendProgress := ⟨connectionToken, 0, 0⟩

def accept (p : SendProgress) (bytes : ℕ) : SendProgress :=
  { p with acceptedPayloadBytes := p.acceptedPayloadBytes + bytes }

def acknowledge (p : SendProgress) (bytes : ℕ) : SendProgress :=
  { p with ackedPayloadBytes := p.ackedPayloadBytes + bytes }

end SendProgress

end FipsTcp.Ts
