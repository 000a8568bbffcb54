/-
One connection of the TypeScript package (`connection.ts`, `connection-types.ts`, `reset.ts`).

Every method takes the connection and returns the new one with what it emits. The loops of `applyAck`, `flushData` and
`drainReassembly` run on the tracked segments, the bytes queued and the chunks stored. An index of `subarray` and `slice` can
be negative and then counts from the end (`relativeIndex`).
-/
import FipsTcp.Ts.Recovery

namespace FipsTcp.Ts

open Number

/-- a string, as its UTF-16 code units -/
abbrev JsString := List U16

/-! ## `connection-types.ts` -/

structure TrackedSegment where
  seq : ℕ
  flags : FlagSet
  payload : List U8
  sentAtMs : ℕ
  transmissions : ℕ
deriving DecidableEq, Repr

structure ReassemblySegment where
  seq : ℕ
  payload : List U8
  fin : Bool
deriving DecidableEq, Repr

structure ConnectionUpdate where
  segments : List Segment
  accepted : Bool
  closed : Bool
deriving DecidableEq, Repr

structure AckOutcome where
  finAcked : Bool
  retransmit : Option Segment

def isDuplicateAckCandidate (segment : Segment) (sendUna remoteWindow : ℕ) : Bool :=
  segment.ack == some sendUna && segment.payload.length == 0 && !segment.flags.has Flags.Syn &&
    !segment.flags.has Flags.Fin && decide (segment.window ≤ remoteWindow)

def openUpdate (segments : List Segment) : ConnectionUpdate := ⟨segments, false, false⟩

def closeUpdate (segments : List Segment) : ConnectionUpdate := ⟨segments, false, true⟩

def trackedEnd (segment : TrackedSegment) : ℕ :=
  u32 (segment.seq + segment.payload.length + (segment.flags.has Flags.Syn).toNat + (segment.flags.has Flags.Fin).toNat)

def reassemblyEnd (segment : ReassemblySegment) : ℕ := u32 (segment.seq + segment.payload.length + segment.fin.toNat)

/-! ## `reset.ts` -/

inductive ResetAction where
  | close
  | challenge
  | drop
deriving DecidableEq, Repr

def resetAction (state : State) (sequence : ℕ) (acknowledgment : Option ℕ) (sendUna sendNxt recvNxt recvWindow : ℕ) :
    ResetAction :=
  if state = .synSent then
    match acknowledgment with
    | some acknowledgment =>
      if after acknowledgment sendUna ∧ ¬ after acknowledgment sendNxt then .close else .drop
    | none => .drop
  else if sequence = recvNxt then .close
  else if 0 < recvWindow ∧ distance recvNxt sequence < recvWindow then .challenge
  else .drop

/-! ## `connection.ts` -/

structure Connection where
  state : State
  peer : JsString
  localPort : ℕ
  remotePort : ℕ
  readClosed : Bool
  sendUna : ℕ
  sendNxt : ℕ
  recvNxt : ℕ
  remoteWindow : ℕ
  mss : ℕ
  receiveCapacity : ℕ
  maxTransmissions : ℕ
  sendQueue : List U8
  recvQueue : List U8
  reassembly : List ReassemblySegment
  unacked : List TrackedSegment
  rtt : RttEstimator
  reno : Reno
  duplicateAcks : ℕ
  rtoRecoveryUntil : Option ℕ
  closeRequested : Bool
  persist : PersistTimer
  sendProgress : SendProgress
  finWait2UntilMs : Option ℕ
  timeWaitUntilMs : Option ℕ
deriving DecidableEq, Repr

def deadlineAfter (nowMs durationMs : ℕ) : ℕ := min maxSafe (rounded (nowMs + durationMs))

/-- the index that `subarray` and `slice` make of theirs -/
def relativeIndex (length : ℕ) (index : ℤ) : ℕ := if index < 0 then (length + index).toNat else min index.toNat length

namespace Connection

def availableWindow (c : Connection) : ℕ :=
  c.receiveCapacity - c.recvQueue.length - (c.reassembly.map (·.payload.length)).sum

def availableWindowU16 (c : Connection) : ℕ := min 65535 c.availableWindow

def segment (c : Connection) (seq : ℕ) (flags : FlagSet) (payload : List U8) : Segment :=
  buildSegment c.localPort c.remotePort seq c.recvNxt c.availableWindowU16 c.mss flags payload

def ackSegment (c : Connection) : Segment := c.segment c.sendNxt ⟨Flags.Ack⟩ []

def segmentFor (c : Connection) (tracked : TrackedSegment) : Segment := c.segment tracked.seq tracked.flags tracked.payload

def resetSegment (c : Connection) : Segment :=
  buildSegment c.localPort c.remotePort c.sendNxt c.recvNxt 0 c.mss ⟨Flags.Rst⟩ []

def updateRemoteWindow (c : Connection) (window nowMs : ℕ) : Connection :=
  { c with remoteWindow := window, persist := c.persist.update window nowMs c.rtt.timeoutMs }

def negotiateMss (c : Connection) (segment : Segment) (config : Config) : Connection :=
  let mss := max 1 (min (segment.maxSegmentSize.getD 1024) config.mss)
  { c with mss, reno := c.reno.setMss mss }

def new (peer : JsString) (localPort remotePort : ℕ) (state : State) (sendIsn recvNxt : ℕ) (config : Config) (token : ℕ) :
    Connection where
  state
  peer
  localPort
  remotePort
  readClosed := false
  sendUna := sendIsn
  sendNxt := sendIsn
  recvNxt
  remoteWindow := 65535
  mss := config.mss
  receiveCapacity := config.receiveBuffer
  maxTransmissions := config.maxRetransmissions
  sendQueue := []
  recvQueue := []
  reassembly := []
  unacked := []
  rtt := RttEstimator.new config.initialRtoMs config.minRtoMs config.maxRtoMs
  reno := Reno.new config.mss
  duplicateAcks := 0
  rtoRecoveryUntil := none
  closeRequested := false
  persist := PersistTimer.new
  sendProgress := SendProgress.new token
  finWait2UntilMs := none
  timeWaitUntilMs := none

def sendTracked (c : Connection) (flags : FlagSet) (payload : List U8) (nowMs : ℕ) : Connection × Segment :=
  let tracked : TrackedSegment := ⟨c.sendNxt, flags, payload, nowMs, 1⟩
  let c := { c with sendNxt := trackedEnd tracked }
  let segment := c.segmentFor tracked
  ({ c with unacked := c.unacked ++ [tracked] }, segment)

def client (peer : JsString) (localPort remotePort isn nowMs : ℕ) (config : Config) (token : ℕ) :
    Connection × List Segment :=
  let (c, syn) := (new peer localPort remotePort .synSent isn 0 config token).sendTracked ⟨Flags.Syn⟩ [] nowMs
  (c, [syn])

def server (peer : JsString) (syn : Segment) (isn nowMs : ℕ) (config : Config) (token : ℕ) : Connection × List Segment :=
  let c := new peer syn.dstPort syn.srcPort .synReceived isn (u32 (syn.seq + 1)) config token
  let c := c.updateRemoteWindow syn.window nowMs
  let c := c.negotiateMss syn config
  let (c, synAck) := c.sendTracked ⟨Flags.Syn ||| Flags.Ack⟩ [] nowMs
  (c, [synAck])

def retransmitOldest (c : Connection) (nowMs : ℕ) (timeout : Bool) : Connection × Option Segment :=
  match c.unacked with
  | [] => (c, none)
  | tracked :: rest =>
    if c.maxTransmissions ≤ tracked.transmissions then (c, none)
    else
      let tracked := { tracked with sentAtMs := nowMs, transmissions := min 255 (tracked.transmissions + 1) }
      let c := { c with
        rtt := c.rtt.onRetransmit c.sendNxt
        unacked := tracked :: rest
        duplicateAcks := if timeout then 0 else c.duplicateAcks }
      (c, some (c.segmentFor tracked))

/-! ### Sending -/

/-- `Math.max(0, window - inFlight)` -/
def available (c : Connection) : ℕ := min c.remoteWindow c.reno.window - distance c.sendUna c.sendNxt

/-- the first bytes of the queue as one segment -/
def sendQueued (c : Connection) (count nowMs : ℕ) : Connection × Segment :=
  { c with sendQueue := c.sendQueue.drop count }.sendTracked ⟨Flags.Ack ||| Flags.Psh⟩ (c.sendQueue.take count) nowMs

/-- the FIN of a requested close -/
def sendFin (c : Connection) (nowMs : ℕ) : Connection × Segment :=
  let state := if c.state = .established then .finWait1 else .lastAck
  { c with closeRequested := false, state }.sendTracked ⟨Flags.Fin ||| Flags.Ack⟩ [] nowMs

/-- the loop of `flushData`; `fuel` is at least the number of bytes queued -/
def flushLoop (nowMs : ℕ) : ℕ → Connection → Connection × List Segment
  | 0, c => (c, [])
  | fuel + 1, c =>
    let available := c.available
    if available = 0 ∨ c.sendQueue.length = 0 then (c, [])
    else
      let (c, segment) := c.sendQueued (min (min available c.mss) c.sendQueue.length) nowMs
      let (c, output) := flushLoop nowMs fuel c
      (c, segment :: output)

def flushData (c : Connection) (nowMs : ℕ) : Connection × List Segment :=
  if c.state ≠ .established ∧ c.state ≠ .closeWait then (c, [])
  else
    let (c, output) := flushLoop nowMs c.sendQueue.length c
    if c.closeRequested ∧ c.sendQueue.length = 0 ∧ 0 < c.available then
      let (c, fin) := c.sendFin nowMs
      (c, output ++ [fin])
    else (c, output)

def hasZeroWindowWork (c : Connection) : Bool :=
  c.closeRequested || decide (0 < c.sendQueue.length) || c.unacked.any fun segment => decide (0 < segment.payload.length)

def zeroWindowProbe (c : Connection) (nowMs : ℕ) : Connection × Option Segment :=
  match c.unacked.find? fun segment => decide (0 < segment.payload.length) with
  | some unacked =>
    let c := { c with rtt := c.rtt.onRetransmit c.sendNxt }
    (c, some (c.segment unacked.seq ⟨Flags.Ack ||| Flags.Psh⟩ (unacked.payload.take 1)))
  | none =>
    if c.sendQueue.length = 0 then (c, none)
    else
      let (c, segment) := c.sendQueued 1 nowMs
      (c, some segment)

/-! ### Acknowledgments -/

/-- the `while` loop of `applyAck` -/
def ackLoop (rtt : RttEstimator) (ack nowMs : ℕ) :
    List TrackedSegment → ℕ → Bool → Option ℕ → List TrackedSegment × ℕ × Bool × Option ℕ
  | [], ackedPayload, finAcked, rttSample => ([], ackedPayload, finAcked, rttSample)
  | tracked :: rest, ackedPayload, finAcked, rttSample =>
    if beforeOrEqual (trackedEnd tracked) ack then
      ackLoop rtt ack nowMs rest (ackedPayload + tracked.payload.length) (finAcked || tracked.flags.has Flags.Fin)
        (if rtt.canSample (trackedEnd tracked) then some (nowMs - tracked.sentAtMs) else rttSample)
    else (tracked :: rest, ackedPayload, finAcked, rttSample)

/-- what `applyAck` does to the first segment that is left, and the bytes it took of it -/
def trimFirst (ack : ℕ) : List TrackedSegment → List TrackedSegment × ℕ
  | [] => ([], 0)
  | first :: rest =>
    if before first.seq ack ∧ before ack (trackedEnd first) ∧ ¬ first.flags.has Flags.Syn ∧ ¬ first.flags.has Flags.Fin then
      let count := min (distance first.seq ack) first.payload.length
      ({ first with payload := first.payload.drop count, seq := ack } :: rest, count)
    else (first :: rest, 0)

/-- `applyAck` for the ACK of before -/
def applyOldAck (c : Connection) (nowMs : ℕ) (duplicateCandidate : Bool) : Connection × AckOutcome :=
  if duplicateCandidate ∧ 0 < c.unacked.length then
    let c := { c with duplicateAcks := min 255 (c.duplicateAcks + 1), reno := c.reno.onDuplicateAck }
    if c.duplicateAcks = 3 then
      let c := { c with reno := c.reno.onFastLoss (distance c.sendUna c.sendNxt) }
      let (c, retransmit) := c.retransmitOldest nowMs false
      (c, ⟨false, retransmit⟩)
    else (c, ⟨false, none⟩)
  else ({ c with duplicateAcks := 0 }, ⟨false, none⟩)

/-- `applyAck` for an ACK that moves on -/
def applyNewAck (c : Connection) (ack nowMs : ℕ) : Connection × AckOutcome :=
  let (unacked, ackedPayload, finAcked, rttSample) := ackLoop c.rtt ack nowMs c.unacked 0 false none
  let (unacked, count) := trimFirst ack unacked
  let c := { c with
    duplicateAcks := 0
    unacked
    sendUna := ack
    rtoRecoveryUntil := c.rtoRecoveryUntil.bind fun until_ => if before ack until_ then some until_ else none
    rtt := match rttSample with
      | some sample => c.rtt.sample sample
      | none => c.rtt
    reno := c.reno.onAck (ackedPayload + count)
    sendProgress := c.sendProgress.acknowledge (ackedPayload + count) }
  (c, ⟨finAcked, none⟩)

def applyAck (c : Connection) (ack nowMs : ℕ) (duplicateCandidate : Bool) : Connection × AckOutcome :=
  if after ack c.sendNxt ∨ before ack c.sendUna then (c, ⟨false, none⟩)
  else if ack = c.sendUna then c.applyOldAck nowMs duplicateCandidate
  else c.applyNewAck ack nowMs

/-! ### Receiving -/

def enterTimeWait (c : Connection) (nowMs : ℕ) (config : Config) : Connection :=
  { c with
    state := .timeWait
    finWait2UntilMs := none
    timeWaitUntilMs := some (deadlineAfter nowMs config.timeWaitMs) }

def onRemoteFin (c : Connection) (nowMs : ℕ) (config : Config) : Connection :=
  let c := { c with readClosed := true }
  if c.state = .established then { c with state := .closeWait }
  else if c.state = .finWait1 then { c with state := .closing }
  else if c.state = .finWait2 then c.enterTimeWait nowMs config
  else c

/-- the chunk that `insertReceived` keeps of a segment -/
def receivedChunk (c : Connection) (seq : ℕ) (payload : List U8) (fin : Bool) : Option ReassemblySegment :=
  let originalEnd := u32 (seq + payload.length)
  let trim := distance seq c.recvNxt
  let data :=
    if before seq c.recvNxt then (if payload.length ≤ trim then [] else payload.drop trim) else payload
  let start := if before seq c.recvNxt then c.recvNxt else seq
  let window := c.availableWindow
  let offset := distance c.recvNxt start
  if after start c.recvNxt ∧ window ≤ offset then none
  else
    let allowed := min data.length (window - offset)
    let keptFin := fin && decide (allowed = data.length) && decide (originalEnd = u32 (start + data.length))
    let chunk : ReassemblySegment := ⟨start, data.take allowed, keptFin⟩
    if chunk.payload.length = 0 ∧ ¬ chunk.fin then none else some chunk

def insertReceived (c : Connection) (seq : ℕ) (payload : List U8) (fin : Bool) (config : Config) : Connection :=
  match c.receivedChunk seq payload fin with
  | none => c
  | some chunk =>
    if c.reassembly.any fun existing => existing.seq == chunk.seq && reassemblyEnd existing == reassemblyEnd chunk then c
    else if c.reassembly.length < config.maxReassemblySegments then { c with reassembly := c.reassembly ++ [chunk] }
    else c

/-- the chunks that the inner loop of `drainReassembly` leaves -/
def keepChunk (recvNxt : ℕ) (segment : ReassemblySegment) : Bool :=
  decide (¬ (beforeOrEqual (reassemblyEnd segment) recvNxt ∧ ¬ (segment.fin = true ∧ reassemblyEnd segment = u32 (recvNxt + 1))))

/-- the chunks that can be delivered -/
def dueChunk (recvNxt : ℕ) (segment : ReassemblySegment) : Bool := decide (segment.seq = recvNxt ∨ before segment.seq recvNxt)

/-- a chunk without its part before `recvNxt` -/
def trimChunk (recvNxt : ℕ) (segment : ReassemblySegment) : ReassemblySegment :=
  if before segment.seq recvNxt then
    let trim := min (distance segment.seq recvNxt) segment.payload.length
    { segment with payload := segment.payload.drop trim, seq := recvNxt }
  else segment

/-- delivery of a chunk that starts at `recvNxt`; the flag says whether the loop goes on -/
def deliverChunk (c : Connection) (segment : ReassemblySegment) (nowMs : ℕ) (config : Config) : Connection × Bool :=
  let accepted : ℤ := min ((config.receiveBuffer : ℤ) - c.recvQueue.length) segment.payload.length
  let split := relativeIndex segment.payload.length accepted
  let c := { c with
    recvQueue := c.recvQueue ++ segment.payload.take split
    recvNxt := toUint32 (c.recvNxt + accepted) }
  let segment := { segment with payload := segment.payload.drop split }
  if 0 < segment.payload.length then
    ({ c with reassembly := c.reassembly ++ [{ segment with seq := c.recvNxt }] }, false)
  else if segment.fin then ({ c with recvNxt := u32 (c.recvNxt + 1) }.onRemoteFin nowMs config, true)
  else (c, true)

/-- one round of the loop of `drainReassembly` -/
def drainOnce (c : Connection) (nowMs : ℕ) (config : Config) : Connection × Bool :=
  let kept := c.reassembly.filter (keepChunk c.recvNxt)
  match kept.find? (dueChunk c.recvNxt) with
  | none => ({ c with reassembly := kept }, false)
  | some segment =>
    { c with reassembly := kept.eraseP (dueChunk c.recvNxt) }.deliverChunk (trimChunk c.recvNxt segment) nowMs config

/-- the loop of `drainReassembly`; `fuel` is more than the number of chunks -/
def drainLoop (nowMs : ℕ) (config : Config) : ℕ → Connection → Connection
  | 0, c => c
  | fuel + 1, c =>
    match c.drainOnce nowMs config with
    | (c, true) => drainLoop nowMs config fuel c
    | (c, false) => c

def drainReassembly (c : Connection) (nowMs : ℕ) (config : Config) : Connection :=
  drainLoop nowMs config (c.reassembly.length + 1) c

def receiveStreamData (c : Connection) (segment : Segment) (nowMs : ℕ) (config : Config) : Connection × List Segment :=
  let c := c.insertReceived segment.seq segment.payload (segment.flags.has Flags.Fin) config
  let c := c.drainReassembly nowMs config
  (c, [c.ackSegment])

/-! ### Incoming segments -/

def handshakeResponse (c : Connection) (segment : Segment) : Option Segment :=
  if segment.flags.has Flags.Rst then none
  else if c.state = .synSent then
    match segment.ack with
    | some ack => if ¬ after ack c.sendUna ∨ after ack c.sendNxt then some (resetResponse segment) else none
    | none => none
  else if segment.flags.has Flags.Syn ∧ (c.state ≠ .synReceived ∨ u32 (segment.seq + 1) ≠ c.recvNxt) then some c.ackSegment
  else none

/-- `onSegment` for an RST -/
def onReset (c : Connection) (segment : Segment) : ConnectionUpdate :=
  match resetAction c.state segment.seq segment.ack c.sendUna c.sendNxt c.recvNxt c.availableWindow with
  | .close => closeUpdate []
  | .challenge => openUpdate [c.ackSegment]
  | .drop => openUpdate []

/-- `onSegment` in SYN-SENT -/
def onSynSent (c : Connection) (segment : Segment) (nowMs : ℕ) (config : Config) : Connection × ConnectionUpdate :=
  if segment.flags.has Flags.Syn ∧ segment.flags.has Flags.Ack ∧ segment.ack = some c.sendNxt ∧
      segment.supportsFipsVersion FIPS_VERSION then
    let c := c.updateRemoteWindow segment.window nowMs
    let c := c.negotiateMss segment config
    let (c, _) := c.applyAck c.sendNxt nowMs false
    let c := { c with recvNxt := u32 (segment.seq + 1), state := .established }
    (c, openUpdate [c.ackSegment])
  else (c, openUpdate [])

/-- `receiveStreamData` where `onSegment` calls it -/
def receiveIfData (c : Connection) (segment : Segment) (nowMs : ℕ) (config : Config) : Connection × List Segment :=
  if 0 < segment.payload.length ∨ segment.flags.has Flags.Fin then c.receiveStreamData segment nowMs config else (c, [])

/-- `onSegment` in SYN-RECEIVED -/
def onSynReceived (c : Connection) (segment : Segment) (nowMs : ℕ) (config : Config) : Connection × ConnectionUpdate :=
  if segment.flags.has Flags.Syn ∧ ¬ segment.flags.has Flags.Ack ∧ u32 (segment.seq + 1) = c.recvNxt then
    let (c, retransmit) := c.retransmitOldest nowMs false
    (c, openUpdate retransmit.toList)
  else if segment.ack ≠ some c.sendNxt then (c, openUpdate [])
  else
    let (c, _) := c.applyAck c.sendNxt nowMs false
    let c := { c.updateRemoteWindow segment.window nowMs with state := .established }
    let (c, received) := c.receiveIfData segment nowMs config
    let (c, flushed) := c.flushData nowMs
    (c, ⟨received ++ flushed, true, false⟩)

/-- what `onSegment` does when the ACK covers our FIN; `true` in second place returns from `onSegment` -/
def onFinAcked (c : Connection) (nowMs : ℕ) (config : Config) : Connection × Bool :=
  if c.state = .finWait1 then
    ({ c with state := .finWait2, finWait2UntilMs := some (deadlineAfter nowMs config.finWait2Ms) }, false)
  else if c.state = .closing then (c.enterTimeWait nowMs config, false)
  else if c.state = .lastAck then (c, true)
  else (c, false)

/-- the repair that `onSegment` makes of the timed-out flight -/
def repairFlight (c : Connection) (previousUna nowMs : ℕ) (config : Config) : Connection × Option Segment :=
  match c.unacked.head? with
  | some oldest =>
    if after c.sendUna previousUna ∧ c.rtoRecoveryUntil ≠ none ∧ 0 < c.remoteWindow ∧
        oldest.transmissions < config.maxRetransmissions then
      -- Repair one hole in the timed-out flight using this ACK's current window.
      c.retransmitOldest nowMs false
    else (c, none)
  | none => (c, none)

/-- the ACK part of `onSegment` after the handshake; `true` in second place returns from `onSegment` -/
def onAck (c : Connection) (segment : Segment) (ack nowMs : ℕ) (config : Config) : Connection × Bool × List Segment :=
  let previousUna := c.sendUna
  let duplicate := isDuplicateAckCandidate segment c.sendUna c.remoteWindow
  let (c, outcome) := c.applyAck ack nowMs duplicate
  let output := outcome.retransmit.toList
  let (c, closed) := if outcome.finAcked then c.onFinAcked nowMs config else (c, false)
  if closed then (c, true, output)
  else
    let c := if inClosedInterval ack c.sendUna c.sendNxt then c.updateRemoteWindow segment.window nowMs else c
    let (c, repair) := c.repairFlight previousUna nowMs config
    (c, false, output ++ repair.toList)

/-- `onSegment` in the synchronized states -/
def onSynchronized (c : Connection) (segment : Segment) (nowMs : ℕ) (config : Config) : Connection × ConnectionUpdate :=
  let (c, closed, output) := match segment.ack with
    | some ack => c.onAck segment ack nowMs config
    | none => (c, false, [])
  if closed then (c, closeUpdate output)
  else
    let (c, received) := c.receiveIfData segment nowMs config
    let (c, flushed) := c.flushData nowMs
    (c, openUpdate (output ++ received ++ flushed))

def onSegment (c : Connection) (segment : Segment) (nowMs : ℕ) (config : Config) : Connection × ConnectionUpdate :=
  if segment.flags.has Flags.Rst then (c, c.onReset segment)
  else if c.state = .synSent then c.onSynSent segment nowMs config
  else if c.state = .synReceived then c.onSynReceived segment nowMs config
  else c.onSynchronized segment nowMs config

/-- the part of `Stack.input` that a connection sees: the handshake checks, then `onSegment` -/
def input (c : Connection) (segment : Segment) (nowMs : ℕ) (config : Config) : Connection × ConnectionUpdate :=
  match c.handshakeResponse segment with
  | some response => (c, openUpdate [response])
  | none => c.onSegment segment nowMs config

/-! ### Local operations -/

def write (c : Connection) (bytes : List U8) (nowMs : ℕ) (config : Config) :
    Except String (Connection × ℕ × List Segment) :=
  if (c.state ≠ .established ∧ c.state ≠ .closeWait) ∨ c.closeRequested then
    .error ("write is invalid in " ++ stateText c.state)
  else
    let buffered := c.sendQueue.length + (c.unacked.map (·.payload.length)).sum
    let accepted := min bytes.length (config.sendBuffer - buffered)
    let c := { c with
      sendQueue := c.sendQueue ++ bytes.take accepted
      sendProgress := c.sendProgress.accept accepted }
    let (c, segments) := c.flushData nowMs
    .ok (c, accepted, segments)

def read (c : Connection) (max : ℕ) : Except String (Connection × List U8 × List Segment) :=
  if maxSafe < max then .error "read maximum must be non-negative"
  else
    let previousWindow := c.availableWindow
    let count := min max c.recvQueue.length
    let bytes := c.recvQueue.take count
    let c := { c with recvQueue := c.recvQueue.drop count }
    let shouldUpdate := 0 < count ∧ previousWindow < c.availableWindow ∧ c.state ≠ .synSent ∧ c.state ≠ .synReceived ∧
      c.state ≠ .timeWait
    .ok (c, bytes, if shouldUpdate then [c.ackSegment] else [])

def close (c : Connection) (nowMs : ℕ) : Connection × ConnectionUpdate :=
  if c.state = .established ∨ c.state = .closeWait then
    let (c, segments) := { c with closeRequested := true }.flushData nowMs
    (c, openUpdate segments)
  else if c.state = .synSent ∨ c.state = .synReceived then (c, closeUpdate [])
  else (c, openUpdate [])

/-! ### Timers -/

def closeDeadline (c : Connection) : Option ℕ :=
  if c.state = .finWait2 then c.finWait2UntilMs else if c.state = .timeWait then c.timeWaitUntilMs else none

/-- `poll` while the peer's window is closed and there is something to send -/
def pollZeroWindow (c : Connection) (nowMs : ℕ) (config : Config) : Connection × ConnectionUpdate :=
  let (persist, action) := c.persist.action nowMs config
  let c := { c with persist }
  match action with
  | .abort => (c, closeUpdate [])
  | .wait => (c, openUpdate [])
  | .probe =>
    match c.zeroWindowProbe nowMs with
    | (c, some probe) => ({ c with persist := c.persist.onProbe nowMs config }, openUpdate [probe])
    | (c, none) => (c, openUpdate [])

def poll (c : Connection) (nowMs : ℕ) (config : Config) : Connection × ConnectionUpdate :=
  if c.closeDeadline.any fun closeDeadline => decide (closeDeadline ≤ nowMs) then (c, closeUpdate [])
  else if c.remoteWindow = 0 ∧ c.hasZeroWindowWork then c.pollZeroWindow nowMs config
  else
    match c.unacked.head? with
    | some oldest =>
      if rounded (oldest.sentAtMs + c.rtt.timeoutMs) ≤ nowMs then
        if config.maxRetransmissions ≤ oldest.transmissions then (c, closeUpdate [])
        else
          let c := { c with
            rtoRecoveryUntil := some (c.rtoRecoveryUntil.getD c.sendNxt)
            reno := c.reno.onTimeout (distance c.sendUna c.sendNxt)
            rtt := c.rtt.onTimeout }
          let (c, retransmit) := c.retransmitOldest nowMs true
          let (c, flushed) := c.flushData nowMs
          (c, openUpdate (retransmit.toList ++ flushed))
      else
        let (c, flushed) := c.flushData nowMs
        (c, openUpdate flushed)
    | none =>
      let (c, flushed) := c.flushData nowMs
      (c, openUpdate flushed)

end Connection

end FipsTcp.Ts
