/-
One connection (`stack.rs` from `impl Connection` on, `stack_types.rs`, `connection_types.rs`, `connection_reset.rs`,
`connection_recovery.rs`, `stack_poll.rs`).

Every function takes the connection and returns the new one with what it emits, in the order of the source. Loops are
structural: the ACK loop runs on the tracked segments it pops, `flushLoop` on the bytes left to send, `drainLoop` on the
chunks left to deliver; `flushLoop_done` (Connection/Timers) and `drainReassembly_rule` (Connection/Receiver) show that the
fuel never runs out.
`Connection.input` is the part of `Stack::input` that a retained connection sees: the handshake checks, then `onSegment`.
-/
import FipsTcp.Core.Recovery

namespace FipsTcp

structure TrackedSegment where
  seq : U32
  flags : Flags
  payload : List U8
  sentAtMs : ℕ
  transmissions : ℕ
deriving DecidableEq, Repr

def TrackedSegment.endSeq (s : TrackedSegment) : U32 :=
  s.seq + asU32 s.payload.length + asU32 (Segment.flagLen s.flags .SYN) + asU32 (Segment.flagLen s.flags .FIN)

structure ReassemblySegment where
  seq : U32
  payload : List U8
  fin : Bool
deriving DecidableEq, Repr

def ReassemblySegment.endSeq (s : ReassemblySegment) : U32 := s.seq + asU32 s.payload.length + asU32 s.fin.toNat

structure ConnectionKey (P : Type) where
  peer : P
  localPort : U16
  remotePort : U16
deriving DecidableEq, Repr

structure Connection (P : Type) where
  peer : P
  localPort : U16
  remotePort : U16
  state : State
  sendUna : U32
  sendNxt : U32
  recvNxt : U32
  remoteWindow : ℕ
  mss : ℕ
  receiveCapacity : ℕ
  maxTransmissions : ℕ
  sendQueue : List U8
  recvQueue : List U8
  reassembly : List ReassemblySegment
  unacked : List TrackedSegment
  rtt : RttEstimator
  reno : Reno
  duplicateAcks : ℕ
  rtoRecoveryUntil : Option U32
  closeRequested : Bool
  nextZeroWindowProbeMs : Option ℕ
  zeroWindowProbes : ℕ
  readClosed : Bool
  sendProgress : SendProgress
  finWait2UntilMs : Option ℕ
  timeWaitUntilMs : Option ℕ
deriving DecidableEq, Repr

structure Update where
  segments : List Segment
  accepted : Bool
  closed : Bool
deriving DecidableEq, Repr

namespace Update

def «open» (segments : List Segment) : Update := ⟨segments, false, false⟩

def close (segments : List Segment) : Update := ⟨segments, false, true⟩

end Update

structure AckOutcome where
  finAcked : Bool
  retransmit : Option Segment

/-- Compare before updating the remote window. -/
def isDuplicateAckCandidate (segment : Segment) (sendUna : U32) (remoteWindow : ℕ) : Bool :=
  segment.ack == some sendUna && segment.payload.isEmpty && !segment.flags.contains .SYN &&
    !segment.flags.contains .FIN && decide (segment.window.toNat ≤ remoteWindow)

/-- the reset that `emit_reset` builds in answer to a segment -/
def resetFor (incoming : Segment) : Segment :=
  match incoming.ack with
  | some ack => { Segment.new incoming.dstPort incoming.srcPort ack with window := 0, flags := .RST }
  | none =>
    { Segment.new incoming.dstPort incoming.srcPort 0 with
      window := 0
      flags := Flags.RST.union .ACK
      ack := some (incoming.seq + incoming.sequenceLen) }

namespace Connection

variable {P : Type}

/-! ## Windows and outgoing segments -/

def availableWindow (c : Connection P) : ℕ :=
  c.receiveCapacity - (c.recvQueue.length + (c.reassembly.map (·.payload.length)).sum)

def availableWindowU16 (c : Connection P) : U16 := BitVec.ofNat 16 (min c.availableWindow 65535)

/-- a segment with this connection's ports, ACK, window and MSS -/
def header (c : Connection P) (seq : U32) (flags : Flags) : SegmentHeader :=
  ⟨c.localPort, c.remotePort, seq, c.recvNxt, c.availableWindowU16, BitVec.ofNat 16 c.mss, flags⟩

def ackSegment (c : Connection P) : Segment := buildSegment (c.header c.sendNxt .ACK) []

def segmentFor (c : Connection P) (tracked : TrackedSegment) : Segment :=
  buildSegment (c.header tracked.seq tracked.flags) tracked.payload

def resetSegment (c : Connection P) : Segment :=
  buildSegment { c.header c.sendNxt .RST with window := 0 } []

def updateRemoteWindow (c : Connection P) (window : U16) (nowMs : ℕ) : Connection P :=
  if window = 0 then
    { c with
      remoteWindow := 0
      nextZeroWindowProbeMs := some (c.nextZeroWindowProbeMs.getD (satAdd nowMs c.rtt.timeoutMs)) }
  else { c with remoteWindow := window.toNat, nextZeroWindowProbeMs := none, zeroWindowProbes := 0 }

def negotiateMss (c : Connection P) (segment : Segment) (config : Config) : Connection P :=
  let mss := max (min (segment.maxSegmentSize.getD 1024).toNat config.mss.toNat) 1
  { c with mss, reno := c.reno.setMss mss }

/-! ## Creation -/

def new (peer : P) (localPort remotePort : U16) (state : State) (sendIsn recvNxt : U32) (config : Config)
    (token : ℕ) : Connection P where
  peer
  localPort
  remotePort
  state
  sendUna := sendIsn
  sendNxt := sendIsn
  recvNxt
  remoteWindow := 65535
  mss := config.mss.toNat
  receiveCapacity := config.receiveBuffer
  maxTransmissions := config.maxRetransmissions.toNat
  sendQueue := []
  recvQueue := []
  reassembly := []
  unacked := []
  rtt := RttEstimator.new config.initialRtoMs config.minRtoMs config.maxRtoMs
  reno := Reno.new config.mss.toNat
  duplicateAcks := 0
  rtoRecoveryUntil := none
  closeRequested := false
  nextZeroWindowProbeMs := none
  zeroWindowProbes := 0
  readClosed := false
  sendProgress := SendProgress.new token
  finWait2UntilMs := none
  timeWaitUntilMs := none

def sendTracked (c : Connection P) (flags : Flags) (payload : List U8) (nowMs : ℕ) : Connection P × Segment :=
  let tracked : TrackedSegment := ⟨c.sendNxt, flags, payload, nowMs, 1⟩
  let c' := { c with sendNxt := tracked.endSeq }
  ({ c' with unacked := c'.unacked ++ [tracked] }, c'.segmentFor tracked)

def client (peer : P) (localPort remotePort : U16) (isn : U32) (nowMs : ℕ) (config : Config) (token : ℕ) :
    Connection P × List Segment :=
  let (c, syn) := (new peer localPort remotePort .synSent isn 0 config token).sendTracked .SYN [] nowMs
  (c, [syn])

def server (peer : P) (syn : Segment) (isn : U32) (nowMs : ℕ) (config : Config) (token : ℕ) :
    Connection P × List Segment :=
  let c := new peer syn.dstPort syn.srcPort .synReceived isn (syn.seq + 1) config token
  let c := (c.updateRemoteWindow syn.window nowMs).negotiateMss syn config
  let (c, synAck) := c.sendTracked (Flags.SYN.union .ACK) [] nowMs
  (c, [synAck])

/-! ## Sending -/

/-- `remote_window.min(reno.window())` less what is in flight -/
def sendAllowance (c : Connection P) : ℕ := min c.remoteWindow c.reno.window - distance c.sendUna c.sendNxt

/-- send the first bytes of the queue as one data segment -/
def sendQueued (c : Connection P) (count : ℕ) (nowMs : ℕ) : Connection P × Segment :=
  { c with sendQueue := c.sendQueue.drop count }.sendTracked (Flags.ACK.union .PSH) (c.sendQueue.take count) nowMs

/-- send the FIN of a requested close -/
def sendFin (c : Connection P) (nowMs : ℕ) : Connection P × Segment :=
  let state := if c.state = .established then .finWait1 else .lastAck
  { c with closeRequested := false, state }.sendTracked (Flags.FIN.union .ACK) [] nowMs

/-- the loop of `flush_data`; `fuel` is at least the number of bytes queued -/
def flushLoop (nowMs : ℕ) : ℕ → Connection P → Connection P × List Segment
  | 0, c => (c, [])
  | fuel + 1, c =>
    let available := c.sendAllowance
    if available = 0 ∨ c.sendQueue = [] then (c, [])
    else
      let (c1, segment) := c.sendQueued (min (min available c.mss) c.sendQueue.length) nowMs
      let (c2, segments) := flushLoop nowMs fuel c1
      (c2, segment :: segments)

/-- the end of `flush_data`: a requested close sends the FIN once the queue is empty and the window allows it -/
def flushFin (c : Connection P) (nowMs : ℕ) : Connection P × List Segment :=
  if c.closeRequested ∧ c.sendQueue = [] ∧ 0 < c.sendAllowance then
    let (c1, segment) := c.sendFin nowMs
    (c1, [segment])
  else (c, [])

def flushData (c : Connection P) (nowMs : ℕ) : Connection P × List Segment :=
  if c.state = .established ∨ c.state = .closeWait then
    let (c1, output) := flushLoop nowMs c.sendQueue.length c
    let (c2, fin) := c1.flushFin nowMs
    (c2, output ++ fin)
  else (c, [])

def zeroWindowProbe (c : Connection P) (nowMs : ℕ) : Connection P × Option Segment :=
  match c.unacked.find? fun segment => !segment.payload.isEmpty with
  | some segment =>
    let c' := { c with rtt := c.rtt.onRetransmit c.sendNxt }
    (c', some (buildSegment (c'.header segment.seq (Flags.ACK.union .PSH)) (segment.payload.take 1)))
  | none =>
    if c.sendQueue = [] then (c, none)
    else
      let (c', segment) := c.sendQueued 1 nowMs
      (c', some segment)

def retransmitOldest (c : Connection P) (nowMs : ℕ) (timeout : Bool) : Connection P × Option Segment :=
  match c.unacked with
  | [] => (c, none)
  | tracked :: rest =>
    -- Peer-triggered retries share the timer retry budget.
    if c.maxTransmissions ≤ tracked.transmissions then (c, none)
    else
      let tracked' := { tracked with sentAtMs := nowMs, transmissions := satSucc8 tracked.transmissions }
      let c' := { c with
        rtt := c.rtt.onRetransmit c.sendNxt
        unacked := tracked' :: rest
        duplicateAcks := if timeout then 0 else c.duplicateAcks }
      (c', some (c'.segmentFor tracked'))

def repairTimedOutFlight (c : Connection P) (nowMs : ℕ) (config : Config) : Connection P × Option Segment :=
  match c.rtoRecoveryUntil, c.unacked with
  | some _, oldest :: _ =>
    if c.remoteWindow = 0 ∨ config.maxRetransmissions.toNat ≤ oldest.transmissions then (c, none)
    else c.retransmitOldest nowMs false
  | _, _ => (c, none)

/-! ## Acknowledgments -/

/-- the `while` loop of `apply_ack`: what is left unacknowledged, the payload bytes and the FIN it took, the RTT sample -/
def ackLoop (rtt : RttEstimator) (ack : U32) (nowMs : ℕ) :
    List TrackedSegment → ℕ → Bool → Option ℕ → List TrackedSegment × ℕ × Bool × Option ℕ
  | [], acked, fin, sample => ([], acked, fin, sample)
  | segment :: rest, acked, fin, sample =>
    if beforeOrEqual segment.endSeq ack then
      ackLoop rtt ack nowMs rest (acked + segment.payload.length) (fin || segment.flags.contains .FIN)
        (if rtt.canSample segment.endSeq then some (nowMs - segment.sentAtMs) else sample)
    else (segment :: rest, acked, fin, sample)

/-- a cumulative ACK inside the oldest data segment trims it -/
def trimFront (ack : U32) : List TrackedSegment → List TrackedSegment × ℕ
  | [] => ([], 0)
  | segment :: rest =>
    if before segment.seq ack ∧ before ack segment.endSeq ∧ ¬ segment.flags.contains .SYN ∧
        ¬ segment.flags.contains .FIN then
      let count := min (distance segment.seq ack) segment.payload.length
      ({ segment with payload := segment.payload.drop count, seq := ack } :: rest, count)
    else (segment :: rest, 0)

/-- `apply_ack` for an ACK that advances `send_una` -/
def advanceAck (c : Connection P) (ack : U32) (nowMs : ℕ) : Connection P × AckOutcome :=
  let (rest, acked, fin, sample) := ackLoop c.rtt ack nowMs c.unacked 0 false none
  let (unacked, count) := trimFront ack rest
  let c' := { c with
    duplicateAcks := 0
    unacked
    sendUna := ack
    rtoRecoveryUntil := c.rtoRecoveryUntil.filter fun end_ => decide (before ack end_)
    rtt := match sample with
      | some sample => c.rtt.sample sample
      | none => c.rtt
    reno := c.reno.onAck (acked + count)
    sendProgress := c.sendProgress.acknowledge (acked + count) }
  (c', ⟨fin, none⟩)

/-- `apply_ack` for an ACK that repeats `send_una` -/
def repeatAck (c : Connection P) (nowMs : ℕ) (duplicateCandidate : Bool) : Connection P × AckOutcome :=
  if duplicateCandidate ∧ c.unacked ≠ [] then
    let c1 := { c with duplicateAcks := satSucc8 c.duplicateAcks, reno := c.reno.onDuplicateAck }
    if c1.duplicateAcks = 3 then
      let c2 := { c1 with reno := c1.reno.onFastLoss (distance c1.sendUna c1.sendNxt) }
      let (c3, retransmit) := c2.retransmitOldest nowMs false
      (c3, ⟨false, retransmit⟩)
    else (c1, ⟨false, none⟩)
  else ({ c with duplicateAcks := 0 }, ⟨false, none⟩)

/-- `apply_ack`: an ACK outside the flight changes nothing -/
def applyAck (c : Connection P) (ack : U32) (nowMs : ℕ) (duplicateCandidate : Bool) : Connection P × AckOutcome :=
  if after ack c.sendNxt ∨ before ack c.sendUna then (c, ⟨false, none⟩)
  else if ack = c.sendUna then c.repeatAck nowMs duplicateCandidate
  else c.advanceAck ack nowMs

/-! ## Receiving -/

def enterTimeWait (c : Connection P) (nowMs : ℕ) (config : Config) : Connection P :=
  { c with
    state := .timeWait
    finWait2UntilMs := none
    timeWaitUntilMs := some (satAdd nowMs config.timeWaitMs) }

def onRemoteFin (c : Connection P) (nowMs : ℕ) (config : Config) : Connection P :=
  let c := { c with readClosed := true }
  match c.state with
  | .established => { c with state := .closeWait }
  | .finWait1 => { c with state := .closing }
  | .finWait2 => c.enterTimeWait nowMs config
  | _ => c

/-- the chunk that `insert_received` keeps of a segment: trimmed to `recv_nxt` at the front, to the window at the end -/
def receivedChunk (c : Connection P) (seq : U32) (payload : List U8) (fin : Bool) : Option ReassemblySegment :=
  let originalEnd := seq + asU32 payload.length
  let start := if before seq c.recvNxt then c.recvNxt else seq
  -- dropping more than there is leaves nothing, as the source's case distinction has it
  let data := if before seq c.recvNxt then payload.drop (distance seq c.recvNxt) else payload
  let window := c.availableWindow
  let offset := distance c.recvNxt start
  if after start c.recvNxt ∧ window ≤ offset then none
  else
    let allowed := min data.length (window - offset)
    let keptFin := fin && decide (allowed = data.length) && decide (originalEnd = start + asU32 data.length)
    let chunk : ReassemblySegment := ⟨start, data.take allowed, keptFin⟩
    if chunk.payload = [] ∧ chunk.fin = false then none else some chunk

def insertReceived (c : Connection P) (seq : U32) (payload : List U8) (fin : Bool) (config : Config) : Connection P :=
  match c.receivedChunk seq payload fin with
  | none => c
  | some chunk =>
    if c.reassembly.any fun existing => existing.seq == chunk.seq && existing.endSeq == chunk.endSeq then c
    else if c.reassembly.length < config.maxReassemblySegments then { c with reassembly := c.reassembly ++ [chunk] }
    else c

/-- the chunks `drain_reassembly` keeps: those that end after `recv_nxt` -/
def keepChunk (recvNxt : U32) (segment : ReassemblySegment) : Bool :=
  decide (¬ beforeOrEqual segment.endSeq recvNxt ∨ (segment.fin = true ∧ segment.endSeq = recvNxt + 1))

/-- the chunks that can be delivered: those that start at or before `recv_nxt` -/
def dueChunk (recvNxt : U32) (segment : ReassemblySegment) : Bool :=
  decide (segment.seq = recvNxt ∨ before segment.seq recvNxt)

/-- what is left of a chunk once its part before `recv_nxt` is cut off -/
def trimChunk (recvNxt : U32) (segment : ReassemblySegment) : ReassemblySegment :=
  if before segment.seq recvNxt then
    { segment with payload := segment.payload.drop (distance segment.seq recvNxt), seq := recvNxt }
  else segment

/-- delivery of one chunk that starts at `recv_nxt`; the flag says whether the loop goes on -/
def deliverChunk (c : Connection P) (segment : ReassemblySegment) (nowMs : ℕ) (config : Config) :
    Connection P × Bool :=
  let accepted := min (config.receiveBuffer - c.recvQueue.length) segment.payload.length
  let rest := segment.payload.drop accepted
  let c1 := { c with
    recvQueue := c.recvQueue ++ segment.payload.take accepted
    recvNxt := c.recvNxt + asU32 accepted }
  if rest ≠ [] then
    ({ c1 with reassembly := c1.reassembly ++ [{ segment with payload := rest, seq := c1.recvNxt }] }, false)
  else if segment.fin then ({ c1 with recvNxt := c1.recvNxt + 1 }.onRemoteFin nowMs config, true)
  else (c1, true)

/-- one round of the loop of `drain_reassembly` -/
def drainOnce (c : Connection P) (nowMs : ℕ) (config : Config) : Connection P × Bool :=
  let kept := c.reassembly.filter (keepChunk c.recvNxt)
  match kept.find? (dueChunk c.recvNxt) with
  | none => ({ c with reassembly := kept }, false)
  | some segment =>
    { c with reassembly := kept.eraseP (dueChunk c.recvNxt) }.deliverChunk (trimChunk c.recvNxt segment) nowMs config

def drainLoop (nowMs : ℕ) (config : Config) : ℕ → Connection P → Connection P
  | 0, c => c
  | fuel + 1, c =>
    match c.drainOnce nowMs config with
    | (c', true) => drainLoop nowMs config fuel c'
    | (c', false) => c'

def drainReassembly (c : Connection P) (nowMs : ℕ) (config : Config) : Connection P :=
  drainLoop nowMs config (c.reassembly.length + 1) c

def receiveStreamData (c : Connection P) (segment : Segment) (nowMs : ℕ) (config : Config) :
    Connection P × List Segment :=
  let c1 := c.insertReceived segment.seq segment.payload (segment.flags.contains .FIN) config
  let c2 := c1.drainReassembly nowMs config
  (c2, [c2.ackSegment])

/-- `receive_stream_data` where `on_segment` calls it: for a segment with payload or FIN -/
def receiveIfData (c : Connection P) (segment : Segment) (nowMs : ℕ) (config : Config) :
    Connection P × List Segment :=
  if segment.payload ≠ [] ∨ segment.flags.contains .FIN then c.receiveStreamData segment nowMs config else (c, [])

/-! ## Incoming segments -/

def onReset (c : Connection P) (segment : Segment) : Update :=
  if c.state = .synSent then
    match segment.ack with
    | some ack => if after ack c.sendUna ∧ ¬ after ack c.sendNxt then .close [] else .open []
    | none => .open []
  else if segment.seq = c.recvNxt then .close []
  else if 0 < c.availableWindow ∧ distance c.recvNxt segment.seq < c.availableWindow then .open [c.ackSegment]
  else .open []

/-- `on_segment`: the SYN-ACK completes the handshake of a client -/
def establishClient (c : Connection P) (segment : Segment) (nowMs : ℕ) (config : Config) : Connection P :=
  let c1 := (c.updateRemoteWindow segment.window nowMs).negotiateMss segment config
  let (c2, _) := c1.applyAck c1.sendNxt nowMs false
  { c2 with recvNxt := segment.seq + 1, state := .established }

/-- `on_segment` in SYN-SENT -/
def onSynSent (c : Connection P) (segment : Segment) (nowMs : ℕ) (config : Config) : Connection P × Update :=
  if segment.flags.contains .SYN ∧ segment.flags.contains .ACK ∧ segment.ack = some c.sendNxt ∧
      segment.supportsFipsVersion FIPS_VERSION then
    let c' := c.establishClient segment nowMs config
    (c', .open [c'.ackSegment])
  else (c, .open [])

/-- `on_segment`: the ACK of the SYN-ACK completes the handshake of a server -/
def establishServer (c : Connection P) (segment : Segment) (nowMs : ℕ) : Connection P :=
  let (c1, _) := c.applyAck c.sendNxt nowMs false
  { c1.updateRemoteWindow segment.window nowMs with state := .established }

/-- `on_segment` in SYN-RECEIVED -/
def onSynReceived (c : Connection P) (segment : Segment) (nowMs : ℕ) (config : Config) : Connection P × Update :=
  if segment.flags.contains .SYN ∧ ¬ segment.flags.contains .ACK ∧ segment.seq + 1 = c.recvNxt then
    let (c1, retransmit) := c.retransmitOldest nowMs false
    (c1, .open retransmit.toList)
  else if segment.ack ≠ some c.sendNxt then (c, .open [])
  else
    let (c1, received) := (c.establishServer segment nowMs).receiveIfData segment nowMs config
    let (c2, flushed) := c1.flushData nowMs
    (c2, ⟨received ++ flushed, true, false⟩)

/-- what the ACK of our FIN does to the state; `none` removes the connection -/
def finAcked (c : Connection P) (nowMs : ℕ) (config : Config) : Option (Connection P) :=
  match c.state with
  | .finWait1 => some { c with state := .finWait2, finWait2UntilMs := some (satAdd nowMs config.finWait2Ms) }
  | .closing => some (c.enterTimeWait nowMs config)
  | .lastAck => none
  | _ => some c

/-- the ACK part of `on_segment` after the handshake; `true` in second place removes the connection -/
def processAck (c : Connection P) (segment : Segment) (ack : U32) (nowMs : ℕ) (config : Config) :
    Connection P × Bool × List Segment :=
  let duplicate := isDuplicateAckCandidate segment c.sendUna c.remoteWindow
  let (c1, outcome) := c.applyAck ack nowMs duplicate
  match if outcome.finAcked then c1.finAcked nowMs config else some c1 with
  | none => (c1, true, outcome.retransmit.toList)
  | some c2 =>
    let c3 := if inClosedInterval ack c2.sendUna c2.sendNxt then c2.updateRemoteWindow segment.window nowMs else c2
    if after c3.sendUna c.sendUna then
      let (c4, repair) := c3.repairTimedOutFlight nowMs config
      (c4, false, outcome.retransmit.toList ++ repair.toList)
    else (c3, false, outcome.retransmit.toList)

/-- `on_segment` in the synchronized states -/
def onSynchronized (c : Connection P) (segment : Segment) (nowMs : ℕ) (config : Config) : Connection P × Update :=
  let (c1, closed, output) := match segment.ack with
    | some ack => c.processAck segment ack nowMs config
    | none => (c, false, [])
  if closed then (c1, .close output)
  else
    let (c2, received) := c1.receiveIfData segment nowMs config
    let (c3, flushed) := c2.flushData nowMs
    (c3, .open (output ++ received ++ flushed))

def onSegment (c : Connection P) (segment : Segment) (nowMs : ℕ) (config : Config) : Connection P × Update :=
  if segment.flags.contains .RST then (c, c.onReset segment)
  else match c.state with
    | .synSent => c.onSynSent segment nowMs config
    | .synReceived => c.onSynReceived segment nowMs config
    | _ => c.onSynchronized segment nowMs config

/-- `Stack::input`: in SYN-SENT, a segment with an unacceptable ACK is answered with a reset -/
def unacceptableAck (c : Connection P) (segment : Segment) : Bool :=
  decide (c.state = .synSent) && !segment.flags.contains .RST &&
    segment.ack.any fun ack => decide (¬ after ack c.sendUna ∨ after ack c.sendNxt)

/-- `Stack::input`: outside SYN-SENT, a SYN other than the one that opened the connection is answered with an ACK -/
def unexpectedSyn (c : Connection P) (segment : Segment) : Bool :=
  decide (c.state ≠ .synSent) && !segment.flags.contains .RST && segment.flags.contains .SYN &&
    decide (c.state ≠ .synReceived ∨ segment.seq + 1 ≠ c.recvNxt)

/-- what a segment does to a retained connection: the handshake checks of `Stack::input`, then `on_segment` -/
def input (c : Connection P) (segment : Segment) (nowMs : ℕ) (config : Config) : Connection P × Update :=
  if c.unacceptableAck segment then (c, .open [resetFor segment])
  else if c.unexpectedSyn segment then (c, .open [c.ackSegment])
  else c.onSegment segment nowMs config

/-! ## Local operations -/

def write (c : Connection P) (bytes : List U8) (nowMs : ℕ) (config : Config) :
    Except StackError (Connection P × ℕ × List Segment) :=
  if ¬ (c.state = .established ∨ c.state = .closeWait) ∨ c.closeRequested then .error (.invalidState c.state)
  else
    let buffered := c.sendQueue.length + (c.unacked.map (·.payload.length)).sum
    let accepted := min bytes.length (config.sendBuffer - buffered)
    let c1 := { c with
      sendQueue := c.sendQueue ++ bytes.take accepted
      sendProgress := c.sendProgress.accept accepted }
    let (c2, segments) := c1.flushData nowMs
    .ok (c2, accepted, segments)

def read (c : Connection P) (max : ℕ) : Connection P × List U8 × List Segment :=
  let previousWindow := c.availableWindow
  let count := min max c.recvQueue.length
  let c' := { c with recvQueue := c.recvQueue.drop count }
  let shouldUpdate := 0 < count ∧ previousWindow < c'.availableWindow ∧
    ¬ (c'.state = .synSent ∨ c'.state = .synReceived ∨ c'.state = .timeWait)
  (c', c.recvQueue.take count, if shouldUpdate then [c'.ackSegment] else [])

def close (c : Connection P) (nowMs : ℕ) : Connection P × Update :=
  match c.state with
  | .established | .closeWait =>
    let (c', segments) := { c with closeRequested := true }.flushData nowMs
    (c', .open segments)
  | .synSent | .synReceived => (c, .close [])
  | _ => (c, .open [])

/-! ## Timers -/

def closeDeadline (c : Connection P) : Option ℕ :=
  match c.state with
  | .finWait2 => c.finWait2UntilMs
  | .timeWait => c.timeWaitUntilMs
  | _ => none

def hasProbePayload (c : Connection P) : Bool :=
  !c.sendQueue.isEmpty || c.unacked.any fun segment => !segment.payload.isEmpty

/-- the time of the transport timer: a zero-window probe, or the retransmission of the oldest segment -/
def transportDeadline (c : Connection P) (nowMs : ℕ) (config : Config) : Option ℕ :=
  if c.remoteWindow = 0 ∧ (c.closeRequested ∨ c.hasProbePayload) then
    -- A close alone cannot produce a zero-window probe: wait for input.
    if c.hasProbePayload ∨ config.maxRetransmissions.toNat ≤ c.zeroWindowProbes then
      some (c.nextZeroWindowProbeMs.getD nowMs)
    else none
  else c.unacked.head?.map fun oldest => satAdd oldest.sentAtMs c.rtt.timeoutMs

/-- the earlier of two optional times -/
def earliest : Option ℕ → Option ℕ → Option ℕ
  | some a, some b => some (min a b)
  | some a, none => some a
  | none, b => b

def nextPollAt (c : Connection P) (nowMs : ℕ) (config : Config) : Option ℕ :=
  earliest c.closeDeadline (c.transportDeadline nowMs config)

/-- `poll` while the peer's window is closed and there is something to send -/
def pollZeroWindow (c : Connection P) (nowMs : ℕ) (config : Config) : Connection P × Update :=
  let deadline := c.nextZeroWindowProbeMs.getD (satAdd nowMs config.initialRtoMs)
  let c1 := { c with nextZeroWindowProbeMs := some deadline }
  if deadline ≤ nowMs then
    if config.maxRetransmissions.toNat ≤ c1.zeroWindowProbes then (c1, .close [])
    else
      match c1.zeroWindowProbe nowMs with
      | (c2, some probe) =>
        let probes := satSucc8 c2.zeroWindowProbes
        let delay := min (satMul config.initialRtoMs (2 ^ min probes 16)) config.maxRtoMs
        ({ c2 with zeroWindowProbes := probes, nextZeroWindowProbeMs := some (satAdd nowMs delay) }, .open [probe])
      | (c2, none) => (c2, .open [])
  else (c1, .open [])

/-- `poll` when the retransmission timer of the oldest segment has run out -/
def pollTimeout (c : Connection P) (nowMs : ℕ) : Connection P × List Segment :=
  let c1 := { c with
    rtoRecoveryUntil := some (c.rtoRecoveryUntil.getD c.sendNxt)
    reno := c.reno.onTimeout (distance c.sendUna c.sendNxt)
    rtt := c.rtt.onTimeout }
  let (c2, retransmit) := c1.retransmitOldest nowMs true
  let (c3, flushed) := c2.flushData nowMs
  (c3, retransmit.toList ++ flushed)

def poll (c : Connection P) (nowMs : ℕ) (config : Config) : Connection P × Update :=
  if c.closeDeadline.any fun deadline => decide (deadline ≤ nowMs) then (c, .close [])
  else if c.remoteWindow = 0 ∧ (c.closeRequested ∨ c.hasProbePayload) then c.pollZeroWindow nowMs config
  else
    match c.unacked with
    | oldest :: _ =>
      if satAdd oldest.sentAtMs c.rtt.timeoutMs ≤ nowMs then
        if config.maxRetransmissions.toNat ≤ oldest.transmissions then (c, .close [])
        else
          let (c', segments) := c.pollTimeout nowMs
          (c', .open segments)
      else
        let (c', segments) := c.flushData nowMs
        (c', .open segments)
    | [] =>
      let (c', segments) := c.flushData nowMs
      (c', .open segments)

end Connection

end FipsTcp
