/-
The connection table (`stack.rs` up to `impl Connection`, `stack_admission.rs`, `stack_abort.rs`, `stack_marker.rs`,
`stack_poll.rs`).

The hash maps are finite maps without an order. Where the code walks one (`poll`, `abort_peer`) the order is an
argument, so a result about the function holds for every order the code may meet. A function returns the new stack
together with its result, since what it did before an error stays. An index that the code takes without a check is a
`panic` of the model. `NEXT_CONNECTION_TOKEN`, a static of the process, is carried as a field, and as a number without a
bound; the classifier of a reservation is a function, and one that changes its mind is a reservation installed anew.
-/
import FipsTcp.Core.Connection
import Mathlib.Data.Finmap

namespace FipsTcp

structure ConnectionReservation (P : Type) where
  slots : ℕ
  eligible : P → Bool

structure Stack (P : Type) [DecidableEq P] where
  config : ValidConfig
  reservation : Option (ConnectionReservation P)
  listeners : Finset U16
  accepts : Finmap fun _ : U16 => List ConnectionId
  connections : Finmap fun _ : ConnectionId => Connection P
  lookup : Finmap fun _ : ConnectionKey P => ConnectionId
  outbound : List (Outbound P)
  nextConnectionId : ℕ
  nextEphemeralPort : U16
  isnState : BitVec 64
  nextConnectionToken : ℕ

/-- how a call can fail: an error it returns, or a panic -/
inductive Failure where
  | error (error : StackError)
  | panic
deriving DecidableEq, Repr

def Connection.key {P : Type} (c : Connection P) : ConnectionKey P := ⟨c.peer, c.localPort, c.remotePort⟩

namespace Stack

variable {P : Type} [DecidableEq P]

def new (config : ValidConfig) (isnSeed : BitVec 64) (token : ℕ) : Stack P where
  config
  reservation := none
  listeners := ∅
  accepts := ∅
  connections := ∅
  lookup := ∅
  outbound := []
  nextConnectionId := 1
  nextEphemeralPort := 49152
  isnState := if isnSeed = 0 then 1 else isnSeed
  nextConnectionToken := token

/-! ## The table -/

def setConnection (s : Stack P) (id : ConnectionId) (c : Connection P) : Stack P :=
  { s with connections := s.connections.insert id c }

/-- the entries that `connect_from_with_isn` and `input` make for a new connection -/
def insertConnection (s : Stack P) (id : ConnectionId) (c : Connection P) : Stack P :=
  { s with lookup := s.lookup.insert c.key id, connections := s.connections.insert id c }

def removeConnection (s : Stack P) (id : ConnectionId) : Stack P :=
  match s.connections.lookup id with
  | none => s
  | some c => { s with connections := s.connections.erase id, lookup := s.lookup.erase c.key }

/-- `connections.len()` -/
def size (s : Stack P) : ℕ := s.connections.keys.card

/-- the retained connections of one peer -/
def peerConnections (s : Stack P) (peer : P) : Finset ConnectionId :=
  s.connections.keys.filter fun id => (s.connections.lookup id).any fun c => decide (c.peer = peer)

def ensureConnectionCapacity (s : Stack P) (peer : P) : Except StackError Unit :=
  if s.config.1.maxConnections ≤ s.size ∨ s.config.1.maxConnectionsPerPeer ≤ (s.peerConnections peer).card then
    .error .connectionLimit
  else
    match s.reservation with
    | some reservation =>
      if s.config.1.maxConnections - reservation.slots ≤ s.size ∧ reservation.eligible peer = false then
        .error .connectionLimit
      else .ok ()
    | none => .ok ()

/-! ## Cursors -/

def allocateConnectionId (s : Stack P) : Stack P × ConnectionId :=
  ({ s with nextConnectionId := max ((s.nextConnectionId + 1) % 2 ^ 64) 1 }, ⟨s.nextConnectionId⟩)

def nextIsn (s : Stack P) : Stack P × U32 :=
  let value := s.isnState
  let value := value ^^^ value <<< 13
  let value := value ^^^ value >>> 7
  let value := value ^^^ value <<< 17
  ({ s with isnState := if value = 0 then 1 else value }, (value ^^^ value >>> 32).setWidth 32)

def nextToken (s : Stack P) : Stack P × ℕ :=
  ({ s with nextConnectionToken := s.nextConnectionToken + 1 }, s.nextConnectionToken)

/-- the loop of `allocate_ephemeral_port`, with the number of attempts left -/
def allocateEphemeralPortLoop (peer : P) (remotePort : U16) : ℕ → Stack P → Stack P × Except StackError U16
  | 0, s => (s, .error .noEphemeralPort)
  | attempts + 1, s =>
    let port := s.nextEphemeralPort
    let s' := { s with nextEphemeralPort := if port = 65535 then 49152 else port + 1 }
    if ⟨peer, port, remotePort⟩ ∈ s'.lookup then allocateEphemeralPortLoop peer remotePort attempts s'
    else (s', .ok port)

def allocateEphemeralPort (s : Stack P) (peer : P) (remotePort : U16) : Stack P × Except StackError U16 :=
  allocateEphemeralPortLoop peer remotePort 16384 s

/-! ## Output -/

/-- encode and queue segments for a peer, up to the first that cannot be encoded -/
def emitTo (peer : P) : List Segment → Stack P → Stack P × Except StackError Unit
  | [], s => (s, .ok ())
  | segment :: rest, s =>
    match segment.encode with
    | .error e => (s, .error (.wire e))
    | .ok bytes => emitTo peer rest { s with outbound := s.outbound ++ [⟨peer, bytes⟩] }

def emit (s : Stack P) (id : ConnectionId) (segments : List Segment) : Stack P × Except StackError Unit :=
  match s.connections.lookup id with
  | none => (s, .ok ())
  | some c => emitTo c.peer segments s

def emitReset (s : Stack P) (peer : P) (incoming : Segment) : Stack P × Except StackError Unit :=
  emitTo peer [resetFor incoming] s

/-- emit what an update of a connection produced, and remove the connection if the update closed it -/
def finishUpdate (s : Stack P) (id : ConnectionId) (update : Update) : Stack P × Except StackError Unit :=
  match s.emit id update.segments with
  | (s', .error e) => (s', .error e)
  | (s', .ok ()) => (if update.closed then s'.removeConnection id else s', .ok ())

def drainOutbound (s : Stack P) : Stack P × List (Outbound P) := ({ s with outbound := [] }, s.outbound)

/-! ## Listening and connecting -/

def listen (s : Stack P) (port : U16) : Stack P × Except StackError Unit :=
  if port = 0 then (s, .error .zeroPort)
  else if port ∈ s.listeners then (s, .error (.alreadyListening port))
  else
    ({ s with
      listeners := insert port s.listeners
      accepts := if port ∈ s.accepts then s.accepts else s.accepts.insert port [] }, .ok ())

def closeListener (s : Stack P) (port : U16) : Stack P :=
  { s with listeners := s.listeners.erase port, accepts := s.accepts.erase port }

/-- pop queued connections up to the first that is still retained -/
def popAccepted (s : Stack P) : List ConnectionId → List ConnectionId × Option ConnectionId
  | [] => ([], none)
  | id :: queue => if id ∈ s.connections then (queue, some id) else s.popAccepted queue

def accept (s : Stack P) (port : U16) : Stack P × Option ConnectionId :=
  match s.accepts.lookup port with
  | none => (s, none)
  | some queue =>
    let (queue, id) := s.popAccepted queue
    ({ s with accepts := s.accepts.insert port queue }, id)

def connectFromWithIsn (s : Stack P) (peer : P) (localPort remotePort : U16) (isn : U32) (nowMs : ℕ) :
    Stack P × Except StackError ConnectionId :=
  if localPort = 0 ∨ remotePort = 0 then (s, .error .zeroPort)
  else
    match s.ensureConnectionCapacity peer with
    | .error e => (s, .error e)
    | .ok () =>
      if ⟨peer, localPort, remotePort⟩ ∈ s.lookup then (s, .error .connectionExists)
      else
        let (s1, id) := s.allocateConnectionId
        let (s2, token) := s1.nextToken
        let (connection, segments) := Connection.client peer localPort remotePort isn nowMs s.config.1 token
        match (s2.insertConnection id connection).emit id segments with
        | (s3, .error e) => (s3, .error e)
        | (s3, .ok ()) => (s3, .ok id)

def connect (s : Stack P) (peer : P) (remotePort : U16) (nowMs : ℕ) : Stack P × Except StackError ConnectionId :=
  match s.allocateEphemeralPort peer remotePort with
  | (s1, .error e) => (s1, .error e)
  | (s1, .ok localPort) =>
    let (s2, isn) := s1.nextIsn
    s2.connectFromWithIsn peer localPort remotePort isn nowMs

/-! ## Input -/

/-- a result that cannot be a panic -/
def lift {α : Type} : Stack P × Except StackError α → Stack P × Except Failure α
  | (s, .ok a) => (s, .ok a)
  | (s, .error e) => (s, .error (.error e))

/-- `input` for a SYN to a listening port without a connection -/
def inputSyn (s : Stack P) (peer : P) (segment : Segment) (nowMs : ℕ) : Stack P × Except StackError Unit :=
  if segment.supportsFipsVersion FIPS_VERSION then
    match s.ensureConnectionCapacity peer with
    | .error e => (s, .error e)
    | .ok () =>
      let (s1, id) := s.allocateConnectionId
      let (s2, isn) := s1.nextIsn
      let (s3, token) := s2.nextToken
      let (connection, segments) := Connection.server peer segment isn nowMs s.config.1 token
      (s3.insertConnection id connection).emit id segments
  else s.emitReset peer segment

/-- `input` for a segment of a retained connection -/
def inputRetained (s : Stack P) (peer : P) (id : ConnectionId) (segment : Segment) (nowMs : ℕ) :
    Stack P × Except Failure Unit :=
  match s.connections.lookup id with
  | none => (s, .error .panic)
  | some connection =>
    if connection.unacceptableAck segment then lift (s.emitReset peer segment)
    else if connection.unexpectedSyn segment then lift (s.emit id [connection.ackSegment])
    else
      let (connection', update) := connection.onSegment segment nowMs s.config.1
      let s1 := s.setConnection id connection'
      let s2 :=
        if update.accepted then
          let port := connection'.localPort
          { s1 with accepts := s1.accepts.insert port ((s1.accepts.lookup port).getD [] ++ [id]) }
        else s1
      lift (s2.finishUpdate id update)

def input (s : Stack P) (peer : P) (bytes : List U8) (nowMs : ℕ) : Stack P × Except Failure Unit :=
  match Segment.decode bytes with
  | .error e => (s, .error (.error (.wire e)))
  | .ok segment =>
    match s.lookup.lookup ⟨peer, segment.dstPort, segment.srcPort⟩ with
    | some id => s.inputRetained peer id segment nowMs
    | none =>
      if segment.flags.contains .SYN ∧ ¬ segment.flags.contains .ACK ∧ segment.dstPort ∈ s.listeners then
        lift (s.inputSyn peer segment nowMs)
      else if segment.flags.contains .RST then (s, .ok ())
      else lift (s.emitReset peer segment)

/-! ## Local operations -/

def writeWithMarker (s : Stack P) (id : ConnectionId) (bytes : List U8) (nowMs : ℕ) :
    Stack P × Except StackError (ℕ × SendMarker) :=
  match s.connections.lookup id with
  | none => (s, .error .unknownConnection)
  | some connection =>
    match connection.write bytes nowMs s.config.1 with
    | .error e => (s, .error e)
    | .ok (connection', accepted, segments) =>
      let marker := connection'.sendProgress.marker id
      match (s.setConnection id connection').emit id segments with
      | (s', .error e) => (s', .error e)
      | (s', .ok ()) => (s', .ok (accepted, marker))

def write (s : Stack P) (id : ConnectionId) (bytes : List U8) (nowMs : ℕ) : Stack P × Except StackError ℕ :=
  match s.writeWithMarker id bytes nowMs with
  | (s', .error e) => (s', .error e)
  | (s', .ok (accepted, _)) => (s', .ok accepted)

def markerStatus (s : Stack P) (marker : SendMarker) : MarkerStatus :=
  match s.connections.lookup marker.connectionId with
  | none => .connectionGone
  | some connection => connection.sendProgress.status marker

def read (s : Stack P) (id : ConnectionId) (max : ℕ) : Stack P × Except StackError (List U8) :=
  match s.connections.lookup id with
  | none => (s, .error .unknownConnection)
  | some connection =>
    let (connection', bytes, segments) := connection.read max
    match (s.setConnection id connection').emit id segments with
    | (s', .error e) => (s', .error e)
    | (s', .ok ()) => (s', .ok bytes)

def close (s : Stack P) (id : ConnectionId) (nowMs : ℕ) : Stack P × Except StackError Unit :=
  match s.connections.lookup id with
  | none => (s, .error .unknownConnection)
  | some connection =>
    let (connection', update) := connection.close nowMs
    (s.setConnection id connection').finishUpdate id update

/-- whether a queued datagram belongs to a tuple -/
def belongsTo (outbound : Outbound P) (key : ConnectionKey P) : Bool :=
  decide (outbound.peer = key.peer) &&
    match Segment.decode outbound.bytes with
    | .ok segment => decide (segment.srcPort = key.localPort ∧ segment.dstPort = key.remotePort)
    | .error _ => false

def abort (s : Stack P) (id : ConnectionId) : Stack P × Except StackError Unit :=
  match s.connections.lookup id with
  | none => (s, .error .unknownConnection)
  | some connection =>
    match connection.resetSegment.encode with
    | .error e => (s, .error (.wire e))
    | .ok reset =>
      let outbound := s.outbound.filter (fun o => !belongsTo o connection.key) ++ [⟨connection.peer, reset⟩]
      ({ s with outbound }.removeConnection id, .ok ())

/-- the loop of `abort_peer` over the ids it collected -/
def abortAll : List ConnectionId → Stack P → Stack P × Except StackError Unit
  | [], s => (s, .ok ())
  | id :: ids, s =>
    match s.abort id with
    | (s', .error e) => (s', .error e)
    | (s', .ok ()) => abortAll ids s'

/-- `abort_peer`, with the ids of the peer's connections in the order the map yields them -/
def abortPeer (s : Stack P) (ids : List ConnectionId) : Stack P × Except StackError ℕ :=
  match abortAll ids s with
  | (s', .error e) => (s', .error e)
  | (s', .ok ()) => (s', .ok ids.length)

def setConnectionReservation (s : Stack P) (slots : ℕ) (eligible : P → Bool) : Stack P × Except StackError Unit :=
  if s.config.1.maxConnections ≤ slots then
    (s, .error (.invalidConfig "reserved connections must leave ordinary capacity"))
  else ({ s with reservation := if slots ≠ 0 then some ⟨slots, eligible⟩ else none }, .ok ())

/-! ## Timers -/

/-- one round of the loop of `poll` -/
def pollOne (nowMs : ℕ) (s : Stack P) (id : ConnectionId) : Stack P :=
  match s.connections.lookup id with
  | none => s
  | some connection =>
    let (connection', update) := connection.poll nowMs s.config.1
    let (s1, _) := (s.setConnection id connection').emit id update.segments
    if update.closed then s1.removeConnection id else s1

/-- `poll`, with the retained ids in the order the map yields them -/
def poll (s : Stack P) (ids : List ConnectionId) (nowMs : ℕ) : Stack P := ids.foldl (pollOne nowMs) s

/-- an order in which the map may yield a set of ids -/
def IsOrderOf (ids : List ConnectionId) (keys : Finset ConnectionId) : Prop := ids.Nodup ∧ ids.toFinset = keys

instance (ids : List ConnectionId) (keys : Finset ConnectionId) : Decidable (IsOrderOf ids keys) :=
  inferInstanceAs (Decidable (ids.Nodup ∧ ids.toFinset = keys))

/-- an optional time as a time, `none` being later than every time -/
def orNever (t : Option ℕ) : WithTop ℕ := t

def nextPollAt (s : Stack P) (nowMs : ℕ) : Option ℕ :=
  let deadline : WithTop ℕ := s.connections.keys.inf fun id =>
    orNever ((s.connections.lookup id).bind fun c => c.nextPollAt nowMs s.config.1)
  deadline

/-! ## Queries -/

def state (s : Stack P) (id : ConnectionId) : Option State := (s.connections.lookup id).map (·.state)

def isReadClosed (s : Stack P) (id : ConnectionId) : Bool :=
  match s.connections.lookup id with
  | none => true
  | some connection => connection.readClosed

end Stack

end FipsTcp
