/-
The connection table of the TypeScript package (`stack.ts`, and the markers of `marker.ts`).

A `Map` is an `OrderedMap`, and the key of `lookup` is the text that `connectionKey` builds. A method returns the new stack with
its result: what it did before a throw stays. `nextConnectionToken`, a variable of the module, is carried as a field. A marker is
its data. The classifier of a reservation is a function that may throw; one that changes its mind is a reservation installed anew.
-/
import FipsTcp.Ts.Connection
import FipsTcp.Core.Recovery
import FipsTcp.Lib.OrderedMap

namespace FipsTcp.Ts

open Number

abbrev ConnectionId := ℕ

structure Outbound where
  peer : JsString
  bytes : List U8
deriving DecidableEq, Repr

/-! ## `marker.ts` -/

structure SendMarker where
  connectionId : ConnectionId
  connectionToken : ℕ
  acceptedPayloadBytes : ℕ
deriving DecidableEq, Repr

namespace SendProgress

def marker (p : SendProgress) (connectionId : ConnectionId) : SendMarker :=
  ⟨connectionId, p.connectionToken, p.acceptedPayloadBytes⟩

/-- the members of `MarkerStatus` are those of the Rust enumeration -/
def status (p : SendProgress) (marker : SendMarker) : MarkerStatus :=
  if marker.connectionToken ≠ p.connectionToken then .connectionGone
  else if marker.acceptedPayloadBytes ≤ p.ackedPayloadBytes then .acked
  else .pending

end SendProgress

/-! ## `stack.ts` -/

structure ConnectionReservation where
  slots : ℕ
  eligible : JsString → Except String Bool

structure Stack where
  config : Config
  listeners : Finset ℕ
  accepts : OrderedMap ℕ (List ConnectionId)
  connections : OrderedMap ConnectionId Connection
  lookup : OrderedMap JsString ConnectionId
  outbound : List Outbound
  nextConnectionId : ℕ
  nextEphemeralPort : ℕ
  isnState : ℕ
  reservation : Option ConnectionReservation
  nextConnectionToken : ℕ

/-- a number in a template literal -/
def digits (n : ℕ) : JsString := (Nat.toDigits 10 n).map fun c => BitVec.ofNat 16 c.toNat

/-- the code unit of `:` -/
def colon : U16 := 58

def connectionKey (peer : JsString) (localPort remotePort : ℕ) : JsString :=
  digits peer.length ++ [colon] ++ peer ++ [colon] ++ digits localPort ++ [colon] ++ digits remotePort

def Connection.key (c : Connection) : JsString := connectionKey c.peer c.localPort c.remotePort

def checkPort (port : ℕ) : Except String Unit :=
  if port = 0 ∨ 65535 < port then .error "TCP/FIPS ports must be non-zero u16 values" else .ok ()

def checkPeer (peer : JsString) : Except String Unit :=
  if peer.length = 0 then .error "FIPS peer identity must be non-empty" else .ok ()

def checkNow (nowMs : ℕ) : Except String Unit :=
  if maxSafe < nowMs then .error "clock must be non-negative milliseconds" else .ok ()

namespace Stack

/-- the constructor -/
def new (config : Config) (isnSeed : ℤ) (token : ℕ) : Except String Stack := do
  let config ← makeConfig config
  return {
    config
    listeners := ∅
    accepts := ∅
    connections := ∅
    lookup := ∅
    outbound := []
    nextConnectionId := 1
    nextEphemeralPort := 49152
    isnState := if 0 < isnSeed then isnSeed.toNat else 1
    reservation := none
    nextConnectionToken := token }

def setConnectionReservation (s : Stack) (slots : ℕ) (eligible : JsString → Except String Bool) : Stack × Except String Unit :=
  if maxSafe < slots ∨ s.config.maxConnections ≤ slots then (s, .error "reserved connections must leave ordinary capacity")
  else ({ s with reservation := if slots = 0 then none else some ⟨slots, eligible⟩ }, .ok ())

/-! ### The table -/

def setConnection (s : Stack) (id : ConnectionId) (c : Connection) : Stack :=
  { s with connections := s.connections.set id c }

/-- the entries of a new connection -/
def insertConnection (s : Stack) (id : ConnectionId) (c : Connection) : Stack :=
  { s with lookup := s.lookup.set c.key id, connections := s.connections.set id c }

def removeConnection (s : Stack) (id : ConnectionId) : Stack :=
  match s.connections.get id with
  | none => s
  | some connection => { s with connections := s.connections.delete id, lookup := s.lookup.delete connection.key }

def requireConnection (s : Stack) (id : ConnectionId) : Except String Connection :=
  match s.connections.get id with
  | none => .error "unknown connection"
  | some connection => .ok connection

def ensureConnectionCapacity (s : Stack) (peer : JsString) : Except String Unit :=
  let peerConnections := (s.connections.pairs.filter fun entry => entry.2.peer == peer).length
  if s.config.maxConnections ≤ s.connections.size ∨ s.config.maxConnectionsPerPeer ≤ peerConnections then
    .error "connection limit reached"
  else
    match s.reservation with
    | none => .ok ()
    | some reservation =>
      if s.config.maxConnections - reservation.slots ≤ s.connections.size then
        match reservation.eligible peer with
        | .error e => .error e
        | .ok true => .ok ()
        | .ok false => .error "connection limit reached"
      else .ok ()

/-! ### Cursors -/

def allocateConnectionId (s : Stack) : Stack × ConnectionId :=
  let next := s.nextConnectionId + 1
  ({ s with nextConnectionId := if maxSafe < next then 1 else next }, s.nextConnectionId)

/-- the loop of `allocateEphemeralPort`, with the number of attempts left -/
def allocateEphemeralPortLoop (peer : JsString) (remotePort : ℕ) : ℕ → Stack → Stack × Except String ℕ
  | 0, s => (s, .error "no ephemeral port available")
  | attempts + 1, s =>
    let port := s.nextEphemeralPort
    let s := { s with nextEphemeralPort := if port = 65535 then 49152 else port + 1 }
    if connectionKey peer port remotePort ∈ s.lookup then allocateEphemeralPortLoop peer remotePort attempts s
    else (s, .ok port)

def allocateEphemeralPort (s : Stack) (peer : JsString) (remotePort : ℕ) : Stack × Except String ℕ :=
  match checkPeer peer, checkPort remotePort with
  | .error e, _ => (s, .error e)
  | .ok (), .error e => (s, .error e)
  | .ok (), .ok () => allocateEphemeralPortLoop peer remotePort 16384 s

/-- a seed may be longer than the mask -/
def nextIsn (s : Stack) : Stack × ℕ :=
  let mask := 2 ^ 64 - 1
  let value := s.isnState
  let value := value ^^^ ((value <<< 13) &&& mask)
  let value := value ^^^ (value >>> 7)
  let value := value ^^^ ((value <<< 17) &&& mask)
  let value := value &&& mask
  ({ s with isnState := if 0 < value then value else 1 }, (value ^^^ (value >>> 32)) &&& (2 ^ 32 - 1))

def nextToken (s : Stack) : Stack × ℕ :=
  ({ s with nextConnectionToken := s.nextConnectionToken + 1 }, s.nextConnectionToken)

/-! ### Output -/

/-- encode and queue segments for a peer, up to the first that cannot be encoded -/
def emitTo (peer : JsString) : List Segment → Stack → Stack × Except String Unit
  | [], s => (s, .ok ())
  | segment :: rest, s =>
    match segment.encode with
    | .error e => (s, .error e)
    | .ok bytes => emitTo peer rest { s with outbound := s.outbound ++ [⟨peer, bytes⟩] }

def emit (s : Stack) (id : ConnectionId) (segments : List Segment) : Stack × Except String Unit :=
  match s.connections.get id with
  | none => (s, .ok ())
  | some connection => emitTo connection.peer segments s

def emitReset (s : Stack) (peer : JsString) (incoming : Segment) : Stack × Except String Unit :=
  emitTo peer [resetResponse incoming] s

def finishUpdate (s : Stack) (id : ConnectionId) (update : ConnectionUpdate) : Stack × Except String Unit :=
  match s.emit id update.segments with
  | (s, .error e) => (s, .error e)
  | (s, .ok ()) => (if update.closed then s.removeConnection id else s, .ok ())

def drainOutbound (s : Stack) : Stack × List Outbound := ({ s with outbound := [] }, s.outbound)

/-! ### Listening and connecting -/

def listen (s : Stack) (port : ℕ) : Stack × Except String Unit :=
  match checkPort port with
  | .error e => (s, .error e)
  | .ok () =>
    if port ∈ s.listeners then (s, .error s!"already listening on port {port}")
    else ({ s with listeners := insert port s.listeners, accepts := s.accepts.set port [] }, .ok ())

def closeListener (s : Stack) (port : ℕ) : Stack := { s with listeners := s.listeners.erase port, accepts := s.accepts.delete port }

/-- shift queued connections up to the first that is still retained -/
def popAccepted (s : Stack) : List ConnectionId → List ConnectionId × Option ConnectionId
  | [] => ([], none)
  | id :: queue => if id ∈ s.connections then (queue, some id) else s.popAccepted queue

def accept (s : Stack) (port : ℕ) : Stack × Option ConnectionId :=
  match s.accepts.get port with
  | none => (s, none)
  | some queue =>
    let (queue, id) := s.popAccepted queue
    ({ s with accepts := s.accepts.set port queue }, id)

/-- the checks of `connectFromWithIsn` on its arguments -/
def checkConnect (peer : JsString) (localPort remotePort isn nowMs : ℕ) : Except String Unit := do
  checkPeer peer
  checkPort localPort
  checkPort remotePort
  checkNow nowMs
  if 2 ^ 32 ≤ isn then .error "ISN must be a u32"

def connectFromWithIsn (s : Stack) (peer : JsString) (localPort remotePort isn nowMs : ℕ) :
    Stack × Except String ConnectionId :=
  match checkConnect peer localPort remotePort isn nowMs, s.ensureConnectionCapacity peer with
  | .error e, _ => (s, .error e)
  | .ok (), .error e => (s, .error e)
  | .ok (), .ok () =>
    if connectionKey peer localPort remotePort ∈ s.lookup then (s, .error "connection already exists")
    else
      let (s, id) := s.allocateConnectionId
      let (s, token) := s.nextToken
      let (connection, segments) := Connection.client peer localPort remotePort isn nowMs s.config token
      match (s.insertConnection id connection).emit id segments with
      | (s, .error e) => (s, .error e)
      | (s, .ok ()) => (s, .ok id)

def connect (s : Stack) (peer : JsString) (remotePort nowMs : ℕ) : Stack × Except String ConnectionId :=
  match s.allocateEphemeralPort peer remotePort with
  | (s, .error e) => (s, .error e)
  | (s, .ok localPort) =>
    let (s, isn) := s.nextIsn
    s.connectFromWithIsn peer localPort remotePort isn nowMs

/-! ### Input -/

/-- `input` for a SYN to a listening port without a connection -/
def inputSyn (s : Stack) (peer : JsString) (segment : Segment) (nowMs : ℕ) : Stack × Except String Unit :=
  if segment.supportsFipsVersion FIPS_VERSION then
    match s.ensureConnectionCapacity peer with
    | .error e => (s, .error e)
    | .ok () =>
      let (s, id) := s.allocateConnectionId
      let (s, isn) := s.nextIsn
      let (s, token) := s.nextToken
      let (connection, segments) := Connection.server peer segment isn nowMs s.config token
      (s.insertConnection id connection).emit id segments
  else s.emitReset peer segment

/-- `input` for a segment of a retained connection -/
def inputRetained (s : Stack) (id : ConnectionId) (segment : Segment) (nowMs : ℕ) : Stack × Except String Unit :=
  match s.connections.get id with
  | none => (s, .error "connection lookup is inconsistent")
  | some connection =>
    match connection.handshakeResponse segment with
    | some response => s.emit id [response]
    | none =>
      let (connection, update) := connection.onSegment segment nowMs s.config
      let s := s.setConnection id connection
      let s :=
        if update.accepted then
          let port := connection.localPort
          { s with accepts := s.accepts.set port ((s.accepts.get port).getD [] ++ [id]) }
        else s
      s.finishUpdate id update

def input (s : Stack) (peer : JsString) (bytes : List U8) (nowMs : ℕ) : Stack × Except String Unit :=
  match checkPeer peer, checkNow nowMs, Segment.decode bytes with
  | .error e, _, _ => (s, .error e)
  | .ok (), .error e, _ => (s, .error e)
  | .ok (), .ok (), .error e => (s, .error e)
  | .ok (), .ok (), .ok segment =>
    match s.lookup.get (connectionKey peer segment.dstPort segment.srcPort) with
    | some id => s.inputRetained id segment nowMs
    | none =>
      if segment.flags.has Flags.Syn ∧ ¬ segment.flags.has Flags.Ack ∧ segment.dstPort ∈ s.listeners then
        s.inputSyn peer segment nowMs
      else if segment.flags.has Flags.Rst then (s, .ok ())
      else s.emitReset peer segment

/-! ### Timers and local operations -/

/-- the loop of `poll` over the entries it copied; the connections are objects, so an entry is one that no other round touches -/
def pollAll (nowMs : ℕ) : List (ConnectionId × Connection) → Stack → Stack × Except String Unit
  | [], s => (s, .ok ())
  | (id, connection) :: rest, s =>
    let (connection, update) := connection.poll nowMs s.config
    match (s.setConnection id connection).finishUpdate id update with
    | (s, .error e) => (s, .error e)
    | (s, .ok ()) => pollAll nowMs rest s

def poll (s : Stack) (nowMs : ℕ) : Stack × Except String Unit :=
  match checkNow nowMs with
  | .error e => (s, .error e)
  | .ok () => pollAll nowMs s.connections.pairs s

def writeWithMarker (s : Stack) (id : ConnectionId) (bytes : List U8) (nowMs : ℕ) : Stack × Except String (ℕ × SendMarker) :=
  match checkNow nowMs, s.requireConnection id with
  | .error e, _ => (s, .error e)
  | .ok (), .error e => (s, .error e)
  | .ok (), .ok connection =>
    match connection.write bytes nowMs s.config with
    | .error e => (s, .error e)
    | .ok (connection, accepted, segments) =>
      let marker := connection.sendProgress.marker id
      match (s.setConnection id connection).emit id segments with
      | (s, .error e) => (s, .error e)
      | (s, .ok ()) => (s, .ok (accepted, marker))

def write (s : Stack) (id : ConnectionId) (bytes : List U8) (nowMs : ℕ) : Stack × Except String ℕ :=
  match s.writeWithMarker id bytes nowMs with
  | (s, .error e) => (s, .error e)
  | (s, .ok (accepted, _)) => (s, .ok accepted)

def markerStatus (s : Stack) (marker : SendMarker) : MarkerStatus :=
  match s.connections.get marker.connectionId with
  | none => .connectionGone
  | some connection => connection.sendProgress.status marker

def read (s : Stack) (id : ConnectionId) (max nowMs : ℕ) : Stack × Except String (List U8) :=
  match checkNow nowMs, s.requireConnection id with
  | .error e, _ => (s, .error e)
  | .ok (), .error e => (s, .error e)
  | .ok (), .ok connection =>
    match connection.read max with
    | .error e => (s, .error e)
    | .ok (connection, bytes, segments) =>
      match (s.setConnection id connection).emit id segments with
      | (s, .error e) => (s, .error e)
      | (s, .ok ()) => (s, .ok bytes)

def close (s : Stack) (id : ConnectionId) (nowMs : ℕ) : Stack × Except String Unit :=
  match checkNow nowMs, s.requireConnection id with
  | .error e, _ => (s, .error e)
  | .ok (), .error e => (s, .error e)
  | .ok (), .ok connection =>
    let (connection, update) := connection.close nowMs
    (s.setConnection id connection).finishUpdate id update

/-- the filter of `abort`: what is queued for a tuple goes -/
def withoutTuple (connection : Connection) : List Outbound → Except String (List Outbound)
  | [] => .ok []
  | outbound :: rest =>
    if outbound.peer ≠ connection.peer then do
      let kept ← withoutTuple connection rest
      return outbound :: kept
    else do
      let segment ← Segment.decode outbound.bytes
      let kept ← withoutTuple connection rest
      return if segment.srcPort ≠ connection.localPort ∨ segment.dstPort ≠ connection.remotePort then outbound :: kept else kept

def abort (s : Stack) (id : ConnectionId) : Stack × Except String Unit :=
  match s.requireConnection id with
  | .error e => (s, .error e)
  | .ok connection =>
    match withoutTuple connection s.outbound with
    | .error e => (s, .error e)
    | .ok outbound =>
      match { s with outbound }.emit id [connection.resetSegment] with
      | (s, .error e) => (s, .error e)
      | (s, .ok ()) => (s.removeConnection id, .ok ())

/-! ### Queries -/

def state (s : Stack) (id : ConnectionId) : Option State := (s.connections.get id).map (·.state)

def isReadClosed (s : Stack) (id : ConnectionId) : Bool := ((s.connections.get id).map (·.readClosed)).getD true

def peer (s : Stack) (id : ConnectionId) : Option JsString := (s.connections.get id).map (·.peer)

def ports (s : Stack) (id : ConnectionId) : Option (ℕ × ℕ) :=
  (s.connections.get id).map fun connection => (connection.localPort, connection.remotePort)

end Stack

end FipsTcp.Ts
