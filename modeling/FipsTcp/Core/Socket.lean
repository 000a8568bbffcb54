/-
One connection over its whole life, as `Stack` drives it.

A socket is the connection together with what its application wrote and read and everything it emitted. Its operations
are those of the stack on one connection: a segment for its tuple (`Stack::input` once the tuple is found), write, read,
close, abort and poll. A removed connection is kept as it was when it was removed and only answers segments with resets,
as the stack does for a tuple it does not know. Segments are emitted as values; the stack encodes them, which succeeds
for all that a connection builds.
-/
import FipsTcp.Core.Connection
import FipsTcp.Lib.Run

namespace FipsTcp

structure Socket (P : Type) where
  conn : Connection P
  retained : Bool
  /-- the bytes that the writes accepted -/
  accepted : List U8
  /-- the bytes that the reads returned -/
  delivered : List U8
  /-- everything emitted, in order -/
  sent : List Segment
  /-- removed by the ACK of its FIN -/
  ackRemoved : Bool
deriving DecidableEq, Repr

inductive SocketOp where
  | input (segment : Segment) (nowMs : ℕ)
  | write (bytes : List U8) (nowMs : ℕ)
  | read (max : ℕ)
  | close (nowMs : ℕ)
  | abort
  | poll (nowMs : ℕ)
deriving DecidableEq, Repr

/-- how a connection is made: `connect_from_with_isn`, or a SYN to a listener -/
inductive Opening (P : Type) where
  | client (peer : P) (localPort remotePort : U16) (isn : U32) (nowMs token : ℕ)
  | server (peer : P) (syn : Segment) (isn : U32) (nowMs token : ℕ)
deriving DecidableEq, Repr

namespace Opening

variable {P : Type}

def connection (config : Config) : Opening P → Connection P × List Segment
  | client peer localPort remotePort isn nowMs token =>
    Connection.client peer localPort remotePort isn nowMs config token
  | server peer syn isn nowMs token => Connection.server peer syn isn nowMs config token

def isn : Opening P → U32
  | client _ _ _ isn _ _ => isn
  | server _ _ isn _ _ => isn

def socket (config : Config) (o : Opening P) : Socket P :=
  ⟨(o.connection config).1, true, [], [], (o.connection config).2, false⟩

end Opening

namespace Socket

variable {P : Type}

/-- the in-order stream received so far: what was read, then what can be read -/
def stream (s : Socket P) : List U8 := s.delivered ++ s.conn.recvQueue

/-- what `Stack::write` answers -/
def writeResult (config : Config) (s : Socket P) (bytes : List U8) (nowMs : ℕ) : Except StackError ℕ :=
  if s.retained then (s.conn.write bytes nowMs config).map fun result => result.2.1 else .error .unknownConnection

/-- what `Stack::marker_status` answers -/
def markerStatus (s : Socket P) (marker : SendMarker) : MarkerStatus :=
  if s.retained then s.conn.sendProgress.status marker else .connectionGone

def onInput (config : Config) (s : Socket P) (segment : Segment) (nowMs : ℕ) : Socket P :=
  if s.retained then
    let (conn, update) := s.conn.input segment nowMs config
    { s with
      conn
      retained := !update.closed
      sent := s.sent ++ update.segments
      ackRemoved := update.closed && !segment.flags.contains .RST }
  else if segment.flags.contains .RST then s
  else { s with sent := s.sent ++ [resetFor segment] }

def onWrite (config : Config) (s : Socket P) (bytes : List U8) (nowMs : ℕ) : Socket P :=
  if s.retained then
    match s.conn.write bytes nowMs config with
    | .error _ => s
    | .ok (conn, count, segments) =>
      { s with conn, accepted := s.accepted ++ bytes.take count, sent := s.sent ++ segments }
  else s

def onRead (s : Socket P) (max : ℕ) : Socket P :=
  if s.retained then
    let (conn, bytes, segments) := s.conn.read max
    { s with conn, delivered := s.delivered ++ bytes, sent := s.sent ++ segments }
  else s

/-- the effect of an update that no segment caused -/
def onUpdate (s : Socket P) (result : Connection P × Update) : Socket P :=
  if s.retained then
    { s with conn := result.1, retained := !result.2.closed, sent := s.sent ++ result.2.segments }
  else s

def onAbort (s : Socket P) : Socket P :=
  if s.retained then { s with retained := false, sent := s.sent ++ [s.conn.resetSegment] } else s

def step (config : Config) (s : Socket P) : SocketOp → Socket P
  | .input segment nowMs => s.onInput config segment nowMs
  | .write bytes nowMs => s.onWrite config bytes nowMs
  | .read max => s.onRead max
  | .close nowMs => s.onUpdate (s.conn.close nowMs)
  | .abort => s.onAbort
  | .poll nowMs => s.onUpdate (s.conn.poll nowMs config)

/-- the socket after a connection was made and a list of operations followed -/
abbrev run (config : Config) (o : Opening P) (ops : List SocketOp) : Socket P :=
  Run.exec (step config) (o.socket config) ops

end Socket

/-- a connection that is retained after some run, whatever the peer sends -/
def Connection.Reachable {P : Type} (config : Config) (c : Connection P) : Prop :=
  ∃ (o : Opening P) (ops : List SocketOp), (Socket.run config o ops).retained = true ∧ (Socket.run config o ops).conn = c

end FipsTcp
