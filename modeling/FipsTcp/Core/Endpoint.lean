/-
The endpoint adapter (`rust/fips-tcp-endpoint/src/lib.rs`).

A `FipsTcpEndpoint` drives a stack over a carrier of datagrams: every method runs the stack and then flushes what the stack
queued. The carrier is a third party: `Carrier` says of each `send_datagram` of a flush whether it succeeds, by its position
and its arguments. `receive` is given the batch that `wait_for_input` fetched.
-/
import FipsTcp.Core.Machine

namespace FipsTcp

/-- the result of the `index`-th `send_datagram` of a flush: peer, source port, destination port, bytes -/
abbrev Carrier (P E : Type) := ℕ → P → U16 → U16 → List U8 → Except E Unit

inductive AdapterError (E : Type) where
  | invalidServicePort
  | fips (error : E)
  | tcp (error : StackError)
deriving DecidableEq, Repr

structure ReceiveReport where
  datagrams : ℕ
  processed : ℕ
  malformed : ℕ
  connectionLimited : ℕ
  otherErrors : ℕ
deriving DecidableEq, Repr

def ReceiveReport.rejected (r : ReceiveReport) : ℕ := r.malformed + r.connectionLimited + r.otherErrors

structure FipsTcpEndpoint (P : Type) [DecidableEq P] where
  fspServicePort : U16
  stack : Stack P

/-- a datagram of a received batch -/
structure Datagram (P : Type) where
  sourcePeer : P
  data : List U8
deriving DecidableEq, Repr

namespace FipsTcpEndpoint

variable {P E : Type} [DecidableEq P]

/-- `listening_stack`, and the endpoint over it -/
def bind (fspServicePort : U16) (config : ValidConfig) (isnSeed : BitVec 64) (token : ℕ) :
    Except (AdapterError E) (FipsTcpEndpoint P) :=
  if fspServicePort = 0 then .error .invalidServicePort
  else
    match (Stack.new config isnSeed token).listen fspServicePort with
    | (_, .error e) => .error (.tcp e)
    | (stack, .ok ()) => .ok ⟨fspServicePort, stack⟩

/-! ## Flushing -/

/-- the loop of `flush`, from the `index`-th datagram on: it ends at the first that the carrier refuses -/
def sendAll (send : Carrier P E) (port : U16) : ℕ → List (Outbound P) → Except E Unit
  | _, [] => .ok ()
  | index, outbound :: rest =>
    match send index outbound.peer port port outbound.bytes with
    | .error e => .error e
    | .ok () => sendAll send port (index + 1) rest

def flush (send : Carrier P E) (ep : FipsTcpEndpoint P) : FipsTcpEndpoint P × Except (AdapterError E) Unit :=
  let (stack, outbound) := ep.stack.drainOutbound
  ({ ep with stack }, (sendAll send ep.fspServicePort 0 outbound).mapError .fips)

/-- a method that runs the stack and flushes; an error of either is returned -/
def flushed {α : Type} (send : Carrier P E) (ep : FipsTcpEndpoint P) :
    Stack P × Except StackError α → FipsTcpEndpoint P × Except (AdapterError E) α
  | (stack, .error e) => ({ ep with stack }, .error (.tcp e))
  | (stack, .ok a) =>
    match { ep with stack }.flush send with
    | (ep', .error e) => (ep', .error e)
    | (ep', .ok ()) => (ep', .ok a)

/-! ## Methods -/

def accept (ep : FipsTcpEndpoint P) : FipsTcpEndpoint P × Option ConnectionId :=
  let (stack, id) := ep.stack.accept ep.fspServicePort
  ({ ep with stack }, id)

def setConnectionReservation (ep : FipsTcpEndpoint P) (slots : ℕ) (eligible : P → Bool) :
    FipsTcpEndpoint P × Except (AdapterError E) Unit :=
  match ep.stack.setConnectionReservation slots eligible with
  | (stack, .error e) => ({ ep with stack }, .error (.tcp e))
  | (stack, .ok ()) => ({ ep with stack }, .ok ())

/-- The caller does not get the id of a connection whose SYN the carrier refused, so it is released here. -/
def connect (send : Carrier P E) (ep : FipsTcpEndpoint P) (peer : P) (nowMs : ℕ) :
    FipsTcpEndpoint P × Except (AdapterError E) ConnectionId :=
  match ep.stack.connect peer ep.fspServicePort nowMs with
  | (stack, .error e) => ({ ep with stack }, .error (.tcp e))
  | (stack, .ok id) =>
    match { ep with stack }.flush send with
    | (ep', .error e) => ({ ep' with stack := (ep'.stack.close id nowMs).1 }, .error e)
    | (ep', .ok ()) => (ep', .ok id)

def write (send : Carrier P E) (ep : FipsTcpEndpoint P) (id : ConnectionId) (bytes : List U8) (nowMs : ℕ) :
    FipsTcpEndpoint P × Except (AdapterError E) ℕ := ep.flushed send (ep.stack.write id bytes nowMs)

def writeWithMarker (send : Carrier P E) (ep : FipsTcpEndpoint P) (id : ConnectionId) (bytes : List U8) (nowMs : ℕ) :
    FipsTcpEndpoint P × Except (AdapterError E) (ℕ × SendMarker) := ep.flushed send (ep.stack.writeWithMarker id bytes nowMs)

def read (send : Carrier P E) (ep : FipsTcpEndpoint P) (id : ConnectionId) (max : ℕ) :
    FipsTcpEndpoint P × Except (AdapterError E) (List U8) := ep.flushed send (ep.stack.read id max)

def close (send : Carrier P E) (ep : FipsTcpEndpoint P) (id : ConnectionId) (nowMs : ℕ) :
    FipsTcpEndpoint P × Except (AdapterError E) Unit := ep.flushed send (ep.stack.close id nowMs)

def abort (send : Carrier P E) (ep : FipsTcpEndpoint P) (id : ConnectionId) :
    FipsTcpEndpoint P × Except (AdapterError E) Unit := ep.flushed send (ep.stack.abort id)

/-- `abort_peer`, with the ids of the peer's connections in the order the map yields them -/
def abortPeer (send : Carrier P E) (ep : FipsTcpEndpoint P) (ids : List ConnectionId) :
    FipsTcpEndpoint P × Except (AdapterError E) ℕ := ep.flushed send (ep.stack.abortPeer ids)

def poll (send : Carrier P E) (ep : FipsTcpEndpoint P) (ids : List ConnectionId) (nowMs : ℕ) :
    FipsTcpEndpoint P × Except (AdapterError E) Unit := { ep with stack := ep.stack.poll ids nowMs }.flush send

/-! ## Receiving -/

/-- what the result of `Stack::input` adds to the report; a panic is no result -/
def ReceiveReport.count (r : ReceiveReport) : Except Failure Unit → ReceiveReport
  | .ok () => { r with processed := r.processed + 1 }
  | .error (.error (.wire _)) => { r with malformed := r.malformed + 1 }
  | .error (.error .connectionLimit) => { r with connectionLimited := r.connectionLimited + 1 }
  | .error _ => { r with otherErrors := r.otherErrors + 1 }

/-- one round of the loop over a batch -/
def receiveOne (nowMs : ℕ) (admitted : P → List U8 → Bool) (acc : Stack P × ReceiveReport) (datagram : Datagram P) :
    Stack P × ReceiveReport :=
  if admitted datagram.sourcePeer datagram.data then
    let (stack, result) := acc.1.input datagram.sourcePeer datagram.data nowMs
    (stack, ReceiveReport.count acc.2 result)
  else (acc.1, { acc.2 with connectionLimited := acc.2.connectionLimited + 1 })

/-- the loop of `receive_report_filtered_datagrams_with_clock` -/
def receiveBatch (nowMs : ℕ) (admitted : P → List U8 → Bool) (s : Stack P) (batch : List (Datagram P)) :
    Stack P × ReceiveReport :=
  batch.foldl (receiveOne nowMs admitted) (s, ⟨batch.length, 0, 0, 0, 0⟩)

def receiveReportFilteredDatagrams (send : Carrier P E) (ep : FipsTcpEndpoint P) (batch : List (Datagram P)) (nowMs : ℕ)
    (admitted : P → List U8 → Bool) : FipsTcpEndpoint P × Except (AdapterError E) ReceiveReport :=
  let (stack, report) := receiveBatch nowMs admitted ep.stack batch
  ep.flushed send (stack, .ok report)

end FipsTcpEndpoint

end FipsTcp
