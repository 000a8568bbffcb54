/-
The endpoint of the TypeScript package (`fips.ts`).

Every method hands `enqueue` a work, and `enqueue` is the link of a `Chain`: it hangs the work on the promise `operation`, as both
handlers, and leaves a promise that is fulfilled after the result. A work runs the stack and hands what the stack queued to the
carrier, datagram after datagram (`flush`); at each it waits for the carrier's answer (`Flush`). The handler of the service is
enqueued like a call and reads the clock when its work starts. `sent` are the arguments `sendDatagram` was called with; a call
that throws at once is one that rejects. A call made while a work runs, by a classifier or by the carrier, only adds a link, so it
may as well be made before that step.
-/
import FipsTcp.Ts.Stack
import FipsTcp.Lib.Chain

namespace FipsTcp.Ts

/-- what can be enqueued: the methods, and the handler of the service -/
inductive Call where
  | accept
  | setConnectionReservation (slots : ℕ) (eligible : JsString → Except String Bool)
  | connect (peer : JsString) (nowMs : ℕ)
  | write (id : ConnectionId) (bytes : List U8) (nowMs : ℕ)
  | writeWithMarker (id : ConnectionId) (bytes : List U8) (nowMs : ℕ)
  | markerStatus (marker : SendMarker)
  | read (id : ConnectionId) (max nowMs : ℕ)
  | close (id : ConnectionId) (nowMs : ℕ)
  | abort (id : ConnectionId)
  | poll (nowMs : ℕ)
  | state (id : ConnectionId)
  | isReadClosed (id : ConnectionId)
  | peer (id : ConnectionId)
  | ports (id : ConnectionId)
  | service (src : JsString) (payload : List U8)

/-- what a method resolves to -/
inductive Value where
  | undefined
  | accepted (id : Option ConnectionId)
  | connected (id : ConnectionId)
  | written (accepted : ℕ)
  | marked (accepted : ℕ) (marker : SendMarker)
  | status (status : MarkerStatus)
  | bytes (bytes : List U8)
  | state (state : Option State)
  | readClosed (closed : Bool)
  | peer (peer : Option JsString)
  | ports (ports : Option (ℕ × ℕ))
deriving DecidableEq, Repr

inductive Rejection (E : Type) where
  | stack (message : String)
  | carrier (error : E)
deriving DecidableEq, Repr

/-- the arguments of `sendDatagram` -/
structure SendArgs where
  dst : JsString
  srcPort : ℕ
  dstPort : ℕ
  payload : List U8
deriving DecidableEq, Repr

structure FipsTcpEndpoint where
  fspServicePort : ℕ
  stack : Stack
  sent : List SendArgs

/-- a work that waits in `flush`: what is left to send, what the work returns after the flush, and the connection that `connect`
closes should the flush fail -/
structure Flush where
  rest : List Outbound
  value : Value
  rollback : Option (ConnectionId × ℕ)

def checkFspServicePort (port : ℕ) : Except String Unit :=
  if port = 0 ∨ 65535 < port then .error "FIPS service port must be an integer between 1 and 65535" else .ok ()

namespace FipsTcpEndpoint

variable {E : Type}

/-- the constructor -/
def new (fspServicePort : ℕ) (config : Config) (isnSeed : ℤ) (token : ℕ) : Except String FipsTcpEndpoint := do
  checkFspServicePort fspServicePort
  let stack ← Stack.new config isnSeed token
  match stack.listen fspServicePort with
  | (_, .error e) => .error e
  | (stack, .ok ()) => .ok ⟨fspServicePort, stack, []⟩

def sendDatagram (ep : FipsTcpEndpoint) (outbound : Outbound) : FipsTcpEndpoint :=
  { ep with sent := ep.sent ++ [⟨outbound.peer, ep.fspServicePort, ep.fspServicePort, outbound.bytes⟩] }

/-- the loop of `flush` up to the next answer of the carrier -/
def flushLoop (value : Value) (rollback : Option (ConnectionId × ℕ)) (ep : FipsTcpEndpoint) :
    List Outbound → FipsTcpEndpoint × Chain.Progress Flush (Rejection E) Value
  | [] => (ep, .done (.ok value))
  | outbound :: rest => (ep.sendDatagram outbound, .await ⟨rest, value, rollback⟩)

def flush (value : Value) (rollback : Option (ConnectionId × ℕ)) (ep : FipsTcpEndpoint) :
    FipsTcpEndpoint × Chain.Progress Flush (Rejection E) Value :=
  let (stack, outbound) := ep.stack.drainOutbound
  flushLoop value rollback { ep with stack } outbound

/-- a work that runs the stack and returns -/
def returned {α : Type} (ep : FipsTcpEndpoint) (value : α → Value) :
    Stack × Except String α → FipsTcpEndpoint × Chain.Progress Flush (Rejection E) Value
  | (stack, .error e) => ({ ep with stack }, .done (.error (.stack e)))
  | (stack, .ok a) => ({ ep with stack }, .done (.ok (value a)))

/-- a work that runs the stack and flushes -/
def flushed {α : Type} (ep : FipsTcpEndpoint) (value : α → Value) (rollback : α → Option (ConnectionId × ℕ)) :
    Stack × Except String α → FipsTcpEndpoint × Chain.Progress Flush (Rejection E) Value
  | (stack, .error e) => ({ ep with stack }, .done (.error (.stack e)))
  | (stack, .ok a) => flush (value a) (rollback a) { ep with stack }

/-- a query -/
def answered (ep : FipsTcpEndpoint) (value : Value) : FipsTcpEndpoint × Chain.Progress Flush (Rejection E) Value :=
  (ep, .done (.ok value))

/-- a work up to where it waits or ends; `now` is what `Date.now()` answers -/
def start (now : ℕ) (call : Call) (ep : FipsTcpEndpoint) : FipsTcpEndpoint × Chain.Progress Flush (Rejection E) Value :=
  match call with
  | .accept =>
    let (stack, id) := ep.stack.accept ep.fspServicePort
    answered { ep with stack } (.accepted id)
  | .setConnectionReservation slots eligible =>
    ep.returned (fun _ => .undefined) (ep.stack.setConnectionReservation slots eligible)
  | .connect peer nowMs =>
    ep.flushed .connected (fun id => some (id, nowMs)) (ep.stack.connect peer ep.fspServicePort nowMs)
  | .write id bytes nowMs => ep.flushed .written (fun _ => none) (ep.stack.write id bytes nowMs)
  | .writeWithMarker id bytes nowMs =>
    ep.flushed (fun result => .marked result.1 result.2) (fun _ => none) (ep.stack.writeWithMarker id bytes nowMs)
  | .markerStatus marker => ep.answered (.status (ep.stack.markerStatus marker))
  | .read id max nowMs => ep.flushed .bytes (fun _ => none) (ep.stack.read id max nowMs)
  | .close id nowMs => ep.flushed (fun _ => .undefined) (fun _ => none) (ep.stack.close id nowMs)
  | .abort id => ep.flushed (fun _ => .undefined) (fun _ => none) (ep.stack.abort id)
  | .poll nowMs => ep.flushed (fun _ => .undefined) (fun _ => none) (ep.stack.poll nowMs)
  | .state id => ep.answered (.state (ep.stack.state id))
  | .isReadClosed id => ep.answered (.readClosed (ep.stack.isReadClosed id))
  | .peer id => ep.answered (.peer (ep.stack.peer id))
  | .ports id => ep.answered (.ports (ep.stack.ports id))
  | .service src payload => ep.flushed (fun _ => .undefined) (fun _ => none) (ep.stack.input src payload now)

/-- The caller never received the id, so `connect` releases it; what `close` throws is dropped. -/
def rollBack (ep : FipsTcpEndpoint) : Option (ConnectionId × ℕ) → FipsTcpEndpoint
  | none => ep
  | some (id, nowMs) => { ep with stack := (ep.stack.close id nowMs).1 }

/-- the carrier has answered -/
def resume (answer : Except E Unit) (flush : Flush) (ep : FipsTcpEndpoint) :
    FipsTcpEndpoint × Chain.Progress Flush (Rejection E) Value :=
  match answer with
  | .ok () => flushLoop flush.value flush.rollback ep flush.rest
  | .error e => (ep.rollBack flush.rollback, .done (.error (.carrier e)))

/-- what `enqueue` chains -/
def works (E : Type) : Chain.Works FipsTcpEndpoint Call ℕ (Except E Unit) Flush (Rejection E) Value := ⟨start, resume⟩

/-- a flush that goes on has one datagram less before it -/
theorem works_shrinks (E : Type) : Chain.Shrinks (works E) fun flush => flush.rest.length := by
  rintro (e | ⟨⟩) ⟨rest, value, rollback⟩ ep flush' h
  · cases h
  · cases rest with
    | nil => cases h
    | cons outbound rest =>
      cases h
      exact Nat.lt_succ_self _

end FipsTcpEndpoint

end FipsTcp.Ts
