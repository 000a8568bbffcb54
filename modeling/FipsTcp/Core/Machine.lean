/-
A stack over its whole life.

`StackOp` lists what can be done to a stack; `perform` does it and says whether it failed, and how. Where the code walks a
hash map the operation carries the order, and an order that is not one of the map's keys changes nothing. A `Process` is the
stacks of one process: they are made and dropped, and draw the tokens of their connections from one counter.
-/
import FipsTcp.Core.Stack
import FipsTcp.Lib.Run

namespace FipsTcp

inductive StackOp (P : Type) where
  | listen (port : U16)
  | closeListener (port : U16)
  | accept (port : U16)
  | connect (peer : P) (remotePort : U16) (nowMs : ℕ)
  | connectFromWithIsn (peer : P) (localPort remotePort : U16) (isn : U32) (nowMs : ℕ)
  | input (peer : P) (bytes : List U8) (nowMs : ℕ)
  | poll (ids : List ConnectionId) (nowMs : ℕ)
  | write (id : ConnectionId) (bytes : List U8) (nowMs : ℕ)
  | read (id : ConnectionId) (max : ℕ)
  | close (id : ConnectionId) (nowMs : ℕ)
  | abort (id : ConnectionId)
  | abortPeer (peer : P) (ids : List ConnectionId)
  | setConnectionReservation (slots : ℕ) (eligible : P → Bool)
  | drainOutbound

namespace Stack

variable {P : Type} [DecidableEq P]

/-- whether a call succeeded, and with which failure it did not -/
def outcome {α : Type} : Stack P × Except StackError α → Stack P × Except Failure Unit
  | (s, .ok _) => (s, .ok ())
  | (s, .error e) => (s, .error (.error e))

def perform (s : Stack P) : StackOp P → Stack P × Except Failure Unit
  | .listen port => outcome (s.listen port)
  | .closeListener port => (s.closeListener port, .ok ())
  | .accept port => ((s.accept port).1, .ok ())
  | .connect peer remotePort nowMs => outcome (s.connect peer remotePort nowMs)
  | .connectFromWithIsn peer localPort remotePort isn nowMs =>
    outcome (s.connectFromWithIsn peer localPort remotePort isn nowMs)
  | .input peer bytes nowMs => s.input peer bytes nowMs
  | .poll ids nowMs => (if IsOrderOf ids s.connections.keys then s.poll ids nowMs else s, .ok ())
  | .write id bytes nowMs => outcome (s.writeWithMarker id bytes nowMs)
  | .read id max => outcome (s.read id max)
  | .close id nowMs => outcome (s.close id nowMs)
  | .abort id => outcome (s.abort id)
  | .abortPeer peer ids => if IsOrderOf ids (s.peerConnections peer) then outcome (s.abortPeer ids) else (s, .ok ())
  | .setConnectionReservation slots eligible => outcome (s.setConnectionReservation slots eligible)
  | .drainOutbound => ((s.drainOutbound).1, .ok ())

/-- the stack after a list of operations on a new one -/
abbrev run (config : ValidConfig) (isnSeed : BitVec 64) (token : ℕ) (ops : List (StackOp P)) : Stack P :=
  Run.exec (fun s op => (s.perform op).1) (new config isnSeed token) ops

end Stack

/-! ## The stacks of a process -/

structure Process (ι P : Type) [DecidableEq P] where
  alive : ι → Option (Stack P)
  /-- `NEXT_CONNECTION_TOKEN` -/
  nextConnectionToken : ℕ

inductive ProcessOp (ι P : Type) where
  | create (i : ι) (config : ValidConfig) (isnSeed : BitVec 64)
  | drop (i : ι)
  | perform (i : ι) (op : StackOp P)

namespace Process

variable {ι P : Type} [DecidableEq ι] [DecidableEq P]

/-- the stack `i`, with the counter as it is now -/
def stack (p : Process ι P) (i : ι) : Option (Stack P) :=
  (p.alive i).map fun s => { s with nextConnectionToken := p.nextConnectionToken }

def step (p : Process ι P) : ProcessOp ι P → Process ι P
  | .create i config isnSeed =>
    { p with alive := Function.update p.alive i (some (Stack.new config isnSeed p.nextConnectionToken)) }
  | .drop i => { p with alive := Function.update p.alive i none }
  | .perform i op =>
    match p.stack i with
    | none => p
    | some s =>
      let s' := (s.perform op).1
      { alive := Function.update p.alive i (some s'), nextConnectionToken := s'.nextConnectionToken }

end Process

end FipsTcp
