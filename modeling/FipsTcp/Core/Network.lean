/-
Two endpoints and the segments between them.

`Net` is a pair with what is under way: the segments that a side emitted and that neither arrived nor were lost. A segment
arrives once, in any order, or is lost. The SYN that made the server is still under way at the start, as a retransmission of
it may be.
-/
import FipsTcp.Core.Pair

namespace FipsTcp

structure Net (P : Type) where
  pair : Pair P
  /-- what each side emitted and is still under way -/
  inFlight : Side → List Segment

inductive NetOp where
  /-- the `index`-th segment under way to this side arrives -/
  | deliver (side : Side) (index nowMs : ℕ)
  /-- the `index`-th segment under way to this side is lost -/
  | lose (side : Side) (index : ℕ)
  | act (side : Side) (op : LocalOp)
deriving DecidableEq, Repr

namespace Net

variable {P : Type}

def start (h : Handshake P) : Net P := ⟨Pair.start h, fun side => (Pair.start h side).sent⟩

/-- the segment is no longer under way -/
def take (n : Net P) (side : Side) (index : ℕ) : Net P :=
  { n with inFlight := Function.update n.inFlight side.other ((n.inFlight side.other).eraseIdx index) }

/-- an operation of one socket; what it emits is under way -/
def update (h : Handshake P) (n : Net P) (side : Side) (op : SocketOp) : Net P where
  pair := n.pair.update h side op
  inFlight := Function.update n.inFlight side
    (n.inFlight side ++ (n.pair.update h side op side).sent.drop (n.pair side).sent.length)

def step (h : Handshake P) (n : Net P) : NetOp → Net P
  | .deliver side index nowMs =>
    match (n.inFlight side.other)[index]? with
    | none => n
    | some segment => (n.take side index).update h side (.input segment nowMs)
  | .lose side index => n.take side index
  | .act side op => n.update h side op.socketOp

abbrev run (h : Handshake P) (ops : List NetOp) : Net P := Run.exec (step h) (start h) ops

end Net

end FipsTcp
