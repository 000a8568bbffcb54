/-
Two endpoints of one handshake.

`Handshake` gives the client and the server: `Connection::client`, and `Connection::server` for the client's SYN. A pair is
one socket for each side. The network is adversarial: it remembers every segment that was ever emitted, and `deliver`
hands the `index`-th segment one side emitted to the other, which may happen never, late, and again.
-/
import FipsTcp.Core.Socket

namespace FipsTcp

inductive Side where
  | client
  | server
deriving DecidableEq, Repr

namespace Side

def other : Side → Side
  | client => server
  | server => client

@[simp] theorem other_other : ∀ side : Side, side.other.other = side
  | client | server => rfl

theorem other_ne : ∀ side : Side, side.other ≠ side
  | client | server => nofun

theorem eq_or_other : ∀ side d : Side, d = side ∨ d = side.other
  | client, client | server, server => .inl rfl
  | client, server | server, client => .inr rfl

end Side

/-- what the two ends of a handshake bring to it -/
structure Handshake (P : Type) where
  config : Side → ValidConfig
  /-- by what each side knows the other -/
  peer : Side → P
  isn : Side → U32
  nowMs : Side → ℕ
  token : Side → ℕ
  localPort : U16
  remotePort : U16

namespace Handshake

variable {P : Type}

/-- the client's SYN -/
def syn (h : Handshake P) : Segment :=
  (Connection.new (h.peer .client) h.localPort h.remotePort .synSent (h.isn .client) 0 (h.config .client).1
    (h.token .client)).sendTracked .SYN [] (h.nowMs .client) |>.2

def opening (h : Handshake P) : Side → Opening P
  | .client => .client (h.peer .client) h.localPort h.remotePort (h.isn .client) (h.nowMs .client) (h.token .client)
  | .server => .server (h.peer .server) h.syn (h.isn .server) (h.nowMs .server) (h.token .server)

/-- the SYN that the server answers is what the client emitted -/
theorem syn_emitted (h : Handshake P) : ((h.opening .client).connection (h.config .client).1).2 = [h.syn] := rfl

theorem opening_isn (h : Handshake P) : ∀ side, (h.opening side).isn = h.isn side
  | .client | .server => rfl

end Handshake

/-- what happens at a side without a segment -/
inductive LocalOp where
  | write (bytes : List U8) (nowMs : ℕ)
  | read (max : ℕ)
  | close (nowMs : ℕ)
  | abort
  | poll (nowMs : ℕ)
deriving DecidableEq, Repr

def LocalOp.socketOp : LocalOp → SocketOp
  | write bytes nowMs => .write bytes nowMs
  | read max => .read max
  | close nowMs => .close nowMs
  | abort => .abort
  | poll nowMs => .poll nowMs

inductive PairOp where
  /-- the `index`-th segment that the other side ever emitted arrives at this side -/
  | deliver (side : Side) (index nowMs : ℕ)
  | act (side : Side) (op : LocalOp)
deriving DecidableEq, Repr

abbrev Pair (P : Type) := Side → Socket P

namespace Pair

variable {P : Type}

def start (h : Handshake P) : Pair P := fun side => (h.opening side).socket (h.config side).1

/-- an operation of one socket -/
def update (h : Handshake P) (p : Pair P) (side : Side) (op : SocketOp) : Pair P :=
  Function.update p side ((p side).step (h.config side).1 op)

def step (h : Handshake P) (p : Pair P) : PairOp → Pair P
  | .deliver side index nowMs =>
    match (p side.other).sent[index]? with
    | none => p
    | some segment => p.update h side (.input segment nowMs)
  | .act side op => p.update h side op.socketOp

abbrev run (h : Handshake P) (ops : List PairOp) : Pair P := Run.exec (step h) (start h) ops

end Pair

end FipsTcp
