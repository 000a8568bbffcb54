/-
Configuration, states and errors of the stack (`types.rs`).

`ValidConfig` is a configuration together with the fact that `Config.validate` accepts it: `Stack::new` panics on any
other, so every stack that exists carries one.
-/
import FipsTcp.Core.Wire

namespace FipsTcp

inductive State where
  | synSent
  | synReceived
  | established
  | finWait1
  | finWait2
  | closeWait
  | closing
  | lastAck
  | timeWait
deriving DecidableEq, Repr

inductive StackError where
  | wire (error : WireError)
  | invalidConfig (message : String)
  | zeroPort
  | alreadyListening (port : U16)
  | connectionExists
  | connectionLimit
  | noEphemeralPort
  | unknownConnection
  | invalidState (state : State)
deriving DecidableEq, Repr

structure Config where
  mss : U16
  receiveBuffer : ℕ
  sendBuffer : ℕ
  maxConnections : ℕ
  maxConnectionsPerPeer : ℕ
  maxReassemblySegments : ℕ
  initialRtoMs : ℕ
  minRtoMs : ℕ
  maxRtoMs : ℕ
  maxRetransmissions : U8
  finWait2Ms : ℕ
  timeWaitMs : ℕ
deriving DecidableEq, Repr

namespace Config

def default : Config where
  mss := 1024
  receiveBuffer := 65535
  sendBuffer := 1024 * 1024
  maxConnections := 1024
  maxConnectionsPerPeer := maxU64
  maxReassemblySegments := 128
  initialRtoMs := 1000
  minRtoMs := 200
  maxRtoMs := 60000
  maxRetransmissions := 8
  finWait2Ms := 60000
  timeWaitMs := 30000

def validate (c : Config) : Except StackError Unit :=
  if c.mss = 0 then .error (.invalidConfig "MSS must be non-zero")
  else if c.receiveBuffer = 0 ∨ 65535 < c.receiveBuffer then
    .error (.invalidConfig "receive buffer must be between 1 and 65535 bytes")
  else if c.sendBuffer = 0 then .error (.invalidConfig "send buffer must be non-zero")
  else if c.maxConnections = 0 ∨ c.maxConnectionsPerPeer = 0 ∨ c.maxReassemblySegments = 0 then
    .error (.invalidConfig "connection limits must be non-zero")
  else if c.minRtoMs = 0 ∨ c.initialRtoMs < c.minRtoMs ∨ c.maxRtoMs < c.initialRtoMs then
    .error (.invalidConfig "invalid retransmission timeout bounds")
  else if c.finWait2Ms = 0 then .error (.invalidConfig "FIN-WAIT-2 duration must be non-zero")
  else .ok ()

/-- what an accepted configuration satisfies -/
structure Valid (c : Config) : Prop where
  mss_pos : c.mss ≠ 0
  receive_pos : 0 < c.receiveBuffer
  receive_le : c.receiveBuffer ≤ 65535
  send_pos : 0 < c.sendBuffer
  connections_pos : 0 < c.maxConnections
  perPeer_pos : 0 < c.maxConnectionsPerPeer
  reassembly_pos : 0 < c.maxReassemblySegments
  minRto_pos : 0 < c.minRtoMs
  minRto_le : c.minRtoMs ≤ c.initialRtoMs
  maxRto_ge : c.initialRtoMs ≤ c.maxRtoMs
  finWait2_pos : 0 < c.finWait2Ms

theorem validate_ok_iff (c : Config) : c.validate = .ok () ↔ c.Valid := by
  unfold validate
  constructor
  · intro h
    split_ifs at h
    constructor <;> first | assumption | omega
  · rintro ⟨h1, h2, h3, h4, h5, h6, h7, h8, h9, h10, h11⟩
    simp only [h1, if_false]
    repeat rw [if_neg (by omega)]

theorem default_validate : default.validate = .ok () := by decide

end Config

/-- a configuration that `Stack::new` accepts -/
abbrev ValidConfig := { c : Config // c.validate = .ok () }

theorem ValidConfig.valid (c : ValidConfig) : c.1.Valid := (Config.validate_ok_iff c.1).1 c.2

structure ConnectionId where
  raw : ℕ
deriving DecidableEq, Repr

structure Outbound (P : Type) where
  peer : P
  bytes : List U8
deriving DecidableEq, Repr

end FipsTcp
