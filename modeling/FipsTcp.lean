import FipsTcp.Lib.SendWindow
import FipsTcp.Lib.Run
import FipsTcp.Lib.Table
import FipsTcp.Lib.Cursor
import FipsTcp.Lib.Tally
import FipsTcp.Lib.Number
import FipsTcp.Lib.Tap
import FipsTcp.Lib.Unwinding
import FipsTcp.Lib.Descent
import FipsTcp.Lib.OrderedMap
import FipsTcp.Lib.Mirror
import FipsTcp.Lib.Shuffle
import FipsTcp.Lib.Chain
import FipsTcp.Lib.BitLinear
import FipsTcp.Core.Stack
import FipsTcp.Core.Machine
import FipsTcp.Core.Socket
import FipsTcp.Core.Pair
import FipsTcp.Core.Network
import FipsTcp.Core.Endpoint
import FipsTcp.Wire.RoundTrip
import FipsTcp.Wire.Canonical
import FipsTcp.Wire.Grammar
import FipsTcp.Connection.Views
import FipsTcp.Connection.Moves
import FipsTcp.Connection.Sender
import FipsTcp.Connection.Receiver
import FipsTcp.Connection.Lifecycle
import FipsTcp.Connection.States
import FipsTcp.Connection.HeadOfLine
import FipsTcp.Connection.EndOfStream
import FipsTcp.Connection.Timers
import FipsTcp.Connection.Sound
import FipsTcp.Connection.Budget
import FipsTcp.Connection.Ledger
import FipsTcp.Connection.Reassembly
import FipsTcp.Connection.Delivery
import FipsTcp.Connection.Advertised
import FipsTcp.Connection.Karn
import FipsTcp.Connection.Flow
import FipsTcp.Connection.ClosedWindow
import FipsTcp.Connection.Retransmission
import FipsTcp.Connection.FastRetransmit
import FipsTcp.Connection.RtoRepair
import FipsTcp.Connection.Addressed
import FipsTcp.Connection.Charge
import FipsTcp.Connection.Rtt
import FipsTcp.Connection.Congestion
import FipsTcp.Pair.Face
import FipsTcp.Pair.Side
import FipsTcp.Pair.System
import FipsTcp.Pair.Contract
import FipsTcp.Pair.Deadlock
import FipsTcp.Ts.Wire
import FipsTcp.Ts.Recovery
import FipsTcp.Ts.Connection
import FipsTcp.Lockstep.Values
import FipsTcp.Lockstep.Connection
import FipsTcp.Lockstep.Operations
import FipsTcp.Lockstep.Calls
import FipsTcp.Lockstep.Wire
import FipsTcp.Stack.Calls
import FipsTcp.Stack.Edits
import FipsTcp.Stack.Table
import FipsTcp.Stack.Entries
import FipsTcp.Stack.PollExact
import FipsTcp.Stack.Atomicity
import FipsTcp.Stack.Retention
import FipsTcp.Stack.HalfOpen
import FipsTcp.Stack.Teardown
import FipsTcp.Stack.Reopen
import FipsTcp.Stack.Queues
import FipsTcp.Stack.Accept
import FipsTcp.Stack.Backlog
import FipsTcp.Stack.Progress
import FipsTcp.Stack.Markers
import FipsTcp.Stack.Emissions
import FipsTcp.Stack.Isolation
import FipsTcp.Stack.Reaction
import FipsTcp.Stack.Exchange
import FipsTcp.Stack.Abort
import FipsTcp.Stack.WalkOrder
import FipsTcp.Stack.Connect
import FipsTcp.Stack.InitialSequence
import FipsTcp.Endpoint.CarrierErrors
import FipsTcp.Endpoint.PeerIsolation
import FipsTcp.Ts.Endpoint
import FipsTcp.Ts.Entries
import FipsTcp.Ts.Rollback
import FipsTcp.Ts.Key
import FipsTcp.Lockstep.Table
import FipsTcp.Lockstep.Stack
import FipsTcp.Lockstep.Runs
import FipsTcp.Hosts.Contract
import FipsTcp.Pair.Completion
import FipsTcp.Pair.SegmentSize
import FipsTcp.Stack.SilentPeer
import FipsTcp.Stack.RoundTrips
import FipsTcp.Lockstep.Interop
