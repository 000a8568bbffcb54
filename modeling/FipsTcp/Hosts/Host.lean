/-
Two stacks on an authenticated carrier.

A `Host` is a stack with what its applications wrote and read on each connection, and every datagram that it ever queued. The
carrier authenticates and promises nothing else: a datagram that arrives under the name of the other host was queued there for
this one at some time before, and it may arrive never, late, and again (`deliver`). What else happens at a host is its own
affair (`act`): calls on any connection, polls, datagrams of any other peer, what other stacks of its process do.

`Host.Follows`: the host seen from one of its connections, as a socket that does what the stack does.
- `Host.Follows.step`: every operation is one of the socket, or none;
- `Host.Follows.posted_step`: what is queued for the tuple then is what the socket emits, or resets of a removed connection.
-/
import FipsTcp.Connection.Charge
import FipsTcp.Stack.Isolation
import FipsTcp.Stack.Queues
import FipsTcp.Pair.Deadlock

namespace FipsTcp

open Table Connection

/-! ## The model -/

namespace Stack

variable {P : Type} [DecidableEq P]

/-- the bytes that a call writes on a connection -/
def wrote (s : Stack P) (id : ConnectionId) : StackOp P → List U8
  | .write i bytes nowMs =>
    match (s.writeWithMarker i bytes nowMs).2 with
    | .ok (count, _) => if i = id then bytes.take count else []
    | .error _ => []
  | _ => []

/-- the bytes that a call reads from a connection -/
def got (s : Stack P) (id : ConnectionId) : StackOp P → List U8
  | .read i max =>
    match (s.read i max).2 with
    | .ok bytes => if i = id then bytes else []
    | .error _ => []
  | _ => []

end Stack

structure Host (P : Type) [DecidableEq P] where
  stack : Stack P
  /-- the bytes that the writes on a connection accepted -/
  accepted : ConnectionId → List U8
  /-- the bytes that the reads on a connection returned -/
  delivered : ConnectionId → List U8
  /-- the bytes that a connection received in order, until it was removed -/
  received : ConnectionId → List U8
  /-- every datagram that was ever queued -/
  posted : List (Outbound P)

namespace Host

variable {P : Type} [DecidableEq P]

def new (config : ValidConfig) (isnSeed : BitVec 64) (token : ℕ) : Host P :=
  ⟨.new config isnSeed token, fun _ => [], fun _ => [], fun _ => [], []⟩

/-- an operation, after the other stacks of the process drew some tokens -/
def step (h : Host P) (op : ℕ × StackOp P) : Host P where
  stack := h.stack.turn op
  accepted id := h.accepted id ++ (h.stack.elsewhere op.1).wrote id op.2
  delivered id := h.delivered id ++ (h.stack.elsewhere op.1).got id op.2
  received id := ((h.stack.turn op).connections.lookup id).elim (h.received id) fun c =>
    h.delivered id ++ (h.stack.elsewhere op.1).got id op.2 ++ c.recvQueue
  posted := h.posted ++ (h.stack.elsewhere op.1).emitted op.2

/-- the host seen from a connection -/
structure Follows (h : Host P) (config : ValidConfig) (id : ConnectionId) (key : ConnectionKey P) (s : Socket P) : Prop
    extends h.stack.Watched config id key where
  entry : h.stack.connections.lookup id = if s.retained then some s.conn else none
  accepts : h.accepted id = s.accepted
  delivers : h.delivered id = s.delivered
  receives : h.received id = s.stream

end Host

/-! ## A socket, operation by operation -/

namespace Connection

variable {P : Type}

/-- the bytes that an operation accepts -/
def takes (config : Config) (c : Connection P) : SocketOp → List U8
  | .write bytes nowMs =>
    match c.write bytes nowMs config with
    | .error _ => []
    | .ok (_, count, _) => bytes.take count
  | _ => []

/-- the bytes that an operation returns -/
def gives (c : Connection P) : SocketOp → List U8
  | .read max => (c.read max).2.1
  | _ => []

end Connection

namespace Socket

variable {P : Type} {config : Config} {s : Socket P}

theorem step_retained (hr : s.retained = true) (o : SocketOp) :
    (s.step config o).accepted = s.accepted ++ s.conn.takes config o ∧
      (s.step config o).delivered = s.delivered ++ s.conn.gives o ∧ (s.step config o).sent = s.sent ++ s.conn.said config o := by
  cases o with
  | input segment nowMs =>
    simp only [Socket.step, onInput, hr, if_true, takes, gives, said, List.append_nil, and_self]
  | write bytes nowMs =>
    simp only [Socket.step, onWrite, hr, if_true, takes, gives, said, List.append_nil]
    rcases s.conn.write bytes nowMs config with _ | ⟨c', count, out⟩ <;> simp only [List.append_nil, and_self]
  | read max => simp only [Socket.step, onRead, hr, if_true, takes, gives, said, List.append_nil, and_self]
  | close nowMs => simp only [Socket.step, onUpdate, hr, if_true, takes, gives, said, List.append_nil, and_self]
  | abort => simp only [Socket.step, onAbort, hr, if_true, takes, gives, said, List.append_nil, and_self]
  | poll nowMs => simp only [Socket.step, onUpdate, hr, if_true, takes, gives, said, List.append_nil, and_self]

/-- what removes a connection leaves what it has received -/
theorem stream_left (hr : s.retained = true) (hm : 0 < s.conn.mss) (o : SocketOp) (hleft : (s.step config o).retained = false) :
    (s.step config o).stream = s.stream := by
  cases o with
  | input segment nowMs =>
    simp only [Socket.step, onInput, hr, if_true, Bool.not_eq_false'] at hleft ⊢
    obtain ⟨-, hrem⟩ := (input_moves config nowMs segment hm).2 hleft
    have hq : (s.conn.input segment nowMs config).1.recvQueue = s.conn.recvQueue := by
      generalize (s.conn.input segment nowMs config).1 = c' at hrem ⊢
      cases hrem with
      | reset => rfl
      | lastAck c' h =>
        obtain ⟨-, -, ack, -, -, -, h⟩ := h
        rw [h]
        rfl
    simp only [Socket.stream, hq]
  | write bytes nowMs =>
    simp only [Socket.step, onWrite, hr, if_true] at hleft
    rcases hw : s.conn.write bytes nowMs config with _ | ⟨c', count, out⟩ <;> rw [hw] at hleft <;>
      simp only [hr, Bool.true_eq_false] at hleft
  | read max => simp only [Socket.step, onRead, hr, if_true, Bool.true_eq_false] at hleft
  | close nowMs =>
    simp only [Socket.step, onUpdate, hr, if_true, Bool.not_eq_false'] at hleft ⊢
    simp only [Socket.stream, ((close_moves config nowMs hm).2 hleft).2]
  | abort => simp only [Socket.step, onAbort, hr, if_true, Socket.stream]
  | poll nowMs =>
    simp only [Socket.step, onUpdate, hr, if_true, Bool.not_eq_false'] at hleft ⊢
    have hr := (poll_moves config nowMs hm).1.receiver_eq
    have hq : (s.conn.poll nowMs config).1.recvQueue = s.conn.recvQueue := congrArg Receiver.recvQueue hr
    simp only [Socket.stream, hq]

end Socket

/-! ## Resets that are no SYN -/

/-- no segment both resets and opens a connection -/
def Segment.Tame (x : Segment) : Prop := x.bareSyn = true → x.flags.contains .RST = false

theorem Segment.Tame.of_not_syn {x : Segment} (h : x.bareSyn = false) : x.Tame := fun h' => by
  rw [h] at h'
  cases h'

namespace Connection

variable {P : Type} {config : Config} {nowMs : ℕ} {inp : Option Segment} {c c' : Connection P} {out : List Segment}

/-- flags without RST -/
def Unreset (flags : Flags) : Prop := flags.contains .RST = false

instance (flags : Flags) : Decidable (Unreset flags) := inferInstanceAs (Decidable (_ = _))

/-- the flags of what a primitive emits are those of a tracked segment, or not those of a bare SYN -/
theorem Move.spoken (hmove : Move config nowMs inp c out c') :
    ∀ x ∈ out, (∃ y ∈ c.unacked, x.flags = y.flags) ∨ x.bareSyn = false := by
  have hone : ∀ {a : Segment}, Answering a.flags → ∀ x ∈ [a], (∃ y ∈ c.unacked, x.flags = y.flags) ∨ x.bareSyn = false :=
    fun ha x hx => .inr (bareSyn_of_answering (List.mem_singleton.1 hx ▸ ha))
  have hack : Answering Flags.ACK := by decide
  have hdata : Answering (Flags.ACK.union .PSH) := by decide
  cases hmove with
  | establishClient | establishServer | window | timers | advanceAck | requestClose => exact fun _ hx => nomatch hx
  | retransmit timeout =>
    rcases c.retransmitOldest_cases nowMs timeout with heq | ⟨tracked, rest, transmissions, dups, hu, -, heq⟩ <;> rw [heq]
    · exact fun _ hx => nomatch hx
    · intro x hx
      rw [List.mem_singleton.1 hx]
      exact .inl ⟨tracked, hu ▸ List.mem_cons_self, rfl⟩
  | receive => exact hone hack
  | sendData => exact hone hdata
  | sendFin => exact hone (by decide : Answering (Flags.FIN.union .ACK))
  | probe =>
    rcases c.zeroWindowProbe_cases nowMs with ⟨x, -, -, heq⟩ | ⟨-, ⟨-, heq⟩ | ⟨-, heq⟩⟩ <;> rw [heq]
    · exact hone hdata
    · exact fun _ hx => nomatch hx
    · exact hone hdata
  | ack => exact hone hack
  | reset segment =>
    intro x hx
    rw [List.mem_singleton.1 hx]
    exact .inr (resetFor_flags segment).2.1

theorem Moves.tame (hmoves : Moves config nowMs inp c out c') (h : c.Tracks Unreset) : ∀ x ∈ out, x.Tame := by
  induction hmoves with
  | refl => exact fun _ hx => nomatch hx
  | cons hmove _ ih =>
    intro x hx
    rcases List.mem_append.1 hx with hx | hx
    · rcases hmove.spoken x hx with ⟨y, hy, hflags⟩ | hsyn
      · intro _
        rw [hflags]
        exact h y hy
      · exact .of_not_syn hsyn
    · exact ih (hmove.tracks (F := Unreset) (by decide) (by decide) h) x hx

theorem Reachable.unreset {config : ValidConfig} (h : c.Reachable config.1) : c.Tracks Unreset := by
  refine h.invariant (fun o => ?_) (fun hm _ hf => hm.tracks (by decide) (by decide) hf) fun hf hu _ => hf.of_eq hu
  cases o with
  | client => exact fun x hx => List.mem_singleton.1 hx ▸ (by decide : Unreset Flags.SYN)
  | server peer syn isn nowMs token => exact server_tracks config.1 peer syn isn nowMs token (by decide)

theorem opening_tame (config : Config) (o : Opening P) : ∀ x ∈ (o.connection config).2, x.Tame := by
  intro x hx
  cases o with
  | client =>
    rw [List.mem_singleton.1 hx]
    exact fun _ => (by decide : Flags.SYN.contains .RST = false)
  | server =>
    rw [List.mem_singleton.1 hx]
    exact .of_not_syn (bareSyn_of_answering (by decide : Answering (Flags.SYN.union .ACK)))

/-- **Nothing that a connection emits both resets and opens.** -/
theorem said_tame {config : ValidConfig} (hs : c.Sound config.1) (h : c.Reachable config.1) (o : SocketOp) :
    ∀ x ∈ c.said config.1 o, x.Tame := by
  rcases said_moves hs.mss o with hnil | rfl | ⟨c0, c', -, hu, -, -, hmoves⟩
  · rw [hnil]
    exact fun _ hx => nomatch hx
  · intro x hx
    rw [List.mem_singleton.1 hx]
    exact .of_not_syn (bareSyn_of_answering (by decide : Answering Flags.RST))
  · exact hmoves.tame (h.unreset.of_eq hu)

end Connection

/-! ## An operation of the stack, for one connection -/

namespace Stack

variable {P : Type} [DecidableEq P] {s : Stack P} {id : ConnectionId} {c : Connection P} {key : ConnectionKey P} {op : StackOp P}

/-- what an operation writes on a connection is what the connection takes -/
theorem wrote_eq (hs : s.AllSound) (id : ConnectionId) (op : StackOp P) : s.wrote id op =
    (s.act id op).elim [] fun o => (s.connections.lookup id).elim [] fun c => c.takes s.config.1 o := by
  cases op with
  | write i bytes nowMs =>
    simp only [wrote, act]
    by_cases hi : i = id
    · subst hi
      cases hl : s.connections.lookup i with
      | none => simp [writeWithMarker, hl]
      | some c =>
        rcases hw : c.write bytes nowMs s.config.1 with e | ⟨c', count, out⟩
        · simp [writeWithMarker, hl, hw, takes]
        · simp [writeWithMarker_eq hl (hs i c hl) hw, hw, takes]
    · simp only [hi, if_false]
      split <;> rfl
  | input peer bytes nowMs =>
    simp only [wrote, act]
    split
    · rfl
    · split_ifs
      · cases s.connections.lookup id <;> rfl
      · rfl
  | poll | read | close | abort | abortPeer =>
    simp only [wrote, act]
    split_ifs
    · cases s.connections.lookup id <;> rfl
    · rfl
  | listen | closeListener | accept | connect | connectFromWithIsn | setConnectionReservation | drainOutbound => rfl

/-- what an operation reads from a connection is what the connection gives -/
theorem got_eq (hs : s.AllSound) (id : ConnectionId) (op : StackOp P) : s.got id op =
    (s.act id op).elim [] fun o => (s.connections.lookup id).elim [] fun c => c.gives o := by
  cases op with
  | read i max =>
    simp only [got, act]
    by_cases hi : i = id
    · subst hi
      cases hl : s.connections.lookup i with
      | none => simp [Stack.read, hl]
      | some c => simp [read_eq hl (hs i c hl), gives]
    · simp only [hi, if_false]
      split <;> rfl
  | input peer bytes nowMs =>
    simp only [got, act]
    split
    · rfl
    · split_ifs
      · cases s.connections.lookup id <;> rfl
      · rfl
  | poll | write | close | abort | abortPeer =>
    simp only [got, act]
    split_ifs
    · cases s.connections.lookup id <;> rfl
    · rfl
  | listen | closeListener | accept | connect | connectFromWithIsn | setConnectionReservation | drainOutbound => rfl

/-! ## A tuple without a connection -/

/-- the application asks for a connection -/
def Dials : StackOp P → Bool
  | .connect _ _ _ | .connectFromWithIsn _ _ _ _ _ => true
  | _ => false

/-- why a connection of a tuple is made -/
inductive Causes (key : ConnectionKey P) : StackOp P → Opening P → Prop
  | connected (op : StackOp P) (isn : U32) (nowMs token : ℕ) (hop : Dials op = true) :
      Causes key op (.client key.peer key.localPort key.remotePort isn nowMs token)
  | opened (bytes : List U8) (syn : Segment) (isn : U32) (nowMs token : ℕ) (hdec : Segment.decode bytes = .ok syn)
      (hports : syn.dstPort = key.localPort ∧ syn.srcPort = key.remotePort) (hsyn : syn.bareSyn = true) :
      Causes key (.input key.peer bytes nowMs) (.server key.peer syn isn nowMs token)

/-- what an operation does for a tuple without a connection: at most it answers with a reset, or it makes the connection -/
inductive Vacant (s : Stack P) (key : ConnectionKey P) (op : StackOp P) (s' : Stack P) (out : List (Outbound P)) : Prop
  | still (hkey : s'.lookup.lookup key = none) (hout : ∀ o ∈ out, belongsTo o key = true → ∃ x, o = datagram key.peer (resetFor x))
  | made (o : Opening P) (ht : s.target op = some key) (hcause : Causes key op o)
      (hconn : s'.connections = s.connections.insert s.nextId (o.connection s.config.1).1)
      (hkey : s'.lookup = s.lookup.insert key s.nextId) (hout : out = (o.connection s.config.1).2.map (datagram key.peer))

theorem lookup_of_map {i : ConnectionId} (hs : s.Tidy) (h : (s.connections.lookup i).map Connection.key = some key) :
    s.lookup.lookup key = some i := by
  obtain ⟨c, hl, hk⟩ := Option.map_eq_some_iff.1 h
  rw [← hk]
  exact hs.index.forward hl

theorem Call.vacant {s' : Stack P} {result : Except Failure Unit} (hs : s.Tidy) (hkey : s.lookup.lookup key = none)
    (ht : s.target op = some key) (hop : ∀ peer remotePort nowMs, op ≠ .connect peer remotePort nowMs)
    (h : s.Call op s' result) : s.Vacant key op s' (s'.outbound.drop (s.kept op).length) := by
  have hquiet : s'.lookup = s.lookup → s'.outbound.drop (s.kept op).length = [] →
      s.Vacant key op s' (s'.outbound.drop (s.kept op).length) := fun hl hout => by
    rw [hout]
    exact .still (hl ▸ hkey) fun _ ho => nomatch ho
  have hown : ∀ {i : ConnectionId} {c : Connection P}, s.connections.lookup i = some c →
      (s.connections.lookup i).map Connection.key = some key → False := fun _ hk => by
    have := lookup_of_map hs hk
    rw [hkey] at this
    cases this
  cases h with
  | refused op error hw hinert =>
    refine hquiet rfl ?_
    cases op with
    | write i | read i | close i | abort i =>
      have := lookup_of_map hs ht
      rw [hkey] at this
      cases this
    | input | connectFromWithIsn => exact List.drop_length
    | connect => exact absurd rfl (hop _ _ _)
    | poll | abortPeer | listen | closeListener | accept | setConnectionReservation | drainOutbound => cases ht
  | connectRefused peer remotePort nowMs => exact absurd rfl (hop peer remotePort nowMs)
  | connected op peer localPort remotePort isn nowMs port cursor hcalled =>
    rcases hcalled with rfl | rfl
    · exact absurd rfl (hop peer remotePort nowMs)
    · cases ht
      refine .made (.client peer localPort remotePort isn nowMs s.nextConnectionToken) rfl (.connected _ _ _ _ rfl) rfl rfl ?_
      exact List.drop_left
  | opened peer bytes nowMs segment hdec hk hopen hver hcap =>
    simp only [target, hdec, Option.some.injEq] at ht
    subst ht
    obtain ⟨-, h1, h2, h3, -⟩ := sound_server s.config.valid peer (Segment.decode_ports hdec) s.nextIsn.2 nowMs
      s.nextConnectionToken
    have hbare : segment.bareSyn = true := by
      rw [Segment.bareSyn, hopen.1, Bool.eq_false_iff.2 hopen.2.1]
      rfl
    have hsame : (Connection.server peer segment s.nextIsn.2 nowMs s.config.1 s.nextConnectionToken).1.key =
        ⟨peer, segment.dstPort, segment.srcPort⟩ := by rw [Connection.key, h1, h2, h3]
    refine .made (.server peer segment s.nextIsn.2 nowMs s.nextConnectionToken) (by simp only [target, hdec])
      (.opened bytes segment _ _ _ hdec ⟨rfl, rfl⟩ hbare) rfl ?_ ?_
    · rw [← hsame]
      rfl
    · have hleft : ∀ more : List (Outbound P), (s.outbound ++ more).drop s.outbound.length = more := fun _ => List.drop_left
      refine (hleft _).trans ?_
      rw [h1]
      rfl
  | rejected peer bytes nowMs segment hdec hk =>
    simp only [target, hdec, Option.some.injEq] at ht
    subst ht
    refine .still hkey fun o ho _ => ⟨segment, ?_⟩
    have hout : (s.queue peer [resetFor segment]).outbound.drop (s.kept (.input peer bytes nowMs)).length =
        [datagram peer (resetFor segment)] := List.drop_left
    rw [hout] at ho
    exact List.mem_singleton.1 ho
  | ignored | malformed => exact hquiet rfl List.drop_length
  | stale peer bytes nowMs segment id hdec hk | reset peer bytes nowMs segment id c hdec hk
  | challenged peer bytes nowMs segment id c hdec hk | handled peer bytes nowMs segment id c hdec hk =>
    simp only [target, hdec, Option.some.injEq] at ht
    rw [ht, hkey] at hk
    cases hk
  | wrote id bytes nowMs c c' count segments hl | read id max c hl | closed id nowMs c hl | aborted id c hl =>
    exact (hown hl ht).elim
  | listened | closedListener | accepted | polled | unpolled | abortedPeer | unabortedPeer | reserved | drained => cases ht

/-- **A tuple without a connection**, one operation. -/
theorem vacant (hs : s.Tidy) (hkey : s.lookup.lookup key = none) (op : StackOp P) :
    s.Vacant key op (s.perform op).1 (s.emitted op) := by
  by_cases ht : s.target op = some key
  · by_cases hconnect : ∃ peer remotePort nowMs, op = .connect peer remotePort nowMs
    · obtain ⟨peer, remotePort, nowMs, rfl⟩ := hconnect
      obtain ⟨port, ⟨e, hport, hp⟩ | ⟨localPort, hport, hp⟩⟩ := s.connect_from peer remotePort nowMs
      · simp [target, hport] at ht
      · have hmoved : (s.moveCursors port s.nextIsn.1.isnState).Tidy := ⟨hs.sound, hs.index, hs.flagged⟩
        have ht' : (s.moveCursors port s.nextIsn.1.isnState).target
            (.connectFromWithIsn peer localPort remotePort s.nextIsn.2 nowMs) = some key := by
          simp only [target, hport] at ht ⊢
          exact ht
        have hcall := perform_call hmoved.sound (.connectFromWithIsn peer localPort remotePort s.nextIsn.2 nowMs)
        rw [emitted, hp]
        cases hcall.vacant hmoved hkey ht' (by intro _ _ _ h; cases h) with
        | still h1 h2 => exact .still h1 h2
        | made o _ hcause h1 h2 h3 =>
          cases hcause
          exact .made _ ht (.connected _ _ _ _ rfl) h1 h2 h3
    · exact (perform_call hs.sound op).vacant hs hkey ht fun peer remotePort nowMs h => hconnect ⟨peer, remotePort, nowMs, h⟩
  · refine .still ?_ fun o ho hb => ?_
    · rcases perform_table hs.sound op with hedits | ⟨c, hk, -, -, hlook⟩
      · cases hnew : (s.perform op).1.lookup.lookup key with
        | none => rfl
        | some i =>
          have := hedits.keep.2 key i hnew
          exact absurd (this.symm.trans hkey) (by simp)
      · have hne : key ≠ c.key := fun he => ht (he ▸ hk)
        rw [hlook, Finmap.lookup_insert_of_ne _ hne, hkey]
    · have hnil := (perform_emits hs op).2.strange key hkey ht
      exact absurd (List.mem_filter.2 ⟨ho, hb⟩) (hnil ▸ List.not_mem_nil)

/-! ## Datagrams -/

theorem encodes_of_belongs {peer : P} {x : Segment} (h : belongsTo (datagram peer x) key = true) : x.Encodes := by
  cases henc : x.encode with
  | ok bytes => exact ⟨bytes, henc⟩
  | error e =>
    have hempty : (datagram peer x).bytes = [] := by rw [datagram, henc]; rfl
    rw [belongsTo, hempty, Bool.and_eq_true] at h
    cases h.2

/-- what a connection handles arrived while it was there, under the name of its peer, for its ports -/
theorem act_datagram (hs : s.Tidy) {segment : Segment} {nowMs : ℕ} (hact : s.act id op = some (.input segment nowMs)) :
    ∃ c bytes, s.connections.lookup id = some c ∧ op = .input c.peer bytes nowMs ∧ Segment.decode bytes = .ok segment ∧
      segment.dstPort = c.localPort ∧ segment.srcPort = c.remotePort := by
  cases op with
  | input peer bytes t =>
    cases hdec : Segment.decode bytes with
    | error e => simp [act, hdec] at hact
    | ok x =>
      rw [act_input hdec] at hact
      split_ifs at hact with hkey
      cases hact
      obtain ⟨c, hl, hk⟩ := hs.index.backward hkey
      simp only [Connection.key, ConnectionKey.mk.injEq] at hk
      exact ⟨c, bytes, hl, by rw [hk.1], hdec, hk.2.1.symm, hk.2.2.symm⟩
  | poll | write | read | close | abort | abortPeer =>
    simp only [act] at hact
    split_ifs at hact
    cases hact
  | listen | closeListener | accept | connect | connectFromWithIsn | setConnectionReservation | drainOutbound => cases hact

theorem act_forTuple (hs : s.Tidy) (hl : s.connections.lookup id = some c) {o : SocketOp} (hact : s.act id op = some o) :
    c.ForTuple o := by
  intro segment hsegment
  cases o with
  | input x nowMs =>
    cases hsegment
    obtain ⟨x, -, hx, -, -, hports⟩ := act_datagram hs hact
    rw [hl] at hx
    cases hx
    exact hports
  | write | read | close | abort | poll => cases hsegment

/-- the connection is the only one of the tuple -/
def Owns (s : Stack P) (id : ConnectionId) (key : ConnectionKey P) : Prop :=
  (∀ c ∈ s.connections.lookup id, c.key = key) ∧ ∀ i ∈ s.lookup.lookup key, i = id

instance (s : Stack P) (id : ConnectionId) (key : ConnectionKey P) : Decidable (s.Owns id key) :=
  inferInstanceAs (Decidable (_ ∧ _))

end Stack

namespace Host

variable {P : Type} [DecidableEq P] {h : Host P} {config : ValidConfig} {id : ConnectionId} {key : ConnectionKey P} {s : Socket P}
  {sent : List Segment} {op : ℕ × StackOp P}

/-- what was ever queued for the tuple is one of these segments, or a reset -/
def Voiced (h : Host P) (key : ConnectionKey P) (sent : List Segment) : Prop :=
  ∀ o ∈ h.posted, Stack.belongsTo o key = true →
    ∃ x, Segment.decode o.bytes = .ok x ∧ x.Tame ∧ (x ∈ sent ∨ x.flags.contains .RST = true)

theorem Voiced.step {sent' : List Segment} (hv : h.Voiced key sent) (hsub : sent ⊆ sent')
    (hnew : ∀ o ∈ (h.stack.elsewhere op.1).emitted op.2, Stack.belongsTo o key = true →
      ∃ peer x, o = Stack.datagram peer x ∧ x.Plain ∧ x.Tame ∧ (x ∈ sent' ∨ x.flags.contains .RST = true)) :
    (h.step op).Voiced key sent' := by
  intro o ho hb
  rcases List.mem_append.1 ho with ho | ho
  · obtain ⟨x, hdec, htame, hx⟩ := hv o ho hb
    exact ⟨x, hdec, htame, hx.imp_left fun hx => hsub hx⟩
  · obtain ⟨peer, x, rfl, hplain, htame, hx⟩ := hnew o ho hb
    obtain ⟨bytes, hd, hdec⟩ := Stack.datagram_decode peer (Stack.encodes_of_belongs hb) hplain
    exact ⟨x, by rw [hd]; exact hdec, htame, hx⟩

omit [DecidableEq P] in
/-- a reset in answer to something -/
theorem reset_voiced (peer : P) (x : Segment) : ∃ peer' y, Stack.datagram peer (resetFor x) = Stack.datagram peer' y ∧ y.Plain ∧
    y.Tame ∧ (y ∈ sent ∨ y.flags.contains .RST = true) :=
  ⟨peer, resetFor x, rfl, resetFor_plain x, .of_not_syn (resetFor_flags x).2.1, .inr (resetFor_flags x).2.2⟩

/-- **Every operation is one of the socket,** or none. -/
theorem Follows.step (hf : h.Follows config id key s) (op : ℕ × StackOp P)
    (hb : (h.step op).stack.nextConnectionToken < 2 ^ 64) (howns : (h.step op).stack.Owns id key) :
    (h.step op).Follows config id key ((h.stack.act id op.2).elim s (s.step config.1)) := by
  have hw := hf.toWatched.elsewhere op.1
  obtain ⟨ho, hle⟩ := hw.toOrderly.perform op.2 hb
  have hwrote := Stack.wrote_eq hw.genuine.sound id op.2
  have hgot := Stack.got_eq hw.genuine.sound id op.2
  have hview : (h.step op).stack.connections.lookup id = _ := hw.view op.2
  have hentry : (h.stack.elsewhere op.1).connections.lookup id = if s.retained then some s.conn else none := hf.entry
  rw [show (h.stack.elsewhere op.1).config = config from hw.genuine.same, hentry] at hwrote hview
  rw [hentry] at hgot
  have hsame : (h.stack.elsewhere op.1).act id op.2 = h.stack.act id op.2 := rfl
  rw [hsame] at hwrote hgot hview
  have hwatched : (h.step op).stack.Watched config id key := ⟨ho, hf.given.trans_le hle, fun c hc => howns.1 c hc, howns.2⟩
  have hacc : (h.step op).accepted id = s.accepted ++ (h.stack.elsewhere op.1).wrote id op.2 := by rw [← hf.accepts]; rfl
  have hdel : (h.step op).delivered id = s.delivered ++ (h.stack.elsewhere op.1).got id op.2 := by rw [← hf.delivers]; rfl
  have hrec : (h.step op).received id = ((h.step op).stack.connections.lookup id).elim s.stream fun c =>
      s.delivered ++ (h.stack.elsewhere op.1).got id op.2 ++ c.recvQueue := by
    rw [← hf.receives, ← hf.delivers]
    rfl
  cases hact : h.stack.act id op.2 with
  | none =>
    rw [hact, Option.elim_none] at hwrote hgot hview
    refine ⟨hwatched, hview, by rw [hacc, hwrote, List.append_nil]; rfl, by rw [hdel, hgot, List.append_nil]; rfl, ?_⟩
    rw [hrec, hview, hgot, List.append_nil]
    cases s.retained <;> rfl
  | some o =>
    rw [hact, Option.elim_some] at hwrote hgot hview
    rw [Option.elim_some]
    cases hr : s.retained with
    | false =>
      obtain ⟨h1, h2, h3, h4⟩ := Socket.step_removed config.1 hr o
      rw [hr, if_neg Bool.false_ne_true] at hwrote hgot hview
      refine ⟨hwatched, by rw [hview, h4]; rfl, by rw [hacc, hwrote, h2]; exact List.append_nil _,
        by rw [hdel, hgot, h3]; exact List.append_nil _, ?_⟩
      rw [hrec, hview, Socket.stream, Socket.stream, h1, h3]
      rfl
    | true =>
      obtain ⟨h1, h2, -⟩ := @Socket.step_retained P config.1 s hr o
      rw [hr, if_pos rfl, Option.elim_some] at hwrote hgot
      rw [hr, if_pos rfl, Stack.solo, Option.bind_some, Connection.after_eq config.1 s hr o] at hview
      refine ⟨hwatched, hview, by rw [hacc, hwrote, h1], by rw [hdel, hgot, h2], ?_⟩
      rw [hrec, hview, hgot]
      cases hr' : (s.step config.1 o).retained with
      | false =>
        have hm : 0 < s.conn.mss := by
          rw [hr, if_pos rfl] at hentry
          exact (hw.genuine.sound id s.conn hentry).mss
        exact (Socket.stream_left hr hm o hr').symm
      | true => rw [if_pos rfl, Option.elim_some, Socket.stream, h2]

/-- **What is queued for the tuple** is what the socket emits, or a reset. -/
theorem Follows.posted_step (hf : h.Follows config id key s) (hv : h.Voiced key s.sent) (op : ℕ × StackOp P)
    (howns : (h.step op).stack.Owns id key) :
    (h.step op).Voiced key ((h.stack.act id op.2).elim s (s.step config.1)).sent := by
  have hw := hf.toWatched.elsewhere op.1
  have hentry : (h.stack.elsewhere op.1).connections.lookup id = if s.retained then some s.conn else none := hf.entry
  have hconfig : (h.stack.elsewhere op.1).config = config := hw.genuine.same
  have hact : (h.stack.elsewhere op.1).act id op.2 = h.stack.act id op.2 := rfl
  cases hr : s.retained with
  | true =>
    rw [hr, if_pos rfl] at hentry
    have hemits := (Stack.perform_emits hw.tidy op.2).2.own id s.conn hentry
    rw [hw.own _ hentry, Stack.share, hact, hconfig] at hemits
    have hsub : s.sent ⊆ ((h.stack.act id op.2).elim s (s.step config.1)).sent := by
      cases h.stack.act id op.2 with
      | none => exact List.Subset.refl _
      | some o =>
        rw [Option.elim_some, (Socket.step_retained hr o).2.2]
        exact List.subset_append_left _ _
    refine hv.step hsub fun y hy hb => ?_
    have hown : y ∈ ((h.stack.elsewhere op.1).emitted op.2).filter fun o => Stack.belongsTo o key := List.mem_filter.2 ⟨hy, hb⟩
    rw [hemits] at hown
    cases hact' : h.stack.act id op.2 with
    | none =>
      rw [hact'] at hown
      exact absurd hown List.not_mem_nil
    | some o =>
      rw [hact', Option.elim_some] at hown
      obtain ⟨x, hx, rfl⟩ := List.mem_map.1 hown
      have hsound := hw.genuine.sound id s.conn hentry
      have hreach := hw.genuine.reachable id s.conn hentry
      rw [hconfig] at hsound
      have haddr := (said_addressed hsound hreach.flagged (Stack.act_forTuple hw.tidy hentry hact') x hx).2
      refine ⟨s.conn.peer, x, rfl, haddr.plain, said_tame hsound hreach o x hx, .inl ?_⟩
      rw [Option.elim_some, (Socket.step_retained hr o).2.2]
      exact List.mem_append_right _ hx
  | false =>
    rw [hr, if_neg Bool.false_ne_true] at hentry
    have hsub : s.sent ⊆ ((h.stack.act id op.2).elim s (s.step config.1)).sent := by
      cases h.stack.act id op.2 with
      | none => exact List.Subset.refl _
      | some o => exact (Socket.sent_step config.1 s o).subset
    refine hv.step hsub fun y hy hb => ?_
    cases Stack.vacant hw.tidy (hw.removed hentry) op.2 with
    | still _ hout =>
      obtain ⟨x, rfl⟩ := hout y hy hb
      exact reset_voiced key.peer x
    | made o _ _ _ hkey _ =>
      -- the new connection would have the tuple, which another had before
      have hnew : (h.step op).stack.lookup.lookup key = some (h.stack.elsewhere op.1).nextId := by
        rw [show (h.step op).stack.lookup = _ from hkey]
        exact Finmap.lookup_insert _
      exact absurd (howns.2 _ hnew).symm (Stack.Numbered.ne_next hw.given)

/-- a host that has not made a connection of the tuple -/
structure Silent (h : Host P) (config : ValidConfig) (id : ConnectionId) (key : ConnectionKey P) : Prop
    extends h.stack.Orderly config where
  owns : h.stack.Owns id key
  free : h.stack.lookup.lookup key = none
  accepts : h.accepted id = []
  delivers : h.delivered id = []
  receives : h.received id = []
  resets : h.Voiced key []

theorem Silent.absent (hs : h.Silent config id key) : h.stack.connections.lookup id = none := by
  cases hl : h.stack.connections.lookup id with
  | none => rfl
  | some c =>
    have hkey := hs.index.forward hl
    rw [hs.owns.1 c hl, hs.free] at hkey
    cases hkey

/-- **An operation leaves the host silent, or makes the connection.** -/
theorem Silent.step (hs : h.Silent config id key) (op : ℕ × StackOp P) (hb : (h.step op).stack.nextConnectionToken < 2 ^ 64)
    (howns : (h.step op).stack.Owns id key) : (h.step op).Silent config id key ∨
      ∃ o : Opening P, (h.stack.elsewhere op.1).target op.2 = some key ∧ Stack.Causes key op.2 o ∧
        (h.step op).Follows config id key (o.socket config.1) ∧ (h.step op).Voiced key (o.socket config.1).sent := by
  have horder := hs.toOrderly.elsewhere op.1
  obtain ⟨ho, -⟩ := horder.perform op.2 hb
  have hwrote := Stack.wrote_eq horder.genuine.sound id op.2
  have hgot := Stack.got_eq horder.genuine.sound id op.2
  have habsent : (h.stack.elsewhere op.1).connections.lookup id = none := hs.absent
  have hnil : ∀ o : Option SocketOp, (o.elim [] fun _ => ([] : List U8)) = [] := fun o => by cases o <;> rfl
  simp only [habsent, Option.elim_none, hnil] at hwrote hgot
  have hacc : (h.step op).accepted id = [] := by
    have : (h.step op).accepted id = h.accepted id ++ (h.stack.elsewhere op.1).wrote id op.2 := rfl
    rw [this, hs.accepts, hwrote, List.append_nil]
  have hdel : (h.step op).delivered id = [] := by
    have : (h.step op).delivered id = h.delivered id ++ (h.stack.elsewhere op.1).got id op.2 := rfl
    rw [this, hs.delivers, hgot, List.append_nil]
  have hrec : (h.step op).received id = ((h.step op).stack.connections.lookup id).elim [] fun c => c.recvQueue := by
    have : (h.step op).received id = ((h.step op).stack.connections.lookup id).elim (h.received id) fun c =>
        h.delivered id ++ (h.stack.elsewhere op.1).got id op.2 ++ c.recvQueue := rfl
    rw [this, hs.receives, hs.delivers, hgot]
    rfl
  cases Stack.vacant horder.tidy hs.free op.2 with
  | still hkey hout =>
    refine .inl ⟨ho, howns, hkey, hacc, hdel, ?_, hs.resets.step (List.Subset.refl _) fun y hy hb => ?_⟩
    · cases hl : (h.step op).stack.connections.lookup id with
      | none => rw [hrec, hl, Option.elim_none]
      | some c =>
        have hk := ho.index.forward hl
        rw [howns.1 c hl, hkey] at hk
        cases hk
    · obtain ⟨x, rfl⟩ := hout y hy hb
      exact reset_voiced key.peer x
  | made o ht hcause hconn hkey hout =>
    have hnew : (h.step op).stack.lookup.lookup key = some (h.stack.elsewhere op.1).nextId := by
      rw [show (h.step op).stack.lookup = _ from hkey]
      exact Finmap.lookup_insert _
    have hid : (h.stack.elsewhere op.1).nextId = id := howns.2 _ hnew
    have hl : (h.step op).stack.connections.lookup id = some (o.connection config.1).1 := by
      have hconfig : (h.stack.elsewhere op.1).config = config := horder.genuine.same
      rw [show (h.step op).stack.connections = _ from hconn, hid, hconfig]
      exact Finmap.lookup_insert _
    have hk : (o.connection config.1).1.key = key := howns.1 _ hl
    have hw := ho.watched hl
    rw [hk] at hw
    refine .inr ⟨o, ht, hcause, ⟨hw, hl, hacc, hdel, by rw [hrec, hl]; rfl⟩, ?_⟩
    refine hs.resets.step (List.nil_subset _) fun y hy _ => ?_
    rw [hout, show (h.stack.elsewhere op.1).config = config from horder.genuine.same] at hy
    obtain ⟨x, hx, rfl⟩ := List.mem_map.1 hy
    exact ⟨key.peer, x, rfl, (opening_addressed config.1 o x hx).plain, opening_tame config.1 o x hx, .inl hx⟩

end Host

end FipsTcp
