/-
Two hosts, and one connection between them.

`Hosts`: the two hosts on their carrier. A datagram arrives under the name of the other host only if the other host queued it for
this one at some time before; it may arrive never, late, and again (`deliver`). Everything else is the affair of one host (`act`).
`Conversation` names the tuple of a connection and the ids under which the two stacks know it.

A run is `Undisturbed` for a conversation while the carrier keeps names apart, only the client calls on the tuple, and the tuple is
used for one connection.
- `Talk`: nobody has spoken on the tuple; or the client has; or both have, and their sockets are a pair (`Pair.Inv`);
- `Talk.run`: so it is after every undisturbed run, from two new stacks;
- `Joined.run`: once both have spoken, what each shows only grows.
-/
import FipsTcp.Hosts.Host
import FipsTcp.Pair.Contract

namespace FipsTcp

open Serial Stream SendWindow Connection Table

/-! ## The model -/

/-- a connection between two hosts -/
structure Conversation (P : Type) where
  config : Side → ValidConfig
  /-- by what each host knows the other -/
  peer : Side → P
  /-- the ports of the client -/
  localPort : U16
  remotePort : U16
  /-- by what each stack knows the connection -/
  id : Side → ConnectionId

namespace Conversation

variable {P : Type}

/-- the tuple, as each host has it -/
def key (k : Conversation P) : Side → ConnectionKey P
  | .client => ⟨k.peer .client, k.localPort, k.remotePort⟩
  | .server => ⟨k.peer .server, k.remotePort, k.localPort⟩

theorem key_peer (k : Conversation P) (side : Side) : (k.key side).peer = k.peer side := by
  cases side <;> rfl

theorem key_ports (k : Conversation P) (side : Side) :
    (k.key side.other).localPort = (k.key side).remotePort ∧ (k.key side.other).remotePort = (k.key side).localPort := by
  cases side <;> exact ⟨rfl, rfl⟩

end Conversation

abbrev Hosts (P : Type) [DecidableEq P] := Side → Host P

inductive HostsOp (P : Type) where
  /-- the `index`-th datagram that the other host ever queued arrives, if it was queued for this one -/
  | deliver (side : Side) (index nowMs tokens : ℕ)
  /-- anything else that happens at a host -/
  | act (side : Side) (op : ℕ × StackOp P)

namespace Hosts

variable {P : Type} [DecidableEq P]

def new (k : Conversation P) (isnSeed : Side → BitVec 64) (token : Side → ℕ) : Hosts P := fun side =>
  .new (k.config side) (isnSeed side) (token side)

def update (hs : Hosts P) (side : Side) (op : ℕ × StackOp P) : Hosts P := Function.update hs side ((hs side).step op)

def step (k : Conversation P) (hs : Hosts P) : HostsOp P → Hosts P
  | .deliver side index nowMs tokens =>
    match (hs side.other).posted[index]? with
    | some o => if o.peer = k.peer side.other then hs.update side (tokens, .input (k.peer side) o.bytes nowMs) else hs
    | none => hs
  | .act side op => hs.update side op

abbrev run (k : Conversation P) (isnSeed : Side → BitVec 64) (token : Side → ℕ) (ops : List (HostsOp P)) : Hosts P :=
  Run.exec (step k) (new k isnSeed token) ops

/-- what happens at a host without the other: no datagram under the other's name, and the server does not call on the tuple -/
def Apart (k : Conversation P) (hs : Hosts P) (side : Side) : ℕ × StackOp P → Prop
  | (_, .input peer _ _) => peer ≠ k.peer side
  | (tokens, op) => side = .server → Stack.Dials op = true → ((hs side).stack.elsewhere tokens).target op ≠ some (k.key side)

/-- the conversation is undisturbed by a step, after which each stack still has one connection of the tuple at most -/
def Undisturbed (k : Conversation P) (hs : Hosts P) (op : HostsOp P) : Prop :=
  (match op with
    | .deliver _ _ _ _ => True
    | .act side op => hs.Apart k side op) ∧
  ∀ side, (hs.step k op side).stack.Owns (k.id side) (k.key side)

/-- less than 2^31 - 2^17 bytes were accepted in each direction, and the counters of tokens fit their type -/
def Bounded (k : Conversation P) (hs : Hosts P) : Prop :=
  ∀ side, ((hs side).accepted (k.id side)).length < 2 ^ 31 - 2 ^ 17 ∧ (hs side).stack.nextConnectionToken < 2 ^ 64

instance Side.decidableForall {p : Side → Prop} [DecidablePred p] : Decidable (∀ side, p side) :=
  decidable_of_iff (p .client ∧ p .server) ⟨fun h side => side.casesOn h.1 h.2, fun h => ⟨h _, h _⟩⟩

instance (k : Conversation P) (hs : Hosts P) (side : Side) : (op : ℕ × StackOp P) → Decidable (hs.Apart k side op)
  | (_, op) => by
    unfold Apart
    split <;> infer_instance

instance (k : Conversation P) (hs : Hosts P) (op : HostsOp P) : Decidable (hs.Undisturbed k op) := by
  unfold Undisturbed
  cases op <;> infer_instance

instance (k : Conversation P) (hs : Hosts P) : Decidable (hs.Bounded k) := by
  unfold Bounded
  infer_instance

end Hosts

/-! ## The first segment of each side -/

/-- what a side shows that has not spoken -/
def Face.fresh (isn : U32) : Face := ⟨isn, [], 0, false, 0⟩

theorem Face.fresh_ok (isn : U32) : (Face.fresh isn).Ok := ⟨Nat.zero_le _, by simp [Face.fresh]⟩

namespace Opening

variable {P : Type} {config : Config} {f : Face}

/-- what a listener makes of any SYN -/
theorem server_start (config : Config) (peer : P) (syn : Segment) (isn : U32) (nowMs token : ℕ) :
    let c := ((server peer syn isn nowMs token).connection config).1
    c.receiver = ⟨syn.seq + 1, [], [], false⟩ ∧ c.state = .synReceived ∧
      ((server peer syn isn nowMs token).connection config).2 = [buildSegment (c.header isn (Flags.SYN.union .ACK)) []] := by
  have hstart := rfl (a := Connection.server peer syn isn nowMs config token)
  generalize hc : Connection.new peer syn.dstPort syn.srcPort .synReceived isn (syn.seq + 1) config token = c0
  obtain ⟨hr, -, -, hst⟩ := c0.updateRemoteWindow_frame syn.window nowMs
  have hnxt : (c0.updateRemoteWindow syn.window nowMs).sendNxt = isn := by
    have hn := congrArg Sender.nxt (c0.updateRemoteWindow_sender syn.window nowMs)
    exact hn.trans (by rw [← hc]; rfl)
  have hc0 : c0.receiver = ⟨syn.seq + 1, [], [], false⟩ ∧ c0.state = .synReceived := by rw [← hc]; exact ⟨rfl, rfl⟩
  simp only [connection, Connection.server, hc]
  refine ⟨hr.trans hc0.1, hst.trans hc0.2, ?_⟩
  generalize c0.updateRemoteWindow syn.window nowMs = c1 at hnxt
  rw [← hnxt]
  rfl

/-- the SYN that a server answers carries the number of its peer -/
def Answers (f : Face) : Opening P → Prop
  | client _ _ _ _ _ _ => True
  | server _ syn _ _ _ => syn.seq = f.isn

theorem state_opening (config : Config) (o : Opening P) : (o.connection config).1.state.phase = .opening := by
  cases o with
  | client => rfl
  | server peer syn isn nowMs token =>
    obtain ⟨-, hst, -⟩ := server_start config peer syn isn nowMs token
    rw [hst]
    rfl

theorem side (hv : config.Valid) {o : Opening P} (ha : o.Answers f) : SideInv config o.isn f [] [] (o.connection config).1 := by
  refine ⟨o.sendInv hv, o.recvInv, fun hst => ?_, fun _ => rfl, ?_, fun hst => ?_⟩
  · cases o with
    | client => exact absurd rfl hst
    | server peer syn isn nowMs token =>
      obtain ⟨hr, -, -⟩ := server_start config peer syn isn nowMs token
      simp only [receiver, Receiver.mk.injEq] at hr
      obtain ⟨h1, h2, h3, h4⟩ := hr
      have hseq : syn.seq = f.isn := ha
      rw [h2]
      refine ⟨by rw [h1, h4, hseq]; rfl, List.nil_prefix, fun hc => ?_, fun x hx => ?_⟩
      · rw [h4] at hc
        cases hc
      · rw [h3] at hx
        cases hx
  · have hu := (o.sendInv hv).sender.unaPos_eq
    rw [show (o.connection config).1.sender.phase = .opening from o.state_opening config] at hu
    rw [hu]
    exact Nat.zero_le _
  · cases o with
    | client =>
      intro x hx
      rw [show x = _ from List.mem_singleton.1 hx]
      exact (by decide : Flags.SYN.contains .ACK = false)
    | server peer syn isn nowMs token =>
      rw [(server_start config peer syn isn nowMs token).2.1] at hst
      cases hst

/-- **The first segment.** A connection that was just made is one side of a conversation. -/
theorem speaks (hv : config.Valid) {o : Opening P} (ha : o.Answers f) : (o.socket config).Local config o.isn f := by
  have hside := side hv ha
  refine ⟨fun _ => rfl, fun _ => hside, (fun hn => nomatch hn), fun segment hseg => ?_⟩
  have hphase := o.state_opening config
  have hbuilt : ∀ flags : Flags, flags.contains .SYN = true → flags.contains .FIN = false →
      (flags.contains .ACK = true → (o.connection config).1.state ≠ .synSent) →
      SegOk ((o.socket config).face o.isn) f.isn (buildSegment ((o.connection config).1.header o.isn flags) []) :=
    fun flags hsyn hfin hack => by
      refine hside.built ⟨0, ⟨(pos_zero _).symm, fun _ => ⟨rfl, rfl, hfin⟩, fun hs => ?_, fun hf => ?_⟩, ?_⟩ hack
      · rw [show flags.contains .SYN = false from hs] at hsyn
        cases hsyn
      · rw [show flags.contains .FIN = true from hf] at hfin
        cases hfin
      · simp only [Piece.len, hsyn, hfin, Connection.face, Sender.nxtPos]
        simp only [List.length_nil, Bool.toNat_true, Bool.toNat_false]
        omega
  cases o with
  | client =>
    rw [show segment = _ from List.mem_singleton.1 hseg]
    exact hbuilt .SYN (by decide) (by decide) fun h => absurd h (by decide)
  | server peer syn isn nowMs token =>
    obtain ⟨-, hst, hout⟩ := server_start config peer syn isn nowMs token
    have hone : segment ∈ ((server peer syn isn nowMs token).connection config).2 := hseg
    rw [hout] at hone
    rw [show segment = _ from List.mem_singleton.1 hone]
    exact hbuilt (Flags.SYN.union .ACK) (by decide) (by decide) fun _ => by rw [hst]; decide

end Opening

/-- whatever a socket shows, it shows more than one that has not spoken -/
theorem Face.fresh_le {P : Type} (isn : U32) (s : Socket P) : (Face.fresh isn).Le (s.face isn) :=
  ⟨rfl, List.nil_prefix, Nat.zero_le _, (fun h => nomatch h), Nat.zero_le _⟩

/-! ## Both sides -/

namespace Conversation

variable {P : Type} [DecidableEq P] {k : Conversation P} {hs : Hosts P} {side : Side} {op : ℕ × StackOp P}

/-- the handshake of the conversation, once both initial sequence numbers are known -/
def handshake (k : Conversation P) (isn : Side → U32) : Handshake P where
  config := k.config
  peer := k.peer
  isn
  nowMs _ := 0
  token _ := 0
  localPort := k.localPort
  remotePort := k.remotePort

/-- a host has not spoken on the tuple -/
abbrev Silent (k : Conversation P) (hs : Hosts P) (side : Side) : Prop := (hs side).Silent (k.config side) (k.id side) (k.key side)

/-- a host speaks through a socket -/
structure Speaks (k : Conversation P) (hs : Hosts P) (side : Side) (s : Socket P) : Prop where
  follows : (hs side).Follows (k.config side) (k.id side) (k.key side) s
  voiced : (hs side).Voiced (k.key side) s.sent

/-- both hosts speak, and their sockets are a pair -/
structure Joined (k : Conversation P) (hs : Hosts P) (isn : Side → U32) (s : Pair P) : Prop where
  speaks : ∀ side, k.Speaks hs side (s side)
  inv : s.Inv (k.handshake isn)

/-- how far the conversation has come -/
inductive Talk (k : Conversation P) (hs : Hosts P) : Prop
  | quiet (h : ∀ side, k.Silent hs side)
  /-- what the client shows does not depend on the number that the server will choose -/
  | called (isn : U32) (c : Socket P) (hc : k.Speaks hs .client c) (hserver : k.Silent hs .server)
      (hside : ∀ peer, c.Local (k.config .client).1 isn (.fresh peer))
  | joined (isn : Side → U32) (s : Pair P) (h : k.Joined hs isn s)

/-- the datagram that an operation brings under the name of the other host was queued there -/
def Brought (k : Conversation P) (hs : Hosts P) (side : Side) (op : ℕ × StackOp P) : Prop :=
  ∀ bytes nowMs, op.2 = .input (k.peer side) bytes nowMs →
    ∃ o ∈ (hs side.other).posted, o.peer = k.peer side.other ∧ o.bytes = bytes

/-- what arrives for the tuple is what the other host says on it -/
theorem Brought.heard (h : k.Brought hs side op) {bytes : List U8} {segment : Segment} {nowMs : ℕ} {sent : List Segment}
    (hv : (hs side.other).Voiced (k.key side.other) sent) (hop : op.2 = .input (k.peer side) bytes nowMs)
    (hdec : Segment.decode bytes = .ok segment)
    (hports : segment.dstPort = (k.key side).localPort ∧ segment.srcPort = (k.key side).remotePort) :
    segment.Tame ∧ (segment ∈ sent ∨ segment.flags.contains .RST = true) := by
  obtain ⟨o, ho, hpeer, rfl⟩ := h bytes nowMs hop
  obtain ⟨h1, h2⟩ := k.key_ports side
  have hb : Stack.belongsTo o (k.key side.other) = true := by
    simp only [Stack.belongsTo, hdec, hpeer, k.key_peer, h1, h2, hports, decide_true, and_self, Bool.and_self]
  obtain ⟨x, hx, htame, hsent⟩ := hv o ho hb
  rw [hdec] at hx
  cases hx
  exact ⟨htame, hsent⟩

/-- what a socket handles is what the other host says on the tuple -/
theorem Speaks.heard {s : Socket P} (hspeaks : k.Speaks hs side s) (h : k.Brought hs side op) {segment : Segment} {nowMs : ℕ}
    {sent : List Segment} (hv : (hs side.other).Voiced (k.key side.other) sent)
    (hact : (hs side).stack.act (k.id side) op.2 = some (.input segment nowMs)) :
    segment ∈ sent ∨ segment.flags.contains .RST = true := by
  have hf := hspeaks.follows
  obtain ⟨c, bytes, hl, hop, hdec, h1, h2⟩ := Stack.act_datagram hf.tidy hact
  have hkey := hf.own c hl
  have hpeer : c.peer = k.peer side := (congrArg ConnectionKey.peer hkey).trans (k.key_peer side)
  rw [hpeer] at hop
  exact (h.heard hv hop hdec ⟨h1.trans (congrArg ConnectionKey.localPort hkey), h2.trans (congrArg ConnectionKey.remotePort hkey)⟩).2

/-- a SYN that opens the connection is one of the other host's -/
theorem Brought.opens (h : k.Brought hs side op) {sent : List Segment} (hv : (hs side.other).Voiced (k.key side.other) sent)
    {o : Opening P} (hcause : Stack.Causes (k.key side) op.2 o) :
    Stack.Dials op.2 = true ∨ ∃ syn isn nowMs token, o = .server (k.peer side) syn isn nowMs token ∧ syn.bareSyn = true ∧
      syn ∈ sent ∧ syn.flags.contains .RST = false := by
  generalize hop : op.2 = op' at hcause
  cases hcause with
  | connected op isn nowMs token hdials => exact .inl hdials
  | opened bytes syn isn nowMs token hdec hports hsyn =>
    rw [k.key_peer] at hop ⊢
    obtain ⟨htame, hsent⟩ := h.heard hv hop hdec hports
    have hrst := htame hsyn
    refine .inr ⟨syn, isn, nowMs, token, rfl, hsyn, ?_, hrst⟩
    rcases hsent with hsent | hsent
    · exact hsent
    · rw [hrst] at hsent
      cases hsent

/-! ## One step -/

theorem update_self (hs : Hosts P) (side : Side) (op : ℕ × StackOp P) : hs.update side op side = (hs side).step op :=
  Function.update_self ..

theorem update_other (hs : Hosts P) (side : Side) (op : ℕ × StackOp P) : hs.update side op side.other = hs side.other :=
  Function.update_of_ne side.other_ne _ _

theorem Speaks.of_eq {hs' : Hosts P} {s : Socket P} (h : k.Speaks hs side s) (heq : hs' side = hs side) : k.Speaks hs' side s := by
  obtain ⟨h1, h2⟩ := h
  rw [← heq] at h1 h2
  exact ⟨h1, h2⟩

theorem Silent.of_eq {hs' : Hosts P} (h : k.Silent hs side) (heq : hs' side = hs side) : k.Silent hs' side := by
  unfold Silent
  rw [heq]
  exact h

/-- the socket does what the operation is for it -/
theorem Speaks.update {s : Socket P} (h : k.Speaks hs side s) (howns : (hs.update side op side).stack.Owns (k.id side) (k.key side))
    (hb : (hs.update side op).Bounded k) :
    k.Speaks (hs.update side op) side (((hs side).stack.act (k.id side) op.2).elim s (s.step (k.config side).1)) := by
  have htok := (hb side).2
  rw [update_self] at howns htok
  constructor
  · rw [update_self]
    exact h.follows.step op htok howns
  · rw [update_self]
    exact h.follows.posted_step h.voiced op howns

/-- **One step, when both have spoken.** -/
theorem Joined.update {isn : Side → U32} {s : Pair P} (h : k.Joined hs isn s) (hbrought : k.Brought hs side op)
    (howns : (hs.update side op side).stack.Owns (k.id side) (k.key side)) (hb : (hs.update side op).Bounded k) :
    ∃ s' : Pair P, k.Joined (hs.update side op) isn s' ∧
      ∀ d, (s.face (k.handshake isn) d).Le (s'.face (k.handshake isn) d) := by
  have hself := (h.speaks side).update howns hb
  have hother := (h.speaks side.other).of_eq (update_other hs side op)
  cases hact : (hs side).stack.act (k.id side) op.2 with
  | none =>
    rw [hact, Option.elim_none] at hself
    refine ⟨s, ⟨fun d => ?_, h.inv⟩, fun _ => Face.Le.refl _⟩
    rcases side.eq_or_other d with rfl | rfl
    · exact hself
    · exact hother
  | some o =>
    rw [hact, Option.elim_some] at hself
    have hspeaks : ∀ d, k.Speaks (hs.update side op) d (s.update (k.handshake isn) side o d) := fun d => by
      rcases side.eq_or_other d with rfl | rfl
      · rw [Pair.update_self]
        exact hself
      · rw [Pair.update_other]
        exact hother
    have hb' : (s.update (k.handshake isn) side o).Bounded := fun d => by
      rw [← (hspeaks d).follows.accepts]
      exact (hb d).1
    have hb0 : s.Bounded := fun d => (Pair.accepted_update side o d).length_le.trans_lt (hb' d)
    have hinv := h.inv.update side o hb' hb0 fun segment nowMs ho => by
      rw [ho] at hact
      rcases (h.speaks side).heard hbrought (h.speaks side.other).voiced hact with hsent | hrst
      · have hok := (h.inv side.other).sent segment hsent
        rw [Side.other_other] at hok
        exact hok
      · exact .inl hrst
    exact ⟨_, ⟨hspeaks, hinv.1⟩, hinv.2⟩

/-- what the server may do on its own: it does not call on the tuple -/
def Passive (k : Conversation P) (hs : Hosts P) (side : Side) (op : ℕ × StackOp P) : Prop :=
  side = .server → Stack.Dials op.2 = true → ((hs side).stack.elsewhere op.1).target op.2 ≠ some (k.key side)

/-- **One step of the client,** before the server has spoken. -/
theorem Speaks.call {isn : U32} {c : Socket P} (h : k.Speaks hs .client c) (hserver : k.Silent hs .server)
    (hside : ∀ peer, c.Local (k.config .client).1 isn (.fresh peer)) (hbrought : k.Brought hs .client op)
    (howns : (hs.update .client op .client).stack.Owns (k.id .client) (k.key .client)) (hb : (hs.update .client op).Bounded k) :
    k.Talk (hs.update .client op) := by
  have hself := h.update howns hb
  have hquiet : k.Silent (hs.update .client op) .server := Silent.of_eq hserver (update_other hs .client op)
  refine .called isn _ hself hquiet fun peer => ?_
  cases hact : (hs .client).stack.act (k.id .client) op.2 with
  | none => exact hside peer
  | some o =>
    rw [hact] at hself
    rw [Option.elim_some] at hself ⊢
    have hacc := (hb .client).1
    rw [hself.follows.accepts] at hacc
    have hrcv : (Face.fresh peer).rcv < 2 ^ 31 := (by decide : (0 : ℕ) < 2 ^ 31)
    refine ((hside peer).step (k.config .client).valid (Face.fresh_ok peer) hrcv o hacc fun segment nowMs ho => ?_).1
    rw [ho] at hact
    rcases h.heard hbrought hserver.resets hact with hsent | hrst
    · cases hsent
    · exact .inl hrst

/-- a SYN of the client carries its initial sequence number -/
theorem seq_of_syn {f : Face} {peer : U32} {syn : Segment} (h : SegOk f peer syn) (hsyn : syn.bareSyn = true)
    (hrst : syn.flags.contains .RST = false) : syn.seq = f.isn := by
  rcases h with hno | ⟨⟨p, hat, -⟩, -⟩
  · rw [hrst] at hno
    cases hno
  · have hflag : syn.piece.syn = true := by
      rw [Segment.bareSyn, Bool.and_eq_true] at hsyn
      exact hsyn.1
    have hseq := hat.seq
    rw [(hat.syn hflag).1, pos_zero] at hseq
    exact hseq

/-- **The server answers.** -/
theorem Speaks.answered {isn : U32} {c : Socket P} (h : k.Speaks hs .client c) (hserver : k.Silent hs .server)
    (hside : ∀ peer, c.Local (k.config .client).1 isn (.fresh peer)) (hbrought : k.Brought hs .server op)
    (hpassive : k.Passive hs .server op)
    (howns : (hs.update .server op .server).stack.Owns (k.id .server) (k.key .server)) (hb : (hs.update .server op).Bounded k) :
    k.Talk (hs.update .server op) := by
  have hself : (hs.update .server op) .server = (hs .server).step op := update_self hs .server op
  have hclient := h.of_eq (update_other hs .server op)
  have htok := (hb .server).2
  have howns' := howns
  rw [hself] at htok howns'
  rcases hserver.step op htok howns' with hquiet | ⟨o, ht, hcause, hfollows, hvoiced⟩
  · refine .called isn c hclient ?_ hside
    unfold Silent
    rw [hself]
    exact hquiet
  · rcases hbrought.opens h.voiced hcause with hdials | ⟨syn, isnServer, nowMs, token, rfl, hsyn, hsent, hrst⟩
    · exact absurd ht (hpassive rfl hdials)
    · have hseq := seq_of_syn ((hside isnServer).sent syn hsent) hsyn hrst
      generalize ho : Opening.server (k.peer .server) syn isnServer nowMs token = o at hfollows hvoiced
      have hanswers : o.Answers (c.face isn) := by
        rw [← ho]
        exact hseq
      have hlocal := o.speaks (k.config .server).valid hanswers
      have hisn : o.isn = isnServer := by
        rw [← ho]
        rfl
      rw [hisn] at hlocal
      refine .joined (fun side => side.casesOn isn isnServer) (fun side => side.casesOn c (o.socket (k.config .server).1))
        ⟨fun side => ?_, fun side => ?_⟩
      · cases side with
        | client => exact hclient
        | server => exact ⟨hself ▸ hfollows, hself ▸ hvoiced⟩
      · cases side with
        | client => exact (hside isnServer).mono (Face.fresh_ok isnServer) (Face.fresh_le isnServer _)
        | server => exact hlocal

/-- **One step of one host.** -/
theorem Talk.update (h : k.Talk hs) (hbrought : k.Brought hs side op) (hpassive : k.Passive hs side op)
    (howns : (hs.update side op side).stack.Owns (k.id side) (k.key side)) (hb : (hs.update side op).Bounded k) :
    k.Talk (hs.update side op) := by
  cases h with
  | quiet h =>
    have hself := update_self hs side op
    have htok := (hb side).2
    have howns' := howns
    rw [hself] at htok howns'
    have hother : k.Silent (hs.update side op) side.other := Silent.of_eq (h side.other) (update_other hs side op)
    rcases (h side).step op htok howns' with hquiet | ⟨o, ht, hcause, hfollows, hvoiced⟩
    · refine .quiet fun d => ?_
      rcases side.eq_or_other d with rfl | rfl
      · unfold Silent
        rw [hself]
        exact hquiet
      · exact hother
    · rcases hbrought.opens (h side.other).resets hcause with hdials | ⟨syn, isn, nowMs, token, -, -, hsent, -⟩
      · cases side with
        | server => exact absurd ht (hpassive rfl hdials)
        | client =>
          have hclient : ∀ peer, o.Answers (.fresh peer) := fun peer => by
            generalize hop : op.2 = op' at hcause
            cases hcause with
            | connected => trivial
            | opened => rw [hop] at hdials; cases hdials
          refine .called o.isn _ ⟨hself ▸ hfollows, hself ▸ hvoiced⟩ hother fun peer => ?_
          exact o.speaks (k.config .client).valid (hclient peer)
      · cases hsent
  | called isn c hc hserver hside =>
    cases side with
    | client => exact hc.call hserver hside hbrought howns hb
    | server => exact hc.answered hserver hside hbrought hpassive howns hb
  | joined isn s h =>
    obtain ⟨s', h', -⟩ := h.update hbrought howns hb
    exact .joined isn s' h'

end Conversation

/-! ## Runs -/

namespace Hosts

variable {P : Type} [DecidableEq P] {k : Conversation P} {hs : Hosts P} {side : Side} {op : HostsOp P}

/-- every retained connection is sound -/
def Sound (hs : Hosts P) : Prop := ∀ side, (hs side).stack.AllSound

/-- a step is none, or one of one host -/
theorem step_cases (k : Conversation P) (hs : Hosts P) (op : HostsOp P) :
    hs.step k op = hs ∨ ∃ side op', hs.step k op = hs.update side op' := by
  cases op with
  | deliver side index nowMs tokens =>
    simp only [step]
    split
    · split_ifs
      · exact .inr ⟨_, _, rfl⟩
      · exact .inl rfl
    · exact .inl rfl
  | act side op => exact .inr ⟨_, _, rfl⟩

/-- a step of an undisturbed run -/
theorem Undisturbed.cases (h : hs.Undisturbed k op) : hs.step k op = hs ∨ ∃ side op', hs.step k op = hs.update side op' ∧
    k.Brought hs side op' ∧ k.Passive hs side op' ∧ (hs.update side op' side).stack.Owns (k.id side) (k.key side) := by
  obtain ⟨hapart, howns⟩ := h
  cases op with
  | deliver side index nowMs tokens =>
    have howns := howns side
    simp only [step] at howns ⊢
    cases hget : (hs side.other).posted[index]? with
    | none => exact .inl rfl
    | some o =>
      rw [hget] at howns
      simp only at howns ⊢
      split_ifs at howns ⊢ with hpeer
      · refine .inr ⟨side, _, rfl, fun bytes now hop => ?_, (fun _ hdials => nomatch hdials), howns⟩
        cases hop
        exact ⟨o, List.mem_of_getElem? hget, hpeer, rfl⟩
      · exact .inl rfl
  | act side op =>
    obtain ⟨tokens, op⟩ := op
    refine .inr ⟨side, (tokens, op), rfl, fun bytes now hop => ?_, fun hside hdials => ?_, howns side⟩
    · -- the carrier keeps names apart
      rw [show op = _ from hop] at hapart
      exact absurd rfl hapart
    · cases op with
      | connect | connectFromWithIsn => exact hapart hside hdials
      | input | poll | write | read | close | abort | abortPeer | listen | closeListener | accept | setConnectionReservation
      | drainOutbound => cases hdials

theorem Sound.update (h : hs.Sound) (side : Side) (op : ℕ × StackOp P) : (hs.update side op).Sound := fun d => by
  rcases side.eq_or_other d with rfl | rfl
  · rw [Conversation.update_self]
    exact (Stack.turn_sound (h d) op).1
  · rw [Conversation.update_other]
    exact h side.other

theorem Bounded.of_update (h : hs.Sound) {side : Side} {op : ℕ × StackOp P} (hb : (hs.update side op).Bounded k) :
    hs.Bounded k := fun d => by
  have hd := hb d
  rcases side.eq_or_other d with rfl | rfl
  · rw [Conversation.update_self] at hd
    obtain ⟨hacc, htok⟩ := hd
    have hle : ((hs d).accepted (k.id d)).length ≤ (((hs d).step op).accepted (k.id d)).length := by
      simp only [Host.step, List.length_append]
      exact Nat.le_add_right _ _
    exact ⟨hle.trans_lt hacc, (Stack.turn_sound (h d) op).2.trans_lt htok⟩
  · rw [Conversation.update_other] at hd
    exact hd

theorem Sound.run (h : hs.Sound) (ops : List (HostsOp P)) : (Run.exec (Hosts.step k) hs ops).Sound :=
  Run.exec_invariant (fun hs op h => by
    rcases hs.step_cases k op with heq | ⟨side, op', heq⟩ <;> rw [heq]
    · exact h
    · exact h.update side op') h ops

/-- what is bounded at the end of a run was bounded before -/
theorem Bounded.of_run (h : hs.Sound) {ops : List (HostsOp P)} (hb : (Run.exec (Hosts.step k) hs ops).Bounded k) : hs.Bounded k := by
  induction ops generalizing hs with
  | nil => exact hb
  | cons op ops ih =>
    rw [Run.exec_cons] at hb
    rcases hs.step_cases k op with heq | ⟨side, op', heq⟩ <;> rw [heq] at hb
    · exact ih h hb
    · exact (ih (h.update side op') hb).of_update h

/-- what every step of one host preserves, every undisturbed run preserves, while it is bounded -/
theorem run_invariant {Q : Hosts P → Prop} (hQ : ∀ hs side op, k.Brought hs side op → k.Passive hs side op →
      (hs.update side op side).stack.Owns (k.id side) (k.key side) → (hs.update side op).Bounded k → Q hs → Q (hs.update side op))
    (hsound : hs.Sound) (hs0 : Q hs) {ops : List (HostsOp P)} (hG : Run.Along (step k) (Undisturbed k) hs ops)
    (hb : (Run.exec (step k) hs ops).Bounded k) : Q (Run.exec (step k) hs ops) := by
  refine (Run.exec_invariant_along (P := fun hs : Hosts P => hs.Sound ∧ (hs.Bounded k → Q hs)) (fun hs op hop ⟨h, hq⟩ => ?_)
    ⟨hsound, fun _ => hs0⟩ hG).2 hb
  rcases Undisturbed.cases hop with heq | ⟨side, op', heq, hbrought, hpassive, howns⟩ <;> rw [heq]
  · exact ⟨h, hq⟩
  · exact ⟨h.update side op', fun hb => hQ hs side op' hbrought hpassive howns hb (hq (hb.of_update h))⟩

theorem Sound.new (k : Conversation P) (isnSeed : Side → BitVec 64) (token : Side → ℕ) : (new k isnSeed token).Sound := fun side =>
  (Stack.Genuine.new (k.config side) (isnSeed side) (token side)).sound

/-- **The conversation, after every undisturbed run.** -/
theorem talk_run (k : Conversation P) (isnSeed : Side → BitVec 64) {token : Side → ℕ} (htoken : ∀ side, 0 < token side)
    {ops : List (HostsOp P)} (hG : Run.Along (step k) (Undisturbed k) (new k isnSeed token) ops)
    (hb : (run k isnSeed token ops).Bounded k) : k.Talk (run k isnSeed token ops) := by
  refine run_invariant (Q := k.Talk) (fun hs side op h1 h2 h3 h4 h => h.update h1 h2 h3 h4) (Sound.new k isnSeed token)
    (.quiet fun side => ?_) hG hb
  exact ⟨.new (k.config side) (isnSeed side) (htoken side), ⟨(fun _ h => nomatch h), fun _ h => nomatch h⟩, rfl, rfl, rfl, rfl,
    fun _ h => nomatch h⟩

/-- the same in the middle of a run -/
theorem talk_known (k : Conversation P) (isnSeed : Side → BitVec 64) {token : Side → ℕ} (htoken : ∀ side, 0 < token side)
    {ops more : List (HostsOp P)} (hG : Run.Along (step k) (Undisturbed k) (new k isnSeed token) ops)
    (hb : (Run.exec (step k) (run k isnSeed token ops) more).Bounded k) :
    k.Talk (run k isnSeed token ops) ∧ (run k isnSeed token ops).Sound := by
  have hsound := (Sound.new k isnSeed token).run (k := k) ops
  exact ⟨talk_run k isnSeed htoken hG (hb.of_run hsound), hsound⟩

end Hosts

/-- **What each side shows only grows,** once both have spoken. -/
theorem Conversation.Joined.run {P : Type} [DecidableEq P] {k : Conversation P} {hs : Hosts P} {isn : Side → U32} {s : Pair P}
    (h : k.Joined hs isn s) (hsound : hs.Sound) {ops : List (HostsOp P)}
    (hG : Run.Along (Hosts.step k) (Hosts.Undisturbed k) hs ops) (hb : (Run.exec (Hosts.step k) hs ops).Bounded k) :
    ∃ s' : Pair P, k.Joined (Run.exec (Hosts.step k) hs ops) isn s' ∧
      ∀ d, (s.face (k.handshake isn) d).Le (s'.face (k.handshake isn) d) := by
  refine Hosts.run_invariant
    (Q := fun hs => ∃ s' : Pair P, k.Joined hs isn s' ∧ ∀ d, (s.face (k.handshake isn) d).Le (s'.face (k.handshake isn) d))
    (fun hs side op hbrought _ howns hb ⟨s1, h1, hle⟩ => ?_) hsound ⟨s, h, fun _ => Face.Le.refl _⟩ hG hb
  obtain ⟨s2, h2, hle'⟩ := h1.update hbrought howns hb
  exact ⟨s2, h2, fun d => (hle d).trans (hle' d)⟩

end FipsTcp
