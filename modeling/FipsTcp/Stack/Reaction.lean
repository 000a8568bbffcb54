/-
What one datagram makes a stack do.

A datagram may open a connection, and then it is a SYN without an ACK. Otherwise the stack pays for what it sends with the
charge of the connection that it is for, but for the ACK of a segment that occupies sequence space and for two answers to
datagrams without any (`Light`): the reset that rejects a segment, and the ACK that challenges a reset. Then no connection
changes in anything by which a reset is judged (`Hears`).
- `input_reacts`: the statement, for every datagram.
-/
import FipsTcp.Connection.Charge
import FipsTcp.Stack.Isolation

namespace FipsTcp

open Table Connection

/-- that by which a connection judges a reset -/
def Connection.hearing {P : Type} (c : Connection P) : Receiver × Stable P × Bool :=
  (c.receiver, c.stable, decide (c.state = .synSent))

namespace Stack

variable {P : Type} [DecidableEq P]

/-- the connection of a tuple -/
def retained (s : Stack P) (key : ConnectionKey P) : Option (Connection P) :=
  (s.lookup.lookup key).bind fun id => s.connections.lookup id

/-- what the connections can still send, and one for each of them -/
def charge (s : Stack P) : ℕ := weigh (fun c => c.charge + 1) s.connections

/-- the stack would answer the reset with an ACK -/
def challenges (s : Stack P) (peer : P) (reset : Segment) : Bool :=
  (s.retained ⟨peer, reset.dstPort, reset.srcPort⟩).any fun c => decide (c.Challenged reset)

/-- the segment acknowledges what the stack has received on its tuple -/
def vouches (s : Stack P) (peer : P) (segment : Segment) : Bool :=
  (s.retained ⟨peer, segment.srcPort, segment.dstPort⟩).any fun c => decide (segment.ack = some c.recvNxt)

/-- resets are judged as before -/
def Hears (s s' : Stack P) : Prop := ∀ key, (s'.retained key).map hearing = (s.retained key).map hearing

/-- what is sent without a charge in answer to a datagram that occupies no sequence space -/
inductive Light (s : Stack P) (peer : P) (bytes : List U8) : List Segment → Prop
  | silent : Light s peer bytes []
  | reset (x : Segment) (hdec : Segment.decode bytes = .ok x) (hrst : x.flags.contains .RST = false) :
      Light s peer bytes [resetFor x]
  | challenge (x : Segment) (c : Connection P) (hdec : Segment.decode bytes = .ok x) (hrst : x.flags.contains .RST = true)
      (hl : s.retained ⟨peer, x.dstPort, x.srcPort⟩ = some c) (h : c.Challenged x) : Light s peer bytes [c.ackSegment]

/-- what becomes of a datagram -/
inductive Effect (s : Stack P) (peer : P) (bytes : List U8) (s' : Stack P) (out : List Segment) : Prop
  | opening (x : Segment) (hdec : Segment.decode bytes = .ok x) (hsyn : x.bareSyn = true)
  | answered (x : Segment) (hdec : Segment.decode bytes = .ok x) (hoccupies : x.occupies = true)
      (hle : s'.charge + out.countP Segment.occupies ≤ s.charge)
  | spent (hlt : s'.charge < s.charge)
  | light (hle : s'.charge ≤ s.charge) (hears : s.Hears s') (hlight : s.Light peer bytes out)

/-- what a datagram makes the stack send, and what becomes of it -/
structure Reacts (s : Stack P) (peer : P) (bytes : List U8) (s' : Stack P) (out : List Segment) : Prop where
  queued : s'.outbound = s.outbound ++ out.map (datagram peer)
  read : ∀ x ∈ out, x.Encodes ∧ x.Plain ∧ x.bareSyn = false
  effect : s.Effect peer bytes s' out

variable {config : ValidConfig} {s s' : Stack P} {id : ConnectionId} {c : Connection P} {peer : P} {bytes : List U8}
  {segment : Segment} {nowMs : ℕ}

/-! ## Judging resets -/

theorem Hears.of_eq (hc : s'.connections = s.connections) (hl : s'.lookup = s.lookup) : s.Hears s' := fun key => by
  unfold retained
  rw [hc, hl]

theorem Hears.cases (h : s.Hears s') (key : ConnectionKey P) :
    s'.retained key = none ∧ s.retained key = none ∨
      ∃ c' c, s'.retained key = some c' ∧ s.retained key = some c ∧ c'.receiver = c.receiver ∧ c'.stable = c.stable ∧
        (c'.state = .synSent ↔ c.state = .synSent) := by
  have hkey := h key
  cases h' : s'.retained key with
  | none =>
    rw [h', Option.map_none, eq_comm, Option.map_eq_none_iff] at hkey
    exact .inl ⟨rfl, hkey⟩
  | some c' =>
    rw [h', Option.map_some, eq_comm, Option.map_eq_some_iff] at hkey
    obtain ⟨c, hc, heq⟩ := hkey
    simp only [hearing, Prod.mk.injEq, decide_eq_decide] at heq
    exact .inr ⟨c', c, rfl, hc, heq.1.symm, heq.2.1.symm, heq.2.2.symm⟩

theorem Hears.challenges (h : s.Hears s') (peer : P) (x : Segment) : s'.challenges peer x = s.challenges peer x := by
  unfold Stack.challenges
  rcases h.cases ⟨peer, x.dstPort, x.srcPort⟩ with ⟨h1, h2⟩ | ⟨c', c, h1, h2, hr, hst, hstate⟩ <;> rw [h1, h2]
  rw [Option.any_some, Option.any_some, decide_eq_decide]
  exact Challenged.congr hstate hr hst

theorem Hears.vouches (h : s.Hears s') (peer : P) (x : Segment) : s'.vouches peer x = s.vouches peer x := by
  unfold Stack.vouches
  rcases h.cases ⟨peer, x.srcPort, x.dstPort⟩ with ⟨h1, h2⟩ | ⟨c', c, h1, h2, hr, -, -⟩ <;> rw [h1, h2]
  have hnxt : c'.recvNxt = c.recvNxt := congrArg Receiver.recvNxt hr
  rw [Option.any_some, Option.any_some, hnxt]

theorem Light.occupies {out : List Segment} (h : s.Light peer bytes out) : ∀ x ∈ out, x.occupies = false := by
  intro x hx
  cases h with
  | silent => cases hx
  | reset y => rw [List.mem_singleton.1 hx]; exact (resetFor_flags y).1
  | challenge y c => rw [List.mem_singleton.1 hx]; exact c.ackSegment_occupies

/-! ## One connection -/

theorem retained_of_lookup (hkey : s.lookup.lookup ⟨peer, segment.dstPort, segment.srcPort⟩ = some id)
    (hl : s.connections.lookup id = some c) : s.retained ⟨peer, segment.dstPort, segment.srcPort⟩ = some c := by
  rw [retained, hkey]
  exact hl

/-- a connection that hears as before takes the place of another -/
theorem Hears.stored {c' : Connection P} (hl : s.connections.lookup id = some c) (hc : s'.connections = s.connections.insert id c')
    (hlook : s'.lookup = s.lookup) (h : c'.hearing = c.hearing) : s.Hears s' := by
  intro key
  unfold retained
  rw [hlook, hc]
  cases s.lookup.lookup key with
  | none => rfl
  | some i =>
    rw [Option.bind_some, Option.bind_some]
    by_cases hi : i = id
    · rw [hi, Finmap.lookup_insert, hl, Option.map_some, Option.map_some, h]
    · rw [Finmap.lookup_insert_of_ne _ hi]

theorem charge_stored {c' : Connection P} (hl : s.connections.lookup id = some c) (hc : s'.connections = s.connections.insert id c') :
    s'.charge + c.charge = s.charge + c'.charge := by
  have hweigh := weigh_update (fun c : Connection P => c.charge + 1) hl c'
  unfold charge
  rw [hc]
  omega

/-- what a segment does to the tables -/
theorem onRetained_tables (s : Stack P) (id : ConnectionId) (c : Connection P) (segment : Segment) (nowMs : ℕ) :
    ((c.onSegment segment nowMs s.config.1).2.closed = true → s.onRetained id c segment nowMs = s.drop id c.key) ∧
      ((c.onSegment segment nowMs s.config.1).2.closed = false →
        (s.onRetained id c segment nowMs).connections = s.connections.insert id (c.onSegment segment nowMs s.config.1).1 ∧
          (s.onRetained id c segment nowMs).lookup = s.lookup) := by
  unfold onRetained
  simp only
  refine ⟨fun h => if_pos h, fun h => ?_⟩
  rw [if_neg (by rw [h]; exact Bool.false_ne_true)]
  split_ifs <;> exact ⟨rfl, rfl⟩

/-- **A segment of a retained connection.** -/
theorem onRetained_effect (hc : c.Sound s.config.1) (hdec : Segment.decode bytes = .ok segment)
    (hkey : s.lookup.lookup ⟨peer, segment.dstPort, segment.srcPort⟩ = some id) (hl : s.connections.lookup id = some c)
    (hin : c.input segment nowMs s.config.1 = c.onSegment segment nowMs s.config.1) :
    s.Effect peer bytes (s.onRetained id c segment nowMs) (c.said s.config.1 (.input segment nowMs)) := by
  have hmax : c.maxTransmissions ≤ 255 := by
    have := s.config.1.maxRetransmissions.isLt
    rw [hc.timed.budget]
    omega
  have hspends := fun (p : Segment → Bool) hp => input_spends (p := p) segment nowMs s.config.1 hc.mss hmax hp
  have hquiet := input_quiet segment nowMs s.config.1 hc.mss
  have hstable := ((input_moves s.config.1 nowMs segment hc.mss).1)
  obtain ⟨hclosed, hopen⟩ := s.onRetained_tables id c segment nowMs
  simp only [said]
  rw [hin] at hspends hquiet hstable ⊢
  cases hcl : (c.onSegment segment nowMs s.config.1).2.closed with
  | true =>
    refine .spent ?_
    rw [hclosed hcl, charge, charge, weigh_erase (fun c : Connection P => c.charge + 1) hl]
    exact Nat.lt_add_of_pos_right (Nat.succ_pos _)
  | false =>
    obtain ⟨hconn, hlook⟩ := hopen hcl
    have hcharge := charge_stored hl hconn
    have hst := (hstable hcl).stable_eq
    generalize (c.onSegment segment nowMs s.config.1).1 = c' at hspends hquiet hst hcharge hconn ⊢
    generalize (c.onSegment segment nowMs s.config.1).2.segments = out at hspends ⊢
    cases hocc : segment.occupies with
    | true =>
      refine .answered segment hdec hocc ?_
      -- neither answer that is not paid for occupies sequence space
      cases hspends Segment.occupies (fun _ y => y.ackSegment_occupies) hcl with
      | reset hrst =>
        rw [List.countP_singleton, (resetFor_flags segment).1, if_neg Bool.false_ne_true]
        omega
      | challenge hrst h =>
        rw [List.countP_singleton, ackSegment_occupies, if_neg Bool.false_ne_true]
        omega
      | paid out c' h =>
        have := h.paid
        omega
    | false =>
      obtain ⟨hr, hstate⟩ := hquiet hocc hcl
      have hhears : s.Hears (s.onRetained id c segment nowMs) := by
        refine .stored hl hconn hlook ?_
        rw [hearing, hearing, hr, hst, decide_eq_decide.2 hstate]
      cases hspends (fun _ => true) (fun h => absurd (hocc.symm.trans h) Bool.false_ne_true) hcl with
      | reset hrst => exact .light (by omega) hhears (.reset segment hdec hrst)
      | challenge hrst h => exact .light (by omega) hhears (.challenge segment c hdec hrst (retained_of_lookup hkey hl) h)
      | paid out c' h =>
        have hpaid := h.paid
        rw [List.countP_true] at hpaid
        cases out with
        | nil => exact .light (by rw [List.length_nil] at hpaid; omega) hhears .silent
        | cons x out => exact .spent (by rw [List.length_cons] at hpaid; omega)

/-! ## Every datagram -/

/-- nothing happens -/
theorem Reacts.still : s.Reacts peer bytes s [] where
  queued := (List.append_nil _).symm
  read _ hx := nomatch hx
  effect := .light le_rfl (.of_eq rfl rfl) .silent

/-- a segment is rejected -/
theorem Reacts.rejected (hdec : Segment.decode bytes = .ok segment)
    (h : segment.flags.contains .RST = false ∨ segment.bareSyn = true) :
    s.Reacts peer bytes (s.queue peer [resetFor segment]) [resetFor segment] where
  queued := rfl
  read x hx := by
    have hp := Segment.decode_ports hdec
    rw [List.mem_singleton.1 hx]
    exact ⟨resetFor_encodes hp.1 hp.2, resetFor_plain segment, (resetFor_flags segment).2.1⟩
  effect := by
    rcases h with hrst | hsyn
    · exact .light le_rfl (.of_eq rfl rfl) (.reset segment hdec hrst)
    · exact .opening segment hdec hsyn

theorem Opens.bareSyn (h : s.Opens segment) : segment.bareSyn = true := by
  obtain ⟨hsyn, hack, -⟩ := h
  rw [Segment.bareSyn, hsyn, Bool.eq_false_of_not_eq_true hack]
  rfl

/-- a connection is made -/
theorem opened_reacts (hdec : Segment.decode bytes = .ok segment) (hopen : s.Opens segment) :
    s.Reacts peer bytes (s.nextIsn.1.create
      (Connection.server peer segment s.nextIsn.2 nowMs s.config.1 s.nextConnectionToken).1
      (Connection.server peer segment s.nextIsn.2 nowMs s.config.1 s.nextConnectionToken).2)
      (Connection.server peer segment s.nextIsn.2 nowMs s.config.1 s.nextConnectionToken).2 := by
  obtain ⟨-, hpeer, -, -, henc⟩ := sound_server s.config.valid peer (Segment.decode_ports hdec) s.nextIsn.2 nowMs
    s.nextConnectionToken
  have haddr := opening_addressed s.config.1 (.server peer segment s.nextIsn.2 nowMs s.nextConnectionToken)
  refine ⟨?_, fun x hx => ⟨henc x hx, (haddr x hx).plain, ?_⟩, .opening segment hdec hopen.bareSyn⟩
  · rw [create, hpeer]
    rfl
  · rw [List.mem_singleton.1 hx]
    exact bareSyn_of_answering (by decide : Answering (Flags.SYN.union .ACK))

/-- **What a datagram makes a stack do.** -/
theorem input_reacts (h : s.Orderly config) (peer : P) (bytes : List U8) (nowMs : ℕ) :
    ∃ out, s.Reacts peer bytes (s.input peer bytes nowMs).1 out := by
  have hs := h.tidy
  have hcall := input_call h.genuine.sound peer bytes nowMs
  generalize (s.input peer bytes nowMs).1 = s' at hcall ⊢
  generalize (s.input peer bytes nowMs).2 = result at hcall
  cases hcall with
  | refused | malformed | stale | ignored => exact ⟨[], .still⟩
  | connected op peer' localPort remotePort isn t port cursor hcalled => rcases hcalled with hop | hop <;> cases hop
  | rejected peer bytes nowMs segment hdec hkey hrst =>
    refine ⟨_, .rejected hdec ?_⟩
    cases hflag : segment.flags.contains .RST with
    | false => exact .inl rfl
    | true => exact .inr (hrst hflag).1.bareSyn
  | opened peer bytes nowMs segment hdec hkey hopen => exact ⟨_, opened_reacts hdec hopen⟩
  | reset peer bytes nowMs segment id c hdec hkey hl hun =>
    simp only [unacceptableAck, Bool.and_eq_true, Bool.not_eq_true'] at hun
    exact ⟨_, .rejected hdec (.inl hun.1.2)⟩
  | challenged peer bytes nowMs segment id c hdec hkey hl hun hsyn =>
    have hpeer : c.peer = peer := congrArg ConnectionKey.peer (key_of_lookup hs hkey hl)
    have hports := (h.genuine.sound id c hl).ports
    simp only [unexpectedSyn, Bool.and_eq_true] at hsyn
    refine ⟨[c.ackSegment], by rw [hpeer]; rfl, fun x hx => ?_, .answered segment hdec ?_ ?_⟩
    · rw [List.mem_singleton.1 hx]
      exact ⟨buildSegment_encodes hports.1 hports.2 [], (addressed_build c _ (by decide : Proper Flags.ACK) []).plain,
        bareSyn_of_answering (by decide : Answering Flags.ACK)⟩
    · simp [Segment.occupies, hsyn.1.2]
    · rw [List.countP_singleton, ackSegment_occupies, if_neg Bool.false_ne_true]
      exact le_rfl
  | handled peer bytes nowMs segment id c hdec hkey hl hun hsyn =>
    have hc := h.genuine.sound id c hl
    have hk := key_of_lookup hs hkey hl
    have hpeer : c.peer = peer := congrArg ConnectionKey.peer hk
    have hin : c.input segment nowMs s.config.1 = c.onSegment segment nowMs s.config.1 := by
      rw [Connection.input, if_neg (by simp [hun]), if_neg (by simp [hsyn])]
    have hreachable : c.Reachable s.config.1 := by
      rw [h.genuine.same]
      exact h.genuine.reachable id c hl
    have htuple : c.ForTuple (.input segment nowMs) := fun x hx => by
      cases hx
      exact ⟨(congrArg ConnectionKey.localPort hk).symm, (congrArg ConnectionKey.remotePort hk).symm⟩
    refine ⟨_, ?_, fun x hx => ?_, onRetained_effect hc hdec hkey hl hin⟩
    · rw [onRetained_queue hs hl (Segment.decode_ports hdec) hun hsyn, hpeer]
    · obtain ⟨henc, haddr⟩ := said_addressed hc (hs.flagged id c hl) htuple x hx
      refine ⟨henc, haddr.plain, ?_⟩
      cases hclosed : (c.input segment nowMs s.config.1).2.closed with
      | false => exact input_answers hreachable.calm segment nowMs hc.mss hclosed x hx
      | true =>
        have hnil := ((input_moves s.config.1 nowMs segment hc.mss).2 hclosed).1
        simp only [said, hnil] at hx
        cases hx

end Stack

end FipsTcp
