/-
How many connections wait to be accepted.

A connection that leaves the table stays in its accept queue until `accept` drops it. `EndsBy` says which segment, deadline or
call ends a connection (`after_eq_none_iff`); a step that ends one that waits leaves a stale id behind (`Loses.stale`). While no
step does, the queues hold distinct retained connections (`Backlog`), so together they hold at most as many as are retained:
`backlog_bounded`. Handshakes that are reset afterwards fill them without a bound (`backlog_grows`).
-/
import FipsTcp.Stack.Queues
import FipsTcp.Stack.Teardown

namespace FipsTcp

open Table Connection

/-! ## What ends a connection -/

namespace Connection

variable {P : Type} {config : Config} {c c' : Connection P} {isn : U32} {acc : List U8} {nowMs : ℕ}

/-- the timers give the connection up: a closing deadline, the last zero-window probe or the last retransmission -/
def GivenUp (config : Config) (c : Connection P) (nowMs : ℕ) : Prop :=
  (∃ deadline, c.closeDeadline = some deadline ∧ deadline ≤ nowMs) ∨
    if c.remoteWindow = 0 ∧ (c.closeRequested ∨ c.hasProbePayload) then
      c.nextZeroWindowProbeMs.getD (satAdd nowMs config.initialRtoMs) ≤ nowMs ∧
        config.maxRetransmissions.toNat ≤ c.zeroWindowProbes
    else ∃ oldest, c.unacked.head? = some oldest ∧ satAdd oldest.sentAtMs c.rtt.timeoutMs ≤ nowMs ∧
      config.maxRetransmissions.toNat ≤ oldest.transmissions

theorem pollZeroWindow_closed (c : Connection P) (nowMs : ℕ) (config : Config) :
    (c.pollZeroWindow nowMs config).2.closed = true ↔
      c.nextZeroWindowProbeMs.getD (satAdd nowMs config.initialRtoMs) ≤ nowMs ∧
        config.maxRetransmissions.toNat ≤ c.zeroWindowProbes := by
  unfold pollZeroWindow
  simp only
  split_ifs with h1 h2
  · exact iff_of_true rfl ⟨h1, h2⟩
  · refine iff_of_false ?_ fun h => h2 h.2
    split <;> exact Bool.false_ne_true
  · exact iff_of_false Bool.false_ne_true fun h => h1 h.1

/-- **Polling.** A poll removes a connection exactly if its timers give it up. -/
theorem poll_closed (c : Connection P) (nowMs : ℕ) (config : Config) :
    (c.poll nowMs config).2.closed = true ↔ c.GivenUp config nowMs := by
  have hdue : (c.closeDeadline.any fun deadline => decide (deadline ≤ nowMs)) = true ↔
      ∃ deadline, c.closeDeadline = some deadline ∧ deadline ≤ nowMs := by
    cases c.closeDeadline with
    | none => simp
    | some deadline => simp
  unfold poll GivenUp
  by_cases h1 : (c.closeDeadline.any fun deadline => decide (deadline ≤ nowMs)) = true
  · rw [if_pos h1]
    exact iff_of_true rfl (Or.inl (hdue.1 h1))
  rw [if_neg h1, or_iff_right fun h => h1 (hdue.2 h)]
  by_cases h2 : c.remoteWindow = 0 ∧ (c.closeRequested ∨ c.hasProbePayload)
  · rw [if_pos h2, if_pos h2]
    exact c.pollZeroWindow_closed nowMs config
  rw [if_neg h2, if_neg h2]
  cases hu : c.unacked with
  | nil => exact iff_of_false Bool.false_ne_true fun ⟨_, h, _⟩ => nomatch h
  | cons oldest rest =>
    simp only [List.head?_cons, Option.some.injEq, exists_eq_left']
    split_ifs with h3 h4
    · exact iff_of_true rfl ⟨h3, h4⟩
    · exact iff_of_false Bool.false_ne_true fun h => h4 h.2
    · exact iff_of_false Bool.false_ne_true fun h => h3 h.1

/-- **What ends a connection.** An acceptable reset, in LAST-ACK the ACK of everything sent, a close before the handshake is
complete, an abort, or its timers. -/
def EndsBy (config : Config) (c : Connection P) : SocketOp → Prop
  | .input segment _ =>
    segment.flags.contains .RST = true ∧ c.AcceptsReset segment ∨
      segment.flags.contains .RST = false ∧ segment.flags.contains .SYN = false ∧ c.state = .lastAck ∧
        segment.ack = some c.sendNxt
  | .close _ => c.state = .synSent ∨ c.state = .synReceived
  | .abort => True
  | .poll nowMs => c.GivenUp config nowMs
  | .write _ _ | .read _ => False

/-- the handshake checks let resets through -/
theorem input_of_reset {segment : Segment} (hrst : segment.flags.contains .RST = true) :
    c.input segment nowMs config = (c, c.onReset segment) := by
  unfold input onSegment unacceptableAck unexpectedSyn
  simp [hrst]

theorem input_closed (hs : c.SendInv config isn acc) (segment : Segment) (nowMs : ℕ) :
    (c.input segment nowMs config).2.closed = true ↔ c.EndsBy config (.input segment nowMs) := by
  cases hrst : segment.flags.contains .RST with
  | true =>
    rw [input_of_reset hrst, onReset_closed hs]
    simp [EndsBy, hrst]
  | false =>
    simp only [EndsBy, hrst, Bool.false_eq_true, false_and, false_or, true_and]
    constructor
    · intro h
      unfold input at h
      split_ifs at h with h1 h2
      · cases h
      · cases h
      have hlast : c.state = .lastAck ∧ segment.ack = some c.sendNxt := by
        rcases onSegment_tornDown hs nowMs segment h with ⟨hr, -⟩ | hl
        · rw [hrst] at hr
          cases hr
        · exact hl
      refine ⟨?_, hlast⟩
      simpa [unexpectedSyn, hlast.1, hrst] using h2
    · rintro ⟨hsyn, hst, hack⟩
      have hsync : c.Synchronized := by simp [Synchronized, hst]
      have h1 : c.unacceptableAck segment = false := by simp [unacceptableAck, hst]
      have h2 : c.unexpectedSyn segment = false := by simp [unexpectedSyn, hsyn]
      unfold input
      rw [h1, h2, if_neg (by decide), if_neg (by decide), onSegment_synchronized hsync hrst]
      exact (onSynchronized_closed_iff nowMs hs hsync hrst).2 ⟨hst, hack⟩

theorem close_closed (c : Connection P) (nowMs : ℕ) :
    (c.close nowMs).2.closed = true ↔ c.state = .synSent ∨ c.state = .synReceived := by
  unfold Connection.close
  cases hst : c.state <;> simp [Update.open, Update.close]

/-- **The list is complete**, and everything on it ends the connection. -/
theorem after_eq_none_iff (hs : c.SendInv config isn acc) (o : SocketOp) : c.after config o = none ↔ c.EndsBy config o := by
  have hif : ∀ {b : Bool} {x : Connection P}, (if b then none else some x) = none ↔ b = true := fun {b x} => by cases b <;> simp
  cases o with
  | input segment nowMs => exact hif.trans (input_closed hs segment nowMs)
  | write bytes nowMs =>
    refine iff_of_false ?_ id
    simp only [Connection.after]
    split <;> exact Option.some_ne_none _
  | read max => exact iff_of_false (Option.some_ne_none _) id
  | close nowMs => exact hif.trans (c.close_closed nowMs)
  | abort => exact iff_of_true rfl trivial
  | poll nowMs => exact hif.trans (c.poll_closed nowMs config)

end Connection

/-! ## The queues -/

namespace Stack

variable {P : Type} [DecidableEq P] {s s' : Stack P} {id : ConnectionId} {c : Connection P} {op : StackOp P}

/-- the number of ids in all accept queues -/
def waiting (s : Stack P) : ℕ := ∑ port ∈ s.accepts.keys, ((s.accepts.lookup port).getD []).length

/-- an operation ends a connection -/
def Ends (s : Stack P) (op : StackOp P) (id : ConnectionId) (c : Connection P) : Prop :=
  ∃ o, s.act id op = some o ∧ c.EndsBy s.config.1 o

/-- an operation ends a connection that waits to be accepted -/
def Loses (s : Stack P) (op : StackOp P) : Prop :=
  ∃ port q id c, s.accepts.lookup port = some q ∧ id ∈ q ∧ s.connections.lookup id = some c ∧ s.Ends op id c

/-- the queues hold distinct retained connections of their ports, past their handshakes -/
def Backlog (s : Stack P) : Prop :=
  ∀ port q, s.accepts.lookup port = some q → q.Nodup ∧
    ∀ id ∈ q, ∃ c, s.connections.lookup id = some c ∧ c.localPort = port ∧ c.state ≠ .synReceived

/-- **Counting.** The queues of different ports share no id. -/
theorem Backlog.waiting_le (h : s.Backlog) : s.waiting ≤ s.size := by
  have hcard : ∀ port ∈ s.accepts.keys, ((s.accepts.lookup port).getD []).length =
      ((s.accepts.lookup port).getD []).toFinset.card := fun port _ => by
    cases hq : s.accepts.lookup port with
    | none => rfl
    | some q => exact (List.toFinset_card_of_nodup (h port q hq).1).symm
  have hentry : ∀ port id, id ∈ ((s.accepts.lookup port).getD []).toFinset →
      ∃ c, s.connections.lookup id = some c ∧ c.localPort = port := fun port id hid => by
    cases hq : s.accepts.lookup port with
    | none =>
      rw [hq] at hid
      cases List.mem_toFinset.1 hid
    | some q =>
      rw [hq] at hid
      obtain ⟨c, hl, hport, -⟩ := (h port q hq).2 id (List.mem_toFinset.1 hid)
      exact ⟨c, hl, hport⟩
  rw [waiting, Finset.sum_congr rfl hcard, ← Finset.card_biUnion]
  · refine Finset.card_le_card fun id hid => ?_
    obtain ⟨port, -, hmem⟩ := Finset.mem_biUnion.1 hid
    obtain ⟨c, hl, -⟩ := hentry port id hmem
    exact Finmap.mem_keys.2 (Finmap.mem_of_lookup_eq_some hl)
  · intro port _ port' _ hne
    refine Finset.disjoint_left.2 fun id h1 h2 => hne ?_
    obtain ⟨c, hl, hport⟩ := hentry port id h1
    obtain ⟨c', hl', hport'⟩ := hentry port' id h2
    rw [hl, Option.some.injEq] at hl'
    rw [← hport, ← hport', hl']

/-- what waits is still there after an operation that does not end it -/
theorem kept_entry (hs : s.AllSound) (hfresh : s.FreshId) (hsend : ∃ isn acc, c.SendInv s.config.1 isn acc)
    (hl : s.connections.lookup id = some c) (hst : c.state ≠ .synReceived) (hkeep : ¬ s.Ends op id c) :
    ∃ c', (s.perform op).1.connections.lookup id = some c' ∧ c'.localPort = c.localPort ∧ c'.state ≠ .synReceived := by
  obtain ⟨isn, acc, hsend⟩ := hsend
  cases perform_entries hs op with
  | create o ht h hact htoken =>
    have hne : id ≠ s.nextId := fun he => by
      rw [he, hfresh] at hl
      cases hl
    exact ⟨c, by rw [h, Finmap.lookup_insert_of_ne _ hne]; exact hl, rfl, hst⟩
  | follow h =>
    have hafter := h id
    rw [hl, Option.bind_some] at hafter
    unfold afterOp at hafter
    cases hact : s.act id op with
    | none =>
      rw [hact] at hafter
      exact ⟨c, hafter, rfl, hst⟩
    | some o =>
      rw [hact] at hafter
      obtain ⟨c', hc'⟩ := Option.ne_none_iff_exists'.1 fun hnone => hkeep ⟨o, hact, (after_eq_none_iff hsend o).1 hnone⟩
      have hm := (hs id c hl).mss
      refine ⟨c', hafter.trans hc', ?_, fun h => hst (after_synReceived hm hc' h)⟩
      exact congrArg ConnectionKey.localPort (key_of_stable (after_stable hm hc'))

/-- **Preservation, one operation.** -/
theorem Backlog.step (h : s.Backlog) (hs : s.AllSound) (hfresh : s.FreshId)
    (hsend : ∀ id c, s.connections.lookup id = some c → ∃ isn acc, c.SendInv s.config.1 isn acc) (hkeep : ¬ s.Loses op) :
    (s.perform op).1.Backlog := by
  have hold : ∀ port q, s.accepts.lookup port = some q → ∀ id ∈ q,
      ∃ c', (s.perform op).1.connections.lookup id = some c' ∧ c'.localPort = port ∧ c'.state ≠ .synReceived :=
    fun port q hq id hid => by
      obtain ⟨c, hl, rfl, hst⟩ := (h port q hq).2 id hid
      exact kept_entry hs hfresh (hsend id c hl) hl hst fun hends => hkeep ⟨_, q, id, c, hq, hid, hl, hends⟩
  have hqueues := perform_queues hs op fun _ => hfresh
  generalize (s.perform op).1 = s' at hold hqueues
  -- a queue that only lost entries
  have hsub : ∀ (port : U16) (q q' : List ConnectionId), s.accepts.lookup port = some q → q'.Sublist q → q'.Nodup ∧
      ∀ id ∈ q', ∃ c', s'.connections.lookup id = some c' ∧ c'.localPort = port ∧ c'.state ≠ .synReceived :=
    fun port q q' hq hsub => ⟨(h port q hq).1.sublist hsub, fun id hid => hold port q hq id (hsub.subset hid)⟩
  have hempty : ∀ port : U16, ([] : List ConnectionId).Nodup ∧
      ∀ id ∈ ([] : List ConnectionId), ∃ c', s'.connections.lookup id = some c' ∧ c'.localPort = port ∧ c'.state ≠ .synReceived :=
    fun port => ⟨List.nodup_nil, fun _ hid => nomatch hid⟩
  intro port q' hq'
  cases hqueues with
  | still op _ hop haccepts =>
    rw [haccepts] at hq'
    exact hsub port q' q' hq' (List.Sublist.refl _)
  | listened p _ haccepts =>
    rw [haccepts] at hq'
    split_ifs at hq' with hmem
    · exact hsub port q' q' hq' (List.Sublist.refl _)
    · by_cases hp : port = p
      · rw [hp, Finmap.lookup_insert, Option.some.injEq] at hq'
        rw [← hq']
        exact hempty port
      · rw [Finmap.lookup_insert_of_ne _ hp] at hq'
        exact hsub port q' q' hq' (List.Sublist.refl _)
  | closedListener p _ haccepts =>
    rw [haccepts] at hq'
    by_cases hp : port = p
    · rw [hp, Finmap.lookup_erase] at hq'
      cases hq'
    · rw [Finmap.lookup_erase_ne hp] at hq'
      exact hsub port q' q' hq' (List.Sublist.refl _)
  | accepted p =>
    rcases s.accept_cases p with ⟨-, -, hlookup⟩ | ⟨dead, id, rest, hq, -, -, -, haccepts⟩
    · rw [hlookup] at hq'
      obtain ⟨q, hq, rfl⟩ := Option.map_eq_some_iff.1 hq'
      split_ifs
      · exact hempty port
      · exact hsub port q q hq (List.Sublist.refl _)
    · rw [haccepts] at hq'
      by_cases hp : port = p
      · rw [hp, Finmap.lookup_insert, Option.some.injEq] at hq'
        rw [hp, ← hq']
        exact hsub p _ rest hq ((List.sublist_cons_self id rest).trans (List.sublist_append_right dead _))
      · rw [Finmap.lookup_insert_of_ne _ hp] at hq'
        exact hsub port q' q' hq' (List.Sublist.refl _)
  | completed peer bytes nowMs _ id c c' hl hst hl' hst' hport haccepts =>
    rw [haccepts] at hq'
    by_cases hp : port = c'.localPort
    · rw [hp, Finmap.lookup_insert, Option.some.injEq] at hq'
      have hqueue : ((s.accepts.lookup c'.localPort).getD []).Nodup ∧ ∀ i ∈ (s.accepts.lookup c'.localPort).getD [],
          i ≠ id ∧ ∃ x, s'.connections.lookup i = some x ∧ x.localPort = c'.localPort ∧ x.state ≠ .synReceived := by
        cases hq : s.accepts.lookup c'.localPort with
        | none => exact ⟨List.nodup_nil, fun _ hid => nomatch hid⟩
        | some q =>
          refine ⟨(h _ q hq).1, fun i hi => ⟨fun he => ?_, hold _ q hq i hi⟩⟩
          -- what waits is past its handshake, and this one was in it
          obtain ⟨x, hx, -, hxst⟩ := (h _ q hq).2 i hi
          rw [he, hl, Option.some.injEq] at hx
          exact hxst (hx ▸ hst)
      rw [← hq', hp]
      refine ⟨?_, fun i hi => ?_⟩
      · refine List.nodup_append.2 ⟨hqueue.1, List.nodup_singleton id, fun i hi j hj hij => ?_⟩
        rw [List.mem_singleton.1 hj] at hij
        exact (hqueue.2 i hi).1 hij
      · rcases List.mem_append.1 hi with hi | hi
        · exact (hqueue.2 i hi).2
        · rw [List.mem_singleton.1 hi]
          exact ⟨c', hl', rfl, hst'⟩
    · rw [Finmap.lookup_insert_of_ne _ hp] at hq'
      exact hsub port q' q' hq' (List.Sublist.refl _)

/-- **A stale id.** An operation that ends a connection that waits leaves its id in the queue. -/
theorem Loses.stale (h : s.Loses op) (hs : s.AllSound) (hfresh : s.FreshId)
    (hsend : ∀ id c, s.connections.lookup id = some c → ∃ isn acc, c.SendInv s.config.1 isn acc) :
    ∃ port q id, (s.perform op).1.accepts.lookup port = some q ∧ id ∈ q ∧ id ∉ (s.perform op).1.connections := by
  obtain ⟨port, q, id, c, hq, hid, hl, o, hact, hends⟩ := h
  obtain ⟨isn, acc, hinv⟩ := hsend id c hl
  have hgone : (s.perform op).1.connections.lookup id = none := by
    cases perform_entries hs op with
    | create _ _ _ hnone =>
      rw [hnone id (Finmap.mem_of_lookup_eq_some hl)] at hact
      cases hact
    | follow hfollow =>
      rw [hfollow, hl, Option.bind_some, afterOp, hact]
      exact (after_eq_none_iff hinv o).2 hends
  have hqueues := perform_queues hs op fun _ => hfresh
  generalize (s.perform op).1 = s' at hgone hqueues
  refine Exists.intro port ?_
  cases hqueues with
  | still op _ hop haccepts => exact ⟨q, id, by rw [haccepts]; exact hq, hid, Finmap.lookup_eq_none.1 hgone⟩
  | completed peer bytes nowMs _ i x x' hx hxst hx' hxst' hport haccepts =>
    by_cases hp : port = x'.localPort
    · rw [hp] at hq ⊢
      refine ⟨q ++ [i], id, ?_, List.mem_append_left _ hid, Finmap.lookup_eq_none.1 hgone⟩
      rw [haccepts, hq]
      exact Finmap.lookup_insert _
    · exact ⟨q, id, by rw [haccepts, Finmap.lookup_insert_of_ne _ hp]; exact hq, hid, Finmap.lookup_eq_none.1 hgone⟩
  | listened | closedListener | accepted => cases hact

/-- an operation of a run that ends no connection that waits, and that finds the next id unused -/
def KeepsWaiting (s : Stack P) (op : StackOp P) : Prop := s.FreshId ∧ ¬ s.Loses op

/-- no operation makes the table larger than it may be -/
theorem size_step (hs : s.AllSound) (h : s.size ≤ s.config.1.maxConnections) (op : StackOp P) :
    (s.perform op).1.size ≤ (s.perform op).1.config.1.maxConnections := by
  have hchange := (perform_change hs op).1
  change (s.perform op).1.view.connections.keys.card ≤ (s.perform op).1.view.config.1.maxConnections
  change s.view.connections.keys.card ≤ s.view.config.1.maxConnections at h
  generalize s.view = v at h hchange
  generalize (s.perform op).1.view = v' at hchange
  cases hchange with
  | edits hedits =>
    induction hedits with
    | refl => exact h
    | tail _ hedit ih =>
      rw [hedit.config]
      exact (Finset.card_le_card hedit.keys_subset).trans ih
  | create c hroom =>
    simp only [keys_insert]
    exact (Finset.card_insert_le _ _).trans (Nat.succ_le_of_lt hroom.size)

end Stack

/-- **Accept queues are bounded**, in every run that ends no connection that waits to be accepted and reuses no id. -/
theorem backlog_bounded {P : Type} [DecidableEq P] (config : ValidConfig) (isnSeed : BitVec 64) (token : ℕ)
    (ops : List (StackOp P))
    (hkeep : Run.Along (fun s op => (s.perform op).1) Stack.KeepsWaiting (Stack.new config isnSeed token) ops) :
    (Stack.run config isnSeed token ops).waiting ≤ (Stack.run config isnSeed token ops).size ∧
      (Stack.run config isnSeed token ops).size ≤ config.1.maxConnections := by
  have hrun := Run.exec_invariant_along
    (P := fun s : Stack P => s.Genuine config ∧ s.Backlog ∧ s.size ≤ s.config.1.maxConnections)
    (fun s op hguard ⟨hg, hb, hsize⟩ => ?_)
    ⟨Stack.Genuine.new config isnSeed token, (fun port q hq => nomatch hq), Nat.zero_le _⟩ hkeep
  · obtain ⟨hg, hb, hsize⟩ := hrun
    rw [hg.same] at hsize
    exact ⟨hb.waiting_le, hsize⟩
  · have hsend : ∀ id c, s.connections.lookup id = some c → ∃ isn acc, c.SendInv s.config.1 isn acc := fun id c hl => by
      obtain ⟨isn, acc, hinv⟩ := (hg.reachable id c hl).inv config.valid
      rw [hg.same]
      exact ⟨isn, acc, hinv.send⟩
    exact ⟨hg.step op, hb.step hg.sound hguard.1 hsend hguard.2, Stack.size_step hg.sound hsize op⟩

/-- the default configuration with room for one connection -/
def oneConnectionConfig : ValidConfig := ⟨{ Config.default with maxConnections := 1 }, by decide⟩

/-- a SYN 50000 -> 443 of a peer, and the acknowledgement of the answer with the initial sequence number `isn` -/
def handshake (isn : List U8) : List (StackOp ℕ) :=
  [.input 7 [195, 80, 1, 187, 0, 0, 0, 100, 0, 0, 0, 0, 112, 2, 255, 255, 0, 0, 0, 0, 2, 4, 4, 0, 254, 4, 1, 0] 0,
    .input 7 ([195, 80, 1, 187, 0, 0, 0, 101] ++ isn ++ [80, 16, 255, 255, 0, 0, 0, 0]) 0]

/-- the reset of that connection -/
def handshakeReset : StackOp ℕ := .input 7 [195, 80, 1, 187, 0, 0, 0, 101, 0, 0, 0, 0, 80, 4, 255, 255, 0, 0, 0, 0] 0

/-- a handshake, and the call that accepts it -/
theorem backlog_bounded_accept :
    (Stack.run oneConnectionConfig 5 1 (.listen 443 :: handshake [66, 138, 161, 69] ++ [.accept 443])).waiting ≤ 1 := by
  refine (backlog_bounded oneConnectionConfig 5 1 _ ?_).1.trans (by decide)
  have hnone : ∀ (s : Stack ℕ) (op : StackOp ℕ) (q : List ConnectionId), s.accepts.lookup 443 = some q →
      s.accepts.keys = {443} → (q = [] ∨ ∀ id, s.act id op = none) → ¬ s.Loses op := fun s op q hq hkeys hor h => by
    obtain ⟨port, q', id, c, hq', hid, -, o, hact, -⟩ := h
    have hport : port ∈ s.accepts.keys := Finmap.mem_keys.2 (Finmap.mem_of_lookup_eq_some hq')
    rw [hkeys, Finset.mem_singleton] at hport
    rw [hport, hq, Option.some.injEq] at hq'
    rcases hor with rfl | hact'
    · rw [← hq'] at hid
      cases hid
    · rw [hact' id] at hact
      cases hact
  refine ⟨⟨rfl, ?_⟩, ⟨rfl, hnone _ _ [] rfl rfl (Or.inl rfl)⟩, ⟨Option.isNone_iff_eq_none.1 (by decide), hnone _ _ [] rfl rfl (Or.inl rfl)⟩,
    ⟨Option.isNone_iff_eq_none.1 (by decide), hnone _ _ [⟨1⟩] (by decide) (by decide) (Or.inr fun _ => rfl)⟩, trivial⟩
  rintro ⟨port, q, -, -, hq, -⟩
  cases hq

/-- **Stale ids.** With room for one connection, two handshakes that are reset afterwards leave two ids in the queue. -/
theorem backlog_grows :
    let s := Stack.run oneConnectionConfig 5 1 (.listen 443 :: (handshake [66, 138, 161, 69] ++ handshakeReset ::
      (handshake [108, 0, 0, 90] ++ [handshakeReset])))
    s.waiting = 2 ∧ s.size = 0 ∧ s.config.1.maxConnections = 1 := by
  intro s
  exact ⟨by decide, by decide, rfl⟩

end FipsTcp
