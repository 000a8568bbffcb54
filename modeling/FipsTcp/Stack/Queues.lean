/-
The queues that `accept` reads, operation by operation.

A server connection leaves SYN-RECEIVED only by a segment, and the update says so exactly then (`onSegment_accepted`); so the
operation that completes a handshake is the one that queues the connection. `Queues` lists what an operation can do to the
queues, and `perform_queues` says that the list is complete. Entries of removed connections stay in a queue until `accept`
drops them (`popAccepted_cases`).
-/
import FipsTcp.Stack.Entries
import FipsTcp.Stack.Table
import FipsTcp.Connection.Lifecycle

namespace FipsTcp

open Table Connection

/-! ## The end of a handshake -/

namespace Connection

variable {P : Type} {config : Config} {nowMs : ℕ} {segment : Segment} {c c' : Connection P} {out : List Segment} {o : SocketOp}

/-- without a segment, a connection stays in SYN-RECEIVED -/
theorem Move.synReceived (h : Move config nowMs none c out c') (hst : c.state = .synReceived) : c'.state = .synReceived := by
  have hsending : ¬ c.Sending := by rintro (h | h) <;> rw [hst] at h <;> cases h
  cases h with
  | establishClient _ hin | establishServer _ hin | window _ hin | advanceAck _ _ _ hin | receive _ hin | reset _ hin => cases hin
  | timers => exact hst
  | retransmit timeout => exact (c.retransmitOldest_frame nowMs timeout).2.2.2.1.trans hst
  | sendData _ h | sendFin h | requestClose h => exact absurd h hsending
  | probe =>
    rcases c.zeroWindowProbe_cases nowMs with ⟨x, -, -, h⟩ | ⟨-, ⟨-, h⟩ | ⟨-, h⟩⟩ <;> rw [h] <;> exact hst
  | ack => exact hst

theorem Moves.synReceived (h : Moves config nowMs none c out c') (hst : c.state = .synReceived) : c'.state = .synReceived :=
  h.preserves (Q := fun c => c.state = .synReceived) (fun h hc => h.synReceived hc) hst

theorem after_later (hm : 0 < c.mss) (h : c.after config o = some c') : Later config o.time o.segment c c' := by
  have heq := after_eq config ⟨c, true, [], [], [], false⟩ rfl o
  rw [h] at heq
  split_ifs at heq with hret
  have hlater := Socket.step_later hm o hret
  rw [← Option.some.inj heq] at hlater
  exact hlater

theorem after_stable (hm : 0 < c.mss) (h : c.after config o = some c') : c'.stable = c.stable := by
  cases o with
  | input segment t =>
    simp only [Connection.after] at h
    split_ifs at h with hopen
    cases h
    exact ((input_moves config t segment hm).1 (by simpa using hopen)).stable_eq
  | write bytes t =>
    simp only [Connection.after] at h
    rcases hw : c.write bytes t config with e | ⟨c1, count, out⟩
    · rw [hw] at h
      cases h
      rfl
    · rw [hw] at h
      cases h
      obtain ⟨-, -, -, -, hmoves⟩ := write_moves config t hm hw
      exact hmoves.stable_eq
  | read max =>
    cases h
    rfl
  | close t =>
    simp only [Connection.after] at h
    split_ifs at h
    cases h
    exact (close_moves config t hm).1.stable_eq
  | abort => cases h
  | poll t =>
    simp only [Connection.after] at h
    split_ifs at h
    cases h
    exact (poll_moves config t hm).1.stable_eq

/-- no operation brings a connection to SYN-RECEIVED -/
theorem after_synReceived (hm : 0 < c.mss) (h : c.after config o = some c') (hst : c'.state = .synReceived) :
    c.state = .synReceived := by
  rcases (after_later hm h).state with heq | hlt
  · exact heq ▸ hst
  · rw [hst] at hlt
    exact absurd hlt (Nat.not_lt_zero _)

/-- and only a segment takes it away from there -/
theorem after_still (hm : 0 < c.mss) (h : c.after config o = some c') (ho : o.segment = none) (hst : c.state = .synReceived) :
    c'.state = .synReceived := by
  cases o with
  | input => cases ho
  | write bytes t =>
    have hw : c.write bytes t config = .error (.invalidState c.state) := if_pos (.inl (by rw [hst]; decide))
    simp only [Connection.after, hw] at h
    cases h
    exact hst
  | read max =>
    cases h
    exact hst
  | close t =>
    have hclose : (c.close t).2.closed = true := by
      unfold Connection.close
      rw [hst]
      rfl
    simp only [Connection.after, hclose, if_true] at h
    cases h
  | abort => cases h
  | poll t =>
    simp only [Connection.after] at h
    split_ifs at h
    cases h
    exact (poll_moves config t hm).1.synReceived hst

/-- the update says that a handshake was completed exactly when the connection leaves SYN-RECEIVED -/
theorem onSegment_accepted (hm : 0 < c.mss) (hopen : (c.onSegment segment nowMs config).2.closed = false) :
    (c.onSegment segment nowMs config).2.accepted = true ↔
      c.state = .synReceived ∧ (c.onSegment segment nowMs config).1.state ≠ .synReceived := by
  have hno : ∀ {accepted : Bool} {s : State}, accepted = false → ¬ (c.state = .synReceived ∧ s ≠ .synReceived) →
      (accepted = true ↔ c.state = .synReceived ∧ s ≠ .synReceived) := fun h h' => by simp [h, h']
  unfold onSegment at hopen ⊢
  split_ifs at hopen ⊢ with hrst
  · exact hno (Stack.onReset_accepted segment) fun h => h.2 h.1
  split at hopen
  · rename_i hst
    refine hno ?_ fun h => by rw [hst] at h; cases h.1
    unfold onSynSent
    split_ifs <;> rfl
  · rename_i hst
    unfold onSynReceived
    split_ifs with h1 h2
    · exact hno rfl fun h => h.2 ((c.retransmitOldest_frame nowMs false).2.2.2.1.trans hst)
    · exact hno rfl fun h => h.2 hst
    · -- the connection is established, and stays past the handshake
      refine iff_of_true rfl ⟨hst, fun h => ?_⟩
      have hest : (c.establishServer segment nowMs).state = .established := (c.establishServer_frame segment nowMs).2.2.2
      have hsync : (c.establishServer segment nowMs).Synchronized := by simp [Synchronized, hest]
      have hmoves := receive_flush_moves config nowMs (some segment) rfl (by simpa using hrst) hsync
        (by rw [(c.establishServer_frame segment nowMs).2.2.1]; exact hm)
      have hrank := hmoves.later.rank_le
      rw [hest] at hrank
      simp only at h
      rw [h] at hrank
      exact absurd hrank (by decide)
  · rename_i _ hst
    refine hno ?_ fun h => hst h.1
    unfold onSynchronized
    simp only
    split_ifs <;> rfl

end Connection

/-! ## The queues -/

namespace Stack

variable {P : Type} [DecidableEq P] {s s' : Stack P} {id : ConnectionId} {c c' : Connection P} {port : U16}
  {q : List ConnectionId}

/-- `accept` drops the entries of removed connections up to the first that is retained, and returns that one -/
theorem popAccepted_cases (s : Stack P) (q : List ConnectionId) :
    (∀ id ∈ q, id ∉ s.connections) ∧ s.popAccepted q = ([], none) ∨
      ∃ dead id rest, q = dead ++ id :: rest ∧ (∀ i ∈ dead, i ∉ s.connections) ∧ id ∈ s.connections ∧
        s.popAccepted q = (rest, some id) := by
  induction q with
  | nil => exact .inl ⟨(fun _ h => nomatch h), rfl⟩
  | cons id q ih =>
    unfold popAccepted
    split_ifs with hid
    · exact .inr ⟨[], id, q, rfl, (fun _ h => nomatch h), hid, rfl⟩
    · rcases ih with ⟨hall, h⟩ | ⟨dead, i, rest, rfl, hdead, hi, h⟩
      · exact .inl ⟨fun i hi => (List.mem_cons.1 hi).elim (fun he => he ▸ hid) (hall i), h⟩
      · exact .inr ⟨id :: dead, i, rest, rfl, fun j hj => (List.mem_cons.1 hj).elim (fun he => he ▸ hid) (hdead j), hi, h⟩

/-- what `accept` does to a stack: it shortens one queue -/
theorem accept_cases (s : Stack P) (port : U16) :
    (s.accept port).2 = none ∧ (∀ q, s.accepts.lookup port = some q → ∀ id ∈ q, id ∉ s.connections) ∧
        (∀ i, (s.accept port).1.accepts.lookup i = (s.accepts.lookup i).map fun q => if i = port then [] else q) ∨
      ∃ dead id rest, s.accepts.lookup port = some (dead ++ id :: rest) ∧ (∀ i ∈ dead, i ∉ s.connections) ∧
        id ∈ s.connections ∧ (s.accept port).2 = some id ∧
        (s.accept port).1.accepts = s.accepts.insert port rest := by
  unfold accept
  cases hq : s.accepts.lookup port with
  | none =>
    refine .inl ⟨rfl, (fun _ h => nomatch h), fun i => ?_⟩
    by_cases hi : i = port
    · rw [hi, hq]; rfl
    · simp [hi]
  | some q =>
    simp only
    rcases s.popAccepted_cases q with ⟨hall, h⟩ | ⟨dead, id, rest, rfl, hdead, hid, h⟩
    · refine .inl ⟨by rw [h], fun _ h => by cases h; exact hall, fun i => ?_⟩
      rw [h]
      by_cases hi : i = port
      · rw [hi, hq]; simp
      · simp [hi, Finmap.lookup_insert_of_ne]
    · exact .inr ⟨dead, id, rest, rfl, hdead, hid, by rw [h], by rw [h]⟩

theorem accept_table (s : Stack P) (port : U16) : (s.accept port).1.connections = s.connections := by
  unfold accept
  cases s.accepts.lookup port <;> rfl

/-- every retained connection in a queue is reached by calling `accept` often enough -/
theorem accept_reaches (hq : s.accepts.lookup port = some q) (hin : id ∈ q) (hid : id ∈ s.connections) :
    ∃ n, (((fun s : Stack P => (s.accept port).1)^[n] s).accept port).2 = some id := by
  -- each call shortens the queue
  induction hlen : q.length using Nat.strong_induction_on generalizing s q with
  | _ n ih =>
    rcases s.accept_cases port with ⟨-, hdead, -⟩ | ⟨dead, i, rest, hq', hdead, -, hsome, haccepts⟩
    · exact absurd hid (hdead q hq id hin)
    · rw [hq', Option.some.injEq] at hq
      subst hq
      rcases List.mem_append.1 hin with hmem | hmem
      · exact absurd hid (hdead id hmem)
      · rcases List.mem_cons.1 hmem with rfl | hmem
        · exact ⟨0, hsome⟩
        · have hshort : rest.length < n := by
            rw [← hlen, List.length_append, List.length_cons]
            omega
          obtain ⟨m, hm⟩ := ih rest.length hshort (by rw [haccepts]; exact Finmap.lookup_insert _) hmem
            (by rw [s.accept_table port]; exact hid) rfl
          exact ⟨m + 1, hm⟩

/-- the handshake of a server connection ends and the connection is still there -/
def Completes (s s' : Stack P) (id : ConnectionId) : Prop :=
  s.state id = some .synReceived ∧ s'.state id ≠ some .synReceived ∧ id ∈ s'.connections

/-- what an operation does to the queues, and whose handshake it completes -/
inductive Queues (s : Stack P) : StackOp P → Stack P → Prop
  | still (op : StackOp P) (s' : Stack P) (hop : ∀ port, op ≠ .accept port ∧ op ≠ .closeListener port)
      (h : s'.accepts = s.accepts) (hnone : ∀ id, ¬ s.Completes s' id) : Queues s op s'
  | listened (port : U16) (s' : Stack P) (h : s'.accepts = if port ∈ s.accepts then s.accepts else s.accepts.insert port [])
      (hconn : s'.connections = s.connections) : Queues s (.listen port) s'
  | closedListener (port : U16) (s' : Stack P) (h : s'.accepts = s.accepts.erase port) (hconn : s'.connections = s.connections) :
      Queues s (.closeListener port) s'
  | accepted (port : U16) : Queues s (.accept port) (s.accept port).1
  | completed (peer : P) (bytes : List U8) (nowMs : ℕ) (s' : Stack P) (id : ConnectionId) (c c' : Connection P)
      (hl : s.connections.lookup id = some c) (hst : c.state = .synReceived) (hl' : s'.connections.lookup id = some c')
      (hst' : c'.state ≠ .synReceived) (hport : c'.localPort = c.localPort)
      (h : s'.accepts = s.accepts.insert c'.localPort ((s.accepts.lookup c'.localPort).getD [] ++ [id]))
      (hother : ∀ i, s.Completes s' i → i = id) : Queues s (.input peer bytes nowMs) s'

/-! ## Every operation -/

/-- where the connections are the same, no handshake ends -/
theorem not_completes_of_same (h : s'.connections.lookup id = s.connections.lookup id) : ¬ s.Completes s' id := by
  rintro ⟨h1, h2, -⟩
  rw [state, h] at h2
  exact h2 h1

theorem act_segment {op : StackOp P} {o : SocketOp} (h : s.act id op = some o) (hop : ∀ peer bytes t, op ≠ .input peer bytes t) :
    o.segment = none := by
  cases op with
  | input peer bytes t => exact absurd rfl (hop peer bytes t)
  | poll | write | close | read | abort | abortPeer =>
    simp only [act] at h
    split_ifs at h
    cases h
    rfl
  | listen | closeListener | accept | connect | connectFromWithIsn | setConnectionReservation | drainOutbound => cases h

/-- a new connection under an unused id ends no handshake -/
theorem not_completes_of_create (hfresh : s.FreshId) {x : Connection P} (h : s'.connections = s.connections.insert s.nextId x) :
    ¬ s.Completes s' id := by
  by_cases hid : id = s.nextId
  · rintro ⟨h1, -⟩
    rw [state, hid, hfresh] at h1
    cases h1
  · exact not_completes_of_same (by rw [h, Finmap.lookup_insert_of_ne _ hid])

/-- making a connection leaves the queues alone -/
theorem queues_create {op : StackOp P} (hop : ∀ port, op ≠ .accept port ∧ op ≠ .closeListener port) (s1 : Stack P)
    (x : Connection P) (out : List Segment) (hid : s1.nextId = s.nextId) (hconn : s1.connections = s.connections)
    (haccepts : s1.accepts = s.accepts) (htoken : s1.nextConnectionToken = s.nextConnectionToken)
    (hfresh : (s1.create x out).nextConnectionToken ≠ s.nextConnectionToken → s.FreshId) : Queues s op (s1.create x out) := by
  have hinsert : (s1.create x out).connections = s.connections.insert s.nextId x := by
    rw [← hconn, ← hid]
    rfl
  have hne : (s1.create x out).nextConnectionToken ≠ s.nextConnectionToken := by
    rw [← htoken]
    exact Nat.succ_ne_self s1.nextConnectionToken
  exact .still op _ hop haccepts fun _ => not_completes_of_create (hfresh hne) hinsert

/-- without a segment no handshake ends -/
theorem not_completes (hs : s.AllSound) (hfresh : s'.nextConnectionToken ≠ s.nextConnectionToken → s.FreshId) {op : StackOp P}
    (h : Entries s op s') (hop : ∀ peer bytes t, op ≠ .input peer bytes t) : ¬ s.Completes s' id := by
  cases h with
  | create o ht h hact htoken => exact not_completes_of_create (hfresh (by omega)) h
  | follow h =>
    rintro ⟨h1, h2, h3⟩
    obtain ⟨c, hl, hst⟩ := Option.map_eq_some_iff.1 h1
    obtain ⟨c', hl'⟩ := Finmap.mem_iff.1 h3
    have hafter := h id
    rw [hl, hl', Option.bind_some] at hafter
    suffices hst' : c'.state = .synReceived from h2 (by rw [state, hl', Option.map_some, hst'])
    unfold afterOp at hafter
    cases hact : s.act id op with
    | none =>
      rw [hact] at hafter
      cases hafter
      exact hst
    | some o =>
      rw [hact] at hafter
      exact after_still (hs id c hl).mss hafter.symm (act_segment hact hop) hst

theorem abortAll_accepts (hs : s.AllSound) (ids : List ConnectionId) : (abortAll ids s).1.accepts = s.accepts := by
  induction ids generalizing s with
  | nil => rfl
  | cons id ids ih =>
    unfold abortAll
    cases hl : s.connections.lookup id with
    | none => unfold abort; simp only [hl]
    | some c =>
      rw [abort_eq hl (hs id c hl)]
      exact ih (hs.aborted id c)

/-- a segment that reaches its connection -/
theorem onRetained_queues (hs : s.AllSound) (hl : s.connections.lookup id = some c) (peer : P) (bytes : List U8)
    {segment : Segment} (nowMs : ℕ)
    (hkey : (c.onSegment segment nowMs s.config.1).2.closed = false → (c.onSegment segment nowMs s.config.1).1.key = c.key) :
    Queues s (.input peer bytes nowMs) (s.onRetained id c segment nowMs) := by
  have hother : ∀ i ≠ id, (s.onRetained id c segment nowMs).connections.lookup i = s.connections.lookup i := fun i hi => by
    unfold onRetained
    simp only
    split_ifs
    · exact Finmap.lookup_erase_ne hi
    · exact Finmap.lookup_insert_of_ne _ hi
    · exact Finmap.lookup_insert_of_ne _ hi
  have hiff : (c.onSegment segment nowMs s.config.1).2.closed = false → ((c.onSegment segment nowMs s.config.1).2.accepted = true ↔
      c.state = .synReceived ∧ (c.onSegment segment nowMs s.config.1).1.state ≠ .synReceived) :=
    onSegment_accepted (hs id c hl).mss
  unfold onRetained at hother ⊢
  simp only at hother ⊢
  generalize c.onSegment segment nowMs s.config.1 = result at hother hkey hiff ⊢
  cases hclosed : result.2.closed with
  | true =>
    simp only [hclosed, if_true] at hother ⊢
    refine .still _ _ (fun _ => ⟨by rintro ⟨⟩, by rintro ⟨⟩⟩) rfl fun i hi => ?_
    by_cases hid : i = id
    · rw [hid] at hi
      exact (Finmap.mem_erase.1 hi.2.2).1 rfl
    · exact not_completes_of_same (hother i hid) hi
  | false =>
    have hiff := hiff hclosed
    cases haccepted : result.2.accepted with
    | true =>
      obtain ⟨hst, hst'⟩ := hiff.1 haccepted
      simp only [hclosed, haccepted, Bool.false_eq_true, if_false, if_true] at hother ⊢
      refine .completed peer bytes nowMs _ id c result.1 hl hst (Finmap.lookup_insert _) hst'
        (congrArg ConnectionKey.localPort (hkey hclosed)) rfl fun i hi => ?_
      exact by_contra fun hid => not_completes_of_same (hother i hid) hi
    | false =>
      simp only [hclosed, haccepted, Bool.false_eq_true, if_false] at hother ⊢
      refine .still _ _ (fun _ => ⟨by rintro ⟨⟩, by rintro ⟨⟩⟩) rfl fun i hi => ?_
      by_cases hid : i = id
      · -- the connection stays where it was, or it was not in its handshake
        obtain ⟨h1, h2, -⟩ := hi
        rw [hid] at h1 h2
        have hl' : (s.put id result.1 result.2.segments).connections.lookup id = some result.1 := Finmap.lookup_insert _
        rw [state, hl, Option.map_some, Option.some.injEq] at h1
        rw [state, hl', Option.map_some, ne_eq, Option.some.injEq] at h2
        rw [hiff.2 ⟨h1, h2⟩] at haccepted
        cases haccepted
      · exact not_completes_of_same (hother i hid) hi

/-- **The list is complete.** -/
theorem perform_queues (hs : s.AllSound) (op : StackOp P)
    (hfresh : (s.perform op).1.nextConnectionToken ≠ s.nextConnectionToken → s.FreshId) : Queues s op (s.perform op).1 := by
  by_cases haccept : ∃ port, op = .accept port
  · obtain ⟨port, rfl⟩ := haccept
    exact .accepted port
  by_cases hclose : ∃ port, op = .closeListener port
  · obtain ⟨port, rfl⟩ := hclose
    exact .closedListener port _ rfl rfl
  have hop : ∀ port, op ≠ .accept port ∧ op ≠ .closeListener port :=
    fun port => ⟨fun h => haccept ⟨port, h⟩, fun h => hclose ⟨port, h⟩⟩
  have hentries := perform_entries hs op
  have hcall := perform_call hs op
  generalize (s.perform op).1 = s' at hentries hcall hfresh ⊢
  generalize (s.perform op).2 = result at hcall
  -- an operation without a segment
  have hstill : (∀ peer bytes t, op ≠ .input peer bytes t) → s'.accepts = s.accepts → Queues s op s' :=
    fun hin h => .still op s' hop h fun _ => not_completes hs hfresh hentries hin
  -- an operation that leaves the connections as they are
  have hsame : s'.connections = s.connections → s'.accepts = s.accepts → Queues s op s' :=
    fun hc h => .still op s' hop h fun _ => not_completes_of_same (by rw [hc])
  cases hcall with
  | listened port => exact .listened port _ rfl rfl
  | closedListener port => exact absurd ⟨port, rfl⟩ hclose
  | accepted port => exact absurd ⟨port, rfl⟩ haccept
  | refused | connectRefused | malformed | stale | ignored | rejected | reset | challenged => exact hsame rfl rfl
  | opened peer bytes nowMs segment hdec hkey hopen hver hcap =>
    exact queues_create hop s.nextIsn.1 _ _ rfl rfl rfl rfl hfresh
  | connected op peer localPort remotePort isn nowMs port cursor h =>
    exact queues_create hop (s.moveCursors port cursor) _ _ rfl rfl rfl rfl hfresh
  | handled peer bytes nowMs segment id c hdec hkey hl h h' =>
    have hkept := ((hs id c hl).input s.config.valid (Segment.decode_ports hdec) nowMs).1
    rw [Connection.input, h, h'] at hkept
    exact onRetained_queues hs hl peer bytes nowMs fun hopen => key_of_stable (hkept hopen).key
  | wrote | read | aborted | unpolled | unabortedPeer | reserved | drained => exact hstill (by rintro _ _ _ ⟨⟩) rfl
  | closed id nowMs c hl => exact hstill (by rintro _ _ _ ⟨⟩) (by split_ifs <;> rfl)
  | abortedPeer peer ids => exact hstill (by rintro _ _ _ ⟨⟩) (abortAll_accepts hs ids)
  | polled ids nowMs =>
    obtain ⟨connections, lookup, outbound, h⟩ := poll_frame ids nowMs s
    exact hstill (by rintro _ _ _ ⟨⟩) (by rw [h])

/-- where a connection comes from: it was there, or it was made under the next id -/
theorem perform_carries (hs : s.AllSound) (op : StackOp P) (hl' : (s.perform op).1.connections.lookup id = some c') :
    (∃ c, s.connections.lookup id = some c ∧ c'.key = c.key ∧ (c'.state = .synReceived → c.state = .synReceived)) ∨
      id = s.nextId ∧ (s.perform op).1.nextConnectionToken = s.nextConnectionToken + 1 := by
  cases perform_entries hs op with
  | follow h htoken =>
    rw [h] at hl'
    obtain ⟨c, hl, hafter⟩ := Option.bind_eq_some_iff.1 hl'
    refine .inl ⟨c, hl, ?_⟩
    unfold afterOp at hafter
    cases hact : s.act id op with
    | none =>
      rw [hact] at hafter
      cases hafter
      exact ⟨rfl, fun h => h⟩
    | some o =>
      rw [hact] at hafter
      exact ⟨key_of_stable (after_stable (hs id c hl).mss hafter), after_synReceived (hs id c hl).mss hafter⟩
  | create o ht h hact htoken =>
    by_cases hid : id = s.nextId
    · exact .inr ⟨hid, htoken⟩
    · rw [h, Finmap.lookup_insert_of_ne _ hid] at hl'
      exact .inl ⟨c', hl', rfl, fun h => h⟩

/-- how a connection is made: by a segment in SYN-RECEIVED, by a call in SYN-SENT -/
theorem perform_made (hs : s.AllSound) (op : StackOp P)
    (hmade : (s.perform op).1.nextConnectionToken ≠ s.nextConnectionToken) :
    (∃ peer bytes t, op = .input peer bytes t) ∧ (s.perform op).1.state s.nextId = some .synReceived ∨
      (∀ peer bytes t, op ≠ .input peer bytes t) ∧ (s.perform op).1.state s.nextId = some .synSent := by
  have hcall := perform_call hs op
  generalize (s.perform op).1 = s' at hcall hmade ⊢
  generalize (s.perform op).2 = result at hcall
  cases hcall with
  | opened peer bytes nowMs segment =>
    obtain ⟨-, -, -, hst⟩ := (Connection.new peer segment.dstPort segment.srcPort .synReceived s.nextIsn.2 (segment.seq + 1)
      s.config.1 s.nextConnectionToken).updateRemoteWindow_frame segment.window nowMs
    have hl : (s.nextIsn.1.create (Connection.server peer segment s.nextIsn.2 nowMs s.config.1 s.nextConnectionToken).1
        (Connection.server peer segment s.nextIsn.2 nowMs s.config.1 s.nextConnectionToken).2).connections.lookup s.nextId =
        some (Connection.server peer segment s.nextIsn.2 nowMs s.config.1 s.nextConnectionToken).1 := Finmap.lookup_insert _
    refine .inl ⟨⟨peer, bytes, nowMs, rfl⟩, ?_⟩
    rw [state, hl]
    exact congrArg some hst
  | connected op peer localPort remotePort isn nowMs port cursor hop =>
    refine .inr ⟨by rcases hop with rfl | rfl <;> rintro _ _ _ ⟨⟩, ?_⟩
    have hl : ((s.moveCursors port cursor).create
        (Connection.client peer localPort remotePort isn nowMs s.config.1 s.nextConnectionToken).1
        (Connection.client peer localPort remotePort isn nowMs s.config.1 s.nextConnectionToken).2).connections.lookup s.nextId =
        some (Connection.client peer localPort remotePort isn nowMs s.config.1 s.nextConnectionToken).1 := Finmap.lookup_insert _
    rw [state, hl]
    rfl
  | accepted port =>
    refine absurd ?_ hmade
    unfold accept
    cases s.accepts.lookup port <;> rfl
  | handled =>
    refine absurd ?_ hmade
    unfold onRetained
    simp only
    split_ifs <;> rfl
  | closed => exact absurd (by split_ifs <;> rfl) hmade
  | polled ids => exact absurd (poll_token ids s) hmade
  | abortedPeer peer ids hids =>
    have hmem : ∀ id ∈ ids, id ∈ s.connections := fun id hid => by
      have h : id ∈ s.peerConnections peer := by rw [← hids.2]; exact List.mem_toFinset.2 hid
      exact Finmap.mem_keys.1 (Finset.mem_filter.1 h).1
    exact absurd (abortAll_lookup hs hids.1 hmem ⟨0⟩).2 hmade
  | refused | connectRefused | listened | closedListener | malformed | stale | ignored | rejected | reset | challenged
  | wrote | read | aborted | unpolled | unabortedPeer | reserved | drained => exact absurd rfl hmade

end Stack

end FipsTcp
