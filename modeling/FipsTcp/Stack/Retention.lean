/-
How long a closing connection is kept.

FIN-WAIT-2 and TIME-WAIT are entered once, by a segment, and with a deadline; until the state is left nothing that the peer
sends and nothing that the application does moves the deadline (`Socket.retention`, from `Connection.Later`). A poll at or
after the deadline removes the connection and its tuple (`Stack.poll_closes`).
- `closing_retention`: both, for every run.
-/
import FipsTcp.Connection.States
import FipsTcp.Stack.Entries

namespace FipsTcp

open Table Connection

/-! ## Entering and staying -/

namespace Socket

variable {P : Type} {config : Config} {s : Socket P} {st : State}

/-- the operation makes a connection enter a state -/
def Enters (config : Config) (s : Socket P) (op : SocketOp) (st : State) : Prop :=
  s.conn.state ≠ st ∧ (s.step config op).retained = true ∧ (s.step config op).conn.state = st

/-- what moving forward preserves holds of a connection as long as it is retained -/
theorem later_run {isn : U32} {X : Connection P → Prop}
    (hX : ∀ {nowMs inp c c'}, Later config nowMs inp c c' → X c → X c')
    (hs : s.retained = true → s.conn.SendInv config isn s.accepted ∧ X s.conn) (ops : List SocketOp)
    (hr : (Run.exec (step config) s ops).retained = true) :
    (Run.exec (step config) s ops).conn.SendInv config isn (Run.exec (step config) s ops).accepted ∧
      X (Run.exec (step config) s ops).conn := by
  refine Run.exec_invariant (P := fun s : Socket P => s.retained = true → s.conn.SendInv config isn s.accepted ∧ X s.conn)
    (fun s op hs hr => ⟨?_, ?_⟩) hs ops hr
  · exact step_invariant (Q := fun acc c => c.SendInv config isn acc) (fun h => h.mss) (fun h hq => h.sendInv hq)
      (fun hq hst hroom => hq.accept hst hroom) (fun _ hq => ⟨hq.sender, hq.window, hq.mss, hq.buffer⟩) (fun h => (hs h).1) op hr
  · have hret := retained_before hr
    exact hX (step_later (hs hret).1.mss op hr) (hs hret).2

/-- what holds of a connection that is in FIN-WAIT-2, or was -/
def PastFinWait2 (deadline : ℕ) (c : Connection P) : Prop :=
  State.finWait2.rank ≤ c.state.rank ∧ (c.state = .finWait2 → c.finWait2UntilMs = some deadline)

theorem PastFinWait2.later {deadline nowMs : ℕ} {inp : Option Segment} {c c' : Connection P}
    (h : Later config nowMs inp c c') (hc : PastFinWait2 deadline c) : PastFinWait2 deadline c' := by
  refine ⟨hc.1.trans h.rank_le, fun hs => ?_⟩
  rcases h.finWait2 hs with ⟨h1, h2⟩ | ⟨h1, -, -⟩
  · rw [h2]; exact hc.2 h1
  · -- it was left before, and cannot be entered again
    rcases h.state with h2 | h2
    · exact absurd (h2.symm.trans hs) h1
    · rw [hs] at h2
      exact absurd hc.1 (Nat.not_le.2 h2)

theorem timeWait_later {deadline nowMs : ℕ} {inp : Option Segment} {c c' : Connection P} (h : Later config nowMs inp c c')
    (hc : c.state = .timeWait ∧ c.timeWaitUntilMs = some deadline) :
    c'.state = .timeWait ∧ c'.timeWaitUntilMs = some deadline := by
  have hs : c'.state = .timeWait := by
    rcases h.state with h | h
    · exact h.trans hc.1
    · rw [hc.1] at h
      cases hs : c'.state <;> rw [hs] at h <;> simp [State.rank] at h
  refine ⟨hs, ?_⟩
  rcases h.timeWait hs with ⟨-, h2⟩ | ⟨h1, -, -⟩
  · exact h2.trans hc.2
  · exact absurd hc.1 h1

/-- a `u64` sum that saturates -/
theorem satAdd_eq (a b : ℕ) : satAdd a b = min (a + b) (2 ^ 64 - 1) := rfl

/-- how long the connection of a socket stays in the two states -/
structure Retention (config : Config) (s : Socket P) : Prop where
  /-- only a segment of the peer leads there -/
  byPeer : ∀ op, Enters config s op .finWait2 ∨ Enters config s op .timeWait → ∃ segment nowMs, op = .input segment nowMs
  /-- the deadline of FIN-WAIT-2 is set on entry, and stays until the state is left -/
  finWait2 : ∀ op more, Enters config s op .finWait2 →
    let later := Run.exec (step config) (s.step config op) more
    later.retained = true → later.conn.state = .finWait2 →
      later.conn.finWait2UntilMs = some (min (op.time + config.finWait2Ms) (2 ^ 64 - 1))
  /-- TIME-WAIT is never left for another state, and the deadline set on entry stays -/
  timeWait : ∀ op more, Enters config s op .timeWait →
    let later := Run.exec (step config) (s.step config op) more
    later.retained = true → later.conn.state = .timeWait ∧
      later.conn.timeWaitUntilMs = some (min (op.time + config.timeWaitMs) (2 ^ 64 - 1))
  /-- each state is entered at most once -/
  once : ∀ op more op' st, Enters config s op st → ¬ Enters config (Run.exec (step config) (s.step config op) more) op' st

theorem retention {isn : U32} (hs : s.retained = true → s.conn.SendInv config isn s.accepted) : Retention config s := by
  -- a socket that enters a state is retained, before and after
  have hret : ∀ {s : Socket P} {op st}, Enters config s op st → s.retained = true := fun h => retained_before h.2.1
  have hlater : ∀ {op st}, Enters config s op st → Later config op.time op.segment s.conn (s.step config op).conn := fun h =>
    step_later (hs (hret h)).mss _ h.2.1
  have hsend : ∀ op, (s.step config op).retained = true → (s.step config op).conn.SendInv config isn (s.step config op).accepted :=
    fun op hr => step_invariant (Q := fun acc c => c.SendInv config isn acc) (fun h => h.mss) (fun h hq => h.sendInv hq)
      (fun hq hst hroom => hq.accept hst hroom) (fun _ hq => ⟨hq.sender, hq.window, hq.mss, hq.buffer⟩) hs op hr
  have hsegment : ∀ op : SocketOp, op.segment ≠ none → ∃ segment nowMs, op = .input segment nowMs := fun op h => by
    cases op with
    | input segment nowMs => exact ⟨segment, nowMs, rfl⟩
    | write | read | close | abort | poll => exact absurd rfl h
  have hfin : ∀ {op}, Enters config s op .finWait2 → op.segment ≠ none ∧
      PastFinWait2 (satAdd op.time config.finWait2Ms) (s.step config op).conn := fun {op} h => by
    rcases (hlater h).finWait2 h.2.2 with ⟨h1, -⟩ | ⟨-, hin, hd⟩
    · exact absurd h1 h.1
    · exact ⟨hin, by rw [h.2.2], fun _ => hd⟩
  have htime : ∀ {op}, Enters config s op .timeWait → op.segment ≠ none ∧
      (s.step config op).conn.timeWaitUntilMs = some (satAdd op.time config.timeWaitMs) := fun {op} h => by
    rcases (hlater h).timeWait h.2.2 with ⟨h1, -⟩ | ⟨-, hin, hd⟩
    · exact absurd h1 h.1
    · exact ⟨hin, hd⟩
  refine ⟨fun op h => ?_, fun op more h => ?_, fun op more h => ?_, fun op more op' st h h' => ?_⟩
  · rcases h with h | h
    · exact hsegment op (hfin h).1
    · exact hsegment op (htime h).1
  · intro later hr hst
    rw [← satAdd_eq]
    exact (later_run PastFinWait2.later (fun hr => ⟨hsend op hr, (hfin h).2⟩) more hr).2.2 hst
  · intro later hr
    rw [← satAdd_eq]
    exact (later_run timeWait_later (fun hr => ⟨hsend op hr, h.2.2, (htime h).2⟩) more hr).2
  · -- the connection is at least as far as the state, so it cannot move on to it
    obtain ⟨hinv, hrank⟩ := later_run (X := fun c => st.rank ≤ c.state.rank) (fun hl hc => hc.trans hl.rank_le)
      (fun hr => ⟨hsend op hr, by rw [h.2.2]⟩) more (hret h')
    obtain ⟨hne, hr', hst⟩ := h'
    rcases (step_later hinv.mss op' hr').state with hs | hs
    · exact hne (hs.symm.trans hst)
    · rw [hst] at hs
      exact absurd hrank (Nat.not_le.2 hs)

end Socket

/-! ## The poll at the deadline -/

namespace Connection

variable {P : Type} {config : Config} {c : Connection P} {t deadline : ℕ}

/-- the connection waits for a deadline after which it is removed -/
def ClosesAt (c : Connection P) (deadline : ℕ) : Prop :=
  c.state = .finWait2 ∧ c.finWait2UntilMs = some deadline ∨ c.state = .timeWait ∧ c.timeWaitUntilMs = some deadline

theorem poll_closeDeadline (config : Config) (h : c.ClosesAt deadline) (ht : deadline ≤ t) : c.poll t config = (c, .close []) := by
  have hd : c.closeDeadline = some deadline := by
    rcases h with ⟨hst, h⟩ | ⟨hst, h⟩ <;> simp [closeDeadline, hst, h]
  unfold poll
  rw [if_pos (by simp [hd, ht])]

end Connection

namespace Stack

variable {P : Type} [DecidableEq P] {s : Stack P} {id : ConnectionId} {c : Connection P} {key : ConnectionKey P} {t : ℕ}

theorem emit_lookup (s : Stack P) (id : ConnectionId) (segments : List Segment) : (s.emit id segments).1.lookup = s.lookup := by
  obtain ⟨out, h⟩ := s.emit_frame id segments
  rw [h]

/-- a poll enters no tuple -/
theorem pollOne_absent (t : ℕ) (id : ConnectionId) (h : key ∉ s.lookup) : key ∉ (pollOne t s id).lookup := by
  unfold pollOne
  cases hl : s.connections.lookup id with
  | none => exact h
  | some c =>
    have hemit : key ∉ ((s.setConnection id (c.poll t s.config.1).1).emit id (c.poll t s.config.1).2.segments).1.lookup := by
      rw [emit_lookup]; exact h
    simp only
    split_ifs
    · unfold removeConnection
      split
      · exact hemit
      · exact fun hk => hemit (Finmap.mem_erase.1 hk).2
    · exact hemit

/-- a poll that finds the deadline passed takes the tuple out -/
theorem pollOne_closes {deadline : ℕ} (hl : s.connections.lookup id = some c) (h : c.ClosesAt deadline) (ht : deadline ≤ t) :
    c.key ∉ (pollOne t s id).lookup := by
  have hpoll := poll_closeDeadline s.config.1 h ht
  unfold pollOne
  simp only [hl, hpoll, Update.close, if_true]
  have hset : (s.setConnection id c).connections.lookup id = some c := Finmap.lookup_insert _
  simp only [emit, hset, emitTo, removeConnection]
  exact fun hk => (Finmap.mem_erase.1 hk).1 rfl

theorem poll_absent (ids : List ConnectionId) (h : key ∉ s.lookup) : key ∉ (s.poll ids t).lookup := by
  unfold Stack.poll
  induction ids generalizing s with
  | nil => exact h
  | cons id ids ih => exact ih (pollOne_absent t id h)

/-- **The deadline.** Whatever the order, a poll at or after it takes out the connection and its tuple. -/
theorem poll_closes {ids : List ConnectionId} {deadline : ℕ} (hids : IsOrderOf ids s.connections.keys)
    (hl : s.connections.lookup id = some c) (h : c.ClosesAt deadline) (ht : deadline ≤ t) :
    id ∉ (s.poll ids t).connections ∧ c.key ∉ (s.poll ids t).lookup := by
  have hid : id ∈ ids := by
    rw [← List.mem_toFinset, hids.2]; exact Finmap.mem_keys.2 (Finmap.mem_of_lookup_eq_some hl)
  constructor
  · have hpolled : polledEntry t s.config.1 c = none := by
      rw [polledEntry, poll_closeDeadline s.config.1 h ht]; rfl
    apply Finmap.lookup_eq_none.1
    rw [(poll_lookup ids hids.1 s id).1, if_pos hid, hl, Option.bind_some, hpolled]
  · -- the rounds before leave the entry alone, those after enter nothing
    obtain ⟨before, after, rfl⟩ := List.append_of_mem hid
    obtain ⟨hn, -, hdisj⟩ := List.nodup_append.1 hids.1
    have hl' : (s.poll before t).connections.lookup id = some c := by
      rw [(poll_lookup before hn s id).1, if_neg fun hb => hdisj _ hb _ List.mem_cons_self rfl, hl]
    have hsplit : s.poll (before ++ id :: after) t = (pollOne t (s.poll before t) id).poll after t := by
      simp only [Stack.poll, List.foldl_append, List.foldl_cons]
    rw [hsplit]
    exact poll_absent after (pollOne_closes hl' h ht)

end Stack

/-- **Closing retention.** In every run of a connection, against any peer, FIN-WAIT-2 and TIME-WAIT are entered at most once,
by a segment; the deadline set then stays until the state is left; and TIME-WAIT is left for no other state. Every connection
of every stack is a connection of such a run, and the first poll at or after its deadline removes it and its tuple. -/
theorem closing_retention {P : Type} [DecidableEq P] (config : ValidConfig) :
    (∀ (o : Opening P) ops, Socket.Retention config.1 (Socket.run config.1 o ops)) ∧
      ∀ (isnSeed : BitVec 64) (token : ℕ) (ops : List (StackOp P)),
        let s := Stack.run config isnSeed token ops
        ∀ id c, s.connections.lookup id = some c →
          c.Reachable config.1 ∧
            ∀ ids t deadline, Stack.IsOrderOf ids s.connections.keys → c.ClosesAt deadline → deadline ≤ t →
              id ∉ (s.poll ids t).connections ∧ c.key ∉ (s.poll ids t).lookup := by
  refine ⟨fun o ops => ?_, fun isnSeed token ops => ?_⟩
  · exact Socket.retention (Socket.sendInv_run o config.valid ops)
  · intro s id c hl
    exact ⟨Stack.reachable_run config isnSeed token ops hl, fun ids t deadline hids h ht => Stack.poll_closes hids hl h ht⟩

/-- the client of `closingRun` up to the ACK of its FIN, which makes it wait until 60008 -/
theorem closing_retention_entered :
    let s := Socket.run Config.default (.client (0 : ℕ) 9000 80 100 0 0) (closingRun.take 3)
    let ack : SocketOp := .input { Segment.new 80 9000 701 with ack := some 104, flags := .ACK } 8
    Socket.Enters Config.default s ack .finWait2 ∧
      (Run.exec (Socket.step Config.default) (s.step Config.default ack) [.poll 20000]).conn.finWait2UntilMs = some 60008 := by
  have h := (closing_retention (P := ℕ) ⟨Config.default, Config.default_validate⟩).1 (.client 0 9000 80 100 0 0) (closingRun.take 3)
  have hin : Socket.Enters Config.default (Socket.run Config.default (.client (0 : ℕ) 9000 80 100 0 0) (closingRun.take 3))
      (.input { Segment.new 80 9000 701 with ack := some 104, flags := .ACK } 8) .finWait2 := by
    unfold Socket.Enters; decide
  exact ⟨hin, h.finWait2 _ [.poll 20000] hin (by decide) (by decide)⟩

end FipsTcp
