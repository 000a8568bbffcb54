/-
Is `next_poll_at` exact?

`poll` treats every retained connection once and independently of the others, so what it does is what `Connection.poll` does
to each entry (`poll_lookup`), in whatever order the map yields them. With `Connection.poll_cases`, which holds of every
sound connection, the two results follow for every reachable stack:
- `next_poll_at_exact`: before the announced time a poll changes nothing; at it, a poll emits or removes something, and what
  is announced then lies in the future.
-/
import FipsTcp.Stack.Entries

namespace FipsTcp

open Table Connection

namespace Stack

variable {P : Type} [DecidableEq P] {s : Stack P} {id : ConnectionId} {c : Connection P} {t nowMs : ℕ}

/-! ## The announced time -/

theorem due_iff (deadline : Option ℕ) : Due t deadline ↔ orNever deadline ≤ (t : WithTop ℕ) := by
  cases deadline with
  | none => exact ⟨fun h => absurd h (not_due_none t), fun h => absurd h (not_le.2 (WithTop.coe_lt_top t))⟩
  | some d => exact due_some.trans WithTop.coe_le_coe.symm

/-- something is due exactly when it is for one of the retained connections -/
theorem due_nextPollAt : Due t (s.nextPollAt nowMs) ↔
    ∃ id c, s.connections.lookup id = some c ∧ Due t (c.nextPollAt nowMs s.config.1) := by
  refine (due_iff _).trans ((Finset.inf_le_iff (WithTop.coe_lt_top t)).trans ?_)
  constructor
  · rintro ⟨id, hid, hle⟩
    obtain ⟨c, hc⟩ := Finmap.mem_iff.1 (Finmap.mem_keys.1 hid)
    rw [hc, Option.bind_some] at hle
    exact ⟨id, c, hc, (due_iff _).2 hle⟩
  · rintro ⟨id, c, hc, hdue⟩
    exact ⟨id, Finmap.mem_keys.2 (Finmap.mem_of_lookup_eq_some hc), by rw [hc]; exact (due_iff _).1 hdue⟩

/-! ## What a poll emits -/

theorem emit_outbound (s : Stack P) (id : ConnectionId) (segments : List Segment) :
    s.outbound <+: (s.emit id segments).1.outbound := by
  obtain ⟨out, h⟩ := s.emit_frame id segments
  rw [h]
  exact List.prefix_append _ _

/-- a poll only appends to what is queued -/
theorem pollOne_outbound (t : ℕ) (s : Stack P) (id : ConnectionId) : s.outbound <+: (pollOne t s id).outbound := by
  unfold pollOne
  cases s.connections.lookup id with
  | none => exact List.prefix_refl _
  | some c =>
    have h := (s.setConnection id (c.poll t s.config.1).1).emit_outbound id (c.poll t s.config.1).2.segments
    simp only
    split_ifs
    · rw [(removeConnection_connections _ id).2.2]; exact h
    · exact h

theorem poll_outbound (ids : List ConnectionId) (t : ℕ) (s : Stack P) : s.outbound <+: (s.poll ids t).outbound := by
  unfold Stack.poll
  induction ids generalizing s with
  | nil => exact List.prefix_refl _
  | cons id ids ih => exact (pollOne_outbound t s id).trans (ih (pollOne t s id))

/-- a connection that acts queues what it emits -/
theorem pollOne_emits (hok : s.view.Ok) (hl : s.connections.lookup id = some c)
    (hopen : (c.poll t s.config.1).2.closed = false) (hseg : (c.poll t s.config.1).2.segments ≠ []) :
    (pollOne t s id).outbound ≠ s.outbound := by
  have hpos := List.length_pos_of_ne_nil hseg
  rw [pollOne_eq hl (hok id c hl), hopen]
  simp only [Bool.false_eq_true, if_false, put, queue, setConnection]
  intro heq
  have hlen := congrArg List.length heq
  rw [List.length_append, List.length_map] at hlen
  omega

/-- a connection with nothing to do is left alone -/
theorem pollOne_idle (hl : s.connections.lookup id = some c) (h : c.poll t s.config.1 = (c, .open [])) :
    pollOne t s id = s := by
  have hset : s.setConnection id c = s := by rw [setConnection, insert_self hl]
  unfold pollOne
  simp only [hl, h, hset, emit, emitTo, Update.open, Bool.false_eq_true, if_false]

/-! ## Exactness -/

theorem polled (hok : s.view.Ok) (hl : s.connections.lookup id = some c) (t : ℕ) :
    Polled s.config.1 t c (c.poll t s.config.1) :=
  poll_cases s.config.valid (hok id c hl).timed (hok id c hl).settled (hok id c hl).mss t

/-- **Nothing due, nothing done.** -/
theorem poll_idle (hok : s.view.Ok) (ids : List ConnectionId) (nowMs : ℕ) (hdue : ¬ Due t (s.nextPollAt nowMs)) : s.poll ids t = s := by
  unfold Stack.poll
  induction ids with
  | nil => rfl
  | cons id ids ih =>
    have hone : pollOne t s id = s := by
      cases hl : s.connections.lookup id with
      | none => unfold pollOne; rw [hl]
      | some c =>
        have hc : ¬ Due t (c.nextPollAt nowMs s.config.1) := fun h => hdue (due_nextPollAt.2 ⟨id, c, hl, h⟩)
        have h := polled hok hl t
        generalize hr : c.poll t s.config.1 = result at h
        cases h with
        | idle => exact pollOne_idle hl hr
        | gone c' h => exact absurd (h nowMs) hc
        | acted c' segments h => exact absurd (h nowMs) hc
    rw [List.foldl_cons, hone, ih]

/-- **Something due, something done.** -/
theorem poll_acts (hok : s.view.Ok) {ids : List ConnectionId} (hids : IsOrderOf ids s.connections.keys)
    (hdue : Due t (s.nextPollAt nowMs)) :
    (s.poll ids t).outbound ≠ s.outbound ∨ ∃ id ∈ s.connections, id ∉ (s.poll ids t).connections := by
  obtain ⟨id, c, hl, hc⟩ := due_nextPollAt.1 hdue
  have hmem : id ∈ s.connections := Finmap.mem_of_lookup_eq_some hl
  have hid : id ∈ ids := by rw [← List.mem_toFinset, hids.2]; exact Finmap.mem_keys.2 hmem
  have h := polled hok hl t
  generalize hr : c.poll t s.config.1 = result at h
  cases h with
  | idle h => exact absurd hc (h nowMs)
  | gone c' =>
    refine .inr ⟨id, hmem, Finmap.lookup_eq_none.1 ?_⟩
    rw [(poll_lookup ids hids.1 s id).1, if_pos hid, hl, Option.bind_some, polledEntry, hr]
    rfl
  | acted c' segments h hout =>
    -- the rounds before this one leave the entry alone, the others only append
    refine .inl fun heq => ?_
    obtain ⟨before, after, rfl⟩ := List.append_of_mem hid
    obtain ⟨hn, -, hdisj⟩ := List.nodup_append.1 hids.1
    obtain ⟨h1, h2⟩ := poll_lookup (t := t) before hn s id
    rw [if_neg fun hb => hdisj _ hb _ List.mem_cons_self rfl, hl] at h1
    have hp : (s.poll before t).view.Ok := (poll_edits hok before t).ok hok
    have hsplit : s.poll (before ++ id :: after) t = (pollOne t (s.poll before t) id).poll after t := by
      simp only [Stack.poll, List.foldl_append, List.foldl_cons]
    have hfirst := (poll_outbound before t s).length_le
    have hone := pollOne_outbound t (s.poll before t) id
    have hlast := (poll_outbound after t (pollOne t (s.poll before t) id)).length_le
    have hlt : (s.poll before t).outbound.length < (pollOne t (s.poll before t) id).outbound.length := by
      refine lt_of_le_of_ne hone.length_le fun hlen => ?_
      refine pollOne_emits (t := t) hp h1 ?_ ?_ (hone.eq_of_length hlen).symm
      · rw [h2, hr]; rfl
      · rw [h2, hr]; exact hout
    have hlen := congrArg List.length (hsplit ▸ heq)
    omega

/-- **And then nothing is due.** -/
theorem poll_settles (hok : s.view.Ok) {ids : List ConnectionId} (hids : IsOrderOf ids s.connections.keys) (ht : t < maxU64) :
    ¬ Due t ((s.poll ids t).nextPollAt t) := by
  rw [due_nextPollAt]
  rintro ⟨id, c', hl', hdue⟩
  obtain ⟨h1, h2⟩ := poll_lookup (t := t) ids hids.1 s id
  rw [h1] at hl'
  cases hl : s.connections.lookup id with
  | none =>
    rw [hl, Option.bind_none, ite_self] at hl'
    cases hl'
  | some c =>
    have hid : id ∈ ids := by
      rw [← List.mem_toFinset, hids.2]; exact Finmap.mem_keys.2 (Finmap.mem_of_lookup_eq_some hl)
    rw [if_pos hid, hl, Option.bind_some, polledEntry] at hl'
    rw [h2] at hdue
    have h := polled hok hl t
    generalize c.poll t s.config.1 = result at h hl'
    cases h with
    | idle h =>
      simp only [Update.open, Bool.false_eq_true, if_false, Option.some.injEq] at hl'
      exact h t (hl' ▸ hdue)
    | gone => simp [Update.close] at hl'
    | acted x segments h hout hset hnext =>
      simp only [Update.open, Bool.false_eq_true, if_false, Option.some.injEq] at hl'
      exact hnext ht t (hl' ▸ hdue)

end Stack

/-- **`next_poll_at` is exact.** In every reachable stack a poll before the announced time leaves the whole stack as it is; a
poll at that time or later emits a segment or removes a connection, and what is announced after it is later than the poll. -/
theorem next_poll_at_exact {P : Type} [DecidableEq P] (config : ValidConfig) (isnSeed : BitVec 64) (token : ℕ)
    (ops : List (StackOp P)) (ids : List ConnectionId) (nowMs t : ℕ)
    (hids : Stack.IsOrderOf ids (Stack.run config isnSeed token ops).connections.keys)
    (ht : t + config.1.maxRtoMs < 2 ^ 64) :
    let s := Stack.run config isnSeed token ops
    ((∀ d, s.nextPollAt nowMs = some d → t < d) → s.poll ids t = s) ∧
      ∀ d, s.nextPollAt nowMs = some d → d ≤ t →
        ((s.poll ids t).outbound ≠ s.outbound ∨ ∃ id ∈ s.connections, id ∉ (s.poll ids t).connections) ∧
          ∀ d', (s.poll ids t).nextPollAt t = some d' → t < d' := by
  intro s
  have hok : s.view.Ok := (Stack.ok_run config isnSeed token ops).1
  have hmax : 0 < config.1.maxRtoMs :=
    lt_of_lt_of_le (lt_of_lt_of_le config.valid.minRto_pos config.valid.minRto_le) config.valid.maxRto_ge
  have hlt : t < maxU64 := by unfold maxU64; omega
  refine ⟨fun hlater => Stack.poll_idle hok ids nowMs ?_, fun d hd hle => ⟨?_, fun d' hd' => ?_⟩⟩
  · rintro ⟨d, hd, hle⟩
    exact absurd (hlater d hd) (Nat.not_lt.2 hle)
  · exact Stack.poll_acts hok hids ⟨d, hd, hle⟩
  · exact Nat.lt_of_not_le fun hle' => Stack.poll_settles hok hids hlt ⟨d', hd', hle'⟩

/-- a client connection that waits for an answer to its SYN -/
def synRun : List (StackOp ℕ) := [.connectFromWithIsn 7 9000 80 100 0]

theorem next_poll_at_exact_syn :
    let s := Stack.run ⟨Config.default, Config.default_validate⟩ 5 1 synRun
    s.nextPollAt 0 = some 1000 ∧
      ((s.poll [⟨1⟩] 1000).outbound ≠ s.outbound ∨ ∃ id ∈ s.connections, id ∉ (s.poll [⟨1⟩] 1000).connections) ∧
      ∀ d', (s.poll [⟨1⟩] 1000).nextPollAt 1000 = some d' → 1000 < d' := by
  have hd : (Stack.run ⟨Config.default, Config.default_validate⟩ 5 1 synRun).nextPollAt 0 = some 1000 := by decide
  obtain ⟨-, hacts⟩ := next_poll_at_exact ⟨Config.default, Config.default_validate⟩ 5 1 synRun [⟨1⟩] 0 1000 (by decide) (by decide)
  exact ⟨hd, hacts 1000 hd le_rfl⟩

end FipsTcp
