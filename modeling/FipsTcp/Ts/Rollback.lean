/-
A failed connect of the TypeScript endpoint takes back its connection, whatever is called meanwhile.

The works of the endpoint take effect one after the other (`Chain.inOrder_run`), so nothing comes between a `connect` and the
failure of its flush: its connection is still in SYN-SENT, and `close` takes it out (`reaches_connect`). `opener` is kept beside
the run and says which operation last opened the slot of an id; every slot in the table was opened by a datagram of a peer or by a
`connect` that has delivered the id or is still in progress (`accounted_step`).
-/
import FipsTcp.Ts.Endpoint
import FipsTcp.Ts.Entries

namespace FipsTcp.Ts

open Chain (Phase Progress Move Reaches InOrder)

namespace FipsTcpEndpoint

variable {E : Type} {ep ep' : FipsTcpEndpoint} {id : ConnectionId} {nowMs : ℕ}

/-! ## Works -/

/-- a link of the endpoint's chain -/
abbrev Link (E : Type) := Chain.Link Call Flush (Rejection E) Value

/-- the phases in which a connect has an id for its caller, or has delivered it -/
def Delivers (id : ConnectionId) : Phase Flush (Rejection E) Value → Prop
  | .waiting => False
  | .running flush => flush.value = .connected id
  | .completed outcome | .answered outcome | .released outcome => outcome = .ok (.connected id)

/-- what entitles a link to a slot -/
def Holds (id : ConnectionId) (l : Link E) : Prop :=
  (∃ src payload, l.work = .service src payload) ∨ (∃ peer nowMs, l.work = .connect peer nowMs) ∧ Delivers id l.phase

theorem flushLoop_stack (value : Value) (rollback : Option (ConnectionId × ℕ)) (ep : FipsTcpEndpoint) (queued : List Outbound) :
    (flushLoop (E := E) value rollback ep queued).1.stack = ep.stack := by
  cases queued with
  | nil => rfl
  | cons outbound rest => rfl

/-- how far a flush has come -/
theorem flushLoop_progress (value : Value) (rollback : Option (ConnectionId × ℕ)) (ep : FipsTcpEndpoint) (queued : List Outbound) :
    (flushLoop (E := E) value rollback ep queued).2 = .done (.ok value) ∨
      ∃ rest, (flushLoop (E := E) value rollback ep queued).2 = .await ⟨rest, value, rollback⟩ := by
  cases queued with
  | nil => exact Or.inl rfl
  | cons outbound rest => exact Or.inr ⟨rest, rfl⟩

theorem flushLoop_delivers (rollback : Option (ConnectionId × ℕ)) (ep : FipsTcpEndpoint) (queued : List Outbound) :
    Delivers id (.ofProgress (flushLoop (E := E) (.connected id) rollback ep queued).2) := by
  cases queued with
  | nil => rfl
  | cons outbound rest => rfl

theorem keeps_flushed {α : Type} (ep : FipsTcpEndpoint) (value : α → Value) (rollback : α → Option (ConnectionId × ℕ))
    (r : Stack × Except String α) : r.1.Keeps (ep.flushed (E := E) value rollback r).1.stack := by
  obtain ⟨stack, e | a⟩ := r
  · exact .refl stack
  · unfold flushed flush
    simp only [flushLoop_stack]
    exact .of_eq rfl rfl rfl

theorem returned_stack {α : Type} (ep : FipsTcpEndpoint) (value : α → Value) (r : Stack × Except String α) :
    (ep.returned (E := E) value r).1.stack = r.1 := by
  obtain ⟨stack, e | a⟩ := r
  · rfl
  · rfl

/-- **A start.** Only a `connect` and a datagram open a slot. -/
theorem start_cases (now : ℕ) (call : Call) (ep : FipsTcpEndpoint) (hmss : ep.stack.config.mss ≤ 65535) :
    ep.stack.Keeps (start (E := E) now call ep).1.stack ∨ ep.stack.Adds (start (E := E) now call ep).1.stack ∧
      Holds ep.stack.nextConnectionId ⟨call, .ofProgress (start (E := E) now call ep).2⟩ := by
  cases call with
  | accept => exact Or.inl (ep.stack.keeps_accept ep.fspServicePort)
  | setConnectionReservation slots eligible =>
    refine Or.inl ?_
    simp only [start, returned_stack]
    exact ep.stack.keeps_setConnectionReservation slots eligible
  | connect peer nowMs =>
    have hkeeps := keeps_flushed (E := E) ep .connected (fun id => some (id, nowMs)) (ep.stack.connect peer ep.fspServicePort nowMs)
    simp only [start]
    rcases ep.stack.connect_cases peer ep.fspServicePort nowMs hmss with ⟨s', e, heq, h⟩ | ⟨s', c, heq, h⟩
    · rw [heq] at hkeeps ⊢
      exact Or.inl (h.trans hkeeps)
    · rw [heq] at hkeeps ⊢
      refine Or.inr ⟨h.adds.trans hkeeps, Or.inr ⟨⟨peer, nowMs, rfl⟩, ?_⟩⟩
      exact flushLoop_delivers _ _ _
  | write id bytes nowMs =>
    refine Or.inl (.trans ?_ (keeps_flushed ep _ _ (ep.stack.write id bytes nowMs)))
    rw [Stack.write_eq]
    exact ep.stack.keeps_writeWithMarker id bytes nowMs
  | writeWithMarker id bytes nowMs => exact Or.inl ((ep.stack.keeps_writeWithMarker id bytes nowMs).trans (keeps_flushed ep _ _ _))
  | markerStatus marker => exact Or.inl (.refl _)
  | read id max nowMs => exact Or.inl ((ep.stack.keeps_read id max nowMs).trans (keeps_flushed ep _ _ _))
  | close id nowMs => exact Or.inl ((ep.stack.keeps_close id nowMs).trans (keeps_flushed ep _ _ _))
  | abort id => exact Or.inl ((ep.stack.keeps_abort id).trans (keeps_flushed ep _ _ _))
  | poll nowMs => exact Or.inl ((ep.stack.keeps_poll nowMs).trans (keeps_flushed ep _ _ _))
  | state id => exact Or.inl (.refl _)
  | isReadClosed id => exact Or.inl (.refl _)
  | peer id => exact Or.inl (.refl _)
  | ports id => exact Or.inl (.refl _)
  | service src payload =>
    have hkeeps := keeps_flushed (E := E) ep (fun _ => .undefined) (fun _ => none) (ep.stack.input src payload now)
    rcases ep.stack.input_adds src payload now with h | h
    · exact Or.inl (h.trans hkeeps)
    · exact Or.inr ⟨h.trans hkeeps, Or.inl ⟨src, payload, rfl⟩⟩

theorem resume_keeps (answer : Except E Unit) (flush : Flush) (ep : FipsTcpEndpoint) :
    ep.stack.Keeps (resume answer flush ep).1.stack := by
  obtain e | ⟨⟩ := answer
  · unfold resume rollBack
    cases flush.rollback with
    | none => exact .refl _
    | some slot => exact ep.stack.keeps_close slot.1 slot.2
  · unfold resume
    simp only [flushLoop_stack]
    exact .refl _

/-! ## A connect in progress -/

/-- a connect that waits for the carrier: the table is the one before with one entry more -/
structure Connecting (before ep : FipsTcpEndpoint) (nowMs : ℕ) (flush : Flush) (c : Connection) : Prop where
  state : c.state = .synSent
  now : nowMs ≤ Number.maxSafe
  free : before.stack.lookup.get c.key = none
  connections : ep.stack.connections = before.stack.connections.set before.stack.nextConnectionId c
  lookup : ep.stack.lookup = before.stack.lookup.set c.key before.stack.nextConnectionId
  value : flush.value = .connected before.stack.nextConnectionId
  rollback : flush.rollback = some (before.stack.nextConnectionId, nowMs)

theorem reaches_connect {before : FipsTcpEndpoint} {peer : JsString} {p : Progress Flush (Rejection E) Value} {flush : Flush}
    (hmss : before.stack.config.mss ≤ 65535) (h : Reaches (works E) (.connect peer nowMs) before ep p) (hp : p = .await flush) :
    ∃ c, Connecting before ep nowMs flush c := by
  induction h generalizing flush with
  | start moment =>
    simp only [works, start] at hp ⊢
    rcases before.stack.connect_cases peer before.fspServicePort nowMs hmss with ⟨s', e, heq, -⟩ | ⟨s', c, heq, h⟩
    · rw [heq] at hp
      cases hp
    · rw [heq] at hp ⊢
      unfold flushed FipsTcpEndpoint.flush at hp ⊢
      simp only at hp ⊢
      rcases flushLoop_progress (E := E) (.connected before.stack.nextConnectionId) (some (before.stack.nextConnectionId, nowMs))
        { before with stack := s'.drainOutbound.1 } s'.drainOutbound.2 with hdone | ⟨rest, hawait⟩
      · cases hdone.symm.trans hp
      · cases hawait.symm.trans hp
        refine ⟨c, h.state, h.now, h.free, ?_, ?_, rfl, rfl⟩
        · rw [flushLoop_stack]
          exact h.connections
        · rw [flushLoop_stack]
          exact h.lookup
  | @resume ep flush' h answer ih =>
    obtain ⟨c, hc⟩ := ih rfl
    obtain e | ⟨⟩ := answer
    · cases hp
    · simp only [works, resume] at hp ⊢
      rcases flushLoop_progress (E := E) flush'.value flush'.rollback ep flush'.rest with hdone | ⟨rest, hawait⟩
      · cases hdone.symm.trans hp
      · cases hawait.symm.trans hp
        refine ⟨c, hc.state, hc.now, hc.free, ?_, ?_, hc.value, hc.rollback⟩
        · rw [flushLoop_stack, hc.connections]
        · rw [flushLoop_stack, hc.lookup]

/-- **The rollback.** -/
theorem Connecting.rollBack {before : FipsTcpEndpoint} {flush : Flush} {c : Connection} (h : Connecting before ep nowMs flush c) :
    ep.rollBack flush.rollback = { ep with
      stack := { ep.stack with
        connections := before.stack.connections.delete before.stack.nextConnectionId
        lookup := before.stack.lookup } } := by
  have hget : ep.stack.connections.get before.stack.nextConnectionId = some c := by
    rw [h.connections]
    exact OrderedMap.get_set_self _ _ _
  have hlookup : ep.stack.lookup.delete c.key = before.stack.lookup := by
    rw [h.lookup, OrderedMap.delete_set, OrderedMap.delete_of_absent h.free]
  have hconnections : ep.stack.connections.delete before.stack.nextConnectionId =
      before.stack.connections.delete before.stack.nextConnectionId := by
    rw [h.connections, OrderedMap.delete_set]
  rw [h.rollback]
  unfold FipsTcpEndpoint.rollBack
  simp only [Stack.close_synSent hget h.state h.now, hlookup, hconnections]

/-! ## Slots -/

theorem start_mss (now : ℕ) (call : Call) (ep : FipsTcpEndpoint) (hmss : ep.stack.config.mss ≤ 65535) :
    (start (E := E) now call ep).1.stack.config.mss ≤ 65535 := by
  rcases start_cases (E := E) now call ep hmss with h | ⟨h, -⟩
  · rwa [h.config]
  · rwa [h.config]

theorem reaches_mss {w : Call} {p : Progress Flush (Rejection E) Value} (hmss : ep.stack.config.mss ≤ 65535)
    (h : Reaches (works E) w ep ep' p) : ep'.stack.config.mss ≤ 65535 := by
  induction h with
  | start moment => exact start_mss moment w ep hmss
  | @resume ep₁ flush h answer ih =>
    rw [← (resume_keeps answer flush ep₁).config] at ih
    exact ih

theorem inOrder_mss {links : List (Link E)} (hmss : ep.stack.config.mss ≤ 65535) (h : InOrder (works E) ep links ep') :
    ep'.stack.config.mss ≤ 65535 := by
  induction h with
  | idle h => exact hmss
  | current hp hrun h => exact reaches_mss hmss hrun
  | released hrun h ih => exact ih (reaches_mss hmss hrun)

theorem holds_of_waiting {w : Call} {phase : Phase Flush (Rejection E) Value} (h : Holds id (⟨w, .waiting⟩ : Link E)) :
    Holds id ⟨w, phase⟩ := by
  obtain h | ⟨-, h⟩ := h
  · exact Or.inl h
  · exact h.elim

/-- **One step of a link.** -/
theorem move_cases {w : Call} {phase phase' : Phase Flush (Rejection E) Value} (hmss : ep.stack.config.mss ≤ 65535)
    (hreach : ∀ flush, phase = .running flush → ∃ before : FipsTcpEndpoint, before.stack.config.mss ≤ 65535 ∧
      Reaches (works E) w before ep (.await flush)) (hm : Move (works E) ep w phase phase' ep') :
    (∀ id ∈ ep'.stack.connections, Holds id ⟨w, phase⟩ → Holds id ⟨w, phase'⟩) ∧
      (ep.stack.Keeps ep'.stack ∨ ep.stack.Adds ep'.stack ∧ Holds ep.stack.nextConnectionId ⟨w, phase'⟩) := by
  cases hm with
  | start moment => exact ⟨fun id _ h => holds_of_waiting h, start_cases moment w ep hmss⟩
  | resume flush answer =>
    refine ⟨fun id hid h => ?_, Or.inl (resume_keeps answer flush ep)⟩
    obtain h | ⟨⟨peer, nowMs, rfl⟩, h⟩ := h
    · exact Or.inl h
    refine Or.inr ⟨⟨peer, nowMs, rfl⟩, ?_⟩
    have hvalue : flush.value = .connected id := h
    obtain e | ⟨⟩ := answer
    · -- the slot is gone
      obtain ⟨before, hbefore, hrun⟩ := hreach flush rfl
      obtain ⟨c, hc⟩ := reaches_connect hbefore hrun rfl
      have hsame : before.stack.nextConnectionId = id := Value.connected.inj (hc.value.symm.trans hvalue)
      simp only [works, resume, hc.rollBack] at hid
      rw [hsame] at hid
      exact absurd rfl (OrderedMap.mem_delete.1 hid).1
    · simp only [works, resume, hvalue]
      exact flushLoop_delivers _ _ _
  | settle outcome => exact ⟨fun id _ h => h, Or.inl (.refl _)⟩
  | release outcome => exact ⟨fun id _ h => h, Or.inl (.refl _)⟩

/-! ## Runs -/

abbrev State (E : Type) := Chain.State FipsTcpEndpoint Call Flush (Rejection E) Value

abbrev Event (E : Type) := Chain.Event Call ℕ (Except E Unit)

/-- a state of the chain, with the number of the operation that last opened the slot of an id -/
structure Traced (E : Type) where
  state : State E
  opener : ConnectionId → Option ℕ

/-- the counter of ids moves when a slot is opened -/
def traced (t : Traced E) (e : Event E) : Traced E :=
  let state := Chain.step (works E) t.state e
  let id := t.state.shared.stack.nextConnectionId
  { state, opener := if state.shared.stack.nextConnectionId = id then t.opener else Function.update t.opener id e.link }

/-- the operation that last opened the slot of an id, after the events -/
def opener (ep : FipsTcpEndpoint) (events : List (Event E)) : ConnectionId → Option ℕ :=
  (Run.exec traced ⟨⟨ep, []⟩, fun _ => none⟩ events).opener

/-- every slot is one that its opener holds -/
def Accounted (t : Traced E) : Prop :=
  ∀ id ∈ t.state.shared.stack.connections, ∃ k l, t.opener id = some k ∧ t.state.links[k]? = some l ∧ Holds id l

theorem accounted_step {t : Traced E} (e : Event E) (hmss : ep.stack.config.mss ≤ 65535)
    (hold : InOrder (works E) ep t.state.links t.state.shared) (h : Accounted t) : Accounted (traced t e) := by
  obtain ⟨state, opener⟩ := t
  obtain ⟨w, -, heq⟩ | ⟨k, -, heq⟩ | ⟨k, w, phase, phase', s', hlink, hk, -, hm, heq⟩ := Chain.step_cases (works E) state e
  · -- a call: one link more
    intro id hid
    unfold traced at hid ⊢
    simp only [heq, if_true] at hid ⊢
    obtain ⟨k, l, hopener, hl, hholds⟩ := h id hid
    exact ⟨k, l, hopener, (List.getElem?_append_left (List.getElem?_eq_some_iff.1 hl).1).trans hl, hholds⟩
  · intro id hid
    unfold traced at hid ⊢
    simp only [heq, if_true] at hid ⊢
    exact h id hid
  · have hmss' := inOrder_mss hmss hold
    have hreach : ∀ flush, phase = .running flush → ∃ before : FipsTcpEndpoint, before.stack.config.mss ≤ 65535 ∧
        Reaches (works E) w before state.shared (.await flush) := by
      rintro flush rfl
      obtain ⟨before, hbefore, hrun⟩ := hold.reaches hk rfl
      exact ⟨before, inOrder_mss hmss hbefore, hrun⟩
    obtain ⟨hkept, hopens⟩ := move_cases hmss' hreach hm
    have hset : (state.links.set k ⟨w, phase'⟩)[k]? = some ⟨w, phase'⟩ :=
      List.getElem?_set_self (List.getElem?_eq_some_iff.1 hk).1
    -- what was held is held by the same link
    have hsame : ∀ id ∈ s'.stack.connections, id ∈ state.shared.stack.connections → ∃ j l, opener id = some j ∧
        (state.links.set k ⟨w, phase'⟩)[j]? = some l ∧ Holds id l := by
      intro id hid hmem
      obtain ⟨j, l, hopener, hl, hholds⟩ := h id hmem
      by_cases hj : j = k
      · subst hj
        cases hk.symm.trans hl
        exact ⟨j, _, hopener, hset, hkept id hid hholds⟩
      · exact ⟨j, l, hopener, by rw [List.getElem?_set_ne (Ne.symm hj)]; exact hl, hholds⟩
    intro id hid
    unfold traced at hid ⊢
    simp only [heq] at hid ⊢
    rcases hopens with hkeeps | ⟨hadds, hnew⟩
    · rw [if_pos hkeeps.next]
      exact hsame id hid (hkeeps.mem id hid)
    · rw [if_neg hadds.next, hlink]
      by_cases hid' : id = state.shared.stack.nextConnectionId
      · rw [hid']
        exact ⟨k, _, Function.update_self _ _ _, hset, hnew⟩
      · rw [Function.update_of_ne hid']
        exact hsame id hid ((hadds.mem id hid).resolve_left hid')

theorem traced_state (ep : FipsTcpEndpoint) (events : List (Event E)) :
    (Run.exec traced ⟨⟨ep, []⟩, fun _ => none⟩ events).state = Run.exec (Chain.step (works E)) ⟨ep, []⟩ events :=
  Run.exec_map Traced.state (fun _ _ => rfl) ⟨⟨ep, []⟩, fun _ => none⟩ events

/-- **Every interleaving.** -/
theorem accounted_run (hmss : ep.stack.config.mss ≤ 65535) (hnone : ep.stack.connections = ∅) (events : List (Event E)) :
    Accounted (Run.exec traced ⟨⟨ep, []⟩, fun _ => none⟩ events) := by
  refine Run.exec_invariant_known
    (Q := fun t : Traced E => InOrder (works E) ep t.state.links t.state.shared) (fun events => ?_)
    (fun t e hold h => accounted_step e hmss hold h) ?_ events
  · rw [traced_state]
    exact Chain.inOrder_run (works E) ep events
  · intro id hid
    obtain ⟨v, hv⟩ := OrderedMap.mem_iff.1 hid
    rw [hnone] at hv
    cases hv

theorem listen_frame (s : Stack) (port : ℕ) :
    (s.listen port).1.config = s.config ∧ (s.listen port).1.connections = s.connections := by
  unfold Stack.listen
  cases checkPort port with
  | error e => exact ⟨rfl, rfl⟩
  | ok u =>
    simp only
    split
    · exact ⟨rfl, rfl⟩
    · exact ⟨rfl, rfl⟩

/-- what a new endpoint is like -/
theorem new_ok {fspServicePort : ℕ} {config : Config} {isnSeed : ℤ} {token : ℕ}
    (h : FipsTcpEndpoint.new fspServicePort config isnSeed token = .ok ep) :
    ep.stack.config.mss ≤ 65535 ∧ ep.stack.connections = ∅ := by
  unfold FipsTcpEndpoint.new Stack.new at h
  cases hport : checkFspServicePort fspServicePort with
  | error e => rw [hport] at h; cases h
  | ok u =>
    cases hconfig : makeConfig config with
    | error e => rw [hport, hconfig] at h; cases h
    | ok config' =>
      obtain ⟨rfl, hmss⟩ := makeConfig_ok hconfig
      rw [hport, hconfig] at h
      simp only [bind, Except.bind, pure, Except.pure] at h
      split at h
      · cases h
      · rename_i stack hlisten
        cases h
        have hframe := congrArg Prod.fst hlisten
        simp only at hframe
        rw [← hframe, (listen_frame _ _).1, (listen_frame _ _).2]
        exact ⟨hmss, rfl⟩

/-- a connect that waits for the carrier, and what becomes of the table when the carrier refuses the datagram: the connection it
made goes, still in SYN-SENT, and the table is the one it was made from -/
def RollsBack (ep : FipsTcpEndpoint) (t : State E) (k : ℕ) (peer : JsString) (nowMs : ℕ) (flush : Flush) : Prop :=
  ∃ before c, InOrder (works E) ep (t.links.take k) before ∧
    Reaches (works E) (.connect peer nowMs) before t.shared (.await flush) ∧
    flush.value = .connected before.stack.nextConnectionId ∧
    t.shared.stack.connections.get before.stack.nextConnectionId = some c ∧ c.state = .synSent ∧
    ∀ error,
      let t' := Chain.step (works E) t (.resume k (.error error))
      t'.links[k]? = some ⟨.connect peer nowMs, .completed (.error (.carrier error))⟩ ∧
        t'.shared.stack.connections = t.shared.stack.connections.delete before.stack.nextConnectionId ∧
        t'.shared.stack.connections = before.stack.connections.delete before.stack.nextConnectionId ∧
        t'.shared.stack.lookup = before.stack.lookup ∧ t'.shared.stack.outbound = t.shared.stack.outbound

theorem rollsBack {t : State E} {k : ℕ} {peer : JsString} {flush : Flush} (hmss : ep.stack.config.mss ≤ 65535)
    (hold : InOrder (works E) ep t.links t.shared) (hk : t.links[k]? = some ⟨.connect peer nowMs, .running flush⟩) :
    RollsBack ep t k peer nowMs flush := by
  obtain ⟨before, hbefore, hrun⟩ := hold.reaches hk rfl
  obtain ⟨c, hc⟩ := reaches_connect (inOrder_mss hmss hbefore) hrun rfl
  have hget : t.shared.stack.connections.get before.stack.nextConnectionId = some c := by
    rw [hc.connections]
    exact OrderedMap.get_set_self _ _ _
  refine ⟨before, c, hbefore, hrun, hc.value, hget, hc.state, fun error => ?_⟩
  have hstep : Chain.step (works E) t (.resume k (.error error)) =
      ⟨t.shared.rollBack flush.rollback, t.links.set k ⟨.connect peer nowMs, .completed (.error (.carrier error))⟩⟩ := by
    simp only [Chain.step, hk]
    rfl
  rw [hstep, hc.rollBack]
  refine ⟨List.getElem?_set_self (List.getElem?_eq_some_iff.1 hk).1, ?_, rfl, rfl, rfl⟩
  rw [hc.connections, OrderedMap.delete_set]

end FipsTcpEndpoint

/-- **Failed connects roll back.** After every interleaving of calls, datagrams and answers of the carrier:
- the works have taken effect one after the other, in the order of the calls;
- whatever the world goes on to say, all of them come to their outcome;
- a connect whose flush fails takes out the connection it made, still in SYN-SENT, and restores the index; an id that was free
before is free again, and no other slot is touched;
- every slot was last opened by a datagram of a peer, by a connect that has given its id to the caller, or by the connect in
progress. -/
theorem connect_rollback {E : Type} {fspServicePort : ℕ} {config : Config} {isnSeed : ℤ} {token : ℕ} {ep : FipsTcpEndpoint}
    (h : FipsTcpEndpoint.new fspServicePort config isnSeed token = .ok ep) (events : List (FipsTcpEndpoint.Event E)) :
    let works := FipsTcpEndpoint.works E
    let t := Run.exec (Chain.step works) ⟨ep, []⟩ events
    (InOrder works ep t.links t.shared ∧ t.links.map Chain.Link.work = Chain.called events) ∧
      (∀ world : FipsTcpEndpoint.State E → ℕ × Except E Unit, ∃ later,
        Run.Along (Chain.step works) (fun t e => Chain.next (world t).1 (world t).2 0 t.links = some e) t later ∧
          Chain.Quiet (Run.exec (Chain.step works) t later).links) ∧
      (∀ k peer nowMs flush, t.links[k]? = some ⟨.connect peer nowMs, .running flush⟩ →
        FipsTcpEndpoint.RollsBack ep t k peer nowMs flush) ∧
      ∀ id ∈ t.shared.stack.connections, ∃ k l, FipsTcpEndpoint.opener ep events id = some k ∧ t.links[k]? = some l ∧
        ((∃ src payload, l.work = .service src payload) ∨
          (∃ peer nowMs, l.work = .connect peer nowMs) ∧ (l.phase.result = .fulfilled (.connected id) ∨
            l.phase = .completed (.ok (.connected id)) ∨ ∃ flush, l.phase = .running flush ∧ flush.value = .connected id)) := by
  intro works t
  obtain ⟨hmss, hnone⟩ := FipsTcpEndpoint.new_ok h
  have hold : InOrder works ep t.links t.shared := Chain.inOrder_run works ep events
  refine ⟨⟨hold, Chain.called_run works ep events⟩, fun world => ?_, fun k peer nowMs flush hk => ?_, fun id hid => ?_⟩
  · exact Chain.drains (FipsTcpEndpoint.works_shrinks E) world t
  · exact FipsTcpEndpoint.rollsBack hmss hold hk
  · have haccounted := FipsTcpEndpoint.accounted_run hmss hnone events
    have hstate := FipsTcpEndpoint.traced_state ep events
    obtain ⟨k, ⟨w, phase⟩, hopener, hl, hholds⟩ := haccounted id (by rw [hstate]; exact hid)
    rw [hstate] at hl
    refine ⟨k, ⟨w, phase⟩, hopener, hl, hholds.imp_right fun hconnect => ⟨hconnect.1, ?_⟩⟩
    have hdelivers := hconnect.2
    cases phase with
    | waiting => exact hdelivers.elim
    | running flush => exact Or.inr (Or.inr ⟨flush, rfl, hdelivers⟩)
    | completed outcome => exact Or.inr (Or.inl (congrArg _ hdelivers))
    | answered outcome => exact Or.inl (congrArg Chain.Promise.settle hdelivers)
    | released outcome => exact Or.inl (congrArg Chain.Promise.settle hdelivers)

/-- a poll that is called while a connect waits for the carrier; whatever error the carrier answers, the connect rolls back -/
theorem connect_rollback_waiting : ∃ ep flush, FipsTcpEndpoint.new 7 DEFAULT_CONFIG 1 0 = .ok ep ∧
    let events : List (FipsTcpEndpoint.Event Unit) := [.call (.connect [112] 0), .start 0 5, .call (.poll 1), .start 1 5]
    let t := Run.exec (Chain.step (FipsTcpEndpoint.works Unit)) ⟨ep, []⟩ events
    t.links = [⟨.connect [112] 0, .running flush⟩, ⟨.poll 1, .waiting⟩] ∧ FipsTcpEndpoint.RollsBack ep t 0 [112] 0 flush := by
  obtain ⟨ep, h⟩ : ∃ ep, FipsTcpEndpoint.new 7 DEFAULT_CONFIG 1 0 = .ok ep := ⟨_, rfl⟩
  have hep := h
  cases hep
  exact ⟨_, _, h, rfl, (connect_rollback h _).2.2.1 0 [112] 0 _ rfl⟩

end FipsTcp.Ts
