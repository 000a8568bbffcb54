/-
Isolation between connections.

A connection sees of its stack its own entry, what is queued for its tuple, and what calls on it return. For this observer a
stack unwinds (`Run.Unwinds`) to a machine that has the connection and nothing else (`solo`): whatever else is done to the
stack, listeners, limits, cursors and the queue included, is hidden from it.
- `Orderly`, `Reachable.orderly`: the table of a reachable stack, whose next id is never in use, since the counter of tokens would
  run out first (`Numbered`);
- `unwinds`: the unwinding conditions;
- `connections_isolated`: what one operation leaves alone, and what two runs have in common.
-/
import FipsTcp.Lib.Unwinding
import FipsTcp.Stack.Emissions

namespace FipsTcp

open Table Connection

/-- what a call returns, besides its failure -/
inductive Answer where
  | done
  | wrote (count : ℕ) (marker : SendMarker)
  | bytes (bytes : List U8)
deriving DecidableEq, Repr

/-- without the id under which the stack knows the connection -/
def Answer.unnamed : Answer → Answer
  | .wrote count marker => .wrote count { marker with connectionId := ⟨0⟩ }
  | answer => answer

namespace Connection

variable {P : Type}

/-- what a call on a retained connection returns -/
def reply (config : Config) (c : Connection P) : SocketOp → Except Failure Answer
  | .write bytes nowMs =>
    match c.write bytes nowMs config with
    | .error e => .error (.error e)
    | .ok (c', count, _) => .ok (.wrote count (c'.sendProgress.marker ⟨0⟩))
  | .read max => .ok (.bytes (c.read max).2.1)
  | _ => .ok .done

/-- what a call on a removed connection returns -/
def noReply : SocketOp → Except Failure Answer
  | .poll _ => .ok .done
  | _ => .error (.error .unknownConnection)

end Connection

/-- what a connection shows -/
inductive Event (P : Type) where
  | sent (o : Outbound P)
  | answered (result : Except Failure Answer)

namespace Stack

variable {P : Type} [DecidableEq P]

/-- what a call returns -/
def answer (s : Stack P) : StackOp P → Except Failure Answer
  | .write id bytes nowMs =>
    match (s.writeWithMarker id bytes nowMs).2 with
    | .ok (count, marker) => .ok (.wrote count marker)
    | .error e => .error (.error e)
  | .read id max =>
    match (s.read id max).2 with
    | .ok bytes => .ok (.bytes bytes)
    | .error e => .error (.error e)
  | op => (s.perform op).2.map fun _ => .done

/-! ## A stack in its process -/

/-- the other stacks of the process make connections -/
def elsewhere (s : Stack P) (tokens : ℕ) : Stack P := { s with nextConnectionToken := s.nextConnectionToken + tokens }

/-- an operation, after the other stacks of the process drew some tokens -/
def turn (s : Stack P) (op : ℕ × StackOp P) : Stack P := ((s.elsewhere op.1).perform op.2).1

/-- a stack after some run in a process whose counter of tokens is a `u64`: `SendProgress::new` panics when it would overflow -/
def Reachable (config : ValidConfig) (s : Stack P) : Prop :=
  ∃ (isnSeed : BitVec 64) (token : ℕ) (ops : List (ℕ × StackOp P)), 0 < token ∧
    s = Run.exec turn (new config isnSeed token) ops ∧ s.nextConnectionToken < 2 ^ 64

/-- ids are given out in order, and no faster than tokens -/
structure Numbered (s : Stack P) : Prop where
  next : s.nextConnectionId ≤ s.nextConnectionToken
  used : ∀ id ∈ s.connections, id.raw < s.nextConnectionId

/-- the table of a stack -/
structure Orderly (config : ValidConfig) (s : Stack P) : Prop where
  genuine : s.Genuine config
  index : Indexed Connection.key s.connections s.lookup
  numbered : s.Numbered

variable {config : ValidConfig} {s s' : Stack P} {op : StackOp P} {id : ConnectionId} {c : Connection P} {key : ConnectionKey P}

theorem Orderly.tidy (h : s.Orderly config) : s.Tidy where
  sound := h.genuine.sound
  index := h.index
  flagged id c hl := by
    have := h.genuine.reachable id c hl
    exact this.flagged

theorem Orderly.elsewhere (h : s.Orderly config) (tokens : ℕ) : (s.elsewhere tokens).Orderly config where
  genuine := ⟨h.genuine.sound, h.genuine.same, h.genuine.reachable⟩
  index := h.index
  numbered := ⟨h.numbered.next.trans (Nat.le_add_right _ _), h.numbered.used⟩

/-- an id that was given out is not the next one -/
theorem Numbered.ne_next (hid : id.raw < s.nextConnectionId) : id ≠ s.nextId := by
  rintro rfl
  exact absurd hid (Nat.lt_irrefl _)

theorem Numbered.fresh (h : s.Numbered) : s.FreshId :=
  Finmap.lookup_eq_none.2 fun hmem => Numbered.ne_next (h.used _ hmem) rfl

theorem Orderly.new (config : ValidConfig) (isnSeed : BitVec 64) {token : ℕ} (h0 : 0 < token) :
    (Stack.new config isnSeed token : Stack P).Orderly config where
  genuine := .new config isnSeed token
  index := Indexed.empty
  numbered := ⟨h0, fun _ h => absurd h Finmap.notMem_empty⟩

theorem View.Edits.next {v v' : View P} (h : View.Edits v v') : v'.nextConnectionId = v.nextConnectionId := by
  induction h with
  | refl => rfl
  | tail _ h ih => exact h.no_new.2.1.trans ih

theorem View.Change.numbered {v v' : View P} (h : View.Change v v') (hb : v'.nextConnectionToken < 2 ^ 64)
    (hnext : v.nextConnectionId ≤ v.nextConnectionToken) (hused : ∀ id ∈ v.connections, id.raw < v.nextConnectionId) :
    v'.nextConnectionId ≤ v'.nextConnectionToken ∧ (∀ id ∈ v'.connections, id.raw < v'.nextConnectionId) ∧
      v.nextConnectionId ≤ v'.nextConnectionId := by
  cases h with
  | edits h =>
    obtain ⟨hids, htok, -⟩ := h.no_new
    rw [h.next, htok]
    exact ⟨hnext, fun id hid => hused id (hids id hid), le_rfl⟩
  | create c hroom hkey hsound =>
    simp only at hb ⊢
    -- the id does not wrap, since the token does not
    rw [Nat.mod_eq_of_lt (by omega), max_eq_left (by omega)]
    refine ⟨by omega, fun id hid => ?_, Nat.le_succ _⟩
    rcases Finmap.mem_insert.1 hid with rfl | hid
    · exact Nat.lt_succ_self _
    · exact (hused id hid).trans (Nat.lt_succ_self _)

/-- **Preservation, one operation**, while the counter fits its type. -/
theorem Orderly.perform (h : s.Orderly config) (op : StackOp P) (hb : (s.perform op).1.nextConnectionToken < 2 ^ 64) :
    (s.perform op).1.Orderly config ∧ s.nextConnectionId ≤ (s.perform op).1.nextConnectionId := by
  have hchange := (perform_change h.genuine.sound op).1
  obtain ⟨hnext, hused, hle⟩ := hchange.numbered hb h.numbered.next h.numbered.used
  exact ⟨⟨h.genuine.step op, hchange.index h.numbered.fresh h.index, ⟨hnext, hused⟩⟩, hle⟩

/-- the counter of tokens only moves forward -/
theorem turn_sound (h : s.AllSound) (op : ℕ × StackOp P) :
    (s.turn op).AllSound ∧ s.nextConnectionToken ≤ (s.turn op).nextConnectionToken := by
  have hchange := (perform_change (s := s.elsewhere op.1) h op.2).1
  exact ⟨hchange.ok h, (Nat.le_add_right _ _).trans hchange.cursors.1⟩

theorem Reachable.orderly (h : s.Reachable config) : s.Orderly config := by
  obtain ⟨isnSeed, token, ops, h0, rfl, hb⟩ := h
  refine (Run.exec_invariant (P := fun s : Stack P => s.AllSound ∧ (s.nextConnectionToken < 2 ^ 64 → s.Orderly config))
    (fun s op ⟨hs, hi⟩ => ?_) ⟨(Orderly.new config isnSeed h0).genuine.sound, fun _ => .new config isnSeed h0⟩ ops).2 hb
  obtain ⟨hs', hle⟩ := turn_sound hs op
  exact ⟨hs', fun hb => (((hi (hle.trans_lt hb)).elsewhere op.1).perform op.2 hb).1⟩

/-! ## One operation -/

/-- an operation has a share in the connections of its tuple only -/
theorem act_target (hs : s.Tidy) (hl : s.connections.lookup id = some c) {o : SocketOp} (hact : s.act id op = some o)
    (ht : s.target op = some key) : c.key = key := by
  have hmap : ∀ {i : ConnectionId}, i = id → (s.connections.lookup i).map Connection.key = some key → c.key = key :=
    fun hi hm => by rw [hi, hl, Option.map_some, Option.some.injEq] at hm; exact hm
  cases op with
  | input peer bytes nowMs =>
    simp only [act, target] at hact ht
    split at ht
    · simp only [*, Option.some.injEq] at hact ht
      split_ifs at hact with hkey
      exact (key_of_lookup hs hkey hl).trans ht
    · cases ht
  | write i | read i | close i | abort i =>
    simp only [act] at hact
    split_ifs at hact with hi
    exact hmap hi ht
  | poll | abortPeer | listen | closeListener | accept | setConnectionReservation | drainOutbound => cases ht
  | connect | connectFromWithIsn => cases hact

/-- **The entry of another tuple.** -/
theorem Orderly.other (h : s.Orderly config) (ht : s.target op = some key) (hl : s.connections.lookup id = some c)
    (hne : c.key ≠ key) : (s.perform op).1.connections.lookup id = some c := by
  have hact : s.act id op = none := by
    cases ha : s.act id op with
    | none => rfl
    | some o => exact absurd (act_target h.tidy hl ha ht) hne
  cases perform_entries h.genuine.sound op with
  | follow hfollow =>
    rw [hfollow, hl, Option.bind_some, afterOp, hact]
  | create o _ hcreate =>
    have hne : id ≠ s.nextId := Numbered.ne_next (h.numbered.used id (Finmap.mem_of_lookup_eq_some hl))
    rw [hcreate, Finmap.lookup_insert_of_ne _ hne, hl]

/-- the operations that are directed at a connection or a tuple -/
def Directed : StackOp P → Prop
  | .input _ _ _ | .write _ _ _ | .read _ _ | .close _ _ | .abort _ | .connect _ _ _ | .connectFromWithIsn _ _ _ _ _ => True
  | _ => False

/-- an operation that finds no tuple leaves all connections and the queue alone -/
theorem perform_untargeted (hop : Directed op) (ht : s.target op = none) :
    (s.perform op).1.connections = s.connections ∧ (s.perform op).1.outbound = s.outbound := by
  cases op with
  | input peer bytes nowMs =>
    cases hdec : Segment.decode bytes with
    | error e => simp only [perform, Stack.input, hdec, and_self]
    | ok segment => simp [target, hdec] at ht
  | write i | read i | close i | abort i =>
    have hl : s.connections.lookup i = none := Option.map_eq_none_iff.1 ht
    simp [perform, writeWithMarker, Stack.read, Stack.close, Stack.abort, hl, outcome]
  | connect peer remotePort nowMs =>
    obtain ⟨port, ⟨e, -, hp⟩ | ⟨localPort, hlocal, -⟩⟩ := s.connect_from peer remotePort nowMs
    · rw [hp]
      exact ⟨rfl, rfl⟩
    · simp [target, hlocal] at ht
  | connectFromWithIsn => cases ht
  | poll | abortPeer | listen | closeListener | accept | setConnectionReservation | drainOutbound => exact hop.elim

/-- the operation makes a connection of its tuple -/
def Makes (s : Stack P) (op : StackOp P) (s' : Stack P) : Prop := ∃ c, s.target op = some c.key ∧ (∀ i, s.act i op = none) ∧
  s'.connections = s.connections.insert s.nextId c ∧ s'.lookup = s.lookup.insert c.key s.nextId

/-- what is purged of the queue is of the tuple -/
theorem kept_others (ht : s.target op = some key) : (s.kept op).Sublist s.outbound ∧
    ((s.kept op).filter fun o => !belongsTo o key) = s.outbound.filter fun o => !belongsTo o key := by
  cases op with
  | abort id =>
    obtain ⟨c, hl, hk⟩ := Option.map_eq_some_iff.1 ht
    refine ⟨List.filter_sublist, ?_⟩
    simp only [kept, hl, Option.all_some, hk, List.filter_filter, Bool.and_self]
  | abortPeer | drainOutbound => cases ht
  | _ => exact ⟨List.Sublist.refl _, rfl⟩

/-- a call that draws a token -/
theorem call_made (hs : s.AllSound) (hop : ∀ peer remotePort nowMs, op ≠ .connect peer remotePort nowMs)
    {result : Except Failure Unit} (h : s.Call op s' result) :
    s'.nextConnectionToken = s.nextConnectionToken ∨ s.Makes op s' := by
  cases h with
  | connected op peer localPort remotePort isn nowMs port cursor hcalled =>
    rcases hcalled with rfl | rfl
    · exact absurd rfl (hop peer remotePort nowMs)
    · exact .inr ⟨_, rfl, fun _ => rfl, rfl, rfl⟩
  | opened peer bytes nowMs segment hdec hkey hopen hver hcap =>
    obtain ⟨-, h1, h2, h3, -⟩ := sound_server s.config.valid peer (Segment.decode_ports hdec) s.nextIsn.2 nowMs
      s.nextConnectionToken
    refine .inr ⟨_, ?_, fun i => by simp [act_input hdec, hkey], rfl, rfl⟩
    rw [Connection.key, h1, h2, h3]
    simp only [target, hdec]
  | handled =>
    unfold onRetained
    simp only
    split_ifs <;> exact .inl rfl
  | closed =>
    split_ifs <;> exact .inl rfl
  | accepted port =>
    unfold accept
    cases s.accepts.lookup port <;> exact .inl rfl
  | polled ids => exact .inl (poll_token ids s)
  | abortedPeer peer ids => exact .inl (abortAll_edits ids hs).no_new.2.1
  | refused | connectRefused | listened | closedListener | malformed | stale | ignored | rejected | reset | challenged | wrote
  | read | aborted | unpolled | unabortedPeer | reserved | drained => exact .inl rfl

/-- **What an operation does to the table.** -/
theorem perform_table (hs : s.AllSound) (op : StackOp P) : s.view.Edits (s.perform op).1.view ∨ s.Makes op (s.perform op).1 := by
  have hmade : (s.perform op).1.nextConnectionToken = s.nextConnectionToken ∨ s.Makes op (s.perform op).1 := by
    by_cases hconnect : ∃ peer remotePort nowMs, op = .connect peer remotePort nowMs
    · obtain ⟨peer, remotePort, nowMs, rfl⟩ := hconnect
      obtain ⟨port, ⟨e, -, hp⟩ | ⟨localPort, hlocal, hp⟩⟩ := s.connect_from peer remotePort nowMs <;> rw [hp]
      · exact .inl rfl
      · have hmoved : (s.moveCursors port s.nextIsn.1.isnState).AllSound := hs
        have hcall := perform_call hmoved (.connectFromWithIsn peer localPort remotePort s.nextIsn.2 nowMs)
        refine (call_made hmoved (by intro _ _ _ h; cases h) hcall).imp id fun ⟨c, hk, _, h1, h2⟩ => ⟨c, ?_, fun _ => rfl, h1, h2⟩
        simp only [target, hlocal] at hk ⊢
        exact hk
    · exact call_made hs (fun peer remotePort nowMs h => hconnect ⟨peer, remotePort, nowMs, h⟩) (perform_call hs op)
  refine hmade.imp_left fun htok => ?_
  obtain ⟨v, hv⟩ : ∃ v, v = (s.perform op).1.view := ⟨_, rfl⟩
  have hchange := (perform_change hs op).1
  have htok' : v.nextConnectionToken = s.view.nextConnectionToken := hv ▸ htok
  rw [← hv] at hchange ⊢
  cases hchange with
  | edits h => exact h
  | create => exact absurd htok' (Nat.succ_ne_self _)

/-! ## Two runs -/

/-- what one operation shows the observer of a connection -/
def shown (id : ConnectionId) (key : ConnectionKey P) (s : Stack P) (op : ℕ × StackOp P) : List (Event P) :=
  (((s.elsewhere op.1).emitted op.2).filter fun o => belongsTo o key).map .sent ++
    if (s.act id op.2).isSome then [.answered (((s.elsewhere op.1).answer op.2).map Answer.unnamed)] else []

/-- the operations of a run on a connection, and the polls -/
abbrev calls (id : ConnectionId) : Stack P → List (ℕ × StackOp P) → List SocketOp := Run.acts turn fun s op => s.act id op.2

/-- what a run shows -/
abbrev trace (id : ConnectionId) (key : ConnectionKey P) : Stack P → List (ℕ × StackOp P) → List (Event P) :=
  Run.collect turn (shown id key)

/-- the operation is one on the connection, or a poll, or is not directed at the tuple; and it is no `abort_peer` of it -/
def Apart (id : ConnectionId) (key : ConnectionKey P) (s : Stack P) (op : ℕ × StackOp P) : Prop :=
  if (s.act id op.2).isSome then ∀ peer ids, op.2 ≠ .abortPeer peer ids else (s.elsewhere op.1).target op.2 ≠ some key

/-- a connection without a stack -/
def solo (config : Config) (v : Option (Connection P)) (o : SocketOp) : Option (Connection P) := v.bind fun c => c.after config o

def soloShown (config : Config) (peer : P) (v : Option (Connection P)) (o : SocketOp) : List (Event P) :=
  ((v.elim [] fun c => c.said config o).map fun x => .sent (datagram peer x)) ++
    [.answered (v.elim (noReply o) fun c => c.reply config o)]

/-- an id that was given out, whose connection has the tuple, as no other has -/
structure Watched (config : ValidConfig) (id : ConnectionId) (key : ConnectionKey P) (s : Stack P) : Prop
    extends Orderly config s where
  given : id.raw < s.nextConnectionId
  own : ∀ c, s.connections.lookup id = some c → c.key = key
  sole : ∀ i, s.lookup.lookup key = some i → i = id

theorem Watched.elsewhere (h : s.Watched config id key) (tokens : ℕ) : (s.elsewhere tokens).Watched config id key :=
  ⟨h.toOrderly.elsewhere tokens, h.given, h.own, h.sole⟩

theorem View.Edits.keep {v v' : View P} (h : View.Edits v v') :
    (∀ i x, v'.connections.lookup i = some x → ∃ y, v.connections.lookup i = some y ∧ x.key = y.key) ∧
      ∀ k i, v'.lookup.lookup k = some i → v.lookup.lookup k = some i := by
  induction h with
  | refl => exact ⟨fun i x hx => ⟨x, hx, rfl⟩, fun _ _ hk => hk⟩
  | tail _ h ih =>
    obtain ⟨h1, h2⟩ := ih
    cases h with
    | update j y y' hy hkey =>
      refine ⟨fun i x hx => ?_, h2⟩
      by_cases hi : i = j
      · rw [hi, Finmap.lookup_insert, Option.some.injEq] at hx
        obtain ⟨z, hz, hk⟩ := h1 j y hy
        exact ⟨z, hi ▸ hz, hx ▸ hkey.trans hk⟩
      · rw [Finmap.lookup_insert_of_ne _ hi] at hx
        exact h1 i x hx
    | remove j y hy =>
      refine ⟨fun i x hx => ?_, fun k i hk => ?_⟩
      · have hi : i ≠ j := fun hi => by rw [hi, Finmap.lookup_erase] at hx; cases hx
        rw [Finmap.lookup_erase_ne hi] at hx
        exact h1 i x hx
      · have hne : k ≠ y.key := fun hne => by rw [hne, Finmap.lookup_erase] at hk; cases hk
        rw [Finmap.lookup_erase_ne hne] at hk
        exact h2 k i hk
    | reserve => exact ⟨h1, h2⟩

/-- **Preservation, one operation.** -/
theorem Watched.perform (h : s.Watched config id key) (ht : (s.act id op).isSome = false → s.target op ≠ some key)
    (hb : (s.perform op).1.nextConnectionToken < 2 ^ 64) : (s.perform op).1.Watched config id key := by
  obtain ⟨ho, hle⟩ := h.toOrderly.perform op hb
  rcases perform_table h.genuine.sound op with hedits | ⟨c, hk, hact, hconn, hlook⟩
  · obtain ⟨h1, h2⟩ := hedits.keep
    refine ⟨ho, h.given.trans_le hle, fun x hx => ?_, fun i hi => h.sole i (h2 key i hi)⟩
    obtain ⟨y, hy, hxy⟩ := h1 id x hx
    exact hxy.trans (h.own y hy)
  · have hne : key ≠ c.key := fun he => ht (by rw [hact]; rfl) (he ▸ hk)
    refine ⟨ho, h.given.trans_le hle, fun x hx => ?_, fun i hi => ?_⟩
    · rw [hconn, Finmap.lookup_insert_of_ne _ (Numbered.ne_next h.given)] at hx
      exact h.own x hx
    · rw [hlook, Finmap.lookup_insert_of_ne _ hne] at hi
      exact h.sole i hi

theorem Orderly.watched (h : s.Orderly config) (hl : s.connections.lookup id = some c) : s.Watched config id c.key where
  toOrderly := h
  given := h.numbered.used id (Finmap.mem_of_lookup_eq_some hl)
  own x hx := by
    rw [hl, Option.some.injEq] at hx
    rw [hx]
  sole i hi := by
    rw [h.index.forward hl, Option.some.injEq] at hi
    exact hi.symm

/-- a bound on the tokens at the end of a run holds all along -/
theorem along_tokens {G : Stack P → ℕ × StackOp P → Prop} {ops : List (ℕ × StackOp P)} (hs : s.AllSound)
    (hb : (Run.exec turn s ops).nextConnectionToken < 2 ^ 64) (hG : Run.Along turn G s ops) :
    Run.Along turn (fun s op => G s op ∧ (s.turn op).nextConnectionToken < 2 ^ 64) s ops := by
  induction ops generalizing s with
  | nil => trivial
  | cons op ops ih =>
    have hle : ∀ (ops : List (ℕ × StackOp P)) {s : Stack P}, s.AllSound →
        s.nextConnectionToken ≤ (Run.exec turn s ops).nextConnectionToken := fun ops => by
      induction ops with
      | nil => exact fun _ => le_rfl
      | cons op ops ih => exact fun hs => (turn_sound hs op).2.trans (ih (turn_sound hs op).1)
    have hs' := (turn_sound hs op).1
    exact ⟨⟨hG.1, (hle ops hs').trans_lt hb⟩, ih hs' hb hG.2⟩

/-- the entry after an operation -/
theorem Watched.view (h : s.Watched config id key) (op : StackOp P) : (s.perform op).1.connections.lookup id =
    (s.act id op).elim (s.connections.lookup id) (solo s.config.1 (s.connections.lookup id)) := by
  cases perform_entries h.genuine.sound op with
  | follow hfollow =>
    rw [hfollow]
    cases hl : s.connections.lookup id with
    | none =>
      rw [Option.bind_none]
      cases s.act id op <;> rfl
    | some c =>
      rw [Option.bind_some, afterOp]
      cases s.act id op <;> rfl
  | create o _ hcreate hact =>
    rw [hcreate, Finmap.lookup_insert_of_ne _ (Numbered.ne_next h.given)]
    cases hl : s.connections.lookup id with
    | none => cases s.act id op <;> rfl
    | some c =>
      rw [hact id (Finmap.mem_of_lookup_eq_some hl)]
      rfl

/-- a removed connection has no tuple any more -/
theorem Watched.removed (h : s.Watched config id key) (hl : s.connections.lookup id = none) : s.lookup.lookup key = none := by
  cases hk : s.lookup.lookup key with
  | none => rfl
  | some i =>
    obtain ⟨x, hx, -⟩ := h.index.backward hk
    rw [h.sole i hk, hl] at hx
    cases hx

/-- an operation on a removed connection finds no tuple -/
theorem target_removed (hs : s.Tidy) (hl : s.connections.lookup id = none) {o : SocketOp} (hact : s.act id op = some o) :
    s.target op = none := by
  cases op with
  | input peer bytes nowMs =>
    simp only [act] at hact
    split at hact
    · cases hact
    · split_ifs at hact with hkey
      obtain ⟨x, hx, -⟩ := hs.index.backward hkey
      rw [hl] at hx
      cases hx
  | write i | read i | close i | abort i =>
    simp only [act] at hact
    split_ifs at hact with hi
    rw [← hi] at hl
    simp only [target, hl, Option.map_none]
  | poll | abortPeer => rfl
  | listen | closeListener | accept | connect | connectFromWithIsn | setConnectionReservation | drainOutbound => cases hact

/-- what a call on a retained connection returns -/
theorem answer_retained (hs : s.AllSound) (hl : s.connections.lookup id = some c) {o : SocketOp} (hact : s.act id op = some o)
    (hop : ∀ peer ids, op ≠ .abortPeer peer ids) : (s.answer op).map Answer.unnamed = c.reply s.config.1 o := by
  cases op with
  | input peer bytes nowMs =>
    cases hdec : Segment.decode bytes with
    | error e => simp [act, hdec] at hact
    | ok segment =>
      rw [act_input hdec] at hact
      split_ifs at hact with hkey
      cases hact
      have hok : (s.input peer bytes nowMs).2 = .ok () := by
        simp only [Stack.input, hdec, hkey, inputRetained_eq hl (hs id c hl) peer (Segment.decode_ports hdec)]
      simp only [answer, perform, hok]
      rfl
  | poll ids nowMs =>
    simp only [act] at hact
    split_ifs at hact
    cases hact
    rfl
  | write i bytes nowMs =>
    simp only [act] at hact
    split_ifs at hact with hi
    subst hi
    cases hact
    simp only [answer, reply]
    rcases hw : c.write bytes nowMs s.config.1 with e | ⟨c', count, out⟩
    · have h : s.writeWithMarker i bytes nowMs = (s, .error e) := by unfold writeWithMarker; simp only [hl, hw]
      rw [h]
      rfl
    · rw [writeWithMarker_eq hl (hs i c hl) hw]
      rfl
  | read i max =>
    simp only [act] at hact
    split_ifs at hact with hi
    subst hi
    cases hact
    simp only [answer, read_eq hl (hs i c hl)]
    rfl
  | close i nowMs =>
    simp only [act] at hact
    split_ifs at hact with hi
    subst hi
    cases hact
    simp only [answer, perform, close_eq hl (hs i c hl)]
    rfl
  | abort i =>
    simp only [act] at hact
    split_ifs at hact with hi
    subst hi
    cases hact
    simp only [answer, perform, abort_eq hl (hs i c hl)]
    rfl
  | abortPeer peer ids => exact absurd rfl (hop peer ids)
  | listen | closeListener | accept | connect | connectFromWithIsn | setConnectionReservation | drainOutbound => cases hact

/-- what a call on a removed connection returns -/
theorem answer_removed (hs : s.Tidy) (hl : s.connections.lookup id = none) {o : SocketOp} (hact : s.act id op = some o)
    (hop : ∀ peer ids, op ≠ .abortPeer peer ids) : (s.answer op).map Answer.unnamed = noReply o := by
  cases op with
  | input peer bytes nowMs =>
    cases hdec : Segment.decode bytes with
    | error e => simp [act, hdec] at hact
    | ok segment =>
      have htarget := target_removed hs hl hact
      simp [target, hdec] at htarget
  | poll ids nowMs =>
    simp only [act] at hact
    split_ifs at hact
    cases hact
    rfl
  | write i | read i | close i | abort i =>
    simp only [act] at hact
    split_ifs at hact with hi
    subst hi
    cases hact
    simp only [answer, perform, writeWithMarker, Stack.read, Stack.close, Stack.abort, hl, outcome]
    rfl
  | abortPeer peer ids => exact absurd rfl (hop peer ids)
  | listen | closeListener | accept | connect | connectFromWithIsn | setConnectionReservation | drainOutbound => cases hact

/-- **Unwinding.** The observer of a connection sees the connection alone. -/
theorem unwinds (config : ValidConfig) (id : ConnectionId) (key : ConnectionKey P) :
    Run.Unwinds turn (Watched config id key) (fun s op => Apart id key s op ∧ (s.turn op).nextConnectionToken < 2 ^ 64)
      (fun s op => s.act id op.2) (fun s => s.connections.lookup id) (shown id key) (solo config.1) (soloShown config.1 key.peer) where
  inv {s op} h hG := by
    refine (h.elsewhere op.1).perform (fun ha => ?_) hG.2
    have hapart := hG.1
    unfold Apart at hapart
    rwa [if_neg (by rw [show s.act id op.2 = (s.elsewhere op.1).act id op.2 from rfl, ha]; exact Bool.false_ne_true)] at hapart
  hidden {s op} h hG hact := by
    have hw := h.elsewhere op.1
    have hact' : (s.elsewhere op.1).act id op.2 = none := hact
    have hapart : (s.elsewhere op.1).target op.2 ≠ some key := by
      have := hG.1
      unfold Apart at this
      rwa [hact] at this
    refine ⟨(hw.view op.2).trans (by rw [hact']; rfl), ?_⟩
    have hemits := (perform_emits hw.tidy op.2).2
    have hnil : ((s.elsewhere op.1).emitted op.2).filter (fun o => belongsTo o key) = [] := by
      cases hl : (s.elsewhere op.1).connections.lookup id with
      | none => exact hemits.strange key (hw.removed hl) hapart
      | some c =>
        rw [← hw.own c hl, hemits.own id c hl]
        exact share_none hact'
    rw [shown, hnil, hact]
    rfl
  visible {s op o} h hG hact := by
    have hw := h.elsewhere op.1
    have hact' : (s.elsewhere op.1).act id op.2 = some o := hact
    have hop : ∀ peer ids, op.2 ≠ .abortPeer peer ids := by
      have := hG.1
      unfold Apart at this
      rwa [hact] at this
    have hconfig : (s.elsewhere op.1).config = config := hw.genuine.same
    have hemits := (perform_emits hw.tidy op.2).2
    refine ⟨(hw.view op.2).trans (by rw [hact', hconfig]; rfl), ?_⟩
    rw [shown, hact, soloShown, show s.connections.lookup id = (s.elsewhere op.1).connections.lookup id from rfl]
    cases hl : (s.elsewhere op.1).connections.lookup id with
    | none =>
      rw [hemits.strange key (hw.removed hl) (by rw [target_removed hw.tidy hl hact']; exact fun h => nomatch h),
        answer_removed hw.tidy hl hact' hop]
      rfl
    | some c =>
      have hpeer : c.peer = key.peer := congrArg ConnectionKey.peer (hw.own c hl)
      have hown : ((s.elsewhere op.1).emitted op.2).filter (fun o => belongsTo o key) =
          (c.said config.1 o).map (datagram key.peer) := by
        rw [← hw.own c hl, hemits.own id c hl, share, hact', hconfig]
        rfl
      rw [hown, answer_retained hw.genuine.sound hl hact' hop, hconfig, List.map_map]
      rfl

end Stack

/-- **Connections are isolated.** An operation on one tuple leaves every connection of another tuple as it is, queues for its own
tuple only, and purges at most that. Two stacks that hold the same connection, under whatever ids, show the same of it in any
two runs with the same calls on it and the same polls: the same results, the same segments of its tuple, the same connection. -/
theorem connections_isolated {P : Type} [DecidableEq P] {config : ValidConfig} {s s' : Stack P} (hs : s.Reachable config)
    (hs' : s'.Reachable config) :
    (∀ op key, s.target op = some key →
      (∀ id c, s.connections.lookup id = some c → c.key ≠ key → (s.perform op).1.connections.lookup id = some c) ∧
        ∃ left out, (s.perform op).1.outbound = left ++ out ∧ (∀ o ∈ out, Stack.belongsTo o key = true) ∧
          left.Sublist s.outbound ∧ (left.filter fun o => !Stack.belongsTo o key) = s.outbound.filter fun o => !Stack.belongsTo o key) ∧
    (∀ op, Stack.Directed op → s.target op = none →
      (s.perform op).1.connections = s.connections ∧ (s.perform op).1.outbound = s.outbound) ∧
    ∀ id id' c ops ops', s.connections.lookup id = some c → s'.connections.lookup id' = some c →
      Run.Along Stack.turn (Stack.Apart id c.key) s ops → Run.Along Stack.turn (Stack.Apart id' c.key) s' ops' →
      (Run.exec Stack.turn s ops).nextConnectionToken < 2 ^ 64 → (Run.exec Stack.turn s' ops').nextConnectionToken < 2 ^ 64 →
      Stack.calls id s ops = Stack.calls id' s' ops' →
      (Run.exec Stack.turn s ops).connections.lookup id = (Run.exec Stack.turn s' ops').connections.lookup id' ∧
        Stack.trace id c.key s ops = Stack.trace id' c.key s' ops' := by
  have ho := hs.orderly
  have ho' := hs'.orderly
  refine ⟨fun op key ht => ⟨fun id c hl hne => ho.other ht hl hne, ?_⟩, fun op hop ht => Stack.perform_untargeted hop ht, ?_⟩
  · obtain ⟨hout, hemits⟩ := Stack.perform_emits ho.tidy op
    obtain ⟨hsub, hothers⟩ := Stack.kept_others ht
    exact ⟨s.kept op, s.emitted op, hout, hemits.aimed key ht, hsub, hothers⟩
  · intro id id' c ops ops' hl hl' hapart hapart' hb hb' hcalls
    exact (Stack.unwinds config id c.key).two_runs (Stack.unwinds config id' c.key) (ho.watched hl)
      (Stack.along_tokens ho.genuine.sound hb hapart) (ho'.watched hl') (Stack.along_tokens ho'.genuine.sound hb' hapart')
      (hl.trans hl'.symm) hcalls

/-- a stack with a client connection; another stack drew a token before -/
def aloneStack : Stack ℕ := Run.exec Stack.turn (.new ⟨Config.default, Config.default_validate⟩ 5 1) [(1, .connectFromWithIsn 7 9000 80 100 0)]

/-- a stack that made another connection before this one -/
def sharedStack : Stack ℕ := Run.exec Stack.turn (.new ⟨Config.default, Config.default_validate⟩ 6 1)
  [(0, .connectFromWithIsn 8 9001 80 5 0), (0, .connectFromWithIsn 7 9000 80 100 0)]

/-- the one is drained, and opens a listener and a connection; the other loses its other connection; then both are polled -/
def aloneOps : List (ℕ × StackOp ℕ) :=
  [(0, .drainOutbound), (2, .listen 80), (0, .connectFromWithIsn 9 9001 80 5 0), (0, .poll [⟨1⟩, ⟨2⟩] 1000)]

def sharedOps : List (ℕ × StackOp ℕ) := [(0, .abort ⟨1⟩), (0, .poll [⟨2⟩] 1000)]

theorem connections_isolated_poll :
    (Run.exec Stack.turn aloneStack aloneOps).connections.lookup ⟨1⟩ = (Run.exec Stack.turn sharedStack sharedOps).connections.lookup ⟨2⟩ ∧
      Stack.trace ⟨1⟩ ⟨7, 9000, 80⟩ aloneStack aloneOps = Stack.trace ⟨2⟩ ⟨7, 9000, 80⟩ sharedStack sharedOps := by
  have hs : aloneStack.Reachable ⟨Config.default, Config.default_validate⟩ := ⟨5, 1, _, by decide, rfl, by decide⟩
  have hs' : sharedStack.Reachable ⟨Config.default, Config.default_validate⟩ := ⟨6, 1, _, by decide, rfl, by decide⟩
  have hother : ∀ {s : Stack ℕ} {id : ConnectionId} {key : ConnectionKey ℕ} {op : ℕ × StackOp ℕ}, s.act id op.2 = none →
      (s.elsewhere op.1).target op.2 ≠ some key → s.Apart id key op := fun h ht => by
    unfold Stack.Apart
    rwa [h]
  have hpoll : ∀ {s : Stack ℕ} {id : ConnectionId} {key : ConnectionKey ℕ} {ids : List ConnectionId} {t : ℕ},
      (s.act id (.poll ids t)).isSome = true → s.Apart id key (0, .poll ids t) := fun h => by
    unfold Stack.Apart
    rw [if_pos h]
    exact fun _ _ h => nomatch h
  exact (connections_isolated hs hs').2.2 ⟨1⟩ ⟨2⟩ (Connection.client 7 9000 80 100 0 Config.default 2).1 aloneOps sharedOps (by decide)
    (by decide) ⟨hother rfl (by decide), hother rfl (by decide), hother rfl (by decide), hpoll (by decide), trivial⟩
    ⟨hother rfl (by decide), hpoll (by decide), trivial⟩ (by decide) (by decide) (by decide)

end FipsTcp
