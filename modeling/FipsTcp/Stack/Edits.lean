/-
What the operations of a stack do to its connection table.

`View` is the part of a stack that the table consists of, `Edit` an edit of one entry, `Change` what one operation may do: a
sequence of edits, or the creation of one connection under the guards of `ensure_connection_capacity`. `perform_change` says
that every operation is a change, whatever it is given; invariants of the table are then proved by cases on edits.
`ok_run`: every connection that is retained after some run is sound.
-/
import FipsTcp.Stack.Calls

namespace FipsTcp

open Table Connection

namespace Stack

variable {P : Type} [DecidableEq P]

/-- the part of a stack that the table consists of -/
structure View (P : Type) where
  config : ValidConfig
  reservation : Option (ConnectionReservation P)
  connections : Finmap fun _ : ConnectionId => Connection P
  lookup : Finmap fun _ : ConnectionKey P => ConnectionId
  nextConnectionId : ℕ
  nextConnectionToken : ℕ

def view (s : Stack P) : View P :=
  ⟨s.config, s.reservation, s.connections, s.lookup, s.nextConnectionId, s.nextConnectionToken⟩

namespace View

variable {v v' : View P}

/-- an edit of one entry of the table, or of the reservation -/
inductive Edit : View P → View P → Prop
  | update (v : View P) (id : ConnectionId) (c c' : Connection P) (h : v.connections.lookup id = some c)
      (hkey : c'.key = c.key) (hsound : c'.Sound v.config.1) :
      Edit v { v with connections := v.connections.insert id c' }
  | remove (v : View P) (id : ConnectionId) (c : Connection P) (h : v.connections.lookup id = some c) :
      Edit v { v with connections := v.connections.erase id, lookup := v.lookup.erase c.key }
  | reserve (v : View P) (reservation : Option (ConnectionReservation P)) : Edit v { v with reservation }

abbrev Edits : View P → View P → Prop := Relation.ReflTransGen Edit

/-- what `ensure_connection_capacity` grants -/
structure Admits (v : View P) (peer : P) : Prop where
  size : v.connections.keys.card < v.config.1.maxConnections
  perPeer : (having (fun c => decide (c.peer = peer)) v.connections).card < v.config.1.maxConnectionsPerPeer
  reserved : ∀ reservation, v.reservation = some reservation → reservation.eligible peer = false →
    v.connections.keys.card < v.config.1.maxConnections - reservation.slots

/-- what one operation may do to the table -/
inductive Change : View P → View P → Prop
  | edits {v v' : View P} (h : Edits v v') : Change v v'
  | create (v : View P) (c : Connection P) (hroom : v.Admits c.peer) (hkey : v.lookup.lookup c.key = none)
      (hsound : c.Sound v.config.1) :
      Change v { v with
        connections := v.connections.insert ⟨v.nextConnectionId⟩ c
        lookup := v.lookup.insert c.key ⟨v.nextConnectionId⟩
        nextConnectionId := max ((v.nextConnectionId + 1) % 2 ^ 64) 1
        nextConnectionToken := v.nextConnectionToken + 1 }

/-- every retained connection is sound -/
def Ok (v : View P) : Prop := ∀ id c, v.connections.lookup id = some c → c.Sound v.config.1

/-! ## Edits -/

theorem Edit.config (h : Edit v v') : v'.config = v.config := by cases h <;> rfl

omit [DecidableEq P] in
theorem ok_insert (hv : v.Ok) {c : Connection P} (hc : c.Sound v.config.1) (id : ConnectionId) :
    ∀ i x, (v.connections.insert id c).lookup i = some x → x.Sound v.config.1 := by
  intro i x hx
  by_cases hi : i = id
  · subst hi
    rw [Finmap.lookup_insert, Option.some.injEq] at hx
    subst hx; exact hc
  · rw [Finmap.lookup_insert_of_ne _ hi] at hx
    exact hv i x hx

theorem Edit.ok (h : Edit v v') (hv : v.Ok) : v'.Ok := by
  cases h with
  | update id c c' h hkey hsound => exact ok_insert hv hsound id
  | remove id c h =>
    intro i x hx
    have hi : i ≠ id := fun hi => by rw [hi, Finmap.lookup_erase] at hx; cases hx
    rw [Finmap.lookup_erase_ne hi] at hx
    exact hv i x hx
  | reserve => exact hv

theorem Edit.index (h : Edit v v') (hv : Indexed Connection.key v.connections v.lookup) :
    Indexed Connection.key v'.connections v'.lookup := by
  cases h with
  | update id c c' h hkey hsound => exact hv.update h hkey
  | remove id c h => exact hv.erase h
  | reserve => exact hv

theorem Edits.ok (h : Edits v v') (hv : v.Ok) : v'.Ok := by
  induction h with
  | refl => exact hv
  | tail _ h ih => exact h.ok ih

theorem Edits.index (h : Edits v v') (hv : Indexed Connection.key v.connections v.lookup) :
    Indexed Connection.key v'.connections v'.lookup := by
  induction h with
  | refl => exact hv
  | tail _ h ih => exact h.index ih

/-- an edit creates nothing: no id is new, and the cursors stay -/
theorem Edit.no_new (h : Edit v v') : (∀ id ∈ v'.connections, id ∈ v.connections) ∧
    v'.nextConnectionId = v.nextConnectionId ∧ v'.nextConnectionToken = v.nextConnectionToken := by
  cases h with
  | update id c c' h hkey hsound =>
    refine ⟨fun i hi => ?_, rfl, rfl⟩
    rcases Finmap.mem_insert.1 hi with hi | hi
    · rw [hi]; exact Finmap.mem_of_lookup_eq_some h
    · exact hi
  | remove id c h => exact ⟨fun i hi => (Finmap.mem_erase.1 hi).2, rfl, rfl⟩
  | reserve => exact ⟨fun _ hi => hi, rfl, rfl⟩

theorem Change.ok (h : Change v v') (hv : v.Ok) : v'.Ok := by
  cases h with
  | edits h => exact h.ok hv
  | create c hroom hkey hsound => exact ok_insert hv hsound _

/-- the index stays exact as long as no connection is made under an id that is still in use -/
theorem Change.index (h : Change v v') (hfresh : v.connections.lookup ⟨v.nextConnectionId⟩ = none)
    (hv : Indexed Connection.key v.connections v.lookup) : Indexed Connection.key v'.connections v'.lookup := by
  cases h with
  | edits h => exact h.index hv
  | create c hroom hkey hsound => exact hv.insert hfresh hkey

theorem Edits.no_new (h : Edits v v') : (∀ id ∈ v'.connections, id ∈ v.connections) ∧
    v'.nextConnectionToken = v.nextConnectionToken ∧ v'.config = v.config := by
  induction h with
  | refl => exact ⟨fun _ h => h, rfl, rfl⟩
  | tail _ h ih =>
    obtain ⟨h1, -, h2⟩ := h.no_new
    exact ⟨fun id hid => ih.1 id (h1 id hid), h2.trans ih.2.1, h.config.trans ih.2.2⟩

theorem Change.cursors (h : Change v v') : v.nextConnectionToken ≤ v'.nextConnectionToken ∧ v'.config = v.config := by
  cases h with
  | edits h =>
    obtain ⟨-, h1, h2⟩ := h.no_new
    exact ⟨h1.ge, h2⟩
  | create => exact ⟨Nat.le_succ _, rfl⟩

end View

/-! ## Every operation is a change -/

section Operations

variable {s : Stack P} {id : ConnectionId} {c c' : Connection P} {segments : List Segment}

/-- a call that keeps its connection edits one entry -/
theorem put_edit (hl : s.connections.lookup id = some c) (hk : Kept s.config.1 c segments c') :
    s.view.Edit (s.put id c' segments).view := View.Edit.update s.view id c c' hl (key_of_stable hk.key) hk.sound

theorem drop_edit (hl : s.connections.lookup id = some c) : s.view.Edit (s.drop id c.key).view :=
  View.Edit.remove s.view id c hl

theorem aborted_edit (hl : s.connections.lookup id = some c) : s.view.Edit (s.aborted id c).view :=
  View.Edit.remove s.view id c hl

/-- what `ensure_connection_capacity` grants, it grants of the table -/
theorem admits_of_capacity {peer : P} (h : s.ensureConnectionCapacity peer = .ok ()) : s.view.Admits peer := by
  unfold ensureConnectionCapacity at h
  split_ifs at h with hlim
  obtain ⟨h1, h2⟩ := not_or.1 hlim
  refine ⟨Nat.lt_of_not_le h1, Nat.lt_of_not_le h2, fun reservation hr he => ?_⟩
  have hr' : s.reservation = some reservation := hr
  rw [hr'] at h
  simp only at h
  split_ifs at h with hres
  exact Nat.lt_of_not_le fun hle => hres ⟨hle, he⟩

theorem create_change (hcap : s.ensureConnectionCapacity c.peer = .ok ()) (hkey : s.lookup.lookup c.key = none)
    (hsound : c.Sound s.config.1) : s.view.Change (s.create c segments).view :=
  View.Change.create s.view c (admits_of_capacity hcap) hkey hsound

theorem pollOne_edits (hok : s.view.Ok) (id : ConnectionId) (nowMs : ℕ) : s.view.Edits (pollOne nowMs s id).view := by
  cases hl : s.connections.lookup id with
  | none => unfold pollOne; rw [hl]
  | some c =>
    obtain ⟨hopen, hst⟩ := (hok id c hl).poll s.config.valid nowMs
    rw [pollOne_eq hl (hok id c hl)]
    split_ifs with hc
    · exact Relation.ReflTransGen.single (drop_edit hl)
    · exact Relation.ReflTransGen.single (put_edit hl (hopen (by simpa using hc)))

theorem poll_edits (hok : s.view.Ok) (ids : List ConnectionId) (nowMs : ℕ) : s.view.Edits (s.poll ids nowMs).view := by
  unfold Stack.poll
  induction ids generalizing s with
  | nil => exact Relation.ReflTransGen.refl
  | cons id ids ih =>
    have h1 := pollOne_edits hok id nowMs
    exact h1.trans (ih (h1.ok hok))

theorem abortAll_edits (ids : List ConnectionId) (hok : s.view.Ok) : s.view.Edits (abortAll ids s).1.view := by
  induction ids generalizing s with
  | nil => exact Relation.ReflTransGen.refl
  | cons id ids ih =>
    unfold abortAll
    cases hl : s.connections.lookup id with
    | none => unfold abort; simp only [hl]; exact Relation.ReflTransGen.refl
    | some c =>
      rw [abort_eq hl (hok id c hl)]
      have h1 : s.view.Edits (s.aborted id c).view := Relation.ReflTransGen.single (aborted_edit hl)
      exact h1.trans (ih (h1.ok hok))

/-- **A segment of a retained connection** edits its entry. -/
theorem onRetained_edit (hok : s.view.Ok) (hl : s.connections.lookup id = some c) {segment : Segment}
    (hp : segment.srcPort ≠ 0 ∧ segment.dstPort ≠ 0) (nowMs : ℕ) (h : c.unacceptableAck segment = false)
    (h' : c.unexpectedSyn segment = false) : s.view.Edit (s.onRetained id c segment nowMs).view := by
  have hopen := ((hok id c hl).input s.config.valid hp nowMs).1
  simp only [Connection.input, h, h', Bool.false_eq_true, if_false] at hopen
  unfold onRetained
  simp only
  split_ifs with hcl ha
  · exact drop_edit hl
  · exact put_edit hl (hopen (by simpa using hcl))
  · exact put_edit hl (hopen (by simpa using hcl))

theorem call_change (hok : s.view.Ok) {op : StackOp P} {s' : Stack P} {result : Except Failure Unit}
    (h : s.Call op s' result) : s.view.Change s'.view := by
  have hsame : s.view.Change s.view := .edits Relation.ReflTransGen.refl
  cases h with
  | connected op peer localPort remotePort isn nowMs port cursor hop hl hr hcap hkey =>
    obtain ⟨hsound, -⟩ := sound_client s.config.valid peer hl hr isn nowMs s.nextConnectionToken
    exact create_change (s := s.moveCursors port cursor) hcap hkey hsound
  | opened peer bytes nowMs segment hdec hkey hopen hver hcap =>
    obtain ⟨hsound, h1, h2, h3, -⟩ := sound_server s.config.valid peer (Segment.decode_ports hdec) s.nextIsn.2 nowMs
      s.nextConnectionToken
    refine create_change (s := s.nextIsn.1) ?_ ?_ hsound
    · rw [h1]; exact hcap
    · rw [Connection.key, h1, h2, h3]; exact hkey
  | handled peer bytes nowMs segment id c hdec hkey hl h h' =>
    exact .edits (Relation.ReflTransGen.single (onRetained_edit hok hl (Segment.decode_ports hdec) nowMs h h'))
  | wrote id bytes nowMs c c' count segments hl hw =>
    exact .edits (Relation.ReflTransGen.single (put_edit hl ((hok id c hl).write s.config.valid hw)))
  | read id max c hl =>
    exact .edits (Relation.ReflTransGen.single (put_edit hl ((hok id c hl).read s.config.valid max)))
  | closed id nowMs c hl =>
    refine .edits (Relation.ReflTransGen.single ?_)
    split_ifs
    · exact drop_edit hl
    · exact put_edit hl ((hok id c hl).close s.config.valid nowMs)
  | aborted id c hl => exact .edits (Relation.ReflTransGen.single (aborted_edit hl))
  | abortedPeer peer ids hids => exact .edits (abortAll_edits ids hok)
  | polled ids nowMs hids => exact .edits (poll_edits hok ids nowMs)
  | reserved slots eligible =>
    exact .edits (Relation.ReflTransGen.single (View.Edit.reserve s.view (if slots ≠ 0 then some ⟨slots, eligible⟩ else none)))
  | accepted port =>
    have h : (s.accept port).1.view = s.view := by
      unfold accept
      cases s.accepts.lookup port <;> rfl
    rw [h]; exact hsame
  | refused | connectRefused | listened | closedListener | malformed | stale | ignored | rejected | reset | challenged
  | unpolled | unabortedPeer | drained => exact hsame

/-- **What an operation does to the table.** -/
theorem perform_change (hok : s.view.Ok) (op : StackOp P) :
    s.view.Change (s.perform op).1.view ∧
      (Indexed Connection.key s.connections s.lookup → (s.perform op).2 ≠ .error .panic) := by
  have h := perform_call hok op
  refine ⟨call_change hok h, fun hidx hpanic => ?_⟩
  rw [hpanic] at h
  generalize (s.perform op).1 = s' at h
  cases h with
  | stale peer bytes nowMs segment id hdec hkey hl =>
    obtain ⟨c, hc, -⟩ := hidx.backward hkey
    rw [hl] at hc; cases hc

end Operations

/-! ## Runs -/

omit [DecidableEq P] in
theorem no_connection {id : ConnectionId} {c : Connection P}
    (h : (∅ : Finmap fun _ : ConnectionId => Connection P).lookup id = some c) : False :=
  nomatch (Finmap.lookup_empty _).symm.trans h

/-- **Soundness after every run.** -/
theorem ok_run (config : ValidConfig) (isnSeed : BitVec 64) (token : ℕ) (ops : List (StackOp P)) :
    (run config isnSeed token ops).view.Ok ∧ (run config isnSeed token ops).config = config := by
  refine Run.exec_invariant (P := fun s : Stack P => s.view.Ok ∧ s.config = config) (fun s op ⟨hok, hc⟩ => ?_)
    ⟨fun _ _ h => (no_connection h).elim, rfl⟩ ops
  have hchange := (perform_change hok op).1
  exact ⟨hchange.ok hok, (show (s.perform op).1.config = s.config from hchange.cursors.2).trans hc⟩

end Stack

end FipsTcp
