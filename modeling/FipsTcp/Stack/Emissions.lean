/-
What an operation of a stack queues, tuple by tuple.

An operation leaves a part of the queue (`kept`: all but what an abort purges or the application drains) and appends the rest
(`emitted`). What it appends for the tuple of a retained connection is what that connection says to its share of the operation,
and for other tuples it appends nothing, the tuple it is directed at (`target`) apart.
- `poll_queue`, `abortAll_queue`: what the loops of `poll` and `abort_peer` queue, one connection after the other;
- `Emits`, `perform_emits`: the statement, for every operation.
-/
import FipsTcp.Connection.Addressed
import FipsTcp.Stack.Entries
import FipsTcp.Stack.Teardown

namespace FipsTcp

open Table Connection

namespace Stack

variable {P : Type} [DecidableEq P]

/-- the tuple that an operation is directed at, if any -/
def target (s : Stack P) : StackOp P → Option (ConnectionKey P)
  | .input peer bytes _ =>
    match Segment.decode bytes with
    | .ok segment => some ⟨peer, segment.dstPort, segment.srcPort⟩
    | .error _ => none
  | .write id _ _ | .read id _ | .close id _ | .abort id => (s.connections.lookup id).map Connection.key
  | .connectFromWithIsn peer localPort remotePort _ _ => some ⟨peer, localPort, remotePort⟩
  | .connect peer remotePort _ =>
    match (s.allocateEphemeralPort peer remotePort).2 with
    | .ok localPort => some ⟨peer, localPort, remotePort⟩
    | .error _ => none
  | _ => none

/-- what an operation leaves of the queue -/
def kept (s : Stack P) : StackOp P → List (Outbound P)
  | .drainOutbound => []
  | .abort id => s.outbound.filter fun o => (s.connections.lookup id).all fun c => !belongsTo o c.key
  | .abortPeer peer ids =>
    if IsOrderOf ids (s.peerConnections peer) then
      s.outbound.filter fun o => ids.all fun id => (s.connections.lookup id).all fun c => !belongsTo o c.key
    else s.outbound
  | _ => s.outbound

/-- what it appends -/
def emitted (s : Stack P) (op : StackOp P) : List (Outbound P) := (s.perform op).1.outbound.drop (s.kept op).length

/-- what a retained connection says to its share of an operation -/
def share (s : Stack P) (op : StackOp P) (id : ConnectionId) (c : Connection P) : List (Outbound P) :=
  ((s.act id op).elim [] (c.said s.config.1)).map (datagram c.peer)

/-- what the operation queues, tuple by tuple -/
structure Emits (s : Stack P) (op : StackOp P) (out : List (Outbound P)) : Prop where
  own : ∀ id c, s.connections.lookup id = some c → (out.filter fun o => belongsTo o c.key) = s.share op id c
  strange : ∀ key, s.lookup.lookup key = none → s.target op ≠ some key → (out.filter fun o => belongsTo o key) = []
  aimed : ∀ key, s.target op = some key → ∀ o ∈ out, belongsTo o key = true

variable {s s' : Stack P} {op : StackOp P} {id : ConnectionId} {c : Connection P} {key key' : ConnectionKey P} {o : Outbound P}
  {out : List (Outbound P)} {segments : List Segment} {t nowMs : ℕ}

/-! ## Tuples of datagrams -/

/-- a datagram belongs to one tuple -/
theorem belongsTo_unique (h : belongsTo o key = true) (h' : belongsTo o key' = true) : key = key' := by
  unfold belongsTo at h h'
  rw [Bool.and_eq_true, decide_eq_true_eq] at h h'
  cases hdec : Segment.decode o.bytes with
  | error e => rw [hdec] at h; exact nomatch h.2
  | ok segment =>
    rw [hdec] at h h'
    simp only [decide_eq_true_eq] at h h'
    obtain ⟨h1, h2, h3⟩ := h
    obtain ⟨h4, h5, h6⟩ := h'
    cases key; cases key'
    simp only [ConnectionKey.mk.injEq]
    exact ⟨h1.symm.trans h4, h2.symm.trans h5, h3.symm.trans h6⟩

theorem belongsTo_datagram {x : Segment} (he : x.Encodes) (hp : x.Plain) (peer : P) :
    belongsTo (datagram peer x) ⟨peer, x.srcPort, x.dstPort⟩ = true := by
  obtain ⟨bytes, hd, hdec⟩ := datagram_decode peer he hp
  rw [hd, belongsTo, hdec]
  simp

theorem addressed_belongsTo {x : Segment} (h : c.Addressed x) (he : x.Encodes) : belongsTo (datagram c.peer x) c.key = true := by
  have := belongsTo_datagram he h.plain c.peer
  rwa [h.source, h.target] at this

theorem belongs_map (h : ∀ x ∈ segments, x.Encodes ∧ c.Addressed x) :
    ∀ o ∈ segments.map (datagram c.peer), belongsTo o c.key = true := by
  intro o ho
  obtain ⟨x, hx, rfl⟩ := List.mem_map.1 ho
  exact addressed_belongsTo (h x hx).2 (h x hx).1

theorem filter_own (h : ∀ o ∈ out, belongsTo o key = true) : (out.filter fun o => belongsTo o key) = out :=
  List.filter_eq_self.2 h

theorem filter_other (h : ∀ o ∈ out, belongsTo o key = true) (hne : key' ≠ key) : (out.filter fun o => belongsTo o key') = [] :=
  List.filter_eq_nil_iff.2 fun o ho ho' => hne (belongsTo_unique ho' (h o ho))

/-! ## Operations with one tuple -/

/-- an operation that queues nothing -/
theorem Emits.silent (h : ∀ id c, s.connections.lookup id = some c → s.share op id c = []) : Emits s op [] where
  own id c hl := (h id c hl).symm
  strange _ _ _ := rfl
  aimed _ _ _ ho := nomatch ho

/-- an operation that queues for its own tuple only -/
theorem Emits.single (ht : s.target op = some key) (hout : ∀ o ∈ out, belongsTo o key = true)
    (hown : ∀ id c, s.connections.lookup id = some c → c.key = key → out = s.share op id c)
    (hother : ∀ id c, s.connections.lookup id = some c → c.key ≠ key → s.share op id c = []) : Emits s op out where
  own id c hl := by
    by_cases hk : c.key = key
    · rw [← hown id c hl hk, hk]
      exact filter_own hout
    · rw [hother id c hl hk]
      exact filter_other hout hk
  strange key' _ hne := filter_other hout fun h => hne (h ▸ ht)
  aimed key' h := by
    rw [ht, Option.some.injEq] at h
    exact h ▸ hout

/-- the stacks that the statements are about -/
structure Tidy (s : Stack P) : Prop where
  sound : s.AllSound
  index : Indexed Connection.key s.connections s.lookup
  flagged : ∀ id c, s.connections.lookup id = some c → c.Flagged

/-- an operation on one retained connection -/
theorem Emits.one (hs : s.Tidy) (hl : s.connections.lookup id = some c) {o : SocketOp} (hact : s.act id op = some o)
    (ht : s.target op = some c.key) (ho : c.ForTuple o) (hother : ∀ i ≠ id, s.act i op = none) :
    Emits s op ((c.said s.config.1 o).map (datagram c.peer)) := by
  refine .single ht (belongs_map (said_addressed (hs.sound id c hl) (hs.flagged id c hl) ho)) (fun i x hx hk => ?_) fun i x hx hk => ?_
  · have hi := hs.index.injective hx hl hk
    subst hi
    rw [hl, Option.some.injEq] at hx
    rw [share, hact, hx]
    rfl
  · have hi : i ≠ id := fun hi => hk (by rw [hi, hl, Option.some.injEq] at hx; rw [hx])
    rw [share, hother i hi]
    rfl

/-! ## The loops -/

section Loops

/-- one entry of a list without repetition contributes -/
theorem flatMap_single {ι α : Type*} [DecidableEq ι] {ids : List ι} {f : ι → List α} {i : ι} (hn : ids.Nodup)
    (h : ∀ j ∈ ids, j ≠ i → f j = []) : ids.flatMap f = if i ∈ ids then f i else [] := by
  induction ids with
  | nil => rfl
  | cons j ids ih =>
    obtain ⟨hj, hn⟩ := List.nodup_cons.1 hn
    have htail := ih hn fun k hk => h k (List.mem_cons_of_mem _ hk)
    rw [List.flatMap_cons, htail]
    by_cases hij : j = i
    · subst hij
      rw [if_neg hj, if_pos List.mem_cons_self, List.append_nil]
    · have hmem : i ∈ j :: ids ↔ i ∈ ids := by rw [List.mem_cons, or_iff_right (Ne.symm hij)]
      rw [h j List.mem_cons_self hij, List.nil_append]
      simp only [hmem]

/-- what a list of connections says to one operation -/
def chorus (s : Stack P) (o : SocketOp) (ids : List ConnectionId) : List (Outbound P) :=
  ids.flatMap fun id => (s.connections.lookup id).elim [] fun c => (c.said s.config.1 o).map (datagram c.peer)

theorem chorus_cons (s : Stack P) (o : SocketOp) (id : ConnectionId) (ids : List ConnectionId) :
    s.chorus o (id :: ids) = s.chorus o [id] ++ s.chorus o ids := by
  simp only [chorus, List.flatMap_cons, List.flatMap_nil, List.append_nil]

theorem chorus_congr {o : SocketOp} {ids : List ConnectionId} (hc : s'.config = s.config)
    (h : ∀ id ∈ ids, s'.connections.lookup id = s.connections.lookup id) : s'.chorus o ids = s.chorus o ids := by
  unfold chorus
  rw [hc]
  exact List.flatMap_congr fun id hid => by rw [h id hid]

/-- every connection of the list speaks for its own tuple -/
theorem chorus_own (hs : s.Tidy) {o : SocketOp} (ho : ∀ c : Connection P, c.ForTuple o) {ids : List ConnectionId} (hn : ids.Nodup)
    (hl : s.connections.lookup id = some c) :
    ((s.chorus o ids).filter fun x => belongsTo x c.key) =
      if id ∈ ids then (c.said s.config.1 o).map (datagram c.peer) else [] := by
  have hsaid : ∀ i x, s.connections.lookup i = some x → ∀ y ∈ (x.said s.config.1 o).map (datagram x.peer), belongsTo y x.key = true :=
    fun i x hx => belongs_map (said_addressed (hs.sound i x hx) (hs.flagged i x hx) (ho x))
  unfold chorus
  rw [List.filter_flatMap, flatMap_single hn (i := id)]
  · rw [hl, Option.elim_some, filter_own (hsaid id c hl)]
  · intro i hi hne
    cases hx : s.connections.lookup i with
    | none => rfl
    | some x =>
      rw [Option.elim_some]
      exact filter_other (hsaid i x hx) fun hk => hne (hs.index.injective hx hl hk.symm)

/-- what is said belongs to the tuple of its speaker -/
theorem chorus_belongs (hs : s.Tidy) {o : SocketOp} (ho : ∀ c : Connection P, c.ForTuple o) {ids : List ConnectionId}
    {y : Outbound P} (hy : y ∈ s.chorus o ids) : ∃ i x, s.connections.lookup i = some x ∧ belongsTo y x.key = true := by
  obtain ⟨i, -, hy⟩ := List.mem_flatMap.1 hy
  cases hx : s.connections.lookup i with
  | none =>
    rw [hx] at hy
    exact nomatch hy
  | some x =>
    rw [hx, Option.elim_some] at hy
    exact ⟨i, x, hx, belongs_map (said_addressed (hs.sound i x hx) (hs.flagged i x hx) (ho x)) y hy⟩

theorem chorus_strange (hs : s.Tidy) {o : SocketOp} (ho : ∀ c : Connection P, c.ForTuple o) {ids : List ConnectionId}
    (hkey : s.lookup.lookup key = none) : ((s.chorus o ids).filter fun x => belongsTo x key) = [] := by
  rw [List.filter_eq_nil_iff]
  intro y hy hb
  obtain ⟨i, x, hx, this⟩ := chorus_belongs hs ho hy
  have hf := hs.index.forward hx
  rw [belongsTo_unique this hb, hkey] at hf
  cases hf

/-- **What a poll queues.** -/
theorem poll_queue (hs : s.AllSound) {ids : List ConnectionId} (hn : ids.Nodup) :
    (s.poll ids t).outbound = s.outbound ++ s.chorus (.poll t) ids := by
  induction ids generalizing s with
  | nil => exact (List.append_nil _).symm
  | cons id ids ih =>
    obtain ⟨hid, hn⟩ := List.nodup_cons.1 hn
    have hone : (pollOne t s id).outbound = s.outbound ++ s.chorus (.poll t) [id] := by
      cases hl : s.connections.lookup id with
      | none =>
        simp only [pollOne, hl, chorus, List.flatMap_cons, List.flatMap_nil, Option.elim_none, List.append_nil]
      | some c =>
        have hnil : (c.poll t s.config.1).2.closed = true → (c.poll t s.config.1).2.segments = [] :=
          (poll_moves s.config.1 t (hs id c hl).mss).2
        rw [pollOne_eq hl (hs id c hl)]
        simp only [chorus, List.flatMap_cons, List.flatMap_nil, List.append_nil, hl, Option.elim_some, said]
        have hpeer : (c.poll t s.config.1).1.peer = c.peer :=
          congrArg Stable.peer ((hs id c hl).poll s.config.valid t).2
        split_ifs with hc
        · rw [hnil hc, List.map_nil, List.append_nil]
          rfl
        · rw [put, hpeer]
          rfl
    obtain ⟨-, hconfig⟩ := pollOne_lookup t s id id
    have hrest : ∀ i ∈ ids, (pollOne t s id).connections.lookup i = s.connections.lookup i := fun i hi => by
      rw [(pollOne_lookup t s id i).1, if_neg fun h : i = id => hid (h ▸ hi)]
    have hs' : (pollOne t s id).AllSound := (pollOne_edits hs id t).ok hs
    have htail := ih hs' hn
    rw [chorus_congr hconfig hrest, hone, List.append_assoc, ← chorus_cons] at htail
    exact htail

theorem Tidy.aborted (hs : s.Tidy) (hl : s.connections.lookup id = some c) : (s.aborted id c).Tidy where
  sound := hs.sound.aborted id c
  index := hs.index.erase hl
  flagged i x hx := by
    have hi : i ≠ id := fun hi => by rw [hi] at hx; exact nomatch (Finmap.lookup_erase _ _).symm.trans hx
    exact hs.flagged i x ((Finmap.lookup_erase_ne hi).symm.trans hx)

/-- **What aborting a list of connections queues**, after it purged their tuples. -/
theorem abortAll_queue (hs : s.Tidy) {ids : List ConnectionId} (hn : ids.Nodup) (hids : ∀ id ∈ ids, id ∈ s.connections) :
    (abortAll ids s).1.outbound =
      (s.outbound.filter fun o => ids.all fun id => (s.connections.lookup id).all fun c => !belongsTo o c.key) ++
        s.chorus .abort ids := by
  induction ids generalizing s with
  | nil =>
    simp only [List.all_nil, List.filter_true, chorus, List.flatMap_nil, List.append_nil]
    rfl
  | cons id ids ih =>
    obtain ⟨hid, hn⟩ := List.nodup_cons.1 hn
    obtain ⟨c, hl⟩ := Finmap.mem_iff.1 (hids id List.mem_cons_self)
    have hrest : ∀ i ∈ ids, (s.aborted id c).connections.lookup i = s.connections.lookup i := fun i hi =>
      Finmap.lookup_erase_ne fun h => hid (h ▸ hi)
    have hmem : ∀ i ∈ ids, i ∈ (s.aborted id c).connections := fun i hi =>
      Finmap.mem_erase.2 ⟨fun h => hid (h ▸ hi), hids i (List.mem_cons_of_mem _ hi)⟩
    have htail := ih (hs.aborted hl) hn hmem
    -- the reset of this connection is no datagram of the others
    have hreset : ∀ i ∈ ids, ((s.connections.lookup i).all fun x => !belongsTo (datagram c.peer c.resetSegment) x.key) = true :=
      fun i hi => by
        cases hx : s.connections.lookup i with
        | none => rfl
        | some x =>
          have hb : belongsTo (datagram c.peer c.resetSegment) c.key = true :=
            addressed_belongsTo c.resetSegment_addressed (buildSegment_encodes (hs.sound id c hl).ports.1 (hs.sound id c hl).ports.2 [])
          have hne : i ≠ id := fun h => hid (h ▸ hi)
          rw [Option.all_some, Bool.not_eq_true', Bool.eq_false_iff]
          exact fun hb' => hne (hs.index.injective hx hl (belongsTo_unique hb' hb))
    have hall : ∀ o, (ids.all fun i => ((s.aborted id c).connections.lookup i).all fun x => !belongsTo o x.key) =
        ids.all fun i => (s.connections.lookup i).all fun x => !belongsTo o x.key := fun o => by
      rw [Bool.eq_iff_iff, List.all_eq_true, List.all_eq_true]
      exact forall₂_congr fun i hi => by rw [hrest i hi]
    have hchorus : (s.aborted id c).chorus .abort ids = s.chorus .abort ids := chorus_congr rfl hrest
    unfold abortAll
    rw [abort_eq hl (hs.sound id c hl)]
    have hone : s.chorus .abort [id] = [datagram c.peer c.resetSegment] := by
      simp only [chorus, List.flatMap_cons, List.flatMap_nil, List.append_nil, hl, Option.elim_some, said, List.map_cons,
        List.map_nil]
    simp only [hall, hchorus] at htail
    rw [htail, chorus_cons, hone, ← List.append_assoc]
    congr 1
    simp only [Stack.aborted, drop, List.filter_append, List.filter_filter, List.all_cons, hl, Option.all_some]
    congr 1
    · exact List.filter_congr fun o _ => Bool.and_comm _ _
    · rw [List.filter_cons, if_pos (List.all_eq_true.2 hreset)]
      rfl

end Loops

/-! ## Every operation -/

theorem share_none (h : s.act id op = none) : s.share op id c = [] := by
  rw [share, h]
  rfl

/-- a tuple that is in the index is that of the connection -/
theorem key_of_lookup (hs : s.Tidy) (hkey : s.lookup.lookup key = some id) (hl : s.connections.lookup id = some c) : c.key = key := by
  obtain ⟨x, hx, hk⟩ := hs.index.backward hkey
  rw [hl, Option.some.injEq] at hx
  exact hx ▸ hk

/-- an operation that queues for a tuple without a connection -/
theorem Emits.fresh (hs : s.Tidy) (ht : s.target op = some key) (hkey : s.lookup.lookup key = none)
    (hout : ∀ o ∈ out, belongsTo o key = true) (hact : ∀ i c, s.connections.lookup i = some c → s.act i op = none) :
    Emits s op out := by
  refine .single ht hout (fun i x hx hk => ?_) fun i x hx _ => share_none (hact i x hx)
  have hf := hs.index.forward hx
  rw [hk, hkey] at hf
  cases hf

/-- a segment of a retained connection -/
theorem Emits.input (hs : s.Tidy) {peer : P} {bytes : List U8} {segment : Segment} (hdec : Segment.decode bytes = .ok segment)
    (hkey : s.lookup.lookup ⟨peer, segment.dstPort, segment.srcPort⟩ = some id) (hl : s.connections.lookup id = some c) :
    Emits s (.input peer bytes nowMs) ((c.said s.config.1 (.input segment nowMs)).map (datagram c.peer)) := by
  have hk := key_of_lookup hs hkey hl
  refine .one hs hl ?_ ?_ ?_ fun i hi => ?_
  · rw [act_input hdec, if_pos hkey]
  · simp only [target, hdec, hk]
  · intro x hx
    cases hx
    exact ⟨(congrArg ConnectionKey.localPort hk).symm, (congrArg ConnectionKey.remotePort hk).symm⟩
  · rw [act_input hdec, hkey, if_neg fun h => hi (Option.some.inj h).symm]

/-- an answer without a look at the connection -/
theorem said_answered {segment : Segment} {segments : List Segment}
    (hin : c.input segment nowMs s.config.1 = (c, .open segments)) :
    c.said s.config.1 (.input segment nowMs) = segments := by
  simp only [said, hin, Update.open]

theorem onRetained_queue (hs : s.Tidy) (hl : s.connections.lookup id = some c) {segment : Segment}
    (hp : segment.srcPort ≠ 0 ∧ segment.dstPort ≠ 0) (h : c.unacceptableAck segment = false) (h' : c.unexpectedSyn segment = false) :
    (s.onRetained id c segment nowMs).outbound =
      s.outbound ++ (c.said s.config.1 (.input segment nowMs)).map (datagram c.peer) := by
  obtain ⟨hopen, hclosed⟩ := (hs.sound id c hl).input s.config.valid hp nowMs
  have hin : c.input segment nowMs s.config.1 = c.onSegment segment nowMs s.config.1 := by
    rw [Connection.input, if_neg (by simp [h]), if_neg (by simp [h'])]
  simp only [said]
  rw [hin] at hopen hclosed ⊢
  unfold onRetained
  simp only
  cases hc : (c.onSegment segment nowMs s.config.1).2.closed with
  | true =>
    rw [if_pos rfl, (hclosed hc).1, List.map_nil, List.append_nil]
    rfl
  | false =>
    have hpeer : (c.onSegment segment nowMs s.config.1).1.peer = c.peer := congrArg Stable.peer (hopen hc).key
    rw [if_neg Bool.false_ne_true, put, hpeer]
    split_ifs <;> rfl

/-- the operation appends what the connections say, tuple by tuple -/
def Puts (s : Stack P) (op : StackOp P) (s' : Stack P) : Prop := ∃ out, s'.outbound = s.kept op ++ out ∧ Emits s op out

/-- an operation that leaves the queue, and means nothing to the connections -/
theorem puts_quiet (hkept : s.kept op = s.outbound) (hsame : s'.outbound = s.outbound)
    (hact : ∀ i c, s.connections.lookup i = some c → s.act i op = none) : s.Puts op s' :=
  ⟨[], by rw [hkept, hsame, List.append_nil], .silent fun i c hl => share_none (hact i c hl)⟩

theorem kept_of_inert (hinert : s.Inert op) (hdrain : op ≠ .drainOutbound) : s.kept op = s.outbound := by
  cases op with
  | abort id =>
    have hnone : s.connections.lookup id = none := hinert
    simp only [kept, hnone, Option.all_none, List.filter_true]
  | abortPeer => exact hinert.elim
  | drainOutbound => exact absurd rfl hdrain
  | _ => rfl

theorem share_of_inert (hinert : s.Inert op) (hl : s.connections.lookup id = some c) : s.share op id c = [] := by
  cases op with
  | write i bytes nowMs =>
    by_cases hi : i = id
    · subst hi
      obtain ⟨e, he⟩ := hinert c hl
      simp [share, act, said, he]
    · exact share_none (by simp [act, hi])
  | read i max | close i nowMs | abort i =>
    have hi : i ≠ id := fun hi => by rw [Inert, hi, hl] at hinert; cases hinert
    exact share_none (by simp [act, hi])
  | input peer bytes nowMs =>
    cases hdec : Segment.decode bytes with
    | error e => exact share_none (by simp [act, hdec])
    | ok segment => exact share_none (by simp [act_input hdec, hinert segment hdec])
  | poll | abortPeer => exact hinert.elim
  | listen | closeListener | accept | connect | connectFromWithIsn | setConnectionReservation | drainOutbound => exact share_none rfl

theorem refused_puts (hinert : s.Inert op) (hdrain : op ≠ .drainOutbound) : s.Puts op s :=
  ⟨[], by rw [kept_of_inert hinert hdrain, List.append_nil], .silent fun _ _ hl => share_of_inert hinert hl⟩

/-- the SYN of a new connection -/
theorem connected_puts (hs : s.Tidy) {peer : P} {localPort remotePort : U16} (hlp : localPort ≠ 0) (hrp : remotePort ≠ 0)
    (hkey : s.lookup.lookup ⟨peer, localPort, remotePort⟩ = none) (isn : U32) (nowMs : ℕ) (port : U16) (cursor : BitVec 64) :
    s.Puts (.connectFromWithIsn peer localPort remotePort isn nowMs) ((s.moveCursors port cursor).create
      (Connection.client peer localPort remotePort isn nowMs s.config.1 s.nextConnectionToken).1
      (Connection.client peer localPort remotePort isn nowMs s.config.1 s.nextConnectionToken).2) := by
  obtain ⟨-, h1, h2, h3, henc⟩ := sound_client s.config.valid peer hlp hrp isn nowMs s.nextConnectionToken
  have haddr := opening_addressed s.config.1 (.client peer localPort remotePort isn nowMs s.nextConnectionToken)
  refine ⟨_, rfl, .fresh hs rfl hkey ?_ fun _ _ _ => rfl⟩
  exact belongs_map fun x hx => ⟨henc x hx, haddr x hx⟩

section Input

variable {peer : P} {bytes : List U8} {segment : Segment} (hs : s.Tidy) (hdec : Segment.decode bytes = .ok segment)
include hs hdec

/-- the SYN-ACK of a new connection -/
theorem opened_puts (hkey : s.lookup.lookup ⟨peer, segment.dstPort, segment.srcPort⟩ = none) :
    s.Puts (.input peer bytes nowMs) (s.nextIsn.1.create
      (Connection.server peer segment s.nextIsn.2 nowMs s.config.1 s.nextConnectionToken).1
      (Connection.server peer segment s.nextIsn.2 nowMs s.config.1 s.nextConnectionToken).2) := by
  obtain ⟨-, h1, h2, h3, henc⟩ := sound_server s.config.valid peer (Segment.decode_ports hdec) s.nextIsn.2 nowMs
    s.nextConnectionToken
  have haddr := opening_addressed s.config.1 (.server peer segment s.nextIsn.2 nowMs s.nextConnectionToken)
  have htuple : (Connection.server peer segment s.nextIsn.2 nowMs s.config.1 s.nextConnectionToken).1.key =
      ⟨peer, segment.dstPort, segment.srcPort⟩ := by rw [Connection.key, h1, h2, h3]
  refine ⟨_, rfl, .fresh hs (by simp only [target, hdec]) hkey ?_ fun i _ _ => by simp [act_input hdec, hkey]⟩
  rw [← htuple]
  exact belongs_map fun x hx => ⟨henc x hx, haddr x hx⟩

/-- the reset of a tuple without a connection -/
theorem rejected_puts (hkey : s.lookup.lookup ⟨peer, segment.dstPort, segment.srcPort⟩ = none) :
    s.Puts (.input peer bytes nowMs) (s.queue peer [resetFor segment]) := by
  have hp := Segment.decode_ports hdec
  have hbelongs : belongsTo (datagram peer (resetFor segment)) ⟨peer, segment.dstPort, segment.srcPort⟩ = true := by
    have h1 : (resetFor segment).srcPort = segment.dstPort := by unfold resetFor; cases segment.ack <;> rfl
    have h2 : (resetFor segment).dstPort = segment.srcPort := by unfold resetFor; cases segment.ack <;> rfl
    have := belongsTo_datagram (resetFor_encodes hp.1 hp.2) (resetFor_plain segment) peer
    rwa [h1, h2] at this
  exact ⟨_, rfl, .fresh hs (by simp only [target, hdec]) hkey (fun o ho => List.mem_singleton.1 ho ▸ hbelongs)
    fun i _ _ => by simp [act_input hdec, hkey]⟩

variable (hkey : s.lookup.lookup ⟨peer, segment.dstPort, segment.srcPort⟩ = some id) (hl : s.connections.lookup id = some c)
include hkey hl

/-- the reset of an ACK that cannot be -/
theorem reset_puts (h : c.unacceptableAck segment = true) :
    s.Puts (.input peer bytes nowMs) (s.queue peer [resetFor segment]) := by
  have hin : c.input segment nowMs s.config.1 = (c, .open [resetFor segment]) := by rw [Connection.input, if_pos h]
  have hpeer : c.peer = peer := congrArg ConnectionKey.peer (key_of_lookup hs hkey hl)
  refine ⟨_, ?_, .input hs hdec hkey hl⟩
  rw [said_answered hin, hpeer]
  rfl

/-- the ACK that a SYN is answered with -/
theorem challenged_puts (h : c.unacceptableAck segment = false) (h' : c.unexpectedSyn segment = true) :
    s.Puts (.input peer bytes nowMs) (s.queue c.peer [c.ackSegment]) := by
  have hin : c.input segment nowMs s.config.1 = (c, .open [c.ackSegment]) := by
    rw [Connection.input, if_neg (by simp [h]), if_pos h']
  refine ⟨_, ?_, .input hs hdec hkey hl⟩
  rw [said_answered hin]
  rfl

end Input

/-! ### Calls on one connection -/

section Retained

variable (hs : s.Tidy) (hl : s.connections.lookup id = some c)
include hs hl

theorem wrote_puts {bytes : List U8} {c' : Connection P} {count : ℕ}
    (hw : c.write bytes nowMs s.config.1 = .ok (c', count, segments)) : s.Puts (.write id bytes nowMs) (s.put id c' segments) := by
  have hpeer : c'.peer = c.peer := congrArg Stable.peer ((hs.sound id c hl).write s.config.valid hw).key
  refine ⟨_, ?_, .one hs hl (o := .write bytes nowMs) (by simp [act]) (by simp [target, hl]) (c.forTuple_none rfl)
    fun i hi => by simp [act, Ne.symm hi]⟩
  simp only [said, hw, put, hpeer]
  rfl

theorem read_puts (max : ℕ) : s.Puts (.read id max) (s.put id (c.read max).1 (c.read max).2.2) := by
  have hpeer : (c.read max).1.peer = c.peer := congrArg Stable.peer ((hs.sound id c hl).read s.config.valid max).key
  refine ⟨_, ?_, .one hs hl (o := .read max) (by simp [act]) (by simp [target, hl]) (c.forTuple_none rfl)
    fun i hi => by simp [act, Ne.symm hi]⟩
  simp only [said, put, hpeer]
  rfl

theorem closed_puts (nowMs : ℕ) : s.Puts (.close id nowMs)
    (if (c.close nowMs).2.closed then s.drop id c.key else s.put id (c.close nowMs).1 (c.close nowMs).2.segments) := by
  have hpeer : (c.close nowMs).1.peer = c.peer := congrArg Stable.peer ((hs.sound id c hl).close s.config.valid nowMs).key
  have hnil := (close_moves s.config.1 nowMs (hs.sound id c hl).mss).2
  refine ⟨_, ?_, .one hs hl (o := .close nowMs) (by simp [act]) (by simp [target, hl]) (c.forTuple_none rfl)
    fun i hi => by simp [act, Ne.symm hi]⟩
  simp only [said]
  split_ifs with hc
  · rw [(hnil hc).1, List.map_nil, List.append_nil]
    rfl
  · rw [put, hpeer]
    rfl

theorem aborted_puts : s.Puts (.abort id) (s.aborted id c) := by
  refine ⟨_, ?_, .one hs hl (o := .abort) (by simp [act]) (by simp [target, hl]) (c.forTuple_none rfl)
    fun i hi => by simp [act, Ne.symm hi]⟩
  simp only [kept, hl, Option.all_some, Stack.aborted, drop, said, List.map_cons, List.map_nil]

end Retained

/-! ### Calls on many connections -/

theorem abortedPeer_puts (hs : s.Tidy) {peer : P} {ids : List ConnectionId} (hids : IsOrderOf ids (s.peerConnections peer)) :
    s.Puts (.abortPeer peer ids) (abortAll ids s).1 := by
  have hmem : ∀ id ∈ ids, id ∈ s.connections := fun id hid => by
    have h : id ∈ s.peerConnections peer := by rw [← hids.2]; exact List.mem_toFinset.2 hid
    exact Finmap.mem_keys.1 (Finset.mem_filter.1 h).1
  refine ⟨s.chorus .abort ids, ?_, ⟨fun i c hl => ?_, fun key hkey _ => chorus_strange hs (fun c => c.forTuple_none rfl) hkey,
    fun key h => by cases h⟩⟩
  · rw [abortAll_queue hs hids.1 hmem, kept, if_pos hids]
  · rw [chorus_own hs (fun c => c.forTuple_none rfl) hids.1 hl, share]
    by_cases hi : i ∈ ids <;> simp [act, hids, hi]

theorem polled_puts (hs : s.Tidy) {ids : List ConnectionId} (hids : IsOrderOf ids s.connections.keys) :
    s.Puts (.poll ids nowMs) (s.poll ids nowMs) := by
  refine ⟨s.chorus (.poll nowMs) ids, poll_queue hs.sound hids.1,
    ⟨fun i c hl => ?_, fun key hkey _ => chorus_strange hs (fun c => c.forTuple_none rfl) hkey, fun key h => by cases h⟩⟩
  have hi : i ∈ ids := by
    rw [← List.mem_toFinset, hids.2]; exact Finmap.mem_keys.2 (Finmap.mem_of_lookup_eq_some hl)
  rw [chorus_own hs (fun c => c.forTuple_none rfl) hids.1 hl, share, if_pos hi]
  simp [act, hids]

/-- all but two operations; what `connect` is directed at is up to its cursor -/
theorem call_emits (hs : s.Tidy) (hop : ∀ peer remotePort nowMs, op ≠ .connect peer remotePort nowMs) (hdrain : op ≠ .drainOutbound)
    {result : Except Failure Unit} (h : s.Call op s' result) : s.Puts op s' := by
  cases h with
  | refused op error hw hinert => exact refused_puts hinert hdrain
  | connectRefused peer remotePort nowMs => exact absurd rfl (hop peer remotePort nowMs)
  | connected op peer localPort remotePort isn nowMs port cursor hcalled hlp hrp hcap hkey =>
    rcases hcalled with rfl | rfl
    · exact absurd rfl (hop peer remotePort nowMs)
    · exact connected_puts hs hlp hrp hkey isn nowMs port cursor
  | listened | closedListener | reserved => exact puts_quiet rfl rfl fun _ _ _ => rfl
  | accepted port =>
    refine puts_quiet rfl ?_ fun _ _ _ => rfl
    unfold accept
    cases s.accepts.lookup port <;> rfl
  | malformed peer bytes nowMs error hdec => exact puts_quiet rfl rfl fun i _ _ => by simp only [act, hdec]
  | stale peer bytes nowMs segment id hdec hkey hl =>
    refine puts_quiet rfl rfl fun i c hc => ?_
    have hi : id ≠ i := fun hi => by rw [hi, hc] at hl; cases hl
    simp [act_input hdec, hkey, hi]
  | ignored peer bytes nowMs segment hdec hkey => exact puts_quiet rfl rfl fun i _ _ => by simp [act_input hdec, hkey]
  | rejected peer bytes nowMs segment hdec hkey => exact rejected_puts hs hdec hkey
  | opened peer bytes nowMs segment hdec hkey => exact opened_puts hs hdec hkey
  | reset peer bytes nowMs segment id c hdec hkey hl h => exact reset_puts hs hdec hkey hl h
  | challenged peer bytes nowMs segment id c hdec hkey hl h h' => exact challenged_puts hs hdec hkey hl h h'
  | handled peer bytes nowMs segment id c hdec hkey hl h h' =>
    exact ⟨_, onRetained_queue hs hl (Segment.decode_ports hdec) h h', .input hs hdec hkey hl⟩
  | wrote id bytes nowMs c c' count segments hl hw => exact wrote_puts hs hl hw
  | read id max c hl => exact read_puts hs hl max
  | closed id nowMs c hl => exact closed_puts hs hl nowMs
  | aborted id c hl => exact aborted_puts hs hl
  | abortedPeer peer ids hids => exact abortedPeer_puts hs hids
  | polled ids nowMs hids => exact polled_puts hs hids
  | unpolled ids nowMs hids => exact puts_quiet rfl rfl fun i _ _ => by simp [act, hids]
  | unabortedPeer peer ids hids => exact puts_quiet (if_neg hids) rfl fun i _ _ => by simp [act, hids]
  | drained => exact absurd rfl hdrain

/-- `connect` is `connect_from_with_isn` from the port that its cursor finds -/
theorem connect_cases (s : Stack P) (peer : P) (remotePort : U16) (nowMs : ℕ) : ∃ port,
    (∃ e, (s.allocateEphemeralPort peer remotePort).2 = .error e ∧
      s.connect peer remotePort nowMs = (s.moveCursors port s.isnState, .error e)) ∨
    ∃ localPort, (s.allocateEphemeralPort peer remotePort).2 = .ok localPort ∧
      s.connect peer remotePort nowMs =
        (s.moveCursors port s.nextIsn.1.isnState).connectFromWithIsn peer localPort remotePort s.nextIsn.2 nowMs := by
  obtain ⟨port, hport⟩ := allocateEphemeralPortLoop_frame peer remotePort 16384 s
  refine ⟨port, ?_⟩
  simp only [connect, allocateEphemeralPort]
  rcases hp : allocateEphemeralPortLoop peer remotePort 16384 s with ⟨s1, e | localPort⟩ <;> rw [hp] at hport <;>
    simp only at hport ⊢ <;> subst hport
  · exact .inl ⟨e, rfl, rfl⟩
  · exact .inr ⟨localPort, rfl, rfl⟩

theorem connect_from (s : Stack P) (peer : P) (remotePort : U16) (nowMs : ℕ) : ∃ port,
    (∃ e, (s.allocateEphemeralPort peer remotePort).2 = .error e ∧
      s.perform (.connect peer remotePort nowMs) = (s.moveCursors port s.isnState, .error (.error e))) ∨
    ∃ localPort, (s.allocateEphemeralPort peer remotePort).2 = .ok localPort ∧
      s.perform (.connect peer remotePort nowMs) =
        (s.moveCursors port s.nextIsn.1.isnState).perform (.connectFromWithIsn peer localPort remotePort s.nextIsn.2 nowMs) := by
  obtain ⟨port, ⟨e, hport, h⟩ | ⟨localPort, hport, h⟩⟩ := s.connect_cases peer remotePort nowMs
  · exact ⟨port, .inl ⟨e, hport, congrArg outcome h⟩⟩
  · exact ⟨port, .inr ⟨localPort, hport, congrArg outcome h⟩⟩

/-- **What an operation queues.** -/
theorem perform_emits (hs : s.Tidy) (op : StackOp P) : (s.perform op).1.outbound = s.kept op ++ s.emitted op ∧
    Emits s op (s.emitted op) := by
  have h : ∃ out, (s.perform op).1.outbound = s.kept op ++ out ∧ Emits s op out := by
    by_cases hdrain : op = .drainOutbound
    · subst hdrain
      exact ⟨[], rfl, .silent fun _ _ _ => rfl⟩
    by_cases hconnect : ∃ peer remotePort nowMs, op = .connect peer remotePort nowMs
    · obtain ⟨peer, remotePort, nowMs, rfl⟩ := hconnect
      obtain ⟨port, ⟨e, -, hp⟩ | ⟨localPort, hlocal, hp⟩⟩ := s.connect_from peer remotePort nowMs <;> rw [hp]
      · exact ⟨[], (List.append_nil _).symm, .silent fun _ _ _ => rfl⟩
      · have hmoved : (s.moveCursors port s.nextIsn.1.isnState).Tidy := ⟨hs.sound, hs.index, hs.flagged⟩
        have hcall := perform_call hmoved.sound (.connectFromWithIsn peer localPort remotePort s.nextIsn.2 nowMs)
        obtain ⟨out, hout, hemits⟩ := call_emits hmoved (by intro _ _ _ h; cases h) (by intro h; cases h) hcall
        have ht : s.target (.connect peer remotePort nowMs) = some ⟨peer, localPort, remotePort⟩ := by
          simp only [target, hlocal]
        refine ⟨out, hout, ⟨fun i c hl => (hemits.own i c hl).trans rfl, fun key hkey hne => ?_, fun key hk => ?_⟩⟩
        · exact hemits.strange key hkey fun h => hne (ht.trans h)
        · exact hemits.aimed key (ht.symm.trans hk)
    · exact call_emits hs (fun peer remotePort nowMs h => hconnect ⟨peer, remotePort, nowMs, h⟩) hdrain (perform_call hs.sound op)
  obtain ⟨out, hout, hemits⟩ := h
  have heq : s.emitted op = out := by rw [emitted, hout, List.drop_left]
  rw [heq]
  exact ⟨hout, hemits⟩

end Stack

end FipsTcp
