/-
`abort` and `abort_peer`, and what they leave alone.

`Outbound.tuple` is the tuple of a queued datagram, found as `abort` finds it: by decoding what is queued. Every datagram of a
reachable stack has one (`Legible`), so a purge removes the segments of its tuple and no others, and the reset that one abort
queues is never purged by the next.
- `legible_run`: the invariant after every run;
- `abortAll_index`, `abortAll_rest`: the loop of `abort_peer`, for every order of the ids;
- `abort_frames`: the statement, for one connection and for all of a peer.
-/
import FipsTcp.Stack.Isolation

namespace FipsTcp

open Table Connection

/-- the tuple that a queued datagram names, seen from its sender -/
def Outbound.tuple {P : Type} (o : Outbound P) : Option (ConnectionKey P) :=
  match Segment.decode o.bytes with
  | .ok segment => some ⟨o.peer, segment.srcPort, segment.dstPort⟩
  | .error _ => none

/-- the reset that an abort of a connection queues: at `send_nxt`, without an ACK -/
structure Connection.IsReset {P : Type} (c : Connection P) (o : Outbound P) : Prop where
  peer : o.peer = c.peer
  read : ∃ segment, Segment.decode o.bytes = .ok segment ∧ segment.srcPort = c.localPort ∧ segment.dstPort = c.remotePort ∧
    segment.flags = .RST ∧ segment.seq = c.sendNxt ∧ segment.ack = none ∧ segment.options = [] ∧ segment.payload = []

namespace Stack

variable {P : Type} [DecidableEq P]

/-- every queued datagram has a tuple -/
def Legible (s : Stack P) : Prop := ∀ o ∈ s.outbound, ∃ key, o.tuple = some key

/-- what an abort of a retained connection leaves -/
structure AbortsOne (s : Stack P) (id : ConnectionId) (c : Connection P) (s' : Stack P) : Prop where
  /-- the queue without the datagrams of the tuple, and one reset -/
  queue : ∃ reset, s'.outbound = (s.outbound.filter fun o => o.tuple ≠ some c.key) ++ [reset] ∧ c.IsReset reset
  /-- the connection is removed, with its entry in the index -/
  removed : s' = { s with connections := s.connections.erase id, lookup := s.lookup.erase c.key, outbound := s'.outbound }
  entry : s.lookup.lookup c.key = some id
  /-- and its slot is free -/
  slot : s'.size + 1 = s.size
  peerSlot : (s'.peerConnections c.peer).card + 1 = (s.peerConnections c.peer).card

/-- a tuple of a peer that is in use -/
def InUse (s : Stack P) (peer : P) (key : ConnectionKey P) : Prop := key.peer = peer ∧ key ∈ s.lookup

instance (s : Stack P) (peer : P) (key : ConnectionKey P) : Decidable (s.InUse peer key) :=
  inferInstanceAs (Decidable (key.peer = peer ∧ key ∈ s.lookup))

/-- what an abort of all connections of a peer leaves -/
structure AbortsPeer (s : Stack P) (peer : P) (ids : List ConnectionId) (s' : Stack P) : Prop where
  removed : ∀ id, s'.connections.lookup id = (s.connections.lookup id).filter fun c => c.peer ≠ peer
  index : ∀ key, s'.lookup.lookup key = if key.peer = peer then none else s.lookup.lookup key
  /-- the queue without the datagrams of the removed tuples, and one reset for each of these in the order of the ids -/
  queue : ∃ resets, s'.outbound = (s.outbound.filter fun o => ¬ o.tuple.any fun key => s.InUse peer key) ++ resets ∧
    List.Forall₂ (fun id o => ∃ c, s.connections.lookup id = some c ∧ c.IsReset o) ids resets
  /-- which are the only datagrams of their tuples -/
  only : ∀ id c, s.connections.lookup id = some c → c.peer = peer →
    ∃ reset, (s'.outbound.filter fun o => o.tuple = some c.key) = [reset] ∧ c.IsReset reset
  rest : s' = { s with connections := s'.connections, lookup := s'.lookup, outbound := s'.outbound }

/-- the frame of the two calls -/
structure AbortFrames (s : Stack P) : Prop where
  legible : s.Legible
  unknown : ∀ id, s.connections.lookup id = none → s.abort id = (s, .error .unknownConnection)
  one : ∀ id c, s.connections.lookup id = some c → ∃ s', s.abort id = (s', .ok ()) ∧ s.AbortsOne id c s'
  peer : ∀ peer ids, IsOrderOf ids (s.peerConnections peer) →
    ∃ s', s.abortPeer ids = (s', .ok (s.peerConnections peer).card) ∧ s.AbortsPeer peer ids s'
  /-- another order of the map changes the order of the resets only -/
  order : ∀ peer ids ids', IsOrderOf ids (s.peerConnections peer) → IsOrderOf ids' (s.peerConnections peer) →
    ∃ kept resets resets', (s.abortPeer ids).1.outbound = kept ++ resets ∧ resets.Perm resets' ∧
      s.abortPeer ids' = ({ (s.abortPeer ids).1 with outbound := kept ++ resets' }, (s.abortPeer ids).2)

variable {s s' : Stack P} {id : ConnectionId} {c : Connection P} {key : ConnectionKey P} {o : Outbound P} {config : ValidConfig}
  {ids ids' : List ConnectionId} {peer : P}

/-! ## Every queued datagram has a tuple -/

theorem belongsTo_iff : belongsTo o key = true ↔ o.tuple = some key := by
  unfold belongsTo Outbound.tuple
  rw [Bool.and_eq_true, decide_eq_true_eq]
  cases Segment.decode o.bytes with
  | error e => simp
  | ok segment =>
    cases key
    simp only [decide_eq_true_eq, Option.some.injEq, ConnectionKey.mk.injEq]

theorem not_belongsTo (o : Outbound P) (key : ConnectionKey P) : (!belongsTo o key) = decide (o.tuple ≠ some key) := by
  rw [Bool.eq_iff_iff, Bool.not_eq_true', Bool.eq_false_iff, decide_eq_true_eq, ne_eq, belongsTo_iff]

theorem Legible.of_eq (h : s.Legible) (heq : s'.outbound = s.outbound) : s'.Legible := fun o ho => h o (heq ▸ ho)

theorem Legible.append (h : s.Legible) {kept out : List (Outbound P)} (hkept : kept.Sublist s.outbound)
    (hout : ∀ o ∈ out, ∃ key, belongsTo o key = true) (heq : s'.outbound = kept ++ out) : s'.Legible := by
  intro o ho
  rw [heq] at ho
  rcases List.mem_append.1 ho with ho | ho
  · exact h o (hkept.subset ho)
  · exact (hout o ho).imp fun _ => belongsTo_iff.1

/-- a retained connection of a list of its peer's -/
theorem mem_of_order (h : IsOrderOf ids (s.peerConnections peer)) : ∀ id ∈ ids, id ∈ s.connections := by
  intro id hid
  have hmem : id ∈ s.peerConnections peer := by
    rw [← h.2]
    exact List.mem_toFinset.2 hid
  exact Finmap.mem_keys.1 (Finset.mem_filter.1 hmem).1

/-- **Preservation, one operation.** -/
theorem Legible.perform (hs : s.Tidy) (h : s.Legible) (op : StackOp P) : (s.perform op).1.Legible := by
  obtain ⟨hqueue, hemits⟩ := perform_emits hs op
  -- an operation with a tuple queues for it, and without one queues nothing
  have hdirected : Directed op → (s.kept op).Sublist s.outbound → (s.perform op).1.Legible := fun hop hkept => by
    cases ht : s.target op with
    | none => exact h.of_eq (perform_untargeted hop ht).2
    | some key => exact h.append hkept (fun o ho => ⟨key, hemits.aimed key ht o ho⟩) hqueue
  cases op with
  | input | write | read | close | connect | connectFromWithIsn => exact hdirected trivial (List.Sublist.refl _)
  | abort => exact hdirected trivial List.filter_sublist
  | poll ids nowMs =>
    simp only [Stack.perform]
    split_ifs with hids
    · refine h.append (List.Sublist.refl _) (fun o ho => ?_) (poll_queue hs.sound hids.1)
      obtain ⟨i, x, -, hb⟩ := chorus_belongs hs (fun c => c.forTuple_none rfl) ho
      exact ⟨x.key, hb⟩
    · exact h
  | abortPeer peer ids =>
    simp only [Stack.perform]
    split_ifs with hids
    · have hfirst : (outcome (s.abortPeer ids)).1 = (abortAll ids s).1 := by
        unfold abortPeer
        rcases abortAll ids s with ⟨s', e | u⟩ <;> rfl
      have hsub : ((s.outbound.filter fun o => ids.all fun id => (s.connections.lookup id).all fun c => !belongsTo o c.key)).Sublist
          s.outbound := List.filter_sublist
      rw [hfirst]
      refine h.append hsub (fun o ho => ?_) (abortAll_queue hs hids.1 (mem_of_order hids))
      obtain ⟨i, x, -, hb⟩ := chorus_belongs hs (fun c => c.forTuple_none rfl) ho
      exact ⟨x.key, hb⟩
    · exact h
  | listen port =>
    refine h.of_eq ?_
    simp only [Stack.perform, listen]
    split_ifs <;> rfl
  | closeListener port => exact h
  | accept port =>
    refine h.of_eq ?_
    simp only [Stack.perform, accept]
    cases s.accepts.lookup port <;> rfl
  | setConnectionReservation slots eligible =>
    refine h.of_eq ?_
    simp only [Stack.perform, setConnectionReservation]
    split_ifs <;> rfl
  | drainOutbound => exact fun o ho => absurd ho List.not_mem_nil

/-- **The invariant after every run.** -/
theorem legible_run (h : s.Reachable config) : s.Legible := by
  obtain ⟨isnSeed, token, ops, h0, rfl, hb⟩ := h
  refine ((Run.exec_invariant
    (P := fun s : Stack P => s.AllSound ∧ (s.nextConnectionToken < 2 ^ 64 → s.Orderly config ∧ s.Legible))
    (fun s op ⟨hs, hi⟩ => ?_)
    ⟨(Orderly.new config isnSeed h0).genuine.sound, fun _ => ⟨.new config isnSeed h0, fun o ho => nomatch ho⟩⟩ ops).2 hb).2
  obtain ⟨hs', hle⟩ := turn_sound hs op
  refine ⟨hs', fun hb => ?_⟩
  obtain ⟨hord, hleg⟩ := hi (hle.trans_lt hb)
  have hmoved := hord.elsewhere op.1
  exact ⟨(hmoved.perform op.2 hb).1, Legible.perform (s := s.elsewhere op.1) hmoved.tidy hleg op.2⟩

/-! ## One connection -/

omit [DecidableEq P] in
theorem isReset_datagram {config : Config} (hc : c.Sound config) : c.IsReset (datagram c.peer c.resetSegment) := by
  have hencodes : c.resetSegment.Encodes := buildSegment_encodes hc.ports.1 hc.ports.2 []
  obtain ⟨bytes, hd, hdec⟩ := datagram_decode c.peer hencodes c.resetSegment_addressed.plain
  rw [hd]
  have hack : c.resetSegment.ack = none := if_neg (by decide : ¬ Flags.RST.contains .ACK = true)
  have hoptions : c.resetSegment.options = [] := if_neg (by decide : ¬ Flags.RST.contains .SYN = true)
  exact ⟨rfl, _, hdec, rfl, rfl, rfl, rfl, hack, hoptions, rfl⟩

theorem abortsOne_aborted (hs : s.Tidy) (hl : s.connections.lookup id = some c) : s.AbortsOne id c (s.aborted id c) where
  queue := by
    refine ⟨_, ?_, isReset_datagram (hs.sound id c hl)⟩
    simp only [aborted, drop, not_belongsTo]
  removed := rfl
  entry := hs.index.forward hl
  slot := by
    have hid : id ∈ s.connections.keys := Finmap.mem_keys.2 (Finmap.mem_of_lookup_eq_some hl)
    have hkeys : (s.aborted id c).connections.keys = s.connections.keys.erase id := Finmap.keys_erase _ _
    rw [size, hkeys]
    exact Finset.card_erase_add_one hid
  peerSlot := card_having_erase hl (decide_eq_true rfl)

/-! ## All connections of a peer -/

theorem mem_peerConnections : id ∈ s.peerConnections peer ↔ ∃ c, s.connections.lookup id = some c ∧ c.peer = peer := by
  have h : s.peerConnections peer = having (fun c => decide (c.peer = peer)) s.connections := rfl
  simp only [h, mem_having, decide_eq_true_eq]

theorem mem_order (h : IsOrderOf ids (s.peerConnections peer)) :
    id ∈ ids ↔ ∃ c, s.connections.lookup id = some c ∧ c.peer = peer := by
  rw [← mem_peerConnections, ← h.2, List.mem_toFinset]

/-- the tuples of a peer that are in use are those of its connections -/
theorem inUse_iff (hs : s.Tidy) (h : IsOrderOf ids (s.peerConnections peer)) :
    s.InUse peer key ↔ ∃ id ∈ ids, ∃ c, s.connections.lookup id = some c ∧ c.key = key := by
  constructor
  · rintro ⟨hp, hkey⟩
    obtain ⟨id, hid⟩ := Finmap.mem_iff.1 hkey
    obtain ⟨c, hl, hk⟩ := hs.index.backward hid
    refine ⟨id, (mem_order h).2 ⟨c, hl, ?_⟩, c, hl, hk⟩
    rw [← hp, ← hk]
    rfl
  · rintro ⟨id, hid, c, hl, rfl⟩
    obtain ⟨x, hx, hp⟩ := (mem_order h).1 hid
    rw [hl, Option.some.injEq] at hx
    subst hx
    exact ⟨hp, Finmap.mem_of_lookup_eq_some (hs.index.forward hl)⟩

/-- the index loses the tuples of the list -/
theorem abortAll_index (hs : s.Tidy) (hn : ids.Nodup) (hids : ∀ id ∈ ids, id ∈ s.connections) (key : ConnectionKey P) :
    (abortAll ids s).1.lookup.lookup key = (s.lookup.lookup key).filter fun id => id ∉ ids := by
  induction ids generalizing s with
  | nil =>
    have hsame : (abortAll [] s).1.lookup = s.lookup := rfl
    rw [hsame]
    cases s.lookup.lookup key <;> rfl
  | cons id ids ih =>
    obtain ⟨hid, hn⟩ := List.nodup_cons.1 hn
    obtain ⟨c, hl⟩ := Finmap.mem_iff.1 (hids id List.mem_cons_self)
    have hmem : ∀ i ∈ ids, i ∈ (s.aborted id c).connections := fun i hi =>
      Finmap.mem_erase.2 ⟨fun h => hid (h ▸ hi), hids i (List.mem_cons_of_mem _ hi)⟩
    unfold abortAll
    rw [abort_eq hl (hs.sound id c hl)]
    refine (ih (hs.aborted hl) hn hmem).trans ?_
    have herase : (s.aborted id c).lookup = s.lookup.erase c.key := rfl
    rw [herase]
    by_cases hk : key = c.key
    · subst hk
      rw [Finmap.lookup_erase, hs.index.forward hl]
      simp [Option.filter]
    · rw [Finmap.lookup_erase_ne hk]
      cases hi : s.lookup.lookup key with
      | none => rfl
      | some i =>
        have hne : i ≠ id := by
          rintro rfl
          exact hk (key_of_lookup hs hi hl).symm
        simp [Option.filter, hne]

/-- nothing else changes -/
theorem abortAll_rest (hs : s.AllSound) (ids : List ConnectionId) : (abortAll ids s).1 = { s with
    connections := (abortAll ids s).1.connections, lookup := (abortAll ids s).1.lookup, outbound := (abortAll ids s).1.outbound } := by
  induction ids generalizing s with
  | nil => rfl
  | cons id ids ih =>
    unfold abortAll
    cases hl : s.connections.lookup id with
    | none =>
      have h : s.abort id = (s, .error .unknownConnection) := by
        unfold abort
        rw [hl]
      rw [h]
    | some c =>
      rw [abort_eq hl (hs id c hl)]
      exact ih (hs.aborted id c)

theorem abortPeer_eq (hs : s.AllSound) (h : IsOrderOf ids (s.peerConnections peer)) :
    s.abortPeer ids = ((abortAll ids s).1, .ok ids.length) := by
  have hok := abortAll_ok hs h.1 (mem_of_order h)
  unfold abortPeer
  rcases ha : abortAll ids s with ⟨s', e | u⟩ <;> rw [ha] at hok
  · cases hok

/-- what the loop leaves of the queue is the same for every order -/
theorem abortAll_outbound (hs : s.Tidy) (h : IsOrderOf ids (s.peerConnections peer)) : (abortAll ids s).1.outbound =
    (s.outbound.filter fun o => ¬ o.tuple.any fun key => s.InUse peer key) ++ s.chorus .abort ids := by
  rw [abortAll_queue hs h.1 (mem_of_order h)]
  congr 1
  refine List.filter_congr fun o _ => ?_
  rw [Bool.eq_iff_iff, decide_eq_true_eq, List.all_eq_true]
  simp only [Option.all_eq_true, Option.any_eq_true, decide_eq_true_eq, not_belongsTo]
  constructor
  · rintro hall ⟨key, hkey, huse⟩
    obtain ⟨id, hid, c, hl, rfl⟩ := (inUse_iff hs h).1 huse
    exact hall id hid c hl hkey
  · intro hnone id hid c hl htuple
    exact hnone ⟨c.key, htuple, (inUse_iff hs h).2 ⟨id, hid, c, hl, rfl⟩⟩

/-- one reset for each connection -/
theorem chorus_resets (hs : s.AllSound) (hids : ∀ id ∈ ids, id ∈ s.connections) :
    List.Forall₂ (fun id o => ∃ c, s.connections.lookup id = some c ∧ c.IsReset o) ids (s.chorus .abort ids) := by
  induction ids with
  | nil => exact .nil
  | cons id ids ih =>
    obtain ⟨c, hl⟩ := Finmap.mem_iff.1 (hids id List.mem_cons_self)
    have hone : s.chorus .abort (id :: ids) = datagram c.peer c.resetSegment :: s.chorus .abort ids := by
      simp only [chorus, List.flatMap_cons, hl, Option.elim_some, said, List.map_cons, List.map_nil, List.cons_append,
        List.nil_append]
    rw [hone]
    exact .cons ⟨c, hl, isReset_datagram (hs id c hl)⟩ (ih fun i hi => hids i (List.mem_cons_of_mem _ hi))

theorem abortsPeer_abortAll (hs : s.Tidy) (h : IsOrderOf ids (s.peerConnections peer)) :
    s.AbortsPeer peer ids (abortAll ids s).1 where
  removed id := by
    rw [(abortAll_lookup hs.sound h.1 (mem_of_order h) id).1]
    cases hl : s.connections.lookup id with
    | none => split_ifs <;> rfl
    | some c =>
      have hmem : id ∈ ids ↔ c.peer = peer := by
        rw [mem_order h, hl]
        simp
      by_cases hp : c.peer = peer <;> simp [hmem, hp, Option.filter]
  index key := by
    rw [abortAll_index hs h.1 (mem_of_order h)]
    cases hi : s.lookup.lookup key with
    | none => split_ifs <;> rfl
    | some i =>
      obtain ⟨c, hl, hk⟩ := hs.index.backward hi
      have hpeer : c.peer = key.peer := congrArg ConnectionKey.peer hk
      have hmem : i ∈ ids ↔ key.peer = peer := by
        rw [mem_order h, hl, ← hpeer]
        simp
      by_cases hp : key.peer = peer <;> simp [hmem, hp, Option.filter]
  queue := ⟨_, abortAll_outbound hs h, chorus_resets hs.sound (mem_of_order h)⟩
  only id c hl hp := by
    have huse : s.InUse peer c.key := ⟨hp, Finmap.mem_of_lookup_eq_some (hs.index.forward hl)⟩
    have hid : id ∈ ids := (mem_order h).2 ⟨c, hl, hp⟩
    have hown := chorus_own hs (o := .abort) (fun c => c.forTuple_none rfl) h.1 hl
    rw [if_pos hid] at hown
    have hfilter : ∀ out : List (Outbound P), (out.filter fun o => o.tuple = some c.key) = out.filter fun o => belongsTo o c.key :=
      fun out => List.filter_congr fun o _ => by rw [Bool.eq_iff_iff, decide_eq_true_eq, belongsTo_iff]
    refine ⟨datagram c.peer c.resetSegment, ?_, isReset_datagram (hs.sound id c hl)⟩
    rw [abortAll_outbound hs h, List.filter_append, hfilter (s.chorus .abort ids), hown, List.filter_filter]
    -- what was queued for the tuple is purged
    have hnone : (s.outbound.filter fun o => decide (o.tuple = some c.key) && decide (¬ o.tuple.any fun key => s.InUse peer key)) = [] := by
      refine List.filter_eq_nil_iff.2 fun o _ ho => ?_
      rw [Bool.and_eq_true, decide_eq_true_eq, decide_eq_true_eq] at ho
      refine ho.2 ?_
      rw [ho.1]
      exact decide_eq_true huse
    rw [hnone]
    rfl
  rest := abortAll_rest hs.sound ids

/-- **Another order** gives the same stack, with the resets in that order. -/
theorem abortAll_order (hs : s.Tidy) (h : IsOrderOf ids (s.peerConnections peer)) (h' : IsOrderOf ids' (s.peerConnections peer)) :
    (s.chorus .abort ids).Perm (s.chorus .abort ids') ∧ (abortAll ids' s).1 = { (abortAll ids s).1 with
      outbound := (s.outbound.filter fun o => ¬ o.tuple.any fun key => s.InUse peer key) ++ s.chorus .abort ids' } := by
  have hperm : ids.Perm ids' := List.perm_of_nodup_nodup_toFinset_eq h.1 h'.1 (h.2.trans h'.2.symm)
  have hconn : (abortAll ids' s).1.connections = (abortAll ids s).1.connections := Finmap.ext_lookup fun i => by
    rw [(abortsPeer_abortAll hs h').removed, (abortsPeer_abortAll hs h).removed]
  have hlook : (abortAll ids' s).1.lookup = (abortAll ids s).1.lookup := Finmap.ext_lookup fun key => by
    rw [(abortsPeer_abortAll hs h').index, (abortsPeer_abortAll hs h).index]
  refine ⟨hperm.flatMap_right _, ?_⟩
  rw [abortAll_rest hs.sound ids', hconn, hlook, abortAll_outbound hs h', abortAll_rest hs.sound ids]

end Stack

/-- **Aborts.** In every reachable stack an abort removes its connection, its entry and what is queued for its tuple, and leaves
one reset; aborting a peer does so for all its connections and no other, in whatever order the map yields them. -/
theorem abort_frames {P : Type} [DecidableEq P] {config : ValidConfig} {s : Stack P} (hs : s.Reachable config) : s.AbortFrames := by
  have htidy := hs.orderly.tidy
  refine ⟨Stack.legible_run hs, fun id hl => ?_, fun id c hl => ?_, fun peer ids h => ?_, fun peer ids ids' h h' => ?_⟩
  · unfold Stack.abort
    rw [hl]
  · exact ⟨s.aborted id c, Stack.abort_eq hl (htidy.sound id c hl), Stack.abortsOne_aborted htidy hl⟩
  · have hlen : ids.length = (s.peerConnections peer).card := by
      rw [← h.2, List.toFinset_card_of_nodup h.1]
    refine ⟨_, ?_, Stack.abortsPeer_abortAll htidy h⟩
    rw [Stack.abortPeer_eq htidy.sound h, hlen]
  · obtain ⟨hperm, heq⟩ := Stack.abortAll_order htidy h h'
    have hlen : ids'.length = ids.length :=
      (List.perm_of_nodup_nodup_toFinset_eq h'.1 h.1 (h'.2.trans h.2.symm)).length_eq
    refine ⟨s.outbound.filter fun o => ¬ o.tuple.any fun key => s.InUse peer key, _, _, ?_, hperm, ?_⟩
    · rw [Stack.abortPeer_eq htidy.sound h]
      exact Stack.abortAll_outbound htidy h
    · rw [Stack.abortPeer_eq htidy.sound h, Stack.abortPeer_eq htidy.sound h', heq, hlen]

/-- two connections to one peer and one to another, whose SYNs are queued -/
def threeStack : Stack ℕ := Run.exec Stack.turn (.new ⟨Config.default, Config.default_validate⟩ 5 1)
  [(0, .connectFromWithIsn 7 9000 80 100 0), (0, .connectFromWithIsn 8 9000 80 100 0), (0, .connectFromWithIsn 7 9001 80 100 0)]

theorem abort_frames_three : threeStack.AbortFrames :=
  have hs : threeStack.Reachable ⟨Config.default, Config.default_validate⟩ := ⟨5, 1, _, by decide, rfl, by decide⟩
  abort_frames hs

end FipsTcp
