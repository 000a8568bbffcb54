/-
What the receiving half holds.

A segment with data is inserted as one chunk, and then the loop of `drain_reassembly` delivers what it can; `receiving` says which
connection gets there. What is queued and what is buffered fit the receive buffer together, and a delivery moves bytes from one to
the other, so a chunk always fits the room that the queue leaves: the branch that puts the rest of a chunk back is never taken
(`DrainRound.not_putsBack`). Every round takes a chunk from the list, so the loop ends, and it ends with all chunks ahead of
`recv_nxt`.
- `Represents`: what a reachable connection holds;
- `receiver_representation`: that, and the loop on whatever a segment makes of such a connection.
-/
import FipsTcp.Connection.Reassembly
import Mathlib.Logic.Relation

namespace FipsTcp

open Serial

namespace Connection

variable {P : Type} {c c1 c2 : Connection P} {config : Config} {nowMs : ℕ}

/-! ## The loop -/

/-- a round of the loop of `drain_reassembly` after which it goes on -/
def DrainRound (nowMs : ℕ) (config : Config) (c c' : Connection P) : Prop := c.drainOnce nowMs config = (c', true)

/-- the round finds a chunk of which the queue has no room for all: the rest would be put back -/
def PutsBack (config : Config) (c : Connection P) : Prop :=
  ∃ x, (c.reassembly.filter (keepChunk c.recvNxt)).find? (dueChunk c.recvNxt) = some x ∧
    (trimChunk c.recvNxt x).payload.drop
      (min (config.receiveBuffer - c.recvQueue.length) (trimChunk c.recvNxt x).payload.length) ≠ []

/-- what is queued and what is buffered fit the receive buffer together -/
def Fits (config : Config) (c : Connection P) : Prop := c.recvQueue.length + chunkBytes c.reassembly ≤ config.receiveBuffer

theorem Fits.round (h : c.Fits config) (hr : DrainRound nowMs config c c1) : c1.Fits config :=
  (drainOnce_sublist h hr).2.1

theorem Fits.rounds (h : c.Fits config) (hr : Relation.ReflTransGen (DrainRound nowMs config) c c1) : c1.Fits config := by
  induction hr with
  | refl => exact h
  | tail _ hstep ih => exact ih.round hstep

theorem Fits.not_putsBack (h : c.Fits config) : ¬ c.PutsBack config := by
  rintro ⟨x, hx, hrest⟩
  have hmem : x ∈ c.reassembly := (List.mem_filter.1 (List.mem_of_find?_eq_some hx)).1
  have hbytes : x.payload.length ≤ chunkBytes c.reassembly := List.single_le_sum (by simp) _ (List.mem_map_of_mem hmem)
  have htrim := trimChunk_payload_le c.recvNxt x
  have hroom : (trimChunk c.recvNxt x).payload.length ≤ config.receiveBuffer - c.recvQueue.length := by
    unfold Fits at h
    omega
  apply hrest
  rw [min_eq_right hroom, List.drop_length]

/-- what `insert_received` adds fits the window, and so the receive buffer -/
theorem Fits.insert (h : c.Fits config) (hcap : c.receiveCapacity = config.receiveBuffer) (seq : U32) (payload : List U8) (fin : Bool) :
    (c.insertReceived seq payload fin config).Fits config := by
  rcases c.insertReceived_cases seq payload fin config with hins | ⟨chunk, hchunk, -, hins⟩ <;> rw [hins]
  · exact h
  · obtain ⟨o, -, hroom, -⟩ := receivedChunk_spec hchunk
    have hwin : c.availableWindow = c.receiveCapacity - (c.recvQueue.length + chunkBytes c.reassembly) := rfl
    unfold Fits at h
    change c.recvQueue.length + chunkBytes (c.reassembly ++ [chunk]) ≤ config.receiveBuffer
    rw [chunkBytes_append, chunkBytes_cons, chunkBytes_nil]
    omega

/-- the loop stops, and `drainReassembly` is where it stops -/
theorem Fits.loop_ends (h : c.Fits config) (nowMs : ℕ) : ∃ c', Relation.ReflTransGen (DrainRound nowMs config) c c' ∧
    c'.drainOnce nowMs config = (c.drainReassembly nowMs config, false) := by
  refine drainReassembly_rule (I := fun c' => Relation.ReflTransGen (DrainRound nowMs config) c c')
    (J := fun end_ => ∃ c', Relation.ReflTransGen (DrainRound nowMs config) c c' ∧ c'.drainOnce nowMs config = (end_, false))
    (fun hc hd => ⟨hc.tail hd, (drainOnce_sublist (h.rounds hc) hd).2.2 rfl⟩) (fun hc hd => ⟨_, hc, hd⟩) .refl

/-- no run of rounds is endless -/
theorem Fits.no_endless_loop (h : c.Fits config) (nowMs : ℕ) (f : ℕ → Connection P) (h0 : f 0 = c) :
    ¬ ∀ n, DrainRound nowMs config (f n) (f (n + 1)) := by
  intro hf
  have hrun : ∀ n, (f n).Fits config ∧ (f n).reassembly.length + n ≤ c.reassembly.length := fun n => by
    induction n with
    | zero => rw [h0]; exact ⟨h, le_rfl⟩
    | succ n ih =>
      obtain ⟨hfits, hlt⟩ := (drainOnce_sublist ih.1 (hf n)).2
      exact ⟨hfits, by have := hlt rfl; omega⟩
  have := (hrun (c.reassembly.length + 1)).2
  omega

/-! ## The connection that gets there -/

/-- the connection on which `on_segment` calls `receive_stream_data`, if it does: with the ACK of the segment processed -/
def receiving (c : Connection P) (segment : Segment) (nowMs : ℕ) (config : Config) : Option (Connection P) :=
  if c.unacceptableAck segment ∨ c.unexpectedSyn segment ∨ segment.flags.contains .RST ∨
      ¬ (segment.payload ≠ [] ∨ segment.flags.contains .FIN) then none
  else match c.state with
    | .synSent => none
    | .synReceived =>
      if segment.flags.contains .SYN ∧ ¬ segment.flags.contains .ACK ∧ segment.seq + 1 = c.recvNxt then none
      else if segment.ack ≠ some c.sendNxt then none
      else some (c.establishServer segment nowMs)
    | _ =>
      match segment.ack with
      | none => some c
      | some ack =>
        let (c1, closed, _) := c.processAck segment ack nowMs config
        if closed then none else some c1

/-- what a call of `receive_stream_data` means for the rest of `on_segment` -/
def Received (c : Connection P) (segment : Segment) (nowMs : ℕ) (config : Config) (after : Connection P) : Option (Connection P) → Prop
  | none => after.recvQueue = c.recvQueue ∧ after.reassembly = c.reassembly
  | some c1 => c1.receiver = c.receiver ∧ c1.stable = c.stable ∧ c1.Synchronized ∧
    after = ((c1.receiveStreamData segment nowMs config).1.flushData nowMs).1

theorem Received.of_receiver {segment : Segment} {c' : Connection P} (h : c'.receiver = c.receiver) :
    Received c segment nowMs config c' none :=
  ⟨congrArg Receiver.recvQueue h, congrArg Receiver.reassembly h⟩

/-- the last two parts of `on_segment`, on a connection with the receiving half of before -/
theorem Received.of_parts {segment : Segment} (hr : c1.receiver = c.receiver) (hs : c1.stable = c.stable) (hst : c1.Synchronized) :
    Received c segment nowMs config ((c1.receiveIfData segment nowMs config).1.flushData nowMs).1
      (if segment.payload ≠ [] ∨ segment.flags.contains .FIN then some c1 else none) := by
  unfold receiveIfData
  split_ifs with hdata
  · exact ⟨hr, hs, hst, rfl⟩
  · exact Received.of_receiver ((flushData_frame c1 nowMs).1.trans hr)

theorem onSynchronized_received (segment : Segment) (hst : c.Synchronized) (hrst : segment.flags.contains .RST = false) :
    Received c segment nowMs config (c.onSynchronized segment nowMs config).1
      (if segment.payload ≠ [] ∨ segment.flags.contains .FIN then
        match segment.ack with
        | none => some c
        | some ack =>
          let (c1, closed, _) := c.processAck segment ack nowMs config
          if closed then none else some c1
      else none) := by
  unfold onSynchronized
  cases hack : segment.ack with
  | none => exact Received.of_parts rfl rfl hst
  | some ack =>
    obtain ⟨hr, hs⟩ := processAck_frame config nowMs (c := c) segment ack
    rcases hp : c.processAck segment ack nowMs config with ⟨c1, closed, out⟩
    rw [hp] at hr hs
    simp only [hp]
    cases closed with
    | true =>
      simp only [if_true, ite_self]
      exact Received.of_receiver hr
    | false => exact Received.of_parts hr hs ((processAck_moves config nowMs hrst hack hst hp).1 rfl).2.2

/-- **The call of `receive_stream_data`.** A segment that gets there does the rest of its work on that connection; any other leaves
queue and chunks as they are. -/
theorem input_received (c : Connection P) (segment : Segment) (nowMs : ℕ) (config : Config) :
    Received c segment nowMs config (c.input segment nowMs config).1 (c.receiving segment nowMs config) := by
  unfold receiving input
  by_cases hunacceptable : c.unacceptableAck segment = true
  · rw [if_pos hunacceptable, if_pos (.inl hunacceptable)]
    exact Received.of_receiver rfl
  by_cases hunexpected : c.unexpectedSyn segment = true
  · rw [if_neg hunacceptable, if_pos hunexpected, if_pos (.inr (.inl hunexpected))]
    exact Received.of_receiver rfl
  rw [if_neg hunacceptable, if_neg hunexpected]
  unfold onSegment
  by_cases hrst : segment.flags.contains .RST = true
  · rw [if_pos hrst, if_pos (.inr (.inr (.inl hrst)))]
    exact Received.of_receiver rfl
  rw [if_neg hrst]
  have hguard : (c.unacceptableAck segment ∨ c.unexpectedSyn segment ∨ segment.flags.contains .RST ∨
      ¬ (segment.payload ≠ [] ∨ segment.flags.contains .FIN)) ↔ ¬ (segment.payload ≠ [] ∨ segment.flags.contains .FIN) := by
    simp [hunacceptable, hunexpected, hrst]
  rw [if_congr hguard rfl rfl, ite_not]
  cases hst : c.state with
  | synSent =>
    simp only [ite_self]
    unfold onSynSent
    split_ifs
    · obtain ⟨hr, -⟩ := c.establishClient_frame segment nowMs config
      exact ⟨(congrArg Receiver.recvQueue hr), congrArg Receiver.reassembly hr⟩
    · exact Received.of_receiver rfl
  | synReceived =>
    unfold onSynReceived
    by_cases hdup : segment.flags.contains .SYN ∧ ¬ segment.flags.contains .ACK ∧ segment.seq + 1 = c.recvNxt
    · simp only [if_pos hdup, ite_self]
      exact Received.of_receiver (c.retransmitOldest_frame nowMs false).1
    by_cases hack : segment.ack ≠ some c.sendNxt
    · simp only [if_neg hdup, if_pos hack, ite_self]
      exact Received.of_receiver rfl
    · simp only [if_neg hdup, if_neg hack]
      obtain ⟨hr, hs, -, hstate⟩ := c.establishServer_frame segment nowMs
      exact Received.of_parts hr hs ⟨by rw [hstate]; decide, by rw [hstate]; decide⟩
  | _ => exact onSynchronized_received segment ⟨by rw [hst]; decide, by rw [hst]; decide⟩ (by simpa using hrst)

/-! ## At rest -/

/-- what a connection holds between two operations -/
structure Represents (config : Config) (c : Connection P) : Prop where
  /-- queue and chunks fit the receive buffer together -/
  memory : c.recvQueue.length + (c.reassembly.map (·.payload.length)).sum ≤ config.receiveBuffer
  chunks : c.reassembly.length ≤ config.maxReassemblySegments
  ahead : ∀ x ∈ c.reassembly, after x.seq c.recvNxt
  /-- a chunk ends within the receive buffer, a FIN behind it not counted -/
  inside : ∀ x ∈ c.reassembly, distance c.recvNxt x.endSeq ≤ config.receiveBuffer + x.fin.toNat
  something : ∀ x ∈ c.reassembly, x.payload ≠ [] ∨ x.fin = true
  /-- no chunk holds the position `recv_nxt` -/
  missing : ∀ x ∈ c.reassembly, x.len ≤ distance x.seq c.recvNxt
  /-- nothing can be delivered -/
  drained : ∀ nowMs, c.drainReassembly nowMs config = c

/-- where a chunk ahead of `recv_nxt` starts -/
theorem ahead_offset {nxt : U32} {room : ℕ} {x : ReassemblySegment} (h : Ahead nxt room x) :
    ∃ o, x.seq = pos nxt o ∧ 0 < o ∧ o + x.payload.length ≤ room ∧ x.len ≤ x.payload.length + 1 := by
  obtain ⟨hpos, hwithin, -⟩ := h
  refine ⟨distance nxt x.seq, (pos_dist _ _).symm, hpos, hwithin, ?_⟩
  unfold ReassemblySegment.len
  cases x.fin <;> simp

/-- nothing that lies ahead is due -/
theorem RecvInv.rest (hv : config.Valid) (hi : c.RecvInv config) :
    c.reassembly.filter (keepChunk c.recvNxt) = c.reassembly ∧ ∀ x ∈ c.reassembly, dueChunk c.recvNxt x = false := by
  have hbuf := hv.receive_le
  have hnxt : c.recvNxt = pos c.recvNxt 0 := (pos_zero c.recvNxt).symm
  refine ⟨List.filter_eq_self.2 fun x hx => ?_, fun x hx => ?_⟩
  · obtain ⟨o, hseq, hpos, hroom, hlen⟩ := ahead_offset (hi.ahead x hx)
    exact (keepChunk_iff hseq hnxt (by omega) (by omega)).2 (by omega)
  · obtain ⟨o, hseq, hpos, hroom, -⟩ := ahead_offset (hi.ahead x hx)
    by_contra hdue
    have hle : o ≤ 0 := (dueChunk_iff hseq hnxt (by omega) (by omega)).1 (Bool.of_not_eq_false hdue)
    omega

theorem RecvInv.represents (hv : config.Valid) (hi : c.RecvInv config) (hlen : c.reassembly.length ≤ config.maxReassemblySegments) :
    c.Represents config := by
  have hbuf := hv.receive_le
  have hoffset : ∀ x ∈ c.reassembly, ∃ o, x.seq = pos c.recvNxt o ∧ 0 < o ∧
      o + x.payload.length ≤ config.receiveBuffer - c.recvQueue.length ∧ x.len ≤ x.payload.length + 1 := fun x hx =>
    ahead_offset (hi.ahead x hx)
  refine ⟨hi.fits, hlen, fun x hx => ?_, fun x hx => ?_, fun x hx => (hi.ahead x hx).some, fun x hx => ?_, fun nowMs => ?_⟩
  · obtain ⟨o, hseq, hpos, hroom, -⟩ := hoffset x hx
    have hafter : after (pos c.recvNxt o) (pos c.recvNxt 0) := (before_pos (by omega) (by omega)).2 hpos
    rwa [← hseq, pos_zero] at hafter
  · obtain ⟨o, hseq, -, hroom, hx1⟩ := hoffset x hx
    have hdist : distance c.recvNxt x.endSeq = o + x.len := by
      rw [x.endSeq_eq, hseq, add_asU32]
      exact dist_base c.recvNxt (by omega)
    rw [hdist, ReassemblySegment.len]
    omega
  · obtain ⟨o, hseq, hpos, hroom, hx1⟩ := hoffset x hx
    have hdist : distance c.recvNxt x.seq = o := by rw [hseq]; exact dist_base c.recvNxt (by omega)
    have hne : c.recvNxt ≠ x.seq := fun he => by
      rw [← he, distance_self] at hdist
      omega
    have hsum := dist_comm_of_ne hne
    rw [distance_eq_dist] at hdist ⊢
    omega
  · obtain ⟨hkeep, hdue⟩ := hi.rest hv
    have hround : c.drainOnce nowMs config = (c, false) := by
      rcases drainOnce_fits nowMs hi.fits with ⟨h, -⟩ | ⟨x, rest, hx, -, hxdue, -⟩
      · rw [h, hkeep]
      · rw [hdue x hx] at hxdue
        cases hxdue
    unfold drainReassembly drainLoop
    rw [hround]

/-- **Preservation of the limit on chunks, one primitive.** -/
theorem Move.chunks_le {inp : Option Segment} {out : List Segment} (h : Move config nowMs inp c out c1)
    (hi : c.RecvInv config) (hc : c.reassembly.length ≤ config.maxReassemblySegments) :
    c1.reassembly.length ≤ config.maxReassemblySegments := by
  have hframe : ∀ {c' : Connection P}, c'.receiver.reassembly = c.reassembly → c'.reassembly.length ≤ config.maxReassemblySegments :=
    fun {c'} hr => (congrArg List.length hr).trans_le hc
  cases h with
  | establishClient segment => exact hframe (congrArg Receiver.reassembly (c.establishClient_frame segment nowMs config).1)
  | establishServer segment => exact hframe (congrArg Receiver.reassembly (c.establishServer_frame segment nowMs).1)
  | window segment => exact hframe (congrArg Receiver.reassembly (c.updateRemoteWindow_frame segment.window nowMs).1)
  | retransmit timeout => exact hframe (congrArg Receiver.reassembly (c.retransmitOldest_frame nowMs timeout).1)
  | advanceAck _ segment ack hin hrst hack hst hadv h => exact hframe (congrArg Receiver.reassembly (afterAck_frame nowMs config h).1)
  | receive segment hin hst =>
    have hdrained := hi.drained hst segment.seq segment.payload (segment.flags.contains .FIN)
    refine (drainReassembly_sublist nowMs hdrained.fits).length_le.trans ?_
    rcases c.insertReceived_cases segment.seq segment.payload (segment.flags.contains .FIN) config with h | ⟨chunk, -, hlen, h⟩ <;>
      rw [h]
    · exact hc
    · rw [List.length_append]
      exact hlen
  | probe =>
    rcases c.zeroWindowProbe_cases nowMs with ⟨x, -, -, h⟩ | ⟨-, ⟨-, h⟩ | ⟨-, h⟩⟩ <;> rw [h] <;> exact hc
  | _ => exact hc

end Connection

/-- **What the receiving half holds, over any run.** -/
theorem Socket.represents_run {P : Type} {config : Config} (o : Opening P) (hv : config.Valid) (ops : List SocketOp)
    (hr : (Socket.run config o ops).retained = true) :
    (Socket.run config o ops).conn.RecvInv config ∧ (Socket.run config o ops).conn.Represents config := by
  have hinv := Run.exec_invariant (P := fun s : Socket P => s.retained = true → Socket.Inv config o.isn s.accepted s.conn ∧
    s.conn.reassembly.length ≤ config.maxReassemblySegments) (fun s op hs hr => ?_)
    (fun _ => ⟨⟨o.sendInv hv, o.recvInv⟩, ?_⟩) ops hr
  · exact ⟨hinv.1.recv, hinv.1.recv.represents hv hinv.2⟩
  · refine Socket.step_invariant (Q := fun acc c => Socket.Inv config o.isn acc c ∧ c.reassembly.length ≤ config.maxReassemblySegments)
      (fun h => h.1.send.mss) (fun h hq => ⟨hq.1.move hv h, h.chunks_le hq.1.recv hq.2⟩)
      (fun hq hst hroom => ⟨⟨hq.1.send.accept hst hroom, hq.1.recv.of_frame rfl rfl id rfl⟩, hq.2⟩)
      (fun count hq => ⟨⟨⟨hq.1.send.sender, hq.1.send.window, hq.1.send.mss, hq.1.send.buffer⟩, hq.1.recv.consume count⟩, hq.2⟩) hs op hr
  · change (o.connection config).1.reassembly.length ≤ _
    rw [o.reassembly_nil]
    exact Nat.zero_le _

/-- **The receiving half.** A reachable connection is at rest. A segment leaves queue and chunks as they are or gets to
`receive_stream_data`; and then the loop of `drain_reassembly` never puts the rest of a chunk back, has no endless run, and ends
where `drainReassembly` ends. -/
theorem receiver_representation {P : Type} (config : ValidConfig) {c : Connection P} (h : c.Reachable config.1) :
    c.Represents config.1 ∧ ∀ segment nowMs,
      Connection.Received c segment nowMs config.1 (c.input segment nowMs config.1).1 (c.receiving segment nowMs config.1) ∧
      ∀ c1, c.receiving segment nowMs config.1 = some c1 →
      let start := c1.insertReceived segment.seq segment.payload (segment.flags.contains .FIN) config.1
      (∀ c2, Relation.ReflTransGen (Connection.DrainRound nowMs config.1) start c2 → ¬ c2.PutsBack config.1) ∧
        (∀ f : ℕ → Connection P, f 0 = start → ¬ ∀ n, Connection.DrainRound nowMs config.1 (f n) (f (n + 1))) ∧
        ∃ c2, Relation.ReflTransGen (Connection.DrainRound nowMs config.1) start c2 ∧
          c2.drainOnce nowMs config.1 = (start.drainReassembly nowMs config.1, false) := by
  obtain ⟨o, ops, hr, rfl⟩ := h
  obtain ⟨hi, hrep⟩ := Socket.represents_run o config.valid ops hr
  refine ⟨hrep, fun segment nowMs => ?_⟩
  have hreceived := (Socket.run config.1 o ops).conn.input_received segment nowMs config.1
  refine ⟨hreceived, fun c1 hc1 => ?_⟩
  rw [hc1] at hreceived
  obtain ⟨hrecv, hstable, -, -⟩ := hreceived
  have hcap : c1.receiveCapacity = config.1.receiveBuffer := (congrArg Stable.receiveCapacity hstable).trans hi.capacity
  have hfits : c1.Fits config.1 := by
    have hqueue : c1.recvQueue = _ := congrArg Receiver.recvQueue hrecv
    have hchunks : c1.reassembly = _ := congrArg Receiver.reassembly hrecv
    rw [Connection.Fits, hqueue, hchunks]
    exact hi.fits
  have hstart := hfits.insert hcap segment.seq segment.payload (segment.flags.contains .FIN)
  exact ⟨fun c2 h => (hstart.rounds h).not_putsBack, hstart.no_endless_loop nowMs, hstart.loop_ends nowMs⟩

/-- in the run with overlapping chunks, the segment that brings the first byte -/
theorem receiver_representation_overlap :
    (Socket.run Config.default (.client () 9000 80 100 0 0) overlapRun).conn.Represents Config.default ∧
      ∃ c2, Relation.ReflTransGen (Connection.DrainRound 8 Config.default)
        ((Socket.run Config.default (.client () 9000 80 100 0 0) overlapRun).conn.insertReceived 701 [6] false Config.default) c2 ∧
          c2.drainOnce 8 Config.default = (((Socket.run Config.default (.client () 9000 80 100 0 0) overlapRun).conn.insertReceived 701 [6]
            false Config.default).drainReassembly 8 Config.default, false) := by
  have h := receiver_representation ⟨Config.default, Config.default_validate⟩
    ⟨.client () 9000 80 100 0 0, overlapRun, by decide, rfl⟩
  exact ⟨h.1, (h.2 { Segment.new 80 9000 701 with flags := .ACK, payload := [6] } 8).2 _ rfl |>.2.2⟩

end FipsTcp
