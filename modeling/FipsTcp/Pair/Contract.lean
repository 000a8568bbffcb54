/-
What two endpoints promise their applications.

Each direction of a pair is a pipe (`Pair.pipe`): what the writer's side accepted, what the reader's side has in order,
whether the writer's FIN was sent, whether the reader's side saw it. `Pair.pipe_run` is the refinement: every run of the
pair, whatever the network does, runs both pipes. The results follow from the safety of the pipe:
- `stream_integrity`: what was received is a prefix of what was accepted;
- `acked_was_received`: what counts as acknowledged at the sender was received in order;
- `end_of_stream_complete`: a closed read side has everything, and nothing more will be accepted.
-/
import FipsTcp.Pair.System

namespace FipsTcp

open Serial Stream SendWindow Connection

namespace Pair

variable {P : Type} {h : Handshake P} {p q : Pair P}

/-- the direction from `side` to the other side -/
def pipe (p : Pair P) (side : Side) : Pipe U8 where
  accepted := (p side).accepted
  delivered := (p side.other).stream
  closed := (p side).conn.state.phase.finSent
  eof := (p side.other).conn.readClosed

/-- how much a side received, and whether to the end, in terms of the stream it received from -/
theorem rcv_eq (h : Handshake P) (side : Side) (hst : (p side).conn.state ≠ .synSent) :
    (p.face h side).rcv = 1 + (p side).stream.length + (p side).conn.readClosed.toNat := by
  simp only [face, Socket.face, Connection.face, rcvPos, if_neg hst]

theorem Inv.synSent (hi : p.Inv h) (side : Side) (hst : (p side).conn.state = .synSent) :
    (p side).stream = [] ∧ (p side).conn.readClosed = false ∧ (p.face h side).rcv = 0 := by
  refine ⟨(hi side).start hst, ?_, by simp only [face, Socket.face, Connection.face, rcvPos, if_pos hst]⟩
  cases hr : (p side).ackRemoved with
  | false => exact (((hi side).side hr).recv.fresh hst).2.2
  | true => rw [((hi side).left hr).1] at hst; cases hst

/-- **Safety of one direction.** -/
theorem Inv.pipe (hi : p.Inv h) (side : Side) : (p.pipe side).Inv := by
  have hl := hi side.other
  rw [Side.other_other] at hl
  have hopen : (p side.other).conn.readClosed = true → (p side.other).conn.state ≠ .synSent := fun hc hst => by
    rw [(hi.synSent side.other hst).2.1] at hc; cases hc
  exact ⟨hl.isPrefix, fun hc => ((hl.stream (hopen hc)).closed hc).2, fun hc => ((hl.stream (hopen hc)).closed hc).1⟩

/-- what was received grows with the positions received -/
theorem pipe_steps (hp : p.Inv h) (hq : q.Inv h) (hle : ∀ side, (p.face h side).Le (q.face h side)) (side : Side) :
    Pipe.Steps (p.pipe side) (q.pipe side) := by
  have hacc := (hle side).acc
  have hfin := (hle side).fin
  have hrcv := (hle side.other).rcv
  have h1 := hp.pipe side
  have h2 := hq.pipe side
  have hlen1 := h1.isPrefix.length_le
  have hlen2 := h2.isPrefix.length_le
  refine Pipe.Steps.of_forward hacc ?_ hfin (fun he => ?_) h2
  · by_cases hst : (p side.other).conn.state = .synSent
    · simp only [pipe, (hp.synSent side.other hst).1]; exact List.nil_prefix
    · rw [rcv_eq h side.other hst] at hrcv
      have hst' : (q side.other).conn.state ≠ .synSent := fun hs => by
        rw [(hq.synSent side.other hs).2.2] at hrcv; omega
      rw [rcv_eq h side.other hst'] at hrcv
      refine List.prefix_of_prefix_length_le (h1.isPrefix.trans hacc) h2.isPrefix ?_
      cases he : (q side.other).conn.readClosed with
      | false => rw [he, Bool.toNat_false] at hrcv; simp only [pipe]; omega
      | true =>
        have hall : (q.pipe side).delivered = (q.pipe side).accepted := h2.eof_all he
        rw [hall]
        exact hlen1.trans hacc.length_le
  · have hst : (p side.other).conn.state ≠ .synSent := fun hs => by
      rw [show (p.pipe side).eof = (p side.other).conn.readClosed from rfl, (hp.synSent side.other hs).2.1] at he; cases he
    have hall := congrArg List.length (h1.eof_all he)
    have hlast := congrArg List.length (hfin (h1.eof_closed he)).2
    rw [rcv_eq h side.other hst, show (p side.other).conn.readClosed = true from he, Bool.toNat_true] at hrcv
    have hst' : (q side.other).conn.state ≠ .synSent := fun hs => by
      rw [(hq.synSent side.other hs).2.2] at hrcv; omega
    rw [rcv_eq h side.other hst'] at hrcv
    by_contra hno
    rw [show (q side.other).conn.readClosed = false from Bool.of_not_eq_true hno, Bool.toNat_false] at hrcv
    simp only [pipe, face, Socket.face, Connection.face] at hall hlast hlen2
    omega

/-- **Refinement.** Every run of the pair runs the pipe of each direction. -/
theorem pipe_run (h : Handshake P) (ops more : List PairOp) (hb : (run h (ops ++ more)).Bounded) (side : Side) :
    Pipe.Steps ((run h ops).pipe side) ((run h (ops ++ more)).pipe side) :=
  pipe_steps (inv_run h ops (hb.of_run ops more)) (inv_run h _ hb) (face_run h ops more hb) side

/-- what the sender counts as acknowledged, in the peer's stream -/
theorem Inv.acked_le (hi : p.Inv h) (side : Side) (hr : (p side).ackRemoved = false) :
    (p side).conn.sendProgress.ackedPayloadBytes ≤ (p side.other).stream.length := by
  have hs := (hi side).side hr
  have hinv := hs.send.sender
  have hu := hinv.unaPos_eq
  have hle := hs.una
  have hsum := hinv.sum
  have hp := hi.pipe side
  have hacked : (p side).conn.sender.acked = (p side).conn.sendProgress.ackedPayloadBytes := rfl
  by_cases hst : (p side.other).conn.state = .synSent
  · -- nothing was received, so nothing was acknowledged
    rw [(hi.synSent side.other hst).2.2] at hle
    cases hph : (p side).conn.sender.phase <;> rw [hph] at hu <;> simp only at hu
    · have := hinv.fresh hph
      rw [this, List.length_nil] at hsum; omega
    all_goals omega
  · rw [rcv_eq h side.other hst] at hle
    have hclosed : (p side.other).conn.readClosed = true → (p side).conn.sender.acked ≤ (p side.other).stream.length :=
      fun hc => by
        have hall : (p side.other).stream = (p side).accepted := hp.eof_all hc
        rw [hall]; omega
    cases hc : (p side.other).conn.readClosed with
    | true => exact hclosed hc
    | false =>
      rw [hc, Bool.toNat_false] at hle
      cases hph : (p side).conn.sender.phase <;> rw [hph] at hu <;> simp only at hu
      · have := hinv.fresh hph
        rw [this, List.length_nil] at hsum; omega
      all_goals omega

/-- an acknowledged FIN: the peer received every position there was -/
theorem Inv.all_received (hi : p.Inv h) (side : Side) (hall : (p side).accepted.length + 2 ≤ (p.face h side.other).rcv) :
    (p side.other).conn.readClosed = true ∧ (p side.other).stream = (p side).accepted := by
  have hp := hi.pipe side
  have hlen : (p side.other).stream.length ≤ (p side).accepted.length := hp.isPrefix.length_le
  have hst : (p side.other).conn.state ≠ .synSent := fun hs => by
    rw [(hi.synSent side.other hs).2.2] at hall; omega
  rw [rcv_eq h side.other hst] at hall
  have hc : (p side.other).conn.readClosed = true := by
    by_contra hno
    rw [Bool.of_not_eq_true hno, Bool.toNat_false] at hall; omega
  exact ⟨hc, hp.eof_all hc⟩

end Pair

/-! ## Results -/

section Results

variable {P : Type} (h : Handshake P) (ops : List PairOp)

/-- **Stream integrity.** Over a network that may lose, duplicate, reorder and delay every segment, what a side received
in order is at all times a prefix of what the other side accepted from its application. -/
theorem stream_integrity (hb : (Pair.run h ops).Bounded) (side : Side) :
    (Pair.run h ops side.other).stream <+: (Pair.run h ops side).accepted :=
  ((Pair.inv_run h ops hb).pipe side).isPrefix

/-- a client whose sequence numbers wrap inside the first three bytes, with the default configuration at both ends -/
def wrapHandshake : Handshake Unit where
  config _ := ⟨Config.default, Config.default_validate⟩
  peer _ := ()
  isn
    | .client => 0xfffffffe
    | .server => 700
  nowMs _ := 0
  token _ := 0
  localPort := 9000
  remotePort := 80

/-- three bytes arrive twice, before the ACK of the handshake; the close is acknowledged -/
def wrapRun : List PairOp :=
  [.deliver .client 0 5, .act .client (.write [1, 2, 3] 6), .deliver .server 2 7, .deliver .server 2 8,
    .act .server (.read 2), .deliver .client 1 9, .act .client (.close 10), .deliver .server 3 11, .deliver .server 2 12,
    .deliver .client 4 13]

theorem wrapRun_bounded : (Pair.run wrapHandshake wrapRun).Bounded
  | .client => by decide
  | .server => by decide

theorem stream_integrity_wrap :
    (Pair.run wrapHandshake wrapRun .server).stream = [1, 2, 3] ∧
      (Pair.run wrapHandshake wrapRun .server).stream <+: (Pair.run wrapHandshake wrapRun .client).accepted :=
  ⟨by decide, stream_integrity wrapHandshake wrapRun wrapRun_bounded .client⟩

/-- the FIN of a side counts as acknowledged -/
def Socket.FinAcked (s : Socket P) : Prop :=
  s.conn.state = .finWait2 ∨ s.conn.state = .timeWait ∨ s.ackRemoved = true

/-- **Acknowledged means received.** An acknowledged marker has every byte up to its boundary in the peer's stream; an
acknowledged FIN has the whole stream there, closed. -/
theorem acked_was_received (hb : (Pair.run h ops).Bounded) (side : Side) :
    (∀ marker, (Pair.run h ops side).markerStatus marker = .acked →
        marker.acceptedPayloadBytes ≤ (Pair.run h ops side).accepted.length ∧
          (Pair.run h ops side).accepted.take marker.acceptedPayloadBytes <+: (Pair.run h ops side.other).stream) ∧
      ((Pair.run h ops side).FinAcked →
        (Pair.run h ops side.other).conn.readClosed = true ∧
          (Pair.run h ops side.other).stream = (Pair.run h ops side).accepted) := by
  have hi := Pair.inv_run h ops hb
  generalize Pair.run h ops = p at hi ⊢
  have hpre : (p side.other).stream <+: (p side).accepted := (hi.pipe side).isPrefix
  constructor
  · intro marker hm
    unfold Socket.markerStatus SendProgress.status at hm
    split_ifs at hm with hret htok hle
    have hacked := hle.trans (hi.acked_le side ((hi side).kept hret))
    refine ⟨hacked.trans hpre.length_le, ?_⟩
    exact List.prefix_of_prefix_length_le (List.take_prefix _ _) hpre (by rw [List.length_take]; omega)
  · intro hf
    refine hi.all_received side ?_
    cases hr : (p side).ackRemoved with
    | true => exact ((hi side).left hr).2.2
    | false =>
      have hs := (hi side).side hr
      have hinv := hs.send.sender
      have hph : (p side).conn.sender.phase = .closed := by
        rcases hf with hf | hf | hf
        · simp only [sender, hf]; rfl
        · simp only [sender, hf]; rfl
        · rw [hr] at hf; cases hf
      have hu := hinv.unaPos_eq
      have hsum := hinv.sum
      have hshape := hinv.shape
      rw [hph] at hu hshape
      rw [(hinv.idle (by rw [hph]; decide)).1, show (p side).conn.sender.flight = [] from hshape] at hsum
      have hle := hs.una
      simp only [bytes_nil, List.length_nil] at hu hsum
      omega

theorem acked_was_received_wrap :
    (Pair.run wrapHandshake wrapRun .client).markerStatus ⟨⟨1⟩, 0, 3⟩ = .acked ∧
      (Pair.run wrapHandshake wrapRun .client).accepted.take 3 <+: (Pair.run wrapHandshake wrapRun .server).stream ∧
      (Pair.run wrapHandshake wrapRun .server).conn.readClosed = true :=
  have h := acked_was_received wrapHandshake wrapRun wrapRun_bounded .client
  ⟨by decide, (h.1 ⟨⟨1⟩, 0, 3⟩ (by decide)).2, (h.2 (.inl (by decide))).1⟩

/-- **No premature end of stream.** When the read side of a connection is closed, it received everything the other side
ever accepted, and from then on every write there fails. -/
theorem end_of_stream_complete (more : List PairOp) (hb : (Pair.run h (ops ++ more)).Bounded) (side : Side)
    (hclosed : (Pair.run h ops side.other).conn.readClosed = true) :
    (Pair.run h ops side.other).stream = (Pair.run h ops side).accepted ∧
      (Pair.run h (ops ++ more) side).accepted = (Pair.run h ops side).accepted ∧
      ∀ bytes nowMs, ∃ e, (Pair.run h (ops ++ more) side).writeResult (h.config side).1 bytes nowMs = .error e := by
  have hp := (Pair.inv_run h ops (hb.of_run ops more)).pipe side
  obtain ⟨h1, h2, -⟩ := (Pair.pipe_run h ops more hb side).eof_final hp hclosed
  have hq := (Pair.inv_run h (ops ++ more) hb).pipe side
  refine ⟨hp.eof_all hclosed, h2, fun bytes nowMs => ?_⟩
  have hfin : (Pair.run h (ops ++ more) side).conn.state.phase.finSent = true := hq.eof_closed h1
  unfold Socket.writeResult
  split_ifs
  · -- a connection that sent its FIN is in none of the states that accept a write
    have hst : ¬ ((Pair.run h (ops ++ more) side).conn.state = .established ∨
        (Pair.run h (ops ++ more) side).conn.state = .closeWait) := by
      rintro (hs | hs) <;> rw [hs] at hfin <;> cases hfin
    exact ⟨_, by rw [Connection.write, if_pos (.inl hst)]; rfl⟩
  · exact ⟨_, rfl⟩

theorem end_of_stream_complete_wrap :
    (Pair.run wrapHandshake wrapRun .server).stream = (Pair.run wrapHandshake wrapRun .client).accepted ∧
      (Pair.run wrapHandshake (wrapRun ++ [.act .client (.write [9] 14)]) .client).accepted =
        (Pair.run wrapHandshake wrapRun .client).accepted :=
  have h := end_of_stream_complete wrapHandshake wrapRun [.act .client (.write [9] 14)]
    (fun | .client => by decide | .server => by decide) .client (by decide)
  ⟨h.1, h.2.1⟩

end Results

end FipsTcp
