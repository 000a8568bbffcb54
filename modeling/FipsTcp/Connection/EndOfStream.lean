/-
Is the end of the stream final?

Once the peer's FIN is delivered, `read_closed` is set and the bytes that can still be read should be those in the receive
queue. The data path does not look at `read_closed`: a segment at `recv_nxt`, past the FIN, is delivered like any other.
- `Extends`: the segments that do so, in terms of the segment and the connection it meets;
- `extends_iff`: exactly these move the stream of a connection whose read side is closed;
- `end_of_stream_kept`: in every run without such segments, the stream stays as it was when it closed;
- `end_of_stream_extended`: one byte after the FIN is appended to a stream that was reported closed.
-/
import FipsTcp.Connection.HeadOfLine

namespace FipsTcp

open Serial SendWindow

namespace Connection

variable {P : Type} {config : Config} {c : Connection P} {segment : Segment} {nowMs : ℕ}

/-- a segment with a byte or a FIN at `recv_nxt` that nothing in the connection refuses -/
def Extends (config : Config) (c : Connection P) (segment : Segment) : Prop :=
  segment.flags.contains .RST = false ∧ segment.flags.contains .SYN = false ∧
    ¬ (c.state = .lastAck ∧ segment.ack = some c.sendNxt) ∧ c.reassembly.length < config.maxReassemblySegments ∧
    beforeOrEqual segment.seq c.recvNxt ∧
    (distance segment.seq c.recvNxt < segment.payload.length ∧ 0 < c.availableWindow ∨
      distance segment.seq c.recvNxt = segment.payload.length ∧ segment.flags.contains .FIN = true)

instance (config : Config) (c : Connection P) (segment : Segment) : Decidable (Extends config c segment) := by
  unfold Extends; infer_instance

/-- `insert_received` keeps something at `recv_nxt` of exactly the segments that have a byte there and find a window, or
have their FIN there -/
theorem head_chunk_iff (c : Connection P) (segment : Segment) :
    (∃ chunk, c.receivedChunk segment.seq segment.payload (segment.flags.contains .FIN) = some chunk ∧
        chunk.seq = c.recvNxt) ↔
      beforeOrEqual segment.seq c.recvNxt ∧
        (distance segment.seq c.recvNxt < segment.payload.length ∧ 0 < c.availableWindow ∨
          distance segment.seq c.recvNxt = segment.payload.length ∧ segment.flags.contains .FIN = true) := by
  by_cases hb : beforeOrEqual segment.seq c.recvNxt
  · have hnil : (segment.payload.drop (distance segment.seq c.recvNxt)).take
        (min (segment.payload.drop (distance segment.seq c.recvNxt)).length c.availableWindow) = [] ↔
        ¬ (distance segment.seq c.recvNxt < segment.payload.length ∧ 0 < c.availableWindow) := by
      rw [← List.length_eq_zero_iff, List.length_take, List.length_drop]; omega
    rw [receivedChunk_head hb]
    simp only [hb, true_and, Bool.and_eq_false_iff, decide_eq_false_iff_not, List.length_drop] at hnil ⊢
    split_ifs with hn
    · simp only [false_and, exists_false, false_iff]
      rintro (h | ⟨hd, hf⟩)
      · exact hnil.1 hn.1 h
      · rcases hn.2 with h | h
        · rw [hf] at h; cases h
        · exact h ⟨by omega, by omega⟩
    · simp only [Option.some.injEq, exists_eq_left', true_iff]
      by_contra h
      obtain ⟨h1, h2⟩ := not_or.1 h
      refine hn ⟨hnil.2 h1, ?_⟩
      by_contra hk
      obtain ⟨hf, hk⟩ := not_or.1 hk
      have hk := not_not.1 hk
      exact h2 ⟨by omega, Bool.of_not_eq_false hf⟩
  · simp only [hb, false_and, iff_false, not_exists, not_and]
    intro chunk hchunk hseq
    rw [receivedChunk_ahead hb] at hchunk
    simp only at hchunk
    split_ifs at hchunk
    cases hchunk
    exact hb (.inl hseq)

/-- the ACK of the FIN in LAST-ACK completes the close -/
theorem onSynchronized_closed_iff (nowMs : ℕ) {isn : U32} {acc : List U8} (hs : c.SendInv config isn acc) (hst : c.Synchronized)
    (hrst : segment.flags.contains .RST = false) :
    (c.onSynchronized segment nowMs config).2.closed = true ↔ c.state = .lastAck ∧ segment.ack = some c.sendNxt := by
  constructor
  · intro h
    obtain ⟨-, hl⟩ := (onSynchronized_moves config nowMs hst hs.mss hrst).2 h
    obtain ⟨ack, hack, hadv, hnone, -⟩ := hl.acked
    have hleft := ((afterAck_sender hs.sender (by norm_num) hst hadv nowMs config).1.1 hnone).2
    rw [leftAfter_eq_nil hs.sender (by norm_num) hadv] at hleft
    exact ⟨hl.state, by rw [hack, hleft]⟩
  · rintro ⟨hlast, hack⟩
    have hne : c.unacked ≠ [] := by
      have hshape : c.state.phase.Shape (c.unacked.map TrackedSegment.piece) := hs.sender.shape
      rw [hlast] at hshape
      obtain ⟨ds, f, hl, -⟩ := hshape
      rintro hnil
      rw [hnil] at hl; simp at hl
    have hadv := (advances_sendNxt hs.sender (by norm_num) hne).1
    have hnone := (afterAck_sender hs.sender (by norm_num) hst hadv nowMs config).1.2
      ⟨hlast, (leftAfter_eq_nil hs.sender (by norm_num) hadv).2 rfl⟩
    unfold afterAck at hnone
    simp only [onSynchronized, hack, processAck, applyAck_of_advances hadv, hnone, if_true]
    rfl

/-- **What moves a closed stream.** When the read side is closed, a segment moves `recv_nxt` if and only if it extends the
stream; otherwise the receive queue stays as well. -/
theorem extends_iff (nowMs : ℕ) {isn : U32} {acc : List U8} (hv : config.Valid) (hi : Socket.Inv config isn acc c)
    (hclosed : c.readClosed = true) :
    (Extends config c segment → (c.input segment nowMs config).1.recvNxt ≠ c.recvNxt) ∧
      (¬ Extends config c segment → (c.input segment nowMs config).1.recvNxt = c.recvNxt ∧
        (c.input segment nowMs config).1.recvQueue = c.recvQueue ∧
        (c.input segment nowMs config).1.readClosed = true) := by
  have hdone := hi.recv.done
  rw [hclosed] at hdone
  have hst : c.Synchronized := by
    constructor <;> intro h <;> rw [h] at hdone <;> cases hdone
  rcases input_reaches config segment nowMs hst with ⟨hflag, h⟩ | ⟨hrst, hsyn, h⟩
  · rw [h]
    refine ⟨fun he => ?_, fun _ => ⟨rfl, rfl, hclosed⟩⟩
    rcases hflag with hf | hf
    · rw [he.1] at hf; cases hf
    · rw [he.2.1] at hf; cases hf
  · rw [h]
    have hiff := onSynchronized_closed_iff nowMs hi.send hst hrst
    cases hc : (c.onSynchronized segment nowMs config).2.closed with
    | true =>
      -- the connection is removed with its receiving half as it was
      obtain ⟨-, hl⟩ := (onSynchronized_moves config nowMs hst hi.send.mss hrst).2 hc
      obtain ⟨ack, -, -, -, hres⟩ := hl.acked
      rw [hres]
      exact ⟨fun he => absurd (hiff.1 hc) he.2.2.1, fun _ => ⟨rfl, rfl, hclosed⟩⟩
    | false =>
      obtain ⟨c1, out, hm, hst1, hrec, hstab, hres⟩ := onSynchronized_receiver config nowMs hst hrst hc
      have hi1 : c1.RecvInv config := hm.preserves (fun h hi => h.recvInv hv hi) hi.recv
      have hwin := availableWindow_eq hrec hstab
      simp only [receiver, Receiver.mk.injEq] at hrec hres
      obtain ⟨hn, hq, hre, hrc⟩ := hrec
      obtain ⟨hn', hq', -, hrc'⟩ := hres
      rw [hn', hq', hrc', ← hn, ← hq, receiveIfData]
      have hhead := head_chunk_iff c1 segment
      rw [hn, hwin] at hhead
      constructor
      · rintro ⟨-, -, -, hlen, hpart⟩
        obtain ⟨chunk, hchunk, hseq⟩ := hhead.2 hpart
        have hdata : segment.payload ≠ [] ∨ segment.flags.contains .FIN := by
          rcases hpart.2 with ⟨hd, -⟩ | ⟨-, hf⟩
          · exact .inl (List.ne_nil_of_length_pos (by omega))
          · exact .inr hf
        rw [if_pos hdata]
        obtain ⟨r, m, hr0, hd⟩ := hi1.receive_head nowMs hv hst1 hchunk (by rw [hseq, hn]) (by rw [hre]; exact hlen)
        have hle := hd.le
        have hbuf := hv.receive_le
        rw [hd.nxt]
        intro he
        have : r = 0 := (pos_inj c1.recvNxt (by omega) (by omega)).1 (he.trans (pos_zero _).symm)
        omega
      · intro hno
        have hlast : ¬ (c.state = .lastAck ∧ segment.ack = some c.sendNxt) := fun hl => by
          rw [hiff.2 hl] at hc; cases hc
        split_ifs with hdata
        · obtain ⟨e1, e2, e3⟩ := hi1.receive_still segment nowMs hv hst1 fun chunk hchunk hseq => by
            by_contra hlen
            exact hno ⟨hrst, hsyn, hlast, by rw [← hre]; omega, hhead.1 ⟨chunk, hchunk, by rw [hseq, hn]⟩⟩
          exact ⟨e1, e2, e3.trans (hrc.trans hclosed)⟩
        · exact ⟨rfl, rfl, hrc.trans hclosed⟩

end Connection

namespace Socket

open Connection

variable {P : Type} {config : Config}

/-- a step that does not deliver an extending segment to a retained connection -/
def Quiet (config : Config) (s : Socket P) : SocketOp → Prop
  | .input segment _ => s.retained = true → ¬ Extends config s.conn segment
  | _ => True

instance (config : Config) (s : Socket P) (op : SocketOp) : Decidable (Quiet config s op) := by
  cases op <;> unfold Quiet <;> infer_instance

/-- a stream that was closed with the content `l`, at `nxt` -/
structure Ended (config : Config) (isn nxt : U32) (l : List U8) (s : Socket P) : Prop where
  nxt : s.conn.recvNxt = nxt
  stream : s.stream = l
  inv : s.retained = true → Inv config isn s.accepted s.conn
  closed : s.retained = true → s.conn.readClosed = true

/-- no operation of the application or of a timer moves the stream -/
theorem local_stream (config : Config) (op : SocketOp) {s : Socket P} (hm : 0 < s.conn.mss) (hop : ∀ segment nowMs, op ≠ .input segment nowMs) :
    (s.step config op).conn.recvNxt = s.conn.recvNxt ∧ (s.step config op).stream = s.stream ∧
      (s.step config op).conn.readClosed = s.conn.readClosed := by
  have hview : ∀ c c' : Connection P, c'.receiver = c.receiver →
      c'.recvNxt = c.recvNxt ∧ c'.recvQueue = c.recvQueue ∧ c'.readClosed = c.readClosed := fun c c' h => by
    simp only [receiver, Receiver.mk.injEq] at h
    exact ⟨h.1, h.2.1, h.2.2.2⟩
  cases hret : s.retained with
  | false =>
    obtain ⟨h1, -, h2, -⟩ := step_removed config hret op
    exact ⟨by rw [h1], by rw [stream, stream, h1, h2], by rw [h1]⟩
  | true =>
    cases op with
    | input segment nowMs => exact absurd rfl (hop segment nowMs)
    | write bytes nowMs =>
      simp only [step, onWrite, hret, if_true]
      rcases hw : s.conn.write bytes nowMs config with _ | ⟨conn, count, out⟩
      · exact ⟨rfl, rfl, rfl⟩
      · obtain ⟨-, -, -, -, hmoves⟩ := write_moves config nowMs hm hw
        obtain ⟨h1, h2, h3⟩ := hview _ _ hmoves.receiver_eq
        exact ⟨h1, congrArg (s.delivered ++ ·) h2, h3⟩
    | read max =>
      simp only [step, onRead, hret, if_true]
      obtain ⟨hbytes, hmoves⟩ := read_moves config 0 (c := s.conn) max
      obtain ⟨h1, h2, h3⟩ := hview _ _ hmoves.receiver_eq
      refine ⟨h1, ?_, h3⟩
      simp only [stream, hbytes, h2, consume, List.append_assoc, List.take_append_drop]
    | close nowMs =>
      simp only [step, onUpdate, hret, if_true]
      obtain ⟨h1, h2, h3⟩ := hview _ _ (close_moves config nowMs hm).1.receiver_eq
      exact ⟨h1, congrArg (s.delivered ++ ·) h2, h3⟩
    | abort => simp [step, onAbort, hret, stream]
    | poll nowMs =>
      simp only [step, onUpdate, hret, if_true]
      obtain ⟨h1, h2, h3⟩ := hview _ _ (poll_moves config nowMs hm).1.receiver_eq
      exact ⟨h1, congrArg (s.delivered ++ ·) h2, h3⟩

/-- one step of a closed stream -/
theorem Ended.step (hv : config.Valid) {isn nxt : U32} {l : List U8} {s : Socket P} {op : SocketOp}
    (hq : Quiet config s op) (h : Ended config isn nxt l s) : Ended config isn nxt l (s.step config op) := by
  have hinv := fun hr => inv_step hv isn op h.inv hr
  cases hret : s.retained with
  | false =>
    obtain ⟨h1, -, h2, h3⟩ := step_removed config hret op
    refine ⟨by rw [h1]; exact h.nxt, ?_, hinv, fun hr => by rw [h3] at hr; cases hr⟩
    rw [Socket.stream, h1, h2]; exact h.stream
  | true =>
    have hi := h.inv hret
    by_cases hop : ∃ segment nowMs, op = .input segment nowMs
    · obtain ⟨segment, nowMs, rfl⟩ := hop
      obtain ⟨h1, h2, h3⟩ := (extends_iff nowMs hv hi (h.closed hret)).2 (hq hret)
      have hconn : (s.step config (.input segment nowMs)).conn = (s.conn.input segment nowMs config).1 := by
        simp only [Socket.step, onInput, hret, if_true]
      have hdel : (s.step config (.input segment nowMs)).delivered = s.delivered := by
        simp only [Socket.step, onInput, hret, if_true]
      refine ⟨by rw [hconn, h1]; exact h.nxt, ?_, hinv, fun _ => by rw [hconn]; exact h3⟩
      rw [Socket.stream, hconn, hdel, h2]; exact h.stream
    · obtain ⟨h1, h2, h3⟩ := local_stream config op hi.send.mss
        fun segment nowMs he => hop ⟨segment, nowMs, he⟩
      exact ⟨h1.trans h.nxt, h2.trans h.stream, hinv, fun _ => h3.trans (h.closed hret)⟩

end Socket

/-- **The end of the stream.** In every run from a reachable state in which the read side is closed, as long as no step
delivers an extending segment, `recv_nxt` and the stream stay what they were when it closed. -/
theorem end_of_stream_kept {P : Type} (config : ValidConfig) (o : Opening P) (ops more : List SocketOp)
    (hclosed : (Socket.run config.1 o ops).conn.readClosed = true)
    (hquiet : Run.Along (Socket.step config.1) (Socket.Quiet config.1) (Socket.run config.1 o ops) more) :
    (Socket.run config.1 o (ops ++ more)).conn.recvNxt = (Socket.run config.1 o ops).conn.recvNxt ∧
      (Socket.run config.1 o (ops ++ more)).stream = (Socket.run config.1 o ops).stream := by
  have hv := config.valid
  have h := Run.exec_invariant_along
    (P := Socket.Ended config.1 o.isn (Socket.run config.1 o ops).conn.recvNxt (Socket.run config.1 o ops).stream)
    (fun _ _ hq h => h.step hv hq) ⟨rfl, rfl, fun hr => Socket.inv_run o hv ops hr, fun _ => hclosed⟩ hquiet
  rw [Socket.run, Run.exec_append]
  exact ⟨h.nxt, h.stream⟩

/-- a client whose peer completes the handshake, sends two bytes and closes -/
def finRun : List SocketOp :=
  [.input { Segment.new 80 9000 700 with
      ack := some 101
      flags := Flags.SYN.union .ACK
      options := [.maxSegmentSize 1000, .fipsVersion FIPS_VERSION 0] } 5,
    .input { Segment.new 80 9000 701 with ack := some 101, flags := Flags.ACK.union .FIN, payload := [7, 8] } 6]

/-- the same segment again, then a read and a close -/
def finAgain : List SocketOp :=
  [.input { Segment.new 80 9000 701 with ack := some 101, flags := Flags.ACK.union .FIN, payload := [7, 8] } 7,
    .read 1, .close 8]

theorem end_of_stream_kept_again :
    (Socket.run Config.default (.client () 9000 80 100 0 0) (finRun ++ finAgain)).conn.recvNxt =
        (Socket.run Config.default (.client () 9000 80 100 0 0) finRun).conn.recvNxt ∧
      (Socket.run Config.default (.client () 9000 80 100 0 0) (finRun ++ finAgain)).stream =
        (Socket.run Config.default (.client () 9000 80 100 0 0) finRun).stream :=
  end_of_stream_kept ⟨Config.default, Config.default_validate⟩ (.client () 9000 80 100 0 0) finRun finAgain (by decide)
    (by decide)

/-- a byte just past the FIN -/
def lateByte : SocketOp :=
  .input { Segment.new 80 9000 704 with ack := some 101, flags := .ACK, payload := [9] } 7

/-- **A closed stream can grow.** -/
theorem end_of_stream_extended :
    ¬ ∀ (config : ValidConfig) (o : Opening Unit) (ops more : List SocketOp),
      (Socket.run config.1 o ops).retained = true → (Socket.run config.1 o ops).conn.readClosed = true →
      (Socket.run config.1 o (ops ++ more)).conn.recvNxt = (Socket.run config.1 o ops).conn.recvNxt ∧
        (Socket.run config.1 o (ops ++ more)).stream = (Socket.run config.1 o ops).stream := by
  intro h
  have := h ⟨Config.default, Config.default_validate⟩ (.client () 9000 80 100 0 0) finRun [lateByte] (by decide) (by decide)
  exact absurd this.2 (by decide)

end FipsTcp
