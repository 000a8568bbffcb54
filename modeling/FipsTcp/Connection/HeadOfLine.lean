/-
Does the missing segment always get in?

A receiver that holds out-of-order chunks waits for the segment at `recv_nxt`. `insert_received` puts that segment through
the same bounded list as the chunks that wait for it, so a full list refuses it.
- `head_of_line_iff`: in a reachable connection with window, the segment at `recv_nxt` moves the stream if and only if
  the reassembly list has a free place;
- `head_of_line_blocked`: one out-of-order chunk fills a list of length one, and then the missing segment is refused.
-/
import FipsTcp.Connection.Receiver

namespace FipsTcp

open Serial

namespace Connection

variable {P : Type}

/-- a payload that starts at or before `recv_nxt` and ends after it -/
def Covers (nxt : U32) (segment : Segment) : Prop :=
  segment.payload ≠ [] ∧ beforeOrEqual segment.seq nxt ∧ after (segment.seq + asU32 segment.payload.length) nxt

instance (nxt : U32) (segment : Segment) : Decidable (Covers nxt segment) := by unfold Covers; infer_instance

/-- `recv_nxt` moves forward, and at least one byte joins the stream -/
def Advanced (c c' : Connection P) : Prop :=
  after c'.recvNxt c.recvNxt ∧ ∃ l, l ≠ [] ∧ c'.recvQueue = c.recvQueue ++ l

/-- what covers `recv_nxt` in wrapping order has a byte there -/
theorem Covers.has_byte {nxt : U32} {segment : Segment} (h : Covers nxt segment) :
    distance segment.seq nxt < segment.payload.length := by
  obtain ⟨hp, hstart, hend⟩ := h
  have hlen := List.length_pos_of_ne_nil hp
  by_contra hle
  have hd : distance segment.seq nxt ≤ 2 ^ 31 := by
    rcases hstart with he | hb
    · rw [he, distance_self]; omega
    · have hne : segment.seq ≠ nxt := fun he => by rw [he] at hb; exact not_lt_self _ hb
      have hsum := dist_comm_of_ne hne
      rw [before_iff_lt, lt_iff_dist] at hb
      rw [distance_eq_dist]; omega
  -- the end lies between the start and `recv_nxt`
  have hn : nxt = pos segment.seq (distance segment.seq nxt) := (pos_dist _ _).symm
  have hdist : dist (segment.seq + asU32 segment.payload.length) nxt = distance segment.seq nxt - segment.payload.length := by
    conv_lhs => rw [hn]
    exact dist_pos segment.seq (by omega) (by omega)
  rw [after, before_iff_lt, lt_iff_dist, hdist] at hend
  omega

/-- what is kept of such a segment is some bytes at `recv_nxt` -/
theorem Covers.chunk {c : Connection P} {segment : Segment} (h : Covers c.recvNxt segment) (hwin : 0 < c.availableWindow) :
    ∃ chunk, c.receivedChunk segment.seq segment.payload (segment.flags.contains .FIN) = some chunk ∧
      chunk.seq = c.recvNxt ∧ chunk.payload ≠ [] := by
  have hbyte := h.has_byte
  have hpay : (segment.payload.drop (distance segment.seq c.recvNxt)).take
      (min (segment.payload.drop (distance segment.seq c.recvNxt)).length c.availableWindow) ≠ [] := by
    refine List.ne_nil_of_length_pos ?_
    rw [List.length_take, List.length_drop]; omega
  rw [receivedChunk_head h.2.1]
  simp only
  rw [if_neg fun h => hpay h.1]
  exact ⟨_, rfl, rfl, hpay⟩

/-- the window is what the receiving half makes it -/
theorem availableWindow_eq {c c' : Connection P} (hr : c'.receiver = c.receiver) (hs : c'.stable = c.stable) :
    c'.availableWindow = c.availableWindow := by
  simp only [receiver, Receiver.mk.injEq] at hr
  obtain ⟨-, hq, hre, -⟩ := hr
  have hcap : c'.receiveCapacity = c.receiveCapacity := congrArg Stable.receiveCapacity hs
  simp only [availableWindow, hq, hre, hcap]

/-- the data path cannot end the connection while the peer's side is open -/
theorem onSynchronized_open {config : Config} {c : Connection P} {segment : Segment} (nowMs : ℕ)
    (hi : c.RecvInv config) (hm : 0 < c.mss) (hst : c.Synchronized) (hrst : segment.flags.contains .RST = false)
    (hopen : c.readClosed = false) : (c.onSynchronized segment nowMs config).2.closed = false := by
  by_contra hc
  have hl := ((onSynchronized_moves config nowMs hst hm hrst).2 (by simpa using hc)).2
  have := hi.done
  rw [hl.state, hopen] at this; cases this

end Connection

open Connection

/-- **The missing segment and the reassembly list.** In every reachable synchronized connection whose read side is open
and whose window is not zero, a segment with payload at `recv_nxt` moves the stream exactly when the reassembly list has
a free place. -/
theorem head_of_line_iff {P : Type} (config : ValidConfig) {c : Connection P} (hc : c.Reachable config.1)
    (hst : c.Synchronized) (hopen : c.readClosed = false) (segment : Segment) (nowMs : ℕ)
    (hrst : segment.flags.contains .RST = false) (hcov : Covers c.recvNxt segment) (hwin : 0 < c.availableWindow) :
    Advanced c (c.onSegment segment nowMs config.1).1 ↔ c.reassembly.length < config.1.maxReassemblySegments := by
  have hv := config.valid
  obtain ⟨isn, acc, hsend, hrecv⟩ := hc.inv hv
  obtain ⟨c1, out, hm, hst1, hrec, hstab, hres⟩ := onSynchronized_receiver config.1 nowMs hst hrst
    (onSynchronized_open nowMs hrecv hsend.mss hst hrst hopen)
  have hrecv1 : c1.RecvInv config.1 := hm.preserves (fun h hi => h.recvInv hv hi) hrecv
  rw [onSegment_synchronized hst hrst]
  have hdata : segment.payload ≠ [] ∨ segment.flags.contains .FIN := .inl hcov.1
  rw [receiveIfData, if_pos hdata] at hres
  have hwin1 := availableWindow_eq hrec hstab
  simp only [receiver, Receiver.mk.injEq] at hrec hres
  obtain ⟨hn, hq, hre, -⟩ := hrec
  obtain ⟨hn', hq', -, -⟩ := hres
  obtain ⟨chunk, hchunk, hseq, hpay⟩ := (hn ▸ hcov : Covers c1.recvNxt segment).chunk (by rw [hwin1]; exact hwin)
  rw [Advanced, hn', hq', ← hn, ← hq, ← hre]
  constructor
  · rintro ⟨hafter, -⟩
    by_contra hfull
    have hstill := hrecv1.receive_still segment nowMs hv hst1 fun _ _ _ => by omega
    rw [hstill.1] at hafter
    exact not_lt_self _ hafter
  · intro hlen
    obtain ⟨r, m, hr0, hd⟩ := hrecv1.receive_head nowMs hv hst1 hchunk hseq hlen
    have hle := hd.le
    have hbuf := hv.receive_le
    refine ⟨?_, chunk.payload ++ m, by simp [hpay], hd.queue⟩
    rw [hd.nxt, after]
    conv_lhs => rw [← pos_zero c1.recvNxt]
    exact (before_pos (by omega) (by omega)).2 hr0

/-- a client whose peer completes the handshake and then sends the second byte of its stream before the first -/
def holeRun : List SocketOp :=
  [.input { Segment.new 80 9000 700 with
      ack := some 101
      flags := Flags.SYN.union .ACK
      options := [.maxSegmentSize 1000, .fipsVersion FIPS_VERSION 0] } 5,
    .input { Segment.new 80 9000 702 with ack := some 101, flags := .ACK, payload := [8] } 6]

/-- the missing first byte -/
def holeSegment : Segment := { Segment.new 80 9000 701 with ack := some 101, flags := .ACK, payload := [7] }

theorem head_of_line_iff_hole :
    Advanced (Socket.run Config.default (.client () 9000 80 100 0 0) holeRun).conn
        ((Socket.run Config.default (.client () 9000 80 100 0 0) holeRun).conn.onSegment holeSegment 7 Config.default).1 ↔
      (Socket.run Config.default (.client () 9000 80 100 0 0) holeRun).conn.reassembly.length <
        Config.default.maxReassemblySegments :=
  head_of_line_iff ⟨Config.default, Config.default_validate⟩ ⟨.client () 9000 80 100 0 0, holeRun, by decide, rfl⟩
    (by unfold Synchronized; decide) (by decide) holeSegment 7 (by decide) (by decide) (by decide)

/-- the default configuration with room for one out-of-order chunk -/
def oneChunkConfig : ValidConfig := ⟨{ Config.default with maxReassemblySegments := 1 }, by decide⟩

/-- **The list can refuse the segment it waits for.** -/
theorem head_of_line_blocked :
    ¬ ∀ (config : ValidConfig) (c : Connection Unit) (segment : Segment) (nowMs : ℕ), c.Reachable config.1 →
      c.Synchronized → c.readClosed = false → segment.flags.contains .RST = false →
      segment.flags.contains .SYN = false → Covers c.recvNxt segment → 0 < c.availableWindow →
      Advanced c (c.onSegment segment nowMs config.1).1 := by
  intro h
  have := h oneChunkConfig (Socket.run oneChunkConfig.1 (.client () 9000 80 100 0 0) holeRun).conn holeSegment 7
    ⟨_, _, by decide, rfl⟩ (by unfold Synchronized; decide) (by decide) (by decide) (by decide) (by decide) (by decide)
  exact absurd this.1 (by decide)

end FipsTcp
