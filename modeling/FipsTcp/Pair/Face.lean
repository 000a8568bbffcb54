/-
What one endpoint shows its peer, and the receiving half against an honest peer.

What the other side may rely on is a `Face`: the bytes accepted, how many positions were sent, whether the FIN was sent,
and how many positions of the other stream were received. A face only ever grows (`Face.Le`). `SegOk` says that a segment
is a piece of the stream of its sender and that its ACK number is a position the sender had received; it stays true when
the face grows (`SegOk.mono`), so it holds of a segment however long it is under way and however often it arrives.

`StreamInv f got c`: what the connection `c` has in order, `got`, is a prefix of what the peer with face `f` accepted, and
every chunk it buffers is a piece of the peer's stream. `StreamInv.receive` keeps it for every segment of the peer, through
trimming, window truncation and overlapping chunks. All positions stay below 2^31, so the wrapping comparisons of the code
compare positions.
-/
import FipsTcp.Connection.Receiver

namespace FipsTcp

open Serial Stream SendWindow

/-- what one side shows the other -/
structure Face where
  isn : U32
  acc : List U8
  nxt : ℕ
  fin : Bool
  rcv : ℕ

namespace Face

structure Le (f f' : Face) : Prop where
  isn : f'.isn = f.isn
  acc : f.acc <+: f'.acc
  nxt : f.nxt ≤ f'.nxt
  fin : f.fin = true → f'.fin = true ∧ f'.acc = f.acc
  rcv : f.rcv ≤ f'.rcv

theorem Le.refl (f : Face) : f.Le f := ⟨rfl, List.prefix_refl _, le_rfl, fun h => ⟨h, rfl⟩, le_rfl⟩

theorem Le.trans {f g h : Face} (h1 : f.Le g) (h2 : g.Le h) : f.Le h :=
  ⟨h2.isn.trans h1.isn, h1.acc.trans h2.acc, h1.nxt.trans h2.nxt,
    fun hf => ⟨(h2.fin (h1.fin hf).1).1, (h2.fin (h1.fin hf).1).2.trans (h1.fin hf).2⟩, h1.rcv.trans h2.rcv⟩

/-- the positions sent are those of the SYN, of bytes accepted, and of the FIN; all lie below 2^31 -/
structure Ok (f : Face) : Prop where
  nxt : f.nxt ≤ 1 + f.acc.length + f.fin.toNat
  small : f.acc.length < 2 ^ 31 - 2 ^ 17

end Face

/-- a segment as a piece of its sender's stream -/
def Segment.piece (segment : Segment) : Piece 32 U8 :=
  ⟨segment.seq, segment.payload, segment.flags.contains .SYN, segment.flags.contains .FIN⟩

def ReassemblySegment.piece (x : ReassemblySegment) : Piece 32 U8 := ⟨x.seq, x.payload, false, x.fin⟩

theorem ReassemblySegment.piece_len (x : ReassemblySegment) : x.piece.len = x.len := by
  simp [piece, Piece.len, ReassemblySegment.len]

/-- a piece of the stream of `f` among the positions it has sent -/
def Sent (f : Face) (x : Piece 32 U8) : Prop := ∃ p, At f.isn f.acc p x ∧ p + x.len ≤ f.nxt

/-- what a side with face `f` may have emitted to a peer whose initial sequence number is `peer` -/
def SegOk (f : Face) (peer : U32) (segment : Segment) : Prop :=
  segment.flags.contains .RST = true ∨
    Sent f segment.piece ∧ (segment.ack = none ∨ ∃ q ≤ f.rcv, segment.ack = some (pos peer q))

theorem Sent.mono {f f' : Face} (hf : f.Ok) (h : f.Le f') {x : Piece 32 U8} (hx : Sent f x) : Sent f' x := by
  obtain ⟨p, hat, hle⟩ := hx
  refine ⟨p, ?_, hle.trans h.nxt⟩
  rw [h.isn]
  refine hat.mono h.acc fun hfin => (h.fin ?_).2
  -- a piece with a FIN was sent, so the FIN was
  have h1 := hat.fin hfin
  have h2 := hf.nxt
  by_contra hno
  rw [Bool.of_not_eq_true hno, Bool.toNat_false] at h2
  simp only [Piece.len, hfin, Bool.toNat_true] at hle
  omega

theorem SegOk.mono {f f' : Face} {peer : U32} {segment : Segment} (hf : f.Ok) (h : f.Le f')
    (hs : SegOk f peer segment) : SegOk f' peer segment := by
  rcases hs with hr | ⟨hx, hack⟩
  · exact .inl hr
  · refine .inr ⟨hx.mono hf h, hack.imp id ?_⟩
    rintro ⟨q, hq, hseg⟩
    exact ⟨q, hq.trans h.rcv, hseg⟩

/-- where a piece with something in it can end -/
theorem Sent.bounds {f : Face} (hf : f.Ok) {x : Piece 32 U8} {p : ℕ} (hat : At f.isn f.acc p x) (hle : p + x.len ≤ f.nxt) :
    p + x.len ≤ f.acc.length + 2 ∧ (x.fin = true → f.fin = true) := by
  have h2 := hf.nxt
  have hb : f.fin.toNat ≤ 1 := by cases f.fin <;> simp
  refine ⟨by omega, fun hfin => ?_⟩
  have h1 := hat.fin hfin
  by_contra hno
  rw [Bool.of_not_eq_true hno, Bool.toNat_false] at h2
  simp only [Piece.len, hfin, Bool.toNat_true] at hle
  omega

namespace Connection

variable {P : Type} {config : Config} {nowMs : ℕ} {c c' : Connection P} {f : Face} {got : List U8}

/-! ## The receiving half against the peer's stream -/

/-- how many positions of the peer's stream were received, when the bytes among them are `got` -/
def rcvPos (c : Connection P) (got : List U8) : ℕ :=
  if c.state = .synSent then 0 else 1 + got.length + c.readClosed.toNat

/-- the receiving half holds a prefix of the peer's stream, and pieces of it -/
structure StreamInv (f : Face) (got : List U8) (c : Connection P) : Prop where
  nxt : c.recvNxt = pos f.isn (1 + got.length + c.readClosed.toNat)
  isPrefix : got <+: f.acc
  closed : c.readClosed = true → got = f.acc ∧ f.fin = true
  chunks : ∀ x ∈ c.reassembly, Sent f x.piece

theorem StreamInv.mono {f' : Face} (hf : f.Ok) (h : f.Le f') (hs : c.StreamInv f got) : c.StreamInv f' got := by
  refine ⟨?_, hs.isPrefix.trans h.acc, fun hc => ?_, fun x hx => (hs.chunks x hx).mono hf h⟩
  · rw [h.isn]; exact hs.nxt
  · obtain ⟨h1, h2⟩ := hs.closed hc
    exact ⟨h1.trans (h.fin h2).2.symm, (h.fin h2).1⟩

theorem StreamInv.of_receiver (hs : c.StreamInv f got) (hr : c'.receiver = c.receiver) : c'.StreamInv f got := by
  simp only [receiver, Receiver.mk.injEq] at hr
  obtain ⟨h1, -, h3, h4⟩ := hr
  exact ⟨by rw [h1, h4]; exact hs.nxt, hs.isPrefix, by rw [h4]; exact hs.closed, by rw [h3]; exact hs.chunks⟩

/-- the position of `recv_nxt` lies below 2^31 -/
theorem StreamInv.rcv_le (hs : c.StreamInv f got) : 1 + got.length + c.readClosed.toNat ≤ f.acc.length + 2 := by
  have h1 := hs.isPrefix.length_le
  have h2 : c.readClosed.toNat ≤ 1 := by cases c.readClosed <;> simp
  omega

theorem toNat_and_le : ∀ b b' : Bool, (b && b').toNat ≤ b.toNat := by decide

/-- what `insert_received` keeps of a piece of the peer's stream is a piece of it -/
theorem StreamInv.receivedChunk (hf : f.Ok) (hs : c.StreamInv f got) {segment : Segment} (hseg : Sent f segment.piece)
    (hdata : segment.payload ≠ [] ∨ segment.flags.contains .FIN = true) {chunk : ReassemblySegment}
    (h : c.receivedChunk segment.seq segment.payload (segment.flags.contains .FIN) = some chunk) :
    Sent f chunk.piece := by
  obtain ⟨p, hat, hle⟩ := hseg
  have hsyn : segment.piece.syn = false := by
    by_contra hn
    obtain ⟨-, h1, h2⟩ := hat.syn (Bool.of_not_eq_false hn)
    rcases hdata with hd | hd
    · exact hd h1
    · exact absurd hd (by rw [show segment.flags.contains .FIN = false from h2]; decide)
  have hsmall := hf.small
  have hb := (Sent.bounds hf hat hle).1
  have hR := hs.rcv_le
  have hnxt := hs.nxt
  generalize 1 + got.length + c.readClosed.toNat = R at hnxt hR
  have hseq : segment.seq = pos f.isn p := hat.seq
  have hplen : segment.piece.len = segment.payload.length + (segment.flags.contains .FIN).toNat := by
    simp only [Piece.len, hsyn, Bool.toNat_false]; rfl
  rw [hplen] at hle hb
  have hbo : beforeOrEqual segment.seq c.recvNxt ↔ p ≤ R := by
    rw [hseq, hnxt]; exact beforeOrEqual_pos (by omega) (by omega)
  by_cases hpR : p ≤ R
  · have hd : distance segment.seq c.recvNxt = R - p := by rw [hseq, hnxt]; exact distance_pos hpR (by omega)
    rw [receivedChunk_head (hbo.2 hpR), hd] at h
    simp only at h
    split_ifs at h with hno
    cases h
    -- something is kept, so the cut at the front lies inside the payload
    have hin : R - p ≤ segment.payload.length := by
      by_contra hout
      refine hno ⟨by rw [List.drop_eq_nil_of_le (by omega)]; simp, ?_⟩
      simp [hout]
    have hcut := hat.cutFront hsyn hin
    have hback := hcut.cutBack hsyn (k := min (segment.payload.drop (R - p)).length c.availableWindow)
      (f := segment.flags.contains .FIN && decide (min (segment.payload.drop (R - p)).length c.availableWindow =
        (segment.payload.drop (R - p)).length ∧ R - p ≤ segment.payload.length)) (fun hk => by
          simp only [Bool.and_eq_true, decide_eq_true_eq] at hk
          exact ⟨hk.1, hk.2.1.ge⟩)
    refine ⟨p + (R - p), ?_, ?_⟩
    · have hpos : p + (R - p) = R := by omega
      rw [hpos] at hback ⊢
      rw [← hnxt] at hback
      simp only [hsyn] at hback
      exact hback
    · rw [ReassemblySegment.piece_len]
      simp only [ReassemblySegment.len, List.length_take, List.length_drop]
      have := toNat_and_le (segment.flags.contains .FIN) (decide (min (segment.payload.length - (R - p)) c.availableWindow =
        segment.payload.length - (R - p) ∧ R - p ≤ segment.payload.length))
      omega
  · rw [receivedChunk_ahead (fun hb' => hpR (hbo.1 hb'))] at h
    simp only at h
    split_ifs at h
    cases h
    have hback := hat.cutBack hsyn (k := min segment.payload.length (c.availableWindow - distance c.recvNxt segment.seq))
      (f := segment.flags.contains .FIN && decide (min segment.payload.length
        (c.availableWindow - distance c.recvNxt segment.seq) = segment.payload.length)) (fun hk => by
          simp only [Bool.and_eq_true, decide_eq_true_eq] at hk
          exact ⟨hk.1, hk.2.ge⟩)
    simp only [hsyn] at hback
    refine ⟨p, hback, ?_⟩
    rw [ReassemblySegment.piece_len]
    simp only [ReassemblySegment.len, List.length_take]
    have := toNat_and_le (segment.flags.contains .FIN) (decide (min segment.payload.length
      (c.availableWindow - distance c.recvNxt segment.seq) = segment.payload.length))
    omega

/-- the drain loop under way, against the peer's stream -/
structure Draining (config : Config) (f : Face) (delivered : List U8) (c : Connection P) : Prop where
  fits : c.recvQueue.length + chunkBytes c.reassembly ≤ config.receiveBuffer
  stream : c.StreamInv f (delivered ++ c.recvQueue)
  sync : c.Synchronized

/-- **One round of the drain loop** extends the stream by what the peer accepted next. -/
theorem Draining.round {delivered : List U8} (hf : f.Ok) (h : Draining config f delivered c) {go : Bool}
    (hd : c.drainOnce nowMs config = (c', go)) :
    Draining config f delivered c' ∧ (go = true → c'.reassembly.length < c.reassembly.length) ∧
      c.recvQueue <+: c'.recvQueue ∧ (c.readClosed = true → c'.readClosed = true) := by
  rcases drainOnce_fits nowMs h.fits with ⟨hstop, -⟩ | ⟨x, rest, hx, hkeep, hdue, hrest, hlen, hsum, hgo⟩
  · rw [hstop] at hd
    cases hd
    refine ⟨⟨?_, ?_, h.sync⟩, (fun h => nomatch h), List.prefix_refl _, id⟩
    · have := chunkBytes_filter_le (keepChunk c.recvNxt) c.reassembly
      have := h.fits
      simp only; omega
    · exact ⟨h.stream.nxt, h.stream.isPrefix, h.stream.closed,
        fun x hx => h.stream.chunks x (List.mem_filter.1 hx).1⟩
  · rw [hgo] at hd
    cases hd
    obtain ⟨p, hat, hle⟩ := h.stream.chunks x hx
    have hsmall := hf.small
    obtain ⟨hb, hfin⟩ := Sent.bounds hf hat hle
    have hR := h.stream.rcv_le
    have hnxt := h.stream.nxt
    have hpre := h.stream.isPrefix
    have hclosed := h.stream.closed
    obtain ⟨R, hRe⟩ : ∃ R, R = 1 + (delivered ++ c.recvQueue).length + c.readClosed.toNat := ⟨_, rfl⟩
    rw [← hRe] at hR hnxt
    rw [x.piece_len] at hle hb
    have hseq : x.seq = pos f.isn p := hat.seq
    rw [keepChunk_iff hseq hnxt (by omega) (by omega)] at hkeep
    rw [dueChunk_iff hseq hnxt (by omega) (by omega)] at hdue
    have htrim := trimChunk_eq hseq hnxt hdue (by omega)
    have hrecv := deliver_receiver { c with reassembly := rest } (trimChunk c.recvNxt x) nowMs config
    obtain ⟨-, hstate⟩ := deliver_state { c with reassembly := rest } (trimChunk c.recvNxt x) nowMs config
    rw [htrim] at hrecv hstate ⊢
    simp only [receiver, Receiver.mk.injEq] at hrecv
    obtain ⟨h1, h2, h3, h4⟩ := hrecv
    have hsync := (hstate h.sync).1
    generalize deliver _ _ nowMs config = c' at h1 h2 h3 h4 hsync
    obtain ⟨hp0, hocc⟩ := hat.data rfl
    have hxb : x.fin.toNat ≤ 1 := by cases x.fin <;> simp
    -- past the peer's FIN there is nothing to deliver
    have hopen : c.readClosed = false := by
      by_contra hc
      have hc := Bool.of_not_eq_false hc
      have hall := congrArg List.length (hclosed hc).1
      rw [hc, Bool.toNat_true] at hRe
      omega
    rw [hopen, Bool.toNat_false, Nat.add_zero] at hRe
    rw [hopen, Bool.false_or] at h4
    unfold ReassemblySegment.len at hkeep hb h1
    have hnew : delivered ++ (c.recvQueue ++ x.payload.drop (R - p)) <+: f.acc := by
      rw [← List.append_assoc]
      refine Occurs.extend hpre ?_
      have := hocc.drop (R - p)
      rwa [show p - 1 + (R - p) = (delivered ++ c.recvQueue).length by omega] at this
    rw [List.length_append] at hRe
    refine ⟨⟨?_, ⟨?_, ?_, ?_, ?_⟩, hsync⟩, fun _ => by rw [h3]; exact hlen, by rw [h2]; exact List.prefix_append _ _,
      fun hc => by rw [hopen] at hc; cases hc⟩
    · have := h.fits
      rw [h2, h3, List.length_append, List.length_drop]; omega
    · rw [h1, h2, h4, hnxt, add_asU32]
      congr 1
      simp only [List.length_append, List.length_drop]; omega
    · rw [h2]; exact hnew
    · intro hc
      rw [h4] at hc
      have hend : p + x.payload.length = f.acc.length + 1 := hat.fin hc
      refine ⟨?_, hfin hc⟩
      rw [h2]
      refine hnew.eq_of_length ?_
      simp only [List.length_append, List.length_drop]; omega
    · intro y hy
      rw [h3] at hy
      exact h.stream.chunks y (hrest y hy)

/-- **Receiving a segment of the peer.** The stream grows by what the peer accepted next, or not at all. -/
theorem StreamInv.receive (nowMs : ℕ) {delivered : List U8} (hf : f.Ok) (hi : c.RecvInv config) (hst : c.Synchronized)
    (hs : c.StreamInv f (delivered ++ c.recvQueue)) {segment : Segment} (hseg : Sent f segment.piece)
    (hdata : segment.payload ≠ [] ∨ segment.flags.contains .FIN = true) :
    let c' := (c.receiveStreamData segment nowMs config).1
    c'.StreamInv f (delivered ++ c'.recvQueue) ∧ c.recvQueue <+: c'.recvQueue ∧
      (c.readClosed = true → c'.readClosed = true) := by
  have hdr := hi.drained hst segment.seq segment.payload (segment.flags.contains .FIN)
  have hq := hdr.queue
  rw [List.append_nil] at hq
  have h0 : Draining config f delivered
      (c.insertReceived segment.seq segment.payload (segment.flags.contains .FIN) config) ∧
      (c.insertReceived segment.seq segment.payload (segment.flags.contains .FIN) config).readClosed = c.readClosed := by
    refine ⟨⟨hdr.fits, ?_, hdr.sync⟩, ?_⟩
    · rcases c.insertReceived_cases segment.seq segment.payload (segment.flags.contains .FIN) config with
        h | ⟨chunk, hchunk, -, h⟩ <;> rw [h]
      · exact hs
      · refine ⟨hs.nxt, hs.isPrefix, hs.closed, fun x hx => ?_⟩
        rcases List.mem_append.1 hx with hx | hx
        · exact hs.chunks x hx
        · rw [List.mem_singleton] at hx; subst hx
          exact hs.receivedChunk hf hseg hdata hchunk
    · rcases c.insertReceived_cases segment.seq segment.payload (segment.flags.contains .FIN) config with
        h | ⟨chunk, -, -, h⟩ <;> rw [h]
  have hend : Draining config f delivered (c.receiveStreamData segment nowMs config).1 ∧
      c.recvQueue <+: (c.receiveStreamData segment nowMs config).1.recvQueue ∧
      (c.readClosed = true → (c.receiveStreamData segment nowMs config).1.readClosed = true) :=
    drainReassembly_rule
    (I := fun c' => Draining config f delivered c' ∧ c.recvQueue <+: c'.recvQueue ∧
      (c.readClosed = true → c'.readClosed = true))
    (J := fun c' => Draining config f delivered c' ∧ c.recvQueue <+: c'.recvQueue ∧
      (c.readClosed = true → c'.readClosed = true))
    (fun ⟨hI, hpre, hc⟩ hd => by
      obtain ⟨h1, h2, h3, h4⟩ := hI.round hf hd
      exact ⟨⟨h1, hpre.trans h3, fun h => h4 (hc h)⟩, h2 rfl⟩)
    (fun ⟨hI, hpre, hc⟩ hd => by
      obtain ⟨h1, -, h3, h4⟩ := hI.round hf hd
      exact ⟨h1, hpre.trans h3, fun h => h4 (hc h)⟩)
    ⟨h0.1, by rw [hq], fun h => by rw [h0.2]; exact h⟩
  exact ⟨hend.1.stream, hend.2⟩

end Connection

end FipsTcp
