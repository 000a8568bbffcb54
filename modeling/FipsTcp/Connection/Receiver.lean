/-
The receiving half against any peer: what `insert_received` keeps and what `drain_reassembly` delivers.

Chunks are compared with `recv_nxt` by wrapping arithmetic. The first part says what those comparisons mean for a chunk
that lies at a known position of the stream (`keepChunk_iff`, `dueChunk_iff`, `trimChunk_eq`), and what `insert_received`
keeps of a segment that starts at or before `recv_nxt`, or after it (`receivedChunk_head`, `receivedChunk_ahead`).

`RecvInv` is the invariant of the receiving half at rest: the buffered bytes and chunks fit the receive buffer, and every
chunk lies ahead of `recv_nxt`, inside the window. So no chunk ever waits for room: each round of the drain loop delivers
a whole chunk (`drainOnce_fits`), the loop ends when no chunk is due, and never by running out of rounds
(`drainReassembly_rule`).
-/
import FipsTcp.Connection.Sender

namespace FipsTcp

open Serial

/-- the bytes in a list of chunks -/
def chunkBytes (l : List ReassemblySegment) : ℕ := (l.map (·.payload.length)).sum

@[simp] theorem chunkBytes_nil : chunkBytes [] = 0 := rfl
@[simp] theorem chunkBytes_cons (x : ReassemblySegment) (l : List ReassemblySegment) :
    chunkBytes (x :: l) = x.payload.length + chunkBytes l := by simp [chunkBytes]
@[simp] theorem chunkBytes_append (l m : List ReassemblySegment) : chunkBytes (l ++ m) = chunkBytes l + chunkBytes m := by
  simp [chunkBytes]

theorem chunkBytes_filter_le (p : ReassemblySegment → Bool) (l : List ReassemblySegment) :
    chunkBytes (l.filter p) ≤ chunkBytes l := by
  induction l with
  | nil => exact le_rfl
  | cons x l ih =>
    rw [List.filter_cons]
    split_ifs <;> simp only [chunkBytes_cons] <;> omega

/-- the number of positions a chunk covers -/
def ReassemblySegment.len (x : ReassemblySegment) : ℕ := x.payload.length + x.fin.toNat

theorem ReassemblySegment.endSeq_eq (x : ReassemblySegment) : x.endSeq = x.seq + asU32 x.len := by
  rw [endSeq, asU32_add]; rfl

/-- the states that follow the peer's FIN -/
def State.peerDone : State → Bool
  | .closeWait | .closing | .lastAck | .timeWait => true
  | _ => false

/-! ## Chunks at known positions -/

namespace Connection

section Positions

variable {base nxt : U32} {x : ReassemblySegment} {o r : ℕ}

theorem keepChunk_iff (hx : x.seq = pos base o) (hn : nxt = pos base r) (ho : o + x.len + 1 < 2 ^ 31) (hr : r + 1 < 2 ^ 31) :
    keepChunk nxt x = true ↔ r < o + x.len := by
  have h1 : beforeOrEqual x.endSeq nxt ↔ o + x.len ≤ r := by
    rw [x.endSeq_eq, hx, hn, add_asU32]; exact beforeOrEqual_pos (by omega) (by omega)
  have h2 : x.endSeq = nxt + 1 ↔ o + x.len = r + 1 := by
    rw [x.endSeq_eq, hx, hn, add_asU32, show (1 : U32) = asU32 1 from rfl, add_asU32]
    exact pos_inj base (by omega) (by omega)
  simp only [keepChunk, decide_eq_true_eq, h1, h2]
  omega

theorem dueChunk_iff (hx : x.seq = pos base o) (hn : nxt = pos base r) (ho : o < 2 ^ 31) (hr : r < 2 ^ 31) :
    dueChunk nxt x = true ↔ o ≤ r := by
  have h : beforeOrEqual (pos base o) (pos base r) ↔ o ≤ r := beforeOrEqual_pos (by omega) (by omega)
  rw [← hx, ← hn, beforeOrEqual] at h
  simpa [dueChunk] using h

theorem trimChunk_eq (hx : x.seq = pos base o) (hn : nxt = pos base r) (hor : o ≤ r) (hr : r < 2 ^ 31) :
    trimChunk nxt x = { x with seq := nxt, payload := x.payload.drop (r - o) } := by
  unfold trimChunk
  have hb : before x.seq nxt ↔ o < r := by rw [hx, hn]; exact before_pos (by omega) (by omega)
  have hd : distance x.seq nxt = r - o := by rw [hx, hn]; exact distance_pos hor (by omega)
  split_ifs with h
  · rw [hd]
  · have : o = r := by rw [hb] at h; omega
    subst this
    rw [Nat.sub_self, List.drop_zero, hn, ← hx]

end Positions

/-! ## What a segment adds -/

section Received

variable {P : Type} {c : Connection P} {seq : U32} {payload : List U8} {fin : Bool}

/-- of a segment that starts at or before `recv_nxt`, the part from `recv_nxt` on -/
theorem receivedChunk_head (h : beforeOrEqual seq c.recvNxt) :
    c.receivedChunk seq payload fin =
      let data := payload.drop (distance seq c.recvNxt)
      let allowed := min data.length c.availableWindow
      let keptFin := fin && decide (allowed = data.length ∧ distance seq c.recvNxt ≤ payload.length)
      if data.take allowed = [] ∧ keptFin = false then none else some ⟨c.recvNxt, data.take allowed, keptFin⟩ := by
  have hself : ¬ before c.recvNxt c.recvNxt := not_lt_self _
  -- the FIN stays exactly when no byte of the segment lies beyond the cut at the front
  have hend : seq + asU32 payload.length = c.recvNxt + asU32 (payload.drop (distance seq c.recvNxt)).length ↔
      distance seq c.recvNxt ≤ payload.length := by
    have hn : c.recvNxt = pos seq (distance seq c.recvNxt) := (pos_dist _ _).symm
    have hlt : distance seq c.recvNxt < 2 ^ 32 := dist_lt _ _
    generalize distance seq c.recvNxt = d at *
    rw [hn, add_asU32, List.length_drop]
    constructor
    · intro h
      by_contra hlen
      have : payload.length = d + (payload.length - d) := (pos_inj seq (by omega) (by omega)).1 h
      omega
    · intro h
      rw [show d + (payload.length - d) = payload.length by omega]; rfl
  rcases h with h | h
  · subst h
    simp only [receivedChunk, hself, if_false, after, false_and, distance_self, List.drop_zero, Nat.sub_zero,
      Nat.zero_le, and_true, decide_true, Bool.and_true]
  · simp only [receivedChunk, h, if_true, after, hself, false_and, if_false, distance_self, Nat.sub_zero, hend,
      Bool.and_assoc, Bool.decide_and]

/-- of a segment that starts after `recv_nxt`, the part inside the window -/
theorem receivedChunk_ahead (h : ¬ beforeOrEqual seq c.recvNxt) :
    c.receivedChunk seq payload fin =
      let room := c.availableWindow - distance c.recvNxt seq
      let allowed := min payload.length room
      let keptFin := fin && decide (allowed = payload.length)
      if room = 0 ∨ payload.take allowed = [] ∧ keptFin = false then none
      else some ⟨seq, payload.take allowed, keptFin⟩ := by
  have hb : ¬ before seq c.recvNxt := fun hb => h (.inr hb)
  have ha := after_of_not_beforeOrEqual h
  simp only [receivedChunk, hb, if_false, ha, true_and, decide_true, Bool.and_true, Nat.sub_eq_zero_iff_le]
  split_ifs <;> first | rfl | tauto

end Received

/-! ## Draining -/

section Draining

variable {P : Type} {c : Connection P} {nowMs : ℕ} {config : Config}

/-- delivery of a whole chunk that starts at `recv_nxt` -/
def deliver (c : Connection P) (x : ReassemblySegment) (nowMs : ℕ) (config : Config) : Connection P :=
  let c1 := { c with recvQueue := c.recvQueue ++ x.payload, recvNxt := c.recvNxt + asU32 x.len }
  if x.fin then c1.onRemoteFin nowMs config else c1

theorem onRemoteFin_receiver (c : Connection P) (nowMs : ℕ) (config : Config) :
    (c.onRemoteFin nowMs config).receiver = { c.receiver with readClosed := true } := by
  unfold onRemoteFin
  simp only
  split <;> rfl

theorem deliver_receiver (c : Connection P) (x : ReassemblySegment) (nowMs : ℕ) (config : Config) :
    (c.deliver x nowMs config).receiver =
      ⟨c.recvNxt + asU32 x.len, c.recvQueue ++ x.payload, c.reassembly, c.readClosed || x.fin⟩ := by
  unfold deliver
  cases hx : x.fin with
  | true => rw [if_pos rfl, onRemoteFin_receiver]; simp only [receiver, Bool.or_true]
  | false => simp only [Bool.false_eq_true, if_false, receiver, Bool.or_false]

theorem deliver_state (c : Connection P) (x : ReassemblySegment) (nowMs : ℕ) (config : Config) :
    (c.deliver x nowMs config).receiveCapacity = c.receiveCapacity ∧
      (c.Synchronized → (c.deliver x nowMs config).Synchronized ∧
        (c.deliver x nowMs config).state.peerDone = (c.state.peerDone || x.fin)) := by
  unfold deliver
  cases hx : x.fin with
  | true =>
    generalize hc : ({ c with recvQueue := c.recvQueue ++ x.payload, recvNxt := c.recvNxt + asU32 x.len } :
      Connection P) = c1
    have hcap : c1.receiveCapacity = c.receiveCapacity := by rw [← hc]
    have hst : c1.state = c.state := by rw [← hc]
    obtain ⟨ho, hp⟩ := onRemoteFin_outgoing c1 nowMs config
    refine ⟨(congrArg Stable.receiveCapacity (outgoing_frame ho).2.2).trans hcap, fun hsync => ⟨?_, ?_⟩⟩
    · rw [synchronized_iff, if_pos rfl, hp, hst]; exact synchronized_iff.1 hsync
    · rw [if_pos rfl, Bool.or_true, onRemoteFin]
      simp only
      split <;> rename_i h
      all_goals first | rfl | skip
      rename_i h1 h2
      have h0 := hsync
      rw [Synchronized, ← hst] at h0
      cases hs : c1.state <;> simp_all [State.peerDone]
  | false => exact ⟨rfl, fun hsync => ⟨hsync, (Bool.or_false _).symm⟩⟩

/-- with room in the receive queue a chunk is delivered whole -/
theorem deliverChunk_of_room {x : ReassemblySegment}
    (h : c.recvQueue.length + x.payload.length ≤ config.receiveBuffer) :
    c.deliverChunk x nowMs config = (c.deliver x nowMs config, true) := by
  have hmin : min (config.receiveBuffer - c.recvQueue.length) x.payload.length = x.payload.length := by omega
  unfold deliverChunk deliver
  simp only [hmin, List.drop_length, List.take_length, ne_eq, not_true_eq_false, if_false]
  cases hx : x.fin with
  | true =>
    simp only [if_true, Prod.mk.injEq, and_true]
    congr 2
    rw [ReassemblySegment.len, hx, Bool.toNat_true, ← asU32_add]; rfl
  | false =>
    simp only [Bool.false_eq_true, if_false, Prod.mk.injEq, and_true]
    congr 2
    rw [ReassemblySegment.len, hx, Bool.toNat_false, Nat.add_zero]

theorem trimChunk_payload_le (nxt : U32) (x : ReassemblySegment) :
    (trimChunk nxt x).payload.length ≤ x.payload.length := by
  unfold trimChunk
  split_ifs
  · simp
  · exact le_rfl

/-- **One round of the loop.** When queue and chunks fit the buffer, it ends the loop, or delivers a whole chunk. -/
theorem drainOnce_fits (nowMs : ℕ) (hfit : c.recvQueue.length + chunkBytes c.reassembly ≤ config.receiveBuffer) :
    (c.drainOnce nowMs config = ({ c with reassembly := c.reassembly.filter (keepChunk c.recvNxt) }, false) ∧
        ∀ x ∈ c.reassembly.filter (keepChunk c.recvNxt), dueChunk c.recvNxt x = false) ∨
      ∃ x rest, x ∈ c.reassembly ∧ keepChunk c.recvNxt x = true ∧ dueChunk c.recvNxt x = true ∧
        (∀ y ∈ rest, y ∈ c.reassembly) ∧ rest.length < c.reassembly.length ∧
        x.payload.length + chunkBytes rest ≤ chunkBytes c.reassembly ∧
        c.drainOnce nowMs config =
          ({ c with reassembly := rest }.deliver (trimChunk c.recvNxt x) nowMs config, true) := by
  rcases c.drainOnce_cases nowMs config with ⟨kept, rfl, hdue, h⟩ | ⟨x, l₁, l₂, hl, hdue, -, h⟩
  · exact .inl ⟨h, hdue⟩
  · right
    have hmem : ∀ y ∈ l₁ ++ x :: l₂, y ∈ c.reassembly ∧ keepChunk c.recvNxt y = true := fun y hy =>
      List.mem_filter.1 (hl ▸ hy)
    have hx := hmem x (by simp)
    have hlen := List.length_filter_le (keepChunk c.recvNxt) c.reassembly
    have hsum := chunkBytes_filter_le (keepChunk c.recvNxt) c.reassembly
    rw [hl, List.length_append, List.length_cons] at hlen
    rw [hl, chunkBytes_append, chunkBytes_cons] at hsum
    have htrim := trimChunk_payload_le c.recvNxt x
    refine ⟨x, l₁ ++ l₂, hx.1, hx.2, hdue, fun y hy => (hmem y ?_).1, ?_, ?_, ?_⟩
    · simp only [List.mem_append, List.mem_cons] at hy ⊢; tauto
    · rw [List.length_append]; omega
    · rw [chunkBytes_append]; omega
    · rw [h, deliverChunk_of_room]
      simp only; omega

/-- **The drain loop.** What every delivery preserves, together with what the last round adds, holds at the end; every
delivery takes a chunk from the list, so the rounds suffice. -/
theorem drainReassembly_rule {I J : Connection P → Prop}
    (hgo : ∀ {c c'}, I c → c.drainOnce nowMs config = (c', true) → I c' ∧ c'.reassembly.length < c.reassembly.length)
    (hstop : ∀ {c c'}, I c → c.drainOnce nowMs config = (c', false) → J c') (hc : I c) :
    J (c.drainReassembly nowMs config) := by
  unfold drainReassembly
  generalize hfuel : c.reassembly.length + 1 = fuel
  replace hfuel : c.reassembly.length < fuel := by omega
  induction fuel generalizing c with
  | zero => omega
  | succ fuel ih =>
    unfold drainLoop
    rcases hd : c.drainOnce nowMs config with ⟨c', go⟩
    cases go with
    | true =>
      obtain ⟨hI, hlt⟩ := hgo hc hd
      exact ih hI (by omega)
    | false => exact hstop hc hd

end Draining

/-! ## The receiving half at rest -/

/-- a chunk beyond `recv_nxt`, within `room` bytes of it -/
structure Ahead (nxt : U32) (room : ℕ) (x : ReassemblySegment) : Prop where
  pos : 0 < distance nxt x.seq
  within : distance nxt x.seq + x.payload.length ≤ room
  some : x.payload ≠ [] ∨ x.fin = true

structure RecvInv (config : Config) {P : Type} (c : Connection P) : Prop where
  capacity : c.receiveCapacity = config.receiveBuffer
  fits : c.recvQueue.length + chunkBytes c.reassembly ≤ config.receiveBuffer
  ahead : ∀ x ∈ c.reassembly, Ahead c.recvNxt (config.receiveBuffer - c.recvQueue.length) x
  fresh : c.state = .synSent → c.recvQueue = [] ∧ c.reassembly = [] ∧ c.readClosed = false
  done : c.state.peerDone = c.readClosed

section Rest

variable {P : Type} {c c0 : Connection P} {config : Config} {r : ℕ} {l : List U8}

/-- the drain loop under way: `l` was delivered since `c0`, and `r` positions of the peer's stream were passed -/
structure Drained (config : Config) (c0 : Connection P) (r : ℕ) (l : List U8) (c : Connection P) : Prop where
  nxt : c.recvNxt = pos c0.recvNxt r
  queue : c.recvQueue = c0.recvQueue ++ l
  length_le : l.length ≤ r
  le : r ≤ config.receiveBuffer + 1
  fits : c.recvQueue.length + chunkBytes c.reassembly ≤ config.receiveBuffer
  placed : ∀ x ∈ c.reassembly, ∃ o, x.seq = pos c0.recvNxt o ∧
    o + x.payload.length + c0.recvQueue.length ≤ config.receiveBuffer ∧ (x.payload ≠ [] ∨ x.fin = true)
  capacity : c.receiveCapacity = c0.receiveCapacity
  sync : c.Synchronized
  done : c.state.peerDone = c.readClosed

/-- one delivery moves on by the positions left of the chunk -/
theorem Drained.round (hv : config.Valid) (h : Drained config c0 r l c) {nowMs : ℕ} {c' : Connection P} {go : Bool}
    (hd : c.drainOnce nowMs config = (c', go)) :
    (go = true → ∃ r' m, r < r' ∧ Drained config c0 r' (l ++ m) c' ∧ c'.reassembly.length < c.reassembly.length ∧
        ∃ x ∈ c.reassembly, ∃ o, x.seq = pos c0.recvNxt o ∧ o ≤ r ∧ r' = o + x.len ∧ m = x.payload.drop (r - o)) ∧
      (go = false → Drained config c0 r l c' ∧
        ∀ x ∈ c'.reassembly, Ahead c'.recvNxt (config.receiveBuffer - c'.recvQueue.length) x) := by
  have hbuf := hv.receive_le
  have hr := h.le
  have hfin : ∀ x : ReassemblySegment, x.fin.toNat ≤ 1 := fun x => by cases x.fin <;> simp
  rcases drainOnce_fits nowMs h.fits with
    ⟨hstop, hdue⟩ | ⟨x, rest, hx, hkeep, hdue, hrest, hlen, hsum, hgo⟩
  · rw [hstop] at hd
    cases hd
    refine ⟨(fun h => nomatch h), fun _ => ⟨⟨h.nxt, h.queue, h.length_le, h.le, ?_, ?_, h.capacity, h.sync, h.done⟩, ?_⟩⟩
    · have := chunkBytes_filter_le (keepChunk c.recvNxt) c.reassembly
      have := h.fits
      simp only; omega
    · exact fun x hx => h.placed x (List.mem_filter.1 hx).1
    · intro x hx
      obtain ⟨o, hseq, hroom, hsome⟩ := h.placed x (List.mem_filter.1 hx).1
      have hnot : ¬ o ≤ r := fun hle => by
        have := hdue x hx
        rw [(dueChunk_iff hseq h.nxt (by omega) (by omega)).2 hle] at this; cases this
      have hdist : distance c.recvNxt x.seq = o - r := by
        rw [h.nxt, hseq]; exact distance_pos (by omega) (by omega)
      have hq := h.length_le
      refine ⟨?_, ?_, hsome⟩
      · simp only [hdist]; omega
      · simp only [hdist, h.queue, List.length_append]; omega
  · rw [hgo] at hd
    cases hd
    refine ⟨fun _ => ?_, fun h => nomatch h⟩
    obtain ⟨o, hseq, hroom, hsome⟩ := h.placed x hx
    have hf := hfin x
    rw [keepChunk_iff hseq h.nxt (by unfold ReassemblySegment.len; omega) (by omega)] at hkeep
    rw [dueChunk_iff hseq h.nxt (by omega) (by omega)] at hdue
    have htrim := trimChunk_eq hseq h.nxt hdue (by omega)
    have hrecv := deliver_receiver { c with reassembly := rest } (trimChunk c.recvNxt x) nowMs config
    obtain ⟨hcap, hstate⟩ := deliver_state { c with reassembly := rest } (trimChunk c.recvNxt x) nowMs config
    rw [htrim] at hrecv hcap hstate ⊢
    simp only [receiver, Receiver.mk.injEq] at hrecv
    obtain ⟨h1, h2, h3, h4⟩ := hrecv
    have hfits := h.fits
    have hl := h.length_le
    have hq := congrArg List.length h.queue
    rw [List.length_append] at hq
    unfold ReassemblySegment.len at hkeep h1 ⊢
    refine ⟨_, x.payload.drop (r - o), hkeep, ⟨?_, ?_, ?_, ?_, ?_, ?_, ?_, ?_, ?_⟩, ?_, x, hx, o, hseq, hdue, rfl, rfl⟩
    · rw [h1, h.nxt, add_asU32, List.length_drop]
      congr 1
      dsimp only; omega
    · rw [h2, h.queue, List.append_assoc]
    · rw [List.length_append, List.length_drop]; omega
    · omega
    · rw [h2, h3, List.length_append, List.length_drop]; omega
    · intro y hy
      rw [h3] at hy
      exact h.placed y (hrest y hy)
    · exact hcap.trans h.capacity
    · exact (hstate h.sync).1
    · rw [h4, (hstate h.sync).2, h.done]
    · rw [h3]; exact hlen

/-- **The drain loop from any point.** It passes some more positions and stops with every chunk ahead. -/
theorem Drained.run (hv : config.Valid) (h : Drained config c0 r l c) (nowMs : ℕ) :
    ∃ r' m, r ≤ r' ∧ Drained config c0 r' (l ++ m) (c.drainReassembly nowMs config) ∧
      ∀ x ∈ (c.drainReassembly nowMs config).reassembly, Ahead (c.drainReassembly nowMs config).recvNxt
        (config.receiveBuffer - (c.drainReassembly nowMs config).recvQueue.length) x := by
  refine drainReassembly_rule (I := fun c' => ∃ r' m, r ≤ r' ∧ Drained config c0 r' (l ++ m) c')
    (J := fun c' => ∃ r' m, r ≤ r' ∧ Drained config c0 r' (l ++ m) c' ∧
      ∀ x ∈ c'.reassembly, Ahead c'.recvNxt (config.receiveBuffer - c'.recvQueue.length) x)
    ?_ ?_ ⟨r, [], le_rfl, by rw [List.append_nil]; exact h⟩
  · rintro c c' ⟨r', m, hr, hdr⟩ hd
    obtain ⟨r'', m', hlt, hdr', hlen, -⟩ := (hdr.round hv hd).1 rfl
    exact ⟨⟨r'', m ++ m', by omega, by rw [← List.append_assoc]; exact hdr'⟩, hlen⟩
  · rintro c c' ⟨r', m, hr, hdr⟩ hd
    obtain ⟨hdr', hahead⟩ := (hdr.round hv hd).2 rfl
    exact ⟨r', m, hr, hdr', hahead⟩

/-- a chunk at `recv_nxt` is delivered first -/
theorem drain_head (nowMs : ℕ) (hv : config.Valid) (h : Drained config c0 0 [] c) {chunk : ReassemblySegment}
    (hmem : chunk ∈ c.reassembly) (hseq : chunk.seq = c0.recvNxt)
    (honly : ∀ x ∈ c.reassembly, x.seq = c0.recvNxt → x = chunk) :
    ∃ r m, 0 < r ∧ Drained config c0 r (chunk.payload ++ m) (c.drainReassembly nowMs config) := by
  have hnxt : c.recvNxt = c0.recvNxt := by rw [h.nxt, pos_zero]
  have h0 : chunk.seq = pos c0.recvNxt 0 := by rw [pos_zero]; exact hseq
  have hbuf := hv.receive_le
  have hlen : 0 < chunk.len ∧ chunk.len ≤ config.receiveBuffer + 1 := by
    obtain ⟨o, -, hroom, hsome⟩ := h.placed chunk hmem
    have hf : chunk.fin.toNat ≤ 1 := by cases chunk.fin <;> simp
    unfold ReassemblySegment.len
    refine ⟨?_, by omega⟩
    rcases hsome with hp | hf'
    · have := List.length_pos_of_ne_nil hp; omega
    · simp [hf']
  refine drainReassembly_rule
    (I := fun c' => c' = c ∨ ∃ r m, 0 < r ∧ Drained config c0 r (chunk.payload ++ m) c')
    (J := fun c' => ∃ r m, 0 < r ∧ Drained config c0 r (chunk.payload ++ m) c') ?_ ?_ (.inl rfl)
  · rintro c1 c' (rfl | ⟨r, m, hr, hdr⟩) hd
    · obtain ⟨r', m, hlt, hdr, hl, x, hx, o, hxo, ho, rfl, rfl⟩ := (h.round hv hd).1 rfl
      obtain rfl : o = 0 := by omega
      obtain rfl := honly x hx (by rw [hxo, pos_zero])
      exact ⟨.inr ⟨_, [], hlt, by simpa using hdr⟩, hl⟩
    · obtain ⟨r', m', hlt, hdr', hl, -⟩ := (hdr.round hv hd).1 rfl
      exact ⟨.inr ⟨r', m ++ m', by omega, by rw [← List.append_assoc]; exact hdr'⟩, hl⟩
  · rintro c1 c' (rfl | ⟨r, m, hr, hdr⟩) hd
    · -- the chunk is kept and due, so the first round does not stop
      exfalso
      rcases drainOnce_fits nowMs h.fits with ⟨-, hdue⟩ | ⟨x, rest, -, -, -, -, -, -, hgo⟩
      · have hkeep := (keepChunk_iff (r := 0) h0 h.nxt (by omega) (by omega)).2 (by omega)
        have := hdue chunk (List.mem_filter.2 ⟨hmem, hkeep⟩)
        rw [(dueChunk_iff h0 h.nxt (by omega) (by omega)).2 le_rfl] at this; cases this
      · rw [hgo] at hd; cases hd
    · exact ⟨r, m, hr, ((hdr.round hv hd).2 rfl).1⟩

/-- without a chunk at `recv_nxt` nothing is delivered -/
theorem drain_none (nowMs : ℕ) (hv : config.Valid) (h : Drained config c0 0 [] c) (hno : ∀ x ∈ c.reassembly, x.seq ≠ c0.recvNxt) :
    c.drainReassembly nowMs config = { c with reassembly := c.reassembly.filter (keepChunk c.recvNxt) } := by
  refine drainReassembly_rule (I := fun c' => c' = c)
    (J := fun c' => c' = { c with reassembly := c.reassembly.filter (keepChunk c.recvNxt) }) ?_ ?_ rfl
  · rintro c1 c' rfl hd
    obtain ⟨r', m, -, -, -, x, hx, o, hxo, ho, -⟩ := (h.round hv hd).1 rfl
    obtain rfl : o = 0 := by omega
    exact absurd (by rw [hxo, pos_zero]) (hno x hx)
  · rintro c1 c' rfl hd
    rcases drainOnce_fits nowMs h.fits with ⟨hstop, -⟩ | ⟨x, rest, -, -, -, -, -, -, hgo⟩
    · rw [hstop] at hd; cases hd; rfl
    · rw [hgo] at hd; cases hd

end Rest

/-! ## One segment -/

section OneSegment

variable {P : Type} {c : Connection P} {config : Config} {segment : Segment}

/-- what `insert_received` keeps lies within the window and is not empty; it starts at `recv_nxt` exactly when the
segment starts there or before -/
theorem receivedChunk_spec {seq : U32} {payload : List U8} {fin : Bool} {chunk : ReassemblySegment}
    (h : c.receivedChunk seq payload fin = some chunk) :
    ∃ o, chunk.seq = pos c.recvNxt o ∧ o + chunk.payload.length ≤ c.availableWindow ∧
      (chunk.payload ≠ [] ∨ chunk.fin = true) ∧ (o = 0 ↔ beforeOrEqual seq c.recvNxt) := by
  by_cases hb : beforeOrEqual seq c.recvNxt
  · rw [receivedChunk_head hb] at h
    simp only at h
    split_ifs at h with hn
    cases h
    refine ⟨0, (pos_zero _).symm, ?_, ?_, by simp [hb]⟩
    · simp only [List.length_take]; omega
    · exact (not_and_or.1 hn).imp id Bool.of_not_eq_false
  · rw [receivedChunk_ahead hb] at h
    simp only at h
    split_ifs at h with hn
    cases h
    obtain ⟨h0, hsome⟩ := not_or.1 hn
    refine ⟨distance c.recvNxt seq, (pos_dist _ _).symm, ?_, ?_, ?_⟩
    · simp only [List.length_take]; omega
    · exact (not_and_or.1 hsome).imp id Bool.of_not_eq_false
    · simp only [hb, iff_false]
      intro hd
      have := pos_dist c.recvNxt seq
      rw [← distance_eq_dist, hd, pos_zero] at this
      exact hb (.inl this.symm)

/-- the drain loop starts with nothing delivered -/
theorem RecvInv.drained (hi : c.RecvInv config) (hst : c.Synchronized) (seq : U32) (payload : List U8) (fin : Bool) :
    Drained config c 0 [] (c.insertReceived seq payload fin config) := by
  have hbuf := hi.capacity
  have hfits := hi.fits
  have hold : ∀ x ∈ c.reassembly, ∃ o, x.seq = pos c.recvNxt o ∧
      o + x.payload.length + c.recvQueue.length ≤ config.receiveBuffer ∧ (x.payload ≠ [] ∨ x.fin = true) := fun x hx => by
    obtain ⟨h1, h2, h3⟩ := hi.ahead x hx
    exact ⟨_, (pos_dist _ _).symm, by rw [distance_eq_dist] at h2; omega, h3⟩
  have hnil : c.recvQueue = c.recvQueue ++ [] := (List.append_nil _).symm
  rcases c.insertReceived_cases seq payload fin config with h | ⟨chunk, hchunk, hlen, h⟩ <;> rw [h]
  · exact ⟨(pos_zero _).symm, hnil, le_rfl, Nat.zero_le _, hfits, hold, rfl, hst, hi.done⟩
  · obtain ⟨o, hseq, hroom, hsome, -⟩ := receivedChunk_spec hchunk
    have hwin : c.availableWindow = config.receiveBuffer - (c.recvQueue.length + chunkBytes c.reassembly) := by
      rw [availableWindow, hbuf]; rfl
    refine ⟨(pos_zero _).symm, hnil, le_rfl, Nat.zero_le _, ?_, ?_, rfl, hst, hi.done⟩
    · simp only [chunkBytes_append, chunkBytes_cons, chunkBytes_nil]; omega
    · intro x hx
      rcases List.mem_append.1 hx with hx | hx
      · exact hold x hx
      · rw [List.mem_singleton] at hx; subst hx
        exact ⟨o, hseq, by omega, hsome⟩

/-- **Receiving keeps the invariant.** -/
theorem RecvInv.receive (segment : Segment) (nowMs : ℕ) (hv : config.Valid) (hi : c.RecvInv config)
    (hst : c.Synchronized) : (c.receiveStreamData segment nowMs config).1.RecvInv config := by
  obtain ⟨r, m, -, hd, hahead⟩ := (hi.drained hst segment.seq segment.payload (segment.flags.contains .FIN)).run hv nowMs
  exact ⟨hd.capacity.trans hi.capacity, hd.fits, hahead, fun hsyn => absurd hsyn hd.sync.1, hd.done⟩

/-- a chunk at `recv_nxt` is new, since all that is buffered lies ahead -/
theorem RecvInv.insert_head (hi : c.RecvInv config) {seq : U32} {payload : List U8} {fin : Bool}
    {chunk : ReassemblySegment} (h : c.receivedChunk seq payload fin = some chunk) (hseq : chunk.seq = c.recvNxt) :
    (∀ x ∈ c.reassembly, x.seq ≠ c.recvNxt) ∧
      c.insertReceived seq payload fin config =
        if c.reassembly.length < config.maxReassemblySegments then { c with reassembly := c.reassembly ++ [chunk] } else c := by
  have hne : ∀ x ∈ c.reassembly, x.seq ≠ c.recvNxt := fun x hx he => by
    have := (hi.ahead x hx).pos
    rw [he, distance_self] at this; omega
  refine ⟨hne, ?_⟩
  have hno : (c.reassembly.any fun x => x.seq == chunk.seq && x.endSeq == chunk.endSeq) = false := by
    refine List.any_eq_false.2 fun x hx => ?_
    rw [hseq]; simp [hne x hx]
  simp only [insertReceived, h, hno, Bool.false_eq_true, if_false]

/-- **A segment with something at `recv_nxt`** and room in the list: it is delivered. -/
theorem RecvInv.receive_head (nowMs : ℕ) (hv : config.Valid) (hi : c.RecvInv config) (hst : c.Synchronized)
    {chunk : ReassemblySegment}
    (h : c.receivedChunk segment.seq segment.payload (segment.flags.contains .FIN) = some chunk)
    (hseq : chunk.seq = c.recvNxt) (hlen : c.reassembly.length < config.maxReassemblySegments) :
    ∃ r m, 0 < r ∧ Drained config c r (chunk.payload ++ m) (c.receiveStreamData segment nowMs config).1 := by
  have hd := hi.drained hst segment.seq segment.payload (segment.flags.contains .FIN)
  obtain ⟨hne, hins⟩ := hi.insert_head h hseq
  have hreas : (c.insertReceived segment.seq segment.payload (segment.flags.contains .FIN) config).reassembly =
      c.reassembly ++ [chunk] := by rw [hins, if_pos hlen]
  refine drain_head nowMs hv hd (by rw [hreas]; simp) hseq fun x hx he => ?_
  rw [hreas] at hx
  rcases List.mem_append.1 hx with hx | hx
  · exact absurd he (hne x hx)
  · exact List.mem_singleton.1 hx

/-- **A segment with nothing at `recv_nxt`**, or no room in the list: the stream does not move. -/
theorem RecvInv.receive_still (segment : Segment) (nowMs : ℕ) (hv : config.Valid) (hi : c.RecvInv config) (hst : c.Synchronized)
    (h : ∀ chunk, c.receivedChunk segment.seq segment.payload (segment.flags.contains .FIN) = some chunk →
      chunk.seq = c.recvNxt → config.maxReassemblySegments ≤ c.reassembly.length) :
    (c.receiveStreamData segment nowMs config).1.recvNxt = c.recvNxt ∧
      (c.receiveStreamData segment nowMs config).1.recvQueue = c.recvQueue ∧
      (c.receiveStreamData segment nowMs config).1.readClosed = c.readClosed := by
  have hd := hi.drained hst segment.seq segment.payload (segment.flags.contains .FIN)
  have hne : ∀ x ∈ c.reassembly, x.seq ≠ c.recvNxt := fun x hx he => by
    have := (hi.ahead x hx).pos
    rw [he, distance_self] at this; omega
  have hno : ∀ x ∈ (c.insertReceived segment.seq segment.payload (segment.flags.contains .FIN) config).reassembly,
      x.seq ≠ c.recvNxt := by
    rcases c.insertReceived_cases segment.seq segment.payload (segment.flags.contains .FIN) config with
      hins | ⟨chunk, hchunk, hlen, hins⟩ <;> rw [hins]
    · exact hne
    · intro x hx he
      rcases List.mem_append.1 hx with hx | hx
      · exact hne x hx he
      · rw [List.mem_singleton] at hx; subst hx
        have := h x hchunk he; omega
  have hdrain := drain_none nowMs hv hd hno
  have hins : (c.insertReceived segment.seq segment.payload (segment.flags.contains .FIN) config).readClosed =
      c.readClosed := by
    rcases c.insertReceived_cases segment.seq segment.payload (segment.flags.contains .FIN) config with
      hins | ⟨chunk, -, -, hins⟩ <;> rw [hins]
  have hnxt := hd.nxt
  have hq := hd.queue
  rw [pos_zero] at hnxt
  rw [List.append_nil] at hq
  simp only [receiveStreamData, hdrain]
  exact ⟨hnxt, hq, hins⟩

/-! ## Every operation keeps the invariant -/

theorem RecvInv.of_frame {c' : Connection P} (hi : c.RecvInv config) (hr : c'.receiver = c.receiver)
    (hs : c'.stable = c.stable) (hsyn : c'.state = .synSent → c.state = .synSent)
    (hdone : c'.state.peerDone = c.state.peerDone) : c'.RecvInv config := by
  simp only [receiver, Receiver.mk.injEq] at hr
  obtain ⟨h1, h2, h3, h4⟩ := hr
  refine ⟨(congrArg Stable.receiveCapacity hs).trans hi.capacity, ?_, ?_, fun h => ?_, ?_⟩
  · rw [h2, h3]; exact hi.fits
  · rw [h1, h2, h3]; exact hi.ahead
  · rw [h2, h3, h4]; exact hi.fresh (hsyn h)
  · rw [h4, hdone]; exact hi.done

/-- **Preservation, one primitive.** -/
theorem Move.recvInv {nowMs : ℕ} {inp : Option Segment} {c' : Connection P} {out : List Segment} (hv : config.Valid)
    (h : Move config nowMs inp c out c') (hi : c.RecvInv config) : c'.RecvInv config := by
  cases h with
  | establishClient segment hin hst =>
    obtain ⟨hr, hs, -, hstate⟩ := c.establishClient_frame segment nowMs config
    obtain ⟨hq, hre, hrc⟩ := hi.fresh hst
    simp only [receiver, Receiver.mk.injEq] at hr
    obtain ⟨-, h2, h3, h4⟩ := hr
    refine ⟨(congrArg Stable.receiveCapacity hs).trans hi.capacity, ?_, ?_, fun h => ?_, ?_⟩
    · rw [h2, h3, hq, hre]; exact Nat.zero_le _
    · rw [h3, hre]; exact fun x hx => nomatch hx
    · rw [hstate] at h; cases h
    · rw [hstate, h4, hrc]; rfl
  | establishServer segment hin hst =>
    obtain ⟨hr, hs, -, hstate⟩ := c.establishServer_frame segment nowMs
    exact hi.of_frame hr hs (fun h => by rw [hstate] at h; cases h) (by rw [hstate, hst]; rfl)
  | window segment =>
    obtain ⟨hr, hs, -, hstate⟩ := c.updateRemoteWindow_frame segment.window nowMs
    exact hi.of_frame hr hs (fun h => hstate ▸ h) (by rw [hstate])
  | timers => exact hi.of_frame rfl rfl id rfl
  | retransmit timeout =>
    obtain ⟨hr, hs, -, hstate, -⟩ := c.retransmitOldest_frame nowMs timeout
    exact hi.of_frame hr hs (fun h => hstate ▸ h) (by rw [hstate])
  | advanceAck c' segment ack hin hrst hseg hst hadv h =>
    obtain ⟨hr, hs, -, -⟩ := afterAck_frame nowMs config h
    refine hi.of_frame hr hs (fun hs' => absurd hs' (afterAck_synchronized config nowMs hst h).1) ?_
    rcases afterAck_state nowMs config h with h | ⟨h1, h2⟩ | ⟨h1, h2⟩
    · rw [h]
    · rw [h1, h2]; rfl
    · rw [h1, h2]; rfl
  | receive segment hin hst => exact hi.receive segment nowMs hv hst
  | sendData => exact hi.of_frame rfl rfl id rfl
  | sendFin hst =>
    refine hi.of_frame rfl rfl (fun h => ?_) ?_
    · rw [sendFin_state] at h; split_ifs at h
    · rw [sendFin_state]
      rcases hst with hst | hst <;> simp [hst, State.peerDone]
  | probe =>
    rcases c.zeroWindowProbe_cases nowMs with ⟨x, -, -, h⟩ | ⟨-, ⟨-, h⟩ | ⟨-, h⟩⟩ <;> rw [h]
    · exact hi.of_frame rfl rfl id rfl
    · exact hi
    · exact hi.of_frame rfl rfl id rfl
  | ack => exact hi
  | reset => exact hi
  | requestClose => exact hi.of_frame rfl rfl id rfl

/-- reading makes room -/
theorem RecvInv.consume (hi : c.RecvInv config) (count : ℕ) : (c.consume count).RecvInv config := by
  have hq : (c.consume count).recvQueue.length ≤ c.recvQueue.length := by
    simp only [Connection.consume, List.length_drop]; omega
  have hfits := hi.fits
  refine ⟨hi.capacity, ?_, fun x hx => ?_, fun h => ?_, hi.done⟩
  · exact (Nat.add_le_add_right hq _).trans hfits
  · obtain ⟨h1, h2, h3⟩ := hi.ahead x hx
    exact ⟨h1, h2.trans (by omega), h3⟩
  · obtain ⟨h1, h2, h3⟩ := hi.fresh h
    exact ⟨by simp [Connection.consume, h1], h2, h3⟩

end OneSegment

end Connection

theorem Opening.recvInv {P : Type} {config : Config} (o : Opening P) : (o.connection config).1.RecvInv config := by
  have hnew : ∀ c : Connection P, c.receiveCapacity = config.receiveBuffer → c.recvQueue = [] → c.reassembly = [] →
      c.readClosed = false → c.state.peerDone = false → c.RecvInv config := fun c h1 h2 h3 h4 h5 => by
    refine ⟨h1, by simp [h2, h3], by simp [h3], fun _ => ⟨h2, h3, h4⟩, by rw [h4, h5]⟩
  cases o with
  | client peer localPort remotePort isn nowMs token => exact hnew _ rfl rfl rfl rfl rfl
  | server peer syn isn nowMs token =>
    generalize hc : Connection.new peer syn.dstPort syn.srcPort .synReceived isn (syn.seq + 1) config token = c
    obtain ⟨hr, hs, -, hst⟩ := c.updateRemoteWindow_frame syn.window nowMs
    have hr' : c.receiver = ⟨syn.seq + 1, [], [], false⟩ := by rw [← hc]; rfl
    have hs' : c.stable.receiveCapacity = config.receiveBuffer := by rw [← hc]; rfl
    have hst' : c.state = .synReceived := by rw [← hc]; rfl
    rw [hr'] at hr
    simp only [Connection.receiver, Receiver.mk.injEq] at hr
    simp only [Opening.connection, Connection.server, hc]
    exact hnew _ ((congrArg Stable.receiveCapacity hs).trans hs') hr.2.1 hr.2.2.1 hr.2.2.2
      (congrArg State.peerDone (hst.trans hst'))

namespace Socket

variable {P : Type} {config : Config}

/-- the two halves of a connection, against any peer -/
structure Inv (config : Config) (isn : U32) (acc : List U8) (c : Connection P) : Prop where
  send : c.SendInv config isn acc
  recv : c.RecvInv config

theorem Inv.move {isn : U32} {acc : List U8} {nowMs : ℕ} {inp : Option Segment} {c c' : Connection P} {out : List Segment}
    (hv : config.Valid) (h : Connection.Move config nowMs inp c out c') (hi : Inv config isn acc c) :
    Inv config isn acc c' := ⟨h.sendInv hi.send, h.recvInv hv hi.recv⟩

/-- **Both halves, over any run.** -/
theorem inv_step (hv : config.Valid) (isn : U32) {s : Socket P} (op : SocketOp)
    (hs : s.retained = true → Inv config isn s.accepted s.conn) (hr : (s.step config op).retained = true) :
    Inv config isn (s.step config op).accepted (s.step config op).conn :=
  step_invariant (Q := fun acc c => Inv config isn acc c) (fun h => h.send.mss) (fun h hq => hq.move hv h)
    (fun hq hst hroom => ⟨hq.send.accept hst hroom, hq.recv.of_frame rfl rfl id rfl⟩)
    (fun count hq => ⟨⟨hq.send.sender, hq.send.window, hq.send.mss, hq.send.buffer⟩, hq.recv.consume count⟩) hs op hr

theorem inv_run (o : Opening P) (hv : config.Valid) (ops : List SocketOp)
    (hr : (run config o ops).retained = true) :
    Inv config o.isn (run config o ops).accepted
      (run config o ops).conn :=
  Run.exec_invariant (P := fun s : Socket P => s.retained = true → Inv config o.isn s.accepted s.conn)
    (fun _ op hs hr => inv_step hv o.isn op hs hr) (fun _ => ⟨o.sendInv hv, o.recvInv⟩) ops hr

end Socket

/-- **Both halves of a reachable connection.** -/
theorem Connection.Reachable.inv {P : Type} {config : Config} {c : Connection P} (hv : config.Valid)
    (h : c.Reachable config) : ∃ isn acc, Socket.Inv config isn acc c := by
  obtain ⟨o, ops, hr, rfl⟩ := h
  exact ⟨_, _, Socket.inv_run o hv ops hr⟩

end FipsTcp
