/-
The window while data is out of order.

Overlapping chunks are counted more than once against the window, so the bytes buffered do not bound where they lie. What does:
for every chunk, its offset and all the bytes of the chunks that start there or later fit the room of the receive buffer
(`Nested`). A chunk that is inserted lies inside the window, a delivery only takes chunks away, and it moves `recv_nxt` on by at
least the bytes that it takes from the room (`Nested.receive`). For the earliest chunk those bytes are all that is buffered, so the
window reaches up to it: `window_reaches_earliest`.
-/
import FipsTcp.Connection.Receiver

namespace FipsTcp

open Serial

/-- the bytes of the chunks that start at `offset` from `nxt` or later -/
def bytesFrom (nxt : U32) (offset : ℕ) (l : List ReassemblySegment) : ℕ :=
  chunkBytes (l.filter fun y => decide (offset ≤ distance nxt y.seq))

/-- for every chunk, its offset and the bytes that start there or later fit `room` -/
def Nested (nxt : U32) (room : ℕ) (l : List ReassemblySegment) : Prop :=
  ∀ x ∈ l, distance nxt x.seq + bytesFrom nxt (distance nxt x.seq) l ≤ room

section Lists

variable {nxt : U32} {room : ℕ} {l l' : List ReassemblySegment} {z : ReassemblySegment}

theorem chunkBytes_sublist (h : l'.Sublist l) : chunkBytes l' ≤ chunkBytes l := by
  induction h with
  | slnil => exact le_rfl
  | cons x _ ih => rw [chunkBytes_cons]; omega
  | cons_cons x _ ih => rw [chunkBytes_cons, chunkBytes_cons]; omega

theorem bytesFrom_le (nxt : U32) (offset : ℕ) (l : List ReassemblySegment) : bytesFrom nxt offset l ≤ chunkBytes l :=
  chunkBytes_filter_le _ l

theorem bytesFrom_append (nxt : U32) (offset : ℕ) (l l' : List ReassemblySegment) :
    bytesFrom nxt offset (l ++ l') = bytesFrom nxt offset l + bytesFrom nxt offset l' := by
  rw [bytesFrom, List.filter_append, chunkBytes_append]
  rfl

theorem Nested.nil : Nested nxt room [] := fun _ h => nomatch h

theorem Nested.mono {room' : ℕ} (h : Nested nxt room l) (hr : room ≤ room') : Nested nxt room' l :=
  fun x hx => (h x hx).trans hr

theorem Nested.sublist (h : Nested nxt room l) (hs : l'.Sublist l) : Nested nxt room l' := fun x hx =>
  (Nat.add_le_add_left (chunkBytes_sublist (hs.filter _)) _).trans (h x (hs.subset hx))

/-- **Insertion.** A chunk inside what the others leave of the room. -/
theorem Nested.insert (h : Nested nxt room l) (hz : distance nxt z.seq + z.payload.length + chunkBytes l ≤ room) :
    Nested nxt room (l ++ [z]) := by
  intro x hx
  have hz' : bytesFrom nxt (distance nxt x.seq) [z] ≤ z.payload.length := by
    refine (bytesFrom_le _ _ _).trans (le_of_eq ?_)
    rw [chunkBytes_cons, chunkBytes_nil, Nat.add_zero]
  have hl := bytesFrom_le nxt (distance nxt x.seq) l
  rw [bytesFrom_append]
  rcases List.mem_append.1 hx with hx | hx
  · by_cases hle : distance nxt x.seq ≤ distance nxt z.seq
    · -- the new chunk counts for the old one, which starts no later
      omega
    · have hnone : bytesFrom nxt (distance nxt x.seq) [z] = 0 := by
        rw [bytesFrom, List.filter_cons_of_neg (by rw [decide_eq_true_eq]; exact hle)]
        rfl
      rw [hnone, Nat.add_zero]
      exact h x hx
  · obtain rfl := List.mem_singleton.1 hx
    omega

/-- distances from a later position -/
theorem distance_later {a b : U32} {r : ℕ} (h : r ≤ distance a b) : distance (pos a r) b = distance a b - r := by
  have hb : pos a (distance a b) = b := pos_dist a b
  have hlt : distance a b < 2 ^ 32 := dist_lt a b
  conv_lhs => rw [← hb]
  exact distance_pos h (by omega)

/-- **Delivery.** `recv_nxt` has moved on past no chunk that is left, by at least what the room lost. -/
theorem Nested.advance {r m : ℕ} (h : Nested nxt room l) (hm : m ≤ r) (hl : ∀ x ∈ l, r ≤ distance nxt x.seq) :
    Nested (pos nxt r) (room - m) l := by
  intro x hx
  have hsame : bytesFrom (pos nxt r) (distance nxt x.seq - r) l = bytesFrom nxt (distance nxt x.seq) l := by
    have hx' := hl x hx
    refine congrArg chunkBytes (List.filter_congr fun y hy => ?_)
    have hy' := hl y hy
    rw [distance_later hy', decide_eq_decide]
    omega
  have hroom := h x hx
  have hx' := hl x hx
  rw [distance_later hx', hsame]
  omega

/-- a chunk that starts no later than any other -/
def Earliest (nxt : U32) (l : List ReassemblySegment) (x : ReassemblySegment) : Prop :=
  x ∈ l ∧ ∀ y ∈ l, distance nxt x.seq ≤ distance nxt y.seq

theorem exists_earliest (nxt : U32) (h : l ≠ []) : ∃ x, Earliest nxt l x := by
  obtain ⟨x, hx⟩ := List.exists_mem_of_ne_nil l h
  obtain ⟨z, hz, hmin⟩ := l.toFinset.exists_min_image (fun y => distance nxt y.seq) ⟨x, List.mem_toFinset.2 hx⟩
  exact ⟨z, List.mem_toFinset.1 hz, fun y hy => hmin y (List.mem_toFinset.2 hy)⟩

/-- all the bytes start at the earliest chunk or later -/
theorem Earliest.bytesFrom (h : Earliest nxt l z) : FipsTcp.bytesFrom nxt (distance nxt z.seq) l = chunkBytes l := by
  rw [FipsTcp.bytesFrom, List.filter_eq_self.2]
  exact fun y hy => decide_eq_true (h.2 y hy)

end Lists

namespace Connection

variable {P : Type} {c : Connection P} {config : Config}

/-! ## Receiving -/

/-- one round of the drain loop takes chunks away, and moves their bytes into the queue -/
theorem drainOnce_sublist {nowMs : ℕ} (hfit : c.recvQueue.length + chunkBytes c.reassembly ≤ config.receiveBuffer)
    {c' : Connection P} {go : Bool} (hd : c.drainOnce nowMs config = (c', go)) :
    c'.reassembly.Sublist c.reassembly ∧ c'.recvQueue.length + chunkBytes c'.reassembly ≤ config.receiveBuffer ∧
      (go = true → c'.reassembly.length < c.reassembly.length) := by
  rcases c.drainOnce_cases nowMs config with ⟨kept, hk, -, h⟩ | ⟨x, l₁, l₂, hl, -, -, h⟩
  · rw [h] at hd
    cases hd
    have hsub : kept.Sublist c.reassembly := hk ▸ List.filter_sublist
    have hbytes := chunkBytes_sublist hsub
    exact ⟨hsub, by simp only; omega, fun h => nomatch h⟩
  · have hsub : (l₁ ++ x :: l₂).Sublist c.reassembly := hl ▸ List.filter_sublist
    have hbytes := chunkBytes_sublist hsub
    have hlen := hsub.length_le
    have htrim := trimChunk_payload_le c.recvNxt x
    rw [chunkBytes_append, chunkBytes_cons] at hbytes
    rw [List.length_append, List.length_cons] at hlen
    rw [h, deliverChunk_of_room (by simp only; omega)] at hd
    obtain ⟨rfl, -⟩ := Prod.mk.inj hd
    have hrecv := deliver_receiver { c with reassembly := l₁ ++ l₂ } (trimChunk c.recvNxt x) nowMs config
    simp only [receiver, Receiver.mk.injEq] at hrecv
    obtain ⟨-, h2, h3, -⟩ := hrecv
    refine ⟨?_, ?_, fun _ => ?_⟩
    · rw [h3]
      exact ((List.sublist_cons_self x l₂).append_left l₁).trans hsub
    · rw [h2, h3, List.length_append, chunkBytes_append]
      omega
    · rw [h3, List.length_append]
      omega

/-- the drain loop only takes chunks away -/
theorem drainReassembly_sublist (nowMs : ℕ) (hfit : c.recvQueue.length + chunkBytes c.reassembly ≤ config.receiveBuffer) :
    (c.drainReassembly nowMs config).reassembly.Sublist c.reassembly := by
  refine drainReassembly_rule
    (I := fun c' => c'.reassembly.Sublist c.reassembly ∧
      c'.recvQueue.length + chunkBytes c'.reassembly ≤ config.receiveBuffer)
    (J := fun c' => c'.reassembly.Sublist c.reassembly) ?_ ?_ ⟨List.Sublist.refl _, hfit⟩
  · rintro c1 c2 ⟨hs, hf⟩ hd
    obtain ⟨h1, h2, h3⟩ := drainOnce_sublist hf hd
    exact ⟨⟨h1.trans hs, h2⟩, h3 rfl⟩
  · rintro c1 c2 ⟨hs, hf⟩ hd
    exact (drainOnce_sublist hf hd).1.trans hs

/-- the room of the receive buffer that the queue leaves -/
def room (config : Config) (c : Connection P) : ℕ := config.receiveBuffer - c.recvQueue.length

/-- **Receiving keeps the chunks nested.** -/
theorem RecvInv.receive_nested (segment : Segment) (nowMs : ℕ) (hv : config.Valid) (hi : c.RecvInv config) (hst : c.Synchronized)
    (h : Nested c.recvNxt (c.room config) c.reassembly) :
    Nested (c.receiveStreamData segment nowMs config).1.recvNxt ((c.receiveStreamData segment nowMs config).1.room config)
      (c.receiveStreamData segment nowMs config).1.reassembly := by
  have hdrained := hi.drained hst segment.seq segment.payload (segment.flags.contains .FIN)
  have hinsert : Nested c.recvNxt (c.room config)
      (c.insertReceived segment.seq segment.payload (segment.flags.contains .FIN) config).reassembly := by
    rcases c.insertReceived_cases segment.seq segment.payload (segment.flags.contains .FIN) config with
      hins | ⟨chunk, hchunk, -, hins⟩ <;> rw [hins]
    · exact h
    · obtain ⟨o, hseq, hroom, -⟩ := receivedChunk_spec hchunk
      have hbuf := hv.receive_le
      have hwin : c.availableWindow = c.receiveCapacity - (c.recvQueue.length + chunkBytes c.reassembly) := rfl
      rw [hi.capacity] at hwin
      have hdist : distance c.recvNxt chunk.seq = o := by rw [hseq]; exact dist_base c.recvNxt (by omega)
      have hfits := hi.fits
      refine h.insert ?_
      rw [hdist, room]
      omega
  obtain ⟨r, m, -, hd, hahead⟩ := hdrained.run hv nowMs
  have hsub := drainReassembly_sublist nowMs hdrained.fits
  simp only [receiveStreamData]
  generalize (c.insertReceived segment.seq segment.payload (segment.flags.contains .FIN) config).drainReassembly nowMs config = c'
    at hd hahead hsub ⊢
  -- what is left lies ahead of where the loop stopped
  have hpast : ∀ x ∈ c'.reassembly, r ≤ distance c.recvNxt x.seq := fun x hx => by
    obtain ⟨o, hseq, hroom, -⟩ := hd.placed x hx
    obtain ⟨hpos, hwithin, -⟩ := hahead x hx
    have hbuf := hv.receive_le
    have hr := hd.le
    have hdist : distance c.recvNxt x.seq = o := by rw [hseq]; exact dist_base c.recvNxt (by omega)
    by_contra hlt
    rw [hd.nxt, hseq] at hwithin
    have hne : pos c.recvNxt o ≠ pos c.recvNxt r := fun he => by
      rw [pos_inj c.recvNxt (by omega) (by omega)] at he
      omega
    have hsum := dist_comm_of_ne hne
    rw [dist_pos c.recvNxt (by omega) (by omega)] at hsum
    change dist (pos c.recvNxt r) (pos c.recvNxt o) + _ ≤ _ at hwithin
    omega
  have hroom : c'.room config = c.room config - m.length := by
    rw [room, room, hd.queue, List.nil_append, List.length_append, Nat.sub_sub]
  have hm := hd.length_le
  rw [List.nil_append] at hm
  rw [hd.nxt, hroom]
  exact (hinsert.sublist hsub).advance hm hpast

/-! ## Every operation -/

/-- **Preservation, one primitive.** -/
theorem Move.nested {nowMs : ℕ} {inp : Option Segment} {c' : Connection P} {out : List Segment} (hv : config.Valid)
    (h : Move config nowMs inp c out c') (hi : c.RecvInv config) (hn : Nested c.recvNxt (c.room config) c.reassembly) :
    Nested c'.recvNxt (c'.room config) c'.reassembly := by
  have hframe : ∀ {c' : Connection P}, c'.receiver = c.receiver → Nested c'.recvNxt (c'.room config) c'.reassembly :=
    fun {c'} hr => by
      simp only [receiver, Receiver.mk.injEq] at hr
      obtain ⟨h1, h2, h3, -⟩ := hr
      rw [room, h1, h2, h3]
      exact hn
  cases h with
  | establishClient segment hin hst =>
    obtain ⟨hr, -⟩ := c.establishClient_frame segment nowMs config
    obtain ⟨-, hre, -⟩ := hi.fresh hst
    simp only [receiver, Receiver.mk.injEq] at hr
    rw [hr.2.2.1, hre]
    exact Nested.nil
  | establishServer segment hin hst => exact hframe (c.establishServer_frame segment nowMs).1
  | window segment => exact hframe (c.updateRemoteWindow_frame segment.window nowMs).1
  | retransmit timeout => exact hframe (c.retransmitOldest_frame nowMs timeout).1
  | advanceAck c' segment ack hin hrst hseg hst hadv h => exact hframe (afterAck_frame nowMs config h).1
  | receive segment hin hst => exact hi.receive_nested segment nowMs hv hst hn
  | sendFin hst => exact hframe rfl
  | probe =>
    rcases c.zeroWindowProbe_cases nowMs with ⟨x, -, -, h⟩ | ⟨-, ⟨-, h⟩ | ⟨-, h⟩⟩ <;> rw [h]
    · exact hframe rfl
    · exact hn
    · exact hframe rfl
  | _ => exact hn

end Connection

theorem Opening.reassembly_nil {P : Type} {config : Config} (o : Opening P) : (o.connection config).1.reassembly = [] := by
  cases o with
  | client peer localPort remotePort isn nowMs token => rfl
  | server peer syn isn nowMs token =>
    generalize hc : Connection.new peer syn.dstPort syn.srcPort .synReceived isn (syn.seq + 1) config token = c
    obtain ⟨hr, -⟩ := c.updateRemoteWindow_frame syn.window nowMs
    have hnil : c.reassembly = [] := by rw [← hc]; rfl
    simp only [Opening.connection, Connection.server, hc]
    exact (congrArg Receiver.reassembly hr).trans hnil

/-- **Chunks stay nested, over any run.** -/
theorem Socket.nested_run {P : Type} {config : Config} (o : Opening P) (hv : config.Valid) (ops : List SocketOp)
    (hr : (Socket.run config o ops).retained = true) :
    (Socket.run config o ops).conn.RecvInv config ∧
      Nested (Socket.run config o ops).conn.recvNxt ((Socket.run config o ops).conn.room config)
        (Socket.run config o ops).conn.reassembly := by
  refine (Run.exec_invariant (P := fun s : Socket P => s.retained = true → Socket.Inv config o.isn s.accepted s.conn ∧
    Nested s.conn.recvNxt (s.conn.room config) s.conn.reassembly) (fun s op hs hr => ?_)
    (fun _ => ⟨⟨o.sendInv hv, o.recvInv⟩, ?_⟩) ops hr).imp_left Socket.Inv.recv
  · refine Socket.step_invariant (Q := fun acc c => Socket.Inv config o.isn acc c ∧ Nested c.recvNxt (c.room config) c.reassembly)
      (fun h => h.1.send.mss) (fun h hq => ⟨hq.1.move hv h, h.nested hv hq.1.recv hq.2⟩)
      (fun hq hst hroom => ⟨⟨hq.1.send.accept hst hroom, hq.1.recv.of_frame rfl rfl id rfl⟩, hq.2⟩)
      (fun count hq => ⟨⟨⟨hq.1.send.sender, hq.1.send.window, hq.1.send.mss, hq.1.send.buffer⟩, hq.1.recv.consume count⟩,
        hq.2.mono ?_⟩) hs op hr
    simp only [Connection.room, Connection.consume, List.length_drop]
    omega
  · change Nested _ _ (o.connection config).1.reassembly
    rw [o.reassembly_nil]
    exact Nested.nil

namespace Connection

variable {P : Type} {c : Connection P} {config : Config} {x : ReassemblySegment}

/-- the window reaches up to the earliest chunk -/
theorem RecvInv.earliest_le (hi : c.RecvInv config) (hn : Nested c.recvNxt (c.room config) c.reassembly)
    (hx : Earliest c.recvNxt c.reassembly x) : distance c.recvNxt x.seq ≤ c.availableWindow := by
  have hroom := hn x hx.1
  rw [hx.bytesFrom, room] at hroom
  have hwin : c.availableWindow = c.receiveCapacity - (c.recvQueue.length + chunkBytes c.reassembly) := rfl
  rw [hi.capacity] at hwin
  have hfits := hi.fits
  omega

/-- the window is advertised as it is: no receive buffer is larger than a 16-bit number -/
theorem RecvInv.advertised (hi : c.RecvInv config) (hv : config.Valid) : c.availableWindowU16.toNat = c.availableWindow := by
  have hle : c.availableWindow ≤ config.receiveBuffer := by
    rw [availableWindow, hi.capacity]
    exact Nat.sub_le _ _
  have hbuf := hv.receive_le
  rw [availableWindowU16, BitVec.toNat_ofNat, min_eq_left (by omega), Nat.mod_eq_of_lt (by omega)]

end Connection

/-- **Out-of-order data does not close the window.** In every reachable connection with chunks out of order, one of them is the
earliest; it starts at least one byte after `recv_nxt`, and the window, as it is advertised too, has room up to it. -/
theorem window_reaches_earliest {P : Type} (config : ValidConfig) {c : Connection P} (h : c.Reachable config.1) :
    (c.reassembly ≠ [] → ∃ x, Earliest c.recvNxt c.reassembly x) ∧
      ∀ x, Earliest c.recvNxt c.reassembly x → 1 ≤ distance c.recvNxt x.seq ∧
        distance c.recvNxt x.seq ≤ c.availableWindow ∧ distance c.recvNxt x.seq ≤ c.availableWindowU16.toNat := by
  have hv := config.valid
  obtain ⟨o, ops, hr, rfl⟩ := h
  obtain ⟨hi, hn⟩ := Socket.nested_run o hv ops hr
  refine ⟨exists_earliest _, fun x hx => ?_⟩
  have hle := hi.earliest_le hn hx
  exact ⟨(hi.ahead x hx.1).pos, hle, by rw [hi.advertised hv]; exact hle⟩

/-- a client whose peer sends bytes 3 and 4 of its stream, then bytes 2 and 3, and never the first -/
def overlapRun : List SocketOp :=
  [.input { Segment.new 80 9000 700 with
      ack := some 101
      flags := Flags.SYN.union .ACK
      options := [.maxSegmentSize 1000, .fipsVersion FIPS_VERSION 0] } 5,
    .input { Segment.new 80 9000 703 with ack := some 101, flags := .ACK, payload := [8, 9] } 6,
    .input { Segment.new 80 9000 702 with ack := some 101, flags := .ACK, payload := [7, 8] } 7]

theorem window_reaches_earliest_overlap :
    1 ≤ distance 701 702 ∧
      distance 701 702 ≤ (Socket.run Config.default (.client () 9000 80 100 0 0) overlapRun).conn.availableWindow := by
  have h := (window_reaches_earliest ⟨Config.default, Config.default_validate⟩
    ⟨.client () 9000 80 100 0 0, overlapRun, by decide, rfl⟩).2 ⟨702, [7, 8], false⟩ ⟨by decide, by decide⟩
  exact ⟨h.1, h.2.1⟩

end FipsTcp
