/-
New data and the windows.

Only the loop and the FIN of `flush_data`, and the probe of a closed window, send what was not sent before, and `flush_data` comes
last in every operation that calls it: so the windows by which it measures are those of the connection that is left. Whether a
segment is emitted for the first time is read off the tap on the wire (`FirstTime`), and not off what the code does.
- `Sends`: every operation emits what was sent before, and then flushes or probes;
- `FlushRound`: the loop of `flush_data`, which stops with nothing left that could be sent;
- `Probed`: the bytes that were sent to probe a closed window;
- `new_data_within_windows`: the three for every run.
-/
import FipsTcp.Connection.Karn
import FipsTcp.Connection.Timers
import Mathlib.Logic.Relation

namespace FipsTcp

open SendWindow Serial Tap

/-- the segment has payload or a FIN -/
def Segment.HasData (x : Segment) : Prop := x.payload ≠ [] ∨ x.flags.contains .FIN = true

instance (x : Segment) : Decidable x.HasData := inferInstanceAs (Decidable (_ ∨ _))

theorem Segment.not_hasData {x : Segment} (hp : x.payload = []) (hf : x.flags.contains .FIN = false) : ¬ x.HasData := by
  rintro (h | h)
  · exact h hp
  · rw [hf] at h
    cases h

theorem resetFor_hasData (segment : Segment) : ¬ (resetFor segment).HasData := by
  unfold resetFor
  cases segment.ack with
  | none => exact Segment.not_hasData rfl (by decide : (Flags.RST.union .ACK).contains .FIN = false)
  | some ack => exact Segment.not_hasData rfl (by decide : Flags.RST.contains .FIN = false)

namespace Connection

variable {P : Type} {config : Config} {nowMs : ℕ} {inp : Option Segment} {isn : U32} {acc : List U8} {log : List Sent}
  {c c' c1 c2 : Connection P} {out out' : List Segment} {x : Segment}

/-! ## The loop of `flush_data` -/

/-- the segment ends inside both windows and is no longer than the MSS -/
structure WithinWindows (c : Connection P) (x : Segment) : Prop where
  windows : distance c.sendUna (x.seq + x.sequenceLen) ≤ min c.remoteWindow c.reno.window
  mss : x.payload.length ≤ c.mss

/-- a round of the loop -/
def FlushRound (nowMs : ℕ) (c c' : Connection P) : Prop :=
  0 < c.sendAllowance ∧ c.sendQueue ≠ [] ∧ c' = (c.sendQueued (min (min c.sendAllowance c.mss) c.sendQueue.length) nowMs).1

/-- what the loop and the FIN measure by stays as it is -/
structure SameWindows (c c' : Connection P) : Prop where
  una : c'.sendUna = c.sendUna
  remote : c'.remoteWindow = c.remoteWindow
  reno : c'.reno = c.reno
  mss : c'.mss = c.mss

theorem SameWindows.refl (c : Connection P) : SameWindows c c := ⟨rfl, rfl, rfl, rfl⟩

theorem SameWindows.trans (h1 : SameWindows c c1) (h2 : SameWindows c1 c2) : SameWindows c c2 :=
  ⟨h2.una.trans h1.una, h2.remote.trans h1.remote, h2.reno.trans h1.reno, h2.mss.trans h1.mss⟩

theorem SameWindows.within (h : SameWindows c c') : c'.WithinWindows x ↔ c.WithinWindows x :=
  ⟨fun ⟨h1, h2⟩ => ⟨by rw [← h.una, ← h.remote, ← h.reno]; exact h1, h.mss ▸ h2⟩,
    fun ⟨h1, h2⟩ => ⟨by rw [h.una, h.remote, h.reno]; exact h1, h.mss.symm ▸ h2⟩⟩

/-- what is sent next to the flight ends inside the allowance -/
theorem within_of_allowance {n : ℕ} (hwin : c.remoteWindow ≤ 65535) (h0 : 0 < n) (hn : n ≤ c.sendAllowance) (hseq : x.seq = c.sendNxt)
    (hlen : x.sequenceLen = asU32 n) (hmss : x.payload.length ≤ c.mss) : c.WithinWindows x := by
  unfold sendAllowance at hn
  have hend : x.seq + x.sequenceLen = pos c.sendUna (distance c.sendUna c.sendNxt + n) := by
    rw [hseq, hlen, ← pos_pos]
    exact congrArg (fun y => y + asU32 n) (pos_dist c.sendUna c.sendNxt).symm
  refine ⟨?_, hmss⟩
  rw [hend, distance_eq_dist, dist_base _ (by omega)]
  omega

theorem sendQueued_len (nowMs : ℕ) {count : ℕ} (hq : count ≤ c.sendQueue.length) : (c.sendQueued count nowMs).2.sequenceLen = asU32 count ∧
    (c.sendQueued count nowMs).2.payload.length = count := by
  have htake : (c.sendQueue.take count).length = count := by rw [List.length_take, min_eq_left hq]
  have hseg := segmentFor_sequenceLen (c.sendQueued count nowMs).1 ⟨c.sendNxt, Flags.ACK.union .PSH, c.sendQueue.take count, nowMs, 1⟩
  refine ⟨hseg.trans ?_, htake⟩
  simp only [TrackedSegment.piece, Piece.len, data_flags, Bool.toNat_false, Nat.add_zero, htake]

theorem flushLoop_within (nowMs fuel : ℕ) (hm : 0 < c.mss) (hwin : c.remoteWindow ≤ 65535) :
    SameWindows c (flushLoop nowMs fuel c).1 ∧ ∀ x ∈ (flushLoop nowMs fuel c).2, c.WithinWindows x := by
  induction fuel generalizing c with
  | zero => exact ⟨.refl c, List.forall_mem_nil _⟩
  | succ fuel ih =>
    simp only [flushLoop]
    split_ifs with h
    · exact ⟨.refl c, List.forall_mem_nil _⟩
    · obtain ⟨ha, hq⟩ := not_or.1 h
      have hlen := List.length_pos_of_ne_nil hq
      have hsame : SameWindows c (c.sendQueued (min (min c.sendAllowance c.mss) c.sendQueue.length) nowMs).1 := ⟨rfl, rfl, rfl, rfl⟩
      obtain ⟨hrest, hwithin⟩ := ih (c := (c.sendQueued (min (min c.sendAllowance c.mss) c.sendQueue.length) nowMs).1) hm hwin
      obtain ⟨hseq, hpayload⟩ := sendQueued_len (c := c) nowMs (min_le_right (min c.sendAllowance c.mss) c.sendQueue.length)
      refine ⟨hsame.trans hrest, fun x hx => ?_⟩
      rcases List.mem_cons.1 hx with rfl | hx
      · exact within_of_allowance hwin (by omega) (by omega) rfl hseq (by omega)
      · exact hsame.within.1 (hwithin x hx)

theorem flushFin_within (nowMs : ℕ) (hwin : c.remoteWindow ≤ 65535) :
    SameWindows c (c.flushFin nowMs).1 ∧ ∀ x ∈ (c.flushFin nowMs).2, c.WithinWindows x := by
  unfold flushFin
  split_ifs with h
  · refine ⟨⟨rfl, rfl, rfl, rfl⟩, fun x hx => ?_⟩
    rw [List.mem_singleton.1 hx]
    have hlen : (c.sendFin nowMs).2.sequenceLen = asU32 1 :=
      (segmentFor_sequenceLen (c.sendFin nowMs).1 ⟨c.sendNxt, Flags.FIN.union .ACK, [], nowMs, 1⟩).trans (by
        simp only [TrackedSegment.piece, Piece.len, fin_flags, Bool.toNat_false, Bool.toNat_true, List.length_nil, Nat.zero_add])
    exact within_of_allowance hwin Nat.one_pos h.2.2 rfl hlen (Nat.zero_le _)
  · exact ⟨.refl c, List.forall_mem_nil _⟩

/-- **What `flush_data` emits** lies inside the windows, which it leaves as they are. -/
theorem flushData_within (nowMs : ℕ) (hm : 0 < c.mss) (hwin : c.remoteWindow ≤ 65535) :
    SameWindows c (c.flushData nowMs).1 ∧ ∀ x ∈ (c.flushData nowMs).2, c.WithinWindows x := by
  unfold flushData
  split_ifs
  · obtain ⟨hloop, hwithin⟩ := flushLoop_within nowMs c.sendQueue.length hm hwin
    simp only
    generalize flushLoop nowMs c.sendQueue.length c = r at hloop hwithin ⊢
    obtain ⟨hfin, hlast⟩ := flushFin_within (c := r.1) nowMs (hloop.remote.symm ▸ hwin)
    refine ⟨hloop.trans hfin, fun x hx => ?_⟩
    rcases List.mem_append.1 hx with hx | hx
    · exact hwithin x hx
    · exact hloop.within.1 (hlast x hx)
  · exact ⟨.refl c, List.forall_mem_nil _⟩

/-- the loop runs through its rounds, and stops where no round is left -/
theorem flushLoop_rounds (nowMs fuel : ℕ) (hm : 0 < c.mss) (hf : c.sendQueue.length ≤ fuel) :
    Relation.ReflTransGen (FlushRound nowMs) c (flushLoop nowMs fuel c).1 ∧ ∀ c', ¬ FlushRound nowMs (flushLoop nowMs fuel c).1 c' := by
  refine ⟨?_, fun c' h => (flushLoop_done nowMs fuel hm hf).elim (Nat.pos_iff_ne_zero.1 h.1) h.2.1⟩
  clear hm hf
  induction fuel generalizing c with
  | zero => exact .refl
  | succ fuel ih =>
    simp only [flushLoop]
    split_ifs with h
    · exact .refl
    · obtain ⟨ha, hq⟩ := not_or.1 h
      exact .head ⟨Nat.pos_of_ne_zero ha, hq, rfl⟩ ih

/-- no run of rounds is endless: each takes from the queue -/
theorem flush_no_endless_loop (hm : 0 < c.mss) (f : ℕ → Connection P) (h0 : f 0 = c) : ¬ ∀ n, FlushRound nowMs (f n) (f (n + 1)) := by
  intro hf
  have hrun : ∀ n, (f n).mss = c.mss ∧ (f n).sendQueue.length + n ≤ c.sendQueue.length := fun n => by
    induction n with
    | zero => rw [h0]; exact ⟨rfl, le_rfl⟩
    | succ n ih =>
      obtain ⟨ha, hq, heq⟩ := hf n
      have hlen := List.length_pos_of_ne_nil hq
      obtain ⟨hmss, hle⟩ := ih
      rw [heq]
      refine ⟨hmss, ?_⟩
      simp only [sendQueued, sendTracked, List.length_drop]
      omega
  have := (hrun (c.sendQueue.length + 1)).2
  omega

/-! ## What was sent before -/

/-- nothing in flight was emitted before that holds a position of `x` -/
def FirstTime (isn : U32) (nowMs : ℕ) (log : List Sent) (x : Segment) : Prop := ¬ Repeats (tap isn nowMs log [x]) log.length

/-- what carries anything occupies sequence space -/
theorem Move.hasData_len (h : Move config nowMs inp c out c') (hs : c.SendInv config isn acc) :
    ∀ x ∈ out, x.HasData → x.sequenceLen ≠ 0 := by
  have hpos : ∀ {y : Segment} {n : ℕ}, y.sequenceLen = asU32 n → 0 < n → n ≤ 65535 → y.sequenceLen ≠ 0 := fun hlen h0 hn =>
    hlen ▸ asU32_ne_zero h0 hn
  have hack : ∀ c : Connection P, ∀ x ∈ [c.ackSegment], x.HasData → x.sequenceLen ≠ 0 := fun c x hx => by
    rw [List.mem_singleton.1 hx]
    exact fun hc => absurd hc (Segment.not_hasData rfl (by decide : Flags.ACK.contains .FIN = false))
  have hqueued : ∀ {count}, 0 < count → count ≤ c.sendQueue.length → count ≤ 65535 →
      ∀ x ∈ [(c.sendQueued count nowMs).2], x.HasData → x.sequenceLen ≠ 0 := fun h0 hq hn x hx _ => by
    rw [List.mem_singleton.1 hx]
    exact hpos (sendQueued_len nowMs hq).1 h0 hn
  cases h with
  | retransmit timeout =>
    rcases c.retransmitOldest_cases nowMs timeout with h | ⟨oldest, rest, _, _, hu, -, h⟩ <;> rw [h]
    · exact List.forall_mem_nil _
    · intro x hx _
      rw [List.mem_singleton.1 hx]
      have hroom : total (c.unacked.map TrackedSegment.piece) ≤ 65535 := hs.sender.room
      have h0 := hs.len_pos (x := oldest) (by rw [hu]; exact List.mem_cons_self)
      rw [hu, List.map_cons, total_cons] at hroom
      exact hpos (segmentFor_sequenceLen c oldest) h0 (by omega)
  | receive => exact hack _
  | sendData count hst h0 hallow hmss hq =>
    have hwin := hs.window
    unfold sendAllowance at hallow
    exact hqueued h0 hq (by omega)
  | sendFin =>
    intro x hx _
    rw [List.mem_singleton.1 hx]
    refine hpos (n := 1) ?_ Nat.one_pos (by norm_num)
    refine (segmentFor_sequenceLen (c.sendFin nowMs).1 ⟨c.sendNxt, Flags.FIN.union .ACK, [], nowMs, 1⟩).trans ?_
    simp only [TrackedSegment.piece, Piece.len, fin_flags, Bool.toNat_false, Bool.toNat_true, List.length_nil, Nat.zero_add]
  | probe =>
    rcases c.zeroWindowProbe_cases nowMs with ⟨y, -, hp, h⟩ | ⟨-, ⟨-, h⟩ | ⟨hq, h⟩⟩ <;> rw [h]
    · intro x hx _
      rw [List.mem_singleton.1 hx]
      have hlen : (y.payload.take 1).length = 1 := by
        rw [List.length_take, min_eq_left (List.length_pos_of_ne_nil hp)]
      refine hpos (n := 1) ?_ Nat.one_pos (by norm_num)
      have hseg := segmentFor_sequenceLen c ⟨y.seq, Flags.ACK.union .PSH, y.payload.take 1, nowMs, 1⟩
      refine hseg.trans ?_
      simp only [TrackedSegment.piece, Piece.len, data_flags, Bool.toNat_false, Nat.add_zero, hlen]
    · exact List.forall_mem_nil _
    · exact hqueued Nat.one_pos (List.length_pos_of_ne_nil hq) (by norm_num)
  | ack => exact hack c
  | reset segment =>
    intro x hx
    rw [List.mem_singleton.1 hx]
    exact fun hc => absurd hc (resetFor_hasData segment)
  | _ => exact List.forall_mem_nil _

theorem Moves.hasData_len (h : Moves config nowMs inp c out c') (hs : c.SendInv config isn acc) :
    ∀ x ∈ out, x.HasData → x.sequenceLen ≠ 0 := by
  have hrun := h.history (Q := fun sent c => c.SendInv config isn acc ∧ ∀ x ∈ sent, x.HasData → x.sequenceLen ≠ 0)
    (fun hm ⟨h1, h2⟩ => ⟨hm.sendInv h1, fun x hx => (List.mem_append.1 hx).elim (h2 x) (hm.hasData_len h1 x)⟩) []
    ⟨hs, List.forall_mem_nil _⟩
  exact hrun.2

theorem tap_covered (h : Covered log) (isn : U32) (nowMs : ℕ) (out : List Segment) : Covered (tap isn nowMs log out) := by
  unfold tap
  generalize out.filter (fun x => decide (x.sequenceLen ≠ 0)) = l
  induction l generalizing log with
  | nil => exact h
  | cons x l ih => exact ih (h.record isn nowMs x.seq x.sequenceLen.toNat)

theorem tap_high_le (isn : U32) (nowMs : ℕ) (log : List Sent) (out : List Segment) : high log ≤ high (tap isn nowMs log out) := by
  unfold tap
  generalize out.filter (fun x => decide (x.sequenceLen ≠ 0)) = l
  induction l generalizing log with
  | nil => exact le_rfl
  | cons x l ih =>
    refine le_trans ?_ (ih _)
    change high log ≤ high (log ++ [_])
    rw [high_snoc]
    exact le_max_left _ _

/-- what is emitted for the first time lies beyond everything emitted before -/
theorem FirstTime.lt_high (h : FirstTime isn nowMs log x) (hc : Covered log) (hlen : x.sequenceLen ≠ 0) :
    high log < high (tap isn nowMs log [x]) := by
  have htap : tap isn nowMs log [x] = log ++ [⟨place isn (high log) x.seq, x.sequenceLen.toNat, nowMs⟩] := by
    rw [tap, List.filter_singleton, decide_eq_true hlen]
    rfl
  have hpos : 0 < x.sequenceLen.toNat := Nat.pos_of_ne_zero fun h0 => hlen (BitVec.eq_of_toNat_eq h0)
  rw [FirstTime, htap] at h
  have hstart := hc.first (t := ⟨place isn (high log) x.seq, x.sequenceLen.toNat, nowMs⟩) hpos h
  rw [htap, high_snoc]
  simp only at hstart ⊢
  omega

/-- `out` is emitted, and nothing was sent that was not sent before -/
structure Old (config : Config) (nowMs : ℕ) (inp : Option Segment) (acc : List U8) (c : Connection P) (out : List Segment)
    (c' : Connection P) : Prop where
  moves : Moves config nowMs inp c out c'
  nxt : c'.sender.nxtPos acc = c.sender.nxtPos acc

theorem Old.refl (c : Connection P) : Old config nowMs inp acc c [] c := ⟨.refl c, rfl⟩

theorem Old.trans (h1 : Old config nowMs inp acc c out c1) (h2 : Old config nowMs inp acc c1 out' c2) :
    Old config nowMs inp acc c (out ++ out') c2 := ⟨h1.moves.trans h2.moves, h2.nxt.trans h1.nxt⟩

theorem Old.of_sender (h : Moves config nowMs inp c out c') (hs : c'.sender = c.sender) : Old config nowMs inp acc c out c' :=
  ⟨h, by rw [hs]⟩

/-- **Nothing of it is emitted for the first time.** -/
theorem Old.not_first (h : Old config nowMs inp acc c out c') (hs : c.SendInv config isn acc) (hk : c.Karn isn acc log)
    {pre post : List Segment} (hout : out = pre ++ x :: post) (hx : x.HasData) :
    ¬ FirstTime isn nowMs (tap isn nowMs log pre) x := by
  intro hfirst
  have hlen := h.moves.hasData_len hs x (by rw [hout]; simp) hx
  have hhigh : high (tap isn nowMs log out) = high log := by rw [(h.moves.karn hs hk).high, hk.high, h.nxt]
  have hgrows := hfirst.lt_high (tap_covered hk.covered isn nowMs pre) hlen
  have hpre := tap_high_le isn nowMs log pre
  have hpost := tap_high_le isn nowMs (tap isn nowMs log (pre ++ [x])) post
  rw [← tap_append, List.append_assoc, List.singleton_append, ← hout, hhigh, tap_append] at hpost
  omega

/-! ## Every operation -/

/-- nothing new is emitted, or after what is not new a flush -/
inductive Sends (config : Config) (nowMs : ℕ) (inp : Option Segment) (acc : List U8) (c : Connection P) : List Segment → Connection P → Prop
  | old {out : List Segment} {c' : Connection P} (h : Old config nowMs inp acc c out c') : Sends config nowMs inp acc c out c'
  | flush {out : List Segment} {c1 : Connection P} (h : Old config nowMs inp acc c out c1) :
      Sends config nowMs inp acc c (out ++ (c1.flushData nowMs).2) (c1.flushData nowMs).1

theorem Old.sends (h : Old config nowMs inp acc c out c1) (hs : Sends config nowMs inp acc c1 out' c2) :
    Sends config nowMs inp acc c (out ++ out') c2 := by
  cases hs with
  | old h2 => exact .old (h.trans h2)
  | flush h2 =>
    rw [← List.append_assoc]
    exact .flush (h.trans h2)

theorem repeatAck_sender (nowMs : ℕ) (duplicate : Bool) : (c.repeatAck nowMs duplicate).1.sender = c.sender := by
  unfold repeatAck
  simp only
  split_ifs
  · exact retransmitOldest_sender _ nowMs false
  · rfl
  · rfl

theorem repairTimedOutFlight_sender (nowMs : ℕ) (config : Config) : (c.repairTimedOutFlight nowMs config).1.sender = c.sender := by
  unfold repairTimedOutFlight
  split
  · split_ifs
    · rfl
    · exact retransmitOldest_sender _ nowMs false
  · rfl

theorem AckResult.old {segment : Segment} {ack : U32} (hs : c.SendInv config isn acc) (hst : c.Synchronized)
    (hrst : segment.flags.contains .RST = false) (hack : segment.ack = some ack)
    (h : AckResult c segment ack nowMs config (c1, false, out)) : Old config nowMs (some segment) acc c out c1 := by
  have hwindow : ∀ c : Connection P, c.Synchronized → Old config nowMs (some segment) acc c [] (c.windowOf segment ack nowMs) :=
    fun c hst => .of_sender (window_moves config nowMs segment ack hst) (windowOf_frame nowMs segment ack).1
  generalize hresult : (c1, false, out) = result at h
  cases h with
  | outside =>
    cases hresult
    exact .refl c
  | repeated duplicate =>
    cases hresult
    obtain ⟨hmoves, -, -, hstate, -⟩ := repeatAck_moves config nowMs (c := c) (some segment) duplicate
    have hrepeat : Old config nowMs (some segment) acc c _ _ := .of_sender hmoves (repeatAck_sender nowMs duplicate)
    have hlast := hrepeat.trans (hwindow _ (by rw [Synchronized, hstate]; exact hst))
    rwa [List.append_nil] at hlast
  | removed => cases hresult
  | advanced c2 hadv hc2 =>
    cases hresult
    have hsend := (afterAck_sender hs.sender (by norm_num) hst hadv nowMs config).2 c2 hc2
    have hafter : Old config nowMs (some segment) acc c [] c2 :=
      ⟨(Move.advanceAck c c2 segment ack rfl hrst hack hst hadv hc2).one, by rw [hsend]; exact Sender.nxtPos_ack acc _ ack⟩
    have hst2 := afterAck_synchronized config nowMs hst hc2
    exact (hafter.trans (hwindow c2 hst2)).trans
      (.of_sender (repairTimedOutFlight_moves config nowMs (some segment)).1 (repairTimedOutFlight_sender nowMs config))

theorem receive_flush_sends {segment : Segment} (hst : c.Synchronized) (hrst : segment.flags.contains .RST = false) :
    Sends config nowMs (some segment) acc c
      ((c.receiveIfData segment nowMs config).2 ++ ((c.receiveIfData segment nowMs config).1.flushData nowMs).2)
      ((c.receiveIfData segment nowMs config).1.flushData nowMs).1 := by
  refine .flush ⟨(receiveIfData_moves config nowMs (some segment) rfl hrst hst).1, ?_⟩
  unfold receiveIfData
  split_ifs
  · rw [receiveStreamData_sender]
  · rfl

theorem flush_sends (nowMs : ℕ) : Sends config nowMs inp acc c (c.flushData nowMs).2 (c.flushData nowMs).1 := .flush (.refl c)

/-- **A segment.** -/
theorem input_sends (hs : c.SendInv config isn acc) (segment : Segment) (hopen : (c.input segment nowMs config).2.closed = false) :
    Sends config nowMs (some segment) acc c (c.input segment nowMs config).2.segments (c.input segment nowMs config).1 := by
  have hmoves := (input_moves config nowMs (c := c) segment hs.mss).1 hopen
  unfold input at hopen hmoves ⊢
  split_ifs at hopen hmoves ⊢ with h1 h2
  · exact .old (.of_sender hmoves rfl)
  · exact .old (.of_sender hmoves rfl)
  · unfold onSegment at hopen hmoves ⊢
    split_ifs at hopen hmoves ⊢ with hrst
    · exact .old (.of_sender hmoves rfl)
    · have hrst' : segment.flags.contains .RST = false := by simpa using hrst
      split at hopen
      · rename_i hst
        simp only [hst] at hmoves ⊢
        unfold onSynSent at hmoves ⊢
        split_ifs at hmoves ⊢
        · refine .old ⟨hmoves, ?_⟩
          rw [establishClient_sender hs.sender (by norm_num) hst segment nowMs config]
          exact Sender.nxtPos_ack acc _ _
        · exact .old (.of_sender hmoves rfl)
      · rename_i hst
        simp only [hst] at hmoves ⊢
        unfold onSynReceived at hmoves ⊢
        split_ifs at hmoves ⊢ with h3 h4
        · exact .old (.of_sender hmoves (c.retransmitOldest_sender nowMs false))
        · exact .old (.of_sender hmoves rfl)
        · have hack : segment.ack = some c.sendNxt := not_not.1 h4
          have hest : Old config nowMs (some segment) acc c [] (c.establishServer segment nowMs) := by
            refine ⟨(Move.establishServer c segment rfl hst hrst' hack).one, ?_⟩
            rw [establishServer_sender hs.sender (by norm_num) hst segment nowMs]
            exact Sender.nxtPos_ack acc _ _
          exact hest.sends (receive_flush_sends ⟨by simp [establishServer], by simp [establishServer]⟩ hrst')
      · rename_i hn1 hn2
        obtain ⟨c1, out, hack, hst1, -, heq⟩ := onSynchronized_parts config nowMs ⟨hn1, hn2⟩ hrst' hopen
        have hfirst : Old config nowMs (some segment) acc c out c1 := by
          rcases hack with ⟨-, rfl, rfl⟩ | ⟨ack, hack, hcases⟩
          · exact .refl _
          · exact hcases.old hs ⟨hn1, hn2⟩ hrst' hack
        rw [heq]
        exact hfirst.sends (receive_flush_sends hst1 hrst')

/-- the probe of a closed window by a byte that was not sent before -/
structure NewProbe (c : Connection P) (x : Segment) (c' : Connection P) : Prop where
  closed : c.remoteWindow = 0
  still : c'.remoteWindow = 0
  alone : ∀ y ∈ c.unacked, y.payload = []
  byte : x.payload.length = 1
  sender : c'.sender = c.sender.push 1
  queued : c.sendQueue ≠ []

/-- **A poll.** -/
theorem poll_sends (acc : List U8) (nowMs : ℕ) (hm : 0 < c.mss) :
    Sends config nowMs none acc c (c.poll nowMs config).2.segments (c.poll nowMs config).1 ∨
      ∃ x, (c.poll nowMs config).2.segments = [x] ∧ c.NewProbe x (c.poll nowMs config).1 := by
  have hmoves := (poll_moves config nowMs (c := c) hm).1
  unfold poll at hmoves ⊢
  split_ifs at hmoves ⊢ with h1 h2
  · exact .inl (.old (.refl c))
  · unfold pollZeroWindow at hmoves ⊢
    simp only at hmoves ⊢
    split_ifs at hmoves ⊢
    · exact .inl (.old (.of_sender hmoves rfl))
    · rcases zeroWindowProbe_cases { c with
        nextZeroWindowProbeMs := some (c.nextZeroWindowProbeMs.getD (satAdd nowMs config.initialRtoMs)) } nowMs with
        ⟨x, -, -, heq⟩ | ⟨hno, ⟨-, heq⟩ | ⟨hq, heq⟩⟩ <;> rw [heq] at hmoves ⊢
      · exact .inl (.old (.of_sender hmoves rfl))
      · exact .inl (.old (.of_sender hmoves rfl))
      · refine .inr ⟨_, rfl, h2.1, h2.1, hno, ?_, sendQueued_sender c 1 nowMs, hq⟩
        exact (sendQueued_len (c := c) nowMs (List.length_pos_of_ne_nil hq)).2
    · exact .inl (.old (.of_sender hmoves rfl))
  · left
    split
    · split_ifs
      · exact .old (.refl c)
      · unfold pollTimeout
        simp only
        generalize hc1 : ({ c with
          rtoRecoveryUntil := some (c.rtoRecoveryUntil.getD c.sendNxt)
          reno := c.reno.onTimeout (distance c.sendUna c.sendNxt)
          rtt := c.rtt.onTimeout } : Connection P) = c1
        have htimer : Moves config nowMs none c [] c1 := by
          rw [← hc1]
          exact Moves.timers _ _ _ _ _ _ rfl (.inr rfl) (by simp) id
        have hfirst : Old config nowMs none acc c [] c1 := .of_sender htimer (by rw [← hc1]; rfl)
        exact (hfirst.trans (.of_sender (Move.retransmit c1 true).one (c1.retransmitOldest_sender nowMs true))).sends (flush_sends nowMs)
      · exact flush_sends nowMs
    · exact flush_sends nowMs

/-- **What an operation emits for the first time** lies inside the windows it leaves. -/
theorem Sends.within (h : Sends config nowMs inp acc c out c') (hs : c.SendInv config isn acc) (hk : c.Karn isn acc log)
    {pre post : List Segment} (hout : out = pre ++ x :: post) (hx : x.HasData)
    (hfirst : FirstTime isn nowMs (tap isn nowMs log pre) x) : c'.WithinWindows x := by
  cases h with
  | old h => exact absurd hfirst (h.not_first hs hk hout hx)
  | @flush out1 c1 h =>
    have hs1 := hs.moves h.moves
    obtain ⟨hsame, hwithin⟩ := flushData_within nowMs hs1.mss hs1.window
    refine hsame.within.2 (hwithin x ?_)
    rcases List.append_eq_append_iff.1 hout with ⟨more, hpre, hmore⟩ | ⟨more, hout1, hmore⟩
    · rw [hmore]
      simp
    · cases more with
      | nil =>
        rw [List.nil_append] at hmore
        rw [← hmore]
        exact List.mem_cons_self
      | cons y more =>
        obtain ⟨rfl, rfl⟩ := List.cons.inj hmore
        exact absurd hfirst (h.not_first hs hk hout1 hx)

/-! ## Probes of a closed window -/

/-- what no segment caused leaves the peer's window as it is -/
theorem Move.window_eq (h : Move config nowMs none c out c') : c'.remoteWindow = c.remoteWindow := by
  cases h with
  | retransmit timeout => exact (c.retransmitOldest_frame nowMs timeout).2.2.2.2
  | probe =>
    rcases c.zeroWindowProbe_cases nowMs with ⟨y, -, -, h⟩ | ⟨-, ⟨-, h⟩ | ⟨-, h⟩⟩ <;> rw [h]
    rfl
  | timers | sendData | sendFin | ack | requestClose => rfl
  | _ => contradiction

theorem Moves.window_eq (h : Moves config nowMs none c out c') : c'.remoteWindow = c.remoteWindow := by
  generalize hinp : (none : Option Segment) = inp at h
  induction h with
  | refl c => rfl
  | cons h _ ih => exact ih.trans (Move.window_eq (hinp ▸ h))

/-- into a closed window only a probe sends what is new -/
theorem poll_into_closed (acc : List U8) (nowMs : ℕ) (hm : 0 < c.mss) (hwin : c.remoteWindow = 0) :
    (c.poll nowMs config).1.sender.nxtPos acc = c.sender.nxtPos acc ∨
      ∃ x, (c.poll nowMs config).2.segments = [x] ∧ c.NewProbe x (c.poll nowMs config).1 := by
  refine (poll_sends acc nowMs hm).imp_left fun h => ?_
  generalize (c.poll nowMs config).2.segments = out at h
  generalize (c.poll nowMs config).1 = c' at h
  cases h with
  | old h => exact h.nxt
  | @flush out1 c1 h =>
    rw [(settled_of_window (h.moves.window_eq.trans hwin)).flushData nowMs]
    exact h.nxt

theorem Moves.positions (h : Moves config nowMs inp c out c') (hs : c.SendInv config isn acc) :
    c.sender.nxtPos acc ≤ c'.sender.nxtPos acc ∧ c.sender.unaPos acc ≤ c'.sender.unaPos acc := by
  refine (h.preserves (Q := fun c' => c'.SendInv config isn acc ∧ c.sender.nxtPos acc ≤ c'.sender.nxtPos acc ∧
    c.sender.unaPos acc ≤ c'.sender.unaPos acc) (fun {c1 _ c2} hm hc => ?_) ⟨hs, le_rfl, le_rfl⟩).2
  obtain ⟨h1, h2, h3⟩ := hc
  have hstep := hm.sender_step h1
  refine ⟨hm.sendInv h1, h2.trans (hstep.mono h1.sender).1, h3.trans ?_⟩
  rcases hstep.advance h1.sender with ⟨-, h⟩ | ⟨-, h⟩ <;> omega

/-- with something queued and no payload in flight, nothing is in flight -/
theorem NewProbe.idle (h : c.NewProbe x c') (hs : c.SendInv config isn acc) : c.sender.nxtPos acc = c.sender.unaPos acc := by
  have hrun : c.sender.phase = .running := by
    by_contra hp
    exact h.queued (hs.sender.idle hp).1
  have hshape := hs.sender.shape
  rw [hrun] at hshape
  have hnil : c.sender.flight = [] := by
    refine List.eq_nil_iff_forall_not_mem.2 fun y hy => (hshape y hy).payload ?_
    obtain ⟨z, hz, rfl⟩ := List.mem_map.1 hy
    exact h.alone z hz
  have htotal := hs.flight.1
  rw [show c.unacked.map TrackedSegment.piece = [] from hnil, total_nil, Nat.add_zero] at htotal
  exact htotal.symm

end Connection

namespace Socket

open Connection

variable {P : Type} {config : Config} {s : Socket P}

/-- **One operation.** -/
theorem step_sends {isn : U32} (hret : s.retained = true) (hs : s.conn.SendInv config isn s.accepted) (op : SocketOp)
    (hr : (s.step config op).retained = true) :
    ∃ c out, Prepared config s.conn s.accepted c (s.step config op).accepted ∧ (s.step config op).sent = s.sent ++ out ∧
      (Sends config op.time op.segment (s.step config op).accepted c out (s.step config op).conn ∨
        (∃ nowMs, op = .poll nowMs) ∧ ∃ x, out = [x] ∧ s.conn.NewProbe x (s.step config op).conn) := by
  have hm := hs.mss
  cases op with
  | input segment nowMs =>
    simp only [step, onInput, hret, if_true] at hr ⊢
    have hopen : (s.conn.input segment nowMs config).2.closed = false := by simpa using hr
    exact ⟨_, _, .none, rfl, .inl (input_sends hs segment hopen)⟩
  | write bytes nowMs =>
    simp only [step, onWrite, hret, if_true]
    rcases hw : s.conn.write bytes nowMs config with _ | ⟨conn, count, out⟩
    · exact ⟨_, [], .none, (List.append_nil _).symm, .inl (.old (.refl _))⟩
    · obtain ⟨hst, hclose, -, hroom, -⟩ := write_moves config nowMs hm hw
      refine ⟨_, _, .accept _ hst hclose (by rw [List.length_take]; omega), rfl, .inl ?_⟩
      unfold write at hw
      split_ifs at hw
      simp only [Except.ok.injEq, Prod.mk.injEq] at hw
      obtain ⟨rfl, rfl, rfl⟩ := hw
      have hlen : (bytes.take (min bytes.length (config.sendBuffer - s.conn.buffered))).length =
          min bytes.length (config.sendBuffer - s.conn.buffered) := by rw [List.length_take]; omega
      have haccept : s.conn.acceptBytes (bytes.take (min bytes.length (config.sendBuffer - s.conn.buffered))) = { s.conn with
          sendQueue := s.conn.sendQueue ++ bytes.take (min bytes.length (config.sendBuffer - s.conn.buffered))
          sendProgress := s.conn.sendProgress.accept (min bytes.length (config.sendBuffer - s.conn.buffered)) } := by
        rw [acceptBytes, hlen]
      rw [buffered] at haccept
      rw [haccept]
      exact flush_sends nowMs
  | read max =>
    simp only [step, onRead, hret, if_true]
    refine ⟨_, _, .consume _, rfl, .inl (.old (.of_sender (read_moves config 0 max).2 rfl))⟩
  | close nowMs =>
    simp only [step, onUpdate, hret, if_true]
    refine ⟨_, _, .none, rfl, .inl ?_⟩
    have hrequest : s.conn.Sending → Old config nowMs none s.accepted s.conn [] { s.conn with closeRequested := true } := fun hst =>
      ⟨(Move.requestClose s.conn hst).one, rfl⟩
    unfold close
    split
    · rename_i hst
      exact (hrequest (.inl hst)).sends (flush_sends nowMs)
    · rename_i hst
      exact (hrequest (.inr hst)).sends (flush_sends nowMs)
    all_goals exact .old (.refl _)
  | abort => simp only [step, onAbort, hret, if_true, Bool.false_eq_true] at hr
  | poll nowMs =>
    simp only [step, onUpdate, hret, if_true]
    exact ⟨_, _, .none, rfl, (poll_sends _ nowMs hm).imp_right fun h => ⟨⟨nowMs, rfl⟩, h⟩⟩

/-- what is emitted when the connection is gone, or goes, carries nothing -/
theorem step_gone (hm : s.retained = true → 0 < s.conn.mss) (op : SocketOp) (hr : (s.step config op).retained = false) :
    ∃ out, (s.step config op).sent = s.sent ++ out ∧ ∀ x ∈ out, ¬ x.HasData := by
  have hnone : ∀ {t : Socket P}, t.sent = s.sent → ∃ out, t.sent = s.sent ++ out ∧ ∀ x ∈ out, ¬ x.HasData := fun h =>
    ⟨[], by rw [h, List.append_nil], List.forall_mem_nil _⟩
  cases hret : s.retained with
  | false =>
    cases op with
    | input segment nowMs =>
      simp only [step, onInput, hret, Bool.false_eq_true, if_false]
      split_ifs
      · exact hnone rfl
      · exact ⟨_, rfl, fun x hx => List.mem_singleton.1 hx ▸ resetFor_hasData segment⟩
    | write | read | close | abort | poll => exact hnone (by simp [step, onWrite, onRead, onUpdate, onAbort, hret])
  | true =>
    have hmss := hm hret
    cases op with
    | input segment nowMs =>
      have hcl : (s.conn.input segment nowMs config).2.closed = true := by simpa [step, onInput, hret] using hr
      exact hnone (by simp [step, onInput, hret, ((input_moves config nowMs segment hmss).2 hcl).1])
    | write bytes nowMs =>
      simp only [step, onWrite, hret, if_true] at hr
      split at hr
      · rw [hret] at hr; cases hr
      · cases hr
    | read max =>
      simp only [step, onRead, hret, if_true] at hr
      cases hr
    | close nowMs =>
      have hcl : (s.conn.close nowMs).2.closed = true := by simpa [step, onUpdate, hret] using hr
      exact hnone (by simp [step, onUpdate, hret, ((close_moves config nowMs hmss).2 hcl).1])
    | abort =>
      refine ⟨[s.conn.resetSegment], by simp [step, onAbort, hret], fun x hx => ?_⟩
      rw [List.mem_singleton.1 hx]
      exact Segment.not_hasData rfl (by decide : Flags.RST.contains .FIN = false)
    | poll nowMs =>
      have hcl : (s.conn.poll nowMs config).2.closed = true := by simpa [step, onUpdate, hret] using hr
      exact hnone (by simp [step, onUpdate, hret, (poll_moves config nowMs hmss).2 hcl])

end Socket

/-! ## Over a run -/

/-- a socket, and the positions of the bytes that were sent to probe a closed window, and not before -/
structure Probed (P : Type) where
  socket : Socket P
  probed : List ℕ
deriving DecidableEq, Repr

namespace Probed

open Connection

variable {P : Type} {config : Config} {isn : U32} {l : Probed P}

/-- a poll into a closed window has sent what is new -/
def probes (config : Config) (s : Socket P) : SocketOp → Bool
  | .poll nowMs => s.retained && decide (s.conn.remoteWindow = 0) && decide ((s.step config (.poll nowMs)).conn.sendNxt ≠ s.conn.sendNxt)
  | _ => false

def step (config : Config) (l : Probed P) (op : SocketOp) : Probed P :=
  ⟨l.socket.step config op,
    if probes config l.socket op then l.probed ++ [l.socket.conn.position l.socket.conn.sendNxt] else l.probed⟩

abbrev run (config : Config) (o : Opening P) (ops : List SocketOp) : Probed P :=
  Run.exec (step config) ⟨o.socket config, []⟩ ops

/-- the probes that are not acknowledged -/
def outstanding (l : Probed P) : List ℕ := l.probed.filter fun p => decide (l.socket.conn.unaPosition ≤ p)

/-- noting the probes does nothing to the socket -/
theorem run_socket (config : Config) (o : Opening P) (ops : List SocketOp) : (run config o ops).socket = Socket.run config o ops :=
  Run.exec_map Probed.socket (fun _ _ => rfl) _ ops

structure Inv (config : Config) (isn : U32) (l : Probed P) : Prop where
  send : l.socket.conn.SendInv config isn l.socket.accepted
  sent : ∀ p ∈ l.probed, p < l.socket.conn.sender.nxtPos l.socket.accepted
  one : l.outstanding.length ≤ 1

/-- what was probed stays probed while the flight moves on -/
theorem Inv.forward {s : Socket P} (h : l.Inv config isn) (hs : s.conn.SendInv config isn s.accepted)
    (hn : l.socket.conn.sender.nxtPos l.socket.accepted ≤ s.conn.sender.nxtPos s.accepted)
    (hu : l.socket.conn.sender.unaPos l.socket.accepted ≤ s.conn.sender.unaPos s.accepted) : Inv config isn ⟨s, l.probed⟩ := by
  refine ⟨hs, fun p hp => (h.sent p hp).trans_le hn, le_trans (List.Sublist.length_le ?_) h.one⟩
  refine List.monotone_filter_right l.probed fun p hp => ?_
  rw [decide_eq_true_eq, hs.unaPosition_eq] at hp
  rw [decide_eq_true_eq, h.send.unaPosition_eq]
  omega

/-- **Preservation, one operation.** -/
theorem inv_step (h : l.socket.retained = true → l.Inv config isn) (op : SocketOp) (hr : (l.step config op).socket.retained = true) :
    (l.step config op).Inv config isn := by
  have hr' : (l.socket.step config op).retained = true := hr
  have hret := Socket.retained_before hr'
  have hi := h hret
  obtain ⟨c, out, hprep, -, hmoves⟩ := Socket.step_moves hi.send.mss hret op hr'
  have hready : c.SendInv config isn (l.socket.step config op).accepted ∧
      c.sender.nxtPos (l.socket.step config op).accepted = l.socket.conn.sender.nxtPos l.socket.accepted ∧
      c.sender.unaPos (l.socket.step config op).accepted = l.socket.conn.sender.unaPos l.socket.accepted := by
    generalize (l.socket.step config op).accepted = acc at hprep
    cases hprep with
    | none => exact ⟨hi.send, rfl, rfl⟩
    | accept bytes hst hclose hroom => exact ⟨hi.send.accept hst hroom, hi.send.sender.pos_accept bytes⟩
    | consume count => exact ⟨⟨hi.send.sender, hi.send.window, hi.send.mss, hi.send.buffer⟩, rfl, rfl⟩
  obtain ⟨hs, hn, hu⟩ := hready
  have hs' := hs.moves hmoves
  have hpositions := hmoves.positions hs
  rw [hn, hu] at hpositions
  have hforward := hi.forward hs' hpositions.1 hpositions.2
  by_cases hprobe : probes config l.socket op = true
  · have hstep : l.step config op = ⟨l.socket.step config op, l.probed ++ [l.socket.conn.position l.socket.conn.sendNxt]⟩ := by
      rw [step, if_pos hprobe]
    cases op with
    | poll nowMs =>
      simp only [probes, Bool.and_eq_true, decide_eq_true_eq] at hprobe
      obtain ⟨⟨-, hwin⟩, hmoved⟩ := hprobe
      have hconn : (l.socket.step config (.poll nowMs)).conn = (l.socket.conn.poll nowMs config).1 := by
        simp [Socket.step, Socket.onUpdate, hret]
      have hacc : (l.socket.step config (.poll nowMs)).accepted = l.socket.accepted := by
        simp [Socket.step, Socket.onUpdate, hret]
      rw [hconn] at hmoved
      rw [hconn, hacc] at hs'
      have hnew : ∃ x, (l.socket.conn.poll nowMs config).2.segments = [x] ∧
          l.socket.conn.NewProbe x (l.socket.conn.poll nowMs config).1 := by
        refine (poll_into_closed l.socket.accepted nowMs hi.send.mss hwin).resolve_left fun hsame => hmoved ?_
        have h1 : (l.socket.conn.poll nowMs config).1.sendNxt = _ := hs'.sender.nxt
        have h2 : l.socket.conn.sendNxt = _ := hi.send.sender.nxt
        rw [h1, h2]
        exact congrArg (pos isn) hsame
      obtain ⟨x, -, hnew⟩ := hnew
      -- nothing is in flight, so no earlier probe is
      have hidle := hnew.idle hi.send
      have hpos : l.socket.conn.position l.socket.conn.sendNxt = l.socket.conn.sender.nxtPos l.socket.accepted := by
        have h2 : l.socket.conn.sendNxt = _ := hi.send.sender.nxt
        rw [h2]
        exact hi.send.position_eq hidle.ge le_rfl
      have hgrown : (l.socket.conn.poll nowMs config).1.sender.nxtPos l.socket.accepted =
          l.socket.conn.sender.nxtPos l.socket.accepted + 1 := by
        rw [hnew.sender]
        exact hi.send.sender.nxtPos_push (List.length_pos_of_ne_nil hnew.queued)
      rw [hstep]
      refine ⟨hforward.send, fun p hp => ?_, ?_⟩
      · change p < (l.socket.step config (.poll nowMs)).conn.sender.nxtPos (l.socket.step config (.poll nowMs)).accepted
        rw [hconn, hacc, hgrown]
        rcases List.mem_append.1 hp with hp | hp
        · have := hi.sent p hp
          omega
        · rw [List.mem_singleton.1 hp, hpos]
          omega
      · have hbefore : l.probed.filter (fun p => decide ((l.socket.step config (.poll nowMs)).conn.unaPosition ≤ p)) = [] := by
          refine List.filter_eq_nil_iff.2 fun p hp => ?_
          have hlt := hi.sent p hp
          have hle := hpositions.2
          have huna : (l.socket.step config (.poll nowMs)).conn.unaPosition =
            (l.socket.step config (.poll nowMs)).conn.sender.unaPos (l.socket.step config (.poll nowMs)).accepted :=
              hforward.send.unaPosition_eq
          rw [decide_eq_true_eq]
          omega
        rw [outstanding, List.filter_append, hbefore, List.nil_append]
        exact List.length_filter_le _ _
    | input | write | read | close | abort => cases hprobe
  · have hstep : l.step config op = ⟨l.socket.step config op, l.probed⟩ := by rw [step, if_neg hprobe]
    rw [hstep]
    exact hforward

theorem inv_run (o : Opening P) (hv : config.Valid) (ops : List SocketOp) (hr : (run config o ops).socket.retained = true) :
    (run config o ops).Inv config o.isn :=
  Run.exec_invariant (P := fun l : Probed P => l.socket.retained = true → l.Inv config o.isn) (fun _ op h => inv_step h op)
    (fun _ => ⟨o.sendInv hv, List.forall_mem_nil _, Nat.zero_le _⟩) ops hr

end Probed

/-- **New data stays inside the windows**, in every run against any peer.
- A segment with payload or a FIN that an operation emits for the first time ends inside the peer's window and the congestion
  window and is no longer than the MSS, or a poll emits it as a byte that probes a closed window with no payload in flight.
- Of the bytes that were sent to probe, at most one is not acknowledged.
- The loop of `flush_data` stops, and leaves nothing that could be sent. -/
theorem new_data_within_windows {P : Type} (config : ValidConfig) (o : Opening P) (ops : List SocketOp) :
    (∀ op pre x post, let l := Tapped.run config.1 o ops
      (l.step config.1 o.isn op).socket.sent = l.socket.sent ++ (pre ++ x :: post) → x.HasData →
        Connection.FirstTime o.isn op.time (Connection.tap o.isn op.time l.log pre) x →
        (l.step config.1 o.isn op).socket.conn.WithinWindows x ∨
          (∃ nowMs, op = .poll nowMs) ∧ l.socket.conn.NewProbe x (l.step config.1 o.isn op).socket.conn) ∧
      ((Socket.run config.1 o ops).retained = true →
        0 < (Socket.run config.1 o ops).conn.mss ∧ (Probed.run config.1 o ops).outstanding.length ≤ 1) ∧
      ∀ (c : Connection P) nowMs, 0 < c.mss →
        (∀ f : ℕ → Connection P, f 0 = c → ¬ ∀ n, Connection.FlushRound nowMs (f n) (f (n + 1))) ∧
        Relation.ReflTransGen (Connection.FlushRound nowMs) c (Connection.flushLoop nowMs c.sendQueue.length c).1 ∧
        (∀ c', ¬ Connection.FlushRound nowMs (Connection.flushLoop nowMs c.sendQueue.length c).1 c') ∧
        (c.flushData nowMs).1.Settled := by
  have hv := config.valid
  refine ⟨fun op pre x post hsent hx hfirst => ?_, fun hr => ?_, fun c nowMs hm => ?_⟩
  · have hi := Tapped.inv_run o hv ops
    generalize Tapped.run config.1 o ops = l at hi hsent hfirst ⊢
    change (l.socket.step config.1 op).sent = _ at hsent
    cases hr : (l.socket.step config.1 op).retained with
    | false =>
      obtain ⟨out, hout, hnone⟩ := Socket.step_gone (fun hret => (hi hret).1.mss) op hr
      rw [hout] at hsent
      refine absurd hx (hnone x ?_)
      rw [List.append_cancel_left hsent]
      simp
    | true =>
      have hret : l.socket.retained = true := Socket.retained_before hr
      obtain ⟨hs, hk⟩ := hi hret
      obtain ⟨c, out, hprep, hout, hcases⟩ := Socket.step_sends hret hs op hr
      obtain ⟨hs1, hk1⟩ := hprep.ready hs hk
      rw [hout] at hsent
      have hsplit : out = pre ++ x :: post := List.append_cancel_left hsent
      rcases hcases with hsends | ⟨hpoll, y, hone, hprobe⟩
      · exact .inl (hsends.within hs1 hk1 hsplit hx hfirst)
      · right
        rw [hone] at hsplit
        obtain ⟨rfl, hcons⟩ : pre = [] ∧ [y] = x :: post := by
          cases pre with
          | nil => exact ⟨rfl, hsplit⟩
          | cons z pre =>
            have hlen := congrArg List.length hsplit
            simp only [List.cons_append, List.length_cons, List.length_append, List.length_nil] at hlen
            omega
        obtain ⟨rfl, -⟩ := List.cons.inj hcons
        exact ⟨hpoll, hprobe⟩
  · rw [← Probed.run_socket] at hr ⊢
    have hi := Probed.inv_run o hv ops hr
    exact ⟨hi.send.mss, hi.one⟩
  · obtain ⟨hreach, hstop⟩ := Connection.flushLoop_rounds nowMs c.sendQueue.length hm le_rfl
    exact ⟨Connection.flush_no_endless_loop hm, hreach, hstop, Connection.flushData_settled nowMs hm⟩

/-- a client whose peer completes the handshake with a window of three bytes -/
def smallWindowRun : List SocketOp :=
  [.input { Segment.new 80 9000 700 with
      ack := some 101
      flags := Flags.SYN.union .ACK
      window := 3
      options := [.maxSegmentSize 1000, .fipsVersion FIPS_VERSION 0] } 5]

/-- the segment that a write of four bytes sends then -/
def smallWindowData : Segment :=
  { Segment.new 9000 80 101 with ack := some 701, flags := Flags.ACK.union .PSH, payload := [1, 2, 3] }

theorem new_data_within_windows_small :
    ((Tapped.run Config.default (.client () 9000 80 100 0 0) smallWindowRun).step Config.default 100
      (.write [1, 2, 3, 4] 6)).socket.conn.WithinWindows smallWindowData := by
  have h := (new_data_within_windows ⟨Config.default, Config.default_validate⟩ (.client () 9000 80 100 0 0) smallWindowRun).1
    (.write [1, 2, 3, 4] 6) [] smallWindowData [] (by decide) (by decide) ?_
  · exact h.resolve_right fun hprobe => absurd hprobe.2.closed (by decide)
  · change ¬ Repeats ([⟨0, 1, 0⟩] ++ [⟨1, 3, 6⟩]) 1
    exact not_repeats_snoc (by decide) fun h => absurd h (Nat.lt_irrefl 1)

end FipsTcp
