/-
Karn's rule.

`Tapped` is a socket with a tap on what it emits (`Tap`): the tap sees sequence numbers and times. The estimator's watermark
is compared with wrapping arithmetic, and stays near the flight (`Marked.near`): it is at most 65535 positions before the end of
the oldest segment, since an ACK that takes a whole segment beyond it gives a sample and clears it. So the comparison is that of
positions, and a tracked segment beyond the watermark was sent once and after every repetition (`Marked.dated`). What was sent
since a repetition lies beyond the watermark (`Marked.recent`), so such a segment passes the test.
- `Move.karn`, `Tapped.inv_step`: every primitive and every operation keeps this;
- `Sampling`: what a segment does to the estimate (`Karn.input_sampling`): nothing without an ACK that advances, nothing if no
  segment that the ACK takes passes the test, and the sample of the last that does (`Gives`);
- `sample_of_fresh`: an ACK that takes a fresh segment gives the sample of the last one;
- `rtt_samples_fresh`: what that says for every run.
-/
import FipsTcp.Connection.Budget
import FipsTcp.Connection.Lifecycle
import FipsTcp.Lib.Tap

namespace FipsTcp

open SendWindow Serial Tap

namespace RttEstimator

/-- everything but the watermark -/
def estimate (r : RttEstimator) : RttEstimator := { r with sampleAfter := none }

theorem canSample_iff (r : RttEstimator) (endSeq : U32) :
    r.canSample endSeq = true ↔ ∀ mark, r.sampleAfter = some mark → after endSeq mark := by
  unfold canSample
  cases r.sampleAfter with
  | none => exact ⟨(fun _ _ h => nomatch h), fun _ => rfl⟩
  | some mark =>
    rw [decide_eq_true_iff]
    exact ⟨fun h m hm => Option.some.inj hm ▸ h, fun h => h mark rfl⟩

end RttEstimator

namespace Connection

variable {P : Type} {config : Config} {nowMs : ℕ} {inp : Option Segment} {isn : U32} {acc : List U8} {log : List Sent}
  {mark : Option ℕ} {c c' c1 c2 : Connection P} {out out' : List Segment} {n e : ℕ}

/-! ## The tap -/

/-- what the tap writes down of the segments that occupy sequence space -/
def tap (isn : U32) (nowMs : ℕ) (log : List Sent) (out : List Segment) : List Sent :=
  (out.filter fun x => decide (x.sequenceLen ≠ 0)).foldl (fun log x => record isn nowMs log x.seq x.sequenceLen.toNat) log

theorem tap_append (isn : U32) (nowMs : ℕ) (log : List Sent) (out out' : List Segment) :
    tap isn nowMs log (out ++ out') = tap isn nowMs (tap isn nowMs log out) out' := by
  simp only [tap, List.filter_append, List.foldl_append]

theorem tap_quiet (isn : U32) (nowMs : ℕ) (log : List Sent) (h : ∀ x ∈ out, x.sequenceLen = 0) : tap isn nowMs log out = log := by
  rw [tap, List.filter_eq_nil_iff.2 fun x hx => by simp [h x hx]]
  rfl

/-- a segment of `n` positions from `p` on -/
theorem tap_one {y : Segment} {p : ℕ} (hseq : y.seq = pos isn p) (hlen : y.sequenceLen = asU32 n) (h0 : 0 < n) (hn : n ≤ 65535)
    (hp : p ≤ high log) (hnear : high log ≤ p + 65535) : tap isn nowMs log [y] = log ++ [⟨p, n, nowMs⟩] := by
  have hnat : y.sequenceLen.toNat = n := by rw [hlen, asU32, BitVec.toNat_ofNat, Nat.mod_eq_of_lt (by omega)]
  have hne : y.sequenceLen ≠ 0 := fun h => by
    rw [h] at hnat
    exact absurd hnat (Nat.ne_of_lt h0)
  simp only [tap, List.filter_cons, hne, ne_eq, not_false_eq_true, decide_true, if_true, List.filter_nil, List.foldl_cons,
    List.foldl_nil, record]
  rw [hnat, hseq, place_pos hp (by omega)]

/-! ## The watermark -/

/-- a position behind the watermark -/
def Beyond (mark : Option ℕ) (e : ℕ) : Prop := ∀ p ∈ mark, p < e

/-- the watermark as a position, and what it says of the tracked segments -/
structure Marked (isn : U32) (acc : List U8) (log : List Sent) (c : Connection P) (mark : Option ℕ) : Prop where
  stored : c.rtt.sampleAfter = mark.map (pos isn)
  near : ∀ p ∈ mark, p ≤ c.sender.nxtPos acc ∧ (c.sender.unaPos acc ≤ p ∨
    ∃ x rest, c.unacked = x :: rest ∧ c.sender.unaPos acc + x.piece.len ≤ p + 65535)
  dated : Dated (fun x : TrackedSegment => x.piece.len) TrackedSegment.sentAtMs log (Beyond mark) (c.sender.unaPos acc) c.unacked
  recent : ∀ p ∈ mark, Since log p

structure Karn (isn : U32) (acc : List U8) (log : List Sent) (c : Connection P) : Prop where
  high : Tap.high log = c.sender.nxtPos acc
  covered : Covered log
  marked : ∃ mark, c.Marked isn acc log mark

/-- the flight in positions -/
theorem SendInv.flight (hs : c.SendInv config isn acc) :
    c.sender.unaPos acc + total (c.unacked.map TrackedSegment.piece) = c.sender.nxtPos acc ∧
      total (c.unacked.map TrackedSegment.piece) ≤ 65535 := by
  have hle : total (c.unacked.map TrackedSegment.piece) ≤ c.sender.nxtPos acc := hs.sender.total_le
  exact ⟨Nat.sub_add_cancel hle, hs.sender.room⟩

/-- **The watermark is compared as a position.** -/
theorem Marked.canSample_iff (h : c.Marked isn acc log mark) (hs : c.SendInv config isn acc) (h1 : c.sender.unaPos acc < e)
    (h2 : e ≤ c.sender.nxtPos acc) : c.rtt.canSample (pos isn e) = true ↔ Beyond mark e := by
  obtain ⟨hnxt, hroom⟩ := hs.flight
  have hnear := h.near
  rw [RttEstimator.canSample_iff, h.stored]
  cases mark with
  | none => exact ⟨(fun _ _ hp => nomatch hp), (fun _ _ hp => nomatch hp)⟩
  | some p =>
    obtain ⟨hp, hfar⟩ := hnear p rfl
    have hfar : c.sender.unaPos acc ≤ p + 65535 := by
      rcases hfar with h | ⟨x, rest, -, h⟩ <;> omega
    have hiff : after (pos isn e) (pos isn p) ↔ p < e := before_pos (by omega) (by omega)
    exact ⟨fun h q hq => Option.some.inj hq ▸ hiff.1 (h _ rfl), fun h m hm => Option.some.inj hm ▸ hiff.2 (h p rfl)⟩

/-- the ends of the tracked segments lie in the flight -/
theorem SendInv.ends_bounds (hs : c.SendInv config isn acc) :
    ∀ e ∈ ends (fun x : TrackedSegment => x.piece.len) (c.sender.unaPos acc) c.unacked,
      c.sender.unaPos acc < e ∧ e ≤ c.sender.nxtPos acc := by
  intro e he
  obtain ⟨h1, h2⟩ := Tap.ends_bounds (fun x hx => hs.len_pos hx) e he
  rw [sum_len] at h2
  exact ⟨h1, h2.trans hs.flight.1.le⟩

/-! ## What the primitives do -/

/-- neither the flight nor the watermark moves -/
theorem Karn.still {acc' : List U8} (h : c.Karn isn acc log) (hn : c'.sender.nxtPos acc' = c.sender.nxtPos acc)
    (hu : c'.sender.unaPos acc' = c.sender.unaPos acc) (hl : c'.unacked = c.unacked)
    (hm : c'.rtt.sampleAfter = c.rtt.sampleAfter) : c'.Karn isn acc' log := by
  obtain ⟨hhigh, hcovered, mark, hmark, hnear, hdated, hrecent⟩ := h
  refine ⟨hhigh.trans hn.symm, hcovered, mark, hm.trans hmark, ?_, ?_, hrecent⟩
  · rw [hn, hu, hl]; exact hnear
  · rw [hu, hl]; exact hdated

/-- nothing is sent, and the sender stays -/
theorem Karn.quiet (h : c.Karn isn acc log) (hs : c'.sender = c.sender) (hl : c'.unacked = c.unacked)
    (hm : c'.rtt.sampleAfter = c.rtt.sampleAfter) (hout : ∀ x ∈ out, x.sequenceLen = 0) :
    c'.Karn isn acc (tap isn nowMs log out) := by
  rw [tap_quiet isn nowMs log hout]
  exact h.still (by rw [hs]) (by rw [hs]) hl hm

/-- a position in the flight is sent again, and the watermark moves to the end of the flight -/
theorem Karn.again {t : Sent} (h : c.Karn isn acc log) (hs' : c'.SendInv config isn acc) (hs : c'.sender = c.sender)
    (hm : c'.rtt.sampleAfter = some c'.sendNxt) (hlen : 0 < t.len) (ht : t.start + t.len ≤ c.sender.nxtPos acc) :
    c'.Karn isn acc (log ++ [t]) := by
  obtain ⟨hnxt, -⟩ := hs'.flight
  have hstart : t.start < Tap.high log := by
    rw [h.high]
    omega
  refine ⟨?_, h.covered.snoc hstart.le, some (c'.sender.nxtPos acc), ?_, ?_, ?_, fun p _ => h.covered.again hlen hstart p⟩
  · rw [high_snoc, h.high, hs]
    exact max_eq_left ht
  · rw [hm]
    exact congrArg some hs'.sender.nxt
  · intro p hp
    cases hp
    exact ⟨le_rfl, .inl (by omega)⟩
  · exact .none fun e he hbeyond => absurd (hbeyond _ rfl) (Nat.not_lt_of_le (hs'.ends_bounds e he).2)

/-- a new segment -/
theorem Karn.push {x : TrackedSegment} (h : c.Karn isn acc log) (hs : c.SendInv config isn acc)
    (hn : c'.sender.nxtPos acc = c.sender.nxtPos acc + x.piece.len) (hu : c'.sender.unaPos acc = c.sender.unaPos acc)
    (hl : c'.unacked = c.unacked ++ [x]) (hm : c'.rtt.sampleAfter = c.rtt.sampleAfter) :
    c'.Karn isn acc (log ++ [⟨c.sender.nxtPos acc, x.piece.len, x.sentAtMs⟩]) := by
  obtain ⟨hhigh, hcovered, mark, hmark, hnear, hdated, hrecent⟩ := h
  obtain ⟨hnxt, hroom⟩ := hs.flight
  refine ⟨?_, hcovered.snoc hhigh.ge, mark, hm.trans hmark, fun p hp => ?_, ?_, fun p hp => (hrecent p hp).snoc (hnear p hp).1⟩
  · rw [high_snoc, hhigh, hn]
    exact max_eq_right (Nat.le_add_right _ _)
  · obtain ⟨h1, h2⟩ := hnear p hp
    rw [hn, hu, hl]
    refine ⟨h1.trans (Nat.le_add_right _ _), h2.imp id ?_⟩
    rintro ⟨y, rest, hy, hle⟩
    exact ⟨y, rest ++ [x], by rw [hy]; rfl, hle⟩
  · rw [hu, hl]
    refine hdated.push hhigh.le ?_ rfl rfl
    rw [sum_len]
    exact hnxt.symm

/-- **The sample.** The loop takes it from the last segment whose end lies behind the watermark, if it acknowledges one. -/
theorem ackLoop_gives {l : List TrackedSegment} {p : ℕ} {G : ℕ → Prop} (rtt : RttEstimator) (nowMs : ℕ)
    (hc : Chain isn acc p (l.map TrackedSegment.piece)) (hn : n ≤ total (l.map TrackedSegment.piece))
    (hroom : total (l.map TrackedSegment.piece) < 2 ^ 31)
    (hG : ∀ e ∈ ends (fun x : TrackedSegment => x.piece.len) p l, rtt.canSample (pos isn e) = true ↔ G e)
    (hdated : Dated (fun x : TrackedSegment => x.piece.len) TrackedSegment.sentAtMs log G p l)
    (acked : ℕ) (fin : Bool) (sample : Option ℕ) :
    (ackLoop rtt (pos isn (p + n)) nowMs l acked fin sample).2.2.2 = sample ∧
        (∀ e ∈ ends (fun x : TrackedSegment => x.piece.len) p l, e ≤ p + n → ¬ G e) ∨
      ∃ x ∈ l, ∃ q, x.seq = pos isn q ∧ p ≤ q ∧ q + x.piece.len ≤ p + n ∧ G (q + x.piece.len) ∧
        First log x.sentAtMs q (q + x.piece.len) ∧
        (∀ e ∈ ends (fun x : TrackedSegment => x.piece.len) p l, e ≤ p + n → G e → e ≤ q + x.piece.len) ∧
        (ackLoop rtt (pos isn (p + n)) nowMs l acked fin sample).2.2.2 = some (nowMs - x.sentAtMs) := by
  induction l generalizing p n acked fin sample with
  | nil => exact .inl ⟨rfl, fun e he => nomatch he⟩
  | cons x l ih =>
    rw [List.map_cons] at hc hn hroom
    rw [total_cons] at hn hroom
    obtain ⟨he, -, -⟩ := endSeq_le_iff (n := n) hc.1 (by omega) (by omega)
    have hlen : ∀ y ∈ l, 0 < y.piece.len := fun y hy => hc.2.2.len_pos (List.mem_map_of_mem hy)
    have hend : x.endSeq = pos isn (p + x.piece.len) := by
      rw [x.endSeq_eq, show x.seq = pos isn p from hc.1.seq, add_asU32]
    unfold ackLoop
    by_cases h1 : x.piece.len ≤ n
    · rw [if_pos (he.2 h1)]
      have hpos : p + x.piece.len + (n - x.piece.len) = p + n := by omega
      have hcan : rtt.canSample x.endSeq = true ↔ G (p + x.piece.len) := by
        rw [hend]
        exact hG _ List.mem_cons_self
      have hrest := ih (n := n - x.piece.len) hc.2.2 (by omega) (by omega) (fun e he => hG e (List.mem_cons_of_mem _ he))
        hdated.2 (acked + x.payload.length) (fin || x.flags.contains .FIN)
        (if rtt.canSample x.endSeq then some (nowMs - x.sentAtMs) else sample)
      rw [hpos] at hrest
      rcases hrest with ⟨hsample, hno⟩ | ⟨y, hy, q, hseq, hq, hend, hG', hfirst, hlast, hsome⟩
      · by_cases hx : rtt.canSample x.endSeq = true
        · rw [if_pos hx] at hsample
          refine .inr ⟨x, List.mem_cons_self, p, hc.1.seq, le_rfl, by omega, hcan.1 hx, hdated.1 (hcan.1 hx),
            fun e he hle hGe => ?_, ?_⟩
          · rcases List.mem_cons.1 he with rfl | he
            · exact le_rfl
            · exact absurd hGe (hno e he hle)
          · rw [if_pos hx]
            exact hsample
        · rw [if_neg hx] at hsample ⊢
          refine .inl ⟨hsample, fun e he hle => ?_⟩
          rcases List.mem_cons.1 he with rfl | he
          · exact fun h => hx (hcan.2 h)
          · exact hno e he hle
      · refine .inr ⟨y, List.mem_cons_of_mem _ hy, q, hseq, by omega, hend, hG', hfirst, fun e he hle hGe => ?_, hsome⟩
        rcases List.mem_cons.1 he with rfl | he
        · exact hq.trans (Nat.le_add_right _ _)
        · exact hlast e he hle hGe
    · rw [if_neg fun h => h1 (he.1 h)]
      refine .inl ⟨rfl, fun e he hle => ?_⟩
      -- what is left ends behind the ACK number
      have hfar : p + x.piece.len ≤ e := by
        rcases List.mem_cons.1 he with rfl | he
        · exact le_rfl
        · exact (Tap.ends_bounds hlen e he).1.le
      omega

/-- the oldest segment survives an ACK that ends before it -/
theorem cut_head {x : Piece 32 U8} {l : List (Piece 32 U8)} (h : ¬ x.len ≤ n) : ∃ y, cut n (x :: l) = y :: l := by
  unfold cut
  rw [if_neg h]
  split_ifs
  · exact ⟨x, rfl⟩
  · exact ⟨_, rfl⟩

theorem SendInv.ack_pos (hs : c.SendInv config isn acc) (ack : U32) :
    ack = pos isn (c.sender.unaPos acc + distance c.sendUna ack) := by
  rw [← pos_pos, ← hs.sender.una]
  exact (pos_dist _ _).symm

/-- an ACK takes nothing behind the watermark, or gives the sample of the last segment behind it that it takes -/
theorem Marked.ack_sample (hm : c.Marked isn acc log mark) (hs : c.SendInv config isn acc) {ack : U32} (hadv : c.Advances ack)
    (nowMs : ℕ) :
    (c.advanceAck ack nowMs).1.rtt = c.rtt ∧
        (∀ e ∈ ends (fun x : TrackedSegment => x.piece.len) (c.sender.unaPos acc) c.unacked,
          e ≤ c.sender.unaPos acc + distance c.sendUna ack → ¬ Beyond mark e) ∨
      ∃ x ∈ c.unacked, ∃ q, x.seq = pos isn q ∧ c.sender.unaPos acc ≤ q ∧
        q + x.piece.len ≤ c.sender.unaPos acc + distance c.sendUna ack ∧ Beyond mark (q + x.piece.len) ∧
        First log x.sentAtMs q (q + x.piece.len) ∧
        (∀ e ∈ ends (fun x : TrackedSegment => x.piece.len) (c.sender.unaPos acc) c.unacked,
          e ≤ c.sender.unaPos acc + distance c.sendUna ack → Beyond mark e → e ≤ q + x.piece.len) ∧
        (c.advanceAck ack nowMs).1.rtt = c.rtt.sample (nowMs - x.sentAtMs) := by
  obtain ⟨-, hroom⟩ := hs.flight
  have hcan : ∀ e ∈ ends (fun x : TrackedSegment => x.piece.len) (c.sender.unaPos acc) c.unacked,
      c.rtt.canSample (pos isn e) = true ↔ Beyond mark e := fun e he =>
    hm.canSample_iff hs (hs.ends_bounds e he).1 (hs.ends_bounds e he).2
  have hsample := ackLoop_gives (n := distance c.sendUna ack) c.rtt nowMs hs.sender.chain (hadv.within hs.sender).2
    (show total (c.unacked.map TrackedSegment.piece) < 2 ^ 31 by omega) hcan hm.dated 0 false none
  rw [← hs.ack_pos] at hsample
  have hafter := c.advanceAck_rtt ack nowMs
  rcases hsample with ⟨hnone, hno⟩ | ⟨x, hx, q, hseq, hq, hend, hbeyond, hfirst, hlast, hsome⟩
  · rw [hnone] at hafter
    exact .inl ⟨hafter, hno⟩
  · rw [hsome] at hafter
    exact .inr ⟨x, hx, q, hseq, hq, hend, hbeyond, hfirst, hlast, hafter⟩

section Acked

variable {ack : U32} (hm : c.Marked isn acc log mark) (hs : c.SendInv config isn acc) (hadv : c.Advances ack)
include hm hs hadv

/-- what an ACK leaves is dated -/
theorem Marked.acked_dated (nowMs : ℕ) (hun : c'.sender.unaPos acc = c.sender.unaPos acc + distance c.sendUna ack)
    (hu : c'.unacked = (c.advanceAck ack nowMs).1.unacked) :
    Dated (fun x : TrackedSegment => x.piece.len) TrackedSegment.sentAtMs log (Beyond mark) (c'.sender.unaPos acc) c'.unacked := by
  obtain ⟨-, hroom⟩ := hs.flight
  have hkeeps := ackLoop_keeps (A := Dated (fun x : TrackedSegment => x.piece.len) TrackedSegment.sentAtMs log (Beyond mark))
    (fun h => h.2) (fun h hlen _ hat => h.trim hlen hat) c.rtt nowMs hs.sender.chain hs.sender.fin_payload
    (hadv.within hs.sender).2 (show total (c.unacked.map TrackedSegment.piece) < 2 ^ 31 by omega) 0 false none hm.dated
  rw [← hs.ack_pos, ← hun] at hkeeps
  rw [hu]
  exact hkeeps

/-- if an ACK takes nothing behind the watermark, that stays near -/
theorem Marked.acked_near (hs' : c'.SendInv config isn acc) (hsend : c'.sender = c.sender.ack ack)
    (hun : c'.sender.unaPos acc = c.sender.unaPos acc + distance c.sendUna ack)
    (hno : ∀ e ∈ ends (fun x : TrackedSegment => x.piece.len) (c.sender.unaPos acc) c.unacked,
      e ≤ c.sender.unaPos acc + distance c.sendUna ack → ¬ Beyond mark e) :
    ∀ p ∈ mark, p ≤ c'.sender.nxtPos acc ∧ (c'.sender.unaPos acc ≤ p ∨
      ∃ x rest, c'.unacked = x :: rest ∧ c'.sender.unaPos acc + x.piece.len ≤ p + 65535) := by
  intro p hp
  obtain ⟨hp1, hp2⟩ := hm.near p hp
  obtain ⟨hnxt, hroom⟩ := hs.flight
  obtain ⟨hnxt', hroom'⟩ := hs'.flight
  obtain ⟨h0, hle⟩ := hadv.within hs.sender
  have hn : c'.sender.nxtPos acc = c.sender.nxtPos acc := by rw [hsend]; exact Sender.nxtPos_ack acc _ ack
  have hbeyond : ∀ e, p < e → Beyond mark e := fun e he q hq => by
    rw [Option.mem_def] at hp hq
    rw [hp, Option.some.injEq] at hq
    exact hq ▸ he
  rw [hn]
  refine ⟨hp1, or_iff_not_imp_left.2 fun hpast => ?_⟩
  cases hc' : c'.unacked with
  | nil =>
    -- the last segment ends behind the watermark, and the ACK took it
    rw [hc', List.map_nil, total_nil] at hnxt'
    have hne : c.unacked ≠ [] := fun hnil => by rw [hnil, List.map_nil, total_nil] at hle; omega
    have hlast : c.sender.unaPos acc + (c.unacked.map fun x => x.piece.len).sum ∈
        ends (fun x : TrackedSegment => x.piece.len) (c.sender.unaPos acc) c.unacked := last_mem_ends hne
    rw [sum_len, hnxt] at hlast
    exact absurd (hbeyond _ (by omega)) (hno _ hlast (by omega))
  | cons y rest =>
    refine ⟨y, rest, rfl, ?_⟩
    rw [hc', List.map_cons, total_cons] at hnxt' hroom'
    rcases hp2 with hp2 | ⟨x, l, hl, hx⟩
    · omega
    · -- the oldest segment ends behind the watermark, so the ACK did not take it
      by_cases hstart : c.sender.unaPos acc ≤ p
      · omega
      have hlen : ¬ x.piece.len ≤ distance c.sendUna ack := fun hlen => by
        have hx0 := hs.len_pos (show x ∈ c.unacked by rw [hl]; exact List.mem_cons_self)
        have hmem : c.sender.unaPos acc + x.piece.len ∈ ends (fun x : TrackedSegment => x.piece.len) (c.sender.unaPos acc)
            c.unacked := by rw [hl]; exact List.mem_cons_self
        exact hno _ hmem (by omega) (hbeyond _ (by omega))
      have hflight : c'.unacked.map TrackedSegment.piece = cut (distance c.sendUna ack) (c.unacked.map TrackedSegment.piece) :=
        congrArg Sender.flight hsend
      rw [hc', hl, List.map_cons, List.map_cons] at hflight
      obtain ⟨z, hz⟩ := cut_head (l := l.map TrackedSegment.piece) hlen
      rw [hz, List.cons.injEq] at hflight
      rw [hl, List.map_cons, total_cons] at hnxt
      rw [hflight.2] at hnxt'
      omega

end Acked

/-- **An ACK.** If it gives no sample the watermark stays near; if it does, what is left lies behind the watermark. -/
theorem Karn.acked (nowMs : ℕ) {ack : U32} (h : c.Karn isn acc log) (hs : c.SendInv config isn acc) (hadv : c.Advances ack)
    (hs' : c'.SendInv config isn acc) (hsend : c'.sender = c.sender.ack ack) (hu : c'.unacked = (c.advanceAck ack nowMs).1.unacked)
    (hrtt : c'.rtt = (c.advanceAck ack nowMs).1.rtt) : c'.Karn isn acc log := by
  obtain ⟨hhigh, hcovered, mark, hm⟩ := h
  have hn : c'.sender.nxtPos acc = c.sender.nxtPos acc := by rw [hsend]; exact Sender.nxtPos_ack acc _ ack
  have hun : c'.sender.unaPos acc = c.sender.unaPos acc + distance c.sendUna ack := by
    rw [hsend]; exact hs.sender.unaPos_ack (hadv.within hs.sender).2
  have hdated := hm.acked_dated hs hadv nowMs hun hu
  rcases hm.ack_sample hs hadv nowMs with ⟨hsame, hno⟩ | ⟨x, -, q, -, -, hq, hbeyond, -, -, hsample⟩
  · refine ⟨hhigh.trans hn.symm, hcovered, mark, ?_, hm.acked_near hs hadv hs' hsend hun hno, hdated, hm.recent⟩
    rw [hrtt, hsame]
    exact hm.stored
  · have hnone : ∀ p, p ∉ (none : Option ℕ) := Option.not_mem_none
    refine ⟨hhigh.trans hn.symm, hcovered, none, ?_, fun p hp => absurd hp (hnone p), hdated.weaken fun e he _ p hp => ?_,
      fun p hp => absurd hp (hnone p)⟩
    · rw [hrtt, hsample]
      rfl
    · have h1 := hbeyond p hp
      have h2 := (hs'.ends_bounds e he).1
      omega

/-- where a tracked segment ends -/
theorem SendInv.mem_ends (hs : c.SendInv config isn acc) {x : TrackedSegment} (hx : x ∈ c.unacked) :
    ∃ q, x.seq = pos isn q ∧ c.sender.unaPos acc ≤ q ∧
      q + x.piece.len ∈ ends (fun x : TrackedSegment => x.piece.len) (c.sender.unaPos acc) c.unacked := by
  obtain ⟨before, after, hl⟩ := List.append_of_mem hx
  have hchain : Chain isn acc (c.sender.unaPos acc) (c.unacked.map TrackedSegment.piece) := hs.sender.chain
  rw [hl, List.map_append, List.map_cons] at hchain
  refine ⟨_, (Chain.append_iff.1 hchain).2.1.seq, Nat.le_add_right _ _, ?_⟩
  rw [hl, ← sum_len]
  exact Tap.mem_ends

/-- where a tracked segment lies in the flight -/
theorem SendInv.placed (hs : c.SendInv config isn acc) {x : TrackedSegment} (hx : x ∈ c.unacked) :
    ∃ q, x.seq = pos isn q ∧ c.sender.unaPos acc ≤ q ∧ q + x.piece.len ≤ c.sender.nxtPos acc := by
  obtain ⟨q, hseq, hq, hmem⟩ := hs.mem_ends hx
  exact ⟨q, hseq, hq, (hs.ends_bounds _ hmem).2⟩

theorem SendInv.position_eq (hs : c.SendInv config isn acc) {p : ℕ} (h1 : c.sender.unaPos acc ≤ p)
    (h2 : p ≤ c.sender.nxtPos acc) : c.position (pos isn p) = p := by
  obtain ⟨hnxt, hroom⟩ := hs.flight
  have hun : c.sendUna = pos isn (c.sender.unaPos acc) := hs.sender.una
  rw [position, hs.unaPosition_eq, hun, distance_pos h1 (by omega)]
  omega

theorem SendInv.position_endSeq (hs : c.SendInv config isn acc) {x : TrackedSegment} (hx : x ∈ c.unacked) :
    c.position x.endSeq = c.position x.seq + x.piece.len := by
  obtain ⟨q, hseq, hq, hend⟩ := hs.placed hx
  rw [x.endSeq_eq, hseq, add_asU32, hs.position_eq (by omega) hend, hs.position_eq hq (by omega)]

/-- the oldest segment again -/
theorem retransmitOldest_karn (timeout : Bool) (hs : c.SendInv config isn acc) (h : c.Karn isn acc log) :
    (c.retransmitOldest nowMs timeout).1.Karn isn acc (tap isn nowMs log (c.retransmitOldest nowMs timeout).2.toList) := by
  have hmove : Move config nowMs none c _ _ := .retransmit c timeout
  have hs' := hmove.sendInv hs
  have hsend := c.retransmitOldest_sender nowMs timeout
  rcases c.retransmitOldest_cases nowMs timeout with heq | ⟨oldest, rest, _, _, hu, -, heq⟩ <;> rw [heq] at hs' hsend ⊢
  · exact h
  · have hmem : oldest ∈ c.unacked := by rw [hu]; exact List.mem_cons_self
    obtain ⟨q, hseq, hq, hend⟩ := hs.placed hmem
    obtain ⟨hnxt, hroom⟩ := hs.flight
    have h0 := hs.len_pos hmem
    have hhigh := h.high
    simp only [Option.toList]
    rw [tap_one (y := c.segmentFor oldest) hseq (segmentFor_sequenceLen c oldest) h0 (by omega) (by omega) (by omega)]
    exact h.again hs' hsend rfl h0 hend

/-- the first byte of a segment again -/
theorem probe_karn {x : TrackedSegment} (hx : x ∈ c.unacked) (hp : x.payload ≠ []) (hs : c.SendInv config isn acc)
    (h : c.Karn isn acc log) :
    ({ c with rtt := c.rtt.onRetransmit c.sendNxt } : Connection P).Karn isn acc
      (tap isn nowMs log [buildSegment (c.header x.seq (Flags.ACK.union .PSH)) (x.payload.take 1)]) := by
  obtain ⟨q, hseq, hq, hend⟩ := hs.placed hx
  obtain ⟨hnxt, hroom⟩ := hs.flight
  have hhigh := h.high
  have hlen : 1 ≤ x.payload.length := List.length_pos_of_ne_nil hp
  have hpiece : x.payload.length ≤ x.piece.len := by simp only [Piece.len, TrackedSegment.piece]; omega
  have hone : (buildSegment (c.header x.seq (Flags.ACK.union .PSH)) (x.payload.take 1)).sequenceLen = asU32 1 := by
    have htake : (x.payload.take 1).length = 1 := by rw [List.length_take]; omega
    obtain ⟨hsyn, hfin⟩ := data_flags
    rw [Segment.sequenceLen, flagLen_eq, flagLen_eq]
    change asU32 (x.payload.take 1).length + asU32 ((Flags.ACK.union .PSH).contains .SYN).toNat +
      asU32 ((Flags.ACK.union .PSH).contains .FIN).toNat = asU32 1
    rw [htake, hsyn, hfin]
    rfl
  rw [tap_one (y := buildSegment (c.header x.seq (Flags.ACK.union .PSH)) (x.payload.take 1)) hseq hone Nat.one_pos (by norm_num)
    (by omega) (by omega)]
  have hs' : ({ c with rtt := c.rtt.onRetransmit c.sendNxt } : Connection P).SendInv config isn acc :=
    ⟨hs.sender, hs.window, hs.mss, hs.buffer⟩
  refine h.again hs' rfl rfl Nat.one_pos ?_
  change q + 1 ≤ c.sender.nxtPos acc
  omega

/-- the first bytes of the queue -/
theorem sendQueued_karn {count : ℕ} (h0 : 0 < count) (hq : count ≤ c.sendQueue.length) (hs : c.SendInv config isn acc)
    (hs' : (c.sendQueued count nowMs).1.SendInv config isn acc) (h : c.Karn isn acc log) :
    (c.sendQueued count nowMs).1.Karn isn acc (tap isn nowMs log [(c.sendQueued count nowMs).2]) := by
  obtain ⟨x, hx⟩ : ∃ x, x = (⟨c.sendNxt, Flags.ACK.union .PSH, c.sendQueue.take count, nowMs, 1⟩ : TrackedSegment) := ⟨_, rfl⟩
  have hlen : x.piece.len = count := by
    simp only [hx, TrackedSegment.piece, Piece.len, data_flags, List.length_take, Bool.toNat_false]
    omega
  have hhigh := h.high
  have hn : (c.sendQueued count nowMs).1.sender.nxtPos acc = c.sender.nxtPos acc + x.piece.len := by
    rw [sendQueued_sender, hlen]; exact hs.sender.nxtPos_push hq
  obtain ⟨hnxt, -⟩ := hs.flight
  obtain ⟨hnxt', hroom'⟩ := hs'.flight
  have hun : (c.sendQueued count nowMs).1.sender.unaPos acc = c.sender.unaPos acc := by
    rw [sendQueued_sender]; exact hs.sender.unaPos_push hq
  have hseg : (c.sendQueued count nowMs).2.sequenceLen = asU32 x.piece.len := by
    rw [hx]; exact segmentFor_sequenceLen _ _
  rw [tap_one (p := c.sender.nxtPos acc) hs.sender.nxt hseg (by omega) (by omega) (by omega) (by omega)]
  have hpush := h.push hs hn hun (by rw [hx]; rfl) rfl
  rw [show x.sentAtMs = nowMs by rw [hx]] at hpush
  exact hpush

theorem sendFin_karn (hst : c.Sending) (hs : c.SendInv config isn acc) (h : c.Karn isn acc log) :
    (c.sendFin nowMs).1.Karn isn acc (tap isn nowMs log [(c.sendFin nowMs).2]) := by
  obtain ⟨x, hx⟩ : ∃ x, x = (⟨c.sendNxt, Flags.FIN.union .ACK, [], nowMs, 1⟩ : TrackedSegment) := ⟨_, rfl⟩
  have hlen : x.piece.len = 1 := by simp [hx, TrackedSegment.piece, Piece.len]
  have hhigh := h.high
  have hn : (c.sendFin nowMs).1.sender.nxtPos acc = c.sender.nxtPos acc + x.piece.len := by
    rw [sendFin_sender, hlen]; exact Sender.nxtPos_pushFin acc hst.phase
  have hun : (c.sendFin nowMs).1.sender.unaPos acc = c.sender.unaPos acc := by
    rw [sendFin_sender]; exact Sender.unaPos_pushFin acc hst.phase
  have hseg : (c.sendFin nowMs).2.sequenceLen = asU32 x.piece.len := by
    rw [hx]; exact segmentFor_sequenceLen _ _
  rw [tap_one (p := c.sender.nxtPos acc) hs.sender.nxt hseg (by omega) (by omega) (by omega) (by omega)]
  have hpush := h.push hs hn hun (by rw [hx]; rfl) rfl
  rw [show x.sentAtMs = nowMs by rw [hx]] at hpush
  exact hpush

/-- **Preservation, one primitive.** -/
theorem Move.karn (hmove : Move config nowMs inp c out c') (hs : c.SendInv config isn acc) (h : c.Karn isn acc log) :
    c'.Karn isn acc (tap isn nowMs log out) := by
  have hs' := hmove.sendInv hs
  have hquiet : ∀ c1 : Connection P, c1.Karn isn acc log → c1.Karn isn acc (tap isn nowMs log []) := fun _ h => h
  cases hmove with
  | establishClient segment hin hst hsyn hrst hack =>
    have hp : c.state.phase = .opening := by rw [hst]; rfl
    have hadv := (advances_sendNxt hs.sender (by norm_num) (unacked_opening hs.sender hp)).1
    have hacked : (c.establishClient segment nowMs config).unacked = (c.advanceAck c.sendNxt nowMs).1.unacked ∧
        (c.establishClient segment nowMs config).rtt = (c.advanceAck c.sendNxt nowMs).1.rtt := establishClient_acked hadv segment
    obtain ⟨hu, hrtt⟩ := hacked
    exact hquiet _ (h.acked nowMs hs hadv hs' (establishClient_sender hs.sender (by norm_num) hst segment nowMs config) hu hrtt)
  | establishServer segment hin hst hrst hack =>
    have hp : c.state.phase = .opening := by rw [hst]; rfl
    have hadv := (advances_sendNxt hs.sender (by norm_num) (unacked_opening hs.sender hp)).1
    have hacked : (c.establishServer segment nowMs).unacked = (c.advanceAck c.sendNxt nowMs).1.unacked ∧
        (c.establishServer segment nowMs).rtt = (c.advanceAck c.sendNxt nowMs).1.rtt := establishServer_acked hadv segment
    obtain ⟨hu, hrtt⟩ := hacked
    exact hquiet _ (h.acked nowMs hs hadv hs' (establishServer_sender hs.sender (by norm_num) hst segment nowMs) hu hrtt)
  | window segment =>
    obtain ⟨hu, hrtt⟩ := c.updateRemoteWindow_unacked segment.window nowMs
    exact h.quiet (c.updateRemoteWindow_sender segment.window nowMs) hu (by rw [hrtt]) fun _ hx => nomatch hx
  | timers rtt reno duplicateAcks zeroWindowProbes rtoRecoveryUntil nextZeroWindowProbeMs hrtt =>
    refine h.quiet rfl rfl ?_ fun _ hx => nomatch hx
    rcases hrtt with rfl | rfl
    · rfl
    · simp only [RttEstimator.onTimeout]
      split_ifs <;> rfl
  | retransmit timeout => exact retransmitOldest_karn timeout hs h
  | advanceAck c' segment ack hin hrst hack hst hadv hc =>
    obtain ⟨hu, hrtt⟩ := afterAck_acked hc
    exact hquiet _ (h.acked nowMs hs hadv hs' ((afterAck_sender hs.sender (by norm_num) hst hadv nowMs config).2 _ hc) hu hrtt)
  | receive segment =>
    obtain ⟨h1, h2⟩ := c.receiveStreamData_outgoing segment nowMs config
    have hu := congrArg Connection.unacked h1
    have hrtt := congrArg (fun x : Connection P => x.rtt.sampleAfter) h1
    refine h.quiet (sender_eq_of_outgoing h1 h2) hu hrtt fun x hx => ?_
    rw [List.mem_singleton.1 hx]
    exact ackSegment_sequenceLen _
  | sendData count hst h0 hallow hmss hq => exact sendQueued_karn h0 hq hs hs' h
  | sendFin hst => exact sendFin_karn hst hs h
  | probe hwin =>
    rcases c.zeroWindowProbe_cases nowMs with ⟨x, hx, hp, heq⟩ | ⟨hno, ⟨hq, heq⟩ | ⟨hq, heq⟩⟩ <;> rw [heq] at hs' ⊢
    · exact probe_karn hx hp hs h
    · exact h
    · exact sendQueued_karn Nat.one_pos (List.length_pos_of_ne_nil hq) hs hs' h
  | ack =>
    refine h.quiet rfl rfl rfl fun x hx => ?_
    rw [List.mem_singleton.1 hx]
    exact c.ackSegment_sequenceLen
  | reset segment =>
    refine h.quiet rfl rfl rfl fun x hx => ?_
    rw [List.mem_singleton.1 hx]
    exact resetFor_sequenceLen segment
  | requestClose => exact hquiet _ (h.still rfl rfl rfl rfl)

theorem Moves.karn (hmoves : Moves config nowMs inp c out c') (hs : c.SendInv config isn acc) (h : c.Karn isn acc log) :
    c'.Karn isn acc (tap isn nowMs log out) :=
  (hmoves.history (Q := fun sent c => c.SendInv config isn acc ∧ c.Karn isn acc (tap isn nowMs log sent))
    (fun hm ⟨h1, h2⟩ => ⟨hm.sendInv h1, by rw [tap_append]; exact hm.karn h1 h2⟩) [] ⟨hs, h⟩).2

/-! ## What an operation does to the estimate -/

/-- no segment that the ACK takes passes the test -/
def Skips (isn : U32) (acc : List U8) (c : Connection P) (ack : U32) : Prop :=
  ∀ e ∈ ends (fun x : TrackedSegment => x.piece.len) (c.sender.unaPos acc) c.unacked,
    e ≤ c.sender.unaPos acc + distance c.sendUna ack → c.rtt.canSample (pos isn e) ≠ true

/-- the estimate is the old one with the sample of a segment that the ACK takes, and that is fresh; it is the last that passes -/
def Gives (isn : U32) (acc : List U8) (log : List Sent) (c : Connection P) (ack : U32) (nowMs : ℕ) (r : RttEstimator) : Prop :=
  ∃ x ∈ c.unacked, ∃ q, x.seq = pos isn q ∧ c.sender.unaPos acc ≤ q ∧
    q + x.piece.len ≤ c.sender.unaPos acc + distance c.sendUna ack ∧ First log x.sentAtMs q (q + x.piece.len) ∧
    (∀ e ∈ ends (fun x : TrackedSegment => x.piece.len) (c.sender.unaPos acc) c.unacked,
      e ≤ c.sender.unaPos acc + distance c.sendUna ack → c.rtt.canSample (pos isn e) = true → e ≤ q + x.piece.len) ∧
    r.estimate = (c.rtt.sample (nowMs - x.sentAtMs)).estimate

/-- **An ACK** gives no sample, or a fresh one. -/
theorem Karn.advanceAck_gives (h : c.Karn isn acc log) (hs : c.SendInv config isn acc) {ack : U32} (hadv : c.Advances ack)
    (nowMs : ℕ) : (c.advanceAck ack nowMs).1.rtt.estimate = c.rtt.estimate ∧ Skips isn acc c ack ∨
      Gives isn acc log c ack nowMs (c.advanceAck ack nowMs).1.rtt := by
  obtain ⟨-, -, mark, hm⟩ := h
  have hbeyond : ∀ e ∈ ends (fun x : TrackedSegment => x.piece.len) (c.sender.unaPos acc) c.unacked,
      c.rtt.canSample (pos isn e) = true → Beyond mark e := fun e he =>
    (hm.canSample_iff hs (hs.ends_bounds e he).1 (hs.ends_bounds e he).2).1
  rcases hm.ack_sample hs hadv nowMs with ⟨hsame, hno⟩ | ⟨x, hx, q, hseq, hq, hend, -, hfirst, hlast, hsample⟩
  · exact .inl ⟨congrArg RttEstimator.estimate hsame, fun e he hle hpass => hno e he hle (hbeyond e he hpass)⟩
  · exact .inr ⟨x, hx, q, hseq, hq, hend, hfirst, fun e he hle hpass => hlast e he hle (hbeyond e he hpass),
      congrArg RttEstimator.estimate hsample⟩

/-- a segment that was sent after every repetition passes the test -/
theorem Karn.canSample (h : c.Karn isn acc log) (hs : c.SendInv config isn acc) {k : ℕ} {t : Sent} (hlog : log[k]? = some t)
    (hlatest : ∀ j, Repeats log j → j < k) (h1 : t.start < e) (h2 : c.sender.unaPos acc < e) (h3 : e ≤ c.sender.nxtPos acc) :
    c.rtt.canSample (pos isn e) = true := by
  obtain ⟨-, -, mark, hm⟩ := h
  exact (hm.canSample_iff hs h2 h3).2 fun p hp => ((hm.recent p hp).le hlatest hlog).trans_lt h1

theorem retransmitOldest_estimate (c : Connection P) (nowMs : ℕ) (timeout : Bool) :
    (c.retransmitOldest nowMs timeout).1.rtt.estimate = c.rtt.estimate := by
  rcases c.retransmitOldest_cases nowMs timeout with h | ⟨_, _, _, _, -, -, h⟩ <;> rw [h]
  rfl

theorem receive_flush_estimate (c : Connection P) (segment : Segment) (nowMs : ℕ) (config : Config) :
    ((c.receiveIfData segment nowMs config).1.flushData nowMs).1.rtt.estimate = c.rtt.estimate := by
  rw [(flushData_keeps nowMs).2.1]
  unfold receiveIfData
  split_ifs
  · have hrtt := congrArg (fun x : Connection P => x.rtt.estimate) (c.receiveStreamData_outgoing segment nowMs config).1
    exact hrtt
  · rfl

theorem receive_flush_una (c : Connection P) (segment : Segment) (nowMs : ℕ) (config : Config) :
    ((c.receiveIfData segment nowMs config).1.flushData nowMs).1.sendUna = c.sendUna :=
  (flushData_una nowMs).trans (congrArg Sender.una (c.receiveIfData_sender segment nowMs config))

/-- the ACK of a synchronized connection -/
theorem AckResult.estimate {segment : Segment} {ack : U32} (h : AckResult c segment ack nowMs config (c1, false, out)) :
    c1.rtt.estimate = c.rtt.estimate ∧ c1.sendUna = c.sendUna ∨
      c.Advances ack ∧ c1.rtt.estimate = (c.advanceAck ack nowMs).1.rtt.estimate := by
  have hwindow : ∀ c : Connection P, (c.windowOf segment ack nowMs).rtt = c.rtt := fun c => by
    rcases windowOf_cases nowMs (c := c) segment ack with h | h <;> rw [h]
    exact (c.updateRemoteWindow_unacked segment.window nowMs).2
  cases h with
  | outside => exact .inl ⟨rfl, rfl⟩
  | repeated duplicate =>
    obtain ⟨-, -, -, -, huna⟩ := repeatAck_moves config nowMs (c := c) none duplicate
    refine .inl ⟨?_, (windowOf_una nowMs segment ack).trans huna⟩
    rw [hwindow]
    unfold repeatAck
    simp only
    split_ifs
    · exact retransmitOldest_estimate _ nowMs false
    · rfl
    · rfl
  | advanced c2 hadv hc2 =>
    refine .inr ⟨hadv, ?_⟩
    have hrepair : ∀ c : Connection P, (c.repairTimedOutFlight nowMs config).1.rtt.estimate = c.rtt.estimate := fun c => by
      unfold repairTimedOutFlight
      split
      · split_ifs
        · rfl
        · exact c.retransmitOldest_estimate nowMs false
      · rfl
    rw [hrepair, hwindow, (afterAck_acked hc2).2]

/-- what a segment does to the estimate -/
inductive Sampling (isn : U32) (acc : List U8) (log : List Sent) (c : Connection P) (segment : Segment) (nowMs : ℕ)
    (c' : Connection P) : Prop
  /-- `send_una` stays -/
  | still (hest : c'.rtt.estimate = c.rtt.estimate) (huna : c'.sendUna = c.sendUna)
  /-- the ACK takes no segment that passes the test -/
  | skipped (ack : U32) (hack : segment.ack = some ack) (hest : c'.rtt.estimate = c.rtt.estimate) (hskips : Skips isn acc c ack)
  | given (ack : U32) (hack : segment.ack = some ack) (h : Gives isn acc log c ack nowMs c'.rtt)

/-- an ACK that advances, and what leaves the estimate after it -/
theorem Karn.sampling (h : c.Karn isn acc log) (hs : c.SendInv config isn acc) {segment : Segment} {ack : U32}
    (hack : segment.ack = some ack) (hadv : c.Advances ack) (hr : c'.rtt.estimate = (c.advanceAck ack nowMs).1.rtt.estimate) :
    Sampling isn acc log c segment nowMs c' := by
  rcases h.advanceAck_gives hs hadv nowMs with ⟨heq, hskips⟩ | ⟨x, hx, q, hseq, hq, hend, hfirst, hlast, heq⟩
  · exact .skipped ack hack (hr.trans heq) hskips
  · exact .given ack hack ⟨x, hx, q, hseq, hq, hend, hfirst, hlast, hr.trans heq⟩

/-- **A segment.** -/
theorem Karn.input_sampling (h : c.Karn isn acc log) (hs : c.SendInv config isn acc) (segment : Segment) (nowMs : ℕ) :
    Sampling isn acc log c segment nowMs (c.input segment nowMs config).1 := by
  cases hcl : (c.input segment nowMs config).2.closed with
  | true =>
    have hremoved := ((input_moves config nowMs segment hs.mss).2 hcl).2
    generalize (c.input segment nowMs config).1 = c' at hremoved
    cases hremoved with
    | reset => exact .still rfl rfl
    | lastAck c' hlast =>
      obtain ⟨ack, hack, hadv, -, rfl⟩ := hlast.acked
      exact h.sampling hs hack hadv rfl
  | false =>
    unfold input at hcl ⊢
    split_ifs at hcl ⊢
    · exact .still rfl rfl
    · exact .still rfl rfl
    · unfold onSegment at hcl ⊢
      split_ifs at hcl ⊢ with hrst
      · exact .still rfl rfl
      · have hrst' : segment.flags.contains .RST = false := by simpa using hrst
        split at hcl
        · rename_i hst
          unfold onSynSent
          split_ifs with hsyn
          · have hp : c.state.phase = .opening := by rw [hst]; rfl
            have hadv := (advances_sendNxt hs.sender (by norm_num) (unacked_opening hs.sender hp)).1
            exact h.sampling hs hsyn.2.2.1 hadv (congrArg RttEstimator.estimate (establishClient_acked hadv segment).2)
          · exact .still rfl rfl
        · rename_i hst
          unfold onSynReceived
          split_ifs with h3 h4
          · exact .still (c.retransmitOldest_estimate nowMs false)
              (congrArg Sender.una (c.retransmitOldest_sender nowMs false))
          · exact .still rfl rfl
          · have hp : c.state.phase = .opening := by rw [hst]; rfl
            have hadv := (advances_sendNxt hs.sender (by norm_num) (unacked_opening hs.sender hp)).1
            refine h.sampling hs (not_not.1 h4) hadv ?_
            rw [← congrArg RttEstimator.estimate (establishServer_acked hadv segment).2]
            exact receive_flush_estimate _ segment nowMs config
        · rename_i hn1 hn2
          obtain ⟨c1, out, hack, -, -, heq⟩ := onSynchronized_parts config nowMs ⟨hn1, hn2⟩ hrst' hcl
          have hrest := c1.receive_flush_estimate segment nowMs config
          have huna := c1.receive_flush_una segment nowMs config
          rw [heq]
          rcases hack with ⟨-, rfl, -⟩ | ⟨ack, hack, hcases⟩
          · exact .still hrest huna
          · rcases hcases.estimate with ⟨hsame, hsame'⟩ | ⟨hadv, hsame⟩
            · exact .still (hrest.trans hsame) (huna.trans hsame')
            · exact h.sampling hs hack hadv (hrest.trans hsame)

/-- a poll leaves the estimate, or backs the timeout off -/
theorem poll_estimate (c : Connection P) (nowMs : ℕ) (config : Config) :
    (c.poll nowMs config).1.rtt.estimate = c.rtt.estimate ∨
      (c.poll nowMs config).1.rtt.estimate = c.rtt.onTimeout.estimate := by
  have hflush : (c.flushData nowMs).1.rtt.estimate = c.rtt.estimate := by rw [(flushData_keeps nowMs).2.1]
  unfold poll
  split_ifs
  · exact .inl rfl
  · refine .inl ?_
    unfold pollZeroWindow
    simp only
    split_ifs
    · rfl
    · rcases zeroWindowProbe_cases { c with
        nextZeroWindowProbeMs := some (c.nextZeroWindowProbeMs.getD (satAdd nowMs config.initialRtoMs)) } nowMs with
        ⟨x, -, -, heq⟩ | ⟨-, ⟨-, heq⟩ | ⟨-, heq⟩⟩ <;> rw [heq] <;> rfl
    · rfl
  · split
    · split_ifs
      · exact .inl rfl
      · refine .inr ?_
        unfold pollTimeout
        simp only
        rw [(flushData_keeps nowMs).2.1]
        exact retransmitOldest_estimate _ nowMs true
      · exact .inl hflush
    · exact .inl hflush

end Connection

/-- what the application gives and takes sends nothing -/
theorem Socket.Prepared.ready {P : Type} {config : Config} {isn : U32} {c c1 : Connection P} {acc acc1 : List U8} {log : List Sent}
    (h : Socket.Prepared config c acc c1 acc1) (hs : c.SendInv config isn acc) (hk : c.Karn isn acc log) :
    c1.SendInv config isn acc1 ∧ c1.Karn isn acc1 log := by
  cases h with
  | none => exact ⟨hs, hk⟩
  | accept bytes hst hclose hroom =>
    obtain ⟨h1, h2⟩ := hs.sender.pos_accept bytes
    exact ⟨hs.accept hst hroom, hk.still h1 h2 rfl rfl⟩
  | consume count => exact ⟨⟨hs.sender, hs.window, hs.mss, hs.buffer⟩, hk.still rfl rfl rfl rfl⟩

/-! ## Tapped sockets -/

/-- a socket, and what the tap has written down of what it emitted -/
structure Tapped (P : Type) where
  socket : Socket P
  log : List Sent
deriving DecidableEq, Repr

namespace Tapped

open Connection

variable {P : Type} {config : Config} {isn : U32} {l : Tapped P}

def start (config : Config) (o : Opening P) : Tapped P := ⟨o.socket config, tap o.isn o.time [] (o.socket config).sent⟩

def step (config : Config) (isn : U32) (l : Tapped P) (op : SocketOp) : Tapped P :=
  let socket := l.socket.step config op
  ⟨socket, tap isn op.time l.log (socket.sent.drop l.socket.sent.length)⟩

abbrev run (config : Config) (o : Opening P) (ops : List SocketOp) : Tapped P := Run.exec (step config o.isn) (start config o) ops

/-- the tap does nothing to its socket -/
theorem run_socket (config : Config) (o : Opening P) (ops : List SocketOp) :
    (run config o ops).socket = Socket.run config o ops :=
  Run.exec_map Tapped.socket (fun _ _ => rfl) _ ops

/-- the log and the watermark of a retained connection are in order -/
def Inv (config : Config) (isn : U32) (l : Tapped P) : Prop :=
  l.socket.retained = true → l.socket.conn.SendInv config isn l.socket.accepted ∧ l.socket.conn.Karn isn l.socket.accepted l.log

theorem inv_start (hv : config.Valid) (o : Opening P) : (start config o).Inv config o.isn := by
  intro _
  have hs : (o.connection config).1.SendInv config o.isn [] := o.sendInv hv
  refine ⟨hs, ?_⟩
  -- the SYN, before which nothing was sent
  have hsyn : ∀ {c : Connection P} {flags : Flags} {nowMs : ℕ}, flags.contains .SYN = true → flags.contains .FIN = false →
      (c.sendTracked flags [] nowMs).1.sender = Sender.start o.isn → c.unacked = [] → c.sendNxt = o.isn → c.rtt.sampleAfter = none →
      (c.sendTracked flags [] nowMs).1.Karn o.isn [] (tap o.isn nowMs [] [(c.sendTracked flags [] nowMs).2]) :=
    fun {c flags nowMs} hsyn hfin hsend hu hn hm => by
      obtain ⟨x, hx⟩ : ∃ x, x = (⟨c.sendNxt, flags, [], nowMs, 1⟩ : TrackedSegment) := ⟨_, rfl⟩
      have hlen : x.piece.len = 1 := by simp [hx, TrackedSegment.piece, Piece.len, hsyn, hfin]
      have hseg : (c.sendTracked flags [] nowMs).2.sequenceLen = asU32 1 := by
        rw [← hlen, hx]; exact segmentFor_sequenceLen _ _
      have hseq : (c.sendTracked flags [] nowMs).2.seq = pos o.isn 0 := by rw [pos_zero]; exact hn
      rw [tap_one hseq hseg Nat.one_pos (by norm_num) le_rfl (by norm_num)]
      have hone : (Sender.start o.isn).nxtPos ([] : List U8) = 1 ∧ (Sender.start o.isn).unaPos ([] : List U8) = 0 := ⟨rfl, rfl⟩
      have hno : ∀ p, p ∉ (none : Option ℕ) := Option.not_mem_none
      refine ⟨?_, Covered.nil.snoc le_rfl, none, hm.trans rfl, fun p hp => absurd hp (hno p), ?_, fun p hp => absurd hp (hno p)⟩
      · rw [hsend, hone.1]; rfl
      · have hunacked : (c.sendTracked flags [] nowMs).1.unacked = [] ++ [x] := by
          change c.unacked ++ [_] = _
          rw [hu, hx]
        have hempty : Dated (fun x : TrackedSegment => x.piece.len) TrackedSegment.sentAtMs [] (Beyond none) 0 [] := trivial
        rw [hsend, hone.2, hunacked]
        exact hempty.push le_rfl rfl hlen.symm (by rw [hx])
  cases o with
  | client peer localPort remotePort isn nowMs token =>
    exact hsyn (by decide) (by decide) (sendTracked_start nowMs (by decide) (by decide) rfl) rfl rfl rfl
  | server peer syn isn nowMs token =>
    have hquiet := (Connection.new peer syn.dstPort syn.srcPort .synReceived isn (syn.seq + 1) config
      token).updateRemoteWindow_sender syn.window nowMs
    obtain ⟨hu, hrtt⟩ := updateRemoteWindow_unacked (Connection.new peer syn.dstPort syn.srcPort .synReceived isn (syn.seq + 1)
      config token) syn.window nowMs
    exact hsyn (by decide) (by decide) (sendTracked_start nowMs (by decide) (by decide) hquiet) hu (congrArg Sender.nxt hquiet)
      (congrArg RttEstimator.sampleAfter hrtt)

/-- **Preservation, one operation.** -/
theorem inv_step (hi : l.Inv config isn) (op : SocketOp) : (l.step config isn op).Inv config isn := by
  intro hr
  have hret : l.socket.retained = true := Socket.retained_before hr
  obtain ⟨hs, hk⟩ := hi hret
  obtain ⟨c, out, hprep, hsent, hmoves⟩ := Socket.step_moves hs.mss hret op hr
  have hlog : (l.step config isn op).log = tap isn op.time l.log out := by
    simp only [step, hsent, List.drop_left]
  have hacc : (l.step config isn op).socket.accepted = (l.socket.step config op).accepted := rfl
  rw [hlog, hacc]
  obtain ⟨h1, h2⟩ := hprep.ready hs hk
  exact ⟨h1.moves hmoves, hmoves.karn h1 h2⟩

theorem inv_run (o : Opening P) (hv : config.Valid) (ops : List SocketOp) : (run config o ops).Inv config o.isn :=
  Run.exec_invariant (P := Inv config o.isn) (fun _ op h => inv_step h op) (inv_start hv o) ops

/-- a segment that the ACK takes, what it holds having been put on the wire once, and after the last repetition -/
structure FreshSample (l : Tapped P) (ack : U32) (x : TrackedSegment) (k : ℕ) (t : Sent) : Prop where
  tracked : x ∈ l.socket.conn.unacked
  acked : l.socket.conn.position x.endSeq ≤ l.socket.conn.position ack
  logged : l.log[k]? = some t
  sent : t.atMs = x.sentAtMs
  start : t.start ≤ l.socket.conn.position x.seq
  stop : t.start + t.len = l.socket.conn.position x.endSeq
  once : ∀ j p, HoldsAt l.log j p → t.Holds p → j = k
  latest : ∀ j, Repeats l.log j → j < k

/-- a fresh segment that the ACK takes passes the test -/
theorem FreshSample.passes {acc : List U8} {ack : U32} {x : TrackedSegment} {k : ℕ} {t : Sent} (h : FreshSample l ack x k t)
    (hs : l.socket.conn.SendInv config isn acc) (hk : l.socket.conn.Karn isn acc l.log) :
    l.socket.conn.position x.endSeq ∈
        ends (fun x : TrackedSegment => x.piece.len) (l.socket.conn.sender.unaPos acc) l.socket.conn.unacked ∧
      l.socket.conn.position x.endSeq ≤ l.socket.conn.sender.unaPos acc + distance l.socket.conn.sendUna ack ∧
      l.socket.conn.rtt.canSample (pos isn (l.socket.conn.position x.endSeq)) = true := by
  obtain ⟨q, hseq, hq, hmem⟩ := hs.mem_ends h.tracked
  obtain ⟨h1, h2⟩ := hs.ends_bounds _ hmem
  have hlen := hs.len_pos h.tracked
  have hpos : l.socket.conn.position x.seq = q := by rw [hseq]; exact hs.position_eq hq (by omega)
  have hpos' : l.socket.conn.position x.endSeq = q + x.piece.len := by rw [hs.position_endSeq h.tracked, hpos]
  have hstart := h.start
  have hacked := h.acked
  rw [hpos', position, hs.unaPosition_eq] at hacked
  rw [hpos']
  exact ⟨hmem, hacked, hk.canSample hs h.logged h.latest (by omega) h1 h2⟩

/-- what a sample is taken from, in the positions of the connection -/
theorem fresh_of_gives {acc : List U8} {ack : U32} {nowMs : ℕ} {r : RttEstimator} (hs : l.socket.conn.SendInv config isn acc)
    (hk : l.socket.conn.Karn isn acc l.log) (h : Gives isn acc l.log l.socket.conn ack nowMs r) :
    ∃ x k t, FreshSample l ack x k t ∧
      (∀ z i v, FreshSample l ack z i v → l.socket.conn.position z.endSeq ≤ l.socket.conn.position x.endSeq) ∧
      r.estimate = (l.socket.conn.rtt.sample (nowMs - x.sentAtMs)).estimate := by
  obtain ⟨x, hx, q, hseq, hq, hend, ⟨k, t, hk', hfresh, hat, hstart, hstop⟩, hlast, hr⟩ := h
  obtain ⟨hnxt, hroom⟩ := hs.flight
  obtain ⟨q', hseq', hq', hend'⟩ := hs.placed hx
  have hqq : q = q' := by
    refine (pos_inj isn ?_ ?_).1 (hseq.symm.trans hseq')
    · have := dist_lt l.socket.conn.sendUna ack
      rw [← distance_eq_dist] at this
      omega
    · omega
  subst hqq
  have hpos : l.socket.conn.position x.seq = q := by rw [hseq]; exact hs.position_eq hq (by omega)
  have hpos' : l.socket.conn.position x.endSeq = q + x.piece.len := by rw [hs.position_endSeq hx, hpos]
  refine ⟨x, k, t, ⟨hx, ?_, hk', hat, by rw [hpos]; exact hstart, by rw [hpos']; exact hstop, fun j p hj hp => ?_,
    fun j hj => hfresh.after_repeat hj⟩, fun z i v hz => ?_, hr⟩
  · rw [hpos', position, hs.unaPosition_eq]
    exact hend
  · exact hfresh.once ⟨t, hk', hp⟩ hj
  · obtain ⟨hmem, hle, hpass⟩ := hz.passes hs hk
    rw [hpos']
    exact hlast _ hmem hle hpass

/-- **The sample is taken.** An ACK that advances over a fresh segment gives the sample of the last one. -/
theorem sample_of_fresh {acc : List U8} {segment : Segment} {nowMs : ℕ} {c' : Connection P} {ack : U32} {x : TrackedSegment} {k : ℕ}
    {t : Sent} (hs : l.socket.conn.SendInv config isn acc) (hk : l.socket.conn.Karn isn acc l.log)
    (h : Sampling isn acc l.log l.socket.conn segment nowMs c') (hack : segment.ack = some ack)
    (huna : c'.sendUna ≠ l.socket.conn.sendUna) (hx : FreshSample l ack x k t) :
    ∃ y j u, FreshSample l ack y j u ∧
      (∀ z i v, FreshSample l ack z i v → l.socket.conn.position z.endSeq ≤ l.socket.conn.position y.endSeq) ∧
      c'.rtt.estimate = (l.socket.conn.rtt.sample (nowMs - y.sentAtMs)).estimate := by
  cases h with
  | still hest hsame => exact absurd hsame huna
  | skipped ack' hack' hest hskips =>
    rw [hack, Option.some.injEq] at hack'
    subst hack'
    obtain ⟨hmem, hle, hpass⟩ := hx.passes hs hk
    exact absurd hpass (hskips _ hmem hle)
  | given ack' hack' hgives =>
    rw [hack, Option.some.injEq] at hack'
    subst hack'
    exact fresh_of_gives hs hk hgives

/-- an operation that is neither a segment nor a poll -/
theorem other_estimate (hret : l.socket.retained = true) (op : SocketOp) (hinput : ∀ segment nowMs, op ≠ .input segment nowMs)
    (hpoll : ∀ nowMs, op ≠ .poll nowMs) : (l.socket.step config op).conn.rtt.estimate = l.socket.conn.rtt.estimate := by
  cases op with
  | input segment nowMs => exact absurd rfl (hinput segment nowMs)
  | poll nowMs => exact absurd rfl (hpoll nowMs)
  | write bytes nowMs =>
    simp only [Socket.step, Socket.onWrite, hret, if_true]
    rcases hw : l.socket.conn.write bytes nowMs config with _ | ⟨conn, count, out⟩
    · rfl
    · unfold Connection.write at hw
      split_ifs at hw
      simp only [Except.ok.injEq, Prod.mk.injEq] at hw
      rw [← hw.1, (flushData_keeps nowMs).2.1]
  | read max =>
    simp only [Socket.step, Socket.onRead, hret, if_true, Connection.read]
  | close nowMs =>
    simp only [Socket.step, Socket.onUpdate, hret, if_true, Connection.close]
    split
    any_goals rfl
    all_goals rw [(flushData_keeps nowMs).2.1]
  | abort =>
    simp only [Socket.step, Socket.onAbort, hret, if_true]

/-- a segment reaches the connection -/
theorem input_conn (hret : l.socket.retained = true) (segment : Segment) (nowMs : ℕ) :
    (l.socket.step config (.input segment nowMs)).conn = (l.socket.conn.input segment nowMs config).1 := by
  simp only [Socket.step, Socket.onInput, hret, if_true]

theorem poll_conn (hret : l.socket.retained = true) (nowMs : ℕ) :
    (l.socket.step config (.poll nowMs)).conn = (l.socket.conn.poll nowMs config).1 := by
  simp only [Socket.step, Socket.onUpdate, hret, if_true]

/-- **No sample of old data.** An ACK that takes only what was sent before a repetition takes no fresh segment. -/
theorem FreshSample.not_old {acc : List U8} {ack : U32} {x : TrackedSegment} {k r : ℕ} {t : Sent} (h : FreshSample l ack x k t)
    (hs : l.socket.conn.SendInv config isn acc) (hrepeat : Repeats l.log r) :
    ¬ ∀ p, l.socket.conn.unaPosition ≤ p → p < l.socket.conn.position ack → ∃ j < r, HoldsAt l.log j p := by
  intro hcover
  -- the last position of the segment was sent before the repetition, and once
  have hlen := hs.len_pos h.tracked
  have hlast := hs.position_endSeq h.tracked
  have hstart := h.start
  have hstop := h.stop
  have hacked := h.acked
  have hun : l.socket.conn.unaPosition ≤ l.socket.conn.position x.seq := Nat.le_add_right _ _
  obtain ⟨j, hj, hholds⟩ := hcover (l.socket.conn.position x.endSeq - 1) (by omega) (by omega)
  have hjk := h.once j _ hholds ⟨by omega, by omega⟩
  have hrk := h.latest r hrepeat
  omega

end Tapped

/-- **Karn's rule**, in every run against any peer. An operation leaves the estimate, or it is a poll that backs the timeout
off, or a segment whose ACK takes a segment that was put on the wire once and after every repetition, and whose age is the
sample. So an ACK that takes only positions sent before some repetition leaves the estimate; and one that moves `send_una` over
such a segment gives the sample of the last. -/
theorem rtt_samples_fresh {P : Type} (config : ValidConfig) (o : Opening P) (ops : List SocketOp) (op : SocketOp)
    (hr : (Tapped.run config.1 o ops).socket.retained = true) :
    let l := Tapped.run config.1 o ops
    let before := l.socket.conn
    let after := (l.socket.step config.1 op).conn
    (after.rtt.estimate = before.rtt.estimate ∨
      (∃ nowMs, op = .poll nowMs ∧ after.rtt.estimate = before.rtt.onTimeout.estimate) ∨
      ∃ segment nowMs ack x k t, op = .input segment nowMs ∧ segment.ack = some ack ∧ l.FreshSample ack x k t ∧
        after.rtt.estimate = (before.rtt.sample (nowMs - x.sentAtMs)).estimate) ∧
    (∀ segment nowMs ack r, op = .input segment nowMs → segment.ack = some ack → Repeats l.log r →
      (∀ p, before.unaPosition ≤ p → p < before.position ack → ∃ j < r, HoldsAt l.log j p) →
      after.rtt.estimate = before.rtt.estimate) ∧
    ∀ segment nowMs ack x k t, op = .input segment nowMs → segment.ack = some ack → after.sendUna ≠ before.sendUna →
      l.FreshSample ack x k t → ∃ y j u, l.FreshSample ack y j u ∧
        (∀ z i v, l.FreshSample ack z i v → before.position z.endSeq ≤ before.position y.endSeq) ∧
        after.rtt.estimate = (before.rtt.sample (nowMs - y.sentAtMs)).estimate := by
  intro l before after
  obtain ⟨hs, hk⟩ := Tapped.inv_run o config.valid ops hr
  have hret : l.socket.retained = true := hr
  have hsampling : ∀ segment nowMs, op = .input segment nowMs →
      Connection.Sampling o.isn l.socket.accepted l.log before segment nowMs after := fun segment nowMs hop => by
    have hconn : after = (before.input segment nowMs config.1).1 := by
      rw [← Tapped.input_conn hret, ← hop]
    rw [hconn]
    exact hk.input_sampling hs segment nowMs
  have hsegment : ∀ segment nowMs, op = .input segment nowMs → after.rtt.estimate = before.rtt.estimate ∨
      ∃ ack x k t, segment.ack = some ack ∧ l.FreshSample ack x k t ∧
        after.rtt.estimate = (before.rtt.sample (nowMs - x.sentAtMs)).estimate := fun segment nowMs hop => by
    cases hsampling segment nowMs hop with
    | still hest => exact .inl hest
    | skipped ack hack hest => exact .inl hest
    | given ack hack hgives =>
      obtain ⟨x, k, t, hfresh, -, hest⟩ := Tapped.fresh_of_gives hs hk hgives
      exact .inr ⟨ack, x, k, t, hack, hfresh, hest⟩
  refine ⟨?_, fun segment nowMs ack r hop hack hrepeat hcover => ?_, fun segment nowMs ack x k t hop hack huna hx =>
    Tapped.sample_of_fresh hs hk (hsampling segment nowMs hop) hack huna hx⟩
  · by_cases hinput : ∃ segment nowMs, op = .input segment nowMs
    · obtain ⟨segment, nowMs, hop⟩ := hinput
      rcases hsegment segment nowMs hop with hsame | ⟨ack, x, k, t, hack, hfresh, hest⟩
      · exact .inl hsame
      · exact .inr (.inr ⟨segment, nowMs, ack, x, k, t, hop, hack, hfresh, hest⟩)
    by_cases hpoll : ∃ nowMs, op = .poll nowMs
    · obtain ⟨nowMs, hop⟩ := hpoll
      have hconn : after = (before.poll nowMs config.1).1 := by
        rw [← Tapped.poll_conn hret, ← hop]
      rw [hconn]
      exact (before.poll_estimate nowMs config.1).imp id fun h => .inl ⟨nowMs, hop, h⟩
    · exact .inl (Tapped.other_estimate hr op (fun segment nowMs h => hinput ⟨segment, nowMs, h⟩) fun nowMs h => hpoll ⟨nowMs, h⟩)
  · rcases hsegment segment nowMs hop with h | ⟨ack', x, k, t, hack', hfresh, -⟩
    · exact h
    · rw [hack, Option.some.injEq] at hack'
      subst hack'
      exact absurd hcover (hfresh.not_old hs hrepeat)

/-- a client that sends a byte, sends it again when the timeout expires, and then sends another -/
def repeatRun : List SocketOp :=
  [.input { Segment.new 80 9000 700 with
      ack := some 101
      flags := Flags.SYN.union .ACK
      window := 1000
      options := [.maxSegmentSize 1000, .fipsVersion FIPS_VERSION 0] } 100,
    .write [7] 100, .poll 1100, .write [8] 1200]

/-- the ACK of both bytes -/
def repeatAck : Segment := { Segment.new 80 9000 701 with ack := some 103, flags := .ACK, window := 1000 }

theorem repeatRun_log :
    (Tapped.run Config.default (.client () 9000 80 100 0 0) repeatRun).log = [⟨0, 1, 0⟩, ⟨1, 1, 100⟩, ⟨1, 1, 1100⟩, ⟨2, 1, 1200⟩] := by
  decide

theorem repeatRun_repeats : Repeats [⟨0, 1, 0⟩, ⟨1, 1, 100⟩, ⟨1, 1, 1100⟩, ⟨2, 1, 1200⟩] 2 :=
  ⟨1, by decide, 1, ⟨_, rfl, by decide⟩, ⟨_, rfl, by decide⟩⟩

/-- the last byte was sent once, and after the repetition -/
theorem repeatRun_fresh :
    (Tapped.run Config.default (.client () 9000 80 100 0 0) repeatRun).FreshSample 103 ⟨102, Flags.ACK.union .PSH, [8], 1200, 1⟩ 3
      ⟨2, 1, 1200⟩ := by
  have hfresh : Fresh ([⟨0, 1, 0⟩, ⟨1, 1, 100⟩, ⟨1, 1, 1100⟩] ++ [⟨2, 1, 1200⟩]) 3 := fresh_last (by decide)
  refine ⟨by decide, by decide, ?_, rfl, by decide, by decide, fun j p hj hp => ?_, fun j hj => ?_⟩
  · rw [repeatRun_log]
    rfl
  · rw [repeatRun_log] at hj
    exact hfresh.once ⟨_, rfl, hp⟩ hj
  · rw [repeatRun_log] at hj
    exact hfresh.after_repeat hj

theorem rtt_samples_fresh_repeat :
    let l := Tapped.run Config.default (.client () 9000 80 100 0 0) repeatRun
    let before := l.socket.conn
    let after (ack : U32) := (l.socket.step Config.default (.input { repeatAck with ack := some ack } 1300)).conn
    l.socket.retained = true ∧ Repeats l.log 2 ∧ (after 102).rtt.estimate = before.rtt.estimate ∧
      ∃ y j u, l.FreshSample 103 y j u ∧ (after 103).rtt.estimate = (before.rtt.sample (1300 - y.sentAtMs)).estimate := by
  have hrepeat := repeatRun_repeats
  rw [← repeatRun_log] at hrepeat
  have hold := (rtt_samples_fresh ⟨Config.default, Config.default_validate⟩ (.client () 9000 80 100 0 0) repeatRun
    (.input { repeatAck with ack := some 102 } 1300) (by decide)).2.1
  have hnew := (rtt_samples_fresh ⟨Config.default, Config.default_validate⟩ (.client () 9000 80 100 0 0) repeatRun
    (.input { repeatAck with ack := some 103 } 1300) (by decide)).2.2
  refine ⟨by decide, hrepeat, hold _ _ 102 2 rfl rfl hrepeat fun p h1 h2 => ⟨1, by decide, ?_⟩, ?_⟩
  · rw [repeatRun_log]
    exact ⟨_, rfl, Nat.le_trans (by decide) h1, Nat.lt_of_lt_of_le h2 (by decide)⟩
  · obtain ⟨y, j, u, hy, -, hest⟩ := hnew _ _ 103 _ 3 _ rfl rfl (by decide) repeatRun_fresh
    exact ⟨y, j, u, hy, hest⟩

/-- **An ACK of new data gives its sample,** also if it takes data that was sent before a repetition. -/
theorem rtt_changed_by_old_ack :
    ¬ ∀ (config : ValidConfig) (o : Opening Unit) (ops : List SocketOp) (segment : Segment) (nowMs : ℕ) (ack : U32) (j r p : ℕ),
      let l := Tapped.run config.1 o ops
      l.socket.retained = true → segment.ack = some ack → Repeats l.log r → j < r → HoldsAt l.log j p →
      l.socket.conn.unaPosition ≤ p → p < l.socket.conn.position ack →
      (l.socket.step config.1 (.input segment nowMs)).conn.rtt.estimate = l.socket.conn.rtt.estimate := by
  intro h
  have hrepeat := repeatRun_repeats
  rw [← repeatRun_log] at hrepeat
  have hheld : HoldsAt (Tapped.run Config.default (.client () 9000 80 100 0 0) repeatRun).log 1 1 := by
    rw [repeatRun_log]
    exact ⟨_, rfl, by decide⟩
  have := h ⟨Config.default, Config.default_validate⟩ (.client () 9000 80 100 0 0) repeatRun repeatAck 1300 103 1 2 1
    (by decide) rfl hrepeat (by decide) hheld (by decide) (by decide)
  exact absurd (congrArg RttEstimator.rttvarMs this) (by decide)

end FipsTcp
