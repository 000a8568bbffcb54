/-
The repair of a timed-out flight.

The first timeout of an episode marks how far the flight reached. Until everything before the mark is acknowledged, each ACK that
advances `send_una` is answered with the oldest segment that is left. `Episode` keeps the mark as a position of the stream, read off
what was sent and acknowledged, and not as the number the connection compares with.
- `Episode.Follows`: the field is the mark, which lies beyond `send_una`, not beyond `send_nxt`, and inside no segment in flight;
- `repair_confined`: what is sent again outside the timer, for every run.
-/
import FipsTcp.Connection.FastRetransmit

namespace FipsTcp

open SendWindow Serial

namespace Connection

variable {P : Type} {config : Config} {nowMs : ℕ} {inp : Option Segment} {isn : U32} {acc : List U8} {c c' : Connection P}
  {segment x : Segment} {again : Option Segment} {out : List Segment} {since : Option ℕ} {e : ℕ}

theorem Moves.boundary (h : Moves config nowMs inp c out c') (hs : c.SendInv config isn acc) (hb : c.sender.Boundary acc e)
    (he : c'.sender.unaPos acc ≤ e) : c'.sender.Boundary acc e := by
  induction h with
  | refl => exact hb
  | cons h hrest ih =>
    have hs1 := h.sendInv hs
    have hle := (hrest.positions hs1).2
    exact ih hs1 ((h.sender_step hs).boundary hs.sender hb (hle.trans he)) he

/-- what a synchronized connection sends again in answer to a segment that is no loss signal -/
def Repairs (c : Connection P) (segment x : Segment) : Prop := c.Synchronized ∧ c.Again x ∧ ¬ c.LossSignal segment

/-- the field of the connection is the mark of the episode -/
structure Recovering (isn : U32) (acc : List U8) (since : Option ℕ) (c : Connection P) : Prop where
  field : c.rtoRecoveryUntil = since.map (pos isn)
  after : ∀ e ∈ since, c.sender.unaPos acc < e
  sent : ∀ e ∈ since, e ≤ c.sender.nxtPos acc
  boundary : ∀ e ∈ since, c.sender.Boundary acc e

theorem unaPos_lt_nxtPos (hs : c.SendInv config isn acc) (hne : c.unacked ≠ []) : c.sender.unaPos acc < c.sender.nxtPos acc := by
  have hle := hs.sender.total_le
  have htotal : total c.sender.flight ≠ 0 := fun h0 => by
    have hnil : c.unacked.map TrackedSegment.piece = [] := hs.sender.chain.eq_nil_iff.2 h0
    exact hne (List.map_eq_nil_iff.1 hnil)
  unfold Sender.unaPos
  omega

/-- the comparison with the field is the comparison with the mark -/
theorem filter_field {una : ℕ} (hlow : ∀ e ∈ since, una < e + 65536) (hhigh : ∀ e ∈ since, e < una + 65536) :
    ((since.map (pos isn)).filter fun end_ => decide (before (pos isn una) end_)) = (since.filter fun e => decide (una < e)).map (pos isn) := by
  cases since with
  | none => rfl
  | some e =>
    have hlow := hlow e rfl
    have hhigh := hhigh e rfl
    have hiff : before (pos isn una) (pos isn e) ↔ una < e := before_pos (by omega) (by omega)
    simp only [Option.map_some, Option.filter_some, hiff]
    split_ifs <;> rfl

theorem filter_since {una : ℕ} (h : ∀ e ∈ since, una < e) : (since.filter fun e => decide (una < e)) = since := by
  cases since with
  | none => rfl
  | some e => rw [Option.filter_some, decide_eq_true (h e rfl), if_pos rfl]

/-- an ACK that reaches the mark ends the episode, and any other leaves it -/
theorem Recovering.acked (hm : c.Recovering isn acc since) (hs : c.SendInv config isn acc) {ack : U32} (hadv : c.Advances ack)
    {c1 : Connection P} (hsender : c1.sender = c.sender.ack ack) :
    (c.rtoRecoveryUntil.filter fun end_ => decide (before ack end_)) =
      (since.filter fun e => decide (c1.sender.unaPos acc < e)).map (pos isn) := by
  obtain ⟨h0, hn⟩ := hadv.within hs.sender
  have hack : ack = pos isn (c1.sender.unaPos acc) := by
    have hinv := (hs.sender.ack h0 hn).una
    rw [← hsender] at hinv
    rw [← hinv, hsender]
    rfl
  have hpos : c1.sender.unaPos acc = c.sender.unaPos acc + distance c.sendUna ack := by
    rw [hsender]
    exact hs.sender.unaPos_ack hn
  have hroom : total c.sender.flight ≤ 65535 := hs.sender.room
  have hnxt := hs.nxtPos_le
  have hflight : distance c.sendUna ack ≤ total c.sender.flight := hn
  rw [hm.field, hack]
  refine filter_field (fun e he => ?_) fun e he => ?_
  · have := hm.after e he
    omega
  · have := hm.sent e he
    omega

/-- **A segment** ends the episode when it acknowledges the mark, and does not move it otherwise. -/
theorem Response.field (h : Response acc c segment again c') (hs : c.SendInv config isn acc) (hm : c.Recovering isn acc since) :
    c'.rtoRecoveryUntil = (since.filter fun e => decide (c'.sender.unaPos acc < e)).map (pos isn) := by
  have hsame : c'.lossMarks.rtoRecoveryUntil = c.rtoRecoveryUntil → KeepsUna acc c c' →
      c'.rtoRecoveryUntil = (since.filter fun e => decide (c'.sender.unaPos acc < e)).map (pos isn) := fun hmarks huna => by
    rw [huna.pos, filter_since hm.after, ← hm.field]
    exact hmarks
  cases h with
  | ignored _ hi hmarks huna => exact hsame (congrArg LossMarks.rtoRecoveryUntil hmarks) huna
  | reopened _ hst hsyn hmarks huna => exact hsame (congrArg LossMarks.rtoRecoveryUntil hmarks) huna
  | repeated _ hst hi hack hmarks huna => exact hsame (congrArg LossMarks.rtoRecoveryUntil hmarks) huna
  | established c1 _ hst hmarks hsender huna =>
    have hopening : c.state.phase = .opening := by
      by_contra hne
      exact hst (synchronized_iff.2 hne)
    have hadv := (advances_sendNxt hs.sender (by norm_num) (unacked_opening hs.sender hopening)).1
    rw [huna.pos, ← hm.acked hs hadv hsender]
    exact congrArg LossMarks.rtoRecoveryUntil hmarks
  | advanced c1 _ _ ack hst hi hack hadv hmarks hsender huna =>
    rw [huna.pos, ← hm.acked hs hadv hsender]
    exact congrArg LossMarks.rtoRecoveryUntil hmarks

/-- **A segment** makes the connection send at most one segment again. -/
theorem input_again_le (hs : c.SendInv config isn acc) (segment : Segment) (nowMs : ℕ) :
    ((c.input segment nowMs config).2.segments.filter fun x => decide (c.Again x)).length ≤ 1 := by
  cases hopen : (c.input segment nowMs config).2.closed with
  | true =>
    rw [((input_moves config nowMs segment hs.mss).2 hopen).1]
    exact Nat.zero_le 1
  | false =>
    obtain ⟨again, rest, hout, hrest, -⟩ := input_response hs segment nowMs hopen
    have hnone : (rest.filter fun x => decide (c.Again x)) = [] := by
      rw [List.filter_eq_nil_iff]
      exact fun x hx => by rw [decide_eq_true_eq]; exact hrest x hx
    rw [hout, List.filter_append, hnone, List.append_nil]
    refine (List.length_filter_le _ _).trans ?_
    cases again with
    | none => exact Nat.zero_le 1
    | some x => exact le_rfl

/-- **A repair** starts where the ACK has brought `send_una`, and ends at the mark or before it. -/
theorem Response.repairs (h : Response acc c segment again c') (hs : c.SendInv config isn acc) (hm : c.Recovering isn acc since)
    (hx : x ∈ again) (hrepair : c.Repairs segment x) : c.sender.unaPos acc < c'.sender.unaPos acc ∧ x.seq = c'.sendUna ∧
      ∃ e, since = some e ∧ c'.sender.unaPos acc < e ∧ c'.sender.unaPos acc + x.sequenceLen.toNat ≤ e := by
  have hfield := h.field hs hm
  obtain ⟨hsync, -, hsignal⟩ := hrepair
  cases h with
  | ignored => cases hx
  | established => cases hx
  | reopened _ hst => exact absurd hst hsync.2
  | repeated =>
    rw [if_neg fun h => hsignal h.1] at hx
    cases hx
  | advanced c1 _ _ ack hst hi hack hadv hmarks hsender huna hagain =>
    obtain ⟨⟨end_, hend⟩, oldest, hold, rfl⟩ := hagain x hx
    obtain ⟨h0, hn⟩ := hadv.within hs.sender
    have hstep : Sender.Step 65535 c.sender c1.sender := by
      rw [hsender]
      exact .ack c.sender ack h0 hn
    have hinv := hstep.inv hs.sender
    have hadvance : c1.sender.unaPos acc = c.sender.unaPos acc + distance c.sendUna ack := by
      rw [hsender]
      exact hs.sender.unaPos_ack hn
    -- the field is still set, so the mark lies ahead
    rw [hend] at hfield
    obtain ⟨e, hfilter, -⟩ := Option.map_eq_some_iff.1 hfield.symm
    obtain ⟨hsince, hafter⟩ := Option.filter_eq_some_iff.1 hfilter
    have hafter : c'.sender.unaPos acc < e := of_decide_eq_true hafter
    have hafter1 : c1.sender.unaPos acc < e := huna.pos ▸ hafter
    have hhead : oldest.piece ∈ c1.sender.flight.head? := by
      change oldest.piece ∈ (c1.unacked.map TrackedSegment.piece).head?
      rw [List.head?_map, show c1.unacked.head? = some oldest from hold]
      rfl
    have hend1 := (hstep.boundary hs.sender (hm.boundary e hsince) hafter1.le).head_le hafter1 hhead
    have hlen : (c1.segmentFor oldest).sequenceLen.toNat = oldest.piece.len := by
      have hnxt := hs.nxtPos_le
      have hsent := hm.sent e hsince
      rw [segmentFor_sequenceLen, asU32, BitVec.toNat_ofNat, Nat.mod_eq_of_lt (by omega)]
    refine ⟨by rw [huna.pos, hadvance]; omega, ?_, e, hsince, hafter, by rw [huna.pos, hlen]; exact hend1⟩
    exact (head_seq hinv hold).trans huna.una.symm

end Connection

/-! ## The mark beside a socket -/

namespace Socket

variable {P : Type}

/-- how much of the stream was sent, with the marks at its ends -/
def nxtPos (s : Socket P) : ℕ := s.conn.sender.nxtPos s.accepted

/-- how much of it was acknowledged -/
def unaPos (s : Socket P) : ℕ := s.conn.sender.unaPos s.accepted

/-- the operation is a poll that finds the retransmission timer run out -/
def TimesOut (config : Config) (s : Socket P) : SocketOp → Prop
  | .poll nowMs => s.conn.TimesOut config nowMs
  | _ => False

instance (config : Config) (s : Socket P) : DecidablePred (s.TimesOut config)
  | .poll nowMs => inferInstanceAs (Decidable (s.conn.TimesOut config nowMs))
  | .input _ _ | .write _ _ | .read _ | .close _ | .abort => inferInstanceAs (Decidable False)

/-- an operation takes nothing back that was sent, and a boundary stays one until it is acknowledged -/
theorem step_boundary {config : Config} {isn : U32} {s : Socket P} (hret : s.retained = true) (hs : s.conn.SendInv config isn s.accepted)
    (op : SocketOp) (hr : (s.step config op).retained = true) : s.nxtPos ≤ (s.step config op).nxtPos ∧
      ∀ e, s.conn.sender.Boundary s.accepted e → (s.step config op).unaPos ≤ e →
        (s.step config op).conn.sender.Boundary (s.step config op).accepted e := by
  obtain ⟨c, out, hprep, -, hmoves⟩ := step_moves hs.mss hret op hr
  unfold nxtPos unaPos
  generalize (s.step config op).accepted = acc at hprep
  cases hprep with
  | none => exact ⟨(hmoves.positions hs).1, fun e hb he => hmoves.boundary hs hb he⟩
  | accept bytes hst hclose hroom =>
    have hs1 := hs.accept hst hroom
    obtain ⟨hnxt, -⟩ := hs.sender.pos_accept bytes
    exact ⟨hnxt ▸ (hmoves.positions hs1).1, fun e hb he => hmoves.boundary hs1 (hb.accept hs.sender bytes) he⟩
  | consume count =>
    have hs1 : (s.conn.consume count).SendInv config isn s.accepted := ⟨hs.sender, hs.window, hs.mss, hs.buffer⟩
    exact ⟨(hmoves.positions hs1).1, fun e hb he => hmoves.boundary hs1 hb he⟩

end Socket

/-- a socket, with how much was sent at the first timeout of an episode that is not over -/
structure Episode (P : Type) where
  socket : Socket P
  since : Option ℕ

namespace Episode

variable {P : Type} {config : Config} {isn : U32} {l : Episode P} {op : SocketOp}

/-- a timeout begins an episode unless there is one; an ACK of all that was sent by then ends it -/
def step (config : Config) (l : Episode P) (op : SocketOp) : Episode P :=
  ⟨l.socket.step config op,
    (if l.socket.TimesOut config op then some (l.since.getD l.socket.nxtPos) else l.since).filter
      fun e => decide ((l.socket.step config op).unaPos < e)⟩

def run (config : Config) (o : Opening P) (ops : List SocketOp) : Episode P := Run.exec (step config) ⟨o.socket config, none⟩ ops

theorem run_socket (config : Config) (o : Opening P) (ops : List SocketOp) : (run config o ops).socket = Socket.run config o ops :=
  Run.exec_map Episode.socket (fun _ _ => rfl) _ ops

/-- only a timeout begins an episode -/
theorem since_of_not_timeout (h : ¬ l.socket.TimesOut config op) :
    (l.step config op).since = l.since.filter fun e => decide ((l.socket.step config op).unaPos < e) := by
  simp only [step]
  rw [if_neg h]

/-- the connection follows the episode -/
def Follows (isn : U32) (l : Episode P) : Prop := l.socket.conn.Recovering isn l.socket.accepted l.since

/-- what an operation does to the field -/
theorem step_field (hret : l.socket.retained = true) (hs : l.socket.conn.SendInv config isn l.socket.accepted)
    (hbudget : l.socket.conn.maxTransmissions = config.maxRetransmissions.toNat) (hm : l.socket.conn.Recovering isn l.socket.accepted l.since)
    (op : SocketOp) (hr : (l.step config op).socket.retained = true) :
    (l.step config op).socket.conn.rtoRecoveryUntil = (l.step config op).since.map (pos isn) := by
  have hsame : ¬ l.socket.TimesOut config op → (l.socket.step config op).conn.lossMarks = l.socket.conn.lossMarks →
      (l.socket.step config op).unaPos = l.socket.unaPos →
      (l.step config op).socket.conn.rtoRecoveryUntil = (l.step config op).since.map (pos isn) := fun hno hmarks huna => by
    have hrto := congrArg LossMarks.rtoRecoveryUntil hmarks
    have hkept : (l.step config op).since = l.since := by
      rw [since_of_not_timeout hno, huna]
      exact Connection.filter_since hm.after
    rw [hkept, ← hm.field]
    exact hrto
  have happlication : (∀ segment nowMs, op ≠ .input segment nowMs) → (∀ nowMs, op ≠ .poll nowMs) → ¬ l.socket.TimesOut config op →
      (l.step config op).socket.conn.rtoRecoveryUntil = (l.step config op).since.map (pos isn) := fun hinput hpoll hno => by
    obtain ⟨out, -, hundisturbed⟩ := Socket.step_undisturbed hret hs op hinput hpoll
    exact hsame hno hundisturbed.marks hundisturbed.una
  cases op with
  | input segment nowMs =>
    simp only [step, Socket.TimesOut, Socket.step, Socket.onInput, hret, if_true, Socket.unaPos] at hr ⊢
    obtain ⟨again, -, -, -, hresponse⟩ := Connection.input_response hs segment nowMs (by simpa using hr)
    exact hresponse.field hs hm
  | poll nowMs =>
    obtain ⟨hmarks, huna⟩ := Connection.poll_marks hs hbudget nowMs
    have hconn : (l.socket.step config (.poll nowMs)).conn = (l.socket.conn.poll nowMs config).1 ∧
        (l.socket.step config (.poll nowMs)).unaPos = l.socket.unaPos := by
      simp only [Socket.step, Socket.onUpdate, hret, if_true, Socket.unaPos, true_and]
      exact huna.pos
    by_cases htimeout : l.socket.conn.TimesOut config nowMs
    · rw [if_pos htimeout, ← hconn.1] at hmarks
      have hrto : (l.step config (.poll nowMs)).socket.conn.rtoRecoveryUntil = _ := congrArg LossMarks.rtoRecoveryUntil hmarks
      -- the oldest segment lies before the new mark
      have hflight : l.socket.unaPos < l.socket.nxtPos := by
        obtain ⟨-, -, oldest, hold, -⟩ := htimeout
        exact Connection.unaPos_lt_nxtPos hs (List.ne_nil_of_mem (List.mem_of_mem_head? hold))
      have hafter : ∀ e ∈ some (l.since.getD l.socket.nxtPos), l.socket.unaPos < e := fun e he => by
        obtain rfl := Option.some.inj he
        cases hsince : l.since with
        | none => exact hflight
        | some mark => exact hm.after mark hsince
      have hkept : (l.step config (.poll nowMs)).since = some (l.since.getD l.socket.nxtPos) := by
        have hbegins : l.socket.TimesOut config (.poll nowMs) := htimeout
        simp only [step]
        rw [if_pos hbegins, hconn.2]
        exact Connection.filter_since hafter
      have hnxt : l.socket.conn.sendNxt = pos isn l.socket.nxtPos := hs.sender.nxt
      rw [hrto, hkept, hm.field, hnxt]
      cases l.since <;> rfl
    · rw [if_neg htimeout] at hmarks
      exact hsame htimeout (hconn.1 ▸ hmarks) hconn.2
  | write | read | close | abort => exact happlication (by simp) (by simp) id

/-- **The field is the mark.** -/
theorem step_follows (hs : l.socket.retained = true → l.socket.conn.SendInv config isn l.socket.accepted ∧
      l.socket.conn.maxTransmissions = config.maxRetransmissions.toNat) (hl : l.socket.retained = true → l.Follows isn) (op : SocketOp)
    (hr : (l.step config op).socket.retained = true) : (l.step config op).Follows isn := by
  have hret := Socket.retained_before hr
  obtain ⟨hsend, hbudget⟩ := hs hret
  have hm : l.socket.conn.Recovering isn l.socket.accepted l.since := hl hret
  obtain ⟨hnxt, hboundary⟩ := Socket.step_boundary hret hsend op hr
  -- a new mark is where the next segment will start
  have hbase : ∀ e ∈ (if l.socket.TimesOut config op then some (l.since.getD l.socket.nxtPos) else l.since),
      e ≤ l.socket.nxtPos ∧ l.socket.conn.sender.Boundary l.socket.accepted e := fun e he => by
    have hkept : e ∈ l.since → e ≤ l.socket.nxtPos ∧ l.socket.conn.sender.Boundary l.socket.accepted e :=
      fun he => ⟨hm.sent e he, hm.boundary e he⟩
    split_ifs at he
    · cases hsince : l.since with
      | none =>
        rw [hsince] at he
        obtain rfl := Option.some.inj he
        exact ⟨le_rfl, hsend.sender.boundary_nxt⟩
      | some mark =>
        rw [hsince] at he
        exact hkept (hsince.trans he)
    · exact hkept he
  refine ⟨step_field hret hsend hbudget hm op hr, fun e he => ?_, fun e he => ?_, fun e he => ?_⟩
  all_goals
    obtain ⟨hmem, hafter⟩ := Option.filter_eq_some_iff.1 he
    have hafter : (l.socket.step config op).unaPos < e := of_decide_eq_true hafter
  · exact hafter
  · exact (hbase e hmem).1.trans hnxt
  · exact hboundary e (hbase e hmem).2 hafter.le

theorem follows_run (o : Opening P) (hv : config.Valid) (ops : List SocketOp) (hr : (run config o ops).socket.retained = true) :
    (run config o ops).Follows o.isn := by
  have hknown : ∀ ops, (run config o ops).socket.retained = true →
      (run config o ops).socket.conn.SendInv config o.isn (run config o ops).socket.accepted ∧
        (run config o ops).socket.conn.maxTransmissions = config.maxRetransmissions.toNat := fun ops => by
    rw [run_socket]
    exact Socket.budget_run o hv ops
  refine Run.exec_invariant_known (P := fun l : Episode P => l.socket.retained = true → l.Follows o.isn) hknown
    (fun l op hs hl hr => step_follows hs hl op hr) (fun _ => ?_) ops hr
  have hnone : ∀ {Q : ℕ → Prop}, ∀ e ∈ (none : Option ℕ), Q e := fun e he => absurd he (Option.not_mem_none e)
  refine ⟨?_, hnone, hnone, hnone⟩
  cases o with
  | client => rfl
  | server peer syn isn nowMs token =>
    exact congrArg LossMarks.rtoRecoveryUntil (Connection.updateRemoteWindow_marks syn.window)

end Episode

/-- **The repair of a timed-out flight.** In every run against any peer the field holds the mark of the episode, which is where `send_nxt`
was at its first timeout, beyond `send_una` and not beyond `send_nxt`. A segment makes the connection send at most one segment again. If
that is a repair, `send_una` advances, the repair starts there, and it ends no later than the mark. -/
theorem repair_confined {P : Type} (config : ValidConfig) (o : Opening P) (ops : List SocketOp)
    (hret : (Episode.run config.1 o ops).socket.retained = true) :
    let l := Episode.run config.1 o ops
    l.socket.conn.sendUna = pos o.isn l.socket.unaPos ∧ l.socket.conn.sendNxt = pos o.isn l.socket.nxtPos ∧
      l.socket.conn.rtoRecoveryUntil = l.since.map (pos o.isn) ∧
      (∀ end_ ∈ l.socket.conn.rtoRecoveryUntil, before l.socket.conn.sendUna end_ ∧ beforeOrEqual end_ l.socket.conn.sendNxt) ∧
      ∀ segment nowMs,
        let t := l.step config.1 (.input segment nowMs)
        let emitted := t.socket.sent.drop l.socket.sent.length
        (emitted.filter fun x => decide (l.socket.conn.Again x)).length ≤ 1 ∧
          ∀ x ∈ emitted, l.socket.conn.Repairs segment x →
            l.socket.unaPos < t.socket.unaPos ∧ x.seq = t.socket.conn.sendUna ∧
              ∃ e, l.since = some e ∧ t.since = some e ∧ t.socket.unaPos + x.sequenceLen.toNat ≤ e := by
  have hl := Episode.follows_run o config.valid ops hret
  have hs := Socket.sendInv_run o config.valid ops (by rwa [Episode.run_socket] at hret)
  rw [← Episode.run_socket] at hs
  generalize Episode.run config.1 o ops = l at hret hl hs
  have hm : l.socket.conn.Recovering o.isn l.socket.accepted l.since := hl
  have huna : l.socket.conn.sendUna = pos o.isn (l.socket.conn.sender.unaPos l.socket.accepted) := hs.sender.una
  have hnxt : l.socket.conn.sendNxt = pos o.isn (l.socket.conn.sender.nxtPos l.socket.accepted) := hs.sender.nxt
  refine ⟨huna, hnxt, hm.field, fun end_ hend => ?_, fun segment nowMs => ?_⟩
  · rw [hm.field] at hend
    obtain ⟨e, he, rfl⟩ := Option.map_eq_some_iff.1 hend
    have hafter := hm.after e he
    have hsent := hm.sent e he
    have hle := hs.nxtPos_le
    rw [huna, hnxt, before_pos (by omega) (by omega), beforeOrEqual_pos (by omega) (by omega)]
    exact ⟨hafter, hsent⟩
  · have hsince : (l.step config.1 (.input segment nowMs)).since = _ := Episode.since_of_not_timeout id
    simp only [hsince]
    simp only [Episode.step, Socket.step, Socket.onInput, hret, if_true, List.drop_left, Socket.unaPos]
    refine ⟨Connection.input_again_le hs segment nowMs, fun x hx hrepair => ?_⟩
    cases hopen : (l.socket.conn.input segment nowMs config.1).2.closed with
    | true =>
      rw [((Connection.input_moves config.1 nowMs segment hs.mss).2 hopen).1] at hx
      cases hx
    | false =>
      obtain ⟨again, rest, hout, hrest, hresponse⟩ := Connection.input_response hs segment nowMs hopen
      rw [hout] at hx
      have hx : x ∈ again := by
        rcases List.mem_append.1 hx with hx | hx
        · exact Option.mem_toList.1 hx
        · exact absurd hrepair.2.1 (hrest x hx)
      obtain ⟨hadvance, hseq, e, hsince, hafter, hend⟩ := hresponse.repairs hs hm hx hrepair
      refine ⟨hadvance, hseq, e, hsince, ?_, hend⟩
      rw [hsince, Option.filter_some, decide_eq_true hafter, if_pos rfl]

/-- a client that has sent two segments of one byte and seen the first of them time out -/
def timedOutRun : List SocketOp :=
  [.input { Segment.new 80 9000 700 with
      ack := some 101
      flags := Flags.SYN.union .ACK
      options := [.maxSegmentSize 1000, .fipsVersion FIPS_VERSION 0] } 5,
    .write [1] 6, .write [2] 7, .poll 5000]

/-- the ACK of the first -/
def timedOutAck : Segment := { Segment.new 80 9000 701 with ack := some 102, flags := .ACK }

/-- the second is repaired, and nothing else is sent again -/
theorem repair_confined_two :
    ((((Episode.run Config.default (.client () 9000 80 100 0 0) timedOutRun).step Config.default (.input timedOutAck 5001)).socket.sent.drop
      (Episode.run Config.default (.client () 9000 80 100 0 0) timedOutRun).socket.sent.length).filter fun x =>
        decide ((Episode.run Config.default (.client () 9000 80 100 0 0) timedOutRun).socket.conn.Again x)).length ≤ 1 := by
  have hsocket := Episode.run_socket Config.default (.client () 9000 80 100 0 0) timedOutRun
  have h := repair_confined ⟨Config.default, Config.default_validate⟩ (.client () 9000 80 100 0 0) timedOutRun (by rw [hsocket]; decide)
  exact (h.2.2.2.2 timedOutAck 5001).1

/-- the byte in question -/
example : ((Socket.run Config.default (.client () 9000 80 100 0 0) (timedOutRun ++ [.input timedOutAck 5001])).sent.getLast?).map (·.payload) =
    some [2] := by decide

end FipsTcp
