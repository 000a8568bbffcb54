/-
The third duplicate.

A connection counts the ACKs that repeat `send_una` and say nothing else in eight bits, and starts again with zero in several places.
`Counted` keeps the same count without a bound, and reads it off what the segments say and off the timer, not off the field.
- `Response.counts`: the field is the count, or 255 when the count is larger;
- `fast_retransmit_third`: the oldest segment is sent again, without its timer, exactly when the third of these ACKs arrives.
-/
import FipsTcp.Connection.Retransmission

namespace FipsTcp

open SendWindow Serial

namespace Connection

variable {P : Type} {config : Config} {nowMs : ℕ} {isn : U32} {acc : List U8} {c c' : Connection P} {segment x : Segment}
  {again : Option Segment} {n : ℕ}

/-- the signals of a loss since one of: an ACK that advanced `send_una`, or another that repeated it -/
def countSegment (c : Connection P) (signals : ℕ) (segment : Segment) : ℕ :=
  if c.Ignores segment then signals else if c.LossSignal segment then signals + 1 else 0

/-- an ACK that advances `send_una` does not repeat it -/
theorem Advances.not_lossSignal {ack : U32} (hadv : c.Advances ack) (hack : segment.ack = some ack) : ¬ c.LossSignal segment := by
  intro h
  have hsame := hack.symm.trans h.ack
  exact hadv.2.2 (Option.some.inj hsame)

/-- **The field is the count.** -/
theorem Response.counts (h : Response acc c segment again c') (hdup : c.duplicateAcks = min n 255) (hopening : ¬ c.Synchronized → n = 0) :
    c'.duplicateAcks = min (if c.Synchronized then c.countSegment n segment else 0) 255 := by
  have hfield : ∀ {marks : LossMarks}, c'.lossMarks = marks → c'.duplicateAcks = marks.duplicateAcks :=
    fun h => congrArg LossMarks.duplicateAcks h
  cases h with
  | ignored _ hi hmarks =>
    rw [hfield hmarks]
    split_ifs with hst
    · rw [countSegment, if_pos (hi hst)]
      exact hdup
    · rw [← hopening hst]
      exact hdup
  | reopened _ hst hsyn hmarks =>
    have hsync : ¬ c.Synchronized := fun hsync => hsync.2 hst
    rw [hfield hmarks, if_neg hsync, ← hopening hsync]
    exact hdup
  | established c1 _ hst hmarks =>
    rw [hfield hmarks, if_neg hst]
    rfl
  | repeated _ hst hi hack hmarks =>
    rw [hfield hmarks, if_pos hst, countSegment, if_neg hi]
    simp only
    split_ifs
    · rw [hdup, satSucc8]
      omega
    · rfl
  | advanced c1 _ _ ack hst hi hack hadv hmarks =>
    rw [hfield hmarks, if_pos hst, countSegment, if_neg hi, if_neg (hadv.not_lossSignal hack)]
    rfl

/-- the oldest segment starts with `send_una` -/
theorem head_seq (hs : c.sender.Inv isn 65535 acc) {oldest : TrackedSegment} (hold : oldest ∈ c.unacked.head?) : oldest.seq = c.sendUna := by
  obtain ⟨rest, hu⟩ := List.head?_eq_some_iff.1 hold
  have hchain := hs.chain
  rw [show c.sender.flight = oldest.piece :: rest.map TrackedSegment.piece by rw [sender, hu]; rfl] at hchain
  exact hchain.1.seq.trans hs.una.symm

/-- sending the oldest segment sends again -/
theorem again_oldest (hs : c.SendInv config isn acc) {oldest : TrackedSegment} (hold : oldest ∈ c.unacked.head?) :
    c.Again (c.segmentFor oldest) ∧ oldest.seq = c.sendUna := by
  have hmem := List.mem_of_mem_head? hold
  have hseq := head_seq hs.sender hold
  have hlen := hs.len_pos hmem
  have hroom : total c.sender.flight ≤ 65535 := hs.sender.room
  obtain ⟨q, hq, hend, -⟩ := hs.sender.chain.mem (List.mem_map_of_mem hmem)
  refine ⟨⟨?_, ?_⟩, hseq⟩
  · rw [segmentFor_sequenceLen]
    exact asU32_ne_zero hlen (by omega)
  · change before oldest.seq c.sendNxt
    have hnxt : c.sendNxt = pos c.sendUna (total c.sender.flight) := hs.sender.nxt_eq_add
    have hbefore : before (pos c.sendUna 0) (pos c.sendUna (total c.sender.flight)) := (before_pos (by omega) (by omega)).2 (by omega)
    rw [hseq, hnxt]
    rwa [pos_zero] at hbefore

end Connection

/-! ## The count beside a socket -/

/-- a socket, with the signals of a loss since the count last started again -/
structure Counted (P : Type) where
  socket : Socket P
  signals : ℕ

namespace Counted

variable {P : Type} {config : Config} {isn : U32} {l : Counted P} {op : SocketOp}

/-- what an operation does to the count of a synchronized connection; a timeout starts it again -/
def count (config : Config) (c : Connection P) (signals : ℕ) : SocketOp → ℕ
  | .input segment _ => c.countSegment signals segment
  | .poll nowMs => if c.TimesOut config nowMs then 0 else signals
  | _ => signals

def step (config : Config) (l : Counted P) (op : SocketOp) : Counted P :=
  ⟨l.socket.step config op, if l.socket.conn.Synchronized then count config l.socket.conn l.signals op else 0⟩

def run (config : Config) (o : Opening P) (ops : List SocketOp) : Counted P := Run.exec (step config) ⟨o.socket config, 0⟩ ops

theorem run_socket (config : Config) (o : Opening P) (ops : List SocketOp) : (run config o ops).socket = Socket.run config o ops :=
  Run.exec_map Counted.socket (fun _ _ => rfl) _ ops

/-- the field of the connection is the count, which starts with the handshake completed -/
structure Agrees (l : Counted P) : Prop where
  field : l.socket.conn.duplicateAcks = min l.signals 255
  opening : ¬ l.socket.conn.Synchronized → l.signals = 0

theorem step_agrees (hs : l.socket.retained = true → l.socket.conn.SendInv config isn l.socket.accepted ∧
      l.socket.conn.maxTransmissions = config.maxRetransmissions.toNat) (hl : l.socket.retained = true → l.Agrees) (op : SocketOp)
    (hr : (l.step config op).socket.retained = true) : (l.step config op).Agrees := by
  have hret := Socket.retained_before hr
  obtain ⟨hsend, hbudget⟩ := hs hret
  obtain ⟨hfield, hopening⟩ := hl hret
  have hlater : ¬ (l.step config op).socket.conn.Synchronized → ¬ l.socket.conn.Synchronized := fun hno hsync =>
    hno ((Socket.step_later hsend.mss op hr).synchronized hsync)
  refine ⟨?_, fun hno => if_neg (hlater hno)⟩
  -- what does not touch the marks does not touch the count
  have hsame : ∀ {c : Connection P}, c.lossMarks = l.socket.conn.lossMarks →
      c.duplicateAcks = min (if l.socket.conn.Synchronized then l.signals else 0) 255 := fun hmarks => by
    have hdup := congrArg LossMarks.duplicateAcks hmarks
    split_ifs with hsync
    · exact hdup.trans hfield
    · rw [← hopening hsync]
      exact hdup.trans hfield
  have happlication : (∀ segment nowMs, op ≠ .input segment nowMs) → (∀ nowMs, op ≠ .poll nowMs) →
      (l.step config op).socket.conn.lossMarks = l.socket.conn.lossMarks := fun hinput hpoll => by
    obtain ⟨out, -, hundisturbed⟩ := Socket.step_undisturbed hret hsend op hinput hpoll
    exact hundisturbed.marks
  cases op with
  | input segment nowMs =>
    simp only [step, Socket.step, Socket.onInput, hret, if_true] at hr ⊢
    obtain ⟨again, -, -, -, hresponse⟩ := Connection.input_response hsend segment nowMs (by simpa using hr)
    exact hresponse.counts hfield hopening
  | poll nowMs =>
    simp only [step, Socket.step, Socket.onUpdate, hret, if_true] at hr ⊢
    have hmarks := (Connection.poll_marks hsend hbudget nowMs).1
    by_cases htimeout : l.socket.conn.TimesOut config nowMs
    · rw [if_pos htimeout] at hmarks
      have hzero : (l.socket.conn.poll nowMs config).1.duplicateAcks = 0 := congrArg LossMarks.duplicateAcks hmarks
      rw [hzero, count, if_pos htimeout, ite_self]
      rfl
    · rw [if_neg htimeout] at hmarks
      rw [count, if_neg htimeout]
      exact hsame hmarks
  | write | read | close | abort => exact hsame (happlication (by simp) (by simp))

theorem agrees_run (o : Opening P) (hv : config.Valid) (ops : List SocketOp) (hr : (run config o ops).socket.retained = true) :
    (run config o ops).Agrees := by
  have hknown : ∀ ops, (run config o ops).socket.retained = true →
      (run config o ops).socket.conn.SendInv config o.isn (run config o ops).socket.accepted ∧
        (run config o ops).socket.conn.maxTransmissions = config.maxRetransmissions.toNat := fun ops => by
    rw [run_socket]
    exact Socket.budget_run o hv ops
  refine Run.exec_invariant_known (P := fun l : Counted P => l.socket.retained = true → l.Agrees) hknown
    (fun l op hs hl hr => step_agrees hs hl op hr) (fun _ => ⟨?_, fun _ => rfl⟩) ops hr
  cases o with
  | client => rfl
  | server peer syn isn nowMs token =>
    exact congrArg LossMarks.duplicateAcks (Connection.updateRemoteWindow_marks syn.window)

/-- the operation is the third signal of a loss, and the oldest segment may be sent again -/
def Third (config : Config) (l : Counted P) (op : SocketOp) : Prop :=
  ∃ segment nowMs, op = .input segment nowMs ∧ l.socket.conn.LossSignal segment ∧ l.signals = 2 ∧
    ∃ oldest ∈ l.socket.conn.unacked.head?, oldest.transmissions < config.maxRetransmissions.toNat

/-- the third signal sends the oldest segment again, as it is -/
theorem Third.sends (h : l.Third config op) (hret : l.socket.retained = true) (hsync : l.socket.conn.Synchronized)
    (hs : l.socket.conn.SendInv config isn l.socket.accepted) (hbudget : l.socket.conn.maxTransmissions = config.maxRetransmissions.toNat)
    (hl : l.Agrees) :
    ∃ oldest ∈ l.socket.conn.unacked.head?, l.socket.conn.segmentFor oldest ∈ (l.step config op).socket.sent.drop l.socket.sent.length := by
  obtain ⟨segment, nowMs, rfl, hsignal, htwo, oldest, hold, hfits⟩ := h
  have hcount : l.socket.conn.duplicateAcks = 2 := by rw [hl.field, htwo]; rfl
  have hresendable : l.socket.conn.resendable = some oldest := by
    rw [Connection.resendable, show l.socket.conn.unacked.head? = some oldest from hold, Option.filter_some, hbudget, decide_eq_true hfits, if_pos rfl]
  have hagain := Connection.repeatAck_again (c := l.socket.conn) hsignal.rst nowMs
  rw [if_pos ⟨hsignal, hcount⟩, hresendable] at hagain
  have hinput := Connection.input_repeated hs hsync hsignal.rst hsignal.syn hsignal.ack nowMs
  simp only [hagain] at hinput
  refine ⟨oldest, hold, ?_⟩
  simp only [step, Socket.step, Socket.onInput, hret, if_true, hinput, List.drop_left]
  exact List.mem_append_left _ (List.mem_append_left _ List.mem_cons_self)

/-- what is sent again from `send_una` on is the third signal's -/
theorem third_of_again (hret : l.socket.retained = true) (hsync : l.socket.conn.Synchronized)
    (hs : l.socket.conn.SendInv config isn l.socket.accepted) (hbudget : l.socket.conn.maxTransmissions = config.maxRetransmissions.toNat)
    (hl : l.Agrees) (hpoll : ∀ nowMs, op ≠ .poll nowMs) {x : Segment} (hx : x ∈ (l.step config op).socket.sent.drop l.socket.sent.length)
    (hagain : l.socket.conn.Again x) (hseq : x.seq = l.socket.conn.sendUna) : l.Third config op := by
  by_cases hinput : ∃ segment nowMs, op = .input segment nowMs
  · obtain ⟨segment, nowMs, rfl⟩ := hinput
    simp only [step, Socket.step, Socket.onInput, hret, if_true, List.drop_left] at hx
    cases hopen : (l.socket.conn.input segment nowMs config).2.closed with
    | true =>
      rw [((Connection.input_moves config nowMs segment hs.mss).2 hopen).1] at hx
      cases hx
    | false =>
      obtain ⟨again, rest, hout, hrest, hresponse⟩ := Connection.input_response hs segment nowMs hopen
      rw [hout] at hx
      have hx : x ∈ again := by
        rcases List.mem_append.1 hx with hx | hx
        · exact Option.mem_toList.1 hx
        · exact absurd hagain (hrest x hx)
      cases hresponse with
      | ignored => cases hx
      | established => cases hx
      | reopened _ hst => exact absurd hst hsync.2
      | repeated =>
        split_ifs at hx with hthird
        · obtain ⟨oldest, hold, -⟩ := Option.map_eq_some_iff.1 hx
          obtain ⟨hhead, hfits⟩ := Option.filter_eq_some_iff.1 hold
          have hfield := hl.field
          refine ⟨segment, nowMs, rfl, hthird.1, by omega, oldest, hhead, ?_⟩
          rw [← hbudget]
          exact of_decide_eq_true hfits
        · cases hx
      | advanced c1 _ _ ack _ _ hack hadv _ hsender _ hrepair =>
        -- a repair starts with the new `send_una`
        obtain ⟨-, oldest, hold, rfl⟩ := hrepair x hx
        obtain ⟨h0, hn⟩ := hadv.within hs.sender
        have hinv : c1.sender.Inv isn 65535 l.socket.accepted := by
          rw [hsender]
          exact hs.sender.ack h0 hn
        have hnew : oldest.seq = c1.sendUna := Connection.head_seq hinv hold
        have huna : c1.sendUna = ack := congrArg Sender.una hsender
        exact absurd (huna.symm.trans (hnew.symm.trans hseq)) hadv.2.2
  · obtain ⟨out, hsent, hundisturbed⟩ := Socket.step_undisturbed hret hs op (fun segment nowMs h => hinput ⟨segment, nowMs, h⟩) hpoll
    simp only [step, hsent, List.drop_left] at hx
    exact absurd hagain (hundisturbed.again x hx)

end Counted

/-- **The fast retransmit.** In every run against any peer, what a synchronized connection does without its timer sends again from
`send_una` on exactly if it processes the third signal of a loss since the count last started again, while the oldest segment may be
sent again; and then it sends that segment. -/
theorem fast_retransmit_third {P : Type} (config : ValidConfig) (o : Opening P) (ops : List SocketOp) (op : SocketOp)
    (hret : (Counted.run config.1 o ops).socket.retained = true) (hsync : (Counted.run config.1 o ops).socket.conn.Synchronized)
    (hpoll : ∀ nowMs, op ≠ .poll nowMs) :
    let l := Counted.run config.1 o ops
    let emitted := (l.step config.1 op).socket.sent.drop l.socket.sent.length
    ((∃ x ∈ emitted, l.socket.conn.Again x ∧ x.seq = l.socket.conn.sendUna) ↔ l.Third config.1 op) ∧
      (l.Third config.1 op → ∃ oldest ∈ l.socket.conn.unacked.head?, l.socket.conn.segmentFor oldest ∈ emitted) := by
  have hl := Counted.agrees_run o config.valid ops hret
  obtain ⟨hs, hbudget⟩ := Socket.budget_run o config.valid ops (by rwa [Counted.run_socket] at hret)
  rw [← Counted.run_socket] at hs hbudget
  generalize Counted.run config.1 o ops = l at hret hsync hl hs hbudget
  refine ⟨⟨?_, fun h => ?_⟩, fun h => h.sends hret hsync hs hbudget hl⟩
  · rintro ⟨x, hx, hagain, hseq⟩
    exact Counted.third_of_again hret hsync hs hbudget hl hpoll hx hagain hseq
  · obtain ⟨oldest, hold, hmem⟩ := h.sends hret hsync hs hbudget hl
    obtain ⟨hagain, hseq⟩ := Connection.again_oldest hs hold
    exact ⟨_, hmem, hagain, hseq⟩

/-- the third of three ACKs of 101 -/
theorem fast_retransmit_third_closed :
    ∃ x ∈ ((Counted.run Config.default (.client () 9000 80 100 0 0) closedRun).step Config.default closedAck).socket.sent.drop
        (Counted.run Config.default (.client () 9000 80 100 0 0) closedRun).socket.sent.length,
      (Counted.run Config.default (.client () 9000 80 100 0 0) closedRun).socket.conn.Again x ∧ x.seq = 101 := by
  have hsocket := Counted.run_socket Config.default (.client () 9000 80 100 0 0) closedRun
  have hret : (Counted.run Config.default (.client () 9000 80 100 0 0) closedRun).socket.retained = true := by rw [hsocket]; decide
  have hvalid : Config.default.Valid := ValidConfig.valid ⟨Config.default, Config.default_validate⟩
  have hcount := (Counted.agrees_run (.client () 9000 80 100 0 0) hvalid closedRun hret).field
  have htwo : (Counted.run Config.default (.client () 9000 80 100 0 0) closedRun).socket.conn.duplicateAcks = 2 := by rw [hsocket]; decide
  have hsignals : (Counted.run Config.default (.client () 9000 80 100 0 0) closedRun).signals = 2 := by omega
  have h := fast_retransmit_third ⟨Config.default, Config.default_validate⟩ (.client () 9000 80 100 0 0) closedRun closedAck hret
    (by rw [hsocket]; decide) (by simp [closedAck])
  exact h.1.2 ⟨_, _, rfl, by rw [hsocket]; decide, hsignals, by rw [hsocket]; decide⟩

end FipsTcp
