/-
What the peer was told last.

Segments with an ACK come from retransmissions, repairs, probes, data, FINs and pure ACKs, and a call may send several of them,
before and after it receives. `Speaks` is one step of the history: the last segment with an ACK that was emitted tells the
`recv_nxt` and the window of the connection that is left, or none was emitted and neither changed. Steps compose, so it is shown
once for each part of an operation.
- `Socket.step_speaks`: every operation but a read in TIME-WAIT;
- `advertised_current`: what was emitted last is what holds, over every run.
-/
import FipsTcp.Connection.Reassembly
import FipsTcp.Connection.States

namespace FipsTcp

/-- the last segment with an ACK -/
def lastAck (out : List Segment) : Option Segment := (out.filter fun x => x.ack.isSome).getLast?

@[simp] theorem lastAck_nil : lastAck [] = none := rfl

theorem lastAck_append (out out' : List Segment) : lastAck (out ++ out') = (lastAck out').or (lastAck out) := by
  rw [lastAck, List.filter_append, List.getLast?_append]
  rfl

theorem lastAck_one (x : Segment) : lastAck [x] = if x.ack.isSome then some x else none := by
  unfold lastAck
  rw [List.filter_singleton]
  cases x.ack <;> rfl

namespace Connection

variable {P : Type} {config : Config} {nowMs : ℕ} {inp : Option Segment} {c c1 c2 c' : Connection P} {out out' : List Segment}

/-- the segment tells what the connection has received, and its window -/
structure Tells (c : Connection P) (x : Segment) : Prop where
  ack : x.ack = some c.recvNxt
  window : x.window = c.availableWindowU16

/-- the receive state is as it was, and a client that has not heard of its peer has not heard of it -/
structure Silent (c c' : Connection P) : Prop where
  recvNxt : c'.recvNxt = c.recvNxt
  window : c'.availableWindow = c.availableWindow
  synSent : c.state = .synSent → c'.state = .synSent

/-- from `c` to `c'` with `out` emitted: the last ACK tells the receive state, or there is none and it has not changed -/
structure Speaks (c : Connection P) (out : List Segment) (c' : Connection P) : Prop where
  told : ∀ x, lastAck out = some x → c'.Tells x
  silent : lastAck out = none → Silent c c'

theorem Silent.refl (c : Connection P) : Silent c c := ⟨rfl, rfl, id⟩

theorem Silent.trans (h1 : Silent c c1) (h2 : Silent c1 c2) : Silent c c2 :=
  ⟨h2.recvNxt.trans h1.recvNxt, h2.window.trans h1.window, fun h => h2.synSent (h1.synSent h)⟩

theorem Silent.of_frame (hr : c'.receiver = c.receiver) (hs : c'.stable = c.stable) (hst : c.state = .synSent → c'.state = .synSent) :
    Silent c c' := by
  have hcap : c'.receiveCapacity = c.receiveCapacity := congrArg Stable.receiveCapacity hs
  simp only [receiver, Receiver.mk.injEq] at hr
  obtain ⟨h1, h2, h3, -⟩ := hr
  exact ⟨h1, by rw [availableWindow, availableWindow, h2, h3, hcap], hst⟩

theorem Tells.silent {x : Segment} (h : c.Tells x) (hs : Silent c c') : c'.Tells x :=
  ⟨by rw [hs.recvNxt]; exact h.ack, by rw [availableWindowU16, hs.window]; exact h.window⟩

theorem Silent.speaks (h : Silent c c') : c.Speaks [] c' := ⟨fun x hx => absurd hx (by simp), fun _ => h⟩

theorem Speaks.refl (c : Connection P) : c.Speaks [] c := (Silent.refl c).speaks

theorem Speaks.trans (h1 : c.Speaks out c1) (h2 : c1.Speaks out' c2) : c.Speaks (out ++ out') c2 := by
  cases hlast : lastAck out' with
  | none =>
    have hs := h2.silent hlast
    refine ⟨fun x hx => ?_, fun hnone => ?_⟩
    · rw [lastAck_append, hlast, Option.none_or] at hx
      exact (h1.told x hx).silent hs
    · rw [lastAck_append, hlast, Option.none_or] at hnone
      exact (h1.silent hnone).trans hs
  | some y =>
    refine ⟨fun x hx => ?_, fun hnone => ?_⟩
    · rw [lastAck_append, hlast, Option.some_or, Option.some.injEq] at hx
      exact hx ▸ h2.told y hlast
    · rw [lastAck_append, hlast, Option.some_or] at hnone
      cases hnone

/-- a step that emits nothing, after one that may have -/
theorem Speaks.quiet (h : c.Speaks out c1) (hs : Silent c1 c2) : c.Speaks out c2 := by
  have := h.trans hs.speaks
  rwa [List.append_nil] at this

/-- a segment built with a header of the connection tells its receive state, if it has an ACK -/
theorem Speaks.built (h : Silent c c') {x : Segment} {seq : U32} {flags : Flags} {payload : List U8}
    (hx : x = buildSegment (c.header seq flags) payload) : c.Speaks [x] c' := by
  refine ⟨fun y hy => ?_, fun _ => h⟩
  rw [lastAck_one, hx] at hy
  split_ifs at hy with hsome
  cases hy
  refine Tells.silent ⟨?_, rfl⟩ h
  simp only [buildSegment] at hsome ⊢
  split_ifs at hsome ⊢
  · rfl
  · cases hsome

theorem ackSegment_tells (c : Connection P) : c.Tells c.ackSegment := ⟨if_pos (by decide : Flags.ACK.contains .ACK = true), rfl⟩

/-- a pure ACK tells it, whatever went before -/
theorem speaks_ack (c c' : Connection P) : c.Speaks [c'.ackSegment] c' := by
  have htells := c'.ackSegment_tells
  have hlast : lastAck [c'.ackSegment] = some c'.ackSegment := by
    rw [lastAck_one, htells.ack]
    rfl
  refine ⟨fun x hx => ?_, fun hnone => ?_⟩
  · rw [hlast, Option.some.injEq] at hx
    exact hx ▸ htells
  · rw [hlast] at hnone
    cases hnone

/-! ## The parts of an operation -/

theorem retransmitOldest_speaks (timeout : Bool) :
    c.Speaks (c.retransmitOldest nowMs timeout).2.toList (c.retransmitOldest nowMs timeout).1 := by
  rcases c.retransmitOldest_cases nowMs timeout with h | ⟨tracked, rest, transmissions, dups, -, -, h⟩ <;> rw [h]
  · exact .refl c
  · refine .built ?_ rfl
    exact ⟨rfl, rfl, id⟩

/-- **A primitive that no segment caused.** -/
theorem Move.speaks (h : Move config nowMs none c out c') : c.Speaks out c' := by
  cases h with
  | timers => exact Silent.speaks ⟨rfl, rfl, id⟩
  | retransmit timeout => exact retransmitOldest_speaks timeout
  | sendData count =>
    refine .built ?_ rfl
    exact ⟨rfl, rfl, id⟩
  | sendFin hst =>
    refine .built ?_ rfl
    refine ⟨rfl, rfl, fun hsyn => ?_⟩
    rcases hst with hst | hst <;> rw [hst] at hsyn <;> cases hsyn
  | probe =>
    rcases c.zeroWindowProbe_cases nowMs with ⟨x, -, -, h⟩ | ⟨-, ⟨-, h⟩ | ⟨-, h⟩⟩ <;> rw [h]
    · refine .built ?_ rfl
      exact ⟨rfl, rfl, id⟩
    · exact .refl c
    · refine .built ?_ rfl
      exact ⟨rfl, rfl, id⟩
  | ack => exact speaks_ack c c
  | requestClose => exact Silent.speaks ⟨rfl, rfl, id⟩
  | _ => contradiction

theorem Moves.speaks (h : Moves config nowMs none c out c') : c.Speaks out c' := by
  generalize hinp : (none : Option Segment) = inp at h
  induction h with
  | refl c => exact .refl c
  | cons h _ ih => exact (Move.speaks (hinp ▸ h)).trans ih

theorem AckResult.speaks {segment : Segment} {ack : U32} (hst : c.Synchronized)
    (h : AckResult c segment ack nowMs config (c1, false, out)) : c.Speaks out c1 := by
  have hwindow : ∀ c : Connection P, c.Synchronized → Silent c (c.windowOf segment ack nowMs) := fun c hst => by
    obtain ⟨-, hr, hs, -, hstate⟩ := windowOf_frame nowMs (c := c) segment ack
    exact .of_frame hr hs fun hsyn => absurd hsyn hst.1
  generalize hresult : (c1, false, out) = result at h
  cases h with
  | outside =>
    cases hresult
    exact .refl c
  | repeated duplicate =>
    cases hresult
    obtain ⟨hmoves, -, -, hstate, -⟩ := repeatAck_moves config nowMs (c := c) none duplicate
    exact (Moves.speaks hmoves).quiet (hwindow _ (by rw [Synchronized, hstate]; exact hst))
  | removed => cases hresult
  | advanced c2 hadv hc2 =>
    cases hresult
    obtain ⟨hr, hs, -⟩ := afterAck_frame nowMs config hc2
    have hafter : Silent c c2 := .of_frame hr hs fun hsyn => absurd hsyn hst.1
    have hst2 := afterAck_synchronized config nowMs hst hc2
    exact (hafter.trans (hwindow c2 hst2)).speaks.trans (Moves.speaks (repairTimedOutFlight_moves config nowMs none).1)

theorem receive_flush_speaks (segment : Segment) (hm : 0 < (c.receiveIfData segment nowMs config).1.mss) :
    c.Speaks ((c.receiveIfData segment nowMs config).2 ++ ((c.receiveIfData segment nowMs config).1.flushData nowMs).2)
      ((c.receiveIfData segment nowMs config).1.flushData nowMs).1 := by
  refine Speaks.trans ?_ (Moves.speaks (flushData_moves config nowMs none hm))
  unfold receiveIfData
  split_ifs
  · exact speaks_ack c _
  · exact .refl c

/-! ## Operations -/

/-- **A segment.** -/
theorem input_speaks (hm : 0 < c.mss) (segment : Segment) (hopen : (c.input segment nowMs config).2.closed = false) :
    c.Speaks (c.input segment nowMs config).2.segments (c.input segment nowMs config).1 := by
  unfold input at hopen ⊢
  split_ifs at hopen ⊢ with h1 h2
  · -- the reset that answers an ACK has none itself
    refine ⟨fun x hx => ?_, fun _ => .refl c⟩
    simp only [unacceptableAck, Bool.and_eq_true, Option.any_eq_true] at h1
    obtain ⟨-, ack, hack, -⟩ := h1
    rw [Update.open, lastAck_one, resetFor, hack] at hx
    cases hx
  · exact speaks_ack c c
  · unfold onSegment at hopen ⊢
    split_ifs at hopen ⊢ with hrst
    · unfold onReset
      split_ifs
      · split <;> (try split_ifs) <;> exact .refl c
      · exact .refl c
      · exact speaks_ack c c
      · exact .refl c
    · have hrst' : segment.flags.contains .RST = false := by simpa using hrst
      split at hopen
      · unfold onSynSent
        split_ifs
        · exact speaks_ack c _
        · exact .refl c
      · rename_i hst
        unfold onSynReceived
        split_ifs
        · exact retransmitOldest_speaks false
        · exact .refl c
        · obtain ⟨hr, hs, hmss, hstate⟩ := c.establishServer_frame segment nowMs
          have hest : Silent c (c.establishServer segment nowMs) := .of_frame hr hs fun hsyn => by rw [hst] at hsyn; cases hsyn
          have hmoves := receiveIfData_moves config nowMs (some segment) (c := c.establishServer segment nowMs) rfl hrst'
            ⟨by rw [hstate]; decide, by rw [hstate]; decide⟩
          exact hest.speaks.trans (receive_flush_speaks segment (by rw [hmoves.2, hmss]; exact hm))
      · rename_i hn1 hn2
        obtain ⟨c1, out, hack, hst1, hm1, heq⟩ := onSynchronized_parts config nowMs ⟨hn1, hn2⟩ hrst' hopen
        have hfirst : c.Speaks out c1 := by
          rcases hack with ⟨-, rfl, rfl⟩ | ⟨ack, -, hcases⟩
          · exact .refl _
          · exact hcases.speaks ⟨hn1, hn2⟩
        have hmoves := receiveIfData_moves config nowMs (some segment) rfl hrst' hst1
        rw [heq]
        exact hfirst.trans (receive_flush_speaks segment (by rw [hmoves.2, hm1]; exact hm))

/-- **A read.** Outside TIME-WAIT it tells the window that it opens. -/
theorem read_speaks (hi : c.RecvInv config) (hw : c.Waiting) (hst : c.state ≠ .timeWait) (max : ℕ) :
    c.Speaks (c.read max).2.2 (c.read max).1 := by
  unfold read
  simp only
  split_ifs with h
  · exact speaks_ack c _
  · refine Silent.speaks ⟨rfl, ?_, id⟩
    -- nothing is read in a state that does not tell, and what is read opens the window
    have hfits := hi.fits
    have hcap := hi.capacity
    have hopens : c.availableWindow + min max c.recvQueue.length = (c.consume (min max c.recvQueue.length)).availableWindow := by
      change c.receiveCapacity - (c.recvQueue.length + chunkBytes c.reassembly) + _ =
        c.receiveCapacity - ((c.recvQueue.drop (min max c.recvQueue.length)).length + chunkBytes c.reassembly)
      rw [List.length_drop]
      omega
    have hnone : min max c.recvQueue.length = 0 := by
      by_contra hpos
      refine h ⟨Nat.pos_of_ne_zero hpos, by change _ < (c.consume _).availableWindow; omega, ?_⟩
      have hopening : c.state.phase = .opening → False := fun hp => by
        rw [hw.opening hp, List.length_nil, Nat.min_zero] at hpos
        exact hpos rfl
      rintro (hs | hs | hs)
      · exact hopening (by rw [show c.state = .synSent from hs]; rfl)
      · exact hopening (by rw [show c.state = .synReceived from hs]; rfl)
      · exact hst hs
    rw [hnone, Nat.add_zero] at hopens
    rw [hnone]
    exact hopens.symm

end Connection

namespace Socket

open Connection

variable {P : Type} {config : Config} {s : Socket P}

/-- **One operation.** All but a read in TIME-WAIT. -/
theorem step_speaks {isn : U32} (hret : s.retained = true) (hs : Known config isn s.accepted s.sent s.conn)
    (hst : s.conn.state ≠ .timeWait) (op : SocketOp) (hr : (s.step config op).retained = true) :
    ∃ out, (s.step config op).sent = s.sent ++ out ∧ s.conn.Speaks out (s.step config op).conn := by
  have hm := hs.inv.send.mss
  cases op with
  | input segment nowMs =>
    simp only [step, onInput, hret, if_true] at hr ⊢
    exact ⟨_, rfl, input_speaks hm segment (by simpa using hr)⟩
  | write bytes nowMs =>
    simp only [step, onWrite, hret, if_true]
    rcases hw : s.conn.write bytes nowMs config with _ | ⟨conn, count, out⟩
    · exact ⟨[], (List.append_nil _).symm, .refl _⟩
    · obtain ⟨hsend, -, -, -, hmoves⟩ := write_moves config nowMs hm hw
      have haccept : Silent s.conn (s.conn.acceptBytes (bytes.take count)) := ⟨rfl, rfl, id⟩
      exact ⟨out, rfl, haccept.speaks.trans (Moves.speaks hmoves)⟩
  | read max =>
    simp only [step, onRead, hret, if_true]
    exact ⟨_, rfl, read_speaks hs.inv.recv hs.waiting hst max⟩
  | close nowMs =>
    simp only [step, onUpdate, hret, if_true]
    exact ⟨_, rfl, Moves.speaks (close_moves config nowMs hm).1⟩
  | abort => simp only [step, onAbort, hret, if_true, Bool.false_eq_true] at hr
  | poll nowMs =>
    simp only [step, onUpdate, hret, if_true]
    exact ⟨_, rfl, Moves.speaks (poll_moves config nowMs hm).1⟩

/-- what the last ACK told is what holds -/
def Current (s : Socket P) : Prop := ∃ x, lastAck s.sent = some x ∧ s.conn.Tells x

theorem opening_current (o : Opening P) (hst : (o.socket config).conn.state ≠ .synSent) : (o.socket config).Current := by
  cases o with
  | client => exact absurd rfl hst
  | server peer syn isn nowMs token =>
    have hack : (Flags.SYN.union .ACK).contains .ACK = true := by decide
    generalize hc : ((Connection.new peer syn.dstPort syn.srcPort .synReceived isn (syn.seq + 1) config
      token).updateRemoteWindow syn.window nowMs).negotiateMss syn config = c
    have hsocket : (Opening.server peer syn isn nowMs token).socket config =
        ⟨(c.sendTracked (Flags.SYN.union .ACK) [] nowMs).1, true, [], [], [(c.sendTracked (Flags.SYN.union .ACK) [] nowMs).2], false⟩ := by
      rw [← hc]
      rfl
    rw [hsocket]
    have htells : c.Tells (c.sendTracked (Flags.SYN.union .ACK) [] nowMs).2 := ⟨if_pos hack, rfl⟩
    refine ⟨_, ?_, htells.silent ⟨rfl, rfl, id⟩⟩
    rw [lastAck_one, htells.ack]
    rfl

/-- **Told, over any run.** -/
theorem current_run (o : Opening P) (hv : config.Valid) (ops : List SocketOp) (hr : (run config o ops).retained = true)
    (hsyn : (run config o ops).conn.state ≠ .synSent) (htime : (run config o ops).conn.state ≠ .timeWait) :
    (run config o ops).Current := by
  refine Run.exec_invariant_known (P := fun s : Socket P => s.retained = true → s.conn.state ≠ .synSent → s.conn.state ≠ .timeWait →
    s.Current) (Q := fun s : Socket P => s.retained = true → ∃ isn, Known config isn s.accepted s.sent s.conn)
    (fun ops hr => ⟨_, known_run o hv ops hr⟩) (fun s op hknown hs hr hsyn htime => ?_) (fun _ hst _ => opening_current o hst)
    ops hr hsyn htime
  have hret := retained_before hr
  obtain ⟨isn, hknown⟩ := hknown hret
  have hwas : s.conn.state ≠ .timeWait := fun hst => by
    -- TIME-WAIT is not left
    rcases (step_later hknown.inv.send.mss op hr).state with h | h
    · exact htime (h.trans hst)
    · rw [hst] at h
      revert h
      cases (s.step config op).conn.state <;> simp [State.rank]
  obtain ⟨out, hsent, hspeaks⟩ := step_speaks hret hknown hwas op hr
  rw [Current, hsent, lastAck_append]
  cases hlast : lastAck out with
  | some x => exact ⟨x, rfl, hspeaks.told x hlast⟩
  | none =>
    have hsilent := hspeaks.silent hlast
    obtain ⟨x, hx, htells⟩ := hs hret (fun h => hsyn (hsilent.synSent h)) hwas
    exact ⟨x, hx, htells.silent hsilent⟩

end Socket

/-- **The receive state is told.** In every run against any peer: outside SYN-SENT and TIME-WAIT, the last segment with an ACK has
`recv_nxt` and the window as they are. And an operation that changes either of them, in any state but TIME-WAIT, has emitted a
segment with an ACK, the last of which has the new values. -/
theorem advertised_current {P : Type} (config : ValidConfig) (o : Opening P) (ops : List SocketOp) :
    let s := Socket.run config.1 o ops
    (s.retained = true → s.conn.state ≠ .synSent → s.conn.state ≠ .timeWait → ∃ x, lastAck s.sent = some x ∧
        x.ack = some s.conn.recvNxt ∧ x.window.toNat = s.conn.availableWindow) ∧
      ∀ op, let t := s.step config.1 op
        s.retained = true → t.retained = true → s.conn.state ≠ .timeWait → ∃ out, t.sent = s.sent ++ out ∧
          (t.conn.recvNxt ≠ s.conn.recvNxt ∨ t.conn.availableWindow ≠ s.conn.availableWindow → ∃ x, lastAck out = some x ∧
            x.ack = some t.conn.recvNxt ∧ x.window.toNat = t.conn.availableWindow) := by
  have hv := config.valid
  have hwindow : ∀ ops, (Socket.run config.1 o ops).retained = true →
      (Socket.run config.1 o ops).conn.availableWindowU16.toNat = (Socket.run config.1 o ops).conn.availableWindow :=
    fun ops hr => (Socket.known_run o hv ops hr).inv.recv.advertised hv
  refine ⟨fun hr hsyn htime => ?_, fun op hr hr' htime => ?_⟩
  · obtain ⟨x, hx, htells⟩ := Socket.current_run o hv ops hr hsyn htime
    exact ⟨x, hx, htells.ack, by rw [htells.window]; exact hwindow ops hr⟩
  · obtain ⟨out, hsent, hspeaks⟩ := Socket.step_speaks hr (Socket.known_run o hv ops hr) htime op hr'
    refine ⟨out, hsent, fun hchanged => ?_⟩
    cases hlast : lastAck out with
    | none =>
      have hsilent := hspeaks.silent hlast
      exact hchanged.elim (absurd hsilent.recvNxt) (absurd hsilent.window)
    | some x =>
      have htells := hspeaks.told x hlast
      have hstep : (Socket.run config.1 o ops).step config.1 op = Socket.run config.1 o (ops ++ [op]) := by
        rw [Socket.run, Socket.run, Run.exec_append]
        rfl
      rw [hstep] at hr' htells ⊢
      exact ⟨x, rfl, htells.ack, by rw [htells.window]; exact hwindow _ hr'⟩

theorem advertised_current_overlap :
    ∃ x, lastAck (Socket.run Config.default (.client () 9000 80 100 0 0) overlapRun).sent = some x ∧
      x.ack = some (Socket.run Config.default (.client () 9000 80 100 0 0) overlapRun).conn.recvNxt ∧
      x.window.toNat = (Socket.run Config.default (.client () 9000 80 100 0 0) overlapRun).conn.availableWindow :=
  (advertised_current ⟨Config.default, Config.default_validate⟩ (.client () 9000 80 100 0 0) overlapRun).1 (by decide) (by decide) (by decide)

end FipsTcp
