/-
When both endpoints sleep.

In a stuck state both connections are retained, nothing is under way, and neither side waits for a timer.
- `Connection.Steady.asleep`: a steady connection without a deadline has sent and seen acknowledged all there is; what may
  be left is a requested close whose FIN waits for the peer's window;
- `Net.run_pair`: a network that loses segments is a special case of one that remembers them, so every run of it runs the
  pair;
- `stuck_pending_close`: hence a stuck state holds back nothing but such a close. It does hold one back: the window update
  that would release it may have been lost (`stuck_lost_update`).
-/
import FipsTcp.Connection.Sound
import FipsTcp.Pair.System
import FipsTcp.Core.Network

namespace FipsTcp

open SendWindow Connection

/-! ## A connection without a deadline -/

namespace Connection

variable {P : Type} {config : Config} {nowMs : ℕ} {c : Connection P}

/-- everything sent was acknowledged, and everything accepted was sent -/
structure Conveyed (c : Connection P) : Prop where
  queue : c.sendQueue = []
  unacked : c.unacked = []

theorem earliest_none : ∀ {a b : Option ℕ}, earliest a b = none → a = none ∧ b = none
  | none, none, _ => ⟨rfl, rfl⟩

theorem sending_iff : c.Sending ↔ c.sender.phase = .running := by
  refine ⟨Sending.phase, fun h => ?_⟩
  unfold Sending
  cases hs : c.state <;> simp [sender, hs, State.phase] at h ⊢

/-- **Asleep.** Without a deadline, at most the FIN of a requested close is left to send, and the peer's window is closed. -/
theorem Steady.asleep (h : c.Steady config) (hnone : c.nextPollAt nowMs config = none) :
    c.Conveyed ∧ (c.closeRequested = true → c.remoteWindow = 0) := by
  obtain ⟨isn, acc, hi⟩ := h.inv
  obtain ⟨-, hdeadline⟩ := earliest_none hnone
  by_cases hwork : c.ProbeWork
  · -- a probe would carry payload; there is none, so a close is all there is
    obtain ⟨d, hd⟩ := Option.isSome_iff_exists.1 (h.timed.probe hwork.1)
    rw [transportDeadline_probe hwork hd] at hdeadline
    split_ifs at hdeadline with hpay
    obtain ⟨hpay, -⟩ := not_or.1 hpay
    have hclose : c.closeRequested = true := hwork.2.resolve_right hpay
    rw [hasProbePayload_iff, not_or, not_not] at hpay
    have hphase : c.sender.phase = .running := by
      by_contra hp
      exact absurd ((hi.send.sender.idle hp).2.symm.trans hclose) (by decide)
    have hshape := hi.send.sender.shape
    rw [hphase] at hshape
    refine ⟨⟨hpay.1, List.eq_nil_iff_forall_not_mem.2 fun x hx => ?_⟩, fun _ => hwork.1⟩
    exact hpay.2 ⟨x, hx, (hshape x.piece (List.mem_map_of_mem hx)).payload⟩
  · rw [transportDeadline_flight hwork, Option.map_eq_none_iff, List.head?_eq_none_iff] at hdeadline
    have hdist : distance c.sendUna c.sendNxt = 0 := by rw [hi.send.distance_eq, hdeadline]; rfl
    by_cases hs : c.Sending
    · have hdone : c.sendQueue = [] ∧ c.closeRequested = false := by
        rcases h.settled hs with h0 | hdone
        · -- the congestion window is never closed, so it is the peer's
          have hwin := Reno.window_pos h.timed.reno
          unfold sendAllowance at h0
          have hzero : c.remoteWindow = 0 := by omega
          have hno := not_and.1 hwork hzero
          rw [hasProbePayload_iff] at hno
          obtain ⟨h1, h2⟩ := not_or.1 hno
          exact ⟨not_not.1 (not_or.1 h2).1, Bool.of_not_eq_true h1⟩
        · exact hdone
      exact ⟨⟨hdone.1, hdeadline⟩, fun hc => absurd (hdone.2.symm.trans hc) (by decide)⟩
    · have hidle := hi.send.sender.idle fun hp => hs (sending_iff.2 hp)
      exact ⟨⟨hidle.1, hdeadline⟩, fun hc => absurd (hidle.2.symm.trans hc) (by decide)⟩

end Connection

/-! ## Sockets and pairs -/

namespace Socket

variable {P : Type} {config : Config} {s : Socket P}

/-- an operation leaves a retained connection steady -/
theorem steady_step (hv : config.Valid) (op : SocketOp) (h : s.retained = true → s.conn.Steady config)
    (hr : (s.step config op).retained = true) : (s.step config op).conn.Steady config := by
  have hret := retained_before hr
  have hs := h hret
  cases op with
  | input segment nowMs =>
    simp only [step, onInput, hret, if_true, Bool.not_eq_true'] at hr ⊢
    exact hs.input hv segment nowMs hr
  | write bytes nowMs =>
    simp only [step, onWrite, hret, if_true] at hr ⊢
    rcases hw : s.conn.write bytes nowMs config with e | ⟨conn, count, out⟩
    · exact hs
    · exact hs.write hv hw
  | read max =>
    simp only [step, onRead, hret, if_true]
    exact hs.read hv max
  | close nowMs =>
    simp only [step, onUpdate, hret, if_true]
    exact hs.close hv nowMs
  | abort => simp only [step, onAbort, hret, if_true] at hr; cases hr
  | poll nowMs =>
    simp only [step, onUpdate, hret, if_true, Bool.not_eq_true'] at hr ⊢
    exact hs.poll hv nowMs hr

/-- what was emitted stays in the record -/
theorem sent_step (config : Config) (s : Socket P) (op : SocketOp) : s.sent <+: (s.step config op).sent := by
  cases op with
  | input segment nowMs =>
    simp only [step, onInput]
    split_ifs
    · exact List.prefix_append _ _
    · exact List.prefix_refl _
    · exact List.prefix_append _ _
  | write bytes nowMs =>
    simp only [step, onWrite]
    split_ifs
    · split
      · exact List.prefix_refl _
      · exact List.prefix_append _ _
    · exact List.prefix_refl _
  | read max => simp only [step, onRead]; split_ifs <;> simp
  | close nowMs => simp only [step, onUpdate]; split_ifs <;> simp
  | abort => simp only [step, onAbort]; split_ifs <;> simp
  | poll nowMs => simp only [step, onUpdate]; split_ifs <;> simp

end Socket

namespace Pair

variable {P : Type}

/-- the retained connections are steady -/
def Steady (h : Handshake P) (p : Pair P) : Prop :=
  ∀ side, (p side).retained = true → (p side).conn.Steady (h.config side).1

theorem Steady.update {h : Handshake P} {p : Pair P} (hs : p.Steady h) (side : Side) (op : SocketOp) :
    (p.update h side op).Steady h := by
  intro d
  rcases side.eq_or_other d with rfl | rfl
  · rw [update_self]
    exact Socket.steady_step (h.config d).valid op (hs d)
  · rw [update_other]; exact hs side.other

theorem steady_run (h : Handshake P) (ops : List PairOp) : (run h ops).Steady h := by
  refine Run.exec_invariant (P := fun p : Pair P => p.Steady h) (fun p op hs => ?_)
    (fun side _ => steady_opening (h.config side).valid (h.opening side)) ops
  cases op with
  | deliver side index nowMs =>
    simp only [step]
    split
    · exact hs
    · exact hs.update side _
  | act side op => exact hs.update side _

end Pair

/-! ## The network that loses segments -/

namespace Net

variable {P : Type} {h : Handshake P} {n : Net P}

/-- what is under way was emitted -/
def Emitted (n : Net P) : Prop := ∀ side, n.inFlight side ⊆ (n.pair side).sent

theorem Emitted.take (hn : n.Emitted) (side : Side) (index : ℕ) : (n.take side index).Emitted := by
  intro d
  rcases side.other.eq_or_other d with rfl | rfl
  · simp only [Net.take, Function.update_self]
    exact List.Subset.trans (List.eraseIdx_subset) (hn side.other)
  · simp only [Net.take, Function.update_of_ne (Side.other_ne side.other)]; exact hn _

theorem Emitted.update (hn : n.Emitted) (side : Side) (op : SocketOp) : (n.update h side op).Emitted := by
  intro d
  rcases side.eq_or_other d with rfl | rfl
  · simp only [Net.update, Function.update_self]
    refine List.append_subset.2 ⟨List.Subset.trans (hn d) ?_, List.drop_subset _ _⟩
    rw [Pair.update_self]
    exact ((n.pair d).sent_step _ op).subset
  · simp only [Net.update, Function.update_of_ne (Side.other_ne side), Pair.update_other]; exact hn _

/-- **Refinement.** What this network does, the one that remembers everything may do. -/
theorem run_pair (h : Handshake P) (ops : List NetOp) : ∃ more, (run h ops).pair = Pair.run h more := by
  suffices hrun : (run h ops).Emitted ∧ ∃ more, (run h ops).pair = Pair.run h more from hrun.2
  refine Run.exec_invariant (P := fun n : Net P => n.Emitted ∧ ∃ more, n.pair = Pair.run h more) (fun n op ⟨hn, more, hp⟩ => ?_)
    ⟨fun _ => List.Subset.refl _, [], rfl⟩ ops
  have hstep : ∀ op, n.pair.step h op = Pair.run h (more ++ [op]) := fun op => by rw [Pair.run_append, hp]; rfl
  cases op with
  | deliver side index nowMs =>
    cases hget : (n.inFlight side.other)[index]? with
    | none => simp only [step, hget]; exact ⟨hn, more, hp⟩
    | some segment =>
      simp only [step, hget]
      refine ⟨(hn.take side index).update side _, ?_⟩
      -- the segment is somewhere in the record of the other side
      obtain ⟨i, hi⟩ := List.getElem?_of_mem (hn side.other (List.mem_of_getElem? hget))
      refine ⟨more ++ [.deliver side i nowMs], ?_⟩
      rw [← hstep, Pair.step, hi]; rfl
  | lose side index => exact ⟨hn.take side index, more, hp⟩
  | act side op => exact ⟨hn.update side _, more ++ [.act side op], (hstep (.act side op)).symm ▸ rfl⟩

/-- both connections are retained, nothing is under way, and neither side waits for a timer -/
structure Stuck (h : Handshake P) (nowMs : ℕ) (n : Net P) : Prop where
  retained : ∀ side, (n.pair side).retained = true
  quiet : ∀ side, n.inFlight side = []
  asleep : ∀ side, (n.pair side).conn.nextPollAt nowMs (h.config side).1 = none

end Net

/-- a client and a server that receive at most four bytes at a time -/
def narrowHandshake : Handshake Unit where
  config _ := ⟨{ Config.default with mss := 4, receiveBuffer := 4 }, by decide⟩
  peer _ := ()
  isn
    | .client => 100
    | .server => 700
  nowMs _ := 0
  token _ := 0
  localPort := 9000
  remotePort := 80

/-- the client fills the server's buffer and closes; the server reads, and its window update is lost -/
def lostUpdateRun : List NetOp :=
  [.lose .server 0, .deliver .client 0 1, .deliver .server 0 2, .act .client (.write [1, 2, 3, 4] 3), .deliver .server 0 4,
    .deliver .client 0 5, .act .client (.close 6), .act .server (.read 4), .lose .client 0]

theorem lostUpdateRun_stuck : (Net.run narrowHandshake lostUpdateRun).Stuck narrowHandshake 10000 where
  retained
    | .client => by decide
    | .server => by decide
  quiet
    | .client => by decide
    | .server => by decide
  asleep
    | .client => by decide
    | .server => by decide

/-- **A lost window update.** The server has room again, the client's close is still waiting, and both sleep. -/
theorem stuck_lost_update :
    (Net.run narrowHandshake lostUpdateRun).Stuck narrowHandshake 10000 ∧
      ¬ (((Net.run narrowHandshake lostUpdateRun).pair .server).conn.availableWindow = 0 ∨
        ((Net.run narrowHandshake lostUpdateRun).pair .client).conn.Conveyed ∧
          ((Net.run narrowHandshake lostUpdateRun).pair .client).conn.closeRequested = false) :=
  ⟨lostUpdateRun_stuck, fun h => h.elim (by decide) fun hc => absurd hc.2 (by decide)⟩

/-- **What a stuck state holds back.** Over a network that may lose every segment, when both connections are retained, nothing
is under way and neither side waits for a timer, each side has sent and seen acknowledged everything it accepted; a close it
has not carried out waits for the peer's window. -/
theorem stuck_pending_close {P : Type} (h : Handshake P) (ops : List NetOp) (nowMs : ℕ) (hs : (Net.run h ops).Stuck h nowMs)
    (side : Side) :
    ((Net.run h ops).pair side).conn.Conveyed ∧
      (((Net.run h ops).pair side).conn.closeRequested = true → ((Net.run h ops).pair side).conn.remoteWindow = 0) := by
  obtain ⟨more, hp⟩ := Net.run_pair h ops
  have hsteady : (Net.run h ops).pair.Steady h := hp ▸ Pair.steady_run h more
  exact (hsteady side (hs.retained side)).asleep (hs.asleep side)

theorem stuck_pending_close_lost :
    ((Net.run narrowHandshake lostUpdateRun).pair .client).conn.Conveyed ∧
      ((Net.run narrowHandshake lostUpdateRun).pair .client).conn.remoteWindow = 0 :=
  have h := stuck_pending_close narrowHandshake lostUpdateRun 10000 lostUpdateRun_stuck .client
  ⟨h.1, h.2 (by decide)⟩

end FipsTcp
