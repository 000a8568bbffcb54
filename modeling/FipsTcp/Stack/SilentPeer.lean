/-
How long a silent peer is kept.

A connection that hears nothing from its peer waits for one of three deadlines (`Awaits`): that of a closing state, that of the oldest
segment in flight, or that of the next zero-window probe. At the last two a poll tries once more, and when the budget is used up it
removes the connection. What the application does in the meantime neither puts a deadline off nor gives a try back (`Fades`).
- `Fades.poll`: a poll that keeps the connection used up a try, and no more than one timeout;
- `Fades.after`: every other operation without a segment leaves the account as it is;
- `silent_peer_removed`: from every state, while nothing arrives for it, no connection is there longer than the budget times the
  largest timeout after the deadline that `next_poll_at` announces for it.
-/
import FipsTcp.Stack.HalfOpen
import FipsTcp.Stack.Isolation
import FipsTcp.Pair.Deadlock

namespace FipsTcp

open Table Connection SendWindow

namespace Connection

variable {P : Type} {config : Config} {nowMs start limit d n t : ℕ} {isn : U32} {acc : List U8} {c c' : Connection P}

/-! ## What a connection waits for -/

/-- a deadline of the connection, and how many tries were made when it comes -/
inductive Awaits (config : Config) (c : Connection P) : ℕ → ℕ → Prop
  /-- there is no other try -/
  | closing (d : ℕ) (hd : c.closeDeadline = some d) : Awaits config c d config.maxRetransmissions.toNat
  | flight (hwork : ¬ c.ProbeWork) (oldest : TrackedSegment) (rest : List TrackedSegment) (hu : c.unacked = oldest :: rest) :
    Awaits config c (satAdd oldest.sentAtMs c.rtt.timeoutMs) oldest.transmissions
  | probe (hwork : c.ProbeWork) (d : ℕ) (hd : c.nextZeroWindowProbeMs = some d)
    (hdue : c.hasProbePayload = true ∨ config.maxRetransmissions.toNat ≤ c.zeroWindowProbes) : Awaits config c d c.zeroWindowProbes

/-- what is announced is waited for -/
theorem awaits_of_nextPollAt (ht : c.Timed config) (h : c.nextPollAt nowMs config = some d) : ∃ n, c.Awaits config d n := by
  have hsome : c.closeDeadline = some d ∨ c.transportDeadline nowMs config = some d := by
    unfold nextPollAt at h
    cases hc : c.closeDeadline with
    | none =>
      rw [hc] at h
      exact .inr h
    | some a =>
      cases hb : c.transportDeadline nowMs config with
      | none =>
        rw [hc, hb] at h
        exact .inl h
      | some b =>
        rw [hc, hb] at h
        simp only [earliest, Option.some.injEq] at h ⊢
        omega
  rcases hsome with hclose | htransport
  · exact ⟨_, .closing d hclose⟩
  · by_cases hwork : c.ProbeWork
    · obtain ⟨d', hd'⟩ := Option.isSome_iff_exists.1 (ht.probe hwork.1)
      rw [transportDeadline_probe hwork hd'] at htransport
      split_ifs at htransport with hdue
      cases htransport
      exact ⟨_, .probe hwork d hd' hdue⟩
    · rw [transportDeadline_flight hwork] at htransport
      obtain ⟨oldest, hhead, rfl⟩ := Option.map_eq_some_iff.1 htransport
      obtain ⟨rest, hu⟩ := List.head?_eq_some_iff.1 hhead
      exact ⟨_, .flight hwork oldest rest hu⟩

/-- what is waited for is announced -/
theorem Awaits.due (h : c.Awaits config d n) (nowMs : ℕ) : Due d (c.nextPollAt nowMs config) := by
  rw [due_nextPollAt]
  cases h with
  | closing d hd => exact .inl (by rw [hd]; exact due_some.2 le_rfl)
  | flight hwork oldest rest hu =>
    rw [transportDeadline_flight hwork, hu]
    exact .inr (due_some.2 le_rfl)
  | probe hwork d hd hdue =>
    rw [transportDeadline_probe hwork hd, if_pos hdue]
    exact .inr (due_some.2 le_rfl)

/-- in the two states that wait for a timer nothing is left to send -/
theorem SendInv.spent (hs : c.SendInv config isn acc) (hd : c.closeDeadline = some d) :
    c.unacked = [] ∧ c.sendQueue = [] ∧ c.closeRequested = false ∧ ¬ c.Sending := by
  have hphase : c.sender.phase = .closed := by
    by_contra hno
    rw [closeDeadline_none (fun hst => hno (congrArg State.phase hst)) fun hst => hno (congrArg State.phase hst)] at hd
    cases hd
  have hshape := hs.sender.shape
  rw [hphase] at hshape
  obtain ⟨hq, hclose⟩ := hs.sender.idle (by rw [hphase]; decide)
  exact ⟨List.map_eq_nil_iff.1 hshape, hq, hclose, fun hst => by rw [hst.phase] at hphase; cases hphase⟩

theorem ProbeWork.congr (h : c'.ProbeWork) (hs : c'.sender = c.sender) (hwin : c'.remoteWindow = c.remoteWindow) : c.ProbeWork := by
  obtain ⟨h0, hwork⟩ := h
  have hq : c'.sendQueue = c.sendQueue := congrArg Sender.queue hs
  have hflight : c'.unacked.map TrackedSegment.piece = c.unacked.map TrackedSegment.piece := congrArg Sender.flight hs
  have hclose : c'.closeRequested = c.closeRequested := congrArg Sender.closeWanted hs
  refine ⟨hwin ▸ h0, hwork.imp (fun h => hclose ▸ h) fun hpay => ?_⟩
  rw [hasProbePayload_iff] at hpay ⊢
  refine hpay.imp (fun h => hq ▸ h) ?_
  rintro ⟨x, hx, hpay⟩
  have hmem : x.piece ∈ c.unacked.map TrackedSegment.piece := hflight ▸ List.mem_map_of_mem hx
  obtain ⟨y, hy, heq⟩ := List.mem_map.1 hmem
  exact ⟨y, hy, by rw [show y.payload = x.payload from congrArg Piece.payload heq]; exact hpay⟩

/-! ## The account -/

/-- nothing is heard since `start`: the tries that are left, each at most one timeout after the last, do not reach past `limit` -/
def Fades (config : Config) (start limit nowMs : ℕ) (c : Connection P) : Prop :=
  ∃ d n, c.Awaits config d n ∧ d + (config.maxRetransmissions.toNat - n) * config.maxRtoMs ≤ limit ∧ nowMs ≤ max start d

/-- **One more try**, no later than it was due, with the next at most one timeout away. -/
theorem Awaits.again {d' : ℕ} (h : c'.Awaits config d' (n + 1)) (hn : n < config.maxRetransmissions.toNat)
    (hlimit : start + config.maxRetransmissions.toNat * config.maxRtoMs ≤ limit)
    (hleft : d + (config.maxRetransmissions.toNat - n) * config.maxRtoMs ≤ limit) (ht : t ≤ max start d)
    (hd' : d' ≤ t + config.maxRtoMs) (hnow : t ≤ d') : c'.Fades config start limit t := by
  refine ⟨d', n + 1, h, ?_, le_max_of_le_right hnow⟩
  have hmul : (config.maxRetransmissions.toNat - n) * config.maxRtoMs =
      (config.maxRetransmissions.toNat - (n + 1)) * config.maxRtoMs + config.maxRtoMs := by
    rw [← Nat.succ_mul]
    congr 1
    omega
  have hall : (config.maxRetransmissions.toNat - n) * config.maxRtoMs ≤ config.maxRetransmissions.toNat * config.maxRtoMs :=
    Nat.mul_le_mul_right _ (Nat.sub_le _ _)
  omega

theorem satAdd_within {d : ℕ} (hd : d ≤ config.maxRtoMs) : satAdd t d ≤ t + config.maxRtoMs :=
  (min_le_left _ _).trans (Nat.add_le_add_left hd t)

/-- **The zero-window part of a poll.** -/
theorem Fades.probed (hlimit : start + config.maxRetransmissions.toNat * config.maxRtoMs ≤ limit) (htime : t ≤ maxU64)
    (hwork : c.ProbeWork) (hdl : c.nextZeroWindowProbeMs = some d)
    (hdue : c.hasProbePayload = true ∨ config.maxRetransmissions.toNat ≤ c.zeroWindowProbes)
    (hleft : d + (config.maxRetransmissions.toNat - c.zeroWindowProbes) * config.maxRtoMs ≤ limit) (ht : t ≤ max start d)
    (hopen : (c.pollZeroWindow t config).2.closed = false) : (c.pollZeroWindow t config).1.Fades config start limit t := by
  unfold pollZeroWindow at hopen ⊢
  simp only [hdl, Option.getD_some] at hopen ⊢
  have hself : { c with nextZeroWindowProbeMs := some d } = c := by rw [← hdl]
  rw [hself] at hopen ⊢
  by_cases hnow : d ≤ t
  · rw [if_pos hnow] at hopen ⊢
    by_cases hbudget : config.maxRetransmissions.toNat ≤ c.zeroWindowProbes
    · rw [if_pos hbudget] at hopen
      cases hopen
    · rw [if_neg hbudget]
      have hpay := hdue.resolve_right hbudget
      have hprobes : satSucc8 c.zeroWindowProbes = c.zeroWindowProbes + 1 := by
        have hmax := config.maxRetransmissions.isLt
        unfold satSucc8
        omega
      -- whatever is probed, a payload is left to probe
      have hnext : ∀ (c2 : Connection P) (delay : ℕ), c2.remoteWindow = 0 → c2.hasProbePayload = true →
          c2.zeroWindowProbes = c.zeroWindowProbes + 1 → c2.nextZeroWindowProbeMs = some (satAdd t delay) → delay ≤ config.maxRtoMs →
          c2.Fades config start limit t := by
        intro c2 delay hwin hpay2 hn hd2 hdelay
        have hawaits : c2.Awaits config (satAdd t delay) c2.zeroWindowProbes := .probe ⟨hwin, .inr hpay2⟩ _ hd2 (.inl hpay2)
        rw [hn] at hawaits
        refine hawaits.again (Nat.lt_of_not_le hbudget) hlimit hleft ht (satAdd_within hdelay) ?_
        simp only [satAdd]
        omega
      rcases c.zeroWindowProbe_cases t with ⟨x, -, -, heq⟩ | ⟨hnone, ⟨hq, -⟩ | ⟨hq, heq⟩⟩
      · rw [heq]
        exact hnext _ _ hwork.1 hpay hprobes rfl (min_le_right _ _)
      · rcases hasProbePayload_iff.1 hpay with h | ⟨x, hx, h⟩
        · exact absurd hq h
        · exact absurd (hnone x hx) h
      · rw [heq]
        refine hnext _ _ hwork.1 (hasProbePayload_iff.2 (.inr ?_)) hprobes rfl (min_le_right _ _)
        -- the byte is in flight now
        refine ⟨_, List.mem_append_right c.unacked (List.mem_singleton.2 rfl), ?_⟩
        intro hnil
        have hlen := congrArg List.length hnil
        have hpos := List.length_pos_of_ne_nil hq
        simp only [List.length_take, List.length_nil] at hlen
        omega
  · rw [if_neg hnow]
    exact ⟨d, _, .probe hwork d hdl hdue, hleft, ht⟩

/-- **The retransmission part of a poll.** -/
theorem Fades.retried (hv : config.Valid) (htimed : c.Timed config) (hlimit : start + config.maxRetransmissions.toNat * config.maxRtoMs ≤ limit)
    (htime : t ≤ maxU64) (hwork : ¬ c.ProbeWork) {oldest : TrackedSegment} {rest : List TrackedSegment} (hu : c.unacked = oldest :: rest)
    (hleft : satAdd oldest.sentAtMs c.rtt.timeoutMs + (config.maxRetransmissions.toNat - oldest.transmissions) * config.maxRtoMs ≤ limit)
    (ht : t ≤ max start (satAdd oldest.sentAtMs c.rtt.timeoutMs)) (hbudget : oldest.transmissions < config.maxRetransmissions.toNat) :
    (c.pollTimeout t).1.Fades config start limit t := by
  unfold pollTimeout
  simp only
  generalize hc1 : ({ c with
    rtoRecoveryUntil := some (c.rtoRecoveryUntil.getD c.sendNxt)
    reno := c.reno.onTimeout (distance c.sendUna c.sendNxt)
    rtt := c.rtt.onTimeout } : Connection P) = c1
  have hu1 : c1.unacked = oldest :: rest := by rw [← hc1]; exact hu
  have hs1 : c1.sender = c.sender := by rw [← hc1]; rfl
  have hw1 : c1.remoteWindow = c.remoteWindow := by rw [← hc1]
  have htimed1 : c1.Timed config := by
    have hmoves : Moves config t none c [] c1 := by
      rw [← hc1]
      exact Moves.timers _ _ _ _ _ _ rfl (.inr rfl) (by simp) id
    exact htimed.moves hv hmoves
  have hmax : c1.maxTransmissions ≤ 255 := by
    have := config.maxRetransmissions.isLt
    rw [htimed1.budget]
    omega
  have htimed2 := htimed1.retransmitOldest t true
  have hs2 := (c1.retransmitOldest_sender t true).trans hs1
  have hw2 := (c1.retransmitOldest_frame t true).2.2.2.2.trans hw1
  rcases c1.retransmitOldest_spends t true hmax with heq | ⟨oldest', rest', oldest2, hu', -, -, htimes, hsent, hu2, -⟩
  · -- the budget is not used up
    exfalso
    have hb : ¬ c1.maxTransmissions ≤ oldest.transmissions := by
      rw [htimed1.budget]
      omega
    have hcontra := congrArg Prod.snd heq
    unfold retransmitOldest at hcontra
    simp only [hu1, if_neg hb] at hcontra
    cases hcontra
  · rw [hu1] at hu'
    obtain ⟨rfl, rfl⟩ := List.cons.inj hu'
    generalize (c1.retransmitOldest t true).1 = c2 at htimed2 hs2 hw2 hu2 ⊢
    obtain ⟨⟨tail, htail⟩, hrtt3, hw3, -⟩ := flushData_keeps (c := c2) t
    have hwork3 : ¬ (c2.flushData t).1.ProbeWork := fun hp => by
      -- with a closed window the flush sends nothing
      rw [(settled_of_window (hw3.symm.trans hp.1)).flushData t] at hp
      exact hwork (hp.congr hs2 hw2)
    have hle : c2.rtt.timeoutMs ≤ config.maxRtoMs := htimed2.rtt.le
    have hawaits : (c2.flushData t).1.Awaits config (satAdd oldest2.sentAtMs (c2.flushData t).1.rtt.timeoutMs) oldest2.transmissions :=
      .flight hwork3 oldest2 (rest ++ tail) (by rw [← htail, hu2, List.cons_append])
    rw [hrtt3, hsent, htimes] at hawaits
    refine hawaits.again hbudget hlimit hleft ht (satAdd_within hle) ?_
    simp only [satAdd]
    omega

/-- **A poll** that keeps the connection. -/
theorem Fades.poll (hv : config.Valid) (hs : c.Sound config) (hlimit : start + config.maxRetransmissions.toNat * config.maxRtoMs ≤ limit)
    (htime : t ≤ maxU64) (h : c.Fades config start limit t) (hopen : (c.poll t config).2.closed = false) :
    (c.poll t config).1.Fades config start limit t := by
  obtain ⟨d, n, hawaits, hleft, ht⟩ := h
  obtain ⟨isn, acc, hi⟩ := hs.inv
  have hflush := hs.settled.flushData t
  unfold Connection.poll at hopen ⊢
  by_cases hclose : c.closeDeadline.any fun deadline => decide (deadline ≤ t)
  · rw [if_pos hclose] at hopen
    cases hopen
  rw [if_neg hclose] at hopen ⊢
  cases hawaits with
  | closing d hd =>
    obtain ⟨hu, hq, hcr, -⟩ := hi.send.spent hd
    have hwork : ¬ (c.remoteWindow = 0 ∧ (c.closeRequested = true ∨ c.hasProbePayload = true)) := by
      rintro ⟨-, hp | hp⟩
      · rw [hcr] at hp
        cases hp
      · rcases hasProbePayload_iff.1 hp with hp | ⟨x, hx, -⟩
        · exact hp hq
        · rw [hu] at hx
          cases hx
    rw [if_neg hwork, hu, hflush]
    exact ⟨d, _, .closing d hd, hleft, ht⟩
  | probe hwork d hd hdue =>
    have hwork' : c.remoteWindow = 0 ∧ (c.closeRequested = true ∨ c.hasProbePayload = true) := hwork
    rw [if_pos hwork'] at hopen ⊢
    exact Fades.probed hlimit htime hwork hd hdue hleft ht hopen
  | flight hwork oldest rest hu =>
    have hwork' : ¬ (c.remoteWindow = 0 ∧ (c.closeRequested = true ∨ c.hasProbePayload = true)) := hwork
    rw [if_neg hwork', hu] at hopen ⊢
    simp only at hopen ⊢
    by_cases hdue : satAdd oldest.sentAtMs c.rtt.timeoutMs ≤ t
    · rw [if_pos hdue] at hopen ⊢
      by_cases hbudget : config.maxRetransmissions.toNat ≤ oldest.transmissions
      · rw [if_pos hbudget] at hopen
        cases hopen
      · rw [if_neg hbudget]
        exact Fades.retried hv hs.timed hlimit htime hwork hu hleft ht (Nat.lt_of_not_le hbudget)
    · rw [if_neg hdue, hflush]
      exact ⟨_, _, .flight hwork oldest rest hu, hleft, ht⟩

/-! ## What the application does -/

/-- what the application adds and the connection sends does not put a deadline off -/
theorem Awaits.flush (h : c.Awaits config d n) (hs : c.SendInv config isn acc) (hst : c.Sending) (c0 : Connection P)
    (hu : c0.unacked = c.unacked) (hrtt : c0.rtt = c.rtt) (hwin : c0.remoteWindow = c.remoteWindow)
    (hnext : c0.nextZeroWindowProbeMs = c.nextZeroWindowProbeMs) (hprobes : c0.zeroWindowProbes = c.zeroWindowProbes)
    (hpay : c.hasProbePayload = true → c0.hasProbePayload = true) (hclose : c.closeRequested = true → c0.closeRequested = true)
    (t : ℕ) : (c0.flushData t).1.Awaits config d n := by
  cases h with
  | closing d hd => exact absurd hst (hs.spent hd).2.2.2
  | probe hwork d hd hdue =>
    rw [(settled_of_window (hwin.trans hwork.1)).flushData t, ← hprobes]
    refine .probe ⟨hwin.trans hwork.1, hwork.2.imp hclose hpay⟩ d (hnext.trans hd) (hdue.imp hpay fun h => ?_)
    rw [hprobes]
    exact h
  | flight hwork oldest rest hu' =>
    -- what is in flight has payload, so the window is open
    have hopen : c.remoteWindow ≠ 0 := fun h0 => by
      have hshape := hs.sender.shape
      rw [hst.phase] at hshape
      have hdata : oldest.piece.IsData := hshape _ (List.mem_map_of_mem (hu' ▸ List.mem_cons_self))
      exact hwork ⟨h0, .inr (hasProbePayload_iff.2 (.inr ⟨oldest, hu' ▸ List.mem_cons_self, hdata.payload⟩))⟩
    obtain ⟨⟨tail, htail⟩, hrtt', hwin', -⟩ := flushData_keeps (c := c0) t
    have hrtt'' : (c0.flushData t).1.rtt = c.rtt := hrtt'.trans hrtt
    rw [← hrtt'']
    exact .flight (fun hp => hopen (hwin.symm.trans (hwin'.symm.trans hp.1))) oldest (rest ++ tail)
      (by rw [← htail, hu, hu', List.cons_append])

/-- a write puts bytes into the send queue, and sends what it can -/
theorem write_queued {bytes : List U8} {count : ℕ} {out : List Segment} (h : c.write bytes t config = .ok (c', count, out)) :
    ∃ accepted progress,
      c' = ({ c with sendQueue := c.sendQueue ++ accepted, sendProgress := progress }.flushData t).1 := by
  unfold Connection.write at h
  split_ifs at h
  simp only [Except.ok.injEq, Prod.mk.injEq] at h
  obtain ⟨h, -, -⟩ := h
  exact ⟨_, _, h.symm⟩

theorem close_cases (c : Connection P) (t : ℕ) :
    c.Sending ∧ (c.close t).1 = ({ c with closeRequested := true }.flushData t).1 ∨ (c.close t).1 = c := by
  unfold Connection.close
  split
  · exact .inl ⟨.inl ‹_›, rfl⟩
  · exact .inl ⟨.inr ‹_›, rfl⟩
  · exact .inr rfl
  · exact .inr rfl
  · exact .inr rfl

/-- **The account**, one operation without a segment. -/
theorem Fades.after {o : SocketOp} (hv : config.Valid) (hs : c.Sound config)
    (hlimit : start + config.maxRetransmissions.toNat * config.maxRtoMs ≤ limit) (h : c.Fades config start limit nowMs)
    (hquiet : ∀ segment t, o ≠ .input segment t) (ht : ∀ t, o.clock = some t → t = nowMs ∧ t ≤ maxU64)
    (ho : c.after config o = some c') : c'.Fades config start limit nowMs := by
  obtain ⟨isn, acc, hi⟩ := hs.inv
  cases o with
  | input segment t => exact absurd rfl (hquiet segment t)
  | abort => cases ho
  | read max =>
    simp only [Connection.after, Option.some.injEq] at ho
    subst ho
    obtain ⟨d, n, hawaits, hrest⟩ := h
    refine ⟨d, n, ?_, hrest⟩
    cases hawaits with
    | closing d hd => exact .closing d hd
    | flight hwork oldest rest hu => exact .flight (c := (c.read max).1) hwork oldest rest hu
    | probe hwork d hd hdue => exact .probe (c := (c.read max).1) hwork d hd hdue
  | poll t =>
    obtain ⟨rfl, hmax⟩ := ht t rfl
    simp only [Connection.after] at ho
    split_ifs at ho with hcl
    cases ho
    exact h.poll hv hs hlimit hmax (by simpa using hcl)
  | write bytes t =>
    obtain ⟨d, n, hawaits, hrest⟩ := h
    simp only [Connection.after] at ho
    rcases hw : c.write bytes t config with e | ⟨c1, count, out⟩
    · rw [hw] at ho
      cases ho
      exact ⟨d, n, hawaits, hrest⟩
    · obtain ⟨hst, -⟩ := write_moves config t hi.send.mss hw
      rw [hw] at ho
      cases ho
      obtain ⟨accepted, progress, rfl⟩ := write_queued hw
      refine ⟨d, n, hawaits.flush hi.send hst { c with sendQueue := c.sendQueue ++ accepted, sendProgress := progress } rfl rfl rfl rfl
        rfl (fun hpay => ?_) id t, hrest⟩
      rw [hasProbePayload_iff] at hpay ⊢
      exact hpay.imp_left fun hq hnil => hq (List.append_eq_nil_iff.1 hnil).1
  | close t =>
    obtain ⟨d, n, hawaits, hrest⟩ := h
    simp only [Connection.after] at ho
    split_ifs at ho
    cases ho
    rcases c.close_cases t with ⟨hst, heq⟩ | heq <;> rw [heq]
    · exact ⟨d, n, hawaits.flush hi.send hst { c with closeRequested := true } rfl rfl rfl rfl rfl id (fun _ => rfl) t, hrest⟩
    · exact ⟨d, n, hawaits, hrest⟩

end Connection

/-! ## A stack with a clock -/

namespace Stack

variable {P : Type} [DecidableEq P]

/-- no segment arrives for the connection -/
def Unheard (s : Stack P) (id : ConnectionId) (op : StackOp P) : Prop := ∀ segment nowMs, s.act id op ≠ some (.input segment nowMs)

end Stack

namespace Clocked

variable {P : Type} [DecidableEq P] {config : ValidConfig} {s : Clocked P} {id : ConnectionId} {start limit : ℕ}

/-- a step of a silent peer: it comes at its time, which fits a `u64`, and brings no segment for the connection -/
structure Silence (id : ConnectionId) (s : Clocked P) (op : StackOp P) : Prop where
  punctual : s.Punctual op
  unheard : s.stack.Unheard id op
  clock : ∀ t, op.time = some t → t < 2 ^ 64

/-- an id that was given out, whose connection is within its account if it is there -/
structure Fading (config : ValidConfig) (id : ConnectionId) (start limit : ℕ) (s : Clocked P) : Prop where
  orderly : s.stack.Orderly config
  given : id.raw < s.stack.nextConnectionId
  fades : ∀ c, s.stack.connections.lookup id = some c → c.Fades config.1 start limit s.now

/-- **The clock.** Time does not pass what the connection waits for. -/
theorem Fading.wait (h : s.Fading config id start limit) {t : ℕ} (ht : s.CanWait t) {c : Connection P}
    (hl : s.stack.connections.lookup id = some c) : c.Fades config.1 start limit t := by
  obtain ⟨d, n, hawaits, hleft, hnow⟩ := h.fades c hl
  refine ⟨d, n, hawaits, hleft, ?_⟩
  rcases ht.2 with rfl | hle
  · exact hnow
  · have hdue : Due d (s.stack.nextPollAt s.now) :=
      Stack.due_nextPollAt.2 ⟨id, c, hl, by rw [h.orderly.genuine.same]; exact hawaits.due s.now⟩
    obtain ⟨d', hd', hle'⟩ := hdue
    exact ((hle d' hd').trans hle').trans (le_max_right _ _)

/-- **Preservation, one step.** -/
theorem Fading.step (hlimit : start + config.1.maxRetransmissions.toNat * config.1.maxRtoMs ≤ limit)
    (h : s.Fading config id start limit) {op : StackOp P} (hop : s.Silence id op)
    (hb : (s.step op).stack.nextConnectionToken < 2 ^ 64) : (s.step op).Fading config id start limit := by
  obtain ⟨horderly, hnext⟩ := h.orderly.perform op hb
  refine ⟨horderly, h.given.trans_le hnext, fun c' hl' => ?_⟩
  -- the account at the time of the operation
  have hwait : ∀ c, s.stack.connections.lookup id = some c → c.Fades config.1 start limit (s.step op).now := by
    intro c hl
    cases ht : op.time with
    | none => simpa only [Clocked.step, ht, Option.getD_none] using h.fades c hl
    | some t => simpa only [Clocked.step, ht, Option.getD_some] using h.wait (hop.punctual t ht) hl
  have hs := h.orderly.genuine.sound
  rw [show (s.step op).stack = (s.stack.perform op).1 from rfl] at hl'
  cases Stack.perform_entries hs op with
  | follow hfollow =>
    rw [hfollow] at hl'
    obtain ⟨c, hl, hafter⟩ := Option.bind_eq_some_iff.1 hl'
    have hsound := hs id c hl
    rw [h.orderly.genuine.same] at hsound
    unfold Stack.afterOp at hafter
    cases hact : s.stack.act id op with
    | none =>
      rw [hact] at hafter
      cases hafter
      exact hwait _ hl
    | some o =>
      rw [hact, h.orderly.genuine.same] at hafter
      refine (hwait c hl).after config.valid hsound hlimit (fun segment t heq => ?_) (fun t hclock => ?_) hafter
      · exact hop.unheard segment t (hact.trans (congrArg some heq))
      · have htime := Stack.act_clock hact hclock
        refine ⟨by simp only [Clocked.step, htime, Option.getD_some], ?_⟩
        exact Nat.le_sub_one_of_lt (hop.clock t htime)
  | create o ht hcreate =>
    have hne : id ≠ s.stack.nextId := Stack.Numbered.ne_next h.given
    rw [hcreate, Finmap.lookup_insert_of_ne _ hne] at hl'
    exact hwait c' hl'

theorem step_stack (s : Clocked P) (op : StackOp P) : (s.step op).stack = (s.stack.perform op).1 := rfl

/-- the counter of tokens only moves forward -/
theorem token_le (hs : s.stack.AllSound) (ops : List (StackOp P)) :
    s.stack.nextConnectionToken ≤ (Run.exec step s ops).stack.nextConnectionToken := by
  induction ops generalizing s with
  | nil => exact le_rfl
  | cons op ops ih =>
    have hchange := (Stack.perform_change hs op).1
    exact hchange.cursors.1.trans (ih (s := s.step op) (hchange.ok hs))

/-- what is preserved while the counter of tokens fits its type -/
theorem run_while {Q : Clocked P → Prop} {G : Clocked P → StackOp P → Prop} (hs : s.stack.AllSound)
    (hQ : ∀ s op, G s op → (s.step op).stack.nextConnectionToken < 2 ^ 64 → Q s → Q (s.step op)) (h : Q s) {ops : List (StackOp P)}
    (hG : Run.Along step G s ops) (hb : (Run.exec step s ops).stack.nextConnectionToken < 2 ^ 64) : Q (Run.exec step s ops) := by
  refine (Run.exec_invariant_along (P := fun s : Clocked P => s.stack.AllSound ∧ (s.stack.nextConnectionToken < 2 ^ 64 → Q s))
    (fun s op hop ⟨hs, hq⟩ => ?_) ⟨hs, fun _ => h⟩ hG).2 hb
  have hchange := (Stack.perform_change hs op).1
  exact ⟨hchange.ok hs, fun hb => hQ s op hop hb (hq (hchange.cursors.1.trans_lt hb))⟩

theorem orderly_run (config : ValidConfig) (isnSeed : BitVec 64) {token : ℕ} (htoken : 0 < token) (now : ℕ) (ops : List (StackOp P))
    (hb : (run config isnSeed token now ops).stack.nextConnectionToken < 2 ^ 64) :
    (run config isnSeed token now ops).stack.Orderly config := by
  have hnew : (start config isnSeed token now : Clocked P).stack.Orderly config := .new config isnSeed htoken
  refine run_while (Q := fun s => s.stack.Orderly config) (G := fun _ _ => True) hnew.genuine.sound (fun s op _ hb h => ?_) hnew
    (.of_forall (fun _ _ => trivial) _ _) hb
  rw [step_stack] at hb ⊢
  exact (h.perform op hb).1

end Clocked

/-- **A silent peer is given up.** From every state of a stack, and from there on in every run that does not pass an announced time
and brings no segment for the connection: a connection that is still there is so no longer than the retry budget times the largest
timeout after the time that was announced for it. -/
theorem silent_peer_removed {P : Type} [DecidableEq P] (config : ValidConfig) (isnSeed : BitVec 64) {token : ℕ} (htoken : 0 < token)
    (now : ℕ) (ops more : List (StackOp P)) {id : ConnectionId} {c : Connection P} {d : ℕ}
    (hl : (Clocked.run config isnSeed token now ops).stack.connections.lookup id = some c)
    (hd : c.nextPollAt (Clocked.run config isnSeed token now ops).now config.1 = some d)
    (hsilent : Run.Along Clocked.step (Clocked.Silence id) (Clocked.run config isnSeed token now ops) more)
    (hb : (Clocked.run config isnSeed token now (ops ++ more)).stack.nextConnectionToken < 2 ^ 64)
    (hkept : id ∈ (Clocked.run config isnSeed token now (ops ++ more)).stack.connections) {t : ℕ}
    (ht : (Clocked.run config isnSeed token now (ops ++ more)).CanWait t) :
    t ≤ max (Clocked.run config isnSeed token now ops).now d + config.1.maxRetransmissions.toNat * config.1.maxRtoMs := by
  have happ : Clocked.run config isnSeed token now (ops ++ more) =
      Run.exec Clocked.step (Clocked.run config isnSeed token now ops) more := Run.exec_append _ _ _
  rw [happ] at hb hkept ht
  have hsound := (Stack.ok_run config isnSeed token ops).1
  rw [← Clocked.run_stack config isnSeed token now ops] at hsound
  have hbefore := (Clocked.token_le hsound more).trans_lt hb
  have horderly := Clocked.orderly_run config isnSeed htoken now ops hbefore
  generalize Clocked.run config isnSeed token now ops = s at hl hd hsilent hb hkept ht horderly hsound ⊢
  have hc := hsound id c hl
  rw [show s.stack.view.config = config from horderly.genuine.same] at hc
  obtain ⟨n, hawaits⟩ := awaits_of_nextPollAt hc.timed hd
  -- the account is opened with all tries left
  have hfading : s.Fading config id (max s.now d) (max s.now d + config.1.maxRetransmissions.toNat * config.1.maxRtoMs) := by
    refine ⟨horderly, horderly.numbered.used id (Finmap.mem_of_lookup_eq_some hl), fun c' hl' => ?_⟩
    cases hl.symm.trans hl'
    refine ⟨d, n, hawaits, ?_, le_max_of_le_left (le_max_left _ _)⟩
    exact Nat.add_le_add (le_max_right _ _) (Nat.mul_le_mul_right _ (Nat.sub_le _ _))
  have hend := Clocked.run_while (Q := Clocked.Fading config id (max s.now d) _) hsound
    (fun s op hop hb h => h.step le_rfl hop hb) hfading hsilent hb
  obtain ⟨c', hl'⟩ := Finmap.mem_iff.1 hkept
  obtain ⟨d', n', -, hleft, hnow⟩ := hend.wait ht hl'
  omega

/-- the SYN of `synRun` is sent again when its timeout has run out, and then the peer may be waited for until the next -/
theorem silent_peer_removed_syn :
    let config : ValidConfig := ⟨Config.default, Config.default_validate⟩
    (Clocked.run config 5 1 0 (synRun ++ [.poll [⟨1⟩] 1000])).CanWait 3000 ∧
      3000 ≤ max 0 1000 + config.1.maxRetransmissions.toNat * config.1.maxRtoMs := by
  intro config
  have hnext : (Clocked.run config 5 1 0 synRun).stack.nextPollAt 0 = some 1000 := by decide
  have hsilence : Clocked.Silence ⟨1⟩ (Clocked.run config 5 1 0 synRun) (.poll [⟨1⟩] 1000) := by
    refine ⟨fun t ht => ?_, fun segment t hact => ?_, fun t ht => ?_⟩
    · cases ht
      exact ⟨Nat.zero_le _, .inr fun d hd => (Option.some.inj (hnext.symm.trans hd)).le⟩
    · simp only [Stack.act] at hact
      split_ifs at hact
      cases hact
    · cases ht
      decide
  have hafter : (Clocked.run config 5 1 0 (synRun ++ [.poll [⟨1⟩] 1000])).stack.nextPollAt 1000 = some 3000 := by decide
  have hwait : (Clocked.run config 5 1 0 (synRun ++ [.poll [⟨1⟩] 1000])).CanWait 3000 :=
    ⟨by decide, .inr fun d hd => (Option.some.inj (hafter.symm.trans hd)).le⟩
  have hclient : (Clocked.run config 5 1 0 synRun).stack.connections.lookup ⟨1⟩ =
      some (Connection.client 7 9000 80 100 0 config.1 1).1 := by decide
  exact ⟨hwait, silent_peer_removed config 5 Nat.one_pos 0 synRun [.poll [⟨1⟩] 1000] hclient (by decide) ⟨hsilence, trivial⟩
    (by decide) (by decide) hwait⟩

end FipsTcp
