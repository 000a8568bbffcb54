/-
The calls of the two connections side by side, and whole runs.

A call answers with what it returns and the segments it emits (`Reply`). `call_lockstep` is one call; `connections_lockstep` is every
sequence of calls on a connection made by `client` or `server`: the same segments when it is made, the same answers in the same order,
corresponding connections at the end. It needs a configuration that both implementations accept, clocks and durations whose sums
are exact numbers, and maxima of `read` that are safe integers: for others the TypeScript `read` throws (`read_beyond_safe`).
The lemmas about one function hold however the TypeScript deadlines are held (`Follows`): exactly, or cut at the last safe integer.
-/
import FipsTcp.Lockstep.Operations
import FipsTcp.Core.Socket

namespace FipsTcp

open Number

namespace Connection

section Steps

variable {dl : Deadlines} {config : Config} {token nowMs : ℕ} {c : Connection Ts.JsString} {t : Ts.Connection}

/-! ## Local operations -/

theorem Follows.write (h : Follows dl config token c t) (bytes : List U8) (nowMs : ℕ) :
    match c.write bytes nowMs config with
    | .error _ => t.write bytes nowMs config.toTs = .error ("write is invalid in " ++ Ts.stateText c.state)
    | .ok (c', accepted, segments) => ∃ t', Follows dl config token c' t' ∧
        t.write bytes nowMs config.toTs = .ok (t', accepted, segments.map Segment.toTs) := by
  obtain ⟨hb, reno, hr, rfl⟩ := h
  let buffered := c.sendQueue.length + (c.unacked.map (·.payload.length)).sum
  have hbuffered : (c.toTsBy dl reno token).sendQueue.length +
      ((c.toTsBy dl reno token).unacked.map (·.payload.length)).sum = buffered := by
    simp only [toTsBy, toTs, List.map_map]
    rfl
  unfold Ts.Connection.write Connection.write
  by_cases hbad : ¬ (c.state = .established ∨ c.state = .closeWait) ∨ c.closeRequested
  · rw [if_pos hbad, if_pos (show ((c.toTsBy dl reno token).state ≠ .established ∧ (c.toTsBy dl reno token).state ≠ .closeWait) ∨
      (c.toTsBy dl reno token).closeRequested from hbad.imp_left not_or.1)]
    rfl
  · rw [if_neg hbad, if_neg (show ¬ (((c.toTsBy dl reno token).state ≠ .established ∧ (c.toTsBy dl reno token).state ≠ .closeWait) ∨
      (c.toTsBy dl reno token).closeRequested) from fun h => hbad (h.imp_left not_or.2))]
    let accepted := min bytes.length (config.sendBuffer - buffered)
    let queued := { c with
      sendQueue := c.sendQueue ++ bytes.take accepted, sendProgress := c.sendProgress.accept accepted }
    have h1 : Follows dl config token queued (queued.toTsBy dl reno token) :=
      ⟨⟨hb.rtt, hb.rtos, hb.mss, hb.window, hb.budget, hb.queue⟩, reno, hr, rfl⟩
    obtain ⟨h2, h3⟩ := h1.flushData nowMs
    simp only [hbuffered]
    change ∃ t', Follows dl config token (queued.flushData nowMs).1 t' ∧
      Except.ok (((queued.toTsBy dl reno token).flushData nowMs).1, accepted, ((queued.toTsBy dl reno token).flushData nowMs).2) =
        .ok (t', accepted, (queued.flushData nowMs).2.map Segment.toTs)
    exact ⟨_, h2, by rw [h3]⟩

theorem Follows.read (h : Follows dl config token c t) {max : ℕ} (hmax : max < 2 ^ 53) :
    ∃ t', Follows dl config token (c.read max).1 t' ∧
      t.read max = .ok (t', (c.read max).2.1, (c.read max).2.2.map Segment.toTs) := by
  obtain ⟨hb, reno, hr, rfl⟩ := h
  have hsafe : ¬ maxSafe < max := by simp only [maxSafe]; omega
  let count := min max c.recvQueue.length
  let taken := { c with recvQueue := c.recvQueue.drop count }
  have hqueue : taken.recvQueue.length ≤ config.receiveBuffer := ((List.drop_sublist _ _).length_le).trans hb.queue
  refine ⟨taken.toTsBy dl reno token, ⟨⟨hb.rtt, hb.rtos, hb.mss, hb.window, hb.budget, hqueue⟩, reno, hr, rfl⟩, ?_⟩
  have hack : (taken.toTsBy dl reno token).ackSegment = taken.ackSegment.toTs := taken.toTsBy_ackSegment dl reno token hb.mss
  have hupdate : (0 < count ∧ (c.toTsBy dl reno token).availableWindow < (taken.toTsBy dl reno token).availableWindow ∧
      c.state ≠ .synSent ∧ c.state ≠ .synReceived ∧ c.state ≠ .timeWait) ↔
      (0 < count ∧ c.availableWindow < taken.availableWindow ∧
        ¬ (c.state = .synSent ∨ c.state = .synReceived ∨ c.state = .timeWait)) := by
    rw [toTsBy_availableWindow, toTsBy_availableWindow, not_or, not_or]
  rw [Ts.Connection.read, if_neg hsafe]
  change Except.ok (taken.toTsBy dl reno token, c.recvQueue.take count, if 0 < count ∧
      (c.toTsBy dl reno token).availableWindow < (taken.toTsBy dl reno token).availableWindow ∧
      c.state ≠ .synSent ∧ c.state ≠ .synReceived ∧ c.state ≠ .timeWait then [(taken.toTsBy dl reno token).ackSegment] else []) =
    .ok (_, c.recvQueue.take count, (if 0 < count ∧ c.availableWindow < taken.availableWindow ∧
      ¬ (c.state = .synSent ∨ c.state = .synReceived ∨ c.state = .timeWait) then [taken.ackSegment] else []).map Segment.toTs)
  simp only [hupdate, hack]
  split_ifs <;> rfl

theorem close_eq (c : Connection Ts.JsString) (nowMs : ℕ) :
    c.close nowMs =
      if c.state = .established ∨ c.state = .closeWait then
        (({ c with closeRequested := true }.flushData nowMs).1, .open ({ c with closeRequested := true }.flushData nowMs).2)
      else if c.state = .synSent ∨ c.state = .synReceived then (c, .close [])
      else (c, .open []) := by
  unfold Connection.close
  split <;> simp_all

theorem Follows.close (h : Follows dl config token c t) (nowMs : ℕ) :
    Follows dl config token (c.close nowMs).1 (t.close nowMs).1 ∧ (t.close nowMs).2 = (c.close nowMs).2.toTs := by
  obtain ⟨hb, reno, hr, rfl⟩ := h
  let closing := { c with closeRequested := true }
  have h1 : Follows dl config token closing (closing.toTsBy dl reno token) :=
    ⟨⟨hb.rtt, hb.rtos, hb.mss, hb.window, hb.budget, hb.queue⟩, reno, hr, rfl⟩
  obtain ⟨h2, h3⟩ := h1.flushData nowMs
  have hc : Follows dl config token c (c.toTsBy dl reno token) := ⟨hb, reno, hr, rfl⟩
  rw [close_eq, Ts.Connection.close, show (c.toTsBy dl reno token).state = c.state from rfl]
  split_ifs
  · exact ⟨h2, congrArg Ts.openUpdate h3⟩
  · exact ⟨hc, rfl⟩
  · exact ⟨hc, rfl⟩

/-! ## Timers -/

theorem Follows.closeDeadline (h : Follows dl config token c t) : t.closeDeadline = c.closeDeadline.map dl.close := by
  obtain ⟨-, reno, -, rfl⟩ := h
  unfold Ts.Connection.closeDeadline Connection.closeDeadline
  rw [show (c.toTsBy dl reno token).state = c.state from rfl]
  cases c.state <;> rfl

theorem Follows.zeroWindowWork (h : Follows dl config token c t) :
    (t.remoteWindow = 0 ∧ t.hasZeroWindowWork) ↔ c.remoteWindow = 0 ∧ (c.closeRequested ∨ c.hasProbePayload) := by
  obtain ⟨-, reno, -, rfl⟩ := h
  have hlen : ∀ payload : List U8, decide (0 < payload.length) = !payload.isEmpty := fun payload => by cases payload <;> simp
  have hany : (c.toTsBy dl reno token).unacked.any (fun segment => decide (0 < segment.payload.length)) =
      c.unacked.any fun segment => !segment.payload.isEmpty := by
    simp only [toTsBy, toTs, List.any_map, Function.comp_def, TrackedSegment.toTs, hlen]
  refine and_congr Iff.rfl ?_
  unfold Ts.Connection.hasZeroWindowWork hasProbePayload
  rw [hany, hlen, Bool.or_assoc, Bool.or_eq_true]
  rfl

theorem Bounds.zeroWindowProbe {P : Type} {c : Connection P} (hb : c.Bounds config) (nowMs : ℕ) :
    (c.zeroWindowProbe nowMs).1.Bounds config ∧ (c.zeroWindowProbe nowMs).1.reno = c.reno ∧
      (c.zeroWindowProbe nowMs).1.zeroWindowProbes = c.zeroWindowProbes := by
  unfold Connection.zeroWindowProbe
  split
  · exact ⟨⟨hb.rtt.onRetransmit _, hb.rtos, hb.mss, hb.window, hb.budget, hb.queue⟩, rfl, rfl⟩
  · split_ifs
    · exact ⟨hb, rfl, rfl⟩
    · exact ⟨⟨hb.rtt, hb.rtos, hb.mss, hb.window, hb.budget, hb.queue⟩, rfl, rfl⟩

/-- the probe timer after a probe -/
theorem onProbe_eq (hv : config.Shared) (hclock : dl.Fits config nowMs) (nextMs : Option ℕ) {probes : ℕ}
    (hp : probes < config.maxRetransmissions.toNat) :
    (⟨nextMs, probes⟩ : Ts.PersistTimer).onProbe nowMs config.toTs =
      ⟨some (dl.probe (satAdd nowMs (min (satMul config.initialRtoMs (2 ^ min (satSucc8 probes) 16)) config.maxRtoMs))),
        satSucc8 probes⟩ := by
  have hmax := hv.maxRto
  have hlt := config.maxRetransmissions.isLt
  have hsucc : satSucc8 probes = probes + 1 := by
    simp only [satSucc8]
    omega
  have hdelay : min config.maxRtoMs (rounded (config.initialRtoMs * 2 ^ min 16 (probes + 1))) =
      min (satMul config.initialRtoMs (2 ^ min (probes + 1) 16)) config.maxRtoMs := by
    rw [min_rounded hmax, min_comm 16]
    simp only [satMul, maxU64]
    omega
  rw [hsucc, Ts.PersistTimer.onProbe]
  change Ts.PersistTimer.mk (some (rounded (nowMs + min config.maxRtoMs (rounded (config.initialRtoMs *
    2 ^ min 16 (probes + 1)))))) (probes + 1) = _
  rw [hdelay, hclock.probe _ (min_le_right _ _)]

theorem Follows.pollZeroWindow (h : Follows dl config token c t) (hv : config.Shared) (hclock : dl.Fits config nowMs)
    (htells : dl.Tells nowMs) :
    Follows dl config token (c.pollZeroWindow nowMs config).1 (t.pollZeroWindow nowMs config.toTs).1 ∧
      (t.pollZeroWindow nowMs config.toTs).2 = (c.pollZeroWindow nowMs config).2.toTs := by
  obtain ⟨hb, reno, hr, rfl⟩ := h
  let deadline := c.nextZeroWindowProbeMs.getD (satAdd nowMs config.initialRtoMs)
  let armed := { c with nextZeroWindowProbeMs := some deadline }
  have ha : armed.Bounds config := ⟨hb.rtt, hb.rtos, hb.mss, hb.window, hb.budget, hb.queue⟩
  have hnext : (c.toTsBy dl reno token).persist.nextMs.getD (rounded (nowMs + config.toTs.initialRtoMs)) = dl.probe deadline := by
    rw [show rounded (nowMs + config.toTs.initialRtoMs) = _ from hclock.probe _ hv.valid.maxRto_ge]
    exact Option.getD_map dl.probe _ _
  have hwaits : nowMs < dl.probe deadline ↔ nowMs < deadline := by rw [← not_le, ← not_le, htells.probe]
  have haction : (c.toTsBy dl reno token).persist.action nowMs config.toTs = ((armed.toTsBy dl reno token).persist,
      if nowMs < deadline then .wait
      else if config.maxRetransmissions.toNat ≤ c.zeroWindowProbes then .abort else .probe) := by
    unfold Ts.PersistTimer.action
    simp only [hnext, hwaits]
    by_cases hwait : nowMs < deadline
    · rw [if_pos hwait, if_pos hwait]
      rfl
    · rw [if_neg hwait, if_neg hwait]
      rfl
  have hc : Follows dl config token armed (armed.toTsBy dl reno token) := ⟨ha, reno, hr, rfl⟩
  unfold Ts.Connection.pollZeroWindow Connection.pollZeroWindow
  rw [haction]
  by_cases hdue : deadline ≤ nowMs
  · rw [if_pos hdue, if_neg (not_lt.2 hdue)]
    by_cases hbudget : config.maxRetransmissions.toNat ≤ c.zeroWindowProbes
    · rw [if_pos hbudget, if_pos hbudget]
      exact ⟨hc, rfl⟩
    · rw [if_neg hbudget, if_neg hbudget]
      -- the probe, and the timer of the next one
      obtain ⟨h1, h2, h3⟩ := ha.zeroWindowProbe nowMs
      have hprobe : (armed.toTsBy dl reno token).zeroWindowProbe nowMs = _ := toTsBy_zeroWindowProbe ha.mss nowMs
      dsimp only
      generalize hz : { c with nextZeroWindowProbeMs := some (c.nextZeroWindowProbeMs.getD
        (satAdd nowMs config.initialRtoMs)) }.zeroWindowProbe nowMs = result
      generalize htz : { c.toTsBy dl reno token with persist := (armed.toTsBy dl reno token).persist }.zeroWindowProbe nowMs = tresult
      rw [show armed.zeroWindowProbe nowMs = result from hz] at h1 h2 h3 hprobe
      rw [show (armed.toTsBy dl reno token).zeroWindowProbe nowMs = tresult from htz] at hprobe
      subst hprobe
      obtain ⟨c2, _ | probe⟩ := result
      · exact ⟨⟨h1, reno, h2.symm ▸ hr, rfl⟩, rfl⟩
      · have hlt : c2.zeroWindowProbes < config.maxRetransmissions.toNat := h3.symm ▸ not_le.1 hbudget
        have htimer := onProbe_eq hv hclock (c2.nextZeroWindowProbeMs.map dl.probe) hlt
        refine ⟨⟨⟨h1.rtt, h1.rtos, h1.mss, h1.window, h1.budget, h1.queue⟩, reno, h2.symm ▸ hr, ?_⟩, rfl⟩
        change { c2.toTsBy dl reno token with
          persist := (⟨c2.nextZeroWindowProbeMs.map dl.probe, c2.zeroWindowProbes⟩ : Ts.PersistTimer).onProbe nowMs config.toTs } = _
        rw [htimer]
        rfl
  · rw [if_neg hdue, if_pos (not_le.1 hdue)]
    exact ⟨hc, rfl⟩

/-- `poll` when the retransmission timer has run out -/
theorem Follows.pollTimeout (h : Follows dl config token c t) (hv : config.Shared) (nowMs : ℕ) :
    let timedOut := { t with
      rtoRecoveryUntil := some (t.rtoRecoveryUntil.getD t.sendNxt)
      reno := t.reno.onTimeout (Ts.distance t.sendUna t.sendNxt)
      rtt := t.rtt.onTimeout }
    let result := timedOut.retransmitOldest nowMs true
    let flushed := result.1.flushData nowMs
    Follows dl config token (c.pollTimeout nowMs).1 flushed.1 ∧
      result.2.toList ++ flushed.2 = (c.pollTimeout nowMs).2.map Segment.toTs := by
  obtain ⟨hb, reno, hr, rfl⟩ := h
  obtain ⟨hrtt, hrtos⟩ := RttEstimator.toTs_onTimeout hb.rtos (hb.rtt.maxRto ▸ hv.maxRto)
  have hflight : Ts.distance (c.toTsBy dl reno token).sendUna (c.toTsBy dl reno token).sendNxt = distance c.sendUna c.sendNxt :=
    ts_distance _ _
  let timedOut := { c with
    rtoRecoveryUntil := some (c.rtoRecoveryUntil.getD c.sendNxt)
    reno := c.reno.onTimeout (distance c.sendUna c.sendNxt)
    rtt := c.rtt.onTimeout }
  have htwin : { c.toTsBy dl reno token with
      rtoRecoveryUntil := some ((c.toTsBy dl reno token).rtoRecoveryUntil.getD (c.toTsBy dl reno token).sendNxt)
      reno := (c.toTsBy dl reno token).reno.onTimeout
        (Ts.distance (c.toTsBy dl reno token).sendUna (c.toTsBy dl reno token).sendNxt)
      rtt := (c.toTsBy dl reno token).rtt.onTimeout } =
      timedOut.toTsBy dl (reno.onTimeout (distance c.sendUna c.sendNxt)) token := by
    rw [hflight, show (c.toTsBy dl reno token).rtt = c.rtt.toTs from rfl, hrtt]
    simp only [toTsBy, toTs, timedOut, Option.getD_map, Option.map_some]
  have h1 : Follows dl config token timedOut (timedOut.toTsBy dl (reno.onTimeout (distance c.sendUna c.sendNxt)) token) :=
    ⟨⟨hb.rtt.onTimeout hv.valid, hrtos, hb.mss, hb.window, hb.budget, hb.queue⟩, _,
      hr.onTimeout _ (distance_lt c.sendUna c.sendNxt), rfl⟩
  obtain ⟨h2, h3⟩ := h1.retransmitOldest nowMs true
  obtain ⟨h4, h5⟩ := h2.flushData nowMs
  simp only [htwin]
  refine ⟨h4, ?_⟩
  rw [h3, h5, Option.toList_map, ← List.map_append]
  rfl

theorem Follows.poll (h : Follows dl config token c t) (hv : config.Shared) (hclock : dl.Fits config nowMs)
    (htells : dl.Tells nowMs) :
    Follows dl config token (c.poll nowMs config).1 (t.poll nowMs config.toTs).1 ∧
      (t.poll nowMs config.toTs).2 = (c.poll nowMs config).2.toTs := by
  have hdeadline : ((c.closeDeadline.map dl.close).any fun deadline => decide (deadline ≤ nowMs)) =
      c.closeDeadline.any fun deadline => decide (deadline ≤ nowMs) := by
    cases c.closeDeadline with
    | none => rfl
    | some deadline => exact decide_eq_decide.2 (htells.close deadline)
  obtain ⟨h1, h2⟩ := h.flushData nowMs
  unfold Ts.Connection.poll Connection.poll
  have hhead : t.unacked.head? = c.unacked.head?.map TrackedSegment.toTs := by rw [h.fields.2.2.2.2.2, List.head?_map]
  simp only [h.closeDeadline, hdeadline, h.zeroWindowWork, hhead]
  by_cases hclose : c.closeDeadline.any fun deadline => decide (deadline ≤ nowMs)
  · rw [if_pos hclose, if_pos hclose]
    exact ⟨h, rfl⟩
  rw [if_neg hclose, if_neg hclose]
  by_cases hzero : c.remoteWindow = 0 ∧ (c.closeRequested ∨ c.hasProbePayload)
  · rw [if_pos hzero, if_pos hzero]
    exact h.pollZeroWindow hv hclock htells
  rw [if_neg hzero, if_neg hzero]
  cases c.unacked with
  | nil => exact ⟨h1, congrArg Ts.openUpdate h2⟩
  | cons oldest rest =>
    have hrtt : t.rtt.timeoutMs = c.rtt.timeoutMs := by
      obtain ⟨-, reno, -, rfl⟩ := h
      rfl
    have hnow := htells.now
    have hdue : rounded (oldest.sentAtMs + c.rtt.timeoutMs) ≤ nowMs ↔ satAdd oldest.sentAtMs c.rtt.timeoutMs ≤ nowMs := by
      rw [rounded_le_iff hnow, satAdd, maxU64]
      omega
    simp only [List.head?_cons, Option.map_some, hrtt]
    rw [show oldest.toTs.sentAtMs = oldest.sentAtMs from rfl, show oldest.toTs.transmissions = oldest.transmissions from rfl,
      show config.toTs.maxRetransmissions = config.maxRetransmissions.toNat from rfl]
    simp only [hdue]
    by_cases hd : satAdd oldest.sentAtMs c.rtt.timeoutMs ≤ nowMs
    · rw [if_pos hd, if_pos hd]
      by_cases hbudget : config.maxRetransmissions.toNat ≤ oldest.transmissions
      · rw [if_pos hbudget, if_pos hbudget]
        exact ⟨h, rfl⟩
      · rw [if_neg hbudget, if_neg hbudget]
        obtain ⟨h3, h4⟩ := h.pollTimeout hv nowMs
        exact ⟨h3, congrArg Ts.openUpdate h4⟩
    · rw [if_neg hd, if_neg hd]
      exact ⟨h1, congrArg Ts.openUpdate h2⟩

/-! ## Creation -/

theorem Follows.new (hv : config.Shared) (peer : Ts.JsString) (localPort remotePort : U16) (state : State)
    (sendIsn recvNxt : U32) (token' : ℕ) :
    Follows dl config token (Connection.new peer localPort remotePort state sendIsn recvNxt config token')
      (Ts.Connection.new peer localPort.toNat remotePort.toNat state sendIsn.toNat recvNxt.toNat config.toTs token) := by
  have hmss : config.mss.toNat ≤ 65535 := Nat.le_of_lt_succ config.mss.isLt
  refine ⟨⟨RttEstimator.new_inBounds hv.valid, Nat.zero_lt_succ 2, hmss, le_rfl, rfl, Nat.zero_le _⟩,
    Ts.Reno.new config.mss.toNat, Reno.new_agrees hmss, ?_⟩
  have hrtt : Ts.RttEstimator.new config.initialRtoMs config.minRtoMs config.maxRtoMs =
      (RttEstimator.new config.initialRtoMs config.minRtoMs config.maxRtoMs).toTs :=
    RttEstimator.toTs_new (hv.valid.minRto_le.trans hv.valid.maxRto_ge)
  unfold Ts.Connection.new
  rw [show Ts.RttEstimator.new config.toTs.initialRtoMs config.toTs.minRtoMs config.toTs.maxRtoMs = _ from hrtt]
  rfl

theorem Follows.sendTracked (h : Follows dl config token c t) (flags : Flags) (payload : List U8) (nowMs : ℕ) :
    Follows dl config token (c.sendTracked flags payload nowMs).1 (t.sendTracked flags.toTs payload nowMs).1 ∧
      (t.sendTracked flags.toTs payload nowMs).2 = (c.sendTracked flags payload nowMs).2.toTs := by
  obtain ⟨hb, reno, hr, rfl⟩ := h
  rw [c.toTsBy_sendTracked dl reno token hb.mss]
  exact ⟨⟨⟨hb.rtt, hb.rtos, hb.mss, hb.window, hb.budget, hb.queue⟩, reno, hr, rfl⟩, rfl⟩

end Steps

end Connection

namespace Opening

/-- the clock when the connection is made -/
def nowMs {P : Type} : Opening P → ℕ
  | client _ _ _ _ nowMs _ => nowMs
  | server _ _ _ nowMs _ => nowMs

/-- `Connection.client` and `Connection.server` of the TypeScript package, on the same arguments -/
def tsConnection (config : Config) (token : ℕ) : Opening Ts.JsString → Ts.Connection × List Ts.Segment
  | client peer localPort remotePort isn nowMs _ =>
    Ts.Connection.client peer localPort.toNat remotePort.toNat isn.toNat nowMs config.toTs token
  | server peer syn isn nowMs _ => Ts.Connection.server peer syn.toTs isn.toNat nowMs config.toTs token

theorem lockstep {dl : Connection.Deadlines} {config : Config} (hv : config.Shared) (o : Opening Ts.JsString) (token : ℕ)
    (hclock : dl.Fits config o.nowMs) :
    Connection.Follows dl config token (o.connection config).1 (o.tsConnection config token).1 ∧
      (o.tsConnection config token).2 = (o.connection config).2.map Segment.toTs := by
  cases o with
  | client peer localPort remotePort isn nowMs token' =>
    have h : Connection.Follows dl config token _ _ := .new hv peer localPort remotePort .synSent isn 0 token'
    obtain ⟨h1, h2⟩ := h.sendTracked .SYN [] nowMs
    exact ⟨h1, congrArg (fun syn => [syn]) h2⟩
  | server peer syn isn nowMs token' =>
    have h : Connection.Follows dl config token _ _ :=
      .new hv peer syn.dstPort syn.srcPort .synReceived isn (syn.seq + 1) token'
    rw [← ts_u32_succ] at h
    have h1 := (h.updateRemoteWindow hclock syn.window).negotiateMss syn
    obtain ⟨h2, h3⟩ := h1.sendTracked (Flags.SYN.union .ACK) [] nowMs
    exact ⟨h2, congrArg (fun synAck => [synAck]) h3⟩

end Opening

/-! ## Runs -/

/-- what a call answers, with the segments it emits -/
inductive Reply (σ : Type) where
  | updated (segments : List σ) (accepted closed : Bool)
  | wrote (accepted : ℕ) (segments : List σ)
  | read (bytes : List U8) (segments : List σ)
  | refused
deriving DecidableEq, Repr

namespace Reply

def toTs : Reply Segment → Reply Ts.Segment
  | updated segments accepted closed => .updated (segments.map Segment.toTs) accepted closed
  | wrote accepted segments => .wrote accepted (segments.map Segment.toTs)
  | read bytes segments => .read bytes (segments.map Segment.toTs)
  | refused => .refused

def ofUpdate (update : Update) : Reply Segment := .updated update.segments update.accepted update.closed

def ofTsUpdate (update : Ts.ConnectionUpdate) : Reply Ts.Segment := .updated update.segments update.accepted update.closed

end Reply

/-- one call on a Rust connection -/
def Connection.call {P : Type} (config : Config) (c : Connection P) : SocketOp → Connection P × Reply Segment
  | .input segment nowMs => ((c.input segment nowMs config).1, .ofUpdate (c.input segment nowMs config).2)
  | .write bytes nowMs =>
    match c.write bytes nowMs config with
    | .error _ => (c, .refused)
    | .ok (c', accepted, segments) => (c', .wrote accepted segments)
  | .read max => ((c.read max).1, .read (c.read max).2.1 (c.read max).2.2)
  | .close nowMs => ((c.close nowMs).1, .ofUpdate (c.close nowMs).2)
  | .abort => (c, .updated [c.resetSegment] false true)
  | .poll nowMs => ((c.poll nowMs config).1, .ofUpdate (c.poll nowMs config).2)

/-- the same call on a TypeScript connection; an exception leaves it as it was -/
def Ts.Connection.call (config : FipsTcp.Config) (t : Ts.Connection) : SocketOp → Ts.Connection × Reply Ts.Segment
  | .input segment nowMs =>
    ((t.input segment.toTs nowMs config.toTs).1, .ofTsUpdate (t.input segment.toTs nowMs config.toTs).2)
  | .write bytes nowMs =>
    match t.write bytes nowMs config.toTs with
    | .error _ => (t, .refused)
    | .ok (t', accepted, segments) => (t', .wrote accepted segments)
  | .read max =>
    match t.read max with
    | .error _ => (t, .refused)
    | .ok (t', bytes, segments) => (t', .read bytes segments)
  | .close nowMs => ((t.close nowMs).1, .ofTsUpdate (t.close nowMs).2)
  | .abort => (t, .updated [t.resetSegment] false true)
  | .poll nowMs => ((t.poll nowMs config.toTs).1, .ofTsUpdate (t.poll nowMs config.toTs).2)

namespace Connection

/-- the sums of a call with clocks and durations are exact numbers, and the maximum of a read is a safe integer -/
def CallSafe {P : Type} (config : Config) (c : Connection P) : SocketOp → Prop
  | .input _ nowMs => ClockSafe config nowMs ∧ c.SampleSafe nowMs
  | .write _ nowMs | .close nowMs | .poll nowMs => ClockSafe config nowMs
  | .read max => max < 2 ^ 53
  | .abort => True

instance (config : Config) (nowMs : ℕ) : Decidable (ClockSafe config nowMs) :=
  decidable_of_iff (nowMs + config.maxRtoMs < 2 ^ 53 ∧ nowMs + config.finWait2Ms < 2 ^ 53 ∧ nowMs + config.timeWaitMs < 2 ^ 53)
    ⟨fun h => ⟨h.1, h.2.1, h.2.2⟩, fun h => ⟨h.rto, h.finWait2, h.timeWait⟩⟩

instance {P : Type} (config : Config) (c : Connection P) (op : SocketOp) : Decidable (c.CallSafe config op) :=
  match op with
  | .input _ nowMs => inferInstanceAs (Decidable (ClockSafe config nowMs ∧ ∀ s ∈ c.unacked, c.rtt.SumsSafe (nowMs - s.sentAtMs)))
  | .write _ nowMs | .close nowMs | .poll nowMs => inferInstanceAs (Decidable (ClockSafe config nowMs))
  | .read max => inferInstanceAs (Decidable (max < 2 ^ 53))
  | .abort => inferInstanceAs (Decidable True)

variable {config : Config} {token : ℕ} {c : Connection Ts.JsString} {t : Ts.Connection}

/-- one call -/
theorem call_lockstep (hv : config.Shared) (op : SocketOp) (hsafe : c.CallSafe config op) (h : Follows .exact config token c t) :
    Follows .exact config token (c.call config op).1 (t.call config op).1 ∧
      (t.call config op).2 = (c.call config op).2.toTs := by
  have hupdate : ∀ {c' : Connection Ts.JsString} {t' : Ts.Connection} {update : Update} {tupdate : Ts.ConnectionUpdate},
      Follows .exact config token c' t' ∧ tupdate = update.toTs →
        Follows .exact config token c' t' ∧ Reply.ofTsUpdate tupdate = (Reply.ofUpdate update).toTs :=
    fun h => ⟨h.1, congrArg Reply.ofTsUpdate h.2⟩
  cases op with
  | input segment nowMs => exact hupdate (h.input hv (Deadlines.exact_fits hsafe.1) hsafe.2 segment)
  | write bytes nowMs =>
    have hwrite := h.write bytes nowMs
    unfold call Ts.Connection.call
    cases hw : c.write bytes nowMs config with
    | error e =>
      rw [hw] at hwrite
      simp only [hw, hwrite]
      exact ⟨h, rfl⟩
    | ok result =>
      rw [hw] at hwrite
      obtain ⟨t', h1, h2⟩ := hwrite
      simp only [hw, h2]
      exact ⟨h1, rfl⟩
  | read max =>
    obtain ⟨t', h1, h2⟩ := h.read hsafe
    unfold call Ts.Connection.call
    simp only [h2]
    exact ⟨h1, rfl⟩
  | close nowMs => exact hupdate (h.close nowMs)
  | abort =>
    obtain ⟨hb, reno, hr, rfl⟩ := h
    have hreset := c.toTsBy_resetSegment .exact reno token hb.mss
    exact ⟨⟨hb, reno, hr, rfl⟩, congrArg (fun reset => Reply.updated [reset] false true) hreset⟩
  | poll nowMs => exact hupdate (h.poll hv (Deadlines.exact_fits hsafe) (Deadlines.exact_tells hsafe))

end Connection

/-- **The two connections are in lockstep.** -/
theorem connections_lockstep {config : Config} (hv : config.Shared) (o : Opening Ts.JsString) (token : ℕ) (ops : List SocketOp)
    (hclock : Connection.ClockSafe config o.nowMs)
    (hsafe : Run.Along (fun c op => (c.call config op).1) (Connection.CallSafe config) (o.connection config).1 ops) :
    (o.tsConnection config token).2 = (o.connection config).2.map Segment.toTs ∧
      Run.answers (Ts.Connection.call config) (o.tsConnection config token).1 ops =
        (Run.answers (Connection.call config) (o.connection config).1 ops).map Reply.toTs ∧
      Connection.Corresponds config token (Run.exec (fun c op => (c.call config op).1) (o.connection config).1 ops)
        (Run.exec (fun t op => (t.call config op).1) (o.tsConnection config token).1 ops) := by
  obtain ⟨h1, h2⟩ := o.lockstep hv token (Connection.Deadlines.exact_fits hclock)
  obtain ⟨h3, h4⟩ := Run.exec_lockstep (fun c t op hs h => Connection.call_lockstep hv op hs h) h1 hsafe
  exact ⟨h2, h4, Connection.follows_exact.1 h3⟩

/-- a configuration that both implementations accept: the Rust default with a limit per peer that is a safe integer -/
def Config.shared : Config := { Config.default with maxConnectionsPerPeer := 1024 }

theorem Config.shared_accepted : Config.shared.Shared := ⟨by decide, by decide⟩

/-- a client that connects, sends, reads and closes -/
def lockstepRun : List SocketOp :=
  [.input { Segment.new 80 9000 700 with
      ack := some 101, flags := Flags.SYN.union .ACK, window := 5, options := [.fipsVersion FIPS_VERSION 0] } 3,
    .write [1, 2, 3, 4, 5, 6, 7] 4,
    .input { Segment.new 80 9000 701 with ack := some 104, flags := .ACK, window := 9, payload := [8, 9] } 9,
    .read 10, .poll 1200, .close 1300, .input { Segment.new 80 9000 703 with ack := some 109, flags := .ACK } 1400]

theorem connections_lockstep_run :
    Run.answers (Ts.Connection.call Config.shared)
        ((Opening.client [102] 9000 80 100 0 0).tsConnection Config.shared 0).1 lockstepRun =
      (Run.answers (Connection.call Config.shared)
        ((Opening.client ([102] : Ts.JsString) 9000 80 100 0 0).connection Config.shared).1 lockstepRun).map Reply.toTs :=
  (connections_lockstep Config.shared_accepted (.client [102] 9000 80 100 0 0) 0 lockstepRun (by decide) (by decide)).2.1

/-- a maximum of 2^53 is a `usize` that Rust takes, and no safe integer -/
theorem read_beyond_safe :
    Run.answers (Connection.call Config.shared)
        ((Opening.client ([102] : Ts.JsString) 9000 80 100 0 0).connection Config.shared).1 [.read (2 ^ 53)] = [.read [] []] ∧
      Run.answers (Ts.Connection.call Config.shared)
        ((Opening.client [102] 9000 80 100 0 0).tsConnection Config.shared 0).1 [.read (2 ^ 53)] = [.refused] := by
  decide

end FipsTcp
