/-
The round trips that a connection measures.

`rtt_arithmetic` is about an estimator and a history of samples. The estimator of a connection runs such a history: each primitive adds
at most one event to it, and a sample is the time since a segment was sent, so it is at most the time of the clock (`Move.estimates`).
- `Connection.Measured.after`: one operation, at a time up to a bound, keeps the smoothed values below the bound;
- `Stack.Surveyed.step`, `surveyed_run`: so does an operation of a stack, for every connection, and every run;
- `stack_round_trips`: after every run no sample that a segment in flight can give overflows.
-/
import FipsTcp.Connection.Budget
import FipsTcp.Connection.Rtt
import FipsTcp.Stack.Entries

namespace FipsTcp

open Table

namespace Connection

variable {P : Type} {config : Config} {nowMs m : ℕ} {inp : Option Segment} {c c' : Connection P} {out : List Segment}

/-! ## The history of an estimator -/

/-- the estimator went through a history whose samples are at most the time -/
def Estimates (nowMs : ℕ) (r r' : RttEstimator) : Prop :=
  ∃ events : List RttEstimator.Event, r' = Run.exec RttEstimator.step r events ∧
    ∀ sampleMs, .sample sampleMs ∈ events → sampleMs ≤ nowMs

theorem Estimates.refl (nowMs : ℕ) (r : RttEstimator) : Estimates nowMs r r := ⟨[], rfl, fun _ h => nomatch h⟩

theorem Estimates.trans {r r' r'' : RttEstimator} (h : Estimates nowMs r r') (h' : Estimates nowMs r' r'') : Estimates nowMs r r'' := by
  obtain ⟨events, rfl, hs⟩ := h
  obtain ⟨more, rfl, hs'⟩ := h'
  refine ⟨events ++ more, (Run.exec_append _ _ _).symm, fun sampleMs hmem => ?_⟩
  exact (List.mem_append.1 hmem).elim (hs sampleMs) (hs' sampleMs)

/-- what an ACK is measured by is the time since a segment was sent -/
theorem ackLoop_sample_le (rtt : RttEstimator) (ack : U32) (nowMs : ℕ) (l : List TrackedSegment) (acked : ℕ) (fin : Bool)
    {sample : Option ℕ} (h : ∀ x ∈ sample, x ≤ nowMs) :
    ∀ x ∈ (ackLoop rtt ack nowMs l acked fin sample).2.2.2, x ≤ nowMs := by
  induction l generalizing acked fin sample with
  | nil => exact h
  | cons segment rest ih =>
    unfold ackLoop
    split_ifs
    · refine ih _ _ fun x hx => ?_
      cases hx
      exact Nat.sub_le _ _
    · exact ih _ _ h
    · exact h

theorem advanceAck_estimates (c : Connection P) (ack : U32) (nowMs : ℕ) : Estimates nowMs c.rtt (c.advanceAck ack nowMs).1.rtt := by
  have hnone : ∀ x ∈ (none : Option ℕ), x ≤ nowMs := by simp
  have hle := ackLoop_sample_le c.rtt ack nowMs c.unacked 0 false hnone
  unfold advanceAck
  generalize ackLoop c.rtt ack nowMs c.unacked 0 false none = result at hle ⊢
  obtain ⟨rest, acked, fin, sample⟩ := result
  cases sample with
  | none => exact .refl nowMs c.rtt
  | some sampleMs =>
    refine ⟨[.sample sampleMs], rfl, fun x hx => ?_⟩
    cases List.mem_singleton.1 hx
    exact hle sampleMs rfl

theorem retransmitOldest_estimates (c : Connection P) (nowMs : ℕ) (timeout : Bool) :
    Estimates nowMs c.rtt (c.retransmitOldest nowMs timeout).1.rtt := by
  rcases c.retransmitOldest_cases nowMs timeout with heq | ⟨tracked, rest, transmissions, dups, -, -, heq⟩ <;> rw [heq]
  · exact .refl nowMs c.rtt
  · exact ⟨[.retransmit c.sendNxt], rfl, fun x hx => nomatch List.mem_singleton.1 hx⟩

theorem applyAck_estimates (c : Connection P) (ack : U32) (nowMs : ℕ) (duplicate : Bool) :
    Estimates nowMs c.rtt (c.applyAck ack nowMs duplicate).1.rtt := by
  refine applyAck_preserves (Q := fun c' => Estimates nowMs c.rtt c'.rtt) c ack nowMs duplicate (fun _ _ _ => ?_)
    (fun duplicateAcks reno _ => ?_) (c.advanceAck_estimates ack nowMs)
  · exact .refl nowMs c.rtt
  · exact retransmitOldest_estimates { c with duplicateAcks, reno } nowMs false

/-- **One primitive** adds at most one event. -/
theorem Move.estimates (h : Move config nowMs inp c out c') : Estimates nowMs c.rtt c'.rtt := by
  cases h with
  | establishClient segment =>
    have hack := ((c.updateRemoteWindow segment.window nowMs).negotiateMss segment config).applyAck_estimates
      ((c.updateRemoteWindow segment.window nowMs).negotiateMss segment config).sendNxt nowMs false
    have hsame : ((c.updateRemoteWindow segment.window nowMs).negotiateMss segment config).rtt = c.rtt :=
      (c.updateRemoteWindow_unacked segment.window nowMs).2
    rw [hsame] at hack
    exact hack
  | establishServer segment =>
    have hack := c.applyAck_estimates c.sendNxt nowMs false
    have hsame := ((c.applyAck c.sendNxt nowMs false).1.updateRemoteWindow_unacked segment.window nowMs).2
    rw [← hsame] at hack
    exact hack
  | window segment =>
    rw [(c.updateRemoteWindow_unacked segment.window nowMs).2]
    exact .refl nowMs c.rtt
  | timers rtt reno duplicateAcks zeroWindowProbes rtoRecoveryUntil nextZeroWindowProbeMs hrtt =>
    rcases hrtt with rfl | rfl
    · exact .refl nowMs c.rtt
    · exact ⟨[.timeout], rfl, fun x hx => nomatch List.mem_singleton.1 hx⟩
  | retransmit timeout => exact c.retransmitOldest_estimates nowMs timeout
  | advanceAck c' segment ack hin hrst hseg hst hadv h =>
    have hack := c.advanceAck_estimates ack nowMs
    unfold afterAck finAcked at h
    simp only at h
    split_ifs at h
    · split at h <;> cases h <;> exact hack
    · cases h
      exact hack
  | receive segment =>
    have hsame := congrArg Connection.rtt (c.receiveStreamData_outgoing segment nowMs config).1
    change (c.receiveStreamData segment nowMs config).1.rtt = c.rtt at hsame
    rw [hsame]
    exact .refl nowMs c.rtt
  | probe =>
    rcases c.zeroWindowProbe_cases nowMs with ⟨x, -, -, heq⟩ | ⟨-, ⟨-, heq⟩ | ⟨-, heq⟩⟩ <;> rw [heq]
    · exact ⟨[.retransmit c.sendNxt], rfl, fun x hx => nomatch List.mem_singleton.1 hx⟩
    · exact .refl nowMs c.rtt
    · exact .refl nowMs c.rtt
  | sendData | sendFin | ack | reset | requestClose => exact .refl nowMs c.rtt

theorem Moves.estimates (h : Moves config nowMs inp c out c') : Estimates nowMs c.rtt c'.rtt := by
  induction h with
  | refl c => exact .refl nowMs c.rtt
  | cons hmove _ ih => exact hmove.estimates.trans ih

/-! ## One operation -/

/-- what an operation that keeps the connection does is a preparation and a sequence of moves -/
theorem after_moves (hm : 0 < c.mss) {o : SocketOp} (ho : c.after config o = some c') :
    ∃ c0 acc out, Socket.Prepared config c [] c0 acc ∧ Moves config o.time o.segment c0 out c' := by
  let s : Socket P := ⟨c, true, [], [], [], false⟩
  have hafter := after_eq config s rfl o
  rw [show s.conn = c from rfl, ho] at hafter
  split_ifs at hafter with hr
  obtain ⟨c0, out, hprepared, -, hmoves⟩ := Socket.step_moves hm rfl o hr
  cases hafter
  exact ⟨c0, _, out, hprepared, hmoves⟩

/-- the smoothed values are at most `m` -/
def Measured (config : Config) (m : ℕ) (c : Connection P) : Prop := c.rtt.Bounded config m

theorem Measured.after (hv : config.Valid) (hmax : config.maxRtoMs < 2 ^ 64) (hm : m ≤ 2 ^ 60) (h1 : 1 ≤ m) (h : c.Measured config m)
    (hmss : 0 < c.mss) {o : SocketOp} (ht : o.time ≤ m) (ho : c.after config o = some c') : c'.Measured config m := by
  obtain ⟨c0, acc, out, hprepared, hmoves⟩ := after_moves hmss ho
  have hsame : c0.rtt = c.rtt := by
    cases hprepared with
    | none | accept | consume => rfl
  obtain ⟨events, hevents, hs⟩ := hmoves.estimates
  rw [hsame] at hevents
  rw [Measured, hevents]
  exact RttEstimator.Bounded.exec hv hmax hm h1 h fun sampleMs hmem => (hs sampleMs hmem).trans ht

theorem measured_opening (hv : config.Valid) (o : Opening P) (m : ℕ) : (o.connection config).1.Measured config m := by
  cases o with
  | client => exact RttEstimator.bounded_new hv m
  | server peer syn isn nowMs token =>
    have hsame : ((Opening.server peer syn isn nowMs token).connection config).1.rtt =
        RttEstimator.new config.initialRtoMs config.minRtoMs config.maxRtoMs :=
      (updateRemoteWindow_unacked (Connection.new peer syn.dstPort syn.srcPort .synReceived isn (syn.seq + 1) config token)
        syn.window nowMs).2
    rw [Measured, hsame]
    exact RttEstimator.bounded_new hv m

end Connection

namespace Stack

variable {P : Type} [DecidableEq P] {s : Stack P} {config : ValidConfig} {m : ℕ}

/-! ## The table -/

/-- **Entries, one operation.** What a connection is made with, and what every operation on it keeps, holds in the whole table. -/
theorem perform_all {I : Connection P → Prop} (hs : s.AllSound) (op : StackOp P)
    (hopen : ∀ o : Opening P, op.time = some o.time → I (o.connection s.config.1).1)
    (hkeep : ∀ id c, s.connections.lookup id = some c → I c → ∀ o c', s.act id op = some o →
      c.after s.config.1 o = some c' → I c')
    (h : ∀ id c, s.connections.lookup id = some c → I c) :
    ∀ id c, (s.perform op).1.connections.lookup id = some c → I c := by
  intro id c' hl'
  have hfollow : ∀ c, s.connections.lookup id = some c → s.afterOp op id c = some c' → I c' := by
    intro c hl hafter
    unfold afterOp at hafter
    cases hact : s.act id op with
    | none =>
      rw [hact] at hafter
      cases hafter
      exact h id _ hl
    | some o =>
      rw [hact] at hafter
      exact hkeep id c hl (h id c hl) o c' hact hafter
  cases perform_entries hs op with
  | follow heq =>
    rw [heq] at hl'
    obtain ⟨c, hl, hafter⟩ := Option.bind_eq_some_iff.1 hl'
    exact hfollow c hl hafter
  | create o ht heq =>
    rw [heq] at hl'
    by_cases hid : id = s.nextId
    · rw [hid, Finmap.lookup_insert, Option.some.injEq] at hl'
      rw [← hl']
      exact hopen o ht
    · rw [Finmap.lookup_insert_of_ne _ hid] at hl'
      exact h id c' hl'

/-- every connection of the stack has measured no more than `m` -/
structure Surveyed (config : ValidConfig) (m : ℕ) (s : Stack P) : Prop extends Genuine config s where
  measured : ∀ id c, s.connections.lookup id = some c → c.Measured config.1 m

/-- the time of an operation of a connection -/
theorem act_within {id : ConnectionId} {op : StackOp P} (hop : ∀ t, op.time = some t → t ≤ m) {o : SocketOp}
    (h : s.act id op = some o) : o.time ≤ m := by
  cases o with
  | input segment nowMs | write bytes nowMs | close nowMs | poll nowMs => exact hop nowMs (act_clock h rfl)
  | read | abort => exact Nat.zero_le m

theorem Surveyed.step (hmax : config.1.maxRtoMs < 2 ^ 64) (hm : m ≤ 2 ^ 60) (h1 : 1 ≤ m) (h : s.Surveyed config m) {op : StackOp P}
    (hop : ∀ t, op.time = some t → t ≤ m) : (s.perform op).1.Surveyed config m := by
  refine ⟨h.toGenuine.step op, perform_all h.sound op ?_ ?_ h.measured⟩
  · intro o _
    rw [h.same]
    exact Connection.measured_opening config.valid o m
  · intro id c hl hc o c' hact ho
    obtain ⟨isn, acc, hinv⟩ := (h.sound id c hl).inv
    rw [h.same] at ho
    exact hc.after config.valid hmax hm h1 hinv.send.mss (act_within hop hact) ho

theorem surveyed_run (hmax : config.1.maxRtoMs < 2 ^ 64) (hm : m ≤ 2 ^ 60) (h1 : 1 ≤ m) (isnSeed : BitVec 64) (token : ℕ)
    {ops : List (StackOp P)} (hops : ∀ op ∈ ops, ∀ t, op.time = some t → t ≤ m) :
    (run config isnSeed token ops).Surveyed config m := by
  induction ops using List.reverseRecOn with
  | nil => exact ⟨Genuine.new config isnSeed token, fun _ _ h => (no_connection h).elim⟩
  | append_singleton ops op ih =>
    have hbefore := ih fun o ho => hops o (List.mem_append_left _ ho)
    rw [show run config isnSeed token (ops ++ [op]) = ((run config isnSeed token ops).perform op).1 from Run.exec_append _ _ _]
    exact hbefore.step hmax hm h1 (hops op (List.mem_append_right _ (List.mem_singleton.2 rfl)))

end Stack

/-- **The round trips of a stack.** In every run up to a time below 2^60 ms, whatever the peers acknowledge and however the stack is
driven, the timeout of every connection is within the limits of the configuration, its smoothed values are at most that time, and no
sample that the clock allows overflows the arithmetic of the estimator. -/
theorem stack_round_trips {P : Type} [DecidableEq P] (config : ValidConfig) (hmax : config.1.maxRtoMs < 2 ^ 64) (isnSeed : BitVec 64)
    (token : ℕ) (ops : List (StackOp P)) (m : ℕ) (h1 : 1 ≤ m) (hm : m ≤ 2 ^ 60)
    (hops : ∀ op ∈ ops, ∀ t, op.time = some t → t ≤ m) {id : ConnectionId} {c : Connection P}
    (hl : (Stack.run config isnSeed token ops).connections.lookup id = some c) :
    (config.1.minRtoMs ≤ c.rtt.timeoutMs ∧ c.rtt.timeoutMs ≤ config.1.maxRtoMs) ∧ c.rtt.srttMs ≤ m ∧ c.rtt.rttvarMs ≤ m ∧
      ∀ x ∈ c.unacked, ∀ nowMs ≤ m, c.rtt.NoOverflow (max (nowMs - x.sentAtMs) 1) := by
  have hbounded : c.rtt.Bounded config.1 m := (Stack.surveyed_run hmax hm h1 isnSeed token hops).measured id c hl
  refine ⟨hbounded.rto, hbounded.srtt, hbounded.rttvar, fun x _ nowMs hle => ?_⟩
  exact hbounded.noOverflow hm (max_le ((Nat.sub_le _ _).trans hle) h1)

/-- a handshake that took 40 ms -/
def measuredRun : List (StackOp ℕ) :=
  [.connectFromWithIsn 7 9000 80 100 0, .input 7 (({ Segment.new 80 9000 700 with
    ack := some 101
    flags := Flags.SYN.union .ACK
    options := [.maxSegmentSize 1000, .fipsVersion FIPS_VERSION 0] } : Segment).encode.toOption.getD []) 40]

theorem stack_round_trips_handshake :
    let config : ValidConfig := ⟨Config.default, Config.default_validate⟩
    let s := Stack.run config 5 1 measuredRun
    (s.connections.lookup ⟨1⟩).map (fun c => (c.state, c.rtt.srttMs)) = some (.established, 40) ∧
      ∀ c, s.connections.lookup ⟨1⟩ = some c → c.rtt.srttMs ≤ 40 := by
  intro config s
  refine ⟨by decide, fun c hl => ?_⟩
  exact (stack_round_trips config (by decide) 5 1 measuredRun 40 (by decide) (by decide) (by simp [measuredRun, StackOp.time]) hl).2.1

end FipsTcp
