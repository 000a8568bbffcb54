/-
How long a handshake is kept open.

`Clocked` is a stack with the clock of its owner: time moves on with the operations, and `Punctual` says that it never passes
what `next_poll_at` announces. A half-open connection has nothing but its SYN in flight, so the announced time is at most one
timeout after the SYN was last sent. Each transmission of the SYN, whoever caused it, costs one of the budget and buys at most
one more timeout (`Waits`).
- `Waits.move`: every primitive keeps the account;
- `half_open_bounded`: no connection is half-open later than the budget times the largest timeout after its creation.
-/
import FipsTcp.Connection.Budget
import FipsTcp.Stack.PollExact

namespace FipsTcp

open Table Connection SendWindow

/-! ## One connection -/

namespace Connection

variable {P : Type} {config : Config} {nowMs created : ℕ} {inp : Option Segment} {isn : U32} {acc : List U8}
  {c c' : Connection P} {out : List Segment}

/-- the handshake is not complete -/
def HalfOpen (c : Connection P) : Prop := c.state = .synSent ∨ c.state = .synReceived

theorem halfOpen_iff : c.HalfOpen ↔ c.state.phase = .opening := by
  unfold HalfOpen
  cases c.state <;> simp [State.phase]

/-- the account of a half-open connection made at time `created`, at time `nowMs` -/
structure Waits (config : Config) (created nowMs : ℕ) (syn : TrackedSegment) : Prop where
  budget : syn.transmissions ≤ max 1 config.maxRetransmissions.toNat
  spent : syn.sentAtMs + config.maxRtoMs ≤ created + syn.transmissions * config.maxRtoMs
  recent : nowMs ≤ syn.sentAtMs + config.maxRtoMs

/-- every tracked segment of a half-open connection is within its account -/
def Timely (config : Config) (created nowMs : ℕ) (c : Connection P) : Prop :=
  c.HalfOpen → ∀ syn ∈ c.unacked, Waits config created nowMs syn

/-- **Retransmission.** One more transmission, at most one timeout later. -/
theorem Waits.again {syn syn' : TrackedSegment} (h : Waits config created nowMs syn)
    (hlt : syn.transmissions < config.maxRetransmissions.toNat) (hsent : syn'.sentAtMs = nowMs)
    (htimes : syn'.transmissions = syn.transmissions + 1) : Waits config created nowMs syn' := by
  have hspent := h.spent
  have hrecent := h.recent
  refine ⟨?_, ?_, ?_⟩
  · rw [htimes]
    exact (Nat.succ_le_of_lt hlt).trans (le_max_right _ _)
  · calc syn'.sentAtMs + config.maxRtoMs = nowMs + config.maxRtoMs := by rw [hsent]
      _ ≤ created + syn.transmissions * config.maxRtoMs + config.maxRtoMs := by omega
      _ = created + syn'.transmissions * config.maxRtoMs := by rw [htimes, Nat.add_mul, Nat.one_mul, Nat.add_assoc]
  · rw [hsent]
    exact Nat.le_add_right _ _

/-- a half-open connection has its SYN in flight, and nothing else to send -/
theorem HalfOpen.flight (h : c.HalfOpen) (hs : c.SendInv config isn acc) :
    ∃ syn, c.unacked = [syn] ∧ syn.payload = [] ∧ c.sendQueue = [] ∧ c.closeRequested = false := by
  have hp := halfOpen_iff.1 h
  have hshape : c.state.phase.Shape (c.unacked.map TrackedSegment.piece) := hs.sender.shape
  obtain ⟨hq, hclose⟩ := hs.sender.idle (by rw [show c.sender.phase = .opening from hp]; exact fun h => nomatch h)
  rw [hp] at hshape
  obtain ⟨x, hx, hsyn⟩ := hshape
  obtain ⟨syn, hsyn', rfl⟩ := List.map_eq_singleton_iff.1 hx
  exact ⟨syn, hsyn', hsyn.payload, hq, hclose⟩

/-- **The account**, one primitive. -/
theorem Move.timely (hm : Move config nowMs inp c out c') (hs : c.SendInv config isn acc)
    (hb : c.maxTransmissions = config.maxRetransmissions.toNat) (h : c.Timely config created nowMs) :
    c'.Timely config created nowMs := by
  -- a primitive that changes neither the state nor the flight
  have hstill : c'.state = c.state → c'.unacked = c.unacked → c'.Timely config created nowMs := fun hst hu ho syn hsyn => by
    refine h ?_ syn (hu ▸ hsyn)
    rw [HalfOpen, ← hst]
    exact ho
  -- a primitive of the states after the handshake
  have hpast : c'.state.phase ≠ .opening → c'.Timely config created nowMs := fun hp ho => absurd (halfOpen_iff.1 ho) hp
  have hsync : c.Synchronized → c.state.phase ≠ .opening := synchronized_iff.1
  cases hm with
  | establishClient segment => exact hpast (by rw [(c.establishClient_frame segment nowMs config).2.2.2]; decide)
  | establishServer segment => exact hpast (by rw [(c.establishServer_frame segment nowMs).2.2.2]; decide)
  | window segment hin hst =>
    exact hpast (by rw [(c.updateRemoteWindow_frame segment.window nowMs).2.2.2]; exact hsync hst)
  | retransmit timeout =>
    have hst := (c.retransmitOldest_frame nowMs timeout).2.2.2.1
    have hmax : c.maxTransmissions ≤ 255 := by
      have := config.maxRetransmissions.isLt
      rw [hb]; omega
    rcases c.retransmitOldest_spends nowMs timeout hmax with heq | ⟨oldest, rest, syn', hu, hlt, -, htimes, hsent, hu', -⟩
    · rw [heq]; exact h
    · intro ho syn hsyn
      have ho' : c.HalfOpen := by rw [HalfOpen, ← hst]; exact ho
      obtain ⟨only, honly, -⟩ := ho'.flight hs
      rw [hu] at honly
      obtain ⟨rfl, rfl⟩ := List.cons.inj honly
      rw [hu', List.mem_singleton] at hsyn
      rw [hsyn]
      exact (h ho' oldest (by rw [hu]; exact List.mem_cons_self)).again (by omega) hsent htimes
  | advanceAck c' segment ack hin hrst hack hst hadv hc =>
    exact hpast (synchronized_iff.1 (afterAck_synchronized config nowMs hst hc))
  | receive segment hin hst =>
    exact hpast (by rw [(c.receiveStreamData_outgoing segment nowMs config).2]; exact hsync hst)
  | sendData count hst => exact hpast (by rw [show (c.sendQueued count nowMs).1.state.phase = _ from hst.phase]; decide)
  | sendFin hst => exact hpast (by rw [sendFin_state]; split_ifs <;> decide)
  | probe hwin =>
    rcases c.zeroWindowProbe_cases nowMs with ⟨x, -, -, heq⟩ | ⟨-, ⟨-, heq⟩ | ⟨hq, heq⟩⟩
    · rw [heq] at hstill ⊢; exact hstill rfl rfl
    · rw [heq]; exact h
    · rw [heq]
      intro ho
      exact absurd (HalfOpen.flight (c := c) ho hs).choose_spec.2.2.1 hq
  | timers | ack | reset | requestClose => exact hstill rfl rfl

/-- **The clock.** Time does not pass the announced time, which is at most one timeout after the SYN was sent. -/
theorem Timely.advance {t : ℕ} (h : c.Timely config created nowMs) (hs : c.SendInv config isn acc) (htimed : c.Timed config)
    (ht : t = nowMs ∨ ∀ d, c.nextPollAt nowMs config = some d → t ≤ d) : c.Timely config created t := by
  intro ho syn hsyn
  have hw := h ho syn hsyn
  refine ⟨hw.budget, hw.spent, ?_⟩
  rcases ht with rfl | ht
  · exact hw.recent
  · obtain ⟨only, hu, hpay, hq, hclose⟩ := ho.flight hs
    rw [hu, List.mem_singleton] at hsyn
    subst hsyn
    have hprobe : ¬ c.ProbeWork := fun hp => by
      rcases hp.2 with hp | hp
      · rw [hclose] at hp; cases hp
      · rcases hasProbePayload_iff.1 hp with hp | ⟨x, hx, hp⟩
        · exact hp hq
        · rw [hu, List.mem_singleton] at hx
          rw [hx] at hp
          exact hp hpay
    have hnone : c.closeDeadline = none := by
      rcases ho with ho | ho <;> exact closeDeadline_none (by rw [ho]; decide) (by rw [ho]; decide)
    have hnext : c.nextPollAt nowMs config = some (satAdd syn.sentAtMs c.rtt.timeoutMs) := by
      rw [nextPollAt, hnone, transportDeadline_flight hprobe, hu]
      rfl
    calc t ≤ satAdd syn.sentAtMs c.rtt.timeoutMs := ht _ hnext
      _ ≤ syn.sentAtMs + c.rtt.timeoutMs := min_le_left _ _
      _ ≤ syn.sentAtMs + config.maxRtoMs := Nat.add_le_add_left htimed.rtt.le _

/-- **Creation.** The SYN is sent once, at the time of creation. -/
theorem timely_opening (config : Config) (o : Opening P) : (o.connection config).1.Timely config o.time o.time := by
  have hone : ∀ syn : TrackedSegment, syn.sentAtMs = o.time → syn.transmissions = 1 → Waits config o.time o.time syn :=
    fun syn hsent htimes => ⟨by rw [htimes]; exact le_max_left _ _, by rw [hsent, htimes, Nat.one_mul],
      by rw [hsent]; exact Nat.le_add_right _ _⟩
  intro _ syn hsyn
  cases o with
  | client peer localPort remotePort isn nowMs token =>
    have hu : (Opening.connection config (.client peer localPort remotePort isn nowMs token)).1.unacked =
        [⟨isn, .SYN, [], nowMs, 1⟩] := rfl
    rw [hu, List.mem_singleton] at hsyn
    rw [hsyn]
    exact hone _ rfl rfl
  | server peer segment isn nowMs token =>
    obtain ⟨hu, -⟩ := updateRemoteWindow_unacked (Connection.new peer segment.dstPort segment.srcPort .synReceived isn
      (segment.seq + 1) config token) segment.window nowMs
    have hu' : (Opening.connection config (.server peer segment isn nowMs token)).1.unacked = [] ++ [_] :=
      congrArg (· ++ [_]) hu
    rw [hu', List.nil_append, List.mem_singleton] at hsyn
    rw [hsyn]
    exact hone _ rfl rfl

/-- **The account**, one operation. -/
theorem Timely.after {o : SocketOp} (h : c.Timely config created nowMs) (hs : c.SendInv config isn acc)
    (hb : c.maxTransmissions = config.maxRetransmissions.toNat) (ht : ∀ t, o.clock = some t → t = nowMs)
    (ho : c.after config o = some c') : c'.Timely config created nowMs := by
  have hmoves : ∀ {inp c0 out acc' t}, Moves config t inp c0 out c' → t = nowMs → c0.SendInv config isn acc' →
      c0.maxTransmissions = config.maxRetransmissions.toNat → c0.Timely config created nowMs → c'.Timely config created nowMs := by
    rintro inp c0 out acc' t hm rfl hs0 hb0 h0
    have hall := hm.preserves (Q := fun c => c.SendInv config isn acc' ∧ c.maxTransmissions = config.maxRetransmissions.toNat ∧
      c.Timely config created t) (fun hmove hq => ⟨hmove.sendInv hq.1, (congrArg Stable.maxTransmissions hmove.stable_eq).trans
        hq.2.1, hmove.timely hq.1 hq.2.1 hq.2.2⟩) ⟨hs0, hb0, h0⟩
    exact hall.2.2
  cases o with
  | input segment t =>
    simp only [Connection.after] at ho
    split_ifs at ho with hcl
    cases ho
    exact hmoves ((input_moves config t segment hs.mss).1 (by simpa using hcl)) (ht t rfl) hs hb h
  | write bytes t =>
    simp only [Connection.after] at ho
    rcases hw : c.write bytes t config with e | ⟨c1, count, out⟩
    · rw [hw] at ho; cases ho; exact h
    · rw [hw] at ho; cases ho
      obtain ⟨hst, -, -, hroom, hm⟩ := write_moves config t hs.mss hw
      exact hmoves hm (ht t rfl) (hs.accept hst (by rw [List.length_take]; omega)) hb h
  | read max =>
    simp only [Connection.after] at ho
    cases ho
    exact h
  | close t =>
    simp only [Connection.after] at ho
    split_ifs at ho
    cases ho
    exact hmoves (close_moves config t hs.mss).1 (ht t rfl) hs hb h
  | abort => cases ho
  | poll t =>
    simp only [Connection.after] at ho
    split_ifs at ho
    cases ho
    exact hmoves (poll_moves config t hs.mss).1 (ht t rfl) hs hb h

end Connection

/-! ## A stack with a clock -/

/-- a stack, the time, and when the connection of each id was made -/
structure Clocked (P : Type) [DecidableEq P] where
  stack : Stack P
  now : ℕ
  created : ConnectionId → ℕ

namespace Clocked

variable {P : Type} [DecidableEq P] {s : Clocked P}

def start (config : ValidConfig) (isnSeed : BitVec 64) (token now : ℕ) : Clocked P :=
  ⟨.new config isnSeed token, now, fun _ => now⟩

/-- an operation happens at its time, or at once if it has none; a connection is made where a token is taken -/
def step (s : Clocked P) (op : StackOp P) : Clocked P :=
  let now := op.time.getD s.now
  let stack := (s.stack.perform op).1
  ⟨stack, now, if stack.nextConnectionToken = s.stack.nextConnectionToken then s.created
    else Function.update s.created s.stack.nextId now⟩

/-- the time can be `t` with nothing happening until then: it does not pass the announced time -/
def CanWait (s : Clocked P) (t : ℕ) : Prop := s.now ≤ t ∧ (t = s.now ∨ ∀ d, s.stack.nextPollAt s.now = some d → t ≤ d)

/-- the operation comes at a time that can be waited for -/
def Punctual (s : Clocked P) (op : StackOp P) : Prop := ∀ t, op.time = some t → s.CanWait t

abbrev run (config : ValidConfig) (isnSeed : BitVec 64) (token now : ℕ) (ops : List (StackOp P)) : Clocked P :=
  Run.exec step (start config isnSeed token now) ops

/-- the clock only watches its stack -/
theorem run_stack (config : ValidConfig) (isnSeed : BitVec 64) (token now : ℕ) (ops : List (StackOp P)) :
    (run config isnSeed token now ops).stack = Stack.run config isnSeed token ops := by
  have h : ∀ s : Clocked P, (Run.exec step s ops).stack = Run.exec (fun s op => (s.perform op).1) s.stack ops := by
    induction ops with
    | nil => exact fun _ => rfl
    | cons op ops ih => exact fun s => ih (s.step op)
  exact h _

/-- every connection is within its account -/
structure Inv (config : ValidConfig) (s : Clocked P) : Prop where
  sound : s.stack.view.Ok
  same : s.stack.config = config
  timely : ∀ id c, s.stack.connections.lookup id = some c → c.Timely config.1 (s.created id) s.now

/-- the account of a connection, when the clock is read -/
theorem Inv.wait {config : ValidConfig} (hi : s.Inv config) {t : ℕ} (ht : s.CanWait t) {id : ConnectionId} {c : Connection P}
    (hl : s.stack.connections.lookup id = some c) : c.Timely config.1 (s.created id) t := by
  have hc := hi.sound id c hl
  rw [show s.stack.view.config = config from hi.same] at hc
  obtain ⟨isn, acc, hinv⟩ := hc.inv
  refine (hi.timely id c hl).advance hinv.send hc.timed ?_
  refine ht.2.imp (fun h => h) fun hle d hd => ?_
  -- what the stack announces is due no later than what the connection waits for
  have hdue : Due d (s.stack.nextPollAt s.now) :=
    Stack.due_nextPollAt.2 ⟨id, c, hl, by rw [hi.same, hd]; exact due_some.2 le_rfl⟩
  obtain ⟨d', hd', hle'⟩ := hdue
  exact (hle d' hd').trans hle'

theorem inv_step {config : ValidConfig} (hi : s.Inv config) {op : StackOp P} (hp : s.Punctual op) : (s.step op).Inv config := by
  have hchange := (Stack.perform_change hi.sound op).1
  have hconfig : (s.stack.perform op).1.config = s.stack.config := hchange.cursors.2
  refine ⟨hchange.ok hi.sound, hconfig.trans hi.same, fun id c' hl' => ?_⟩
  -- the accounts at the time of the operation
  have hwait : ∀ id c, s.stack.connections.lookup id = some c → c.Timely config.1 (s.created id) (s.step op).now := by
    intro id c hl
    cases ht : op.time with
    | none => simpa only [step, ht, Option.getD_none] using hi.timely id c hl
    | some t => simpa only [step, ht, Option.getD_some] using hi.wait (hp t ht) hl
  have hfollow : ∀ c, s.stack.connections.lookup id = some c → s.stack.afterOp op id c = some c' →
      c'.Timely config.1 (s.created id) (s.step op).now := by
    intro c hl hafter
    have hc := hi.sound id c hl
    rw [show s.stack.view.config = config from hi.same] at hc
    obtain ⟨isn, acc, hinv⟩ := hc.inv
    unfold Stack.afterOp at hafter
    cases hact : s.stack.act id op with
    | none =>
      rw [hact] at hafter
      cases hafter
      exact hwait id _ hl
    | some o =>
      rw [hact, hi.same] at hafter
      refine (hwait id c hl).after hinv.send hc.timed.budget (fun t hclock => ?_) hafter
      simp only [step, Stack.act_clock hact hclock, Option.getD_some]
  cases Stack.perform_entries hi.sound op with
  | follow h htoken =>
    have hcreated : (s.step op).created = s.created := by simp only [step, htoken, if_true]
    rw [hcreated]
    rw [show (s.step op).stack = (s.stack.perform op).1 from rfl, h] at hl'
    obtain ⟨c, hl, hafter⟩ := Option.bind_eq_some_iff.1 hl'
    exact hfollow c hl hafter
  | create o ht h hact htoken =>
    have hnow : (s.step op).now = o.time := by simp only [step, ht, Option.getD_some]
    have hcreated : (s.step op).created = Function.update s.created s.stack.nextId o.time := by
      simp only [step, htoken, ht, Option.getD_some, Nat.succ_ne_self, if_false]
    rw [show (s.step op).stack = (s.stack.perform op).1 from rfl, h] at hl'
    rw [hcreated]
    by_cases hid : id = s.stack.nextId
    · rw [hid, Finmap.lookup_insert, Option.some.injEq] at hl'
      rw [hid, Function.update_self, hnow, ← hl', hi.same]
      exact timely_opening config.1 o
    · rw [Finmap.lookup_insert_of_ne _ hid] at hl'
      rw [Function.update_of_ne hid]
      exact hwait id c' hl'

theorem inv_run {config : ValidConfig} {isnSeed : BitVec 64} {token now : ℕ} {ops : List (StackOp P)}
    (hp : Run.Along step Punctual (start config isnSeed token now) ops) : (run config isnSeed token now ops).Inv config :=
  Run.exec_invariant_along (P := fun s : Clocked P => s.Inv config) (fun _ _ hp hi => inv_step hi hp)
    ⟨fun _ _ h => (Stack.no_connection h).elim, rfl, fun _ _ h => (Stack.no_connection h).elim⟩ hp

end Clocked

/-- **Half-open connections.** In every run in which the clock does not pass an announced time, whatever the peers send, a
connection whose handshake is not complete is younger than the retry budget times the largest timeout, for as long as nothing
happens to it. The clock is never held up: after a poll what is announced is later than the time. -/
theorem half_open_bounded {P : Type} [DecidableEq P] (config : ValidConfig) (isnSeed : BitVec 64) (token now : ℕ)
    (ops : List (StackOp P)) (hp : Run.Along Clocked.step Clocked.Punctual (Clocked.start config isnSeed token now) ops) :
    let s := Clocked.run config isnSeed token now ops
    (∀ id c, s.stack.connections.lookup id = some c → c.state = .synSent ∨ c.state = .synReceived →
      ∀ t, s.CanWait t → t ≤ s.created id + max 1 config.1.maxRetransmissions.toNat * config.1.maxRtoMs) ∧
      ∀ ids, Stack.IsOrderOf ids s.stack.connections.keys → s.now < maxU64 →
        ∀ d, (s.stack.poll ids s.now).nextPollAt s.now = some d → s.now < d := by
  intro s
  have hi : s.Inv config := Clocked.inv_run hp
  refine ⟨fun id c hl ho t ht => ?_, fun ids hids hlt d hd => ?_⟩
  · have hsound := hi.sound id c hl
    obtain ⟨isn, acc, hinv⟩ := hsound.inv
    obtain ⟨syn, hu, -⟩ := HalfOpen.flight ho hinv.send
    have hw := hi.wait ht hl ho syn (by rw [hu]; exact List.mem_cons_self)
    calc t ≤ syn.sentAtMs + config.1.maxRtoMs := hw.recent
      _ ≤ s.created id + syn.transmissions * config.1.maxRtoMs := hw.spent
      _ ≤ _ := Nat.add_le_add_left (Nat.mul_le_mul_right _ hw.budget) _
  · exact Nat.lt_of_not_le fun hle => Stack.poll_settles hi.sound hids hlt ⟨d, hd, hle⟩

/-- a SYN sent again at its deadline -/
def halfOpenRun : List (StackOp ℕ) := [.connectFromWithIsn 7 9000 80 100 0, .poll [⟨1⟩] 1000]

theorem half_open_bounded_syn :
    let config : ValidConfig := ⟨Config.default, Config.default_validate⟩
    let s := Clocked.run config 5 1 0 halfOpenRun
    s.now = 1000 ∧ s.stack.nextPollAt 1000 = some 3000 ∧
      ∀ c, s.stack.connections.lookup ⟨1⟩ = some c → c.state = .synSent ∨ c.state = .synReceived →
        ∀ t, s.CanWait t → t ≤ s.created ⟨1⟩ + max 1 config.1.maxRetransmissions.toNat * config.1.maxRtoMs := by
  intro config s
  have hp : Run.Along Clocked.step Clocked.Punctual (Clocked.start config 5 1 0) halfOpenRun := by
    refine ⟨fun t ht => ?_, fun t ht => ?_, trivial⟩
    · cases ht
      exact ⟨le_rfl, .inl rfl⟩
    · cases ht
      have hnext : ((Clocked.start config 5 1 0).step (halfOpenRun.head (by decide))).stack.nextPollAt 0 = some 1000 := by decide
      exact ⟨Nat.zero_le _, .inr fun d hd => (Option.some.inj (hnext.symm.trans hd)).le⟩
  exact ⟨by decide, by decide, fun c => (half_open_bounded config 5 1 0 halfOpenRun hp).1 ⟨1⟩ c⟩

end FipsTcp
