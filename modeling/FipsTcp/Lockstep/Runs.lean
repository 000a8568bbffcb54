/-
Whole runs of the two stacks side by side.

`StackCall` lists the calls that both stacks have, with the arguments of both; what a call answers is a `CallReply`, in which
connections have the numbers of their ids. `CallSafe` says where the two stacks do not part. The Rust stack of such a run keeps its
books (`Books`): sound connections, an exact index, ids below the next one, a queue that can be read.
- `call_lockstep`: one call keeps twins and answers alike;
- `stacks_lockstep`: every sequence of calls that are safe along the run, on two new stacks with one configuration and one seed;
- `stacks_part`: without a condition the statement fails, already for a `connect` to port 0.
-/
import FipsTcp.Stack.Connect
import FipsTcp.Lockstep.Stack

namespace FipsTcp

open Table OrderedMap Number

inductive StackCall where
  | listen (port : U16)
  | closeListener (port : U16)
  | accept (port : U16)
  | connect (peer : Ts.JsString) (remotePort : U16) (nowMs : ℕ)
  | connectFromWithIsn (peer : Ts.JsString) (localPort remotePort : U16) (isn : U32) (nowMs : ℕ)
  | input (peer : Ts.JsString) (bytes : List U8) (nowMs : ℕ)
  /-- with the retained ids in the order the Rust map yields them -/
  | poll (ids : List ConnectionId) (nowMs : ℕ)
  | write (id : ConnectionId) (bytes : List U8) (nowMs : ℕ)
  | read (id : ConnectionId) (max nowMs : ℕ)
  | close (id : ConnectionId) (nowMs : ℕ)
  | abort (id : ConnectionId)
  | setConnectionReservation (slots : ℕ) (eligible : Ts.JsString → Bool)
  | drainOutbound

/-- what a call answers; of a connection that `connect` made also its local port and where its sequence numbers start -/
inductive CallReply where
  | done
  | failed
  | accepted (id : Option ℕ)
  | connected (id : ℕ) (opened : Option (ℕ × ℕ))
  | wrote (count : ℕ)
  | bytes (bytes : List U8)
  | drained (queue : List (Outbound Ts.JsString))
deriving DecidableEq, Repr

namespace CallReply

/-- the answer of a call that may fail -/
def ofResult {σ ε α : Type} (reply : σ → α → CallReply) : σ × Except ε α → σ × CallReply
  | (s, .ok a) => (s, reply s a)
  | (s, .error _) => (s, .failed)

/-- equal answers, a drained queue being told by its tuples -/
def Matches : CallReply → CallReply → Prop
  | drained queue, drained queue' => Shuffle (fun key o => Stack.belongsTo o key) queue queue'
  | reply, reply' => reply = reply'

theorem Matches.of_eq {reply reply' : CallReply} (h : reply = reply') : reply.Matches reply' := by
  subst h
  cases reply with
  | drained queue => exact .refl _ queue
  | _ => rfl

end CallReply

namespace Stack

def opened (s : Stack Ts.JsString) (id : ConnectionId) : CallReply :=
  .connected id.raw ((s.connections.lookup id).map fun c => (c.localPort.toNat, c.sendUna.toNat))

def call (s : Stack Ts.JsString) : StackCall → Stack Ts.JsString × CallReply
  | .listen port => CallReply.ofResult (fun _ _ => .done) (s.listen port)
  | .closeListener port => (s.closeListener port, .done)
  | .accept port => ((s.accept port).1, .accepted ((s.accept port).2.map ConnectionId.raw))
  | .connect peer remotePort nowMs => CallReply.ofResult opened (s.connect peer remotePort nowMs)
  | .connectFromWithIsn peer localPort remotePort isn nowMs =>
    CallReply.ofResult opened (s.connectFromWithIsn peer localPort remotePort isn nowMs)
  | .input peer bytes nowMs => CallReply.ofResult (fun _ _ => .done) (s.input peer bytes nowMs)
  | .poll ids nowMs => (if IsOrderOf ids s.connections.keys then s.poll ids nowMs else s, .done)
  | .write id bytes nowMs => CallReply.ofResult (fun _ count => .wrote count) (s.write id bytes nowMs)
  | .read id max _ => CallReply.ofResult (fun _ bytes => .bytes bytes) (s.read id max)
  | .close id nowMs => CallReply.ofResult (fun _ _ => .done) (s.close id nowMs)
  | .abort id => CallReply.ofResult (fun _ _ => .done) (s.abort id)
  | .setConnectionReservation slots eligible => CallReply.ofResult (fun _ _ => .done) (s.setConnectionReservation slots eligible)
  | .drainOutbound => (s.drainOutbound.1, .drained s.drainOutbound.2)

end Stack

namespace Ts.Stack

def opened (t : Stack) (id : ConnectionId) : CallReply :=
  .connected id ((t.connections.get id).map fun c => (c.localPort, c.sendUna))

/-- the same call on a TypeScript stack; one that throws leaves what it did before -/
def call (t : Stack) : StackCall → Stack × CallReply
  | .listen port => CallReply.ofResult (fun _ _ => .done) (t.listen port.toNat)
  | .closeListener port => (t.closeListener port.toNat, .done)
  | .accept port => ((t.accept port.toNat).1, .accepted (t.accept port.toNat).2)
  | .connect peer remotePort nowMs => CallReply.ofResult opened (t.connect peer remotePort.toNat nowMs)
  | .connectFromWithIsn peer localPort remotePort isn nowMs =>
    CallReply.ofResult opened (t.connectFromWithIsn peer localPort.toNat remotePort.toNat isn.toNat nowMs)
  | .input peer bytes nowMs => CallReply.ofResult (fun _ _ => .done) (t.input peer bytes nowMs)
  | .poll _ nowMs => CallReply.ofResult (fun _ _ => .done) (t.poll nowMs)
  | .write id bytes nowMs => CallReply.ofResult (fun _ count => .wrote count) (t.write id.raw bytes nowMs)
  | .read id max nowMs => CallReply.ofResult (fun _ bytes => .bytes bytes) (t.read id.raw max nowMs)
  | .close id nowMs => CallReply.ofResult (fun _ _ => .done) (t.close id.raw nowMs)
  | .abort id => CallReply.ofResult (fun _ _ => .done) (t.abort id.raw)
  | .setConnectionReservation slots eligible =>
    CallReply.ofResult (fun _ _ => .done) (t.setConnectionReservation slots fun peer => .ok (eligible peer))
  | .drainOutbound => (t.drainOutbound.1, .drained (t.drainOutbound.2.map Outbound.toRust))

end Ts.Stack

namespace Stack

/-- a call on which the two stacks do not part -/
def CallSafe (s : Stack Ts.JsString) (call : StackCall) : Prop :=
  s.nextConnectionId < maxSafe ∧
    match call with
    | .listen port => port ∉ s.listeners → (s.accepts.lookup port).getD [] = []
    | .connect peer remotePort nowMs => peer ≠ [] ∧ remotePort ≠ 0 ∧ nowMs < 2 ^ 53
    | .connectFromWithIsn peer _ _ _ nowMs => peer ≠ [] ∧ nowMs < 2 ^ 53
    | .input peer bytes nowMs => peer ≠ [] ∧ nowMs < 2 ^ 53 ∧ ∀ c ∈ s.addressee peer bytes, c.SampleSafe nowMs
    | .poll ids nowMs => nowMs < maxSafe ∧ IsOrderOf ids s.connections.keys
    | .write _ _ nowMs | .close _ nowMs => nowMs < 2 ^ 53
    | .read _ max nowMs => max < 2 ^ 53 ∧ nowMs < 2 ^ 53
    | .closeListener _ | .accept _ | .abort _ | .setConnectionReservation _ _ | .drainOutbound => True

instance (c : Connection Ts.JsString) (nowMs : ℕ) : Decidable (c.SampleSafe nowMs) :=
  inferInstanceAs (Decidable (∀ segment ∈ c.unacked, c.rtt.SumsSafe (nowMs - segment.sentAtMs)))

instance (s : Stack Ts.JsString) : (call : StackCall) → Decidable (s.CallSafe call)
  | .listen port => inferInstanceAs (Decidable (_ ∧ (port ∉ s.listeners → (s.accepts.lookup port).getD [] = [])))
  | .connect peer remotePort nowMs => inferInstanceAs (Decidable (_ ∧ peer ≠ [] ∧ remotePort ≠ 0 ∧ nowMs < 2 ^ 53))
  | .connectFromWithIsn peer _ _ _ nowMs => inferInstanceAs (Decidable (_ ∧ peer ≠ [] ∧ nowMs < 2 ^ 53))
  | .input peer bytes nowMs =>
    inferInstanceAs (Decidable (_ ∧ peer ≠ [] ∧ nowMs < 2 ^ 53 ∧ ∀ c ∈ s.addressee peer bytes, c.SampleSafe nowMs))
  | .poll ids nowMs => inferInstanceAs (Decidable (_ ∧ nowMs < maxSafe ∧ IsOrderOf ids s.connections.keys))
  | .write _ _ nowMs | .close _ nowMs => inferInstanceAs (Decidable (_ ∧ nowMs < 2 ^ 53))
  | .read _ max nowMs => inferInstanceAs (Decidable (_ ∧ max < 2 ^ 53 ∧ nowMs < 2 ^ 53))
  | .closeListener _ | .accept _ | .abort _ | .setConnectionReservation _ _ | .drainOutbound =>
    inferInstanceAs (Decidable (_ ∧ True))

/-- what the Rust stack of such a run keeps -/
structure Books (config : ValidConfig) (s : Stack Ts.JsString) : Prop where
  genuine : s.Genuine config
  index : Indexed Connection.key s.connections s.lookup
  used : ∀ id ∈ s.connections, id.raw < s.nextConnectionId
  legible : s.Legible

variable {config : ValidConfig} {s : Stack Ts.JsString} {t : Ts.Stack}

/-! ## The books of the Rust stack -/

theorem Books.tidy (h : s.Books config) : s.Tidy where
  sound := h.genuine.sound
  index := h.index
  flagged id c hl := by
    have hreachable := h.genuine.reachable id c hl
    exact hreachable.flagged

theorem Books.new (config : ValidConfig) (isnSeed : BitVec 64) (token : ℕ) :
    (new config isnSeed token : Stack Ts.JsString).Books config where
  genuine := .new config isnSeed token
  index := Indexed.empty
  used _ h := absurd h Finmap.notMem_empty
  legible _ ho := nomatch ho

theorem View.Change.used {v v' : View Ts.JsString} (h : View.Change v v') (hroom : v.nextConnectionId + 1 < 2 ^ 64)
    (hused : ∀ id ∈ v.connections, id.raw < v.nextConnectionId) : ∀ id ∈ v'.connections, id.raw < v'.nextConnectionId := by
  cases h with
  | edits h =>
    rw [h.next]
    exact fun id hid => hused id (h.no_new.1 id hid)
  | create c hadmits hkey hsound =>
    intro id hid
    have hnext : max ((v.nextConnectionId + 1) % 2 ^ 64) 1 = v.nextConnectionId + 1 := by
      rw [Nat.mod_eq_of_lt hroom]
      exact max_eq_left (Nat.le_add_left 1 _)
    rw [hnext]
    rcases Finmap.mem_insert.1 hid with rfl | hid
    · exact Nat.lt_succ_self _
    · exact (hused id hid).trans (Nat.lt_succ_self _)

/-- **Preservation, one operation**, while there is an id to give. -/
theorem Books.perform (h : s.Books config) (hroom : s.nextConnectionId < maxSafe) (op : StackOp Ts.JsString) :
    (s.perform op).1.Books config := by
  have hchange := (perform_change h.genuine.sound op).1
  have hfresh : s.connections.lookup ⟨s.nextConnectionId⟩ = none :=
    Finmap.lookup_eq_none.2 fun hmem => Nat.lt_irrefl _ (h.used _ hmem)
  exact ⟨h.genuine.step op, hchange.index hfresh h.index,
    hchange.used (lt_of_le_of_lt (Nat.succ_le_of_lt hroom) (by decide)) h.used, h.legible.perform h.tidy op⟩

theorem ofResult_fst {σ ε α : Type} (reply : σ → α → CallReply) (x : σ × Except ε α) :
    (CallReply.ofResult reply x).1 = x.1 := by
  obtain ⟨s, e | a⟩ := x <;> rfl

theorem write_fst (s : Stack Ts.JsString) (id : ConnectionId) (bytes : List U8) (nowMs : ℕ) :
    (s.write id bytes nowMs).1 = (s.writeWithMarker id bytes nowMs).1 := by
  unfold Stack.write
  rcases s.writeWithMarker id bytes nowMs with ⟨s', e | ⟨count, marker⟩⟩ <;> rfl

/-- a call is an operation -/
theorem call_perform (s : Stack Ts.JsString) (call : StackCall) : ∃ op, (s.call call).1 = (s.perform op).1 := by
  cases call with
  | listen port => exact ⟨.listen port, (ofResult_fst _ _).trans (outcome_fst _).symm⟩
  | closeListener port => exact ⟨.closeListener port, rfl⟩
  | accept port => exact ⟨.accept port, rfl⟩
  | connect peer remotePort nowMs => exact ⟨.connect peer remotePort nowMs, (ofResult_fst _ _).trans (outcome_fst _).symm⟩
  | connectFromWithIsn peer localPort remotePort isn nowMs =>
    exact ⟨.connectFromWithIsn peer localPort remotePort isn nowMs, (ofResult_fst _ _).trans (outcome_fst _).symm⟩
  | input peer bytes nowMs => exact ⟨.input peer bytes nowMs, ofResult_fst _ _⟩
  | poll ids nowMs => exact ⟨.poll ids nowMs, rfl⟩
  | write id bytes nowMs =>
    exact ⟨.write id bytes nowMs, (ofResult_fst _ _).trans ((s.write_fst id bytes nowMs).trans (outcome_fst _).symm)⟩
  | read id max nowMs => exact ⟨.read id max, (ofResult_fst _ _).trans (outcome_fst _).symm⟩
  | close id nowMs => exact ⟨.close id nowMs, (ofResult_fst _ _).trans (outcome_fst _).symm⟩
  | abort id => exact ⟨.abort id, (ofResult_fst _ _).trans (outcome_fst _).symm⟩
  | setConnectionReservation slots eligible =>
    exact ⟨.setConnectionReservation slots eligible, (ofResult_fst _ _).trans (outcome_fst _).symm⟩
  | drainOutbound => exact ⟨.drainOutbound, rfl⟩

/-! ## One call -/

theorem Agree.reply {ε ε' α β : Type} {R : α → β → Prop} {x : Stack Ts.JsString × Except ε α} {y : Ts.Stack × Except ε' β}
    (h : Agree R x y) {reply : Stack Ts.JsString → α → CallReply} {reply' : Ts.Stack → β → CallReply}
    (heq : ∀ s t a b, s.Twin t → R a b → reply s a = reply' t b) :
    (CallReply.ofResult reply x).1.Twin (CallReply.ofResult reply' y).1 ∧
      (CallReply.ofResult reply x).2.Matches (CallReply.ofResult reply' y).2 := by
  cases h with
  | done htwin hvalue => exact ⟨htwin, .of_eq (heq _ _ _ _ htwin hvalue)⟩
  | failed htwin => exact ⟨htwin, rfl⟩

/-- **One call.** -/
theorem call_lockstep (hb : s.Books config) (h : s.Twin t) (call : StackCall) (hsafe : s.CallSafe call) :
    (s.call call).1.Twin (t.call call).1 ∧ (s.call call).2.Matches (t.call call).2 := by
  obtain ⟨hroom, hsafe⟩ := hsafe
  have hopened : ∀ (s : Stack Ts.JsString) (t : Ts.Stack) (id : ConnectionId) (id' : ℕ), s.Twin t → Names id id' →
      s.opened id = t.opened id' := by
    intro s t id id' h hid
    obtain rfl : id' = id.raw := hid
    unfold Stack.opened Ts.Stack.opened
    cases hl : s.connections.lookup id with
    | none =>
      rw [h.connections.missing hl]
      rfl
    | some c =>
      obtain ⟨c', hget, token, -, reno, -, rfl⟩ := h.connections.found hl
      rw [hget]
      rfl
  cases call with
  | listen port => exact (h.listen hsafe).reply fun _ _ _ _ _ _ => rfl
  | closeListener port => exact ⟨h.closeListener port, rfl⟩
  | accept port =>
    obtain ⟨htwin, hid⟩ := h.accept port
    exact ⟨htwin, .of_eq (congrArg CallReply.accepted hid.symm)⟩
  | connect peer remotePort nowMs => exact (h.connect hsafe.1 hsafe.2.1 hsafe.2.2 hroom).reply hopened
  | connectFromWithIsn peer localPort remotePort isn nowMs =>
    exact (h.connectFromWithIsn hsafe.1 hsafe.2 hroom localPort remotePort isn).reply hopened
  | input peer bytes nowMs => exact (h.input hb.tidy hsafe.1 bytes hsafe.2.1 hroom hsafe.2.2).reply fun _ _ _ _ _ _ => rfl
  | poll ids nowMs =>
    obtain ⟨t', ht, htwin⟩ := h.poll hb.tidy hsafe.1 hsafe.2
    unfold Stack.call Ts.Stack.call
    simp only [ht, if_pos hsafe.2]
    exact ⟨htwin, rfl⟩
  | write id bytes nowMs => exact (h.write id bytes hsafe).reply fun _ _ _ _ _ hcount => congrArg CallReply.wrote hcount
  | read id max nowMs => exact (h.read id hsafe.1 hsafe.2).reply fun _ _ _ _ _ hbytes => congrArg CallReply.bytes hbytes
  | close id nowMs => exact (h.close id hsafe).reply fun _ _ _ _ _ _ => rfl
  | abort id => exact (h.abort hb.genuine.sound hb.legible id).reply fun _ _ _ _ _ _ => rfl
  | setConnectionReservation slots eligible => exact (h.setConnectionReservation slots eligible).reply fun _ _ _ _ _ _ => rfl
  | drainOutbound => exact ⟨h.drainOutbound, h.outbound⟩

/-! ## Runs -/

theorem Twin.new (config : ValidConfig) (hv : config.1.Shared) (isnSeed : BitVec 64) (token token' : ℕ) :
    ∃ t, Ts.Stack.new config.1.toTs isnSeed.toNat token' = .ok t ∧ (Stack.new config isnSeed token).Twin t := by
  unfold Ts.Stack.new
  rw [hv.ts]
  refine ⟨_, rfl, ⟨hv, rfl, rfl, fun port => ?_, .empty, .empty, .empty, .refl _ [], rfl, rfl, ?_⟩⟩
  · simp only [Stack.new, Finset.notMem_empty]
  · have hpos : (0 : ℤ) < isnSeed.toNat ↔ ¬ isnSeed = 0 := by
      rw [Int.natCast_pos, Nat.pos_iff_ne_zero]
      exact not_congr (BitVec.toNat_inj (y := 0))
    simp only [Stack.new, hpos, Int.toNat_natCast]
    split_ifs with h0
    · rfl
    · rfl

end Stack

/-- **The two stacks are in lockstep.** -/
theorem stacks_lockstep (config : ValidConfig) (hv : config.1.Shared) (isnSeed : BitVec 64) (token token' : ℕ)
    (calls : List StackCall)
    (hsafe : Run.Along (fun s call => (s.call call).1) Stack.CallSafe (Stack.new config isnSeed token) calls) :
    ∃ t, Ts.Stack.new config.1.toTs isnSeed.toNat token' = .ok t ∧
      List.Forall₂ CallReply.Matches (Run.answers Stack.call (Stack.new config isnSeed token) calls)
        (Run.answers Ts.Stack.call t calls) ∧
      (Run.exec (fun s call => (s.call call).1) (Stack.new config isnSeed token) calls).Twin
        (Run.exec (fun t call => (t.call call).1) t calls) := by
  obtain ⟨t, hnew, htwin⟩ := Stack.Twin.new config hv isnSeed token token'
  have hstep : ∀ (s : Stack Ts.JsString) (t : Ts.Stack) (call : StackCall), s.CallSafe call → s.Books config ∧ s.Twin t →
      ((s.call call).1.Books config ∧ (s.call call).1.Twin (t.call call).1) ∧ (s.call call).2.Matches (t.call call).2 := by
    intro s t call hsafe ⟨hbooks, h⟩
    obtain ⟨h1, h2⟩ := Stack.call_lockstep hbooks h call hsafe
    obtain ⟨op, hop⟩ := s.call_perform call
    refine ⟨⟨?_, h1⟩, h2⟩
    rw [hop]
    exact hbooks.perform hsafe.1 op
  obtain ⟨⟨-, hend⟩, hreplies⟩ := Run.exec_related hstep ⟨.new config isnSeed token, htwin⟩ hsafe
  exact ⟨t, hnew, hreplies, hend⟩

/-- the SYN of a client at port 5000, for port 80 -/
def callerSyn : List U8 :=
  [0x13, 0x88, 0, 80, 0, 0, 2, 0xbc, 0, 0, 0, 0, 0x60, 2, 3, 0xe8, 0, 0, 0, 0, 254, 4, 1, 0]

/-- its next segment, with an acknowledgment of `ack` -/
def callerAck (ack : U32) : List U8 :=
  [0x13, 0x88, 0, 80, 0, 0, 2, 0xbd] ++ be32 ack ++ [0x50, 0x10, 3, 0xe8, 0, 0, 0, 0]

/-- a listener that takes a connection, a client, calls that fail, and a poll of both connections -/
def lockstepCalls : List StackCall :=
  [.listen 80, .listen 0, .input [102] callerSyn 0, .input [103] [1, 2] 0, .input [102] (callerAck 1082269762) 1, .accept 80,
    .write ⟨1⟩ [1, 2, 3] 2, .connect [103] 9 3, .connectFromWithIsn [103] 0 9 5 4, .setConnectionReservation 1 fun _ => false,
    .poll [⟨2⟩, ⟨1⟩] 1200, .drainOutbound, .read ⟨1⟩ 10 1300, .closeListener 80, .close ⟨1⟩ 1400, .abort ⟨2⟩, .listen 80]

theorem stacks_lockstep_run :
    ∃ t, Ts.Stack.new Config.shared.toTs (1 : BitVec 64).toNat 0 = .ok t ∧
      List.Forall₂ CallReply.Matches
        (Run.answers Stack.call (Stack.new ⟨Config.shared, Config.shared_accepted.rust⟩ 1 0) lockstepCalls)
        (Run.answers Ts.Stack.call t lockstepCalls) ∧
      (Run.exec (fun s call => (s.call call).1) (Stack.new ⟨Config.shared, Config.shared_accepted.rust⟩ 1 0) lockstepCalls).Twin
        (Run.exec (fun t call => (t.call call).1) t lockstepCalls) :=
  stacks_lockstep ⟨Config.shared, Config.shared_accepted.rust⟩ Config.shared_accepted 1 0 0 lockstepCalls (by decide +kernel)

/-! ## Where the two stacks part -/

/-- what two new stacks answer to the same calls -/
def bothAnswer {config : Config} (hv : config.Shared) (calls : List StackCall) : List CallReply × Option (List CallReply) :=
  (Run.answers Stack.call (.new ⟨config, hv.rust⟩ 1 0) calls,
    (Ts.Stack.new config.toTs 1 0).toOption.map fun t => Run.answers Ts.Stack.call t calls)

/-- a retransmission timeout may be as long as a number is exact -/
def Config.patient : Config := { Config.shared with maxRtoMs := 2 ^ 53 - 1 }

theorem Config.patient_accepted : Config.patient.Shared := ⟨by decide, by decide⟩

/-- a `connect` to port 0, which fails, and another -/
def zeroPortCalls : List StackCall := [.connect [102] 0 0, .connect [102] 9 0]

/-- a handshake that ends while the listener is closed -/
def reopenedCalls : List StackCall :=
  [.listen 80, .input [102] callerSyn 0, .closeListener 80, .input [102] (callerAck 1082269762) 1, .listen 80, .accept 80]

/-- a connection that enters FIN-WAIT-2 shortly before the last clock -/
def lastClockCalls : List StackCall :=
  [.listen 80, .input [102] callerSyn (2 ^ 53 - 9), .input [102] (callerAck 1082269762) (2 ^ 53 - 8), .close ⟨1⟩ (2 ^ 53 - 7),
    .input [102] (callerAck 1082269763) (2 ^ 53 - 6), .poll [⟨1⟩] (2 ^ 53 - 1), .abort ⟨1⟩]

/-- a round trip of 2^53 / 7 + 3 ms, and one of 1 ms -/
def longTripCalls : List StackCall :=
  [.listen 80, .input [102] callerSyn 0, .input [102] (callerAck 1082269762) 1286742750677287, .write ⟨1⟩ [1] 1286742750677287,
    .input [102] (callerAck 1082269763) 1286742750677288, .write ⟨1⟩ [2] 1286742750677288, .drainOutbound,
    .poll [⟨1⟩] 5629499534213130, .drainOutbound]

/-- **Where the two stacks part**: a failed `connect` that moved the cursors, a queue that `listen` empties, a maximum that is no safe
integer, a deadline that was cut at the last clock, and a smoothed round trip that was rounded. -/
theorem stacks_part :
    bothAnswer Config.shared_accepted zeroPortCalls =
      ([.failed, .connected 1 (some (49153, 469849415))], some [.failed, .connected 1 (some (49152, 1082269761))]) ∧
    bothAnswer Config.shared_accepted reopenedCalls =
      ([.done, .done, .done, .done, .done, .accepted (some 1)], some [.done, .done, .done, .done, .done, .accepted none]) ∧
    bothAnswer Config.shared_accepted [.connect [102] 9 0, .read ⟨1⟩ (2 ^ 53) 0] =
      ([.connected 1 (some (49152, 1082269761)), .bytes []], some [.connected 1 (some (49152, 1082269761)), .failed]) ∧
    bothAnswer Config.shared_accepted lastClockCalls =
      ([.done, .done, .done, .done, .done, .done, .done], some [.done, .done, .done, .done, .done, .done, .failed]) ∧
    (bothAnswer Config.patient_accepted longTripCalls).1.getLast? = some (.drained []) ∧
      (bothAnswer Config.patient_accepted longTripCalls).2.bind List.getLast? ≠ some (.drained []) := by
  decide +kernel

end FipsTcp
