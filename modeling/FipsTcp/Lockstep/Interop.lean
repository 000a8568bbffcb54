/-
A Rust stack and a TypeScript stack on one carrier.

A `Party` is a stack of either implementation. A `Station` is a party with what its applications wrote and read, by what the calls
answered, and every datagram that was taken from it. `Mixed` are two stations on the carrier of `Hosts`: it authenticates, and it may
lose, duplicate, reorder and delay every datagram.
- `Plays`, `Plays.step`: a party in the place of a Rust stack; one call of either implementation is one operation of that stack;
- `Mixed.Follows.step`, `shadow_run`: two stations do what two hosts do, in every undisturbed run;
- `implementations_interoperate`: so what one application reads is what the other wrote, whichever implementation each of them uses.
-/
import FipsTcp.Hosts.Contract
import FipsTcp.Lockstep.Runs
import FipsTcp.Stack.RoundTrips

namespace FipsTcp

open Table OrderedMap Number

/-! ## Calls and answers -/

namespace StackCall

/-- what the call is for a Rust stack -/
def op : StackCall → StackOp Ts.JsString
  | .listen port => .listen port
  | .closeListener port => .closeListener port
  | .accept port => .accept port
  | .connect peer remotePort nowMs => .connect peer remotePort nowMs
  | .connectFromWithIsn peer localPort remotePort isn nowMs => .connectFromWithIsn peer localPort remotePort isn nowMs
  | .input peer bytes nowMs => .input peer bytes nowMs
  | .poll ids nowMs => .poll ids nowMs
  | .write id bytes nowMs => .write id bytes nowMs
  | .read id max _ => .read id max
  | .close id nowMs => .close id nowMs
  | .abort id => .abort id
  | .setConnectionReservation slots eligible => .setConnectionReservation slots eligible
  | .drainOutbound => .drainOutbound

/-- the operations that a call can be: a TypeScript stack polls its connections in an order of its own -/
inductive Does : StackCall → StackOp Ts.JsString → Prop
  | same (call : StackCall) : Does call call.op
  | poll (ids ids' : List ConnectionId) (nowMs : ℕ) : Does (.poll ids nowMs) (.poll ids' nowMs)

/-- the bytes that were written on a connection, by the answer -/
def wrote (id : ConnectionId) : StackCall → CallReply → List U8
  | .write i bytes _, .wrote count => if i = id then bytes.take count else []
  | _, _ => []

/-- the bytes that were read from a connection, by the answer -/
def got (id : ConnectionId) : StackCall → CallReply → List U8
  | .read i _ _, .bytes bytes => if i = id then bytes else []
  | _, _ => []

/-- the call does without the other side of a conversation: it brings no datagram under its name, and the server does not call -/
def Apart (k : Conversation Ts.JsString) (side : Side) : StackCall → Prop
  | .input peer _ _ => peer ≠ k.peer side
  | .connect peer remotePort _ => side = .server → ¬ (peer = k.peer .server ∧ remotePort = k.localPort)
  | .connectFromWithIsn peer localPort remotePort _ _ => side = .server → ConnectionKey.mk peer localPort remotePort ≠ k.key .server
  | _ => True

instance (k : Conversation Ts.JsString) (side : Side) : (call : StackCall) → Decidable (call.Apart k side)
  | .input peer _ _ => inferInstanceAs (Decidable (peer ≠ k.peer side))
  | .connect peer remotePort _ => inferInstanceAs (Decidable (side = .server → ¬ (peer = k.peer .server ∧ remotePort = k.localPort)))
  | .connectFromWithIsn peer localPort remotePort _ _ =>
    inferInstanceAs (Decidable (side = .server → ConnectionKey.mk peer localPort remotePort ≠ k.key .server))
  | .listen _ | .closeListener _ | .accept _ | .poll _ _ | .write _ _ _ | .read _ _ _ | .close _ _ | .abort _
  | .setConnectionReservation _ _ | .drainOutbound => inferInstanceAs (Decidable True)

end StackCall

namespace CallReply

/-- the datagrams that were taken -/
def taken : CallReply → List (Outbound Ts.JsString)
  | .drained queue => queue
  | _ => []

theorem Matches.cases {reply reply' : CallReply} (h : reply.Matches reply') :
    reply' = reply ∨ ∃ queue queue', reply = .drained queue ∧ reply' = .drained queue' ∧ queue.Perm queue' := by
  cases reply with
  | drained queue =>
    cases reply' with
    | drained queue' => exact .inr ⟨queue, queue', rfl, rfl, h.perm⟩
    | done | failed | accepted | connected | wrote | bytes => exact .inl (Eq.symm h)
  | done | failed | accepted | connected | wrote | bytes => exact .inl (Eq.symm h)

theorem taken_ofResult {σ ε α : Type} {reply : σ → α → CallReply} (h : ∀ s a, (reply s a).taken = []) (x : σ × Except ε α) :
    (ofResult reply x).2.taken = [] := by
  obtain ⟨s, e | a⟩ := x
  · rfl
  · exact h s a

/-- matching answers tell the same about a call -/
theorem Matches.told {reply reply' : CallReply} (h : reply.Matches reply') (call : StackCall) (id : ConnectionId) :
    call.wrote id reply' = call.wrote id reply ∧ call.got id reply' = call.got id reply ∧
      ∀ o ∈ reply'.taken, o ∈ reply.taken := by
  rcases h.cases with rfl | ⟨queue, queue', rfl, rfl, hperm⟩
  · exact ⟨rfl, rfl, fun _ ho => ho⟩
  · refine ⟨?_, ?_, fun o ho => hperm.mem_iff.2 ho⟩
    · cases call <;> rfl
    · cases call <;> rfl

end CallReply

namespace Stack

variable {s : Stack Ts.JsString} {t : Ts.Stack} {config : ValidConfig} {call : StackCall}

/-- a call of the Rust stack is its operation -/
theorem call_op (s : Stack Ts.JsString) (call : StackCall) : (s.call call).1 = (s.perform call.op).1 := by
  cases call with
  | listen | connect | connectFromWithIsn | read | close | abort | setConnectionReservation =>
    exact (ofResult_fst _ _).trans (outcome_fst _).symm
  | input => exact ofResult_fst _ _
  | write id bytes nowMs => exact (ofResult_fst _ _).trans ((s.write_fst id bytes nowMs).trans (outcome_fst _).symm)
  | closeListener | accept | poll | drainOutbound => rfl

/-- and its answer tells what the operation did -/
theorem call_told (s : Stack Ts.JsString) (call : StackCall) (id : ConnectionId) :
    call.wrote id (s.call call).2 = s.wrote id call.op ∧ call.got id (s.call call).2 = s.got id call.op ∧
      ∀ o ∈ (s.call call).2.taken, o ∈ s.outbound := by
  have hnone : (s.call call).2.taken = [] → ∀ o ∈ (s.call call).2.taken, o ∈ s.outbound := fun h o ho => by
    rw [h] at ho
    cases ho
  cases call with
  | write i bytes nowMs =>
    refine ⟨?_, rfl, hnone (CallReply.taken_ofResult (fun _ _ => rfl) _)⟩
    simp only [StackCall.wrote, StackCall.op, Stack.call, Stack.wrote, Stack.write]
    rcases s.writeWithMarker i bytes nowMs with ⟨s', e | ⟨count, marker⟩⟩ <;> rfl
  | read i max nowMs =>
    refine ⟨rfl, ?_, hnone (CallReply.taken_ofResult (fun _ _ => rfl) _)⟩
    simp only [StackCall.got, StackCall.op, Stack.call, Stack.got]
    rcases s.read i max with ⟨s', e | bytes⟩ <;> rfl
  | drainOutbound => exact ⟨rfl, rfl, fun _ ho => ho⟩
  | listen | connect | connectFromWithIsn | input | close | abort | setConnectionReservation =>
    exact ⟨rfl, rfl, hnone (CallReply.taken_ofResult (fun _ _ => rfl) _)⟩
  | closeListener | accept | poll => exact ⟨rfl, rfl, hnone rfl⟩

/-- an operation takes one token at most -/
theorem perform_token_le {P : Type} [DecidableEq P] {s : Stack P} (hs : s.AllSound) (op : StackOp P) :
    (s.perform op).1.nextConnectionToken ≤ s.nextConnectionToken + 1 := by
  cases perform_entries hs op with
  | follow h htoken => exact htoken.le.trans (Nat.le_succ _)
  | create o ht h hact htoken => exact htoken.le

theorem kept_subset {P : Type} [DecidableEq P] (s : Stack P) (op : StackOp P) : ∀ o ∈ s.kept op, o ∈ s.outbound := by
  intro o ho
  cases op with
  | drainOutbound => cases ho
  | abort id => exact List.mem_of_mem_filter ho
  | abortPeer peer ids =>
    simp only [kept] at ho
    split_ifs at ho
    · exact List.mem_of_mem_filter ho
    · exact ho
  | listen | closeListener | accept | connect | connectFromWithIsn | input | poll | write | read | close | setConnectionReservation =>
    exact ho

end Stack

/-! ## Two implementations -/

inductive Party where
  | rust (s : Stack Ts.JsString)
  | ts (t : Ts.Stack)

namespace Party

def call : Party → StackCall → Party × CallReply
  | .rust s, call => (.rust (s.call call).1, (s.call call).2)
  | .ts t, call => (.ts (t.call call).1, (t.call call).2)

/-- a new stack of either implementation -/
inductive Fresh (config : ValidConfig) (isnSeed : BitVec 64) (token : ℕ) : Party → Prop
  | rust : Fresh config isnSeed token (.rust (.new config isnSeed token))
  | ts (hv : config.1.Shared) (t : Ts.Stack) (h : Ts.Stack.new config.1.toTs isnSeed.toNat token = .ok t) :
    Fresh config isnSeed token (.ts t)

/-- the connection is the only one of the tuple -/
def Owns (id : ConnectionId) (key : ConnectionKey Ts.JsString) : Party → Prop
  | .rust s => s.Owns id key
  | .ts t => (∀ c ∈ t.connections.get id.raw, c.key = key.text) ∧ ∀ i ∈ t.lookup.get key.text, i = id.raw

/-- the connection is there, its peer has closed the stream, and nothing is left to read -/
def AtEnd (id : ConnectionId) : Party → Prop
  | .rust s => ∃ c ∈ s.connections.lookup id, c.readClosed = true ∧ c.recvQueue = []
  | .ts t => ∃ c ∈ t.connections.get id.raw, c.readClosed = true ∧ c.recvQueue = []

/-- a TypeScript stack is called with a peer that has a name, with ports, before a clock of 2^50 ms, while there are ids, and opens
no port that has connections to accept from an earlier listener -/
def Exact : Party → StackCall → Prop
  | .rust _, _ => True
  | .ts t, call => t.nextConnectionId < maxSafe ∧
    match call with
    | .listen port => port.toNat ∉ t.listeners → (t.accepts.get port.toNat).getD [] = []
    | .connect peer remotePort nowMs => peer ≠ [] ∧ remotePort ≠ 0 ∧ nowMs < 2 ^ 50
    | .connectFromWithIsn peer _ _ _ nowMs | .input peer _ nowMs => peer ≠ [] ∧ nowMs < 2 ^ 50
    | .poll _ nowMs | .write _ _ nowMs | .close _ nowMs => nowMs < 2 ^ 50
    | .read _ max nowMs => max < 2 ^ 53 ∧ nowMs < 2 ^ 50
    | .closeListener _ | .accept _ | .abort _ | .setConnectionReservation _ _ | .drainOutbound => True

instance (id : ConnectionId) (key : ConnectionKey Ts.JsString) : (p : Party) → Decidable (p.Owns id key)
  | .rust s => inferInstanceAs (Decidable (s.Owns id key))
  | .ts t => inferInstanceAs (Decidable
      ((∀ c ∈ t.connections.get id.raw, c.key = key.text) ∧ ∀ i ∈ t.lookup.get key.text, i = id.raw))

instance (id : ConnectionId) : (p : Party) → Decidable (p.AtEnd id)
  | .rust s => inferInstanceAs (Decidable (∃ c ∈ s.connections.lookup id, c.readClosed = true ∧ c.recvQueue = []))
  | .ts t => inferInstanceAs (Decidable (∃ c ∈ t.connections.get id.raw, c.readClosed = true ∧ c.recvQueue = []))

instance : (p : Party) → (call : StackCall) → Decidable (p.Exact call)
  | .rust _, _ => inferInstanceAs (Decidable True)
  | .ts t, .listen port => inferInstanceAs (Decidable (_ ∧ (port.toNat ∉ t.listeners → (t.accepts.get port.toNat).getD [] = [])))
  | .ts _, .connect peer remotePort nowMs => inferInstanceAs (Decidable (_ ∧ peer ≠ [] ∧ remotePort ≠ 0 ∧ nowMs < 2 ^ 50))
  | .ts _, .connectFromWithIsn peer _ _ _ nowMs | .ts _, .input peer _ nowMs =>
    inferInstanceAs (Decidable (_ ∧ peer ≠ [] ∧ nowMs < 2 ^ 50))
  | .ts _, .poll _ nowMs | .ts _, .write _ _ nowMs | .ts _, .close _ nowMs => inferInstanceAs (Decidable (_ ∧ nowMs < 2 ^ 50))
  | .ts _, .read _ max nowMs => inferInstanceAs (Decidable (_ ∧ max < 2 ^ 53 ∧ nowMs < 2 ^ 50))
  | .ts _, .closeListener _ | .ts _, .accept _ | .ts _, .abort _ | .ts _, .setConnectionReservation _ _ | .ts _, .drainOutbound =>
    inferInstanceAs (Decidable (_ ∧ True))

end Party

/-! ## In the place of a Rust stack -/

/-- a party in the place of a Rust stack -/
inductive Plays (config : ValidConfig) : Party → Stack Ts.JsString → Prop
  | rust (s : Stack Ts.JsString) : Plays config (.rust s) s
  | ts {s : Stack Ts.JsString} {t : Ts.Stack} (htwin : s.Twin t) (hlegible : s.Legible) (hsurveyed : s.Surveyed config (2 ^ 50)) :
    Plays config (.ts t) s

namespace Plays

variable {config : ValidConfig} {p : Party} {s : Stack Ts.JsString} {t : Ts.Stack} {call : StackCall} {id : ConnectionId}
  {key : ConnectionKey Ts.JsString}

theorem owns (h : Plays config p s) (howns : p.Owns id key) : s.Owns id key := by
  cases h with
  | rust => exact howns
  | ts htwin =>
    constructor
    · intro c hl
      obtain ⟨c', hget, hc⟩ := htwin.connections.found hl
      have hkey : c'.key = key.text := howns.1 c' hget
      rw [hc.key] at hkey
      exact Stack.text_injective hkey
    · intro i hl
      obtain ⟨i', hget, rfl⟩ := htwin.lookup.found hl
      exact Stack.raw_injective (howns.2 i.raw hget)

theorem atEnd (h : Plays config p s) (hend : p.AtEnd id) :
    ∃ c, s.connections.lookup id = some c ∧ c.readClosed = true ∧ c.recvQueue = [] := by
  cases h with
  | rust => exact hend
  | ts htwin =>
    obtain ⟨c', hget, hclosed, hempty⟩ := hend
    cases hl : s.connections.lookup id with
    | none =>
      rw [htwin.connections.missing hl] at hget
      cases hget
    | some c =>
      obtain ⟨c1, hget1, token, -, reno, -, rfl⟩ := htwin.connections.found hl
      cases hget1.symm.trans hget
      exact ⟨c, rfl, hclosed, hempty⟩

/-- what a connection has measured below a clock of 2^50 ms are exact numbers -/
theorem sampleSafe {c : Connection Ts.JsString} (h : c.Measured config.1 (2 ^ 50)) {nowMs : ℕ} (ht : nowMs < 2 ^ 50) :
    c.SampleSafe nowMs := by
  intro x _
  have hsrtt := h.srtt
  have hrttvar := h.rttvar
  constructor <;> omega

/-- **An exact call is safe**, with the connections in an order of the Rust table. -/
theorem safe (htwin : s.Twin t) (hsurveyed : s.Surveyed config (2 ^ 50)) (hexact : (Party.ts t).Exact call) :
    ∃ call', t.call call = t.call call' ∧ call.Does call'.op ∧ s.CallSafe call' ∧
      (∀ t, call'.op.time = some t → t ≤ 2 ^ 50) ∧
      ∀ id reply, call.wrote id reply = call'.wrote id reply ∧ call.got id reply = call'.got id reply := by
  obtain ⟨hroom, hexact⟩ := hexact
  rw [htwin.nextConnectionId] at hroom
  have hsame : s.CallSafe call → (∀ t, call.op.time = some t → t ≤ 2 ^ 50) → ∃ call', t.call call = t.call call' ∧
      call.Does call'.op ∧ s.CallSafe call' ∧ (∀ t, call'.op.time = some t → t ≤ 2 ^ 50) ∧
      ∀ id reply, call.wrote id reply = call'.wrote id reply ∧ call.got id reply = call'.got id reply :=
    fun hsafe htime => ⟨call, rfl, .same call, hsafe, htime, fun _ _ => ⟨rfl, rfl⟩⟩
  have hclock : ∀ {nowMs : ℕ}, nowMs < 2 ^ 50 → ∀ t, some nowMs = some t → t ≤ 2 ^ 50 := fun hnow t ht => by
    cases ht
    exact hnow.le
  cases call with
  | poll ids nowMs =>
    refine ⟨.poll s.connections.keys.toList nowMs, rfl, .poll _ _ _, ⟨hroom, ?_, ?_⟩, hclock hexact, fun _ _ => ⟨rfl, rfl⟩⟩
    · exact lt_of_lt_of_le hexact (by decide)
    · exact ⟨Finset.nodup_toList _, Finset.toList_toFinset _⟩
  | listen port =>
    refine hsame ⟨hroom, fun hport => ?_⟩ fun _ ht => nomatch ht
    have hempty := hexact fun h => hport ((htwin.listeners port).1 h)
    cases hl : s.accepts.lookup port with
    | none => rfl
    | some queue =>
      obtain ⟨queue', hget, rfl⟩ := htwin.accepts.found hl
      rw [hget] at hempty
      exact List.map_eq_nil_iff.1 hempty
  | connect peer remotePort nowMs =>
    exact hsame ⟨hroom, hexact.1, hexact.2.1, hexact.2.2.trans (by decide)⟩ (hclock hexact.2.2)
  | connectFromWithIsn peer localPort remotePort isn nowMs =>
    exact hsame ⟨hroom, hexact.1, hexact.2.trans (by decide)⟩ (hclock hexact.2)
  | input peer bytes nowMs =>
    refine hsame ⟨hroom, hexact.1, hexact.2.trans (by decide), fun c hc => ?_⟩ (hclock hexact.2)
    unfold Stack.addressee at hc
    split at hc
    · obtain ⟨id, -, hl⟩ := Option.bind_eq_some_iff.1 hc
      exact sampleSafe (hsurveyed.measured id c hl) hexact.2
    · cases hc
  | write id bytes nowMs | close id nowMs => exact hsame ⟨hroom, hexact.trans (by decide)⟩ (hclock hexact)
  | read id max nowMs => exact hsame ⟨hroom, hexact.1, hexact.2.trans (by decide)⟩ fun _ ht => nomatch ht
  | closeListener | accept | abort | setConnectionReservation | drainOutbound => exact hsame ⟨hroom, trivial⟩ fun _ ht => nomatch ht

/-- **One call** of either implementation is one operation of the Rust stack. -/
theorem step (h : Plays config p s) (ho : s.Orderly config) (hexact : p.Exact call) :
    ∃ op, call.Does op ∧ Plays config (p.call call).1 (s.perform op).1 ∧
      ∀ id, call.wrote id (p.call call).2 = s.wrote id op ∧ call.got id (p.call call).2 = s.got id op ∧
        ∀ o ∈ (p.call call).2.taken, o ∈ s.outbound := by
  cases h with
  | rust =>
    refine ⟨call.op, .same call, ?_, s.call_told call⟩
    rw [← s.call_op]
    exact .rust _
  | @ts _ t htwin hlegible hsurveyed =>
    obtain ⟨call', hcall, hdoes, hsafe, htime, htold⟩ := safe htwin hsurveyed hexact
    have hbooks : s.Books config := by
      refine ⟨ho.genuine, ho.index, ho.numbered.used, hlegible⟩
    obtain ⟨htwin', hmatches⟩ := Stack.call_lockstep hbooks htwin call' hsafe
    have hshared := htwin.shared.maxRto
    rw [ho.genuine.same] at hshared
    refine ⟨call'.op, hdoes, ?_, fun id => ?_⟩
    · simp only [Party.call, hcall]
      rw [s.call_op] at htwin'
      refine .ts htwin' (hbooks.perform hsafe.1 call'.op).legible (hsurveyed.step ?_ (by decide) (by decide) htime)
      exact hshared.trans (by decide)
    · obtain ⟨hwrote, hgot, htaken⟩ := s.call_told call' id
      obtain ⟨hwrote', hgot', htaken'⟩ := hmatches.told call' id
      simp only [Party.call, hcall]
      rw [(htold id _).1, (htold id _).2]
      exact ⟨hwrote'.trans hwrote, hgot'.trans hgot, fun o ho => htaken o (htaken' o ho)⟩

end Plays

/-! ## The carrier -/

structure Station where
  party : Party
  /-- the bytes that the writes on a connection accepted -/
  accepted : ConnectionId → List U8
  /-- the bytes that the reads on a connection returned -/
  delivered : ConnectionId → List U8
  /-- every datagram that was ever taken from the stack -/
  posted : List (Outbound Ts.JsString)

namespace Station

def new (p : Party) : Station := ⟨p, fun _ => [], fun _ => [], []⟩

def step (st : Station) (call : StackCall) : Station where
  party := (st.party.call call).1
  accepted id := st.accepted id ++ call.wrote id (st.party.call call).2
  delivered id := st.delivered id ++ call.got id (st.party.call call).2
  posted := st.posted ++ (st.party.call call).2.taken

/-- a station in the place of a host -/
structure Follows (st : Station) (config : ValidConfig) (h : Host Ts.JsString) : Prop where
  orderly : h.stack.Orderly config
  plays : Plays config st.party h.stack
  accepts : st.accepted = h.accepted
  delivers : st.delivered = h.delivered
  posts : ∀ o ∈ st.posted, o ∈ h.posted
  queues : ∀ o ∈ h.stack.outbound, o ∈ h.posted

variable {st : Station} {config : ValidConfig} {h : Host Ts.JsString} {call : StackCall}

theorem Follows.new {p : Party} {isnSeed : BitVec 64} {token : ℕ} (h0 : 0 < token) (hp : p.Fresh config isnSeed token) :
    (Station.new p).Follows config (.new config isnSeed token) := by
  refine ⟨.new config isnSeed h0, ?_, rfl, rfl, (fun _ ho => nomatch ho), fun _ ho => nomatch ho⟩
  cases hp with
  | rust => exact .rust _
  | ts hv t hnew =>
    obtain ⟨t', hnew', htwin⟩ := Stack.Twin.new config hv isnSeed token token
    cases hnew.symm.trans hnew'
    exact .ts htwin (fun _ ho => nomatch ho) ⟨.new config isnSeed token, fun _ _ hl => (Stack.no_connection hl).elim⟩

/-- **One call** is one operation of the host. -/
theorem Follows.step (hf : st.Follows config h) (hexact : st.party.Exact call) (hb : h.stack.nextConnectionToken + 1 < 2 ^ 64) :
    ∃ op, call.Does op ∧ (st.step call).Follows config (h.step (0, op)) ∧
      (h.step (0, op)).stack.nextConnectionToken ≤ h.stack.nextConnectionToken + 1 := by
  obtain ⟨op, hdoes, hplays, htold⟩ := hf.plays.step hf.orderly hexact
  have htoken := Stack.perform_token_le hf.orderly.genuine.sound op
  have horderly := (hf.orderly.perform op (htoken.trans_lt hb)).1
  have hemits := (Stack.perform_emits hf.orderly.tidy op).1
  refine ⟨op, hdoes, ⟨horderly, hplays, funext fun id => ?_, funext fun id => ?_, fun o ho => ?_, fun o ho => ?_⟩, htoken⟩
  · exact congrArg₂ _ (congrFun hf.accepts id) (htold id).1
  · exact congrArg₂ _ (congrFun hf.delivers id) (htold id).2.1
  · refine List.mem_append_left _ ?_
    rcases List.mem_append.1 ho with ho | ho
    · exact hf.posts o ho
    · exact hf.queues o ((htold ⟨0⟩).2.2 o ho)
  · have hout : o ∈ h.stack.kept op ++ h.stack.emitted op := hemits ▸ ho
    rcases List.mem_append.1 hout with ho | ho
    · exact List.mem_append_left _ (hf.queues o (h.stack.kept_subset op o ho))
    · exact List.mem_append_right _ ho

end Station

abbrev Mixed := Side → Station

inductive MixedOp where
  /-- the `index`-th datagram that was ever taken from the other stack arrives, if it is for this one -/
  | deliver (side : Side) (index nowMs : ℕ)
  /-- any other call -/
  | act (side : Side) (call : StackCall)

/-- what happens at a station without the other -/
def MixedOp.Apart (k : Conversation Ts.JsString) : MixedOp → Prop
  | .deliver _ _ _ => True
  | .act side call => call.Apart k side

instance (k : Conversation Ts.JsString) : (op : MixedOp) → Decidable (op.Apart k)
  | .deliver _ _ _ => inferInstanceAs (Decidable True)
  | .act side call => inferInstanceAs (Decidable (call.Apart k side))

/-- as for two hosts -/
theorem StackCall.Apart.hosts {k : Conversation Ts.JsString} {hs : Hosts Ts.JsString} {side : Side} {call : StackCall}
    (h : call.Apart k side) {op : StackOp Ts.JsString} (hdoes : call.Does op) : hs.Apart k side (0, op) := by
  cases hdoes with
  | poll => exact fun _ hdials => (Bool.false_ne_true hdials).elim
  | same =>
    cases call with
    | input peer bytes nowMs => exact h
    | connect peer remotePort nowMs =>
      rintro rfl _ htarget
      refine h rfl ?_
      simp only [StackCall.op, Stack.target] at htarget
      split at htarget
      · cases htarget
        exact ⟨rfl, rfl⟩
      · cases htarget
    | connectFromWithIsn peer localPort remotePort isn nowMs =>
      rintro rfl _ htarget
      exact h rfl (Option.some.inj htarget)
    | listen | closeListener | accept | poll | write | read | close | abort | setConnectionReservation | drainOutbound =>
      exact fun _ hdials => (Bool.false_ne_true hdials).elim

namespace Mixed

def update (m : Mixed) (side : Side) (call : StackCall) : Mixed := Function.update m side ((m side).step call)

/-- the call that happens, and where -/
def occurs (k : Conversation Ts.JsString) (m : Mixed) : MixedOp → Option (Side × StackCall)
  | .deliver side index nowMs =>
    match (m side.other).posted[index]? with
    | some o => if o.peer = k.peer side.other then some (side, .input (k.peer side) o.bytes nowMs) else none
    | none => none
  | .act side call => some (side, call)

def step (k : Conversation Ts.JsString) (m : Mixed) (op : MixedOp) : Mixed :=
  match m.occurs k op with
  | some (side, call) => m.update side call
  | none => m

abbrev run (k : Conversation Ts.JsString) (start : Side → Party) (ops : List MixedOp) : Mixed :=
  Run.exec (step k) (fun side => .new (start side)) ops

/-- the conversation is undisturbed by a step, as for two hosts, and a TypeScript stack is called with exact numbers -/
def Undisturbed (k : Conversation Ts.JsString) (m : Mixed) (op : MixedOp) : Prop :=
  op.Apart k ∧ (∀ x ∈ m.occurs k op, (m x.1).party.Exact x.2) ∧ ∀ side, (m.step k op side).party.Owns (k.id side) (k.key side)

instance (k : Conversation Ts.JsString) (m : Mixed) (op : MixedOp) : Decidable (m.Undisturbed k op) :=
  inferInstanceAs (Decidable (_ ∧ _ ∧ _))

/-! ## Two stations are two hosts -/

/-- two stations in the place of two hosts -/
def Follows (m : Mixed) (k : Conversation Ts.JsString) (hs : Hosts Ts.JsString) : Prop :=
  ∀ side, (m side).Follows (k.config side) (hs side)

variable {k : Conversation Ts.JsString} {m : Mixed} {hs : Hosts Ts.JsString} {side : Side} {call : StackCall} {op : MixedOp}

theorem Follows.update (h : m.Follows k hs) (hexact : (m side).party.Exact call)
    (hb : ∀ d, (hs d).stack.nextConnectionToken + 1 < 2 ^ 64) :
    ∃ op, call.Does op ∧ (m.update side call).Follows k (hs.update side (0, op)) ∧
      ∀ d, (hs.update side (0, op) d).stack.nextConnectionToken ≤ (hs d).stack.nextConnectionToken + 1 := by
  obtain ⟨op, hdoes, hstep, htoken⟩ := (h side).step hexact (hb side)
  refine ⟨op, hdoes, fun d => ?_, fun d => ?_⟩
  · rcases side.eq_or_other d with rfl | rfl
    · rw [Conversation.update_self, Mixed.update, Function.update_self]
      exact hstep
    · rw [Conversation.update_other, Mixed.update, Function.update_of_ne side.other_ne]
      exact h side.other
  · rcases side.eq_or_other d with rfl | rfl
    · rw [Conversation.update_self]
      exact htoken
    · rw [Conversation.update_other]
      exact Nat.le_succ _

/-- what happens at a station happens at the host -/
theorem Follows.occurs (h : m.Follows k hs) (happart : op.Apart k) (hocc : m.occurs k op = some (side, call))
    {op' : StackOp Ts.JsString} (hdoes : call.Does op') :
    ∃ hop : HostsOp Ts.JsString, hs.step k hop = hs.update side (0, op') ∧
      ∀ side' op'', hop = .act side' op'' → hs.Apart k side' op'' := by
  cases op with
  | deliver d index nowMs =>
    simp only [Mixed.occurs] at hocc
    cases hget : (m d.other).posted[index]? with
    | none =>
      rw [hget] at hocc
      cases hocc
    | some o =>
      simp only [hget] at hocc
      split_ifs at hocc with hpeer
      cases hocc
      cases hdoes
      obtain ⟨i, hi⟩ := List.getElem?_of_mem ((h side.other).posts o (List.mem_of_getElem? hget))
      refine ⟨.deliver side i nowMs 0, ?_, fun _ _ hact => nomatch hact⟩
      simp only [Hosts.step, hi, if_pos hpeer]
      rfl
  | act d call' =>
    cases hocc
    refine ⟨.act side (0, op'), rfl, fun side' op'' hact => ?_⟩
    cases hact
    exact StackCall.Apart.hosts happart hdoes

/-- **One step.** -/
theorem Follows.step (h : m.Follows k hs) (hG : m.Undisturbed k op) (hb : ∀ d, (hs d).stack.nextConnectionToken + 1 < 2 ^ 64) :
    m.step k op = m ∨ ∃ hop, hs.Undisturbed k hop ∧ (m.step k op).Follows k (hs.step k hop) ∧
      ∀ d, (hs.step k hop d).stack.nextConnectionToken ≤ (hs d).stack.nextConnectionToken + 1 := by
  obtain ⟨happart, hexact, howns⟩ := hG
  cases hocc : m.occurs k op with
  | none => exact .inl (by simp only [Mixed.step, hocc])
  | some x =>
    obtain ⟨side, call⟩ := x
    obtain ⟨op', hdoes, hfollows, htoken⟩ := h.update (hexact _ hocc) hb
    obtain ⟨hop, heq, hhop⟩ := h.occurs happart hocc hdoes
    have hstep : m.step k op = m.update side call := by simp only [Mixed.step, hocc]
    rw [hstep] at howns ⊢
    refine .inr ⟨hop, ⟨?_, fun d => ?_⟩, ?_, ?_⟩
    · cases hop with
      | deliver => trivial
      | act side' op'' => exact hhop side' op'' rfl
    · rw [heq]
      exact (hfollows d).plays.owns (howns d)
    · rw [heq]
      exact hfollows
    · rw [heq]
      exact htoken

/-- **Every undisturbed run.** -/
theorem Follows.run (h : m.Follows k hs) {ops : List MixedOp} (hG : Run.Along (Mixed.step k) (Undisturbed k) m ops)
    (hb : ∀ d, (hs d).stack.nextConnectionToken + ops.length < 2 ^ 64) :
    ∃ hops, Run.Along (Hosts.step k) (Hosts.Undisturbed k) hs hops ∧
      (Run.exec (Mixed.step k) m ops).Follows k (Run.exec (Hosts.step k) hs hops) ∧
      ∀ d, (Run.exec (Hosts.step k) hs hops d).stack.nextConnectionToken < 2 ^ 64 := by
  induction ops generalizing m hs with
  | nil => exact ⟨[], trivial, h, hb⟩
  | cons op ops ih =>
    obtain ⟨hop, htail⟩ := hG
    have hroom : ∀ d, (hs d).stack.nextConnectionToken + 1 + ops.length < 2 ^ 64 := fun d => by
      have hd := hb d
      rw [List.length_cons] at hd
      omega
    rcases h.step hop fun d => (Nat.le_add_right _ _).trans_lt (hroom d) with heq | ⟨hop', hun, hfollows, htoken⟩
    · rw [heq] at htail
      rw [Run.exec_cons, heq]
      exact ih h htail fun d => (Nat.add_le_add_right (Nat.le_succ _) _).trans_lt (hroom d)
    · obtain ⟨hops, halong, hend⟩ := ih hfollows htail fun d => (Nat.add_le_add_right (htoken d) _).trans_lt (hroom d)
      exact ⟨hop' :: hops, ⟨hun, halong⟩, hend⟩

theorem Follows.new {isnSeed : Side → BitVec 64} {token : Side → ℕ} (h0 : ∀ side, 0 < token side) {start : Side → Party}
    (hstart : ∀ side, (start side).Fresh (k.config side) (isnSeed side) (token side)) :
    Mixed.Follows (fun side => .new (start side)) k (.new k isnSeed token) := fun side =>
  Station.Follows.new (h0 side) (hstart side)

end Mixed

/-! ## Results -/

/-- **The two implementations interoperate.** A Rust stack and a TypeScript stack, or two of a kind, on a carrier that may lose,
duplicate, reorder and delay every datagram: what an application read is a prefix of what the other wrote; at the end of the stream it
is all of it; and what was written and not read fits the buffers of the two stacks. -/
theorem implementations_interoperate (k : Conversation Ts.JsString) (isnSeed : Side → BitVec 64) {token : Side → ℕ}
    (h0 : ∀ side, 0 < token side) {start : Side → Party}
    (hstart : ∀ side, (start side).Fresh (k.config side) (isnSeed side) (token side)) (ops : List MixedOp)
    (hG : Run.Along (Mixed.step k) (Mixed.Undisturbed k) (fun side => .new (start side)) ops)
    (htoken : ∀ side, token side + ops.length < 2 ^ 64)
    (hb : ∀ side, ((Mixed.run k start ops side).accepted (k.id side)).length < 2 ^ 31 - 2 ^ 17) (side : Side) :
    (Mixed.run k start ops side.other).delivered (k.id side.other) <+: (Mixed.run k start ops side).accepted (k.id side) ∧
      ((Mixed.run k start ops side.other).party.AtEnd (k.id side.other) →
        (Mixed.run k start ops side.other).delivered (k.id side.other) = (Mixed.run k start ops side).accepted (k.id side)) ∧
      ((Mixed.run k start ops side).accepted (k.id side)).length ≤
        ((Mixed.run k start ops side.other).delivered (k.id side.other)).length +
          ((k.config side).1.sendBuffer + (k.config side.other).1.receiveBuffer) := by
  obtain ⟨hops, hun, hlast, htok⟩ := (Mixed.Follows.new h0 hstart).run hG htoken
  have hfollows : (Mixed.run k start ops).Follows k (Hosts.run k isnSeed token hops) := hlast
  have hbounded : (Hosts.run k isnSeed token hops).Bounded k := fun d => by
    have hd := hb d
    rw [(hfollows d).accepts] at hd
    exact ⟨hd, htok d⟩
  have htalk := Hosts.talk_run k isnSeed h0 hun hbounded
  have hunread := (Hosts.unread_run k isnSeed token hops side.other).fits (k.id side.other)
  have hunreceived := htalk.unreceived side
  have hplays := (hfollows side.other).plays
  rw [(hfollows side).accepts, (hfollows side.other).delivers]
  refine ⟨(htalk.delivered side.other).trans (htalk.received side), fun hend => ?_, by omega⟩
  obtain ⟨c, hl, hclosed, hempty⟩ := hplays.atEnd hend
  obtain ⟨isn, s, hjoined, hclosed'⟩ := htalk.closed hl hclosed
  have hall : (s side.other).stream = (s side).accepted := (hjoined.inv.pipe side).eof_all hclosed'
  have hspeaks := hjoined.speaks side.other
  obtain ⟨-, hconn⟩ := hspeaks.retained hl
  rw [Socket.stream, hconn, hempty, List.append_nil] at hall
  exact hspeaks.follows.delivers.trans (hall.trans (hjoined.speaks side).follows.accepts.symm)

/-- a TypeScript client that knows its server as "g", and is known to it as "f" -/
def interopConversation : Conversation Ts.JsString where
  config _ := ⟨Config.shared, Config.shared_accepted.rust⟩
  peer
    | .client => [103]
    | .server => [102]
  localPort := 5000
  remotePort := 80
  id _ := ⟨1⟩

def interopClient : Ts.Stack := (Ts.Stack.new Config.shared.toTs (1 : BitVec 64).toNat 1).toOption.get (by decide +kernel)

def interopStart : Side → Party
  | .client => .ts interopClient
  | .server => .rust (.new ⟨Config.shared, Config.shared_accepted.rust⟩ 1 1)

/-- three bytes whose datagram arrives twice, and the end of the stream -/
def interopOps : List MixedOp :=
  [.act .server (.listen 80), .act .client (.connectFromWithIsn [103] 5000 80 0xfffffffe 0), .act .client .drainOutbound,
    .deliver .server 0 1, .act .server .drainOutbound, .deliver .client 0 2, .act .client (.write ⟨1⟩ [1, 2, 3] 3),
    .act .client .drainOutbound, .deliver .server 2 4, .deliver .server 2 5, .act .server (.read ⟨1⟩ 2 5),
    .act .client (.close ⟨1⟩ 6), .act .client .drainOutbound, .deliver .server 3 7, .act .server (.read ⟨1⟩ 9 8)]

theorem interopStart_fresh (side : Side) :
    (interopStart side).Fresh (interopConversation.config side) 1 1 := by
  cases side with
  | client => exact .ts Config.shared_accepted _ rfl
  | server => exact .rust

theorem implementations_interoperate_ts :
    (Mixed.run interopConversation interopStart interopOps .server).delivered ⟨1⟩ = [1, 2, 3] ∧
      (Mixed.run interopConversation interopStart interopOps .server).delivered ⟨1⟩ =
        (Mixed.run interopConversation interopStart interopOps .client).accepted ⟨1⟩ :=
  have h := implementations_interoperate interopConversation (fun _ => 1) (fun _ => Nat.one_pos) interopStart_fresh interopOps
    (by decide +kernel) (fun _ => by decide) (by decide +kernel) .client
  ⟨by decide +kernel, h.2.1 (by decide +kernel)⟩

end FipsTcp
