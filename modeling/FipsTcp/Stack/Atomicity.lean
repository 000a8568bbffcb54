/-
What is left of a call that failed.

Several operations change the stack before they emit, so their atomicity rests on every segment they build being one that can
be encoded.
- `perform_failed`: a failed operation leaves the stack as it was; `connect` may have moved two cursors;
- `Builds.encodes`: everything that a stack builds can be encoded;
- `receiveBatch_keep`: a batch and what is left of it once the rejected datagrams are taken out have the same effect.
-/
import FipsTcp.Stack.Edits
import FipsTcp.Core.Endpoint

namespace FipsTcp

open Connection

namespace Stack

variable {P : Type} [DecidableEq P] {s : Stack P}

/-- what a failed operation may leave: the stack as it was, but for the two cursors that `connect` moves first -/
def AfterFailure (s : Stack P) : StackOp P → Stack P → Prop
  | .connect _ _ _, s' => ∃ port isn, s' = { s with nextEphemeralPort := port, isnState := isn }
  | _, s' => s' = s

theorem afterFailure_self (s : Stack P) (op : StackOp P) : s.AfterFailure op s := by
  cases op with
  | connect => exact ⟨s.nextEphemeralPort, s.isnState, rfl⟩
  | _ => rfl

theorem Call.failed {op : StackOp P} {s' : Stack P} {result : Except Failure Unit} (h : s.Call op s' result)
    {failure : Failure} (hf : result = .error failure) : s.AfterFailure op s' := by
  cases h with
  | refused op => exact s.afterFailure_self op
  | connectRefused peer remotePort nowMs port isn => exact ⟨port, isn, rfl⟩
  | malformed | stale => rfl
  | connected | listened | closedListener | accepted | ignored | rejected | opened | reset | challenged | handled | wrote
  | read | closed | aborted | abortedPeer | polled | unpolled | unabortedPeer | reserved | drained => cases hf

/-- only a datagram that is not a segment fails with an error of the wire format -/
theorem Call.wire {op : StackOp P} {s' : Stack P} {result : Except Failure Unit} (h : s.Call op s' result) {e : WireError}
    (hf : result = .error (.error (.wire e))) :
    ∃ peer bytes nowMs, op = .input peer bytes nowMs ∧ Segment.decode bytes = .error e := by
  cases h with
  | refused op error hw => cases hf; exact absurd rfl (hw e)
  | connectRefused peer remotePort nowMs port isn error hw => cases hf; exact absurd rfl (hw e)
  | malformed peer bytes nowMs error hdec => cases hf; exact ⟨peer, bytes, nowMs, rfl, hdec⟩
  | stale | connected | listened | closedListener | accepted | ignored | rejected | opened | reset | challenged | handled
  | wrote | read | closed | aborted | abortedPeer | polled | unpolled | unabortedPeer | reserved | drained => cases hf

theorem perform_failed (hs : s.AllSound) (op : StackOp P) {failure : Failure} (h : (s.perform op).2 = .error failure) :
    s.AfterFailure op (s.perform op).1 := (perform_call hs op).failed h

/-- `write` does what `write_with_marker` does -/
theorem write_failed (hs : s.AllSound) {id : ConnectionId} {bytes : List U8} {nowMs : ℕ} {e : StackError}
    (h : (s.write id bytes nowMs).2 = .error e) : (s.write id bytes nowMs).1 = s := by
  have hmark : (s.perform (.write id bytes nowMs)).2 = .error (.error e) → _ := perform_failed hs (.write id bytes nowMs)
  unfold write at h ⊢
  simp only [perform] at hmark
  rcases hw : s.writeWithMarker id bytes nowMs with ⟨s', e' | ⟨accepted, marker⟩⟩ <;> rw [hw] at h hmark <;> cases h
  exact hmark rfl

/-! ## What a stack builds -/

/-- the segments that a stack may build next, whatever it is asked and whatever arrives -/
inductive Builds (s : Stack P) : Segment → Prop
  | input (id : ConnectionId) (c : Connection P) (bytes : List U8) (incoming segment : Segment) (nowMs : ℕ)
      (hl : s.connections.lookup id = some c) (hdec : Segment.decode bytes = .ok incoming)
      (h : segment ∈ (c.input incoming nowMs s.config.1).2.segments) : Builds s segment
  | write (id : ConnectionId) (c c' : Connection P) (bytes : List U8) (nowMs count : ℕ) (segments : List Segment)
      (segment : Segment) (hl : s.connections.lookup id = some c)
      (hw : c.write bytes nowMs s.config.1 = .ok (c', count, segments)) (h : segment ∈ segments) : Builds s segment
  | read (id : ConnectionId) (c : Connection P) (max : ℕ) (segment : Segment) (hl : s.connections.lookup id = some c)
      (h : segment ∈ (c.read max).2.2) : Builds s segment
  | close (id : ConnectionId) (c : Connection P) (nowMs : ℕ) (segment : Segment) (hl : s.connections.lookup id = some c)
      (h : segment ∈ (c.close nowMs).2.segments) : Builds s segment
  | poll (id : ConnectionId) (c : Connection P) (nowMs : ℕ) (segment : Segment) (hl : s.connections.lookup id = some c)
      (h : segment ∈ (c.poll nowMs s.config.1).2.segments) : Builds s segment
  | abort (id : ConnectionId) (c : Connection P) (hl : s.connections.lookup id = some c) : Builds s c.resetSegment
  | client (peer : P) (localPort remotePort : U16) (isn : U32) (nowMs token : ℕ) (segment : Segment) (hl : localPort ≠ 0)
      (hr : remotePort ≠ 0) (h : segment ∈ (Connection.client peer localPort remotePort isn nowMs s.config.1 token).2) :
      Builds s segment
  | server (peer : P) (bytes : List U8) (incoming : Segment) (isn : U32) (nowMs token : ℕ) (segment : Segment)
      (hdec : Segment.decode bytes = .ok incoming)
      (h : segment ∈ (Connection.server peer incoming isn nowMs s.config.1 token).2) : Builds s segment
  | answer (bytes : List U8) (incoming : Segment) (hdec : Segment.decode bytes = .ok incoming) :
      Builds s (resetFor incoming)

/-- **Everything that a stack builds can be encoded.** -/
theorem Builds.encodes (hs : s.AllSound) {segment : Segment} (h : s.Builds segment) : segment.Encodes := by
  cases h with
  | input id c bytes incoming segment nowMs hl hdec h =>
    obtain ⟨hopen, hclosed⟩ := (hs id c hl).input s.config.valid (Segment.decode_ports hdec) nowMs
    cases hcl : (c.input incoming nowMs s.config.1).2.closed with
    | false => exact (hopen hcl).encodes segment h
    | true => rw [(hclosed hcl).1] at h; cases h
  | write id c c' bytes nowMs count segments segment hl hw h =>
    exact ((hs id c hl).write s.config.valid hw).encodes segment h
  | read id c max segment hl h => exact ((hs id c hl).read s.config.valid max).encodes segment h
  | close id c nowMs segment hl h => exact ((hs id c hl).close s.config.valid nowMs).encodes segment h
  | poll id c nowMs segment hl h =>
    have hc := hs id c hl
    obtain ⟨hopen, -⟩ := hc.poll s.config.valid nowMs
    have hclosed := (poll_moves s.config.1 nowMs hc.mss).2
    cases hcl : (c.poll nowMs s.config.1).2.closed with
    | false => exact (hopen hcl).encodes segment h
    | true => rw [hclosed hcl] at h; cases h
  | abort id c hl => exact buildSegment_encodes (hs id c hl).ports.1 (hs id c hl).ports.2 []
  | client peer localPort remotePort isn nowMs token segment hl hr h =>
    obtain ⟨-, -, -, -, henc⟩ := sound_client s.config.valid peer hl hr isn nowMs token
    exact henc segment h
  | server peer bytes incoming isn nowMs token segment hdec h =>
    obtain ⟨-, -, -, -, henc⟩ := sound_server s.config.valid peer (Segment.decode_ports hdec) isn nowMs token
    exact henc segment h
  | answer bytes incoming hdec => exact resetFor_encodes (Segment.decode_ports hdec).1 (Segment.decode_ports hdec).2

end Stack

/-! ## Batches -/

namespace FipsTcpEndpoint

variable {P : Type} [DecidableEq P]

/-- the datagrams of a batch that the receiver counts neither as malformed nor as over capacity -/
def keep (nowMs : ℕ) (admitted : P → List U8 → Bool) : Stack P → List (Datagram P) → List (Datagram P)
  | _, [] => []
  | s, datagram :: batch =>
    let (stack, report) := receiveOne nowMs admitted (s, ⟨0, 0, 0, 0, 0⟩) datagram
    if report.malformed = 0 ∧ report.connectionLimited = 0 then datagram :: keep nowMs admitted stack batch
    else keep nowMs admitted stack batch

variable {nowMs : ℕ} {admitted : P → List U8 → Bool} {s : Stack P}

/-- the report does not influence the stack -/
theorem receiveOne_stack (nowMs : ℕ) (admitted : P → List U8 → Bool) (s : Stack P) (report report' : ReceiveReport) (datagram : Datagram P) :
    (receiveOne nowMs admitted (s, report) datagram).1 = (receiveOne nowMs admitted (s, report') datagram).1 := by
  unfold receiveOne
  split_ifs <;> rfl

/-- a datagram that is counted as malformed or over capacity changes nothing -/
theorem receiveOne_rejected (nowMs : ℕ) (admitted : P → List U8 → Bool) (hs : s.AllSound) (datagram : Datagram P)
    (h : ¬ ((receiveOne nowMs admitted (s, ⟨0, 0, 0, 0, 0⟩) datagram).2.malformed = 0 ∧
      (receiveOne nowMs admitted (s, ⟨0, 0, 0, 0, 0⟩) datagram).2.connectionLimited = 0)) :
    (receiveOne nowMs admitted (s, ⟨0, 0, 0, 0, 0⟩) datagram).1 = s := by
  have hfail : ∀ failure, (s.perform (.input datagram.sourcePeer datagram.data nowMs)).2 = .error failure → _ := fun _ =>
    Stack.perform_failed hs (.input datagram.sourcePeer datagram.data nowMs)
  simp only [Stack.perform] at hfail
  unfold receiveOne at h ⊢
  split_ifs at h ⊢
  · generalize s.input datagram.sourcePeer datagram.data nowMs = result at h hfail ⊢
    obtain ⟨s', failure | u⟩ := result
    · exact hfail failure rfl
    · exact absurd ⟨rfl, rfl⟩ h
  · rfl

/-- **Batches.** Taking out the datagrams that are rejected changes nothing. -/
theorem receiveBatch_keep (hs : s.AllSound) (batch : List (Datagram P)) :
    (receiveBatch nowMs admitted s batch).1 = (receiveBatch nowMs admitted s (keep nowMs admitted s batch)).1 := by
  have hsound : ∀ (s : Stack P) (datagram : Datagram P), s.AllSound →
      (receiveOne nowMs admitted (s, ⟨0, 0, 0, 0, 0⟩) datagram).1.AllSound := fun s datagram hs => by
    unfold receiveOne
    split_ifs
    · exact (Stack.perform_change hs (.input datagram.sourcePeer datagram.data nowMs)).1.ok hs
    · exact hs
  suffices h : ∀ r r' : ReceiveReport, (batch.foldl (receiveOne nowMs admitted) (s, r)).1 =
      ((keep nowMs admitted s batch).foldl (receiveOne nowMs admitted) (s, r')).1 from h _ _
  induction batch generalizing s with
  | nil => exact fun _ _ => rfl
  | cons datagram batch ih =>
    intro r r'
    have hnext := ih (hsound s datagram hs)
    have hrej := receiveOne_rejected nowMs admitted hs datagram
    have hr := receiveOne_stack nowMs admitted s r ⟨0, 0, 0, 0, 0⟩ datagram
    have hr' := receiveOne_stack nowMs admitted s r' ⟨0, 0, 0, 0, 0⟩ datagram
    unfold keep
    rw [List.foldl_cons]
    generalize receiveOne nowMs admitted (s, ⟨0, 0, 0, 0, 0⟩) datagram = one at hnext hrej hr hr' ⊢
    obtain ⟨s1, report⟩ := one
    simp only at hnext hrej hr hr' ⊢
    split_ifs with hkept
    · rw [List.foldl_cons]
      generalize receiveOne nowMs admitted (s, r) datagram = a at hr ⊢
      generalize receiveOne nowMs admitted (s, r') datagram = b at hr' ⊢
      obtain ⟨a, ra⟩ := a
      obtain ⟨b, rb⟩ := b
      simp only at hr hr'
      subst hr; subst hr'
      exact hnext ra rb
    · generalize receiveOne nowMs admitted (s, r) datagram = a at hr ⊢
      obtain ⟨a, ra⟩ := a
      have hsame := hrej hkept
      simp only at hr
      subst hr; subst hsame
      exact hnext ra r'

end FipsTcpEndpoint

/-- **Errors are atomic.** In every reachable stack a call that fails leaves the stack as it was, but for two cursors of
`connect`; every segment the stack builds can be encoded, so that an error of the wire format only ever comes from a datagram
that is not a segment; and a batch without its rejected datagrams has the effect of the whole batch. -/
theorem error_atomicity {P : Type} [DecidableEq P] (config : ValidConfig) (isnSeed : BitVec 64) (token : ℕ)
    (ops : List (StackOp P)) :
    let s := Stack.run config isnSeed token ops
    (∀ op failure, (s.perform op).2 = .error failure → s.AfterFailure op (s.perform op).1) ∧
      (∀ id bytes nowMs e, (s.write id bytes nowMs).2 = .error e → (s.write id bytes nowMs).1 = s) ∧
      (∀ segment, s.Builds segment → ∃ bytes, segment.encode = .ok bytes) ∧
      (∀ op e, (s.perform op).2 = .error (.error (.wire e)) →
        ∃ peer bytes nowMs, op = .input peer bytes nowMs ∧ Segment.decode bytes = .error e) ∧
      ∀ nowMs admitted batch, (FipsTcpEndpoint.receiveBatch nowMs admitted s batch).1 =
        (FipsTcpEndpoint.receiveBatch nowMs admitted s (FipsTcpEndpoint.keep nowMs admitted s batch)).1 := by
  intro s
  have hs : s.AllSound := (Stack.ok_run config isnSeed token ops).1
  exact ⟨fun op failure h => Stack.perform_failed hs op h, fun id bytes nowMs e h => Stack.write_failed hs h,
    fun segment h => h.encodes hs, fun op e h => (Stack.perform_call hs op).wire h,
    fun nowMs admitted batch => FipsTcpEndpoint.receiveBatch_keep hs batch⟩

end FipsTcp
