/-
The states of a connection, and what they say about the other fields.

A connection only moves forward through its states (`State.rank`), whatever the peer sends; so it enters each state at most
once. `Later` says what one operation does to the state and to the two deadlines of a closing connection: a deadline is set
where its state is entered, and stays.
- `Move.later`, `Socket.step_later`: every primitive and every operation.
-/
import FipsTcp.Connection.Receiver

namespace FipsTcp

/-- how far a connection has come -/
def State.rank : State → ℕ
  | .synSent | .synReceived => 0
  | .established => 1
  | .finWait1 | .closeWait => 2
  | .finWait2 | .closing | .lastAck => 3
  | .timeWait => 4

namespace Connection

variable {P : Type} {config : Config} {nowMs : ℕ} {inp : Option Segment} {c c' c1 c2 : Connection P} {out : List Segment}

/-! ## Forward through the states -/

/-- what an operation at time `nowMs` does to the state and its deadlines -/
structure Later (config : Config) (nowMs : ℕ) (inp : Option Segment) (c c' : Connection P) : Prop where
  state : c'.state = c.state ∨ c.state.rank < c'.state.rank
  finWait2 : c'.state = .finWait2 →
    c.state = .finWait2 ∧ c'.finWait2UntilMs = c.finWait2UntilMs ∨
      c.state ≠ .finWait2 ∧ inp ≠ none ∧ c'.finWait2UntilMs = some (satAdd nowMs config.finWait2Ms)
  timeWait : c'.state = .timeWait →
    c.state = .timeWait ∧ c'.timeWaitUntilMs = c.timeWaitUntilMs ∨
      c.state ≠ .timeWait ∧ inp ≠ none ∧ c'.timeWaitUntilMs = some (satAdd nowMs config.timeWaitMs)

/-- neither the state nor a deadline moves -/
theorem Later.same (h : c'.state = c.state) (h2 : c'.finWait2UntilMs = c.finWait2UntilMs)
    (h3 : c'.timeWaitUntilMs = c.timeWaitUntilMs) : Later config nowMs inp c c' :=
  ⟨.inl h, fun hs => .inl ⟨h ▸ hs, h2⟩, fun hs => .inl ⟨h ▸ hs, h3⟩⟩

theorem Later.refl (c : Connection P) : Later config nowMs inp c c := .same rfl rfl rfl

/-- forward to a state without a deadline -/
theorem Later.enter (h : c.state.rank < c'.state.rank) (h2 : c'.state ≠ .finWait2) (h3 : c'.state ≠ .timeWait) :
    Later config nowMs inp c c' := ⟨.inr h, fun hs => absurd hs h2, fun hs => absurd hs h3⟩

theorem Later.rank_le (h : Later config nowMs inp c c') : c.state.rank ≤ c'.state.rank := by
  rcases h.state with h | h
  · rw [h]
  · exact h.le

theorem Later.synchronized (h : Later config nowMs inp c c') (hst : c.Synchronized) : c'.Synchronized := by
  have hrank : ∀ {c : Connection P}, c.Synchronized ↔ 1 ≤ c.state.rank := fun {c} => by
    cases hs : c.state <;> simp [Synchronized, hs, State.rank]
  exact hrank.2 ((hrank.1 hst).trans h.rank_le)

/-- a state that was left is not entered again -/
theorem Later.not_again {s : State} (h : Later config nowMs inp c c1) (h' : c1.state.rank ≤ s.rank) (hs : c.state = s) :
    c1.state = s := by
  rcases h.state with h | h
  · exact h.trans hs
  · rw [hs] at h; omega

theorem Later.trans (h1 : Later config nowMs inp c c1) (h2 : Later config nowMs inp c1 c2) : Later config nowMs inp c c2 := by
  refine ⟨?_, fun hs => ?_, fun hs => ?_⟩
  · rcases h2.state with h | h
    · rw [h]; exact h1.state
    · exact .inr (lt_of_le_of_lt h1.rank_le h)
  · have hback := h1.not_again (s := .finWait2) (hs ▸ h2.rank_le)
    rcases h2.finWait2 hs with ⟨hs1, hd⟩ | ⟨hs1, hin, hd⟩
    · rw [hd]; exact h1.finWait2 hs1
    · exact .inr ⟨fun h => hs1 (hback h), hin, hd⟩
  · have hback := h1.not_again (s := .timeWait) (hs ▸ h2.rank_le)
    rcases h2.timeWait hs with ⟨hs1, hd⟩ | ⟨hs1, hin, hd⟩
    · rw [hd]; exact h1.timeWait hs1
    · exact .inr ⟨fun h => hs1 (hback h), hin, hd⟩

/-- from a connection with the same state and deadlines -/
theorem Later.from (h : Later config nowMs inp c1 c2) (h1 : c1.state = c.state) (h2 : c1.finWait2UntilMs = c.finWait2UntilMs)
    (h3 : c1.timeWaitUntilMs = c.timeWaitUntilMs) : Later config nowMs inp c c2 := (Later.same h1 h2 h3).trans h

theorem onRemoteFin_later (hin : inp ≠ none) : Later config nowMs inp c (c.onRemoteFin nowMs config) := by
  unfold onRemoteFin
  simp only
  split <;> rename_i h
  · refine .enter ?_ ?_ ?_ <;> simp [h, State.rank]
  · refine .enter ?_ ?_ ?_ <;> simp [h, State.rank]
  · refine ⟨.inr ?_, fun hs => ?_, fun _ => .inr ⟨?_, hin, rfl⟩⟩
    · simp [enterTimeWait, h, State.rank]
    · simp [enterTimeWait] at hs
    · simp [h]
  · exact .same rfl rfl rfl

theorem deliverChunk_later (hin : inp ≠ none) (x : ReassemblySegment) :
    Later config nowMs inp c (c.deliverChunk x nowMs config).1 := by
  unfold deliverChunk
  simp only
  split_ifs
  · exact .same rfl rfl rfl
  · exact (onRemoteFin_later hin).from rfl rfl rfl
  · exact .same rfl rfl rfl

theorem receiveStreamData_later (hin : inp ≠ none) (segment : Segment) :
    Later config nowMs inp c (c.receiveStreamData segment nowMs config).1 := by
  refine drainReassembly_invariant (I := fun c' => Later config nowMs inp c c') (fun c' hc => ?_) ?_
  · rcases c'.drainOnce_cases nowMs config with ⟨kept, -, -, h⟩ | ⟨x, l₁, l₂, -, -, -, h⟩ <;> rw [h]
    · exact hc.trans (.same rfl rfl rfl)
    · have hd : Later config nowMs inp { c' with reassembly := l₁ ++ l₂ } _ := deliverChunk_later hin (trimChunk c'.recvNxt x)
      exact hc.trans (hd.from rfl rfl rfl)
  · rcases c.insertReceived_cases segment.seq segment.payload (segment.flags.contains .FIN) config with
      h | ⟨chunk, -, -, h⟩ <;> rw [h] <;> exact .same rfl rfl rfl

theorem afterAck_later (hin : inp ≠ none) {ack : U32} (h : c.afterAck ack nowMs config = some c') :
    Later config nowMs inp c c' := by
  have hstate : (c.advanceAck ack nowMs).1.state = c.state := rfl
  unfold afterAck finAcked at h
  simp only [hstate] at h
  split_ifs at h
  · split at h <;> rename_i hs <;> cases h
    · refine ⟨.inr ?_, fun _ => .inr ⟨?_, hin, rfl⟩, fun hs => nomatch hs⟩ <;> simp [hs, State.rank]
    · refine ⟨.inr ?_, fun hs => ?_, fun _ => .inr ⟨?_, hin, rfl⟩⟩
      · simp [enterTimeWait, hs, State.rank]
      · simp [enterTimeWait] at hs
      · simp [hs]
    · exact .same rfl rfl rfl
  · cases h; exact .same rfl rfl rfl

/-- **Forward**, one primitive. -/
theorem Move.later (h : Move config nowMs inp c out c') : Later config nowMs inp c c' := by
  cases h with
  | establishClient segment hin hst =>
    have h := (c.establishClient_frame segment nowMs config).2.2.2
    refine .enter ?_ ?_ ?_ <;> simp [h, hst, State.rank]
  | establishServer segment hin hst =>
    have h := (c.establishServer_frame segment nowMs).2.2.2
    refine .enter ?_ ?_ ?_ <;> simp [h, hst, State.rank]
  | window segment => unfold updateRemoteWindow; split_ifs <;> exact .same rfl rfl rfl
  | timers => exact .same rfl rfl rfl
  | retransmit timeout =>
    rcases c.retransmitOldest_cases nowMs timeout with h | ⟨_, _, _, _, -, -, h⟩ <;> rw [h] <;> exact .same rfl rfl rfl
  | advanceAck c' segment ack hin hrst hack hst hadv h => exact afterAck_later (by simp [hin]) h
  | receive segment hin => exact receiveStreamData_later (by simp [hin]) segment
  | sendData => exact .same rfl rfl rfl
  | sendFin hst =>
    have hstate := c.sendFin_state nowMs
    rcases hst with hst | hst
    · rw [if_pos hst] at hstate
      refine .enter ?_ ?_ ?_ <;> simp [hstate, hst, State.rank]
    · rw [if_neg (by simp [hst])] at hstate
      refine .enter ?_ ?_ ?_ <;> simp [hstate, hst, State.rank]
  | probe =>
    rcases c.zeroWindowProbe_cases nowMs with ⟨x, -, -, h⟩ | ⟨-, ⟨-, h⟩ | ⟨-, h⟩⟩ <;> rw [h] <;> exact .same rfl rfl rfl
  | ack => exact .refl c
  | reset => exact .refl c
  | requestClose => exact .same rfl rfl rfl

theorem Moves.later (h : Moves config nowMs inp c out c') : Later config nowMs inp c c' :=
  h.preserves (Q := fun c' => Later config nowMs inp c c') (fun h hc => hc.trans h.later) (.refl c)

end Connection

/-- the time at which a connection is made -/
def Opening.time {P : Type} : Opening P → ℕ
  | .client _ _ _ _ nowMs _ | .server _ _ _ nowMs _ => nowMs

namespace Socket

variable {P : Type} {config : Config} {s : Socket P}

/-- **Forward**, one operation. -/
theorem step_later (hm : 0 < s.conn.mss) (op : SocketOp) (hr : (s.step config op).retained = true) :
    Connection.Later config op.time op.segment s.conn (s.step config op).conn := by
  have hret := retained_before hr
  obtain ⟨c, out, hprep, -, hmoves⟩ := step_moves hm hret op hr
  generalize (s.step config op).accepted = acc at hprep
  refine hmoves.later.from ?_ ?_ ?_ <;> cases hprep <;> rfl

end Socket

end FipsTcp
