/-
How far `send_una` advances, and what of a connection a marker depends on.

`send_una` wraps; `unaPosition` is how far it has come since the ISN. An operation may make several calls that could advance
it, but all of them are given the ACK number of the one segment it handles, so at most one does (`AdvancedBy`). Then the
position has grown by exactly the distance between the two values of `send_una` (`after_progress`), which is what an observer
of `send_una` adds up.
-/
import FipsTcp.Connection.Budget
import FipsTcp.Stack.Entries

namespace FipsTcp

open SendWindow Serial

namespace Connection

variable {P : Type} {config : Config} {nowMs : ℕ} {inp : Option Segment} {isn : U32} {acc : List U8} {c c' c1 c2 : Connection P}
  {out : List Segment} {o : SocketOp}

/-! ## The token -/

theorem applyAck_token (c : Connection P) (ack : U32) (nowMs : ℕ) (duplicate : Bool) :
    (c.applyAck ack nowMs duplicate).1.sendProgress.connectionToken = c.sendProgress.connectionToken := by
  refine applyAck_preserves (Q := fun c' => c'.sendProgress.connectionToken = c.sendProgress.connectionToken) c ack nowMs
    duplicate (fun _ _ _ => rfl) (fun duplicateAcks reno _ => ?_) rfl
  rcases retransmitOldest_cases { c with duplicateAcks, reno } nowMs false with h | ⟨_, _, _, _, -, -, h⟩ <;> rw [h]

/-- no primitive changes the token -/
theorem Move.token (h : Move config nowMs inp c out c') :
    c'.sendProgress.connectionToken = c.sendProgress.connectionToken := by
  cases h with
  | establishClient segment =>
    have h1 := congrArg SendProgress.connectionToken (c.updateRemoteWindow_progress segment.window nowMs)
    exact (applyAck_token _ _ nowMs false).trans h1
  | establishServer segment =>
    have h1 := congrArg SendProgress.connectionToken
      (updateRemoteWindow_progress (c.applyAck c.sendNxt nowMs false).1 segment.window nowMs)
    exact h1.trans (applyAck_token c _ nowMs false)
  | window segment => exact congrArg SendProgress.connectionToken (c.updateRemoteWindow_progress segment.window nowMs)
  | timers => rfl
  | retransmit timeout => rcases c.retransmitOldest_cases nowMs timeout with h | ⟨_, _, _, _, -, -, h⟩ <;> rw [h]
  | advanceAck c' segment ack hin hrst hack hst hadv h =>
    unfold afterAck finAcked at h
    simp only at h
    split_ifs at h
    · split at h <;> cases h <;> rfl
    · cases h; rfl
  | receive segment =>
    have h1 := (c.receiveStreamData_outgoing segment nowMs config).1
    change (c.receiveStreamData segment nowMs config).1.outgoing.sendProgress.connectionToken =
      c.outgoing.sendProgress.connectionToken
    rw [h1]
  | sendData => rfl
  | sendFin => rfl
  | probe =>
    rcases c.zeroWindowProbe_cases nowMs with ⟨x, -, -, h⟩ | ⟨-, ⟨-, h⟩ | ⟨-, h⟩⟩
    · rw [h]
    · rw [h]
    · rw [h]; rfl
  | ack => rfl
  | reset => rfl
  | requestClose => rfl

/-! ## One advance -/

/-- a primitive moves `send_una` to the ACK number of the segment, or not at all -/
theorem Move.una (h : Move config nowMs inp c out c') (hs : c.SendInv config isn acc) :
    c'.sendUna = c.sendUna ∨ ∃ segment, inp = some segment ∧ segment.ack = some c'.sendUna := by
  cases h with
  | establishClient segment hin hst hsyn hrst hack =>
    have hu := congrArg Sender.una (establishClient_sender hs.sender (by norm_num) hst segment nowMs config)
    exact .inr ⟨segment, hin, hack.trans (congrArg some hu.symm)⟩
  | establishServer segment hin hst hrst hack =>
    have hu := congrArg Sender.una (establishServer_sender hs.sender (by norm_num) hst segment nowMs)
    exact .inr ⟨segment, hin, hack.trans (congrArg some hu.symm)⟩
  | window segment => exact .inl (congrArg Sender.una (c.updateRemoteWindow_sender segment.window nowMs))
  | timers => exact .inl rfl
  | retransmit timeout => exact .inl (congrArg Sender.una (c.retransmitOldest_sender nowMs timeout))
  | advanceAck c' segment ack hin hrst hack hst hadv h =>
    exact .inr ⟨segment, hin, hack.trans (congrArg some (afterAck_una config nowMs h).symm)⟩
  | receive segment => exact .inl (congrArg Sender.una (c.receiveStreamData_sender segment nowMs config))
  | sendData => exact .inl rfl
  | sendFin => exact .inl rfl
  | probe =>
    rcases c.zeroWindowProbe_cases nowMs with ⟨x, -, -, h⟩ | ⟨-, ⟨-, h⟩ | ⟨-, h⟩⟩ <;> rw [h] <;> exact .inl rfl
  | ack => exact .inl rfl
  | reset => exact .inl rfl
  | requestClose => exact .inl rfl

/-- what the calls of one operation have done to `send_una`: nothing yet, or they have moved it to the ACK number -/
def AdvancedBy (inp : Option Segment) (c c' : Connection P) : Prop :=
  c'.sendUna = c.sendUna ∧ c'.unaPosition = c.unaPosition ∨
    (∃ segment, inp = some segment ∧ segment.ack = some c'.sendUna) ∧
      c'.unaPosition = c.unaPosition + distance c.sendUna c'.sendUna

theorem AdvancedBy.refl (c : Connection P) : AdvancedBy inp c c := .inl ⟨rfl, rfl⟩

theorem AdvancedBy.position (h : AdvancedBy inp c c') : c'.unaPosition = c.unaPosition + distance c.sendUna c'.sendUna := by
  rcases h with ⟨hu, hp⟩ | ⟨-, hp⟩
  · rw [hu, distance_eq_dist, dist_self, Nat.add_zero]
    exact hp
  · exact hp

/-- a second advance would have to go where the first one went -/
theorem AdvancedBy.move (h : AdvancedBy inp c c1) (hmove : Move config nowMs inp c1 out c2) (hs : c1.SendInv config isn acc) :
    AdvancedBy inp c c2 := by
  have hs2 := hmove.sendInv hs
  have hstep := (hmove.sender_step hs).advance hs.sender
  rw [← hs.unaPosition_eq, ← hs2.unaPosition_eq] at hstep
  rcases hstep with ⟨hu, hp⟩ | ⟨hne, hp⟩
  · have hu' : c2.sendUna = c1.sendUna := hu
    unfold AdvancedBy
    rw [hu', hp]
    exact h
  · have hto : ∃ segment, inp = some segment ∧ segment.ack = some c2.sendUna := (hmove.una hs).resolve_left hne
    rcases h with ⟨hu1, hp1⟩ | ⟨⟨segment, hin, hack⟩, -⟩
    · refine .inr ⟨hto, ?_⟩
      rw [hp, hp1, distance_eq_dist, ← hu1]
      rfl
    · obtain ⟨segment', hin', hack'⟩ := hto
      rw [hin, Option.some.injEq] at hin'
      rw [← hin', hack, Option.some.injEq] at hack'
      exact absurd hack'.symm hne

/-- what a sequence of calls for one segment does to what the markers depend on -/
theorem Moves.progress (h : Moves config nowMs inp c out c') (hs : c.SendInv config isn acc) :
    c'.sendProgress.connectionToken = c.sendProgress.connectionToken ∧
      c'.sendProgress.acceptedPayloadBytes = c.sendProgress.acceptedPayloadBytes ∧
      c'.unaPosition = c.unaPosition + distance c.sendUna c'.sendUna := by
  have hall := h.preserves (Q := fun x => x.SendInv config isn acc ∧
      x.sendProgress.connectionToken = c.sendProgress.connectionToken ∧ AdvancedBy inp c x)
    (fun hm ⟨h1, h2, h3⟩ => ⟨hm.sendInv h1, hm.token.trans h2, h3.move hm h1⟩) ⟨hs, rfl, .refl c⟩
  obtain ⟨hs', htoken, hadv⟩ := hall
  exact ⟨htoken, hs'.sender.count.trans hs.sender.count.symm, hadv.position⟩

/-- the bytes that an operation accepts from the application -/
def accepts (config : Config) (c : Connection P) : SocketOp → ℕ
  | .write bytes nowMs =>
    match c.write bytes nowMs config with
    | .error _ => 0
    | .ok (_, count, _) => count
  | _ => 0

/-- **Progress.** What an operation does to what the markers of a retained connection depend on. -/
theorem after_progress (hs : c.SendInv config isn acc) (h : c.after config o = some c') :
    c'.sendProgress.connectionToken = c.sendProgress.connectionToken ∧
      c'.sendProgress.acceptedPayloadBytes = c.sendProgress.acceptedPayloadBytes + c.accepts config o ∧
      c'.unaPosition = c.unaPosition + distance c.sendUna c'.sendUna := by
  cases o with
  | input segment nowMs =>
    simp only [Connection.after] at h
    split_ifs at h with hclosed
    cases h
    exact ((input_moves config nowMs segment hs.mss).1 (by simpa using hclosed)).progress hs
  | write bytes nowMs =>
    simp only [Connection.after] at h
    simp only [accepts]
    rcases hw : c.write bytes nowMs config with e | ⟨c1, count, out⟩ <;> rw [hw] at h <;> cases h
    · exact ⟨rfl, rfl, (AdvancedBy.refl c : AdvancedBy none c c).position⟩
    · obtain ⟨hst, -, hle, hroom, hmoves⟩ := write_moves config nowMs hs.mss hw
      have hlen : (bytes.take count).length = count := by rw [List.length_take]; omega
      obtain ⟨h1, h2, h3⟩ := hmoves.progress (hs.accept hst (by omega))
      refine ⟨h1, h2.trans ?_, h3⟩
      simp only [acceptBytes, SendProgress.accept, hlen]
  | read max =>
    cases h
    have hs1 : (c.consume (min max c.recvQueue.length)).SendInv config isn acc := ⟨hs.sender, hs.window, hs.mss, hs.buffer⟩
    exact (read_moves config 0 max).2.progress hs1
  | close nowMs =>
    simp only [Connection.after] at h
    split_ifs at h
    cases h
    exact (close_moves config nowMs hs.mss).1.progress hs
  | abort => cases h
  | poll nowMs =>
    simp only [Connection.after] at h
    split_ifs at h
    cases h
    exact (poll_moves config nowMs hs.mss).1.progress hs

/-- **The counter of acknowledged bytes and the sequence space.** The counter has reached a boundary if all the bytes before
it lie before `send_una`; byte `k` stands at position `k + 1`, behind the SYN. -/
theorem SendInv.acked_iff (hs : c.SendInv config isn acc) {boundary : ℕ}
    (hb : boundary ≤ c.sendProgress.acceptedPayloadBytes) :
    boundary ≤ c.sendProgress.ackedPayloadBytes ↔ ∀ k < boundary, k + 1 < c.unaPosition := by
  have hsum : c.sendProgress.ackedPayloadBytes + (bytes c.sender.flight).length + c.sendQueue.length = acc.length := hs.sender.sum
  have hcount : c.sendProgress.acceptedPayloadBytes = acc.length := hs.sender.count
  have hlast : (∀ k < boundary, k + 1 < c.unaPosition) ↔ boundary = 0 ∨ boundary < c.unaPosition := by
    refine ⟨fun h => ?_, fun h k hk => by omega⟩
    by_cases h0 : boundary = 0
    · exact .inl h0
    · have := h (boundary - 1) (by omega)
      exact .inr (by omega)
  rw [hlast, unaPosition]
  cases hp : c.state.phase with
  | opening =>
    -- nothing is accepted before the handshake completes
    have hfresh : acc = [] := hs.sender.fresh hp
    rw [hfresh, List.length_nil] at hsum hcount
    simp only
    omega
  | running => simp only; omega
  | closing => simp only; omega
  | closed =>
    have hshape := hs.sender.shape
    rw [show c.sender.phase = .closed from hp] at hshape
    have hflight : c.sender.flight = [] := hshape
    have hq : c.sendQueue = [] := (hs.sender.idle (by rw [show c.sender.phase = c.state.phase from rfl, hp]; simp)).1
    rw [hflight, hq] at hsum
    rw [bytes_nil, List.length_nil] at hsum
    simp only
    omega

end Connection

theorem Opening.unaPosition {P : Type} (o : Opening P) (config : Config) : (o.connection config).1.unaPosition = 0 := by
  have hp : (o.connection config).1.state.phase = .opening := by
    cases o with
    | client => rfl
    | server peer syn isn nowMs token => exact congrArg Sender.phase (Connection.updateRemoteWindow_sender _ syn.window nowMs)
  rw [Connection.unaPosition, hp]

end FipsTcp
