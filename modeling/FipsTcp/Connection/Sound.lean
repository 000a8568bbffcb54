/-
What a connection table relies on.

- `Steady`: both halves are in order, the timers are consistent, and nothing is left to send. Every operation of a retained
  connection keeps it (`Steady.input`, `Steady.write`, ...).
- `Sound`: the ports are not zero either. An operation then leaves the tuple of the connection alone and emits only segments
  that can be encoded (`Moves.encodes`), so that no error of the encoder ever reaches a caller.
-/
import FipsTcp.Connection.Timers

namespace FipsTcp

/-! ## Encoding -/

def Segment.Encodes (segment : Segment) : Prop := ∃ bytes, segment.encode = .ok bytes

/-- ports, an ACK number exactly with the ACK flag, and options that fit the header: then a segment is encoded -/
theorem Segment.encodes_of {segment : Segment} (hs : segment.srcPort ≠ 0) (hd : segment.dstPort ≠ 0)
    (hack : segment.flags.contains .ACK = segment.ack.isSome) (hlen : (segment.options.map TcpOption.encodedLen).sum ≤ 40)
    {options : List U8} (hopts : encodeOptions segment.options = .ok options) : segment.Encodes := by
  unfold Encodes encode
  have hheader : ¬ 60 < HEADER_LEN + ((segment.options.map TcpOption.encodedLen).sum + 3) / 4 * 4 := by
    have : HEADER_LEN = 20 := rfl
    omega
  rw [if_neg (not_or.2 ⟨hs, hd⟩), if_neg (not_not.2 hack)]
  simp only [if_neg hheader, hopts]
  exact ⟨_, rfl⟩

theorem buildSegment_encodes {header : SegmentHeader} (h1 : header.localPort ≠ 0) (h2 : header.remotePort ≠ 0)
    (payload : List U8) : (buildSegment header payload).Encodes := by
  have hack : (buildSegment header payload).flags.contains .ACK = (buildSegment header payload).ack.isSome := by
    unfold buildSegment
    cases header.flags.contains .ACK <;> simp
  have hopts : (buildSegment header payload).options =
      if header.flags.contains .SYN then [.maxSegmentSize header.mss, .fipsVersion FIPS_VERSION 0] else [] := rfl
  cases hf : header.flags.contains .SYN <;> simp only [hf, if_true, Bool.false_eq_true, if_false] at hopts
  · exact Segment.encodes_of h1 h2 hack (by rw [hopts]; decide) (by rw [hopts]; rfl)
  · refine Segment.encodes_of h1 h2 hack ?_ (by rw [hopts]; rfl)
    rw [hopts]
    simp [TcpOption.encodedLen]

theorem resetFor_encodes {segment : Segment} (h1 : segment.srcPort ≠ 0) (h2 : segment.dstPort ≠ 0) :
    (resetFor segment).Encodes := by
  unfold resetFor
  cases segment.ack with
  | none => exact Segment.encodes_of h2 h1 (by decide : (Flags.RST.union .ACK).contains .ACK = true) (Nat.zero_le _) rfl
  | some ack => exact Segment.encodes_of h2 h1 (by decide : Flags.RST.contains .ACK = false) (Nat.zero_le _) rfl

/-- a decoded segment has ports -/
theorem Segment.decode_ports {bytes : List U8} {segment : Segment} (h : Segment.decode bytes = .ok segment) :
    segment.srcPort ≠ 0 ∧ segment.dstPort ≠ 0 := by
  unfold Segment.decode at h
  simp only [bind, Except.bind, pure, Except.pure] at h
  split_ifs at h with h0 h1
  split at h
  · cases h
  · split at h <;> cases h
    exact not_or.1 h1

namespace Connection

variable {P : Type} {config : Config} {nowMs : ℕ} {inp : Option Segment} {c c' : Connection P} {out : List Segment}

/-! ## Frames -/

theorem Move.stable_eq (h : Move config nowMs inp c out c') : c'.stable = c.stable := by
  cases h with
  | establishClient segment => exact (c.establishClient_frame segment nowMs config).2.1
  | establishServer segment => exact (c.establishServer_frame segment nowMs).2.1
  | window segment => exact (c.updateRemoteWindow_frame segment.window nowMs).2.1
  | timers => rfl
  | retransmit timeout => exact (c.retransmitOldest_frame nowMs timeout).2.1
  | advanceAck c' segment ack hin hrst hseg hst hadv h => exact (afterAck_frame nowMs config h).2.1
  | receive segment => exact (outgoing_frame (c.receiveStreamData_outgoing segment nowMs config).1).2.2
  | sendData => rfl
  | sendFin => rfl
  | probe =>
    rcases c.zeroWindowProbe_cases nowMs with ⟨x, -, -, h⟩ | ⟨-, ⟨-, h⟩ | ⟨-, h⟩⟩ <;> rw [h] <;> rfl
  | ack => rfl
  | reset => rfl
  | requestClose => rfl

theorem Moves.stable_eq (h : Moves config nowMs inp c out c') : c'.stable = c.stable :=
  h.preserves (Q := fun c' => c'.stable = c.stable) (fun h hc => h.stable_eq.trans hc) rfl

/-- the ports of a connection, or of a decoded segment -/
def Ported (c : Connection P) : Prop := c.localPort ≠ 0 ∧ c.remotePort ≠ 0

theorem Ported.of_stable (h : c.Ported) (hs : c'.stable = c.stable) : c'.Ported := by
  have h1 : c'.localPort = c.localPort := congrArg Stable.localPort hs
  have h2 : c'.remotePort = c.remotePort := congrArg Stable.remotePort hs
  exact ⟨h1 ▸ h.1, h2 ▸ h.2⟩

theorem Move.encodes (h : Move config nowMs inp c out c') (hp : c.Ported)
    (hin : ∀ segment, inp = some segment → segment.srcPort ≠ 0 ∧ segment.dstPort ≠ 0) :
    ∀ segment ∈ out, segment.Encodes := by
  have hbuilt : ∀ (c : Connection P) (seq : U32) (flags : Flags) (payload : List U8), c.Ported →
      (buildSegment (c.header seq flags) payload).Encodes := fun c seq flags payload hp => buildSegment_encodes hp.1 hp.2 payload
  have hone : ∀ {a : Segment}, a.Encodes → ∀ segment ∈ [a], segment.Encodes := fun ha segment hs => by
    rw [List.mem_singleton] at hs; exact hs ▸ ha
  have hp' := hp.of_stable h.stable_eq
  cases h with
  | establishClient => exact fun _ h => nomatch h
  | establishServer => exact fun _ h => nomatch h
  | window => exact fun _ h => nomatch h
  | timers => exact fun _ h => nomatch h
  | advanceAck => exact fun _ h => nomatch h
  | requestClose => exact fun _ h => nomatch h
  | retransmit timeout =>
    rcases c.retransmitOldest_cases nowMs timeout with h | ⟨tracked, rest, transmissions, dups, -, -, h⟩ <;> rw [h]
    · exact fun _ h => nomatch h
    · exact hone (hbuilt c _ _ _ hp)
  | receive segment => exact hone (hbuilt _ _ _ _ hp')
  | sendData count => exact hone (hbuilt { c with sendQueue := c.sendQueue.drop count, sendNxt := _ } _ _ _ hp)
  | sendFin => exact hone (hbuilt { c with closeRequested := false, state := _, sendNxt := _ } _ _ _ hp)
  | probe =>
    rcases c.zeroWindowProbe_cases nowMs with ⟨x, -, -, h⟩ | ⟨-, ⟨-, h⟩ | ⟨-, h⟩⟩ <;> rw [h]
    · exact hone (hbuilt c _ _ _ hp)
    · exact fun _ h => nomatch h
    · exact hone (hbuilt { c with sendQueue := c.sendQueue.drop 1, sendNxt := _ } _ _ _ hp)
  | ack => exact hone (hbuilt c _ _ _ hp)
  | reset segment hin' => exact hone (resetFor_encodes (hin segment hin').1 (hin segment hin').2)

/-- **What an operation emits can be encoded.** -/
theorem Moves.encodes (h : Moves config nowMs inp c out c') (hp : c.Ported)
    (hin : ∀ segment, inp = some segment → segment.srcPort ≠ 0 ∧ segment.dstPort ≠ 0) :
    ∀ segment ∈ out, segment.Encodes := by
  induction h with
  | refl c => exact fun _ h => nomatch h
  | cons hm _ ih =>
    intro segment hs
    rcases List.mem_append.1 hs with hs | hs
    · exact hm.encodes hp hin segment hs
    · exact ih (hp.of_stable hm.stable_eq) segment hs

/-! ## Steadiness -/

/-- between two operations: both halves are in order, the timers are consistent, and nothing is left to send -/
structure Steady (config : Config) (c : Connection P) : Prop where
  inv : ∃ isn acc, Socket.Inv config isn acc c
  timed : c.Timed config
  settled : c.Settled

theorem Steady.mss (h : c.Steady config) : 0 < c.mss := by
  obtain ⟨_, _, hi⟩ := h.inv
  exact hi.send.mss

/-- the result of an operation that is a sequence of moves and ends settled -/
theorem Steady.moves (hv : config.Valid) (h : c.Steady config) (hm : Moves config nowMs inp c out c') (hs : c'.Settled) :
    c'.Steady config := by
  obtain ⟨isn, acc, hi⟩ := h.inv
  exact ⟨⟨isn, acc, hm.preserves (fun h hi => hi.move hv h) hi⟩, h.timed.moves hv hm, hs⟩

section Steady

variable (hv : config.Valid) (h : c.Steady config)
include hv h

theorem Steady.input (segment : Segment) (nowMs : ℕ) (ho : (c.input segment nowMs config).2.closed = false) :
    (c.input segment nowMs config).1.Steady config := by
  obtain ⟨isn, acc, hi⟩ := h.inv
  exact h.moves hv ((input_moves config nowMs segment h.mss).1 ho) (input_settled hi.send h.settled segment nowMs ho)

theorem Steady.write {bytes : List U8} {count : ℕ} (hw : c.write bytes nowMs config = .ok (c', count, out)) :
    c'.Steady config := by
  obtain ⟨hst, -, -, hroom, hm⟩ := write_moves config nowMs h.mss hw
  obtain ⟨isn, acc, hi⟩ := h.inv
  have hacc : Socket.Inv config isn (acc ++ bytes.take count) (c.acceptBytes (bytes.take count)) :=
    ⟨hi.send.accept hst (by rw [List.length_take]; omega), hi.recv.of_frame rfl rfl id rfl⟩
  have ht : (c.acceptBytes (bytes.take count)).Timed config := ⟨h.timed.rtt, h.timed.reno, h.timed.probe, h.timed.budget⟩
  exact ⟨⟨isn, _, hm.preserves (fun h hi => hi.move hv h) hacc⟩, ht.moves hv hm, write_settled h.mss hw⟩

theorem Steady.read (max : ℕ) : (c.read max).1.Steady config := by
  obtain ⟨-, hm⟩ := read_moves config 0 (c := c) max
  obtain ⟨isn, acc, hi⟩ := h.inv
  have hcons : Socket.Inv config isn acc (c.consume (min max c.recvQueue.length)) :=
    ⟨⟨hi.send.sender, hi.send.window, hi.send.mss, hi.send.buffer⟩, hi.recv.consume _⟩
  have ht : (c.consume (min max c.recvQueue.length)).Timed config := ⟨h.timed.rtt, h.timed.reno, h.timed.probe, h.timed.budget⟩
  exact ⟨⟨isn, acc, hm.preserves (fun h hi => hi.move hv h) hcons⟩, ht.moves hv hm, read_settled h.settled max⟩

theorem Steady.close (nowMs : ℕ) : (c.close nowMs).1.Steady config :=
  h.moves hv (close_moves config nowMs h.mss).1 (close_settled h.mss h.settled nowMs)

theorem Steady.poll (nowMs : ℕ) (ho : (c.poll nowMs config).2.closed = false) : (c.poll nowMs config).1.Steady config :=
  h.moves hv (poll_moves config nowMs h.mss).1 (poll_settled hv h.timed h.settled h.mss nowMs ho)

end Steady

/-- a new connection is steady -/
theorem steady_opening (hv : config.Valid) : ∀ o : Opening P, (o.connection config).1.Steady config
  | .client peer localPort remotePort isn nowMs token => by
    refine ⟨⟨isn, [], (Opening.client peer localPort remotePort isn nowMs token).sendInv hv, Opening.recvInv _⟩, ?_, ?_⟩
    · refine ⟨RttEstimator.new_inBounds hv, Nat.pos_of_ne_zero fun h0 => hv.mss_pos (BitVec.eq_of_toNat_eq h0), fun hw => ?_, rfl⟩
      exact absurd hw (by decide : (65535 : ℕ) ≠ 0)
    · exact settled_of_not_sending fun hs => by rcases hs with hs | hs <;> cases hs
  | .server peer syn isn nowMs token => by
    have hnew : (new peer syn.dstPort syn.srcPort .synReceived isn (syn.seq + 1) config token).Timed config := by
      refine ⟨RttEstimator.new_inBounds hv, Nat.pos_of_ne_zero fun h0 => hv.mss_pos (BitVec.eq_of_toNat_eq h0), fun hw => ?_, rfl⟩
      exact absurd hw (by decide : (65535 : ℕ) ≠ 0)
    have ht := (hnew.window syn.window nowMs).negotiateMss syn config
    obtain ⟨-, -, -, hst⟩ := (new peer syn.dstPort syn.srcPort .synReceived isn (syn.seq + 1) config
      token).updateRemoteWindow_frame syn.window nowMs
    refine ⟨⟨isn, [], (Opening.server peer syn isn nowMs token).sendInv hv, Opening.recvInv _⟩,
      ⟨ht.rtt, ht.reno, ht.probe, ht.budget⟩, settled_of_not_sending fun hs => ?_⟩
    rcases hs with hs | hs <;> cases hst.symm.trans hs

/-! ## Soundness -/

structure Sound (config : Config) (c : Connection P) : Prop extends Steady config c where
  ports : c.Ported

/-- an operation that keeps the connection: sound again, the same tuple, and every segment can be encoded -/
structure Kept (config : Config) (c : Connection P) (out : List Segment) (c' : Connection P) : Prop where
  sound : c'.Sound config
  key : c'.stable = c.stable
  encodes : ∀ segment ∈ out, segment.Encodes

/-- what follows once the connection is steady again: `c0` is the connection as the application left it -/
theorem Sound.kept (h : c.Sound config) (c0 : Connection P) (h0 : c0.stable = c.stable) (hs : c'.Steady config)
    (hm : Moves config nowMs inp c0 out c')
    (hin : ∀ segment, inp = some segment → segment.srcPort ≠ 0 ∧ segment.dstPort ≠ 0) : Kept config c out c' :=
  ⟨⟨hs, h.ports.of_stable (hm.stable_eq.trans h0)⟩, hm.stable_eq.trans h0, hm.encodes (h.ports.of_stable h0) hin⟩

variable (hv : config.Valid) (h : c.Sound config)
include hv h

theorem Sound.input {segment : Segment} (hp : segment.srcPort ≠ 0 ∧ segment.dstPort ≠ 0) (nowMs : ℕ) :
    ((c.input segment nowMs config).2.closed = false →
        Kept config c (c.input segment nowMs config).2.segments (c.input segment nowMs config).1) ∧
      ((c.input segment nowMs config).2.closed = true →
        (c.input segment nowMs config).2.segments = [] ∧ (c.input segment nowMs config).1.stable = c.stable) := by
  obtain ⟨hopen, hclosed⟩ := input_moves config nowMs segment h.mss
  refine ⟨fun ho => h.kept c rfl (h.toSteady.input hv segment nowMs ho) (hopen ho) fun x hx => ?_, fun hc => ?_⟩
  · cases hx; exact hp
  · obtain ⟨hout, hrem⟩ := hclosed hc
    refine ⟨hout, ?_⟩
    generalize (c.input segment nowMs config).1 = c' at hrem
    cases hrem with
    | reset => rfl
    | lastAck c' hl =>
      obtain ⟨-, -, ack, -, -, -, rfl⟩ := hl
      rfl

theorem Sound.write {bytes : List U8} {count : ℕ} (hw : c.write bytes nowMs config = .ok (c', count, out)) :
    Kept config c out c' := by
  obtain ⟨-, -, -, -, hm⟩ := write_moves config nowMs h.mss hw
  exact h.kept (c.acceptBytes _) rfl (h.toSteady.write hv hw) hm fun _ hx => nomatch hx

theorem Sound.read (max : ℕ) : Kept config c (c.read max).2.2 (c.read max).1 :=
  h.kept (c.consume _) rfl (h.toSteady.read hv max) (read_moves config 0 max).2 fun _ hx => nomatch hx

theorem Sound.close (nowMs : ℕ) : Kept config c (c.close nowMs).2.segments (c.close nowMs).1 :=
  h.kept c rfl (h.toSteady.close hv nowMs) (close_moves config nowMs h.mss).1 fun _ hx => nomatch hx

theorem Sound.poll (nowMs : ℕ) :
    ((c.poll nowMs config).2.closed = false →
        Kept config c (c.poll nowMs config).2.segments (c.poll nowMs config).1) ∧
      (c.poll nowMs config).1.stable = c.stable := by
  have hm := (poll_moves config nowMs h.mss).1
  exact ⟨fun ho => h.kept c rfl (h.toSteady.poll hv nowMs ho) hm fun _ hx => (nomatch hx), hm.stable_eq⟩

omit h in
theorem sound_client (peer : P) {localPort remotePort : U16} (hl : localPort ≠ 0) (hr : remotePort ≠ 0) (isn : U32)
    (nowMs token : ℕ) :
    let result := client peer localPort remotePort isn nowMs config token
    result.1.Sound config ∧ result.1.peer = peer ∧ result.1.localPort = localPort ∧ result.1.remotePort = remotePort ∧
      ∀ segment ∈ result.2, segment.Encodes := by
  refine ⟨⟨steady_opening hv (.client peer localPort remotePort isn nowMs token), hl, hr⟩, rfl, rfl, rfl, ?_⟩
  intro segment hs
  rw [List.mem_singleton.1 hs]
  exact buildSegment_encodes hl hr []

omit h in
theorem sound_server (peer : P) {syn : Segment} (hp : syn.srcPort ≠ 0 ∧ syn.dstPort ≠ 0) (isn : U32) (nowMs token : ℕ) :
    let result := server peer syn isn nowMs config token
    result.1.Sound config ∧ result.1.peer = peer ∧ result.1.localPort = syn.dstPort ∧
      result.1.remotePort = syn.srcPort ∧ ∀ segment ∈ result.2, segment.Encodes := by
  obtain ⟨-, hs, -, -⟩ := (new peer syn.dstPort syn.srcPort .synReceived isn (syn.seq + 1) config
    token).updateRemoteWindow_frame syn.window nowMs
  simp only [stable, Stable.mk.injEq] at hs
  obtain ⟨h1, h2, h3, -, -⟩ := hs
  refine ⟨⟨steady_opening hv (.server peer syn isn nowMs token), h2.symm ▸ hp.2, h3.symm ▸ hp.1⟩, h1, h2, h3, ?_⟩
  intro segment hseg
  rw [List.mem_singleton.1 hseg]
  exact buildSegment_encodes (h2.symm ▸ hp.2) (h3.symm ▸ hp.1) []

end Connection

end FipsTcp
