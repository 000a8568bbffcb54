/-
`connect`, and when it fails.

`allocate_ephemeral_port` tries the ports from its cursor on, and one round of the cursor visits each of the ports 49152..65535
once (`ports_visited`), so it finds a free port if there is one (`firstFree_none`). The cursor is moved by `connect` only, and
stays in the range (`cursor_run`).
- `allocateLoop_eq`: the loop is a search along the cursor's round;
- `connect_free`: a connect fails for want of a free port or of room, and for nothing else; what it makes is new.
-/
import FipsTcp.Lib.Cursor
import FipsTcp.Stack.Abort

namespace FipsTcp

open Table Connection

namespace Stack

variable {P : Type} [DecidableEq P]

/-- a port of the range of `connect` -/
def Ephemeral (port : U16) : Prop := 49152 ≤ port.toNat

/-- the cursor after a port -/
def nextPort (port : U16) : U16 := if port = 65535 then 49152 else port + 1

/-- a port of the range that is not in use for a peer and its port -/
def FreePort (s : Stack P) (peer : P) (remotePort port : U16) : Prop :=
  Ephemeral port ∧ (⟨peer, port, remotePort⟩ : ConnectionKey P) ∉ s.lookup

/-- the first free port of some steps of the cursor -/
def firstFree (s : Stack P) (peer : P) (remotePort : U16) (attempts : ℕ) : Option U16 :=
  (List.iterate nextPort s.nextEphemeralPort attempts).find? fun port =>
    (⟨peer, port, remotePort⟩ : ConnectionKey P) ∉ s.lookup

/-- a queued SYN of a tuple, with its two options -/
structure QueuedSyn (config : ValidConfig) (key : ConnectionKey P) (o : Outbound P) : Prop where
  tuple : o.tuple = some key
  read : ∃ syn, Segment.decode o.bytes = .ok syn ∧ syn.flags = .SYN ∧ syn.ack = none ∧ syn.payload = [] ∧
    syn.options = [.maxSegmentSize config.1.mss, .fipsVersion FIPS_VERSION 0]

/-- what a connect that succeeds leaves -/
structure Connected (s : Stack P) (peer : P) (remotePort : U16) (id : ConnectionId) (s' : Stack P) : Prop where
  fresh : id ∉ s.connections
  made : ∃ localPort c, s.FreePort peer remotePort localPort ∧ c.key = ⟨peer, localPort, remotePort⟩ ∧ c.state = .synSent ∧
    s'.connections = s.connections.insert id c ∧ s'.lookup = s.lookup.insert c.key id ∧
    ∃ o, s'.outbound = s.outbound ++ [o] ∧ QueuedSyn s.config c.key o

/-- when a connect succeeds, and what it leaves -/
structure Connects (s : Stack P) (peer : P) (remotePort : U16) (nowMs : ℕ) : Prop where
  /-- there is room for the peer, and a free port -/
  succeeds : (∃ id, (s.connect peer remotePort nowMs).2 = .ok id) ↔
    s.ensureConnectionCapacity peer = .ok () ∧ ∃ port, s.FreePort peer remotePort port
  made : ∀ id, (s.connect peer remotePort nowMs).2 = .ok id → s.Connected peer remotePort id (s.connect peer remotePort nowMs).1
  /-- in particular never `ConnectionExists` -/
  fails : ∀ e, (s.connect peer remotePort nowMs).2 = .error e → e = .noEphemeralPort ∨ e = .connectionLimit
  /-- no entry of the index is lost, also when it fails -/
  keeps : ∀ key id, s.lookup.lookup key = some id → (s.connect peer remotePort nowMs).1.lookup.lookup key = some id

variable {s s' : Stack P} {id : ConnectionId} {c : Connection P} {config : ValidConfig} {peer : P} {localPort remotePort : U16}
  {nowMs : ℕ}

theorem Ephemeral.ne_zero (h : Ephemeral localPort) : localPort ≠ 0 := by
  rintro rfl
  exact absurd h (by decide : ¬ 49152 ≤ (0 : U16).toNat)

/-! ## The search for a port -/

theorem nextPort_rounds : Cursor.Rounds BitVec.toNat 49152 16384 nextPort where
  injective _ _ := BitVec.eq_of_toNat_eq
  step port := by
    unfold nextPort Cursor.next
    have hlt := port.isLt
    by_cases h : port = 65535
    · subst h
      rfl
    · have hne : port.toNat ≠ 65535 := fun hp => h (BitVec.eq_of_toNat_eq hp)
      rw [if_neg h, if_neg (by omega), BitVec.toNat_add, Nat.mod_eq_of_lt]
      · rfl
      · have h1 : (1 : U16).toNat = 1 := rfl
        omega

/-- **One round of the cursor** visits every port of the range, and each once. -/
theorem ports_visited {cursor : U16} (h : Ephemeral cursor) :
    (List.iterate nextPort cursor 16384).Nodup ∧ ∀ port, port ∈ List.iterate nextPort cursor 16384 ↔ Ephemeral port := by
  obtain ⟨k, hk⟩ := Nat.exists_eq_add_of_le h
  have hlt := cursor.isLt
  have hk' : k < 16384 := by omega
  refine ⟨nextPort_rounds.nodup hk hk', fun port => (nextPort_rounds.mem_iff hk hk').trans ?_⟩
  exact and_iff_left port.isLt

theorem firstFree_some (h : s.firstFree peer remotePort 16384 = some localPort) (hs : Ephemeral s.nextEphemeralPort) :
    s.FreePort peer remotePort localPort := by
  have hfree := List.find?_some h
  exact ⟨((ports_visited hs).2 _).1 (List.mem_of_find?_eq_some h), of_decide_eq_true hfree⟩

/-- **The search is complete.** -/
theorem firstFree_none (h : s.firstFree peer remotePort 16384 = none) (hs : Ephemeral s.nextEphemeralPort) (port : U16) :
    ¬ s.FreePort peer remotePort port := by
  rintro ⟨hport, hfree⟩
  have hused := List.find?_eq_none.1 h port (((ports_visited hs).2 port).2 hport)
  exact hused (decide_eq_true hfree)

/-- the loop takes the first free port, and leaves the cursor in the range -/
theorem allocateLoop_eq (peer : P) (remotePort : U16) (attempts : ℕ) (s : Stack P) (hs : Ephemeral s.nextEphemeralPort) :
    (allocateEphemeralPortLoop peer remotePort attempts s).2 =
      (s.firstFree peer remotePort attempts).elim (.error .noEphemeralPort) .ok ∧
    Ephemeral (allocateEphemeralPortLoop peer remotePort attempts s).1.nextEphemeralPort := by
  induction attempts generalizing s with
  | zero => exact ⟨rfl, hs⟩
  | succ attempts ih =>
    have hnext : Ephemeral (nextPort s.nextEphemeralPort) := by
      refine ((ports_visited hs).2 _).1 (List.mem_iterate.2 ⟨1, by decide, rfl⟩)
    rw [firstFree, List.iterate, List.find?_cons, allocateEphemeralPortLoop]
    by_cases hkey : (⟨peer, s.nextEphemeralPort, remotePort⟩ : ConnectionKey P) ∈ s.lookup
    · rw [if_pos hkey]
      simp only [hkey, not_true, decide_false]
      exact ih { s with nextEphemeralPort := nextPort s.nextEphemeralPort } hnext
    · rw [if_neg hkey]
      simp only [hkey, not_false_iff, decide_true, Option.elim_some]
      exact ⟨trivial, hnext⟩

/-! ## The cursor -/

/-- the other calls leave the cursor alone -/
theorem call_cursor (hs : s.AllSound) {op : StackOp P} {result : Except Failure Unit} (h : s.Call op s' result)
    (hop : ∀ peer remotePort nowMs, op ≠ .connect peer remotePort nowMs)
    (hop' : ∀ peer localPort remotePort isn nowMs, op ≠ .connectFromWithIsn peer localPort remotePort isn nowMs) :
    s'.nextEphemeralPort = s.nextEphemeralPort := by
  cases h with
  | connectRefused => exact absurd rfl (hop _ _ _)
  | connected _ _ _ _ _ _ _ _ hcalled =>
    rcases hcalled with rfl | rfl
    · exact absurd rfl (hop _ _ _)
    · exact absurd rfl (hop' _ _ _ _ _)
  | handled =>
    unfold onRetained
    simp only
    split_ifs <;> rfl
  | closed => split_ifs <;> rfl
  | accepted port =>
    unfold accept
    cases s.accepts.lookup port <;> rfl
  | abortedPeer peer ids => rw [abortAll_rest hs ids]
  | polled ids nowMs =>
    obtain ⟨connections, lookup, outbound, h⟩ := poll_frame ids nowMs s
    rw [h]
  | refused | listened | closedListener | malformed | stale | ignored | rejected | opened | reset | challenged | wrote | read
  | aborted | unpolled | unabortedPeer | reserved | drained => rfl

theorem connectFromWithIsn_cursor (s : Stack P) (peer : P) (localPort remotePort : U16) (isn : U32) (nowMs : ℕ) :
    (s.connectFromWithIsn peer localPort remotePort isn nowMs).1.nextEphemeralPort = s.nextEphemeralPort := by
  rcases connectFromWithIsn_cases s peer localPort remotePort isn nowMs with ⟨e, h, -⟩ | ⟨hl, hr, hcap, hkey⟩
  · rw [h]
  · rw [connectFromWithIsn_eq hl hr hcap hkey]
    rfl

theorem connect_cursor (h : Ephemeral s.nextEphemeralPort) (peer : P) (remotePort : U16) (nowMs : ℕ) :
    Ephemeral (s.connect peer remotePort nowMs).1.nextEphemeralPort := by
  have hcursor := (allocateLoop_eq peer remotePort 16384 s h).2
  unfold connect allocateEphemeralPort
  generalize allocateEphemeralPortLoop peer remotePort 16384 s = found at hcursor ⊢
  obtain ⟨s1, e | port⟩ := found
  · exact hcursor
  · simp only
    rw [connectFromWithIsn_cursor]
    exact hcursor

theorem outcome_fst {α : Type} (r : Stack P × Except StackError α) : (outcome r).1 = r.1 := by
  obtain ⟨s, e | a⟩ := r <;> rfl

/-- **The cursor stays in the range**, one operation. -/
theorem Ephemeral.perform (hs : s.AllSound) (h : Ephemeral s.nextEphemeralPort) (op : StackOp P) :
    Ephemeral (s.perform op).1.nextEphemeralPort := by
  by_cases hconnect : ∃ peer remotePort nowMs, op = .connect peer remotePort nowMs
  · obtain ⟨peer, remotePort, nowMs, rfl⟩ := hconnect
    rw [Stack.perform, outcome_fst]
    exact connect_cursor h peer remotePort nowMs
  by_cases hfrom : ∃ peer localPort remotePort isn nowMs, op = .connectFromWithIsn peer localPort remotePort isn nowMs
  · obtain ⟨peer, localPort, remotePort, isn, nowMs, rfl⟩ := hfrom
    rw [Stack.perform, outcome_fst, connectFromWithIsn_cursor]
    exact h
  · rw [call_cursor hs (perform_call hs op) (fun _ _ _ hop => hconnect ⟨_, _, _, hop⟩) fun _ _ _ _ _ hop => hfrom ⟨_, _, _, _, _, hop⟩]
    exact h

/-- **The cursor stays in the range**, every run. -/
theorem cursor_run (h : s.Reachable config) : Ephemeral s.nextEphemeralPort := by
  obtain ⟨isnSeed, token, ops, h0, rfl, -⟩ := h
  refine (Run.exec_invariant (P := fun s : Stack P => s.AllSound ∧ Ephemeral s.nextEphemeralPort) (fun s op ⟨hs, hi⟩ => ?_)
    ⟨(Orderly.new config isnSeed h0).genuine.sound, (by decide : (49152 : ℕ) ≤ (49152 : U16).toNat)⟩ ops).2
  exact ⟨(turn_sound hs op).1, Ephemeral.perform (s := s.elsewhere op.1) hs hi op.2⟩

/-! ## What a connect does -/

/-- the SYN of a new connection, as it is queued -/
theorem queuedSyn_client (config : ValidConfig) (peer : P) (hl : localPort ≠ 0) (hr : remotePort ≠ 0) (isn : U32) (nowMs token : ℕ) : ∃ o,
    (client peer localPort remotePort isn nowMs config.1 token).2.map (datagram peer) = [o] ∧
      QueuedSyn config ⟨peer, localPort, remotePort⟩ o := by
  have haddr := opening_addressed config.1 (.client peer localPort remotePort isn nowMs token)
  obtain ⟨-, -, -, -, henc⟩ := sound_client config.valid peer hl hr isn nowMs token
  obtain ⟨syn, hsyn⟩ : ∃ syn, (client peer localPort remotePort isn nowMs config.1 token).2 = [syn] := ⟨_, rfl⟩
  have hmem : syn ∈ (client peer localPort remotePort isn nowMs config.1 token).2 := hsyn ▸ List.mem_singleton_self syn
  obtain ⟨bytes, hd, hdec⟩ := datagram_decode peer (henc syn hmem) (haddr syn hmem).plain
  refine ⟨datagram peer syn, by rw [hsyn]; rfl, ⟨?_, ?_⟩⟩
  · exact belongsTo_iff.1 (addressed_belongsTo (haddr syn hmem) (henc syn hmem))
  · rw [hd]
    refine ⟨syn, hdec, ?_⟩
    obtain rfl : _ = syn := List.singleton_injective hsyn
    have hmss : BitVec.ofNat 16 config.1.mss.toNat = config.1.mss := by rw [BitVec.ofNat_toNat, BitVec.setWidth_eq]
    refine ⟨rfl, if_neg (by decide : ¬ Flags.SYN.contains .ACK = true), rfl, ?_⟩
    refine (if_pos (by decide : Flags.SYN.contains .SYN = true)).trans ?_
    exact congrArg (fun mss => [TcpOption.maxSegmentSize mss, .fipsVersion FIPS_VERSION 0]) hmss

theorem connected_create (hs : s.Orderly config) (hfree : s.FreePort peer remotePort localPort) (hr : remotePort ≠ 0)
    (port : U16) (isn : U32) (cursor : BitVec 64) : s.Connected peer remotePort s.nextId ((s.moveCursors port cursor).create
      (client peer localPort remotePort isn nowMs s.config.1 s.nextConnectionToken).1
      (client peer localPort remotePort isn nowMs s.config.1 s.nextConnectionToken).2) where
  fresh := Finmap.lookup_eq_none.1 hs.numbered.fresh
  made := by
    obtain ⟨o, ho, hsyn⟩ := queuedSyn_client s.config peer hfree.1.ne_zero hr isn nowMs s.nextConnectionToken
    exact ⟨localPort, _, hfree, rfl, rfl, rfl, rfl, o, congrArg (s.outbound ++ ·) ho, hsyn⟩

/-- a connect that fails -/
theorem connects_error {e : StackError} (h : s.connect peer remotePort nowMs = (s', .error e)) (hlookup : s'.lookup = s.lookup)
    (he : e = .noEphemeralPort ∨ e = .connectionLimit)
    (hno : s.ensureConnectionCapacity peer = .ok () → ∀ port, ¬ s.FreePort peer remotePort port) :
    s.Connects peer remotePort nowMs := by
  constructor <;> rw [h]
  · constructor
    · rintro ⟨id, hid⟩
      cases hid
    · rintro ⟨hcap, port, hfree⟩
      exact absurd hfree (hno hcap port)
  · intro id hid
    cases hid
  · intro e' he'
    cases he'
    exact he
  · intro key id hkey
    rw [hlookup]
    exact hkey

/-- a connect that makes a connection -/
theorem connects_ok (h : s.connect peer remotePort nowMs = (s', .ok id)) (hcap : s.ensureConnectionCapacity peer = .ok ())
    (hfree : s.FreePort peer remotePort localPort) (hmade : s.Connected peer remotePort id s') : s.Connects peer remotePort nowMs := by
  constructor <;> rw [h]
  · exact iff_of_true ⟨id, rfl⟩ ⟨hcap, localPort, hfree⟩
  · intro id' hid
    cases hid
    exact hmade
  · intro e he
    cases he
  · intro key i hkey
    obtain ⟨port, c, hport, hk, -, -, hlookup, -⟩ := hmade.made
    rw [hlookup]
    refine (Finmap.lookup_insert_of_ne _ ?_).trans hkey
    rintro rfl
    rw [hk] at hkey
    exact hport.2 (Finmap.mem_of_lookup_eq_some hkey)

/-- from the port that the search found -/
theorem connects_from (hs : s.Orderly config) (hr : remotePort ≠ 0) (hfree : s.FreePort peer remotePort localPort) {port : U16}
    {isn : U32} {cursor : BitVec 64}
    (h : s.connect peer remotePort nowMs = (s.moveCursors port cursor).connectFromWithIsn peer localPort remotePort isn nowMs) :
    s.Connects peer remotePort nowMs := by
  have hkey : (⟨peer, localPort, remotePort⟩ : ConnectionKey P) ∉ (s.moveCursors port cursor).lookup := hfree.2
  cases hcap : s.ensureConnectionCapacity peer with
  | error e =>
    have hmoved : (s.moveCursors port cursor).ensureConnectionCapacity peer = .error e := hcap
    rw [connectFromWithIsn, if_neg (not_or.2 ⟨hfree.1.ne_zero, hr⟩), hmoved] at h
    refine connects_error h rfl (.inr (capacity_limit hcap)) ?_
    intro hok
    rw [hcap] at hok
    cases hok
  | ok u =>
    have hmoved : (s.moveCursors port cursor).ensureConnectionCapacity peer = .ok () := hcap
    rw [connectFromWithIsn_eq hfree.1.ne_zero hr hmoved hkey] at h
    exact connects_ok h hcap hfree (connected_create hs hfree hr port isn cursor)

end Stack

/-- **Connecting.** In every reachable stack a connect succeeds if and only if there is room for the peer and a free port in the
range; the connection it makes is new, and what it fails with is one of the two. -/
theorem connect_free {P : Type} [DecidableEq P] {config : ValidConfig} {s : Stack P} (hs : s.Reachable config) (peer : P)
    {remotePort : U16} (hr : remotePort ≠ 0) (nowMs : ℕ) : s.Connects peer remotePort nowMs := by
  have hcursor := Stack.cursor_run hs
  have halloc := (Stack.allocateLoop_eq peer remotePort 16384 s hcursor).1
  obtain ⟨port, ⟨e, hport, hc⟩ | ⟨localPort, hport, hc⟩⟩ := s.connect_cases peer remotePort nowMs <;>
    rw [Stack.allocateEphemeralPort, halloc] at hport <;> cases hfirst : s.firstFree peer remotePort 16384 <;>
    rw [hfirst] at hport <;> cases hport
  · exact Stack.connects_error hc rfl (.inl rfl) fun _ => Stack.firstFree_none hfirst hcursor
  · exact Stack.connects_from hs.orderly hr (Stack.firstFree_some hfirst hcursor) hc

/-- a stack whose connections to one peer have the first two ports of the range -/
def portsStack : Stack ℕ := Run.exec Stack.turn (.new ⟨Config.default, Config.default_validate⟩ 5 1)
  [(0, .connect 7 80 0), (0, .connectFromWithIsn 7 49153 80 100 0)]

theorem connect_free_third : portsStack.Connects 7 80 10 :=
  have hs : portsStack.Reachable ⟨Config.default, Config.default_validate⟩ := ⟨5, 1, _, by decide, rfl, by decide⟩
  connect_free hs 7 (by decide) 10

end FipsTcp
