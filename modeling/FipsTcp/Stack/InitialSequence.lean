/-
The initial sequence numbers of a stack (`next_isn`).

The state of the generator goes through three shifts for each number, and the number is the exclusive or of its halves. The
shifts are a linear map of the bits with a primitive polynomial, `low` above x^64.
- `primitive_xorshift`: the certificate, checked by evaluation;
- `halves_count`: how many words have given halves;
- `Draws`, `turn_isn`: when a call draws a number, and what it does to the state;
- `isn_cycle`: over a whole run the state returns after 2^64 - 1 numbers, and every number comes up equally often.
-/
import FipsTcp.Lib.BitLinear
import FipsTcp.Stack.Connect

namespace FipsTcp

open BitLinear Connection

/-- the three shifts of `next_isn` -/
def xorshift (value : BitVec 64) : BitVec 64 :=
  let value := value ^^^ value <<< 13
  let value := value ^^^ value >>> 7
  value ^^^ value <<< 17

/-- the number that `next_isn` makes of a state -/
def halves (value : BitVec 64) : U32 := (value ^^^ value >>> 32).setWidth 32

/-! ## The generator -/

/-- the polynomial of the shifts, without x^64 -/
def shiftPolynomial : BitVec (63 + 1) := 0x13ed4a358913201

theorem xorshift_linear : Linear (m := 63) xorshift :=
  ((linear_shiftLeft 17).comp (linear_shiftRight 7)).comp (linear_shiftLeft 13)

theorem xorshift_root (v : BitVec 64) : xorshift^[64] v = eval (m := 63) xorshift shiftPolynomial v :=
  linear_ext (m := 63) (xorshift_linear.iterate 64) (eval_linear xorshift_linear _) (by decide +kernel) v

/-- the primes of the period -/
theorem period_primes {r : ℕ} (hr : r.Prime) (h : r ∣ 2 ^ 64 - 1) : r ∈ [3, 5, 17, 257, 641, 65537, 6700417] := by
  have hfactors : 2 ^ 64 - 1 = 3 * 5 * 17 * 257 * 641 * 65537 * 6700417 := by norm_num
  rw [hfactors] at h
  simp only [hr.dvd_mul] at h
  have hprime : ∀ p : ℕ, p.Prime → r ∣ p → r = p := fun p hp h => (Nat.prime_dvd_prime_iff_eq hr hp).1 h
  rcases h with (((((h | h) | h) | h) | h) | h) | h
  · rw [hprime 3 (by norm_num) h]; simp
  · rw [hprime 5 (by norm_num) h]; simp
  · rw [hprime 17 (by norm_num) h]; simp
  · rw [hprime 257 (by norm_num) h]; simp
  · rw [hprime 641 (by norm_num) h]; simp
  · rw [hprime 65537 (by norm_num) h]; simp
  · rw [hprime 6700417 (by norm_num) h]; simp

/-- the inverse that shows that the shifts do not return before the period is over, for each of its primes -/
def properInverse : ℕ → BitVec (63 + 1)
  | 3 => 0xd742ca58f5d785e2
  | 5 => 0xa3f64d1fb612f669
  | 17 => 0x63f43995a1b49645
  | 257 => 0x7d573a75b5260c4d
  | 641 => 0x1ead61508d13286
  | 65537 => 0xed7248a2317d33b1
  | _ => 0x483b08aa5d3741b5

theorem primitive_xorshift : Primitive (m := 63) xorshift shiftPolynomial where
  linear := xorshift_linear
  root := xorshift_root
  returns := by decide +kernel
  proper r hr h := by
    have hall : ∀ r ∈ [3, 5, 17, 257, 641, 65537, 6700417], mul shiftPolynomial (properInverse r)
        (pow shiftPolynomial 64 (timesX shiftPolynomial 1) ((2 ^ 64 - 1) / r) ^^^ 1) = 1 := by decide +kernel
    exact ⟨properInverse r, hall r (period_primes hr h)⟩

/-- a word from its upper half and the number made of it -/
def wordOf (isn high : U32) : BitVec 64 := high ++ (high ^^^ isn)

theorem wordOf_bit (isn high : U32) (i : ℕ) : (wordOf isn high).getLsbD i =
    if i < 32 then high.getLsbD i ^^ isn.getLsbD i else high.getLsbD (i - 32) := by
  rw [wordOf, BitVec.getLsbD_append, BitVec.getLsbD_xor]

theorem halves_bit (w : BitVec 64) (i : ℕ) : (halves w).getLsbD i = (decide (i < 32) && (w.getLsbD i ^^ w.getLsbD (32 + i))) := by
  rw [halves, BitVec.getLsbD_setWidth, BitVec.getLsbD_xor, BitVec.getLsbD_ushiftRight]

theorem halves_wordOf (isn high : U32) : halves (wordOf isn high) = isn := by
  apply BitVec.eq_of_getLsbD_eq
  intro i hi
  have hupper : 32 + i - 32 = i := by omega
  rw [halves_bit, wordOf_bit, wordOf_bit, if_pos hi, if_neg (by omega), hupper]
  cases high.getLsbD i <;> simp [hi]

theorem wordOf_halves (w : BitVec 64) : wordOf (halves w) ((w >>> 32).setWidth 32) = w := by
  apply BitVec.eq_of_getLsbD_eq
  intro i hi
  rw [wordOf_bit, halves_bit]
  simp only [BitVec.getLsbD_setWidth, BitVec.getLsbD_ushiftRight]
  split_ifs with h
  · cases w.getLsbD (32 + i) <;> simp [h]
  · have hupper : 32 + (i - 32) = i := by omega
    rw [hupper]
    simp
    omega

theorem wordOf_injective (isn : U32) : Function.Injective (wordOf isn) := by
  intro a b h
  apply BitVec.eq_of_getLsbD_eq
  intro i hi
  have hbit := congrArg (fun w => w.getLsbD (32 + i)) h
  have hupper : 32 + i - 32 = i := by omega
  simp only [wordOf_bit, if_neg (show ¬ 32 + i < 32 by omega), hupper] at hbit
  exact hbit

/-- **Halves.** Every number is made of 2^32 words, of which zero is one. -/
theorem halves_count (isn : U32) : {w : BitVec 64 | w ≠ 0 ∧ halves w = isn}.ncard = if isn = 0 then 2 ^ 32 - 1 else 2 ^ 32 := by
  have hcard : (Set.range (wordOf isn)).ncard = 2 ^ 32 := by
    rw [← Set.image_univ, (wordOf_injective isn).injOn.ncard_image, Set.ncard_univ, card_word]
  have hset : {w : BitVec 64 | w ≠ 0 ∧ halves w = isn} = Set.range (wordOf isn) \ {0} := by
    ext w
    constructor
    · rintro ⟨hne, rfl⟩
      exact ⟨⟨_, wordOf_halves w⟩, hne⟩
    · rintro ⟨⟨high, rfl⟩, hne⟩
      exact ⟨hne, halves_wordOf isn high⟩
  rw [hset]
  split_ifs with hzero
  · have hmem : (0 : BitVec 64) ∈ Set.range (wordOf isn) := ⟨0, by rw [hzero]; rfl⟩
    rw [Set.ncard_sdiff_singleton_of_mem hmem, hcard]
  · have hmem : (0 : BitVec 64) ∉ Set.range (wordOf isn) := by
      rintro ⟨high, h⟩
      have := halves_wordOf isn high
      rw [h] at this
      exact hzero this.symm
    rw [Set.sdiff_singleton_eq_self hmem, hcard]

/-! ## One operation -/

namespace Stack

variable {P : Type} [DecidableEq P]

/-- whether an operation draws a number: a connect that found a port, and the first SYN of a connection that is admitted -/
def drawsIsn (s : Stack P) : StackOp P → Bool
  | .connect peer remotePort _ => (s.allocateEphemeralPort peer remotePort).2.isOk
  | .input peer bytes _ =>
    match Segment.decode bytes with
    | .error _ => false
    | .ok segment =>
      decide (s.lookup.lookup ⟨peer, segment.dstPort, segment.srcPort⟩ = none ∧ s.Opens segment ∧
        segment.supportsFipsVersion FIPS_VERSION = true) && (s.ensureConnectionCapacity peer).isOk
  | _ => false

/-- how many numbers the calls of a run draw -/
def drawn (s : Stack P) : List (ℕ × StackOp P) → ℕ
  | [] => 0
  | op :: ops => (if (s.elsewhere op.1).drawsIsn op.2 then 1 else 0) + (s.turn op).drawn ops

variable {s : Stack P} {op : StackOp P}

theorem nextIsn_fst (h : s.isnState ≠ 0) : s.nextIsn.1.isnState = xorshift s.isnState := by
  have hne : xorshift s.isnState ≠ 0 := primitive_xorshift.iterate_ne (m := 63) h 1
  exact if_neg hne

theorem connectFromWithIsn_isnState (s : Stack P) (peer : P) (localPort remotePort : U16) (isn : U32) (nowMs : ℕ) :
    (s.connectFromWithIsn peer localPort remotePort isn nowMs).1.isnState = s.isnState := by
  rcases connectFromWithIsn_cases s peer localPort remotePort isn nowMs with ⟨e, h, -⟩ | ⟨hl, hr, hcap, hkey⟩
  · rw [h]
  · rw [connectFromWithIsn_eq hl hr hcap hkey]
    rfl

theorem connect_isnState (s : Stack P) (peer : P) (remotePort : U16) (nowMs : ℕ) :
    (s.perform (.connect peer remotePort nowMs)).1.isnState =
      if s.drawsIsn (.connect peer remotePort nowMs) then s.nextIsn.1.isnState else s.isnState := by
  have hconnect : (s.perform (.connect peer remotePort nowMs)).1 = (s.connect peer remotePort nowMs).1 := outcome_fst _
  rw [hconnect]
  obtain ⟨port, ⟨e, hport, h⟩ | ⟨localPort, hport, h⟩⟩ := s.connect_cases peer remotePort nowMs
  · simp only [drawsIsn, hport, h]
    rfl
  · simp only [drawsIsn, hport, h, connectFromWithIsn_isnState]
    rfl

theorem input_isnState (hs : s.AllSound) (peer : P) (bytes : List U8) (nowMs : ℕ) :
    (s.input peer bytes nowMs).1.isnState =
      if s.drawsIsn (.input peer bytes nowMs) then s.nextIsn.1.isnState else s.isnState := by
  cases hdec : Segment.decode bytes with
  | error e =>
    simp only [Stack.input, drawsIsn, hdec]
    rfl
  | ok segment =>
    have hp := Segment.decode_ports hdec
    cases hkey : s.lookup.lookup ⟨peer, segment.dstPort, segment.srcPort⟩ with
    | some id =>
      -- a retained connection draws nothing
      have hno : s.drawsIsn (.input peer bytes nowMs) = false := by simp [drawsIsn, hdec, hkey]
      rw [if_neg (by rw [hno]; exact Bool.false_ne_true)]
      simp only [Stack.input, hdec, hkey]
      cases hl : s.connections.lookup id with
      | none => simp only [inputRetained, hl]
      | some c =>
        rw [inputRetained_eq hl (hs id c hl) peer hp]
        simp only [onRetained]
        split_ifs <;> rfl
    | none =>
      simp only [Stack.input, drawsIsn, hdec, hkey]
      by_cases hopen : s.Opens segment
      · have hsyn : segment.flags.contains .SYN = true ∧ ¬ segment.flags.contains .ACK = true ∧ segment.dstPort ∈ s.listeners := hopen
        rw [if_pos hsyn]
        by_cases hver : segment.supportsFipsVersion FIPS_VERSION = true
        · cases hcap : s.ensureConnectionCapacity peer with
          | error e =>
            have h : s.inputSyn peer segment nowMs = (s, .error e) := by unfold inputSyn; rw [if_pos hver, hcap]
            simp [h, lift, Except.isOk, Except.toBool]
          | ok u =>
            rw [inputSyn_eq hp hver hcap]
            simp only [hopen, hver, Except.isOk, Except.toBool]
            rfl
        · have h : s.inputSyn peer segment nowMs = (s.queue peer [resetFor segment], .ok ()) := by
            unfold inputSyn
            rw [if_neg hver, emitReset_eq peer s hp]
          simp [h, lift, hver, queue]
      · have hsyn : ¬ (segment.flags.contains .SYN = true ∧ ¬ segment.flags.contains .ACK = true ∧
            segment.dstPort ∈ s.listeners) := hopen
        rw [if_neg hsyn, emitReset_eq peer s hp]
        simp only [hopen, false_and, and_false, decide_false, Bool.false_and, Bool.false_eq_true, if_false]
        split_ifs <;> rfl

theorem poll_isnState (ids : List ConnectionId) (nowMs : ℕ) (s : Stack P) : (s.poll ids nowMs).isnState = s.isnState := by
  obtain ⟨connections, lookup, outbound, h⟩ := poll_frame ids nowMs s
  rw [h]

/-- the calls that never draw -/
theorem call_isnState (hs : s.AllSound) {s' : Stack P} {result : Except Failure Unit} (h : Call s op s' result)
    (hconnect : ∀ peer remotePort nowMs, op ≠ .connect peer remotePort nowMs)
    (hfrom : ∀ peer localPort remotePort isn nowMs, op ≠ .connectFromWithIsn peer localPort remotePort isn nowMs)
    (hinput : ∀ peer bytes nowMs, op ≠ .input peer bytes nowMs) : s'.isnState = s.isnState := by
  cases h with
  | refused | listened | closedListener | wrote | read | aborted | unpolled | unabortedPeer | reserved | drained => rfl
  | connectRefused => exact absurd rfl (hconnect _ _ _)
  | connected _ peer localPort remotePort isn nowMs port cursor hop =>
    rcases hop with rfl | rfl
    · exact absurd rfl (hconnect _ _ _)
    · exact absurd rfl (hfrom _ _ _ _ _)
  | malformed | stale | ignored | rejected | opened | reset | challenged | handled => exact absurd rfl (hinput _ _ _)
  | accepted port =>
    unfold accept
    cases s.accepts.lookup port <;> rfl
  | closed id nowMs c hl => split_ifs <;> rfl
  | abortedPeer peer ids hids => rw [abortAll_rest hs]
  | polled ids nowMs hids => exact poll_isnState ids nowMs s

/-- **What a call draws.** -/
theorem perform_isnState (hs : s.AllSound) (op : StackOp P) :
    (s.perform op).1.isnState = if s.drawsIsn op then s.nextIsn.1.isnState else s.isnState := by
  have hcall := perform_call hs op
  cases op with
  | connect peer remotePort nowMs => exact s.connect_isnState peer remotePort nowMs
  | input peer bytes nowMs => exact input_isnState hs peer bytes nowMs
  | connectFromWithIsn peer localPort remotePort isn nowMs =>
    have hconnect : (s.perform (.connectFromWithIsn peer localPort remotePort isn nowMs)).1 =
        (s.connectFromWithIsn peer localPort remotePort isn nowMs).1 := outcome_fst _
    rw [hconnect]
    exact connectFromWithIsn_isnState s peer localPort remotePort isn nowMs
  | _ =>
    have hdraw : ¬ false = true := Bool.false_ne_true
    exact (call_isnState hs hcall (by intro _ _ _ h; cases h) (by intro _ _ _ _ _ h; cases h) (by intro _ _ _ h; cases h)).trans
      (if_neg hdraw).symm

/-! ## A run -/

/-- **The state after a run.** -/
theorem exec_isnState (hs : s.AllSound) (h : s.isnState ≠ 0) (ops : List (ℕ × StackOp P)) :
    (Run.exec turn s ops).isnState = xorshift^[s.drawn ops] s.isnState := by
  induction ops generalizing s with
  | nil => rfl
  | cons op ops ih =>
    have hturn : (s.turn op).isnState = xorshift^[if (s.elsewhere op.1).drawsIsn op.2 then 1 else 0] s.isnState := by
      have hone := perform_isnState (s := s.elsewhere op.1) hs op.2
      split_ifs at hone ⊢ with hdraw
      · exact hone.trans (nextIsn_fst (s := s.elsewhere op.1) h)
      · exact hone
    have hne : (s.turn op).isnState ≠ 0 := by
      rw [hturn]
      exact primitive_xorshift.iterate_ne (m := 63) h _
    rw [Run.exec_cons, ih (turn_sound hs op).1 hne, hturn, ← Function.iterate_add_apply, Nat.add_comm]
    rfl

omit [DecidableEq P] in
theorem server_sendUna (peer : P) (syn : Segment) (isn : U32) (nowMs : ℕ) (config : Config) (token : ℕ) :
    (Connection.server peer syn isn nowMs config token).1.sendUna = isn := by
  simp only [Connection.server, Connection.sendTracked]
  unfold Connection.negotiateMss Connection.updateRemoteWindow
  split_ifs <;> rfl

/-- **The number of a connection** is the one that the call drew. -/
theorem drawn_isn (hdraw : s.drawsIsn op = true) (hok : (s.perform op).2 = .ok ()) :
    ∃ c, (s.perform op).1.connections.lookup s.nextId = some c ∧ c.sendUna = halves (xorshift s.isnState) := by
  cases op with
  | connect peer remotePort nowMs =>
    have hconnect : s.perform (.connect peer remotePort nowMs) = outcome (s.connect peer remotePort nowMs) := rfl
    obtain ⟨port, ⟨e, hport, h⟩ | ⟨localPort, hport, h⟩⟩ := s.connect_cases peer remotePort nowMs
    · simp [drawsIsn, hport, Except.isOk, Except.toBool] at hdraw
    · rcases connectFromWithIsn_cases (s.moveCursors port s.nextIsn.1.isnState) peer localPort remotePort s.nextIsn.2 nowMs with
        ⟨e, he, -⟩ | ⟨hl, hr, hcap, hkey⟩
      · rw [hconnect, h, he] at hok
        cases hok
      · rw [hconnect, outcome_fst, h, connectFromWithIsn_eq hl hr hcap hkey]
        exact ⟨_, Finmap.lookup_insert _, rfl⟩
  | input peer bytes nowMs =>
    cases hdec : Segment.decode bytes with
    | error e => simp [drawsIsn, hdec] at hdraw
    | ok segment =>
      simp only [drawsIsn, hdec, Bool.and_eq_true, decide_eq_true_eq] at hdraw
      obtain ⟨⟨hkey, hopen, hver⟩, hroom⟩ := hdraw
      have hcap : s.ensureConnectionCapacity peer = .ok () := by
        cases h : s.ensureConnectionCapacity peer with
        | ok u => rfl
        | error e =>
          rw [h] at hroom
          cases hroom
      have hsyn : segment.flags.contains .SYN = true ∧ ¬ segment.flags.contains .ACK = true ∧ segment.dstPort ∈ s.listeners := hopen
      have hinput : s.perform (.input peer bytes nowMs) = (s.nextIsn.1.create
          (Connection.server peer segment s.nextIsn.2 nowMs s.config.1 s.nextConnectionToken).1
          (Connection.server peer segment s.nextIsn.2 nowMs s.config.1 s.nextConnectionToken).2, .ok ()) := by
        simp only [perform, Stack.input, hdec, hkey]
        rw [if_pos hsyn, inputSyn_eq (Segment.decode_ports hdec) hver hcap]
        rfl
      rw [hinput]
      exact ⟨_, Finmap.lookup_insert _, server_sendUna peer segment _ nowMs _ _⟩
  | _ => cases hdraw

end Stack

/-- **The initial sequence numbers cycle, and no sooner than they must.** Take any state that a stack reaches, and any run from
there. A call draws the next number exactly if it connects from a free port or admits the first SYN of a connection, and the
connection that it makes starts with that number. The state of the generator comes back exactly when the run drew a multiple of
2^64 - 1 numbers; it is never zero, so the code's own escape from zero is never taken. And in any 2^64 - 1 draws in a row every
number comes up 2^32 times, zero once less. -/
theorem isn_cycle {P : Type} [DecidableEq P] (config : ValidConfig) (isnSeed : BitVec 64) (token : ℕ) (ops more : List (ℕ × StackOp P)) :
    let s : Stack P := Run.exec Stack.turn (.new config isnSeed token) ops
    let s' := Run.exec Stack.turn s more
    s.isnState ≠ 0 ∧ s'.isnState = xorshift^[s.drawn more] s.isnState ∧ (s'.isnState = s.isnState ↔ 2 ^ 64 - 1 ∣ s.drawn more) ∧
      (∀ op, s.drawsIsn op = true → (s.perform op).2 = .ok () →
        ∃ c, (s.perform op).1.connections.lookup s.nextId = some c ∧ c.sendUna = halves (xorshift s.isnState)) ∧
      ∀ isn : U32, {k | k < 2 ^ 64 - 1 ∧ halves (xorshift^[k + 1] s.isnState) = isn}.ncard =
        if isn = 0 then 2 ^ 32 - 1 else 2 ^ 32 := by
  intro s s'
  have hnew : (Stack.new config isnSeed token : Stack P).AllSound := (Stack.Genuine.new config isnSeed token).sound
  have hseed : (Stack.new config isnSeed token : Stack P).isnState ≠ 0 := by
    change (if isnSeed = 0 then (1 : BitVec 64) else isnSeed) ≠ 0
    split_ifs with h
    · decide
    · exact h
  have hs : s.AllSound := Run.exec_invariant (P := fun s : Stack P => s.AllSound) (fun _ op h => (Stack.turn_sound h op).1) hnew ops
  have hne : s.isnState ≠ 0 := by
    have hrun : s.isnState = xorshift^[_] _ := Stack.exec_isnState hnew hseed ops
    rw [hrun]
    exact primitive_xorshift.iterate_ne (m := 63) hseed _
  have hmore : s'.isnState = xorshift^[s.drawn more] s.isnState := Stack.exec_isnState hs hne more
  have hperiod : Function.minimalPeriod xorshift s.isnState = 2 ^ 64 - 1 := primitive_xorshift.minimalPeriod (m := 63) hne
  refine ⟨hne, hmore, ?_, fun op hdraw hok => Stack.drawn_isn hdraw hok, fun isn => ?_⟩
  · rw [hmore, ← hperiod]
    exact Function.isPeriodicPt_iff_minimalPeriod_dvd
  · have horbit := primitive_xorshift.orbit (m := 63) hne
    rw [← halves_count isn]
    have himage : (fun k => xorshift^[k + 1] s.isnState) '' {k | k < 2 ^ 64 - 1 ∧ halves (xorshift^[k + 1] s.isnState) = isn} =
        {w : BitVec 64 | w ≠ 0 ∧ halves w = isn} := by
      ext w
      constructor
      · rintro ⟨k, ⟨hk, hisn⟩, rfl⟩
        exact ⟨horbit.mapsTo hk, hisn⟩
      · rintro ⟨hw, hisn⟩
        obtain ⟨k, hk, rfl⟩ := horbit.surjOn hw
        exact ⟨k, ⟨hk, hisn⟩, rfl⟩
    rw [← himage]
    exact ((horbit.injOn.mono fun _ hk => hk.1).ncard_image).symm

end FipsTcp
