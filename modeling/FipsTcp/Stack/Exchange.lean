/-
Two stacks that only answer each other.

An `Exchange` is two stacks, each with the name by which it knows the other, and the datagrams under way between them. Nothing is
assumed of these: they may be stale, forged, or no segments at all. A delivery takes one of them, hands it to the stack that it
is for, and puts under way what that stack has queued for the other then.
- `Delivers.falls`: a delivery makes the `measure` smaller, whose levels are the datagrams that may open a connection, what the
  connections can still send, the segments that occupy sequence space, and the weights of all others;
- `deliveries_end`: no run of deliveries goes on forever.
-/
import FipsTcp.Core.Pair
import FipsTcp.Lib.Descent
import FipsTcp.Stack.Reaction

namespace FipsTcp

open Connection Descent

structure Exchange (P : Type) [DecidableEq P] where
  stack : Side → Stack P
  /-- by what name each side knows the other -/
  peer : Side → P
  /-- the datagrams under way, each with the side that it is for -/
  inFlight : Multiset (Side × List U8)

structure Delivery where
  side : Side
  bytes : List U8
  nowMs : ℕ
  /-- how many tokens the other stacks of the process drew before -/
  tokens : ℕ

namespace Exchange

variable {P : Type} [DecidableEq P]

/-- the datagrams of a queue that are for one peer -/
def mail (side : Side) (peer : P) (queue : List (Outbound P)) : Multiset (Side × List U8) :=
  ((queue.filter fun o => decide (o.peer = peer)).map fun o => (side, o.bytes) : List (Side × List U8))

def deliver (e : Exchange P) (d : Delivery) : Exchange P :=
  let (s, queue) := ((e.stack d.side).turn (d.tokens, .input (e.peer d.side) d.bytes d.nowMs)).drainOutbound
  { e with
    stack := Function.update e.stack d.side s
    inFlight := e.inFlight.erase (d.side, d.bytes) + mail d.side.other (e.peer d.side) queue }

/-- one delivery, of a datagram that is under way, while the counter of tokens fits its type -/
inductive Delivers (e : Exchange P) : Exchange P → Prop
  | deliver (d : Delivery) (h : (d.side, d.bytes) ∈ e.inFlight)
      (hb : ((e.deliver d).stack d.side).nextConnectionToken < 2 ^ 64) : Delivers e (e.deliver d)

/-! ## The measure -/

/-- what a side has queued for the other -/
def waiting (e : Exchange P) (side : Side) : Multiset (Side × List U8) :=
  mail side.other (e.peer side) (e.stack side).outbound

/-- what is or may come under way without another delivery -/
def pool (e : Exchange P) : Multiset (Side × List U8) := e.inFlight + (e.waiting .client + e.waiting .server)

/-- one for a segment with a property -/
def counts (p : Segment → Bool) (m : Side × List U8) : ℕ :=
  match Segment.decode m.2 with
  | .error _ => 0
  | .ok x => if p x then 1 else 0

/-- a segment weighs more than what may be sent in answer to it: four for a segment that may be rejected with any reset, three
for a reset that is challenged, two for a segment that may be rejected with a reset that the other side accepts -/
def weight (e : Exchange P) (m : Side × List U8) : ℕ :=
  match Segment.decode m.2 with
  | .error _ => 1
  | .ok x =>
    if x.flags.contains .RST then if (e.stack m.1).challenges (e.peer m.1) x then 3 else 1
    else if (e.stack m.1.other).vouches (e.peer m.1.other) x then 2 else 4

def measure (e : Exchange P) : Levels :=
  levels (e.pool.map (counts Segment.bareSyn)).sum ((e.stack .client).charge + (e.stack .server).charge)
    (e.pool.map (counts Segment.occupies)).sum (e.pool.map e.weight).sum

variable {config : Side → ValidConfig} {e e' : Exchange P} {d : Delivery} {s s' : Stack P} {peer : P} {out : List Segment}
  {bytes : List U8}

/-! ## Weights -/

theorem weight_pos (e : Exchange P) (m : Side × List U8) : 0 < e.weight m := by
  unfold weight
  cases Segment.decode m.2 with
  | error => exact Nat.one_pos
  | ok x =>
    dsimp only
    split_ifs <;> decide

/-- a reset that is challenged was not made from the ACK of what the other side has received -/
theorem not_vouches (x : Segment) (h : s.challenges peer (resetFor x) = true) : s.vouches peer x = false := by
  have hports : (resetFor x).dstPort = x.srcPort ∧ (resetFor x).srcPort = x.dstPort := by
    unfold resetFor
    cases x.ack <;> exact ⟨rfl, rfl⟩
  unfold Stack.challenges at h
  rw [hports.1, hports.2] at h
  unfold Stack.vouches
  cases hl : s.retained ⟨peer, x.srcPort, x.dstPort⟩ with
  | none => rfl
  | some c =>
    rw [hl, Option.any_some, decide_eq_true_eq] at h
    rw [Option.any_some, decide_eq_false_iff_not]
    intro hack
    have hseq : (resetFor x).seq = c.recvNxt := by
      unfold resetFor
      rw [hack]
      rfl
    exact h.2.1 hseq

theorem weight_congr (hpeer : e'.peer = e.peer) (h : ∀ side, (e.stack side).Hears (e'.stack side)) : e'.weight = e.weight := by
  funext m
  unfold weight
  rw [hpeer]
  cases Segment.decode m.2 with
  | error => rfl
  | ok x =>
    dsimp only
    rw [(h m.1).challenges, (h m.1.other).vouches]

/-- **An answer without a charge is lighter than what it answers.** -/
theorem light_weight {side : Side} (hs : s.Tidy) (hsame : ∀ key, (e.stack side).retained key = s.retained key)
    (h : s.Light (e.peer side) bytes out) (hread : ∀ x ∈ out, x.Encodes ∧ x.Plain) :
    ((out.map fun x => (side.other, (Stack.datagram (e.peer side) x).bytes)).map e.weight).sum < e.weight (side, bytes) := by
  -- the one datagram, as the other side reads it
  have hone : ∀ x : Segment, x.Encodes ∧ x.Plain → ∃ b, (Stack.datagram (e.peer side) x).bytes = b ∧ Segment.decode b = .ok x :=
    fun x hx => by
      obtain ⟨b, hb, hdec⟩ := Stack.datagram_decode (e.peer side) hx.1 hx.2
      exact ⟨b, by rw [hb], hdec⟩
  cases h with
  | silent => exact e.weight_pos _
  | reset x hdec hrst =>
    obtain ⟨b, hb, hdec'⟩ := hone _ (hread _ List.mem_cons_self)
    simp only [List.map_cons, List.map_nil, List.sum_cons, List.sum_nil, hb, weight, hdec, hdec', hrst,
      (resetFor_flags x).2.2, Bool.false_eq_true, if_false, if_true]
    cases hch : (e.stack side.other).challenges (e.peer side.other) (resetFor x) with
    | false =>
      rw [if_neg Bool.false_ne_true]
      split_ifs <;> decide
    | true =>
      rw [not_vouches x hch]
      decide
  | challenge x c hdec hrst hl h =>
    obtain ⟨b, hb, hdec'⟩ := hone _ (hread _ List.mem_cons_self)
    have hack : c.ackSegment.flags.contains .RST = false := (by decide : Flags.ACK.contains .RST = false)
    have hch : (e.stack side).challenges (e.peer side) x = true := by
      rw [Stack.challenges, hsame, hl]
      exact decide_eq_true h
    have hkey : c.key = ⟨e.peer side, x.dstPort, x.srcPort⟩ := by
      obtain ⟨id, hid, hc⟩ := Option.bind_eq_some_iff.1 hl
      exact Stack.key_of_lookup hs hid hc
    have hvouch : (e.stack side).vouches (e.peer side) c.ackSegment = true := by
      have htuple : (⟨e.peer side, c.ackSegment.srcPort, c.ackSegment.dstPort⟩ : ConnectionKey P) =
          ⟨e.peer side, x.dstPort, x.srcPort⟩ := by
        have h1 : c.localPort = x.dstPort := congrArg ConnectionKey.localPort hkey
        have h2 : c.remotePort = x.srcPort := congrArg ConnectionKey.remotePort hkey
        rw [← h1, ← h2]
        rfl
      rw [Stack.vouches, htuple, hsame, hl]
      exact decide_eq_true (if_pos (by decide : Flags.ACK.contains .ACK = true) : c.ackSegment.ack = some c.recvNxt)
    simp only [List.map_cons, List.map_nil, List.sum_cons, List.sum_nil, hb, weight, hdec, hdec', hrst, hack, hch, Side.other_other,
      hvouch, Bool.false_eq_true, if_false, if_true]
    decide

/-! ## One delivery -/

/-- what is queued for a peer is for the other side -/
theorem mail_append (side : Side) (peer : P) (queue : List (Outbound P)) (out : List Segment) :
    mail side peer (queue ++ out.map (Stack.datagram peer)) =
      mail side peer queue + ((out.map fun x => (side, (Stack.datagram peer x).bytes) : List (Side × List U8)) : Multiset _) := by
  have hall : (out.map (Stack.datagram peer)).filter (fun o => decide (o.peer = peer)) = out.map (Stack.datagram peer) := by
    refine List.filter_eq_self.2 fun o ho => ?_
    obtain ⟨x, -, rfl⟩ := List.mem_map.1 ho
    exact decide_eq_true rfl
  rw [mail, mail, List.filter_append, hall, List.map_append, List.map_map, ← Multiset.coe_add]
  rfl

/-- the pool, seen from one side -/
theorem pool_eq (e : Exchange P) : ∀ side, e.pool = e.inFlight + (e.waiting side + e.waiting side.other)
  | .client => rfl
  | .server => congrArg (e.inFlight + ·) (add_comm _ _)

theorem charge_eq (e : Exchange P) : ∀ side,
    (e.stack .client).charge + (e.stack .server).charge = (e.stack side).charge + (e.stack side.other).charge
  | .client => rfl
  | .server => add_comm _ _

theorem deliver_stack (e : Exchange P) (d : Delivery) :
    (e.deliver d).stack d.side =
        ((e.stack d.side).turn (d.tokens, .input (e.peer d.side) d.bytes d.nowMs)).drainOutbound.1 ∧
      (e.deliver d).stack d.side.other = e.stack d.side.other :=
  ⟨Function.update_self _ _ _, Function.update_of_ne (Side.other_ne _) _ _⟩

/-- **The pool after a delivery**: one datagram less, and what the stack sends more. -/
theorem deliver_pool (h : (d.side, d.bytes) ∈ e.inFlight)
    (hout : ((e.stack d.side).turn (d.tokens, .input (e.peer d.side) d.bytes d.nowMs)).outbound =
      (e.stack d.side).outbound ++ out.map (Stack.datagram (e.peer d.side))) :
    (e.deliver d).pool = e.pool.erase (d.side, d.bytes) +
      ((out.map fun x => (d.side.other, (Stack.datagram (e.peer d.side) x).bytes) : List (Side × List U8)) : Multiset _) := by
  obtain ⟨h1, h2⟩ := e.deliver_stack d
  have hdrained : (e.deliver d).waiting d.side = 0 := by
    rw [waiting, h1]
    rfl
  have hother : (e.deliver d).waiting d.side.other = e.waiting d.side.other := by
    rw [waiting, h2]
    rfl
  have hflight : (e.deliver d).inFlight = e.inFlight.erase (d.side, d.bytes) + (e.waiting d.side +
      ((out.map fun x => (d.side.other, (Stack.datagram (e.peer d.side) x).bytes) : List (Side × List U8)) : Multiset _)) := by
    rw [waiting, ← mail_append, ← hout]
    rfl
  rw [pool_eq _ d.side, pool_eq e d.side, hdrained, hother, hflight, Multiset.erase_add_left_pos _ h, zero_add]
  ac_rfl

/-- the stacks are in order -/
def Orderly (config : Side → ValidConfig) (e : Exchange P) : Prop := ∀ side, (e.stack side).Orderly (config side)

theorem Orderly.deliver (h : e.Orderly config) (d : Delivery)
    (hb : ((e.deliver d).stack d.side).nextConnectionToken < 2 ^ 64) : (e.deliver d).Orderly config := by
  obtain ⟨h1, h2⟩ := e.deliver_stack d
  intro side
  rcases Side.eq_or_other d.side side with rfl | rfl
  · rw [h1] at hb ⊢
    have hinput := (((h d.side).elsewhere d.tokens).perform (.input (e.peer d.side) d.bytes d.nowMs) hb).1
    exact (hinput.perform .drainOutbound hb).1
  · rw [h2]
    exact h _

omit [DecidableEq P] in
/-- the count of what is sent -/
theorem counts_sent (p : Segment → Bool) (side : Side) (peer : P) (h : ∀ x ∈ out, x.Encodes ∧ x.Plain) :
    ((out.map fun x => (side, (Stack.datagram peer x).bytes)).map (counts p)).sum = out.countP p := by
  induction out with
  | nil => rfl
  | cons x out ih =>
    obtain ⟨hx, hrest⟩ := List.forall_mem_cons.1 h
    obtain ⟨b, hb, hdec⟩ := Stack.datagram_decode peer hx.1 hx.2
    have hcount : counts p (side, (Stack.datagram peer x).bytes) = if p x then 1 else 0 := by simp only [counts, hb, hdec]
    rw [List.map_cons, List.map_cons, List.sum_cons, ih hrest, List.countP_cons, hcount, Nat.add_comm]

/-- **A delivery makes the measure smaller.** -/
theorem deliver_falls (h : e.Orderly config) (hm : (d.side, d.bytes) ∈ e.inFlight) : (e.deliver d).measure < e.measure := by
  obtain ⟨h1, h2⟩ := e.deliver_stack d
  have hs := (h d.side).elsewhere d.tokens
  obtain ⟨out, hreacts⟩ := Stack.input_reacts hs (e.peer d.side) d.bytes d.nowMs
  have hread : ∀ x ∈ out, x.Encodes ∧ x.Plain := fun x hx => ⟨(hreacts.read x hx).1, (hreacts.read x hx).2.1⟩
  have hmem : (d.side, d.bytes) ∈ e.pool := Multiset.mem_add.2 (.inl hm)
  -- the pool, for each of the three measures of datagrams
  have hpool : ∀ w : Side × List U8 → ℕ, ((e.deliver d).pool.map w).sum + w (d.side, d.bytes) =
      (e.pool.map w).sum + ((out.map fun x => (d.side.other, (Stack.datagram (e.peer d.side) x).bytes)).map w).sum := fun w => by
    rw [deliver_pool hm hreacts.queued]
    exact sum_exchange w hmem _
  have hopens := hpool (counts Segment.bareSyn)
  have hoccupies := hpool (counts Segment.occupies)
  have hweights := hpool e.weight
  rw [counts_sent _ _ _ hread] at hopens hoccupies
  have hno : out.countP Segment.bareSyn = 0 := List.countP_eq_zero.2 fun x hx => by simp [(hreacts.read x hx).2.2]
  -- draining the queue leaves the charge as it is
  have hstill : ((e.deliver d).stack d.side).charge =
      (((e.stack d.side).elsewhere d.tokens).input (e.peer d.side) d.bytes d.nowMs).1.charge := by rw [h1]; rfl
  have hbefore : ((e.stack d.side).elsewhere d.tokens).charge = (e.stack d.side).charge := rfl
  unfold measure
  rw [(e.deliver d).charge_eq d.side, e.charge_eq d.side, h2, hstill]
  cases hreacts.effect with
  | opening x hdec hsyn =>
    have hone : counts Segment.bareSyn (d.side, d.bytes) = 1 := by simp only [counts, hdec, hsyn, if_true]
    exact levels_lt (by omega) (fun _ => by omega) (fun _ _ => by omega) (fun _ _ _ => by omega)
  | answered x hdec hocc hle =>
    have hone : counts Segment.occupies (d.side, d.bytes) = 1 := by simp only [counts, hdec, hocc, if_true]
    exact levels_lt (by omega) (fun _ => by omega) (fun _ _ => by omega) (fun _ _ _ => by omega)
  | spent hlt => exact levels_lt (by omega) (fun _ => by omega) (fun _ _ => by omega) (fun _ _ _ => by omega)
  | light hle hears hlight =>
    have hw : (e.deliver d).weight = e.weight := by
      refine weight_congr rfl fun side => ?_
      rcases Side.eq_or_other d.side side with rfl | rfl
      · rw [h1]
        exact hears
      · rw [h2]
        exact .of_eq rfl rfl
    have hsilent : out.countP Segment.occupies = 0 := List.countP_eq_zero.2 fun x hx => by simp [hlight.occupies x hx]
    have hlighter := light_weight (e := e) hs.tidy (fun _ => rfl) hlight hread
    rw [hw]
    exact levels_lt (by omega) (fun _ => by omega) (fun _ _ => by omega) (fun _ _ _ => by omega)

theorem Delivers.falls (hstep : e.Delivers e') (h : e.Orderly config) : e'.Orderly config ∧ e'.measure < e.measure := by
  cases hstep with
  | deliver d hm hb => exact ⟨h.deliver d hb, deliver_falls h hm⟩

end Exchange

/-- **No exchange sustains itself.** Two stacks after any runs, with any datagrams under way between them, deliver for a while and
then stop: there is no endless run of deliveries. -/
theorem deliveries_end {P : Type} [DecidableEq P] {config : Side → ValidConfig} (e : Exchange P)
    (h : ∀ side, (e.stack side).Reachable (config side)) : ¬ Endless Exchange.Delivers e :=
  ends (I := Exchange.Orderly config) Exchange.measure (fun hs hstep => hstep.falls hs) fun side => (h side).orderly

/-- an ACK, of no connection that there is -/
def staleAck : List U8 :=
  ({ Segment.new 9000 80 7 with ack := some 9, flags := .ACK, window := 1000 } : Segment).encode.toOption.getD []

/-- a client whose SYN is still queued, and a listener that has not seen it; an ACK of an earlier connection of the tuple and a
datagram that is no segment are under way -/
def staleExchange : Exchange ℕ where
  stack
    | .client => Run.exec Stack.turn (.new ⟨Config.default, Config.default_validate⟩ 5 1) [(0, .connectFromWithIsn 7 9000 80 100 0)]
    | .server => Run.exec Stack.turn (.new ⟨Config.default, Config.default_validate⟩ 6 2) [(0, .listen 80)]
  peer
    | .client => 7
    | .server => 4
  inFlight := (.server, staleAck) ::ₘ {(.client, [])}

/-- the ACK is answered with a reset, and then the exchange ends like every other -/
theorem deliveries_end_stale :
    (∃ e', staleExchange.Delivers e' ∧ e'.inFlight.card = 2) ∧ ¬ Endless Exchange.Delivers staleExchange := by
  have hmem : (Side.server, staleAck) ∈ staleExchange.inFlight := by simp [staleExchange]
  have hreach : ∀ side, (staleExchange.stack side).Reachable ⟨Config.default, Config.default_validate⟩ := fun side => by
    cases side with
    | client => exact ⟨5, 1, _, by decide, rfl, by decide⟩
    | server => exact ⟨6, 2, _, by decide, rfl, by decide⟩
  exact ⟨⟨_, .deliver ⟨.server, staleAck, 10, 0⟩ hmem (by decide), by decide⟩, deliveries_end staleExchange hreach⟩

end FipsTcp
