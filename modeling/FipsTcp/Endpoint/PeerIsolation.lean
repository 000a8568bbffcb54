/-
What one unreachable peer costs the others.

A flush empties the queue of the stack first and then sends segment by segment, up to the first that the carrier refuses.
`handed` is what it gives to the carrier. For a carrier that refuses by destination (`PerPeer`), `flush_isolates_iff` says exactly
when the segments to all other peers are handed over: when none of them stands behind a segment to a refused peer.
`flush_drops_reset` is a flush in which one does.
-/
import FipsTcp.Endpoint.CarrierErrors

namespace FipsTcp

namespace FipsTcpEndpoint

variable {P E : Type} [DecidableEq P]

/-- the datagrams that the loop of `flush` gives to the carrier, the refused one included -/
def handedFrom (send : Carrier P E) (port : U16) : ℕ → List (Outbound P) → List (Outbound P)
  | _, [] => []
  | index, outbound :: rest =>
    outbound :: match send index outbound.peer port port outbound.bytes with
      | .error _ => []
      | .ok () => handedFrom send port (index + 1) rest

def handed (send : Carrier P E) (ep : FipsTcpEndpoint P) : List (Outbound P) :=
  handedFrom send ep.fspServicePort 0 ep.stack.outbound

/-- the carrier refuses exactly the datagrams to some peers -/
def PerPeer (send : Carrier P E) (fails : P → Bool) : Prop :=
  ∀ index peer source destination bytes, (∃ e, send index peer source destination bytes = .error e) ↔ fails peer = true

omit [DecidableEq P] in
theorem PerPeer.cases {send : Carrier P E} {fails : P → Bool} (h : PerPeer send fails) (index : ℕ) (peer : P)
    (source destination : U16) (bytes : List U8) :
    (fails peer = true ∧ ∃ e, send index peer source destination bytes = .error e) ∨
      (fails peer = false ∧ send index peer source destination bytes = .ok ()) := by
  have hiff := h index peer source destination bytes
  rcases hs : send index peer source destination bytes with e | u
  · exact Or.inl ⟨hiff.1 ⟨e, hs⟩, e, rfl⟩
  · refine Or.inr ⟨Bool.eq_false_iff.2 fun hf => ?_, rfl⟩
    obtain ⟨e, he⟩ := hiff.2 hf
    rw [hs] at he
    cases he

omit [DecidableEq P] in
/-- the loop hands over what comes before the first segment to a refused peer, and that one -/
theorem handedFrom_eq {send : Carrier P E} {fails : P → Bool} (h : PerPeer send fails) (port : U16) (index : ℕ)
    (queue : List (Outbound P)) :
    handedFrom send port index queue =
      queue.takeWhile (fun o => !fails o.peer) ++ (queue.dropWhile fun o => !fails o.peer).take 1 := by
  induction queue generalizing index with
  | nil => rfl
  | cons o rest ih =>
    rw [handedFrom, List.takeWhile_cons, List.dropWhile_cons]
    rcases h.cases index o.peer port port o.bytes with ⟨hf, e, hs⟩ | ⟨hf, hs⟩
    · rw [hs, hf]
      rfl
    · rw [hs, hf]
      exact congrArg (o :: ·) (ih (index + 1))

end FipsTcpEndpoint

/-- **Isolation of peers.** Whatever is queued and whichever peers the carrier refuses, one flush hands over every segment to the
other peers, in order and once, exactly if none of them stands behind a segment to a refused peer. -/
theorem flush_isolates_iff {P E : Type} [DecidableEq P] {send : Carrier P E} {fails : P → Bool}
    (h : FipsTcpEndpoint.PerPeer send fails) (ep : FipsTcpEndpoint P) :
    (ep.handed send).filter (fun o => !fails o.peer) = ep.stack.outbound.filter (fun o => !fails o.peer) ↔
      ∀ o ∈ ep.stack.outbound.dropWhile (fun o => !fails o.peer), fails o.peer = true := by
  rw [FipsTcpEndpoint.handed, FipsTcpEndpoint.handedFrom_eq h]
  generalize ep.stack.outbound = queue
  -- a segment to a refused peer is not counted, so what is counted was handed over before the first of them
  have hhead : ((queue.dropWhile fun o => !fails o.peer).take 1).filter (fun o => !fails o.peer) = [] := by
    cases hd : queue.dropWhile fun o => !fails o.peer with
    | nil => rfl
    | cons o rest =>
      have ho := List.head_dropWhile_not (fun o => !fails o.peer) (l := queue) (by rw [hd]; exact List.cons_ne_nil o rest)
      simp only [hd, List.head_cons] at ho
      rw [List.take_one, List.head?_cons, Option.toList_some, List.filter_cons_of_neg (by rw [ho]; decide), List.filter_nil]
  have hsplit : queue.filter (fun o => !fails o.peer) =
      (queue.takeWhile fun o => !fails o.peer).filter (fun o => !fails o.peer) ++
        (queue.dropWhile fun o => !fails o.peer).filter (fun o => !fails o.peer) := by
    rw [← List.filter_append, List.takeWhile_append_dropWhile]
  rw [List.filter_append, hhead, hsplit, List.append_right_inj, eq_comm, List.filter_eq_nil_iff]
  refine forall₂_congr fun o _ => ?_
  rw [Bool.not_eq_true', Bool.not_eq_false]

/-- a carrier that refuses the datagrams to one peer -/
def refuse (peer : ℕ) : Carrier ℕ Unit := fun _ dst _ _ _ => if dst = peer then .error () else .ok ()

theorem refuse_perPeer (peer : ℕ) : FipsTcpEndpoint.PerPeer (refuse peer) (· == peer) := by
  intro index dst source destination bytes
  rw [beq_iff_eq, refuse]
  split_ifs with hd
  · exact ⟨fun _ => hd, fun _ => ⟨(), rfl⟩⟩
  · exact ⟨(fun ⟨_, he⟩ => nomatch he), fun he => absurd he hd⟩

/-- a listening endpoint after one batch with a bare ACK of peer 1 and one of peer 2: a reset is queued for each -/
def twoPeers : FipsTcpEndpoint ℕ :=
  let listening := ((Stack.new ⟨Config.default, Config.default_validate⟩ 5 1).listen 80).1
  let ack := [35, 40, 0, 80, 0, 0, 0, 100, 0, 0, 0, 9, 0x50, 16, 255, 255, 0, 0, 0, 0]
  ⟨80, (FipsTcpEndpoint.receiveBatch 0 (fun _ _ => true) listening [⟨1, ack⟩, ⟨2, ack⟩]).1⟩

/-- **A dropped segment.** Peer 1 is refused, and the reset for peer 2 is neither handed over nor queued any more. -/
theorem flush_drops_reset : twoPeers.stack.outbound.map (·.peer) = [1, 2] ∧ (twoPeers.handed (refuse 1)).map (·.peer) = [1] ∧
    (twoPeers.flush (refuse 1)).1.stack.outbound = [] ∧
    (twoPeers.handed (refuse 1)).filter (fun o => !(o.peer == 1)) ≠ twoPeers.stack.outbound.filter (fun o => !(o.peer == 1)) :=
  ⟨by decide, by decide, rfl, by decide⟩

theorem flush_isolates_iff_last : (twoPeers.handed (refuse 2)).filter (fun o => !(o.peer == 2)) =
    twoPeers.stack.outbound.filter (fun o => !(o.peer == 2)) :=
  (flush_isolates_iff (refuse_perPeer 2) twoPeers).2 (by decide)

end FipsTcp
