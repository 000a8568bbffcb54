/-
How often a segment is transmitted.

`Ledger` is a socket together with the end position of everything it emitted that occupies sequence space, whatever the cause;
only the probe that repeats a byte in flight is left out. It has nothing to say about what the socket does (`run_socket`).
- `Ledger.inv_run`: after every run the log agrees with the transmission counts, and no position has more than the budget;
- `OldestKept`: a segment with an exhausted budget that stays the oldest keeps its time and its count, and the timeout stays;
- `transmission_budget`: both for every run, and the poll that finds the deadline passed.
-/
import FipsTcp.Connection.Budget

namespace FipsTcp

open SendWindow Serial Tally

namespace Connection

variable {P : Type} {config : Config} {nowMs : ℕ} {isn : U32} {acc : List U8} {c c' c1 c2 : Connection P}

/-! ## An exhausted segment keeps its deadline -/

/-- the oldest segment was sent as often as it may be -/
structure Exhausted (config : Config) (c : Connection P) (oldest : TrackedSegment) : Prop where
  head : c.unacked.head? = some oldest
  spent : config.maxRetransmissions.toNat ≤ oldest.transmissions

/-- an exhausted oldest segment and the timeout stay as they are -/
structure Holds (config : Config) (c c' : Connection P) : Prop where
  timeout : c'.rtt.timeoutMs = c.rtt.timeoutMs
  budget : c'.maxTransmissions = c.maxTransmissions
  oldest : ∀ oldest, c.Exhausted config oldest → c'.unacked.head? = some oldest

theorem Holds.same (hrtt : c'.rtt.timeoutMs = c.rtt.timeoutMs) (hmax : c'.maxTransmissions = c.maxTransmissions)
    (hu : c.unacked <+: c'.unacked) : Holds config c c' := by
  refine ⟨hrtt, hmax, fun oldest h => ?_⟩
  obtain ⟨more, hmore⟩ := hu
  rw [← hmore, List.head?_append, h.head]
  rfl

theorem Holds.refl (c : Connection P) : Holds config c c := .same rfl rfl (List.prefix_refl _)

theorem Holds.trans (h1 : Holds config c c1) (h2 : Holds config c1 c2) : Holds config c c2 :=
  ⟨h2.timeout.trans h1.timeout, h2.budget.trans h1.budget, fun oldest h => h2.oldest oldest ⟨h1.oldest oldest h, h.spent⟩⟩

theorem retransmitOldest_holds (nowMs : ℕ) (timeout : Bool) (hmax : c.maxTransmissions = config.maxRetransmissions.toNat) :
    Holds config c (c.retransmitOldest nowMs timeout).1 := by
  rcases c.retransmitOldest_cases nowMs timeout with heq | ⟨tracked, rest, transmissions, dups, hu, hlt, heq⟩ <;> rw [heq]
  · exact Holds.refl c
  · refine ⟨rfl, rfl, fun oldest h => ?_⟩
    have hh := h.head
    rw [hu] at hh
    cases hh
    exact absurd h.spent (by omega)

theorem flushData_holds (config : Config) (nowMs : ℕ) : Holds config c (c.flushData nowMs).1 := by
  obtain ⟨h1, h2, -, -⟩ := c.flushData_keeps nowMs
  exact .same (by rw [h2]) (congrArg Stable.maxTransmissions (c.flushData_frame nowMs).2) h1

theorem receiveIfData_holds (segment : Segment) : Holds config c (c.receiveIfData segment nowMs config).1 := by
  unfold receiveIfData
  split_ifs
  · have h1 := (c.receiveStreamData_outgoing segment nowMs config).1
    have hu : (c.receiveStreamData segment nowMs config).1.outgoing.unacked = c.outgoing.unacked := by rw [h1]
    have hrtt : (c.receiveStreamData segment nowMs config).1.outgoing.rtt.timeoutMs = c.outgoing.rtt.timeoutMs := by rw [h1]
    exact .same hrtt (congrArg Stable.maxTransmissions (outgoing_frame h1).2.2) ⟨[], by rw [List.append_nil]; exact hu.symm⟩
  · exact Holds.refl c

theorem windowOf_holds (config : Config) (nowMs : ℕ) (segment : Segment) (ack : U32) :
    Holds config c (c.windowOf segment ack nowMs) := by
  rcases windowOf_cases nowMs (c := c) segment ack with h | h <;> rw [h]
  · exact Holds.refl c
  · obtain ⟨hu, hrtt⟩ := c.updateRemoteWindow_unacked segment.window nowMs
    obtain ⟨-, hst, -, -⟩ := c.updateRemoteWindow_frame segment.window nowMs
    exact .same (by rw [hrtt]) (congrArg Stable.maxTransmissions hst) (by rw [hu])

theorem repeatAck_holds (nowMs : ℕ) (duplicate : Bool) (hmax : c.maxTransmissions = config.maxRetransmissions.toNat) :
    Holds config c (c.repeatAck nowMs duplicate).1 := by
  unfold repeatAck
  simp only
  split_ifs
  · have hsame : Holds config c { c with
        duplicateAcks := satSucc8 c.duplicateAcks
        reno := c.reno.onDuplicateAck.onFastLoss (distance c.sendUna c.sendNxt) } := .same rfl rfl (List.prefix_refl _)
    exact hsame.trans (retransmitOldest_holds nowMs false hmax)
  · exact .same rfl rfl (List.prefix_refl _)
  · exact .same rfl rfl (List.prefix_refl _)

theorem repairTimedOutFlight_holds (nowMs : ℕ) (hmax : c.maxTransmissions = config.maxRetransmissions.toNat) :
    Holds config c (c.repairTimedOutFlight nowMs config).1 := by
  unfold repairTimedOutFlight
  split
  · split_ifs
    · exact Holds.refl c
    · exact retransmitOldest_holds nowMs false hmax
  · exact Holds.refl c

/-- what became of an exhausted oldest segment: it keeps its time and its count, with the timeout, or it is acknowledged -/
inductive OldestKept (c : Connection P) (oldest : TrackedSegment) (c' : Connection P) : Prop
  | same (oldest' : TrackedSegment) (hhead : c'.unacked.head? = some oldest') (hsent : oldest'.sentAtMs = oldest.sentAtMs)
      (htimes : oldest'.transmissions = oldest.transmissions) (htimeout : c'.rtt.timeoutMs = c.rtt.timeoutMs)
  | acked (h : oldest.piece.len ≤ distance c.sendUna c'.sendUna) (hroom : distance c.sendUna c'.sendUna ≤ 65535)

theorem OldestKept.refl {oldest : TrackedSegment} (h : c.Exhausted config oldest) : OldestKept c oldest c :=
  .same oldest h.head rfl rfl rfl

theorem OldestKept.holds {oldest : TrackedSegment} (hk : OldestKept c oldest c1) (h : c.Exhausted config oldest)
    (hh : Holds config c1 c') (huna : c'.sendUna = c1.sendUna) : OldestKept c oldest c' := by
  cases hk with
  | same oldest' hhead hsent htimes htimeout =>
    exact .same oldest' (hh.oldest oldest' ⟨hhead, by rw [htimes]; exact h.spent⟩) hsent htimes (hh.timeout.trans htimeout)
  | acked h hroom => exact .acked (by rw [huna]; exact h) (by rw [huna]; exact hroom)

theorem Exhausted.cons {oldest : TrackedSegment} (h : c.Exhausted config oldest) : ∃ rest, c.unacked = oldest :: rest := by
  have hhead := h.head
  cases hu : c.unacked with
  | nil => rw [hu] at hhead; cases hhead
  | cons x rest =>
    rw [hu, List.head?_cons, Option.some.injEq] at hhead
    exact ⟨rest, by rw [hhead]⟩

/-- an ACK that does not reach the end of the oldest segment trims it, and takes no sample -/
theorem afterAck_kept {ack : U32} {oldest : TrackedSegment} (hs : c.SendInv config isn acc) (h : c.Exhausted config oldest)
    (hadv : c.Advances ack) (hc : c.afterAck ack nowMs config = some c') : OldestKept c oldest c' := by
  have huna := afterAck_una config nowMs hc
  by_cases hlen : oldest.piece.len ≤ distance c.sendUna ack
  · exact .acked (by rw [huna]; exact hlen) (by rw [huna]; exact (hadv.within hs.sender).2.trans hs.sender.room)
  · obtain ⟨rest, hu⟩ := h.cons
    have hinv := hs.sender
    have hroom : total (c.unacked.map TrackedSegment.piece) ≤ 65535 := hinv.room
    have hchain : Chain isn acc (c.sender.unaPos acc) (c.unacked.map TrackedSegment.piece) := hinv.chain
    have hack : ack = pos isn (c.sender.unaPos acc + distance c.sendUna ack) := by
      rw [← pos_pos, ← hinv.una]; exact (pos_dist _ _).symm
    rw [hu, List.map_cons] at hroom hchain
    rw [total_cons] at hroom
    obtain ⟨he, -, -⟩ := endSeq_le_iff (n := distance c.sendUna ack) hchain.1 (by omega) (by omega)
    rw [← hack] at he
    have hloop : ackLoop c.rtt ack nowMs c.unacked 0 false none = (c.unacked, 0, false, none) := by
      rw [hu]
      exact if_neg fun hle => hlen (he.1 hle)
    obtain ⟨oldest', hfront, hsent, htimes⟩ : ∃ oldest', (trimFront ack c.unacked).1.head? = some oldest' ∧
        oldest'.sentAtMs = oldest.sentAtMs ∧ oldest'.transmissions = oldest.transmissions := by
      rw [hu]
      simp only [trimFront]
      split_ifs
      · exact ⟨_, rfl, rfl, rfl⟩
      · exact ⟨oldest, rfl, rfl, rfl⟩
    have hadvance : (c.advanceAck ack nowMs).1.unacked = (trimFront ack c.unacked).1 ∧ (c.advanceAck ack nowMs).1.rtt = c.rtt := by
      unfold advanceAck
      rw [hloop]
      exact ⟨rfl, rfl⟩
    have hfields := afterAck_acked hc
    exact .same oldest' (by rw [hfields.1, hadvance.1]; exact hfront) hsent htimes (by rw [hfields.2, hadvance.2])

theorem receive_flush_holds (config : Config) (nowMs : ℕ) (segment : Segment) :
    Holds config c ((c.receiveIfData segment nowMs config).1.flushData nowMs).1 :=
  (receiveIfData_holds segment).trans (flushData_holds config nowMs)

/-- the end of the handshake acknowledges all that is in flight -/
theorem OldestKept.opened {oldest : TrackedSegment} (hs : c.SendInv config isn acc) (h : c.Exhausted config oldest)
    (huna : c'.sendUna = c.sendNxt) : OldestKept c oldest c' := by
  obtain ⟨rest, hu⟩ := h.cons
  have hroom : total (c.unacked.map TrackedSegment.piece) ≤ 65535 := hs.sender.room
  have hd := hs.distance_eq
  rw [← huna] at hd
  refine .acked ?_ (hd.trans_le hroom)
  rw [hd, hu, List.map_cons, total_cons]
  exact Nat.le_add_right _ _

/-- **A segment.** -/
theorem input_kept {oldest : TrackedSegment} (hs : c.SendInv config isn acc)
    (hmax : c.maxTransmissions = config.maxRetransmissions.toNat) (h : c.Exhausted config oldest) (segment : Segment)
    (hopen : (c.input segment nowMs config).2.closed = false) : OldestKept c oldest (c.input segment nowMs config).1 := by
  have hstay := OldestKept.refl h
  unfold input at hopen ⊢
  split_ifs at hopen ⊢ with h1 h2
  · exact hstay
  · exact hstay
  · unfold onSegment at hopen ⊢
    split_ifs at hopen ⊢ with hrst
    · exact hstay
    · have hrst' : segment.flags.contains .RST = false := by simpa using hrst
      split at hopen
      · rename_i hst
        unfold onSynSent
        split_ifs with hsyn
        · have hsend := establishClient_sender hs.sender (by norm_num) hst segment nowMs config
          exact OldestKept.opened hs h (congrArg Sender.una hsend)
        · exact hstay
      · rename_i hst
        unfold onSynReceived
        split_ifs with h3 h4
        · exact hstay.holds h (retransmitOldest_holds nowMs false hmax)
            (congrArg Sender.una (c.retransmitOldest_sender nowMs false))
        · exact hstay
        · have hsend := establishServer_sender hs.sender (by norm_num) hst segment nowMs
          have hm : 0 < (c.establishServer segment nowMs).mss := by
            rw [(c.establishServer_frame segment nowMs).2.2.1]; exact hs.mss
          exact OldestKept.opened hs h ((receive_flush_pays config nowMs segment hm).una.trans (congrArg Sender.una hsend))
      · rename_i hn1 hn2
        obtain ⟨c1, out, hack, -, hm1, heq⟩ := onSynchronized_parts config nowMs ⟨hn1, hn2⟩ hrst' hopen
        have hrest := receive_flush_pays config nowMs (c := c1) segment (by rw [hm1]; exact hs.mss)
        have hfirst : OldestKept c oldest c1 := by
          rcases hack with ⟨-, rfl, -⟩ | ⟨ack, -, hcases⟩
          · exact hstay
          · cases hcases with
            | outside => exact hstay
            | repeated duplicate =>
              have hrepeat := hstay.holds h (repeatAck_holds nowMs duplicate hmax) (repeatAck_pays config nowMs duplicate).una
              exact hrepeat.holds h (windowOf_holds config nowMs segment ack) (windowOf_una nowMs segment ack)
            | advanced c2 hadv hc2 =>
              have hwin := windowOf_holds config nowMs (c := c2) segment ack
              have hmax2 : c2.maxTransmissions = c.maxTransmissions :=
                congrArg Stable.maxTransmissions (afterAck_frame nowMs config hc2).2.1
              have hkept := (afterAck_kept hs h hadv hc2).holds h hwin (windowOf_una nowMs segment ack)
              exact hkept.holds h (repairTimedOutFlight_holds nowMs (hwin.budget.trans (hmax2.trans hmax)))
                (repairTimedOutFlight_pays config nowMs).una
        rw [heq]
        exact hfirst.holds h (receive_flush_holds config nowMs segment) hrest.una

theorem poll_kept {oldest : TrackedSegment} (h : c.Exhausted config oldest)
    (hopen : (c.poll nowMs config).2.closed = false) : OldestKept c oldest (c.poll nowMs config).1 := by
  have hstay := OldestKept.refl h
  obtain ⟨rest, hu⟩ := h.cons
  have hflush : OldestKept c oldest (c.flushData nowMs).1 := by
    obtain ⟨more, hmore⟩ := (c.flushData_keeps nowMs).1
    have hhead : (c.flushData nowMs).1.unacked.head? = some oldest := by rw [← hmore, hu]; rfl
    exact .same oldest hhead rfl rfl (flushData_holds config nowMs).timeout
  unfold poll at hopen ⊢
  split_ifs at hopen ⊢ with h1 h2
  · exact hstay
  · -- a probe takes no sample of the timer, and what it sends comes last
    unfold pollZeroWindow
    simp only
    split_ifs
    · exact .same oldest h.head rfl rfl rfl
    · rcases zeroWindowProbe_cases { c with
        nextZeroWindowProbeMs := some (c.nextZeroWindowProbeMs.getD (satAdd nowMs config.initialRtoMs)) } nowMs with
        ⟨x, -, -, heq⟩ | ⟨-, ⟨-, heq⟩ | ⟨-, heq⟩⟩ <;> rw [heq]
      · exact .same oldest h.head rfl rfl rfl
      · exact .same oldest h.head rfl rfl rfl
      · refine .same oldest ?_ rfl rfl rfl
        change (c.unacked ++ [_]).head? = some oldest
        rw [hu]; rfl
    · exact .same oldest h.head rfl rfl rfl
  · simp only [hu, if_pos h.spent] at hopen ⊢
    split_ifs at hopen ⊢
    · cases hopen
    · exact hflush

/-- the time at which a tracked segment is sent again, or the connection removed -/
def retransmitAt (c : Connection P) (x : TrackedSegment) : ℕ := satAdd x.sentAtMs c.rtt.timeoutMs

/-- **The poll at the deadline.** -/
theorem Exhausted.poll {oldest : TrackedSegment} (h : c.Exhausted config oldest) (hdue : c.retransmitAt oldest ≤ nowMs)
    (hprobe : ¬ c.ProbeWork) : (c.poll nowMs config).2.closed = true := by
  obtain ⟨rest, hu⟩ := h.cons
  rw [retransmitAt] at hdue
  unfold Connection.poll
  split_ifs with h1 h2
  · rfl
  · exact absurd h2 hprobe
  · simp only [hu]
    rw [if_pos hdue, if_pos h.spent]
    rfl

/-- **The deadline.** A segment that stays the oldest is the one that was kept. -/
theorem OldestKept.deadline {oldest oldest' : TrackedSegment} {isn' : U32} {acc' : List U8} (hk : OldestKept c oldest c')
    (hs : c.SendInv config isn acc) (hs' : c'.SendInv config isn' acc') (h : c.Exhausted config oldest)
    (hhead : c'.unacked.head? = some oldest') (hend : oldest'.endSeq = oldest.endSeq) :
    c'.retransmitAt oldest' = c.retransmitAt oldest ∧ c'.Exhausted config oldest' := by
  cases hk with
  | same x hx hsent htimes htimeout =>
    rw [hhead, Option.some.injEq] at hx
    subst hx
    refine ⟨by rw [retransmitAt, retransmitAt, hsent, htimeout], hhead, ?_⟩
    rw [htimes]; exact h.spent
  | acked hlen hfar =>
    -- what is acknowledged ends before what is left
    exfalso
    obtain ⟨rest, hu⟩ := h.cons
    have hmem : oldest' ∈ c'.unacked := List.mem_of_mem_head? hhead
    obtain ⟨rest', hu'⟩ : ∃ rest', c'.unacked = oldest' :: rest' := by
      cases hl : c'.unacked with
      | nil => rw [hl] at hmem; cases hmem
      | cons y rest' =>
        rw [hl, List.head?_cons, Option.some.injEq] at hhead
        exact ⟨rest', by rw [hhead]⟩
    have hc : Contiguous c.sendUna c.unacked c.sendNxt := hs.sequenceSpace.contiguous
    have hc' : Contiguous c'.sendUna c'.unacked c'.sendNxt := hs'.sequenceSpace.contiguous
    rw [hu] at hc
    rw [hu'] at hc'
    have hroom : total (c.unacked.map TrackedSegment.piece) ≤ 65535 := hs.sender.room
    have hroom' : total (c'.unacked.map TrackedSegment.piece) ≤ 65535 := hs'.sender.room
    rw [hu, List.map_cons, total_cons] at hroom
    rw [hu', List.map_cons, total_cons] at hroom'
    have h0 := hs'.len_pos hmem
    have hpos' : c'.sendUna = pos c.sendUna (distance c.sendUna c'.sendUna) := (pos_dist _ _).symm
    rw [oldest.endSeq_eq, oldest'.endSeq_eq, hc.1, hc'.1, hpos', add_asU32] at hend
    have heq := (pos_inj c.sendUna (p := distance c.sendUna c'.sendUna + oldest'.piece.len) (q := oldest.piece.len)
      (by omega) (by omega)).1 hend
    omega

end Connection

/-! ## Ledgers -/

/-- a socket, and where everything it emitted ends in the stream of sequence numbers -/
structure Ledger (P : Type) where
  socket : Socket P
  log : List ℕ
deriving DecidableEq, Repr

namespace Ledger

open Connection

variable {P : Type} {config : Config} {isn : U32} {l : Ledger P}

def start (config : Config) (o : Opening P) : Ledger P :=
  ⟨o.socket config, (o.socket config).conn.endPositions (o.socket config).sent⟩

/-- a poll that repeats a byte in flight to probe the closed window -/
def probes (s : Socket P) : SocketOp → Bool
  | .poll _ => decide (s.retained = true ∧ s.conn.RepeatsProbe)
  | _ => false

def step (config : Config) (l : Ledger P) (op : SocketOp) : Ledger P :=
  let socket := l.socket.step config op
  let emitted := socket.sent.drop l.socket.sent.length
  ⟨socket, l.log ++ if probes l.socket op then [] else socket.conn.endPositions emitted⟩

abbrev run (config : Config) (o : Opening P) (ops : List SocketOp) : Ledger P := Run.exec (step config) (start config o) ops

/-- the ledger only watches its socket -/
theorem run_socket (config : Config) (o : Opening P) (ops : List SocketOp) :
    (run config o ops).socket = Socket.run config o ops :=
  Run.exec_map Ledger.socket (fun _ _ => rfl) _ ops

/-- the log is bounded, and the connection is in order with it as long as it is retained -/
structure Inv (config : Config) (isn : U32) (l : Ledger P) : Prop where
  bounded : Tally.Bounded (max 1 config.maxRetransmissions.toNat) l.log
  funded : l.socket.retained = true → Funded config isn l.socket.accepted l.log l.socket.conn

theorem inv_start (hv : config.Valid) (o : Opening P) : (start config o).Inv config o.isn := by
  have hsend := o.sendInv hv
  have hfunded : Funded config o.isn [] (start config o).log (start config o).socket.conn := by
    cases o with
    | client peer localPort remotePort isn nowMs token =>
      exact sendTracked_funded (by decide) (by decide) hsend rfl rfl rfl rfl
    | server peer syn isn nowMs token =>
      have hquiet := (Connection.new peer syn.dstPort syn.srcPort .synReceived isn (syn.seq + 1) config
        token).updateRemoteWindow_sender syn.window nowMs
      obtain ⟨hu, -⟩ := updateRemoteWindow_unacked (Connection.new peer syn.dstPort syn.srcPort .synReceived isn (syn.seq + 1)
        config token) syn.window nowMs
      obtain ⟨-, hst, -, -⟩ := updateRemoteWindow_frame (Connection.new peer syn.dstPort syn.srcPort .synReceived isn
        (syn.seq + 1) config token) syn.window nowMs
      exact sendTracked_funded (by decide) (by decide) hsend (congrArg Sender.phase hquiet) hu
        ((congrArg Sender.una hquiet).trans (congrArg Sender.nxt hquiet).symm) (congrArg Stable.maxTransmissions hst)
  exact ⟨hfunded.bounded, fun _ => hfunded⟩

/-- an operation that emits nothing with a place in the stream leaves the log alone -/
theorem step_log_quiet {op : SocketOp} (out : List Segment) (hsent : (l.socket.step config op).sent = l.socket.sent ++ out)
    (hout : ∀ x ∈ out, x.sequenceLen = 0) : (l.step config op).log = l.log := by
  simp only [step, hsent, List.drop_left, endPositions_quiet hout, ite_self, List.append_nil]

/-- an operation that leaves the connection retained -/
theorem step_log_counted {op : SocketOp} {out : List Segment} (hsent : (l.socket.step config op).sent = l.socket.sent ++ out)
    (hprobe : probes l.socket op = false) :
    (l.step config op).log = l.log ++ (l.socket.step config op).conn.endPositions out := by
  simp only [step, hsent, List.drop_left, hprobe, Bool.false_eq_true, if_false]

theorem Inv.counted {op : SocketOp} (h : Funded config isn (l.socket.step config op).accepted (l.step config op).log
    (l.socket.step config op).conn) : (l.step config op).Inv config isn := ⟨h.bounded, fun _ => h⟩

/-- a connection that is removed emits nothing that counts -/
theorem Inv.gone (hi : l.Inv config isn) {op : SocketOp} (out : List Segment)
    (hsent : (l.socket.step config op).sent = l.socket.sent ++ out) (hout : ∀ x ∈ out, x.sequenceLen = 0)
    (hr : (l.socket.step config op).retained = false) : (l.step config op).Inv config isn := by
  refine ⟨by rw [step_log_quiet out hsent hout]; exact hi.bounded, fun hr' => ?_⟩
  rw [show (l.step config op).socket.retained = false from hr] at hr'
  cases hr'

/-- an operation on a removed connection -/
theorem Inv.removed_step (hi : l.Inv config isn) (hret : l.socket.retained = false) (op : SocketOp) : (l.step config op).Inv config isn := by
  have hr := (Socket.step_removed config hret op).2.2.2
  cases op with
  | input segment nowMs =>
    by_cases hrst : segment.flags.contains .RST = true
    · exact hi.gone [] (by simp [Socket.step, Socket.onInput, hret, hrst]) (List.forall_mem_nil _) hr
    · refine hi.gone [resetFor segment] (by simp [Socket.step, Socket.onInput, hret, hrst]) (fun x hx => ?_) hr
      rw [List.mem_singleton.1 hx]; exact resetFor_sequenceLen segment
  | write | read | close | abort | poll =>
    exact hi.gone [] (by simp [Socket.step, Socket.onWrite, Socket.onRead, Socket.onUpdate, Socket.onAbort, hret])
      (List.forall_mem_nil _) hr

section Retained

variable (hi : l.Inv config isn) (hret : l.socket.retained = true)
include hi hret

theorem Inv.input_step (segment : Segment) (nowMs : ℕ) : (l.step config (.input segment nowMs)).Inv config isn := by
  have hf := hi.funded hret
  have hsent : (l.socket.step config (.input segment nowMs)).sent = l.socket.sent ++
      (l.socket.conn.input segment nowMs config).2.segments := by simp [Socket.step, Socket.onInput, hret]
  cases hcl : (l.socket.conn.input segment nowMs config).2.closed with
  | true =>
    rw [((input_moves config nowMs segment hf.send.mss).2 hcl).1] at hsent
    exact hi.gone [] hsent (List.forall_mem_nil _) (by simp [Socket.step, Socket.onInput, hret, hcl])
  | false =>
    refine Inv.counted ?_
    rw [step_log_counted hsent rfl]
    simp only [Socket.step, Socket.onInput, hret, if_true]
    exact (input_accounts segment hf.send.mss hcl).funded hf

theorem Inv.write_step (bytes : List U8) (nowMs : ℕ) : (l.step config (.write bytes nowMs)).Inv config isn := by
  have hf := hi.funded hret
  refine Inv.counted ?_
  rcases hw : l.socket.conn.write bytes nowMs config with e | ⟨conn, count, out⟩
  · have hsame : l.socket.step config (.write bytes nowMs) = l.socket := by simp [Socket.step, Socket.onWrite, hret, hw]
    have hlog : (l.step config (.write bytes nowMs)).log = l.log :=
      step_log_quiet [] (by rw [hsame, List.append_nil]) (List.forall_mem_nil _)
    rw [hlog, hsame]
    exact hf
  · have hsent : (l.socket.step config (.write bytes nowMs)).sent = l.socket.sent ++ out := by
      simp [Socket.step, Socket.onWrite, hret, hw]
    rw [step_log_counted hsent rfl]
    simp only [Socket.step, Socket.onWrite, hret, if_true, hw]
    exact write_funded hf hw

theorem Inv.read_step (max : ℕ) : (l.step config (.read max)).Inv config isn := by
  have hsent : (l.socket.step config (.read max)).sent = l.socket.sent ++ (l.socket.conn.read max).2.2 := by
    simp [Socket.step, Socket.onRead, hret]
  refine Inv.counted ?_
  rw [step_log_counted hsent rfl]
  simp only [Socket.step, Socket.onRead, hret, if_true]
  exact (read_pays max).funded (hi.funded hret)

theorem Inv.close_step (nowMs : ℕ) : (l.step config (.close nowMs)).Inv config isn := by
  have hf := hi.funded hret
  have hsent : (l.socket.step config (.close nowMs)).sent = l.socket.sent ++ (l.socket.conn.close nowMs).2.segments := by
    simp [Socket.step, Socket.onUpdate, hret]
  cases hcl : (l.socket.conn.close nowMs).2.closed with
  | true =>
    rw [((close_moves config nowMs hf.send.mss).2 hcl).1] at hsent
    exact hi.gone [] hsent (List.forall_mem_nil _) (by simp [Socket.step, Socket.onUpdate, hret, hcl])
  | false =>
    refine Inv.counted ?_
    rw [step_log_counted hsent rfl]
    simp only [Socket.step, Socket.onUpdate, hret, if_true]
    exact (close_pays nowMs hf.send.mss).funded hf

theorem Inv.abort_step : (l.step config .abort).Inv config isn := by
  refine hi.gone [l.socket.conn.resetSegment] (by simp [Socket.step, Socket.onAbort, hret]) (fun x hx => ?_)
    (by simp [Socket.step, Socket.onAbort, hret])
  rw [List.mem_singleton.1 hx]
  exact l.socket.conn.resetSegment_sequenceLen

/-- a poll, whose segment counts unless it repeats a probe -/
theorem Inv.poll_step (nowMs : ℕ) : (l.step config (.poll nowMs)).Inv config isn := by
  have hf := hi.funded hret
  have hsent : (l.socket.step config (.poll nowMs)).sent = l.socket.sent ++ (l.socket.conn.poll nowMs config).2.segments := by
    simp [Socket.step, Socket.onUpdate, hret]
  cases hcl : (l.socket.conn.poll nowMs config).2.closed with
  | true =>
    rw [(poll_moves config nowMs hf.send.mss).2 hcl] at hsent
    exact hi.gone [] hsent (List.forall_mem_nil _) (by simp [Socket.step, Socket.onUpdate, hret, hcl])
  | false =>
    have hlog : (l.step config (.poll nowMs)).log = l.log ++ (l.socket.step config (.poll nowMs)).conn.endPositions
        (if l.socket.conn.RepeatsProbe then [] else (l.socket.conn.poll nowMs config).2.segments) := by
      simp only [step, probes, hsent, hret, true_and, List.drop_left, decide_eq_true_eq]
      split_ifs <;> rfl
    refine Inv.counted ?_
    rw [hlog]
    simp only [Socket.step, Socket.onUpdate, hret, if_true]
    exact (poll_accounts hf.send.mss).funded hf

end Retained

/-- **One operation.** -/
theorem inv_step (hi : l.Inv config isn) (op : SocketOp) : (l.step config op).Inv config isn := by
  cases hret : l.socket.retained with
  | false => exact hi.removed_step hret op
  | true =>
    cases op with
    | input segment nowMs => exact hi.input_step hret segment nowMs
    | write bytes nowMs => exact hi.write_step hret bytes nowMs
    | read max => exact hi.read_step hret max
    | close nowMs => exact hi.close_step hret nowMs
    | abort => exact hi.abort_step hret
    | poll nowMs => exact hi.poll_step hret nowMs

theorem inv_run (hv : config.Valid) (o : Opening P) (ops : List SocketOp) : (run config o ops).Inv config o.isn :=
  Run.exec_invariant (P := fun l : Ledger P => l.Inv config o.isn) (fun _ op hi => inv_step hi op) (inv_start hv o) ops

end Ledger

namespace Socket

open Connection

variable {P : Type} {config : Config} {isn : U32} {log : List ℕ} {s : Socket P}

/-- **One operation**, whatever it is, leaves an exhausted oldest segment as it is or sees it acknowledged. -/
theorem step_kept {oldest : TrackedSegment} (hf : Funded config isn s.accepted log s.conn) (hret : s.retained = true)
    (h : s.conn.Exhausted config oldest) (op : SocketOp) (hr : (s.step config op).retained = true) :
    OldestKept s.conn oldest (s.step config op).conn := by
  obtain ⟨rest, hu⟩ := h.cons
  -- what is flushed comes after what is in flight
  have hflush : ∀ (c : Connection P) (nowMs : ℕ), c.unacked = s.conn.unacked → c.rtt = s.conn.rtt →
      OldestKept s.conn oldest (c.flushData nowMs).1 := fun c nowMs hcu hrtt => by
    obtain ⟨⟨more, hmore⟩, hrtt', -, -⟩ := c.flushData_keeps nowMs
    exact .same oldest (by rw [← hmore, hcu, hu]; rfl) rfl rfl (by rw [hrtt', hrtt])
  cases op with
  | input segment nowMs =>
    simp only [step, onInput, hret, if_true] at hr ⊢
    exact input_kept hf.send hf.budget h segment (by simpa using hr)
  | write bytes nowMs =>
    simp only [step, onWrite, hret, if_true]
    rcases hw : s.conn.write bytes nowMs config with e | ⟨conn, count, out⟩
    · exact OldestKept.refl h
    · unfold Connection.write at hw
      split_ifs at hw
      simp only [Except.ok.injEq, Prod.mk.injEq] at hw
      rw [← hw.1]
      exact hflush _ nowMs rfl rfl
  | read max =>
    simp only [step, onRead, hret, if_true]
    exact .same oldest h.head rfl rfl rfl
  | close nowMs =>
    simp only [step, onUpdate, hret, if_true]
    unfold Connection.close
    split
    · exact hflush _ nowMs rfl rfl
    · exact hflush _ nowMs rfl rfl
    · exact OldestKept.refl h
    · exact OldestKept.refl h
    · exact OldestKept.refl h
  | abort => simp only [step, onAbort, hret, if_true, Bool.false_eq_true] at hr
  | poll nowMs =>
    simp only [step, onUpdate, hret, if_true] at hr ⊢
    exact poll_kept h (by simpa using hr)

end Socket

/-- the budget of the transmissions, and what becomes of a segment that has used it up -/
structure Budget {P : Type} (config : Config) (isn : U32) (l : Ledger P) : Prop where
  /-- a position is a sequence number counted from the ISN -/
  anchored : l.socket.retained = true → l.socket.conn.sendUna = isn + asU32 l.socket.conn.unaPosition
  bounded : ∀ q, l.log.count q ≤ max 1 config.maxRetransmissions.toNat
  /-- the log has each tracked segment as often as the segment says -/
  tracked : l.socket.retained = true → ∀ x ∈ l.socket.conn.unacked,
    l.log.count (l.socket.conn.position x.endSeq) = x.transmissions
  /-- no operation moves the deadline of an exhausted segment that stays the oldest -/
  deadline : l.socket.retained = true → ∀ oldest, l.socket.conn.Exhausted config oldest → ∀ op oldest',
    (l.socket.step config op).retained = true → (l.socket.step config op).conn.unacked.head? = some oldest' →
      oldest'.endSeq = oldest.endSeq →
        (l.socket.step config op).conn.retransmitAt oldest' = l.socket.conn.retransmitAt oldest ∧
          (l.socket.step config op).conn.Exhausted config oldest'
  /-- a poll at or after the deadline that does not probe the window removes the connection -/
  removal : l.socket.retained = true → ∀ oldest, l.socket.conn.Exhausted config oldest → ∀ nowMs,
    l.socket.conn.retransmitAt oldest ≤ nowMs → ¬ l.socket.conn.ProbeWork →
      (l.socket.step config (.poll nowMs)).retained = false

open Connection in
/-- **The transmission budget.** However a connection is made and whatever segments and local operations follow, no segment is
transmitted more often than the budget says, over all causes. While a segment that has used up its budget stays the oldest,
nothing moves its deadline, and the poll that finds the deadline passed removes the connection. -/
theorem transmission_budget {P : Type} (config : ValidConfig) (o : Opening P) (ops : List SocketOp) :
    Budget config.1 o.isn (Ledger.run config.1 o ops) := by
  have hi := Ledger.inv_run config.valid o ops
  generalize Ledger.run config.1 o ops = l at hi ⊢
  refine ⟨fun hr => (hi.funded hr).send.anchored, hi.bounded, fun hr x hx => (hi.funded hr).count hx, ?_, ?_⟩
  · intro hr oldest h op oldest' hr' hhead hend
    have hnext := (Ledger.inv_step hi op).funded hr'
    exact (Socket.step_kept (hi.funded hr) hr h op hr').deadline (hi.funded hr).send hnext.send h hhead hend
  · intro hr oldest h nowMs hdue hprobe
    have hclosed := h.poll hdue hprobe
    simp [Socket.step, Socket.onUpdate, hr, hclosed]

example : (Ledger.run Config.default (.client () 9000 80 100 0 0) (partialAckRun ++ [.poll 5000])).log = [1, 4, 4] := by decide

end FipsTcp
