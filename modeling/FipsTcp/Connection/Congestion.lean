/-
Reno congestion control, over every history.

A history is a list of the calls that a connection makes, with arbitrary words as their arguments; `set_mss` may only lower the
segment size (`Allowed`). Two flags decide what an event does, and the invariant `Disciplined` says what is known of the window
and the threshold whatever the flags are: the threshold is at least two segments from the start on, so an ACK that ends a fast
recovery leaves a window of at least two segments.
- `Disciplined.step`, `disciplined_run`: the invariant, one event and every history;
- `threshold_kept`, `inflated`: the threshold over a history without an ACK of payload;
- `onAck_open`: one ACK outside fast recovery.
-/
import FipsTcp.Core.Recovery
import FipsTcp.Lib.Run

namespace FipsTcp

namespace Reno

inductive Event where
  | setMss (mss : BitVec 64)
  | ack (acked : BitVec 64)
  | duplicateAck
  | fastLoss (inFlight : BitVec 64)
  | timeout (inFlight : BitVec 64)
deriving DecidableEq, Repr

def step (r : Reno) : Event → Reno
  | .setMss mss => r.setMss mss.toNat
  | .ack acked => r.onAck acked.toNat
  | .duplicateAck => r.onDuplicateAck
  | .fastLoss inFlight => r.onFastLoss inFlight.toNat
  | .timeout inFlight => r.onTimeout inFlight.toNat

/-- a segment size is only ever lowered -/
def Allowed (r : Reno) : Event → Prop
  | .setMss mss => 1 ≤ mss.toNat ∧ mss.toNat ≤ r.mss
  | _ => True

/-- an ACK that acknowledges payload -/
def Acknowledges : Event → Prop
  | .ack acked => acked ≠ 0
  | _ => False

/-- an event that leaves fast recovery as it is -/
def Keeps : Event → Prop
  | .timeout _ => False
  | e => ¬ Acknowledges e

/-- whether a history ends in fast recovery -/
def recovering (events : List Event) : Bool :=
  events.foldl (fun fast e =>
    match e with
    | .fastLoss _ => true
    | .timeout _ => false
    | .ack acked => if acked = 0 then fast else false
    | .setMss _ | .duplicateAck => fast) false

abbrev run (mss : U16) (events : List Event) : Reno := Run.exec step (new mss.toNat) events

/-- what holds whatever the flags are -/
structure Disciplined (r : Reno) : Prop where
  mss_pos : 1 ≤ r.mss
  mss_le : r.mss ≤ 65535
  mss_window : r.mss ≤ r.cwnd
  window_le : r.cwnd ≤ maxU64
  threshold : 2 * r.mss ≤ r.ssthresh
  threshold_le : r.ssthresh ≤ maxU64

variable {r : Reno} {n : ℕ}

/-! ## One event -/

/-- the threshold after a loss -/
theorem loss_threshold (h : r.Disciplined) (hn : n ≤ maxU64) :
    2 * r.mss ≤ max (n / 2) (satMul r.mss 2) ∧ max (n / 2) (satMul r.mss 2) ≤ maxU64 := by
  have hle := h.mss_le
  have htwice : satMul r.mss 2 = 2 * r.mss := by
    unfold satMul maxU64
    omega
  rw [htwice]
  refine ⟨le_max_right _ _, max_le ((Nat.div_le_self _ _).trans hn) ?_⟩
  unfold maxU64
  omega

theorem Disciplined.setMss (h : r.Disciplined) (h1 : 1 ≤ n) (hn : n ≤ r.mss) : (r.setMss n).Disciplined := by
  have hwindow := h.mss_window
  have hmax : max n 1 = n := max_eq_left h1
  have hsame : max r.cwnd n = r.cwnd := max_eq_left (hn.trans hwindow)
  have hset : r.setMss n = { r with mss := n } := by
    unfold Reno.setMss
    rw [hmax, hsame]
  rw [hset]
  have hthreshold := (Nat.mul_le_mul_left 2 hn).trans h.threshold
  exact ⟨h1, hn.trans h.mss_le, hn.trans hwindow, h.window_le, hthreshold, h.threshold_le⟩

/-- an ACK of payload in fast recovery -/
theorem onAck_recovery (hfast : r.inFastRecovery = true) (hn : n ≠ 0) :
    r.onAck n = { r with inRtoRecovery := false, inFastRecovery := false, cwnd := r.ssthresh } := by
  unfold onAck
  rw [if_neg hn, if_pos hfast]

/-- by how much an ACK of payload opens the window -/
def increment (r : Reno) (n : ℕ) : ℕ := if r.cwnd < r.ssthresh then min n r.mss else max (satMul r.mss r.mss / r.cwnd) 1

theorem increment_bounds (h : r.Disciplined) (hn : n ≠ 0) : 1 ≤ r.increment n ∧ r.increment n ≤ r.mss := by
  have hpos := h.mss_pos
  unfold increment
  split_ifs
  · exact ⟨le_min (Nat.one_le_iff_ne_zero.2 hn) hpos, min_le_right _ _⟩
  · refine ⟨le_max_right _ _, max_le ?_ hpos⟩
    -- the window is at least one segment
    refine Nat.div_le_of_le_mul ((min_le_left _ _).trans ?_)
    exact Nat.mul_le_mul_right _ h.mss_window

/-- an ACK of payload outside fast recovery -/
theorem onAck_open (h : r.Disciplined) (hfast : r.inFastRecovery = false) (hn : n ≠ 0) :
    r.onAck n = { r with inRtoRecovery := false, cwnd := satAdd r.cwnd (r.increment n) } := by
  have hsame : max (satAdd r.cwnd (r.increment n)) r.mss = satAdd r.cwnd (r.increment n) := by
    refine max_eq_left ?_
    have hwindow := h.mss_window
    exact le_min (hwindow.trans (Nat.le_add_right _ _)) (hwindow.trans h.window_le)
  unfold onAck
  rw [if_neg hn, if_neg (by rw [hfast]; exact Bool.false_ne_true)]
  simp only [increment] at hsame ⊢
  rw [hsame]

theorem Disciplined.onAck (h : r.Disciplined) (n : ℕ) : (r.onAck n).Disciplined := by
  by_cases hn : n = 0
  · unfold Reno.onAck
    rw [if_pos hn]
    exact h
  cases hfast : r.inFastRecovery with
  | true =>
    rw [onAck_recovery hfast hn]
    have hthreshold := h.threshold
    exact ⟨h.mss_pos, h.mss_le, by simp only; omega, h.threshold_le, hthreshold, h.threshold_le⟩
  | false =>
    rw [onAck_open h hfast hn]
    have hwindow : r.mss ≤ satAdd r.cwnd (r.increment n) :=
      le_min (h.mss_window.trans (Nat.le_add_right _ _)) (h.mss_window.trans h.window_le)
    exact ⟨h.mss_pos, h.mss_le, hwindow, min_le_right _ _, h.threshold, h.threshold_le⟩

theorem Disciplined.onDuplicateAck (h : r.Disciplined) : r.onDuplicateAck.Disciplined := by
  unfold Reno.onDuplicateAck
  split_ifs
  · have hwindow : r.mss ≤ satAdd r.cwnd r.mss := le_min (Nat.le_add_left _ _) (h.mss_window.trans h.window_le)
    exact ⟨h.mss_pos, h.mss_le, hwindow, min_le_right _ _, h.threshold, h.threshold_le⟩
  · exact h

theorem Disciplined.onFastLoss (h : r.Disciplined) (hn : n ≤ maxU64) : (r.onFastLoss n).Disciplined := by
  unfold Reno.onFastLoss
  split_ifs
  · exact h
  · obtain ⟨hlow, hhigh⟩ := loss_threshold h hn
    have hwindow : r.mss ≤ satAdd (max (n / 2) (satMul r.mss 2)) (satMul r.mss 3) := by
      refine le_min ?_ (h.mss_window.trans h.window_le)
      omega
    exact ⟨h.mss_pos, h.mss_le, hwindow, min_le_right _ _, hlow, hhigh⟩

theorem Disciplined.onTimeout (h : r.Disciplined) (hn : n ≤ maxU64) : (r.onTimeout n).Disciplined := by
  obtain ⟨hlow, hhigh⟩ := loss_threshold h hn
  have hmss := h.mss_window.trans h.window_le
  unfold Reno.onTimeout
  cases r.inRtoRecovery with
  | true => exact ⟨h.mss_pos, h.mss_le, le_rfl, hmss, h.threshold, h.threshold_le⟩
  | false => exact ⟨h.mss_pos, h.mss_le, le_rfl, hmss, hlow, hhigh⟩

theorem word_le (x : BitVec 64) : x.toNat ≤ maxU64 := Nat.le_pred_of_lt x.isLt

/-- **One event.** -/
theorem Disciplined.step (h : r.Disciplined) {e : Event} (he : r.Allowed e) : (r.step e).Disciplined := by
  cases e with
  | setMss mss => exact h.setMss he.1 he.2
  | ack acked => exact h.onAck _
  | duplicateAck => exact h.onDuplicateAck
  | fastLoss inFlight => exact h.onFastLoss (word_le _)
  | timeout inFlight => exact h.onTimeout (word_le _)

/-! ## Histories -/

theorem disciplined_new {mss : U16} (h : mss ≠ 0) : (new mss.toNat).Disciplined := by
  have hlt := mss.isLt
  have hpos : 1 ≤ mss.toNat := Nat.one_le_iff_ne_zero.2 fun h0 => h (BitVec.eq_of_toNat_eq h0)
  constructor <;> simp only [new, satMul, maxU64] <;> omega

/-- **Every history.** -/
theorem disciplined_run {mss : U16} (h : mss ≠ 0) {events : List Event}
    (hallowed : Run.Along step Allowed (new mss.toNat) events) : (run mss events).Disciplined :=
  Run.exec_invariant_along (P := Disciplined) (fun _ _ he hd => hd.step he) (disciplined_new h) hallowed

/-- the flag is what the history says -/
theorem recovering_run (mss : U16) (events : List Event) : (run mss events).inFastRecovery = recovering events := by
  induction events using List.reverseRecOn with
  | nil => rfl
  | append_singleton events e ih =>
    rw [run, Run.exec_append, Run.exec_cons, Run.exec_nil, recovering, List.foldl_append, List.foldl_cons, List.foldl_nil]
    rw [run] at ih
    rw [recovering] at ih
    rw [← ih]
    generalize Run.exec step (new mss.toNat) events = r
    cases e with
    | setMss mss => rfl
    | ack acked =>
      have hzero : acked.toNat = 0 ↔ acked = 0 := ⟨fun h => BitVec.eq_of_toNat_eq h, fun h => by rw [h]; rfl⟩
      simp only [step, onAck, hzero]
      split_ifs with h0 hfast
      · rfl
      · rfl
      all_goals exact Bool.eq_false_iff.2 hfast
    | duplicateAck =>
      simp only [step, onDuplicateAck]
      split_ifs <;> rfl
    | fastLoss inFlight =>
      simp only [step, onFastLoss]
      split_ifs with hfast
      · exact hfast
      · rfl
    | timeout inFlight => rfl

example : recovering [.fastLoss 8, .duplicateAck, .timeout 8, .ack 0, .fastLoss 4] = true := by decide

/-- without an ACK of payload a timeout recovery lasts, and only a fast loss moves the threshold -/
theorem threshold_step (hrto : r.inRtoRecovery = true) {e : Event} (he : ¬ Acknowledges e) :
    (r.step e).inRtoRecovery = true ∧ ((∀ inFlight, e ≠ .fastLoss inFlight) → (r.step e).ssthresh = r.ssthresh) := by
  cases e with
  | setMss mss => exact ⟨hrto, fun _ => rfl⟩
  | ack acked =>
    have h0 : acked.toNat = 0 := by
      rw [not_not.1 he]
      rfl
    simp only [step, onAck, if_pos h0]
    exact ⟨hrto, fun _ => trivial⟩
  | duplicateAck =>
    simp only [step, onDuplicateAck]
    split_ifs <;> exact ⟨hrto, fun _ => rfl⟩
  | fastLoss inFlight =>
    refine ⟨?_, fun h => absurd rfl (h inFlight)⟩
    simp only [step, onFastLoss]
    split_ifs <;> exact hrto
  | timeout inFlight =>
    simp only [step, onTimeout, if_pos hrto]
    exact ⟨hrto, fun _ => trivial⟩

/-- **The threshold after a timeout.** -/
theorem threshold_kept (hrto : r.inRtoRecovery = true) {events : List Event} (he : ∀ e ∈ events, ¬ Acknowledges e) :
    (Run.exec step r events).inRtoRecovery = true ∧
      ((∀ inFlight, .fastLoss inFlight ∉ events) → (Run.exec step r events).ssthresh = r.ssthresh) := by
  induction events generalizing r with
  | nil => exact ⟨hrto, fun _ => rfl⟩
  | cons e events ih =>
    obtain ⟨hrto', hkept⟩ := threshold_step hrto (he e List.mem_cons_self)
    obtain ⟨hlast, hrest⟩ := ih hrto' fun e' h => he e' (List.mem_cons_of_mem _ h)
    refine ⟨hlast, fun hloss => ?_⟩
    rw [Run.exec_cons, hrest fun inFlight h => hloss inFlight (List.mem_cons_of_mem _ h)]
    refine hkept fun inFlight heq => hloss inFlight ?_
    rw [heq]
    exact List.mem_cons_self

/-- a fast recovery goes on, with its threshold -/
theorem inflated_step (hfast : r.inFastRecovery = true) {e : Event} (he : Keeps e) :
    (r.step e).inFastRecovery = true ∧ (r.step e).ssthresh = r.ssthresh := by
  cases e with
  | setMss mss => exact ⟨hfast, rfl⟩
  | ack acked =>
    have h0 : acked.toNat = 0 := by
      rw [not_not.1 he]
      rfl
    simp only [step, onAck, if_pos h0]
    exact ⟨hfast, trivial⟩
  | duplicateAck =>
    simp only [step, onDuplicateAck, if_pos hfast]
    exact ⟨hfast, trivial⟩
  | fastLoss inFlight =>
    simp only [step, onFastLoss, if_pos hfast]
    exact ⟨hfast, trivial⟩
  | timeout inFlight => exact he.elim

/-- **Inflation.** Whatever inflates the window in fast recovery, the threshold stays. -/
theorem inflated (hfast : r.inFastRecovery = true) {events : List Event} (he : ∀ e ∈ events, Keeps e) :
    (Run.exec step r events).inFastRecovery = true ∧ (Run.exec step r events).ssthresh = r.ssthresh := by
  induction events generalizing r with
  | nil => exact ⟨hfast, rfl⟩
  | cons e events ih =>
    obtain ⟨hfast', hkept⟩ := inflated_step hfast (he e List.mem_cons_self)
    obtain ⟨hlast, hrest⟩ := ih hfast' fun e' h => he e' (List.mem_cons_of_mem _ h)
    exact ⟨hlast, hrest.trans hkept⟩

/-- an ACK of payload outside fast recovery opens the window by at most a segment -/
theorem onAck_opens (h : r.Disciplined) (hfast : r.inFastRecovery = false) (hn : n ≠ 0) :
    (r.cwnd = maxU64 ∨ r.cwnd + 1 ≤ (r.onAck n).cwnd) ∧ (r.onAck n).cwnd ≤ r.cwnd + r.mss := by
  obtain ⟨hlow, hhigh⟩ := increment_bounds h hn
  rw [onAck_open h hfast hn]
  refine ⟨?_, (min_le_left _ _).trans (Nat.add_le_add_left hhigh _)⟩
  rcases h.window_le.eq_or_lt with hfull | hroom
  · exact Or.inl hfull
  · exact Or.inr (le_min (Nat.add_le_add_left hlow _) hroom)

/-- after a timeout -/
theorem timeout_then (r : Reno) (inFlight : BitVec 64) {later : List Event} (hlater : ∀ e ∈ later, ¬ Acknowledges e) :
    let r' := Run.exec step (r.step (.timeout inFlight)) later
    (∀ inFlight', (r'.step (.timeout inFlight')).ssthresh = r'.ssthresh) ∧
      ((∀ inFlight', .fastLoss inFlight' ∉ later) → r'.ssthresh = (r.step (.timeout inFlight)).ssthresh) := by
  intro r'
  have hrto : (r.step (.timeout inFlight)).inRtoRecovery = true := by
    simp only [step, onTimeout]
    split_ifs with hrto
    · exact hrto
    · rfl
  obtain ⟨hlast, hkept⟩ := threshold_kept hrto hlater
  exact ⟨fun inFlight' => (threshold_step hlast id).2 fun _ => by simp, hkept⟩

end Reno

/-- **The discipline of the window.** After every history the window holds a segment and the threshold two. A threshold that a
timeout set stays, whatever timeouts follow, until payload is acknowledged or a fast loss sets another; the ACK of payload that
ends a fast recovery leaves the threshold as the window; any other ACK of payload opens the window by one byte to one segment. -/
theorem reno_discipline (mss : U16) (hmss : mss ≠ 0) (events : List Reno.Event)
    (hallowed : Run.Along Reno.step Reno.Allowed (Reno.new mss.toNat) events) :
    let r := Reno.run mss events
    (1 ≤ r.mss ∧ r.mss ≤ r.cwnd) ∧ 2 * r.mss ≤ r.ssthresh ∧
      (∀ inFlight later, (∀ e ∈ later, ¬ Reno.Acknowledges e) →
        let r' := Run.exec Reno.step (r.step (.timeout inFlight)) later
        (∀ inFlight', (r'.step (.timeout inFlight')).ssthresh = r'.ssthresh) ∧
          ((∀ inFlight', .fastLoss inFlight' ∉ later) → r'.ssthresh = (r.step (.timeout inFlight)).ssthresh)) ∧
      (r.inFastRecovery = true → ∀ later, (∀ e ∈ later, Reno.Keeps e) → ∀ acked, acked ≠ 0 →
        ((Run.exec Reno.step r later).step (.ack acked)).cwnd = r.ssthresh) ∧
      (r.inFastRecovery = false → ∀ acked, acked ≠ 0 →
        (r.cwnd = maxU64 ∨ r.cwnd + 1 ≤ (r.step (.ack acked)).cwnd) ∧ (r.step (.ack acked)).cwnd ≤ r.cwnd + r.mss) ∧
      r.inFastRecovery = Reno.recovering events := by
  intro r
  have h : r.Disciplined := Reno.disciplined_run hmss hallowed
  have hword : ∀ {acked : BitVec 64}, acked ≠ 0 → acked.toNat ≠ 0 := fun hne h0 => hne (BitVec.eq_of_toNat_eq h0)
  refine ⟨⟨h.mss_pos, h.mss_window⟩, h.threshold, ?_, ?_, ?_, Reno.recovering_run mss events⟩
  · exact fun inFlight later hlater => r.timeout_then inFlight hlater
  · intro hfast later hlater acked hne
    obtain ⟨hfast', hkept⟩ := Reno.inflated hfast hlater
    rw [← hkept, Reno.step, Reno.onAck_recovery hfast' (hword hne)]
  · exact fun hfast acked hne => Reno.onAck_opens h hfast (hword hne)

/-- two duplicates inflate the window after a fast loss, and the next ACK leaves the threshold -/
theorem reno_discipline_inflated :
    let r := Reno.run 1000 [.setMss 900, .ack 900, .fastLoss 8000]
    2 * r.mss ≤ r.ssthresh ∧ r.cwnd < (r.step .duplicateAck).cwnd ∧
      ((Run.exec Reno.step r [.duplicateAck, .duplicateAck]).step (.ack 900)).cwnd = r.ssthresh := by
  have h := reno_discipline 1000 (by decide) [.setMss 900, .ack 900, .fastLoss 8000]
    ⟨⟨by decide, by decide⟩, trivial, trivial, trivial⟩
  refine ⟨h.2.1, by decide, h.2.2.2.1 (by decide) [.duplicateAck, .duplicateAck] ?_ 900 (by decide)⟩
  intro e he
  simp only [List.mem_cons, List.not_mem_nil, or_false, or_self] at he
  rw [he]
  exact id

end FipsTcp
