/-
The estimator of the retransmission timeout, over every history.

A history is a list of samples, retransmissions and timeouts. An average that is rounded up is at most the larger of its parts
(`average_le`), so the two smoothed values stay below the largest sample (`Bounded`); the timeouts that discard a measurement
leave them alone, and the first sample after these starts again below the same bound.
- `Bounded.noOverflow`: with such values the plain arithmetic of a sample stays below 2^64;
- `Bounded.step`, `Bounded.exec`: the invariant, one event and every history;
- `backoff_run`: a history without a sample only raises the timeout.
-/
import FipsTcp.Core.Recovery
import FipsTcp.Lib.Run

namespace FipsTcp

namespace RttEstimator

inductive Event where
  | sample (sampleMs : ℕ)
  | retransmit (endSeq : U32)
  | timeout
deriving DecidableEq, Repr

def step (r : RttEstimator) : Event → RttEstimator
  | .sample sampleMs => r.sample sampleMs
  | .retransmit endSeq => r.onRetransmit endSeq
  | .timeout => r.onTimeout

/-- the estimator of a connection after a history -/
abbrev run (config : ValidConfig) (events : List Event) : RttEstimator :=
  Run.exec step (new config.1.initialRtoMs config.1.minRtoMs config.1.maxRtoMs) events

/-- the largest sample of a history, and at least 1 -/
def largest : List Event → ℕ
  | [] => 1
  | .sample sampleMs :: events => max sampleMs (largest events)
  | _ :: events => largest events

/-- `srtt_ms.abs_diff(sample_ms)` -/
def diff (r : RttEstimator) (sampleMs : ℕ) : ℕ := max r.srttMs sampleMs - min r.srttMs sampleMs

/-- the unchecked `u64` operations of `sample`, on a sample that is at least 1 -/
structure NoOverflow (r : RttEstimator) (sampleMs : ℕ) : Prop where
  triple : r.rttvarMs * 3 < 2 ^ 64
  rttvar : r.rttvarMs * 3 + r.diff sampleMs < 2 ^ 64
  seven : r.srttMs * 7 < 2 ^ 64
  srtt : r.srttMs * 7 + sampleMs < 2 ^ 64

/-- the timeout is within its limits, and the smoothed values within a bound on the samples -/
structure Bounded (config : Config) (m : ℕ) (r : RttEstimator) : Prop where
  minRto : r.minRtoMs = config.minRtoMs
  maxRto : r.maxRtoMs = config.maxRtoMs
  rto : config.minRtoMs ≤ r.rtoMs ∧ r.rtoMs ≤ config.maxRtoMs
  srtt : r.srttMs ≤ m
  rttvar : r.rttvarMs ≤ m

variable {config : Config} {r : RttEstimator} {m sampleMs : ℕ}

/-! ## One event -/

/-- an average with weights `k` and 1, rounded up -/
theorem average_le {k a b : ℕ} (ha : a ≤ m) (hb : b ≤ m) : (a * k + b + k) / (k + 1) ≤ m := by
  have hsum : a * k + b + k < (m + 1) * (k + 1) :=
    calc a * k + b + k ≤ m * k + m + k := by gcongr
      _ < (m + 1) * (k + 1) := by linarith [mul_comm m k]
  rw [mul_comm (m + 1)] at hsum
  exact Nat.lt_succ_iff.1 (Nat.div_lt_of_lt_mul hsum)

theorem diff_le (hr : r.srttMs ≤ m) (hs : sampleMs ≤ m) : r.diff sampleMs ≤ m :=
  (Nat.sub_le _ _).trans (max_le hr hs)

theorem Bounded.noOverflow (h : r.Bounded config m) (hm : m ≤ 2 ^ 60) (hs : sampleMs ≤ m) : r.NoOverflow sampleMs := by
  have hdiff := diff_le h.srtt hs
  have hsrtt := h.srtt
  have hrttvar := h.rttvar
  constructor <;> omega

/-- the values of a sample, where the arithmetic does not wrap -/
theorem sample_srtt (h : r.NoOverflow (max sampleMs 1)) : (r.sample sampleMs).srttMs =
    if r.haveMeasurement then (r.srttMs * 7 + max sampleMs 1 + 7) / 8 else max sampleMs 1 := by
  unfold RttEstimator.sample
  simp only
  split_ifs
  · simp only [wrap64, Nat.mod_eq_of_lt h.seven, Nat.mod_eq_of_lt h.srtt]
  · rfl

theorem sample_rttvar (h : r.NoOverflow (max sampleMs 1)) : (r.sample sampleMs).rttvarMs =
    if r.haveMeasurement then (r.rttvarMs * 3 + r.diff (max sampleMs 1) + 3) / 4 else max sampleMs 1 / 2 := by
  have hrttvar := h.rttvar
  unfold diff at hrttvar ⊢
  unfold RttEstimator.sample
  simp only
  split_ifs
  · simp only [wrap64, Nat.mod_eq_of_lt h.triple, Nat.mod_eq_of_lt hrttvar]
  · rfl

/-- a sample -/
theorem Bounded.sample (hv : config.Valid) (h : r.Bounded config m) (hm : m ≤ 2 ^ 60) (hs : max sampleMs 1 ≤ m) :
    (r.sample sampleMs).Bounded config m := by
  have hno := h.noOverflow hm hs
  have hlimits : (r.sample sampleMs).minRtoMs = r.minRtoMs ∧ (r.sample sampleMs).maxRtoMs = r.maxRtoMs := by
    unfold RttEstimator.sample
    simp only
    split_ifs <;> exact ⟨rfl, rfl⟩
  have hrto : r.minRtoMs ≤ (r.sample sampleMs).rtoMs ∧ (r.sample sampleMs).rtoMs ≤ r.maxRtoMs := by
    have hle : r.minRtoMs ≤ r.maxRtoMs := by
      rw [h.minRto, h.maxRto]
      exact hv.minRto_le.trans hv.maxRto_ge
    unfold RttEstimator.sample
    simp only
    split_ifs <;> exact clamp_bounds hle
  rw [h.minRto, h.maxRto] at hrto hlimits
  refine ⟨hlimits.1, hlimits.2, hrto, ?_, ?_⟩
  · rw [sample_srtt hno]
    split_ifs
    · exact average_le h.srtt hs
    · exact hs
  · rw [sample_rttvar hno]
    split_ifs
    · exact average_le h.rttvar (diff_le h.srtt hs)
    · exact (Nat.div_le_self _ _).trans hs

/-- a timeout doubles, up to the limit -/
theorem onTimeout_rto (r : RttEstimator) : r.onTimeout.rtoMs = min (satMul r.rtoMs 2) r.maxRtoMs := by
  unfold onTimeout
  simp only
  split_ifs <;> rfl

/-- and keeps the smoothed values, also when it discards the measurement -/
theorem onTimeout_kept (r : RttEstimator) : r.onTimeout.minRtoMs = r.minRtoMs ∧ r.onTimeout.maxRtoMs = r.maxRtoMs ∧
    r.onTimeout.srttMs = r.srttMs ∧ r.onTimeout.rttvarMs = r.rttvarMs := by
  unfold onTimeout
  simp only
  split_ifs <;> exact ⟨rfl, rfl, rfl, rfl⟩

theorem onTimeout_le (hmax : r.maxRtoMs < 2 ^ 64) (hr : r.rtoMs ≤ r.maxRtoMs) : r.rtoMs ≤ r.onTimeout.rtoMs := by
  rw [onTimeout_rto]
  refine le_min ?_ hr
  simp only [satMul, maxU64]
  omega

theorem Bounded.onTimeout (hmax : config.maxRtoMs < 2 ^ 64) (h : r.Bounded config m) : r.onTimeout.Bounded config m := by
  obtain ⟨hmin, hmax', hsrtt, hrttvar⟩ := r.onTimeout_kept
  rw [← h.maxRto] at hmax
  refine ⟨hmin.trans h.minRto, hmax'.trans h.maxRto, ⟨?_, ?_⟩, hsrtt.le.trans h.srtt, hrttvar.le.trans h.rttvar⟩
  · exact h.rto.1.trans (onTimeout_le hmax (h.rto.2.trans h.maxRto.ge))
  · rw [onTimeout_rto, ← h.maxRto]
    exact min_le_right _ _

/-! ## Histories -/

theorem one_le_largest (events : List Event) : 1 ≤ largest events := by
  induction events with
  | nil => exact le_rfl
  | cons e events ih =>
    cases e with
    | sample sampleMs => exact ih.trans (le_max_right _ _)
    | retransmit | timeout => exact ih

theorem sample_le_largest {events : List Event} (h : .sample sampleMs ∈ events) : sampleMs ≤ largest events := by
  induction events with
  | nil => cases h
  | cons e events ih =>
    rcases List.mem_cons.1 h with rfl | htail
    · exact le_max_left _ _
    · cases e with
      | sample => exact (ih htail).trans (le_max_right _ _)
      | retransmit | timeout => exact ih htail

theorem largest_le {events : List Event} (h : ∀ sampleMs, .sample sampleMs ∈ events → sampleMs < 2 ^ 60) : largest events ≤ 2 ^ 60 := by
  induction events with
  | nil => exact Nat.one_le_two_pow
  | cons e events ih =>
    have htail := ih fun sampleMs hs => h sampleMs (List.mem_cons_of_mem _ hs)
    cases e with
    | sample sampleMs => exact max_le (h sampleMs List.mem_cons_self).le htail
    | retransmit | timeout => exact htail

/-- **One event** with a sample below the bound. -/
theorem Bounded.step (hv : config.Valid) (hmax : config.maxRtoMs < 2 ^ 64) (hm : m ≤ 2 ^ 60) (h1 : 1 ≤ m) (h : r.Bounded config m)
    {e : Event} (he : ∀ sampleMs, e = .sample sampleMs → sampleMs ≤ m) : (r.step e).Bounded config m := by
  cases e with
  | sample sampleMs => exact h.sample hv hm (max_le (he sampleMs rfl) h1)
  | retransmit endSeq => exact ⟨h.minRto, h.maxRto, h.rto, h.srtt, h.rttvar⟩
  | timeout => exact h.onTimeout hmax

/-- **Every history** keeps the bound. -/
theorem Bounded.exec (hv : config.Valid) (hmax : config.maxRtoMs < 2 ^ 64) (hm : m ≤ 2 ^ 60) (h1 : 1 ≤ m) (h : r.Bounded config m)
    {events : List Event} (hs : ∀ sampleMs, .sample sampleMs ∈ events → sampleMs ≤ m) :
    (Run.exec RttEstimator.step r events).Bounded config m := by
  induction events generalizing r with
  | nil => exact h
  | cons e events ih =>
    refine ih (h.step hv hmax hm h1 fun sampleMs he => hs sampleMs ?_) fun sampleMs hmem => hs sampleMs (List.mem_cons_of_mem _ hmem)
    rw [he]
    exact List.mem_cons_self

theorem bounded_new (hv : config.Valid) (m : ℕ) :
    (new config.initialRtoMs config.minRtoMs config.maxRtoMs).Bounded config m :=
  ⟨rfl, rfl, clamp_bounds (hv.minRto_le.trans hv.maxRto_ge), Nat.zero_le _, Nat.zero_le _⟩

/-- **Backing off.** Without a sample the timeout does not fall. -/
theorem backoff_run (hmax : r.maxRtoMs < 2 ^ 64) (hr : r.rtoMs ≤ r.maxRtoMs) {events : List Event}
    (hs : ∀ sampleMs, .sample sampleMs ∉ events) : r.rtoMs ≤ (Run.exec step r events).rtoMs := by
  induction events generalizing r with
  | nil => exact le_rfl
  | cons e events ih =>
    have htail : ∀ sampleMs, .sample sampleMs ∉ events := fun sampleMs h => hs sampleMs (List.mem_cons_of_mem _ h)
    rw [Run.exec_cons]
    cases e with
    | sample sampleMs => exact absurd List.mem_cons_self (hs sampleMs)
    | retransmit endSeq => exact ih (r := r.onRetransmit endSeq) hmax hr htail
    | timeout =>
      obtain ⟨-, hmax', -, -⟩ := r.onTimeout_kept
      have hle : r.onTimeout.rtoMs ≤ r.maxRtoMs := by
        rw [onTimeout_rto]
        exact min_le_right _ _
      exact (onTimeout_le hmax hr).trans (ih (r := r.onTimeout) (by rwa [hmax']) (by rwa [hmax']) htail)

end RttEstimator

/-- **The arithmetic of the estimator.** After every history of samples below 2^60 ms, retransmissions and timeouts the timeout is
within its limits and the smoothed values are at most the largest sample; the next sample overflows nothing, and until then the
timeout does not fall. The limits of a configuration are of type `u64`. -/
theorem rtt_arithmetic (config : ValidConfig) (hmax : config.1.maxRtoMs < 2 ^ 64) (events : List RttEstimator.Event)
    (hs : ∀ sampleMs, .sample sampleMs ∈ events → sampleMs < 2 ^ 60) :
    let r := RttEstimator.run config events
    (config.1.minRtoMs ≤ r.rtoMs ∧ r.rtoMs ≤ config.1.maxRtoMs) ∧
      r.srttMs ≤ RttEstimator.largest events ∧ r.rttvarMs ≤ RttEstimator.largest events ∧
      (∀ sampleMs < 2 ^ 60, r.NoOverflow (max sampleMs 1)) ∧
      ∀ later, (∀ sampleMs, .sample sampleMs ∉ later) → r.rtoMs ≤ (Run.exec RttEstimator.step r later).rtoMs := by
  intro r
  have hbounded : r.Bounded config.1 (RttEstimator.largest events) :=
    (RttEstimator.bounded_new config.valid _).exec config.valid hmax (RttEstimator.largest_le hs)
      (RttEstimator.one_le_largest events) fun _ => RttEstimator.sample_le_largest
  -- the same history below the bound on every sample
  have hwide : r.Bounded config.1 (2 ^ 60) :=
    (RttEstimator.bounded_new config.valid _).exec config.valid hmax le_rfl Nat.one_le_two_pow fun sampleMs h => (hs sampleMs h).le
  refine ⟨hbounded.rto, hbounded.srtt, hbounded.rttvar, fun sampleMs h => ?_, fun later hlater => ?_⟩
  · exact hwide.noOverflow le_rfl (max_le h.le Nat.one_le_two_pow)
  · rw [← hwide.maxRto] at hmax
    exact RttEstimator.backoff_run hmax (hwide.rto.2.trans hwide.maxRto.ge) hlater

/-- a sample, three timeouts that discard it, and a sample after them -/
theorem rtt_arithmetic_discarded :
    let r := RttEstimator.run ⟨Config.default, Config.default_validate⟩
      [.sample 100, .timeout, .retransmit 7, .timeout, .timeout, .sample 40]
    r.srttMs ≤ 100 ∧ r.rttvarMs ≤ 100 ∧ r.NoOverflow 100 := by
  have h := rtt_arithmetic ⟨Config.default, Config.default_validate⟩ (by decide)
    [.sample 100, .timeout, .retransmit 7, .timeout, .timeout, .sample 40] (by simp)
  exact ⟨h.2.1, h.2.2.1, h.2.2.2.1 100 (by decide)⟩

end FipsTcp
