import RelayPoint.Projector.Fence
import RelayPoint.Projector.Worker

/-!
# Settings — the configuration of a projector as a whole

`Config.withDefaults` of the source fills in what was left out and keeps the renewal interval below
the lease.  The worker reads the bounds of it (`Config`), the lease its two durations (`Timing`); here
is the record with all of its fields, of which the two are views, and what the renewal loop makes of
it: a number of attempts that fit between a renewal that is due and the end of the lease.
-/

namespace RelayPoint.Projector

def defaultFanoutConcurrency : Int := 32

structure Settings where
  maxDeliver : Int
  snapshotEvery : Int
  publishRetry : Int
  retryBackoff : Duration
  leaseRenew : Duration
  leaseTTL : Duration
  healthAddr : String
  fanoutConcurrency : Int
  deriving DecidableEq

namespace Settings

def config (c : Settings) : Config :=
  ⟨c.maxDeliver, c.snapshotEvery, c.publishRetry⟩

def timing (c : Settings) : Timing :=
  ⟨c.leaseRenew, c.leaseTTL⟩

def withDefaults (c : Settings) : Settings :=
  let leaseRenew := if c.leaseRenew ≤ 0 then 2 * second else c.leaseRenew
  let leaseTTL := if c.leaseTTL ≤ 0 then 5 * second else c.leaseTTL
  { maxDeliver := if c.maxDeliver ≤ 0 then 5 else c.maxDeliver
    snapshotEvery := if c.snapshotEvery ≤ 0 then 50 else c.snapshotEvery
    publishRetry := if c.publishRetry ≤ 0 then 4 else c.publishRetry
    retryBackoff := if c.retryBackoff ≤ 0 then 50 * millisecond else c.retryBackoff
    -- an interval that does not leave a slack is replaced by half of the lease
    leaseRenew := if leaseRenew ≥ leaseTTL then leaseTTL / 2 else leaseRenew
    leaseTTL := leaseTTL
    healthAddr := if c.healthAddr = "" then ":8222" else c.healthAddr
    fanoutConcurrency :=
      if c.fanoutConcurrency ≤ 0 then defaultFanoutConcurrency else c.fanoutConcurrency }

@[simp] theorem config_withDefaults (c : Settings) : c.withDefaults.config = c.config.withDefaults :=
  rfl

@[simp] theorem timing_withDefaults (c : Settings) : c.withDefaults.timing = c.timing.withDefaults :=
  rfl

theorem leaseRenew_lt (c : Settings) : c.withDefaults.leaseRenew < c.withDefaults.leaseTTL := by
  have hbounds := c.timing.withDefaults_bounds
  exact Int64.lt_iff_toInt_lt.2 hbounds.2

end Settings

/-! ## Positive budgets -/

theorem budget_pos {d : Duration} (hlo : 2 ≤ d.toInt) (hhi : d.toInt ≤ 10 ^ 18) :
    0 < (d * 9 / 10).toInt := by
  have hnine : (9 : Duration).toInt = 9 := rfl
  have hten : (10 : Duration).toInt = 10 := rfl
  have hmul : (d * 9).toInt = d.toInt * 9 := by
    rw [Int64.toInt_mul, hnine]
    exact Int.bmod_eq_of_le (by omega) (by omega)
  have hdiv := (toInt_div_bounds (d := d * 9) (e := 10) (by decide)).1 (by omega)
  rw [hten] at hdiv
  omega

theorem renewBudget_pos (ttl renewInterval : Duration) (hlo : 2 ≤ ttl.toInt - renewInterval.toInt)
    (hhi : ttl.toInt - renewInterval.toInt ≤ 10 ^ 18) :
    0 < (renewBudget ttl renewInterval).perAttempt.toInt ∧
      0 ≤ (renewBudget ttl renewInterval).backoff.toInt := by
  have hslack := toInt_sub_of_fits (d := ttl) (e := renewInterval) (by omega) (by omega)
  have hbudget := budget_pos (d := ttl - renewInterval) (by omega) (by omega)
  have hpos : ¬ ttl - renewInterval ≤ 0 := by
    rw [Int64.le_iff_toInt_le]
    have hzero : (0 : Duration).toInt = 0 := rfl
    omega
  rcases renewBudget_cases ttl renewInterval (by omega) (by omega) rfl with hlone | hseveral
  · -- a lone attempt gets the whole budget
    have hzero : (0 : Duration).toInt = 0 := rfl
    have hone := hlone.1
    simp only [renewBudget, if_neg hpos] at hone ⊢
    split at hone
    · next hnone =>
        simp only [if_pos hnone]
        exact ⟨hbudget, by omega⟩
    · exact absurd (show leaseRenewAttempts = 1 from hone) (by decide)
  · exact ⟨hseveral.2.1, hseveral.2.2.1⟩

/-- Every configuration leaves a slack between the renewal that is due and the end of the lease, and
the attempts of a renewal, with the waits between them, are over within any slack. -/
theorem renewal_fits_in_slack :
    (∀ c : Settings, c.withDefaults.leaseRenew < c.withDefaults.leaseTTL) ∧
    ∀ ttl renewInterval : Duration,
      0 < ttl.toInt - renewInterval.toInt → ttl.toInt - renewInterval.toInt < 2 ^ 63 →
      ∀ b, renewBudget ttl renewInterval = b →
        1 ≤ b.attempts ∧
        (b.attempts : Int) * b.perAttempt.toInt + ((b.attempts : Int) - 1) * b.backoff.toInt <
          ttl.toInt - renewInterval.toInt ∧
        (2 ≤ ttl.toInt - renewInterval.toInt → ttl.toInt - renewInterval.toInt ≤ 10 ^ 18 →
          0 < b.perAttempt.toInt ∧ 0 ≤ b.backoff.toInt) := by
  refine ⟨Settings.leaseRenew_lt, ?_⟩
  rintro ttl renewInterval hpos hfits b rfl
  have hlarge := renewBudget_pos ttl renewInterval
  rcases renewBudget_cases ttl renewInterval hpos hfits rfl with
    ⟨hone, hbackoff, _, hlt⟩ | ⟨hthree, _, _, hlt⟩
  · refine ⟨hone.ge, ?_, hlarge⟩
    rw [hone]
    simpa using hlt
  · refine ⟨by omega, ?_, hlarge⟩
    rw [hthree]
    simpa using hlt

/-- The durations of an empty configuration. -/
theorem renewal_fits_in_slack_default :
    ∃ b, renewBudget (5 * second) (2 * second) = b ∧ b.attempts = 3 ∧ 0 < b.perAttempt.toInt ∧
      (b.attempts : Int) * b.perAttempt.toInt + ((b.attempts : Int) - 1) * b.backoff.toInt <
        3000000000 := by
  have hfits := renewal_fits_in_slack.2 (5 * second) (2 * second) (by decide) (by decide) _ rfl
  exact ⟨_, rfl, by decide, (hfits.2.2 (by decide) (by decide)).1, hfits.2.1⟩

end RelayPoint.Projector
