import Mathlib.Algebra.Order.Ring.Int
import Mathlib.Data.List.Basic

/-!
# Fence — the data contexts of the active projector, and the renewal budget

The data loop of the projector works under a context that it gets from the fence; the renewal loop
takes that context away when a renewal fails.  A context is a cancelled flag in a list of all contexts
that were handed out, a wake-up channel is a closed flag in a list of all channels that were made, so
that nothing is forgotten when the fence moves on to the next one.

Durations are 64-bit numbers of nanoseconds, with the overflow and the rounding of their arithmetic.
-/

namespace RelayPoint.Projector

/-! ## Timing -/

abbrev Duration := Int64

def millisecond : Duration := 1000000
def second : Duration := 1000000000

structure Timing where
  leaseRenew : Duration
  leaseTTL : Duration
  deriving DecidableEq

def Timing.withDefaults (c : Timing) : Timing :=
  let leaseRenew := if c.leaseRenew ≤ 0 then 2 * second else c.leaseRenew
  let leaseTTL := if c.leaseTTL ≤ 0 then 5 * second else c.leaseTTL
  ⟨if leaseRenew ≥ leaseTTL then leaseTTL / 2 else leaseRenew, leaseTTL⟩

structure RenewBudget where
  perAttempt : Duration
  attempts : Nat
  backoff : Duration
  deriving DecidableEq

def leaseRenewAttempts : Nat := 3
def leaseRenewRetryBackoff : Duration := 300 * millisecond

/-- The wait between two attempts: shorter when two of the usual waits would use up the budget. -/
def renewBackoff (budget : Duration) : Duration :=
  if Int64.ofNat (leaseRenewAttempts - 1) * leaseRenewRetryBackoff ≥ budget then
    budget / Int64.ofNat leaseRenewAttempts / 2
  else leaseRenewRetryBackoff

def renewBudget (ttl renewInterval : Duration) : RenewBudget :=
  let slack := ttl - renewInterval
  if slack ≤ 0 then ⟨millisecond, 1, 0⟩
  else
    let budget := slack * 9 / 10
    let backoff := renewBackoff budget
    let perAttempt :=
      (budget - Int64.ofNat (leaseRenewAttempts - 1) * backoff) / Int64.ofNat leaseRenewAttempts
    if perAttempt ≤ 0 then ⟨budget, 1, 0⟩ else ⟨perAttempt, leaseRenewAttempts, backoff⟩

/-! ## What the budget leaves room for -/

section Budget

variable {d e : Duration}

theorem toInt_sub_of_fits (hlo : -2 ^ 63 ≤ d.toInt - e.toInt) (hhi : d.toInt - e.toInt < 2 ^ 63) :
    (d - e).toInt = d.toInt - e.toInt := by
  rw [Int64.toInt_sub]
  exact Int.bmod_eq_of_le (by omega) (by omega)

theorem toInt_div_bounds (hpos : 0 < e.toInt) :
    (0 ≤ d.toInt → 0 ≤ (d / e).toInt ∧ e.toInt * (d / e).toInt ≤ d.toInt ∧
      d.toInt < e.toInt * (d / e).toInt + e.toInt) ∧
    (d.toInt ≤ 0 → (d / e).toInt ≤ 0 ∧ d.toInt ≤ e.toInt * (d / e).toInt) := by
  have hdiv : (d / e).toInt = d.toInt.tdiv e.toInt := by
    refine Int64.toInt_div_of_ne_right d e ?_
    rintro rfl
    simp at hpos
  rw [hdiv]
  constructor
  · intro hnonneg
    rw [Int.tdiv_eq_ediv_of_nonneg hnonneg]
    exact ⟨Int.ediv_nonneg hnonneg hpos.le, Int.mul_ediv_self_le hpos.ne',
      Int.lt_mul_ediv_self_add hpos⟩
  · intro hnonpos
    have hneg : d.toInt.tdiv e.toInt = -((-d.toInt) / e.toInt) := by
      rw [← Int.tdiv_eq_ediv_of_nonneg (by omega), Int.neg_tdiv, neg_neg]
    have hle := Int.mul_ediv_self_le (x := -d.toInt) hpos.ne'
    have hquot : 0 ≤ -d.toInt / e.toInt := Int.ediv_nonneg (by omega) hpos.le
    rw [hneg, mul_neg]
    exact ⟨by omega, by omega⟩

theorem budget_lt (hpos : 0 < d.toInt) : (d * 9 / 10).toInt < d.toInt := by
  have hwrap : (d * 9).toInt ≤ 9 * d.toInt := by
    have hnine : (9 : Duration).toInt = 9 := rfl
    rw [Int64.toInt_mul, hnine, Int.bmod_def]
    split <;> omega
  have hbounds := toInt_div_bounds (d := d * 9) (e := 10) (by decide)
  have hten : (10 : Duration).toInt = 10 := rfl
  rw [hten] at hbounds
  rcases le_total 0 (d * 9).toInt with h | h
  · omega
  · omega

theorem renewBackoff_bounds :
    (d.toInt ≤ 0 → (renewBackoff d).toInt ≤ 0 ∧ d.toInt ≤ 6 * (renewBackoff d).toInt) ∧
    (0 ≤ d.toInt → 0 ≤ (renewBackoff d).toInt ∧ 2 * (renewBackoff d).toInt ≤ d.toInt ∧
      (600000000 < d.toInt → (renewBackoff d).toInt = 300000000)) := by
  have hwaits : (Int64.ofNat (leaseRenewAttempts - 1) * leaseRenewRetryBackoff).toInt = 600000000 :=
    rfl
  unfold renewBackoff
  split
  · next hlong =>
      rw [ge_iff_le, Int64.le_iff_toInt_le] at hlong
      have hthird := toInt_div_bounds (d := d) (e := Int64.ofNat leaseRenewAttempts) (by decide)
      have hhalf := toInt_div_bounds (d := d / Int64.ofNat leaseRenewAttempts) (e := 2) (by decide)
      have hthree : (Int64.ofNat leaseRenewAttempts).toInt = 3 := rfl
      have htwo : (2 : Duration).toInt = 2 := rfl
      rw [hthree] at hthird
      rw [htwo] at hhalf
      constructor
      · intro hneg
        omega
      · intro hpos
        omega
  · next hshort =>
      rw [ge_iff_le, Int64.le_iff_toInt_le] at hshort
      have hwait : leaseRenewRetryBackoff.toInt = 300000000 := rfl
      omega

theorem renewBudget_cases (ttl renewInterval : Duration) (hpos : 0 < ttl.toInt - renewInterval.toInt)
    (hfits : ttl.toInt - renewInterval.toInt < 2 ^ 63) {b : RenewBudget}
    (hb : renewBudget ttl renewInterval = b) :
    (b.attempts = 1 ∧ b.backoff = 0 ∧ b.perAttempt.toInt ≤ 600000002 ∧
      b.perAttempt.toInt < ttl.toInt - renewInterval.toInt) ∨
    (b.attempts = 3 ∧ 0 < b.perAttempt.toInt ∧ 0 ≤ b.backoff.toInt ∧
      3 * b.perAttempt.toInt + 2 * b.backoff.toInt < ttl.toInt - renewInterval.toInt) := by
  have hslack := toInt_sub_of_fits (by omega) hfits
  have hbudget := budget_lt (d := ttl - renewInterval) (by omega)
  rw [hslack] at hbudget
  simp only [renewBudget] at hb
  rw [if_neg (by rw [Int64.le_iff_toInt_le, hslack]; simpa using hpos)] at hb
  generalize (ttl - renewInterval) * 9 / 10 = budget at hb hbudget
  have hbackoff := renewBackoff_bounds (d := budget)
  have hlo := Int64.le_toInt budget
  have hwaits : (Int64.ofNat (leaseRenewAttempts - 1) * renewBackoff budget).toInt =
      2 * (renewBackoff budget).toInt := by
    have htwo : (Int64.ofNat (leaseRenewAttempts - 1)).toInt = 2 := rfl
    rw [Int64.toInt_mul, htwo]
    exact Int.bmod_eq_of_le (by omega) (by omega)
  have hrest := toInt_sub_of_fits (d := budget)
    (e := Int64.ofNat (leaseRenewAttempts - 1) * renewBackoff budget) (by omega) (by omega)
  have hshare := toInt_div_bounds (e := Int64.ofNat leaseRenewAttempts)
    (d := budget - Int64.ofNat (leaseRenewAttempts - 1) * renewBackoff budget) (by decide)
  have hthree : (Int64.ofNat leaseRenewAttempts).toInt = 3 := rfl
  have hzero : (0 : Duration).toInt = 0 := rfl
  rw [hrest, hthree] at hshare
  split at hb
  · next hnone =>
      rw [Int64.le_iff_toInt_le] at hnone
      subst hb
      exact .inl ⟨rfl, rfl, by dsimp only; omega, hbudget⟩
  · next hsome =>
      rw [Int64.le_iff_toInt_le] at hsome
      subst hb
      exact .inr ⟨rfl, by dsimp only; omega, by dsimp only; omega, by dsimp only; omega⟩

end Budget

namespace Timing

/-- How long one attempt can take: a context whose time-out is negative has expired already. -/
def attemptLimit (c : Timing) : Int :=
  max 0 (renewBudget c.leaseTTL c.leaseRenew).perAttempt.toInt

theorem default_pos {d k : Duration} (hk : 0 < k.toInt) : 0 < (if d ≤ 0 then k else d).toInt := by
  split
  · exact hk
  · next hpos =>
      have hzero : (0 : Duration).toInt = 0 := rfl
      rw [Int64.le_iff_toInt_le] at hpos
      omega

theorem withDefaults_bounds (c : Timing) :
    0 ≤ c.withDefaults.leaseRenew.toInt ∧
      c.withDefaults.leaseRenew.toInt < c.withDefaults.leaseTTL.toInt := by
  have hrenew := default_pos (d := c.leaseRenew) (k := 2 * second) (by decide)
  have httl := default_pos (d := c.leaseTTL) (k := 5 * second) (by decide)
  simp only [withDefaults, ge_iff_le]
  generalize (if c.leaseRenew ≤ 0 then 2 * second else c.leaseRenew) = renew at hrenew ⊢
  generalize (if c.leaseTTL ≤ 0 then 5 * second else c.leaseTTL) = ttl at httl ⊢
  split
  · have htwo : (2 : Duration).toInt = 2 := rfl
    have hhalf := (toInt_div_bounds (e := 2) (by decide)).1 httl.le
    rw [htwo] at hhalf
    omega
  · next hlt =>
      rw [Int64.le_iff_toInt_le] at hlt
      omega

theorem attempt_fits (c : Timing) :
    c.withDefaults.leaseRenew.toInt + c.withDefaults.attemptLimit <
      c.withDefaults.leaseTTL.toInt := by
  have hbounds := c.withDefaults_bounds
  have hfits := Int64.toInt_lt c.withDefaults.leaseTTL
  have hcases := renewBudget_cases c.withDefaults.leaseTTL c.withDefaults.leaseRenew
    (by omega) (by omega) rfl
  unfold attemptLimit
  omega

/-- Two attempts to renew end, by their time limits, within a lease of two seconds or more. -/
theorem two_attempts_fit (c : Timing) (h : 2 * second ≤ c.withDefaults.leaseTTL) :
    2 * c.withDefaults.attemptLimit < c.withDefaults.leaseTTL.toInt := by
  have hbounds := c.withDefaults_bounds
  have hfits := Int64.toInt_lt c.withDefaults.leaseTTL
  have hcases := renewBudget_cases c.withDefaults.leaseTTL c.withDefaults.leaseRenew
    (by omega) (by omega) rfl
  have htwo : (2 * second).toInt = 2000000000 := rfl
  rw [Int64.le_iff_toInt_le] at h
  unfold attemptLimit
  omega

theorem two_attempts_fit_default : 2 * second ≤ (Timing.mk 0 0).withDefaults.leaseTTL ∧
    2 * (Timing.mk 0 0).withDefaults.attemptLimit < (Timing.mk 0 0).withDefaults.leaseTTL.toInt :=
  ⟨by decide, two_attempts_fit ⟨0, 0⟩ (by decide)⟩

end Timing

/-! ## The fence -/

structure Fence (ε : Type) where
  parentDone : Bool
  paused : Bool
  lost : Option ε
  contexts : List Bool
  cancel : Option Nat
  channels : List Bool
  wakeup : Nat
  held : ∀ i : Nat, contexts[i]? = some false → cancel = some i
  stopped : paused = true ∨ lost.isSome → ∀ i : Nat, contexts[i]? ≠ some false

inductive Begin where
  | refused
  | issued (context : Nat)
  | blocked (wake : Nat)
  deriving DecidableEq

namespace Fence

variable {ε : Type}

def new (parentDone : Bool) : Fence ε where
  parentDone := parentDone
  paused := false
  lost := none
  contexts := []
  cancel := none
  channels := [false]
  wakeup := 0
  held := by simp
  stopped := by simp

def live (f : Fence ε) : Bool :=
  !f.parentDone && f.contexts.any (! ·)

def cancelled (f : Fence ε) : List Bool :=
  match f.cancel with
  | none => f.contexts
  | some i => f.contexts.set i true

theorem cancelled_ne (f : Fence ε) (i : Nat) : f.cancelled[i]? ≠ some false := by
  intro h
  cases hcancel : f.cancel with
  | none =>
    have hlive : f.contexts[i]? = some false := by simpa [cancelled, hcancel] using h
    simpa [hcancel] using f.held i hlive
  | some j =>
    by_cases hij : j = i
    · subst hij
      simp [cancelled, hcancel, List.getElem?_set_self'] at h
    · have hlive : f.contexts[i]? = some false := by
        simpa [cancelled, hcancel, List.getElem?_set_ne hij] using h
      have := f.held i hlive
      simp [hcancel, hij] at this

theorem length_cancelled (f : Fence ε) : f.cancelled.length = f.contexts.length := by
  unfold cancelled
  split <;> simp

def issue (f : Fence ε) (hpaused : f.paused = false) (hlost : f.lost = none) : Fence ε :=
  { f with
    contexts := f.cancelled ++ [false]
    cancel := some f.contexts.length
    held := by
      intro i h
      rcases Nat.lt_or_ge i f.cancelled.length with hlt | hge
      · exact absurd (by simpa [List.getElem?_append_left hlt] using h) (f.cancelled_ne i)
      · rw [List.getElem?_append_right hge] at h
        have hi : i - f.cancelled.length < 1 := (List.getElem?_eq_some_iff.1 h).1
        have := f.length_cancelled
        exact congrArg some (by omega)
    stopped := by simp [hpaused, hlost] }

def begin (f : Fence ε) : Begin × Fence ε :=
  if hlost : f.lost.isSome = true ∨ f.parentDone = true then (.refused, f)
  else if hpaused : f.paused = false then
    (.issued f.contexts.length, f.issue hpaused (by simpa using fun h => hlost (.inl h)))
  else (.blocked f.wakeup, f)

def pause (f : Fence ε) : Fence ε :=
  if f.paused = true ∨ f.lost.isSome then f
  else
    { f with
      paused := true
      contexts := f.cancelled
      held := fun i h => absurd h (f.cancelled_ne i)
      stopped := fun _ => f.cancelled_ne }

def wake (f : Fence ε) : Fence ε :=
  { f with
    channels := f.channels.set f.wakeup true ++ [false]
    wakeup := f.channels.length }

def resume (f : Fence ε) : Fence ε :=
  if h : f.paused = false ∨ f.lost.isSome then f
  else
    wake { f with
      paused := false
      stopped := fun hstopped => hstopped.elim (by simp) fun hlost => absurd (.inr hlost) h }

def fail (f : Fence ε) (err : ε) : Fence ε :=
  if f.lost.isSome then f
  else
    wake { f with
      lost := some err
      contexts := f.cancelled
      held := fun i h => absurd h (f.cancelled_ne i)
      stopped := fun _ => f.cancelled_ne }

def cancelParent (f : Fence ε) : Fence ε :=
  { f with parentDone := true }

/-! ## What the operations leave behind -/

@[simp] theorem parentDone_begin (f : Fence ε) : f.begin.2.parentDone = f.parentDone := by
  unfold begin
  split
  · rfl
  · split <;> rfl

@[simp] theorem parentDone_pause (f : Fence ε) : f.pause.parentDone = f.parentDone := by
  unfold pause
  split <;> rfl

@[simp] theorem parentDone_resume (f : Fence ε) : f.resume.parentDone = f.parentDone := by
  unfold resume
  split <;> rfl

@[simp] theorem parentDone_fail (f : Fence ε) (err : ε) :
    (f.fail err).parentDone = f.parentDone := by
  unfold fail
  split <;> rfl

def Open (f : Fence ε) : Prop :=
  f.paused = false ∧ f.lost = none ∧ f.parentDone = false

theorem open_of_live {f : Fence ε} (h : f.live = true) : f.Open := by
  simp only [live, Bool.and_eq_true, Bool.not_eq_true', List.any_eq_true] at h
  rcases h with ⟨hparent, context, hmem, hlive⟩
  rcases List.mem_iff_getElem?.1 hmem with ⟨i, hi⟩
  have hcontext : f.contexts[i]? = some false := by simpa [hi] using hlive
  refine ⟨?_, ?_, hparent⟩
  · by_contra hpaused
    exact f.stopped (.inl (by simpa using hpaused)) i hcontext
  · by_contra hlost
    exact f.stopped (.inr (by simpa [Option.isSome_iff_ne_none] using hlost)) i hcontext

theorem open_of_begin {f : Fence ε} (h : f.begin.2.Open) : f.Open := by
  unfold begin at h
  split at h
  · exact h
  · split at h
    · exact h
    · exact h

theorem not_open_pause (f : Fence ε) : ¬ f.pause.Open := by
  intro h
  unfold pause at h
  split at h
  · next hstopped =>
      rcases hstopped with hpaused | hlost
      · simp [Open, hpaused] at h
      · simp [h.2.1] at hlost
  · exact absurd h.1 (by simp)

theorem not_open_fail (f : Fence ε) (err : ε) : ¬ (f.fail err).Open := by
  intro h
  unfold fail at h
  split at h
  · next hlost => simp [h.2.1] at hlost
  · exact absurd h.2.1 (by simp [wake])

theorem not_open_cancelParent (f : Fence ε) : ¬ f.cancelParent.Open := by
  intro h
  exact absurd h.2.2 (by simp [cancelParent])

end Fence

end RelayPoint.Projector
