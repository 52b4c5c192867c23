import ShardManager.Golang.Rounding

open golang

namespace golang.Time

def millisecond : Duration := 10 ^ 6

end golang.Time

namespace backoff

/-- The delay that ends the retries. -/
def done : Duration := -1

def noInterval : Duration := 0

def noMaximumAttempts : Int := 0

structure ExponentialRetryPolicy where
  initialInterval : Duration
  backoffCoefficient : ℚ
  maximumInterval : Duration
  expirationInterval : Duration
  maximumAttempts : Int

def newExponentialRetryPolicy (initialInterval : Duration) : ExponentialRetryPolicy where
  initialInterval := initialInterval
  backoffCoefficient := 2
  maximumInterval := 10000 * Time.millisecond
  expirationInterval := 60000 * Time.millisecond
  maximumAttempts := noMaximumAttempts

/-- `float64(d) * x`. A power that overflows makes the interval `+Inf`, and
`-Inf` if it is negative. `0` times `+Inf`, not a number, counts as `0` here. -/
def scaled (fl : Rounding) (d : Duration) (x : WithTop ℚ) : WithTop ℚ :=
  if x = ⊤ ∧ d ≤ 0 then 0 else fl.mul (fl.round d) x

namespace ExponentialRetryPolicy

variable (fl : Rounding) (rand : ℕ → ℕ) (p : ExponentialRetryPolicy) (elapsedTime : Duration) (numAttempts : ℕ)

/-- `ComputeNextDelay` up to its jitter, `none` where it returns `done`. -/
def nextInterval : Option (WithTop ℚ) :=
  if p.maximumAttempts ≠ noMaximumAttempts ∧ p.maximumAttempts ≤ numAttempts then none
  else if p.expirationInterval ≠ noInterval ∧ p.expirationInterval < elapsedTime then none
  else
    let interval := scaled fl p.initialInterval (fl.pow p.backoffCoefficient numAttempts)
    if interval ≤ 0 then none
    else
      let interval :=
        if p.maximumInterval ≠ noInterval then min interval (fl.round p.maximumInterval : ℚ) else interval
      let interval :=
        if p.expirationInterval ≠ noInterval then
          min (max 0 (fl.round (int64 (p.expirationInterval - elapsedTime)) : ℚ) : WithTop ℚ) interval
        else interval
      if fl.toInt interval < p.initialInterval then none else some interval

/-- Four fifths of the interval are certain and one fifth is drawn. -/
def jittered (interval : WithTop ℚ) : Duration :=
  let jitterPortion := max 1 (fl.toInt (fl.mul (fl.round (1 / 5)) interval))
  fl.toInt (fl.add (fl.mul (fl.round (4 / 5)) interval) (fl.round (rand jitterPortion.toNat)))

def computeNextDelay : Duration :=
  match p.nextInterval fl elapsedTime numAttempts with
  | none => done
  | some interval => jittered fl rand interval

end ExponentialRetryPolicy

variable {ε : Type}

/-- `retrierImpl`. -/
structure Retrier where
  policy : ExponentialRetryPolicy
  currentAttempt : ℕ
  startTime : Time

def newRetrier (policy : ExponentialRetryPolicy) (now : Time) : Retrier := ⟨policy, 0, now⟩

namespace Retrier

def nextBackOff (fl : Rounding) (rand : ℕ → ℕ) (now : Time) (r : Retrier) : Duration × Retrier :=
  (r.policy.computeNextDelay fl rand (now.sub r.startTime) r.currentAttempt,
    { r with currentAttempt := r.currentAttempt + 1 })

end Retrier

structure ThrottleRetry (ε : Type) where
  policy : ExponentialRetryPolicy
  isRetryable : ε → Bool
  throttlePolicy : ExponentialRetryPolicy
  isThrottle : ε → Bool

/-- The policies that `NewThrottleRetry` starts from. -/
def newThrottleRetry (isBusy : ε → Bool) : ThrottleRetry ε where
  policy := { newExponentialRetryPolicy (50 * Time.millisecond) with maximumInterval := 2000 * Time.millisecond }
  isRetryable _ := false
  throttlePolicy :=
    { newExponentialRetryPolicy (1000 * Time.millisecond) with
      maximumInterval := 10000 * Time.millisecond
      expirationInterval := noInterval }
  isThrottle := isBusy

/-- The variables of `Do` at the head of its loop, with the clock. -/
structure Loop (ε : Type) where
  err : Option ε
  r : Retrier
  t : Retrier
  clock : Time

/-- What one turn of the loop meets: the error of the operation, if any, how
long the operation takes, what is drawn, how much later the second retrier
reads the clock, and whether the context ends before the timer fires, which it
does with some delay. -/
structure Turn (ε : Type) where
  outcome : Option ε
  took : ℕ
  rand : ℕ → ℕ
  between : ℕ
  throttleRand : ℕ → ℕ
  cancelled : Bool
  late : ℕ

/-- How a turn ends: `Do` returns, or the loop goes on after a delay. -/
inductive Progress (ε : Type) where
  | returned (err : Option ε) (clock : Time)
  | continued (loop : Loop ε)

namespace ThrottleRetry

variable (fl : Rounding) (tr : ThrottleRetry ε)

/-- The delay before the next attempt. A throttled operation waits for the
longer of the two delays. -/
def backOff (err : ε) (next : Duration) (t : Retrier) (rand : ℕ → ℕ) (now : Time) : Duration × Retrier :=
  if tr.isThrottle err then
    let (throttleBackOff, t) := t.nextBackOff fl rand now
    (if throttleBackOff ≠ done ∧ next < throttleBackOff then throttleBackOff else next, t)
  else (next, t)

/-- One turn of the loop of `Do`. An earlier error is preferred to the last one. -/
def turn (loop : Loop ε) (turn : Turn ε) : Progress ε :=
  let clock := loop.clock + turn.took
  match turn.outcome with
  | none => .returned none clock
  | some err =>
    let preferred := some (loop.err.getD err)
    if tr.isRetryable err = false then .returned preferred clock
    else
      let (next, r) := loop.r.nextBackOff fl turn.rand clock
      if next = done then .returned preferred clock
      else
        let (next, t) := tr.backOff fl err next loop.t turn.throttleRand (clock + turn.between)
        if turn.cancelled then .returned preferred clock
        else .continued ⟨some err, r, t, clock + turn.between + next + turn.late⟩

variable {fl tr}

/-- `Do` goes on only within the maximum number of attempts. -/
theorem turn_continued {loop next : Loop ε} {met : Turn ε} (h : tr.turn fl loop met = .continued next) :
    next.r = { loop.r with currentAttempt := loop.r.currentAttempt + 1 } ∧
      (loop.r.policy.maximumAttempts ≠ noMaximumAttempts →
        (loop.r.currentAttempt : ℤ) < loop.r.policy.maximumAttempts) := by
  unfold turn at h
  dsimp only at h
  split at h
  · cases h
  split at h
  · cases h
  split at h
  · cases h
  rename_i hgoes
  split at h
  · cases h
  cases h
  refine ⟨rfl, fun hlimited => not_le.mp fun hle => hgoes ?_⟩
  rw [Retrier.nextBackOff, ExponentialRetryPolicy.computeNextDelay, ExponentialRetryPolicy.nextInterval,
    if_pos ⟨hlimited, hle⟩]

end ThrottleRetry

end backoff
