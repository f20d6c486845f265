import EosioSystem.Rex.State

/-!
# The REX return pool

Fees go to a pending bucket, which opens at a 12-hour boundary and is then paid out to the lenders
in equal parts over the 4320 ten-minute intervals of the next 30 days.

## Main definitions

* `RexReturn.update`: pay out what is due, from `update_rex_pool`
* `RexReturn.addFee`: put a fee in the pending bucket, from `add_to_rex_return_pool`
-/

namespace EosioSystem

/-- `rex_return_pool::total_intervals`, 30 days -/
def totalIntervals : ℕ := 30 * 144

/-- `rex_return_pool::dist_interval`, 10 minutes -/
def distInterval : ℕ := 10 * 60

/-- The length of a bucket: `rex_return_pool::hours_per_bucket` hours -/
def bucketInterval : ℕ := 12 * secondsPerHour

def getElapsedIntervals (t₁ t₀ : ℕ) : ℕ := (t₁ - t₀) / distInterval

namespace RexReturn

/-- The rate that a bucket of the given proceeds is paid out at, and what does not divide. -/
def bucketRate (proceeds : ℤ) : ℤ × ℤ :=
  let remainder := proceeds.tmod totalIntervals
  ((proceeds - remainder).tdiv totalIntervals, remainder)

/-- The pending bucket opens: its rate joins the current rate. The new pool, the new buckets and
what the new bucket pays up to the time `eff`. -/
def openBucket (eff : ℕ) (rp : RexReturnPool) (buckets : Table ℕ ℤ) :
    RexReturnPool × Table ℕ ℤ × ℤ :=
  let (rate, remainder) := bucketRate rp.pendingBucketProceeds
  let time := rp.pendingBucketTime
  ({ rp with
      currentRateOfIncrease := rp.currentRateOfIncrease + rate
      pendingBucketProceeds := 0
      pendingBucketTime := maximumTime
      oldestBucketTime := if time < rp.oldestBucketTime then time else rp.oldestBucketTime },
    buckets.set time rate, remainder + rate * getElapsedIntervals eff time)

/-- The least key of the buckets, or the start of time when there are none. -/
def oldestTime (buckets : Table ℕ ℤ) : ℕ :=
  match buckets.first fun t _ => t with
  | some (t, _) => t
  | none => 0

/-- The buckets that are 30 days old leave. The new pool, the new buckets and what they were
paid too much up to the time `eff`. -/
def closeBuckets (eff : ℕ) (rp : RexReturnPool) (buckets : Table ℕ ℤ) :
    RexReturnPool × Table ℕ ℤ × ℤ :=
  let threshold := eff - totalIntervals * distInterval
  if rp.oldestBucketTime ≤ threshold then
    let expired := buckets.filter fun t _ => t ≤ threshold
    let kept := buckets.filter fun t _ => threshold < t
    let surplus := expired.sum fun t rate =>
      rate * getElapsedIntervals eff (t + totalIntervals * distInterval)
    let expiredRate := expired.sum fun _ rate => rate
    ({ rp with
        oldestBucketTime := oldestTime kept
        currentRateOfIncrease :=
          if 0 < expiredRate then rp.currentRateOfIncrease - expiredRate
          else rp.currentRateOfIncrease
        proceeds := if 0 < surplus then rp.proceeds + surplus else rp.proceeds },
      kept, if 0 < surplus then surplus else 0)
  else (rp, buckets, 0)

/-- `effective_time`: the start of the current interval -/
def effectiveTime (now : ℕ) : ℕ := now - now % distInterval

/-- Pay out what is due at the time `now`: the new return pool and the amount for the lenders. -/
def update (now : ℕ) (ret : RexReturn) : RexReturn × ℤ :=
  match ret.pool with
  | none => (ret, 0)
  | some rp =>
    let eff := effectiveTime now
    if eff ≤ rp.lastDistTime then (ret, 0)
    else
      let base := rp.currentRateOfIncrease * getElapsedIntervals eff rp.lastDistTime
      let (rp₁, buckets₁, opened) :=
        if rp.pendingBucketTime ≤ eff then openBucket eff rp ret.buckets else (rp, ret.buckets, 0)
      let rp₁ := { rp₁ with proceeds := rp₁.proceeds - (base + opened), lastDistTime := eff }
      let (rp₂, buckets₂, surplus) := closeBuckets eff rp₁ buckets₁
      let change := base + opened - surplus
      -- the proceeds never pay more than they hold
      let (rp₃, change) :=
        if 0 < change ∧ rp₂.proceeds < 0 then
          ({ rp₂ with proceeds := 0 }, change + rp₂.proceeds)
        else (rp₂, change)
      (⟨some rp₃, buckets₂⟩, if 0 < change then change else 0)

/-- The time at which a bucket that receives a fee at `now` opens. -/
def nextBucketTime (now : ℕ) : ℕ := now - now % bucketInterval + bucketInterval

/-- Put a fee in the pending bucket. -/
def addFee (now : ℕ) (fee : ℤ) (ret : RexReturn) : RexReturn :=
  match ret.pool with
  | none =>
    ⟨some {
      lastDistTime := nextBucketTime now
      pendingBucketTime := nextBucketTime now
      oldestBucketTime := 0
      pendingBucketProceeds := fee
      currentRateOfIncrease := 0
      proceeds := fee }, .empty⟩
  | some rp =>
    ⟨some { rp with
      pendingBucketProceeds := rp.pendingBucketProceeds + fee
      proceeds := rp.proceeds + fee
      pendingBucketTime :=
        if rp.pendingBucketTime = maximumTime then nextBucketTime now
        else rp.pendingBucketTime }, ret.buckets⟩

end RexReturn

end EosioSystem
