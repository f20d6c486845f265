import EosioSystem.StakingPool.Actions

/-!
# Pay of producers

The older of the two ways to pay producers: inflation fills a bucket for blocks and a bucket for
votes, and a producer claims its part of both once a day. With the staking pools this inflation
fades out.

## Main definitions

* `State.onblock`: a block has been produced
* `State.claimrewards`: a producer claims its pay
* `State.setinflation`, `State.updtrevision`: the settings
-/

namespace EosioSystem

open Checked

variable {K : Type}

/-- `pay_factor_precision`, the unit of the two factors -/
def payFactorPrecision : ℤ := 10000

/-- `min_pervote_daily_pay`, 100'0000 -/
def minPervoteDailyPay : ℤ := 1000000

/-- One year, in microseconds -/
def usecondsPerYear : ℕ := secondsPerYear * 1000000

namespace State

variable [Field K] [LinearOrder K]

/-! ## Blocks -/

omit [Field K] [LinearOrder K] in
/-- The part of `onblock` that counts the block of a registered producer. -/
def countBlock (now : BlockTimestamp) (s : State K) (producer : Name) : State K :=
  let pay := if s.pay.lastPervoteBucketFill = 0 then -- start the presses
    { s.pay with lastPervoteBucketFill := now.usec } else s.pay
  match s.vote.producers.find producer with
  | some prod => { s with
      pay := { pay with totalUnpaidBlocks := (pay.totalUnpaidBlocks + 1) % 2 ^ 32 }
      vote := { s.vote with
        producers := s.vote.producers.set producer { prod with
          unpaidBlocks := (prod.unpaidBlocks + 1) % 2 ^ 32 } } }
  | none => { s with pay }

/-- `onblock`, but for the schedule of producers; `timestamp` and `producer` are those of the block
header. -/
def onblock (now timestamp : BlockTimestamp) (s : State K) (producer : Name) : State K :=
  let s := s.onblockUpdatePool timestamp.slot
  if s.vote.threshActivatedStakeTime = 0 then s -- until activation, no new rewards are paid
  else
    let s := s.countBlock now producer
    if 120 < timestamp.slotsSince s.pay.lastProducerScheduleUpdate then
      { s with pay := { s.pay with
        lastProducerScheduleUpdate := timestamp.slot } }.closeHighestBid now timestamp
    else s

/-- A block counts for its producer only. -/
def Counted (producer : Name) (t t' : Table Name (ProducerInfo K)) : Prop :=
  t' = t ∨ ∃ prod, t.find producer = some prod ∧
    t' = t.set producer { prod with unpaidBlocks := (prod.unpaidBlocks + 1) % 2 ^ 32 }

omit [Field K] [LinearOrder K] in
theorem countBlock_eq (now : BlockTimestamp) (s : State K) (producer : Name) :
    ∃ pay producers, s.countBlock now producer =
      { s with pay, vote := { s.vote with producers } } ∧
        Counted producer s.vote.producers producers := by
  unfold countBlock
  cases hf : s.vote.producers.find producer with
  | none => exact ⟨_, s.vote.producers, rfl, .inl rfl⟩
  | some prod => exact ⟨_, _, rfl, .inr ⟨prod, hf, rfl⟩⟩

/-- What a block changes. -/
theorem onblock_eq (now timestamp : BlockTimestamp) (s : State K) (producer : Name) :
    ∃ intervalStart blocks unpaidBlocks q r names pay producers,
      s.onblock now timestamp producer =
        { ({ s with pools := { s.pools with state := s.pools.state.map fun st =>
            { st with intervalStart, blocks, unpaidBlocks } } } : State K).addNamebids q r with
          names
          pay
          vote := { s.vote with producers } } ∧ Counted producer s.vote.producers producers ∧
        s.BidClosed now timestamp q r names := by
  obtain ⟨intervalStart, blocks, unpaidBlocks, h₁⟩ := s.onblockUpdatePool_eq timestamp.slot
  unfold onblock
  rw [h₁]
  dsimp only
  by_cases hz : s.vote.threshActivatedStakeTime = 0
  · rw [if_pos hz]
    exact ⟨intervalStart, blocks, unpaidBlocks, 0, 0, s.names, s.pay, s.vote.producers,
      by rw [addNamebids_zero], .inl rfl, .same⟩
  · rw [if_neg hz]
    set s₁ : State K := { s with pools := { s.pools with state := s.pools.state.map fun st =>
      { st with intervalStart, blocks, unpaidBlocks } } }
    obtain ⟨pay, producers, h₂, hc⟩ := countBlock_eq now s₁ producer
    rw [h₂]
    split_ifs
    · obtain ⟨q, r, names, h₃, hb⟩ := closeHighestBid_eq { s₁ with
        vote := { s₁.vote with producers }
        pay := { pay with lastProducerScheduleUpdate := timestamp.slot } } now timestamp
      refine ⟨intervalStart, blocks, unpaidBlocks, q, r, names, _, producers, h₃, hc, ?_⟩
      refine hb.congr ?_ ?_ fun bid => ?_
      · rfl
      · rfl
      · -- the counters of blocks do not matter for the transition
        unfold poolsNamebid
        dsimp only [s₁]
        cases s.pools.state <;> rfl
    · exact ⟨intervalStart, blocks, unpaidBlocks, 0, 0, s.names, pay, producers,
        by rw [addNamebids_zero], hc, .same⟩

/-! ## Inflation -/

variable [FloorRing K]

omit [FloorRing K] [LinearOrder K] in
/-- `claimrewards_transition`: the part of the inflation that is not for the staking pools. -/
def claimrewardsTransition (s : State K) (now : BlockTimestamp) : K :=
  match s.pools.state with
  | none => 1
  | some st => 1 - st.transitionFraction now.slot

/-- New tokens in parts: for the savings, for blocks and for votes. -/
def splitInflation (pay : PayState K) (newTokens : ℤ) : ℤ × ℤ × ℤ :=
  let toProducers := (newTokens * payFactorPrecision).tdiv pay.inflationPayFactor
  let toPerBlockPay := (toProducers * payFactorPrecision).tdiv pay.votepayFactor
  (newTokens - toProducers, toPerBlockPay, toProducers - toPerBlockPay)

/-- A transfer that is sent for a positive amount only. -/
def transferPositive (token : Token) (sender receiver : Name) (amount : ℤ) : Except Error Token :=
  if 0 < amount then token.transfer sender receiver amount else return token

/-- Issue the new tokens and send each part to its account. -/
def issueInflation (token : Token) (newTokens toSavings toPerBlockPay toPerVotePay : ℤ) :
    Except Error Token :=
  if 0 < newTokens then do
    let token ← token.issue eosioAccount newTokens
    let token ← transferPositive token eosioAccount savingAccount toSavings
    let token ← transferPositive token eosioAccount bpayAccount toPerBlockPay
    transferPositive token eosioAccount vpayAccount toPerVotePay
  else return token

/-- The inflation since the last time, as a number of tokens. -/
def inflation (now : BlockTimestamp) (s : State K) : Except Error ℤ := do
  let additional : K := s.claimrewardsTransition now * s.pay.continuousRate * s.token.supply *
    (now.usec - s.pay.lastPervoteBucketFill : ℕ) / usecondsPerYear
  check (additional ≤ (2 ^ 63 - 1024 : ℕ))
    "overflow in calculating new tokens to be issued; inflation rate is too high"
  return if additional < 0 then 0 else truncate additional

/-- The part of `claimrewards` that fills the two buckets. -/
def fillBuckets (now : BlockTimestamp) (s : State K) : Except Error (State K) :=
  if s.pay.lastPervoteBucketFill < now.usec ∧ 0 < s.pay.lastPervoteBucketFill then do
    let newTokens ← s.inflation now
    let (toSavings, toPerBlockPay, toPerVotePay) := splitInflation s.pay newTokens
    let token ← issueInflation s.token newTokens toSavings toPerBlockPay toPerVotePay
    return { s with
      token
      pay := { s.pay with
        pervoteBucket := int64 (s.pay.pervoteBucket + toPerVotePay)
        perblockBucket := int64 (s.pay.perblockBucket + toPerBlockPay)
        lastPervoteBucketFill := now.usec } }
  else return s

/-! ## Claims -/

omit [LinearOrder K] [FloorRing K] [Field K] in
/-- The part of the bucket for blocks that a producer has earned; the product has 64 bits. -/
def perBlockPay (pay : PayState K) (prod : ProducerInfo K) : ℤ :=
  if 0 < pay.totalUnpaidBlocks then
    (int64 (pay.perblockBucket * prod.unpaidBlocks)).tdiv pay.totalUnpaidBlocks
  else 0

/-- The part of the bucket for votes that a producer has earned: that of its share, or that of its
votes before the first revision. -/
def perVotePay (pay : PayState K) (vote : VoteState K) (prod : ProducerInfo K) (share : K)
    (crossedThreshold : Bool) : ℤ :=
  let amount :=
    if 0 < pay.revision then
      let total := vote.totalProducerVotepayShare
      if 0 < total ∧ crossedThreshold = false then
        min (truncate (share * pay.pervoteBucket / total)) pay.pervoteBucket
      else 0
    else if 0 < vote.totalProducerVoteWeight then
      truncate (pay.pervoteBucket * prod.totalVotes / vote.totalProducerVoteWeight)
    else 0
  if amount < minPervoteDailyPay then 0 else amount

omit [FloorRing K] in
/-- The votes of a producer that claims: its share, which starts again at zero, and the rate at
which shares grow. With the share before and whether the producer was inactive for three days. -/
def claimShare (now : BlockTimestamp) (vote : VoteState K) (owner : Name)
    (prod : ProducerInfo K) : VoteState K × K × Bool :=
  let known := vote.producers2.find owner
  let p₂ := known.getD ⟨0, now.usec⟩
  let updatedAfterThreshold :=
    known.all fun p₂ => decide (prod.lastClaimTime + threeDays ≤ p₂.lastVotepayShareUpdate)
  let (p₂, share) := VoteState.updateProducerVotepayShare p₂ now.usec
    (if updatedAfterThreshold then 0 else prod.totalVotes) true
  ({ vote with producers2 := vote.producers2.set owner p₂ }, share, updatedAfterThreshold)

/-- `claimrewards` -/
def claimrewards (now : BlockTimestamp) (s : State K) (owner : Name) : Except Error (State K) := do
  requireAuth owner
  let prod ← require (s.vote.producers.find owner) "unable to find key"
  check (prod.isActive = true) "producer does not have an active key"
  check (s.vote.threshActivatedStakeTime ≠ 0)
    "cannot claim rewards until the chain is activated (at least 15% of all tokens participate in voting)"
  check (prod.lastClaimTime + usecondsPerDay < now.usec) "already claimed rewards within past day"
  let s ← s.fillBuckets now
  let crossedThreshold := decide (prod.lastClaimTime + threeDays ≤ now.usec)
  let (vote, share, updatedAfterThreshold) := claimShare now s.vote owner prod
  let blockPay := perBlockPay s.pay prod
  let vote := if 0 < s.pay.revision then vote.updateTotalVotepayShare now.usec 0 0 else vote
  let votePay := perVotePay s.pay vote prod share crossedThreshold
  let vote := vote.updateTotalVotepayShare now.usec (-share)
    (if updatedAfterThreshold then prod.totalVotes else 0)
  let vote := { vote with producers := vote.producers.set owner { prod with
    lastClaimTime := now.usec
    unpaidBlocks := 0 } }
  let token ← transferPositive s.token bpayAccount owner blockPay
  let token ← transferPositive token vpayAccount owner votePay
  return { s with
    vote
    token
    pay := { s.pay with
      pervoteBucket := int64 (s.pay.pervoteBucket - votePay)
      perblockBucket := int64 (s.pay.perblockBucket - blockPay)
      totalUnpaidBlocks := (s.pay.totalUnpaidBlocks - prod.unpaidBlocks) % 2 ^ 32 } }

/-! ## Settings -/

omit [FloorRing K] in
/-- `setinflation` -/
def setinflation [CMath K] (s : State K) (annualRate inflationPayFactor votepayFactor : ℤ) :
    Except Error (State K) := do
  check (0 ≤ annualRate) "annual_rate can't be negative"
  check (payFactorPrecision ≤ inflationPayFactor)
    "inflation_pay_factor must not be less than 10000"
  check (payFactorPrecision ≤ votepayFactor) "votepay_factor must not be less than 10000"
  return { s with pay := { s.pay with
    continuousRate := getContinuousRate annualRate
    inflationPayFactor
    votepayFactor } }

omit [Field K] [LinearOrder K] [FloorRing K] in
/-- `updtrevision` -/
def updtrevision (s : State K) (revision : ℕ) : Except Error (State K) := do
  check (s.pay.revision < 255) "can not increment revision" -- prevent wrap around
  check (revision = s.pay.revision + 1) "can only increment revision by one"
  check (revision ≤ 1) "specified revision is not yet supported by the code"
  return { s with pay := { s.pay with revision } }

end State

end EosioSystem
