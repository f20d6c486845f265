import EosioSystem.Fees
import EosioSystem.StakingPool.Votes

/-!
# Staking pool actions

The actions of the staking pools: deposits, claims and moves of stake, each followed by a new cast
of the owner's votes, the votes themselves, and the pay of producers and voters.

## Main definitions

* `State.cfgsrpool`: the pools are created and configured
* `State.stake2pool`, `State.claimstake`, `State.transferstake`, `State.upgradestake`
* `State.votewithpool`, `State.regpoolproxy`, `State.updatevotes`
* `State.updatepay`, `State.claimvotepay`
* `State.regproducer`, `State.deactivateProducer`: producers gain and lose their place in the votes
-/

namespace EosioSystem

open Checked

/-- The arguments of `cfgsrpool`; what is not given does not change. -/
structure PoolConfig (K : Type) where
  durations : Option (List ℕ)
  claimPeriods : Option (List ℕ)
  voteWeights : Option (List K)
  beginTransition : Option ℕ
  endTransition : Option ℕ
  prodRate : Option K
  voterRate : Option K
  maxNumPay : Option ℕ
  maxVoteRatio : Option K
  minTransferCreate : Option Asset

/-- `rounds_per_year` -/
def roundsPerYear : ℕ := secondsPerYear * 2 / blocksPerRound

variable {K : Type} [Field K] [LinearOrder K]

/-- A pool without stake. -/
def StakingPool.new (duration claimPeriod : ℕ) (voteWeight : K) : StakingPool K :=
  ⟨duration, claimPeriod, voteWeight, ⟨0, 0⟩⟩

/-- The pools of the first configuration, with the checks on it. -/
def newPools (durations claimPeriods : List ℕ) (voteWeights : List K) :
    Except Error (List (StakingPool K)) := do
  check (durations ≠ []) "durations is empty"
  check (claimPeriods.length = durations.length) "mismatched vector sizes"
  check (voteWeights.length = durations.length) "mismatched vector sizes"
  check (∀ d ∈ durations, 0 < d) "duration must be positive"
  check (∀ c ∈ claimPeriods, 0 < c) "claim_period must be positive"
  check (∀ w ∈ voteWeights, 0 < w) "vote_weight must be positive"
  check (∀ x ∈ claimPeriods.zip durations, x.1 < x.2) "claim_period must be less than duration"
  check (durations.IsChain (· < ·)) "durations must be increasing"
  check (claimPeriods.IsChain (· ≤ ·)) "claim_periods must be non-decreasing"
  check (voteWeights.IsChain (· ≤ ·)) "vote_weights must be non-decreasing"
  return List.zipWith (fun x w => .new x.1 x.2 w) (durations.zip claimPeriods) voteWeights

/-- The state of the staking pools when they are first configured. -/
def StakingPoolState.create (now : BlockTimestamp) (args : PoolConfig K) :
    Except Error (StakingPoolState K) := do
  let durations ← require args.durations "durations is required on first use of cfgsrpool"
  let claimPeriods ← require args.claimPeriods
    "claim_periods is required on first use of cfgsrpool"
  let voteWeights ← require args.voteWeights "vote_weights is required on first use of cfgsrpool"
  let _ ← require args.beginTransition "begin_transition is required on first use of cfgsrpool"
  let _ ← require args.endTransition "end_transition is required on first use of cfgsrpool"
  let pools ← newPools durations claimPeriods voteWeights
  return {
    beginTransition := 0
    endTransition := 0
    prodRate := 0
    voterRate := 0
    maxNumPay := 50
    maxVoteRatio := 4 / 5
    minTransferCreate := 10000
    pools
    intervalStart := now.slot / blocksPerRound * blocksPerRound
    blocks := 0
    unpaidBlocks := 0
    totalVotes := List.replicate durations.length 0
    namebidProceeds := 0 }

/-- The settings that can be changed at any time. -/
def StakingPoolState.configure (st : StakingPoolState K) (core : Symbol) (args : PoolConfig K) :
    Except Error (StakingPoolState K) := do
  let st := { st with
    beginTransition := args.beginTransition.getD st.beginTransition
    endTransition := args.endTransition.getD st.endTransition }
  check (st.beginTransition ≤ st.endTransition) "begin_transition > end_transition"
  check (∀ r ∈ args.prodRate, 0 ≤ r ∧ r < 1) "prod_rate out of range"
  check (∀ r ∈ args.voterRate, 0 ≤ r ∧ r < 1) "voter_rate out of range"
  check (∀ r ∈ args.maxVoteRatio, 0 ≤ r ∧ r ≤ 1) "max_vote_ratio out of range"
  check (∀ a ∈ args.minTransferCreate, a.symbol = core ∧ 0 ≤ a.amount)
    "min_transfer_create out of range"
  return { st with
    prodRate := args.prodRate.getD st.prodRate
    voterRate := args.voterRate.getD st.voterRate
    maxNumPay := args.maxNumPay.getD st.maxNumPay
    maxVoteRatio := args.maxVoteRatio.getD st.maxVoteRatio
    minTransferCreate := (args.minTransferCreate.map Asset.amount).getD st.minTransferCreate }

namespace State

variable (s : State K)

omit [Field K] [LinearOrder K] in
/-- `get_staking_pool_state` -/
def poolState : Except Error (StakingPoolState K) :=
  require s.pools.state "staking pools not configured"

omit [Field K] [LinearOrder K] in
@[simp] theorem poolState_eq_ok {s : State K} {st : StakingPoolState K} :
    s.poolState = .ok st ↔ s.pools.state = some st := require_eq_ok

omit [Field K] [LinearOrder K] in
theorem poolState_avoids {bad : List Error} (h : "staking pools not configured" ∉ bad) :
    Avoids bad s.poolState := .require h

omit [Field K] [LinearOrder K] in
/-- Write the state of the staking pools and the pool voters. -/
def setPools (st : StakingPoolState K) (voters : Table Name (PoolVoter K)) : State K :=
  { s with pools := { s.pools with state := some st, voters } }

/-- `cfgsrpool` -/
def cfgsrpool (now : BlockTimestamp) (args : PoolConfig K) : Except Error (State K) := do
  let core ← s.coreSymbol
  match s.pools.state with
  | none =>
    let st ← StakingPoolState.create now args
    let st ← st.configure core args
    let vote := if s.vote.threshActivatedStakeTime = 0 then
      { s.vote with threshActivatedStakeTime := now.usec } else s.vote
    return { s with vote, pools := { s.pools with state := some st } }
  | some st =>
    check (args.durations.isNone = true) "durations can't change"
    check (args.claimPeriods.isNone = true) "claim_periods can't change"
    check (args.voteWeights.isNone = true) "vote_weights can't change"
    let st ← st.configure core args
    return { s with pools := { s.pools with state := some st } }

/-! ## Stake -/

/-- `update_pool_votes` on the tables of the contract -/
def updatePoolVotes (voterName proxy : Name) (producers : List Name) (voting : Bool) :
    Except Error (State K) := do
  let st ← s.poolState
  let pv : PoolVotes K := ⟨st.totalVotes, s.pools.voters, s.vote.producers⟩
  let pv ← pv.updatePoolVotes st.pools.length voterName proxy producers voting
  return { s.setPools { st with totalVotes := pv.totalVotes } pv.voters with
    vote := { s.vote with producers := pv.producers } }

/-- Cast the votes of a voter again, after a change of its shares. -/
def recastVotes (voterName : Name) : Except Error (State K) := do
  let voter ← require (s.pools.voters.find voterName) "unable to find key"
  s.updatePoolVotes voterName voter.proxy voter.producers false

omit [Field K] [LinearOrder K] in
/-- `check_pool_requirements` -/
def checkPoolRequirements (proxy : Name) (producers : List Name) : Except Error Unit :=
  check (proxy ≠ .none ∨ 21 ≤ producers.length)
    "Need to proxy votes or vote for at least 21 producers"

omit [Field K] [LinearOrder K] in
theorem checkPoolRequirements_avoids {bad : List Error}
    (h : "Need to proxy votes or vote for at least 21 producers" ∉ bad) (proxy : Name)
    (producers : List Name) : Avoids bad (checkPoolRequirements proxy producers) :=
  .check (.inl h)

section Stake

variable [FloorRing K]

omit [LinearOrder K] [FloorRing K] in
/-- The record of a voter with other shares in a pool. -/
def setShares (v : PoolVoter K) (i : ℕ) (shares : K) : PoolVoter K :=
  { v with ownedShares := v.ownedShares.set i shares }

/-- A deposit to the pool `i` of the pools and of a voter. -/
def deposit2pool (now : BlockTimestamp) (pools : List (StakingPool K)) (v : PoolVoter K) (i : ℕ)
    (amount : ℤ) : Except Error (List (StakingPool K) × PoolVoter K) := do
  let pool ← require pools[i]? "invalid pool"
  let (pool, shares, next) ← depositPool now pool (v.ownedShares.getD i 0) (v.nextClaim.getD i 0)
    amount
  return (pools.set i pool, { setShares v i shares with nextClaim := v.nextClaim.set i next })

/-- A withdrawal from the pool `i` of the pools and of a voter. -/
def withdrawFrom (pools : List (StakingPool K)) (v : PoolVoter K) (i : ℕ) (requested : ℤ)
    (claiming : Bool) : Except Error (List (StakingPool K) × PoolVoter K × ℤ) := do
  let pool ← require pools[i]? "invalid pool"
  let (pool, shares, sold) ← withdrawPool pool (v.ownedShares.getD i 0) requested claiming
  return (pools.set i pool, setShares v i shares, sold)

omit [FloorRing K] in
/-- The checks on a pool after a withdrawal. -/
def checkPool (pools : List (StakingPool K)) (i : ℕ) : Except Error Unit := do
  let pool ← require pools[i]? "invalid pool"
  check (0 ≤ pool.tokenPool.totalShares) "pool shares is negative"
  check (0 ≤ pool.tokenPool.balance) "pool amount is negative"

/-- `stake2pool` -/
def stake2pool (now : BlockTimestamp) (owner : Name) (i : ℕ) (amount : Asset) :
    Except Error (State K) := do
  requireAuth owner
  let st ← s.poolState
  check (i < st.pools.length) "invalid pool"
  s.checkCore amount "amount doesn't match core symbol"
  check (0 < amount.amount) "amount must be positive"
  let voter := getOrCreatePoolVoter s.pools.voters st.pools.length owner
  let (pools, voter) ← deposit2pool now st.pools voter i amount.amount
  let token ← s.token.transfer owner srpoolAccount amount.amount
  let s := { s with token }.setPools { st with pools } (s.pools.voters.set owner voter)
  s.recastVotes owner

omit [LinearOrder K] [FloorRing K] in
/-- `setpoolnotif` -/
def setpoolnotif (owner : Name) (xferOutNotif xferInNotif : Option Bool) :
    Except Error (State K) := do
  requireAuth owner
  let st ← s.poolState
  let voter := getOrCreatePoolVoter s.pools.voters st.pools.length owner
  return s.setPools st (s.pools.voters.set owner { voter with
    xferOutNotif := xferOutNotif.getD voter.xferOutNotif
    xferInNotif := xferInNotif.getD voter.xferInNotif })

/-- `claimstake` -/
def claimstake (now : BlockTimestamp) (owner : Name) (i : ℕ) (requested : Asset) :
    Except Error (State K) := do
  requireAuth owner
  let st ← s.poolState
  let voter := getOrCreatePoolVoter s.pools.voters st.pools.length owner
  check (i < st.pools.length) "invalid pool"
  s.checkCore requested "requested doesn't match core symbol"
  check (0 < requested.amount) "requested must be positive"
  checkPoolRequirements voter.proxy voter.producers
  let s ← s.distributeNamebidToPools now
  let st ← s.poolState
  let pool ← require st.pools[i]? "invalid pool"
  check (voter.nextClaim.getD i 0 ≤ now.slot) "claim too soon"
  let (pools, voter, claimedAmount) ← withdrawFrom st.pools voter i requested.amount true
  let nextClaim := voter.nextClaim.set i ((now.slot + pool.claimPeriod * 2) % 2 ^ 32)
  checkPool pools i
  let token ← (if claimedAmount ≠ 0 then s.token.transfer srpoolAccount owner claimedAmount
    else pure s.token)
  let s := { s with token }.setPools { st with pools }
    (s.pools.voters.set owner { voter with nextClaim })
  s.recastVotes owner

/-- `transferstake` -/
def transferstake (env : Env) (sender receiver : Name) (i : ℕ) (requested : Asset)
    (memo : String) : Except Error (State K) := do
  requireAuth sender
  check (memo.utf8ByteSize ≤ 256) "memo has more than 256 bytes"
  check (sender ≠ receiver) "from = to"
  check (env.isAccount receiver = true) "invalid account"
  let st ← s.poolState
  check (i < st.pools.length) "invalid pool"
  s.checkCore requested "requested doesn't match core symbol"
  check (0 < requested.amount) "requested must be positive"
  let fromVoter ← require (s.pools.voters.find sender) "from pool_voter record missing"
  check (s.pools.voters.find receiver ≠ none ∨ st.minTransferCreate ≤ requested.amount)
    "requested amount is too small to automatically create pool_voter record"
  let toVoter := getOrCreatePoolVoter s.pools.voters st.pools.length receiver
  let (pools, fromVoter, transferredAmount) ← withdrawFrom st.pools fromVoter i requested.amount
    false
  check (0 < transferredAmount) "transferred 0"
  let (pools, toVoter) ← deposit2pool env.now pools toVoter i transferredAmount
  checkPool pools i
  let s := s.setPools { st with pools }
    ((s.pools.voters.set sender fromVoter).set receiver toVoter)
  let s ← s.recastVotes sender
  s.recastVotes receiver

/-- `upgradestake` -/
def upgradestake (now : BlockTimestamp) (owner : Name) (fromIndex toIndex : ℕ)
    (requested : Asset) : Except Error (State K) := do
  requireAuth owner
  let st ← s.poolState
  check (fromIndex < st.pools.length) "invalid pool"
  check (toIndex < st.pools.length) "invalid pool"
  check (fromIndex < toIndex) "may only move from a shorter-term pool to a longer-term one"
  s.checkCore requested "requested doesn't match core symbol"
  check (0 < requested.amount) "requested must be positive"
  let voter ← require (s.pools.voters.find owner) "pool_voter record missing"
  let (pools, voter, transferredAmount) ← withdrawFrom st.pools voter fromIndex requested.amount
    false
  check (0 < transferredAmount) "transferred 0"
  let (pools, voter) ← deposit2pool now pools voter toIndex transferredAmount
  checkPool pools fromIndex
  let s := s.setPools { st with pools } (s.pools.voters.set owner voter)
  s.recastVotes owner

end Stake

/-! ## Votes -/

/-- `votewithpool` -/
def votewithpool (voter proxy : Name) (producers : List Name) : Except Error (State K) := do
  requireAuth voter
  let _ ← s.poolState
  checkPoolRequirements proxy producers
  s.updatePoolVotes voter proxy producers true

omit [LinearOrder K] in
/-- `regpoolproxy` -/
def regpoolproxy (proxy : Name) (isproxy : Bool) : Except Error (State K) := do
  requireAuth proxy
  let st ← s.poolState
  let voter := getOrCreatePoolVoter s.pools.voters st.pools.length proxy
  check (isproxy = false ∨ voter.proxy = .none)
    "account that uses a proxy is not allowed to become a proxy"
  let voters := s.pools.voters.set proxy { voter with isProxy := isproxy }
  let pv ← (⟨st.totalVotes, voters, s.vote.producers⟩ : PoolVotes K).updateProxy proxy
  return { s.setPools { st with totalVotes := pv.totalVotes } pv.voters with
    vote := { s.vote with producers := pv.producers } }

omit [LinearOrder K] in
/-- `updatevotes` -/
def updatevotes (user producer : Name) : Except Error (State K) := do
  requireAuth user
  let prod ← require (s.vote.producers.find producer) "unknown producer"
  check (prod.isActive = true) "producer is not active"
  let poolVotes ← require prod.poolVotes "producer is not upgraded to support pool votes"
  let t ← require (s.pools.totals.find producer) "unable to find key"
  let st ← s.poolState
  let votes ← calcVotes st.pools poolVotes
  return { s with pools := { s.pools with totals := s.pools.totals.set producer { t with votes } } }

/-! ## Pay -/

section Pay

variable [FloorRing K]

/-- Pay the given producers in turn until the votes that have been paid for are enough: the new
table and the pay in total. -/
def payProducers (target : ℤ) (totalVotes maxVotes : K) :
    List Name → Table Name (TotalPoolVotes K) → K → ℤ →
      Except Error (Table Name (TotalPoolVotes K) × ℤ)
  | [], totals, _, paid => return (totals, paid)
  | acnt :: l, totals, votesPaid, paid =>
    if maxVotes ≤ votesPaid then return (totals, paid)
    else do
      let t ← require (totals.find acnt) "unable to find key"
      let pay := truncate (target * t.votes / totalVotes)
      payProducers target totalVotes maxVotes l
        (totals.set acnt { t with votePay := t.votePay + pay }) (votesPaid + t.votes) (paid + pay)

omit [FloorRing K] in
/-- Add the pay of the voters to each pool with shares: the pools and the pay in total. -/
def payPools (perPoolPay : ℤ) (pools : List (StakingPool K)) : List (StakingPool K) × ℤ :=
  (pools.map fun p => if p.tokenPool.totalShares ≠ 0 then p.adjust perPoolPay else p,
    perPoolPay * activePools pools)

/-- New tokens for the pay of producers and voters. -/
def issuePay (token : Token) (totalProdPay totalVoterPay : ℤ) : Except Error Token := do
  let newTokens := totalProdPay + totalVoterPay
  if newTokens ≤ 0 then return token
  let token ← token.issue eosioAccount newTokens
  let token ← (if 0 < totalProdPay then token.transfer eosioAccount bpspayAccount totalProdPay
    else pure token)
  if 0 < totalVoterPay then token.transfer eosioAccount srpoolAccount totalVoterPay
  else return token

/-- `updatepay` -/
def updatepay (user : Name) : Except Error (State K) := do
  requireAuth user
  let st ← s.poolState
  check (0 < st.unpaidBlocks) "already processed pay for this time interval"
  let totals ← updateTotalPoolVotes st.pools s.vote.producers s.pools.totals st.maxNumPay
  let prods := topActiveProducers totals st.maxNumPay
  let totalVotes ← calcVotes st.pools st.totalVotes
  let payScale : K := ((st.unpaidBlocks : K) / blocksPerRound) ^ 10 *
    st.transitionFraction st.intervalStart
  let supply : K := s.token.supply
  let targetProdPay := truncate (payScale * st.prodRate / roundsPerYear * supply)
  let (totals, totalProdPay) ←
    (if 0 < targetProdPay ∧ 0 < totalVotes then
      payProducers targetProdPay totalVotes (totalVotes * st.maxVoteRatio) prods totals 0 0
    else pure (totals, 0))
  let perPoolPay := truncate (payScale * st.voterRate / roundsPerYear * supply / st.pools.length)
  let (pools, totalVoterPay) := payPools perPoolPay st.pools
  let token ← issuePay s.token totalProdPay totalVoterPay
  return { s with token, pools := { s.pools with
    state := some { st with pools, unpaidBlocks := 0 }
    totals } }

omit [LinearOrder K] [FloorRing K] [Field K] in
/-- `claimvotepay` -/
def claimvotepay (producer : Name) : Except Error (State K) := do
  requireAuth producer
  let t ← require (s.pools.totals.find producer) "unknown producer"
  check (0 < t.votePay) "no pay available"
  let token ← s.token.transfer bpspayAccount producer t.votePay
  let totals := s.pools.totals.set producer { t with votePay := 0 }
  return { s with token, pools := { s.pools with totals } }

omit [Field K] [LinearOrder K] [FloorRing K] in
/-- `onblock_update_pool` -/
def onblockUpdatePool (productionSlot : ℕ) : State K :=
  match s.pools.state with
  | none => s
  | some st =>
    let st := if (st.intervalStart + blocksPerRound) % 2 ^ 32 ≤ productionSlot then
      { st with
        unpaidBlocks := st.blocks
        blocks := 0
        intervalStart := productionSlot / blocksPerRound * blocksPerRound } else st
    { s with pools := { s.pools with state := some { st with blocks := st.blocks + 1 } } }

omit [Field K] [LinearOrder K] [FloorRing K] in
theorem onblockUpdatePool_eq (productionSlot : ℕ) :
    ∃ intervalStart blocks unpaidBlocks, s.onblockUpdatePool productionSlot =
      { s with pools := { s.pools with state := s.pools.state.map fun st =>
        { st with intervalStart, blocks, unpaidBlocks } } } := by
  unfold onblockUpdatePool
  split
  · rename_i hst
    exact ⟨0, 0, 0, by rw [hst, Option.map_none, ← hst]⟩
  · rename_i st hst
    dsimp only
    split_ifs
    · exact ⟨_, _, _, by rw [hst]; rfl⟩
    · exact ⟨st.intervalStart, _, st.unpaidBlocks, by rw [hst]; rfl⟩

end Pay

/-! ## Producers -/

omit [LinearOrder K] in
/-- `enable_prod_pool_votes`: the pool votes of a producer and the totals table. -/
def enableProdPoolVotes (producer : Name) (poolVotes : Option (List K)) :
    Except Error (Option (List K) × Table Name (TotalPoolVotes K)) := do
  match s.pools.state, poolVotes with
  | none, _ => return (poolVotes, s.pools.totals)
  | some _, some votes =>
    let t ← require (s.pools.totals.find producer) "unable to find key"
    return (some votes, s.pools.totals.set producer { t with active := true })
  | some st, none =>
    check (s.pools.totals.find producer = none)
      "could not insert object, most likely a uniqueness constraint was violated"
    return (some (List.replicate st.pools.length 0), s.pools.totals.set producer ⟨true, 0, 0⟩)

/-- `register_producer` -/
def registerProducer (now : BlockTimestamp) (producer : Name) : Except Error (State K) := do
  let ct := now.usec
  match s.vote.producers.find producer with
  | some info =>
    let (poolVotes, totals) ← s.enableProdPoolVotes producer info.poolVotes
    let info := { info with
      isActive := true
      lastClaimTime := if info.lastClaimTime = 0 then ct else info.lastClaimTime
      poolVotes }
    let vote := { s.vote with producers := s.vote.producers.set producer info }
    let vote := match vote.producers2.find producer with
      | some _ => vote
      | none => ({ vote with producers2 := vote.producers2.set producer ⟨0, ct⟩ } :
          VoteState K).updateTotalVotepayShare ct 0 info.totalVotes
    return { s with vote, pools := { s.pools with totals } }
  | none =>
    let (poolVotes, totals) ← s.enableProdPoolVotes producer none
    check (s.vote.producers2.find producer = none)
      "could not insert object, most likely a uniqueness constraint was violated"
    return { s with
      vote := { s.vote with
        producers := s.vote.producers.set producer ⟨0, true, 0, ct, poolVotes⟩
        producers2 := s.vote.producers2.set producer ⟨0, ct⟩ }
      pools := { s.pools with totals } }

/-- `regproducer` -/
def regproducer (now : BlockTimestamp) (producer : Name) (url : String) :
    Except Error (State K) := do
  requireAuth producer
  check (url.utf8ByteSize < 512) "url too long"
  s.registerProducer now producer

omit [Field K] [LinearOrder K] in
/-- `deactivate_producer` -/
def deactivateProducer (producer : Name) : Except Error (State K) := do
  let prod ← require (s.vote.producers.find producer) "producer not found"
  let vote := { s.vote with
    producers := s.vote.producers.set producer { prod with isActive := false } }
  let totals := match s.pools.totals.find producer with
    | some t => s.pools.totals.set producer { t with active := false }
    | none => s.pools.totals
  return { s with vote, pools := { s.pools with totals } }

omit [Field K] [LinearOrder K] in
/-- `unregprod` -/
def unregprod (producer : Name) : Except Error (State K) := do
  requireAuth producer
  s.deactivateProducer producer

omit [Field K] [LinearOrder K] in
/-- `rmvproducer` -/
def rmvproducer (producer : Name) : Except Error (State K) := s.deactivateProducer producer

end State

end EosioSystem
