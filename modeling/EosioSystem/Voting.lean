import EosioSystem.Basic

/-!
# Voting for producers

The voters and producers tables and the functions that keep the vote tallies: a vote is cast with
the weight of the voter's stake, passed on through a proxy, and taken back with the weight it was
last cast with.

## Main definitions

* `VoterInfo`, `ProducerInfo`, `ProducerInfo2`: the records
* `VoteState`: the tables, and the global sums over them
* `propagateWeightChange`, `updateVotes`, `updateVotingPower`: the tallies
-/

namespace EosioSystem

open Checked

variable (K : Type)

/-- A voter; the three flags are the bits of `flags1`. -/
structure VoterInfo where
  /-- the proxy set by the voter, if any -/
  proxy : Name
  /-- the producers approved by this voter if no proxy set -/
  producers : List Name
  staked : ℤ
  /-- the vote weight cast the last time the vote was updated -/
  lastVoteWeight : K
  /-- the total vote weight delegated to this voter as a proxy -/
  proxiedVoteWeight : K
  isProxy : Bool
  ramManaged : Bool
  netManaged : Bool
  cpuManaged : Bool

structure ProducerInfo where
  totalVotes : K
  isActive : Bool
  unpaidBlocks : ℕ
  lastClaimTime : ℕ
  /-- `none` for a producer that has not been registered since the staking pools exist -/
  poolVotes : Option (List K)

structure ProducerInfo2 where
  votepayShare : K
  lastVotepayShareUpdate : ℕ

/-- The voting tables and the global state of the votes. The last two are no fields of the
contract: `skippedChanges` counts the nonzero weight changes that `propagateWeightChange` has not
forwarded, and `clamps` the negative totals that have been set to zero. -/
structure VoteState where
  voters : Table Name (VoterInfo K)
  producers : Table Name (ProducerInfo K)
  producers2 : Table Name (ProducerInfo2 K)
  threshActivatedStakeTime : ℕ
  totalActivatedStake : ℤ
  totalProducerVoteWeight : K
  totalProducerVotepayShare : K
  lastVpayStateUpdate : ℕ
  totalVpayShareChangeRate : K
  skippedChanges : ℕ
  clamps : ℕ

variable {K} [Field K] [LinearOrder K]

/-- The row of a voter before anything is recorded in it. -/
def VoterInfo.new : VoterInfo K where
  proxy := .none
  producers := []
  staked := 0
  lastVoteWeight := 0
  proxiedVoteWeight := 0
  isProxy := false
  ramManaged := false
  netManaged := false
  cpuManaged := false

/-- The tables before anybody has staked or registered. -/
def VoteState.empty : VoteState K where
  voters := .empty
  producers := .empty
  producers2 := .empty
  threshActivatedStakeTime := 0
  totalActivatedStake := 0
  totalProducerVoteWeight := 0
  totalProducerVotepayShare := 0
  lastVpayStateUpdate := 0
  totalVpayShareChangeRate := 0
  skippedChanges := 0
  clamps := 0

/-- `min_activated_stake`, 150'000'000'0000 -/
def minActivatedStake : ℤ := 1500000000000

/-- Three days, in microseconds -/
def threeDays : ℕ := 3 * secondsPerDay * 1000000

section

variable [CMath K]

/-- The factor of a stake's vote weight: it doubles each year. -/
def voteFactor (now : BlockTimestamp) : K :=
  CMath.pow 2 ((((now.sec - BlockTimestamp.epochSec) / (secondsPerDay * 7) : ℕ) : K) / 52)

def stake2vote (now : BlockTimestamp) (staked : ℤ) : K := staked * voteFactor now

/-- The weight of a voter's vote: its own stake, and what is delegated to it as a proxy. -/
def VoterInfo.weight (now : BlockTimestamp) (v : VoterInfo K) : K :=
  stake2vote now v.staked + if v.isProxy then v.proxiedVoteWeight else 0

end

namespace VoteState

variable (vs : VoteState K)

omit [Field K] [LinearOrder K] in
/-- Write the row of a voter. -/
def setVoter (a : Name) (v : VoterInfo K) : VoteState K :=
  { vs with voters := vs.voters.set a v }

/-- `update_total_votepay_share` -/
def updateTotalVotepayShare (ct : ℕ) (additionalSharesDelta sharesRateDelta : K) : VoteState K :=
  let elapsed : K := if vs.lastVpayStateUpdate < ct then
    vs.totalVpayShareChangeRate * (((ct - vs.lastVpayStateUpdate : ℕ) : K) / 1000000) else 0
  let delta := elapsed + additionalSharesDelta
  { vs with
    totalProducerVotepayShare :=
      if delta < 0 ∧ vs.totalProducerVotepayShare < -delta then 0
      else vs.totalProducerVotepayShare + delta
    totalVpayShareChangeRate :=
      if sharesRateDelta < 0 ∧ vs.totalVpayShareChangeRate < -sharesRateDelta then 0
      else vs.totalVpayShareChangeRate + sharesRateDelta
    lastVpayStateUpdate := ct
    clamps := vs.clamps +
      (if delta < 0 ∧ vs.totalProducerVotepayShare < -delta then 1 else 0) +
      if sharesRateDelta < 0 ∧ vs.totalVpayShareChangeRate < -sharesRateDelta then 1 else 0 }

/-- `update_producer_votepay_share`: the new record and the share before a reset. -/
def updateProducerVotepayShare (p : ProducerInfo2 K) (ct : ℕ) (sharesRate : K)
    (resetToZero : Bool) : ProducerInfo2 K × K :=
  let delta : K := if 0 < sharesRate ∧ p.lastVotepayShareUpdate < ct then
    sharesRate * (((ct - p.lastVotepayShareUpdate : ℕ) : K) / 1000000) else 0
  let share := p.votepayShare + delta
  (⟨if resetToZero then 0 else share, ct⟩, share)

/-- What the producers of one vote add up to: the change of the share rate, and the share of the
producers that went inactive. -/
structure VotepayChange (K : Type) where
  deltaChangeRate : K
  totalInactiveVpayShare : K

/-- The vote pay of a producer whose votes change by `delta`. -/
def updateVotepay (ct : ℕ) (acnt : Name) (initTotalVotes : K) (lastClaimTime : ℕ) (delta : K)
    (acc : VotepayChange K) : VoteState K × VotepayChange K :=
  match vs.producers2.find acnt with
  | none => (vs, acc)
  | some p₂ =>
    let crossedThreshold := decide (lastClaimTime + threeDays ≤ ct)
    let updatedAfterThreshold := decide (lastClaimTime + threeDays ≤ p₂.lastVotepayShareUpdate)
    let (p₂', share) := updateProducerVotepayShare p₂ ct
      (if updatedAfterThreshold then 0 else initTotalVotes)
      (crossedThreshold && !updatedAfterThreshold)
    ({ vs with producers2 := vs.producers2.set acnt p₂' },
      if !crossedThreshold then
        { acc with deltaChangeRate := acc.deltaChangeRate + delta }
      else if !updatedAfterThreshold then
        ⟨acc.deltaChangeRate - initTotalVotes, acc.totalInactiveVpayShare + share⟩
      else acc)

/-- Add `delta` to the votes of the producers a propagated vote is for. -/
def addToProducers (ct : ℕ) (delta : K) :
    List Name → VoteState K → VotepayChange K → Except Error (VoteState K × VotepayChange K)
  | [], vs, acc => return (vs, acc)
  | acnt :: l, vs, acc => do
    let prod ← require (vs.producers.find acnt) "producer not found"
    let vs := { vs with
      producers := vs.producers.set acnt { prod with totalVotes := prod.totalVotes + delta }
      totalProducerVoteWeight := vs.totalProducerVoteWeight + delta }
    let (vs, acc) := vs.updateVotepay ct acnt prod.totalVotes prod.lastClaimTime delta acc
    addToProducers ct delta l vs acc

variable [CMath K]

/-- `propagate_weight_change`. The first argument bounds the depth of the recursion through the
proxies. -/
def propagateWeightChange (now : BlockTimestamp) :
    ℕ → VoteState K → Name → Except Error (VoteState K)
  | 0, _, _ => .error "call depth exceeded"
  | fuel + 1, vs, voterName => do
    let voter ← require (vs.voters.find voterName) "unable to find key"
    check (voter.proxy = .none ∨ voter.isProxy = false)
      "account registered as a proxy is not allowed to use a proxy"
    let newWeight := voter.weight now
    let delta := newWeight - voter.lastVoteWeight
    let vs ←
      (if 1 < |delta| then -- don't propagate small changes
        if voter.proxy ≠ .none then do
          let proxy ← require (vs.voters.find voter.proxy) "proxy not found"
          let proxy := { proxy with proxiedVoteWeight := proxy.proxiedVoteWeight + delta }
          propagateWeightChange now fuel (vs.setVoter voter.proxy proxy) voter.proxy
        else do
          let (vs, acc) ← addToProducers now.usec delta voter.producers vs ⟨0, 0⟩
          pure (vs.updateTotalVotepayShare now.usec (-acc.totalInactiveVpayShare)
            acc.deltaChangeRate)
      else pure (if delta = 0 then vs else { vs with skippedChanges := vs.skippedChanges + 1 }))
    let voter ← require (vs.voters.find voterName) "unable to find key"
    return vs.setVoter voterName { voter with lastVoteWeight := newWeight }

/-- A recursion deep enough for every chain of distinct voters. -/
def propagate (now : BlockTimestamp) (voterName : Name) : Except Error (VoteState K) :=
  propagateWeightChange now (vs.voters.rows.length + 1) vs voterName

omit [CMath K] in
/-- The producers a new vote changes, in order, each with its change and whether it is voted for
now: `last` is taken back from the old ones and `new` given to the new ones. -/
def producerDeltas (old new : List Name) (last weight : K) : List (Name × K × Bool) :=
  ((old ++ new).dedup.insertionSort fun a b => a.value ≤ b.value).map fun p =>
    (p, new.count p * weight - old.count p * last, decide (p ∈ new))

/-- The text of a check on one producer. -/
def producerError (p : Name) (text : String) : Error := "producer " ++ p.toString ++ text

/-- Change the votes of the producers of a new vote. -/
def applyDeltas (ct : ℕ) (voting : Bool) :
    List (Name × K × Bool) → VoteState K → VotepayChange K →
      Except Error (VoteState K × VotepayChange K)
  | [], vs, acc => return (vs, acc)
  | (acnt, delta, isNew) :: l, vs, acc => do
    match vs.producers.find acnt with
    | none =>
      check (isNew = false) (producerError acnt " is not registered")
      applyDeltas ct voting l vs acc
    | some prod =>
      check ((voting && !prod.isActive && isNew) = false)
        (producerError acnt " is not currently registered")
      let votes := prod.totalVotes + delta
      let vs := { vs with
        producers := vs.producers.set acnt { prod with totalVotes := if votes < 0 then 0 else votes
          }
        totalProducerVoteWeight := vs.totalProducerVoteWeight + delta
        clamps := vs.clamps + if votes < 0 then 1 else 0 }
      let (vs, acc) := vs.updateVotepay ct acnt prod.totalVotes prod.lastClaimTime delta acc
      applyDeltas ct voting l vs acc

/-- The checks on a vote that do not depend on the tables. -/
def validateVote (voterName proxy : Name) (producers : List Name) : Except Error Unit :=
  if proxy ≠ .none then do
    check (producers.length = 0) "cannot vote for producers and proxy at same time"
    check (voterName ≠ proxy) "cannot proxy to self"
  else do
    check (producers.length ≤ 30) "attempt to vote for too many producers"
    check (producers.Pairwise fun a b => a.value < b.value)
      "producer votes must be unique and sorted"

/-- Change what is delegated to a proxy, and pass the change on. -/
def changeProxied (now : BlockTimestamp) (proxyName : Name) (proxy : VoterInfo K) (delta : K) :
    Except Error (VoteState K) :=
  let proxy := { proxy with proxiedVoteWeight := proxy.proxiedVoteWeight + delta }
  (vs.setVoter proxyName proxy).propagate now proxyName

/-- Take the vote last cast through the old proxy back. -/
def undoProxy (now : BlockTimestamp) (voter : VoterInfo K) : Except Error (VoteState K) :=
  if 0 < voter.lastVoteWeight ∧ voter.proxy ≠ .none then do
    let oldProxy ← require (vs.voters.find voter.proxy) "old proxy not found"
    vs.changeProxied now voter.proxy oldProxy (-voter.lastVoteWeight)
  else pure vs

/-- Cast a vote of the given weight through the new proxy. -/
def castProxy (now : BlockTimestamp) (proxy : Name) (weight : K) (voting : Bool) :
    Except Error (VoteState K) :=
  if proxy ≠ .none then do
    let newProxy ← require (vs.voters.find proxy) "invalid proxy specified"
    check (voting = false ∨ newProxy.isProxy = true) "proxy not found"
    if 0 ≤ weight then vs.changeProxied now proxy newProxy weight else pure vs
  else pure vs

/-- The activation rule for the stake of a voter, which the first vote on the chain bypasses. -/
def activateStake (now : BlockTimestamp) (voter : VoterInfo K) : VoteState K :=
  let vs := if vs.threshActivatedStakeTime = 0 then
    { vs with threshActivatedStakeTime := now.usec } else vs
  if vs.threshActivatedStakeTime = 0 ∧ voter.lastVoteWeight ≤ 0 then
    let total := vs.totalActivatedStake + voter.staked
    { vs with
      totalActivatedStake := total
      threshActivatedStakeTime :=
        if minActivatedStake ≤ total then now.usec else vs.threshActivatedStakeTime }
  else vs

/-- `update_votes` -/
def updateVotes (now : BlockTimestamp) (voterName proxy : Name) (producers : List Name)
    (voting : Bool) : Except Error (VoteState K) := do
  validateVote voterName proxy producers
  let voter ← require (vs.voters.find voterName) "user must stake before they can vote"
  check (proxy = .none ∨ voter.isProxy = false)
    "account registered as a proxy is not allowed to use a proxy"
  let vs := vs.activateStake now voter
  let weight := voter.weight now
  let vs ← vs.undoProxy now voter
  let vs ← vs.castProxy now proxy weight voting
  let old := if 0 < voter.lastVoteWeight ∧ voter.proxy = .none then voter.producers else []
  let new := if proxy = .none ∧ 0 ≤ weight then producers else []
  let (vs, acc) ← applyDeltas now.usec voting (producerDeltas old new voter.lastVoteWeight weight)
    vs ⟨0, 0⟩
  let vs := vs.updateTotalVotepayShare now.usec (-acc.totalInactiveVpayShare) acc.deltaChangeRate
  let voter ← require (vs.voters.find voterName) "unable to find key"
  return vs.setVoter voterName { voter with
    lastVoteWeight := weight
    producers := producers
    proxy := proxy }

omit [CMath K] in
/-- Add to the stake of a voter, who may be new. -/
def addStaked (voterName : Name) (delta : ℤ) : VoteState K :=
  let v := (vs.voters.find voterName).getD .new
  vs.setVoter voterName { v with staked := v.staked + delta }

/-- The part of b1's stake that is not claimable yet, over ten years from June 2018. -/
def validateB1Vesting (now : BlockTimestamp) (stake : ℤ) : Except Error Unit :=
  let baseTime : ℤ := 1527811200
  let maxClaimable : ℤ := 1000000000000
  let claimable := (maxClaimable * (now.sec - baseTime)).tdiv (10 * secondsPerYear)
  check (maxClaimable - claimable ≤ stake) "b1 can only claim their tokens over 10 years"

/-- `update_voting_power` -/
def updateVotingPower (now : BlockTimestamp) (voterName : Name) (totalUpdate : ℤ) :
    Except Error (VoteState K) := do
  let vs := vs.addStaked voterName totalUpdate
  let voter ← require (vs.voters.find voterName) "unable to find key"
  check (0 ≤ voter.staked) "stake for voting cannot be negative"
  if voterName = b1Account then validateB1Vesting now voter.staked
  if voter.producers ≠ [] ∨ voter.proxy ≠ .none then
    vs.updateVotes now voterName voter.proxy voter.producers false
  else return vs

/-- `check_voting_requirement` -/
def checkVotingRequirement (owner : Name) (text : String) : Except Error Unit :=
  check ((vs.voters.find owner).any fun v => v.proxy ≠ .none ∨ 21 ≤ v.producers.length) text

omit [CMath K] [Field K] [LinearOrder K] in
@[simp] theorem checkVotingRequirement_eq_ok {owner : Name} {text : String} {u : Unit} :
    vs.checkVotingRequirement owner text = .ok u ↔
      ∃ v, vs.voters.find owner = some v ∧ (v.proxy ≠ .none ∨ 21 ≤ v.producers.length) := by
  rw [checkVotingRequirement, check_eq_ok, Option.any_eq_true]
  simp

/-- `regproxy` -/
def regproxy (now : BlockTimestamp) (proxy : Name) (isproxy : Bool) :
    Except Error (VoteState K) := do
  check (proxy ≠ .none) "missing authority"
  match vs.voters.find proxy with
  | some v =>
    check (isproxy ≠ v.isProxy) "action has no effect"
    check (isproxy = false ∨ v.proxy = .none)
      "account that uses a proxy is not allowed to become a proxy"
    (vs.setVoter proxy { v with isProxy := isproxy }).propagate now proxy
  | none => return vs.setVoter proxy { VoterInfo.new with isProxy := isproxy }

end VoteState

end EosioSystem
