import EosioSystem.StakingPool.Shares

/-!
# Votes with pool shares

The votes of the staking pools: one tally for each pool and producer, in shares. A voter's vote
goes to its producers, or to its proxy, which passes it on.

## Main definitions

* `PoolVotes`: the tables the pool votes work on
* `updatePoolProxy`, `updatePoolVotes`: `update_pool_proxy` and `update_pool_votes`
* `calcVotes`, `topActiveProducers`: the weighted votes and the producers ranked by them
-/

namespace EosioSystem

open Checked

variable {K : Type}

/-- The pool voters, the producers, and the sum of all pool votes. -/
structure PoolVotes (K : Type) where
  totalVotes : List K
  voters : Table Name (PoolVoter K)
  producers : Table Name (ProducerInfo K)

variable [Field K]

/-- `create_pool_voter` -/
def PoolVoter.new (size : ℕ) : PoolVoter K where
  nextClaim := List.replicate size 0
  ownedShares := List.replicate size 0
  proxiedShares := List.replicate size 0
  lastVotes := List.replicate size 0
  proxy := .none
  producers := []
  isProxy := false
  xferOutNotif := false
  xferInNotif := false

/-- The votes of a voter in each pool: its own shares, and those delegated to it as a proxy. -/
def PoolVoter.poolVotes (v : PoolVoter K) : List K :=
  if v.isProxy then List.zipWith (· + ·) v.ownedShares v.proxiedShares else v.ownedShares

/-- `get_or_create_pool_voter` -/
def getOrCreatePoolVoter (voters : Table Name (PoolVoter K)) (size : ℕ) (a : Name) : PoolVoter K :=
  (voters.find a).getD (.new size)

namespace PoolVotes

variable (pv : PoolVotes K)

omit [Field K] in
def setVoter (a : Name) (v : PoolVoter K) : PoolVotes K :=
  { pv with voters := pv.voters.set a v }

/-- `add_proxied_shares` -/
def addProxiedShares (proxy : PoolVoter K) (deltas : List K) (text : String) :
    Except Error (PoolVoter K) := do
  check (proxy.proxiedShares.length = deltas.length) text
  return { proxy with proxiedShares := List.zipWith (· + ·) proxy.proxiedShares deltas }

/-- `sub_proxied_shares` -/
def subProxiedShares (proxy : PoolVoter K) (deltas : List K) (text : String) :
    Except Error (PoolVoter K) := do
  check (proxy.proxiedShares.length = deltas.length) text
  return { proxy with proxiedShares := List.zipWith (· - ·) proxy.proxiedShares deltas }

/-- `add_pool_votes` -/
def addPoolVotes (acnt : Name) (deltas : List K) : Except Error (PoolVotes K) := do
  let text := VoteState.producerError acnt " has not upgraded to support pool votes"
  let prod ← require (pv.producers.find acnt) "unable to find key"
  let votes ← require prod.poolVotes text
  check (votes.length = deltas.length) text
  return { pv with
    totalVotes := List.zipWith (· + ·) pv.totalVotes deltas
    producers := pv.producers.set acnt
      { prod with poolVotes := some (List.zipWith (· + ·) votes deltas) } }

/-- `sub_pool_votes` -/
def subPoolVotes (acnt : Name) (deltas : List K) (text : String) : Except Error (PoolVotes K) := do
  let prod ← require (pv.producers.find acnt) "unable to find key"
  let votes ← require prod.poolVotes text
  check (votes.length = deltas.length) text
  return { pv with
    totalVotes := List.zipWith (· - ·) pv.totalVotes deltas
    producers := pv.producers.set acnt
      { prod with poolVotes := some (List.zipWith (· - ·) votes deltas) } }

/-- Replace the votes `last` by `new` at the producers a proxy votes for. -/
def moveProducerVotes (last new : List K) : List Name → PoolVotes K → Except Error (PoolVotes K)
  | [], pv => return pv
  | acnt :: l, pv => do
    let _ ← require (pv.producers.find acnt) "bug: producer not found"
    let pv ← pv.subPoolVotes acnt last "bug: producer lost its pool"
    let pv ← pv.addPoolVotes acnt new
    moveProducerVotes last new l pv

/-- `update_pool_proxy`. The first argument bounds the depth of the recursion. -/
def updatePoolProxy : ℕ → PoolVotes K → Name → Except Error (PoolVotes K)
  | 0, _, _ => .error "call depth exceeded"
  | fuel + 1, pv, voterName => do
    let voter ← require (pv.voters.find voterName) "unable to find key"
    check (voter.proxy = .none ∨ voter.isProxy = false)
      "account registered as a proxy is not allowed to use a proxy"
    let newPoolVotes := voter.poolVotes
    let pv ←
      (if voter.proxy ≠ .none then do
        let proxy ← require (pv.voters.find voter.proxy) "bug: proxy not found"
        let proxy ← subProxiedShares proxy voter.lastVotes "bug: proxy lost its pool"
        let proxy ← addProxiedShares proxy newPoolVotes "bug: proxy lost its pool"
        updatePoolProxy fuel (pv.setVoter voter.proxy proxy) voter.proxy
      else moveProducerVotes voter.lastVotes newPoolVotes voter.producers pv)
    let voter ← require (pv.voters.find voterName) "unable to find key"
    return pv.setVoter voterName { voter with lastVotes := newPoolVotes }

/-- A recursion deep enough for every chain of distinct voters. -/
def updateProxy (voterName : Name) : Except Error (PoolVotes K) :=
  updatePoolProxy (pv.voters.rows.length + 1) pv voterName

omit [Field K] in
/-- The checks on a vote that do not depend on the tables. -/
def validateVote (voterName proxy : Name) (producers : List Name) : Except Error Unit :=
  VoteState.validateVote voterName proxy producers

omit [Field K] in
/-- The producers of the old and the new vote, in order, each with whether it is in either. -/
def producerChanges (old new : List Name) : List (Name × Bool × Bool) :=
  ((old ++ new).dedup.insertionSort fun a b => a.value ≤ b.value).map fun p =>
    (p, decide (p ∈ old), decide (p ∈ new))

/-- Move the votes of a voter from the old producers to the new ones. -/
def applyChanges (voting : Bool) (last new : List K) :
    List (Name × Bool × Bool) → PoolVotes K → Except Error (PoolVotes K)
  | [], pv => return pv
  | (acnt, oldVote, newVote) :: l, pv => do
    match pv.producers.find acnt with
    | none =>
      check (newVote = false) (VoteState.producerError acnt " is not registered")
      applyChanges voting last new l pv
    | some prod =>
      check ((voting && !prod.isActive && newVote) = false)
        (VoteState.producerError acnt " is not currently registered")
      let pv ← (if oldVote then pv.subPoolVotes acnt last "bug: producer lost its pool"
        else pure pv)
      let pv ← (if newVote then pv.addPoolVotes acnt new else pure pv)
      applyChanges voting last new l pv

/-- Take the last votes of a voter back from its proxy. -/
def undoProxy (voter : PoolVoter K) : Except Error (PoolVotes K) :=
  if voter.proxy ≠ .none then do
    let oldProxy ← require (pv.voters.find voter.proxy) "bug: old proxy not found"
    let oldProxy ← subProxiedShares oldProxy voter.lastVotes "bug: proxy lost its pool"
    (pv.setVoter voter.proxy oldProxy).updateProxy voter.proxy
  else pure pv

/-- Give votes to a proxy. -/
def castProxy (proxy : Name) (newPoolVotes : List K) (voting : Bool) :
    Except Error (PoolVotes K) :=
  if proxy ≠ .none then do
    let newProxy ← require (pv.voters.find proxy) "proxy not found"
    check (voting = false ∨ newProxy.isProxy = true) "proxy not found"
    let newProxy ← addProxiedShares newProxy newPoolVotes "bug: proxy lost its pool"
    (pv.setVoter proxy newProxy).updateProxy proxy
  else pure pv

/-- `update_pool_votes`; `size` is the number of pools. -/
def updatePoolVotes (size : ℕ) (voterName proxy : Name) (producers : List Name) (voting : Bool) :
    Except Error (PoolVotes K) := do
  validateVote voterName proxy producers
  let voter := getOrCreatePoolVoter pv.voters size voterName
  let pv := pv.setVoter voterName voter
  check (proxy = .none ∨ voter.isProxy = false)
    "account registered as a proxy is not allowed to use a proxy"
  let newPoolVotes := voter.poolVotes
  let pv ← pv.undoProxy voter
  let old := if voter.proxy ≠ .none then [] else voter.producers
  let new := if proxy ≠ .none then [] else producers
  let pv ← pv.castProxy proxy newPoolVotes voting
  let voter ← require (pv.voters.find voterName) "unable to find key"
  let pv ← applyChanges voting voter.lastVotes newPoolVotes (producerChanges old new) pv
  return pv.setVoter voterName { voter with
    producers := producers
    proxy := proxy
    lastVotes := newPoolVotes }

end PoolVotes

/-! ## Weighted votes -/

/-- `calc_votes` -/
def calcVotes (pools : List (StakingPool K)) (poolVotes : List K) : Except Error K := do
  check (poolVotes.length = pools.length) "staking pool corruption"
  return (List.zipWith (fun v p => v * p.voteWeight) poolVotes pools).sum

variable [LinearOrder K]

/-- `by_votes`: the active producers with the most votes come first. -/
def TotalPoolVotes.byVotes (t : TotalPoolVotes K) : K := if t.active then -t.votes else t.votes

/-- `top_active_producers` -/
def topActiveProducers (totals : Table Name (TotalPoolVotes K)) (n : ℕ) : List Name :=
  ((((totals.rows.insertionSort fun x y =>
    toLex (x.2.byVotes, x.1.value) ≤ toLex (y.2.byVotes, y.1.value)).takeWhile fun x =>
      0 < x.2.votes ∧ x.2.active).take n).map Prod.fst)

/-- Store the current weighted votes of the given producers. -/
def refreshVotes (pools : List (StakingPool K)) (producers : Table Name (ProducerInfo K)) :
    List Name → Table Name (TotalPoolVotes K) → Except Error (Table Name (TotalPoolVotes K))
  | [], totals => return totals
  | acnt :: l, totals => do
    let t ← require (totals.find acnt) "unable to find key"
    let prod ← require (producers.find acnt) "unable to find key"
    let poolVotes ← require prod.poolVotes "null pointer"
    let votes ← calcVotes pools poolVotes
    refreshVotes pools producers l (totals.set acnt { t with votes })

/-- `update_total_pool_votes` -/
def updateTotalPoolVotes (pools : List (StakingPool K)) (producers : Table Name (ProducerInfo K))
    (totals : Table Name (TotalPoolVotes K)) (n : ℕ) :
    Except Error (Table Name (TotalPoolVotes K)) :=
  refreshVotes pools producers (topActiveProducers totals n) totals

end EosioSystem
