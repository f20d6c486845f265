import EosioSystem.Rex.Operations
import EosioSystem.Voting

/-!
# The state of the contract

The records of the staking, RAM, name-auction, powerup and staking-pool subsystems, and the state
of the whole contract: all its tables, the core token and the resource limits of the chain.

## Main definitions

* `State`: the contract's tables with the token balances and the resource limits
* `State.genesis`: the state of a new chain
* `State.coreSymbol`: the symbol of the core token, known once the RAM market exists
-/

namespace EosioSystem

open Checked

/-! ## Staked and bought resources -/

structure UserResources where
  netWeight : ℤ
  cpuWeight : ℤ
  ramBytes : ℤ

/-- Nothing staked, rented or bought. -/
def UserResources.zero : UserResources := ⟨0, 0, 0⟩

def UserResources.isEmpty (u : UserResources) : Bool :=
  u.netWeight = 0 && u.cpuWeight = 0 && u.ramBytes = 0

/-- The resource limits of an account in the chain; -1 is no limit. -/
structure Limits where
  ramBytes : ℤ
  net : ℤ
  cpu : ℤ

/-- The resources of each account, and the limits the chain enforces. -/
structure ResourceState where
  userres : Table Name UserResources
  limits : Table Name Limits

structure DelegatedBandwidth where
  netWeight : ℤ
  cpuWeight : ℤ

def DelegatedBandwidth.isEmpty (d : DelegatedBandwidth) : Bool :=
  d.netWeight = 0 && d.cpuWeight = 0

structure RefundRequest where
  requestTime : ℕ
  netAmount : ℤ
  cpuAmount : ℤ

def RefundRequest.isEmpty (r : RefundRequest) : Bool := r.netAmount = 0 && r.cpuAmount = 0

/-- Delegations by owner and receiver, pending refunds, and the deferred transactions that will
collect them, with the time from which they run. -/
structure StakeState where
  delband : Table (Name × Name) DelegatedBandwidth
  refunds : Table Name RefundRequest
  deferred : Table Name ℕ

/-- The RAM market and the part of the global state that goes with it. -/
structure RamState where
  market : Option ExchangeState
  maxRamSize : ℤ
  totalRamBytesReserved : ℤ
  totalRamStake : ℤ
  newRamPerBlock : ℕ
  lastRamIncrease : ℕ

/-- A bid on a name; a negative bid is that of a closed auction. -/
structure NameBid where
  highBidder : Name
  highBid : ℤ
  lastBidTime : ℕ

/-- The name auctions, the refunds of outbid bidders by bidder and name, and the block in which an
auction was closed last. -/
structure NameState where
  bids : Table Name NameBid
  refunds : Table (Name × Name) ℤ
  lastNameClose : ℕ

/-! ## The powerup market -/

variable (K : Type)

structure PowerupResource where
  weight : ℤ
  weightRatio : ℤ
  assumedStakeWeight : ℤ
  initialWeightRatio : ℤ
  targetWeightRatio : ℤ
  initialTimestamp : ℕ
  targetTimestamp : ℕ
  exponent : K
  decaySecs : ℕ
  minPrice : Asset
  maxPrice : Asset
  utilization : ℤ
  adjustedUtilization : ℤ
  utilizationTimestamp : ℕ

structure PowerupMarket where
  net : PowerupResource K
  cpu : PowerupResource K
  powerupDays : ℕ
  minPowerupFee : Asset

structure PowerupOrder where
  owner : Name
  netWeight : ℤ
  cpuWeight : ℤ
  expires : ℕ

structure PowerupTables where
  market : Option (PowerupMarket K)
  orders : Table ℕ PowerupOrder

/-! ## The staking pools -/

/-- The tokens of a pool and the shares in them. -/
structure Pool where
  balance : ℤ
  totalShares : K

structure StakingPool where
  duration : ℕ
  claimPeriod : ℕ
  voteWeight : K
  tokenPool : Pool K

structure StakingPoolState where
  beginTransition : ℕ
  endTransition : ℕ
  prodRate : K
  voterRate : K
  maxNumPay : ℕ
  maxVoteRatio : K
  minTransferCreate : ℤ
  pools : List (StakingPool K)
  intervalStart : ℕ
  blocks : ℕ
  unpaidBlocks : ℕ
  totalVotes : List K
  namebidProceeds : ℤ

structure PoolVoter where
  nextClaim : List ℕ
  ownedShares : List K
  proxiedShares : List K
  lastVotes : List K
  proxy : Name
  producers : List Name
  isProxy : Bool
  xferOutNotif : Bool
  xferInNotif : Bool

structure TotalPoolVotes where
  active : Bool
  votes : K
  votePay : ℤ

structure PoolTables where
  state : Option (StakingPoolState K)
  voters : Table Name (PoolVoter K)
  totals : Table Name (TotalPoolVotes K)

/-! ## Pay of producers -/

/-- The part of the global state that the pay of producers is computed from. -/
structure PayState where
  lastProducerScheduleUpdate : ℕ
  lastPervoteBucketFill : ℕ
  pervoteBucket : ℤ
  perblockBucket : ℤ
  /-- all blocks which have been produced but not paid -/
  totalUnpaidBlocks : ℤ
  revision : ℕ
  continuousRate : K
  inflationPayFactor : ℤ
  votepayFactor : ℤ

/-! ## The whole contract -/

structure State where
  token : Token
  ram : RamState
  res : ResourceState
  stake : StakeState
  rex : RexState
  vote : VoteState K
  powup : PowerupTables K
  pools : PoolTables K
  names : NameState
  pay : PayState K

variable {K}

/-- `get_continuous_rate`, of a rate in hundredths of a percent -/
def getContinuousRate [Field K] [LinearOrder K] [CMath K] (annualRate : ℤ) : K :=
  CMath.log1p ((annualRate : K) / 10000)

/-- The state of a new chain with the given balances. -/
def State.genesis [Field K] [LinearOrder K] [CMath K] (token : Token) : State K where
  token
  ram := ⟨none, 64 * 1024 ^ 3, 0, 0, 0, 0⟩
  res := ⟨.empty, .empty⟩
  stake := ⟨.empty, .empty, .empty⟩
  rex := .empty
  vote := .empty
  powup := ⟨none, .empty⟩
  pools := ⟨none, .empty, .empty⟩
  names := ⟨.empty, .empty, 0⟩
  pay := ⟨0, 0, 0, 0, 0, 0, getContinuousRate 500, 50000, 40000⟩

/-- `core_symbol`, which is also the symbol of every amount the contract keeps. -/
def State.coreSymbol (s : State K) : Except Error Symbol := do
  let market ← require s.ram.market "system contract must first be initialized"
  return market.quote.symbol

/-- `check` that an amount given to an action is one of the core token. -/
def State.checkCore (s : State K) (q : Asset) (text : String) : Except Error Unit := do
  let core ← s.coreSymbol
  check (q.symbol = core) text

/-- `require_auth`: the account has signed the transaction, and no account has the empty name. -/
def requireAuth (a : Name) : Except Error Unit := check (a ≠ .none) "missing authority"

@[simp] theorem State.checkCore_eq_ok {s : State K} {q : Asset} {text : String} {u : Unit} :
    s.checkCore q text = .ok u ↔ s.coreSymbol = .ok q.symbol := by
  simp only [checkCore, bind_eq_ok, check_eq_ok]
  constructor
  · rintro ⟨core, h, hq⟩
    exact hq ▸ h
  · intro h
    exact ⟨_, h, rfl⟩

@[simp] theorem requireAuth_eq_ok {a : Name} {u : Unit} : requireAuth a = .ok u ↔ a ≠ .none :=
  check_eq_ok

/-! ### Errors that cannot happen -/

section Avoids

variable {bad : List Error}

theorem requireAuth_avoids (h : "missing authority" ∉ bad) (a : Name) :
    Avoids bad (requireAuth a) := .check (.inl h)

theorem State.coreSymbol_avoids (h : "system contract must first be initialized" ∉ bad)
    (s : State K) : Avoids bad s.coreSymbol := .bind (.require h) fun _ _ => .pure _

theorem State.checkCore_avoids {text : String}
    (h : ∀ e ∈ ["system contract must first be initialized", text], e ∉ bad) (s : State K)
    (q : Asset) : Avoids bad (s.checkCore q text) :=
  .bind (s.coreSymbol_avoids (h _ (by simp))) fun _ _ => .check (.inl (h _ (by simp)))

end Avoids

end EosioSystem
