import EosioSystem.State

/-!
# Shares of a staking pool

A staking pool holds tokens and sells shares in them. The numbers of shares are doubles in the
contract and exact here. A quotient of doubles with a zero divisor is no number; computing one is
an error here.

## Main definitions

* `Pool.buy`, `Pool.sell`, `Pool.sharesFor`: the price of shares and of tokens
* `depositPool`, `withdrawPool`: deposits and withdrawals of one owner
* `StakingPoolState.transition`, `distribute`: the fees for the pools
-/

namespace EosioSystem

open Checked

variable {K : Type} [Field K] [LinearOrder K]

namespace Pool

variable (p : Pool K)

/-- `simulate_buy`: the shares for `b` tokens. -/
def simulateBuy (b : ℤ) : Except Error K := do
  if b = 0 then return 0
  if p.totalShares = 0 then return b
  check (p.balance ≠ 0) "zero divisor"
  return b * p.totalShares / p.balance

def buy (b : ℤ) : Except Error (Pool K × K) := do
  let out ← p.simulateBuy b
  return (⟨p.balance + b, p.totalShares + out⟩, out)

/-- `simulate_sell` of an asset: the shares needed to get `dOut` tokens. -/
def sharesFor (dOut : ℤ) : Except Error K := do
  if dOut = p.balance then return p.totalShares
  if dOut = 0 then return 0
  check (p.balance ≠ 0) "zero divisor"
  return dOut * p.totalShares / p.balance

variable [FloorRing K]

/-- `simulate_sell` of shares: the tokens for `s` shares. -/
def simulateSell (s : K) : Except Error ℤ := do
  if s = 0 then return 0
  if p.totalShares ≤ s then return p.balance
  check (0 < p.totalShares) "no shares in pool"
  return truncate (s * p.balance / p.totalShares)

def sell (s : K) : Except Error (Pool K × ℤ) := do
  let out ← p.simulateSell s
  return (⟨p.balance - out, p.totalShares - s⟩, out)

end Pool

variable [FloorRing K]

/-- The pool, the owner's shares and the owner's next claim after a deposit. -/
def depositPool (now : BlockTimestamp) (pool : StakingPool K) (ownedShares : K) (nextClaim : ℕ)
    (newAmount : ℤ) : Except Error (StakingPool K × K × ℕ) := do
  let maxNextClaim : ℕ := (now.slot + pool.claimPeriod * 2) % 2 ^ 32
  let currentBalance ← pool.tokenPool.simulateSell ownedShares
  let (tokenPool, newShares) ← pool.tokenPool.buy newAmount
  check (0 < newShares) "new_shares must be positive"
  let nextClaim : ℕ := max nextClaim now.slot
  check (currentBalance + newAmount ≠ 0) "divide by zero"
  let newNextClaim : ℤ :=
    ((nextClaim : ℤ) * currentBalance + (maxNextClaim : ℤ) * newAmount).tdiv
      (currentBalance + newAmount)
  return ({ pool with tokenPool }, ownedShares + newShares, (newNextClaim % 2 ^ 32).toNat)

/-- The pool and the owner's shares after a withdrawal, and the tokens taken out. -/
def withdrawPool (pool : StakingPool K) (ownedShares : K) (maxRequested : ℤ) (claiming : Bool) :
    Except Error (StakingPool K × K × ℤ) := do
  let balance ← pool.tokenPool.simulateSell ownedShares
  if claiming = false ∧ balance ≤ maxRequested then
    -- withdraw all shares; nothing is sold when the stake only contains dust
    let (tokenPool, sold) ← pool.tokenPool.sell ownedShares
    return ({ pool with tokenPool }, 0, sold)
  else
    let available :=
      if claiming then (balance * pool.claimPeriod).tdiv pool.duration else balance
    let sellAmount := min available maxRequested
    check (0 < sellAmount) "withdrawing 0"
    let shares ← pool.tokenPool.sharesFor sellAmount
    let sellShares := min shares ownedShares
    let (tokenPool, sold) ← pool.tokenPool.sell sellShares
    check (0 < sellShares ∧ 0 < sold) "withdrawing 0"
    return ({ pool with tokenPool }, ownedShares - sellShares, sold)

/-! ## Fees -/

omit [FloorRing K] in
/-- `transition` of an amount: the part of `val` that goes to the pools at the time of a block. -/
def StakingPoolState.transition (st : StakingPoolState K) (slot : ℕ) (val : ℤ) : ℤ :=
  if st.endTransition ≤ slot then val
  else if slot ≤ st.beginTransition then 0
  else (val * (slot - st.beginTransition : ℕ)).tdiv (st.endTransition - st.beginTransition : ℕ)

omit [Field K] [LinearOrder K] [FloorRing K] in
/-- A part of an amount is at most the amount. -/
theorem StakingPoolState.transition_mem (st : StakingPoolState K) (slot : ℕ) {val : ℤ}
    (h : 0 ≤ val) : 0 ≤ st.transition slot val ∧ st.transition slot val ≤ val := by
  unfold transition
  split_ifs with h₁ h₂
  · exact ⟨h, le_rfl⟩
  · exact ⟨le_rfl, h⟩
  · have hd : (0 : ℤ) < (st.endTransition - st.beginTransition : ℕ) := by omega
    have hle : ((slot - st.beginTransition : ℕ) : ℤ) ≤
        (st.endTransition - st.beginTransition : ℕ) := by omega
    have hmul : 0 ≤ val * (slot - st.beginTransition : ℕ) := mul_nonneg h (by omega)
    rw [Int.tdiv_eq_ediv_of_nonneg hmul]
    exact ⟨Int.ediv_nonneg hmul hd.le,
      Int.ediv_le_of_le_mul hd (mul_le_mul_of_nonneg_left hle h)⟩

omit [LinearOrder K] [FloorRing K] in
/-- `transition` of 1.0 -/
def StakingPoolState.transitionFraction (st : StakingPoolState K) (slot : ℕ) : K :=
  if st.endTransition ≤ slot then 1
  else if slot ≤ st.beginTransition then 0
  else ((slot - st.beginTransition : ℕ) : K) / ((st.endTransition - st.beginTransition : ℕ) : K)

omit [FloorRing K] in
/-- Add to the tokens of a pool. -/
def StakingPool.adjust (p : StakingPool K) (delta : ℤ) : StakingPool K :=
  { p with tokenPool := { p.tokenPool with balance := p.tokenPool.balance + delta } }

omit [FloorRing K] in
/-- The number of pools with shares. -/
def activePools (pools : List (StakingPool K)) : ℕ :=
  pools.countP fun p => p.tokenPool.totalShares ≠ 0

omit [FloorRing K] in
/-- Distribute `total` over the `n` pools with shares, of which `i` have received `distributed`
in all: after each pool the sum is the proportional part, rounded down. -/
def distribute (total : ℤ) (n : ℕ) : ℕ → ℤ → List (StakingPool K) → List (StakingPool K)
  | _, _, [] => []
  | i, distributed, p :: l =>
    if p.tokenPool.totalShares ≠ 0 then
      let amt := (total * (i + 1 : ℕ)).tdiv n - distributed
      p.adjust amt :: distribute total n (i + 1) (distributed + amt) l
    else p :: distribute total n i distributed l

omit [FloorRing K] in
@[simp] theorem length_distribute (total : ℤ) (n i : ℕ) (distributed : ℤ)
    (l : List (StakingPool K)) : (distribute total n i distributed l).length = l.length := by
  fun_induction distribute total n i distributed l <;> simp_all

end EosioSystem
