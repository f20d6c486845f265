import EosioSystem.Rex.Return

/-!
# Operations on the REX tables

The functions of the contract that work on the REX tables alone, each as a computation on
`RexState`. The amounts have passed the symbol checks of the actions, so they are plain integers
here.

## Main definitions

* `transferFromFund`, `transferToFund`: the owners' REX funds
* `addToRexPool`, `addToRexBalance`: a purchase of REX
* `updateRexPool`, `addToRexReturnPool`: the return pool
* `fillRexOrder`: a sale of REX, at once or from the queue
* `rentTokens`, `processExpiredLoan`, `fundRexLoan`, `defundRexLoan`: loans
-/

namespace EosioSystem

open Checked

/-- The ratio of REX to core tokens at which an empty pool starts. -/
def rexRatio : ℤ := 10000

/-- `init_total_rent`, 20'000'0000 -/
def initTotalRent : ℤ := 200000000

/-- 30 days, in microseconds -/
def loanPeriod : ℕ := 30 * secondsPerDay * 1000000

/-- The value of an amount of REX in core tokens, rounded down. -/
def rexValue (rex totalLendable totalRex : ℤ) : Except Error ℤ := do
  check (totalRex ≠ 0) "divide by zero"
  return rex * totalLendable / totalRex

namespace RexState

/-- The row of the pool, for an update. -/
def getPool (r : RexState) : Except Error RexPool :=
  require r.pool "cannot pass end iterator to modify"

/-! ## REX funds -/

def transferFromFund (r : RexState) (owner : Name) (amount : ℤ) : Except Error RexState := do
  check (0 < amount) "must transfer positive amount from REX fund"
  let balance ← require (r.funds.find owner) "must deposit to REX fund first"
  check (amount ≤ balance) "insufficient funds"
  return { r with funds := r.funds.set owner (balance - amount) }

def transferToFund (r : RexState) (owner : Name) (amount : ℤ) : Except Error RexState := do
  check (0 < amount) "must transfer positive amount to REX fund"
  return { r with funds := r.funds.set owner ((r.funds.find owner).getD 0 + amount) }

/-! ## The return pool -/

def updateRexPool (r : RexState) (now : ℕ) : Except Error RexState := do
  let (ret, change) := r.ret.update now
  if 0 < change then
    let p ← r.getPool
    return { r with
      ret
      pool := some { p with
        totalUnlent := p.totalUnlent + change
        totalLendable := p.totalUnlent + change + p.totalLent } }
  else return { r with ret }

def addToRexReturnPool (r : RexState) (now : ℕ) (fee : ℤ) : Except Error RexState := do
  let r ← r.updateRexPool now
  return if fee ≤ 0 then r else { r with ret := r.ret.addFee now fee }

/-- Fees fail to reach the return pool only if it owes something to a pool that does not exist. -/
theorem addToRexReturnPool_error {r : RexState} {now : ℕ} {fee : ℤ} {e : Error}
    (h : r.addToRexReturnPool now fee = .error e) : e = "cannot pass end iterator to modify" := by
  rcases bind_eq_error.mp h with h | ⟨_, -, h⟩
  · unfold updateRexPool at h
    dsimp only at h
    split_ifs at h
    · rcases bind_eq_error.mp h with h | ⟨_, -, h⟩
      · exact (require_eq_error.mp h).2.symm
      · exact absurd h pure_ne_error
    · exact absurd h pure_ne_error
  · exact absurd h pure_ne_error

/-! ## Purchases -/

/-- The pool after a purchase, and the REX received. -/
def addToRexPool (r : RexState) (payment : ℤ) : Except Error (RexState × ℤ) := do
  match r.pool with
  | none =>
    return ({ r with pool := some {
      totalLendable := payment
      totalLent := 0
      totalUnlent := payment
      totalRent := initTotalRent
      totalRex := payment * rexRatio
      namebidProceeds := 0
      loanNum := 0 } }, payment * rexRatio)
  | some p =>
    if p.totalRex ≤ 0 then -- the pool is initialized but empty
      return ({ r with pool := some { p with
        totalLendable := payment
        totalLent := 0
        totalUnlent := payment
        totalRent := initTotalRent
        totalRex := payment * rexRatio } }, payment * rexRatio)
    else
      check (0 < p.totalLendable) "lendable REX pool is empty"
      let s₁ := p.totalLendable + payment
      let r₁ := s₁ * p.totalRex / p.totalLendable
      check (0 ≤ s₁ - p.totalLent) "programmer error, this should never go negative"
      return ({ r.convert r₁ with pool := some { p with
        totalLendable := s₁
        totalRex := r₁
        totalUnlent := s₁ - p.totalLent } }, r₁ - p.totalRex)

/-- The record of a buyer after a purchase; the savings bucket is set aside meanwhile. -/
def buyMaturity (now : ℕ) (rexReceived : ℤ) (rb : RexBalance) : RexBalance :=
  let (rb, rexInSavings) := readRexSavings rb
  putRexSavings (addRexMaturity now rexReceived (processRexMaturities now rb)) rexInSavings

/-- The owner's record after a purchase, and the change of its vote stake. -/
def addToRexBalance (r : RexState) (now : ℕ) (owner : Name) (payment rexReceived : ℤ) :
    Except Error (RexState × ℤ) := do
  match r.balances.find owner with
  | none =>
    let rb := { voteStake := payment, rexBalance := rexReceived, maturedRex := 0,
                rexMaturities := [] }
    return ({ r with
      balances := r.balances.set owner (buyMaturity now rexReceived rb)
      trades := .received owner now rexReceived :: r.trades }, payment)
  | some rb =>
    let p ← r.getPool
    let stake ← rexValue (rb.rexBalance + rexReceived) p.totalLendable p.totalRex
    let rb' := { rb with rexBalance := rb.rexBalance + rexReceived, voteStake := stake }
    return ({ r.convert stake with
      balances := r.balances.set owner (buyMaturity now rexReceived rb')
      trades := .received owner now rexReceived :: r.trades }, stake - rb.voteStake)

/-! ## Sales -/

/-- Sell `rex` of the owner's REX if the tokens outside of loans, less a tenth of those in loans,
cover it. -/
def fillRexOrder (r : RexState) (owner : Name) (rb : RexBalance) (rex : ℤ) :
    Except Error (RexState × RexOrderOutcome) := do
  let p ← r.getPool
  let proceeds ← rexValue rex p.totalLendable p.totalRex
  let r := r.convert proceeds
  let unlentLowerBound := p.totalLent.tdiv 10
  let availableUnlent := p.totalUnlent - unlentLowerBound
  if proceeds ≤ availableUnlent then
    let currentStakeValue ← rexValue rb.rexBalance p.totalLendable p.totalRex
    let rb' := { rb with
      voteStake := currentStakeValue - proceeds
      rexBalance := rb.rexBalance - rex
      maturedRex := rb.maturedRex - rex }
    return ({ r.convert currentStakeValue with
      pool := some { p with
        totalRex := p.totalRex - rex
        totalLendable := p.totalLendable - proceeds
        totalUnlent := p.totalLendable - proceeds - p.totalLent }
      balances := r.balances.set owner rb'
      trades := .sold owner rex :: r.trades }, ⟨true, proceeds, rb'.voteStake - rb.voteStake⟩)
  else return (r, ⟨false, 0, 0⟩)

/-- Try the queued order of `owner`. -/
def fillQueuedOrder (r : RexState) (owner : Name) : Except Error RexState := do
  match r.orders.find owner, r.balances.find owner with
  | some o, some rb =>
    let (r, result) ← r.fillRexOrder owner rb o.rexRequested
    if result.success then
      return { r with orders := r.orders.set owner { o with
        proceeds := result.proceeds
        stakeChange := result.stakeChange
        isOpen := false } }
    else return r
  | _, _ => return r

/-- Try the given queued orders in turn. -/
def fillQueuedOrders (r : RexState) : List Name → Except Error RexState
  | [] => return r
  | owner :: l => do
    let r ← r.fillQueuedOrder owner
    r.fillQueuedOrders l

/-! ## Loans -/

/-- `get_bancor_output` at the rent price: the tokens that a payment rents. -/
def rentTokens (p : RexPool) (payment : ℤ) : Except Error ℤ :=
  getBancorOutput p.totalRent p.totalUnlent payment

def addLoanToRexPool (r : RexState) (now : ℕ) (payment rentedTokens : ℤ) (newLoan : Bool) :
    Except Error RexState := do
  let r ← r.addToRexReturnPool now payment
  let p ← r.getPool
  return { r with
    pool := some { p with
      totalRent := p.totalRent + payment
      totalUnlent := p.totalUnlent - rentedTokens
      totalLent := p.totalLent + rentedTokens
      loanNum := if newLoan then p.loanNum + 1 else p.loanNum }
    leftUnlent := (p.totalUnlent - rentedTokens) :: r.leftUnlent }

def removeLoanFromRexPool (r : RexState) (loan : RexLoan) : Except Error RexState := do
  let p ← r.getPool
  let deltaTotalRent ← getBancorOutput p.totalUnlent p.totalRent loan.totalStaked
  return { r with pool := some { p with
    totalRent := p.totalRent - deltaTotalRent
    totalUnlent := p.totalUnlent + loan.totalStaked
    totalLent := p.totalLent - loan.totalStaked
    totalLendable := p.totalUnlent + loan.totalStaked + (p.totalLent - loan.totalStaked) } }

/-- The fields of a loan that is renewed. -/
def updateRenewedLoan (loan : RexLoan) (rentedTokens : ℤ) : RexLoan :=
  { loan with
    totalStaked := rentedTokens
    expiration := loan.expiration + loanPeriod
    balance := loan.balance - loan.payment }

/-- Renew an expired loan, or close it and return its balance; whether it is to be deleted, and
the change of the tokens staked to its receiver. -/
def processExpiredLoan (r : RexState) (now : ℕ) (key : Resource × ℕ) (loan : RexLoan) :
    Except Error (RexState × Bool × ℤ) := do
  let r ← r.removeLoanFromRexPool loan
  let p ← r.getPool
  let rentedTokens ← rentTokens p loan.payment
  if loan.payment ≤ loan.balance ∧ loan.payment < rentedTokens ∧ r.loansAvailable then
    let r ← r.addLoanToRexPool now loan.payment rentedTokens false
    return ({ r with loans := r.loans.set key (updateRenewedLoan loan rentedTokens) }, false,
      rentedTokens - loan.totalStaked)
  else
    let r ← (if 0 < loan.balance then r.transferToFund loan.sender loan.balance else pure r)
    return (r, true, -loan.totalStaked)

def fundRexLoan (r : RexState) (now : ℕ) (kind : Resource) (sender : Name) (loanNum : ℕ)
    (payment : ℤ) : Except Error RexState := do
  let r ← r.transferFromFund sender payment
  let loan ← require (r.loans.find (kind, loanNum)) "loan not found"
  check (loan.sender = sender) "user must be loan creator"
  check (now < loan.expiration) "loan has already expired"
  return { r with
    loans := r.loans.set (kind, loanNum) { loan with balance := loan.balance + payment } }

def defundRexLoan (r : RexState) (now : ℕ) (kind : Resource) (sender : Name) (loanNum : ℕ)
    (amount : ℤ) : Except Error RexState := do
  let loan ← require (r.loans.find (kind, loanNum)) "loan not found"
  check (loan.sender = sender) "user must be loan creator"
  check (now < loan.expiration) "loan has already expired"
  check (amount ≤ loan.balance) "insufficent loan balance"
  let r := { r with
    loans := r.loans.set (kind, loanNum) { loan with balance := loan.balance - amount } }
  r.transferToFund sender amount

/-! ## Orders -/

/-- Remove the filled sell order of an owner. What remains of it: the proceeds and the stake
change of a filled order, and the REX of one that is still open. -/
def collectOrder (r : RexState) (owner : Name) : RexState × ℤ × ℤ × ℤ :=
  match r.orders.find owner with
  | none => (r, 0, 0, 0)
  | some o =>
    if o.isOpen then (r, 0, 0, o.rexRequested)
    else ({ r with orders := r.orders.erase owner }, o.proceeds, o.stakeChange, 0)

/-- Queue an order, or add to the one that is queued already. -/
def queueOrder (r : RexState) (now : ℕ) (owner : Name) (rex : ℤ) : RexState × ℤ :=
  let o := match r.orders.find owner with
    | none => { rexRequested := rex, proceeds := 0, stakeChange := 0, orderTime := now,
                isOpen := true }
    | some o => { o with rexRequested := o.rexRequested + rex }
  ({ r with orders := r.orders.set owner o }, o.rexRequested)

/-- Whether the account has created a loan that is still there. -/
def hasLoan (r : RexState) (owner : Name) : Bool :=
  r.loans.rows.any fun l => l.2.sender = owner

/-- The fund of an account without loans is deleted once it is empty. -/
def closeFund (r : RexState) (owner : Name) : RexState :=
  if !r.hasLoan owner && r.funds.find owner = some 0 then
    { r with funds := r.funds.erase owner }
  else r

/-- The REX record of an account is deleted; it must hold no REX. -/
def closeBalance (r : RexState) (owner : Name) : Except Error RexState := do
  match r.balances.find owner with
  | none => return r
  | some rb =>
    check (rb.rexBalance = 0) "account has remaining REX balance, must sell first"
    return { r with balances := r.balances.erase owner }

end RexState

end EosioSystem
