import EosioSystem.Fees
import EosioSystem.Resources

/-!
# REX actions

The actions of the resource exchange, with the background work that most of them begin with:
distribute what the return pool owes, close or renew expired loans, fill queued sell orders.

## Main definitions

* `State.runrex`: the background work
* `State.updateRexAccount`, `State.updateRexStake`: filled orders and REX reach the owner's vote
* one definition for each action, under its name
-/

namespace EosioSystem

open Checked

variable {K : Type}

/-- The change of the NET and the CPU weight when `delta` of a resource is added. -/
def Resource.weights : Resource → ℤ → ℤ × ℤ
  | .net, delta => (delta, 0)
  | .cpu, delta => (0, delta)

namespace State

/-- `update_resource_limits` for a change of one resource -/
def updateLimits (s : State K) (kind : Resource) (receiver : Name) (delta : ℤ) :
    Except Error ResourceState :=
  s.res.updateResourceLimits (s.vote.managed receiver) receiver (kind.weights delta).1
    (kind.weights delta).2

/-! ## Background work -/

/-- Process up to `max` expired loans of a resource, the earliest first. -/
def processLoans (now : BlockTimestamp) (kind : Resource) : ℕ → State K → Except Error (State K)
  | 0, s => return s
  | max + 1, s =>
    match s.rex.firstLoan kind with
    | none => return s
    | some (key, loan) =>
      if now.usec < loan.expiration then return s
      else do
        let (rex, deleteLoan, deltaStake) ← s.rex.processExpiredLoan now.sec key loan
        let res ← s.updateLimits kind loan.receiver deltaStake
        let rex := if deleteLoan then { rex with loans := rex.loans.erase key } else rex
        processLoans now kind max { s with rex, res }

/-- Pass the proceeds of name auctions on to the return pool. -/
def channelNamebids (now : BlockTimestamp) (s : State K) : Except Error (State K) := do
  let p ← s.rex.getPool
  if 0 < p.namebidProceeds then
    let s ← s.channelToRex now namesAccount p.namebidProceeds
    let p ← s.rex.getPool
    return { s with rex := { s.rex with pool := some { p with namebidProceeds := 0 } } }
  else return s

/-- `runrex` -/
def runrex (now : BlockTimestamp) (max : ℕ) (s : State K) : Except Error (State K) := do
  check (s.rex.initialized = true) "rex system not initialized yet"
  let rex ← s.rex.updateRexPool now.sec
  let s ← { s with rex }.channelNamebids now
  let s ← s.processLoans now .cpu max
  let s ← s.processLoans now .net max
  let rex ← s.rex.fillQueuedOrders (s.rex.openOrders.take max)
  return { s with rex }

variable [Field K] [LinearOrder K] [CMath K]

/-- `update_rex_account`: the REX of the owner's open sell order is returned. -/
def updateRexAccount (now : BlockTimestamp) (s : State K) (owner : Name)
    (proceeds deltaStake : ℤ) (forceVoteUpdate : Bool) : Except Error (State K × ℤ) := do
  let (rex, orderProceeds, stakeChange, rexInSellOrder) := s.rex.collectOrder owner
  let toFund := proceeds + orderProceeds
  let toStake := deltaStake + stakeChange
  let rex ← (if 0 < toFund then rex.transferToFund owner toFund else pure rex)
  let vote ← (if forceVoteUpdate = true ∨ toStake ≠ 0 then
    s.vote.updateVotingPower now owner toStake else pure s.vote)
  return ({ s with rex, vote }, rexInSellOrder)

omit [CMath K] [LinearOrder K] in
/-- `update_rex_stake`, the `vote_stake_updater` of the contract -/
def updateRexStake (s : State K) (voter : Name) : Except Error (State K) := do
  match s.rex.balances.find voter, s.rex.pool with
  | some rb, some p =>
    if s.rex.available then
      let stake ← rexValue rb.rexBalance p.totalLendable p.totalRex
      let rex := { s.rex.convert stake with
        balances := s.rex.balances.set voter { rb with voteStake := stake } }
      let vote := match s.vote.voters.find voter with
        | some v => s.vote.setVoter voter { v with staked := v.staked + (stake - rb.voteStake) }
        | none => s.vote
      return { s with rex, vote }
    else return s
  | _, _ => return s

/-! ## Funds -/

omit [Field K] [LinearOrder K] [CMath K] in
def deposit (s : State K) (owner : Name) (amount : Asset) : Except Error (State K) := do
  requireAuth owner
  s.checkCore amount "must deposit core token"
  check (0 < amount.amount) "must deposit a positive amount"
  let token ← s.token.transfer owner rexAccount amount.amount
  let rex ← s.rex.transferToFund owner amount.amount
  return { s with token, rex }

def withdraw (now : BlockTimestamp) (s : State K) (owner : Name) (amount : Asset) :
    Except Error (State K) := do
  requireAuth owner
  s.checkCore amount "must withdraw core token"
  check (0 < amount.amount) "must withdraw a positive amount"
  let (s, _) ← s.updateRexAccount now owner 0 0 false
  let rex ← s.rex.transferFromFund owner amount.amount
  let token ← s.token.transfer rexAccount owner amount.amount
  return { s with token, rex }

/-! ## Purchases and sales -/

/-- The text of the voting requirement for a purchase. -/
def votingRequirement : String :=
  "must vote for at least 21 producers or for a proxy before buying REX"

def buyrex (now : BlockTimestamp) (s : State K) (sender : Name) (amount : Asset) :
    Except Error (State K) := do
  requireAuth sender
  s.checkCore amount "asset must be core token"
  check (0 < amount.amount) "must use positive amount"
  s.vote.checkVotingRequirement sender votingRequirement
  let rex ← s.rex.transferFromFund sender amount.amount
  let (rex, rexReceived) ← rex.addToRexPool amount.amount
  let (rex, deltaRexStake) ← rex.addToRexBalance now.sec sender amount.amount rexReceived
  let s ← { s with rex }.runrex now 2
  let (s, _) ← s.updateRexAccount now sender 0 deltaRexStake false
  return s

/-- Take stake out of a delegation. -/
def unstakeDelband (st : StakeState) (owner receiver : Name) (fromNet fromCpu : ℤ) :
    Except Error StakeState := do
  let d ← require (st.delband.find (owner, receiver)) "delegated bandwidth record does not exist"
  check (fromNet ≤ d.netWeight) "amount exceeds tokens staked for net"
  check (fromCpu ≤ d.cpuWeight) "amount exceeds tokens staked for cpu"
  let d : DelegatedBandwidth := ⟨d.netWeight - fromNet, d.cpuWeight - fromCpu⟩
  return { st with
    delband := if d.isEmpty then st.delband.erase (owner, receiver)
      else st.delband.set (owner, receiver) d }

def unstaketorex (now : BlockTimestamp) (s : State K) (owner receiver : Name)
    (fromNet fromCpu : Asset) : Except Error (State K) := do
  requireAuth owner
  s.checkCore fromNet "asset must be core token"
  s.checkCore fromCpu "asset must be core token"
  check (0 ≤ fromNet.amount ∧ 0 ≤ fromCpu.amount ∧ (0 < fromNet.amount ∨ 0 < fromCpu.amount))
    "must unstake a positive amount to buy rex"
  s.vote.checkVotingRequirement owner votingRequirement
  let stake ← unstakeDelband s.stake owner receiver fromNet.amount fromCpu.amount
  let res ← s.res.updateResourceLimits (s.vote.managed receiver) receiver (-fromNet.amount)
    (-fromCpu.amount)
  let payment := fromNet.amount + fromCpu.amount
  let token ← s.token.transfer stakeAccount rexAccount payment
  let (rex, rexReceived) ← s.rex.addToRexPool payment
  let (rex, _) ← rex.addToRexBalance now.sec owner payment rexReceived
  let s ← { s with stake, res, token, rex }.runrex now 2
  let (s, _) ← s.updateRexAccount now owner 0 0 true
  return s

def sellrex (now : BlockTimestamp) (s : State K) (sender : Name) (rex : Asset) :
    Except Error (State K) := do
  requireAuth sender
  let s ← s.runrex now 2
  let rb ← require (s.rex.balances.find sender) "user must first buyrex"
  check (0 < rex.amount ∧ rex.symbol = rexSymbol) "asset must be a positive amount of (REX, 4)"
  let rb := processRexMaturities now.sec rb
  let r := { s.rex with balances := s.rex.balances.set sender rb }
  check (rex.amount ≤ rb.maturedRex) "insufficient available rex"
  let (r, currentOrder) ← r.fillRexOrder sender rb rex.amount
  check (currentOrder.success = false ∨ currentOrder.proceeds ≠ 0) "proceeds are negligible"
  let (s, pendingSellOrder) ← { s with rex := r }.updateRexAccount now sender
    currentOrder.proceeds currentOrder.stakeChange false
  check (currentOrder.success = true ∨ sender ≠ b1Account)
    "b1 sellrex orders should not be queued"
  let (r, pendingSellOrder) :=
    if currentOrder.success then (s.rex, pendingSellOrder)
    else s.rex.queueOrder now.usec sender rex.amount
  let rb ← require (r.balances.find sender) "user must first buyrex"
  check (pendingSellOrder ≤ rb.maturedRex) "insufficient funds for current and scheduled orders"
  return { s with rex := r }

omit [Field K] [LinearOrder K] [CMath K] in
def cnclrexorder (s : State K) (owner : Name) : Except Error (State K) := do
  requireAuth owner
  let o ← require (s.rex.orders.find owner) "no sellrex order is scheduled"
  check (o.isOpen = true) "sellrex order has been filled and cannot be canceled"
  return { s with rex := { s.rex with orders := s.rex.orders.erase owner } }

def updaterex (now : BlockTimestamp) (s : State K) (owner : Name) : Except Error (State K) := do
  requireAuth owner
  let s ← s.runrex now 2
  let rb ← require (s.rex.balances.find owner) "account has no REX balance"
  let p ← s.rex.getPool
  let currentStake ← (if 0 < p.totalRex then rexValue rb.rexBalance p.totalLendable p.totalRex
    else pure 0)
  let rb' := { rb with voteStake := currentStake }
  let rex := { s.rex.convert currentStake with balances := s.rex.balances.set owner rb' }
  let (s, _) ← { s with rex }.updateRexAccount now owner 0 (currentStake - rb.voteStake) true
  let rex := { s.rex with balances := s.rex.balances.set owner (processRexMaturities now.sec rb') }
  return { s with rex }

/-! ## Loans -/

omit [Field K] [LinearOrder K] [CMath K] in
/-- `rentcpu` and `rentnet`, with `rent_rex` -/
def rentRex (now : BlockTimestamp) (s : State K) (kind : Resource) (sender receiver : Name)
    (payment fund : Asset) : Except Error (State K) := do
  requireAuth sender
  let s ← s.runrex now 2
  check (s.rex.loansAvailable = true) "rex loans are currently not available"
  s.checkCore payment "must use core token"
  s.checkCore fund "must use core token"
  check (0 < payment.amount ∧ 0 ≤ fund.amount) "must use positive asset amount"
  let rex ← s.rex.transferFromFund sender (payment.amount + fund.amount)
  let p ← rex.getPool
  let rentedTokens ← RexState.rentTokens p payment.amount
  check (payment.amount < rentedTokens) "loan price does not favor renting"
  let rex ← rex.addLoanToRexPool now.sec payment.amount rentedTokens true
  let p ← rex.getPool
  let key := (kind, p.loanNum)
  check (rex.loans.find key = none)
    "could not insert object, most likely a uniqueness constraint was violated"
  let loan : RexLoan := ⟨sender, receiver, payment.amount, fund.amount, rentedTokens,
    now.usec + loanPeriod⟩
  let s := { s with rex := { rex with loans := rex.loans.set key loan } }
  let res ← s.updateLimits kind receiver rentedTokens
  return { s with res }

omit [Field K] [LinearOrder K] [CMath K] in
/-- `fundcpuloan` and `fundnetloan` -/
def fundloan (now : BlockTimestamp) (s : State K) (kind : Resource) (sender : Name) (loanNum : ℕ)
    (payment : Asset) : Except Error (State K) := do
  requireAuth sender
  s.checkCore payment "must use core token"
  let rex ← s.rex.fundRexLoan now.usec kind sender loanNum payment.amount
  return { s with rex }

omit [Field K] [LinearOrder K] [CMath K] in
/-- `defcpuloan` and `defnetloan` -/
def defloan (now : BlockTimestamp) (s : State K) (kind : Resource) (sender : Name) (loanNum : ℕ)
    (amount : Asset) : Except Error (State K) := do
  requireAuth sender
  s.checkCore amount "must use core token"
  let rex ← s.rex.defundRexLoan now.usec kind sender loanNum amount.amount
  return { s with rex }

omit [Field K] [LinearOrder K] [CMath K] in
def setrex (s : State K) (balance : Asset) : Except Error (State K) := do
  check (0 < balance.amount) "balance must be set to have a positive amount"
  s.checkCore balance "balance symbol must be core symbol"
  let p ← require s.rex.pool "rex system is not initialized"
  return { s with rex := { s.rex with pool := some { p with totalRent := balance.amount } } }

omit [Field K] [LinearOrder K] [CMath K] in
def rexexec (now : BlockTimestamp) (s : State K) (user : Name) (max : ℕ) :
    Except Error (State K) := do
  requireAuth user
  s.runrex now max

/-! ## Maturities -/

def consolidate (now : BlockTimestamp) (s : State K) (owner : Name) : Except Error (State K) := do
  requireAuth owner
  let s ← s.runrex now 2
  let rb ← require (s.rex.balances.find owner) "account has no REX balance"
  let (s, rexInSellOrder) ← s.updateRexAccount now owner 0 0 false
  let rb := consolidateRexBalance now.sec rexInSellOrder rb
  return { s with rex := { s.rex with balances := s.rex.balances.set owner rb } }

/-- The record of an owner who moves `rex` to savings. -/
def moveToSavings (now : ℕ) (rexInSellOrder rex : ℤ) (rb : RexBalance) :
    Except Error RexBalance := do
  let (rb', rexInSavings) := readRexSavings rb
  check (rex + rexInSellOrder + rexInSavings ≤ rb'.rexBalance) "insufficient REX balance"
  let rb' := processRexMaturities now rb'
  let (maturities, moved) := drainMaturities rb'.rexMaturities.reverse rex
  let matured := if moved < rex then rb'.maturedRex - (rex - moved) else rb'.maturedRex
  check (rex ≤ moved ∨ rexInSellOrder ≤ matured) "logic error in mvtosavings"
  check (moved ≤ rex) "programmer error in mvtosavings"
  return putRexSavings { rb' with rexMaturities := maturities.reverse, maturedRex := matured }
    (rexInSavings + rex)

def mvtosavings (now : BlockTimestamp) (s : State K) (owner : Name) (rex : Asset) :
    Except Error (State K) := do
  requireAuth owner
  let s ← s.runrex now 2
  let rb ← require (s.rex.balances.find owner) "account has no REX balance"
  check (0 < rex.amount ∧ rex.symbol = rexSymbol) "asset must be a positive amount of (REX, 4)"
  let (s, rexInSellOrder) ← s.updateRexAccount now owner 0 0 false
  let rb ← moveToSavings now.sec rexInSellOrder rex.amount rb
  return { s with rex := { s.rex with balances := s.rex.balances.set owner rb } }

/-- The record of an owner who moves `rex` from savings. -/
def moveFromSavings (now : ℕ) (rex : ℤ) (rb : RexBalance) : Except Error RexBalance := do
  let (rb, rexInSavings) := readRexSavings rb
  check (rex ≤ rexInSavings) "insufficient REX in savings"
  return putRexSavings (addRexMaturity now rex (processRexMaturities now rb)) (rexInSavings - rex)

def mvfrsavings (now : BlockTimestamp) (s : State K) (owner : Name) (rex : Asset) :
    Except Error (State K) := do
  requireAuth owner
  let s ← s.runrex now 2
  let rb ← require (s.rex.balances.find owner) "account has no REX balance"
  check (0 < rex.amount ∧ rex.symbol = rexSymbol) "asset must be a positive amount of (REX, 4)"
  let rb ← moveFromSavings now.sec rex.amount rb
  let s := { s with rex := { s.rex with balances := s.rex.balances.set owner rb } }
  let (s, _) ← s.updateRexAccount now owner 0 0 false
  return s

def closerex (now : BlockTimestamp) (s : State K) (owner : Name) : Except Error (State K) := do
  requireAuth owner
  let s ← (if s.rex.initialized then s.runrex now 2 else pure s)
  let (s, _) ← s.updateRexAccount now owner 0 0 false
  let rex ← (s.rex.closeFund owner).closeBalance owner
  return { s with rex }

/-! ## What the background work and a collected order touch -/

section Frame

variable {now : BlockTimestamp} {s s' : State K}

omit [Field K] [LinearOrder K] [CMath K]

/-- An expired loan: nothing is due, or the loan that expires first is processed. -/
theorem processLoans_succ {kind : Resource} {max : ℕ}
    (h : s.processLoans now kind (max + 1) = .ok s') :
    s' = s ∨ ∃ key loan rex deleteLoan deltaStake res, s.rex.firstLoan kind = some (key, loan) ∧
      s.rex.processExpiredLoan now.sec key loan = .ok (rex, deleteLoan, deltaStake) ∧
      s.updateLimits kind loan.receiver deltaStake = .ok res ∧
      ({ s with
        rex := if deleteLoan then { rex with loans := rex.loans.erase key } else rex
        res } : State K).processLoans now kind max = .ok s' := by
  unfold processLoans at h
  split at h
  · exact .inl (pure_eq_ok.mp h).symm
  · rename_i key loan hf
    split_ifs at h
    · exact .inl (pure_eq_ok.mp h).symm
    · simp only [bind_eq_ok] at h
      obtain ⟨⟨rex, deleteLoan, deltaStake⟩, hp, res, hr, h⟩ := h
      exact .inr ⟨key, loan, rex, deleteLoan, deltaStake, res, hf, hp, hr, h⟩

theorem processLoans_frame {kind : Resource} {max : ℕ}
    (h : s.processLoans now kind max = .ok s') : ∃ rex res, s' = { s with rex, res } := by
  induction max generalizing s with
  | zero =>
    obtain rfl := pure_eq_ok.mp h
    exact ⟨s.rex, s.res, rfl⟩
  | succ max ih =>
    rcases processLoans_succ h with rfl | ⟨key, loan, rex, del, delta, res, -, -, -, h⟩
    · exact ⟨s'.rex, s'.res, rfl⟩
    · obtain ⟨rex', res', rfl⟩ := ih h
      exact ⟨rex', res', rfl⟩

/-- Auction proceeds reach REX with their tokens, or are forgotten when the pool is empty. -/
theorem channelNamebids_cases (h : s.channelNamebids now = .ok s') :
    s' = s ∨ ∃ p s₁ p₁, s.rex.pool = some p ∧ 0 < p.namebidProceeds ∧
      s.channelToRex now namesAccount p.namebidProceeds = .ok s₁ ∧ s₁.rex.pool = some p₁ ∧
      s' = { s₁ with rex := { s₁.rex with pool := some { p₁ with namebidProceeds := 0 } } } := by
  simp only [channelNamebids, RexState.getPool, bind_eq_ok, require_eq_ok] at h
  obtain ⟨p, hp, h⟩ := h
  split_ifs at h with hn
  · simp only [bind_eq_ok, require_eq_ok, pure_eq_ok] at h
    obtain ⟨s₁, hc, p₁, hp₁, rfl⟩ := h
    exact .inr ⟨p, s₁, p₁, hp, hn, hc, hp₁, rfl⟩
  · exact .inl (pure_eq_ok.mp h).symm

theorem channelNamebids_frame (h : s.channelNamebids now = .ok s') :
    ∃ token rex, s' = { s with token, rex } ∧
      ∀ a, a ≠ rexAccount → a ≠ namesAccount → token.balance a = s.token.balance a := by
  rcases channelNamebids_cases h with rfl | ⟨p, s₁, p₁, -, -, hc, -, rfl⟩
  · exact ⟨s'.token, s'.rex, rfl, fun _ _ _ => rfl⟩
  · rcases channelToRex_cases hc with ⟨-, rfl⟩ | ⟨rex, token, -, -, ht, rfl⟩
    · exact ⟨s₁.token, _, rfl, fun _ _ _ => rfl⟩
    · refine ⟨token, _, rfl, fun a h₁ h₂ => ?_⟩
      simp [Token.balance_transfer ht, h₁, h₂]

/-- The steps of the background work. -/
theorem runrex_eq_ok {max : ℕ} (h : s.runrex now max = .ok s') :
    ∃ rex s₁ s₂ s₃ rex', s.rex.initialized = true ∧ s.rex.updateRexPool now.sec = .ok rex ∧
      ({ s with rex } : State K).channelNamebids now = .ok s₁ ∧
      s₁.processLoans now .cpu max = .ok s₂ ∧ s₂.processLoans now .net max = .ok s₃ ∧
      s₃.rex.fillQueuedOrders (s₃.rex.openOrders.take max) = .ok rex' ∧
      s' = { s₃ with rex := rex' } := by
  simp only [runrex, bind_eq_ok, check_eq_ok, exists_const, pure_eq_ok] at h
  obtain ⟨hi, rex, hu, s₁, hn, s₂, hc, s₃, hnet, rex', hf, rfl⟩ := h
  exact ⟨rex, s₁, s₂, s₃, rex', hi, hu, hn, hc, hnet, hf, rfl⟩

/-- The background work touches the tokens, the REX tables and the resources only, and of the
tokens only those of `eosio.rex` and `eosio.names`. -/
theorem runrex_frame {max : ℕ} (h : s.runrex now max = .ok s') :
    ∃ token rex res, s' = { s with token, rex, res } ∧
      ∀ a, a ≠ rexAccount → a ≠ namesAccount → token.balance a = s.token.balance a := by
  obtain ⟨rex, s₁, s₂, s₃, rex', -, -, hn, hc, hnet, -, rfl⟩ := runrex_eq_ok h
  obtain ⟨token, rex₁, rfl, hb⟩ := channelNamebids_frame hn
  obtain ⟨rex₂, res₂, rfl⟩ := processLoans_frame hc
  obtain ⟨rex₃, res₃, rfl⟩ := processLoans_frame hnet
  exact ⟨token, rex', res₃, rfl, hb⟩

end Frame

omit [CMath K] [LinearOrder K] [Field K] in
theorem updateRexStake_frame {s s' : State K} {voter : Name} (h : s.updateRexStake voter = .ok s') :
    ∃ rex vote, s' = { s with rex, vote } := by
  unfold updateRexStake at h
  split at h
  · split_ifs at h
    · simp only [bind_eq_ok, pure_eq_ok] at h
      obtain ⟨stake, -, rfl⟩ := h
      exact ⟨_, _, rfl⟩
    · obtain rfl := pure_eq_ok.mp h
      exact ⟨s.rex, s.vote, rfl⟩
  · obtain rfl := pure_eq_ok.mp h
    exact ⟨s.rex, s.vote, rfl⟩

/-- What collecting an order does to the REX tables and to the votes. -/
theorem updateRexAccount_eq_ok {now : BlockTimestamp} {s s' : State K} {owner : Name}
    {proceeds deltaStake pending : ℤ} {force : Bool}
    (h : s.updateRexAccount now owner proceeds deltaStake force = .ok (s', pending)) :
    ∃ r orderProceeds stakeChange rex vote,
      s.rex.collectOrder owner = (r, orderProceeds, stakeChange, pending) ∧
      (if 0 < proceeds + orderProceeds then r.transferToFund owner (proceeds + orderProceeds)
        else pure r) = .ok rex ∧
      (if force = true ∨ deltaStake + stakeChange ≠ 0 then
        s.vote.updateVotingPower now owner (deltaStake + stakeChange) else pure s.vote) = .ok vote ∧
      s' = { s with rex, vote } := by
  unfold updateRexAccount at h
  rcases hc : s.rex.collectOrder owner with ⟨r, orderProceeds, stakeChange, inOrder⟩
  rw [hc] at h
  simp only [bind_eq_ok, pure_eq_ok, Prod.mk.injEq] at h
  obtain ⟨rex, hr, vote, hv, rfl, rfl⟩ := h
  exact ⟨r, orderProceeds, stakeChange, rex, vote, rfl, hr, hv, rfl⟩

end State

end EosioSystem
