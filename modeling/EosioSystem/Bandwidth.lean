import EosioSystem.Rex.Actions

/-!
# Delegated bandwidth and votes

The actions that stake tokens and vote with them. A delegation takes its tokens from a pending
refund first, when the sender delegates to itself, and only the rest from its balance.

## Main definitions

* `StakeState.changeDelband`, `StakeState.changeRefund`: the first and the last part of `changebw`
* `State.delegatebw`, `State.undelegatebw`, `State.refund`
* `State.voteproducer`, `State.regproxy`
-/

namespace EosioSystem

open Checked

namespace StakeState

variable (st : StakeState)

/-- The stake delegated from `owner` to `receiver`. -/
def changeDelband (owner receiver : Name) (net cpu : ℤ) : Except Error StakeState := do
  let d := (st.delband.find (owner, receiver)).getD ⟨0, 0⟩
  let d : DelegatedBandwidth := ⟨d.netWeight + net, d.cpuWeight + cpu⟩
  check (0 ≤ d.netWeight) "insufficient staked net bandwidth"
  check (0 ≤ d.cpuWeight) "insufficient staked cpu bandwidth"
  return { st with
    delband := if d.isEmpty then st.delband.erase (owner, receiver)
      else st.delband.set (owner, receiver) d }

/-- Take `delta` out of a refund as far as it goes, or add to it if `delta` is negative: the new
refund and what is left of `delta`. -/
def refundPart (amount delta : ℤ) : ℤ × ℤ :=
  if amount - delta < 0 then (0, -(amount - delta)) else (amount - delta, 0)

/-- Schedule the deferred `refund` of an owner, in place of the one that is scheduled. -/
def scheduleRefund (now : BlockTimestamp) (owner : Name) : StakeState :=
  { st with deferred := st.deferred.set owner (now.sec + refundDelaySec) }

/-- `cancel_deferred` -/
def cancelRefund (owner : Name) : StakeState := { st with deferred := st.deferred.erase owner }

/-- Write a refund and schedule its collection, or delete the refund when it is empty. -/
def storeRefund (now : BlockTimestamp) (owner : Name) (r : RefundRequest) : StakeState :=
  if r.isEmpty then { st with refunds := st.refunds.erase owner }.cancelRefund owner
  else { st with refunds := st.refunds.set owner r }.scheduleRefund now owner

/-- Change the refund `r` of an owner: what is left of the stake change. -/
def updateRefund (now : BlockTimestamp) (owner : Name) (net cpu : ℤ) (r : RefundRequest) :
    Except Error (StakeState × ℤ × ℤ) := do
  let (netAmount, netBalance) := refundPart r.netAmount net
  let (cpuAmount, cpuBalance) := refundPart r.cpuAmount cpu
  check (0 ≤ netAmount) "negative net refund amount" -- should never happen
  check (0 ≤ cpuAmount) "negative cpu refund amount" -- should never happen
  let requestTime := if net < 0 ∨ cpu < 0 then now.sec else r.requestTime
  return (st.storeRefund now owner ⟨requestTime, netAmount, cpuAmount⟩, netBalance, cpuBalance)

/-- Create the refund of an owner who unstakes: what is left of the stake change. -/
def createRefund (now : BlockTimestamp) (owner : Name) (net cpu : ℤ) : StakeState × ℤ × ℤ :=
  if net < 0 ∨ cpu < 0 then
    (st.storeRefund now owner ⟨now.sec, if net < 0 then -net else 0, if cpu < 0 then -cpu else 0⟩,
      if net < 0 then 0 else net, if cpu < 0 then 0 else cpu)
  else (st.cancelRefund owner, net, cpu)

/-- Create, update or delete the refund of an owner: what is left of the stake change. -/
def changeRefund (now : BlockTimestamp) (owner receiver : Name) (net cpu : ℤ) (transfer : Bool) :
    Except Error (StakeState × ℤ × ℤ) :=
  let isUndelegating := net + cpu < 0
  let isDelegatingToSelf := transfer = false ∧ owner = receiver
  if isDelegatingToSelf ∨ isUndelegating then
    match st.refunds.find owner with
    | some r => st.updateRefund now owner net cpu r
    | none => .ok (st.createRefund now owner net cpu)
  else .ok (st.cancelRefund owner, net, cpu)

end StakeState

variable {K : Type} [Field K] [LinearOrder K] [CMath K]

namespace State

variable (s : State K)

/-- The refund of `owner` and the transfer from `sender` that go with a stake change. -/
def changeRefund (now : BlockTimestamp) (sender owner receiver : Name) (net cpu : ℤ)
    (transfer : Bool) : Except Error (State K) := do
  if sender = stakeAccount then return s -- for eosio both transfer and refund make no sense
  let (stake, netBalance, cpuBalance) ← s.stake.changeRefund now owner receiver net cpu transfer
  let transferAmount := netBalance + cpuBalance
  let token ← (if 0 < transferAmount then s.token.transfer sender stakeAccount transferAmount
    else pure s.token)
  return { s with stake, token }

/-- `changebw` -/
def changebw (now : BlockTimestamp) (sender receiver : Name) (net cpu : ℤ) (transfer : Bool) :
    Except Error (State K) := do
  requireAuth sender
  check (net ≠ 0 ∨ cpu ≠ 0) "should stake non-zero amount"
  check (max |net| |cpu| ≤ |net + cpu|) "net and cpu deltas cannot be opposite signs"
  let owner := if transfer then receiver else sender
  let stake ← s.stake.changeDelband owner receiver net cpu
  let res ← s.res.changeTotals (s.vote.managed receiver) receiver net cpu
  let s ← { s with stake, res }.changeRefund now sender owner receiver net cpu transfer
  let s ← s.updateRexStake owner
  let vote ← s.vote.updateVotingPower now owner (net + cpu)
  return { s with vote }

def delegatebw (now : BlockTimestamp) (sender receiver : Name) (net cpu : Asset)
    (transfer : Bool) : Except Error (State K) := do
  s.checkCore cpu "comparison of assets with different symbols is not allowed"
  s.checkCore net "comparison of assets with different symbols is not allowed"
  check (0 ≤ cpu.amount) "must stake a positive amount"
  check (0 ≤ net.amount) "must stake a positive amount"
  check (0 < net.amount + cpu.amount) "must stake a positive amount"
  check (transfer = false ∨ sender ≠ receiver) "cannot use transfer flag if delegating to self"
  s.changebw now sender receiver net.amount cpu.amount transfer

def undelegatebw (now : BlockTimestamp) (sender receiver : Name) (net cpu : Asset) :
    Except Error (State K) := do
  s.checkCore cpu "comparison of assets with different symbols is not allowed"
  s.checkCore net "comparison of assets with different symbols is not allowed"
  check (0 ≤ cpu.amount) "must unstake a positive amount"
  check (0 ≤ net.amount) "must unstake a positive amount"
  check (0 < cpu.amount + net.amount) "must unstake a positive amount"
  s.changebw now sender receiver (-net.amount) (-cpu.amount) false

omit [Field K] [LinearOrder K] [CMath K] in
def refund (now : BlockTimestamp) (owner : Name) : Except Error (State K) := do
  requireAuth owner
  let req ← require (s.stake.refunds.find owner) "refund request not found"
  check ((req.requestTime + refundDelaySec) * 1000000 ≤ now.usec) "refund is not available yet"
  let token ← s.token.transfer stakeAccount owner (req.netAmount + req.cpuAmount)
  return { s with token, stake := { s.stake with refunds := s.stake.refunds.erase owner } }

def voteproducer (now : BlockTimestamp) (voterName proxy : Name) (producers : List Name) :
    Except Error (State K) := do
  requireAuth voterName
  let s ← s.updateRexStake voterName
  let vote ← s.vote.updateVotes now voterName proxy producers true
  if (s.rex.balances.find voterName).any fun rb => decide (0 < rb.rexBalance) then
    vote.checkVotingRequirement voterName
      "voter holding REX tokens must vote for at least 21 producers or for a proxy"
  return { s with vote }

def regproxy (now : BlockTimestamp) (proxy : Name) (isproxy : Bool) : Except Error (State K) := do
  let vote ← s.vote.regproxy now proxy isproxy
  return { s with vote }

end State

end EosioSystem
