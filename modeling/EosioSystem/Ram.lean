import EosioSystem.Rex.Actions

/-!
# The RAM market

RAM is sold and bought back at the price of a Bancor market between the bytes that are not
reserved and a reserve of core tokens. New RAM is added to the market with every block and when
the maximum is raised.

## Main definitions

* `State.init`: the market is created
* `State.setram`, `State.updateRamSupply`, `State.setramrate`: new RAM
* `State.buyram`, `State.buyrambytes`, `State.sellram`: the market
-/

namespace EosioSystem

open Checked

variable {K : Type}

/-- Add bytes to the RAM for sale. -/
def ExchangeState.addBase (es : ExchangeState) (bytes : ℤ) : ExchangeState :=
  { es with base := { es.base with amount := es.base.amount + bytes } }

namespace RamState

variable (rs : RamState)

/-- `setram` -/
def setram (maxRamSize : ℤ) : Except Error RamState := do
  check (rs.maxRamSize < maxRamSize) "ram may only be increased"
  check (maxRamSize < 1024 * 1024 * 1024 * 1024 * 1024) "ram size is unrealistic"
  check (rs.totalRamBytesReserved < maxRamSize) "attempt to set max below reserved"
  let market ← require rs.market "cannot pass end iterator to modify"
  return { rs with
    market := some (market.addBase (maxRamSize - rs.maxRamSize))
    maxRamSize }

/-- `update_ram_supply`; the product of the elapsed slots and the rate is computed in 32 bits. -/
def updateRamSupply (now : BlockTimestamp) : Except Error RamState := do
  if now.slot ≤ rs.lastRamIncrease then return rs
  let market ← require rs.market "cannot pass end iterator to modify"
  let newRam : ℤ := ((now.slot - rs.lastRamIncrease) * rs.newRamPerBlock % 2 ^ 32 : ℕ)
  return { rs with
    market := some (market.addBase newRam)
    maxRamSize := rs.maxRamSize + newRam
    lastRamIncrease := now.slot }

/-- The market after `quantity` of the core token has gone in, and the bytes that come out. -/
def buyBytes (quantity : Asset) : Except Error (RamState × ℤ) := do
  let market ← require rs.market "ram market does not exist"
  let (market, out) ← market.directConvert quantity ramSymbol
  check (0 < out.amount) "must reserve a positive amount"
  return ({ rs with
    market := some market
    totalRamBytesReserved := rs.totalRamBytesReserved + out.amount
    totalRamStake := rs.totalRamStake + quantity.amount }, out.amount)

/-- The market after `bytes` have gone in, and the tokens that come out. -/
def sellBytes (bytes : ℤ) (core : Symbol) : Except Error (RamState × ℤ) := do
  let market ← require rs.market "cannot pass end iterator to modify"
  let (market, out) ← market.directConvert ⟨bytes, ramSymbol⟩ core
  check (1 < out.amount) "token amount received from selling ram is too low"
  let rs := { rs with
    market := some market
    totalRamBytesReserved := rs.totalRamBytesReserved - bytes
    totalRamStake := rs.totalRamStake - out.amount }
  -- this shouldn't happen, but just in case it does we should prevent it
  check (0 ≤ rs.totalRamStake) "error, attempt to unstake more tokens than previously staked"
  return (rs, out.amount)

end RamState

/-- The fee of half a percent, rounded up. -/
def ramFee (amount : ℤ) : ℤ := (amount + 199).tdiv 200

namespace State

variable (s : State K)

def init (version : ℕ) (core : Symbol) : Except Error (State K) := do
  check (version = 0) "unsupported version for init action"
  check (s.ram.market.isNone = true) "system contract has already been initialized"
  check (s.token.symbol = core) "specified core symbol does not exist (precision mismatch)"
  check (0 < s.token.supply) "system token supply must be greater than 0"
  let market : ExchangeState := {
    supply := ⟨100000000000000, ramcoreSymbol⟩
    base := ⟨s.ram.maxRamSize - s.ram.totalRamBytesReserved, ramSymbol⟩
    quote := ⟨s.token.supply.tdiv 1000, core⟩ }
  return { s with ram := { s.ram with market := some market } }

def setram (maxRamSize : ℤ) : Except Error (State K) := do
  let ram ← s.ram.setram maxRamSize
  return { s with ram }

def setramrate (now : BlockTimestamp) (bytesPerBlock : ℕ) : Except Error (State K) := do
  let ram ← s.ram.updateRamSupply now
  return { s with ram := { ram with newRamPerBlock := bytesPerBlock } }

variable [Field K] [LinearOrder K]

/-- The fee is charged to `payer` and passed on. -/
def payRamFee (now : BlockTimestamp) (payer : Name) (fee : ℤ) : Except Error (State K) :=
  if 0 < fee then do
    let token ← s.token.transfer payer ramfeeAccount fee
    { s with token }.channelToRexOrPools now ramfeeAccount fee false
  else return s

def buyram (now : BlockTimestamp) (payer receiver : Name) (quant : Asset) :
    Except Error (State K) := do
  requireAuth payer
  let ram ← s.ram.updateRamSupply now
  let s := { s with ram }
  s.checkCore quant "must buy ram with core token"
  check (0 < quant.amount) "must purchase a positive amount"
  let fee := ramFee quant.amount
  let quantAfterFee := quant.amount - fee
  let token ← s.token.transfer payer ramAccount quantAfterFee
  let s ← { s with token }.payRamFee now payer fee
  let (ram, bytesOut) ← s.ram.buyBytes ⟨quantAfterFee, quant.symbol⟩
  return { s with ram, res := s.res.addRam (s.vote.managed receiver) receiver bytesOut }

/-- The cost is divided by 0.995 and truncated. -/
def buyrambytes (now : BlockTimestamp) (payer receiver : Name) (bytes : ℕ) :
    Except Error (State K) := do
  let market ← require s.ram.market "cannot dereference end iterator"
  let cost ← getBancorInput market.base.amount market.quote.amount bytes
  let costPlusFee := (cost * 1000).tdiv 995
  let core ← s.coreSymbol
  s.buyram now payer receiver ⟨costPlusFee, core⟩

def sellram (now : BlockTimestamp) (account : Name) (bytes : ℤ) : Except Error (State K) := do
  requireAuth account
  let ram ← s.ram.updateRamSupply now
  let s := { s with ram }
  check (0 < bytes) "cannot sell negative byte"
  let row ← require (s.res.userres.find account) "no resource row"
  check (bytes ≤ row.ramBytes) "insufficient quota"
  let core ← s.coreSymbol
  let (ram, tokensOut) ← s.ram.sellBytes bytes core
  let res := s.res.addRam (s.vote.managed account) account (-bytes)
  let token ← s.token.transfer ramAccount account tokensOut
  { s with ram, res, token }.payRamFee now account (ramFee tokensOut)

end State

end EosioSystem
