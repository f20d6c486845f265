import EosioSystem.Bandwidth
import EosioSystem.Library.Run
import EosioSystem.Powerup
import EosioSystem.ProducerPay
import EosioSystem.Ram

/-!
# Actions and runs

All actions of the model as one type, with the state each leads to. A run is a sequence of actions
that succeed, at times that do not decrease; an action that fails leaves no trace.

## Main definitions

* `Action`, `Action.exec`: the actions, and what an action does
* `Step`: an action of a given kind happens at a given time
* `exampleChain`: a small chain for examples
-/

namespace EosioSystem

open Checked

variable {K : Type}

/-- `native::newaccount`: the auction a name with a dot or fewer than 12 characters was won in. -/
def NameState.claimName (ns : NameState) (creator newact : Name) : Except Error NameState := do
  let hasDot := (List.range 12).any fun i => newact.value >>> 4 >>> (5 * i) % 32 = 0
  if creator = eosioAccount ∨ hasDot = false then return ns
  if newact.suffix = newact then
    let current ← require (ns.bids.find newact) "no active bid for name"
    check (current.highBidder = creator) "only highest bidder can claim"
    check (current.highBid < 0) "auction for name is not closed yet"
    return { ns with bids := ns.bids.erase newact }
  else
    check (creator = newact.suffix) "only suffix may create this account"
    return ns

def State.newaccount (s : State K) (creator newact : Name) : Except Error (State K) := do
  let names ← s.names.claimName creator newact
  let _ ← s.coreSymbol
  check (s.res.userres.find newact = none)
    "could not insert object, most likely a uniqueness constraint was violated"
  let res := { s.res with userres := s.res.userres.set newact .zero }
  return { s with names, res := res.setLimits newact ⟨0, 0, 0⟩ }

/-- The actions, with their arguments. An action that needs the authority of the contract's own
account takes no account. -/
inductive Action (K : Type)
  | init (version : ℕ) (core : Symbol)
  | newaccount (creator newact : Name)
  | setalimits (account : Name) (ram net cpu : ℤ)
  | setacctram (account : Name) (ramBytes : Option ℤ)
  | setacctnet (account : Name) (netWeight : Option ℤ)
  | setacctcpu (account : Name) (cpuWeight : Option ℤ)
  | setram (maxRamSize : ℤ)
  | setramrate (bytesPerBlock : ℕ)
  | buyram (payer receiver : Name) (quant : Asset)
  | buyrambytes (payer receiver : Name) (bytes : ℕ)
  | sellram (account : Name) (bytes : ℤ)
  | delegatebw (sender receiver : Name) (net cpu : Asset) (transfer : Bool)
  | undelegatebw (sender receiver : Name) (net cpu : Asset)
  | refund (owner : Name)
  | voteproducer (voter proxy : Name) (producers : List Name)
  | regproxy (proxy : Name) (isproxy : Bool)
  | regproducer (producer : Name) (url : String)
  | unregprod (producer : Name)
  | rmvproducer (producer : Name)
  | deposit (owner : Name) (amount : Asset)
  | withdraw (owner : Name) (amount : Asset)
  | buyrex (sender : Name) (amount : Asset)
  | unstaketorex (owner receiver : Name) (fromNet fromCpu : Asset)
  | sellrex (sender : Name) (rex : Asset)
  | cnclrexorder (owner : Name)
  | updaterex (owner : Name)
  | rentRex (kind : Resource) (sender receiver : Name) (payment fund : Asset)
  | fundloan (kind : Resource) (sender : Name) (loanNum : ℕ) (payment : Asset)
  | defloan (kind : Resource) (sender : Name) (loanNum : ℕ) (amount : Asset)
  | setrex (balance : Asset)
  | rexexec (user : Name) (max : ℕ)
  | consolidate (owner : Name)
  | mvtosavings (owner : Name) (rex : Asset)
  | mvfrsavings (owner : Name) (rex : Asset)
  | closerex (owner : Name)
  | bidname (bidder newname : Name) (bid : Asset)
  | bidrefund (bidder newname : Name)
  | onblock (timestamp : BlockTimestamp) (producer : Name)
  | claimrewards (owner : Name)
  | setinflation (annualRate inflationPayFactor votepayFactor : ℤ)
  | updtrevision (revision : ℕ)
  | cfgpowerup (args : PowerupConfig K)
  | powerup (payer receiver : Name) (days : ℕ) (netFrac cpuFrac : ℤ) (maxPayment : Asset)
  | powerupexec (user : Name) (max : ℕ)
  | cfgsrpool (args : PoolConfig K)
  | stake2pool (owner : Name) (i : ℕ) (amount : Asset)
  | setpoolnotif (owner : Name) (xferOutNotif xferInNotif : Option Bool)
  | claimstake (owner : Name) (i : ℕ) (requested : Asset)
  | transferstake (sender receiver : Name) (i : ℕ) (requested : Asset) (memo : String)
  | upgradestake (owner : Name) (fromIndex toIndex : ℕ) (requested : Asset)
  | votewithpool (voter proxy : Name) (producers : List Name)
  | regpoolproxy (proxy : Name) (isproxy : Bool)
  | updatevotes (user producer : Name)
  | updatepay (user : Name)
  | claimvotepay (producer : Name)

variable [Field K] [LinearOrder K] [FloorRing K] [CMath K]

/-- What an action does. -/
def Action.exec (env : Env) (a : Action K) (s : State K) : Except Error (State K) :=
  match a with
  | init version core => s.init version core
  | newaccount creator newact => s.newaccount creator newact
  | setalimits account ram net cpu => s.setalimits account ram net cpu
  | setacctram account ramBytes => s.setacctram env account ramBytes
  | setacctnet account netWeight => s.setacctnet env account netWeight
  | setacctcpu account cpuWeight => s.setacctcpu env account cpuWeight
  | setram maxRamSize => s.setram maxRamSize
  | setramrate bytesPerBlock => s.setramrate env.now bytesPerBlock
  | buyram payer receiver quant => s.buyram env.now payer receiver quant
  | buyrambytes payer receiver bytes => s.buyrambytes env.now payer receiver bytes
  | sellram account bytes => s.sellram env.now account bytes
  | delegatebw sender receiver net cpu transfer =>
    s.delegatebw env.now sender receiver net cpu transfer
  | undelegatebw sender receiver net cpu => s.undelegatebw env.now sender receiver net cpu
  | refund owner => s.refund env.now owner
  | voteproducer voter proxy producers => s.voteproducer env.now voter proxy producers
  | regproxy proxy isproxy => s.regproxy env.now proxy isproxy
  | regproducer producer url => s.regproducer env.now producer url
  | unregprod producer => s.unregprod producer
  | rmvproducer producer => s.rmvproducer producer
  | deposit owner amount => s.deposit owner amount
  | withdraw owner amount => s.withdraw env.now owner amount
  | buyrex sender amount => s.buyrex env.now sender amount
  | unstaketorex owner receiver fromNet fromCpu =>
    s.unstaketorex env.now owner receiver fromNet fromCpu
  | sellrex sender rex => s.sellrex env.now sender rex
  | cnclrexorder owner => s.cnclrexorder owner
  | updaterex owner => s.updaterex env.now owner
  | rentRex kind sender receiver payment fund =>
    s.rentRex env.now kind sender receiver payment fund
  | fundloan kind sender loanNum payment => s.fundloan env.now kind sender loanNum payment
  | defloan kind sender loanNum amount => s.defloan env.now kind sender loanNum amount
  | setrex balance => s.setrex balance
  | rexexec user max => s.rexexec env.now user max
  | consolidate owner => s.consolidate env.now owner
  | mvtosavings owner rex => s.mvtosavings env.now owner rex
  | mvfrsavings owner rex => s.mvfrsavings env.now owner rex
  | closerex owner => s.closerex env.now owner
  | bidname bidder newname bid => s.bidname env bidder newname bid
  | bidrefund bidder newname => s.bidrefund bidder newname
  | onblock timestamp producer => .ok (s.onblock env.now timestamp producer)
  | claimrewards owner => s.claimrewards env.now owner
  | setinflation annualRate inflationPayFactor votepayFactor =>
    s.setinflation annualRate inflationPayFactor votepayFactor
  | updtrevision revision => s.updtrevision revision
  | cfgpowerup args => s.cfgpowerup env args
  | powerup payer receiver days netFrac cpuFrac maxPayment =>
    s.powerup env.now payer receiver days netFrac cpuFrac maxPayment
  | powerupexec user max => s.powerupexec env.now user max
  | cfgsrpool args => s.cfgsrpool env.now args
  | stake2pool owner i amount => s.stake2pool env.now owner i amount
  | setpoolnotif owner out in_ => s.setpoolnotif owner out in_
  | claimstake owner i requested => s.claimstake env.now owner i requested
  | transferstake sender receiver i requested memo =>
    s.transferstake env sender receiver i requested memo
  | upgradestake owner fromIndex toIndex requested =>
    s.upgradestake env.now owner fromIndex toIndex requested
  | votewithpool voter proxy producers => s.votewithpool voter proxy producers
  | regpoolproxy proxy isproxy => s.regpoolproxy proxy isproxy
  | updatevotes user producer => s.updatevotes user producer
  | updatepay user => s.updatepay user
  | claimvotepay producer => s.claimvotepay producer

/-- One step of a run: an action, in a set that may depend on the state, that succeeds. -/
def Step (allowed : State K → Action K → Prop) (t : BlockTimestamp) (s s' : State K) : Prop :=
  ∃ isAccount a, allowed s a ∧ Action.exec ⟨t, isAccount⟩ a s = .ok s'

/-- A system with more actions has the steps of one with fewer. -/
theorem Step.mono {allowed allowed' : State K → Action K → Prop} {t : BlockTimestamp}
    {s s' : State K} (ha : ∀ s a, allowed s a → allowed' s a) (h : Step allowed t s s') :
    Step allowed' t s s' := by
  obtain ⟨isAccount, a, hs, he⟩ := h
  exact ⟨isAccount, a, ha s a hs, he⟩

/-- What an allowed action does at a given time when every name is an account. -/
def Action.execIn (allowed : State K → Action K → Bool) (t : BlockTimestamp) (a : Action K)
    (s : State K) : Except Error (State K) := do
  check (allowed s a = true) "not an action of this run"
  a.exec ⟨t, fun _ => true⟩ s

/-- A run of allowed actions that can be computed. -/
theorem run_get_execIn {init : State K → Prop} {allowed : State K → Action K → Bool}
    {l : List (BlockTimestamp × Action K)} {t : BlockTimestamp} {s : State K} (hs : init s)
    (h : (execAll (Action.execIn allowed) t l s).isSome) :
    Run init (Step fun s a => allowed s a) ((execAll (Action.execIn allowed) t l s).get h).1
      ((execAll (Action.execIn allowed) t l s).get h).2 :=
  run_get_execAll (fun _ a _ _ h =>
    ⟨_, a, (check_bind_eq_ok.mp h).1, (check_bind_eq_ok.mp h).2⟩) hs h

/-- A computation of actions whose last state passes a test is a run to a state that passes it. -/
theorem exists_run_of_execIn {init : State K → Prop} {allowed : State K → Action K → Bool}
    {allowed' : State K → Action K → Prop} {l : List (BlockTimestamp × Action K)}
    {t : BlockTimestamp} {s : State K} {test : BlockTimestamp × State K → Bool}
    (ha : ∀ s a, allowed s a = true → allowed' s a) (hs : init s)
    (h : (execAll (Action.execIn allowed) t l s).any test = true) :
    ∃ t' s', Run init (Step allowed') t' s' ∧ test (t', s') = true :=
  exists_run_of_execAll (fun _ a _ _ h =>
    ⟨_, a, ha _ a (check_bind_eq_ok.mp h).1, (check_bind_eq_ok.mp h).2⟩) hs h

/-- A run that goes on by allowed actions that can be computed. -/
theorem continued_get_execIn {allowed : State K → Action K → Bool}
    {l : List (BlockTimestamp × Action K)} {t : BlockTimestamp} {s : State K}
    (h : (execAll (Action.execIn allowed) t l s).isSome) :
    Continued (Step fun s a => allowed s a) t s ((execAll (Action.execIn allowed) t l s).get h).1
      ((execAll (Action.execIn allowed) t l s).get h).2 :=
  continued_get_execAll (fun _ a _ _ h =>
    ⟨_, a, (check_bind_eq_ok.mp h).1, (check_bind_eq_ok.mp h).2⟩) h

/-! ## A chain for examples -/

/-- An amount of the core token of the example. -/
def exampleAsset (n : ℤ) : Asset := ⟨n, ⟨1397703940⟩⟩

/-- A chain with a RAM market and one account with a million units of the core token. -/
def exampleChain : State ℚ :=
  { State.genesis ⟨⟨1397703940⟩, Table.empty.set ⟨1⟩ 1000000, 1000000⟩ with
    ram := ⟨some ⟨⟨100000000000000, ramcoreSymbol⟩, ⟨64 * 1024 ^ 3, ramSymbol⟩,
      exampleAsset 1000⟩, 64 * 1024 ^ 3, 0, 0, 0, 0⟩ }

end EosioSystem
