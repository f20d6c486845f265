import EosioSystem.Exchange
import EosioSystem.Token

/-!
# The REX tables

The records of the resource exchange, and the functions that touch a single record: the maturity
buckets of an owner's REX and the savings bucket behind them.

## Main definitions

* `RexPool`, `RexReturnPool`, `RexBalance`, `RexLoan`, `RexOrder`: the records
* `RexState`: all REX tables
* `processRexMaturities`, `consolidateRexBalance`, `readRexSavings`, `putRexSavings`,
  `addRexMaturity`, `drainMaturities`: what happens to the maturity buckets of a record
-/

namespace EosioSystem

/-- The two resources that are staked, delegated and rented. -/
inductive Resource
  | net
  | cpu
  deriving DecidableEq

structure RexPool where
  totalLent : ℤ
  totalUnlent : ℤ
  totalRent : ℤ
  totalLendable : ℤ
  totalRex : ℤ
  namebidProceeds : ℤ
  loanNum : ℕ

structure RexReturnPool where
  lastDistTime : ℕ
  pendingBucketTime : ℕ
  oldestBucketTime : ℕ
  pendingBucketProceeds : ℤ
  currentRateOfIncrease : ℤ
  proceeds : ℤ

/-- The return pool and its buckets: the rate at which each 12-hour bucket is paid out. -/
structure RexReturn where
  pool : Option RexReturnPool
  buckets : Table ℕ ℤ

structure RexBalance where
  voteStake : ℤ
  rexBalance : ℤ
  maturedRex : ℤ
  /-- maturity times with the amounts that mature then, the earliest first -/
  rexMaturities : List (ℕ × ℤ)

/-- A loan; `sender` is the account that created it and pays for it. -/
structure RexLoan where
  sender : Name
  receiver : Name
  payment : ℤ
  balance : ℤ
  totalStaked : ℤ
  expiration : ℕ

structure RexOrder where
  rexRequested : ℤ
  proceeds : ℤ
  stakeChange : ℤ
  orderTime : ℕ
  isOpen : Bool

/-- What became of a sell order that was tried. -/
structure RexOrderOutcome where
  success : Bool
  proceeds : ℤ
  stakeChange : ℤ

/-- REX received for a payment, with the time, or sold. -/
inductive RexTrade
  | received (owner : Name) (time : ℕ) (rex : ℤ)
  | sold (owner : Name) (rex : ℤ)

/-- The REX tables; the NET and the CPU loans are kept together, under the resource they rent.
The last three are no fields of the contract: `converted` lists the values that the conversions from
128 bits to 64 bits have been given, `trades` the purchases and sales of REX, and `leftUnlent` what
each loan that was made or renewed has left unlent. -/
structure RexState where
  pool : Option RexPool
  ret : RexReturn
  funds : Table Name ℤ
  balances : Table Name RexBalance
  loans : Table (Resource × ℕ) RexLoan
  orders : Table Name RexOrder
  converted : List ℤ
  trades : List RexTrade
  leftUnlent : List ℤ

namespace RexState

/-- The tables before anybody has bought REX. -/
def empty : RexState where
  pool := none
  ret := ⟨none, .empty⟩
  funds := .empty
  balances := .empty
  loans := .empty
  orders := .empty
  converted := []
  trades := []
  leftUnlent := []

/-- `rex_system_initialized` -/
def initialized (r : RexState) : Bool := r.pool.isSome

/-- `rex_available` -/
def available (r : RexState) : Bool := r.pool.any fun p => decide (0 < p.totalRex)

/-- `by_time`: closed orders come after all open ones. -/
def byTime (_ : Name) (o : RexOrder) : ℕ := if o.isOpen then o.orderTime else 2 ^ 64 - 1

/-- Convert a value from 128 bits to 64 bits. -/
def convert (r : RexState) (x : ℤ) : RexState := { r with converted := x :: r.converted }

/-- `rex_loans_available`: the pool is not empty and no sell order waits to be filled. -/
def loansAvailable (r : RexState) : Bool :=
  r.available && match r.orders.first (fun a o => toLex (byTime a o, a.value)) with
    | none => true
    | some (_, o) => !o.isOpen

/-- The loan of a resource that expires first. -/
def firstLoan (r : RexState) (kind : Resource) : Option ((Resource × ℕ) × RexLoan) :=
  (r.loans.filter fun k _ => k.1 = kind).first fun k l => toLex (l.expiration, k.2)

/-- The open sell orders in the order in which they are tried. -/
def openOrders (r : RexState) : List Name :=
  ((r.orders.filter fun _ o => o.isOpen).rows.insertionSort fun x y =>
    toLex (x.2.orderTime, x.1.value) ≤ toLex (y.2.orderTime, y.1.value)).map Prod.fst

end RexState

/-! ## Maturity buckets -/

/-- Midnight of the day, five days on. -/
def getRexMaturity (now : ℕ) : ℕ := now - now % secondsPerDay + 5 * secondsPerDay

/-- The due buckets become matured REX. -/
def processRexMaturities (now : ℕ) (rb : RexBalance) : RexBalance :=
  { rb with
    maturedRex :=
      rb.maturedRex + ((rb.rexMaturities.takeWhile fun m => m.1 ≤ now).map Prod.snd).sum
    rexMaturities := rb.rexMaturities.dropWhile fun m => m.1 ≤ now }

/-- Take the savings bucket, the one that never matures, off the end of the buckets. -/
def readRexSavings (rb : RexBalance) : RexBalance × ℤ :=
  match rb.rexMaturities.getLast? with
  | some (t, amount) =>
    if t = maximumTime then ({ rb with rexMaturities := rb.rexMaturities.dropLast }, amount)
    else (rb, 0)
  | none => (rb, 0)

/-- Add to the bucket of the time `t` if it is the last one, else append such a bucket. -/
def addToLastBucket (t : ℕ) (amount : ℤ) (l : List (ℕ × ℤ)) : List (ℕ × ℤ) :=
  match l.getLast? with
  | some (t', a) => if t' = t then l.dropLast ++ [(t, a + amount)] else l ++ [(t, amount)]
  | none => [(t, amount)]

/-- Put an amount back in the savings bucket. -/
def putRexSavings (rb : RexBalance) (rex : ℤ) : RexBalance :=
  if rex = 0 then rb
  else { rb with rexMaturities := addToLastBucket maximumTime rex rb.rexMaturities }

/-- Put an amount in the bucket that matures last. -/
def addRexMaturity (now : ℕ) (rex : ℤ) (rb : RexBalance) : RexBalance :=
  { rb with rexMaturities := addToLastBucket (getRexMaturity now) rex rb.rexMaturities }

/-- All REX outside of savings and of a sell order goes to one bucket. -/
def consolidateRexBalance (now : ℕ) (rexInSellOrder : ℤ) (rb : RexBalance) : RexBalance :=
  let (rb, rexInSavings) := readRexSavings rb
  let total := rb.maturedRex - rexInSellOrder + (rb.rexMaturities.map Prod.snd).sum
  putRexSavings { rb with
    maturedRex := rexInSellOrder
    rexMaturities := if 0 < total then [(getRexMaturity now, total)] else [] } rexInSavings

/-- Take up to `want` out of the buckets, given from the last one on; the rest of the buckets and
the amount taken. -/
def drainMaturities : List (ℕ × ℤ) → ℤ → List (ℕ × ℤ) × ℤ
  | [], _ => ([], 0)
  | (t, a) :: l, want =>
    if 0 < want then
      let drex := min want a
      if a - drex = 0 then
        let (l', moved) := drainMaturities l (want - drex)
        (l', drex + moved)
      else ((t, a - drex) :: l, drex)
    else ((t, a) :: l, 0)

end EosioSystem
