import EosioSystem.Fees
import EosioSystem.Resources

/-!
# Powerups

A market that rents out NET and CPU for a number of days, out of a weight that stands in the row
of the reserve account. The price depends on the utilization of the weight.

## Main definitions

* `PowerupResource.updateWeight`, `PowerupResource.updateUtilization`: the market as time passes
* `State.processPowerupQueue`: the orders that have expired
* `State.cfgpowerup`, `State.powerupexec`, `State.powerup`: the actions
-/

namespace EosioSystem

open Checked

variable {K : Type}

/-- A default-constructed `asset`: nothing, with the symbol `symbol{}`. -/
def Asset.default : Asset := ⟨0, ⟨0⟩⟩

/-- `is_default_asset` -/
def Asset.isDefault (a : Asset) : Bool := a = Asset.default

/-- The settings of one resource; what is not given keeps its value or takes a default. -/
structure PowerupConfigResource (K : Type) where
  currentWeightRatio : Option ℤ
  targetWeightRatio : Option ℤ
  assumedStakeWeight : Option ℤ
  targetTimestamp : Option ℕ
  exponent : Option K
  decaySecs : Option ℕ
  minPrice : Option Asset
  maxPrice : Option Asset

structure PowerupConfig (K : Type) where
  net : PowerupConfigResource K
  cpu : PowerupConfigResource K
  powerupDays : Option ℕ
  minPowerupFee : Option Asset

section

variable [Field K]

def PowerupResource.new : PowerupResource K where
  weight := 0
  weightRatio := 0
  assumedStakeWeight := 0
  initialWeightRatio := powerupFrac
  targetWeightRatio := powerupFrac / 100
  initialTimestamp := 0
  targetTimestamp := 0
  exponent := (2 : ℕ)
  decaySecs := secondsPerDay
  minPrice := .default
  maxPrice := .default
  utilization := 0
  adjustedUtilization := 0
  utilizationTimestamp := 0

def PowerupMarket.new : PowerupMarket K where
  net := .new
  cpu := .new
  powerupDays := 30
  minPowerupFee := .default

end

namespace PowerupResource

variable (res : PowerupResource K)

/-- The ratio that shrinks linearly from the initial one to the target. -/
def currentRatio (now : ℕ) : ℤ :=
  if res.targetTimestamp ≤ now then res.targetWeightRatio
  else res.initialWeightRatio +
    ((res.targetWeightRatio - res.initialWeightRatio) * (now - res.initialTimestamp : ℕ)).tdiv
      (res.targetTimestamp - res.initialTimestamp : ℕ)

/-- `update_weight`: the market with its new weight, and the change of the weight. -/
def updateWeight (now : ℕ) : Except Error (PowerupResource K × ℤ) := do
  let ratio := res.currentRatio now
  check (ratio ≠ 0) "divide by zero"
  let newWeight := (res.assumedStakeWeight * powerupFrac).tdiv ratio - res.assumedStakeWeight
  return ({ res with weightRatio := ratio, weight := newWeight }, newWeight - res.weight)

variable [Field K] [LinearOrder K] [FloorRing K] [CMath K]

/-- `update_utilization`: the adjusted utilization decays to the utilization. -/
def updateUtilization (now : ℕ) : PowerupResource K :=
  if now ≤ res.utilizationTimestamp then res
  else if res.adjustedUtilization ≤ res.utilization then
    { res with adjustedUtilization := res.utilization, utilizationTimestamp := now }
  else
    let diff := res.adjustedUtilization - res.utilization
    let elapsed : K := (now - res.utilizationTimestamp : ℕ)
    let delta := truncate (diff * CMath.exp (-elapsed / res.decaySecs))
    let delta := if delta < 0 then 0 else if diff < delta then diff else delta
    { res with adjustedUtilization := res.utilization + delta, utilizationTimestamp := now }

variable {res} in
/-- In the same second the adjusted utilization stays as it is. -/
theorem updateUtilization_of_le {now : ℕ} (h : now ≤ res.utilizationTimestamp) :
    res.updateUtilization now = res := if_pos h

/-- The settings of a resource, with the checks on them. -/
def configure (now : ℕ) (core : Symbol) (args : PowerupConfigResource K) :
    Except Error (PowerupResource K) := do
  let ratio := args.currentWeightRatio.getD
    (if res.weightRatio ≠ 0 then res.weightRatio else res.initialWeightRatio)
  let targetRatio := args.targetWeightRatio.getD res.targetWeightRatio
  check (args.assumedStakeWeight.isSome ∨ res.assumedStakeWeight ≠ 0)
    "assumed_stake_weight does not have a default value"
  let stakeWeight := args.assumedStakeWeight.getD res.assumedStakeWeight
  check (ratio = targetRatio ∨ args.targetTimestamp.isSome ∨ res.targetTimestamp ≠ 0)
    "target_timestamp does not have a default value"
  let target := if ratio = targetRatio then now else args.targetTimestamp.getD res.targetTimestamp
  check (ratio = targetRatio ∨ now < target) "target_timestamp must be in the future"
  let exponent := args.exponent.getD res.exponent
  let decaySecs := args.decaySecs.getD res.decaySecs
  check (args.maxPrice.isSome ∨ res.maxPrice.isDefault = false)
    "max_price does not have a default value"
  let maxPrice := args.maxPrice.getD res.maxPrice
  let minPrice := args.minPrice.getD
    (if res.minPrice.isDefault then { maxPrice with amount := 0 } else res.minPrice)
  check (0 < ratio) "current_weight_ratio is too small"
  check (ratio ≤ powerupFrac) "current_weight_ratio is too large"
  check (0 < targetRatio) "target_weight_ratio is too small"
  check (targetRatio ≤ ratio) "weight can't grow over time"
  check (1 ≤ stakeWeight)
    "assumed_stake_weight must be at least 1; a much larger value is recommended"
  check ((stakeWeight * powerupFrac).tdiv targetRatio ≤ 2 ^ 63 - 1)
    "assumed_stake_weight/target_weight_ratio is too large"
  check (1 ≤ exponent) "exponent must be >= 1"
  check (1 ≤ decaySecs) "decay_secs must be >= 1"
  check (maxPrice.symbol = core) "max_price doesn't match core symbol"
  check (0 < maxPrice.amount) "max_price must be positive"
  check (minPrice.symbol = core) "min_price doesn't match core symbol"
  check (0 ≤ minPrice.amount) "min_price must be non-negative"
  check (minPrice.amount ≤ maxPrice.amount) "min_price cannot exceed max_price"
  check (exponent ≠ 1 ∨ minPrice.amount = maxPrice.amount)
    "min_price and max_price must be the same if the exponent is 1"
  return { res with
    assumedStakeWeight := stakeWeight
    initialWeightRatio := ratio
    targetWeightRatio := targetRatio
    initialTimestamp := now
    targetTimestamp := target
    exponent
    decaySecs
    minPrice
    maxPrice }

omit [FloorRing K] in
/-- The integral of the price function between two utilizations. -/
def priceIntegralDelta (startUtilization endUtilization : ℤ) : K :=
  let minPrice : K := res.minPrice.amount
  let coefficient : K := (res.maxPrice.amount - res.minPrice.amount : ℤ) / res.exponent
  let startU : K := startUtilization / res.weight
  let endU : K := endUtilization / res.weight
  minPrice * endU - minPrice * startU + coefficient * CMath.pow endU res.exponent -
    coefficient * CMath.pow startU res.exponent

omit [FloorRing K] in
/-- The price at a utilization. -/
def priceFunction (utilization : ℤ) : K :=
  let newExponent := res.exponent - 1
  if newExponent ≤ 0 then res.maxPrice.amount
  else res.minPrice.amount + (res.maxPrice.amount - res.minPrice.amount : ℤ) *
    CMath.pow ((utilization : K) / res.weight) newExponent

/-- `calc_powerup_fee` -/
def calcPowerupFee (utilizationIncrease : ℤ) : ℤ :=
  if utilizationIncrease ≤ 0 then 0
  else
    let endUtilization := res.utilization + utilizationIncrease
    let below := res.utilization < res.adjustedUtilization
    let fee : K := if below then
      res.priceFunction res.adjustedUtilization *
        (min utilizationIncrease (res.adjustedUtilization - res.utilization) : ℤ) / res.weight
      else 0
    let startUtilization := if below then res.adjustedUtilization else res.utilization
    ⌈if startUtilization < endUtilization then
      fee + res.priceIntegralDelta startUtilization endUtilization else fee⌉

/-- Reserve a fraction of the market: the market, the amount reserved and its fee. -/
def reserve (frac : ℤ) : Except Error (PowerupResource K × ℤ × ℤ) := do
  if frac = 0 then return (res, 0, 0)
  let amount := (frac * res.weight).tdiv powerupFrac
  check (res.weight ≠ 0) "market doesn't have resources available"
  check (res.utilization + amount ≤ res.weight) "market doesn't have enough resources available"
  let f := res.calcPowerupFee amount
  check (0 < f) "calculated fee is below minimum; try powering up with more resources"
  return ({ res with utilization := res.utilization + amount }, amount, f)

end PowerupResource

namespace State

/-- Change the resource totals of an account for a powerup. -/
def adjustResources (s : State K) (account : Name) (netDelta cpuDelta : ℤ)
    (mustNotBeManaged : Bool) : Except Error (State K) := do
  let res ← s.res.adjustResources (s.vote.managed account) account netDelta cpuDelta
    mustNotBeManaged
  return { s with res }

/-- The order that expires first. -/
def firstOrder (orders : Table ℕ PowerupOrder) : Option (ℕ × PowerupOrder) :=
  orders.first fun id o => toLex (o.expires, id)

/-- Remove up to `max` expired orders: what becomes available again. -/
def expireOrders (now : ℕ) : ℕ → State K → ℤ → ℤ → Except Error (State K × ℤ × ℤ)
  | 0, s, net, cpu => return (s, net, cpu)
  | max + 1, s, net, cpu =>
    match firstOrder s.powup.orders with
    | none => return (s, net, cpu)
    | some (id, o) =>
      if now < o.expires then return (s, net, cpu)
      else do
        let s ← s.adjustResources o.owner (-o.netWeight) (-o.cpuWeight) false
        let powup := { s.powup with orders := s.powup.orders.erase id }
        expireOrders now max { s with powup } (net + o.netWeight) (cpu + o.cpuWeight)

theorem adjustResources_frame {s s' : State K} {account : Name} {net cpu : ℤ} {must : Bool}
    (h : s.adjustResources account net cpu must = .ok s') : ∃ res, s' = { s with res } := by
  simp only [adjustResources, bind_eq_ok, pure_eq_ok] at h
  obtain ⟨res, -, rfl⟩ := h
  exact ⟨res, rfl⟩

theorem expireOrders_frame {now max : ℕ} {s s' : State K} {net cpu net' cpu' : ℤ}
    (h : expireOrders now max s net cpu = .ok (s', net', cpu')) :
    ∃ res powup, s' = { s with res, powup } := by
  induction max generalizing s net cpu with
  | zero =>
    cases h
    exact ⟨s'.res, s'.powup, rfl⟩
  | succ max ih =>
    unfold expireOrders at h
    split at h
    · cases h
      exact ⟨s'.res, s'.powup, rfl⟩
    · split_ifs at h
      · cases h
        exact ⟨s'.res, s'.powup, rfl⟩
      · obtain ⟨s₁, ha, h⟩ := bind_eq_ok.mp h
        obtain ⟨res₁, rfl⟩ := adjustResources_frame ha
        obtain ⟨res, powup, rfl⟩ := ih h
        exact ⟨res, powup, rfl⟩

/-- Write the powerup market. -/
def setPowerup (s : State K) (m : PowerupMarket K) : State K :=
  { s with powup := { s.powup with market := some m } }

variable [Field K] [LinearOrder K] [FloorRing K] [CMath K]

/-- `process_powerup_queue`: the market, and the NET and CPU weight that becomes available. -/
def processPowerupQueue (s : State K) (now : ℕ) (m : PowerupMarket K) (maxItems : ℕ) :
    Except Error (State K × PowerupMarket K × ℤ × ℤ) := do
  let net := m.net.updateUtilization now
  let cpu := m.cpu.updateUtilization now
  let (s, netFreed, cpuFreed) ← s.expireOrders now maxItems 0 0
  let (net, netGrown) ← { net with utilization := net.utilization - netFreed }.updateWeight now
  let (cpu, cpuGrown) ← { cpu with utilization := cpu.utilization - cpuFreed }.updateWeight now
  return (s, { m with net, cpu }, netFreed + netGrown, cpuFreed + cpuGrown)

theorem processPowerupQueue_frame {s s' : State K} {now max : ℕ} {m : PowerupMarket K}
    {r : PowerupMarket K × ℤ × ℤ} (h : s.processPowerupQueue now m max = .ok (s', r)) :
    ∃ res powup, s' = { s with res, powup } := by
  simp only [processPowerupQueue, bind_eq_ok, pure_eq_ok, Prod.mk.injEq] at h
  obtain ⟨⟨s₁, net, cpu⟩, he, _, -, _, -, rfl, -⟩ := h
  exact expireOrders_frame he

/-- The market at the time of a new configuration, and the change of its weights. -/
def refreshMarket (now : ℕ) (market : Option (PowerupMarket K)) :
    Except Error (PowerupMarket K × ℤ × ℤ) := do
  match market with
  | some m =>
    let (net, netDelta) ← (m.net.updateUtilization now).updateWeight now
    let (cpu, cpuDelta) ← (m.cpu.updateUtilization now).updateWeight now
    return ({ m with net, cpu }, netDelta, cpuDelta)
  | none =>
    let m : PowerupMarket K := .new
    return ({ m with
      net := { m.net with utilizationTimestamp := now }
      cpu := { m.cpu with utilizationTimestamp := now } }, 0, 0)

def cfgpowerup (env : Env) (s : State K) (args : PowerupConfig K) : Except Error (State K) := do
  let now := env.now.sec
  let core ← s.coreSymbol
  check (env.isAccount reservAccount = true) "eosio.reserv account must first be created"
  let (m, netDelta, cpuDelta) ← refreshMarket now s.powup.market
  let powerupDays := args.powerupDays.getD m.powerupDays
  check (args.minPowerupFee.isSome ∨ m.minPowerupFee.isDefault = false)
    "min_powerup_fee does not have a default value"
  let minPowerupFee := args.minPowerupFee.getD m.minPowerupFee
  check (0 < powerupDays) "powerup_days must be > 0"
  check (minPowerupFee.symbol = core) "min_powerup_fee doesn't match core symbol"
  check (0 < minPowerupFee.amount) "min_powerup_fee must be positive"
  let net ← m.net.configure now core args.net
  let cpu ← m.cpu.configure now core args.cpu
  let (net, netGrown) ← net.updateWeight now
  let (cpu, cpuGrown) ← cpu.updateWeight now
  check (net.utilization ≤ net.weight) "weight can't shrink below utilization"
  check (cpu.utilization ≤ cpu.weight) "weight can't shrink below utilization"
  let net := { net with adjustedUtilization := min net.adjustedUtilization net.weight }
  let cpu := { cpu with adjustedUtilization := min cpu.adjustedUtilization cpu.weight }
  let s ← s.adjustResources reservAccount (netDelta + netGrown) (cpuDelta + cpuGrown) true
  return s.setPowerup ⟨net, cpu, powerupDays, minPowerupFee⟩

def powerupexec (now : BlockTimestamp) (s : State K) (user : Name) (max : ℕ) :
    Except Error (State K) := do
  requireAuth user
  let m ← require s.powup.market "powerup hasn't been initialized"
  let _ ← s.coreSymbol
  let (s, m, netDelta, cpuDelta) ← s.processPowerupQueue now.sec m max
  let s ← s.adjustResources reservAccount netDelta cpuDelta true
  return s.setPowerup m

/-- The primary key of the next order. -/
def nextOrderId (orders : Table ℕ PowerupOrder) : ℕ :=
  orders.rows.foldr (fun o id => max (o.1 + 1) id) 0

def powerup (now : BlockTimestamp) (s : State K) (payer receiver : Name) (days : ℕ)
    (netFrac cpuFrac : ℤ) (maxPayment : Asset) : Except Error (State K) := do
  requireAuth payer
  let m ← require s.powup.market "powerup hasn't been initialized"
  s.checkCore maxPayment "max_payment doesn't match core symbol"
  check (days = m.powerupDays) "days doesn't match configuration"
  check (0 ≤ netFrac) "net_frac can't be negative"
  check (0 ≤ cpuFrac) "cpu_frac can't be negative"
  check (netFrac ≤ powerupFrac) "net can't be more than 100%"
  check (cpuFrac ≤ powerupFrac) "cpu can't be more than 100%"
  let (s, m, netDelta, cpuDelta) ← s.processPowerupQueue now.sec m 2
  let (net, netAmount, netFee) ← m.net.reserve netFrac
  let (cpu, cpuAmount, cpuFee) ← m.cpu.reserve cpuFrac
  let fee := netFee + cpuFee
  check (fee ≤ maxPayment.amount)
    ("max_payment is less than calculated fee: " ++ Asset.toString ⟨fee, maxPayment.symbol⟩)
  check (m.minPowerupFee.amount ≤ fee)
    "calculated fee is below minimum; try powering up with more resources"
  let order : PowerupOrder := ⟨receiver, netAmount, cpuAmount,
    (now.sec + days * secondsPerDay) % 2 ^ 32⟩
  let orders := s.powup.orders.set (nextOrderId s.powup.orders) order
  let s := { s with powup := { s.powup with orders } }
  let s ← s.adjustResources receiver netAmount cpuAmount true
  let s ← s.adjustResources reservAccount (netDelta - netAmount) (cpuDelta - cpuAmount) true
  let s ← s.channelToRexOrPools now payer fee true
  return s.setPowerup { m with net, cpu }

end State

end EosioSystem
