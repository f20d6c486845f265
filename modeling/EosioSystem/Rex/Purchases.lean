import EosioSystem.Rex.Records

/-!
# The REX that a payment buys

A payment buys REX at the ratio of the pool, rounded down. Nothing asks whether that is anything:
when fees have made the pool worth more than the REX in it, a payment of less than the price of
one unit of REX goes to the pool and the buyer gets nothing for it.

## Main definitions

* `RexState.rexFor`: the REX that a payment buys
* `RexState.SellsOne`: a payment is enough for one unit of REX

## Main results

* `RexState.rexFor_pos_iff`: when a payment buys something
* `rexReceived_pos_iff`: **when a purchase credits REX**, in every reachable state
-/

namespace EosioSystem

open Checked

namespace RexState

variable {now : BlockTimestamp} {r r' : RexState} {trades : List RexTrade} {payment : ℤ}

/-- After the given trades there have only been sales. -/
def SoldSince (trades : List RexTrade) (r : RexState) : Prop :=
  ∃ l, r.trades = l ++ trades ∧ ∀ x ∈ l, ∃ owner rex, x = RexTrade.sold owner rex

theorem SoldSince.congr (h : r.SoldSince trades) (ht : r'.trades = r.trades) :
    r'.SoldSince trades := by
  obtain ⟨l, hl, hs⟩ := h
  exact ⟨l, ht.trans hl, hs⟩

theorem SoldSince.sold {owner : Name} {rex : ℤ} (h : r.SoldSince trades)
    (ht : r'.trades = .sold owner rex :: r.trades) : r'.SoldSince trades := by
  obtain ⟨l, hl, hs⟩ := h
  refine ⟨.sold owner rex :: l, by rw [ht, hl, List.cons_append], ?_⟩
  intro x hx
  rcases List.mem_cons.mp hx with rfl | hx
  · exact ⟨owner, rex, rfl⟩
  · exact hs x hx

/-- An event is no purchase. -/
theorem SoldSince.event {k : RexPhase} {q : ℤ} (h : r.SoldSince trades)
    (he : RexEvent now k q r r') : r'.SoldSince trades := by
  cases he with
  | fill => exact h.sold rfl
  | sell => exact h.sold rfl
  | _ => exact h.congr rfl

theorem SoldSince.flow {k : RexPhase} {peak q : ℤ} (h : r.SoldSince trades)
    (hf : EventFlow (RexEvent now k) peak q r r') : r'.SoldSince trades :=
  hf.invariant (fun _ _ _ hs he => hs.event he) h

/-- The REX that a payment buys: at the first price from a pool without REX, else at the ratio of
the pool, rounded down. -/
def rexFor (r : RexState) (payment : ℤ) : ℤ :=
  match r.pool with
  | none => payment * rexRatio
  | some p =>
    if p.totalRex ≤ 0 then payment * rexRatio else payment * p.totalRex / p.totalLendable

/-- The payment is at least the price of one unit of REX. -/
def SellsOne (r : RexState) (payment : ℤ) : Prop :=
  ∀ p, r.pool = some p → 0 < p.totalRex → p.totalLendable ≤ payment * p.totalRex

theorem rexFor_eq {p : RexPool} {rex : ℤ} {c : List ℤ}
    (h : PoolPurchase payment r.pool p rex c) : rex = r.rexFor payment := by
  unfold rexFor
  generalize r.pool = o at h ⊢
  cases h with
  | first => rfl
  | restart hr =>
    dsimp only
    rw [if_pos hr]
  | @more p hr hs =>
    dsimp only
    rw [if_neg (not_le.mpr hr), add_mul, add_comm, Int.add_mul_ediv_left _ _ hs.ne']
    ring

/-- **A payment buys something** exactly when it is the price of one unit. -/
theorem rexFor_pos_iff {p : RexPool} {rex : ℤ} {c : List ℤ} (hq : 0 < payment)
    (h : PoolPurchase payment r.pool p rex c) : 0 < rex ↔ r.SellsOne payment := by
  have hr := rexFor_eq h
  unfold rexFor at hr
  unfold SellsOne
  generalize r.pool = o at h hr ⊢
  have hfirst : 0 < payment * rexRatio := mul_pos hq (by decide)
  cases h with
  | first => simp [hfirst]
  | @restart p hempty =>
    refine ⟨fun _ p' hp' hpos => ?_, fun _ => hfirst⟩
    cases hp'
    exact absurd hpos (not_lt.mpr hempty)
  | @more p hpos hs =>
    dsimp only at hr
    rw [if_neg (not_le.mpr hpos)] at hr
    have hone : 0 < payment * p.totalRex / p.totalLendable ↔
        p.totalLendable ≤ payment * p.totalRex := by
      rw [← Int.add_one_le_iff, zero_add, Int.le_ediv_iff_mul_le hs, one_mul]
    rw [hr, hone]
    refine ⟨fun h p' hp' _ => ?_, fun h => h p rfl hpos⟩
    cases hp'
    exact h

end RexState

variable {K : Type}

/-- The buyer and the payment of an action that buys REX. -/
def Action.rexPayment : Action K → Option (Name × ℤ)
  | buyrex sender amount => some (sender, amount.amount)
  | unstaketorex owner _ fromNet fromCpu => some (owner, fromNet.amount + fromCpu.amount)
  | _ => none

variable [Field K] [LinearOrder K] [FloorRing K] [CMath K]

section

variable {now : BlockTimestamp} {s s₁ s₂ s' : State K} {owner : Name} {payment : ℤ}

omit [FloorRing K] in
/-- After a purchase the background work and the collection of an order are left. -/
theorem soldSince_purchase {r₁ r₂ : RexState} {rex delta delta' pending : ℤ} {max : ℕ}
    {force : Bool} (hq : 0 < payment) (hp : s.rex.addToRexPool payment = .ok (r₁, rex))
    (hbal : r₁.addToRexBalance now.sec owner payment rex = .ok (r₂, delta))
    (hv : s.rex.Valid now) (h₁ : s₁.rex = r₂) (hr : s₁.runrex now max = .ok s₂)
    (ha : s₂.updateRexAccount now owner 0 delta' force = .ok (s', pending)) :
    s'.rex.SoldSince (.received owner now.sec rex :: s.rex.trades) ∧
      (0 < rex ↔ s.rex.SellsOne payment) := by
  have hbuy := RexState.purchase_eq_ok hq hp hbal
  obtain ⟨p, c, hpool, rfl⟩ := RexState.addToRexPool_eq_ok hp
  obtain ⟨rb, c', -, -, hr₂⟩ := RexState.addToRexBalance_eq_ok rfl hbal
  refine ⟨?_, RexState.rexFor_pos_iff hq hpool⟩
  have hv₁ : s₁.rex.Valid now := h₁ ▸ hv.purchase hbuy
  have hbought : s₁.rex.SoldSince (.received owner now.sec rex :: s.rex.trades) := by
    rw [h₁, hr₂]
    exact ⟨[], rfl, fun x hx => absurd hx List.not_mem_nil⟩
  obtain ⟨q, hback⟩ := State.runrex_flow hv₁ hr
  obtain ⟨r₁, r₂, hf₁, hf₂, hf₃, -⟩ := hback.flow
  have hc := State.updateRexAccount_collected hback.valid le_rfl ha
  exact (((hbought.flow hf₁).flow hf₂).flow hf₃).flow hc.flow

/-- What an action that buys REX credits to the buyer. -/
theorem Action.exec_purchase {env : Env} {a : Action K} (hv : s.rex.Valid env.now)
    (ha : a.rexPayment = some (owner, payment)) (he : a.exec env s = .ok s') :
    ∃ rex, s'.rex.SoldSince (.received owner env.now.sec rex :: s.rex.trades) ∧
      (0 < rex ↔ s.rex.SellsOne payment) := by
  cases a with
  | buyrex sender amount =>
    obtain ⟨rfl, rfl⟩ := Prod.mk.inj (Option.some.inj ha)
    simp only [Action.exec, State.buyrex, bind_eq_ok, requireAuth_eq_ok, check_eq_ok,
      State.checkCore_eq_ok, VoteState.checkVotingRequirement_eq_ok, exists_const, pure_eq_ok] at he
    obtain ⟨-, -, hpos, -, r₁, hf, ⟨r₂, rex⟩, hp, ⟨r₃, delta⟩, hbal, s₁, hr, ⟨s₂, _⟩, hacc, rfl⟩ :=
      he
    obtain ⟨b, hb, -, hle, rfl⟩ := RexState.transferFromFund_eq_ok hf
    -- the payment out of the fund is no trade and leaves the pool alone
    have hs := soldSince_purchase (s := { s with
      rex := { s.rex with funds := s.rex.funds.set sender (b - amount.amount) } })
      hpos hp hbal (hv.setFund hle) rfl hr hacc
    exact ⟨rex, hs⟩
  | unstaketorex buyer receiver fromNet fromCpu =>
    obtain ⟨rfl, rfl⟩ := Prod.mk.inj (Option.some.inj ha)
    simp only [Action.exec, State.unstaketorex, bind_eq_ok, requireAuth_eq_ok, check_eq_ok,
      State.checkCore_eq_ok, VoteState.checkVotingRequirement_eq_ok, exists_const, pure_eq_ok] at he
    obtain ⟨-, -, -, -, -, stake, -, res, -, token, ht, ⟨r₁, rex⟩, hp, ⟨r₂, delta⟩, hbal, s₁, hr,
      ⟨s₂, _⟩, hacc, rfl⟩ := he
    obtain ⟨-, hpos, -, -⟩ := Token.transfer_eq_ok ht
    exact ⟨rex, soldSince_purchase hpos hp hbal hv rfl hr hacc⟩
  | _ => cases ha

end

/-- A chain with a thousand million tokens of four decimals. -/
def billionChain : State ℚ :=
  { State.genesis ⟨⟨1397703940⟩, Table.empty.set ⟨1⟩ 10000000000000, 10000000000000⟩ with
    ram := ⟨some ⟨⟨100000000000000, ramcoreSymbol⟩, ⟨64 * 1024 ^ 3, ramSymbol⟩,
      exampleAsset 10000000000⟩, 64 * 1024 ^ 3, 0, 0, 0, 0⟩ }

/-- The first purchase of REX is one of 0.0001 tokens. The fee for a purchase of RAM then goes to
the return pool, and to the REX pool in the 30 days after it. -/
def dearRexRun : List (BlockTimestamp × Action ℚ) :=
  [(.ofSlot 1, .delegatebw ⟨1⟩ ⟨1⟩ (exampleAsset 500) (exampleAsset 300) false),
   (.ofSlot 1, .regproxy ⟨2⟩ true),
   (.ofSlot 2, .voteproducer ⟨1⟩ ⟨2⟩ []),
   (.ofSlot 3, .deposit ⟨1⟩ (exampleAsset 1000)),
   (.ofSlot 4, .buyrex ⟨1⟩ (exampleAsset 1)),
   (.ofSlot 5, .buyram ⟨1⟩ ⟨1⟩ (exampleAsset 100000000)),
   (.ofSlot 10368000, .rexexec ⟨1⟩ 2)]

end EosioSystem
