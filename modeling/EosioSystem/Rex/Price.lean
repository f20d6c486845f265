import EosioSystem.Rex.Records

/-!
# The price of REX

As long as there is REX, it is worth at least what it was worth before: purchases and sales are
rounded against the owner, loans leave the tokens of the pool alone, and what the return pool pays
out is shared by all REX. A pool that is sold out starts again at its first price.

## Main definitions

* `RexState.WorthKept`: a share of the pool is worth at least what it was worth before
* `RexState.Dear`: in addition, there is no new REX

## Main results

* `RexState.dear_event`, `RexState.worthKept_purchase`: events and purchases
* `rexPrice_of_continued`: **the value of REX never falls**
-/

namespace EosioSystem

open Checked

namespace RexState

variable {now : BlockTimestamp} {r r₁ r' : RexState} {owner : Name}

/-- A share of the pool is worth at least what it was worth before, by cross products. -/
def WorthKept (r r' : RexState) : Prop :=
  r.totals.totalLendable * r'.totals.totalRex ≤ r'.totals.totalLendable * r.totals.totalRex

/-- The price is kept, without new REX. -/
structure Dear (r r' : RexState) : Prop where
  price : r.WorthKept r'
  rex : r'.totals.totalRex ≤ r.totals.totalRex

theorem Dear.of_totals (hS : r.totals.totalLendable ≤ r'.totals.totalLendable)
    (hR : r'.totals.totalRex = r.totals.totalRex) (hr : 0 ≤ r.totals.totalRex) : r.Dear r' := by
  refine ⟨?_, hR.le⟩
  unfold WorthKept
  rw [hR]
  exact mul_le_mul_of_nonneg_right hS hr

/-- The same totals. -/
theorem Dear.of_eq (h : r'.totals = r.totals) : r.Dear r' := by
  refine ⟨?_, by rw [h]⟩
  unfold WorthKept
  rw [h]

/-- Two events without new REX, which may sell the pool out. -/
theorem Dear.trans (h₁ : r.Dear r₁) (h₂ : r₁.Dear r') (hR : 0 ≤ r.totals.totalRex)
    (hR₁ : 0 ≤ r₁.totals.totalRex) (hR' : 0 ≤ r'.totals.totalRex)
    (hS' : 0 ≤ r'.totals.totalLendable) : r.Dear r' := by
  refine ⟨?_, h₂.rex.trans h₁.rex⟩
  rcases hR₁.lt_or_eq with hpos | hzero
  · exact Shares.price_trans hR hpos hR' h₁.price h₂.price
  · have hout : r'.totals.totalRex = 0 := le_antisymm (hzero ▸ h₂.rex) hR'
    unfold WorthKept
    rw [hout, mul_zero]
    exact mul_nonneg hS' hR

/-- **A sale** is rounded in favour of the pool. -/
theorem dear_afterSale {p : RexPool} {rb : RexBalance} {rex : ℤ} (hp : r.pool = some p)
    (hR : 0 < p.totalRex) (hrex : 0 ≤ rex) : r.Dear (r.afterSale p owner rb rex) := by
  have hafter : (r.afterSale p owner rb rex).pool = some { p with
      totalRex := p.totalRex - rex
      totalLendable := p.totalLendable - rex * p.totalLendable / p.totalRex
      totalUnlent := p.totalLendable - rex * p.totalLendable / p.totalRex - p.totalLent } := rfl
  constructor
  · unfold WorthKept
    rw [totals_eq hp, totals_eq hafter]
    exact Shares.sell_price hR
  · rw [totals_eq hp, totals_eq hafter]
    exact sub_le_self _ hrex

/-- **Every event** keeps the price and makes no REX. -/
theorem dear_event {k : RexPhase} {q : ℤ} (hv : r.Valid now) (he : RexEvent now k q r r') :
    r.Dear r' := by
  have hnonneg := hv.pool.rex_nonneg hv.accounts
  have hpos {p : RexPool} (hp : r.pool = some p) (hne : p.totalRex ≠ 0) : 0 < p.totalRex := by
    rw [totals_eq hp] at hnonneg
    exact lt_of_le_of_ne hnonneg hne.symm
  have hlendable := hv.pool.lendable
  -- returns and loans move tokens within the pool, only a sale takes tokens and REX out of it
  cases he with
  | @distribute r p ret change hp hu hc =>
    refine .of_totals ?_ ?_ hnonneg
    · rw [totals_eq hp] at hlendable ⊢
      show p.totalLendable ≤ p.totalUnlent + change + p.totalLent
      omega
    · rw [totals_eq hp]
      rfl
  | @closeLoan r p key loan delta hl hexp hp hd =>
    refine .of_totals ?_ ?_ hnonneg
    · rw [totals_eq hp] at hlendable ⊢
      show p.totalLendable ≤ p.totalUnlent + loan.totalStaked + (p.totalLent - loan.totalStaked)
      omega
    · rw [totals_eq hp]
      rfl
  | @renewLoan r p key loan delta rented hl hexp hp hd =>
    refine .of_totals ?_ ?_ hnonneg
    · rw [totals_eq hp] at hlendable ⊢
      show p.totalLendable ≤ p.totalUnlent + loan.totalStaked + (p.totalLent - loan.totalStaked)
      omega
    · rw [totals_eq hp]
      rfl
  | namebid hp | namebidsPaid hp | setRent hp =>
    refine .of_totals ?_ ?_ hnonneg
    · rw [totals_eq hp]
      exact le_rfl
    · rw [totals_eq hp]
      rfl
  | lend ha hp =>
    refine .of_totals ?_ ?_ hnonneg
    · rw [totals_eq hp]
      exact le_rfl
    · rw [totals_eq hp]
      rfl
  | @fill r p owner o rb ho hopen hb hp hr =>
    have hreq := (hv.accounts.requested_pos owner o ho hopen).le
    have hsale : r.Dear (r.afterSale p owner rb _) := dear_afterSale hp (hpos hp hr) hreq
    exact ⟨hsale.price, hsale.rex⟩
  | @sell r p owner rb rex hb hrex hm hres hp hr =>
    exact dear_afterSale hp (hpos hp hr) hrex.le
  | _ => exact .of_eq rfl

/-- A sequence of events. -/
theorem dear_flow {k : RexPhase} {peak q : ℤ} (hv : r.Valid now)
    (h : EventFlow (RexEvent now k) peak q r r') : r.Dear r' := by
  refine (h.invariant (P := fun r₁ => r₁.Valid now ∧ r.Dear r₁) (fun q r₁ r₂ h₁ he => ?_)
    ⟨hv, .of_eq rfl⟩).2
  have hv₂ := h₁.1.event he
  exact ⟨hv₂, h₁.2.trans (dear_event h₁.1 he) (hv.pool.rex_nonneg hv.accounts)
    (h₁.1.pool.rex_nonneg h₁.1.accounts) (hv₂.pool.rex_nonneg hv₂.accounts)
    (hv₂.pool.lendable_nonneg hv₂.accounts)⟩

/-- **A purchase** while there is REX is rounded in favour of the pool. -/
theorem worthKept_purchase {payment : ℤ} (hpos : 0 < r.totals.totalRex)
    (h : RexPurchase now owner payment r r') : r.WorthKept r' ∧ 0 < r'.totals.totalRex := by
  cases h with
  | @buy p rex c c' rb hq hp hr =>
    have hrex := PoolLedger.received_nonneg hq hp
    -- with REX in the pool, a purchase is neither the first nor the first after a sale of all
    generalize hpool : r.pool = pool at hp
    cases hp with
    | first =>
      rw [totals, hpool, Option.getD_none] at hpos
      exact absurd hpos (lt_irrefl 0)
    | restart hempty =>
      rw [totals_eq hpool] at hpos
      exact absurd hpos (not_lt.mpr hempty)
    | @more p₀ hR hS =>
      refine ⟨?_, ?_⟩
      · unfold WorthKept
        rw [totals_eq hpool]
        exact Shares.buy_price hS
      · show 0 < (p₀.totalLendable + payment) * p₀.totalRex / p₀.totalLendable
        omega

theorem worthKept_opening {q : ℤ} (hpos : 0 < r.totals.totalRex)
    (h : RexOpening now q r r') : r.WorthKept r' ∧ 0 < r'.totals.totalRex := by
  cases h with
  | none => exact ⟨le_rfl, hpos⟩
  | fromFund hf hle hp =>
    obtain ⟨hprice, hpos'⟩ := worthKept_purchase (by exact hpos) hp
    exact ⟨hprice, hpos'⟩
  | fromStake hp => exact worthKept_purchase hpos hp

/-- **An action** keeps the price while there is REX. -/
theorem worthKept_action {use : RexUse} {q : ℤ} (hv : r.Valid now) (hpos : 0 < r.totals.totalRex)
    (ha : RexAction now use q r r') : r.WorthKept r' := by
  obtain ⟨q₀, q₁, q₂, r₀, r₁, r₂, r₃, r₄, -, h₀, h₁, h₂, h₃, h₄, hend⟩ := ha.phases
  obtain ⟨hprice, hpos₀⟩ := worthKept_opening hpos h₀
  -- the price is compared along the phases, each of which keeps the records valid
  have hv₀ := hv.opening h₀
  have hv₁ := hv₀.flow h₁
  have hv₂ := hv₁.flow h₂
  have hv₃ := hv₂.flow h₃
  have hv₄ := hv₃.flow h₄
  have hR {r : RexState} (hv : r.Valid now) : 0 ≤ r.totals.totalRex :=
    hv.pool.rex_nonneg hv.accounts
  have hS {r : RexState} (hv : r.Valid now) : 0 ≤ r.totals.totalLendable :=
    hv.pool.lendable_nonneg hv.accounts
  have hdear : r₀.Dear r₄ :=
    (((dear_flow hv₀ h₁).trans (dear_flow hv₁ h₂) (hR hv₀) (hR hv₁) (hR hv₂) (hS hv₂)).trans
      (dear_flow hv₂ h₃) (hR hv₀) (hR hv₂) (hR hv₃) (hS hv₃)).trans
      (dear_flow hv₃ h₄) (hR hv₀) (hR hv₃) (hR hv₄) (hS hv₄)
  have hend' : r₀.Dear r' := by
    rcases hend with ⟨-, rfl⟩ | ⟨q₃, hl, -⟩
    · exact hdear
    · have hv' := hv₄.event hl
      exact hdear.trans (dear_event hv₄ hl) (hR hv₀) (hR hv₄) (hR hv') (hS hv')
  exact Shares.price_trans hpos.le hpos₀ (hR (hv.action ha)) hprice hend'.price

end RexState

/-! ## Runs -/

variable {K : Type} [Field K] [LinearOrder K] [FloorRing K] [CMath K]

/-- A step after which there is REX. -/
def RexHeld (allowed : State K → Action K → Prop) (t : BlockTimestamp) (s s' : State K) : Prop :=
  Step allowed t s s' ∧ 0 < s'.rex.totals.totalRex

/-- A second purchase, after the fee for RAM has reached the pool. -/
def rexPriceRun : List (BlockTimestamp × Action ℚ) :=
  [(.ofSlot 5, .buyram ⟨1⟩ ⟨1⟩ (exampleAsset 20000)),
   (.ofSlot 1100000, .rexexec ⟨1⟩ 2),
   (.ofSlot 1100001, .buyrex ⟨1⟩ (exampleAsset 77))]

/-- A step after which there is REX, as it can be computed. -/
def execHeld (t : BlockTimestamp) (x : Action ℚ) (s : State ℚ) : Except Error (State ℚ) := do
  let s' ← Action.execIn (fun _ _ => true) t x s
  check (0 < s'.rex.totals.totalRex) "sold out"
  return s'

end EosioSystem
