import EosioSystem.Library.EventFlow
import EosioSystem.Rex.Maturity
import EosioSystem.Rex.ReturnLedger

/-!
# Events of the REX tables

What can happen to the REX tables, one small event at a time: tokens come into a fund or leave it,
a fee reaches the return pool, a loan is closed or renewed, REX is bought or sold. Each event names
the tokens that come into the tables with it. An action is a short sequence of events in a fixed
order: a purchase first, then the background work (what the return pool owes, expired loans,
queued orders), then the owner's own business, and a new loan at the end.

## Main definitions

* `RexPurchase`, `RexPhase`, `RexEvent`: the events
* `RexAction`: the events of one action, in their order
* `RexState.reserved`: the REX in the open sell order of an account

## Main results

* `RexState.addToRexPool_eq_ok`, `RexState.addToRexBalance_eq_ok`, `RexState.fillRexOrder_eq_ok`:
  what the functions of the contract do, as events
-/

namespace EosioSystem

open Checked

/-! ## Purchases -/

/-- What a payment does to the pool: the new pool, the REX received and the values converted. -/
inductive PoolPurchase (payment : ℤ) : Option RexPool → RexPool → ℤ → List ℤ → Prop
  | first : PoolPurchase payment none
      { totalLendable := payment
        totalLent := 0
        totalUnlent := payment
        totalRent := initTotalRent
        totalRex := payment * rexRatio
        namebidProceeds := 0
        loanNum := 0 } (payment * rexRatio) []
  /-- the pool is initialized but empty -/
  | restart {p : RexPool} (hr : p.totalRex ≤ 0) : PoolPurchase payment (some p)
      { p with
        totalLendable := payment
        totalLent := 0
        totalUnlent := payment
        totalRent := initTotalRent
        totalRex := payment * rexRatio } (payment * rexRatio) []
  | more {p : RexPool} (hr : 0 < p.totalRex) (hs : 0 < p.totalLendable) :
      PoolPurchase payment (some p)
        { p with
          totalLendable := p.totalLendable + payment
          totalRex := (p.totalLendable + payment) * p.totalRex / p.totalLendable
          totalUnlent := p.totalLendable + payment - p.totalLent }
        ((p.totalLendable + payment) * p.totalRex / p.totalLendable - p.totalRex)
        [(p.totalLendable + payment) * p.totalRex / p.totalLendable]

/-- What a payment does to the record of the owner, before its buckets change. -/
inductive RowPurchase (payment rex : ℤ) (p : RexPool) :
    Option RexBalance → RexBalance → List ℤ → Prop
  | new : RowPurchase payment rex p none
      { voteStake := payment, rexBalance := rex, maturedRex := 0, rexMaturities := [] } []
  | more {rb : RexBalance} (hr : p.totalRex ≠ 0) : RowPurchase payment rex p (some rb)
      { rb with
        rexBalance := rb.rexBalance + rex
        voteStake := (rb.rexBalance + rex) * p.totalLendable / p.totalRex }
      [(rb.rexBalance + rex) * p.totalLendable / p.totalRex]

/-- An owner buys REX for a payment that has come in. -/
inductive RexPurchase (now : BlockTimestamp) (owner : Name) (payment : ℤ) :
    RexState → RexState → Prop
  | buy {r : RexState} {p : RexPool} {rex : ℤ} {c c' : List ℤ} {rb : RexBalance}
      (hq : 0 < payment) (hp : PoolPurchase payment r.pool p rex c)
      (hr : RowPurchase payment rex p (r.balances.find owner) rb c') :
      RexPurchase now owner payment r { r with
        pool := some p
        balances := r.balances.set owner (RexState.buyMaturity now.sec rex rb)
        converted := c' ++ (c ++ r.converted)
        trades := .received owner now.sec rex :: r.trades }

namespace RexState

variable {r r' : RexState} {owner : Name} {payment rex : ℤ}

theorem addToRexPool_eq_ok (h : r.addToRexPool payment = .ok (r', rex)) :
    ∃ p c, PoolPurchase payment r.pool p rex c ∧
      r' = { r with pool := some p, converted := c ++ r.converted } := by
  unfold addToRexPool at h
  split at h
  · rename_i hp
    obtain ⟨rfl, rfl⟩ := Prod.mk.inj (pure_eq_ok.mp h)
    rw [hp]
    exact ⟨_, [], .first, rfl⟩
  · rename_i p hp
    rw [hp]
    split_ifs at h with hr
    · obtain ⟨rfl, rfl⟩ := Prod.mk.inj (pure_eq_ok.mp h)
      exact ⟨_, [], .restart hr, rfl⟩
    · simp only [check_bind_eq_ok, pure_eq_ok, Prod.mk.injEq] at h
      obtain ⟨hs, -, rfl, rfl⟩ := h
      exact ⟨_, _, .more (not_le.mp hr) hs, rfl⟩

theorem addToRexBalance_eq_ok {now : ℕ} {delta : ℤ} {p : RexPool} (hp : r.pool = some p)
    (h : r.addToRexBalance now owner payment rex = .ok (r', delta)) :
    ∃ rb c, RowPurchase payment rex p (r.balances.find owner) rb c ∧
      delta = rb.voteStake - ((r.balances.find owner).elim 0 RexBalance.voteStake) ∧
      r' = { r with
        balances := r.balances.set owner (buyMaturity now rex rb)
        converted := c ++ r.converted
        trades := .received owner now rex :: r.trades } := by
  unfold addToRexBalance at h
  split at h
  · rename_i hf
    obtain ⟨rfl, rfl⟩ := Prod.mk.inj (pure_eq_ok.mp h)
    rw [hf]
    exact ⟨_, [], .new, (sub_zero _).symm, rfl⟩
  · rename_i rb hf
    simp only [getPool, rexValue, bind_eq_ok, check_eq_ok, exists_const, require_eq_ok, pure_eq_ok,
      Prod.mk.injEq] at h
    obtain ⟨p', hp', value, ⟨hr, rfl⟩, rfl, rfl⟩ := h
    obtain rfl : p = p' := Option.some.inj (hp.symm.trans hp')
    rw [hf]
    exact ⟨_, _, .more hr, rfl, rfl⟩

/-! ## Sales -/

/-- The tables after `rex` of the REX in the record `rb` of an owner has been sold. -/
def afterSale (r : RexState) (p : RexPool) (owner : Name) (rb : RexBalance) (rex : ℤ) : RexState :=
  let proceeds := rex * p.totalLendable / p.totalRex
  let value := rb.rexBalance * p.totalLendable / p.totalRex
  { r with
    pool := some { p with
      totalRex := p.totalRex - rex
      totalLendable := p.totalLendable - proceeds
      totalUnlent := p.totalLendable - proceeds - p.totalLent }
    balances := r.balances.set owner { rb with
      voteStake := value - proceeds
      rexBalance := rb.rexBalance - rex
      maturedRex := rb.maturedRex - rex }
    converted := value :: proceeds :: r.converted
    trades := .sold owner rex :: r.trades }

end RexState

/-- The test of a sale: what it pays is at most what is not lent, less a tenth of what is. -/
def RexPool.Covers (p : RexPool) (rex : ℤ) : Prop :=
  rex * p.totalLendable / p.totalRex ≤ p.totalUnlent - p.totalLent.tdiv 10

namespace RexState

variable {r r' : RexState} {owner : Name} {rb : RexBalance} {rex : ℤ}

theorem fillRexOrder_eq_ok {o : RexOrderOutcome}
    (h : r.fillRexOrder owner rb rex = .ok (r', o)) :
    ∃ p, r.pool = some p ∧ p.totalRex ≠ 0 ∧
      (p.Covers rex ∧ r' = r.afterSale p owner rb rex ∧
          o = ⟨true, rex * p.totalLendable / p.totalRex,
            rb.rexBalance * p.totalLendable / p.totalRex -
              rex * p.totalLendable / p.totalRex - rb.voteStake⟩ ∨
        ¬p.Covers rex ∧ r' = r.convert (rex * p.totalLendable / p.totalRex) ∧
          o = ⟨false, 0, 0⟩) := by
  simp only [fillRexOrder, getPool, rexValue, bind_eq_ok, check_eq_ok, exists_const,
    require_eq_ok, pure_eq_ok] at h
  obtain ⟨p, hp, proceeds, ⟨hr, rfl⟩, h⟩ := h
  refine ⟨p, hp, hr, ?_⟩
  split_ifs at h with hc
  · simp only [bind_eq_ok, check_eq_ok, exists_const, pure_eq_ok, Prod.mk.injEq] at h
    obtain ⟨value, ⟨-, rfl⟩, rfl, rfl⟩ := h
    exact .inl ⟨hc, rfl, rfl⟩
  · obtain ⟨rfl, rfl⟩ := Prod.mk.inj (pure_eq_ok.mp h)
    exact .inr ⟨hc, rfl, rfl⟩

/-- The REX in the open sell order of an account. -/
def reserved (r : RexState) (owner : Name) : ℤ :=
  match r.orders.find owner with
  | some o => if o.isOpen then o.rexRequested else 0
  | none => 0

end RexState

/-! ## Events -/

/-- The parts of an action after a purchase. -/
inductive RexPhase
  | setup
  | loan
  | fill
  | own
  | lend

/-- An event in a phase of an action, with the tokens that come in. -/
inductive RexEvent (now : BlockTimestamp) : RexPhase → ℤ → RexState → RexState → Prop
  -- the return pool and the auction proceeds
  | settle {r : RexState} {ret : RexReturn} (h : r.ret.update now.sec = (ret, 0)) :
      RexEvent now .setup 0 r { r with ret }
  | distribute {r : RexState} {p : RexPool} {ret : RexReturn} {change : ℤ}
      (hp : r.pool = some p) (h : r.ret.update now.sec = (ret, change)) (hc : 0 < change) :
      RexEvent now .setup 0 r { r with
        ret
        pool := some { p with
          totalUnlent := p.totalUnlent + change
          totalLendable := p.totalUnlent + change + p.totalLent } }
  | fee {r : RexState} {p : RexPool} {q : ℤ} (hp : r.pool = some p) (hr : 0 < p.totalRex)
      (hq : 0 < q) : RexEvent now .setup q r { r with ret := r.ret.addFee now.sec q }
  | namebid {r : RexState} {p : RexPool} {q : ℤ} (hp : r.pool = some p) (hr : 0 < p.totalRex) :
      RexEvent now .setup 0 r { r with
        pool := some { p with namebidProceeds := p.namebidProceeds + q } }
  | namebidsPaid {r : RexState} {p : RexPool} (hp : r.pool = some p) :
      RexEvent now .setup 0 r { r with pool := some { p with namebidProceeds := 0 } }
  -- expired loans
  | closeLoan {r : RexState} {p : RexPool} {key : Resource × ℕ} {loan : RexLoan} {delta : ℤ}
      (hl : r.loans.find key = some loan) (he : loan.expiration ≤ now.usec) (hp : r.pool = some p)
      (hd : getBancorOutput p.totalUnlent p.totalRent loan.totalStaked = .ok delta) :
      RexEvent now .loan 0 r { r with
        pool := some { p with
          totalRent := p.totalRent - delta
          totalUnlent := p.totalUnlent + loan.totalStaked
          totalLent := p.totalLent - loan.totalStaked
          totalLendable := p.totalUnlent + loan.totalStaked + (p.totalLent - loan.totalStaked) }
        funds := if 0 < loan.balance then
          r.funds.set loan.sender ((r.funds.find loan.sender).getD 0 + loan.balance) else r.funds
        loans := r.loans.erase key }
  | renewLoan {r : RexState} {p : RexPool} {key : Resource × ℕ} {loan : RexLoan}
      {delta rented : ℤ}
      (hl : r.loans.find key = some loan) (he : loan.expiration ≤ now.usec) (hp : r.pool = some p)
      (hd : getBancorOutput p.totalUnlent p.totalRent loan.totalStaked = .ok delta)
      (ho : getBancorOutput (p.totalRent - delta) (p.totalUnlent + loan.totalStaked)
        loan.payment = .ok rented)
      (hb : loan.payment ≤ loan.balance) (hr : loan.payment < rented)
      (ha : r.loansAvailable = true) :
      RexEvent now .loan 0 r { r with
        ret := r.ret.addFee now.sec loan.payment
        pool := some { p with
          totalRent := p.totalRent - delta + loan.payment
          totalUnlent := p.totalUnlent + loan.totalStaked - rented
          totalLent := p.totalLent - loan.totalStaked + rented
          totalLendable := p.totalUnlent + loan.totalStaked + (p.totalLent - loan.totalStaked) }
        loans := r.loans.set key (RexState.updateRenewedLoan loan rented)
        leftUnlent := (p.totalUnlent + loan.totalStaked - rented) :: r.leftUnlent }
  -- queued orders
  | fill {r : RexState} {p : RexPool} {owner : Name} {o : RexOrder} {rb : RexBalance}
      (ho : r.orders.find owner = some o) (hopen : o.isOpen = true)
      (hb : r.balances.find owner = some rb) (hp : r.pool = some p) (hr : p.totalRex ≠ 0)
      (hc : p.Covers o.rexRequested) (hn : p.namebidProceeds ≤ 0) :
      RexEvent now .fill 0 r { r.afterSale p owner rb o.rexRequested with
        orders := r.orders.set owner { o with
          proceeds := o.rexRequested * p.totalLendable / p.totalRex
          stakeChange := rb.rexBalance * p.totalLendable / p.totalRex -
            o.rexRequested * p.totalLendable / p.totalRex - rb.voteStake
          isOpen := false } }
  | tryOrder {r : RexState} {p : RexPool} {owner : Name} {o : RexOrder} {rb : RexBalance}
      (ho : r.orders.find owner = some o) (hopen : o.isOpen = true)
      (hb : r.balances.find owner = some rb) (hp : r.pool = some p) (hr : p.totalRex ≠ 0)
      (hc : ¬p.Covers o.rexRequested) :
      RexEvent now .fill 0 r (r.convert (o.rexRequested * p.totalLendable / p.totalRex))
  -- the owner's fund
  | credit {r : RexState} {owner : Name} {q : ℤ} (hq : 0 < q) :
      RexEvent now .own q r { r with
        funds := r.funds.set owner ((r.funds.find owner).getD 0 + q) }
  | debit {r : RexState} {owner : Name} {q b : ℤ} (hf : r.funds.find owner = some b)
      (hq : 0 < q) (hle : q ≤ b) :
      RexEvent now .own (-q) r { r with funds := r.funds.set owner (b - q) }
  | closeFund {r : RexState} {owner : Name} (hf : r.funds.find owner = some 0)
      (hl : r.hasLoan owner = false) :
      RexEvent now .own 0 r { r with funds := r.funds.erase owner }
  -- the owner's sell order
  | sell {r : RexState} {p : RexPool} {owner : Name} {rb : RexBalance} {rex : ℤ}
      (hb : r.balances.find owner = some rb) (hrex : 0 < rex) (hm : rex ≤ rb.maturedRex)
      (hres : r.reserved owner ≤ rb.maturedRex - rex) (hp : r.pool = some p)
      (hr : p.totalRex ≠ 0) (hc : p.Covers rex) (hn : p.namebidProceeds ≤ 0) :
      RexEvent now .own (-(rex * p.totalLendable / p.totalRex)) r (r.afterSale p owner rb rex)
  | trySale {r : RexState} {p : RexPool} {owner : Name} {rb : RexBalance} {rex : ℤ}
      (hb : r.balances.find owner = some rb) (hrex : 0 < rex) (hm : rex ≤ rb.maturedRex)
      (hp : r.pool = some p) (hr : p.totalRex ≠ 0) (hc : ¬p.Covers rex) :
      RexEvent now .own 0 r (r.convert (rex * p.totalLendable / p.totalRex))
  | queue {r : RexState} {owner : Name} {rb : RexBalance} {rex : ℤ}
      (hb : r.balances.find owner = some rb) (hrex : 0 < rex)
      (ho : ∀ o, r.orders.find owner = some o → o.isOpen = true)
      (hm : (r.queueOrder now.usec owner rex).2 ≤ rb.maturedRex) :
      RexEvent now .own 0 r (r.queueOrder now.usec owner rex).1
  | cancel {r : RexState} {owner : Name} {o : RexOrder} (ho : r.orders.find owner = some o)
      (hopen : o.isOpen = true) :
      RexEvent now .own 0 r { r with orders := r.orders.erase owner }
  | collect {r : RexState} {owner : Name} {o : RexOrder} (ho : r.orders.find owner = some o)
      (hopen : o.isOpen = false) :
      RexEvent now .own (-o.proceeds) r { r with orders := r.orders.erase owner }
  -- the owner's record
  | restake {r : RexState} {p : RexPool} {owner : Name} {rb : RexBalance} {value : ℤ}
      (hb : r.balances.find owner = some rb) (hp : r.pool = some p)
      (hv : 0 < p.totalRex ∧ value = rb.rexBalance * p.totalLendable / p.totalRex ∨
        p.totalRex ≤ 0 ∧ value = 0) :
      RexEvent now .own 0 r { r.convert value with
        balances := r.balances.set owner { rb with voteStake := value } }
  | move {r : RexState} {owner : Name} {rb rb' : RexBalance}
      (hb : r.balances.find owner = some rb)
      (hm : RexBalance.Moves now.sec (r.reserved owner) rb rb') :
      RexEvent now .own 0 r { r with balances := r.balances.set owner rb' }
  | closeBalance {r : RexState} {owner : Name} {rb : RexBalance}
      (hb : r.balances.find owner = some rb) (hz : rb.rexBalance = 0)
      (ho : ∀ o, r.orders.find owner = some o → o.isOpen = true) :
      RexEvent now .own 0 r { r with balances := r.balances.erase owner }
  -- loans and the rent price
  | fundLoan {r : RexState} {key : Resource × ℕ} {loan : RexLoan} {q : ℤ}
      (hl : r.loans.find key = some loan) (hq : 0 < q) :
      RexEvent now .own q r { r with
        loans := r.loans.set key { loan with balance := loan.balance + q } }
  | defundLoan {r : RexState} {key : Resource × ℕ} {loan : RexLoan} {q : ℤ}
      (hl : r.loans.find key = some loan) (hq : 0 < q) (hle : q ≤ loan.balance) :
      RexEvent now .own (-q) r { r with
        loans := r.loans.set key { loan with balance := loan.balance - q } }
  | setRent {r : RexState} {p : RexPool} {q : ℤ} (hp : r.pool = some p) (hq : 0 < q) :
      RexEvent now .own 0 r { r with pool := some { p with totalRent := q } }
  | lend {r : RexState} {p : RexPool} {key : Resource × ℕ} {loan : RexLoan}
      (ha : r.loansAvailable = true) (hp : r.pool = some p)
      (ho : getBancorOutput p.totalRent p.totalUnlent loan.payment = .ok loan.totalStaked)
      (hq : 0 < loan.payment) (hr : loan.payment < loan.totalStaked) (hb : 0 ≤ loan.balance)
      (hf : (r.funds.find loan.sender).isSome) (hl : r.loans.find key = none)
      (he : loan.expiration = now.usec + loanPeriod) :
      RexEvent now .lend (loan.payment + loan.balance) r { r with
        ret := r.ret.addFee now.sec loan.payment
        pool := some { p with
          totalRent := p.totalRent + loan.payment
          totalUnlent := p.totalUnlent - loan.totalStaked
          totalLent := p.totalLent + loan.totalStaked
          loanNum := p.loanNum + 1 }
        loans := r.loans.set key loan
        leftUnlent := (p.totalUnlent - loan.totalStaked) :: r.leftUnlent }

/-- What an action begins with: nothing, or a purchase from the owner's fund or with tokens that
come in. -/
inductive RexOpening (now : BlockTimestamp) : ℤ → RexState → RexState → Prop
  | none {r : RexState} : RexOpening now 0 r r
  | fromFund {r r' : RexState} {owner : Name} {payment b : ℤ}
      (hf : r.funds.find owner = some b) (hle : payment ≤ b)
      (h : RexPurchase now owner payment { r with funds := r.funds.set owner (b - payment) } r') :
      RexOpening now 0 r r'
  | fromStake {r r' : RexState} {owner : Name} {payment : ℤ}
      (h : RexPurchase now owner payment r r') : RexOpening now payment r r'

/-- What an action does with REX beside the owner's own business: a purchase, background work. -/
structure RexUse where
  buys : Bool
  maintains : Bool

/-- A purchase, with background work. -/
def RexUse.purchase : RexUse := ⟨true, true⟩

/-- Background work without a purchase. -/
def RexUse.work : RexUse := ⟨false, true⟩

/-- What is known of the first phases of an action: there is a purchase or background work only if
the action is for it, and loans are processed after the purchase has brought tokens and the return
pool has paid what it owes. -/
structure RexUse.Admits (use : RexUse) (now : BlockTimestamp) (q₀ : ℤ) (r r₀ r₁ r₂ : RexState) :
    Prop where
  opening : use.buys = false → q₀ = 0 ∧ r₀ = r
  loans : use.maintains = false → r₂ = r₁
  due : r₂ = r₁ ∨ (use.buys = true → ∀ p, r₀.pool = some p → 0 < p.totalUnlent) ∧
    ∀ p, r₁.pool = some p → (r₀.ret.update now.sec).2 ≤ p.totalUnlent

/-- The events of an action, in their order, with the tokens that come in with the purchase and
after it. -/
structure RexAction (now : BlockTimestamp) (use : RexUse) (q : ℤ) (r r' : RexState) : Prop where
  phases : ∃ q₀ q₁ q₂ r₀ r₁ r₂ r₃ r₄, use.Admits now q₀ r r₀ r₁ r₂ ∧ RexOpening now q₀ r r₀ ∧
    EventFlow (RexEvent now .setup) q₁ q₁ r₀ r₁ ∧ EventFlow (RexEvent now .loan) 0 0 r₁ r₂ ∧
    EventFlow (RexEvent now .fill) 0 0 r₂ r₃ ∧ EventFlow (RexEvent now .own) (max 0 q₂) q₂ r₃ r₄ ∧
    (q₂ + q₁ + q₀ = q ∧ r' = r₄ ∨ ∃ q₃, RexEvent now .lend q₃ r₄ r' ∧ q₃ + q₂ + q₁ + q₀ = q)

end EosioSystem
