import EosioSystem.Library.Shares
import EosioSystem.Rex.Accounts

/-!
# The totals of the REX pool

What the pool says about the records: its tokens are lent or not, what is lent is staked for the
loans, and its REX is that of the owners. The price of REX never falls while there is any, and the
pool is sold out only when nothing is lent.

## Main definitions

* `RexState.totals`: the pool, or nothing
* `RexState.PoolLedger`: the invariant

## Main results

* `RexState.PoolLedger.purchase`, `RexState.PoolLedger.event`: purchases and events keep it
-/

namespace EosioSystem

open Checked

/-- A pool with nothing in it. -/
def RexPool.zero : RexPool := ⟨0, 0, 0, 0, 0, 0, 0⟩

namespace RexState

/-- The totals of the pool, which are zero before there is one. -/
def totals (r : RexState) : RexPool := r.pool.getD .zero

theorem totals_eq {r : RexState} {p : RexPool} (h : r.pool = some p) : r.totals = p := by
  rw [totals, h, Option.getD_some]

/-- The tokens staked for loans. -/
def staked (r : RexState) : ℤ := r.loans.sum fun _ l => l.totalStaked

/-- The REX of all owners. -/
def held (r : RexState) : ℤ := r.balances.sum fun _ rb => rb.rexBalance

/-- The totals of the pool agree with the records. -/
structure PoolLedger (r : RexState) : Prop where
  lendable : r.totals.totalLendable = r.totals.totalUnlent + r.totals.totalLent
  lent : r.totals.totalLent = r.staked
  rex : r.totals.totalRex = r.held
  unlent_nonneg : 0 ≤ r.totals.totalUnlent
  rent_nonneg : 0 ≤ r.totals.totalRent
  ratio : r.totals.totalRex ≤ rexRatio * r.totals.totalLendable
  soldOut : r.totals.totalRex ≤ 0 → r.totals.totalLent = 0
  closed : ∀ a o, r.orders.find a = some o → o.isOpen = false → 0 ≤ o.proceeds
  returns : r.pool = none → r.ret.pool = none

variable {now : BlockTimestamp} {r r' : RexState} {p : RexPool} {owner : Name}

theorem Accounts.staked_nonneg (h : r.Accounts now) : 0 ≤ r.staked := by
  refine Table.sum_nonneg fun k l hl => ?_
  obtain ⟨h₁, h₂, -, -⟩ := h.loan k l hl
  omega

theorem Accounts.staked_le (h : r.Accounts now) {key : Resource × ℕ} {loan : RexLoan}
    (hl : r.loans.find key = some loan) : loan.totalStaked ≤ r.staked := by
  refine Table.le_sum (f := fun _ l => l.totalStaked) (fun k l hl => ?_) hl
  obtain ⟨h₁, h₂, -, -⟩ := h.loan k l hl
  omega

theorem Accounts.rexBalance_le (h : r.Accounts now) {rb : RexBalance}
    (hb : r.balances.find owner = some rb) : rb.rexBalance ≤ r.held :=
  Table.le_sum (f := fun _ rb => rb.rexBalance) (fun _ _ hb => h.rexBalance_nonneg hb) hb

theorem Accounts.held_nonneg (h : r.Accounts now) : 0 ≤ r.held :=
  Table.sum_nonneg fun _ _ hb => h.rexBalance_nonneg hb

theorem pos_of_loansAvailable (h : r.loansAvailable = true) (hp : r.pool = some p) :
    0 < p.totalRex := by
  unfold loansAvailable available at h
  rw [Bool.and_eq_true, hp] at h
  simpa using h.1

/-- The buckets of a purchase do not change the record's sum. -/
theorem buyMaturity_rexBalance (now : ℕ) (rex : ℤ) (rb : RexBalance) :
    (buyMaturity now rex rb).rexBalance = rb.rexBalance := by
  unfold buyMaturity readRexSavings putRexSavings
  dsimp only
  split
  · split_ifs <;> rfl
  · rfl

namespace PoolLedger

theorem lent_nonneg (ha : r.Accounts now) (h : r.PoolLedger) : 0 ≤ r.totals.totalLent := by
  rw [h.lent]
  exact ha.staked_nonneg

theorem lendable_nonneg (ha : r.Accounts now) (h : r.PoolLedger) :
    0 ≤ r.totals.totalLendable := by
  have h₁ := h.lent_nonneg ha
  have h₂ := h.unlent_nonneg
  rw [h.lendable]
  omega

theorem rex_nonneg (ha : r.Accounts now) (h : r.PoolLedger) : 0 ≤ r.totals.totalRex := by
  rw [h.rex]
  exact ha.held_nonneg

/-- While there is REX there are tokens. -/
theorem lendable_pos (h : r.PoolLedger) (hr : 0 < r.totals.totalRex) :
    0 < r.totals.totalLendable := by
  have := h.ratio
  unfold rexRatio at this
  omega

/-- REX is worth something, if anything. -/
theorem value_nonneg (ha : r.Accounts now) (h : r.PoolLedger) (hp : r.pool = some p) {rex : ℤ}
    (hr : 0 ≤ rex) (hne : p.totalRex ≠ 0) : 0 ≤ rex * p.totalLendable / p.totalRex := by
  have hR := h.rex_nonneg ha
  have hL := h.lendable_nonneg ha
  rw [totals_eq hp] at hR hL
  exact Shares.value_nonneg hr hL (by omega)

/-- The invariant is about the pool and the sums of the records. -/
theorem congr (h : r.PoolLedger) (hp : r'.pool = r.pool) (hl : r'.staked = r.staked)
    (hb : r'.held = r.held)
    (ho : ∀ a o, r'.orders.find a = some o → o.isOpen = false → 0 ≤ o.proceeds)
    (hr : r.pool = none → r'.ret.pool = none) : r'.PoolLedger := by
  have ht : r'.totals = r.totals := by rw [totals, totals, hp]
  exact {
    lendable := by rw [ht, h.lendable]
    lent := by rw [ht, h.lent, hl]
    rex := by rw [ht, h.rex, hb]
    unlent_nonneg := by rw [ht]; exact h.unlent_nonneg
    rent_nonneg := by rw [ht]; exact h.rent_nonneg
    ratio := by rw [ht]; exact h.ratio
    soldOut := by rw [ht]; exact h.soldOut
    closed := ho
    returns := fun hn => hr (hp ▸ hn) }

theorem closed_set (h : r.PoolLedger) {a : Name} {o : RexOrder}
    (ho : o.isOpen = false → 0 ≤ o.proceeds) :
    ∀ b o', (r.orders.set a o).find b = some o' → o'.isOpen = false → 0 ≤ o'.proceeds := by
  intro b o' hb
  rw [Table.find_set] at hb
  split_ifs at hb
  · cases hb
    exact ho
  · exact h.closed b o' hb

theorem closed_erase (h : r.PoolLedger) (a : Name) :
    ∀ b o, (r.orders.erase a).find b = some o → o.isOpen = false → 0 ≤ o.proceeds := by
  intro b o hb
  rw [Table.find_erase] at hb
  split_ifs at hb
  exact h.closed b o hb

theorem held_set {rb rb' : RexBalance} (hb : r.balances.find owner = some rb) :
    (r.balances.set owner rb').sum (fun _ rb => rb.rexBalance) =
      r.held - rb.rexBalance + rb'.rexBalance := Table.sum_set hb rb' _

/-- A record of an owner that keeps its REX. -/
theorem setBalance (h : r.PoolLedger) {rb rb' : RexBalance} (hb : r.balances.find owner = some rb)
    (he : rb'.rexBalance = rb.rexBalance) :
    ({ r with balances := r.balances.set owner rb' } : RexState).PoolLedger := by
  refine h.congr rfl rfl ?_ h.closed h.returns
  show (r.balances.set owner rb').sum _ = _
  rw [held_set hb, he]
  ring

/-- A loan that keeps its stake. -/
theorem setLoan (h : r.PoolLedger) {key : Resource × ℕ} {loan loan' : RexLoan}
    (hl : r.loans.find key = some loan) (he : loan'.totalStaked = loan.totalStaked) :
    ({ r with loans := r.loans.set key loan' } : RexState).PoolLedger := by
  refine h.congr rfl ?_ rfl h.closed h.returns
  show (r.loans.set key loan').sum _ = _
  rw [Table.sum_set hl, he, staked]
  ring

/-- **A sale** that the tokens outside of loans cover. -/
theorem afterSale (ha : r.Accounts now) (h : r.PoolLedger) {rb : RexBalance} {rex : ℤ}
    (hb : r.balances.find owner = some rb) (hrex : 0 ≤ rex) (hm : rex ≤ rb.maturedRex)
    (hp : r.pool = some p) (hr : p.totalRex ≠ 0) (hc : p.Covers rex) :
    (r.afterSale p owner rb rex).PoolLedger := by
  have hle := ha.matured_le hb
  have hheld := ha.rexBalance_le hb
  have hL := h.lendable_nonneg ha
  have hlent := h.lent_nonneg ha
  have hR := h.rex_nonneg ha
  have hrexle : rex ≤ r.totals.totalRex := by
    rw [h.rex]
    omega
  rw [totals_eq hp] at hL hlent hR hrexle
  have hpos : 0 < p.totalRex := by omega
  have hpro := Shares.value_nonneg hrex hL hpos
  have hproL := Shares.value_le hrexle hL hpos
  have hlend := h.lendable
  have hprice := Shares.sell_price (r := rex) (S := p.totalLendable) hpos
  have hratio := h.ratio
  have hlendPos := h.lendable_pos (by rw [totals_eq hp]; exact hpos)
  rw [totals_eq hp] at hlend hratio hlendPos
  unfold RexPool.Covers at hc
  have htenth : 0 ≤ p.totalLent.tdiv 10 := Int.tdiv_nonneg hlent (by norm_num)
  refine ⟨?_, ?_, ?_, ?_, ?_, ?_, ?_, h.closed, fun hn => by cases hn⟩
  · show p.totalLendable - _ = p.totalLendable - _ - p.totalLent + p.totalLent
    ring
  · have := h.lent
    rwa [totals_eq hp] at this
  · show p.totalRex - rex = (r.balances.set owner _).sum _
    have := h.rex
    rw [totals_eq hp] at this
    rw [held_set hb, this]
    ring
  · show 0 ≤ p.totalLendable - _ - p.totalLent
    omega
  · have := h.rent_nonneg
    rwa [totals_eq hp] at this
  · show p.totalRex - rex ≤ rexRatio * (p.totalLendable - _)
    exact Shares.ratio_le hlendPos (by omega) hratio hprice
  · -- who sells everything is paid everything, which is only covered when nothing is lent
    intro hz
    change p.totalRex - rex ≤ 0 at hz
    change p.totalLent = 0
    obtain rfl : rex = p.totalRex := by omega
    rw [Shares.value_all hpos] at hc
    omega

/-- The REX received for a payment. -/
theorem received_nonneg {payment rex : ℤ} {c : List ℤ}
    (hq : 0 < payment) (hp : PoolPurchase payment r.pool p rex c) : 0 ≤ rex := by
  generalize hpool : r.pool = pool at hp
  cases hp with
  | first =>
    unfold rexRatio
    omega
  | restart hr =>
    unfold rexRatio
    omega
  | @more p hr hs =>
    have hle : p.totalRex ≤ (p.totalLendable + payment) * p.totalRex / p.totalLendable := by
      rw [Int.le_ediv_iff_mul_le hs, mul_comm]
      exact mul_le_mul_of_nonneg_right (by omega) hr.le
    omega

/-- A purchase leaves its payment unlent. -/
theorem unlent_pos (h : r.PoolLedger) {payment : ℤ}
    (hp : RexPurchase now owner payment r r') : ∀ p, r'.pool = some p → 0 < p.totalUnlent := by
  cases hp with
  | @buy p rex c c' rb hq hp hr =>
    intro p' hp'
    obtain rfl : p = p' := Option.some.inj hp'
    generalize hpool : r.pool = pool at hp
    cases hp with
    | first => exact hq
    | restart => exact hq
    | @more p hpos hs =>
      have hlendable := h.lendable
      have hunlent := h.unlent_nonneg
      rw [totals_eq hpool] at hlendable hunlent
      show 0 < p.totalLendable + payment - p.totalLent
      omega

/-- **A purchase** at a price that does not fall, or the first one. -/
theorem purchase (ha : r.Accounts now) (h : r.PoolLedger) {payment : ℤ}
    (hp : RexPurchase now owner payment r r') : r'.PoolLedger := by
  cases hp with
  | @buy p rex c c' rb hq hp hr =>
    have hrex := received_nonneg hq hp
    have hheld : (r.balances.set owner (buyMaturity now.sec rex rb)).sum
        (fun _ rb => rb.rexBalance) = r.held + rex := by
      generalize hf : r.balances.find owner = row at hr
      cases hr with
      | new =>
        rw [Table.sum_set_new hf, buyMaturity_rexBalance]
        rfl
      | more hr =>
        rw [held_set hf, buyMaturity_rexBalance]
        ring
    generalize hpool : r.pool = pool at hp
    cases hp with
    | first =>
      have ht : r.totals = .zero := by rw [totals, hpool, Option.getD_none]
      have hlent := h.lent
      have hsum := h.rex
      rw [ht] at hlent hsum
      exact {
        lendable := (add_zero payment).symm
        lent := hlent
        rex := by
          refine Eq.trans ?_ hheld.symm
          rw [← hsum]
          exact (zero_add _).symm
        unlent_nonneg := hq.le
        rent_nonneg := by
          show 0 ≤ initTotalRent
          decide
        ratio := (mul_comm payment rexRatio).le
        soldOut := fun _ => rfl
        closed := h.closed
        returns := fun hn => by cases hn }
    | @restart p hempty =>
      -- an empty pool has lent nothing
      have hlent := h.lent
      have hsum := h.rex
      have hzero := h.soldOut
      have hnonneg := h.rex_nonneg ha
      rw [totals_eq hpool] at hlent hsum hzero hnonneg
      exact {
        lendable := (add_zero payment).symm
        lent := (hzero hempty).symm.trans hlent
        rex := by
          refine Eq.trans ?_ hheld.symm
          show payment * rexRatio = r.held + payment * rexRatio
          omega
        unlent_nonneg := hq.le
        rent_nonneg := by
          show 0 ≤ initTotalRent
          decide
        ratio := (mul_comm payment rexRatio).le
        soldOut := fun _ => rfl
        closed := h.closed
        returns := fun hn => by cases hn }
    | @more p hr hs =>
      have hlendable := h.lendable
      have hlent := h.lent
      have hsum := h.rex
      have hunlent := h.unlent_nonneg
      have hrent := h.rent_nonneg
      have hratio := h.ratio
      rw [totals_eq hpool] at hlendable hlent hsum hunlent hrent hratio
      exact {
        lendable := (sub_add_cancel _ _).symm
        lent := hlent
        rex := by
          refine Eq.trans ?_ hheld.symm
          show (p.totalLendable + payment) * p.totalRex / p.totalLendable = _
          omega
        unlent_nonneg := by
          show 0 ≤ p.totalLendable + payment - p.totalLent
          omega
        rent_nonneg := hrent
        ratio := by
          show (p.totalLendable + payment) * p.totalRex / p.totalLendable ≤
            rexRatio * (p.totalLendable + payment)
          exact Shares.ratio_le hs (by omega) hratio (Shares.buy_price hs)
        soldOut := by
          intro hz
          change (p.totalLendable + payment) * p.totalRex / p.totalLendable ≤ 0 at hz
          omega
        closed := h.closed
        returns := fun hn => by cases hn }

/-- A pool with the same tokens and the same REX. -/
theorem setPool (h : r.PoolLedger) (hp : r.pool = some p) {p' : RexPool}
    (h₁ : p'.totalLendable = p.totalLendable) (h₂ : p'.totalUnlent = p.totalUnlent)
    (h₃ : p'.totalLent = p.totalLent) (h₄ : p'.totalRex = p.totalRex) (h₅ : 0 ≤ p'.totalRent) :
    ({ r with pool := some p' } : RexState).PoolLedger := by
  have hlendable := h.lendable
  have hlent := h.lent
  have hsum := h.rex
  have hunlent := h.unlent_nonneg
  have hratio := h.ratio
  have hsold := h.soldOut
  rw [totals_eq hp] at hlendable hlent hsum hunlent hratio hsold
  rw [← h₁, ← h₂, ← h₃] at hlendable
  rw [← h₃] at hlent
  rw [← h₄] at hsum
  rw [← h₂] at hunlent
  rw [← h₄, ← h₁] at hratio
  rw [← h₄, ← h₃] at hsold
  exact ⟨hlendable, hlent, hsum, hunlent, h₅, hratio, hsold, h.closed, fun hn => by cases hn⟩

/-- Tokens move between the part that is lent and the part that is not, with the loans. -/
theorem relend (h : r.PoolLedger) (hp : r.pool = some p) {p' : RexPool} {d : ℤ}
    (hp' : r'.pool = some p') (hl : r'.staked = r.staked + d) (hb : r'.held = r.held)
    (ho : r'.orders = r.orders) (h₁ : p'.totalLendable = p.totalLendable)
    (h₂ : p'.totalUnlent = p.totalUnlent - d) (h₃ : p'.totalLent = p.totalLent + d)
    (h₄ : p'.totalRex = p.totalRex) (h₅ : 0 ≤ p'.totalRent) (hu : 0 ≤ p'.totalUnlent)
    (hr : 0 < p.totalRex) : r'.PoolLedger := by
  have hlendable := h.lendable
  have hlent := h.lent
  have hsum := h.rex
  have hratio := h.ratio
  rw [totals_eq hp] at hlendable hlent hsum hratio
  refine ⟨?_, ?_, ?_, ?_, ?_, ?_, ?_, fun a o hao => h.closed a o (ho ▸ hao), fun hn => ?_⟩
  case refine_8 =>
    rw [hp'] at hn
    cases hn
  all_goals rw [totals_eq hp']
  · omega
  · omega
  · rw [h₄, hsum, hb]
  · exact hu
  · exact h₅
  · rw [h₁, h₄]
    exact hratio
  · omega

/-- While there is a loan there is REX. -/
theorem rex_pos_of_loan (ha : r.Accounts now) (h : r.PoolLedger) {key : Resource × ℕ}
    {loan : RexLoan} (hl : r.loans.find key = some loan) : 0 < r.totals.totalRex := by
  by_contra hr
  have hzero := h.soldOut (not_lt.mp hr)
  have hle := ha.staked_le hl
  obtain ⟨h₁, h₂, -, -⟩ := ha.loan key loan hl
  rw [h.lent] at hzero
  omega

/-- **Every event** keeps the totals of the pool. -/
theorem event {k : RexPhase} {q : ℤ} (ha : r.Accounts now) (h : r.PoolLedger)
    (he : RexEvent now k q r r') : r'.PoolLedger := by
  cases he with
  | @settle r ret hu =>
    refine h.congr rfl rfl rfl h.closed fun hn => ?_
    simp only [RexReturn.update, h.returns hn, Prod.mk.injEq] at hu
    obtain ⟨rfl, -⟩ := hu
    exact h.returns hn
  | @distribute r p ret change hp hu hc =>
    have hlendable := h.lendable
    have hlent := h.lent
    have hsum := h.rex
    have hunlent := h.unlent_nonneg
    have hrent := h.rent_nonneg
    have hratio := h.ratio
    have hsold := h.soldOut
    rw [totals_eq hp] at hlendable hlent hsum hunlent hrent hratio hsold
    exact {
      lendable := rfl
      lent := hlent
      rex := hsum
      unlent_nonneg := by
        show 0 ≤ p.totalUnlent + change
        omega
      rent_nonneg := hrent
      ratio := by
        show p.totalRex ≤ rexRatio * (p.totalUnlent + change + p.totalLent)
        unfold rexRatio at hratio ⊢
        omega
      soldOut := hsold
      closed := h.closed
      returns := fun hn => by cases hn }
  | fee hp hr hq =>
    refine h.congr rfl rfl rfl h.closed fun hn => ?_
    rw [hp] at hn
    cases hn
  | namebid hp hr =>
    have hrent := h.rent_nonneg
    rw [totals_eq hp] at hrent
    exact h.setPool hp rfl rfl rfl rfl hrent
  | namebidsPaid hp =>
    have hrent := h.rent_nonneg
    rw [totals_eq hp] at hrent
    exact h.setPool hp rfl rfl rfl rfl hrent
  | @closeLoan r p key loan delta hl hexp hp hd =>
    obtain ⟨h₁, h₂, -, -⟩ := ha.loan key loan hl
    have hpos := h.rex_pos_of_loan ha hl
    have hlendable := h.lendable
    have hunlent := h.unlent_nonneg
    have hrent := h.rent_nonneg
    rw [totals_eq hp] at hpos hlendable hunlent hrent
    have hdelta := getBancorOutput_le hunlent hrent (by omega) hd
    refine h.relend hp (d := -loan.totalStaked) rfl ?_ rfl rfl ?_ ?_ ?_ rfl ?_ ?_ hpos
    · show (r.loans.erase key).sum _ = _
      rw [Table.sum_erase hl, staked]
      ring
    all_goals
      dsimp only
      omega
  | @renewLoan r p key loan delta rented hl hexp hp hd ho hb hr hav =>
    obtain ⟨h₁, h₂, -, -⟩ := ha.loan key loan hl
    have hlendable := h.lendable
    have hunlent := h.unlent_nonneg
    have hrent := h.rent_nonneg
    rw [totals_eq hp] at hlendable hunlent hrent
    have hdelta := getBancorOutput_le hunlent hrent (by omega) hd
    have hrented := getBancorOutput_le (by omega) (by omega) h₁.le ho
    refine h.relend hp (d := rented - loan.totalStaked) rfl ?_ rfl rfl ?_ ?_ ?_ rfl ?_ ?_
      (pos_of_loansAvailable hav hp)
    · show (r.loans.set key _).sum _ = _
      rw [Table.sum_set hl, staked]
      show _ - _ + rented = _
      ring
    all_goals
      dsimp only
      omega
  | @fill r p owner o rb ho hopen hb hp hr hc hn =>
    have hreq := ha.requested_le ho hopen hb
    have hpos := ha.requested_pos owner o ho hopen
    have hs := h.afterSale ha hb hpos.le hreq hp hr hc
    refine hs.congr rfl rfl rfl ?_ hs.returns
    exact h.closed_set fun _ => h.value_nonneg ha hp hpos.le hr
  | tryOrder => exact h.congr rfl rfl rfl h.closed h.returns
  | credit hq => exact h.congr rfl rfl rfl h.closed h.returns
  | debit hf hq hle => exact h.congr rfl rfl rfl h.closed h.returns
  | closeFund hf hl => exact h.congr rfl rfl rfl h.closed h.returns
  | sell hb hrex hm hres hp hr hc hn => exact h.afterSale ha hb hrex.le hm hp hr hc
  | trySale => exact h.congr rfl rfl rfl h.closed h.returns
  | @queue r owner rb rex hb hrex ho hm =>
    refine h.congr rfl rfl rfl (h.closed_set fun hclosed => ?_) h.returns
    cases hf : r.orders.find owner with
    | none => simp [hf] at hclosed
    | some o => simp [hf, ho o hf] at hclosed
  | cancel => exact h.congr rfl rfl rfl (h.closed_erase _) h.returns
  | collect => exact h.congr rfl rfl rfl (h.closed_erase _) h.returns
  | restake hb hp hv => exact (h.setBalance hb rfl).congr rfl rfl rfl h.closed h.returns
  | move hb hm => exact h.setBalance hb ((ha.ledger _ _ hb).moves hm).rexBalance
  | @closeBalance r owner rb hb hz ho =>
    refine h.congr rfl rfl ?_ h.closed h.returns
    show (r.balances.erase owner).sum _ = _
    rw [Table.sum_erase hb, hz, sub_zero, held]
  | fundLoan hl hq => exact h.setLoan hl rfl
  | defundLoan hl hq hle => exact h.setLoan hl rfl
  | setRent hp hq => exact h.setPool hp rfl rfl rfl rfl hq.le
  | @lend r p key loan hav hp ho hq hr hb hf hl hexp =>
    have hlendable := h.lendable
    have hunlent := h.unlent_nonneg
    have hrent := h.rent_nonneg
    rw [totals_eq hp] at hlendable hunlent hrent
    have hrented := getBancorOutput_le hrent hunlent hq.le ho
    refine h.relend hp (d := loan.totalStaked) rfl (Table.sum_set_new hl _ _) rfl rfl rfl rfl
      rfl rfl ?_ ?_ (pos_of_loansAvailable hav hp)
    all_goals
      dsimp only
      omega

end PoolLedger

end RexState

end EosioSystem
