import EosioSystem.PowerupQueue
import EosioSystem.NameLedger
import EosioSystem.Rex.Orders

/-!
# Removals never fail

What a loan, an order or a delegation has added to the row of an account is still there when it is
taken away, so no removal is refused. The background work of REX, which most of its actions begin
with, completes in every reachable state: no division by zero, no row that lacks weight, no transfer
that is not covered.

## Main definitions

* `totalsErrors`: the errors of a row that lacks what is taken from it
* `MaintenanceStart`: a chain on which nothing has happened yet

## Main results

* `State.exists_processLoans`, `State.exists_channelNamebids`: the parts of the background work
* `State.runrex_totals`, `State.Backed.exists_changeTotals`: no row lacks what is taken
* `runrex_of_run`: **the background work completes**
* `resourceTotals_of_run`: **the totals are backed**, and no removal is refused
-/

namespace EosioSystem

open Checked PowerupTables

variable {K : Type}

/-! ## Rows -/

namespace ResourceState

variable {rs : ResourceState} {a : Name} {net cpu : ℤ} {m : Managed}

theorem weightOf_of_none (h : rs.userres.find a = none) (kind : Resource) :
    rs.weightOf kind a = 0 := by
  rw [weightOf, row, h]
  cases kind <;> rfl

/-- **A change of a loan** is not refused if no row lacks the amount. -/
theorem exists_updateResourceLimits (h : ∀ kind, 0 ≤ rs.weightOf kind a + kind.pick net cpu) :
    ∃ rs', rs.updateResourceLimits m a net cpu = .ok rs' := by
  unfold updateResourceLimits
  split_ifs
  · exact ⟨rs, rfl⟩
  · obtain ⟨tot, ha⟩ := exists_addWeights h
    simp only [bind_eq_ok, check_eq_ok, exists_const, pure_eq_ok, ha]
    refine ⟨_, ?_, tot, rfl, rfl⟩
    -- an account without a row has no weight to lose
    refine (Classical.em (rs.userres.find a = none)).symm.imp_right fun hf => ?_
    have hnet := h .net
    have hcpu := h .cpu
    rw [weightOf_of_none hf, zero_add] at hnet hcpu
    exact ⟨hnet, hcpu⟩

/-- A change of a delegation is not refused either. -/
theorem exists_changeTotals (h : ∀ kind, 0 ≤ rs.weightOf kind a + kind.pick net cpu) :
    ∃ rs', rs.changeTotals m a net cpu = .ok rs' := by
  obtain ⟨tot, ha⟩ := exists_addWeights h
  simp only [changeTotals, bind_eq_ok, pure_eq_ok]
  exact ⟨_, tot, ha, rfl⟩

end ResourceState

theorem exists_getBancorOutput {a b q : ℤ} (h : a + q ≠ 0) :
    ∃ out, getBancorOutput a b q = .ok out := by
  simp only [getBancorOutput, bind_eq_ok, check_eq_ok, exists_const, pure_eq_ok]
  exact ⟨_, h, rfl⟩

/-! ## The REX tables -/

namespace RexState

variable {now : BlockTimestamp} {r : RexState} {p : RexPool} {key : Resource × ℕ} {loan : RexLoan}

theorem find_of_firstLoan {kind : Resource} (h : r.firstLoan kind = some (key, loan)) :
    r.loans.find key = some loan ∧ key.1 = kind := by
  have hrow := Table.find_of_first h
  rw [Table.find_filter, Option.filter_eq_some_iff] at hrow
  exact hrow.imp_right of_decide_eq_true

/-- While there is a loan there is a pool. -/
theorem exists_pool_of_loan (hv : r.Valid now) (hl : r.loans.find key = some loan) :
    ∃ p, r.pool = some p := by
  have hpos := hv.pool.rex_pos_of_loan hv.accounts hl
  cases hp : r.pool with
  | none =>
    rw [totals, hp] at hpos
    exact absurd hpos (lt_irrefl _)
  | some p => exact ⟨p, rfl⟩

/-- **An expired loan** is closed or renewed without a check that fails. -/
theorem exists_processExpiredLoan (hv : r.Valid now) (hr : r.Ready now)
    (hl : r.loans.find key = some loan) :
    ∃ x, r.processExpiredLoan now.sec key loan = .ok x := by
  obtain ⟨p, hp⟩ := exists_pool_of_loan hv hl
  obtain ⟨hpay, hstake, -, -⟩ := hv.accounts.loan key loan hl
  have hunlent := hv.pool.unlent_nonneg
  have hrent := hv.pool.rent_nonneg
  rw [totals_eq hp] at hunlent hrent
  obtain ⟨delta, hd⟩ : ∃ delta, getBancorOutput p.totalUnlent p.totalRent loan.totalStaked =
    .ok delta := exists_getBancorOutput (by omega)
  -- what is taken off the rent leaves it nonnegative, so the price of the rent is defined
  have hdelta := getBancorOutput_le hunlent hrent (by omega) hd
  obtain ⟨r₁, p₁, hremove, hp₁, hret, hrent₁, hunlent₁⟩ : ∃ r₁ p₁,
      r.removeLoanFromRexPool loan = .ok r₁ ∧ r₁.pool = some p₁ ∧ r₁.ret = r.ret ∧
        p₁.totalRent = p.totalRent - delta ∧ p₁.totalUnlent = p.totalUnlent + loan.totalStaked := by
    simp only [removeLoanFromRexPool, getPool, bind_eq_ok, require_eq_ok, pure_eq_ok]
    exact ⟨_, _, ⟨p, hp, delta, hd, rfl⟩, rfl, rfl, rfl, rfl⟩
  obtain ⟨rented, ho⟩ : ∃ rented, rentTokens p₁ loan.payment = .ok rented :=
    exists_getBancorOutput (by omega)
  refine exists_bind_ok hremove (exists_bind_ok (require_eq_ok.mpr hp₁) (exists_bind_ok ho ?_))
  split_ifs with hc hb
  · -- the loan pays for another term
    obtain ⟨r', hr'⟩ : ∃ r', r₁.addLoanToRexPool now.sec loan.payment rented false = .ok r' := by
      simp only [addLoanToRexPool, getPool, bind_eq_ok, require_eq_ok, pure_eq_ok]
      exact ⟨_, _, addToRexReturnPool_settled (hret ▸ hr.settled) hpay, p₁, hp₁, rfl⟩
    exact exists_bind_ok hr' ⟨_, rfl⟩
  · -- what is left of its balance is returned
    obtain ⟨r', hr'⟩ : ∃ r', r₁.transferToFund loan.sender loan.balance = .ok r' := by
      simp only [transferToFund, bind_eq_ok, check_eq_ok, exists_const, pure_eq_ok]
      exact ⟨_, hb, rfl⟩
    exact exists_bind_ok hr' ⟨_, rfl⟩
  · exact exists_bind_ok rfl ⟨_, rfl⟩

/-- What the return pool owes is owed to a pool that exists. -/
theorem exists_updateRexPool (t : ℕ) {p : RexPool} (hp : r.pool = some p) :
    ∃ r', r.updateRexPool t = .ok r' := by
  unfold updateRexPool
  dsimp only
  split_ifs
  · exact ⟨_, by rw [getPool, hp]; rfl⟩
  · exact ⟨_, rfl⟩

/-- **A queued order** is filled or waits: there is REX, and its owner has a record. -/
theorem exists_fillQueuedOrder (hv : r.Valid now) {a : Name} {o : RexOrder}
    (ho : r.orders.find a = some o) (hopen : o.isOpen = true) :
    ∃ r', r.fillQueuedOrder a = .ok r' := by
  obtain ⟨rb, hb⟩ := hv.accounts.owner a o ho
  obtain ⟨p, hp, hpos⟩ := pool_of_open hv ho hopen
  have hvalue (rex : ℤ) : rexValue rex p.totalLendable p.totalRex =
      .ok (rex * p.totalLendable / p.totalRex) := by
    rw [rexValue, check_of hpos.ne']
    rfl
  obtain ⟨x, hx⟩ : ∃ x, r.fillRexOrder a rb o.rexRequested = .ok x := by
    refine exists_bind_ok (require_eq_ok.mpr hp) (exists_bind_ok (hvalue _) ?_)
    dsimp only
    split_ifs
    · exact exists_bind_ok (hvalue _) ⟨_, rfl⟩
    · exact ⟨_, rfl⟩
  unfold fillQueuedOrder
  rw [ho, hb]
  refine exists_bind_ok hx ?_
  dsimp only
  split_ifs <;> exact ⟨_, rfl⟩

theorem exists_fillQueuedOrders {l : List Name} (hv : r.Valid now) (hr : r.Ready now)
    (hl : l.Nodup) (hopen : ∀ a ∈ l, ∃ o, r.orders.find a = some o ∧ o.isOpen = true) :
    ∃ r', r.fillQueuedOrders l = .ok r' := by
  induction l generalizing r with
  | nil => exact ⟨r, rfl⟩
  | cons a l ih =>
    obtain ⟨o, ho, hopen₁⟩ := hopen a List.mem_cons_self
    obtain ⟨r₁, h₁⟩ := exists_fillQueuedOrder hv ho hopen₁
    obtain ⟨hf₁, hr₁, hframe⟩ := fillQueuedOrder_event hr ho hopen₁ h₁
    refine exists_bind_ok h₁ (ih (hv.flow hf₁) hr₁ (List.nodup_cons.mp hl).2 fun b hb => ?_)
    rw [hframe b fun he => (List.nodup_cons.mp hl).1 (he ▸ hb)]
    exact hopen b (List.mem_cons_of_mem _ hb)

end RexState

/-! ## Loans -/

namespace State

variable {s s' : State K} {now : BlockTimestamp}

/-- An account has at least what is staked to it by a loan. -/
theorem Backed.totalStaked_le (h : s.Backed) (hn : OrdersNonneg s.powup.orders)
    (hu : ∀ kind, 0 ≤ s.powup.unsold kind) {key : Resource × ℕ} {loan : RexLoan}
    (hl : s.rex.loans.find key = some loan) :
    loan.totalStaked ≤ s.res.weightOf key.1 loan.receiver := by
  have hle : loan.totalStaked ≤ s.rex.lentTo key.1 loan.receiver := by
    have hsum := Table.le_sum (f := fun k l =>
      if k.1 = key.1 ∧ l.receiver = loan.receiver then l.totalStaked else 0) (fun k l hk => ?_) hl
    · rwa [if_pos ⟨rfl, rfl⟩] at hsum
    · split_ifs
      · exact h.lent k l hk
      · exact le_rfl
  have hd := StakeState.delegatedTo_nonneg h.delegated key.1 loan.receiver
  have ho := soldTo_nonneg hn key.1 loan.receiver
  have hk := hu key.1
  rw [h.weight, backing]
  split_ifs <;> omega

theorem Backed.weightOf_nonneg (h : s.Backed) (hn : OrdersNonneg s.powup.orders)
    (hu : ∀ kind, 0 ≤ s.powup.unsold kind) (kind : Resource) (a : Name) :
    0 ≤ s.res.weightOf kind a := (soldTo_nonneg hn kind a).trans (h.soldTo_le hu kind a)

/-- **The row of an expired loan** can be changed. -/
theorem Backed.exists_loanUpdate (hb : s.Backed) (hn : OrdersNonneg s.powup.orders)
    (hu : ∀ kind, 0 ≤ s.powup.unsold kind) {kind : Resource} {key : Resource × ℕ} {loan : RexLoan}
    {x : RexState × Bool × ℤ} (hf : s.rex.firstLoan kind = some (key, loan))
    (hx : s.rex.processExpiredLoan now.sec key loan = .ok x) :
    ∃ res, s.updateLimits kind loan.receiver x.2.2 = .ok res := by
  obtain ⟨rex, deleteLoan, deltaStake⟩ := x
  obtain ⟨hl, rfl⟩ := RexState.find_of_firstLoan hf
  -- the receiver has at least what is taken
  have hle := hb.totalStaked_le hn hu hl
  have hdelta : -loan.totalStaked ≤ deltaStake := by
    rcases RexState.processExpiredLoan_loans hx with ⟨-, -, rfl⟩ | ⟨-, rented, hpos, -, rfl⟩
    · exact le_rfl
    · omega
  refine ResourceState.exists_updateResourceLimits fun kind => ?_
  have hnonneg := hb.weightOf_nonneg hn hu kind loan.receiver
  rw [Resource.pick_weights]
  dsimp only
  split_ifs with hk
  · subst hk
    omega
  · omega

/-- The first loan has expired. -/
theorem processLoans_expired {kind : Resource} {key : Resource × ℕ} {loan : RexLoan}
    {rex : RexState} {deleteLoan : Bool} {deltaStake : ℤ} {res : ResourceState}
    (hf : s.rex.firstLoan kind = some (key, loan)) (he : ¬now.usec < loan.expiration)
    (hx : s.rex.processExpiredLoan now.sec key loan = .ok (rex, deleteLoan, deltaStake))
    (hres : s.updateLimits kind loan.receiver deltaStake = .ok res) (max : ℕ) :
    s.processLoans now kind (max + 1) = ({ s with
      rex := if deleteLoan then { rex with loans := rex.loans.erase key } else rex
      res } : State K).processLoans now kind max := by
  rw [processLoans, hf]
  dsimp only
  rw [if_neg he, hx]
  show (s.updateLimits kind loan.receiver deltaStake >>= _) = _
  rw [hres]
  rfl

/-- **Expired loans** are closed or renewed without a check that fails. -/
theorem exists_processLoans (hb : s.Backed) (hn : OrdersNonneg s.powup.orders)
    (hu : ∀ kind, 0 ≤ s.powup.unsold kind) (hv : s.rex.Valid now) (hr : s.rex.Ready now)
    (kind : Resource) (max : ℕ) : ∃ s', s.processLoans now kind max = .ok s' := by
  induction max generalizing s with
  | zero => exact ⟨s, rfl⟩
  | succ max ih =>
    cases hf : s.rex.firstLoan kind with
    | none =>
      refine ⟨s, ?_⟩
      rw [processLoans, hf]
      rfl
    | some first =>
      obtain ⟨key, loan⟩ := first
      by_cases he : now.usec < loan.expiration
      · refine ⟨s, ?_⟩
        rw [processLoans, hf]
        exact if_pos he
      · obtain ⟨hl, -⟩ := RexState.find_of_firstLoan hf
        obtain ⟨⟨rex, deleteLoan, deltaStake⟩, hx⟩ :=
          RexState.exists_processExpiredLoan hv hr hl
        obtain ⟨res, hres⟩ := hb.exists_loanUpdate hn hu hf hx
        -- one loan is a round of its own
        have hone := processLoans_expired hf he hx hres 0
        obtain ⟨hflow, hready⟩ := processLoans_flow hv hr hone
        obtain ⟨s', h'⟩ := ih (hb.processLoans hone) hn hu (hv.flow hflow) hready
        exact ⟨s', (processLoans_expired hf he hx hres max).trans h'⟩

/-- **The proceeds of name auctions** are passed on. -/
theorem exists_channelNamebids (hset : s.rex.ret.Settled now.sec) {p : RexPool}
    (hp : s.rex.pool = some p) (hdue : s.rex.NamebidsDue)
    (hle : s.rex.namebids ≤ s.token.balance namesAccount) :
    ∃ s', s.channelNamebids now = .ok s' := by
  refine exists_bind_ok (require_eq_ok.mpr hp) ?_
  rw [RexState.namebids_eq hp] at hle
  split_ifs with hn
  · have hav : s.rex.available = true := hdue (by rwa [RexState.namebids_eq hp])
    have hadd := RexState.addToRexReturnPool_settled hset hn
    have ht := Token.transfer_isOk (b := rexAccount) (by decide) hn hle
    obtain ⟨s₁, hs₁, hp₁⟩ : ∃ s₁, s.channelToRex now namesAccount p.namebidProceeds = .ok s₁ ∧
        s₁.rex.pool = some p := by
      rw [channelToRex, if_pos hav, hadd]
      show ∃ s₁, (s.token.transfer namesAccount rexAccount p.namebidProceeds >>= _) = _ ∧ _
      rw [ht]
      exact ⟨_, rfl, hp⟩
    exact exists_bind_ok hs₁ (exists_bind_ok (require_eq_ok.mpr hp₁) ⟨_, rfl⟩)
  · exact ⟨s, rfl⟩

/-- **The background work completes**, at any time and with any limit. -/
theorem exists_runrex (hb : s.Backed) (hn : OrdersNonneg s.powup.orders)
    (hu : ∀ kind, 0 ≤ s.powup.unsold kind) (hv : s.rex.Valid now) (hdue : s.rex.NamebidsDue)
    (hle : s.rex.namebids ≤ s.token.balance namesAccount) (hinit : s.rex.initialized = true)
    (max : ℕ) : ∃ s', s.runrex now max = .ok s' := by
  obtain ⟨p, hp⟩ := Option.isSome_iff_exists.mp hinit
  obtain ⟨rex, hrex⟩ := s.rex.exists_updateRexPool now.sec hp
  have hevent := RexState.updateRexPool_event hrex
  obtain ⟨hset, -⟩ := RexState.updateRexPool_settled hv.ret hrex
  have hnamebids := RexState.updateRexPool_namebids hrex
  have hloans := RexState.loans_updateRexPool hrex
  obtain ⟨p₁, hp₁⟩ : ∃ p₁, rex.pool = some p₁ := by
    obtain ⟨ret, change, -, ⟨-, rfl⟩ | ⟨-, p₁, -, rfl⟩⟩ := RexState.updateRexPool_eq_ok hrex
    · exact ⟨p, hp⟩
    · exact ⟨_, rfl⟩
  obtain ⟨s₁, h₁⟩ := exists_channelNamebids (s := { s with rex }) hset hp₁ (hdue.event hevent)
    (hnamebids.le.trans hle)
  obtain ⟨q, hf₁, hr₁, -, -⟩ := setup_flow hv hrex h₁
  have hloans₁ := loans_channelNamebids h₁
  obtain ⟨token, rex₁, rfl, -⟩ := channelNamebids_frame h₁
  have hv₁ := hv.flow hf₁
  have hb₁ : ({ s with rex := rex₁, token } : State K).Backed :=
    hb.congr (fun _ _ => rfl) rfl (hloans₁.trans hloans) rfl
  -- the loans of the two resources, one after the other
  obtain ⟨s₂, h₂⟩ := exists_processLoans hb₁ hn hu hv₁ hr₁ .cpu max
  obtain ⟨hf₂, hr₂⟩ := processLoans_flow hv₁ hr₁ h₂
  have hb₂ := hb₁.processLoans h₂
  obtain ⟨rex₂, res₂, rfl⟩ := processLoans_frame h₂
  have hv₂ := hv₁.flow hf₂
  obtain ⟨s₃, h₃⟩ := exists_processLoans hb₂ hn hu hv₂ hr₂ .net max
  obtain ⟨hf₃, hr₃⟩ := processLoans_flow hv₂ hr₂ h₃
  obtain ⟨r', h₄⟩ := RexState.exists_fillQueuedOrders (hv₂.flow hf₃) hr₃
    ((RexState.nodup_openOrders _).sublist (List.take_sublist max _))
    fun a ha => RexState.mem_openOrders.mp (List.mem_of_mem_take ha)
  exact exists_bind_ok (check_of hinit) (exists_bind_ok hrex (exists_bind_ok h₁ (exists_bind_ok h₂
    (exists_bind_ok h₃ (exists_bind_ok h₄ ⟨_, rfl⟩)))))

end State

/-! ## Removals -/

/-- The errors of a row that lacks what is taken from it. -/
def totalsErrors : List Error :=
  ["insufficient staked total net bandwidth", "insufficient staked total cpu bandwidth",
    "logic error, should not occur"]

section

variable {s : State K} {now : BlockTimestamp}

/-- An account has at least what is delegated to it. -/
theorem State.Backed.delegatedTo_le (h : s.Backed) (hn : OrdersNonneg s.powup.orders)
    (hu : ∀ kind, 0 ≤ s.powup.unsold kind) (kind : Resource) (a : Name) :
    s.stake.delegatedTo kind a ≤ s.res.weightOf kind a := by
  have hl := RexState.lentTo_nonneg h.lent kind a
  have ho := soldTo_nonneg hn kind a
  have hk := hu kind
  rw [h.weight, State.backing]
  split_ifs <;> omega

/-- **A delegation** that can be changed is in the row of its receiver. -/
theorem State.Backed.exists_changeTotals (h : s.Backed) (hn : OrdersNonneg s.powup.orders)
    (hu : ∀ kind, 0 ≤ s.powup.unsold kind) {owner receiver : Name} {net cpu : ℤ}
    {stake : StakeState} (hc : s.stake.changeDelband owner receiver net cpu = .ok stake)
    (m : Managed) : ∃ res, s.res.changeTotals m receiver net cpu = .ok res := by
  obtain ⟨hnonneg, hto⟩ := StakeState.changeDelband_delegatedTo h.delegated hc
  refine ResourceState.exists_changeTotals fun kind => ?_
  have hle := h.delegatedTo_le hn hu kind receiver
  have hafter := StakeState.delegatedTo_nonneg hnonneg kind receiver
  rw [hto, if_pos rfl] at hafter
  omega

/-- Stake that can be taken out of a delegation is in the row of its receiver. -/
theorem State.Backed.exists_unstake (h : s.Backed) (hn : OrdersNonneg s.powup.orders)
    (hu : ∀ kind, 0 ≤ s.powup.unsold kind) {owner receiver : Name} {net cpu : ℤ}
    {stake : StakeState} (hc : State.unstakeDelband s.stake owner receiver net cpu = .ok stake)
    (m : Managed) : ∃ res, s.res.updateResourceLimits m receiver (-net) (-cpu) = .ok res := by
  obtain ⟨hnonneg, hto⟩ := StakeState.unstakeDelband_delegatedTo h.delegated hc
  refine ResourceState.exists_updateResourceLimits fun kind => ?_
  have hle := h.delegatedTo_le hn hu kind receiver
  have hafter := StakeState.delegatedTo_nonneg hnonneg kind receiver
  rw [hto, if_pos rfl] at hafter
  omega

theorem RexState.addToRexReturnPool_totals (r : RexState) (t : ℕ) (fee : ℤ) :
    Avoids totalsErrors (r.addToRexReturnPool t fee) := by
  refine .bind ?_ fun _ _ => .pure _
  unfold updateRexPool
  exact .ite (.bind (.require (by decide)) fun _ _ => .pure _) (.pure _)

/-- No step of an expired loan is about a row. -/
theorem RexState.processExpiredLoan_totals (r : RexState) (t : ℕ) (key : Resource × ℕ)
    (loan : RexLoan) : Avoids totalsErrors (r.processExpiredLoan t key loan) := by
  have hpool (r : RexState) : Avoids totalsErrors r.getPool := .require (by decide)
  have hout (a b q : ℤ) : Avoids totalsErrors (getBancorOutput a b q) :=
    .bind (.check (.inl (by decide))) fun _ _ => .pure _
  refine .bind ?_ fun _ _ => .bind (hpool _) fun _ _ => .bind (hout _ _ _) fun _ _ => .ite ?_ ?_
  · exact .bind (hpool _) fun _ _ => .bind (hout _ _ _) fun _ _ => .pure _
  · refine .bind ?_ fun _ _ => .pure _
    exact .bind (addToRexReturnPool_totals _ _ _) fun _ _ => .bind (hpool _) fun _ _ => .pure _
  · refine .bind (.ite ?_ (.pure _)) fun _ _ => .pure _
    exact .bind (.check (.inl (by decide))) fun _ _ => .pure _

theorem RexState.fillQueuedOrders_totals (r : RexState) (l : List Name) :
    Avoids totalsErrors (r.fillQueuedOrders l) := by
  have hvalue (a b c : ℤ) : Avoids totalsErrors (rexValue a b c) :=
    .bind (.check (.inl (by decide))) fun _ _ => .pure _
  have hfill (r : RexState) (owner : Name) (rb : RexBalance) (rex : ℤ) :
      Avoids totalsErrors (r.fillRexOrder owner rb rex) :=
    .bind (.require (by decide)) fun _ _ => .bind (hvalue _ _ _) fun _ _ =>
      .ite (.bind (hvalue _ _ _) fun _ _ => .pure _) (.pure _)
  induction l generalizing r with
  | nil => exact .pure _
  | cons a l ih =>
    refine .bind ?_ fun r' _ => ih r'
    unfold fillQueuedOrder
    split
    · exact .bind (hfill _ _ _ _) fun _ _ => .ite (.pure _) (.pure _)
    · exact .pure _

/-- **Expired loans** are taken from rows that hold them. -/
theorem State.processLoans_totals (hb : s.Backed) (hn : OrdersNonneg s.powup.orders)
    (hu : ∀ kind, 0 ≤ s.powup.unsold kind) (kind : Resource) (max : ℕ) :
    Avoids totalsErrors (s.processLoans now kind max) := by
  induction max generalizing s with
  | zero => exact .pure _
  | succ max ih =>
    cases hf : s.rex.firstLoan kind with
    | none =>
      rw [processLoans, hf]
      exact .pure _
    | some first =>
      obtain ⟨key, loan⟩ := first
      by_cases he : now.usec < loan.expiration
      · rw [processLoans, hf]
        dsimp only
        rw [if_pos he]
        exact .pure _
      · cases hx : s.rex.processExpiredLoan now.sec key loan with
        | error e =>
          intro e' he' h
          rw [processLoans, hf] at h
          dsimp only at h
          rw [if_neg he, hx] at h
          cases h
          exact RexState.processExpiredLoan_totals _ _ _ _ e he' hx
        | ok x =>
          obtain ⟨rex, deleteLoan, deltaStake⟩ := x
          obtain ⟨res, hres⟩ := hb.exists_loanUpdate hn hu hf hx
          have hone := processLoans_expired hf he hx hres 0
          rw [processLoans_expired hf he hx hres max]
          exact ih (hb.processLoans hone) hn hu

/-- **The background work** takes from rows what they hold. -/
theorem State.runrex_totals (hb : s.Backed) (hn : OrdersNonneg s.powup.orders)
    (hu : ∀ kind, 0 ≤ s.powup.unsold kind) (max : ℕ) :
    Avoids totalsErrors (s.runrex now max) := by
  have hupdate (r : RexState) (t : ℕ) : Avoids totalsErrors (r.updateRexPool t) := by
    unfold RexState.updateRexPool
    exact .ite (.bind (.require (by decide)) fun _ _ => .pure _) (.pure _)
  have hchannel (s : State K) : Avoids totalsErrors (s.channelNamebids now) := by
    refine .bind (.require (by decide)) fun p hp => .ite ?_ (.pure _)
    refine .bind (.ite ?_ (.pure _)) fun _ _ => .bind (.require (by decide)) fun _ _ => .pure _
    exact .bind (RexState.addToRexReturnPool_totals _ _ _) fun _ _ =>
      .bind (Token.transfer_avoids (by decide) _ _ _ _) fun _ _ => .pure _
  refine .bind (.check (.inl (by decide))) fun _ _ => .bind (hupdate _ _) fun rex hrex =>
    .bind (hchannel _) fun s₁ h₁ => ?_
  have hloans := loans_channelNamebids h₁
  obtain ⟨token, rex₁, rfl, -⟩ := channelNamebids_frame h₁
  have hb₁ : ({ s with rex := rex₁, token } : State K).Backed :=
    hb.congr (fun _ _ => rfl) rfl (hloans.trans (RexState.loans_updateRexPool hrex)) rfl
  refine .bind (processLoans_totals hb₁ hn hu .cpu max) fun s₂ h₂ => ?_
  have hb₂ := hb₁.processLoans h₂
  obtain ⟨rex₂, res₂, rfl⟩ := processLoans_frame h₂
  exact .bind (processLoans_totals hb₂ hn hu .net max) fun _ _ =>
    .bind (RexState.fillQueuedOrders_totals _ _) fun _ _ => .pure _

end

/-! ## Runs -/

/-- A chain on which nothing has happened yet: nobody has resources, no name has been bid on, and
there is neither REX nor a pool. -/
structure MaintenanceStart (s : State K) : Prop where
  backing : BackingInit s
  names : NamesStart (s, 0)

section

variable [Field K] [LinearOrder K]

omit [Field K] [LinearOrder K] in
/-- The proceeds that wait for REX are among the tokens of `eosio.names`. -/
theorem NameBooks.namebids_covered {t : BlockTimestamp} {s : State K} {rest : ℤ}
    (h : NameBooks t s rest) :
    s.rex.namebids ≤ s.token.balance namesAccount := by
  have hopen := s.names.openBids_nonneg
  have hrefunds := NameState.refundTotal_nonneg h.refunds
  have hpools := h.pools
  have hrest := h.rest_nonneg
  have hbal := h.balance
  omega

/-- The market never sells more than it has. -/
theorem PowerupTables.Sound.unsold_nonneg {s : State K} {core : Symbol} {t : ℕ}
    (h : s.powup.Sound core t) (kind : Resource) : 0 ≤ s.powup.unsold kind := by
  cases hm : s.powup.market with
  | none => rw [unsold, hm, Option.elim_none]
  | some m =>
    rw [State.unsold_eq hm]
    exact State.unsold_nonneg h hm kind

end

section

variable [Field K] [LinearOrder K] [FloorRing K] [CMath K] {t : BlockTimestamp} {s : State K}

/-- The books of the names along a run, whatever has been left in place. -/
theorem exists_nameBooks (h : Run MaintenanceStart (Step NamesKept) t s) :
    ∃ rest, NameBooks t s rest := by
  obtain ⟨rest, hrun⟩ := h.exists_recorded
    (g := fun t p p' rest => rest + p.leftInPlace p' t) fun _ hs => ⟨0, hs.names⟩
  exact ⟨rest, nameBooks_kept hrun⟩

/-- The totals along a run. -/
theorem backed_of_maintenance (h : Run MaintenanceStart (Step NamesKept) t s) :
    s.Backed ∧ OrdersNonneg s.powup.orders ∧ ∀ kind, 0 ≤ s.powup.unsold kind := by
  obtain ⟨hb, core, hs⟩ := backed_of_run
    (h.mono (fun _ hs => hs.backing) fun _ _ _ hstep => hstep.mono fun _ _ _ => trivial)
  exact ⟨hb, hs.nonneg, fun kind => hs.unsold_nonneg kind⟩

theorem exists_runrex_of_run (h : Run MaintenanceStart (Step NamesKept) t s)
    (hinit : s.rex.initialized = true) {now : BlockTimestamp} (ht : t ≤ now) (max : ℕ) :
    ∃ s', s.runrex now max = .ok s' := by
  obtain ⟨hb, hn, hu⟩ := backed_of_maintenance h
  obtain ⟨rest, hbooks⟩ := exists_nameBooks h
  exact s.exists_runrex hb hn hu (hbooks.valid.mono ht) hbooks.due hbooks.namebids_covered hinit max

end

end EosioSystem
