import EosioSystem.Backing
import EosioSystem.Refunds

/-!
# The resource totals in every run

Staking, REX and the powerup market add to and subtract from the same rows. Each step changes a row
together with the delegation, the loan, the order or the market that backs it, so the totals are
backed in every reachable state.

## Main results

* `State.Backed.changebw`, `State.Backed.unstaketorex`: delegations
* `State.Backed.processLoans`, `State.Backed.rentRex`: loans
* `State.Backed.expireOrders`, `State.Backed.reserve`: orders and the market
* `backed_of_run`: **the totals are backed**
-/

namespace EosioSystem

open Checked PowerupTables

variable {K : Type}

/-- A refund leaves the delegations alone. -/
theorem StakeState.delband_changeRefund {st st' : StakeState} {now : BlockTimestamp}
    {owner receiver : Name} {net cpu net' cpu' : ℤ} {transfer : Bool}
    (h : st.changeRefund now owner receiver net cpu transfer = .ok (st', net', cpu')) :
    st'.delband = st.delband := by
  rcases changeRefund_cases h with ⟨r, -, -, rfl⟩ | ⟨-, rfl⟩
  · exact delband_storeRefund _ _ _ _
  · rfl

namespace State

variable {s s' : State K} {now : BlockTimestamp} {a owner sender receiver : Name}
  {net cpu : ℤ}

theorem changeRefund_frame {transfer : Bool}
    (h : s.changeRefund now sender owner receiver net cpu transfer = .ok s') :
    ∃ stake token, s' = { s with stake, token } ∧ stake.delband = s.stake.delband := by
  unfold changeRefund at h
  by_cases hs : sender = stakeAccount
  · rw [if_pos hs] at h
    obtain rfl := pure_eq_ok.mp h
    exact ⟨s.stake, s.token, rfl, rfl⟩
  · rw [if_neg hs] at h
    simp only [bind_eq_ok, pure_eq_ok] at h
    obtain ⟨⟨stake, _, _⟩, hr, token, -, rfl⟩ := h
    exact ⟨stake, token, rfl, StakeState.delband_changeRefund hr⟩

theorem adjustResources_eq_ok {must : Bool} (h : s.adjustResources a net cpu must = .ok s') :
    ∃ res, s.res.Adds a net cpu res ∧ s' = { s with res } := by
  simp only [adjustResources, bind_eq_ok, pure_eq_ok] at h
  obtain ⟨res, hr, rfl⟩ := h
  exact ⟨res, ResourceState.adjustResources_adds hr, rfl⟩

namespace Backed

/-! ## Delegations -/

theorem changebw [Field K] [LinearOrder K] [CMath K] (h : s.Backed) {transfer : Bool}
    (hc : s.changebw now sender receiver net cpu transfer = .ok s') : s'.Backed := by
  simp only [State.changebw, bind_eq_ok, check_eq_ok, requireAuth_eq_ok, exists_const,
    pure_eq_ok] at hc
  obtain ⟨-, -, -, stake, hd, res, ht, s₁, hr, s₂, hu, vote, -, rfl⟩ := hc
  obtain ⟨stake₁, token, rfl, hdel⟩ := changeRefund_frame hr
  have hloans := loans_updateRexStake hu
  obtain ⟨rex, vote₂, rfl⟩ := updateRexStake_frame hu
  obtain ⟨hn, hto⟩ := StakeState.changeDelband_delegatedTo h.delegated hd
  have h₁ : ({ s with stake, res } : State K).Backed := by
    refine h.change (ResourceState.changeTotals_adds ht) (fun kind x => ?_) hn h.lent
    simp only [backing]
    rw [hto]
    ring
  exact h₁.congr (fun _ _ => rfl) hdel hloans rfl

/-! ## Loans -/

/-- A row is changed together with the loan `key`. -/
theorem loan (h : s.Backed) (key : Resource × ℕ) {delta : ℤ} {rex : RexState}
    {res : ResourceState} (hr : s.updateLimits key.1 receiver delta = .ok res)
    (hlent : ∀ kind x, rex.lentTo kind x =
      s.rex.lentTo kind x + if key.1 = kind ∧ receiver = x then delta else 0)
    (hn : rex.LoansNonneg) : ({ s with rex, res } : State K).Backed := by
  refine h.change (ResourceState.updateResourceLimits_adds hr) (fun kind x => ?_) h.delegated hn
  simp only [backing]
  rw [hlent, Resource.pick_weights]
  by_cases hx : x = receiver
  · simp only [hx, and_true, if_true]
    ring
  · simp only [hx, Ne.symm hx, and_false, if_false, add_zero]

/-- **Expired loans** are closed or renewed. -/
theorem processLoans (h : s.Backed) {kind : Resource} {max : ℕ}
    (hp : s.processLoans now kind max = .ok s') : s'.Backed := by
  induction max generalizing s with
  | zero =>
    cases hp
    exact h
  | succ max ih =>
    rcases processLoans_succ hp with rfl | ⟨key, loan, rex, del, delta, res, hf, he, hr, hp⟩
    · exact h
    · refine ih ?_ hp
      have hrow := Table.find_of_first hf
      rw [Table.find_filter, Option.filter_eq_some_iff] at hrow
      obtain ⟨hl, hkind⟩ := hrow
      obtain rfl : key.1 = kind := of_decide_eq_true hkind
      rcases RexState.processExpiredLoan_loans he with ⟨rfl, hloans, rfl⟩ |
        ⟨rfl, rented, hpos, hloans, rfl⟩
      · have herase : ({ rex with loans := rex.loans.erase key } : RexState).loans =
            s.rex.loans.erase key := congrArg (Table.erase · key) hloans
        exact h.loan key hr (RexState.lentTo_erase hl herase) (h.lent.erase herase)
      · refine h.loan key hr (fun kind x => ?_) (h.lent.set hpos hloans)
        refine RexState.lentTo_set loan.totalStaked ?_ hloans kind x
        rw [hl]
        exact ⟨rfl, rfl⟩

/-- **The background work** of REX. -/
theorem runrex (h : s.Backed) {max : ℕ} (hr : s.runrex now max = .ok s') : s'.Backed := by
  obtain ⟨rex, s₁, s₂, s₃, rex', -, hu, hn, hc, hnet, hf, rfl⟩ := runrex_eq_ok hr
  have h₀ : ({ s with rex } : State K).Backed :=
    h.congr (fun _ _ => rfl) rfl (RexState.loans_updateRexPool hu) rfl
  have hloans := loans_channelNamebids hn
  obtain ⟨token, rex₁, rfl, -⟩ := channelNamebids_frame hn
  have h₁ : ({ s with rex := rex₁, token } : State K).Backed :=
    h₀.congr (fun _ _ => rfl) rfl hloans rfl
  have h₃ := (h₁.processLoans hc).processLoans hnet
  exact h₃.congr (fun _ _ => rfl) rfl (RexState.loans_fillQueuedOrders hf) rfl

theorem rentRex (h : s.Backed) {kind : Resource} {payment fund : Asset}
    (hr : s.rentRex now kind sender receiver payment fund = .ok s') : s'.Backed := by
  simp only [State.rentRex, RexState.rentTokens, RexState.addLoanToRexPool, RexState.getPool,
    bind_eq_ok, requireAuth_eq_ok, check_eq_ok, checkCore_eq_ok, require_eq_ok, exists_const,
    pure_eq_ok] at hr
  obtain ⟨-, s₁, hrun, -, -, -, -, r₁, hf, p, -, rented, ho, -, r₂, ⟨r₃, hadd, p₁, -, rfl⟩, p₂,
    -, hkey, res, hres, rfl⟩ := hr
  have h₁ := h.runrex hrun
  have hloans : r₃.loans = s₁.rex.loans :=
    (RexState.loans_addToRexReturnPool hadd).trans (RexState.loans_transferFromFund hf)
  have hnew : r₃.loans.find (kind, p₂.loanNum) = none := hkey
  rw [hloans] at hnew
  refine h₁.loan (kind, p₂.loanNum) hres (fun kind' x => ?_) ?_
  · refine (RexState.lentTo_set 0 ?_ (congrArg (Table.set · _ _) hloans) kind' x).trans ?_
    · rw [hnew]
      rfl
    · rw [sub_zero]
  · exact h₁.lent.set (getBancorOutput_nonneg ho) (congrArg (Table.set · _ _) hloans)

/-! ## Orders and the market -/

/-- An order is removed together with its weight. -/
theorem removeOrder (h : s.Backed) {id : ℕ} {o : PowerupOrder} {res : ResourceState}
    (ho : s.powup.orders.find id = some o)
    (hr : s.res.Adds o.owner (-o.netWeight) (-o.cpuWeight) res) :
    ({ s with res, powup := { s.powup with orders := s.powup.orders.erase id } } :
      State K).Backed := by
  refine h.change hr (fun kind x => ?_) h.delegated h.lent
  simp only [backing]
  rw [soldTo_erase ho, Resource.pick_neg, PowerupOrder.weight_eq]
  show _ + _ + _ + (if x = reservAccount then s.powup.unsold kind else 0) = _
  ring

/-- **Expired orders** leave the table, and their owners lose what they held. -/
theorem expireOrders (h : s.Backed) {t max : ℕ} {net' cpu' : ℤ}
    (he : s.expireOrders t max net cpu = .ok (s', net', cpu')) : s'.Backed := by
  induction max generalizing s net cpu with
  | zero =>
    cases he
    exact h
  | succ max ih =>
    unfold State.expireOrders at he
    split at he
    · cases he
      exact h
    · rename_i id o hfirst
      split_ifs at he
      · cases he
        exact h
      · obtain ⟨s₁, ha, he⟩ := bind_eq_ok.mp he
        obtain ⟨res, hadds, rfl⟩ := adjustResources_eq_ok ha
        exact ih (h.removeOrder (Table.find_of_first hfirst) hadds) he

/-- **The reserve** gets what has become available, together with the market. -/
theorem reserve (h : s.Backed) {m : PowerupMarket K} {res : ResourceState}
    (hr : s.res.Adds reservAccount net cpu res)
    (hm : ∀ kind, (m.resource kind).weight - (m.resource kind).utilization =
      s.powup.unsold kind + kind.pick net cpu) :
    (({ s with res } : State K).setPowerup m).Backed := by
  refine h.change hr (fun kind x => ?_) h.delegated h.lent
  have hu : (({ s with res } : State K).setPowerup m).powup.unsold kind =
      s.powup.unsold kind + kind.pick net cpu := hm kind
  simp only [backing]
  rw [hu]
  split_ifs
  · exact (add_assoc _ _ _).symm
  · exact (add_zero _).symm

end Backed

section

theorem unsold_eq {m : PowerupMarket K} (h : s.powup.market = some m) (kind : Resource) :
    s.powup.unsold kind = (m.resource kind).weight - (m.resource kind).utilization := by
  rw [unsold, h, Option.elim_some]

variable [Field K] [LinearOrder K] [FloorRing K] [CMath K] {m m' : PowerupMarket K} {max : ℕ}

/-- What becomes available with the queue is no longer sold. -/
theorem processPowerupQueue_unsold {t : ℕ} (hn : OrdersNonneg s.powup.orders)
    (h : s.processPowerupQueue t m max = .ok (s', m', net, cpu)) (kind : Resource) :
    (m'.resource kind).weight - (m'.resource kind).utilization =
      (m.resource kind).weight - (m.resource kind).utilization + kind.pick net cpu := by
  obtain ⟨res, orders, -, -, -, hres, -, -, rfl, rfl⟩ := processPowerupQueue_spec hn h
  have hu := PowerupResource.utilization_queued (m.resource kind) t
    (sold s.powup.orders kind - sold orders kind)
  rw [← hres kind] at hu
  rw [hu]
  cases kind <;> simp only [Resource.pick, PowerupMarket.resource] <;> ring

/-- A resource that is configured anew has its old utilization and a weight of its own. -/
theorem refreshMarket_unsold {t : ℕ} {market : Option (PowerupMarket K)}
    (h : refreshMarket t market = .ok (m, net, cpu)) (kind : Resource) :
    (m.resource kind).weight - (m.resource kind).utilization =
      (market.elim 0 fun m => (m.resource kind).weight - (m.resource kind).utilization) +
        kind.pick net cpu := by
  unfold refreshMarket at h
  split at h
  · rename_i m₀
    simp only [bind_eq_ok, pure_eq_ok, Prod.mk.injEq] at h
    obtain ⟨⟨net₁, _⟩, hnet, ⟨cpu₁, _⟩, hcpu, rfl, rfl, rfl⟩ := h
    obtain ⟨-, rfl, rfl⟩ := PowerupResource.updateWeight_eq_ok hnet
    obtain ⟨-, rfl, rfl⟩ := PowerupResource.updateWeight_eq_ok hcpu
    have hu := (m₀.resource kind).utilization_updateUtilization t
    have hw := (m₀.resource kind).weight_updateUtilization t
    cases kind <;> simp only [Resource.pick, PowerupMarket.resource, Option.elim_some,
      PowerupResource.weighed] at hu hw ⊢ <;> rw [hu, hw] <;> ring
  · simp only [pure_eq_ok, Prod.mk.injEq] at h
    obtain ⟨rfl, rfl, rfl⟩ := h
    cases kind <;> rfl

/-- What is reserved is sold. -/
theorem unsold_of_reserve {r r' : PowerupResource K} {frac amount fee : ℤ}
    (h : r.reserve frac = .ok (r', amount, fee)) :
    r'.weight - r'.utilization = r.weight - r.utilization - amount := by
  unfold PowerupResource.reserve at h
  split_ifs at h
  · simp only [pure_eq_ok, Prod.mk.injEq] at h
    obtain ⟨rfl, rfl, -⟩ := h
    exact (sub_zero _).symm
  · simp only [bind_eq_ok, check_eq_ok, exists_const, pure_eq_ok, Prod.mk.injEq] at h
    obtain ⟨-, -, -, rfl, rfl, -⟩ := h
    exact (sub_sub _ _ _).symm

namespace Backed

theorem queue (h : s.Backed) {t : ℕ}
    (hq : s.processPowerupQueue t m max = .ok (s', m', net, cpu)) : s'.Backed := by
  simp only [processPowerupQueue, bind_eq_ok, pure_eq_ok, Prod.mk.injEq] at hq
  obtain ⟨⟨s₁, _, _⟩, he, _, -, _, -, rfl, -⟩ := hq
  exact h.expireOrders he

theorem powerupexec (h : s.Backed) (hn : OrdersNonneg s.powup.orders) {user : Name}
    (he : s.powerupexec now user max = .ok s') : s'.Backed := by
  simp only [State.powerupexec, bind_eq_ok, requireAuth_eq_ok, exists_const, require_eq_ok,
    pure_eq_ok] at he
  obtain ⟨-, m, hm, -, -, ⟨s₁, m₁, net, cpu⟩, hq, s₂, ha, rfl⟩ := he
  have h₁ := h.queue hq
  have hunsold := processPowerupQueue_unsold hn hq
  obtain ⟨res₁, orders, rfl, -⟩ := processPowerupQueue_spec hn hq
  obtain ⟨res, hadds, rfl⟩ := adjustResources_eq_ok ha
  exact h₁.reserve hadds fun kind =>
    (hunsold kind).trans (congrArg (· + _) (unsold_eq hm kind).symm)

theorem cfgpowerup (h : s.Backed) {env : Env} {args : PowerupConfig K}
    (hc : s.cfgpowerup env args = .ok s') : s'.Backed := by
  simp only [State.cfgpowerup, bind_eq_ok, check_eq_ok, exists_const, pure_eq_ok] at hc
  obtain ⟨core, -, -, ⟨m, net, cpu⟩, hr, -, -, -, -, net₁, hnet, cpu₁, hcpu, ⟨net₂, δnet⟩,
    hnetw, ⟨cpu₂, δcpu⟩, hcpuw, -, -, s₁, ha, rfl⟩ := hc
  obtain ⟨res, hadds, rfl⟩ := adjustResources_eq_ok ha
  refine h.reserve hadds fun kind => ?_
  have hunsold := refreshMarket_unsold hr kind
  rw [Resource.pick_add, ← add_assoc]
  refine Eq.trans ?_ (congrArg (· + kind.pick δnet δcpu) hunsold)
  obtain ⟨-, -, hun, -, -, hwn⟩ := PowerupResource.configure_eq_ok hnet
  obtain ⟨-, -, huc, -, -, hwc⟩ := PowerupResource.configure_eq_ok hcpu
  obtain ⟨-, rfl, rfl⟩ := PowerupResource.updateWeight_eq_ok hnetw
  obtain ⟨-, rfl, rfl⟩ := PowerupResource.updateWeight_eq_ok hcpuw
  cases kind
  · show _ - net₁.utilization = m.net.weight - m.net.utilization + (_ - net₁.weight)
    rw [hun, hwn]
    show net₁.weightAt _ - _ = _
    ring
  · show _ - cpu₁.utilization = m.cpu.weight - m.cpu.utilization + (_ - cpu₁.weight)
    rw [huc, hwc]
    show cpu₁.weightAt _ - _ = _
    ring

/-- **A purchase**: the receiver gets what is taken from the reserve. -/
theorem powerup (h : s.Backed) (hn : OrdersNonneg s.powup.orders) {payer : Name} {days : ℕ}
    {netFrac cpuFrac : ℤ} {maxPayment : Asset}
    (hp : s.powerup now payer receiver days netFrac cpuFrac maxPayment = .ok s') : s'.Backed := by
  simp only [State.powerup, bind_eq_ok, requireAuth_eq_ok, check_eq_ok, checkCore_eq_ok,
    exists_const, require_eq_ok, pure_eq_ok] at hp
  obtain ⟨-, m, hm, -, -, -, -, -, -, ⟨s₁, m₁, net, cpu⟩, hq, ⟨net₂, netAmount, _⟩, hnet,
    ⟨cpu₂, cpuAmount, _⟩, hcpu, -, -, s₂, h₂, s₃, h₃, s₄, h₄, rfl⟩ := hp
  have h₁ := h.queue hq
  have hunsold := processPowerupQueue_unsold hn hq
  obtain ⟨res₁, orders, rfl, -⟩ := processPowerupQueue_spec hn hq
  obtain ⟨res₂, hadds₂, rfl⟩ := adjustResources_eq_ok h₂
  obtain ⟨res₃, hadds₃, rfl⟩ := adjustResources_eq_ok h₃
  have hchannel := channelToRexOrPools_changes h₄
  have hres : s₄.res = res₃ := hchannel.same .res (by simp)
  have hstake : s₄.stake = s.stake := hchannel.same .stake (by simp)
  have hpowup := hchannel.same .powup (by simp)
  have hloans := loans_channelToRexOrPools h₄
  set order : PowerupOrder := ⟨receiver, netAmount, cpuAmount,
    (now.sec + days * secondsPerDay) % 2 ^ 32⟩
  -- the receiver, with the new order
  have h₂ : ({ s with
      res := res₂
      powup := { s.powup with orders := orders.set (nextOrderId orders) order } } :
      State K).Backed := by
    refine h₁.change hadds₂ (fun kind x => ?_) h.delegated h.lent
    simp only [backing]
    rw [soldTo_order, PowerupOrder.weight_eq]
    show _ + _ + _ + (if x = reservAccount then s.powup.unsold kind else 0) =
      _ + (if x = reservAccount then s.powup.unsold kind else 0) + _
    ring
  -- the reserve, with the market
  have h₃ := h₂.reserve (m := { m₁ with net := net₂, cpu := cpu₂ }) hadds₃ fun kind => ?_
  · refine h₃.congr (fun kind x => ?_) (congrArg _ hstake) hloans ?_
    · rw [setPowerup, hres]
      rfl
    · rw [setPowerup, hpowup]
      rfl
  · have hu := (hunsold kind).trans (congrArg (· + _) (unsold_eq hm kind).symm)
    have hn := unsold_of_reserve hnet
    have hc := unsold_of_reserve hcpu
    cases kind
    · show net₂.weight - net₂.utilization = s.powup.unsold .net + (net - netAmount)
      rw [hn, ← add_sub_assoc]
      exact congrArg (· - netAmount) hu
    · show cpu₂.weight - cpu₂.utilization = s.powup.unsold .cpu + (cpu - cpuAmount)
      rw [hc, ← add_sub_assoc]
      exact congrArg (· - cpuAmount) hu

end Backed

end

/-! ## Purchases and the business of an owner -/

section

variable [Field K] [LinearOrder K] [CMath K]

namespace Backed

omit [Field K] [LinearOrder K] [CMath K] in
/-- The REX tables may change, but for the loans. -/
theorem setRex (h : s.Backed) {rex : RexState} (hl : rex.loans = s.rex.loans) :
    ({ s with rex } : State K).Backed := h.congr (fun _ _ => rfl) rfl hl rfl

/-- The collection of an order. -/
theorem account {proceeds deltaStake pending : ℤ} {force : Bool} (h : s.Backed)
    (ha : s.updateRexAccount now owner proceeds deltaStake force = .ok (s', pending)) :
    s'.Backed := by
  have hloans := loans_updateRexAccount ha
  obtain ⟨_, _, _, rex, vote, -, -, -, rfl⟩ := updateRexAccount_eq_ok ha
  exact h.congr (fun _ _ => rfl) rfl hloans rfl

omit [Field K] [LinearOrder K] [CMath K] in
theorem rebalance (h : s.Backed) {rex : RexState} (hr : s.rex.Rebalanced rex) :
    ({ s with rex } : State K).Backed := by
  refine ⟨fun kind a => ?_, h.delegated, hr.nonneg h.lent⟩
  simp only [backing]
  rw [hr.lentTo_eq]
  exact h.weight kind a

theorem unstaketorex (h : s.Backed) {fromNet fromCpu : Asset}
    (hu : s.unstaketorex now owner receiver fromNet fromCpu = .ok s') : s'.Backed := by
  simp only [State.unstaketorex, bind_eq_ok, check_eq_ok, requireAuth_eq_ok, checkCore_eq_ok,
    VoteState.checkVotingRequirement_eq_ok, exists_const, pure_eq_ok] at hu
  obtain ⟨-, -, -, -, -, stake, hd, res, hres, token, -, ⟨r₁, _⟩, hp, ⟨r₂, _⟩, hb, s₁, hr,
    ⟨s₂, _⟩, ha, rfl⟩ := hu
  obtain ⟨hn, hto⟩ := StakeState.unstakeDelband_delegatedTo h.delegated hd
  have h₁ : ({ s with stake, res } : State K).Backed := by
    refine h.change (ResourceState.updateResourceLimits_adds hres) (fun kind x => ?_) hn h.lent
    simp only [backing]
    rw [hto]
    ring
  have hloans : r₂.loans = s.rex.loans :=
    (RexState.loans_addToRexBalance hb).trans (RexState.loans_addToRexPool hp)
  have h₂ : ({ s with stake, res, token, rex := r₂ } : State K).Backed :=
    h₁.congr (fun _ _ => rfl) rfl hloans rfl
  exact (h₂.runrex hr).account ha

theorem buyrex (h : s.Backed) {amount : Asset} (hb : s.buyrex now owner amount = .ok s') :
    s'.Backed := by
  simp only [State.buyrex, bind_eq_ok, requireAuth_eq_ok, check_eq_ok, checkCore_eq_ok,
    VoteState.checkVotingRequirement_eq_ok, exists_const, pure_eq_ok] at hb
  obtain ⟨-, -, -, -, r₁, hf, ⟨r₂, _⟩, hp, ⟨r₃, _⟩, hbal, s₁, hr, ⟨s₂, _⟩, ha, rfl⟩ := hb
  have hloans : r₃.loans = s.rex.loans := (RexState.loans_addToRexBalance hbal).trans
    ((RexState.loans_addToRexPool hp).trans (RexState.loans_transferFromFund hf))
  have h₁ : ({ s with rex := r₃ } : State K).Backed := h.congr (fun _ _ => rfl) rfl hloans rfl
  exact (h₁.runrex hr).account ha

theorem sellrex (h : s.Backed) {rex : Asset} (hs : s.sellrex now owner rex = .ok s') :
    s'.Backed := by
  simp only [State.sellrex, bind_eq_ok, requireAuth_eq_ok, check_eq_ok, require_eq_ok, exists_const,
    pure_eq_ok] at hs
  obtain ⟨-, s₁, hr, rb, -, -, -, ⟨r, o⟩, hf, -, ⟨s₂, pending⟩, ha, -, rb', -, -, rfl⟩ := hs
  have hloans := RexState.loans_fillRexOrder hf
  have h₁ : ({ s₁ with rex := r } : State K).Backed := (h.runrex hr).setRex hloans
  refine (h₁.account ha).setRex ?_
  split_ifs <;> rfl

theorem updaterex (h : s.Backed) (hu : s.updaterex now owner = .ok s') : s'.Backed := by
  simp only [State.updaterex, RexState.getPool, bind_eq_ok, requireAuth_eq_ok, require_eq_ok,
    exists_const, pure_eq_ok] at hu
  obtain ⟨-, s₁, hr, rb, -, p, -, value, -, ⟨s₂, _⟩, ha, rfl⟩ := hu
  refine setRex (account ?_ ha) rfl
  exact (h.runrex hr).setRex rfl

theorem consolidate (h : s.Backed) (hc : s.consolidate now owner = .ok s') : s'.Backed := by
  simp only [State.consolidate, bind_eq_ok, requireAuth_eq_ok, require_eq_ok, exists_const,
    pure_eq_ok] at hc
  obtain ⟨-, s₁, hr, rb, -, ⟨s₂, _⟩, ha, rfl⟩ := hc
  exact ((h.runrex hr).account ha).setRex rfl

theorem mvtosavings (h : s.Backed) {rex : Asset} (hm : s.mvtosavings now owner rex = .ok s') :
    s'.Backed := by
  simp only [State.mvtosavings, bind_eq_ok, requireAuth_eq_ok, require_eq_ok, check_eq_ok,
    exists_const, pure_eq_ok] at hm
  obtain ⟨-, s₁, hr, rb, -, -, ⟨s₂, _⟩, ha, rb', -, rfl⟩ := hm
  exact ((h.runrex hr).account ha).setRex rfl

theorem mvfrsavings (h : s.Backed) {rex : Asset} (hm : s.mvfrsavings now owner rex = .ok s') :
    s'.Backed := by
  simp only [State.mvfrsavings, bind_eq_ok, requireAuth_eq_ok, require_eq_ok, check_eq_ok,
    exists_const, pure_eq_ok] at hm
  obtain ⟨-, s₁, hr, rb, -, -, rb', -, ⟨s₂, _⟩, ha, rfl⟩ := hm
  refine account ?_ ha
  exact (h.runrex hr).setRex rfl

theorem closerex (h : s.Backed) (hc : s.closerex now owner = .ok s') : s'.Backed := by
  simp only [State.closerex, bind_eq_ok, requireAuth_eq_ok, exists_const, pure_eq_ok] at hc
  obtain ⟨-, s₁, hr, ⟨s₂, _⟩, ha, rex, hclose, rfl⟩ := hc
  have h₁ : s₁.Backed := by
    split_ifs at hr
    · exact h.runrex hr
    · cases hr
      exact h
  exact (h₁.account ha).setRex (RexState.loans_close hclose)

omit [CMath K] in
theorem buyram (h : s.Backed) {quant : Asset}
    (hb : s.buyram now sender receiver quant = .ok s') : s'.Backed := by
  simp only [State.buyram, bind_eq_ok, requireAuth_eq_ok, check_eq_ok, checkCore_eq_ok,
    exists_const, pure_eq_ok] at hb
  obtain ⟨-, ram, -, -, -, token, -, s₁, hf, ⟨ram', bytes⟩, -, rfl⟩ := hb
  have hch := payRamFee_changes hf
  have hres : s₁.res = s.res := hch.same .res (by simp)
  have hstake : s₁.stake = s.stake := hch.same .stake (by simp)
  have hpowup : s₁.powup = s.powup := hch.same .powup (by simp)
  have hloans := loans_payRamFee hf
  refine h.congr (fun kind x => ?_) (congrArg _ hstake) hloans hpowup
  rw [ResourceState.weightOf_addRam, hres]

omit [CMath K] in
theorem sellram (h : s.Backed) {bytes : ℤ} (hb : s.sellram now owner bytes = .ok s') :
    s'.Backed := by
  simp only [State.sellram, bind_eq_ok, requireAuth_eq_ok, check_eq_ok, exists_const,
    require_eq_ok] at hb
  obtain ⟨-, ram, -, -, row, -, -, sym, -, ⟨ram', tokens⟩, -, token, -, hf⟩ := hb
  have hch := payRamFee_changes hf
  have hres : s'.res = s.res.addRam (s.vote.managed owner) owner (-bytes) :=
    hch.same .res (by simp)
  have hstake : s'.stake = s.stake := hch.same .stake (by simp)
  have hpowup : s'.powup = s.powup := hch.same .powup (by simp)
  have hloans := loans_payRamFee hf
  refine h.congr (fun kind x => ?_) (congrArg _ hstake) hloans hpowup
  rw [hres]
  exact ResourceState.weightOf_addRam _ _ _ _ _ _

end Backed

end

end State

/-! ## Runs -/

/-- A chain on which nobody has any resources yet. -/
structure BackingInit (s : State K) : Prop where
  userres : s.res.userres = .empty
  delband : s.stake.delband = .empty
  loans : s.rex.loans = .empty
  powup : PowerupInit s

theorem backed_of_init {s : State K} (h : BackingInit s) : s.Backed := by
  obtain ⟨hu, hd, hl, hm, ho⟩ := h
  refine ⟨fun kind a => ?_, fun k d hf => ?_, fun k l hf => ?_⟩
  · have hzero : (0 : ℤ) = 0 + 0 + 0 + if a = reservAccount then 0 else 0 := by simp
    simp only [ResourceState.weightOf, ResourceState.row, State.backing, StakeState.delegatedTo,
      RexState.lentTo, soldTo, unsold, hu, hd, hl, hm, ho, Table.sum_empty, Option.elim_none]
    rw [← hzero]
    cases kind <;> rfl
  · rw [hd] at hf
    cases hf
  · rw [hl] at hf
    cases hf

section

variable [Field K] [LinearOrder K] [FloorRing K] [CMath K] {s s' : State K} {env : Env}
  {a : Action K} {t now : BlockTimestamp}

/-- **Every action** keeps the totals backed. -/
theorem State.Backed.exec (h : s.Backed) (hn : OrdersNonneg s.powup.orders)
    (he : a.exec env s = .ok s') : s'.Backed := by
  have hch := Action.exec_changes he
  -- what only changes the REX tables, but for the loans
  have hrex : Part.res ∉ a.parts → Part.stake ∉ a.parts → Part.powup ∉ a.parts →
      s'.rex.loans = s.rex.loans → s'.Backed := by
    intro h₁ h₂ h₃ hloans
    have hres : s'.res = s.res := hch.same .res h₁
    have hstake : s'.stake = s.stake := hch.same .stake h₂
    have hpowup : s'.powup = s.powup := hch.same .powup h₃
    exact h.congr (fun _ _ => by rw [hres]) (by rw [hstake]) hloans hpowup
  cases a with
  | newaccount creator newact =>
    simp only [Action.exec, State.newaccount, bind_eq_ok, check_eq_ok, exists_const,
      pure_eq_ok] at he
    obtain ⟨names, -, core, -, hnone, rfl⟩ := he
    refine h.congr (fun kind x => ?_) rfl rfl rfl
    -- the new row is as empty as none
    have hrow : ((s.res.userres.set newact .zero).find x).getD .zero =
        (s.res.userres.find x).getD .zero := by
      rw [Table.find_set]
      split_ifs with hx
      · rw [hx, hnone]
        rfl
      · rfl
    exact congrArg (UserResources.weight kind) hrow
  | setalimits =>
    simp only [Action.exec, State.setalimits, bind_eq_ok, check_eq_ok, exists_const,
      pure_eq_ok] at he
    obtain ⟨-, -, rfl⟩ := he
    exact h.congr (fun _ _ => rfl) rfl rfl rfl
  | setacctram =>
    obtain ⟨_, _, rfl, -⟩ := State.setacctram_eq_ok he
    exact h.congr (fun _ _ => rfl) rfl rfl rfl
  | setacctnet =>
    obtain ⟨_, _, rfl, -⟩ := State.setacctnet_eq_ok he
    exact h.congr (fun _ _ => rfl) rfl rfl rfl
  | setacctcpu =>
    obtain ⟨_, _, rfl, -⟩ := State.setacctcpu_eq_ok he
    exact h.congr (fun _ _ => rfl) rfl rfl rfl
  | buyram => exact h.buyram he
  | buyrambytes =>
    simp only [Action.exec, State.buyrambytes, bind_eq_ok] at he
    obtain ⟨_, -, _, -, _, -, he⟩ := he
    exact h.buyram he
  | sellram => exact h.sellram he
  | delegatebw =>
    simp only [Action.exec, State.delegatebw, bind_eq_ok, check_eq_ok, State.checkCore_eq_ok,
      exists_const] at he
    exact h.changebw he.2.2.2.2.2.2
  | undelegatebw =>
    simp only [Action.exec, State.undelegatebw, bind_eq_ok, check_eq_ok, State.checkCore_eq_ok,
      exists_const] at he
    exact h.changebw he.2.2.2.2.2
  | refund =>
    simp only [Action.exec, State.refund, bind_eq_ok, requireAuth_eq_ok, check_eq_ok,
      exists_const, require_eq_ok, pure_eq_ok] at he
    obtain ⟨-, r, -, -, token, -, rfl⟩ := he
    exact h.congr (fun _ _ => rfl) rfl rfl rfl
  | voteproducer =>
    refine hrex (by simp [Action.parts]) (by simp [Action.parts]) (by simp [Action.parts]) ?_
    simp only [Action.exec, State.voteproducer, bind_eq_ok, requireAuth_eq_ok, exists_const] at he
    obtain ⟨-, s₁, hu, vote, -, he⟩ := he
    rw [← State.loans_updateRexStake hu]
    split_ifs at he
    · exact (pure_eq_ok.mp (check_bind_eq_ok.mp he).2) ▸ rfl
    · exact pure_eq_ok.mp he ▸ rfl
  | deposit =>
    refine hrex (by simp [Action.parts]) (by simp [Action.parts]) (by simp [Action.parts]) ?_
    simp only [Action.exec, State.deposit, bind_eq_ok, requireAuth_eq_ok, check_eq_ok,
      State.checkCore_eq_ok, exists_const, pure_eq_ok] at he
    obtain ⟨-, -, -, token, -, rex, hr, rfl⟩ := he
    exact RexState.loans_transferToFund hr
  | withdraw =>
    refine hrex (by simp [Action.parts]) (by simp [Action.parts]) (by simp [Action.parts]) ?_
    simp only [Action.exec, State.withdraw, bind_eq_ok, requireAuth_eq_ok, check_eq_ok,
      State.checkCore_eq_ok, exists_const, pure_eq_ok] at he
    obtain ⟨-, -, -, ⟨s₁, _⟩, ha, rex, hr, token, -, rfl⟩ := he
    exact (RexState.loans_transferFromFund hr).trans (State.loans_updateRexAccount ha)
  | buyrex => exact h.buyrex he
  | unstaketorex => exact h.unstaketorex he
  | sellrex => exact h.sellrex he
  | cnclrexorder =>
    simp only [Action.exec, State.cnclrexorder, bind_eq_ok, requireAuth_eq_ok, check_eq_ok,
      require_eq_ok, exists_const, pure_eq_ok] at he
    obtain ⟨-, o, -, -, rfl⟩ := he
    exact h.setRex rfl
  | updaterex => exact h.updaterex he
  | rentRex => exact h.rentRex he
  | fundloan =>
    simp only [Action.exec, State.fundloan, bind_eq_ok, requireAuth_eq_ok, State.checkCore_eq_ok,
      exists_const, pure_eq_ok] at he
    obtain ⟨-, -, rex, hr, rfl⟩ := he
    exact h.rebalance (RexState.fundRexLoan_loans hr)
  | defloan =>
    simp only [Action.exec, State.defloan, bind_eq_ok, requireAuth_eq_ok, State.checkCore_eq_ok,
      exists_const, pure_eq_ok] at he
    obtain ⟨-, -, rex, hr, rfl⟩ := he
    exact h.rebalance (RexState.defundRexLoan_loans hr)
  | setrex =>
    simp only [Action.exec, State.setrex, bind_eq_ok, check_eq_ok, State.checkCore_eq_ok,
      require_eq_ok, exists_const, pure_eq_ok] at he
    obtain ⟨-, -, p, -, rfl⟩ := he
    exact h.setRex rfl
  | rexexec =>
    simp only [Action.exec, State.rexexec, bind_eq_ok, requireAuth_eq_ok, exists_const] at he
    exact h.runrex he.2
  | consolidate => exact h.consolidate he
  | mvtosavings => exact h.mvtosavings he
  | mvfrsavings => exact h.mvfrsavings he
  | closerex => exact h.closerex he
  | onblock timestamp producer =>
    obtain rfl := Except.ok.inj he
    exact hrex (by simp [Action.parts]) (by simp [Action.parts]) (by simp [Action.parts])
      (State.loans_onblock timestamp producer)
  | cfgpowerup => exact h.cfgpowerup he
  | powerup => exact h.powerup hn he
  | powerupexec => exact h.powerupexec hn he
  | _ =>
    refine hrex (by simp [Action.parts]) (by simp [Action.parts]) (by simp [Action.parts]) ?_
    have hsame : s'.rex = s.rex := hch.same .rex (by simp [Action.parts])
    rw [hsame]

/-- **The resource totals are backed** in every reachable state. -/
theorem backed_of_run (h : Run BackingInit (Step fun _ _ => True) t s) :
    s.Backed ∧ ∃ core, s.powup.Sound core t.sec := by
  refine h.invariant_at (P := fun t s => s.Backed ∧ ∃ core, s.powup.Sound core t.sec) ?_ ?_
  · exact fun t s hi => ⟨backed_of_init hi, ⟨0⟩, .of_init hi.powup⟩
  · rintro t now s s' ⟨hb, core, hs⟩ ht hstep
    refine ⟨?_, hs.step ht hstep⟩
    obtain ⟨isAccount, a, -, he⟩ := hstep
    exact hb.exec hs.nonneg he

end

end EosioSystem
