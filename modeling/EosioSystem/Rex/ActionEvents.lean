import EosioSystem.Rex.Transactions

/-!
# Actions as events of the REX tables

Every action of the contract does to the REX tables what a sequence of events does, and `eosio.rex`
receives the tokens that come in with them. What the events keep is then kept by every action.

## Main definitions

* `Transacts`: the REX tables change by events, with the tokens that come in

## Main results

* `Action.exec_rex`: **every action** transacts
* `rexValid_of_run`: the invariant of the tables holds in every reachable state
-/

namespace EosioSystem

open Checked

variable {K : Type}

/-! ## Actions -/

namespace RexAction

variable {now : BlockTimestamp} {use : RexUse} {r r' : RexState} {q q₀ q₁ q₂ q₃ : ℤ}
  {s s₁ : State K}

/-- Without a purchase and without loans that are processed, everything is admitted. -/
theorem admits_refl {r₁ : RexState} : use.Admits now 0 r r r₁ r₁ :=
  ⟨fun _ => ⟨rfl, rfl⟩, fun _ => rfl, .inl rfl⟩

theorem refl : RexAction now use 0 r r :=
  ⟨0, 0, 0, r, r, r, r, r, admits_refl, .none, .refl_zero, .refl_zero, .refl_zero,
    .refl (le_max_left _ _), .inl ⟨by ring, rfl⟩⟩

theorem of_setup (h : EventFlow (RexEvent now .setup) q q r r') : RexAction now use q r r' :=
  ⟨0, q, 0, r, r', r', r', r', admits_refl, .none, h, .refl_zero, .refl_zero,
    .refl (le_max_left _ _), .inl ⟨by ring, rfl⟩⟩

theorem of_own (h : EventFlow (RexEvent now .own) (max 0 q) q r r') : RexAction now use q r r' :=
  ⟨0, 0, q, r, r, r, r, r', admits_refl, .none, .refl_zero, .refl_zero, .refl_zero, h,
    .inl ⟨by ring, rfl⟩⟩

/-- A purchase, the background work, and the business of the owner. -/
theorem of_purchase (ho : RexOpening now q₀ r s.rex)
    (hpos : ∀ p, s.rex.pool = some p → 0 < p.totalUnlent) (hb : s.Background now q₁ s₁)
    (h : EventFlow (RexEvent now .own) (max 0 q₂) q₂ s₁.rex r') :
    RexAction now .purchase (q₂ + q₁ + q₀) r r' := by
  obtain ⟨r₁, r₂, h₁, h₂, h₃, hdue⟩ := hb.flow
  have ha : RexUse.purchase.Admits now q₀ r s.rex r₁ r₂ :=
    ⟨fun h => absurd h (by decide), fun h => absurd h (by decide), .inr ⟨fun _ => hpos, hdue⟩⟩
  exact ⟨q₀, q₁, q₂, s.rex, r₁, r₂, s₁.rex, r', ha, ho, h₁, h₂, h₃, h, .inl ⟨rfl, rfl⟩⟩

theorem admits_work {r₁ r₂ : RexState}
    (hdue : ∀ p, r₁.pool = some p → (r.ret.update now.sec).2 ≤ p.totalUnlent) :
    RexUse.work.Admits now 0 r r r₁ r₂ :=
  ⟨fun _ => ⟨rfl, rfl⟩, fun h => absurd h (by decide), .inr ⟨fun h => absurd h (by decide), hdue⟩⟩

/-- The background work, and the business of the owner. -/
theorem of_background (hb : s.Background now q₁ s₁)
    (h : EventFlow (RexEvent now .own) (max 0 q₂) q₂ s₁.rex r') :
    RexAction now .work (q₂ + q₁) s.rex r' := by
  obtain ⟨r₁, r₂, h₁, h₂, h₃, hdue⟩ := hb.flow
  exact ⟨0, q₁, q₂, s.rex, r₁, r₂, s₁.rex, r', admits_work hdue, .none, h₁, h₂, h₃, h,
    .inl ⟨add_zero _, rfl⟩⟩

/-- The background work, the payment out of a fund, and a new loan. -/
theorem of_lend {r₄ : RexState} (hb : s.Background now q₁ s₁)
    (h : EventFlow (RexEvent now .own) (max 0 q₂) q₂ s₁.rex r₄)
    (hl : RexEvent now .lend q₃ r₄ r') : RexAction now .work (q₃ + q₂ + q₁) s.rex r' := by
  obtain ⟨r₁, r₂, h₁, h₂, h₃, hdue⟩ := hb.flow
  exact ⟨0, q₁, q₂, s.rex, r₁, r₂, s₁.rex, r₄, admits_work hdue, .none, h₁, h₂, h₃, h,
    .inr ⟨q₃, hl, by ring⟩⟩

end RexAction

/-- The REX tables change as by the events of an action, and `eosio.rex` receives what comes in
with them, unless it moves its tokens itself. -/
def Transacts (now : BlockTimestamp) (mover : Option Name) (use : RexUse) (s s' : State K) : Prop :=
  ∃ q, RexAction now use q s.rex s'.rex ∧
    (mover ≠ some rexAccount → s'.token.balance rexAccount = s.token.balance rexAccount + q)

/-- The actions that begin with a purchase of REX or with background work. -/
def Action.use : Action K → RexUse
  | buyrex .. | unstaketorex .. => .purchase
  | sellrex .. | updaterex .. | rentRex .. | consolidate .. | mvtosavings .. | mvfrsavings ..
  | closerex .. => .work
  | rexexec _ max => if max = 0 then ⟨false, false⟩ else .work
  | _ => ⟨false, false⟩

namespace RexState

variable {now : BlockTimestamp} {r r₁ r' : RexState} {owner : Name} {amount : ℤ}

theorem transferFromFund_eq_ok (h : r.transferFromFund owner amount = .ok r') :
    ∃ b, r.funds.find owner = some b ∧ 0 < amount ∧ amount ≤ b ∧
      r' = { r with funds := r.funds.set owner (b - amount) } := by
  simp only [transferFromFund, bind_eq_ok, check_eq_ok, require_eq_ok, exists_const,
    pure_eq_ok] at h
  obtain ⟨hq, b, hb, hle, rfl⟩ := h
  exact ⟨b, hb, hq, hle, rfl⟩

theorem transferToFund_eq_ok (h : r.transferToFund owner amount = .ok r') :
    0 < amount ∧ r' = { r with funds := r.funds.set owner ((r.funds.find owner).getD 0 + amount)
      } := by
  simp only [transferToFund, bind_eq_ok, check_eq_ok, exists_const, pure_eq_ok] at h
  exact ⟨h.1, h.2.symm⟩

theorem transferToFund_event (now : BlockTimestamp) (h : r.transferToFund owner amount = .ok r') :
    RexEvent now .own amount r r' := by
  obtain ⟨hpos, rfl⟩ := transferToFund_eq_ok h
  exact .credit hpos

/-- The two halves of a purchase. -/
theorem purchase_eq_ok {payment rex delta : ℤ} (hq : 0 < payment)
    (h₁ : r.addToRexPool payment = .ok (r₁, rex))
    (h₂ : r₁.addToRexBalance now.sec owner payment rex = .ok (r', delta)) :
    RexPurchase now owner payment r r' := by
  obtain ⟨p, c, hp, rfl⟩ := addToRexPool_eq_ok h₁
  obtain ⟨rb, c', hr, -, rfl⟩ := addToRexBalance_eq_ok rfl h₂
  exact .buy hq hp hr

end RexState

namespace State

variable {now : BlockTimestamp} {use : RexUse} {s s' : State K} {owner : Name}

section Funds

theorem deposit_transacts {amount : Asset} (h : s.deposit owner amount = .ok s') :
    Transacts now (some owner) use s s' := by
  simp only [deposit, bind_eq_ok, requireAuth_eq_ok, check_eq_ok, checkCore_eq_ok, exists_const,
    pure_eq_ok] at h
  obtain ⟨-, -, -, token, ht, rex, hr, rfl⟩ := h
  obtain ⟨hq, rfl⟩ := RexState.transferToFund_eq_ok hr
  obtain ⟨hne, -⟩ := Token.transfer_eq_ok ht
  exact ⟨amount.amount, .of_own (.single (.credit hq)), fun _ => balance_to_rex hne ht⟩

variable [Field K] [LinearOrder K] [CMath K]

theorem withdraw_transacts {amount : Asset} (hv : s.rex.Valid now)
    (h : s.withdraw now owner amount = .ok s') : Transacts now (some owner) use s s' := by
  simp only [withdraw, bind_eq_ok, requireAuth_eq_ok, check_eq_ok, checkCore_eq_ok, exists_const,
    pure_eq_ok] at h
  obtain ⟨-, -, -, ⟨s₁, pending⟩, ha, rex, hr, token, ht, rfl⟩ := h
  have hc := updateRexAccount_collected hv le_rfl ha
  obtain ⟨b, hb, hq, hle, rfl⟩ := RexState.transferFromFund_eq_ok hr
  obtain ⟨hne, -⟩ := Token.transfer_eq_ok ht
  refine ⟨-amount.amount, .of_own ?_, fun _ => ?_⟩
  · have hdebit := hc.flow.trans (.single (.debit hb hq hle)) (by omega)
    exact hdebit.cast (zero_add _) (le_max_left _ _)
  · have hbal := Token.balance_transfer ht rexAccount
    rw [if_pos rfl, if_neg hne, hc.token, add_zero] at hbal
    exact hbal

end Funds

section Purchases

variable [Field K] [LinearOrder K] [CMath K]

/-- A purchase, the background work and the collection of an order. -/
theorem purchase_transacts {s₁ s₂ : State K} {mover : Option Name} {q₀ deltaStake pending : ℤ}
    {max : ℕ} {force : Bool} (hv : s.rex.Valid now) (hr : s₁.runrex now max = .ok s₂)
    (ha : s₂.updateRexAccount now owner 0 deltaStake force = .ok (s', pending))
    (ho : RexOpening now q₀ s.rex s₁.rex)
    (hpos : ∀ p, s₁.rex.pool = some p → 0 < p.totalUnlent)
    (hb : s₁.token.balance rexAccount = s.token.balance rexAccount + q₀) :
    Transacts now mover .purchase s s' := by
  obtain ⟨q, hback⟩ := runrex_flow (hv.opening ho) hr
  have hc := updateRexAccount_collected hback.valid le_rfl ha
  refine ⟨0 + q + q₀, .of_purchase ho hpos hback ?_, fun _ => ?_⟩
  · rw [max_self]
    exact hc.flow
  · rw [hc.token, hback.balance, hb]
    ring

theorem buyrex_transacts {amount : Asset} {mover : Option Name} (hv : s.rex.Valid now)
    (h : s.buyrex now owner amount = .ok s') : Transacts now mover .purchase s s' := by
  simp only [buyrex, bind_eq_ok, requireAuth_eq_ok, check_eq_ok, checkCore_eq_ok,
    VoteState.checkVotingRequirement_eq_ok, exists_const, pure_eq_ok] at h
  obtain ⟨-, -, hpos, -, r₁, hf, ⟨r₂, rex⟩, hp, ⟨r₃, delta⟩, hbal, s₁, hr, ⟨s₂, _⟩, ha, rfl⟩ := h
  obtain ⟨b, hb, -, hle, rfl⟩ := RexState.transferFromFund_eq_ok hf
  have hbuy := RexState.purchase_eq_ok hpos hp hbal
  exact purchase_transacts hv hr ha (.fromFund hb hle hbuy)
    ((hv.setFund hle).pool.unlent_pos hbuy) (add_zero _).symm

theorem unstaketorex_transacts {receiver : Name} {fromNet fromCpu : Asset} {mover : Option Name}
    (hv : s.rex.Valid now) (h : s.unstaketorex now owner receiver fromNet fromCpu = .ok s') :
    Transacts now mover .purchase s s' := by
  simp only [unstaketorex, bind_eq_ok, requireAuth_eq_ok, check_eq_ok, checkCore_eq_ok,
    VoteState.checkVotingRequirement_eq_ok, exists_const, pure_eq_ok] at h
  obtain ⟨-, -, -, -, -, stake, -, res, -, token, ht, ⟨r₁, rex⟩, hp, ⟨r₂, delta⟩, hbal, s₁, hr,
    ⟨s₂, _⟩, ha, rfl⟩ := h
  obtain ⟨-, hpos, -, -⟩ := Token.transfer_eq_ok ht
  have hbuy := RexState.purchase_eq_ok hpos hp hbal
  exact purchase_transacts hv hr ha (.fromStake hbuy) (hv.pool.unlent_pos hbuy)
    (balance_to_rex (by decide) ht)

omit [Field K] [LinearOrder K] [CMath K] in
/-- The background work, and the owner's own business without new tokens. -/
theorem own_transacts {s₁ : State K} {mover : Option Name} {q : ℤ} (hb : s.Background now q s₁)
    (hf : EventFlow (RexEvent now .own) 0 0 s₁.rex s'.rex) (ht : s'.token = s₁.token) :
    Transacts now mover .work s s' := by
  refine ⟨0 + q, .of_background hb ?_, fun _ => ?_⟩
  · rwa [max_self]
  · rw [ht, hb.balance]
    ring

theorem sellrex_transacts {rex : Asset} {mover : Option Name} (hv : s.rex.Valid now)
    (h : s.sellrex now owner rex = .ok s') : Transacts now mover .work s s' := by
  simp only [sellrex, bind_eq_ok, requireAuth_eq_ok, check_eq_ok, require_eq_ok, exists_const,
    pure_eq_ok] at h
  obtain ⟨-, s₁, hr, rb, hb, ⟨hpos, -⟩, hm, ⟨r, o⟩, hf, -, ⟨s₂, pending⟩, ha, -, rb', hb', hpend,
    rfl⟩ := h
  obtain ⟨q, hback⟩ := runrex_flow hv hr
  obtain ⟨hframe, htoken⟩ := updateRexAccount_frame ha
  -- first what is due matures
  set r₁ : RexState := { s₁.rex with
    balances := s₁.rex.balances.set owner (processRexMaturities now.sec rb) }
  have hmove : RexEvent now .own 0 s₁.rex r₁ := .move hb (.mature rb)
  have hv₁ := hback.valid.event hmove
  have hb₁ : r₁.balances.find owner = some (processRexMaturities now.sec rb) :=
    Table.find_set_self _ _ _
  obtain ⟨p, hp, hrex, ⟨hc, rfl, rfl⟩ | ⟨hc, rfl, rfl⟩⟩ := RexState.fillRexOrder_eq_ok hf
  · rw [if_pos rfl] at hb' hpend ⊢
    -- the sale leaves what the open order of the owner has reserved
    have hres : r₁.reserved owner ≤
        (processRexMaturities now.sec rb).maturedRex - rex.amount := by
      rw [hframe.balances] at hb'
      obtain rfl := Option.some.inj ((Table.find_set_self _ _ _).symm.trans hb')
      rw [hframe.before] at hpend
      exact hpend
    have hsell : RexEvent now .own _ r₁ _ :=
      .sell hb₁ hpos hm hres hp hrex hc (hback.ready.namebids p hp)
    have hproceeds : 0 ≤ rex.amount * p.totalLendable / p.totalRex :=
      hv₁.pool.value_nonneg hv₁.accounts hp hpos.le hrex
    have hc₂ := updateRexAccount_collected (hv₁.event hsell) hproceeds ha
    have hflow := ((EventFlow.single_zero hmove).trans_nonpos hsell (by omega)).trans hc₂.flow
      (by omega)
    refine own_transacts hback (hflow.cast ?_ le_rfl) htoken
    ring
  · -- the order is queued
    rw [if_neg Bool.false_ne_true] at hb' hpend ⊢
    have htry : RexEvent now .own 0 r₁ _ := .trySale hb₁ hpos hm hp hrex hc
    have hc₂ := updateRexAccount_collected (hv₁.event htry) le_rfl ha
    have hqueue : RexEvent now .own 0 s₂.rex _ := .queue hb' hpos hframe.isOpen hpend
    have hflow := ((EventFlow.single_zero hmove).trans_zero (.single_zero htry)).trans_zero hc₂.flow
    exact own_transacts hback (hflow.trans_zero (.single_zero hqueue)) htoken

end Purchases

section Records

variable [Field K] [LinearOrder K] [CMath K]

omit [Field K] [LinearOrder K] [CMath K] in
theorem cnclrexorder_transacts {mover : Option Name} (h : s.cnclrexorder owner = .ok s') :
    Transacts now mover use s s' := by
  simp only [cnclrexorder, bind_eq_ok, requireAuth_eq_ok, check_eq_ok, require_eq_ok,
    exists_const, pure_eq_ok] at h
  obtain ⟨-, o, ho, hopen, rfl⟩ := h
  have hcancel : RexEvent now .own 0 s.rex _ := .cancel ho hopen
  exact ⟨0, .of_own (.single hcancel), fun _ => (add_zero _).symm⟩

theorem updaterex_transacts {mover : Option Name} (hv : s.rex.Valid now)
    (h : s.updaterex now owner = .ok s') : Transacts now mover .work s s' := by
  simp only [updaterex, RexState.getPool, bind_eq_ok, requireAuth_eq_ok, require_eq_ok,
    exists_const, pure_eq_ok] at h
  obtain ⟨-, s₁, hr, rb, hb, p, hp, value, hval, ⟨s₂, _⟩, ha, rfl⟩ := h
  obtain ⟨q, hback⟩ := runrex_flow hv hr
  have hval' : 0 < p.totalRex ∧ value = rb.rexBalance * p.totalLendable / p.totalRex ∨
      p.totalRex ≤ 0 ∧ value = 0 := by
    split_ifs at hval with hpos
    · simp only [rexValue, bind_eq_ok, check_eq_ok, exists_const, pure_eq_ok] at hval
      exact .inl ⟨hpos, hval.2.symm⟩
    · exact .inr ⟨not_lt.mp hpos, (pure_eq_ok.mp hval).symm⟩
  have hrestake : RexEvent now .own 0 s₁.rex _ := .restake hb hp hval'
  have hc := updateRexAccount_collected (hback.valid.event hrestake) le_rfl ha
  have hb₂ : s₂.rex.balances.find owner = some { rb with voteStake := value } := by
    rw [hc.frame.balances]
    exact Table.find_set_self _ _ _
  have hmove : RexEvent now .own 0 s₂.rex _ := .move hb₂ (.mature _)
  exact own_transacts hback (((EventFlow.single_zero hrestake).trans_zero hc.flow).trans_zero
    (.single_zero hmove)) hc.token

theorem consolidate_transacts {mover : Option Name} (hv : s.rex.Valid now)
    (h : s.consolidate now owner = .ok s') : Transacts now mover .work s s' := by
  simp only [consolidate, bind_eq_ok, requireAuth_eq_ok, require_eq_ok, exists_const,
    pure_eq_ok] at h
  obtain ⟨-, s₁, hr, rb, hb, ⟨s₂, pending⟩, ha, rfl⟩ := h
  obtain ⟨q, hback⟩ := runrex_flow hv hr
  have hc := updateRexAccount_collected hback.valid le_rfl ha
  have hb₂ := hc.frame.balances ▸ hb
  have hmove : RexEvent now .own 0 s₂.rex _ := .move hb₂ (.consolidate rb)
  rw [← hc.frame.after] at hmove
  exact own_transacts hback (hc.flow.trans_zero (.single_zero hmove)) hc.token

theorem mvtosavings_transacts {rex : Asset} {mover : Option Name} (hv : s.rex.Valid now)
    (h : s.mvtosavings now owner rex = .ok s') : Transacts now mover .work s s' := by
  simp only [mvtosavings, bind_eq_ok, requireAuth_eq_ok, require_eq_ok, check_eq_ok, exists_const,
    pure_eq_ok] at h
  obtain ⟨-, s₁, hr, rb, hb, ⟨hpos, -⟩, ⟨s₂, pending⟩, ha, rb', hm, rfl⟩ := h
  obtain ⟨q, hback⟩ := runrex_flow hv hr
  have hc := updateRexAccount_collected hback.valid le_rfl ha
  have hb₂ := hc.frame.balances ▸ hb
  have hmove : RexEvent now .own 0 s₂.rex _ :=
    .move hb₂ (.toSavings hpos (hc.frame.after ▸ hm))
  exact own_transacts hback (hc.flow.trans_zero (.single_zero hmove)) hc.token

theorem mvfrsavings_transacts {rex : Asset} {mover : Option Name} (hv : s.rex.Valid now)
    (h : s.mvfrsavings now owner rex = .ok s') : Transacts now mover .work s s' := by
  simp only [mvfrsavings, bind_eq_ok, requireAuth_eq_ok, require_eq_ok, check_eq_ok, exists_const,
    pure_eq_ok] at h
  obtain ⟨-, s₁, hr, rb, hb, ⟨hpos, -⟩, rb', hm, ⟨s₂, pending⟩, ha, rfl⟩ := h
  obtain ⟨q, hback⟩ := runrex_flow hv hr
  have hmove : RexEvent now .own 0 s₁.rex _ := .move hb (.fromSavings hpos hm)
  have hc := updateRexAccount_collected (hback.valid.event hmove) le_rfl ha
  exact own_transacts hback ((EventFlow.single_zero hmove).trans_zero hc.flow) hc.token

omit [Field K] [LinearOrder K] [CMath K] in
/-- What is empty is deleted. -/
theorem close_flow {r r' : RexState} (ho : ∀ o, r.orders.find owner = some o → o.isOpen = true)
    (h : (r.closeFund owner).closeBalance owner = .ok r') :
    EventFlow (RexEvent now .own) 0 0 r r' := by
  obtain ⟨hfund, horders⟩ : EventFlow (RexEvent now .own) 0 0 r (r.closeFund owner) ∧
      (r.closeFund owner).orders = r.orders := by
    unfold RexState.closeFund
    split_ifs with hc
    · simp only [Bool.and_eq_true, Bool.not_eq_true', decide_eq_true_eq] at hc
      have hclose : RexEvent now .own 0 r _ := .closeFund hc.2 hc.1
      exact ⟨.single_zero hclose, rfl⟩
    · exact ⟨.refl_zero, rfl⟩
  unfold RexState.closeBalance at h
  split at h
  · exact pure_eq_ok.mp h ▸ hfund
  · rename_i rb hb
    simp only [bind_eq_ok, check_eq_ok, exists_const, pure_eq_ok] at h
    obtain ⟨hz, rfl⟩ := h
    have hclose : RexEvent now .own 0 (r.closeFund owner) _ :=
      .closeBalance hb hz (by rwa [horders])
    exact hfund.trans_zero (.single_zero hclose)

theorem closerex_transacts {mover : Option Name} (hv : s.rex.Valid now)
    (h : s.closerex now owner = .ok s') : Transacts now mover .work s s' := by
  simp only [closerex, bind_eq_ok, requireAuth_eq_ok, exists_const, pure_eq_ok] at h
  obtain ⟨-, s₁, hr, ⟨s₂, _⟩, ha, rex, hclose, rfl⟩ := h
  split_ifs at hr
  · obtain ⟨q, hback⟩ := runrex_flow hv hr
    have hc := updateRexAccount_collected hback.valid le_rfl ha
    exact own_transacts hback (hc.flow.trans_zero (close_flow hc.frame.isOpen hclose)) hc.token
  · obtain rfl := pure_eq_ok.mp hr
    have hc := updateRexAccount_collected hv le_rfl ha
    refine ⟨0, .of_own ?_, fun _ => ?_⟩
    · rw [max_self]
      exact hc.flow.trans_zero (close_flow hc.frame.isOpen hclose)
    · rw [add_zero]
      exact congrArg (fun t => t.balance rexAccount) hc.token

omit [CMath K] [LinearOrder K] [Field K] in
/-- The vote of an owner is brought up to date. -/
theorem updateRexStake_flow (now : BlockTimestamp) (h : s.updateRexStake owner = .ok s') :
    EventFlow (RexEvent now .own) 0 0 s.rex s'.rex ∧ s'.token = s.token := by
  unfold updateRexStake at h
  split at h
  · rename_i rb p hb hp
    split_ifs at h with ha
    · simp only [rexValue, bind_eq_ok, check_eq_ok, exists_const, pure_eq_ok] at h
      obtain ⟨value, ⟨-, rfl⟩, rfl⟩ := h
      have hrestake : RexEvent now .own 0 s.rex _ :=
        .restake hb hp (.inl ⟨RexState.available_eq_true ha hp, rfl⟩)
      exact ⟨.single_zero hrestake, rfl⟩
    · exact pure_eq_ok.mp h ▸ ⟨.refl_zero, rfl⟩
  · exact pure_eq_ok.mp h ▸ ⟨.refl_zero, rfl⟩

theorem voteproducer_transacts {voter proxy : Name} {producers : List Name} {mover : Option Name}
    (h : s.voteproducer now voter proxy producers = .ok s') : Transacts now mover use s s' := by
  simp only [voteproducer, bind_eq_ok, requireAuth_eq_ok, exists_const] at h
  obtain ⟨-, s₁, hu, vote, -, h⟩ := h
  obtain ⟨hflow, ht⟩ := updateRexStake_flow now hu
  obtain rfl : { s₁ with vote } = s' := by
    split_ifs at h
    · exact pure_eq_ok.mp (check_bind_eq_ok.mp h).2
    · exact pure_eq_ok.mp h
  refine ⟨0, .of_own ?_, fun _ => ?_⟩
  · rwa [max_self]
  · rw [add_zero]
    exact congrArg (fun t => t.balance rexAccount) ht

/-- A change of stake brings no tokens of REX, unless `eosio.rex` itself stakes. -/
theorem changebw_transacts {sender receiver : Name} {net cpu : ℤ} {transfer : Bool}
    (h : s.changebw now sender receiver net cpu transfer = .ok s') :
    Transacts now (some sender) use s s' := by
  have hch := changebw_changes h
  simp only [changebw, bind_eq_ok, check_eq_ok, requireAuth_eq_ok, exists_const, pure_eq_ok] at h
  obtain ⟨-, -, -, stake, -, res, -, s₁, hr, s₂, hu, vote, -, rfl⟩ := h
  have hrex : s₁.rex = s.rex := by
    unfold changeRefund at hr
    by_cases hs : sender = stakeAccount
    · exact pure_eq_ok.mp (if_pos hs ▸ hr) ▸ rfl
    · rw [if_neg hs] at hr
      simp only [bind_eq_ok, pure_eq_ok] at hr
      obtain ⟨⟨stake₁, _, _⟩, -, token, -, rfl⟩ := hr
      rfl
  obtain ⟨hflow, -⟩ := updateRexStake_flow now hu
  rw [hrex] at hflow
  refine ⟨0, .of_own ?_, fun hs => ?_⟩
  · rwa [max_self]
  · rw [add_zero]
    refine hch.token.balance_eq ?_
    have hne : rexAccount ≠ sender := fun he => hs (by rw [he])
    have hstake : rexAccount ≠ stakeAccount := by decide
    simp [hne, hstake]

end Records

section Loans

theorem rentRex_transacts {kind : Resource} {sender receiver : Name} {payment fund : Asset}
    {mover : Option Name} (hv : s.rex.Valid now)
    (h : s.rentRex now kind sender receiver payment fund = .ok s') : Transacts now mover .work s
      s' := by
  simp only [rentRex, RexState.rentTokens, RexState.addLoanToRexPool, RexState.getPool, bind_eq_ok,
    requireAuth_eq_ok, check_eq_ok, checkCore_eq_ok, require_eq_ok, exists_const, pure_eq_ok] at h
  obtain ⟨-, s₁, hr, ha, -, -, ⟨hpay, hfund⟩, r₁, hf, p, hp, rented, ho, hfavor, r₂,
    ⟨r₃, hadd, p₁, hp₁, rfl⟩, p₂, hp₂, hkey, res, -, rfl⟩ := h
  obtain ⟨q, hback⟩ := runrex_flow hv hr
  obtain ⟨b, hb, hpos, hle, hr₁⟩ := RexState.transferFromFund_eq_ok hf
  have hdebit : RexEvent now .own (-(payment.amount + fund.amount)) s₁.rex r₁ := by
    rw [hr₁]
    exact .debit hb hpos hle
  have hset : r₁.ret.Settled now.sec := by
    rw [hr₁]
    exact hback.ready.settled
  obtain rfl := Except.ok.inj (hadd.symm.trans (RexState.addToRexReturnPool_settled hset hpay))
  obtain rfl : p = p₁ := Option.some.inj (hp.symm.trans hp₁)
  obtain rfl := Option.some.inj hp₂
  let loan : RexLoan := ⟨sender, receiver, payment.amount, fund.amount, rented,
    now.usec + loanPeriod⟩
  have ho' : getBancorOutput p.totalRent p.totalUnlent loan.payment = .ok loan.totalStaked := ho
  have hf' : (r₁.funds.find loan.sender).isSome := by
    rw [hr₁]
    simp [loan]
  have hlend : RexEvent now .lend (loan.payment + loan.balance) r₁ _ :=
    .lend (by rw [hr₁]; exact ha) hp ho' hpay hfavor hfund hf' hkey rfl
  refine ⟨_, .of_lend hback (.single hdebit) hlend, fun _ => ?_⟩
  show s₁.token.balance rexAccount = _
  rw [hback.balance]
  show _ = _ + (payment.amount + fund.amount + -(payment.amount + fund.amount) + q)
  ring

theorem fundloan_transacts {kind : Resource} {sender : Name} {loanNum : ℕ} {payment : Asset}
    {mover : Option Name} (h : s.fundloan now kind sender loanNum payment = .ok s') :
    Transacts now mover use s s' := by
  simp only [fundloan, RexState.fundRexLoan, bind_eq_ok, requireAuth_eq_ok, check_eq_ok,
    checkCore_eq_ok, require_eq_ok, exists_const, pure_eq_ok] at h
  obtain ⟨-, -, rex, ⟨r₁, hf, loan, hl, -, -, rfl⟩, rfl⟩ := h
  obtain ⟨b, hb, hpos, hle, rfl⟩ := RexState.transferFromFund_eq_ok hf
  have hdebit : RexEvent now .own (-payment.amount) s.rex _ := .debit hb hpos hle
  have hfunded : RexEvent now .own payment.amount _ _ := .fundLoan hl hpos
  have hflow := (EventFlow.single hdebit).trans (.single hfunded) (by omega)
  exact ⟨0, .of_own (hflow.cast (by ring) (by omega)), fun _ => (add_zero _).symm⟩

theorem defloan_transacts {kind : Resource} {sender : Name} {loanNum : ℕ} {amount : Asset}
    {mover : Option Name} (h : s.defloan now kind sender loanNum amount = .ok s') :
    Transacts now mover use s s' := by
  simp only [defloan, RexState.defundRexLoan, bind_eq_ok, requireAuth_eq_ok, check_eq_ok,
    checkCore_eq_ok, require_eq_ok, exists_const, pure_eq_ok] at h
  obtain ⟨-, -, rex, ⟨loan, hl, -, -, hle, ht⟩, rfl⟩ := h
  obtain ⟨hpos, -⟩ := RexState.transferToFund_eq_ok ht
  have hloan : RexEvent now .own (-amount.amount) s.rex _ := .defundLoan hl hpos hle
  have hcredit := RexState.transferToFund_event now ht
  have hflow := (EventFlow.single hloan).trans (.single hcredit) (by omega)
  exact ⟨0, .of_own (hflow.cast (by ring) (by omega)), fun _ => (add_zero _).symm⟩

theorem setrex_transacts {balance : Asset} {mover : Option Name} (h : s.setrex balance = .ok s') :
    Transacts now mover use s s' := by
  simp only [setrex, bind_eq_ok, check_eq_ok, checkCore_eq_ok, require_eq_ok, exists_const,
    pure_eq_ok] at h
  obtain ⟨hpos, -, p, hp, rfl⟩ := h
  have hset : RexEvent now .own 0 s.rex _ := .setRent hp hpos
  exact ⟨0, .of_own (.single hset), fun _ => (add_zero _).symm⟩

theorem rexexec_transacts {max : ℕ} {mover : Option Name} (hv : s.rex.Valid now)
    (h : s.rexexec now owner max = .ok s') :
    Transacts now mover (if max = 0 then ⟨false, false⟩ else .work) s s' := by
  simp only [rexexec, bind_eq_ok, requireAuth_eq_ok, exists_const] at h
  split_ifs with hmax
  · subst hmax
    obtain ⟨q, hflow, hb⟩ := runrex_zero_flow hv h.2
    exact ⟨q, .of_setup hflow, fun _ => hb⟩
  · obtain ⟨q, hback⟩ := runrex_flow hv h.2
    exact own_transacts hback .refl_zero rfl

end Loans

section Fees

variable [Field K] [LinearOrder K]

/-- The part of a fee that is for REX. -/
theorem channelToRexOrPools_flow {sender : Name} {amount : ℤ} {req : Bool}
    (h : s.channelToRexOrPools now sender amount req = .ok s') :
    ∃ q, EventFlow (RexEvent now .setup) q q s.rex s'.rex ∧
      (sender ≠ rexAccount → s'.token.balance rexAccount = s.token.balance rexAccount + q) := by
  obtain ⟨s₁, rest, h₁, h₂⟩ := channelToRexOrPools_cases h
  have hc := transitionChannelToPools_changes h₁
  have hrex : s₁.rex = s.rex := hc.same .rex (by simp)
  have hbal : sender ≠ rexAccount →
      s₁.token.balance rexAccount = s.token.balance rexAccount := by
    intro hs
    have hpool : rexAccount ≠ srpoolAccount := by decide
    exact hc.token.balance_eq (by simp [hs.symm, hpool])
  rcases h₂ with rfl | h₂
  · exact ⟨0, hrex ▸ .refl_zero, fun hs => (hbal hs).trans (add_zero _).symm⟩
  · obtain ⟨q, hflow, hb⟩ := channelToRex_flow h₂
    rw [hrex] at hflow
    exact ⟨q, hflow, fun hs => by rw [hb hs, hbal hs]⟩

theorem payRamFee_flow {payer : Name} {fee : ℤ} (h : s.payRamFee now payer fee = .ok s') :
    ∃ q, EventFlow (RexEvent now .setup) q q s.rex s'.rex ∧
      (payer ≠ rexAccount → s'.token.balance rexAccount = s.token.balance rexAccount + q) := by
  unfold payRamFee at h
  split_ifs at h
  · obtain ⟨token, ht, h⟩ := bind_eq_ok.mp h
    obtain ⟨q, hflow, hb⟩ := channelToRexOrPools_flow h
    refine ⟨q, hflow, fun hp => ?_⟩
    rw [hb (by decide), Token.balance_transfer ht, if_neg hp.symm, if_neg (by decide)]
    ring
  · exact pure_eq_ok.mp h ▸ ⟨0, .refl_zero, fun _ => (add_zero _).symm⟩

theorem buyram_transacts {payer receiver : Name} {quant : Asset}
    (h : s.buyram now payer receiver quant = .ok s') : Transacts now (some payer) use s s' := by
  simp only [buyram, bind_eq_ok, requireAuth_eq_ok, check_eq_ok, checkCore_eq_ok, exists_const,
    pure_eq_ok] at h
  obtain ⟨-, ram, -, -, -, token, ht, s₁, hf, ⟨ram', _⟩, -, rfl⟩ := h
  obtain ⟨q, hflow, hb⟩ := payRamFee_flow hf
  refine ⟨q, .of_setup hflow, fun hs => ?_⟩
  have hne : payer ≠ rexAccount := fun he => hs (by rw [he])
  show s₁.token.balance rexAccount = _
  rw [hb hne, Token.balance_transfer ht, if_neg hne.symm, if_neg (by decide)]
  ring

theorem buyrambytes_transacts {payer receiver : Name} {bytes : ℕ}
    (h : s.buyrambytes now payer receiver bytes = .ok s') : Transacts now (some payer) use s
      s' := by
  simp only [buyrambytes, bind_eq_ok] at h
  obtain ⟨_, -, _, -, _, -, h⟩ := h
  exact buyram_transacts h

theorem sellram_transacts {account : Name} {bytes : ℤ}
    (h : s.sellram now account bytes = .ok s') : Transacts now (some account) use s s' := by
  simp only [sellram, bind_eq_ok, requireAuth_eq_ok, check_eq_ok, exists_const] at h
  obtain ⟨-, ram, -, -, _, -, -, _, -, ⟨ram', tokens⟩, -, token, ht, hf⟩ := h
  obtain ⟨q, hflow, hb⟩ := payRamFee_flow hf
  refine ⟨q, .of_setup hflow, fun hs => ?_⟩
  have hne : account ≠ rexAccount := fun he => hs (by rw [he])
  rw [hb hne, Token.balance_transfer ht, if_neg (by decide), if_neg hne.symm]
  ring

theorem powerup_transacts [FloorRing K] [CMath K] {payer receiver : Name} {days : ℕ}
    {netFrac cpuFrac : ℤ} {maxPayment : Asset}
    (h : s.powerup now payer receiver days netFrac cpuFrac maxPayment = .ok s') :
    Transacts now (some payer) use s s' := by
  simp only [powerup, bind_eq_ok, requireAuth_eq_ok, check_eq_ok, checkCore_eq_ok, exists_const,
    pure_eq_ok] at h
  obtain ⟨-, m, -, -, -, -, -, -, -, ⟨s₁, m₁, _, _⟩, hq, _, -, _, -, -, -, s₂, h₂, s₃, h₃, s₄, h₄,
    rfl⟩ := h
  obtain ⟨res, powup, rfl⟩ := processPowerupQueue_frame hq
  obtain ⟨res₂, rfl⟩ := adjustResources_frame h₂
  obtain ⟨res₃, rfl⟩ := adjustResources_frame h₃
  obtain ⟨q, hflow, hb⟩ := channelToRexOrPools_flow h₄
  exact ⟨q, .of_setup hflow, fun hs => hb fun he => hs (by rw [he])⟩

theorem onblock_transacts (timestamp : BlockTimestamp) (producer : Name) {mover : Option Name} :
    Transacts now mover use s (s.onblock now timestamp producer) := by
  obtain ⟨_, _, _, q, r, names, pay, producers, he, -, hb⟩ := s.onblock_eq now timestamp producer
  rw [he]
  refine ⟨0, .of_setup ?_, fun _ => (add_zero _).symm⟩
  have hr : r = 0 ∨ s.rex.available = true := by
    cases hb with
    | same => exact .inl rfl
    | closed =>
      unfold rexNamebid
      split_ifs with ha
      · exact .inr ha
      · exact .inl rfl
  rcases hr with rfl | ha
  · simp only [addNamebids, add_zero, Option.map_id']
    exact .refl_zero
  · obtain ⟨p, hp, hpos⟩ := RexState.exists_pool_of_available ha
    have hbid : RexEvent now .setup 0 s.rex _ := .namebid (q := r) hp hpos
    simp only [addNamebids, hp, Option.map_some]
    exact .single_zero hbid

end Fees

end State

/-! ## Every action -/

section

variable {now : BlockTimestamp} {use : RexUse} {s s' : State K}

/-- An action that has nothing to do with REX. -/
theorem Transacts.of_changes {parts : List Part} {holders : List Name} {mover : Option Name}
    (h : Changes parts holders s s') (hp : Part.rex ∉ parts)
    (hh : mover ≠ some rexAccount → rexAccount ∉ holders) : Transacts now mover use s s' := by
  have hrex : s'.rex = s.rex := h.same .rex hp
  refine ⟨0, hrex ▸ .refl, fun hm => ?_⟩
  rw [h.token.balance_eq (hh hm), add_zero]

variable [Field K] [LinearOrder K] [FloorRing K] [CMath K]

/-- **Every action** does to the REX tables what a sequence of events does. -/
theorem Action.exec_rex {env : Env} {a : Action K} (hv : s.rex.Valid env.now)
    (h : a.exec env s = .ok s') : Transacts env.now a.mover a.use s s' := by
  have hch := Action.exec_changes h
  cases a with
  | buyram => exact State.buyram_transacts h
  | buyrambytes => exact State.buyrambytes_transacts h
  | sellram => exact State.sellram_transacts h
  | delegatebw =>
    simp only [exec, State.delegatebw, bind_eq_ok, check_eq_ok, State.checkCore_eq_ok,
      exists_const] at h
    exact State.changebw_transacts h.2.2.2.2.2.2
  | undelegatebw =>
    simp only [exec, State.undelegatebw, bind_eq_ok, check_eq_ok, State.checkCore_eq_ok,
      exists_const] at h
    exact State.changebw_transacts h.2.2.2.2.2
  | voteproducer => exact State.voteproducer_transacts h
  | deposit => exact State.deposit_transacts h
  | withdraw => exact State.withdraw_transacts hv h
  | buyrex => exact State.buyrex_transacts hv h
  | unstaketorex => exact State.unstaketorex_transacts hv h
  | sellrex => exact State.sellrex_transacts hv h
  | cnclrexorder => exact State.cnclrexorder_transacts h
  | updaterex => exact State.updaterex_transacts hv h
  | rentRex => exact State.rentRex_transacts hv h
  | fundloan => exact State.fundloan_transacts h
  | defloan => exact State.defloan_transacts h
  | setrex => exact State.setrex_transacts h
  | rexexec => exact State.rexexec_transacts hv h
  | consolidate => exact State.consolidate_transacts hv h
  | mvtosavings => exact State.mvtosavings_transacts hv h
  | mvfrsavings => exact State.mvfrsavings_transacts hv h
  | closerex => exact State.closerex_transacts hv h
  | onblock timestamp producer =>
    obtain rfl := Except.ok.inj h
    exact State.onblock_transacts timestamp producer
  | powerup => exact State.powerup_transacts h
  | _ =>
    refine .of_changes hch (by simp [parts]) fun hm => not_mem_holders hm ?_
    simp only [accounts]
    decide

omit [Field K] [LinearOrder K] [FloorRing K] [CMath K] in
/-- What the events of an action keep is kept by the action. -/
theorem Transacts.valid {mover : Option Name} (h : Transacts now mover use s s')
    (hv : s.rex.Valid now) : s'.rex.Valid now := by
  obtain ⟨q, ha, -⟩ := h
  exact hv.action ha

theorem RexState.valid_empty (now : BlockTimestamp) : RexState.empty.Valid now := by
  refine ⟨⟨?_, ?_, ?_, ?_, ?_, ?_⟩, ⟨rfl, rfl, rfl, le_rfl, le_rfl, le_rfl, fun _ => rfl, ?_,
    fun _ => rfl⟩, fun rp hp => ?_⟩
  case refine_8 => cases hp
  all_goals simp [RexState.empty]

/-- **An invariant of the events** holds in every reachable state. -/
theorem rexInvariant_of_run {init : State K → Prop} {allowed : State K → Action K → Prop}
    {P : BlockTimestamp → RexState → Prop} {t : BlockTimestamp} {s : State K}
    (hinit : ∀ s, init s → s.rex = .empty) (hempty : ∀ t, P t .empty)
    (hmono : ∀ t t' r, t ≤ t' → P t r → P t' r)
    (hopen : ∀ t q r r', r.Valid t → P t r → RexOpening t q r r' → P t r')
    (hevent : ∀ t k q r r', r.Valid t → P t r → RexEvent t k q r r' → P t r')
    (h : Run init (Step allowed) t s) : s.rex.Valid t ∧ P t s.rex := by
  refine Run.invariant_at (P := fun t s => s.rex.Valid t ∧ P t s.rex) (fun t s hs => ?_)
    (fun t t' s s' hs ht hstep => ?_) h
  · rw [hinit s hs]
    exact ⟨RexState.valid_empty t, hempty t⟩
  · obtain ⟨isAccount, a, -, he⟩ := hstep
    have hv := hs.1.mono ht
    obtain ⟨q, ha, -⟩ := Action.exec_rex hv he
    exact hv.action_keeps ha (hopen t') (hevent t') (hmono t t' _ ht hs.2)

/-- A chain on which nobody has used REX yet. -/
def RexInit (s : State K) : Prop := s.rex = .empty

/-- **The REX tables** are in order in every reachable state. -/
theorem rexValid_of_run {allowed : State K → Action K → Prop} {t : BlockTimestamp} {s : State K}
    (h : Run RexInit (Step allowed) t s) : s.rex.Valid t :=
  (rexInvariant_of_run (P := fun _ _ => True) (fun _ => id) (fun _ => trivial)
    (fun _ _ _ _ _ => trivial) (fun _ _ _ _ _ _ _ => trivial) (fun _ _ _ _ _ _ _ _ => trivial) h).1

end

end EosioSystem
