import EosioSystem.NameAuctions
import EosioSystem.PoolStakes
import EosioSystem.Rex.ActionEvents

/-!
# Payouts of the proceeds of names

The proceeds of a closed auction are recorded for REX and for the staking pools, and wait with
`eosio.names` until an action that is not about names passes them on: the background work of REX, or
a claim from a pool.

## Main definitions

* `RexState.namebids`, `PoolTables.namebids`: the proceeds that wait for REX and for the pools
* `Payout`: what an action that is not about names pays out of them
-/

namespace EosioSystem

open Checked

variable {K : Type}

/-! ## Recorded proceeds -/

/-- The proceeds of names that wait for REX. -/
def RexState.namebids (r : RexState) : ℤ := r.pool.elim 0 RexPool.namebidProceeds

/-- The proceeds of names that wait for the staking pools. -/
def PoolTables.namebids (p : PoolTables K) : ℤ := p.state.elim 0 StakingPoolState.namebidProceeds

/-- Transfers that leave the tokens of `eosio.names` alone. -/
def Token.KeepsNames (t t' : Token) : Prop := ∃ holders, namesAccount ∉ holders ∧ t.Flows holders t'

namespace Token.KeepsNames

variable {t t₁ t' : Token}

theorem refl : t.KeepsNames t := ⟨[], by simp, .refl⟩

theorem trans (h₁ : t.KeepsNames t₁) (h₂ : t₁.KeepsNames t') : t.KeepsNames t' := by
  obtain ⟨l₁, hn₁, hf₁⟩ := h₁
  obtain ⟨l₂, hn₂, hf₂⟩ := h₂
  refine ⟨l₁ ++ l₂, by simp [hn₁, hn₂], ?_⟩
  exact (hf₁.mono fun _ ha => by simp [ha]).trans (hf₂.mono fun _ ha => by simp [ha])

theorem transfer {a b : Name} {q : ℤ} (ha : a ≠ namesAccount) (hb : b ≠ namesAccount)
    (h : t.transfer a b q = .ok t') : t.KeepsNames t' :=
  ⟨[a, b], by simp [ha.symm, hb.symm], .single h (by simp) (by simp)⟩

theorem balance_eq (h : t.KeepsNames t') : t'.balance namesAccount = t.balance namesAccount := by
  obtain ⟨_, hn, hf⟩ := h
  exact hf.balance_eq hn

end Token.KeepsNames

/-- What is paid out of the proceeds: nothing, or with its tokens what waits for REX or for the
pools. -/
inductive Payout (s s' : State K) : Prop
  | none (ht : s.token.KeepsNames s'.token) (hr : s'.rex.namebids = s.rex.namebids)
      (hp : s'.pools.namebids = s.pools.namebids)
  | toRex {t t' : Token} (h : s.token.KeepsNames t)
      (ht : t.transfer namesAccount rexAccount s.rex.namebids = .ok t')
      (h' : t'.KeepsNames s'.token) (hr : s'.rex.namebids = 0)
      (hp : s'.pools.namebids = s.pools.namebids)
  | toPools {t t' : Token} (h : s.token.KeepsNames t)
      (ht : t.transfer namesAccount srpoolAccount s.pools.namebids = .ok t')
      (h' : t'.KeepsNames s'.token) (hr : s'.rex.namebids = s.rex.namebids)
      (hp : s'.pools.namebids = 0)

namespace Payout

variable {s s₁ s' : State K}

theorem refl : Payout s s := .none .refl rfl rfl

/-- Something else before or after a payout. -/
theorem of_keeps (ht : s.token.KeepsNames s₁.token) (hr : s₁.rex.namebids = s.rex.namebids)
    (hp : s₁.pools.namebids = s.pools.namebids) (h : Payout s₁ s') : Payout s s' := by
  cases h with
  | none ht' hr' hp' => exact .none (ht.trans ht') (hr'.trans hr) (hp'.trans hp)
  | toRex h ht' h' hr' hp' =>
    rw [hr] at ht'
    exact .toRex (ht.trans h) ht' h' hr' (hp'.trans hp)
  | toPools h ht' h' hr' hp' =>
    rw [hp] at ht'
    exact .toPools (ht.trans h) ht' h' (hr'.trans hr) hp'

theorem keeps (h : Payout s s₁) (ht : s₁.token.KeepsNames s'.token)
    (hr : s'.rex.namebids = s₁.rex.namebids) (hp : s'.pools.namebids = s₁.pools.namebids) :
    Payout s s' := by
  cases h with
  | none ht' hr' hp' => exact .none (ht'.trans ht) (hr.trans hr') (hp.trans hp')
  | toRex h ht' h' hr' hp' => exact .toRex h ht' (h'.trans ht) (hr.trans hr') (hp.trans hp')
  | toPools h ht' h' hr' hp' => exact .toPools h ht' (h'.trans ht) (hr.trans hr') (hp.trans hp')

theorem rex_nonneg (h : Payout s s') (h₀ : 0 ≤ s.rex.namebids) : 0 ≤ s'.rex.namebids := by
  cases h with
  | none _ hr => exact hr ▸ h₀
  | toRex _ _ _ hr => exact hr.ge
  | toPools _ _ _ hr => exact hr ▸ h₀

theorem pools_nonneg (h : Payout s s') (h₀ : 0 ≤ s.pools.namebids) : 0 ≤ s'.pools.namebids := by
  cases h with
  | none _ _ hp => exact hp ▸ h₀
  | toRex _ _ _ _ hp => exact hp ▸ h₀
  | toPools _ _ _ _ hp => exact hp.ge

/-- The tokens that are not for REX or the pools stay. -/
theorem free_eq (h : Payout s s') :
    s'.token.balance namesAccount - s'.rex.namebids - s'.pools.namebids =
      s.token.balance namesAccount - s.rex.namebids - s.pools.namebids := by
  cases h with
  | none ht hr hp => rw [ht.balance_eq, hr, hp]
  | toRex h ht h' hr hp =>
    have hne : namesAccount ≠ rexAccount := by decide
    rw [h'.balance_eq, Token.balance_transfer ht, h.balance_eq, if_pos rfl, if_neg hne, hr, hp]
    ring
  | toPools h ht h' hr hp =>
    have hne : namesAccount ≠ srpoolAccount := by decide
    rw [h'.balance_eq, Token.balance_transfer ht, h.balance_eq, if_pos rfl, if_neg hne, hr, hp]
    ring

end Payout

/-! ## REX -/

namespace RexState

variable {now : BlockTimestamp} {r r' : RexState}

theorem namebids_congr (h : r'.pool = r.pool) : r'.namebids = r.namebids :=
  congrArg (fun p => Option.elim p 0 RexPool.namebidProceeds) h

theorem namebids_eq {p : RexPool} (h : r.pool = some p) : r.namebids = p.namebidProceeds := by
  rw [namebids, h]
  rfl

theorem updateRexPool_namebids {t : ℕ} (h : r.updateRexPool t = .ok r') :
    r'.namebids = r.namebids := by
  obtain ⟨ret, change, -, ⟨-, rfl⟩ | ⟨-, p, hp, rfl⟩⟩ := updateRexPool_eq_ok h
  · rfl
  · rw [namebids_eq hp]
    rfl

theorem addToRexReturnPool_namebids {t : ℕ} {fee : ℤ} (h : r.addToRexReturnPool t fee = .ok r') :
    r'.namebids = r.namebids := by
  simp only [addToRexReturnPool, bind_eq_ok, pure_eq_ok] at h
  obtain ⟨r₁, hu, rfl⟩ := h
  rw [← updateRexPool_namebids hu]
  split_ifs
  · rfl
  · rfl

theorem addLoanToRexPool_namebids {t : ℕ} {payment rented : ℤ} {new : Bool}
    (h : r.addLoanToRexPool t payment rented new = .ok r') : r'.namebids = r.namebids := by
  simp only [addLoanToRexPool, getPool, bind_eq_ok, require_eq_ok, pure_eq_ok] at h
  obtain ⟨r₁, hr, p, hp, rfl⟩ := h
  rw [← addToRexReturnPool_namebids hr, namebids_eq hp]
  rfl

theorem processExpiredLoan_namebids {t : ℕ} {key : Resource × ℕ} {loan : RexLoan}
    {deleteLoan : Bool} {delta : ℤ}
    (h : r.processExpiredLoan t key loan = .ok (r', deleteLoan, delta)) :
    r'.namebids = r.namebids := by
  simp only [processExpiredLoan, removeLoanFromRexPool, getPool, bind_eq_ok, require_eq_ok,
    pure_eq_ok] at h
  obtain ⟨r₁, ⟨p, hp, d, -, hr₁⟩, _, -, rented, -, h⟩ := h
  have h₁ : r₁.namebids = r.namebids := by
    rw [← hr₁, namebids_eq hp]
    rfl
  rw [← h₁]
  split_ifs at h
  · simp only [bind_eq_ok, pure_eq_ok, Prod.mk.injEq] at h
    obtain ⟨r₂, hr₂, rfl, -⟩ := h
    have hr := addLoanToRexPool_namebids hr₂
    exact hr
  · simp only [transferToFund, bind_eq_ok, check_eq_ok, exists_const, pure_eq_ok,
      Prod.mk.injEq] at h
    obtain ⟨_, ⟨-, rfl⟩, rfl, -⟩ := h
    rfl
  · simp only [bind_eq_ok, pure_eq_ok, Prod.mk.injEq] at h
    obtain ⟨_, rfl, rfl, -⟩ := h
    rfl

theorem fillRexOrder_namebids {owner : Name} {rb : RexBalance} {rex : ℤ} {o : RexOrderOutcome}
    (h : r.fillRexOrder owner rb rex = .ok (r', o)) : r'.namebids = r.namebids := by
  obtain ⟨p, hp, -, ⟨-, rfl, -⟩ | ⟨-, rfl, -⟩⟩ := fillRexOrder_eq_ok h
  · rw [namebids_eq hp]
    rfl
  · rfl

theorem fillQueuedOrder_namebids {owner : Name} (h : r.fillQueuedOrder owner = .ok r') :
    r'.namebids = r.namebids := by
  unfold fillQueuedOrder at h
  split at h
  · obtain ⟨⟨r₁, result⟩, hf, h⟩ := bind_eq_ok.mp h
    rw [← fillRexOrder_namebids hf]
    dsimp only at h
    split_ifs at h
    · exact pure_eq_ok.mp h ▸ rfl
    · exact pure_eq_ok.mp h ▸ rfl
  · exact pure_eq_ok.mp h ▸ rfl

theorem fillQueuedOrders_namebids {l : List Name} (h : r.fillQueuedOrders l = .ok r') :
    r'.namebids = r.namebids := by
  induction l generalizing r with
  | nil => exact pure_eq_ok.mp h ▸ rfl
  | cons a l ih =>
    obtain ⟨r₁, h₁, h₂⟩ := bind_eq_ok.mp h
    exact (ih h₂).trans (fillQueuedOrder_namebids h₁)

theorem namebids_purchase {owner : Name} {payment : ℤ} (h : RexPurchase now owner payment r r') :
    r'.namebids = r.namebids := by
  cases h with
  | buy hq hp hr =>
    cases hr' : r.pool with
    | none =>
      rw [hr'] at hp
      cases hp
      rw [namebids, namebids, hr']
      rfl
    | some p =>
      rw [hr'] at hp
      rw [namebids_eq hr']
      cases hp <;> rfl

/-- Proceeds are recorded only while there is REX to receive them. -/
def NamebidsDue (r : RexState) : Prop := 0 < r.namebids → r.available = true

theorem NamebidsDue.congr (h : r.NamebidsDue) (hp : r'.pool = r.pool) : r'.NamebidsDue := by
  rw [NamebidsDue, namebids_congr hp, available, hp]
  exact h

namespace NamebidsDue

theorem of_pool {p : RexPool} (hp : r.pool = some p)
    (h : 0 < p.namebidProceeds → 0 < p.totalRex) : r.NamebidsDue := by
  rw [NamebidsDue, namebids_eq hp, available, hp]
  simpa using h

theorem rex_pos (h : r.NamebidsDue) {p : RexPool} (hp : r.pool = some p)
    (hn : 0 < p.namebidProceeds) : 0 < p.totalRex := by
  rw [NamebidsDue, namebids_eq hp] at h
  exact available_eq_true (h hn) hp

/-- A change of the pool that keeps the proceeds and the REX. -/
theorem setPool (h : r.NamebidsDue) {p p' : RexPool} (hp : r.pool = some p)
    (hp' : r'.pool = some p') (hn : p'.namebidProceeds = p.namebidProceeds)
    (hr : p'.totalRex = p.totalRex) : r'.NamebidsDue := by
  have hdue := h.rex_pos hp
  rw [← hn, ← hr] at hdue
  exact of_pool hp' hdue

theorem purchase (h : r.NamebidsDue) {owner : Name} {payment : ℤ}
    (hb : RexPurchase now owner payment r r') : r'.NamebidsDue := by
  cases hb with
  | buy hq hp hr =>
    refine of_pool rfl fun hn => ?_
    cases hr' : r.pool with
    | none =>
      rw [hr'] at hp
      cases hp
      exact absurd hn (lt_irrefl _)
    | some p =>
      rw [hr'] at hp
      have hdue := h.rex_pos hr'
      cases hp with
      | restart hz => exact absurd (hdue hn) hz.not_gt
      | more hpos hs =>
        -- the new REX does not make the old one vanish
        have hle : p.totalRex ≤ (p.totalLendable + payment) * p.totalRex / p.totalLendable :=
          Int.le_ediv_of_mul_le hs (by nlinarith)
        exact hpos.trans_le hle

/-- **Every event** leaves REX for the proceeds. -/
theorem event (h : r.NamebidsDue) {k : RexPhase} {q : ℤ} (he : RexEvent now k q r r') :
    r'.NamebidsDue := by
  cases he with
  | distribute hp => exact h.setPool hp rfl rfl rfl
  | namebid hp hr => exact of_pool rfl fun _ => hr
  | namebidsPaid hp => exact of_pool rfl fun hn => absurd hn (lt_irrefl _)
  | closeLoan _ _ hp => exact h.setPool hp rfl rfl rfl
  | renewLoan _ _ hp => exact h.setPool hp rfl rfl rfl
  | fill _ _ _ hp _ _ hn => exact of_pool rfl fun hpos => absurd hpos hn.not_gt
  | sell _ _ _ _ hp _ _ hn => exact of_pool rfl fun hpos => absurd hpos hn.not_gt
  | setRent hp => exact h.setPool hp rfl rfl rfl
  | lend _ hp => exact h.setPool hp rfl rfl rfl
  | _ => exact h.congr rfl

end NamebidsDue

end RexState

namespace State

variable {now : BlockTimestamp} {s s' : State K}

/-! ### The background work -/

theorem channelToRex_namebids {sender : Name} {amount : ℤ}
    (h : s.channelToRex now sender amount = .ok s') : s'.rex.namebids = s.rex.namebids := by
  rcases channelToRex_cases h with ⟨-, rfl⟩ | ⟨rex, token, -, hr, -, rfl⟩
  · rfl
  · exact RexState.addToRexReturnPool_namebids hr

/-- **The proceeds for REX** are paid before they are cleared. -/
theorem channelNamebids_payout (hdue : s.rex.NamebidsDue) (h : s.channelNamebids now = .ok s') :
    Payout s s' := by
  rcases channelNamebids_cases h with rfl | ⟨p, s₁, p₁, hp, hn, hc, -, rfl⟩
  · exact .refl
  · rcases channelToRex_cases hc with ⟨ha, -⟩ | ⟨rex, token, -, -, ht, rfl⟩
    · rw [← RexState.namebids_eq hp] at hn
      rw [hdue hn] at ha
      cases ha
    · rw [← RexState.namebids_eq hp] at ht
      exact .toRex .refl ht .refl rfl rfl

theorem processLoans_namebids {kind : Resource} {max : ℕ}
    (h : s.processLoans now kind max = .ok s') : s'.rex.namebids = s.rex.namebids := by
  induction max generalizing s with
  | zero => exact pure_eq_ok.mp h ▸ rfl
  | succ max ih =>
    rcases processLoans_succ h with rfl | ⟨key, loan, rex, del, delta, res, -, hp, -, h⟩
    · rfl
    · rw [ih h, ← RexState.processExpiredLoan_namebids hp]
      split_ifs <;> rfl

/-- **The background work** pays what is recorded. -/
theorem runrex_payout {max : ℕ} (hdue : s.rex.NamebidsDue) (h : s.runrex now max = .ok s') :
    Payout s s' := by
  obtain ⟨rex, s₁, s₂, s₃, rex', -, hu, hn, hc, hnet, hf, rfl⟩ := runrex_eq_ok h
  have hpay : Payout s s₁ := by
    have hchannel := channelNamebids_payout (hdue.event (RexState.updateRexPool_event hu)) hn
    refine .of_keeps ?_ ?_ ?_ hchannel
    exacts [.refl, RexState.updateRexPool_namebids hu, rfl]
  have hrex : rex'.namebids = s₁.rex.namebids := by
    rw [RexState.fillQueuedOrders_namebids hf, processLoans_namebids hnet,
      processLoans_namebids hc]
  obtain ⟨rex₂, res₂, rfl⟩ := processLoans_frame hc
  obtain ⟨rex₃, res₃, rfl⟩ := processLoans_frame hnet
  exact hpay.keeps .refl hrex rfl

section Owner

variable [Field K] [LinearOrder K] [CMath K]

/-- An order that is collected does not touch the proceeds. -/
theorem updateRexAccount_payout {s₁ : State K} {owner : Name} {proceeds deltaStake pending : ℤ}
    {force : Bool} (hp : Payout s s₁)
    (h : s₁.updateRexAccount now owner proceeds deltaStake force = .ok (s', pending)) :
    Payout s s' := by
  obtain ⟨hframe, htoken⟩ := updateRexAccount_frame h
  obtain ⟨_, _, _, rex, vote, -, -, -, rfl⟩ := updateRexAccount_eq_ok h
  exact hp.keeps .refl (RexState.namebids_congr hframe.pool) rfl

omit [Field K] [LinearOrder K] [CMath K] in
theorem updateRexStake_namebids {owner : Name} (h : s.updateRexStake owner = .ok s') :
    s'.rex.namebids = s.rex.namebids := by
  unfold updateRexStake at h
  split at h
  · split_ifs at h
    · simp only [bind_eq_ok, pure_eq_ok] at h
      obtain ⟨stake, -, rfl⟩ := h
      rfl
    · exact pure_eq_ok.mp h ▸ rfl
  · exact pure_eq_ok.mp h ▸ rfl

theorem buyrex_payout {owner : Name} {amount : Asset} (hdue : s.rex.NamebidsDue)
    (h : s.buyrex now owner amount = .ok s') : Payout s s' := by
  simp only [buyrex, bind_eq_ok, requireAuth_eq_ok, check_eq_ok, checkCore_eq_ok,
    VoteState.checkVotingRequirement_eq_ok, exists_const, pure_eq_ok] at h
  obtain ⟨-, -, hpos, -, r₁, hf, ⟨r₂, rex⟩, hp, ⟨r₃, delta⟩, hbal, s₁, hr, ⟨s₂, _⟩, ha, rfl⟩ := h
  obtain ⟨b, hb, -, hle, rfl⟩ := RexState.transferFromFund_eq_ok hf
  have hbuy := RexState.purchase_eq_ok hpos hp hbal
  have hdue₁ : ({ s.rex with funds := s.rex.funds.set owner (b - amount.amount) } :
      RexState).NamebidsDue := hdue.congr rfl
  have hpay : Payout s s₁ := by
    have hrun := runrex_payout (hdue₁.purchase hbuy) hr
    refine .of_keeps ?_ ?_ ?_ hrun
    exacts [.refl, (RexState.namebids_purchase hbuy).trans rfl, rfl]
  exact updateRexAccount_payout hpay ha

theorem unstaketorex_payout {owner receiver : Name} {fromNet fromCpu : Asset}
    (hdue : s.rex.NamebidsDue) (h : s.unstaketorex now owner receiver fromNet fromCpu = .ok s') :
    Payout s s' := by
  simp only [unstaketorex, bind_eq_ok, requireAuth_eq_ok, check_eq_ok, checkCore_eq_ok,
    VoteState.checkVotingRequirement_eq_ok, exists_const, pure_eq_ok] at h
  obtain ⟨-, -, -, -, -, stake, -, res, -, token, ht, ⟨r₁, rex⟩, hp, ⟨r₂, delta⟩, hbal, s₁, hr,
    ⟨s₂, _⟩, ha, rfl⟩ := h
  obtain ⟨-, hpos, -, -⟩ := Token.transfer_eq_ok ht
  have hbuy := RexState.purchase_eq_ok hpos hp hbal
  have hpay : Payout s s₁ := by
    have hrun := runrex_payout (hdue.purchase hbuy) hr
    refine .of_keeps ?_ ?_ ?_ hrun
    exacts [.transfer (by decide) (by decide) ht, RexState.namebids_purchase hbuy, rfl]
  exact updateRexAccount_payout hpay ha

theorem sellrex_payout {owner : Name} {rex : Asset} (hdue : s.rex.NamebidsDue)
    (h : s.sellrex now owner rex = .ok s') : Payout s s' := by
  simp only [sellrex, bind_eq_ok, requireAuth_eq_ok, check_eq_ok, require_eq_ok, exists_const,
    pure_eq_ok] at h
  obtain ⟨-, s₁, hr, rb, -, -, -, ⟨r, o⟩, hf, -, ⟨s₂, pending⟩, ha, -, rb', -, -, rfl⟩ := h
  have hpay : Payout s { s₁ with rex := r } :=
    (runrex_payout hdue hr).keeps .refl ((RexState.fillRexOrder_namebids hf).trans rfl) rfl
  refine (updateRexAccount_payout hpay ha).keeps .refl ?_ rfl
  dsimp only
  split_ifs <;> rfl

theorem updaterex_payout {owner : Name} (hdue : s.rex.NamebidsDue)
    (h : s.updaterex now owner = .ok s') : Payout s s' := by
  simp only [updaterex, bind_eq_ok, requireAuth_eq_ok, require_eq_ok, exists_const,
    pure_eq_ok] at h
  obtain ⟨-, s₁, hr, rb, -, p, -, value, -, ⟨s₂, _⟩, ha, rfl⟩ := h
  refine Payout.keeps (updateRexAccount_payout ?_ ha) .refl rfl rfl
  exact (runrex_payout hdue hr).keeps .refl rfl rfl

theorem consolidate_payout {owner : Name} (hdue : s.rex.NamebidsDue)
    (h : s.consolidate now owner = .ok s') : Payout s s' := by
  simp only [consolidate, bind_eq_ok, requireAuth_eq_ok, require_eq_ok, exists_const,
    pure_eq_ok] at h
  obtain ⟨-, s₁, hr, rb, -, ⟨s₂, _⟩, ha, rfl⟩ := h
  exact (updateRexAccount_payout (runrex_payout hdue hr) ha).keeps .refl rfl rfl

theorem mvtosavings_payout {owner : Name} {rex : Asset} (hdue : s.rex.NamebidsDue)
    (h : s.mvtosavings now owner rex = .ok s') : Payout s s' := by
  simp only [mvtosavings, bind_eq_ok, requireAuth_eq_ok, require_eq_ok, check_eq_ok, exists_const,
    pure_eq_ok] at h
  obtain ⟨-, s₁, hr, rb, -, -, ⟨s₂, _⟩, ha, rb', -, rfl⟩ := h
  exact (updateRexAccount_payout (runrex_payout hdue hr) ha).keeps .refl rfl rfl

theorem mvfrsavings_payout {owner : Name} {rex : Asset} (hdue : s.rex.NamebidsDue)
    (h : s.mvfrsavings now owner rex = .ok s') : Payout s s' := by
  simp only [mvfrsavings, bind_eq_ok, requireAuth_eq_ok, require_eq_ok, check_eq_ok, exists_const,
    pure_eq_ok] at h
  obtain ⟨-, s₁, hr, rb, -, -, rb', -, ⟨s₂, _⟩, ha, rfl⟩ := h
  refine updateRexAccount_payout ?_ ha
  exact (runrex_payout hdue hr).keeps .refl rfl rfl

theorem closerex_payout {owner : Name} (hdue : s.rex.NamebidsDue)
    (h : s.closerex now owner = .ok s') : Payout s s' := by
  simp only [closerex, bind_eq_ok, requireAuth_eq_ok, exists_const, pure_eq_ok] at h
  obtain ⟨-, s₁, hr, ⟨s₂, _⟩, ha, rex, hc, rfl⟩ := h
  have hpay : Payout s s₁ := by
    split_ifs at hr
    · exact runrex_payout hdue hr
    · exact pure_eq_ok.mp hr ▸ .refl
  refine (updateRexAccount_payout hpay ha).keeps .refl ?_ rfl
  have hclose : (s₂.rex.closeFund owner).namebids = s₂.rex.namebids := by
    unfold RexState.closeFund
    split_ifs <;> rfl
  rw [← hclose]
  unfold RexState.closeBalance at hc
  split at hc
  · exact pure_eq_ok.mp hc ▸ rfl
  · exact pure_eq_ok.mp (check_bind_eq_ok.mp hc).2 ▸ rfl

omit [Field K] [LinearOrder K] [CMath K] in
theorem rentRex_payout {kind : Resource} {sender receiver : Name} {payment fund : Asset}
    (hdue : s.rex.NamebidsDue) (h : s.rentRex now kind sender receiver payment fund = .ok s') :
    Payout s s' := by
  simp only [rentRex, bind_eq_ok, requireAuth_eq_ok, check_eq_ok, checkCore_eq_ok, exists_const,
    pure_eq_ok] at h
  obtain ⟨-, s₁, hr, -, -, -, -, r₁, hf, p, -, rented, -, -, r₂, hadd, p₁, -, -, res, -, rfl⟩ := h
  obtain ⟨b, -, -, -, rfl⟩ := RexState.transferFromFund_eq_ok hf
  exact (runrex_payout hdue hr).keeps .refl
    ((RexState.addLoanToRexPool_namebids hadd).trans rfl) rfl

end Owner

/-! ### Fees and the staking pools -/

section Pools

variable [Field K] [LinearOrder K]

theorem transitionChannelToPools_namebids {sender : Name} {amount rest : ℤ} {part : Bool}
    (h : s.transitionChannelToPools now sender amount part = .ok (s', rest)) :
    s'.rex = s.rex ∧ s'.pools.namebids = s.pools.namebids := by
  rcases transitionChannelToPools_cases h with ⟨rfl, -⟩ | ⟨st, token, hst, -, -, rfl, -⟩
  · exact ⟨rfl, rfl⟩
  · refine ⟨rfl, ?_⟩
    rw [PoolTables.namebids, PoolTables.namebids, hst]
    rfl

/-- A fee is not a part of the proceeds. -/
theorem channelToRexOrPools_namebids {sender : Name} {amount : ℤ} {req : Bool}
    (h : s.channelToRexOrPools now sender amount req = .ok s') :
    s'.rex.namebids = s.rex.namebids ∧ s'.pools.namebids = s.pools.namebids := by
  obtain ⟨s₁, rest, h₁, h₂⟩ := channelToRexOrPools_cases h
  obtain ⟨hr, hp⟩ := transitionChannelToPools_namebids h₁
  rw [← hr, ← hp]
  rcases h₂ with rfl | h₂
  · exact ⟨rfl, rfl⟩
  · refine ⟨channelToRex_namebids h₂, ?_⟩
    rcases channelToRex_cases h₂ with ⟨-, rfl⟩ | ⟨rex, token, -, -, -, rfl⟩
    · rfl
    · rfl

theorem payRamFee_namebids {payer : Name} {fee : ℤ} (h : s.payRamFee now payer fee = .ok s') :
    s'.rex.namebids = s.rex.namebids ∧ s'.pools.namebids = s.pools.namebids := by
  unfold payRamFee at h
  split_ifs at h
  · obtain ⟨token, -, h⟩ := bind_eq_ok.mp h
    have hn := channelToRexOrPools_namebids h
    exact hn
  · exact pure_eq_ok.mp h ▸ ⟨rfl, rfl⟩

theorem buyram_namebids {payer receiver : Name} {quant : Asset}
    (h : s.buyram now payer receiver quant = .ok s') :
    s'.rex.namebids = s.rex.namebids ∧ s'.pools.namebids = s.pools.namebids := by
  simp only [buyram, bind_eq_ok, requireAuth_eq_ok, check_eq_ok, checkCore_eq_ok, exists_const,
    pure_eq_ok] at h
  obtain ⟨-, ram, -, -, -, token, -, s₁, hf, ⟨ram', _⟩, -, rfl⟩ := h
  have hn := payRamFee_namebids hf
  exact hn

theorem sellram_namebids {account : Name} {bytes : ℤ} (h : s.sellram now account bytes = .ok s') :
    s'.rex.namebids = s.rex.namebids ∧ s'.pools.namebids = s.pools.namebids := by
  simp only [sellram, bind_eq_ok, requireAuth_eq_ok, check_eq_ok, exists_const] at h
  obtain ⟨-, ram, -, -, _, -, -, _, -, ⟨ram', tokens⟩, -, token, -, hf⟩ := h
  have hn := payRamFee_namebids hf
  exact hn

theorem powerup_namebids [FloorRing K] [CMath K] {payer receiver : Name} {days : ℕ}
    {net cpu : ℤ} {maxPayment : Asset}
    (h : s.powerup now payer receiver days net cpu maxPayment = .ok s') :
    s'.rex.namebids = s.rex.namebids ∧ s'.pools.namebids = s.pools.namebids := by
  simp only [powerup, bind_eq_ok, requireAuth_eq_ok, check_eq_ok, checkCore_eq_ok, exists_const,
    pure_eq_ok] at h
  obtain ⟨-, m, -, -, -, -, -, -, -, ⟨s₁, m₁, _, _⟩, hq, _, -, _, -, -, -, s₂, h₂, s₃, h₃, s₄, h₄,
    rfl⟩ := h
  obtain ⟨res, powup, rfl⟩ := processPowerupQueue_frame hq
  obtain ⟨res₂, rfl⟩ := adjustResources_frame h₂
  obtain ⟨res₃, rfl⟩ := adjustResources_frame h₃
  have hn := channelToRexOrPools_namebids h₄
  exact hn

/-- **The proceeds for the pools** are paid when they are distributed. -/
theorem distributeNamebidToPools_payout (h : s.distributeNamebidToPools now = .ok s') :
    Payout s s' := by
  unfold distributeNamebidToPools at h
  split at h
  · exact pure_eq_ok.mp h ▸ .refl
  · rename_i st hst
    split_ifs at h
    · obtain ⟨⟨s₁, rest⟩, hc, h⟩ := bind_eq_ok.mp h
      obtain rfl := pure_eq_ok.mp h
      have hn : s.pools.namebids = st.namebidProceeds := by
        rw [PoolTables.namebids, hst]
        rfl
      rcases transitionChannelToPools_cases hc with ⟨rfl, rfl⟩ | ⟨st', token, hst', -, ht, rfl, rfl⟩
      · -- no pool can take them
        refine .none .refl rfl ?_
        rw [hn, PoolTables.namebids, hst]
        rfl
      · obtain rfl := Option.some.inj (hst.symm.trans hst')
        have hall : feeToPools now st st.namebidProceeds false = st.namebidProceeds := rfl
        rw [hall] at ht ⊢
        rw [← hn] at ht
        refine .toPools .refl ht .refl rfl ?_
        exact sub_self _
    · exact pure_eq_ok.mp h ▸ .refl

variable [FloorRing K]

omit [LinearOrder K] [FloorRing K] in
/-- Votes and stake do not touch the proceeds. -/
theorem updatePoolVotes_namebids {a proxy : Name} {producers : List Name} {voting : Bool}
    (h : s.updatePoolVotes a proxy producers voting = .ok s') :
    s'.pools.namebids = s.pools.namebids := by
  obtain ⟨st, totalVotes, hst, hst', -⟩ := updatePoolVotes_eq_ok h
  rw [PoolTables.namebids, PoolTables.namebids, hst, hst']
  rfl

omit [LinearOrder K] [FloorRing K] in
theorem recastVotes_namebids {a : Name} (h : s.recastVotes a = .ok s') :
    s'.pools.namebids = s.pools.namebids := by
  obtain ⟨_, -, h⟩ := bind_eq_ok.mp h
  exact updatePoolVotes_namebids h

omit [Field K] [LinearOrder K] [FloorRing K] in
theorem setPools_namebids {st : StakingPoolState K} (hst : s.pools.state = some st)
    (pools : List (StakingPool K)) (voters : Table Name (PoolVoter K)) :
    (s.setPools { st with pools } voters).pools.namebids = s.pools.namebids := by
  rw [PoolTables.namebids, PoolTables.namebids, hst]
  rfl

omit [FloorRing K] in
theorem cfgsrpool_namebids {args : PoolConfig K} (h : s.cfgsrpool now args = .ok s') :
    s'.pools.namebids = s.pools.namebids := by
  have hcfg {st st' : StakingPoolState K} {core : Symbol}
      (h : st.configure core args = .ok st') : st'.namebidProceeds = st.namebidProceeds := by
    simp only [StakingPoolState.configure, check_bind_eq_ok, pure_eq_ok] at h
    obtain ⟨-, -, -, -, -, rfl⟩ := h
    rfl
  unfold cfgsrpool at h
  obtain ⟨core, -, h⟩ := bind_eq_ok.mp h
  split at h
  · rename_i hst
    simp only [bind_eq_ok, pure_eq_ok] at h
    obtain ⟨st, hc, st', h', rfl⟩ := h
    simp only [StakingPoolState.create, bind_eq_ok, require_eq_ok, pure_eq_ok] at hc
    obtain ⟨_, -, _, -, _, -, _, -, _, -, _, -, rfl⟩ := hc
    rw [PoolTables.namebids, PoolTables.namebids, hst]
    exact hcfg h'
  · rename_i st hst
    simp only [bind_eq_ok, check_eq_ok, exists_const, pure_eq_ok] at h
    obtain ⟨-, -, -, st', h', rfl⟩ := h
    rw [PoolTables.namebids, PoolTables.namebids, hst]
    exact hcfg h'

theorem claimstake_payout {owner : Name} {i : ℕ} {requested : Asset} (hm : owner ≠ namesAccount)
    (hrex : s'.rex = s.rex) (h : s.claimstake now owner i requested = .ok s') : Payout s s' := by
  cases claimstake_eq_ok h with
  | @intro s₁ st₀ st p pools v out totalVotes hst₀ hd hv hlen hst hp hnext hw ht hst' hs' =>
    have hrex₁ : s₁.rex = s.rex := (distributeNamebidToPools_changes hd).same .rex (by simp)
    refine (distributeNamebidToPools_payout hd).keeps ?_ (by rw [hrex, hrex₁]) ?_
    · split_ifs at ht
      · exact .transfer (by decide) hm ht
      · exact pure_eq_ok.mp ht ▸ .refl
    · rw [PoolTables.namebids, PoolTables.namebids, hst, hst']
      rfl

end Pools

end State

/-! ## Actions -/

section

variable [Field K] [LinearOrder K] [FloorRing K] [CMath K] {env : Env} {x : Action K}
  {s s' : State K}

/-- The proceeds for the pools stay, but for a claim and for a block. -/
theorem Action.exec_poolNamebids (h : x.exec env s = .ok s')
    (hclaim : ∀ owner i requested, x ≠ .claimstake owner i requested)
    (hblock : ∀ timestamp producer, x ≠ .onblock timestamp producer) :
    s'.pools.namebids = s.pools.namebids := by
  have hstate (hp : s'.pools.state = s.pools.state) : s'.pools.namebids = s.pools.namebids := by
    rw [PoolTables.namebids, PoolTables.namebids, hp]
  cases x with
  | claimstake => exact absurd rfl (hclaim _ _ _)
  | onblock => exact absurd rfl (hblock _ _)
  | buyram => exact (State.buyram_namebids h).2
  | buyrambytes =>
    simp only [exec, State.buyrambytes, bind_eq_ok] at h
    obtain ⟨_, -, _, -, _, -, h⟩ := h
    exact (State.buyram_namebids h).2
  | sellram => exact (State.sellram_namebids h).2
  | powerup => exact (State.powerup_namebids h).2
  | cfgsrpool => exact State.cfgsrpool_namebids h
  | stake2pool =>
    simp only [exec, State.stake2pool, bind_eq_ok, requireAuth_eq_ok, check_eq_ok,
      State.checkCore_eq_ok, State.poolState_eq_ok, exists_const] at h
    obtain ⟨-, st, hst, -, -, -, ⟨pools, voter⟩, -, token, -, h⟩ := h
    exact (State.recastVotes_namebids h).trans (State.setPools_namebids hst _ _)
  | transferstake =>
    simp only [exec, State.transferstake, bind_eq_ok, requireAuth_eq_ok, check_eq_ok,
      State.checkCore_eq_ok, State.poolState_eq_ok, exists_const] at h
    obtain ⟨-, -, -, -, st, hst, -, -, -, v, -, -, ⟨_, _, _⟩, -, -, ⟨_, _⟩, -, _, -, s₁, h₁, h₂⟩ :=
      h
    rw [State.recastVotes_namebids h₂, State.recastVotes_namebids h₁]
    exact State.setPools_namebids hst _ _
  | upgradestake =>
    simp only [exec, State.upgradestake, bind_eq_ok, requireAuth_eq_ok, check_eq_ok,
      State.checkCore_eq_ok, State.poolState_eq_ok, exists_const] at h
    obtain ⟨-, st, hst, -, -, -, -, -, v, -, ⟨_, _, _⟩, -, -, ⟨_, _⟩, -, _, -, h⟩ := h
    exact (State.recastVotes_namebids h).trans (State.setPools_namebids hst _ _)
  | setpoolnotif =>
    simp only [exec, State.setpoolnotif, bind_eq_ok, requireAuth_eq_ok, State.poolState_eq_ok,
      exists_const, pure_eq_ok] at h
    obtain ⟨-, st, hst, rfl⟩ := h
    exact State.setPools_namebids hst _ _
  | votewithpool =>
    simp only [exec, State.votewithpool, bind_eq_ok, requireAuth_eq_ok, exists_const] at h
    obtain ⟨-, _, -, _, -, h⟩ := h
    exact State.updatePoolVotes_namebids h
  | regpoolproxy =>
    simp only [exec, State.regpoolproxy, bind_eq_ok, requireAuth_eq_ok, check_eq_ok,
      State.poolState_eq_ok, exists_const, pure_eq_ok] at h
    obtain ⟨-, st, hst, -, pv, -, rfl⟩ := h
    rw [PoolTables.namebids, PoolTables.namebids, hst]
    rfl
  | updatevotes =>
    simp only [exec, State.updatevotes, bind_eq_ok, requireAuth_eq_ok, check_eq_ok,
      exists_const, pure_eq_ok] at h
    obtain ⟨-, prod, -, -, _, -, t, -, st, -, votes, -, rfl⟩ := h
    exact hstate rfl
  | updatepay =>
    simp only [exec, State.updatepay, bind_eq_ok, requireAuth_eq_ok, State.poolState_eq_ok,
      check_eq_ok, exists_const, pure_eq_ok] at h
    obtain ⟨-, st, hst, -, _, -, _, -, ⟨_, _⟩, -, token, -, rfl⟩ := h
    rw [PoolTables.namebids, PoolTables.namebids, hst]
    rfl
  | claimvotepay =>
    simp only [exec, State.claimvotepay, bind_eq_ok, requireAuth_eq_ok, check_eq_ok,
      exists_const, pure_eq_ok] at h
    obtain ⟨-, t, -, -, token, -, rfl⟩ := h
    exact hstate rfl
  | regproducer =>
    simp only [exec, State.regproducer, bind_eq_ok, check_eq_ok, requireAuth_eq_ok,
      exists_const] at h
    exact hstate (State.registerProducer_pools h.2.2).1
  | unregprod =>
    simp only [exec, State.unregprod, bind_eq_ok, requireAuth_eq_ok, exists_const] at h
    exact hstate (State.deactivateProducer_pools h.2).1
  | rmvproducer => exact hstate (State.deactivateProducer_pools h).1
  | _ =>
    have hp : s'.pools = s.pools := (exec_changes h).same .pools (by simp [parts])
    rw [hp]

omit [FloorRing K] in
theorem State.changebw_namebids {sender receiver : Name} {net cpu : ℤ} {transfer : Bool}
    {now : BlockTimestamp} (h : s.changebw now sender receiver net cpu transfer = .ok s') :
    s'.rex.namebids = s.rex.namebids := by
  simp only [changebw, bind_eq_ok, check_eq_ok, requireAuth_eq_ok, exists_const, pure_eq_ok] at h
  obtain ⟨-, -, -, stake, -, res, -, s₁, hr, s₂, hu, vote, -, rfl⟩ := h
  refine (updateRexStake_namebids hu).trans ?_
  unfold changeRefund at hr
  by_cases hs : sender = stakeAccount
  · exact pure_eq_ok.mp (if_pos hs ▸ hr) ▸ rfl
  · rw [if_neg hs] at hr
    simp only [bind_eq_ok, pure_eq_ok] at hr
    obtain ⟨⟨stake₁, _, _⟩, -, token, -, rfl⟩ := hr
    rfl

/-- The proceeds for REX stay in an action that moves no tokens of names, but for a block. -/
theorem Action.exec_rexNamebids (h : x.exec env s = .ok s') (hn : namesAccount ∉ x.accounts)
    (hblock : ∀ timestamp producer, x ≠ .onblock timestamp producer) :
    s'.rex.namebids = s.rex.namebids := by
  cases x with
  | onblock => exact absurd rfl (hblock _ _)
  | buyrex | unstaketorex | sellrex | updaterex | rentRex | rexexec | consolidate | mvtosavings
  | mvfrsavings | closerex => simp [accounts] at hn
  | buyram => exact (State.buyram_namebids h).1
  | buyrambytes =>
    simp only [exec, State.buyrambytes, bind_eq_ok] at h
    obtain ⟨_, -, _, -, _, -, h⟩ := h
    exact (State.buyram_namebids h).1
  | sellram => exact (State.sellram_namebids h).1
  | powerup => exact (State.powerup_namebids h).1
  | delegatebw =>
    simp only [exec, State.delegatebw, bind_eq_ok, check_eq_ok, State.checkCore_eq_ok,
      exists_const] at h
    exact State.changebw_namebids h.2.2.2.2.2.2
  | undelegatebw =>
    simp only [exec, State.undelegatebw, bind_eq_ok, check_eq_ok, State.checkCore_eq_ok,
      exists_const] at h
    exact State.changebw_namebids h.2.2.2.2.2
  | voteproducer =>
    simp only [exec, State.voteproducer, bind_eq_ok, requireAuth_eq_ok, exists_const] at h
    obtain ⟨-, s₁, hu, vote, -, h⟩ := h
    rw [← State.updateRexStake_namebids hu]
    split_ifs at h
    · exact pure_eq_ok.mp (check_bind_eq_ok.mp h).2 ▸ rfl
    · exact pure_eq_ok.mp h ▸ rfl
  | deposit =>
    simp only [exec, State.deposit, RexState.transferToFund, bind_eq_ok, requireAuth_eq_ok,
      check_eq_ok, State.checkCore_eq_ok, exists_const, pure_eq_ok] at h
    obtain ⟨-, -, -, token, -, rex, ⟨-, rfl⟩, rfl⟩ := h
    rfl
  | withdraw =>
    simp only [exec, State.withdraw, bind_eq_ok, requireAuth_eq_ok, check_eq_ok,
      State.checkCore_eq_ok, exists_const, pure_eq_ok] at h
    obtain ⟨-, -, -, ⟨s₁, _⟩, ha, rex, hf, token, -, rfl⟩ := h
    obtain ⟨b, -, -, -, rfl⟩ := RexState.transferFromFund_eq_ok hf
    exact RexState.namebids_congr (State.updateRexAccount_frame ha).1.pool
  | cnclrexorder =>
    simp only [exec, State.cnclrexorder, bind_eq_ok, requireAuth_eq_ok, check_eq_ok,
      require_eq_ok, exists_const, pure_eq_ok] at h
    obtain ⟨-, o, -, -, rfl⟩ := h
    rfl
  | fundloan =>
    simp only [exec, State.fundloan, RexState.fundRexLoan, bind_eq_ok, requireAuth_eq_ok,
      check_eq_ok, State.checkCore_eq_ok, require_eq_ok, exists_const, pure_eq_ok] at h
    obtain ⟨-, -, rex, ⟨r₁, hf, loan, -, -, -, rfl⟩, rfl⟩ := h
    obtain ⟨b, -, -, -, rfl⟩ := RexState.transferFromFund_eq_ok hf
    rfl
  | defloan =>
    simp only [exec, State.defloan, RexState.defundRexLoan, RexState.transferToFund, bind_eq_ok,
      requireAuth_eq_ok, check_eq_ok, State.checkCore_eq_ok, require_eq_ok, exists_const,
      pure_eq_ok] at h
    obtain ⟨-, -, rex, ⟨loan, -, -, -, -, -, rfl⟩, rfl⟩ := h
    rfl
  | setrex =>
    simp only [exec, State.setrex, bind_eq_ok, check_eq_ok, State.checkCore_eq_ok, require_eq_ok,
      exists_const, pure_eq_ok] at h
    obtain ⟨-, -, p, hp, rfl⟩ := h
    rw [RexState.namebids_eq hp]
    rfl
  | _ =>
    have hr : s'.rex = s.rex := (exec_changes h).same .rex (by simp [parts])
    rw [hr]

/-- The actions that change the tables of names, or record proceeds. -/
def Action.onNames : Action K → Bool
  | bidname .. | bidrefund .. | onblock .. => true
  | _ => false

/-- **What an action pays** out of the proceeds, if it is not about names. -/
theorem Action.exec_payout (hdue : s.rex.NamebidsDue) (h : x.exec env s = .ok s')
    (hm : x.mover ≠ some namesAccount) (hx : x.onNames = false) : Payout s s' := by
  by_cases hn : namesAccount ∈ x.accounts
  · -- the background work of REX, or a claim from a pool
    cases x with
    | bidname => cases hx
    | bidrefund => cases hx
    | claimstake owner =>
      exact State.claimstake_payout (fun he => hm (by rw [he]; rfl))
        ((exec_changes h).same .rex (by simp [parts])) h
    | buyrex => exact State.buyrex_payout hdue h
    | unstaketorex => exact State.unstaketorex_payout hdue h
    | sellrex => exact State.sellrex_payout hdue h
    | updaterex => exact State.updaterex_payout hdue h
    | rentRex => exact State.rentRex_payout hdue h
    | rexexec =>
      simp only [exec, State.rexexec, bind_eq_ok, requireAuth_eq_ok, exists_const] at h
      exact State.runrex_payout hdue h.2
    | consolidate => exact State.consolidate_payout hdue h
    | mvtosavings => exact State.mvtosavings_payout hdue h
    | mvfrsavings => exact State.mvfrsavings_payout hdue h
    | closerex => exact State.closerex_payout hdue h
    | _ =>
      simp only [accounts] at hn
      exact absurd hn (by decide)
  · have hblock : ∀ timestamp producer, x ≠ .onblock timestamp producer := by
      rintro _ _ rfl
      cases hx
    refine .none ⟨x.holders, not_mem_holders hm hn, (exec_changes h).token⟩
      (exec_rexNamebids h hn hblock) (exec_poolNamebids h ?_ hblock)
    rintro _ _ _ rfl
    simp [accounts] at hn

end

end EosioSystem
