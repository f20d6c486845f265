import EosioSystem.Rex.ActionEvents

/-!
# What is lent

The tokens that an account has in loans of a resource. Loans are made by a rental and changed when
they expire; all other functions of the contract leave them alone, but for their balance.

## Main definitions

* `RexState.lentTo`: what an account has in loans

## Main results

* `RexState.processExpiredLoan_loans`: an expired loan
* `RexState.fundRexLoan_loans`, `RexState.defundRexLoan_loans`: the balance of a loan
-/

namespace EosioSystem

open Checked

namespace RexState

variable {now : ℕ} {r r' : RexState} {owner a : Name} {amount delta : ℤ} {kind : Resource}

/-- What an account has in loans of a resource. -/
def lentTo (r : RexState) (kind : Resource) (a : Name) : ℤ :=
  r.loans.sum fun k l => if k.1 = kind ∧ l.receiver = a then l.totalStaked else 0

/-- No loan is negative. -/
def LoansNonneg (r : RexState) : Prop := ∀ k l, r.loans.find k = some l → 0 ≤ l.totalStaked

theorem lentTo_nonneg (h : r.LoansNonneg) (kind : Resource) (a : Name) : 0 ≤ r.lentTo kind a := by
  refine Table.sum_nonneg fun k l hl => ?_
  split_ifs
  · exact h k l hl
  · exact le_rfl

/-! ### Functions that leave the loans alone -/

theorem loans_updateRexPool (h : r.updateRexPool now = .ok r') : r'.loans = r.loans := by
  obtain ⟨ret, change, -, ⟨-, rfl⟩ | ⟨-, p, -, rfl⟩⟩ := updateRexPool_eq_ok h
  · rfl
  · rfl

theorem loans_addToRexReturnPool (h : r.addToRexReturnPool now amount = .ok r') :
    r'.loans = r.loans := by
  simp only [addToRexReturnPool, bind_eq_ok, pure_eq_ok] at h
  obtain ⟨r₁, hu, rfl⟩ := h
  rw [← loans_updateRexPool hu]
  split_ifs <;> rfl

theorem loans_transferFromFund (h : r.transferFromFund owner amount = .ok r') :
    r'.loans = r.loans := by
  obtain ⟨b, -, -, -, rfl⟩ := transferFromFund_eq_ok h
  rfl

theorem loans_transferToFund (h : r.transferToFund owner amount = .ok r') :
    r'.loans = r.loans := by
  obtain ⟨-, rfl⟩ := transferToFund_eq_ok h
  rfl

theorem loans_addToRexPool {rex : ℤ} (h : r.addToRexPool amount = .ok (r', rex)) :
    r'.loans = r.loans := by
  obtain ⟨p, c, -, rfl⟩ := addToRexPool_eq_ok h
  rfl

theorem loans_addToRexBalance {rex : ℤ}
    (h : r.addToRexBalance now owner amount rex = .ok (r', delta)) : r'.loans = r.loans := by
  unfold addToRexBalance at h
  split at h
  · cases h
    rfl
  · simp only [getPool, bind_eq_ok, require_eq_ok, pure_eq_ok, Prod.mk.injEq] at h
    obtain ⟨p, -, stake, -, rfl, -⟩ := h
    rfl

theorem loans_fillRexOrder {rb : RexBalance} {rex : ℤ} {o : RexOrderOutcome}
    (h : r.fillRexOrder owner rb rex = .ok (r', o)) : r'.loans = r.loans := by
  obtain ⟨p, -, -, ⟨-, rfl, -⟩ | ⟨-, rfl, -⟩⟩ := fillRexOrder_eq_ok h
  · rfl
  · rfl

theorem loans_fillQueuedOrders {l : List Name} (h : r.fillQueuedOrders l = .ok r') :
    r'.loans = r.loans := by
  induction l generalizing r with
  | nil =>
    cases h
    rfl
  | cons owner l ih =>
    obtain ⟨r₁, h₁, h⟩ := bind_eq_ok.mp h
    rw [ih h]
    unfold fillQueuedOrder at h₁
    split at h₁
    · obtain ⟨⟨r₂, o⟩, hf, h₁⟩ := bind_eq_ok.mp h₁
      rw [← loans_fillRexOrder hf]
      dsimp only at h₁
      split_ifs at h₁
      · cases h₁
        rfl
      · cases h₁
        rfl
    · cases h₁
      rfl

theorem loans_collectOrder {r' : RexState} {proceeds stake pending : ℤ}
    (h : r.collectOrder owner = (r', proceeds, stake, pending)) : r'.loans = r.loans := by
  rcases State.collectOrder_cases h with ⟨-, rfl, -⟩ | ⟨o, -, -, rfl, -⟩ | ⟨o, -, -, rfl, -⟩
  · rfl
  · rfl
  · rfl

theorem loans_close (h : (r.closeFund owner).closeBalance owner = .ok r') :
    r'.loans = r.loans := by
  have hfund : (r.closeFund owner).loans = r.loans := by
    unfold closeFund
    split_ifs <;> rfl
  rw [← hfund]
  unfold closeBalance at h
  split at h
  · cases h
    rfl
  · simp only [bind_eq_ok, check_eq_ok, exists_const, pure_eq_ok] at h
    obtain ⟨-, rfl⟩ := h
    rfl

/-! ### Functions that change a loan -/

/-- **An expired loan** is closed, or is renewed with what its payment rents now. -/
theorem processExpiredLoan_loans {key : Resource × ℕ} {loan : RexLoan} {deleteLoan : Bool}
    (h : r.processExpiredLoan now key loan = .ok (r', deleteLoan, delta)) :
    deleteLoan = true ∧ r'.loans = r.loans ∧ delta = -loan.totalStaked ∨
      deleteLoan = false ∧ ∃ rented, 0 ≤ rented ∧
        r'.loans = r.loans.set key (updateRenewedLoan loan rented) ∧
        delta = rented - loan.totalStaked := by
  simp only [processExpiredLoan, removeLoanFromRexPool, getPool, rentTokens, bind_eq_ok,
    require_eq_ok, pure_eq_ok] at h
  obtain ⟨_, ⟨p, -, _, -, rfl⟩, p₁, -, rented, ho, h⟩ := h
  split_ifs at h with hc hb
  · simp only [addLoanToRexPool, getPool, bind_eq_ok, require_eq_ok, pure_eq_ok,
      Prod.mk.injEq] at h
    obtain ⟨_, ⟨r₁, hf, p₂, -, rfl⟩, rfl, rfl, rfl⟩ := h
    have hl := loans_addToRexReturnPool hf
    refine .inr ⟨rfl, rented, getBancorOutput_nonneg ho, ?_, rfl⟩
    rw [← hl]
  · simp only [bind_eq_ok, pure_eq_ok, Prod.mk.injEq] at h
    obtain ⟨_, ht, rfl, rfl, rfl⟩ := h
    have hl := loans_transferToFund ht
    exact .inl ⟨rfl, hl, rfl⟩
  · simp only [bind_eq_ok, pure_eq_ok, Prod.mk.injEq] at h
    obtain ⟨_, rfl, rfl, rfl, rfl⟩ := h
    exact .inl ⟨rfl, rfl, rfl⟩

/-- A loan is replaced, or made if there is none under its key. -/
theorem lentTo_set {key : Resource × ℕ} {loan : RexLoan} (old : ℤ)
    (hold : (r.loans.find key).elim (old = 0) fun l => l.receiver = loan.receiver ∧
      l.totalStaked = old) (hl : r'.loans = r.loans.set key loan) (kind : Resource) (a : Name) :
    r'.lentTo kind a = r.lentTo kind a +
      if key.1 = kind ∧ loan.receiver = a then loan.totalStaked - old else 0 := by
  unfold lentTo
  rw [hl, Table.sum_set_elim]
  cases hf : r.loans.find key with
  | none =>
    rw [hf] at hold
    obtain rfl : old = 0 := hold
    rw [Option.elim_none, sub_zero, sub_zero]
  | some l =>
    rw [hf] at hold
    obtain ⟨hr, rfl⟩ := hold
    rw [Option.elim_some, hr]
    split_ifs <;> ring

theorem lentTo_erase {key : Resource × ℕ} {loan : RexLoan} (hf : r.loans.find key = some loan)
    (hl : r'.loans = r.loans.erase key) (kind : Resource) (a : Name) :
    r'.lentTo kind a = r.lentTo kind a +
      if key.1 = kind ∧ loan.receiver = a then -loan.totalStaked else 0 := by
  unfold lentTo
  rw [hl, Table.sum_erase hf]
  split_ifs <;> ring

theorem LoansNonneg.set (h : r.LoansNonneg) {key : Resource × ℕ} {loan : RexLoan}
    (hpos : 0 ≤ loan.totalStaked) (hl : r'.loans = r.loans.set key loan) : r'.LoansNonneg := by
  intro k l hf
  rw [hl, Table.find_set] at hf
  split_ifs at hf
  · cases hf
    exact hpos
  · exact h k l hf

theorem LoansNonneg.erase (h : r.LoansNonneg) {key : Resource × ℕ}
    (hl : r'.loans = r.loans.erase key) : r'.LoansNonneg := by
  intro k l hf
  rw [hl, Table.find_erase] at hf
  split_ifs at hf
  exact h k l hf

theorem lentTo_congr (h : r'.loans = r.loans) (kind : Resource) (a : Name) :
    r'.lentTo kind a = r.lentTo kind a := by rw [lentTo, h, lentTo]

theorem LoansNonneg.congr (hn : r.LoansNonneg) (h : r'.loans = r.loans) : r'.LoansNonneg := by
  intro k l hf
  rw [h] at hf
  exact hn k l hf

/-- Only the balance of a loan changes. -/
def Rebalanced (r r' : RexState) : Prop :=
  ∃ key loan balance, r.loans.find key = some loan ∧
    r'.loans = r.loans.set key { loan with balance }

theorem fundRexLoan_loans {sender : Name} {loanNum : ℕ}
    (h : r.fundRexLoan now kind sender loanNum amount = .ok r') : r.Rebalanced r' := by
  simp only [fundRexLoan, bind_eq_ok, require_eq_ok, check_eq_ok, exists_const, pure_eq_ok] at h
  obtain ⟨r₁, hf, loan, hl, -, -, rfl⟩ := h
  have hloans := loans_transferFromFund hf
  rw [hloans] at hl
  exact ⟨_, loan, _, hl, by rw [← hloans]⟩

theorem defundRexLoan_loans {sender : Name} {loanNum : ℕ}
    (h : r.defundRexLoan now kind sender loanNum amount = .ok r') : r.Rebalanced r' := by
  simp only [defundRexLoan, bind_eq_ok, require_eq_ok, check_eq_ok, exists_const] at h
  obtain ⟨loan, hl, -, -, -, ht⟩ := h
  have hloans := loans_transferToFund ht
  exact ⟨_, loan, _, hl, hloans⟩

theorem Rebalanced.lentTo_eq (h : r.Rebalanced r') (kind : Resource) (a : Name) :
    r'.lentTo kind a = r.lentTo kind a := by
  obtain ⟨key, loan, balance, hf, hl⟩ := h
  rw [lentTo_set loan.totalStaked _ hl, sub_self, ite_self, add_zero]
  rw [hf]
  exact ⟨rfl, rfl⟩

theorem Rebalanced.nonneg (h : r.Rebalanced r') (hn : r.LoansNonneg) : r'.LoansNonneg := by
  obtain ⟨key, loan, balance, hf, hl⟩ := h
  refine hn.set ?_ hl
  exact hn key loan hf

end RexState

/-! ## The state of the contract -/

namespace State

variable {K : Type} {now : BlockTimestamp} {s s' : State K} {sender owner : Name} {amount : ℤ}

theorem loans_channelToRex (h : s.channelToRex now sender amount = .ok s') :
    s'.rex.loans = s.rex.loans := by
  rcases channelToRex_cases h with ⟨-, rfl⟩ | ⟨rex, token, -, hr, -, rfl⟩
  · rfl
  · exact RexState.loans_addToRexReturnPool hr

theorem loans_channelNamebids (h : s.channelNamebids now = .ok s') :
    s'.rex.loans = s.rex.loans := by
  rcases channelNamebids_cases h with rfl | ⟨p, s₁, p₁, -, -, hc, -, rfl⟩
  · rfl
  · have hl := loans_channelToRex hc
    exact hl

theorem loans_updateRexStake [Field K] (h : s.updateRexStake owner = .ok s') :
    s'.rex.loans = s.rex.loans := by
  unfold updateRexStake at h
  split at h
  · split_ifs at h
    · simp only [bind_eq_ok, pure_eq_ok] at h
      obtain ⟨stake, -, rfl⟩ := h
      rfl
    · cases h
      rfl
  · cases h
    rfl

variable [Field K] [LinearOrder K]

theorem loans_channelToRexOrPools {req : Bool}
    (h : s.channelToRexOrPools now sender amount req = .ok s') : s'.rex.loans = s.rex.loans := by
  obtain ⟨s₁, rest, h₁, h₂⟩ := channelToRexOrPools_cases h
  have hrex : s₁.rex = s.rex := (transitionChannelToPools_changes h₁).same .rex (by simp)
  rw [← hrex]
  rcases h₂ with rfl | h₂
  · rfl
  · exact loans_channelToRex h₂

theorem loans_payRamFee (h : s.payRamFee now sender amount = .ok s') :
    s'.rex.loans = s.rex.loans := by
  unfold payRamFee at h
  split_ifs at h
  · obtain ⟨token, -, h⟩ := bind_eq_ok.mp h
    have hl := loans_channelToRexOrPools h
    exact hl
  · cases h
    rfl

theorem loans_onblock [FloorRing K] [CMath K] (timestamp : BlockTimestamp) (producer : Name) :
    (s.onblock now timestamp producer).rex.loans = s.rex.loans := by
  obtain ⟨_, _, _, q, r, names, pay, producers, he, -, -⟩ := s.onblock_eq now timestamp producer
  rw [he]
  rfl

variable [CMath K]

theorem loans_updateRexAccount {proceeds deltaStake pending : ℤ} {force : Bool}
    (h : s.updateRexAccount now owner proceeds deltaStake force = .ok (s', pending)) :
    s'.rex.loans = s.rex.loans := by
  obtain ⟨r₁, orderProceeds, stakeChange, rex, vote, hc, ht, -, rfl⟩ := updateRexAccount_eq_ok h
  rw [← RexState.loans_collectOrder hc]
  rcases transferToFund_if ht with ⟨-, rfl⟩ | ⟨-, rfl⟩
  · rfl
  · rfl

end State

end EosioSystem
