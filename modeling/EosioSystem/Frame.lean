import EosioSystem.Action

/-!
# What an action can change

For each action the parts of the state that it can change and the accounts whose tokens it can
move. An invariant about some parts then needs a proof for the actions that touch them only, and
the sum of all balances is the supply whatever happens.

## Main definitions

* `Part`, `Part.Same`: the parts of the state
* `Token.Flows`: transfers between given accounts, and new tokens
* `Changes`: a change of given parts, with tokens of given accounts
* `Action.mover`, `Action.accounts`, `Action.parts`: what an action can touch

## Main results

* `Token.Flows.balance_eq`, `Token.Sound.flows`: what transfers keep
* `Action.exec_changes`: an action changes nothing else
-/

namespace EosioSystem

open Checked

/-! ## Tokens -/

namespace Token

/-- Transfers between some accounts, and new tokens for `eosio` if it is one of them. -/
inductive Flows (holders : List Name) : Token → Token → Prop
  | refl {t : Token} : Flows holders t t
  | transfer {t t₁ t' : Token} {a b : Name} {q : ℤ} : Flows holders t t₁ → a ∈ holders →
    b ∈ holders → t₁.transfer a b q = .ok t' → Flows holders t t'
  | issue {t t₁ t' : Token} {q : ℤ} : Flows holders t t₁ → eosioAccount ∈ holders →
    t₁.issue eosioAccount q = .ok t' → Flows holders t t'

/-- The balances add up to the supply. -/
structure Sound (t : Token) : Prop where
  nonneg : ∀ a, 0 ≤ t.balance a
  total : t.total = t.supply

variable {holders holders' : List Name} {t t₁ t' : Token}

theorem issue_eq_ok {a : Name} {q : ℤ} (h : t.issue a q = .ok t') :
    0 < q ∧ t' = { t.addBalance a q with supply := t.supply + q } := by
  simp only [issue, check_bind_eq_ok, pure_eq_ok] at h
  exact ⟨h.1, h.2.symm⟩

theorem balance_issue {a : Name} {q : ℤ} (h : t.issue a q = .ok t') (b : Name) :
    t'.balance b = t.balance b + if b = a then q else 0 := by
  obtain ⟨-, rfl⟩ := issue_eq_ok h
  exact balance_addBalance t a b q

namespace Flows

theorem single {a b : Name} {q : ℤ} (h : t.transfer a b q = .ok t') (ha : a ∈ holders)
    (hb : b ∈ holders) : Flows holders t t' := .transfer .refl ha hb h

theorem trans (h₁ : Flows holders t t₁) (h₂ : Flows holders t₁ t') : Flows holders t t' := by
  induction h₂ with
  | refl => exact h₁
  | transfer _ ha hb ht ih => exact .transfer ih ha hb ht
  | issue _ he ht ih => exact .issue ih he ht

theorem mono (h : Flows holders t t') (hs : ∀ a ∈ holders, a ∈ holders') :
    Flows holders' t t' := by
  induction h with
  | refl => exact .refl
  | transfer _ ha hb ht ih => exact .transfer ih (hs _ ha) (hs _ hb) ht
  | issue _ he ht ih => exact .issue ih (hs _ he) ht

/-- The tokens of other accounts stay. -/
theorem balance_eq (h : Flows holders t t') {c : Name} (hc : c ∉ holders) :
    t'.balance c = t.balance c := by
  induction h with
  | refl => rfl
  | @transfer t₁ t' a b q _ ha hb ht ih =>
    have hca : c ≠ a := by
      rintro rfl
      exact hc ha
    have hcb : c ≠ b := by
      rintro rfl
      exact hc hb
    rw [balance_transfer ht, if_neg hca, if_neg hcb, ih]
    ring
  | @issue t₁ t' q _ he ht ih =>
    have hne : c ≠ eosioAccount := by
      rintro rfl
      exact hc he
    rw [balance_issue ht, if_neg hne, ih, add_zero]

theorem supply_le (h : Flows holders t t') : t.supply ≤ t'.supply := by
  induction h with
  | refl => exact le_rfl
  | transfer _ _ _ ht ih => exact ih.trans (supply_transfer ht).ge
  | @issue t₁ t' q _ _ ht ih =>
    obtain ⟨hq, rfl⟩ := issue_eq_ok ht
    dsimp only
    omega

end Flows

namespace Sound

theorem flows (h : t.Sound) (hf : Flows holders t t') : t'.Sound := by
  induction hf with
  | refl => exact h
  | @transfer t₁ t' a b q _ _ _ ht ih =>
    obtain ⟨hne, hq, hle, -⟩ := transfer_eq_ok ht
    refine ⟨fun c => ?_, by rw [total_transfer ht, supply_transfer ht, ih.total]⟩
    have hc := ih.nonneg c
    rw [balance_transfer ht]
    split_ifs with h₁ h₂ h₂
    · exact absurd (h₁.symm.trans h₂) hne
    · rw [h₁]
      omega
    · omega
    · omega
  | @issue t₁ t' q _ _ ht ih =>
    refine ⟨fun c => ?_, ?_⟩
    · have hc := ih.nonneg c
      have hq := (issue_eq_ok ht).1
      rw [balance_issue ht]
      split_ifs <;> omega
    · obtain ⟨-, rfl⟩ := issue_eq_ok ht
      exact (total_addBalance t₁ eosioAccount q).trans (by rw [ih.total])

/-- No account has more than there is. -/
theorem balance_le (h : t.Sound) (a : Name) : t.balance a ≤ t.supply := by
  have htotal : (t.balances.sum fun _ b => b) = t.supply := h.total
  unfold balance
  have hrow : ∀ b x, t.balances.find b = some x → 0 ≤ x := by
    intro b x hb
    have := h.nonneg b
    rwa [balance, hb, Option.getD_some] at this
  cases hf : t.balances.find a with
  | none =>
    rw [← htotal]
    exact Table.sum_nonneg hrow
  | some x =>
    rw [← htotal]
    exact Table.le_sum (f := fun _ b => b) hrow hf

end Sound

end Token

/-! ## Parts of the state -/

/-- The parts of the state beside the tokens. -/
inductive Part
  | ram
  | res
  | stake
  | rex
  | vote
  | powup
  | pools
  | names
  | pay
  deriving DecidableEq

variable {K : Type}

/-- A part is the same in two states. -/
def Part.Same : Part → State K → State K → Prop
  | ram, s, s' => s'.ram = s.ram
  | res, s, s' => s'.res = s.res
  | stake, s, s' => s'.stake = s.stake
  | rex, s, s' => s'.rex = s.rex
  | vote, s, s' => s'.vote = s.vote
  | powup, s, s' => s'.powup = s.powup
  | pools, s, s' => s'.pools = s.pools
  | names, s, s' => s'.names = s.names
  | pay, s, s' => s'.pay = s.pay

/-- A change of some parts of the state, in which tokens of some accounts move. -/
structure Changes (parts : List Part) (holders : List Name) (s s' : State K) : Prop where
  token : s.token.Flows holders s'.token
  same : ∀ p, p ∉ parts → p.Same s s'

namespace Changes

variable {parts parts' : List Part} {holders holders' : List Name} {s s₁ s' : State K}

theorem refl : Changes parts holders s s := by
  refine ⟨.refl, fun p _ => ?_⟩
  cases p <;> rfl

theorem trans (h₁ : Changes parts holders s s₁) (h₂ : Changes parts holders s₁ s') :
    Changes parts holders s s' := by
  refine ⟨h₁.token.trans h₂.token, fun p hp => ?_⟩
  have h₃ := h₁.same p hp
  have h₄ := h₂.same p hp
  cases p <;> exact h₄.trans h₃

theorem mono (h : Changes parts holders s s') (hp : ∀ p ∈ parts, p ∈ parts')
    (hh : ∀ a ∈ holders, a ∈ holders') : Changes parts' holders' s s' :=
  ⟨h.token.mono hh, fun p hp' => h.same p fun hm => hp' (hp p hm)⟩

end Changes

/-! ## Parts of actions -/

section

variable {now : BlockTimestamp} {s s' : State K} {sender : Name} {amount : ℤ}

theorem State.channelToRex_changes (h : s.channelToRex now sender amount = .ok s') :
    Changes [.rex] [sender, rexAccount] s s' := by
  rcases channelToRex_cases h with ⟨-, rfl⟩ | ⟨rex, token, -, -, ht, rfl⟩
  · exact .refl
  · refine ⟨.single ht (by simp) (by simp), fun p hp => ?_⟩
    cases p <;> first | rfl | simp at hp

theorem State.runrex_changes {max : ℕ} (h : s.runrex now max = .ok s') :
    Changes [.rex, .res] [namesAccount, rexAccount] s s' := by
  obtain ⟨rex, s₁, s₂, s₃, rex', -, -, hn, hc, hnet, -, rfl⟩ := runrex_eq_ok h
  obtain ⟨rex₂, res₂, rfl⟩ := processLoans_frame hc
  obtain ⟨rex₃, res₃, rfl⟩ := processLoans_frame hnet
  have h₁ : Changes [.rex, .res] [namesAccount, rexAccount] { s with rex } s₁ := by
    rcases channelNamebids_cases hn with rfl | ⟨p, s₀, p₁, -, -, hch, -, rfl⟩
    · exact .refl
    · have h₀ : Changes [.rex, .res] [namesAccount, rexAccount] { s with rex } s₀ :=
        (channelToRex_changes hch).mono (by simp) (by simp)
      refine ⟨h₀.token, fun p hp => ?_⟩
      have hsame := h₀.same p hp
      cases p <;> first | exact hsame | simp at hp
  refine ⟨h₁.token, fun p hp => ?_⟩
  have hsame := h₁.same p hp
  cases p <;> first | exact hsame | simp at hp

variable [Field K] [LinearOrder K]

theorem State.transitionChannelToPools_changes {rest : ℤ} {part : Bool}
    (h : s.transitionChannelToPools now sender amount part = .ok (s', rest)) :
    Changes [.pools] [sender, srpoolAccount] s s' := by
  rcases transitionChannelToPools_cases h with ⟨rfl, -⟩ | ⟨st, token, -, -, ht, rfl, -⟩
  · exact .refl
  · refine ⟨.single ht (by simp) (by simp), fun p hp => ?_⟩
    cases p <;> first | rfl | simp at hp

theorem State.channelToRexOrPools_changes {req : Bool}
    (h : s.channelToRexOrPools now sender amount req = .ok s') :
    Changes [.rex, .pools] [sender, srpoolAccount, rexAccount] s s' := by
  obtain ⟨s₁, rest, h₁, h₂⟩ := channelToRexOrPools_cases h
  have hc : Changes [.rex, .pools] [sender, srpoolAccount, rexAccount] s s₁ :=
    (transitionChannelToPools_changes h₁).mono (by simp) (by simp)
  rcases h₂ with rfl | h₂
  · exact hc
  · exact hc.trans ((channelToRex_changes h₂).mono (by simp) (by simp))

theorem State.distributeNamebidToPools_changes (h : s.distributeNamebidToPools now = .ok s') :
    Changes [.pools] [namesAccount, srpoolAccount] s s' := by
  unfold distributeNamebidToPools at h
  split at h
  · obtain rfl := pure_eq_ok.mp h
    exact .refl
  · split_ifs at h
    · obtain ⟨⟨s₁, rest⟩, hc, h⟩ := bind_eq_ok.mp h
      obtain rfl := pure_eq_ok.mp h
      have h₁ := transitionChannelToPools_changes hc
      refine ⟨h₁.token, fun p hp => ?_⟩
      have hsame := h₁.same p hp
      cases p <;> first | exact hsame | simp at hp
    · obtain rfl := pure_eq_ok.mp h
      exact .refl

/-- The fee for RAM. -/
theorem State.payRamFee_changes {payer : Name} {fee : ℤ}
    (h : s.payRamFee now payer fee = .ok s') :
    Changes [.rex, .pools] [payer, ramfeeAccount, srpoolAccount, rexAccount] s s' := by
  unfold payRamFee at h
  split_ifs at h
  · obtain ⟨token, ht, h⟩ := bind_eq_ok.mp h
    have h₁ := channelToRexOrPools_changes h
    have ht' : token.Flows [payer, ramfeeAccount, srpoolAccount, rexAccount] s'.token :=
      h₁.token.mono (by simp)
    refine ⟨(Token.Flows.single ht (by simp) (by simp)).trans ht', fun p hp => ?_⟩
    have hsame := h₁.same p hp
    cases p <;> exact hsame
  · obtain rfl := pure_eq_ok.mp h
    exact .refl

theorem State.buyram_changes {payer receiver : Name} {quant : Asset}
    (h : s.buyram now payer receiver quant = .ok s') : Changes [.ram, .res, .rex, .pools]
      [payer, ramAccount, ramfeeAccount, srpoolAccount, rexAccount] s s' := by
  simp only [buyram, bind_eq_ok, requireAuth_eq_ok, check_eq_ok, checkCore_eq_ok, exists_const,
    pure_eq_ok] at h
  obtain ⟨-, ram, -, -, -, token, ht, s₁, hf, ⟨ram', _⟩, -, rfl⟩ := h
  have h₁ : Changes [.ram, .res, .rex, .pools]
      [payer, ramAccount, ramfeeAccount, srpoolAccount, rexAccount] { s with ram, token } s₁ :=
    (payRamFee_changes hf).mono (by simp) (by simp)
  refine ⟨(Token.Flows.single ht (by simp) (by simp)).trans h₁.token, fun p hp => ?_⟩
  have hsame := h₁.same p hp
  cases p <;> first | exact hsame | simp at hp

theorem State.registerProducer_changes {producer : Name}
    (h : s.registerProducer now producer = .ok s') : Changes [.vote, .pools] [] s s' := by
  unfold registerProducer at h
  split at h
  · obtain ⟨⟨poolVotes, totals⟩, -, h⟩ := bind_eq_ok.mp h
    obtain rfl := pure_eq_ok.mp h
    refine ⟨.refl, fun p hp => ?_⟩
    cases p <;> first | rfl | simp at hp
  · simp only [bind_eq_ok, check_eq_ok, exists_const, pure_eq_ok] at h
    obtain ⟨⟨poolVotes, totals⟩, -, -, rfl⟩ := h
    refine ⟨.refl, fun p hp => ?_⟩
    cases p <;> first | rfl | simp at hp

omit [Field K] [LinearOrder K] in
theorem State.deactivateProducer_changes {producer : Name}
    (h : s.deactivateProducer producer = .ok s') : Changes [.vote, .pools] [] s s' := by
  simp only [deactivateProducer, bind_eq_ok, require_eq_ok, pure_eq_ok] at h
  obtain ⟨prod, -, rfl⟩ := h
  refine ⟨.refl, fun p hp => ?_⟩
  cases p <;> first | rfl | simp at hp

/-- A transfer of a positive amount, after others. -/
theorem Token.Flows.positive {t token token' : Token} {a b : Name} {q : ℤ} {holders : List Name}
    (hf : t.Flows holders token) (h : State.transferPositive token a b q = .ok token')
    (ha : a ∈ holders) (hb : b ∈ holders) : t.Flows holders token' := by
  unfold State.transferPositive at h
  split_ifs at h
  · exact .transfer hf ha hb h
  · exact pure_eq_ok.mp h ▸ hf

/-- New tokens in three parts. -/
theorem State.issueInflation_flows {token token' : Token} {q q₁ q₂ q₃ : ℤ}
    (h : issueInflation token q q₁ q₂ q₃ = .ok token') :
    token.Flows [eosioAccount, savingAccount, bpayAccount, vpayAccount] token' := by
  unfold issueInflation at h
  split_ifs at h
  · simp only [bind_eq_ok] at h
    obtain ⟨t₁, h₁, t₂, h₂, t₃, h₃, h₄⟩ := h
    have hf : token.Flows [eosioAccount, savingAccount, bpayAccount, vpayAccount] t₁ :=
      .issue .refl (by simp) h₁
    have hf₂ := hf.positive h₂ (by simp) (by simp)
    have hf₃ := hf₂.positive h₃ (by simp) (by simp)
    exact hf₃.positive h₄ (by simp) (by simp)
  · exact pure_eq_ok.mp h ▸ .refl

/-- New tokens for producers and voters. -/
theorem State.issuePay_flows {token token' : Token} {q q' : ℤ}
    (h : issuePay token q q' = .ok token') :
    token.Flows [eosioAccount, bpspayAccount, srpoolAccount] token' := by
  unfold issuePay at h
  by_cases hz : q + q' ≤ 0
  · exact pure_eq_ok.mp (if_pos hz ▸ h) ▸ .refl
  · obtain ⟨t₁, h₁, h⟩ := bind_eq_ok.mp (if_neg hz ▸ h)
    obtain ⟨t₂, h₂, h₃⟩ := bind_eq_ok.mp h
    have hf : token.Flows [eosioAccount, bpspayAccount, srpoolAccount] t₁ :=
      .issue .refl (by simp) h₁
    have hf₂ := hf.positive h₂ (by simp) (by simp)
    exact hf₂.positive h₃ (by simp) (by simp)

theorem State.claimrewards_changes [FloorRing K] {owner : Name}
    (h : s.claimrewards now owner = .ok s') : Changes [.vote, .pay]
      [owner, eosioAccount, savingAccount, bpayAccount, vpayAccount] s s' := by
  simp only [claimrewards, bind_eq_ok, requireAuth_eq_ok, check_eq_ok, require_eq_ok,
    exists_const, pure_eq_ok] at h
  obtain ⟨-, prod, -, -, -, -, s₁, hf, t₁, h₁, t₂, h₂, rfl⟩ := h
  obtain ⟨token, pay, rfl, ht⟩ : ∃ token pay, s₁ = { s with token, pay } ∧
      s.token.Flows [owner, eosioAccount, savingAccount, bpayAccount, vpayAccount] token := by
    unfold fillBuckets at hf
    split_ifs at hf
    · simp only [bind_eq_ok, pure_eq_ok] at hf
      obtain ⟨newTokens, -, token, ht, rfl⟩ := hf
      exact ⟨token, _, rfl, (issueInflation_flows ht).mono (by simp)⟩
    · exact ⟨s.token, s.pay, (pure_eq_ok.mp hf).symm, .refl⟩
  have ht₁ := ht.positive h₁ (by simp) (by simp)
  refine ⟨ht₁.positive h₂ (by simp) (by simp), fun p hp => ?_⟩
  cases p <;> first | rfl | simp at hp

theorem State.updatepay_changes [FloorRing K] {user : Name} (h : s.updatepay user = .ok s') :
    Changes [.pools] [eosioAccount, bpspayAccount, srpoolAccount] s s' := by
  simp only [updatepay, bind_eq_ok, requireAuth_eq_ok, poolState_eq_ok, check_eq_ok,
    exists_const, pure_eq_ok] at h
  obtain ⟨-, st, -, -, _, -, _, -, ⟨_, _⟩, -, token, ht, rfl⟩ := h
  refine ⟨issuePay_flows ht, fun p hp => ?_⟩
  cases p <;> first | rfl | simp at hp

omit [LinearOrder K] in
/-- The votes of the staking pools. -/
theorem State.updatePoolVotes_changes {a proxy : Name} {producers : List Name} {voting : Bool}
    (h : s.updatePoolVotes a proxy producers voting = .ok s') :
    Changes [.pools, .vote] [] s s' := by
  simp only [updatePoolVotes, bind_eq_ok, poolState_eq_ok, pure_eq_ok] at h
  obtain ⟨st, -, pv, -, rfl⟩ := h
  refine ⟨.refl, fun p hp => ?_⟩
  cases p <;> first | rfl | simp at hp

omit [LinearOrder K] in
theorem State.recastVotes_changes {a : Name} (h : s.recastVotes a = .ok s') :
    Changes [.pools, .vote] [] s s' := by
  obtain ⟨_, -, h⟩ := bind_eq_ok.mp h
  exact updatePoolVotes_changes h

variable [CMath K]

theorem State.updateRexAccount_changes {owner : Name} {proceeds deltaStake pending : ℤ}
    {force : Bool}
    (h : s.updateRexAccount now owner proceeds deltaStake force = .ok (s', pending)) :
    Changes [.rex, .vote] [] s s' := by
  obtain ⟨r, _, _, rex, vote, -, -, -, rfl⟩ := updateRexAccount_eq_ok h
  refine ⟨.refl, fun p hp => ?_⟩
  cases p <;> first | rfl | simp at hp

omit [Field K] [LinearOrder K] [CMath K] in
/-- The background work before an action of an owner. -/
theorem State.background_changes {max : ℕ} (h : s.runrex now max = .ok s') :
    Changes [.rex, .res, .vote] [namesAccount, rexAccount] s s' :=
  (runrex_changes h).mono (by simp) (by simp)

theorem State.collect_changes {owner : Name} {proceeds deltaStake pending : ℤ} {force : Bool}
    (h : s.updateRexAccount now owner proceeds deltaStake force = .ok (s', pending)) :
    Changes [.rex, .res, .vote] [namesAccount, rexAccount] s s' :=
  (updateRexAccount_changes h).mono (by simp) (by simp)

omit [Field K] [LinearOrder K] [CMath K] in
/-- The REX tables before such a change do not matter. -/
theorem Changes.of_rex {holders : List Name} {rex : RexState}
    (h : Changes [.rex, .res, .vote] holders { s with rex } s') :
    Changes [.rex, .res, .vote] holders s s' := by
  refine ⟨h.token, fun p hp => ?_⟩
  have hsame := h.same p hp
  cases p <;> first | exact hsame | simp at hp

omit [Field K] [LinearOrder K] [CMath K] in
/-- Nor do those after it. -/
theorem Changes.set_rex {holders : List Name} {rex : RexState}
    (h : Changes [.rex, .res, .vote] holders s s') :
    Changes [.rex, .res, .vote] holders s { s' with rex } := by
  refine ⟨h.token, fun p hp => ?_⟩
  have hsame := h.same p hp
  cases p <;> first | exact hsame | simp at hp

/-- A change of stake. -/
theorem State.changebw_changes {receiver : Name} {net cpu : ℤ} {transfer : Bool}
    (h : s.changebw now sender receiver net cpu transfer = .ok s') :
    Changes [.stake, .res, .rex, .vote] [sender, stakeAccount] s s' := by
  simp only [changebw, bind_eq_ok, check_eq_ok, requireAuth_eq_ok, exists_const, pure_eq_ok] at h
  obtain ⟨-, -, -, stake, -, res, -, s₁, hr, s₂, hu, vote, -, rfl⟩ := h
  obtain ⟨rex, vote₂, rfl⟩ := updateRexStake_frame hu
  obtain ⟨stake₁, token, rfl, ht⟩ : ∃ stake₁ token, s₁ = { s with stake := stake₁, res, token } ∧
      s.token.Flows [sender, stakeAccount] token := by
    unfold changeRefund at hr
    by_cases hstake : sender = stakeAccount
    · rw [if_pos hstake] at hr
      obtain rfl := pure_eq_ok.mp hr
      exact ⟨stake, s.token, rfl, .refl⟩
    · rw [if_neg hstake] at hr
      simp only [bind_eq_ok, pure_eq_ok] at hr
      obtain ⟨⟨stake₁, _, _⟩, -, token, ht, rfl⟩ := hr
      refine ⟨stake₁, token, rfl, ?_⟩
      dsimp only at ht
      split_ifs at ht
      · exact .single ht (by simp) (by simp)
      · obtain rfl := pure_eq_ok.mp ht
        exact .refl
  refine ⟨ht, fun p hp => ?_⟩
  cases p <;> first | rfl | simp at hp

/-! ## Actions -/

/-- The account of a user whose tokens an action moves. -/
def Action.mover : Action K → Option Name
  | stake2pool owner .. | claimstake owner .. | claimvotepay owner | claimrewards owner
  | deposit owner .. | withdraw owner .. | refund owner => some owner
  | buyram payer .. | buyrambytes payer .. | powerup payer .. => some payer
  | sellram account .. => some account
  | delegatebw sender .. | undelegatebw sender .. => some sender
  | bidname bidder .. | bidrefund bidder .. => some bidder
  | _ => none

/-- The accounts of the contract whose tokens an action moves. -/
def Action.accounts : Action K → List Name
  | buyram .. | buyrambytes .. | sellram .. =>
    [ramAccount, ramfeeAccount, srpoolAccount, rexAccount]
  | delegatebw .. | undelegatebw .. | refund .. => [stakeAccount]
  | deposit .. | withdraw .. => [rexAccount]
  | unstaketorex .. => [stakeAccount, namesAccount, rexAccount]
  | buyrex .. | sellrex .. | updaterex .. | rentRex .. | rexexec .. | consolidate ..
  | mvtosavings .. | mvfrsavings .. | closerex .. => [namesAccount, rexAccount]
  | bidname .. | bidrefund .. => [namesAccount]
  | powerup .. => [srpoolAccount, rexAccount]
  | stake2pool .. => [srpoolAccount]
  | claimstake .. => [namesAccount, srpoolAccount]
  | updatepay .. => [eosioAccount, bpspayAccount, srpoolAccount]
  | claimvotepay .. => [bpspayAccount]
  | claimrewards .. => [eosioAccount, savingAccount, bpayAccount, vpayAccount]
  | _ => []

/-- The parts of the state that an action can change. -/
def Action.parts : Action K → List Part
  | init .. | setram .. | setramrate .. => [.ram]
  | newaccount .. => [.res, .names]
  | setalimits .. => [.res]
  | setacctram .. | setacctnet .. | setacctcpu .. => [.res, .vote]
  | buyram .. | buyrambytes .. | sellram .. => [.ram, .res, .rex, .pools]
  | delegatebw .. | undelegatebw .. => [.stake, .res, .rex, .vote]
  | refund .. => [.stake]
  | voteproducer .. => [.rex, .vote]
  | regproxy .. => [.vote]
  | regproducer .. | unregprod .. | rmvproducer .. => [.vote, .pools]
  | deposit .. | cnclrexorder .. | fundloan .. | defloan .. | setrex .. => [.rex]
  | withdraw .. => [.rex, .vote]
  | unstaketorex .. => [.stake, .res, .rex, .vote]
  | buyrex .. | sellrex .. | updaterex .. | consolidate .. | mvtosavings .. | mvfrsavings ..
  | closerex .. => [.rex, .res, .vote]
  | rentRex .. | rexexec .. => [.rex, .res]
  | bidname .. | bidrefund .. => [.names]
  | onblock .. => [.rex, .pools, .names, .vote, .pay]
  | claimrewards .. => [.vote, .pay]
  | setinflation .. | updtrevision .. => [.pay]
  | cfgpowerup .. | powerupexec .. => [.powup, .res]
  | powerup .. => [.powup, .res, .rex, .pools]
  | cfgsrpool .. | stake2pool .. | claimstake .. | transferstake .. | upgradestake ..
  | votewithpool .. | regpoolproxy .. => [.pools, .vote]
  | setpoolnotif .. | updatevotes .. | updatepay .. | claimvotepay .. => [.pools]

/-- The accounts whose tokens an action moves. -/
def Action.holders (a : Action K) : List Name := a.mover.toList ++ a.accounts

omit [Field K] [LinearOrder K] [CMath K] in
theorem Action.not_mem_holders {a : Action K} {n : Name} (hm : a.mover ≠ some n)
    (ha : n ∉ a.accounts) : n ∉ a.holders := by
  intro h
  rcases List.mem_append.mp h with h | h
  · exact hm (Option.mem_toList.mp h)
  · exact ha h

variable [FloorRing K]

/-- **An action** changes its parts of the state only, and moves the tokens of its accounts. -/
theorem Action.exec_changes {env : Env} {a : Action K} {s s' : State K}
    (h : a.exec env s = .ok s') : Changes a.parts a.holders s s' := by
  cases a with
  | init =>
    simp only [exec, State.init, bind_eq_ok, check_eq_ok, exists_const, pure_eq_ok] at h
    obtain ⟨-, -, -, -, rfl⟩ := h
    refine ⟨.refl, fun p hp => ?_⟩
    cases p <;> first | rfl | simp [parts] at hp
  | newaccount =>
    simp only [exec, State.newaccount, bind_eq_ok, check_eq_ok, exists_const, pure_eq_ok] at h
    obtain ⟨_, -, _, -, -, rfl⟩ := h
    refine ⟨.refl, fun p hp => ?_⟩
    cases p <;> first | rfl | simp [parts] at hp
  | setalimits =>
    simp only [exec, State.setalimits, bind_eq_ok, check_eq_ok, exists_const, pure_eq_ok] at h
    obtain ⟨-, -, rfl⟩ := h
    refine ⟨.refl, fun p hp => ?_⟩
    cases p <;> first | rfl | simp [parts] at hp
  | setacctram =>
    obtain ⟨_, _, rfl, -⟩ := State.setacctram_eq_ok h
    refine ⟨.refl, fun p hp => ?_⟩
    cases p <;> first | rfl | simp [parts] at hp
  | setacctnet =>
    obtain ⟨_, _, rfl, -⟩ := State.setacctnet_eq_ok h
    refine ⟨.refl, fun p hp => ?_⟩
    cases p <;> first | rfl | simp [parts] at hp
  | setacctcpu =>
    obtain ⟨_, _, rfl, -⟩ := State.setacctcpu_eq_ok h
    refine ⟨.refl, fun p hp => ?_⟩
    cases p <;> first | rfl | simp [parts] at hp
  | setram =>
    simp only [exec, State.setram, bind_eq_ok, pure_eq_ok] at h
    obtain ⟨ram, -, rfl⟩ := h
    refine ⟨.refl, fun p hp => ?_⟩
    cases p <;> first | rfl | simp [parts] at hp
  | setramrate =>
    simp only [exec, State.setramrate, bind_eq_ok, pure_eq_ok] at h
    obtain ⟨ram, -, rfl⟩ := h
    refine ⟨.refl, fun p hp => ?_⟩
    cases p <;> first | rfl | simp [parts] at hp
  | buyram => exact State.buyram_changes h
  | buyrambytes =>
    simp only [exec, State.buyrambytes, bind_eq_ok] at h
    obtain ⟨_, -, _, -, _, -, h⟩ := h
    exact State.buyram_changes h
  | sellram account =>
    simp only [exec, State.sellram, bind_eq_ok, requireAuth_eq_ok, check_eq_ok,
      exists_const] at h
    obtain ⟨-, ram, -, -, _, -, -, _, -, ⟨ram', tokens⟩, -, token, ht, hf⟩ := h
    have h₁ : Changes [.ram, .res, .rex, .pools]
        [account, ramAccount, ramfeeAccount, srpoolAccount, rexAccount] _ s' :=
      (State.payRamFee_changes hf).mono (by simp) (by simp)
    refine ⟨(Token.Flows.single ht ?_ ?_).trans h₁.token, fun p hp => ?_⟩
    · simp [holders, accounts]
    · simp [holders, mover]
    · have hsame := h₁.same p hp
      cases p <;> first | exact hsame | simp [parts] at hp
  | delegatebw =>
    simp only [exec, State.delegatebw, bind_eq_ok, check_eq_ok, State.checkCore_eq_ok,
      exists_const] at h
    exact State.changebw_changes h.2.2.2.2.2.2
  | undelegatebw =>
    simp only [exec, State.undelegatebw, bind_eq_ok, check_eq_ok, State.checkCore_eq_ok,
      exists_const] at h
    exact State.changebw_changes h.2.2.2.2.2
  | refund =>
    simp only [exec, State.refund, bind_eq_ok, check_eq_ok, requireAuth_eq_ok, exists_const,
      require_eq_ok, pure_eq_ok] at h
    obtain ⟨-, r, -, -, token, ht, rfl⟩ := h
    refine ⟨.single ht (by simp [holders, accounts]) (by simp [holders, mover]), fun p hp => ?_⟩
    cases p <;> first | rfl | simp [parts] at hp
  | voteproducer =>
    simp only [exec, State.voteproducer, bind_eq_ok, requireAuth_eq_ok, exists_const] at h
    obtain ⟨-, s₁, hu, vote, -, h⟩ := h
    obtain ⟨rex, vote₁, rfl⟩ := State.updateRexStake_frame hu
    obtain rfl : _ = s' := by
      split_ifs at h
      · exact pure_eq_ok.mp (check_bind_eq_ok.mp h).2
      · exact pure_eq_ok.mp h
    refine ⟨.refl, fun p hp => ?_⟩
    cases p <;> first | rfl | simp [parts] at hp
  | regproxy =>
    simp only [exec, State.regproxy, bind_eq_ok, pure_eq_ok] at h
    obtain ⟨vote, -, rfl⟩ := h
    refine ⟨.refl, fun p hp => ?_⟩
    cases p <;> first | rfl | simp [parts] at hp
  | regproducer =>
    simp only [exec, State.regproducer, bind_eq_ok, check_eq_ok, requireAuth_eq_ok,
      exists_const] at h
    exact State.registerProducer_changes h.2.2
  | unregprod =>
    simp only [exec, State.unregprod, bind_eq_ok, requireAuth_eq_ok, exists_const] at h
    exact State.deactivateProducer_changes h.2
  | rmvproducer => exact State.deactivateProducer_changes h
  | deposit =>
    simp only [exec, State.deposit, bind_eq_ok, requireAuth_eq_ok, check_eq_ok,
      State.checkCore_eq_ok, exists_const, pure_eq_ok] at h
    obtain ⟨-, -, -, token, ht, rex, -, rfl⟩ := h
    refine ⟨.single ht (by simp [holders, mover]) (by simp [holders, accounts]), fun p hp => ?_⟩
    cases p <;> first | rfl | simp [parts] at hp
  | withdraw =>
    simp only [exec, State.withdraw, bind_eq_ok, requireAuth_eq_ok, check_eq_ok,
      State.checkCore_eq_ok, exists_const, pure_eq_ok] at h
    obtain ⟨-, -, -, ⟨s₁, _⟩, ha, rex, -, token, ht, rfl⟩ := h
    have h₁ := State.updateRexAccount_changes ha
    refine ⟨(h₁.token.mono (by simp)).trans (.single ht ?_ ?_), fun p hp => ?_⟩
    · simp [holders, accounts]
    · simp [holders, mover]
    · have hsame := h₁.same p hp
      cases p <;> first | exact hsame | simp [parts] at hp
  | buyrex =>
    simp only [exec, State.buyrex, bind_eq_ok, requireAuth_eq_ok, check_eq_ok,
      State.checkCore_eq_ok, VoteState.checkVotingRequirement_eq_ok, exists_const,
      pure_eq_ok] at h
    obtain ⟨-, -, -, -, _, -, ⟨_, _⟩, -, ⟨rex, _⟩, -, s₁, hr, ⟨s₂, _⟩, ha, rfl⟩ := h
    exact (State.background_changes hr).of_rex.trans (State.collect_changes ha)
  | unstaketorex =>
    simp only [exec, State.unstaketorex, bind_eq_ok, requireAuth_eq_ok, check_eq_ok,
      State.checkCore_eq_ok, VoteState.checkVotingRequirement_eq_ok, exists_const,
      pure_eq_ok] at h
    obtain ⟨-, -, -, -, -, stake, -, res, -, token, ht, ⟨_, _⟩, -, ⟨rex, _⟩, -, s₁, hr, ⟨s₂, _⟩,
      ha, rfl⟩ := h
    have h₁ : Changes [.stake, .res, .rex, .vote] [stakeAccount, namesAccount, rexAccount] _ s₂ :=
      ((State.background_changes hr).trans (State.collect_changes ha)).mono (by simp) (by simp)
    refine ⟨(Token.Flows.single ht ?_ ?_).trans h₁.token, fun p hp => ?_⟩
    · simp [holders, accounts]
    · simp [holders, accounts]
    · have hsame := h₁.same p hp
      cases p <;> first | exact hsame | simp [parts] at hp
  | sellrex =>
    simp only [exec, State.sellrex, bind_eq_ok, requireAuth_eq_ok, check_eq_ok, require_eq_ok,
      exists_const, pure_eq_ok] at h
    obtain ⟨-, s₁, hr, rb, -, -, -, ⟨r, o⟩, -, -, ⟨s₂, _⟩, ha, -, _, -, -, rfl⟩ := h
    have h₂ := State.collect_changes ha
    exact (State.background_changes hr).trans h₂.of_rex.set_rex
  | cnclrexorder =>
    simp only [exec, State.cnclrexorder, bind_eq_ok, requireAuth_eq_ok, check_eq_ok,
      require_eq_ok, exists_const, pure_eq_ok] at h
    obtain ⟨-, o, -, -, rfl⟩ := h
    refine ⟨.refl, fun p hp => ?_⟩
    cases p <;> first | rfl | simp [parts] at hp
  | updaterex =>
    simp only [exec, State.updaterex, bind_eq_ok, requireAuth_eq_ok, require_eq_ok,
      exists_const, pure_eq_ok] at h
    obtain ⟨-, s₁, hr, rb, -, p, -, value, -, ⟨s₂, _⟩, ha, rfl⟩ := h
    have h₂ := State.collect_changes ha
    exact (State.background_changes hr).trans h₂.of_rex.set_rex
  | rentRex =>
    simp only [exec, State.rentRex, bind_eq_ok, requireAuth_eq_ok, check_eq_ok,
      State.checkCore_eq_ok, exists_const, pure_eq_ok] at h
    obtain ⟨-, s₁, hr, -, -, -, -, rex, -, p, -, rented, -, -, rex₁, -, p₁, -, -, res, -, rfl⟩ := h
    have h₁ := State.runrex_changes hr
    refine ⟨h₁.token, fun p hp => ?_⟩
    have hsame := h₁.same p hp
    cases p <;> first | exact hsame | simp [parts] at hp
  | fundloan =>
    simp only [exec, State.fundloan, bind_eq_ok, requireAuth_eq_ok, State.checkCore_eq_ok,
      exists_const, pure_eq_ok] at h
    obtain ⟨-, -, rex, -, rfl⟩ := h
    refine ⟨.refl, fun p hp => ?_⟩
    cases p <;> first | rfl | simp [parts] at hp
  | defloan =>
    simp only [exec, State.defloan, bind_eq_ok, requireAuth_eq_ok, State.checkCore_eq_ok,
      exists_const, pure_eq_ok] at h
    obtain ⟨-, -, rex, -, rfl⟩ := h
    refine ⟨.refl, fun p hp => ?_⟩
    cases p <;> first | rfl | simp [parts] at hp
  | setrex =>
    simp only [exec, State.setrex, bind_eq_ok, check_eq_ok, State.checkCore_eq_ok, require_eq_ok,
      exists_const, pure_eq_ok] at h
    obtain ⟨-, -, p, -, rfl⟩ := h
    refine ⟨.refl, fun p hp => ?_⟩
    cases p <;> first | rfl | simp [parts] at hp
  | rexexec =>
    simp only [exec, State.rexexec, bind_eq_ok, requireAuth_eq_ok, exists_const] at h
    exact State.runrex_changes h.2
  | consolidate =>
    simp only [exec, State.consolidate, bind_eq_ok, requireAuth_eq_ok, require_eq_ok,
      exists_const, pure_eq_ok] at h
    obtain ⟨-, s₁, hr, rb, -, ⟨s₂, _⟩, ha, rfl⟩ := h
    exact (State.background_changes hr).trans (State.collect_changes ha).set_rex
  | mvtosavings =>
    simp only [exec, State.mvtosavings, bind_eq_ok, requireAuth_eq_ok, require_eq_ok,
      check_eq_ok, exists_const, pure_eq_ok] at h
    obtain ⟨-, s₁, hr, rb, -, -, ⟨s₂, _⟩, ha, rb', -, rfl⟩ := h
    exact (State.background_changes hr).trans (State.collect_changes ha).set_rex
  | mvfrsavings =>
    simp only [exec, State.mvfrsavings, bind_eq_ok, requireAuth_eq_ok, require_eq_ok,
      check_eq_ok, exists_const, pure_eq_ok] at h
    obtain ⟨-, s₁, hr, rb, -, -, rb', -, ⟨s₂, _⟩, ha, rfl⟩ := h
    exact (State.background_changes hr).trans (State.collect_changes ha).of_rex
  | closerex =>
    simp only [exec, State.closerex, bind_eq_ok, requireAuth_eq_ok, exists_const,
      pure_eq_ok] at h
    obtain ⟨-, s₁, hr, ⟨s₂, _⟩, ha, rex, -, rfl⟩ := h
    have h₁ : Changes [.rex, .res, .vote] [namesAccount, rexAccount] s s₁ := by
      split_ifs at hr
      · exact State.background_changes hr
      · exact pure_eq_ok.mp hr ▸ .refl
    exact h₁.trans (State.collect_changes ha).set_rex
  | bidname =>
    simp only [exec, State.bidname, bind_eq_ok, requireAuth_eq_ok, check_eq_ok,
      State.checkCore_eq_ok, exists_const] at h
    obtain ⟨-, -, -, -, -, -, -, -, -, token, ht, h⟩ := h
    obtain ⟨names, rfl⟩ : ∃ names, s' = { s with token, names } := by
      split at h
      · exact ⟨_, (pure_eq_ok.mp h).symm⟩
      · simp only [bind_eq_ok, check_eq_ok, exists_const, pure_eq_ok] at h
        exact ⟨_, h.2.2.2.symm⟩
    refine ⟨.single ht (by simp [holders, mover]) (by simp [holders, accounts]), fun p hp => ?_⟩
    cases p <;> first | rfl | simp [parts] at hp
  | bidrefund =>
    simp only [exec, State.bidrefund, bind_eq_ok, pure_eq_ok] at h
    obtain ⟨_, -, token, ht, rfl⟩ := h
    refine ⟨.single ht (by simp [holders, accounts]) (by simp [holders, mover]), fun p hp => ?_⟩
    cases p <;> first | rfl | simp [parts] at hp
  | onblock timestamp producer =>
    obtain rfl := Except.ok.inj h
    obtain ⟨_, _, _, q, r, names, pay, producers, he, -⟩ :=
      s.onblock_eq env.now timestamp producer
    rw [he]
    refine ⟨.refl, fun p hp => ?_⟩
    cases p <;> first | rfl | simp [parts] at hp
  | claimrewards => exact State.claimrewards_changes h
  | setinflation =>
    simp only [exec, State.setinflation, bind_eq_ok, check_eq_ok, exists_const, pure_eq_ok] at h
    obtain ⟨-, -, -, rfl⟩ := h
    refine ⟨.refl, fun p hp => ?_⟩
    cases p <;> first | rfl | simp [parts] at hp
  | updtrevision =>
    simp only [exec, State.updtrevision, bind_eq_ok, check_eq_ok, exists_const, pure_eq_ok] at h
    obtain ⟨-, -, -, rfl⟩ := h
    refine ⟨.refl, fun p hp => ?_⟩
    cases p <;> first | rfl | simp [parts] at hp
  | cfgpowerup =>
    simp only [exec, State.cfgpowerup, bind_eq_ok, check_eq_ok, exists_const, pure_eq_ok] at h
    obtain ⟨core, -, -, m, -, -, -, -, -, net, -, cpu, -, n, -, c, -, -, -, s₁, ha, rfl⟩ := h
    obtain ⟨res, rfl⟩ := State.adjustResources_frame ha
    refine ⟨.refl, fun p hp => ?_⟩
    cases p <;> first | rfl | simp [parts] at hp
  | powerup =>
    simp only [exec, State.powerup, bind_eq_ok, requireAuth_eq_ok, check_eq_ok,
      State.checkCore_eq_ok, exists_const, pure_eq_ok] at h
    obtain ⟨-, m, -, -, -, -, -, -, -, ⟨s₁, m₁, _, _⟩, hq, _, -, _, -, -, -, s₂, h₂, s₃, h₃, s₄, h₄,
      rfl⟩ := h
    obtain ⟨res, powup, rfl⟩ := State.processPowerupQueue_frame hq
    obtain ⟨res₂, rfl⟩ := State.adjustResources_frame h₂
    obtain ⟨res₃, rfl⟩ := State.adjustResources_frame h₃
    have h₅ := State.channelToRexOrPools_changes h₄
    refine ⟨h₅.token, fun p hp => ?_⟩
    have hp' : p ∉ [Part.rex, .pools] := fun hm => hp (List.mem_cons_of_mem _
      (List.mem_cons_of_mem _ hm))
    have hsame := h₅.same p hp'
    cases p <;> first | exact hsame | simp [parts] at hp
  | powerupexec =>
    simp only [exec, State.powerupexec, bind_eq_ok, requireAuth_eq_ok, exists_const,
      pure_eq_ok] at h
    obtain ⟨-, m, -, core, -, ⟨s₁, m₁, _, _⟩, hq, s₂, ha, rfl⟩ := h
    obtain ⟨res, powup, rfl⟩ := State.processPowerupQueue_frame hq
    obtain ⟨res₂, rfl⟩ := State.adjustResources_frame ha
    refine ⟨.refl, fun p hp => ?_⟩
    cases p <;> first | rfl | simp [parts] at hp
  | cfgsrpool =>
    unfold exec State.cfgsrpool at h
    obtain ⟨core, -, h⟩ := bind_eq_ok.mp h
    split at h
    · simp only [bind_eq_ok, pure_eq_ok] at h
      obtain ⟨_, -, _, -, rfl⟩ := h
      refine ⟨.refl, fun p hp => ?_⟩
      cases p <;> first | rfl | simp [parts] at hp
    · simp only [bind_eq_ok, check_eq_ok, exists_const, pure_eq_ok] at h
      obtain ⟨-, -, -, _, -, rfl⟩ := h
      refine ⟨.refl, fun p hp => ?_⟩
      cases p <;> first | rfl | simp [parts] at hp
  | stake2pool =>
    simp only [exec, State.stake2pool, bind_eq_ok, requireAuth_eq_ok, check_eq_ok,
      State.checkCore_eq_ok, State.poolState_eq_ok, exists_const] at h
    obtain ⟨-, st, -, -, -, -, ⟨_, _⟩, -, token, ht, h⟩ := h
    have h₁ := State.recastVotes_changes h
    refine ⟨(Token.Flows.single ht ?_ ?_).trans (h₁.token.mono (by simp)), fun p hp => ?_⟩
    · simp [holders, mover]
    · simp [holders, accounts]
    · have hsame := h₁.same p hp
      cases p <;> first | exact hsame | simp [parts] at hp
  | setpoolnotif =>
    simp only [exec, State.setpoolnotif, bind_eq_ok, requireAuth_eq_ok, exists_const,
      pure_eq_ok] at h
    obtain ⟨-, st, -, rfl⟩ := h
    refine ⟨.refl, fun p hp => ?_⟩
    cases p <;> first | rfl | simp [parts] at hp
  | claimstake owner =>
    simp only [exec, State.claimstake, bind_eq_ok, requireAuth_eq_ok, check_eq_ok,
      State.checkCore_eq_ok, exists_const] at h
    obtain ⟨-, st, -, -, -, -, _, -, s₁, hd, st₁, -, pool, -, -, ⟨_, _, _⟩, -, _, -, token, ht,
      h⟩ :=
      h
    have h₁ := State.distributeNamebidToPools_changes hd
    have h₂ := State.recastVotes_changes h
    have ht' : s₁.token.Flows [owner, namesAccount, srpoolAccount] token := by
      split_ifs at ht
      · exact .single ht (by simp) (by simp)
      · exact pure_eq_ok.mp ht ▸ .refl
    refine ⟨((h₁.token.mono (by simp)).trans ht').trans (h₂.token.mono (by simp)),
      fun p hp => ?_⟩
    have hsame₁ := h₁.same p fun hm => hp (List.mem_cons.mpr (.inl (List.mem_singleton.mp hm)))
    have hsame₂ := h₂.same p hp
    cases p <;> first | exact hsame₂.trans hsame₁ | simp [parts] at hp
  | transferstake =>
    simp only [exec, State.transferstake, bind_eq_ok, requireAuth_eq_ok, check_eq_ok,
      State.checkCore_eq_ok, exists_const] at h
    obtain ⟨-, -, -, -, st, -, -, -, -, v, -, -, ⟨_, _, _⟩, -, -, ⟨_, _⟩, -, _, -, s₁, h₁, h₂⟩ := h
    have hc₁ := State.recastVotes_changes h₁
    have hc₂ := State.recastVotes_changes h₂
    refine ⟨(hc₁.token.trans hc₂.token).mono (by simp), fun p hp => ?_⟩
    have hsame₁ := hc₁.same p hp
    have hsame₂ := hc₂.same p hp
    cases p <;> first | exact hsame₂.trans hsame₁ | simp [parts] at hp
  | upgradestake =>
    simp only [exec, State.upgradestake, bind_eq_ok, requireAuth_eq_ok, check_eq_ok,
      State.checkCore_eq_ok, exists_const] at h
    obtain ⟨-, st, -, -, -, -, -, -, v, -, ⟨_, _, _⟩, -, -, ⟨_, _⟩, -, _, -, h⟩ := h
    have h₁ := State.recastVotes_changes h
    refine ⟨h₁.token.mono (by simp), fun p hp => ?_⟩
    have hsame := h₁.same p hp
    cases p <;> first | exact hsame | simp [parts] at hp
  | votewithpool =>
    simp only [exec, State.votewithpool, bind_eq_ok, requireAuth_eq_ok, exists_const] at h
    obtain ⟨-, _, -, _, -, h⟩ := h
    exact State.updatePoolVotes_changes h
  | regpoolproxy =>
    simp only [exec, State.regpoolproxy, bind_eq_ok, requireAuth_eq_ok, check_eq_ok,
      exists_const, pure_eq_ok] at h
    obtain ⟨-, st, -, -, pv, -, rfl⟩ := h
    refine ⟨.refl, fun p hp => ?_⟩
    cases p <;> first | rfl | simp [parts] at hp
  | updatevotes =>
    simp only [exec, State.updatevotes, bind_eq_ok, requireAuth_eq_ok, check_eq_ok,
      exists_const, pure_eq_ok] at h
    obtain ⟨-, prod, -, -, _, -, t, -, st, -, votes, -, rfl⟩ := h
    refine ⟨.refl, fun p hp => ?_⟩
    cases p <;> first | rfl | simp [parts] at hp
  | updatepay => exact State.updatepay_changes h
  | claimvotepay =>
    simp only [exec, State.claimvotepay, bind_eq_ok, requireAuth_eq_ok, check_eq_ok,
      exists_const, pure_eq_ok] at h
    obtain ⟨-, t, -, -, token, ht, rfl⟩ := h
    refine ⟨.single ht (by simp [holders, accounts]) (by simp [holders, mover]), fun p hp => ?_⟩
    cases p <;> first | rfl | simp [parts] at hp

end

end EosioSystem
