import EosioSystem.VoteFlags

/-!
# The recursion through proxies

A change of a vote is passed on from proxy to proxy. As long as the proxies have no cycles, the
recursion meets every voter at most once, so it ends within as many calls as there are voters.

## Main definitions

* `VoteState.proxyOf`: the proxy of a voter

## Main results

* `VoteState.propagate_ne_depth`: the depth suffices for a change of a vote
* `Action.exec_ne_depth`: **no action** outside of the staking pools goes deeper
-/

namespace EosioSystem

open Checked

variable {K : Type}

attribute [local simp] bind_eq_error map_eq_error check_eq_error require_eq_error

/-! ## Votes -/

namespace VoteState

variable {vs vs' : VoteState K}

/-- The proxy of a voter. -/
def proxyOf (vs : VoteState K) (a : Name) : Option Name :=
  if (vs.flags a).proxy = .none then none else some (vs.flags a).proxy

theorem proxyOf_congr (h : vs'.flags = vs.flags) : vs'.proxyOf = vs.proxyOf := by
  unfold proxyOf
  rw [h]

theorem acyclic_of_eq (hv : vs' = vs) (h : Acyclic vs.proxyOf) : Acyclic vs'.proxyOf := hv ▸ h

theorem proxyOf_setVoter {a : Name} {w v : VoterInfo K} (hf : vs.voters.find a = some w)
    (hv : v.flags = w.flags) : (vs.setVoter a v).proxyOf = vs.proxyOf :=
  proxyOf_congr (weighed_setVoter (hv.trans (flags_of_find hf).symm)).flags

theorem producerError_ne_depth (p : Name) (text : String) :
    producerError p text ≠ "call depth exceeded" := by
  have h := PoolVotes.producerError_notMem p text
  simp only [PoolVotes.poolVoteBugs, List.mem_cons, not_or] at h
  exact h.2.2.2.2.2.1

theorem validateVote_ne_depth (a proxy : Name) (producers : List Name) :
    validateVote a proxy producers ≠ .error "call depth exceeded" := by
  unfold validateVote
  split_ifs <;> simp

variable [Field K] [LinearOrder K]

theorem addToProducers_ne_depth (vs : VoteState K) (ct : ℕ) (delta : K) (l : List Name)
    (acc : VotepayChange K) : addToProducers ct delta l vs acc ≠ .error "call depth exceeded" := by
  induction l generalizing vs acc with
  | nil => simp [addToProducers]
  | cons acnt l ih => simp [addToProducers, ih]

theorem applyDeltas_ne_depth (vs : VoteState K) (ct : ℕ) (voting : Bool)
    (l : List (Name × K × Bool)) (acc : VotepayChange K) :
    applyDeltas ct voting l vs acc ≠ .error "call depth exceeded" := by
  induction l generalizing vs acc with
  | nil => simp [applyDeltas]
  | cons d l ih =>
    obtain ⟨acnt, delta, isNew⟩ := d
    unfold applyDeltas
    split <;> simp [producerError_ne_depth, ih]

variable [CMath K]

/-- The rank of the proxies falls along the recursion, and with it the number of the voters that
are still below. -/
theorem propagateWeightChange_ne_depth {now : BlockTimestamp} {rank : Name → ℕ} {n : ℕ} {a : Name}
    (hr : Ranked vs.proxyOf rank) (hn : vs.voters.below rank (rank a) < n) :
    propagateWeightChange now n vs a ≠ .error "call depth exceeded" := by
  induction n generalizing vs a with
  | zero => exact absurd hn (Nat.not_lt_zero _)
  | succ n ih =>
    refine bind_ne_error (require_ne_error (by decide)) fun voter hf => ?_
    refine bind_ne_error (check_ne_error (.inl (by decide))) fun _ _ => ?_
    refine bind_ne_error ?_ fun _ _ => by simp
    have hf := require_eq_ok.mp hf
    split_ifs with hsmall hproxy
    · refine bind_ne_error (require_ne_error (by decide)) fun proxy hfp => ?_
      have hfp := require_eq_ok.mp hfp
      have hlt : rank voter.proxy < rank a := by
        refine hr a voter.proxy ?_
        rw [proxyOf, flags_of_find hf]
        exact if_neg hproxy
      -- the record of the proxy has new votes, and the same proxy
      refine ih ?_ ?_
      · rw [proxyOf_setVoter hfp]
        · exact hr
        · rfl
      · refine lt_of_lt_of_le ?_ (Nat.lt_succ_iff.mp hn)
        exact (Table.below_set hfp ..).trans_lt (Table.below_lt hfp hlt)
    · simp [addToProducers_ne_depth]
    · simp
    · simp

/-- A greater depth makes no difference once the recursion ends. -/
theorem propagateWeightChange_eq_of_le {now : BlockTimestamp} {n m : ℕ} {a : Name} (hnm : n ≤ m)
    (h : propagateWeightChange now n vs a ≠ .error "call depth exceeded") :
    propagateWeightChange now m vs a = propagateWeightChange now n vs a := by
  induction n generalizing m vs a with
  | zero => exact absurd rfl h
  | succ n ih =>
    obtain ⟨m, rfl⟩ : ∃ m', m = m' + 1 := ⟨m - 1, by omega⟩
    unfold propagateWeightChange
    refine bind_congr_ok fun voter hf => bind_congr_ok fun _ hc => congrArg (· >>= _) ?_
    split_ifs with hsmall hproxy
    · refine bind_congr_ok fun proxy hp => ih (Nat.le_of_succ_le_succ hnm) fun he => h ?_
      refine bind_eq_error.mpr (.inr ⟨voter, hf, bind_eq_error.mpr (.inr ⟨_, hc, ?_⟩)⟩)
      refine bind_eq_error.mpr (.inl ?_)
      rw [if_pos hsmall, if_pos hproxy]
      exact bind_eq_error.mpr (.inr ⟨proxy, hp, he⟩)
    · rfl
    · rfl
    · rfl

/-- **The depth suffices** to pass a change of a vote on. -/
theorem propagate_ne_depth {now : BlockTimestamp} (h : Acyclic vs.proxyOf) (a : Name) :
    vs.propagate now a ≠ .error "call depth exceeded" := by
  obtain ⟨rank, hr⟩ := h
  exact propagateWeightChange_ne_depth hr (Nat.lt_succ_of_le (Table.below_le _ _ _))

theorem changeProxied_ne_depth {now : BlockTimestamp} (h : Acyclic vs.proxyOf) {a : Name}
    {proxy : VoterInfo K} (hf : vs.voters.find a = some proxy) (delta : K) :
    vs.changeProxied now a proxy delta ≠ .error "call depth exceeded" := by
  refine propagate_ne_depth ?_ a
  rw [proxyOf_setVoter hf]
  · exact h
  · rfl

theorem undoProxy_ne_depth {now : BlockTimestamp} (h : Acyclic vs.proxyOf) (voter : VoterInfo K) :
    vs.undoProxy now voter ≠ .error "call depth exceeded" := by
  unfold undoProxy
  split_ifs
  · exact bind_ne_error (require_ne_error (by decide)) fun old hf =>
      changeProxied_ne_depth h (require_eq_ok.mp hf) _
  · simp

theorem castProxy_ne_depth {now : BlockTimestamp} (h : Acyclic vs.proxyOf) (proxy : Name)
    (weight : K) (voting : Bool) :
    vs.castProxy now proxy weight voting ≠ .error "call depth exceeded" := by
  unfold castProxy
  by_cases hp : proxy = .none
  · simp [hp]
  · rw [if_pos hp]
    refine bind_ne_error (require_ne_error (by decide)) fun new hf =>
      bind_ne_error (check_ne_error (.inl (by decide))) fun _ _ => ?_
    by_cases hw : 0 ≤ weight
    · rw [if_pos hw]
      exact changeProxied_ne_depth h (require_eq_ok.mp hf) _
    · simp [hw]

theorem updateVotes_ne_depth {now : BlockTimestamp} (h : Acyclic vs.proxyOf) (a proxy : Name)
    (producers : List Name) (voting : Bool) :
    vs.updateVotes now a proxy producers voting ≠ .error "call depth exceeded" := by
  refine bind_ne_error (validateVote_ne_depth _ _ _) fun _ _ =>
    bind_ne_error (require_ne_error (by decide)) fun voter _ =>
    bind_ne_error (check_ne_error (.inl (by decide))) fun _ _ => ?_
  have hk := activateStake_kept vs now voter
  rw [← proxyOf_congr hk.flags] at h
  refine bind_ne_error (undoProxy_ne_depth h voter) fun vs₁ h₁ => ?_
  rw [← proxyOf_congr (undoProxy_kept h₁).flags] at h
  refine bind_ne_error (castProxy_ne_depth h _ _ _) fun vs₂ _ =>
    bind_ne_error (applyDeltas_ne_depth _ _ _ _ _) fun _ _ => ?_
  simp

theorem updateVotingPower_ne_depth {now : BlockTimestamp} (h : Acyclic vs.proxyOf) (a : Name)
    (delta : ℤ) : vs.updateVotingPower now a delta ≠ .error "call depth exceeded" := by
  rw [← proxyOf_congr (addStaked_kept vs a delta).flags] at h
  have hrest (voter : VoterInfo K) : (if voter.producers ≠ [] ∨ voter.proxy ≠ .none then
      (vs.addStaked a delta).updateVotes now a voter.proxy voter.producers false
      else pure (vs.addStaked a delta)) ≠ .error "call depth exceeded" := by
    split_ifs
    · exact updateVotes_ne_depth h _ _ _ _
    · simp
  refine bind_ne_error (require_ne_error (by decide)) fun voter _ =>
    bind_ne_error (check_ne_error (.inl (by decide))) fun _ _ => ?_
  dsimp only
  by_cases hb : a = b1Account
  · rw [if_pos hb]
    exact bind_ne_error (by simp [validateB1Vesting]) fun _ _ => hrest voter
  · rw [if_neg hb]
    exact hrest voter

theorem regproxy_ne_depth {now : BlockTimestamp} (h : Acyclic vs.proxyOf) (a : Name) (b : Bool) :
    vs.regproxy now a b ≠ .error "call depth exceeded" := by
  refine bind_ne_error (check_ne_error (.inl (by decide))) fun _ _ => ?_
  split
  · rename_i v hf
    refine bind_ne_error (check_ne_error (.inl (by decide))) fun _ _ =>
      bind_ne_error (check_ne_error (.inl (by decide))) fun _ _ => propagate_ne_depth ?_ a
    have hproxy : (vs.setVoter a { v with isProxy := b }).proxyOf = vs.proxyOf := by
      funext x
      unfold proxyOf
      rw [flags_setVoter, Function.update_apply]
      split_ifs with hx <;> simp_all [flags_of_find hf, VoterInfo.flags]
    rwa [hproxy]
  · simp

end VoteState

/-! ## The other parts of an action -/

section

theorem Token.transfer_ne_depth (t : Token) (a b : Name) (q : ℤ) :
    t.transfer a b q ≠ .error "call depth exceeded" := by simp [transfer]

theorem Token.issue_ne_depth (t : Token) (a : Name) (q : ℤ) :
    t.issue a q ≠ .error "call depth exceeded" := by simp [issue]

theorem requireAuth_ne_depth (a : Name) : requireAuth a ≠ .error "call depth exceeded" := by
  simp [requireAuth]

theorem getBancorOutput_ne_depth (a b q : ℤ) :
    getBancorOutput a b q ≠ .error "call depth exceeded" := by simp [getBancorOutput]

theorem getBancorInput_ne_depth (a b q : ℤ) :
    getBancorInput a b q ≠ .error "call depth exceeded" := by simp [getBancorInput]

theorem rexValue_ne_depth (a b q : ℤ) :
    rexValue a b q ≠ .error "call depth exceeded" := by simp [rexValue]

attribute [local simp] Token.transfer_ne_depth Token.issue_ne_depth requireAuth_ne_depth
  getBancorOutput_ne_depth getBancorInput_ne_depth rexValue_ne_depth

namespace State

theorem coreSymbol_ne_depth (s : State K) : s.coreSymbol ≠ .error "call depth exceeded" := by
  simp [coreSymbol]

theorem checkCore_ne_depth (s : State K) (q : Asset) {text : Error}
    (h : text ≠ "call depth exceeded") : s.checkCore q text ≠ .error "call depth exceeded" := by
  simp [checkCore, coreSymbol_ne_depth, h]

attribute [local simp] coreSymbol_ne_depth

end State

/-! ### Tokens and REX -/

namespace RexState

variable (r : RexState)

theorem transferFromFund_ne_depth (a : Name) (q : ℤ) :
    r.transferFromFund a q ≠ .error "call depth exceeded" := by simp [transferFromFund]

theorem transferToFund_ne_depth (a : Name) (q : ℤ) :
    r.transferToFund a q ≠ .error "call depth exceeded" := by simp [transferToFund]

theorem updateRexPool_ne_depth (t : ℕ) :
    r.updateRexPool t ≠ .error "call depth exceeded" := by
  unfold updateRexPool
  dsimp only
  split_ifs <;> simp [getPool]

theorem addToRexReturnPool_ne_depth (t : ℕ) (fee : ℤ) :
    r.addToRexReturnPool t fee ≠ .error "call depth exceeded" := by
  simp [addToRexReturnPool, updateRexPool_ne_depth]

theorem addToRexPool_ne_depth (q : ℤ) :
    r.addToRexPool q ≠ .error "call depth exceeded" := by
  unfold addToRexPool
  split
  · simp
  · split_ifs <;> simp

theorem addToRexBalance_ne_depth (t : ℕ) (a : Name) (q rex : ℤ) :
    r.addToRexBalance t a q rex ≠ .error "call depth exceeded" := by
  unfold addToRexBalance
  split <;> simp [getPool]

theorem fillRexOrder_ne_depth (a : Name) (rb : RexBalance) (rex : ℤ) :
    r.fillRexOrder a rb rex ≠ .error "call depth exceeded" := by
  refine bind_ne_error (by simp [getPool]) fun p _ => bind_ne_error (by simp) fun _ _ => ?_
  dsimp only
  split_ifs <;> simp

theorem fillQueuedOrders_ne_depth (l : List Name) :
    r.fillQueuedOrders l ≠ .error "call depth exceeded" := by
  induction l generalizing r with
  | nil => simp [fillQueuedOrders]
  | cons a l ih =>
    refine bind_ne_error ?_ fun r' _ => ih r'
    unfold fillQueuedOrder
    split
    · refine bind_ne_error (r.fillRexOrder_ne_depth _ _ _) fun _ _ => ?_
      dsimp only
      split_ifs <;> simp
    · simp

theorem addLoanToRexPool_ne_depth (t : ℕ) (q rented : ℤ) (new : Bool) :
    r.addLoanToRexPool t q rented new ≠ .error "call depth exceeded" := by
  simp [addLoanToRexPool, getPool, addToRexReturnPool_ne_depth]

theorem processExpiredLoan_ne_depth (t : ℕ) (key : Resource × ℕ) (loan : RexLoan) :
    r.processExpiredLoan t key loan ≠ .error "call depth exceeded" := by
  refine bind_ne_error (by simp [removeLoanFromRexPool, getPool]) fun _ _ =>
    bind_ne_error (by simp [getPool]) fun _ _ => bind_ne_error (by simp [rentTokens]) fun _ _ => ?_
  split_ifs <;> simp [addLoanToRexPool_ne_depth, transferToFund_ne_depth]

theorem closeBalance_ne_depth (a : Name) :
    r.closeBalance a ≠ .error "call depth exceeded" := by
  unfold closeBalance
  split <;> simp

end RexState

/-! ### Resources -/

namespace ResourceState

variable (rs : ResourceState)

theorem addWeights_ne_depth (a : Name) (net cpu : ℤ) :
    rs.addWeights a net cpu ≠ .error "call depth exceeded" := by simp [addWeights]

theorem changeTotals_ne_depth (m : Managed) (a : Name) (net cpu : ℤ) :
    rs.changeTotals m a net cpu ≠ .error "call depth exceeded" := by
  simp [changeTotals, addWeights_ne_depth]

theorem updateResourceLimits_ne_depth (m : Managed) (a : Name) (net cpu : ℤ) :
    rs.updateResourceLimits m a net cpu ≠ .error "call depth exceeded" := by
  unfold updateResourceLimits
  split_ifs <;> simp [addWeights_ne_depth]

theorem adjustResources_ne_depth (m : Managed) (a : Name) (net cpu : ℤ) (must : Bool) :
    rs.adjustResources m a net cpu must ≠ .error "call depth exceeded" := by
  unfold adjustResources
  split_ifs <;> simp [addWeights_ne_depth]

end ResourceState

namespace StakeState

theorem changeDelband_ne_depth (st : StakeState) (a b : Name) (net cpu : ℤ) :
    st.changeDelband a b net cpu ≠ .error "call depth exceeded" := by simp [changeDelband]

theorem changeRefund_ne_depth (st : StakeState) (now : BlockTimestamp) (a b : Name) (net cpu : ℤ)
    (transfer : Bool) : st.changeRefund now a b net cpu transfer ≠ .error "call depth exceeded" := by
  unfold changeRefund
  dsimp only
  split_ifs
  · split
    · simp [updateRefund]
    · simp
  · simp

end StakeState

namespace State

variable (s : State K) (now : BlockTimestamp)

theorem updateLimits_ne_depth (kind : Resource) (a : Name) (delta : ℤ) :
    s.updateLimits kind a delta ≠ .error "call depth exceeded" := by
  simp [updateLimits, ResourceState.updateResourceLimits_ne_depth]

theorem processLoans_ne_depth (kind : Resource) (max : ℕ) :
    s.processLoans now kind max ≠ .error "call depth exceeded" := by
  induction max generalizing s with
  | zero => simp [processLoans]
  | succ max ih =>
    unfold processLoans
    split
    · simp
    · split_ifs
      · simp
      · exact bind_ne_error (RexState.processExpiredLoan_ne_depth _ _ _ _) fun _ _ =>
          bind_ne_error (updateLimits_ne_depth _ _ _ _) fun _ _ => ih _

theorem channelToRex_ne_depth (sender : Name) (amount : ℤ) :
    s.channelToRex now sender amount ≠ .error "call depth exceeded" := by
  unfold channelToRex
  split_ifs <;> simp [RexState.addToRexReturnPool_ne_depth]

theorem channelNamebids_ne_depth : s.channelNamebids now ≠ .error "call depth exceeded" := by
  refine bind_ne_error (by simp [RexState.getPool]) fun _ _ => ?_
  split_ifs <;> simp [channelToRex_ne_depth, RexState.getPool]

/-- The background work takes no votes. -/
theorem runrex_ne_depth (max : ℕ) : s.runrex now max ≠ .error "call depth exceeded" := by
  simp [runrex, RexState.updateRexPool_ne_depth, channelNamebids_ne_depth, processLoans_ne_depth,
    RexState.fillQueuedOrders_ne_depth]

theorem updateRexStake_ne_depth (a : Name) :
    s.updateRexStake a ≠ .error "call depth exceeded" := by
  unfold updateRexStake
  split
  · split_ifs <;> simp
  · simp

attribute [local simp] coreSymbol_ne_depth

theorem claimName_ne_depth (ns : NameState) (a b : Name) :
    ns.claimName a b ≠ .error "call depth exceeded" := by
  unfold NameState.claimName
  dsimp only
  split_ifs <;> simp

theorem newaccount_ne_depth (a b : Name) :
    s.newaccount a b ≠ .error "call depth exceeded" := by
  simp [newaccount, claimName_ne_depth]

theorem changeRefund_ne_depth (a b c : Name) (net cpu : ℤ) (transfer : Bool) :
    s.changeRefund now a b c net cpu transfer ≠ .error "call depth exceeded" := by
  unfold changeRefund
  by_cases ha : a = stakeAccount
  · simp [ha]
  · rw [if_neg ha]
    refine bind_ne_error (StakeState.changeRefund_ne_depth _ _ _ _ _ _ _) fun _ _ => ?_
    dsimp only
    split_ifs <;> simp

variable [Field K] [LinearOrder K]

theorem channelToRexOrPools_ne_depth (sender : Name) (amount : ℤ) (req : Bool) :
    s.channelToRexOrPools now sender amount req ≠ .error "call depth exceeded" := by
  intro h
  have := channelToRexOrPools_error h
  simp at this

theorem payRamFee_ne_depth (payer : Name) (fee : ℤ) :
    s.payRamFee now payer fee ≠ .error "call depth exceeded" := by
  unfold payRamFee
  split_ifs <;> simp [channelToRexOrPools_ne_depth]

theorem directConvert_ne_depth (es : ExchangeState) (q : Asset) (sym : Symbol) :
    es.directConvert q sym ≠ .error "call depth exceeded" := by
  unfold ExchangeState.directConvert
  split_ifs <;> simp

theorem updateRamSupply_ne_depth (rs : RamState) :
    rs.updateRamSupply now ≠ .error "call depth exceeded" := by
  unfold RamState.updateRamSupply
  split_ifs <;> simp

theorem buyram_ne_depth (payer receiver : Name) (quant : Asset) :
    s.buyram now payer receiver quant ≠ .error "call depth exceeded" := by
  simp [buyram, updateRamSupply_ne_depth, checkCore_ne_depth, payRamFee_ne_depth,
    RamState.buyBytes, directConvert_ne_depth]

theorem sellram_ne_depth (a : Name) (bytes : ℤ) :
    s.sellram now a bytes ≠ .error "call depth exceeded" := by
  simp [sellram, updateRamSupply_ne_depth, payRamFee_ne_depth, RamState.sellBytes,
    directConvert_ne_depth]

theorem configure_ne_depth (r : PowerupResource K) (t : ℕ) (core : Symbol)
    (args : PowerupConfigResource K) : r.configure t core args ≠ .error "call depth exceeded" := by
  simp [PowerupResource.configure]

omit [Field K] [LinearOrder K] in
theorem adjustResources_ne_depth (a : Name) (net cpu : ℤ) (must : Bool) :
    s.adjustResources a net cpu must ≠ .error "call depth exceeded" := by
  simp [adjustResources, ResourceState.adjustResources_ne_depth]

omit [Field K] [LinearOrder K] in
theorem expireOrders_ne_depth (t max : ℕ) (net cpu : ℤ) :
    expireOrders t max s net cpu ≠ .error "call depth exceeded" := by
  induction max generalizing s net cpu with
  | zero => simp [expireOrders]
  | succ max ih =>
    unfold expireOrders
    split
    · simp
    · split_ifs
      · simp
      · exact bind_ne_error (adjustResources_ne_depth _ _ _ _ _) fun _ _ => ih _ _ _

omit [Field K] [LinearOrder K] in
theorem updateWeight_ne_depth (r : PowerupResource K) (t : ℕ) :
    r.updateWeight t ≠ .error "call depth exceeded" := by
  simp [PowerupResource.updateWeight]

omit s now [Field K] [LinearOrder K] in
theorem transferPositive_ne_depth (token : Token) (a b : Name) (q : ℤ) :
    transferPositive token a b q ≠ .error "call depth exceeded" := by
  unfold transferPositive
  split_ifs <;> simp

omit s now [Field K] [LinearOrder K] in
theorem issueInflation_ne_depth (token : Token) (q q₁ q₂ q₃ : ℤ) :
    issueInflation token q q₁ q₂ q₃ ≠ .error "call depth exceeded" := by
  unfold issueInflation
  split_ifs <;> simp [transferPositive_ne_depth]

variable [FloorRing K] [CMath K]

theorem processPowerupQueue_ne_depth (t : ℕ) (m : PowerupMarket K) (max : ℕ) :
    s.processPowerupQueue t m max ≠ .error "call depth exceeded" := by
  simp [processPowerupQueue, expireOrders_ne_depth, updateWeight_ne_depth]

theorem refreshMarket_ne_depth (t : ℕ) (m : Option (PowerupMarket K)) :
    refreshMarket t m ≠ .error "call depth exceeded" := by
  cases m <;> simp [refreshMarket, updateWeight_ne_depth]

theorem reserve_ne_depth (r : PowerupResource K) (frac : ℤ) :
    r.reserve frac ≠ .error "call depth exceeded" := by
  unfold PowerupResource.reserve
  split_ifs <;> simp

/-- The one text that is not fixed. -/
theorem maxPayment_ne_depth (q : Asset) :
    "max_payment is less than calculated fee: " ++ q.toString ≠ "call depth exceeded" := by
  intro h
  have hchars := congrArg (fun text : String => text.toList.head?) h
  simp [String.toList_append] at hchars

omit [CMath K] in
theorem fillBuckets_ne_depth : s.fillBuckets now ≠ .error "call depth exceeded" := by
  unfold fillBuckets
  split_ifs <;> simp [inflation, issueInflation_ne_depth]

end State

end

/-! ## Actions -/

namespace Action

variable [Field K] [LinearOrder K] [FloorRing K] [CMath K]

attribute [local simp] Token.transfer_ne_depth Token.issue_ne_depth requireAuth_ne_depth
  getBancorOutput_ne_depth getBancorInput_ne_depth rexValue_ne_depth State.coreSymbol_ne_depth
  State.checkCore_ne_depth

section

variable {s : State K} {now : BlockTimestamp}

omit [FloorRing K] in
/-- Collecting an order casts a vote again. -/
theorem updateRexAccount_ne_depth (h : Acyclic s.vote.proxyOf) (owner : Name)
    (proceeds delta : ℤ) (force : Bool) :
    s.updateRexAccount now owner proceeds delta force ≠ .error "call depth exceeded" := by
  refine bind_ne_error ?_ fun _ _ => bind_ne_error ?_ fun _ _ => by simp
  · split_ifs <;> simp [RexState.transferToFund_ne_depth]
  · split_ifs
    · exact VoteState.updateVotingPower_ne_depth h _ _
    · simp

omit [FloorRing K] in
theorem changebw_ne_depth (h : Acyclic s.vote.proxyOf) (sender receiver : Name) (net cpu : ℤ)
    (transfer : Bool) :
    s.changebw now sender receiver net cpu transfer ≠ .error "call depth exceeded" := by
  refine bind_ne_error (by simp) fun _ _ => bind_ne_error (by simp) fun _ _ =>
    bind_ne_error (by simp) fun _ _ =>
    bind_ne_error (StakeState.changeDelband_ne_depth _ _ _ _ _) fun stake _ =>
    bind_ne_error (ResourceState.changeTotals_ne_depth _ _ _ _ _) fun res _ =>
    bind_ne_error (State.changeRefund_ne_depth _ _ _ _ _ _ _ _) fun s₁ h₁ =>
    bind_ne_error (State.updateRexStake_ne_depth _ _) fun s₂ h₂ => bind_ne_error ?_ fun _ _ => by
      simp
  refine VoteState.updateVotingPower_ne_depth ?_ _ _
  have hvote := State.changeRefund_vote h₁
  rwa [VoteState.proxyOf_congr (State.updateRexStake_kept h₂).flags, hvote]

end

theorem exec_ne_depth {env : Env} {x : Action K} {s : State K} (hx : x.isPool = false)
    (h : Acyclic s.vote.proxyOf) : x.exec env s ≠ .error "call depth exceeded" := by
  cases x with
  | init => simp [exec, State.init]
  | newaccount => exact State.newaccount_ne_depth _ _ _
  | setalimits => simp [exec, State.setalimits]
  | setacctram account ram => 
    cases ram <;> simp [exec, State.setacctram, State.currentLimits]
  | setacctnet account net => cases net <;> simp [exec, State.setacctnet, State.currentLimits]
  | setacctcpu account cpu => cases cpu <;> simp [exec, State.setacctcpu, State.currentLimits]
  | setram => simp [exec, State.setram, RamState.setram]
  | setramrate => simp [exec, State.setramrate, State.updateRamSupply_ne_depth]
  | buyram => exact State.buyram_ne_depth _ _ _ _ _
  | buyrambytes => simp [exec, State.buyrambytes, State.buyram_ne_depth]
  | sellram => exact State.sellram_ne_depth _ _ _ _
  | delegatebw => simp [exec, State.delegatebw, changebw_ne_depth h]
  | undelegatebw => simp [exec, State.undelegatebw, changebw_ne_depth h]
  | refund => simp [exec, State.refund]
  | voteproducer voter proxy producers =>
    refine bind_ne_error (by simp) fun _ _ =>
      bind_ne_error (State.updateRexStake_ne_depth _ _) fun s₁ h₁ => ?_
    rw [← VoteState.proxyOf_congr (State.updateRexStake_kept h₁).flags] at h
    refine bind_ne_error (VoteState.updateVotes_ne_depth h _ _ _ _) fun vote _ => ?_
    dsimp only
    split_ifs <;> simp [VoteState.checkVotingRequirement]
  | regproxy => simp [exec, State.regproxy, VoteState.regproxy_ne_depth h]
  | deposit => simp [exec, State.deposit, RexState.transferToFund_ne_depth]
  | withdraw =>
    simp [exec, State.withdraw, updateRexAccount_ne_depth h, RexState.transferFromFund_ne_depth]
  | buyrex =>
    refine bind_ne_error (by simp) fun _ _ => bind_ne_error (by simp) fun _ _ =>
      bind_ne_error (by simp) fun _ _ =>
      bind_ne_error (by simp [VoteState.checkVotingRequirement, State.votingRequirement]) fun _ _ =>
      bind_ne_error (RexState.transferFromFund_ne_depth _ _ _) fun _ _ =>
      bind_ne_error (RexState.addToRexPool_ne_depth _ _) fun _ _ =>
      bind_ne_error (RexState.addToRexBalance_ne_depth _ _ _ _ _) fun _ _ =>
      bind_ne_error (State.runrex_ne_depth _ _ _) fun s₁ hr =>
      bind_ne_error (updateRexAccount_ne_depth ?_ _ _ _ _) fun _ _ => by simp
    have hvote := State.runrex_vote hr
    exact VoteState.acyclic_of_eq hvote h
  | unstaketorex =>
    refine bind_ne_error (by simp) fun _ _ => bind_ne_error (by simp) fun _ _ =>
      bind_ne_error (by simp) fun _ _ => bind_ne_error (by simp) fun _ _ =>
      bind_ne_error (by simp [VoteState.checkVotingRequirement, State.votingRequirement]) fun _ _ =>
      bind_ne_error (by simp [State.unstakeDelband]) fun _ _ =>
      bind_ne_error (ResourceState.updateResourceLimits_ne_depth _ _ _ _ _) fun _ _ =>
      bind_ne_error (by simp) fun _ _ =>
      bind_ne_error (RexState.addToRexPool_ne_depth _ _) fun _ _ =>
      bind_ne_error (RexState.addToRexBalance_ne_depth _ _ _ _ _) fun _ _ =>
      bind_ne_error (State.runrex_ne_depth _ _ _) fun s₁ hr =>
      bind_ne_error (updateRexAccount_ne_depth ?_ _ _ _ _) fun _ _ => by simp
    have hvote := State.runrex_vote hr
    exact VoteState.acyclic_of_eq hvote h
  | sellrex =>
    refine bind_ne_error (by simp) fun _ _ =>
      bind_ne_error (State.runrex_ne_depth _ _ _) fun s₁ hr => bind_ne_error (by simp) fun _ _ =>
      bind_ne_error (by simp) fun _ _ => bind_ne_error (by simp) fun _ _ =>
      bind_ne_error (RexState.fillRexOrder_ne_depth _ _ _ _) fun _ _ =>
      bind_ne_error (by simp) fun _ _ =>
      bind_ne_error (updateRexAccount_ne_depth ?_ _ _ _ _) fun _ _ => by simp
    have hvote := State.runrex_vote hr
    exact VoteState.acyclic_of_eq hvote h
  | cnclrexorder => simp [exec, State.cnclrexorder]
  | updaterex =>
    refine bind_ne_error (by simp) fun _ _ =>
      bind_ne_error (State.runrex_ne_depth _ _ _) fun s₁ hr => bind_ne_error (by simp) fun _ _ =>
      bind_ne_error (by simp [RexState.getPool]) fun p _ => bind_ne_error ?_ fun _ _ =>
      bind_ne_error (updateRexAccount_ne_depth ?_ _ _ _ _) fun _ _ => by simp
    · split_ifs <;> simp
    · have hvote := State.runrex_vote hr
      exact VoteState.acyclic_of_eq hvote h
  | rentRex => simp [exec, State.rentRex, State.runrex_ne_depth,
    RexState.transferFromFund_ne_depth, RexState.getPool, RexState.rentTokens,
      RexState.addLoanToRexPool_ne_depth, State.updateLimits_ne_depth]
  | fundloan => simp [exec, State.fundloan, RexState.fundRexLoan,
    RexState.transferFromFund_ne_depth]
  | defloan => simp [exec, State.defloan, RexState.defundRexLoan, RexState.transferToFund_ne_depth]
  | setrex => simp [exec, State.setrex]
  | rexexec => simp [exec, State.rexexec, State.runrex_ne_depth]
  | consolidate =>
    refine bind_ne_error (by simp) fun _ _ =>
      bind_ne_error (State.runrex_ne_depth _ _ _) fun s₁ hr => bind_ne_error (by simp) fun _ _ =>
      bind_ne_error (updateRexAccount_ne_depth ?_ _ _ _ _) fun _ _ => by simp
    have hvote := State.runrex_vote hr
    exact VoteState.acyclic_of_eq hvote h
  | mvtosavings =>
    refine bind_ne_error (by simp) fun _ _ =>
      bind_ne_error (State.runrex_ne_depth _ _ _) fun s₁ hr => bind_ne_error (by simp) fun _ _ =>
      bind_ne_error (by simp) fun _ _ =>
      bind_ne_error (updateRexAccount_ne_depth ?_ _ _ _ _) fun _ _ => by simp [State.moveToSavings]
    have hvote := State.runrex_vote hr
    exact VoteState.acyclic_of_eq hvote h
  | mvfrsavings =>
    refine bind_ne_error (by simp) fun _ _ =>
      bind_ne_error (State.runrex_ne_depth _ _ _) fun s₁ hr => bind_ne_error (by simp) fun _ _ =>
      bind_ne_error (by simp) fun _ _ => bind_ne_error (by simp [State.moveFromSavings]) fun _ _ =>
      bind_ne_error (updateRexAccount_ne_depth ?_ _ _ _ _) fun _ _ => by simp
    have hvote := State.runrex_vote hr
    exact VoteState.acyclic_of_eq hvote h
  | closerex =>
    refine bind_ne_error (by simp) fun _ _ => bind_ne_error ?_ fun s₁ hr =>
      bind_ne_error (updateRexAccount_ne_depth ?_ _ _ _ _) fun _ _ => by
        simp [RexState.closeBalance_ne_depth]
    · split_ifs <;> simp [State.runrex_ne_depth]
    · split_ifs at hr
      · have hvote := State.runrex_vote hr
        exact VoteState.acyclic_of_eq hvote h
      · exact pure_eq_ok.mp hr ▸ h
  | bidname =>
    simp only [exec, State.bidname]
    refine bind_ne_error (by simp) fun _ _ => bind_ne_error (by simp) fun _ _ =>
      bind_ne_error (by simp) fun _ _ => bind_ne_error (by simp) fun _ _ =>
      bind_ne_error (by simp) fun _ _ => bind_ne_error (by simp) fun _ _ =>
      bind_ne_error (by simp) fun _ _ => bind_ne_error (by simp) fun _ _ =>
      bind_ne_error (by simp) fun _ _ => bind_ne_error (by simp) fun _ _ => ?_
    split <;> simp
  | bidrefund => simp [exec, State.bidrefund]
  | claimrewards =>
    refine bind_ne_error (by simp) fun _ _ => bind_ne_error (by simp) fun _ _ =>
      bind_ne_error (by simp) fun _ _ => bind_ne_error (by simp) fun _ _ =>
      bind_ne_error (by simp) fun _ _ => bind_ne_error (State.fillBuckets_ne_depth _ _) fun _ _ =>
      bind_ne_error (State.transferPositive_ne_depth _ _ _ _) fun _ _ =>
      bind_ne_error (State.transferPositive_ne_depth _ _ _ _) fun _ _ => by simp
  | setinflation => simp [exec, State.setinflation]
  | updtrevision => simp [exec, State.updtrevision]
  | cfgpowerup =>
    simp [exec, State.cfgpowerup, State.refreshMarket_ne_depth, State.configure_ne_depth,
      State.adjustResources_ne_depth, State.updateWeight_ne_depth]
  | powerup =>
    simp [exec, State.powerup, State.processPowerupQueue_ne_depth, State.reserve_ne_depth,
      State.adjustResources_ne_depth, State.channelToRexOrPools_ne_depth,
      State.maxPayment_ne_depth]
  | powerupexec =>
    simp [exec, State.powerupexec, State.processPowerupQueue_ne_depth,
      State.adjustResources_ne_depth]
  | _ => cases hx

end Action

end EosioSystem
