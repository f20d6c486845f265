import EosioSystem.Frame

/-!
# Refunds of unstaked tokens

What each action does to the pending refunds and to the deferred transactions that collect them.
An account unstakes, takes tokens back from its own refund by delegating to itself, or collects
what is left after three days; nothing else touches a refund. A deferred transaction is canceled
by every stake change of its owner that does not schedule it again.

## Main definitions

* `RefundEvent`: what an action does to the refunds
* `RefundChain`, `DeferredStep`: the contract on a chain that executes the deferred transactions

## Main results

* `Action.exec_refund`: the actions and their refund events
* `refundLock_of_run`: **unstaked tokens stay locked for three days**
* `refundScheduled_of_run`: when the deferred transaction of a refund is scheduled
-/

namespace EosioSystem

open Checked

namespace StakeState

variable {st st' : StakeState} {now : BlockTimestamp} {owner receiver : Name}

theorem changeDelband_frame {net cpu : ℤ} (h : st.changeDelband owner receiver net cpu = .ok st') :
    st'.refunds = st.refunds ∧ st'.deferred = st.deferred := by
  simp only [changeDelband, bind_eq_ok, check_eq_ok, exists_const, pure_eq_ok] at h
  obtain ⟨-, -, rfl⟩ := h
  exact ⟨rfl, rfl⟩

theorem unstakeDelband_frame {net cpu : ℤ}
    (h : State.unstakeDelband st owner receiver net cpu = .ok st') :
    st'.refunds = st.refunds ∧ st'.deferred = st.deferred := by
  simp only [State.unstakeDelband, bind_eq_ok, check_eq_ok, exists_const, require_eq_ok,
    pure_eq_ok] at h
  obtain ⟨d, -, -, -, rfl⟩ := h
  exact ⟨rfl, rfl⟩

/-- The refund of an owner after a stake change that may go to it or come from it. -/
def refundAfter (now : BlockTimestamp) (net cpu : ℤ) (r : RefundRequest) : RefundRequest where
  requestTime := if net < 0 ∨ cpu < 0 then now.sec else r.requestTime
  netAmount := max (r.netAmount - net) 0
  cpuAmount := max (r.cpuAmount - cpu) 0

theorem refundPart_fst (amount delta : ℤ) : (refundPart amount delta).1 = max (amount - delta)
    0 := by
  unfold refundPart
  split_ifs with h
  · exact (max_eq_right h.le).symm
  · exact (max_eq_left (not_lt.mp h)).symm

/-- The cases of a stake change: it goes to the refund or comes from it, or the refund is not
concerned and its deferred transaction is canceled. -/
theorem changeRefund_cases {net cpu net' cpu' : ℤ} {transfer : Bool}
    (h : st.changeRefund now owner receiver net cpu transfer = .ok (st', net', cpu')) :
    (∃ r₀, (st.refunds.find owner = some r₀ ∨
        (st.refunds.find owner = none ∧ r₀ = ⟨now.sec, 0, 0⟩ ∧ (net < 0 ∨ cpu < 0))) ∧
      ((transfer = false ∧ owner = receiver) ∨ net + cpu < 0) ∧
      st' = st.storeRefund now owner (refundAfter now net cpu r₀)) ∨
    ((st.refunds.find owner = none ∧ ¬(net < 0 ∨ cpu < 0) ∨
        ¬(transfer = false ∧ owner = receiver) ∧ 0 ≤ net + cpu) ∧ st' = st.cancelRefund owner) := by
  unfold changeRefund at h
  dsimp only at h
  split_ifs at h with hcase
  · cases hf : st.refunds.find owner with
    | some r =>
      rw [hf] at h
      simp only [updateRefund, bind_eq_ok, check_eq_ok, exists_const, pure_eq_ok,
        Prod.mk.injEq] at h
      obtain ⟨-, -, rfl, -, -⟩ := h
      refine .inl ⟨r, .inl rfl, hcase, ?_⟩
      rw [refundPart_fst, refundPart_fst]
      rfl
    | none =>
      rw [hf] at h
      simp only [Except.ok.injEq] at h
      unfold createRefund at h
      by_cases hneg : net < 0 ∨ cpu < 0
      · rw [if_pos hneg, Prod.mk.injEq] at h
        refine .inl ⟨⟨now.sec, 0, 0⟩, .inr ⟨rfl, rfl, hneg⟩, hcase, h.1.symm.trans ?_⟩
        have hpart (x : ℤ) : (if x < 0 then -x else 0) = max (0 - x) 0 := by
          split_ifs <;> omega
        rw [refundAfter, if_pos hneg, hpart, hpart]
      · rw [if_neg hneg, Prod.mk.injEq] at h
        exact .inr ⟨.inl ⟨rfl, hneg⟩, h.1.symm⟩
  · simp only [Except.ok.injEq, Prod.mk.injEq] at h
    obtain ⟨rfl, -, -⟩ := h
    rw [not_or, not_lt] at hcase
    exact .inr ⟨.inr hcase, rfl⟩

/-- No refund has a negative amount. -/
def RefundsNonneg (st : StakeState) : Prop :=
  ∀ a r, st.refunds.find a = some r → 0 ≤ r.netAmount ∧ 0 ≤ r.cpuAmount

end StakeState

/-! ## What an action does to a refund -/

/-- The owner of the stake that a delegation creates. -/
def stakeOwner (sender receiver : Name) (transfer : Bool) : Name :=
  if transfer then receiver else sender

/-- The actions that have to do with refunds. -/
def Action.isRefund {K : Type} : Action K → Bool
  | delegatebw sender .. | undelegatebw sender .. => sender ≠ stakeAccount
  | refund .. => true
  | _ => false

/-- What an action does to the refunds and to the deferred transactions for them. -/
inductive RefundEvent {K : Type} (now : BlockTimestamp) (st st' : StakeState) : Action K → Prop
  /-- the action has nothing to do with refunds -/
  | other {x} (hx : x.isRefund = false) (hr : st'.refunds = st.refunds)
      (hd : st'.deferred = st.deferred) : RefundEvent now st st' x
  /-- the amounts that an owner unstakes are added to its refund -/
  | unstake {owner receiver net cpu} (r : RefundRequest) (hs : owner ≠ stakeAccount)
      (hr : r = (st.refunds.find owner).getD ⟨now.sec, 0, 0⟩)
      (hn : 0 ≤ net.amount ∧ 0 ≤ cpu.amount)
      (hst : st'.refunds = st.refunds.set owner
        ⟨now.sec, r.netAmount + net.amount, r.cpuAmount + cpu.amount⟩)
      (hd : st'.deferred = st.deferred.set owner (now.sec + refundDelaySec)) :
      RefundEvent now st st' (.undelegatebw owner receiver net cpu)
  /-- an owner that delegates to itself takes tokens from its refund and leaves some -/
  | restake {owner net cpu} (r : RefundRequest) (hf : st.refunds.find owner = some r)
      (hr : st'.refunds = st.refunds.set owner
        ⟨r.requestTime, max (r.netAmount - net.amount) 0, max (r.cpuAmount - cpu.amount) 0⟩)
      (hd : st'.deferred = st.deferred.set owner (now.sec + refundDelaySec)) :
      RefundEvent now st st' (.delegatebw owner owner net cpu false)
  /-- an owner that delegates to itself takes all tokens from its refund -/
  | restakeAll {owner net cpu} (r : RefundRequest) (hf : st.refunds.find owner = some r)
      (hr : st'.refunds = st.refunds.erase owner) (hd : st'.deferred = st.deferred.erase owner) :
      RefundEvent now st st' (.delegatebw owner owner net cpu false)
  /-- a delegation that does not concern the refund of the owner cancels its transaction -/
  | cancel {sender receiver net cpu transfer} (hs : sender ≠ stakeAccount)
      (hf : st.refunds.find (stakeOwner sender receiver transfer) = none ∨
        ¬(transfer = false ∧ sender = receiver))
      (hr : st'.refunds = st.refunds)
      (hd : st'.deferred = st.deferred.erase (stakeOwner sender receiver transfer)) :
      RefundEvent now st st' (.delegatebw sender receiver net cpu transfer)
  /-- an owner collects its refund three days after it has unstaked last -/
  | collect {owner} (r : RefundRequest) (hf : st.refunds.find owner = some r)
      (ht : r.requestTime + refundDelaySec ≤ now.sec)
      (hr : st'.refunds = st.refunds.erase owner) (hd : st'.deferred = st.deferred) :
      RefundEvent now st st' (.refund owner)

variable {K : Type} {s s' : State K} {now : BlockTimestamp}

theorem State.refund_event {owner : Name} (h : s.refund now owner = .ok s') :
    RefundEvent now s.stake s'.stake (.refund owner : Action K) := by
  simp only [State.refund, bind_eq_ok, check_eq_ok, requireAuth_eq_ok, exists_const,
    require_eq_ok, pure_eq_ok] at h
  obtain ⟨-, r, hf, ht, token, -, rfl⟩ := h
  refine .collect r hf ?_ rfl rfl
  unfold BlockTimestamp.usec at ht
  unfold BlockTimestamp.sec
  omega

variable [Field K] [LinearOrder K] [CMath K]

/-- The refund part of a stake change, after the delegation has changed. -/
theorem State.changebw_stake {sender receiver : Name} {net cpu : ℤ} {transfer : Bool}
    (h : s.changebw now sender receiver net cpu transfer = .ok s') :
    ∃ st, st.refunds = s.stake.refunds ∧ st.deferred = s.stake.deferred ∧
      ((sender = stakeAccount ∧ s'.stake = st) ∨
        (sender ≠ stakeAccount ∧ ∃ net' cpu',
          st.changeRefund now (stakeOwner sender receiver transfer) receiver net cpu transfer =
            .ok (s'.stake, net', cpu'))) := by
  simp only [changebw, bind_eq_ok, check_eq_ok, requireAuth_eq_ok, exists_const,
    pure_eq_ok] at h
  obtain ⟨-, -, -, stake, hd, res, -, s₁, hr, s₂, hu, vote, -, rfl⟩ := h
  obtain ⟨rex, vote₂, rfl⟩ := updateRexStake_frame hu
  obtain ⟨h₁, h₂⟩ := StakeState.changeDelband_frame hd
  refine ⟨stake, h₁, h₂, ?_⟩
  unfold changeRefund at hr
  by_cases hs : sender = stakeAccount
  · rw [if_pos hs] at hr
    obtain rfl := pure_eq_ok.mp hr
    exact .inl ⟨hs, rfl⟩
  · rw [if_neg hs] at hr
    simp only [bind_eq_ok, pure_eq_ok] at hr
    obtain ⟨⟨st', net', cpu'⟩, hc, token, -, rfl⟩ := hr
    exact .inr ⟨hs, net', cpu', hc⟩

theorem State.undelegatebw_event {owner receiver : Name} {net cpu : Asset}
    (hn : s.stake.RefundsNonneg) (h : s.undelegatebw now owner receiver net cpu = .ok s') :
    RefundEvent now s.stake s'.stake (.undelegatebw owner receiver net cpu : Action K) := by
  simp only [undelegatebw, bind_eq_ok, check_eq_ok, checkCore_eq_ok, exists_const] at h
  obtain ⟨-, -, hc, hnet, hpos, h⟩ := h
  obtain ⟨st, hr, hd, ⟨rfl, hst⟩ | ⟨hs, net', cpu', hc'⟩⟩ := changebw_stake h
  · exact .other (by simp [Action.isRefund]) (by rw [hst, hr]) (by rw [hst, hd])
  · have hneg : -net.amount < 0 ∨ -cpu.amount < 0 := by omega
    have hown : stakeOwner owner receiver false = owner := rfl
    rw [hown] at hc'
    rcases StakeState.changeRefund_cases hc' with ⟨r₀, hf, -, hst⟩ | ⟨hcase, -⟩
    · -- the amounts are not negative and one of them is positive, so the row stays
      have hr₀ : 0 ≤ r₀.netAmount ∧ 0 ≤ r₀.cpuAmount ∧
          r₀ = (s.stake.refunds.find owner).getD ⟨now.sec, 0, 0⟩ := by
        rw [hr] at hf
        rcases hf with hf | ⟨hf, rfl, -⟩
        · exact ⟨(hn owner r₀ hf).1, (hn owner r₀ hf).2, by rw [hf]; rfl⟩
        · exact ⟨le_rfl, le_rfl, by rw [hf]; rfl⟩
      have hafter : StakeState.refundAfter now (-net.amount) (-cpu.amount) r₀ =
          ⟨now.sec, r₀.netAmount + net.amount, r₀.cpuAmount + cpu.amount⟩ := by
        unfold StakeState.refundAfter
        rw [if_pos hneg, max_eq_left (by omega), max_eq_left (by omega), sub_neg_eq_add,
          sub_neg_eq_add]
      rw [hafter, StakeState.storeRefund, if_neg] at hst
      · refine .unstake r₀ hs hr₀.2.2 ⟨hnet, hc⟩ ?_ ?_
        · rw [hst]
          exact congrArg (Table.set · _ _) hr
        · rw [hst]
          exact congrArg (Table.set · _ _) hd
      · simp only [RefundRequest.isEmpty, Bool.and_eq_true, decide_eq_true_eq]
        omega
    · omega

theorem State.delegatebw_event {sender receiver : Name} {net cpu : Asset} {transfer : Bool}
    (h : s.delegatebw now sender receiver net cpu transfer = .ok s') :
    RefundEvent now s.stake s'.stake (.delegatebw sender receiver net cpu transfer : Action K) := by
  simp only [delegatebw, bind_eq_ok, check_eq_ok, checkCore_eq_ok, exists_const] at h
  obtain ⟨-, -, hc, hnet, hpos, htr, h⟩ := h
  obtain ⟨st, hr, hd, ⟨rfl, hst⟩ | ⟨hs, net', cpu', hc'⟩⟩ := changebw_stake h
  · exact .other (by simp [Action.isRefund]) (by rw [hst, hr]) (by rw [hst, hd])
  · rcases StakeState.changeRefund_cases hc' with ⟨r₀, hf, hself, hst⟩ | ⟨hcase, hst⟩
    · obtain ⟨rfl, hown⟩ := hself.resolve_right (by omega)
      obtain rfl : sender = receiver := hown
      have hneg : ¬(net.amount < 0 ∨ cpu.amount < 0) := by omega
      have hf₀ : s.stake.refunds.find sender = some r₀ := by
        rw [← hr]
        rcases hf with hf | ⟨-, -, hlt⟩
        · exact hf
        · exact absurd hlt hneg
      unfold StakeState.storeRefund at hst
      split_ifs at hst
      · refine .restakeAll r₀ hf₀ ?_ ?_
        · rw [hst]
          exact congrArg (Table.erase · _) hr
        · rw [hst]
          exact congrArg (Table.erase · _) hd
      · refine .restake r₀ hf₀ ?_ ?_
        · rw [hst, StakeState.refundAfter, if_neg hneg]
          exact congrArg (Table.set · _ _) hr
        · rw [hst]
          exact congrArg (Table.set · _ _) hd
    · refine .cancel hs ?_ (by rw [hst]; exact hr) ?_
      · rw [← hr]
        rcases hcase with ⟨hf, -⟩ | ⟨hself, -⟩
        · exact .inl hf
        · refine .inr fun he => hself ⟨he.1, ?_⟩
          rw [stakeOwner, he.1, he.2]
          rfl
      · rw [hst]
        exact congrArg (Table.erase · _) hd

/-- **Every action** is a refund event. -/
theorem Action.exec_refund [FloorRing K] {env : Env} {a : Action K} {s s' : State K}
    (hn : s.stake.RefundsNonneg) (h : a.exec env s = .ok s') :
    RefundEvent env.now s.stake s'.stake a := by
  have hstake : ∀ {x : Action K}, Part.stake ∉ x.parts → x.isRefund = false →
      x.exec env s = .ok s' → RefundEvent env.now s.stake s'.stake x := by
    intro x hx hr he
    have hsame : s'.stake = s.stake := (Action.exec_changes he).same .stake hx
    exact .other hr (by rw [hsame]) (by rw [hsame])
  cases a with
  | delegatebw => exact State.delegatebw_event h
  | undelegatebw => exact State.undelegatebw_event hn h
  | refund => exact State.refund_event h
  | unstaketorex =>
    simp only [Action.exec, State.unstaketorex, bind_eq_ok, check_eq_ok, requireAuth_eq_ok,
      State.checkCore_eq_ok, VoteState.checkVotingRequirement_eq_ok, exists_const,
      pure_eq_ok] at h
    obtain ⟨-, -, -, -, -, stake, hd, res, -, token, -, ⟨rex, _⟩, -, ⟨rex', _⟩, -, s₁, hr,
      ⟨s₂, _⟩, ha, rfl⟩ := h
    obtain ⟨h₁, h₂⟩ := StakeState.unstakeDelband_frame hd
    have hs₁ : s₁.stake = stake := (State.runrex_changes hr).same .stake (by simp)
    have hs₂ : s₂.stake = s₁.stake := (State.updateRexAccount_changes ha).same .stake (by simp)
    exact .other rfl (by rw [hs₂, hs₁, h₁]) (by rw [hs₂, hs₁, h₂])
  | _ => exact hstake (by simp [Action.parts]) rfl h

/-! ## The lock -/

namespace RefundEvent

omit [Field K] [LinearOrder K] [CMath K]

variable {st st' : StakeState} {x : Action K}

theorem nonneg (hn : st.RefundsNonneg) (h : RefundEvent now st st' x) : st'.RefundsNonneg := by
  intro a r' hf'
  cases h with
  | other _ hr => exact hn a r' (hr ▸ hf')
  | @unstake owner _ net cpu r hs hr hq hst =>
    rw [hst, Table.find_set] at hf'
    split_ifs at hf'
    · cases hf'
      have hr₀ : 0 ≤ r.netAmount ∧ 0 ≤ r.cpuAmount := by
        rw [hr]
        cases hf : st.refunds.find owner with
        | none => exact ⟨le_rfl, le_rfl⟩
        | some r₀ => exact hn owner r₀ hf
      exact ⟨add_nonneg hr₀.1 hq.1, add_nonneg hr₀.2 hq.2⟩
    · exact hn a r' hf'
  | restake r hf hr =>
    rw [hr, Table.find_set] at hf'
    split_ifs at hf'
    · cases hf'
      exact ⟨le_max_right _ _, le_max_right _ _⟩
    · exact hn a r' hf'
  | restakeAll r hf hr =>
    rw [hr, Table.find_erase] at hf'
    split_ifs at hf'
    exact hn a r' hf'
  | cancel _ _ hr => exact hn a r' (hr ▸ hf')
  | collect r hf _ hr =>
    rw [hr, Table.find_erase] at hf'
    split_ifs at hf'
    exact hn a r' hf'

/-- The account that holds the staked tokens never has a refund. -/
theorem find_stakeAccount (hn : st.refunds.find stakeAccount = none)
    (h : RefundEvent now st st' x) : st'.refunds.find stakeAccount = none := by
  cases h with
  | other _ hr => rw [hr, hn]
  | unstake r hs _ _ hst => rw [hst, Table.find_set_ne _ _ hs.symm, hn]
  | restake r hf hr =>
    rw [hr, Table.find_set_ne _ _ ?_, hn]
    rintro rfl
    rw [hn] at hf
    cases hf
  | restakeAll r hf hr =>
    rw [hr, Table.find_erase, hn, ite_self]
  | cancel _ _ hr => rw [hr, hn]
  | collect r hf _ hr => rw [hr, Table.find_erase, hn, ite_self]

/-- The request time of a refund never decreases while the refund exists. -/
theorem le_requestTime {t : ℕ} {a : Name} (ht : t ≤ now.sec)
    (hl : ∀ r, st.refunds.find a = some r → t ≤ r.requestTime) (h : RefundEvent now st st' x) :
    ∀ r, st'.refunds.find a = some r → t ≤ r.requestTime := by
  intro r' hf'
  cases h with
  | other _ hr => exact hl r' (hr ▸ hf')
  | unstake r hs _ _ hst =>
    rw [hst, Table.find_set] at hf'
    split_ifs at hf'
    · cases hf'
      exact ht
    · exact hl r' hf'
  | restake r hf hr =>
    rw [hr, Table.find_set] at hf'
    split_ifs at hf' with ha
    · cases hf'
      exact hl r (ha ▸ hf)
    · exact hl r' hf'
  | restakeAll r hf hr =>
    rw [hr, Table.find_erase] at hf'
    split_ifs at hf'
    exact hl r' hf'
  | cancel _ _ hr => exact hl r' (hr ▸ hf')
  | collect r hf _ hr =>
    rw [hr, Table.find_erase] at hf'
    split_ifs at hf'
    exact hl r' hf'

end RefundEvent

/-- The refunds are sound: no amount is negative, and none is owed to `eosio.stake`. -/
structure RefundsKept (s : State K) : Prop where
  nonneg : s.stake.RefundsNonneg
  noStake : s.stake.refunds.find stakeAccount = none

/-- No refund is pending and no transaction is scheduled. -/
def RefundStart (s : State K) : Prop := s.stake.refunds = .empty ∧ s.stake.deferred = .empty

omit [Field K] [LinearOrder K] [CMath K] in
theorem refundsKept_of_start (h : RefundStart s) : RefundsKept s := by
  refine ⟨fun a r hf => ?_, by rw [h.1, Table.find_empty]⟩
  rw [h.1, Table.find_empty] at hf
  cases hf

variable [FloorRing K]

theorem RefundsKept.exec {env : Env} {a : Action K} (hk : RefundsKept s)
    (h : a.exec env s = .ok s') : RefundsKept s' :=
  have he := Action.exec_refund hk.nonneg h
  ⟨he.nonneg hk.nonneg, he.find_stakeAccount hk.noStake⟩

theorem refundsKept_of_run {allowed : State K → Action K → Prop} {t : BlockTimestamp}
    (h : Run RefundStart (Step allowed) t s) : RefundsKept s := by
  refine h.invariant (fun _ => refundsKept_of_start) fun t s s' hk hs => ?_
  obtain ⟨isAccount, a, -, he⟩ := hs
  exact hk.exec he

/-- The amounts an account waits for. -/
def StakeState.refundable (st : StakeState) (a : Name) : ℤ × ℤ :=
  (st.refunds.find a).elim 0 fun r => (r.netAmount, r.cpuAmount)

/-- What can happen to the refund of an account in an action. -/
inductive RefundMove (a : Name) (st st' : StakeState) : Action K → Prop
  | same {x} (h : st'.refunds.find a = st.refunds.find a) : RefundMove a st st' x
  | unstaked {receiver net cpu} (h : st.refundable a ≤ st'.refundable a) :
      RefundMove a st st' (.undelegatebw a receiver net cpu)
  | restaked {net cpu} : RefundMove a st st' (.delegatebw a a net cpu false)
  | paid : RefundMove a st st' (.refund a)

omit [Field K] [LinearOrder K] [CMath K] [FloorRing K] in
/-- Only the owner takes tokens out of its refund. -/
theorem RefundEvent.move {st st' : StakeState} {x : Action K} (h : RefundEvent now st st' x)
    (a : Name) : RefundMove a st st' x := by
  cases h with
  | other _ hr => exact .same (by rw [hr])
  | @unstake owner _ net cpu r _ hr hq hst =>
    by_cases ha : a = owner
    · subst ha
      refine .unstaked ?_
      have hold : st.refundable a = (r.netAmount, r.cpuAmount) := by
        rw [hr, StakeState.refundable]
        cases st.refunds.find a <;> rfl
      rw [hold, StakeState.refundable, hst, Table.find_set_self]
      exact ⟨le_add_of_nonneg_right hq.1, le_add_of_nonneg_right hq.2⟩
    · exact .same (by rw [hst, Table.find_set_ne _ _ ha])
  | @restake owner net cpu r hf hr =>
    by_cases ha : a = owner
    · subst ha
      exact .restaked
    · exact .same (by rw [hr, Table.find_set_ne _ _ ha])
  | @restakeAll owner net cpu r hf hr =>
    by_cases ha : a = owner
    · subst ha
      exact .restaked
    · exact .same (by rw [hr, Table.find_erase_ne _ ha])
  | cancel _ _ hr => exact .same (by rw [hr])
  | @collect owner r hf _ hr =>
    by_cases ha : a = owner
    · subst ha
      exact .paid
    · exact .same (by rw [hr, Table.find_erase_ne _ ha])

omit [FloorRing K] in
/-- After an account has unstaked, its refund carries the time at which it did. -/
theorem requestTime_of_undelegatebw {owner receiver : Name} {net cpu : Asset}
    (hk : RefundsKept s) (h : s.undelegatebw now owner receiver net cpu = .ok s') :
    ∀ r, s'.stake.refunds.find owner = some r → now.sec ≤ r.requestTime := by
  intro r' hf'
  cases State.undelegatebw_event hk.nonneg h with
  | other hx hr =>
    -- only `eosio.stake` unstakes without a refund
    have hs : owner = stakeAccount := by simpa [Action.isRefund] using hx
    rw [hr, hs, hk.noStake] at hf'
    cases hf'
  | unstake r _ _ _ hst =>
    rw [hst, Table.find_set_self] at hf'
    cases hf'
    exact le_rfl

/-- **Unstaked tokens stay locked for three days.** Once an account has unstaked at the time `t₁`,
whatever happens afterwards, it is paid no refund before three days have passed since then; and the
tokens leave its refund in no other way than by a delegation of the account to itself. -/
theorem refundLock_of_run {allowed : State K → Action K → Prop} {t₀ t₁ t₂ : BlockTimestamp}
    {s₀ s₁ s₂ : State K} {a receiver : Name} {net cpu : Asset}
    (h₀ : Run RefundStart (Step allowed) t₀ s₀)
    (hu : s₀.undelegatebw t₁ a receiver net cpu = .ok s₁)
    (h₁ : Continued (Step allowed) t₁ s₁ t₂ s₂) :
    (∀ t₃ s₃, s₂.refund t₃ a = .ok s₃ → t₁.sec + refundDelaySec ≤ t₃.sec) ∧
      ∀ env x s₃, x.exec env s₂ = .ok s₃ → RefundMove a s₂.stake s₃.stake x := by
  have hk₀ := refundsKept_of_run h₀
  have hx : Action.exec ⟨t₁, fun _ => true⟩ (.undelegatebw a receiver net cpu) s₀ = .ok s₁ := hu
  have hk₁ : RefundsKept s₁ := hk₀.exec hx
  obtain ⟨-, hk₂, hl⟩ := h₁.invariant_at (P := fun t s => t₁ ≤ t ∧ RefundsKept s ∧
      ∀ r, s.stake.refunds.find a = some r → t₁.sec ≤ r.requestTime)
    ⟨le_rfl, hk₁, requestTime_of_undelegatebw hk₀ hu⟩ (by
      rintro t t' s s' ⟨ht, hk, hl⟩ htt' ⟨isAccount, x, -, he⟩
      have hle := ht.trans htt'
      exact ⟨hle, hk.exec he, (Action.exec_refund hk.nonneg he).le_requestTime
        (BlockTimestamp.sec_mono hle) hl⟩)
  refine ⟨fun t₃ s₃ hr => ?_, fun env x s₃ he => (Action.exec_refund hk₂.nonneg he).move a⟩
  cases State.refund_event hr with
  | other hx => cases hx
  | collect r hf ht => exact (Nat.add_le_add_right (hl r hf) _).trans ht

/-- The account stakes, takes a part back, and stakes again out of the refund. -/
def lockExampleRun : List (BlockTimestamp × Action ℚ) :=
  [(.ofSlot 1, .delegatebw ⟨1⟩ ⟨1⟩ (exampleAsset 500) (exampleAsset 300) false),
   (.ofSlot 2, .undelegatebw ⟨1⟩ ⟨1⟩ (exampleAsset 200) (exampleAsset 100)),
   (.ofSlot 3, .delegatebw ⟨1⟩ ⟨1⟩ (exampleAsset 50) (exampleAsset 200) false)]

/-- What is left of the refund of `lockExampleRun` is paid after three days. -/
theorem refundLock_of_run_example : ∃ s₂ s₃ : State ℚ,
    s₂.refund (.ofSlot 518402) ⟨1⟩ = .ok s₃ ∧
      (BlockTimestamp.ofSlot 2).sec + refundDelaySec ≤ (BlockTimestamp.ofSlot 518402).sec := by
  have hrun : (execAll (Action.execIn fun _ _ => true) (.ofSlot 0) (lockExampleRun.take 1)
      exampleChain).isSome := by decide +kernel
  have hu : (((execAll (Action.execIn fun _ _ => true) (.ofSlot 0) (lockExampleRun.take 1)
      exampleChain).get hrun).2.undelegatebw (.ofSlot 2) ⟨1⟩ ⟨1⟩ (exampleAsset 200)
        (exampleAsset 100)).isOk := by decide +kernel +revert
  have hgo : (execAll (Action.execIn fun _ _ => true) (.ofSlot 2) (lockExampleRun.drop 2)
      (value _ hu)).isSome := by decide +kernel +revert
  have hr : (((execAll (Action.execIn fun _ _ => true) (.ofSlot 2) (lockExampleRun.drop 2)
      (value _ hu)).get hgo).2.refund (.ofSlot 518402) ⟨1⟩).isOk := by decide +kernel +revert
  have hinit : RefundStart exampleChain := ⟨rfl, rfl⟩
  exact ⟨_, _, eq_ok_value hr, (refundLock_of_run (run_get_execIn hinit hrun) (eq_ok_value hu)
    (continued_get_execIn hgo)).1 _ _ (eq_ok_value hr)⟩

/-! ## The deferred transactions -/

/-- The contract, and the accounts whose last deferred transaction has been executed. -/
structure RefundChain (K : Type) where
  state : State K
  executed : List Name

omit [Field K] [LinearOrder K] [CMath K] [FloorRing K] in
/-- The chain executes the deferred transaction of an owner, which may fail. -/
def State.executeRefund (s : State K) (now : BlockTimestamp) (owner : Name) : State K :=
  let s := { s with stake := s.stake.cancelRefund owner }
  match s.refund now owner with
  | .ok s' => s'
  | .error _ => s

/-- A step of the chain: an action, or a deferred transaction that is due. An account leaves the
list when a transaction is scheduled for it again. -/
inductive DeferredStep (allowed : State K → Action K → Prop) (t : BlockTimestamp) :
    RefundChain K → RefundChain K → Prop
  | action {s s' executed} (h : Step allowed t s s') :
      DeferredStep allowed t ⟨s, executed⟩
        ⟨s', executed.filter fun a => (s'.stake.deferred.find a).isNone⟩
  | execute {s executed owner time} (h : s.stake.deferred.find owner = some time)
      (ht : time ≤ t.sec) :
      DeferredStep allowed t ⟨s, executed⟩ ⟨s.executeRefund t owner, owner :: executed⟩

/-- Every pending refund whose last transaction has not been executed has one scheduled. -/
def RefundChain.Scheduled (c : RefundChain K) : Prop :=
  ∀ a r, c.state.stake.refunds.find a = some r → a ∉ c.executed →
    ∃ time, c.state.stake.deferred.find a = some time

/-- The sender and the receiver of a delegation, and whether it has the transfer flag. -/
def Action.delegation : Action K → Option (Name × Name × Bool)
  | delegatebw sender receiver _ _ transfer => some (sender, receiver, transfer)
  | _ => none

/-- The action is no delegation that cancels the scheduled transaction of a pending refund: of an
account to itself, or one whose owner has no refund with a scheduled transaction. -/
def KeepsDeferred (s : State K) (x : Action K) : Prop :=
  ∀ d ∈ x.delegation, d.1 = stakeAccount ∨ (d.2.2 = false ∧ d.1 = d.2.1) ∨
    s.stake.refunds.find (stakeOwner d.1 d.2.1 d.2.2) = none ∨
    s.stake.deferred.find (stakeOwner d.1 d.2.1 d.2.2) = none

instance (s : State K) (x : Action K) : Decidable (KeepsDeferred s x) :=
  inferInstanceAs (Decidable (∀ d ∈ x.delegation, _ ∨ (_ ∧ _) ∨ _ = none ∨ _ = none))

/-- What every run keeps: who has a transaction scheduled waits for it, and if the run never cancels
the transaction of a pending refund, every refund has one. -/
structure RefundChain.Kept (c : RefundChain K) : Prop where
  refunds : RefundsKept c.state
  waiting : ∀ a ∈ c.executed, c.state.stake.deferred.find a = none
  scheduled : c.Scheduled

namespace RefundChain

variable {executed : List Name}

omit [Field K] [LinearOrder K] [CMath K] [FloorRing K] in
/-- A refund that has a transaction after an action if it had one before. -/
theorem Scheduled.of_find (hs : Scheduled (⟨s, executed⟩ : RefundChain K))
    (h : ∀ a r, s'.stake.refunds.find a = some r →
      (s.stake.refunds.find a = some r ∧ s'.stake.deferred.find a = s.stake.deferred.find a) ∨
        ∃ time, s'.stake.deferred.find a = some time) :
    Scheduled (⟨s', executed.filter fun a => (s'.stake.deferred.find a).isNone⟩ :
      RefundChain K) := by
  intro a r hf hx
  rcases h a r hf with ⟨hf₀, hd⟩ | hd
  · by_cases ha : a ∈ executed
    · cases hd' : s'.stake.deferred.find a with
      | some time => exact ⟨time, rfl⟩
      | none =>
        refine absurd (List.mem_filter.mpr ⟨ha, ?_⟩) hx
        rw [hd', Option.isNone_none]
    · obtain ⟨time, ht⟩ := hs a r hf₀ ha
      exact ⟨time, hd.trans ht⟩
  · exact hd

/-- **An action** leaves every pending refund with its scheduled transaction if and only if it is
no delegation that cancels one. -/
theorem scheduled_action {env : Env} {x : Action K} (hk : Kept (⟨s, executed⟩ : RefundChain K))
    (h : x.exec env s = .ok s') :
    Scheduled (⟨s', executed.filter fun a => (s'.stake.deferred.find a).isNone⟩ :
      RefundChain K) ↔ KeepsDeferred s x := by
  have hs := hk.scheduled
  have he := Action.exec_refund hk.refunds.nonneg h
  cases he with
  | @other x hx hr hd =>
    refine iff_of_true (hs.of_find fun a r hf => .inl ⟨hr ▸ hf, by rw [hd]⟩) ?_
    cases x with
    | delegatebw =>
      rintro d ⟨⟩
      exact .inl (by simpa [Action.isRefund] using hx)
    | _ => rintro d ⟨⟩
  | @unstake owner _ _ _ _ _ _ _ hst hd =>
    refine iff_of_true (hs.of_find fun a r hf => ?_) (by rintro d ⟨⟩)
    by_cases ha : a = owner
    · exact .inr ⟨_, by rw [hd, ha, Table.find_set_self]⟩
    · rw [hst, Table.find_set_ne _ _ ha] at hf
      exact .inl ⟨hf, by rw [hd, Table.find_set_ne _ _ ha]⟩
  | @restake owner _ _ _ _ hr hd =>
    refine iff_of_true (hs.of_find fun a r hf => ?_) (by rintro d ⟨⟩; exact .inr (.inl ⟨rfl, rfl⟩))
    by_cases ha : a = owner
    · exact .inr ⟨_, by rw [hd, ha, Table.find_set_self]⟩
    · rw [hr, Table.find_set_ne _ _ ha] at hf
      exact .inl ⟨hf, by rw [hd, Table.find_set_ne _ _ ha]⟩
  | @restakeAll owner _ _ _ _ hr hd =>
    refine iff_of_true (hs.of_find fun a r hf => ?_) (by rintro d ⟨⟩; exact .inr (.inl ⟨rfl, rfl⟩))
    rw [hr, Table.find_erase] at hf
    split_ifs at hf with ha
    exact .inl ⟨hf, by rw [hd, Table.find_erase_ne _ ha]⟩
  | @cancel sender receiver _ _ transfer hsend hcase hr hd =>
    constructor
    · intro hsch
      by_contra hkeep
      simp only [KeepsDeferred, Action.delegation, Option.mem_some_iff, forall_eq', not_or] at hkeep
      obtain ⟨-, -, hrow, hdef⟩ := hkeep
      obtain ⟨r, hrow⟩ := Option.ne_none_iff_exists'.mp hrow
      have hd' : s'.stake.deferred.find (stakeOwner sender receiver transfer) = none := by
        rw [hd, Table.find_erase_self]
      obtain ⟨time, ht⟩ := hsch _ r (hr ▸ hrow) fun hm =>
        hdef (hk.waiting _ (List.mem_filter.mp hm).1)
      rw [hd'] at ht
      cases ht
    · intro hkeep
      refine hs.of_find fun a r hf => .inl ⟨hr ▸ hf, ?_⟩
      rw [hr] at hf
      rw [hd, Table.find_erase]
      split_ifs with ha
      · subst ha
        have hnone := hcase.resolve_left (by rw [hf]; exact Option.some_ne_none r)
        rcases hkeep _ rfl with hkeep | hkeep | hkeep | hkeep
        · exact absurd hkeep hsend
        · exact absurd hkeep hnone
        · rw [hf] at hkeep
          cases hkeep
        · exact hkeep.symm
      · rfl
  | @collect owner _ _ _ hr hd =>
    refine iff_of_true (hs.of_find fun a r hf => ?_) (by rintro d ⟨⟩)
    rw [hr, Table.find_erase] at hf
    split_ifs at hf
    exact .inl ⟨hf, by rw [hd]⟩

omit [Field K] [LinearOrder K] [CMath K] [FloorRing K] in
/-- The execution of a deferred transaction changes the refund of its owner only. -/
theorem executeRefund_stake (s : State K) (now : BlockTimestamp) (owner : Name) :
    (s.executeRefund now owner).stake.deferred = s.stake.deferred.erase owner ∧
      ((s.executeRefund now owner).stake.refunds = s.stake.refunds ∨
        (s.executeRefund now owner).stake.refunds = s.stake.refunds.erase owner) := by
  unfold State.executeRefund
  dsimp only
  split
  · rename_i s' h
    cases State.refund_event h with
    | other hx => cases hx
    | collect r hf ht hr hd => exact ⟨hd, .inr hr⟩
  · exact ⟨rfl, .inl rfl⟩

theorem Kept.step {t : BlockTimestamp} {c c' : RefundChain K} (hk : c.Kept)
    (h : DeferredStep KeepsDeferred t c c') : c'.Kept := by
  cases h with
  | action h =>
    obtain ⟨isAccount, x, hkeep, he⟩ := h
    refine ⟨hk.refunds.exec he, fun a ha => ?_, (scheduled_action hk he).mpr hkeep⟩
    exact Option.isNone_iff_eq_none.mp (List.mem_filter.mp ha).2
  | @execute s executed owner time hd ht =>
    obtain ⟨hdef, href⟩ := executeRefund_stake s t owner
    have hfind : ∀ a r, (s.executeRefund t owner).stake.refunds.find a = some r →
        s.stake.refunds.find a = some r := by
      intro a r hf
      rcases href with href | href
      · exact href ▸ hf
      · rw [href, Table.find_erase] at hf
        split_ifs at hf
        exact hf
    refine ⟨⟨fun a r hf => hk.refunds.nonneg a r (hfind a r hf), ?_⟩, fun a ha => ?_,
      fun a r hf hx => ?_⟩
    · cases hf : (s.executeRefund t owner).stake.refunds.find stakeAccount with
      | none => rfl
      | some r => exact absurd (hk.refunds.noStake.symm.trans (hfind _ r hf)) (Option.some_ne_none
        r).symm
    · show (s.executeRefund t owner).stake.deferred.find a = none
      rw [hdef, Table.find_erase]
      split_ifs with ho
      · rfl
      · exact hk.waiting a ((List.mem_cons.mp ha).resolve_left ho)
    · obtain ⟨ho, hx⟩ := not_or.mp (mt List.mem_cons.mpr hx)
      show ∃ time, (s.executeRefund t owner).stake.deferred.find a = some time
      rw [hdef, Table.find_erase_ne _ ho]
      exact hk.scheduled a r (hfind a r hf) hx

end RefundChain

/-- The chain before anybody has unstaked. -/
def RefundChainStart (c : RefundChain K) : Prop := RefundStart c.state ∧ c.executed = []

/-- **When the deferred transaction of a refund is scheduled**: in a run in which no delegation
cancels the scheduled transaction of a pending refund, every pending refund whose transaction has
not been executed since it was scheduled last has one scheduled. -/
theorem refundScheduled_of_run {t : BlockTimestamp} {c : RefundChain K}
    (h : Run RefundChainStart (DeferredStep KeepsDeferred) t c) : c.Scheduled := by
  refine (h.invariant (P := RefundChain.Kept) (fun c hc => ?_) fun _ _ _ =>
    RefundChain.Kept.step).scheduled
  refine ⟨refundsKept_of_start hc.1, fun a ha => ?_, fun a r hf => ?_⟩
  · rw [hc.2] at ha
    cases ha
  · rw [hc.1.1, Table.find_empty] at hf
    cases hf

/-- A run in which no deferred transaction is executed. -/
theorem run_chain_of_run {allowed : State K → Action K → Prop} {t : BlockTimestamp}
    (h : Run RefundStart (Step allowed) t s) :
    Run RefundChainStart (DeferredStep allowed) t ⟨s, []⟩ := by
  induction h with
  | start h => exact .start ⟨h, rfl⟩
  | step _ ht hs ih => exact .step ih ht (.action hs)

/-- The account stakes for itself and unstakes a part. -/
def unstakeExampleRun : List (BlockTimestamp × Action ℚ) :=
  [(.ofSlot 1, .delegatebw ⟨1⟩ ⟨1⟩ (exampleAsset 500) (exampleAsset 300) false),
   (.ofSlot 2, .undelegatebw ⟨1⟩ ⟨1⟩ (exampleAsset 200) (exampleAsset 100))]

theorem refundScheduled_of_run_example : ∃ s : State ℚ,
    (s.stake.refunds.find ⟨1⟩).isSome ∧
      RefundChain.Scheduled (⟨s, []⟩ : RefundChain ℚ) := by
  have hrun : (execAll (Action.execIn fun s x => decide (KeepsDeferred s x)) (.ofSlot 0)
      unstakeExampleRun exampleChain).isSome := by decide +kernel
  have hinit : RefundStart exampleChain := ⟨rfl, rfl⟩
  have h := refundScheduled_of_run (run_chain_of_run ((run_get_execIn hinit hrun).mono
    (fun _ => id) fun _ _ _ => Step.mono fun _ _ => of_decide_eq_true))
  refine ⟨_, ?_, h⟩
  clear h
  decide +kernel +revert

/-- An account that waits for a refund delegates to another account, which cancels the transaction
of the refund. -/
theorem refundScheduled_of_run_counterexample : ∃ (t : BlockTimestamp) (c : RefundChain ℚ),
    Run RefundChainStart (DeferredStep fun _ _ => true) t c ∧ ¬c.Scheduled := by
  have hrun : (execAll (Action.execIn fun _ _ => true) (.ofSlot 0) (unstakeExampleRun ++
      [(.ofSlot 3, .delegatebw ⟨1⟩ ⟨2⟩ (exampleAsset 10) (exampleAsset 10) false)])
      exampleChain).isSome := by decide +kernel
  have hrow : (((execAll (Action.execIn fun _ _ => true) (.ofSlot 0) (unstakeExampleRun ++
      [(.ofSlot 3, .delegatebw ⟨1⟩ ⟨2⟩ (exampleAsset 10) (exampleAsset 10) false)])
      exampleChain).get hrun).2.stake.refunds.find ⟨1⟩).isSome := by decide +kernel +revert
  have hnone : (((execAll (Action.execIn fun _ _ => true) (.ofSlot 0) (unstakeExampleRun ++
      [(.ofSlot 3, .delegatebw ⟨1⟩ ⟨2⟩ (exampleAsset 10) (exampleAsset 10) false)])
      exampleChain).get hrun).2.stake.deferred.find ⟨1⟩).isNone := by decide +kernel +revert
  have hinit : RefundStart exampleChain := ⟨rfl, rfl⟩
  refine ⟨_, _, run_chain_of_run (run_get_execIn hinit hrun), fun hs => ?_⟩
  obtain ⟨r, hr⟩ := Option.isSome_iff_exists.mp hrow
  obtain ⟨time, ht⟩ := hs ⟨1⟩ r hr List.not_mem_nil
  rw [Option.isNone_iff_eq_none.mp hnone] at ht
  cases ht

end EosioSystem
