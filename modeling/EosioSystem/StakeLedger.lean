import EosioSystem.Action

/-!
# Staked tokens are conserved

The tokens of `eosio.stake` are those delegated and those on their way back. A delegation to
oneself takes its tokens from a pending refund first, separately for NET and CPU, and only the
rest from the sender's balance; whatever the combination, what the records gain is what is
transferred.

## Main definitions

* `StakeState.total`: the tokens in the records
* `StakeState.Nonneg`: no amount in the records is negative

## Main results

* `StakeState.changeRefund_spec`: a stake change and its refund add up
* `stakeLedger_of_run`: **the tokens of `eosio.stake` are conserved in every run**
-/

namespace EosioSystem

open Checked

namespace StakeState

/-- The tokens of all delegations. -/
def delegated (st : StakeState) : ℤ := st.delband.sum fun _ d => d.netWeight + d.cpuWeight

/-- The tokens of all pending refunds. -/
def refunding (st : StakeState) : ℤ := st.refunds.sum fun _ r => r.netAmount + r.cpuAmount

/-- No delegation and no refund has a negative amount. -/
structure Nonneg (st : StakeState) : Prop where
  delband : ∀ k d, st.delband.find k = some d → 0 ≤ d.netWeight ∧ 0 ≤ d.cpuWeight
  refunds : ∀ a r, st.refunds.find a = some r → 0 ≤ r.netAmount ∧ 0 ≤ r.cpuAmount

variable {st st' : StakeState}

/-- Write a delegation, or delete it when it is empty. -/
def putDelband (st : StakeState) (k : Name × Name) (d : DelegatedBandwidth) : StakeState :=
  { st with delband := if d.isEmpty then st.delband.erase k else st.delband.set k d }

theorem delegated_putDelband (st : StakeState) (k : Name × Name) (d : DelegatedBandwidth) :
    (st.putDelband k d).delegated = st.delegated + (d.netWeight + d.cpuWeight) -
      (st.delband.find k).elim 0 fun d => d.netWeight + d.cpuWeight := by
  unfold delegated putDelband
  dsimp only
  split_ifs with h
  · obtain ⟨hn, hc⟩ : d.netWeight = 0 ∧ d.cpuWeight = 0 := by
      simpa [DelegatedBandwidth.isEmpty] using h
    have := Table.sum_erase_add st.delband k fun _ d => d.netWeight + d.cpuWeight
    omega
  · rw [Table.sum_set_elim]
    omega

theorem Nonneg.putDelband (h : st.Nonneg) {k : Name × Name} {d : DelegatedBandwidth}
    (hd : 0 ≤ d.netWeight ∧ 0 ≤ d.cpuWeight) : (st.putDelband k d).Nonneg := by
  refine ⟨fun k' d' hf => ?_, h.refunds⟩
  unfold StakeState.putDelband at hf
  dsimp only at hf
  split_ifs at hf
  · rw [Table.find_erase] at hf
    split_ifs at hf
    exact h.delband k' d' hf
  · rw [Table.find_set] at hf
    split_ifs at hf
    · cases hf
      exact hd
    · exact h.delband k' d' hf

theorem changeDelband_spec (h : st.Nonneg) {owner receiver : Name} {net cpu : ℤ}
    (hc : st.changeDelband owner receiver net cpu = .ok st') :
    st'.Nonneg ∧ st'.delegated = st.delegated + (net + cpu) ∧ st'.refunds = st.refunds := by
  simp only [changeDelband, bind_eq_ok, check_eq_ok, exists_const, pure_eq_ok] at hc
  obtain ⟨hn, hcpu, rfl⟩ := hc
  refine ⟨h.putDelband ⟨hn, hcpu⟩, (delegated_putDelband st (owner, receiver) _).trans ?_, rfl⟩
  cases st.delband.find (owner, receiver) with
  | none => simp
  | some d =>
    dsimp only [Option.getD_some, Option.elim_some]
    ring

theorem unstakeDelband_spec (h : st.Nonneg) {owner receiver : Name} {net cpu : ℤ}
    (hu : State.unstakeDelband st owner receiver net cpu = .ok st') :
    st'.Nonneg ∧ st'.delegated = st.delegated - (net + cpu) ∧ st'.refunds = st.refunds := by
  simp only [State.unstakeDelband, bind_eq_ok, check_eq_ok, exists_const, require_eq_ok,
    pure_eq_ok] at hu
  obtain ⟨d, hd, hn, hc, rfl⟩ := hu
  refine ⟨h.putDelband ⟨sub_nonneg.mpr hn, sub_nonneg.mpr hc⟩,
    (delegated_putDelband st (owner, receiver) _).trans ?_, rfl⟩
  rw [hd]
  dsimp only [Option.elim_some]
  ring

/-! ## Refunds -/

theorem refundPart_fst_nonneg (amount delta : ℤ) : 0 ≤ (refundPart amount delta).1 := by
  unfold refundPart
  split_ifs <;> simp only <;> omega

theorem refundPart_snd_nonneg (amount delta : ℤ) : 0 ≤ (refundPart amount delta).2 := by
  unfold refundPart
  split_ifs <;> simp only <;> omega

/-- What is not taken from the refund is left of the change. -/
theorem refundPart_eq (amount delta : ℤ) :
    (refundPart amount delta).1 = amount - delta + (refundPart amount delta).2 := by
  unfold refundPart
  split_ifs <;> simp only <;> omega

theorem refunding_storeRefund (st : StakeState) (now : BlockTimestamp) (owner : Name)
    (r : RefundRequest) :
    (st.storeRefund now owner r).refunding = st.refunding + (r.netAmount + r.cpuAmount) -
      (st.refunds.find owner).elim 0 fun r => r.netAmount + r.cpuAmount := by
  unfold refunding storeRefund
  split_ifs with h
  · obtain ⟨hn, hc⟩ : r.netAmount = 0 ∧ r.cpuAmount = 0 := by
      simpa [RefundRequest.isEmpty] using h
    have := Table.sum_erase_add st.refunds owner fun _ r => r.netAmount + r.cpuAmount
    simp only [cancelRefund]
    omega
  · simp only [scheduleRefund]
    rw [Table.sum_set_elim]
    omega

theorem delband_storeRefund (st : StakeState) (now : BlockTimestamp) (owner : Name)
    (r : RefundRequest) : (st.storeRefund now owner r).delband = st.delband := by
  unfold storeRefund
  split_ifs <;> rfl

theorem Nonneg.storeRefund (h : st.Nonneg) {now : BlockTimestamp} {owner : Name}
    {r : RefundRequest} (hr : 0 ≤ r.netAmount ∧ 0 ≤ r.cpuAmount) :
    (st.storeRefund now owner r).Nonneg := by
  refine ⟨by simpa only [delband_storeRefund] using h.delband, fun a r' hf => ?_⟩
  unfold StakeState.storeRefund at hf
  split_ifs at hf
  · rw [cancelRefund, Table.find_erase] at hf
    split_ifs at hf
    exact h.refunds a r' hf
  · rw [scheduleRefund, Table.find_set] at hf
    split_ifs at hf
    · cases hf
      exact hr
    · exact h.refunds a r' hf

/-- The checks on the amounts of a changed refund never fail. -/
theorem changeRefund_isOk (st : StakeState) (now : BlockTimestamp) (owner receiver : Name)
    (net cpu : ℤ) (transfer : Bool) :
    ∃ r, st.changeRefund now owner receiver net cpu transfer = .ok r := by
  unfold changeRefund
  dsimp only
  split_ifs
  · split
    · simp only [updateRefund, bind_eq_ok, check_eq_ok, exists_const, pure_eq_ok]
      exact ⟨_, refundPart_fst_nonneg _ _, refundPart_fst_nonneg _ _, rfl⟩
    · exact ⟨_, rfl⟩
  · exact ⟨_, rfl⟩

/-- **A stake change and its refund add up**: what the refund does not give is left, and it is
never negative. -/
theorem changeRefund_spec (h : st.Nonneg) {now : BlockTimestamp} {owner receiver : Name}
    {net cpu net' cpu' : ℤ} {transfer : Bool}
    (hc : st.changeRefund now owner receiver net cpu transfer = .ok (st', net', cpu')) :
    st'.Nonneg ∧ st'.delband = st.delband ∧ 0 ≤ net' + cpu' ∧
      st'.refunding = st.refunding - (net + cpu) + (net' + cpu') := by
  unfold changeRefund at hc
  dsimp only at hc
  split_ifs at hc with hcase
  · split at hc
    · rename_i r hr
      simp only [updateRefund, bind_eq_ok, check_eq_ok, exists_const, pure_eq_ok,
        Prod.mk.injEq] at hc
      obtain ⟨hn, hcpu, rfl, rfl, rfl⟩ := hc
      refine ⟨h.storeRefund ⟨hn, hcpu⟩, delband_storeRefund _ _ _ _,
        add_nonneg (refundPart_snd_nonneg _ _) (refundPart_snd_nonneg _ _), ?_⟩
      rw [refunding_storeRefund, hr]
      have h₁ := refundPart_eq r.netAmount net
      have h₂ := refundPart_eq r.cpuAmount cpu
      simp only [Option.elim_some]
      omega
    · rename_i hr
      simp only [Except.ok.injEq] at hc
      unfold createRefund at hc
      split_ifs at hc with hneg hn hcpu hcpu <;>
        simp only [Prod.mk.injEq] at hc <;> obtain ⟨rfl, rfl, rfl⟩ := hc
      · refine ⟨h.storeRefund ⟨by simp only; omega, by simp only; omega⟩,
          delband_storeRefund _ _ _ _, by omega, ?_⟩
        rw [refunding_storeRefund, hr]
        simp only [Option.elim_none]
        omega
      · refine ⟨h.storeRefund ⟨by simp only; omega, le_rfl⟩,
          delband_storeRefund _ _ _ _, by omega, ?_⟩
        rw [refunding_storeRefund, hr]
        simp only [Option.elim_none]
        omega
      · refine ⟨h.storeRefund ⟨le_rfl, by simp only; omega⟩,
          delband_storeRefund _ _ _ _, by omega, ?_⟩
        rw [refunding_storeRefund, hr]
        simp only [Option.elim_none]
        omega
      · omega
      · exact ⟨⟨h.delband, h.refunds⟩, rfl, by omega, by simp [refunding, cancelRefund]⟩
  · simp only [Except.ok.injEq, Prod.mk.injEq] at hc
    obtain ⟨rfl, rfl, rfl⟩ := hc
    exact ⟨⟨h.delband, h.refunds⟩, rfl, by omega, by simp [refunding, cancelRefund]⟩

end StakeState

variable {K : Type}

/-- The tokens of `eosio.stake` beyond the initial `B₀` are those of the records. -/
structure StakeLedger (B₀ : ℤ) (s : State K) : Prop where
  nonneg : s.stake.Nonneg
  initial_nonneg : 0 ≤ B₀
  tokens : s.token.balance stakeAccount = B₀ + s.stake.delegated + s.stake.refunding

namespace StakeLedger

variable {B₀ : ℤ} {s s' : State K} {now : BlockTimestamp}

/-- `eosio.stake` can pay every refund. -/
theorem refund_le_balance (h : StakeLedger B₀ s) {owner : Name} {r : RefundRequest}
    (hr : s.stake.refunds.find owner = some r) :
    r.netAmount + r.cpuAmount ≤ s.token.balance stakeAccount := by
  have h₁ : r.netAmount + r.cpuAmount ≤ s.stake.refunding :=
    Table.le_sum (f := fun _ r => r.netAmount + r.cpuAmount)
      (fun a r hf => add_nonneg (h.nonneg.refunds a r hf).1 (h.nonneg.refunds a r hf).2) hr
  have h₂ : 0 ≤ s.stake.delegated := Table.sum_nonneg fun k d hf =>
    add_nonneg (h.nonneg.delband k d hf).1 (h.nonneg.delband k d hf).2
  have := h.tokens
  have := h.initial_nonneg
  omega

theorem refund (h : StakeLedger B₀ s) {owner : Name} (hr : s.refund now owner = .ok s') :
    StakeLedger B₀ s' := by
  simp only [State.refund, bind_eq_ok, check_eq_ok, requireAuth_eq_ok, exists_const,
    require_eq_ok, pure_eq_ok] at hr
  obtain ⟨-, r, hf, -, token, ht, rfl⟩ := hr
  obtain ⟨hne, -, -, -⟩ := Token.transfer_eq_ok ht
  refine ⟨⟨h.nonneg.delband, fun a r' hf' => ?_⟩, h.initial_nonneg, ?_⟩
  · rw [Table.find_erase] at hf'
    split_ifs at hf'
    exact h.nonneg.refunds a r' hf'
  · have hsum := Table.sum_erase hf fun _ r => r.netAmount + r.cpuAmount
    have hpay := Token.balance_transfer ht stakeAccount
    rw [if_pos rfl, if_neg hne] at hpay
    have := h.tokens
    simp only [StakeState.refunding, StakeState.delegated] at *
    omega

/-- A refund is never refused for lack of tokens. -/
theorem refund_ne_error (h : StakeLedger B₀ s) (owner : Name) :
    s.refund now owner ≠ .error "overdrawn balance" := by
  unfold State.refund
  refine bind_ne_error (check_ne_error (.inl (by decide))) fun _ _ => ?_
  refine bind_ne_error (require_ne_error (by decide)) fun r hr => ?_
  refine bind_ne_error (check_ne_error (.inl (by decide))) fun _ _ => ?_
  refine bind_ne_error ?_ fun _ _ => pure_ne_error
  have hle := h.refund_le_balance (require_eq_ok.mp hr)
  unfold Token.transfer
  refine bind_ne_error (check_ne_error (.inl (by decide))) fun _ _ => ?_
  refine bind_ne_error (check_ne_error (.inl (by decide))) fun _ _ => ?_
  exact bind_ne_error (check_ne_error (.inr hle)) fun _ _ => pure_ne_error

variable [Field K] [LinearOrder K]

omit [Field K] [LinearOrder K] in
/-- The refund and the transfer of a stake change, after the delegation has changed. -/
theorem changeRefund {sender owner receiver : Name} {net cpu : ℤ} {transfer : Bool}
    (hn : s.stake.Nonneg) (h₀ : 0 ≤ B₀) (hs : sender ≠ stakeAccount)
    (ht : s.token.balance stakeAccount + (net + cpu) =
      B₀ + s.stake.delegated + s.stake.refunding)
    (hc : s.changeRefund now sender owner receiver net cpu transfer = .ok s') :
    StakeLedger B₀ s' := by
  unfold State.changeRefund at hc
  rw [if_neg hs] at hc
  simp only [bind_eq_ok, pure_eq_ok] at hc
  obtain ⟨⟨stake, net', cpu'⟩, hr, token, htr, rfl⟩ := hc
  obtain ⟨hn', hd, hpos, hsum⟩ := StakeState.changeRefund_spec hn hr
  refine ⟨hn', h₀, ?_⟩
  have hdel : stake.delegated = s.stake.delegated := by simp only [StakeState.delegated, hd]
  dsimp only at *
  split_ifs at htr with hp
  · have := Token.balance_transfer htr stakeAccount
    rw [if_neg hs.symm, if_pos rfl] at this
    omega
  · obtain rfl := pure_eq_ok.mp htr
    omega

variable [CMath K]

theorem changebw (h : StakeLedger B₀ s) {sender receiver : Name} {net cpu : ℤ} {transfer : Bool}
    (hs : sender ≠ stakeAccount)
    (hc : s.changebw now sender receiver net cpu transfer = .ok s') : StakeLedger B₀ s' := by
  simp only [State.changebw, bind_eq_ok, check_eq_ok, requireAuth_eq_ok, exists_const,
    pure_eq_ok] at hc
  obtain ⟨-, -, -, stake, hd, res, -, s₁, hr, s₂, hu, vote, -, rfl⟩ := hc
  obtain ⟨rex, vote₂, rfl⟩ := State.updateRexStake_frame hu
  obtain ⟨hn, hdel, href⟩ := StakeState.changeDelband_spec h.nonneg hd
  have h₁ : StakeLedger B₀ s₁ := by
    refine changeRefund hn h.initial_nonneg hs ?_ hr
    have := h.tokens
    simp only [StakeState.refunding, href] at *
    omega
  exact ⟨h₁.nonneg, h₁.initial_nonneg, h₁.tokens⟩

theorem unstaketorex (h : StakeLedger B₀ s) {owner receiver : Name} {fromNet fromCpu : Asset}
    (hu : s.unstaketorex now owner receiver fromNet fromCpu = .ok s') : StakeLedger B₀ s' := by
  simp only [State.unstaketorex, bind_eq_ok, check_eq_ok, requireAuth_eq_ok,
    State.checkCore_eq_ok, VoteState.checkVotingRequirement_eq_ok, exists_const,
    pure_eq_ok] at hu
  obtain ⟨-, -, -, -, -, stake, hd, res, -, token, ht, ⟨rex, _⟩, -, ⟨rex', _⟩, -, s₁, hr,
    ⟨s₂, _⟩, ha, rfl⟩ := hu
  obtain ⟨token₁, rex₁, res₁, rfl, hb⟩ := State.runrex_frame hr
  obtain ⟨r, _, _, rex₂, vote₂, -, -, -, rfl⟩ := State.updateRexAccount_eq_ok ha
  obtain ⟨hn, hdel, href⟩ := StakeState.unstakeDelband_spec h.nonneg hd
  refine ⟨hn, h.initial_nonneg, ?_⟩
  have h₁ := hb stakeAccount (by decide) (by decide)
  have h₂ := Token.balance_transfer ht stakeAccount
  rw [if_pos rfl, if_neg (by decide)] at h₂
  have := h.tokens
  simp only [StakeState.refunding, href] at *
  omega

end StakeLedger

/-! ## Runs -/

/-- Nothing is delegated and no refund is pending; `eosio.stake` holds `B₀`. -/
def StakeInit (B₀ : ℤ) (s : State K) : Prop :=
  s.stake.delband = .empty ∧ s.stake.refunds = .empty ∧ 0 ≤ B₀ ∧
    s.token.balance stakeAccount = B₀

/-- The actions that move staked tokens, by accounts other than `eosio.stake`. -/
def Action.isStake : Action K → Bool
  | delegatebw sender .. => sender ≠ stakeAccount
  | undelegatebw sender .. => sender ≠ stakeAccount
  | refund owner => owner ≠ stakeAccount
  | unstaketorex owner .. => owner ≠ stakeAccount
  | _ => false

theorem stakeLedger_of_init {B₀ : ℤ} {s : State K} (h : StakeInit B₀ s) : StakeLedger B₀ s := by
  obtain ⟨hd, hr, h₀, hb⟩ := h
  refine ⟨⟨?_, ?_⟩, h₀, ?_⟩
  · simp [hd]
  · simp [hr]
  · simp [hb, StakeState.delegated, StakeState.refunding, hd, hr]

variable [Field K] [LinearOrder K] [FloorRing K] [CMath K]

theorem StakeLedger.step {B₀ : ℤ} {t : BlockTimestamp} {s s' : State K} (h : StakeLedger B₀ s)
    (hs : Step (fun _ a => a.isStake) t s s') : StakeLedger B₀ s' := by
  obtain ⟨isAccount, a, ha, he⟩ := hs
  cases a with
  | delegatebw =>
    simp only [Action.exec, State.delegatebw, bind_eq_ok, check_eq_ok, State.checkCore_eq_ok,
      exists_const] at he
    exact h.changebw (by simpa [Action.isStake] using ha) he.2.2.2.2.2.2
  | undelegatebw =>
    simp only [Action.exec, State.undelegatebw, bind_eq_ok, check_eq_ok, State.checkCore_eq_ok,
      exists_const] at he
    exact h.changebw (by simpa [Action.isStake] using ha) he.2.2.2.2.2
  | refund => exact h.refund he
  | unstaketorex => exact h.unstaketorex he
  | _ => simp [Action.isStake] at ha

/-- **The tokens of `eosio.stake` are conserved in every run**; no amount in the records is
negative, the checks on refunds never fail, and no refund is refused for lack of tokens. -/
theorem stakeLedger_of_run {B₀ : ℤ} {t : BlockTimestamp} {s : State K}
    (h : Run (StakeInit B₀) (Step fun _ a => a.isStake) t s) :
    s.token.balance stakeAccount = B₀ + s.stake.delegated + s.stake.refunding ∧
      (∀ k d, s.stake.delband.find k = some d → 0 ≤ d.netWeight ∧ 0 ≤ d.cpuWeight) ∧
      (∀ a r, s.stake.refunds.find a = some r → 0 ≤ r.netAmount ∧ 0 ≤ r.cpuAmount) ∧
      (∀ now owner receiver net cpu transfer e,
        s.stake.changeRefund now owner receiver net cpu transfer ≠ .error e) ∧
      ∀ now owner, s.refund now owner ≠ .error "overdrawn balance" := by
  have hl := h.invariant (P := StakeLedger B₀) (fun _ => stakeLedger_of_init) (fun _ _ _ =>
    StakeLedger.step)
  refine ⟨hl.tokens, hl.nonneg.delband, hl.nonneg.refunds, ?_, fun _ => hl.refund_ne_error⟩
  intro now owner receiver net cpu transfer e he
  obtain ⟨r, hr⟩ := s.stake.changeRefund_isOk now owner receiver net cpu transfer
  rw [hr] at he
  cases he

/-- The account stakes, takes a part back, stakes again out of the refund, and collects the
rest of the refund after three days. -/
def stakeExampleRun : List (BlockTimestamp × Action ℚ) :=
  [(.ofSlot 1, .delegatebw ⟨1⟩ ⟨1⟩ (exampleAsset 500) (exampleAsset 300) false),
   (.ofSlot 2, .undelegatebw ⟨1⟩ ⟨1⟩ (exampleAsset 200) (exampleAsset 100)),
   (.ofSlot 3, .delegatebw ⟨1⟩ ⟨1⟩ (exampleAsset 50) (exampleAsset 200) false),
   (.ofSlot 518500, .refund ⟨1⟩)]

theorem stakeLedger_of_run_example :
    ∃ s : State ℚ, s.token.balance stakeAccount = 0 + s.stake.delegated + s.stake.refunding ∧
      0 < s.stake.delegated := by
  have hrun : (execAll (Action.execIn fun _ a => a.isStake) (.ofSlot 0) stakeExampleRun
      exampleChain).isSome := by decide +kernel
  have hinit : StakeInit 0 exampleChain := ⟨rfl, rfl, le_rfl, rfl⟩
  obtain ⟨hb, -⟩ := stakeLedger_of_run (run_get_execIn hinit hrun)
  exact ⟨_, hb, by decide +kernel +revert⟩

end EosioSystem
