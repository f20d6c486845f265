import EosioSystem.Frame
import EosioSystem.StakingPool.Stakes

/-!
# The stake in the pools along a run

Every action of the contract is a sequence of steps on the pools and their voters: votes, payments,
deposits and withdrawals. What a step keeps is kept along every run.

## Main definitions

* `PoolTables.Moves`: a sequence of steps
* `Action.withdrawal`: the stake an action asks to take out of a pool
* `StakesKept`: the invariant of a run
* `State.redeemable`: what the stake of an account is worth

## Main results

* `Action.exec_moves`: an action is a sequence of steps
* `redeemable_of_run`: **nobody's stake is diluted by others**, and nobody takes out more than the
  stake is worth
-/

namespace EosioSystem

open Checked

variable {K : Type} [Field K] [LinearOrder K]

/-- The stake in the pools of a state. -/
def PoolTables.stakes (p : PoolTables K) (st : StakingPoolState K) : Stakes K := ⟨p.voters,
    st.pools⟩

variable [FloorRing K]

/-- A sequence of steps at a time, in which stake is taken out by `w` only. -/
inductive PoolTables.Moves (now : BlockTimestamp) (w : Option Name) (p p' : PoolTables K) : Prop
  | unset (hp : p.state = none) (hp' : p'.state = none) (hv : p'.voters = p.voters)
  | steps {st st' : StakingPoolState K} (hp : p.state = some st) (hp' : p'.state = some st')
      (hr : 0 ≤ st.voterRate → 0 ≤ st'.voterRate)
      (h : Relation.ReflTransGen (StakeStep now w) (p.stakes st) (p'.stakes st'))

namespace PoolTables.Moves

variable {now : BlockTimestamp} {w : Option Name} {p p₁ p' : PoolTables K}
  {st st' : StakingPoolState K}

/-- Nothing has happened to the pools and their voters. -/
theorem same (hst : p'.state.map (fun st => (st.pools, st.voterRate)) =
    p.state.map fun st => (st.pools, st.voterRate)) (hv : p'.voters = p.voters) :
    Moves now w p p' := by
  cases hp : p.state with
  | none => exact .unset hp (by simpa [hp] using hst) hv
  | some st =>
    obtain ⟨st', hp', he⟩ : ∃ st', p'.state = some st' ∧
        (st'.pools, st'.voterRate) = (st.pools, st.voterRate) := by
      simpa [hp] using hst
    obtain ⟨hpools, hr⟩ := Prod.mk.inj he
    refine .steps hp hp' (fun h => hr ▸ h) ?_
    rw [stakes, stakes, hv, hpools]

theorem refl (p : PoolTables K) : Moves now w p p := same rfl rfl

theorem trans (h₁ : Moves now w p p₁) (h₂ : Moves now w p₁ p') : Moves now w p p' := by
  cases h₁ with
  | unset hp hp₁ hv =>
    cases h₂ with
    | unset _ hp' hv' => exact .unset hp hp' (hv'.trans hv)
    | steps hp₁' =>
      rw [hp₁] at hp₁'
      cases hp₁'
  | steps hp hp₁ hr h =>
    cases h₂ with
    | unset hp₁' =>
      rw [hp₁] at hp₁'
      cases hp₁'
    | steps hp₁' hp' hr' h' =>
      obtain rfl := Option.some.inj (hp₁.symm.trans hp₁')
      exact .steps hp hp' (fun h => hr' (hr h)) (h.trans h')

/-- A single step. -/
theorem single (hp : p.state = some st) (hp' : p'.state = some st')
    (hr : st'.voterRate = st.voterRate) (h : StakeStep now w (p.stakes st) (p'.stakes st')) :
    Moves now w p p' := .steps hp hp' (fun h => hr ▸ h) (.single h)

end PoolTables.Moves

/-! ## Fees and votes -/

section

variable [IsStrictOrderedRing K] {now : BlockTimestamp} {w : Option Name} {s s' : State K}

omit [IsStrictOrderedRing K] in
/-- A fee is a payment to the pools. -/
theorem State.transitionChannelToPools_moves {sender : Name} {amount rest : ℤ} {part : Bool}
    (h : s.transitionChannelToPools now sender amount part = .ok (s', rest)) :
    s.pools.Moves now w s'.pools := by
  rcases transitionChannelToPools_cases h with ⟨rfl, -⟩ | ⟨st, token, hst, -, ht, rfl, -⟩
  · exact .refl _
  · have hc := distribute_credited (Token.transfer_eq_ok ht).2.1.le (activePools st.pools) 0
      st.pools
    simp only [Nat.cast_zero, mul_zero, Int.zero_tdiv] at hc
    have hstep : StakeStep now w (s.pools.stakes st)
        ⟨s.pools.voters, distribute (feeToPools now st amount part) (activePools st.pools) 0 0
          st.pools⟩ := .paid hc
    exact .single hst rfl rfl hstep

omit [IsStrictOrderedRing K] in
theorem State.channelToRexOrPools_moves {sender : Name} {amount : ℤ} {req : Bool}
    (h : s.channelToRexOrPools now sender amount req = .ok s') :
    s.pools.Moves now w s'.pools := by
  obtain ⟨s₁, rest, h₁, h₂⟩ := channelToRexOrPools_cases h
  have hm := transitionChannelToPools_moves (w := w) h₁
  rcases h₂ with rfl | h₂
  · exact hm
  · rcases channelToRex_cases h₂ with ⟨-, rfl⟩ | ⟨rex, token, -, -, -, rfl⟩
    · exact hm
    · exact hm

omit [IsStrictOrderedRing K] in
theorem State.payRamFee_moves {payer : Name} {fee : ℤ} (h : s.payRamFee now payer fee = .ok s') :
    s.pools.Moves now w s'.pools := by
  unfold payRamFee at h
  split_ifs at h
  · obtain ⟨token, -, h⟩ := bind_eq_ok.mp h
    have hm := channelToRexOrPools_moves (w := w) h
    exact hm
  · exact pure_eq_ok.mp h ▸ .refl _

omit [IsStrictOrderedRing K] in
theorem State.distributeNamebidToPools_moves (h : s.distributeNamebidToPools now = .ok s') :
    s.pools.Moves now w s'.pools ∧ s'.pools.voters = s.pools.voters ∧
      s'.pools.state.map (fun st => st.pools.length) =
        s.pools.state.map fun st => st.pools.length := by
  unfold distributeNamebidToPools at h
  split at h
  · cases h
    exact ⟨.refl _, rfl, rfl⟩
  · split_ifs at h
    · obtain ⟨⟨s₁, rest⟩, hc, h⟩ := bind_eq_ok.mp h
      obtain rfl := pure_eq_ok.mp h
      refine ⟨(transitionChannelToPools_moves hc).trans (.same ?_ rfl), ?_⟩
      · simp [Function.comp_def]
      · rcases transitionChannelToPools_cases hc with ⟨rfl, -⟩ | ⟨st, _, hst, -, -, rfl, -⟩
        · simp [Function.comp_def]
        · simp [hst]
    · cases h
      exact ⟨.refl _, rfl, rfl⟩

variable (now w)

omit [FloorRing K] [LinearOrder K] [IsStrictOrderedRing K] in
/-- A vote moves no stake. -/
theorem State.updatePoolVotes_eq_ok {a proxy : Name} {producers : List Name} {voting : Bool}
    (h : s.updatePoolVotes a proxy producers voting = .ok s') :
    ∃ st totalVotes, s.pools.state = some st ∧
      s'.pools.state = some { st with totalVotes } ∧
      SameStake st.pools.length s.pools.voters s'.pools.voters ∧ s'.token = s.token := by
  simp only [updatePoolVotes, bind_eq_ok, poolState_eq_ok, pure_eq_ok] at h
  obtain ⟨st, hst, pv, hpv, rfl⟩ := h
  exact ⟨st, pv.totalVotes, hst, rfl,
    (PoolVotes.updatePoolVotes_stake a proxy producers voting).of_ok pv hpv, rfl⟩

omit [FloorRing K] [LinearOrder K] [IsStrictOrderedRing K] in
theorem State.recastVotes_eq_ok {a : Name} (h : s.recastVotes a = .ok s') :
    ∃ st totalVotes, s.pools.state = some st ∧
      s'.pools.state = some { st with totalVotes } ∧
      SameStake st.pools.length s.pools.voters s'.pools.voters ∧ s'.token = s.token := by
  obtain ⟨_, -, h⟩ := bind_eq_ok.mp h
  exact updatePoolVotes_eq_ok h

omit [IsStrictOrderedRing K] in
theorem State.updatePoolVotes_moves {a proxy : Name} {producers : List Name} {voting : Bool}
    (h : s.updatePoolVotes a proxy producers voting = .ok s') : s.pools.Moves now w s'.pools := by
  obtain ⟨st, totalVotes, hst, hst', hv, -⟩ := updatePoolVotes_eq_ok h
  have hstep : StakeStep now w (s.pools.stakes st) ⟨s'.pools.voters, st.pools⟩ := .votes hv
  exact .single hst hst' rfl hstep

omit [IsStrictOrderedRing K] in
theorem State.recastVotes_moves {a : Name} (h : s.recastVotes a = .ok s') :
    s.pools.Moves now w s'.pools := by
  obtain ⟨_, -, h⟩ := bind_eq_ok.mp h
  exact updatePoolVotes_moves now w h

end

/-! ## Actions -/

/-- What an action asks to take out of a pool: whose stake, from which pool, how much, and whether
it is a claim. -/
structure Withdrawal where
  owner : Name
  i : ℕ
  requested : ℤ
  claiming : Bool

omit [Field K] [LinearOrder K] [FloorRing K] in
def Action.withdrawal : Action K → Option Withdrawal
  | claimstake owner i requested => some ⟨owner, i, requested.amount, true⟩
  | transferstake sender _ i requested _ => some ⟨sender, i, requested.amount, false⟩
  | upgradestake owner fromIndex _ requested => some ⟨owner, fromIndex, requested.amount, false⟩
  | _ => none

omit [Field K] [LinearOrder K] [FloorRing K] in
/-- The account whose stake an action takes out of a pool. -/
def Action.withdrawer (x : Action K) : Option Name := x.withdrawal.map Withdrawal.owner

/-- The books are right, and the pay of the voters is not negative. -/
structure StakesKept (s : State K) : Prop where
  supply : 0 ≤ s.token.supply
  voters : s.pools.state = none → s.pools.voters = .empty
  kept : ∀ st, s.pools.state = some st → (s.pools.stakes st).Kept
  rate : ∀ st, s.pools.state = some st → 0 ≤ st.voterRate

namespace State

variable [IsStrictOrderedRing K] {now : BlockTimestamp} {w : Option Name} {s s' : State K}

omit [IsStrictOrderedRing K] in
/-- Steps, as a change of the tables. -/
theorem setPools_moves {st : StakingPoolState K} (hst : s.pools.state = some st)
    {pools : List (StakingPool K)} {voters : Table Name (PoolVoter K)}
    (h : Relation.ReflTransGen (StakeStep now w) (s.pools.stakes st) ⟨voters, pools⟩) :
    s.pools.Moves now w (s.setPools { st with pools } voters).pools :=
  .steps hst rfl (fun hr => hr) h

omit [IsStrictOrderedRing K] in
theorem stake2pool_moves {owner : Name} {i : ℕ} {amount : Asset}
    (h : s.stake2pool now owner i amount = .ok s') : s.pools.Moves now w s'.pools := by
  simp only [stake2pool, bind_eq_ok, requireAuth_eq_ok, check_eq_ok, checkCore_eq_ok,
    poolState_eq_ok, exists_const] at h
  obtain ⟨-, st, hst, -, -, ha, ⟨pools, voter⟩, hd, token, -, h⟩ := h
  have hstep : StakeStep now w (s.pools.stakes st) ⟨s.pools.voters.set owner voter, pools⟩ :=
    .deposit ha hd
  have hm := recastVotes_moves now w h
  exact (setPools_moves hst (.single hstep)).trans hm

/-- What a claim does: after the proceeds of the name auctions have reached the pools, stake is
taken
out and paid, and the lock is set anew. -/
inductive Claimed (now : BlockTimestamp) (owner : Name) (i : ℕ) (requested : ℤ)
    (s s' : State K) : Prop
  | intro {s₁ : State K} {st₀ st : StakingPoolState K} {p : StakingPool K}
      {pools : List (StakingPool K)} {v : PoolVoter K} {out : ℤ} {totalVotes : List K}
      (hst₀ : s.pools.state = some st₀) (hd : s.distributeNamebidToPools now = .ok s₁)
      (hv : s₁.pools.voters = s.pools.voters) (hlen : st.pools.length = st₀.pools.length)
      (hst : s₁.pools.state = some st) (hp : st.pools[i]? = some p)
      (hnext : (s₁.pools.stakes st).nextClaim owner i ≤ now.slot)
      (hw : withdrawFrom st.pools ((s₁.pools.stakes st).voter owner) i requested true =
        .ok (pools, v, out))
      (ht : (if out ≠ 0 then s₁.token.transfer srpoolAccount owner out else pure s₁.token) =
        .ok s'.token)
      (hst' : s'.pools.state = some { st with pools, totalVotes })
      (hs' : SameStake pools.length (s₁.pools.voters.set owner { v with
        nextClaim := v.nextClaim.set i ((now.slot + p.claimPeriod * 2) % 2 ^ 32) })
          s'.pools.voters) :
      Claimed now owner i requested s s'

omit [IsStrictOrderedRing K] in
theorem claimstake_eq_ok {owner : Name} {i : ℕ} {requested : Asset}
    (h : s.claimstake now owner i requested = .ok s') :
    Claimed now owner i requested.amount s s' := by
  simp only [claimstake, bind_eq_ok, requireAuth_eq_ok, check_eq_ok, checkCore_eq_ok,
    poolState_eq_ok, require_eq_ok, exists_const] at h
  obtain ⟨-, st₀, hst₀, -, -, -, _, -, s₁, hd, st, hst, p, hp, hnext, ⟨pools, v, out⟩, hw, _, -,
    token, ht, h⟩ := h
  obtain ⟨-, hv, hmap⟩ := distributeNamebidToPools_moves (w := none) hd
  have hlen : st.pools.length = st₀.pools.length := by simpa [hst, hst₀] using hmap
  -- the record that was read before the proceeds are distributed
  have hvoter : (s₁.pools.stakes st).voter owner =
      getOrCreatePoolVoter s.pools.voters st₀.pools.length owner := by
    rw [Stakes.voter, PoolTables.stakes, hv, hlen]
  rw [← hvoter] at hnext hw
  obtain ⟨_, totalVotes, hst₂, hst', hs', htoken⟩ := recastVotes_eq_ok h
  obtain rfl := Option.some.inj hst₂
  exact .intro hst₀ hd hv hlen hst hp hnext hw (ht.trans (congrArg Except.ok htoken.symm)) hst' hs'

omit [IsStrictOrderedRing K] in
theorem claimstake_moves {owner : Name} {i : ℕ} {requested : Asset} (hw : w = some owner)
    (h : s.claimstake now owner i requested = .ok s') : s.pools.Moves now w s'.pools := by
  cases claimstake_eq_ok h with
  | @intro s₁ st₀ st p pools v out totalVotes hst₀ hd hv hlen hst hp hnext hwd ht hst' hs' =>
    have hclaim : StakeStep now w (s₁.pools.stakes st) ⟨s₁.pools.voters.set owner { v with
        nextClaim := v.nextClaim.set i ((now.slot + p.claimPeriod * 2) % 2 ^ 32) }, pools⟩ :=
      .claim hw hp hnext hwd
    have hvotes : StakeStep now w ⟨s₁.pools.voters.set owner { v with
        nextClaim := v.nextClaim.set i ((now.slot + p.claimPeriod * 2) % 2 ^ 32) }, pools⟩
          (s'.pools.stakes { st with pools, totalVotes }) := .votes hs'
    exact (distributeNamebidToPools_moves hd).1.trans
      (.steps hst hst' (fun hr => hr) (.tail (.single hclaim) hvotes))

theorem transferstake_moves {env : Env} {sender receiver : Name} {i : ℕ} {requested : Asset}
    {memo : String} (hk : StakesKept s) (hw : w = some sender)
    (h : s.transferstake env sender receiver i requested memo = .ok s') :
    s.pools.Moves env.now w s'.pools := by
  simp only [transferstake, bind_eq_ok, requireAuth_eq_ok, check_eq_ok, checkCore_eq_ok,
    poolState_eq_ok, require_eq_ok, exists_const] at h
  obtain ⟨-, -, hne, -, st, hst, -, -, -, v, hv, -, ⟨pools₁, v₁, sold⟩, hwd, hsold, ⟨pools₂, v₂⟩,
    hd, _, -,
    s₁, h₁, h₂⟩ := h
  rw [← getOrCreatePoolVoter_of_find hv st.pools.length] at hwd
  have hstep₁ : StakeStep env.now w (s.pools.stakes st)
      ⟨s.pools.voters.set sender v₁, pools₁⟩ := .withdraw hw hwd
  have hlen : pools₁.length = st.pools.length := hstep₁.length_eq (hk.kept st hst)
  have hto : getOrCreatePoolVoter (s.pools.voters.set sender v₁) pools₁.length receiver =
      getOrCreatePoolVoter s.pools.voters st.pools.length receiver := by
    rw [getOrCreatePoolVoter_set, if_neg (Ne.symm hne), hlen]
  rw [← hto] at hd
  have hstep₂ : StakeStep env.now w ⟨s.pools.voters.set sender v₁, pools₁⟩
      ⟨(s.pools.voters.set sender v₁).set receiver v₂, pools₂⟩ := .deposit hsold hd
  have hr₁ := recastVotes_moves env.now w h₁
  have hr₂ := recastVotes_moves env.now w h₂
  exact (setPools_moves hst (.tail (.single hstep₁) hstep₂)).trans (hr₁.trans hr₂)

omit [IsStrictOrderedRing K] in
theorem upgradestake_moves {owner : Name} {i j : ℕ} {requested : Asset} (hw : w = some owner)
    (h : s.upgradestake now owner i j requested = .ok s') : s.pools.Moves now w s'.pools := by
  simp only [upgradestake, bind_eq_ok, requireAuth_eq_ok, check_eq_ok, checkCore_eq_ok,
    poolState_eq_ok, require_eq_ok, exists_const] at h
  obtain ⟨-, st, hst, -, -, -, -, -, v, hv, ⟨pools₁, v₁, sold⟩, hwd, hsold, ⟨pools₂, v₂⟩, hd, _, -,
    h⟩ := h
  rw [← getOrCreatePoolVoter_of_find hv st.pools.length] at hwd
  have hstep₁ : StakeStep now w (s.pools.stakes st) ⟨s.pools.voters.set owner v₁, pools₁⟩ :=
    .withdraw hw hwd
  have hto : getOrCreatePoolVoter (s.pools.voters.set owner v₁) pools₁.length owner = v₁ :=
    getOrCreatePoolVoter_of_find (Table.find_set_self _ _ _) _
  have hstep₂ : StakeStep now w ⟨s.pools.voters.set owner v₁, pools₁⟩
      ⟨(s.pools.voters.set owner v₁).set owner v₂, pools₂⟩ := .deposit hsold (hto.symm ▸ hd)
  rw [Table.set_set] at hstep₂
  have hr := recastVotes_moves now w h
  exact (setPools_moves hst (.tail (.single hstep₁) hstep₂)).trans hr

omit [IsStrictOrderedRing K] in
theorem setpoolnotif_moves {owner : Name} {xferOut xferIn : Option Bool}
    (h : s.setpoolnotif owner xferOut xferIn = .ok s') : s.pools.Moves now w s'.pools := by
  simp only [setpoolnotif, bind_eq_ok, requireAuth_eq_ok, poolState_eq_ok, exists_const,
    pure_eq_ok] at h
  obtain ⟨-, st, hst, rfl⟩ := h
  exact setPools_moves hst (.single (.votes (.set (by rfl))))

omit [IsStrictOrderedRing K] in
theorem regpoolproxy_moves {proxy : Name} {isproxy : Bool}
    (h : s.regpoolproxy proxy isproxy = .ok s') : s.pools.Moves now w s'.pools := by
  simp only [regpoolproxy, bind_eq_ok, requireAuth_eq_ok, poolState_eq_ok, check_eq_ok,
    exists_const, pure_eq_ok] at h
  obtain ⟨-, st, hst, -, pv, hpv, rfl⟩ := h
  have h₁ : SameStake st.pools.length s.pools.voters (s.pools.voters.set proxy
      { getOrCreatePoolVoter s.pools.voters st.pools.length proxy with isProxy := isproxy }) :=
    .set (by rfl)
  have hstep : StakeStep now w (s.pools.stakes st) ⟨pv.voters, st.pools⟩ :=
    .votes (h₁.trans ((PoolVotes.updatePoolProxy_stake _ proxy).of_ok pv hpv))
  exact .single hst rfl rfl hstep

theorem updatepay_moves {user : Name} (hk : StakesKept s) (h : s.updatepay user = .ok s') :
    s.pools.Moves now w s'.pools := by
  simp only [updatepay, bind_eq_ok, requireAuth_eq_ok, poolState_eq_ok, check_eq_ok, exists_const,
    pure_eq_ok] at h
  obtain ⟨-, st, hst, -, _, -, _, -, ⟨_, _⟩, -, token, -, rfl⟩ := h
  have hpay := payPools_credited (perPoolPay_nonneg hk.supply (hk.rate st hst)) st.pools
  have hstep : StakeStep now w (s.pools.stakes st) ⟨s.pools.voters, _⟩ := .paid hpay
  exact .single hst rfl rfl hstep

/-! ### Fees of actions -/

omit [IsStrictOrderedRing K] in
theorem buyram_moves {payer receiver : Name} {quant : Asset}
    (h : s.buyram now payer receiver quant = .ok s') : s.pools.Moves now w s'.pools := by
  simp only [buyram, bind_eq_ok, requireAuth_eq_ok, check_eq_ok, checkCore_eq_ok, exists_const,
    pure_eq_ok] at h
  obtain ⟨-, ram, -, -, -, token, -, s₁, hf, ⟨ram', _⟩, -, rfl⟩ := h
  have hm := payRamFee_moves (w := w) hf
  exact hm

omit [IsStrictOrderedRing K] in
theorem sellram_moves {account : Name} {bytes : ℤ} (h : s.sellram now account bytes = .ok s') :
    s.pools.Moves now w s'.pools := by
  simp only [sellram, bind_eq_ok, requireAuth_eq_ok, check_eq_ok, exists_const] at h
  obtain ⟨-, ram, -, -, _, -, -, _, -, ⟨ram', tokens⟩, -, token, -, hf⟩ := h
  have hm := payRamFee_moves (w := w) hf
  exact hm

omit [IsStrictOrderedRing K] in
theorem powerup_moves [CMath K] {payer receiver : Name} {days : ℕ} {net cpu : ℤ}
    {maxPayment : Asset} (h : s.powerup now payer receiver days net cpu maxPayment = .ok s') :
    s.pools.Moves now w s'.pools := by
  simp only [powerup, bind_eq_ok, requireAuth_eq_ok, check_eq_ok, checkCore_eq_ok, exists_const,
    pure_eq_ok] at h
  obtain ⟨-, m, -, -, -, -, -, -, -, ⟨s₁, m₁, _, _⟩, hq, _, -, _, -, -, -, s₂, h₂, s₃, h₃, s₄, h₄,
    rfl⟩ := h
  obtain ⟨res, powup, rfl⟩ := processPowerupQueue_frame hq
  obtain ⟨res₂, rfl⟩ := adjustResources_frame h₂
  obtain ⟨res₃, rfl⟩ := adjustResources_frame h₃
  have hm := channelToRexOrPools_moves (w := w) h₄
  exact hm

omit [IsStrictOrderedRing K] in
theorem onblock_moves (timestamp : BlockTimestamp) (producer : Name) :
    s.pools.Moves now w (s.onblock now timestamp producer).pools := by
  obtain ⟨_, _, _, q, r, names, pay, producers, he, -⟩ := s.onblock_eq now timestamp producer
  rw [he]
  exact .same (by simp [addNamebids, Function.comp_def]) rfl

omit [IsStrictOrderedRing K] [FloorRing K] in
/-- The pools and their voters stay when a producer comes or goes. -/
theorem registerProducer_pools {producer : Name} (h : s.registerProducer now producer = .ok s') :
    s'.pools.state = s.pools.state ∧ s'.pools.voters = s.pools.voters := by
  unfold registerProducer at h
  split at h
  · obtain ⟨_, -, h⟩ := bind_eq_ok.mp h
    obtain rfl := pure_eq_ok.mp h
    exact ⟨rfl, rfl⟩
  · simp only [bind_eq_ok, check_eq_ok, exists_const, pure_eq_ok] at h
    obtain ⟨_, -, -, rfl⟩ := h
    exact ⟨rfl, rfl⟩

omit [IsStrictOrderedRing K] [FloorRing K] [Field K] [LinearOrder K] in
theorem deactivateProducer_pools {producer : Name} (h : s.deactivateProducer producer = .ok s') :
    s'.pools.state = s.pools.state ∧ s'.pools.voters = s.pools.voters := by
  simp only [deactivateProducer, bind_eq_ok, pure_eq_ok] at h
  obtain ⟨_, -, rfl⟩ := h
  exact ⟨rfl, rfl⟩

omit [IsStrictOrderedRing K] in
/-- A later configuration leaves the pools as they are. -/
theorem cfgsrpool_moves {args : PoolConfig K} {st : StakingPoolState K}
    (hst : s.pools.state = some st) (hr : 0 ≤ st.voterRate)
    (h : s.cfgsrpool now args = .ok s') : s.pools.Moves now w s'.pools := by
  unfold cfgsrpool at h
  obtain ⟨core, -, h⟩ := bind_eq_ok.mp h
  rw [hst] at h
  simp only [bind_eq_ok, check_eq_ok, exists_const, pure_eq_ok] at h
  obtain ⟨-, -, -, st', hcfg, rfl⟩ := h
  obtain ⟨hpools, hrate⟩ := configure_eq_ok hr hcfg
  refine .steps hst rfl (fun _ => hrate) ?_
  rw [PoolTables.stakes, PoolTables.stakes, hpools]

end State

variable [IsStrictOrderedRing K] [CMath K] {s s' : State K}

/-- **An action** but the first configuration of the pools is a sequence of steps, in which it
takes out
the stake of its own withdrawer only. -/
theorem Action.exec_moves {env : Env} {x : Action K} (hk : StakesKept s)
    (h : x.exec env s = .ok s') (hx : s.pools.state = none → ∀ args, x ≠ .cfgsrpool args) :
    s.pools.Moves env.now x.withdrawer s'.pools := by
  have hframe (hp : Part.pools ∉ x.parts) : s.pools.Moves env.now x.withdrawer s'.pools := by
    have hsame : s'.pools = s.pools := (Action.exec_changes h).same .pools hp
    rw [hsame]
    exact .refl _
  have hsame (hp : s'.pools.state = s.pools.state ∧ s'.pools.voters = s.pools.voters) :
      s.pools.Moves env.now x.withdrawer s'.pools := .same (by rw [hp.1]) hp.2
  cases x with
  | cfgsrpool args =>
    cases hst : s.pools.state with
    | none => exact absurd rfl (hx hst args)
    | some st => exact State.cfgsrpool_moves hst (hk.rate st hst) h
  | stake2pool => exact State.stake2pool_moves h
  | claimstake => exact State.claimstake_moves rfl h
  | transferstake => exact State.transferstake_moves hk rfl h
  | upgradestake => exact State.upgradestake_moves rfl h
  | setpoolnotif => exact State.setpoolnotif_moves h
  | regpoolproxy => exact State.regpoolproxy_moves h
  | updatepay => exact State.updatepay_moves hk h
  | votewithpool =>
    simp only [exec, State.votewithpool, bind_eq_ok, requireAuth_eq_ok, exists_const] at h
    obtain ⟨-, _, -, _, -, h⟩ := h
    exact State.updatePoolVotes_moves _ _ h
  | buyram => exact State.buyram_moves h
  | buyrambytes =>
    simp only [exec, State.buyrambytes, bind_eq_ok] at h
    obtain ⟨_, -, _, -, _, -, h⟩ := h
    exact State.buyram_moves h
  | sellram => exact State.sellram_moves h
  | powerup => exact State.powerup_moves h
  | onblock timestamp producer => exact Except.ok.inj h ▸ State.onblock_moves timestamp producer
  | regproducer =>
    simp only [exec, State.regproducer, bind_eq_ok, check_eq_ok, requireAuth_eq_ok,
      exists_const] at h
    exact hsame (State.registerProducer_pools h.2.2)
  | unregprod =>
    simp only [exec, State.unregprod, bind_eq_ok, requireAuth_eq_ok, exists_const] at h
    exact hsame (State.deactivateProducer_pools h.2)
  | rmvproducer => exact hsame (State.deactivateProducer_pools h)
  | updatevotes =>
    simp only [exec, State.updatevotes, bind_eq_ok, requireAuth_eq_ok, check_eq_ok,
      exists_const, pure_eq_ok] at h
    obtain ⟨-, prod, -, -, _, -, t, -, st, -, votes, -, rfl⟩ := h
    exact hsame ⟨rfl, rfl⟩
  | claimvotepay =>
    simp only [exec, State.claimvotepay, bind_eq_ok, requireAuth_eq_ok, check_eq_ok,
      exists_const, pure_eq_ok] at h
    obtain ⟨-, t, -, -, token, -, rfl⟩ := h
    exact hsame ⟨rfl, rfl⟩
  | _ => exact hframe (by simp [parts])

/-! ## Runs -/

namespace StakesKept

omit [FloorRing K] [CMath K] [IsStrictOrderedRing K] in
/-- The first configuration creates pools without stake. -/
theorem cfgsrpool {now : BlockTimestamp} {args : PoolConfig K} (hk : StakesKept s)
    (hst : s.pools.state = none) (h : s.cfgsrpool now args = .ok s') : StakesKept s' := by
  unfold State.cfgsrpool at h
  obtain ⟨core, -, h⟩ := bind_eq_ok.mp h
  rw [hst] at h
  simp only [bind_eq_ok, pure_eq_ok] at h
  obtain ⟨st, hc, st', hcfg, rfl⟩ := h
  obtain ⟨hr, hzero⟩ := create_eq_ok hc
  obtain ⟨hpools, hrate⟩ := configure_eq_ok hr.ge hcfg
  rw [← hpools] at hzero
  have hkept : (s.pools.stakes st').Kept := by
    refine ⟨?_, fun a => ?_⟩
    · rw [PoolTables.stakes, hk.voters hst]
      exact .of_empty hzero
    · rw [PoolTables.stakes, Stakes.voter, hk.voters hst]
      exact List.length_replicate
  refine ⟨hk.supply, by simp, fun st₁ h₁ => ?_, fun st₁ h₁ => ?_⟩
  · cases h₁
    exact hkept
  · cases h₁
    exact hrate

omit [CMath K] in
/-- The invariant along the steps of an action. -/
theorem kept_of_steps {now : BlockTimestamp} {w : Option Name} {k k' : Stakes K} (hk : k.Kept)
    (h : Relation.ReflTransGen (StakeStep now w) k k') : k'.Kept := by
  induction h with
  | refl => exact hk
  | tail _ hs ih => exact hs.kept ih

omit [CMath K] in
/-- Steps keep the books. -/
theorem of_moves {now : BlockTimestamp} {w : Option Name} (hk : StakesKept s)
    (hs : s.token.supply ≤ s'.token.supply) (hm : s.pools.Moves now w s'.pools) :
    StakesKept s' := by
  have hsupply : 0 ≤ s'.token.supply := hk.supply.trans hs
  cases hm with
  | unset hp hp' hv =>
    exact ⟨hsupply, fun _ => hv.trans (hk.voters hp), by simp [hp'], by simp [hp']⟩
  | @steps st st' hp hp' hr hsteps =>
    refine ⟨hsupply, by simp [hp'], fun st₁ h₁ => ?_, fun st₁ h₁ => ?_⟩
    · obtain rfl := Option.some.inj (hp'.symm.trans h₁)
      exact kept_of_steps (hk.kept st hp) hsteps
    · obtain rfl := Option.some.inj (hp'.symm.trans h₁)
      exact hr (hk.rate st hp)

theorem exec {env : Env} {x : Action K} (hk : StakesKept s) (h : x.exec env s = .ok s') :
    StakesKept s' := by
  by_cases hx : s.pools.state = none ∧ ∃ args, x = .cfgsrpool args
  · obtain ⟨hst, args, rfl⟩ := hx
    exact hk.cfgsrpool hst h
  · exact hk.of_moves (Action.exec_changes h).token.supply_le
      (Action.exec_moves hk h fun hst args hargs => hx ⟨hst, args, hargs⟩)

end StakesKept

/-- There are no staking pools yet. -/
def PoolStakeInit (s : State K) : Prop :=
  s.pools.state = none ∧ s.pools.voters = .empty ∧ 0 ≤ s.token.supply

omit [FloorRing K] [CMath K] [IsStrictOrderedRing K] in
theorem stakesKept_of_init (h : PoolStakeInit s) : StakesKept s := by
  obtain ⟨hst, hv, hs⟩ := h
  exact ⟨hs, fun _ => hv, by simp [hst], by simp [hst]⟩

theorem stakesKept_of_run {allowed : State K → Action K → Prop} {t : BlockTimestamp}
    (h : Run PoolStakeInit (Step allowed) t s) : StakesKept s := by
  refine h.invariant (P := StakesKept) (fun _ => stakesKept_of_init) ?_
  rintro t s s' hk ⟨isAccount, x, -, he⟩
  exact hk.exec he

/-! ## What a stake is worth -/

omit [CMath K] [IsStrictOrderedRing K] in
/-- What the stake of an account in a pool can be redeemed for. -/
def State.redeemable (s : State K) (a : Name) (i : ℕ) : Except Error ℤ := do
  let st ← s.poolState
  let pool ← require st.pools[i]? "invalid pool"
  let voter := getOrCreatePoolVoter s.pools.voters st.pools.length a
  pool.tokenPool.simulateSell (voter.ownedShares.getD i 0)

/-- Stake is taken out: `withdraw_pool` is called for a stake worth `balance` in the pool `p` and
takes `out` tokens out. Before a claim the proceeds of the name auctions have reached the pools. -/
inductive Withdraws (now : BlockTimestamp) (s : State K) (r : Withdrawal) (p : StakingPool K)
    (balance out : ℤ) : Prop
  | intro {s₁ : State K} {st : StakingPoolState K} {pools : List (StakingPool K)}
      {v : PoolVoter K}
      (hs : (if r.claiming then s.distributeNamebidToPools now else pure s) = .ok s₁)
      (hst : s₁.pools.state = some st) (hp : st.pools[r.i]? = some p)
      (hb : s₁.redeemable r.owner r.i = .ok balance)
      (hw : State.withdrawFrom st.pools
        (getOrCreatePoolVoter s₁.pools.voters st.pools.length r.owner) r.i r.requested r.claiming =
          .ok (pools, v, out))

omit [CMath K] in
theorem StakesKept.redeemable_eq (hk : StakesKept s) {st : StakingPoolState K}
    (hst : s.pools.state = some st) {i : ℕ} {p : StakingPool K} (hp : st.pools[i]? = some p)
    (a : Name) : s.redeemable a i = .ok (p.tokenPool.value ((s.pools.stakes st).owned a i)) := by
  have hkept := hk.kept st hst
  have hsell := (hkept.book.solvent i p hp).simulateSell_eq (hkept.owned_nonneg a i)
    (hkept.owned_le a hp)
  rw [State.redeemable, State.poolState, hst]
  simp only [require, Option.elim_some, hp, bind, Except.bind]
  exact hsell

omit [CMath K] in
/-- The pools stay along the steps of an action, with their periods. -/
theorem pool_of_steps {now : BlockTimestamp} {w : Option Name} {k k' : Stakes K} (hk : k.Kept)
    (h : Relation.ReflTransGen (StakeStep now w) k k') {j : ℕ} {p' : StakingPool K}
    (hp' : k'.pools[j]? = some p') :
    ∃ p, k.pools[j]? = some p ∧ p'.claimPeriod = p.claimPeriod ∧ p'.duration = p.duration := by
  induction h generalizing p' with
  | refl => exact ⟨p', hp', rfl, rfl⟩
  | @tail k₁ k₂ h₁ hs ih =>
    obtain ⟨p₁, hp₁, -, hc, hd⟩ := hs.pool (StakesKept.kept_of_steps hk h₁) hp'
    obtain ⟨p, hp, hc₁, hd₁⟩ := ih hp₁
    exact ⟨p, hp, hc.trans hc₁, hd.trans hd₁⟩

omit [CMath K] in
/-- No pool is closed by the steps of an action. -/
theorem exists_pool_of_steps {now : BlockTimestamp} {w : Option Name} {k k' : Stakes K}
    (hk : k.Kept) (h : Relation.ReflTransGen (StakeStep now w) k k') {j : ℕ} {p : StakingPool K}
    (hp : k.pools[j]? = some p) :
    ∃ p', k'.pools[j]? = some p' ∧ p'.claimPeriod = p.claimPeriod := by
  induction h with
  | refl => exact ⟨p, hp, rfl⟩
  | tail h₁ hs ih =>
    obtain ⟨p₁, hp₁, hc₁⟩ := ih
    obtain ⟨p₂, hp₂, -, hc₂, -⟩ := hs.exists_pool (StakesKept.kept_of_steps hk h₁) hp₁
    exact ⟨p₂, hp₂, hc₂.trans hc₁⟩

/-- Once the pools are configured, an action consists of steps. -/
theorem StakesKept.exec_steps {env : Env} {x : Action K} (hk : StakesKept s)
    (h : x.exec env s = .ok s') {st : StakingPoolState K} (hst : s.pools.state = some st) :
    ∃ st', s'.pools.state = some st' ∧ Relation.ReflTransGen (StakeStep env.now x.withdrawer)
      (s.pools.stakes st) (s'.pools.stakes st') := by
  have hset : s.pools.state = none → ∀ args, x ≠ .cfgsrpool args := fun hn => by
    rw [hst] at hn
    cases hn
  cases Action.exec_moves hk h hset with
  | unset hn =>
    rw [hst] at hn
    cases hn
  | @steps st₀ st' hst₀ hst' hr hsteps =>
    obtain rfl := Option.some.inj (hst₀.symm.trans hst)
    exact ⟨st', hst', hsteps⟩

omit [CMath K] in
/-- The value of a stake along the steps of an action. -/
theorem value_le_of_steps {now : BlockTimestamp} {w : Option Name} {k k' : Stakes K} (hk : k.Kept)
    (h : Relation.ReflTransGen (StakeStep now w) k k') {b : Name} (hb : w ≠ some b) {j : ℕ}
    {p : StakingPool K} (hp : k.pools[j]? = some p) :
    ∃ p', k'.pools[j]? = some p' ∧
      p.tokenPool.value (k.owned b j) ≤ p'.tokenPool.value (k'.owned b j) := by
  induction h with
  | refl => exact ⟨p, hp, le_rfl⟩
  | @tail k₁ k₂ h₁ hs ih =>
    obtain ⟨p₁, hp₁, hle⟩ := ih
    obtain ⟨p₂, hp₂, hle₂⟩ := hs.value_le (StakesKept.kept_of_steps hk h₁) hb hp₁
    exact ⟨p₂, hp₂, hle.trans hle₂⟩

/-- The stake of others does not lose value by an action. -/
theorem StakesKept.redeemable_le {env : Env} {x : Action K} (hk : StakesKept s)
    (h : x.exec env s = .ok s') {a : Name} (ha : x.withdrawer ≠ some a)
    {st : StakingPoolState K} (hst : s.pools.state = some st) {i : ℕ} (hi : i < st.pools.length) :
    ∃ q q', s.redeemable a i = .ok q ∧ s'.redeemable a i = .ok q' ∧ q ≤ q' := by
  have hp := List.getElem?_eq_getElem hi
  obtain ⟨st', hst', hsteps⟩ := hk.exec_steps h hst
  obtain ⟨p', hp', hle⟩ := value_le_of_steps (hk.kept st hst) hsteps ha hp
  exact ⟨_, _, hk.redeemable_eq hst hp a, (hk.exec h).redeemable_eq hst' hp' a, hle⟩

omit [CMath K] in
/-- The state in which `withdraw_pool` is called. -/
theorem StakesKept.distributeNamebidToPools {now : BlockTimestamp} (hk : StakesKept s)
    (h : s.distributeNamebidToPools now = .ok s') : StakesKept s' :=
  hk.of_moves (State.distributeNamebidToPools_changes h).token.supply_le
    (State.distributeNamebidToPools_moves (w := none) h).1

omit [CMath K] in
/-- What is taken out in a state with right books. -/
theorem StakesKept.withdraws (now : BlockTimestamp) {s₁ : State K} {r : Withdrawal} {out : ℤ}
    (hk : StakesKept s₁)
    (hs : (if r.claiming then s.distributeNamebidToPools now else pure s) = .ok s₁)
    {st : StakingPoolState K} (hst : s₁.pools.state = some st) {pools : List (StakingPool K)}
    {v : PoolVoter K}
    (hw : State.withdrawFrom st.pools
      (getOrCreatePoolVoter s₁.pools.voters st.pools.length r.owner) r.i r.requested r.claiming =
        .ok (pools, v, out)) :
    ∃ p balance, Withdraws now s r p balance out ∧ out ≤ r.requested ∧ out ≤ balance ∧
      (r.claiming = true → out ≤ balance * p.claimPeriod / p.duration) := by
  have hkept := hk.kept st hst
  obtain ⟨p, x, hp, h₀, hx, -, -, hout, hle, hclaim⟩ := hkept.withdrawFrom_eq_ok hw
  refine ⟨p, _, .intro hs hst hp (hk.redeemable_eq hst hp r.owner) hw, hle, ?_, hclaim⟩
  rw [hout]
  exact (hkept.book.solvent r.i p hp).value_mono hx

/-- **Nobody takes out more than is asked for and than the stake is worth**, nor more than the part
of a claim period when it is claimed. -/
theorem StakesKept.exec_withdraws {env : Env} {x : Action K} (hk : StakesKept s)
    (h : x.exec env s = .ok s') {r : Withdrawal} (hr : r ∈ x.withdrawal) :
    ∃ p balance out, Withdraws env.now s r p balance out ∧ out ≤ r.requested ∧ out ≤ balance ∧
      (r.claiming = true → out ≤ balance * p.claimPeriod / p.duration) := by
  cases x with
  | claimstake owner i requested =>
    obtain rfl := Option.some.inj hr
    cases State.claimstake_eq_ok h with
    | intro _ hd _ _ hst _ _ hw =>
      obtain ⟨p, balance, hwd⟩ := (hk.distributeNamebidToPools hd).withdraws env.now (s := s)
        (r := ⟨owner, i, requested.amount, true⟩) hd hst hw
      exact ⟨p, balance, _, hwd⟩
  | transferstake sender receiver i requested memo =>
    obtain rfl := Option.some.inj hr
    simp only [Action.exec, State.transferstake, bind_eq_ok, requireAuth_eq_ok, check_eq_ok,
      State.checkCore_eq_ok, State.poolState_eq_ok, require_eq_ok, exists_const] at h
    obtain ⟨-, -, -, -, st, hst, -, -, -, v, hv, -, ⟨pools, voter, out⟩, hw, -⟩ := h
    rw [← getOrCreatePoolVoter_of_find hv st.pools.length] at hw
    obtain ⟨p, balance, hwd⟩ := hk.withdraws env.now (s := s)
      (r := ⟨sender, i, requested.amount, false⟩) rfl hst hw
    exact ⟨p, balance, out, hwd⟩
  | upgradestake owner i j requested =>
    obtain rfl := Option.some.inj hr
    simp only [Action.exec, State.upgradestake, bind_eq_ok, requireAuth_eq_ok, check_eq_ok,
      State.checkCore_eq_ok, State.poolState_eq_ok, require_eq_ok, exists_const] at h
    obtain ⟨-, st, hst, -, -, -, -, -, v, hv, ⟨pools, voter, out⟩, hw, -⟩ := h
    rw [← getOrCreatePoolVoter_of_find hv st.pools.length] at hw
    obtain ⟨p, balance, hwd⟩ := hk.withdraws env.now (s := s)
      (r := ⟨owner, i, requested.amount, false⟩) rfl hst hw
    exact ⟨p, balance, out, hwd⟩
  | _ => cases hr

/-- Two pools and a proxy, a voter who stakes, and the proxy gets a part of its stake. -/
def stakesExampleRun : List (BlockTimestamp × Action ℚ) :=
  [(.ofSlot 1, .cfgsrpool ⟨some [1024, 2048], some [64, 64], some [1, 2], some 0, some 0,
      none, none, none, none, none⟩),
   (.ofSlot 2, .regpoolproxy ⟨2⟩ true),
   (.ofSlot 3, .stake2pool ⟨1⟩ 0 (exampleAsset 50000)),
   (.ofSlot 4, .transferstake ⟨1⟩ ⟨2⟩ 0 (exampleAsset 400) ""),
   (.ofSlot 5, .votewithpool ⟨1⟩ ⟨2⟩ [])]

end EosioSystem
