import EosioSystem.Frame
import EosioSystem.StakingPool.Stakes

/-!
# The books of the staking pools along a run

The tokens of `eosio.srpool` are those of the pools, the tokens of `eosio.bpspay` are the pay of
the producers that is still to be claimed, and the shares of each pool are those of the voters.

## Main definitions

* `PoolSolvency`: the books are right
* `Action.isPoolOrFee`: the actions of the staking pools and those that pay fees

## Main results

* `poolSolvency_of_run`: **the books are right in every reachable state**, and no check on a pool
  fails, when the two accounts do not act themselves
* `poolSolvency_of_run_counterexample`: when they do, the books can be wrong
-/

namespace EosioSystem

open Checked

variable {K : Type} [Field K]

/-! ## The books -/

variable [LinearOrder K]

/-- The tokens of `eosio.srpool` are those of the pools, those of `eosio.bpspay` are the pay of
the producers, and the shares of each pool are those of the voters. -/
structure PoolSolvency (s : State K) : Prop where
  srpool : s.token.balance srpoolAccount = s.pools.state.elim 0 fun st => balances st.pools
  bpspay : s.token.balance bpspayAccount = s.pools.totals.sum fun _ t => t.votePay
  supply : 0 ≤ s.token.supply
  voters : s.pools.state = none → s.pools.voters = .empty
  book : ∀ st, s.pools.state = some st → Book s.pools.voters st.pools
  rate : ∀ st, s.pools.state = some st → 0 ≤ st.voterRate

/-- The accounts that hold the tokens of the pools and the pay of the producers. -/
def poolAccounts : List Name := [srpoolAccount, bpspayAccount]

/-- What a transfer does to the two accounts. -/
theorem transfer_pools {t t' : Token} {a b : Name} {q : ℤ} (h : t.transfer a b q = .ok t')
    (ha : a ≠ bpspayAccount) (hb : b ≠ bpspayAccount) :
    t'.balance bpspayAccount = t.balance bpspayAccount ∧ t'.supply = t.supply ∧
      t'.balance srpoolAccount = t.balance srpoolAccount +
        (if a = srpoolAccount then -q else 0) + if b = srpoolAccount then q else 0 := by
  refine ⟨?_, Token.supply_transfer h, ?_⟩
  · rw [Token.balance_transfer h, if_neg ha.symm, if_neg hb.symm]
    ring
  · rw [Token.balance_transfer h]
    simp only [eq_comm]

namespace PoolSolvency

variable {s s' : State K}

/-- What the books depend on. -/
theorem congr (h : PoolSolvency s)
    (hsr : s'.token.balance srpoolAccount = s.token.balance srpoolAccount)
    (hbp : s'.token.balance bpspayAccount = s.token.balance bpspayAccount)
    (hsup : s'.token.supply = s.token.supply)
    (hst : s'.pools.state.map (fun st => (st.pools, st.voterRate)) =
      s.pools.state.map fun st => (st.pools, st.voterRate))
    (hv : s'.pools.voters = s.pools.voters)
    (ht : (s'.pools.totals.sum fun _ t => t.votePay) = s.pools.totals.sum fun _ t => t.votePay) :
    PoolSolvency s' := by
  have hsr' := h.srpool
  cases hs : s.pools.state with
  | none =>
    have hs' : s'.pools.state = none := by simpa [hs] using hst
    simp only [hs, Option.elim_none] at hsr'
    exact ⟨by rw [hsr, hsr', hs']; rfl, by rw [hbp, h.bpspay, ht], by rw [hsup]; exact h.supply,
      fun _ => hv.trans (h.voters hs), by simp [hs'], by simp [hs']⟩
  | some st =>
    obtain ⟨st', hs', hp⟩ : ∃ st', s'.pools.state = some st' ∧
        (st'.pools, st'.voterRate) = (st.pools, st.voterRate) := by
      simpa [hs] using hst
    obtain ⟨hpools, hrate⟩ := Prod.mk.inj hp
    simp only [hs, Option.elim_some] at hsr'
    refine ⟨by rw [hsr, hsr', hs', Option.elim_some, hpools], by rw [hbp, h.bpspay, ht],
      by rw [hsup]; exact h.supply, by simp [hs'], fun st₁ h₁ => ?_, fun st₁ h₁ => ?_⟩
    · obtain rfl : st' = st₁ := Option.some.inj (hs'.symm.trans h₁)
      rw [hpools, hv]
      exact h.book st hs
    · obtain rfl : st' = st₁ := Option.some.inj (hs'.symm.trans h₁)
      rw [hrate]
      exact h.rate st hs

/-- The pools change with the tokens of `eosio.srpool`. -/
theorem setPools (h : PoolSolvency s) (token : Token) {st : StakingPoolState K}
    (hst : s.pools.state = some st) {pools : List (StakingPool K)}
    {voters : Table Name (PoolVoter K)} (hb : Book voters pools)
    (hsr : token.balance srpoolAccount =
      s.token.balance srpoolAccount + (balances pools - balances st.pools))
    (hbp : token.balance bpspayAccount = s.token.balance bpspayAccount)
    (hsup : token.supply = s.token.supply) :
    PoolSolvency (({ s with token } : State K).setPools { st with pools } voters) := by
  have hsr' := h.srpool
  rw [hst, Option.elim_some] at hsr'
  refine ⟨?_, hbp.trans h.bpspay, hsup ▸ h.supply, fun hn => ?_, fun st' hst' => ?_,
    fun st' hst' => ?_⟩
  · change token.balance srpoolAccount = balances pools
    rw [hsr, hsr']
    ring
  · cases hn
  · cases hst'
    exact hb
  · cases hst'
    exact h.rate st hst

/-- Votes change nothing in the books. -/
theorem setVotes (h : PoolSolvency s) {st : StakingPoolState K} (hst : s.pools.state = some st)
    {pv : PoolVotes K} (hs : SameStake st.pools.length s.pools.voters pv.voters) :
    PoolSolvency { s.setPools { st with totalVotes := pv.totalVotes } pv.voters with
      vote := { s.vote with producers := pv.producers } } := by
  have := h.setPools s.token hst ((h.book st hst).sameStake hs) (by simp) rfl rfl
  exact this.congr rfl rfl rfl rfl rfl rfl

theorem updatePoolVotes (h : PoolSolvency s) (a proxy : Name) (producers : List Name)
    (voting : Bool) :
    Yields solvencyBugs PoolSolvency (s.updatePoolVotes a proxy producers voting) :=
  (s.poolState_avoids (by decide)).bind_yields fun _ hst =>
    .bind (PoolVotes.updatePoolVotes_stake a proxy producers voting) fun _ hpv =>
    .pure (h.setVotes (require_eq_ok.mp hst) hpv)

theorem recastVotes (h : PoolSolvency s) (a : Name) :
    Yields solvencyBugs PoolSolvency (s.recastVotes a) :=
  Avoids.bind_yields (.require (by decide)) fun _ _ => h.updatePoolVotes _ _ _ _

/-! ### Fees -/

/-- A fee reaches the pools with its tokens. -/
theorem transitionChannelToPools (h : PoolSolvency s) {now : BlockTimestamp} {sender : Name}
    {amount rest : ℤ} {part : Bool} (hs : sender ≠ bpspayAccount)
    (hc : s.transitionChannelToPools now sender amount part = .ok (s', rest)) :
    PoolSolvency s' := by
  rcases State.transitionChannelToPools_cases hc with ⟨rfl, -⟩ |
    ⟨st, token, hst, hn, ht, rfl, -⟩
  · exact h
  · obtain ⟨hne, hpos, -, -⟩ := Token.transfer_eq_ok ht
    obtain ⟨hbp, hsup, hsr⟩ := transfer_pools ht hs (by decide)
    rw [if_neg hne, if_pos rfl, add_zero] at hsr
    have hc := distribute_credited hpos.le (activePools st.pools) 0 st.pools
    simp only [Nat.cast_zero, mul_zero, Int.zero_tdiv] at hc
    refine h.setPools token hst ((h.book st hst).credit hc) ?_ hbp hsup
    rw [hsr, balances_distribute _ hn]
    ring

theorem distributeNamebidToPools (h : PoolSolvency s) {now : BlockTimestamp}
    (hd : s.distributeNamebidToPools now = .ok s') :
    PoolSolvency s' ∧ s'.pools.voters = s.pools.voters ∧
      s'.pools.state.map (fun st => st.pools.length) =
        s.pools.state.map fun st => st.pools.length := by
  unfold State.distributeNamebidToPools at hd
  split at hd
  · cases hd
    exact ⟨h, rfl, rfl⟩
  · rename_i st hst
    split_ifs at hd
    · obtain ⟨⟨s₁, rest⟩, hc, hd⟩ := bind_eq_ok.mp hd
      obtain rfl := pure_eq_ok.mp hd
      have h₁ := h.transitionChannelToPools (by decide) hc
      refine ⟨h₁.congr rfl rfl rfl (by simp [Function.comp_def]) rfl rfl, ?_⟩
      rcases State.transitionChannelToPools_cases hc with ⟨rfl, -⟩ | ⟨st', token, hst', -, -, rfl,
        -⟩
      · simp [hst]
      · simp [hst']
    · cases hd
      exact ⟨h, rfl, rfl⟩

theorem distributeNamebidToPools_avoids (s : State K) (now : BlockTimestamp) :
    Avoids solvencyBugs (s.distributeNamebidToPools now) := by
  unfold State.distributeNamebidToPools
  split
  · exact .pure _
  · rename_i st hst
    refine .ite (.bind ?_ fun _ _ => .pure _) (.pure _)
    unfold State.transitionChannelToPools
    rw [hst]
    exact .ite (.pure _) (.bind (Token.transfer_avoids (by decide) _ _ _ _) fun _ _ => .pure _)

/-! ### Stake -/

section Stake

variable [FloorRing K] [IsStrictOrderedRing K]

theorem stake2pool (h : PoolSolvency s) (now : BlockTimestamp) {owner : Name} (i : ℕ)
    (amount : Asset) (ho : owner ≠ bpspayAccount) :
    Yields solvencyBugs PoolSolvency (s.stake2pool now owner i amount) := by
  refine (requireAuth_avoids (by decide) _).bind_yields fun _ _ =>
    (s.poolState_avoids (by decide)).bind_yields fun st hst =>
    Avoids.bind_yields (.check (.inl (by decide))) fun _ _ =>
    (s.checkCore_avoids (by decide) _).bind_yields fun _ _ =>
    Avoids.bind_yields (.check (.inl (by decide))) fun _ ha => ?_
  have hst' := State.poolState_eq_ok.mp hst
  refine .bind ((h.book st hst').deposit2pool owner (check_eq_ok.mp ha) now i) ?_
  rintro ⟨pools, voter⟩ ⟨hb, hbal, hlen⟩
  refine (Token.transfer_avoids (by decide) _ _ _ _).bind_yields fun token ht => ?_
  obtain ⟨hne, -, -, -⟩ := Token.transfer_eq_ok ht
  obtain ⟨hbp, hsup, hsr⟩ := transfer_pools ht ho (by decide)
  rw [if_neg hne, if_pos rfl, add_zero] at hsr
  exact (h.setPools token hst' hb (by rw [hsr, hbal]; ring) hbp hsup).recastVotes owner

theorem claimstake (h : PoolSolvency s) (now : BlockTimestamp) {owner : Name} (i : ℕ)
    (requested : Asset) (ho : owner ≠ bpspayAccount) :
    Yields solvencyBugs PoolSolvency (s.claimstake now owner i requested) := by
  refine (requireAuth_avoids (by decide) _).bind_yields fun _ _ =>
    (s.poolState_avoids (by decide)).bind_yields fun st₀ hst₀ =>
    Avoids.bind_yields (.check (.inl (by decide))) fun _ _ =>
    (s.checkCore_avoids (by decide) _).bind_yields fun _ _ =>
    Avoids.bind_yields (.check (.inl (by decide))) fun _ _ =>
    (State.checkPoolRequirements_avoids (by decide) _ _).bind_yields fun _ _ =>
    (distributeNamebidToPools_avoids s now).bind_yields fun s₁ hd =>
    (s₁.poolState_avoids (by decide)).bind_yields fun st hst =>
    Avoids.bind_yields (.require (by decide)) fun pool _ =>
    Avoids.bind_yields (.check (.inl (by decide))) fun _ _ => ?_
  obtain ⟨h₁, hv, hmap⟩ := h.distributeNamebidToPools hd
  have hst' := State.poolState_eq_ok.mp hst
  have hlen₀ : st.pools.length = st₀.pools.length := by
    simpa [hst', State.poolState_eq_ok.mp hst₀] using hmap
  rw [← hv, ← hlen₀]
  refine .bind ((h₁.book st hst').withdrawFrom owner i requested.amount true) ?_
  rintro ⟨pools, voter, claimed⟩ ⟨hb, hbal, hpos, hlen⟩
  refine (hb.checkPool_avoids i).bind_yields fun _ _ =>
    Avoids.bind_yields (.ite (Token.transfer_avoids (by decide) _ _ _ _) (.pure _))
    fun token ht => ?_
  dsimp only at hb hbal hpos hlen ht
  have htoken : token.balance bpspayAccount = s₁.token.balance bpspayAccount ∧
      token.supply = s₁.token.supply ∧
      token.balance srpoolAccount = s₁.token.balance srpoolAccount - claimed := by
    split_ifs at ht with hc
    · obtain ⟨hne, -, -, -⟩ := Token.transfer_eq_ok ht
      obtain ⟨hbp, hsup, hsr⟩ := transfer_pools ht (by decide) ho
      rw [if_pos rfl, if_neg hne.symm, add_zero] at hsr
      exact ⟨hbp, hsup, by rw [hsr]; ring⟩
    · obtain rfl := pure_eq_ok.mp ht
      rw [not_not.mp hc]
      exact ⟨rfl, rfl, by ring⟩
  have hb' : Book (s₁.pools.voters.set owner { voter with
      nextClaim := voter.nextClaim.set i ((now.slot + pool.claimPeriod * 2) % 2 ^ 32) }) pools := by
    rw [← Table.set_set _ owner voter]
    refine hb.owned_congr fun a => ?_
    rw [getOrCreatePoolVoter_set, getOrCreatePoolVoter_set]
    split_ifs <;> rfl
  exact (h₁.setPools token hst' hb' (by rw [htoken.2.2, hbal]; ring) htoken.1
    htoken.2.1).recastVotes _

theorem transferstake (h : PoolSolvency s) (env : Env) (sender receiver : Name) (i : ℕ)
    (requested : Asset) (memo : String) :
    Yields solvencyBugs PoolSolvency (s.transferstake env sender receiver i requested memo) := by
  refine (requireAuth_avoids (by decide) _).bind_yields fun _ _ =>
    Avoids.bind_yields (.check (.inl (by decide))) fun _ _ =>
    Avoids.bind_yields (.check (.inl (by decide))) fun _ hne =>
    Avoids.bind_yields (.check (.inl (by decide))) fun _ _ =>
    (s.poolState_avoids (by decide)).bind_yields fun st hst =>
    Avoids.bind_yields (.check (.inl (by decide))) fun _ _ =>
    (s.checkCore_avoids (by decide) _).bind_yields fun _ _ =>
    Avoids.bind_yields (.check (.inl (by decide))) fun _ _ =>
    Avoids.bind_yields (.require (by decide)) fun fromVoter hf =>
    Avoids.bind_yields (.check (.inl (by decide))) fun _ _ => ?_
  have hne' : receiver ≠ sender := fun he => check_eq_ok.mp hne he.symm
  have hst' := State.poolState_eq_ok.mp hst
  have hfrom : getOrCreatePoolVoter s.pools.voters st.pools.length sender = fromVoter := by
    simp [getOrCreatePoolVoter, require_eq_ok.mp hf]
  rw [← hfrom]
  refine .bind ((h.book st hst').withdrawFrom sender i requested.amount false) ?_
  rintro ⟨pools₁, fromVoter', sold⟩ ⟨hb₁, hbal₁, hpos, hlen₁⟩
  refine Avoids.bind_yields (.check (.inl (by decide))) fun _ hsold => ?_
  have hto : getOrCreatePoolVoter (s.pools.voters.set sender fromVoter') pools₁.length receiver =
      getOrCreatePoolVoter s.pools.voters st.pools.length receiver := by
    simp [getOrCreatePoolVoter, Table.find_set_ne _ _ hne', hlen₁]
  rw [← hto]
  refine .bind (hb₁.deposit2pool receiver (check_eq_ok.mp hsold) env.now i) ?_
  rintro ⟨pools₂, toVoter⟩ ⟨hb₂, hbal₂, hlen₂⟩
  refine (hb₂.checkPool_avoids i).bind_yields fun _ _ => ?_
  have h₂ := h.setPools s.token hst' hb₂ (by rw [hbal₂, hbal₁]; ring) rfl rfl
  exact .bind (h₂.recastVotes sender) fun s₁ h₁ => h₁.recastVotes receiver

theorem upgradestake (h : PoolSolvency s) (now : BlockTimestamp) (owner : Name) (i j : ℕ)
    (requested : Asset) :
    Yields solvencyBugs PoolSolvency (s.upgradestake now owner i j requested) := by
  refine (requireAuth_avoids (by decide) _).bind_yields fun _ _ =>
    (s.poolState_avoids (by decide)).bind_yields fun st hst =>
    Avoids.bind_yields (.check (.inl (by decide))) fun _ _ =>
    Avoids.bind_yields (.check (.inl (by decide))) fun _ _ =>
    Avoids.bind_yields (.check (.inl (by decide))) fun _ _ =>
    (s.checkCore_avoids (by decide) _).bind_yields fun _ _ =>
    Avoids.bind_yields (.check (.inl (by decide))) fun _ _ =>
    Avoids.bind_yields (.require (by decide)) fun voter hf => ?_
  have hst' := State.poolState_eq_ok.mp hst
  have hvoter : getOrCreatePoolVoter s.pools.voters st.pools.length owner = voter := by
    simp [getOrCreatePoolVoter, require_eq_ok.mp hf]
  rw [← hvoter]
  refine .bind ((h.book st hst').withdrawFrom owner i requested.amount false) ?_
  rintro ⟨pools₁, voter₁, sold⟩ ⟨hb₁, hbal₁, hpos, hlen₁⟩
  refine Avoids.bind_yields (.check (.inl (by decide))) fun _ hsold => ?_
  have hto : getOrCreatePoolVoter (s.pools.voters.set owner voter₁) pools₁.length owner =
      voter₁ := by
    simp [getOrCreatePoolVoter]
  dsimp only at hb₁ hbal₁ hlen₁
  have hdep := hb₁.deposit2pool owner (check_eq_ok.mp hsold) now j
  rw [hto] at hdep
  refine .bind hdep ?_
  rintro ⟨pools₂, voter₂⟩ ⟨hb₂, hbal₂, hlen₂⟩
  refine (hb₂.checkPool_avoids i).bind_yields fun _ _ => ?_
  rw [Table.set_set] at hb₂
  have h₂ := h.setPools s.token hst' hb₂ (by rw [hbal₂, hbal₁]; ring) rfl rfl
  exact h₂.recastVotes owner

end Stake

/-! ### Votes and producers -/

theorem setpoolnotif (h : PoolSolvency s) {owner : Name} {xferOut xferIn : Option Bool}
    (hs : s.setpoolnotif owner xferOut xferIn = .ok s') : PoolSolvency s' := by
  simp only [State.setpoolnotif, bind_eq_ok, requireAuth_eq_ok, State.poolState_eq_ok,
    exists_const, pure_eq_ok] at hs
  obtain ⟨-, st, hst, rfl⟩ := hs
  exact h.setPools s.token hst ((h.book st hst).sameStake (.set (by rfl))) (by simp) rfl rfl

theorem votewithpool (h : PoolSolvency s) {voter proxy : Name} {producers : List Name}
    (hs : s.votewithpool voter proxy producers = .ok s') : PoolSolvency s' := by
  simp only [State.votewithpool, bind_eq_ok, requireAuth_eq_ok, exists_const] at hs
  obtain ⟨-, _, -, _, -, hs⟩ := hs
  exact (h.updatePoolVotes voter proxy producers true).of_ok s' hs

theorem regpoolproxy (h : PoolSolvency s) {proxy : Name} {isproxy : Bool}
    (hs : s.regpoolproxy proxy isproxy = .ok s') : PoolSolvency s' := by
  simp only [State.regpoolproxy, bind_eq_ok, requireAuth_eq_ok, State.poolState_eq_ok,
    check_eq_ok, exists_const, pure_eq_ok] at hs
  obtain ⟨-, st, hst, -, pv, hpv, rfl⟩ := hs
  have h₁ : SameStake st.pools.length s.pools.voters (s.pools.voters.set proxy
      { getOrCreatePoolVoter s.pools.voters st.pools.length proxy with isProxy := isproxy }) :=
    .set (by rfl)
  exact h.setVotes hst (h₁.trans ((PoolVotes.updatePoolProxy_stake _ proxy).of_ok pv hpv))

omit [Field K] [LinearOrder K] in
/-- What a change of the totals table does to the pay that is still to be claimed. -/
theorem votePay_set (totals : Table Name (TotalPoolVotes K)) {p : Name} {t t' : TotalPoolVotes K}
    (hf : totals.find p = some t) :
    ((totals.set p t').sum fun _ t => t.votePay) =
      (totals.sum fun _ t => t.votePay) + (t'.votePay - t.votePay) := by
  rw [Table.sum_set hf]
  ring

omit [LinearOrder K] in
theorem enableProdPoolVotes_votePay {producer : Name} {poolVotes : Option (List K)}
    {r : Option (List K) × Table Name (TotalPoolVotes K)}
    (h : s.enableProdPoolVotes producer poolVotes = .ok r) :
    (r.2.sum fun _ t => t.votePay) = s.pools.totals.sum fun _ t => t.votePay := by
  unfold State.enableProdPoolVotes at h
  split at h
  · cases h
    rfl
  · simp only [bind_eq_ok, require_eq_ok, pure_eq_ok] at h
    obtain ⟨t, hf, rfl⟩ := h
    rw [votePay_set _ hf, sub_self, add_zero]
  · simp only [check_bind_eq_ok, pure_eq_ok] at h
    obtain ⟨hf, rfl⟩ := h
    rw [Table.sum_set_new hf, add_zero]

theorem regproducer (h : PoolSolvency s) {now : BlockTimestamp} {producer : Name} {url : String}
    (hs : s.regproducer now producer url = .ok s') : PoolSolvency s' := by
  simp only [State.regproducer, bind_eq_ok, check_eq_ok, requireAuth_eq_ok, exists_const] at hs
  obtain ⟨-, -, hs⟩ := hs
  unfold State.registerProducer at hs
  split at hs
  · obtain ⟨⟨poolVotes, totals⟩, he, hs⟩ := bind_eq_ok.mp hs
    obtain rfl := pure_eq_ok.mp hs
    exact h.congr rfl rfl rfl rfl rfl (enableProdPoolVotes_votePay he)
  · simp only [bind_eq_ok, check_eq_ok, exists_const, pure_eq_ok] at hs
    obtain ⟨⟨poolVotes, totals⟩, he, -, rfl⟩ := hs
    exact h.congr rfl rfl rfl rfl rfl (enableProdPoolVotes_votePay he)

theorem deactivateProducer (h : PoolSolvency s) {producer : Name}
    (hs : s.deactivateProducer producer = .ok s') : PoolSolvency s' := by
  simp only [State.deactivateProducer, bind_eq_ok, require_eq_ok, pure_eq_ok] at hs
  obtain ⟨prod, -, rfl⟩ := hs
  refine h.congr rfl rfl rfl rfl rfl ?_
  dsimp only
  split
  · rename_i t hf
    rw [votePay_set _ hf, sub_self, add_zero]
  · rfl

theorem updatevotes (h : PoolSolvency s) {user producer : Name}
    (hs : s.updatevotes user producer = .ok s') : PoolSolvency s' := by
  simp only [State.updatevotes, bind_eq_ok, requireAuth_eq_ok, check_eq_ok, require_eq_ok,
    exists_const, pure_eq_ok] at hs
  obtain ⟨-, prod, -, -, _, -, t, hf, st, -, votes, -, rfl⟩ := hs
  exact h.congr rfl rfl rfl rfl rfl (by rw [votePay_set _ hf, sub_self, add_zero])

/-! ### Configuration -/

theorem cfgsrpool (h : PoolSolvency s) {now : BlockTimestamp} {args : PoolConfig K}
    (hs : s.cfgsrpool now args = .ok s') : PoolSolvency s' := by
  unfold State.cfgsrpool at hs
  obtain ⟨core, -, hs⟩ := bind_eq_ok.mp hs
  split at hs
  · rename_i hst
    simp only [bind_eq_ok, pure_eq_ok] at hs
    obtain ⟨st, hc, st', hcfg, rfl⟩ := hs
    obtain ⟨hr, hzero⟩ := create_eq_ok hc
    obtain ⟨hpools, hrate⟩ := configure_eq_ok hr.ge hcfg
    rw [← hpools] at hzero
    have hsr := h.srpool
    rw [hst, Option.elim_none] at hsr
    have hbal : balances st'.pools = 0 :=
      List.sum_eq_zero fun x hx => by
        obtain ⟨p, hp, rfl⟩ := List.mem_map.mp hx
        rw [hzero p hp]
    have hbook : Book s.pools.voters st'.pools := by
      rw [h.voters hst]
      exact .of_empty hzero
    refine ⟨hsr.trans hbal.symm, h.bpspay, h.supply, by simp, fun st₁ h₁ => ?_, fun st₁ h₁ => ?_⟩
    · cases h₁
      exact hbook
    · cases h₁
      exact hrate
  · rename_i st hst
    simp only [bind_eq_ok, check_eq_ok, exists_const, pure_eq_ok] at hs
    obtain ⟨-, -, -, st', hcfg, rfl⟩ := hs
    obtain ⟨hpools, hrate⟩ := configure_eq_ok (h.rate st hst) hcfg
    have hsr := h.srpool
    rw [hst, Option.elim_some] at hsr
    refine ⟨hsr.trans (by rw [← hpools]; rfl), h.bpspay, h.supply, by simp, fun st₁ h₁ => ?_,
      fun st₁ h₁ => ?_⟩
    · cases h₁
      rw [hpools]
      exact h.book st hst
    · cases h₁
      exact hrate

/-! ### Pay -/

/-- The producers that are paid have votes. -/
theorem mem_topActiveProducers {totals : Table Name (TotalPoolVotes K)} {n : ℕ} {p : Name}
    (h : p ∈ topActiveProducers totals n) : ∃ t, totals.find p = some t ∧ 0 < t.votes := by
  obtain ⟨r, hr, rfl⟩ := List.mem_map.mp h
  have hr' := List.mem_of_mem_take hr
  have hvotes := List.mem_takeWhile_imp hr'
  have hmem := (List.mem_insertionSort _).mp ((List.takeWhile_sublist _).mem hr')
  exact ⟨r.2, Table.mem_rows.mp hmem, (of_decide_eq_true hvotes).1⟩

omit [LinearOrder K] in
theorem refreshVotes_votePay {pools : List (StakingPool K)}
    {producers : Table Name (ProducerInfo K)} {l : List Name}
    {totals totals' : Table Name (TotalPoolVotes K)}
    (h : refreshVotes pools producers l totals = .ok totals') :
    (totals'.sum fun _ t => t.votePay) = totals.sum fun _ t => t.votePay := by
  induction l generalizing totals with
  | nil =>
    cases h
    rfl
  | cons p l ih =>
    simp only [refreshVotes, bind_eq_ok, require_eq_ok] at h
    obtain ⟨t, hf, _, -, _, -, _, -, h⟩ := h
    rw [ih h, votePay_set _ hf, sub_self, add_zero]

/-- What is paid to `eosio.bpspay` is added to the pay of the producers. -/
theorem payProducers_votePay [FloorRing K] [IsStrictOrderedRing K] {target : ℤ}
    {totalVotes maxVotes votesPaid : K} {l : List Name} {paid paid' : ℤ}
    {totals totals' : Table Name (TotalPoolVotes K)} (ht : 0 ≤ target) (hv : 0 ≤ totalVotes)
    (hl : ∀ p ∈ l, ∃ t, totals.find p = some t ∧ 0 < t.votes)
    (h : State.payProducers target totalVotes maxVotes l totals votesPaid paid =
      .ok (totals', paid')) :
    paid ≤ paid' ∧
      (totals'.sum fun _ t => t.votePay) = (totals.sum fun _ t => t.votePay) + (paid' - paid) := by
  induction l generalizing totals votesPaid paid with
  | nil =>
    cases h
    exact ⟨le_rfl, by ring⟩
  | cons p l ih =>
    unfold State.payProducers at h
    split_ifs at h
    · cases h
      exact ⟨le_rfl, by ring⟩
    · obtain ⟨t, hf, h⟩ := bind_eq_ok.mp h
      have hf' := require_eq_ok.mp hf
      obtain ⟨t', hf₁, hpos⟩ := hl p List.mem_cons_self
      obtain rfl : t = t' := Option.some.inj (hf'.symm.trans hf₁)
      have hpay : 0 ≤ truncate (target * t.votes / totalVotes) := by
        have : (0 : K) ≤ target := by exact_mod_cast ht
        have hx : 0 ≤ target * t.votes / totalVotes := by positivity
        rw [truncate, if_pos hx]
        exact Int.floor_nonneg.mpr hx
      obtain ⟨hle, hsum⟩ := ih (fun q hq => by
        obtain ⟨u, hu, hupos⟩ := hl q (List.mem_cons_of_mem _ hq)
        rw [Table.find_set]
        split_ifs with hqp
        · exact ⟨_, rfl, hpos⟩
        · exact ⟨u, hu, hupos⟩) h
      refine ⟨by omega, ?_⟩
      rw [hsum, votePay_set _ hf']
      ring

/-- A transfer that is left out when there is nothing to send. -/
theorem balance_transferIf {t t' : Token} {a b c : Name} {q : ℤ} (hq : 0 ≤ q) (hc : c ≠ a)
    (h : (if 0 < q then t.transfer a b q else pure t) = .ok t') :
    t'.balance c = t.balance c + (if c = b then q else 0) ∧ t'.supply = t.supply := by
  split_ifs at h with hpos
  · rw [Token.balance_transfer h, if_neg hc, add_zero]
    exact ⟨rfl, Token.supply_transfer h⟩
  · obtain rfl := pure_eq_ok.mp h
    obtain rfl : q = 0 := by omega
    simp

/-- New tokens reach the two accounts. -/
theorem issuePay_eq_ok {t t' : Token} {prodPay voterPay : ℤ} (hp : 0 ≤ prodPay)
    (hv : 0 ≤ voterPay) (h : State.issuePay t prodPay voterPay = .ok t') :
    t'.balance bpspayAccount = t.balance bpspayAccount + prodPay ∧
      t'.balance srpoolAccount = t.balance srpoolAccount + voterPay ∧ t.supply ≤ t'.supply := by
  unfold State.issuePay at h
  by_cases hz : prodPay + voterPay ≤ 0
  · obtain rfl := pure_eq_ok.mp (if_pos hz ▸ h)
    exact ⟨by omega, by omega, le_rfl⟩
  · obtain ⟨t₁, h₁, h⟩ := bind_eq_ok.mp (if_neg hz ▸ h)
    obtain ⟨t₂, h₂, h₃⟩ := bind_eq_ok.mp h
    simp only [Token.issue, check_bind_eq_ok, pure_eq_ok] at h₁
    obtain ⟨hpos, rfl⟩ := h₁
    have hissue (c : Name) (hc : c ≠ eosioAccount) :
        ({ t.addBalance eosioAccount (prodPay + voterPay) with
          supply := t.supply + (prodPay + voterPay) } : Token).balance c = t.balance c := by
      rw [show ({ t.addBalance eosioAccount (prodPay + voterPay) with
          supply := t.supply + (prodPay + voterPay) } : Token).balance c =
          (t.addBalance eosioAccount (prodPay + voterPay)).balance c from rfl,
        Token.balance_addBalance, if_neg hc, add_zero]
    have hbp₂ := balance_transferIf (c := bpspayAccount) hp (by decide) h₂
    have hsr₂ := balance_transferIf (c := srpoolAccount) hp (by decide) h₂
    have hbp₃ := balance_transferIf (c := bpspayAccount) hv (by decide) h₃
    have hsr₃ := balance_transferIf (c := srpoolAccount) hv (by decide) h₃
    rw [hissue _ (by decide), if_pos rfl] at hbp₂
    rw [hissue _ (by decide), if_neg (by decide)] at hsr₂
    rw [hbp₂.1, if_neg (by decide)] at hbp₃
    rw [hsr₂.1, if_pos rfl] at hsr₃
    refine ⟨by rw [hbp₃.1]; ring, by rw [hsr₃.1]; ring, ?_⟩
    rw [hbp₃.2, hbp₂.2]
    dsimp only
    omega

variable [FloorRing K] [IsStrictOrderedRing K]

theorem updatepay (h : PoolSolvency s) {user : Name} (hs : s.updatepay user = .ok s') :
    PoolSolvency s' := by
  simp only [State.updatepay, bind_eq_ok, requireAuth_eq_ok, State.poolState_eq_ok,
    check_eq_ok, exists_const, pure_eq_ok] at hs
  obtain ⟨-, st, hst, -, totals₁, htotals, totalVotes, -, ⟨totals₂, prodPay⟩, hpay, token, ht,
    rfl⟩ :=
    hs
  have hperPool := perPoolPay_nonneg h.supply (h.rate st hst)
  obtain ⟨hprod, hsum⟩ : 0 ≤ prodPay ∧
      (totals₂.sum fun _ t => t.votePay) = (s.pools.totals.sum fun _ t => t.votePay) + prodPay := by
    rw [← refreshVotes_votePay htotals]
    split_ifs at hpay with hc
    · obtain ⟨hle, hsum⟩ := payProducers_votePay hc.1.le hc.2.le
        (fun p hp => mem_topActiveProducers hp) hpay
      exact ⟨hle, by rw [hsum, sub_zero]⟩
    · cases hpay
      exact ⟨le_rfl, by ring⟩
  obtain ⟨hbp, hsr, hsup⟩ := issuePay_eq_ok hprod (by
    simp only [State.payPools]
    positivity) ht
  have hsr' := h.srpool
  rw [hst, Option.elim_some] at hsr'
  refine ⟨?_, ?_, h.supply.trans hsup, by simp, fun st' hst' => ?_, fun st' hst' => ?_⟩
  · dsimp only
    rw [hsr, hsr', Option.elim_some, balances_payPools]
  · dsimp only
    rw [hbp, h.bpspay, hsum]
  · cases hst'
    exact (h.book st hst).credit (payPools_credited hperPool _)
  · cases hst'
    exact h.rate st hst

omit [FloorRing K] [IsStrictOrderedRing K] in
theorem claimvotepay (h : PoolSolvency s) {producer : Name} (hp : producer ≠ srpoolAccount)
    (hs : s.claimvotepay producer = .ok s') : PoolSolvency s' := by
  simp only [State.claimvotepay, bind_eq_ok, requireAuth_eq_ok, check_eq_ok, require_eq_ok,
    exists_const, pure_eq_ok] at hs
  obtain ⟨-, t, hf, -, token, ht, rfl⟩ := hs
  obtain ⟨hne, -, -, -⟩ := Token.transfer_eq_ok ht
  refine ⟨?_, ?_, ?_, h.voters, h.book, h.rate⟩
  · dsimp only
    rw [Token.balance_transfer ht, if_neg (by decide), if_neg hp.symm, add_zero, add_zero,
      h.srpool]
  · dsimp only
    rw [Token.balance_transfer ht, if_pos rfl, if_neg hne, votePay_set _ hf, h.bpspay]
    ring
  · dsimp only
    rw [Token.supply_transfer ht]
    exact h.supply

omit [FloorRing K] [IsStrictOrderedRing K] in
theorem onblock (h : PoolSolvency s) (now timestamp : BlockTimestamp) (producer : Name) :
    PoolSolvency (s.onblock now timestamp producer) := by
  obtain ⟨_, _, _, q, r, names, pay, producers, he, -⟩ := s.onblock_eq now timestamp producer
  rw [he]
  exact h.congr rfl rfl rfl (by simp [State.addNamebids, Function.comp_def]) rfl rfl

/-! ### Actions that pay a fee -/

omit [FloorRing K] [IsStrictOrderedRing K]

/-- A transfer between other accounts. -/
theorem transfer (h : PoolSolvency s) {a b : Name} {q : ℤ} {token : Token}
    (ha : a ∉ poolAccounts) (hb : b ∉ poolAccounts) (ht : s.token.transfer a b q = .ok token) :
    PoolSolvency { s with token } := by
  simp only [poolAccounts, List.mem_cons, List.not_mem_nil, or_false, not_or] at ha hb
  obtain ⟨hbp, hsup, hsr⟩ := transfer_pools ht ha.2 hb.2
  rw [if_neg ha.1, if_neg hb.1, add_zero, add_zero] at hsr
  exact h.congr hsr hbp hsup rfl rfl rfl

theorem channelToRexOrPools (h : PoolSolvency s) {now : BlockTimestamp} {sender : Name}
    {amount : ℤ} {req : Bool} (hs : sender ∉ poolAccounts)
    (hc : s.channelToRexOrPools now sender amount req = .ok s') : PoolSolvency s' := by
  have hne : sender ≠ bpspayAccount := by
    rintro rfl
    exact hs (by decide)
  obtain ⟨s₁, rest, h₁, h₂⟩ := State.channelToRexOrPools_cases hc
  have hs₁ := h.transitionChannelToPools hne h₁
  rcases h₂ with rfl | h₂
  · exact hs₁
  · rcases State.channelToRex_cases h₂ with ⟨-, rfl⟩ | ⟨rex, token, -, -, ht, rfl⟩
    · exact hs₁
    · exact (hs₁.transfer hs (by decide) ht).congr rfl rfl rfl rfl rfl rfl

theorem payRamFee (h : PoolSolvency s) {now : BlockTimestamp} {payer : Name} {fee : ℤ}
    (hp : payer ∉ poolAccounts) (hf : s.payRamFee now payer fee = .ok s') : PoolSolvency s' := by
  unfold State.payRamFee at hf
  split_ifs at hf
  · obtain ⟨token, ht, hf⟩ := bind_eq_ok.mp hf
    exact (h.transfer hp (by decide) ht).channelToRexOrPools (by decide) hf
  · exact pure_eq_ok.mp hf ▸ h

theorem buyram (h : PoolSolvency s) {now : BlockTimestamp} {payer receiver : Name} {quant : Asset}
    (hp : payer ∉ poolAccounts) (hs : s.buyram now payer receiver quant = .ok s') :
    PoolSolvency s' := by
  simp only [State.buyram, bind_eq_ok, requireAuth_eq_ok, check_eq_ok, State.checkCore_eq_ok,
    exists_const, pure_eq_ok] at hs
  obtain ⟨-, ram, -, -, -, token, ht, s₁, hf, ⟨ram', _⟩, -, rfl⟩ := hs
  have h₀ : PoolSolvency { s with ram, token } :=
    (h.transfer hp (by decide) ht).congr rfl rfl rfl rfl rfl rfl
  exact (h₀.payRamFee hp hf).congr rfl rfl rfl rfl rfl rfl

theorem buyrambytes (h : PoolSolvency s) {now : BlockTimestamp} {payer receiver : Name}
    {bytes : ℕ} (hp : payer ∉ poolAccounts)
    (hs : s.buyrambytes now payer receiver bytes = .ok s') : PoolSolvency s' := by
  simp only [State.buyrambytes, bind_eq_ok] at hs
  obtain ⟨_, -, _, -, _, -, hs⟩ := hs
  exact h.buyram hp hs

theorem sellram (h : PoolSolvency s) {now : BlockTimestamp} {account : Name} {bytes : ℤ}
    (hp : account ∉ poolAccounts) (hs : s.sellram now account bytes = .ok s') :
    PoolSolvency s' := by
  simp only [State.sellram, bind_eq_ok, requireAuth_eq_ok, check_eq_ok, exists_const] at hs
  obtain ⟨-, ram, -, -, _, -, -, _, -, ⟨ram', tokens⟩, -, token, ht, hf⟩ := hs
  refine PoolSolvency.payRamFee ?_ hp hf
  exact (h.transfer (by decide) hp ht).congr rfl rfl rfl rfl rfl rfl

theorem powerup [FloorRing K] [CMath K] (h : PoolSolvency s) {now : BlockTimestamp}
    {payer receiver : Name} {days : ℕ} {net cpu : ℤ} {maxPayment : Asset}
    (hp : payer ∉ poolAccounts)
    (hs : s.powerup now payer receiver days net cpu maxPayment = .ok s') : PoolSolvency s' := by
  simp only [State.powerup, bind_eq_ok, requireAuth_eq_ok, check_eq_ok, State.checkCore_eq_ok,
    exists_const, pure_eq_ok] at hs
  obtain ⟨-, m, -, -, -, -, -, -, -, ⟨s₁, m₁, _, _⟩, hq, _, -, _, -, -, -, s₂, h₂, s₃, h₃, s₄, h₄,
    rfl⟩ := hs
  obtain ⟨res, powup, rfl⟩ := State.processPowerupQueue_frame hq
  obtain ⟨res₂, rfl⟩ := State.adjustResources_frame h₂
  obtain ⟨res₃, rfl⟩ := State.adjustResources_frame h₃
  refine (PoolSolvency.channelToRexOrPools ?_ hp h₄).congr rfl rfl rfl rfl rfl rfl
  exact h.congr rfl rfl rfl rfl rfl rfl

theorem bidname (h : PoolSolvency s) {env : Env} {bidder newname : Name} {bid : Asset}
    (hp : bidder ∉ poolAccounts) (hs : s.bidname env bidder newname bid = .ok s') :
    PoolSolvency s' := by
  simp only [State.bidname, bind_eq_ok, requireAuth_eq_ok, check_eq_ok, State.checkCore_eq_ok,
    exists_const] at hs
  obtain ⟨-, -, -, -, -, -, -, -, -, token, ht, hs⟩ := hs
  have h₁ := h.transfer hp (by decide) ht
  split at hs
  · obtain rfl := pure_eq_ok.mp hs
    exact h₁.congr rfl rfl rfl rfl rfl rfl
  · simp only [bind_eq_ok, check_eq_ok, exists_const, pure_eq_ok] at hs
    obtain ⟨-, -, -, rfl⟩ := hs
    exact h₁.congr rfl rfl rfl rfl rfl rfl

theorem bidrefund (h : PoolSolvency s) {bidder newname : Name} (hp : bidder ∉ poolAccounts)
    (hs : s.bidrefund bidder newname = .ok s') : PoolSolvency s' := by
  simp only [State.bidrefund, bind_eq_ok, pure_eq_ok] at hs
  obtain ⟨_, -, token, ht, rfl⟩ := hs
  exact (h.transfer (by decide) hp ht).congr rfl rfl rfl rfl rfl rfl

end PoolSolvency

/-! ## Runs -/

/-- There are no staking pools yet, and their two accounts have no tokens. -/
def SolvencyInit (s : State K) : Prop :=
  s.pools.state = none ∧ s.pools.voters = .empty ∧ s.pools.totals = .empty ∧
    s.token.balance srpoolAccount = 0 ∧ s.token.balance bpspayAccount = 0 ∧ 0 ≤ s.token.supply

/-- The actions of the staking pools, those that pay fees for RAM and powerups, name auctions and
blocks. -/
def Action.isPoolOrFee : Action K → Bool
  | cfgsrpool .. | stake2pool .. | setpoolnotif .. | claimstake .. | transferstake ..
  | upgradestake .. | votewithpool .. | regpoolproxy .. | regproducer .. | unregprod ..
  | rmvproducer .. | updatevotes .. | updatepay .. | claimvotepay .. | onblock ..
  | buyram .. | buyrambytes .. | sellram .. | powerup .. | bidname .. | bidrefund .. => true
  | _ => false

/-- The actions that move stake in or out of a pool. -/
def Action.movesStake : Action K → Bool
  | stake2pool .. | claimstake .. | transferstake .. | upgradestake .. => true
  | _ => false

/-- The actions of a run in which the accounts of the pools do not act. -/
def Action.isSolvent (a : Action K) : Bool := a.isPoolOrFee && a.mover.all (· ∉ poolAccounts)

variable [FloorRing K] [CMath K] [IsStrictOrderedRing K]

theorem PoolSolvency.step {t : BlockTimestamp} {s s' : State K} (h : PoolSolvency s)
    (hs : Step (fun _ a => a.isSolvent) t s s') : PoolSolvency s' := by
  obtain ⟨isAccount, a, ha, he⟩ := hs
  obtain ⟨hkind, hmover⟩ := Bool.and_eq_true_iff.mp ha
  have hp {n : Name} (hn : a.mover = some n) : n ∉ poolAccounts := by
    rw [hn] at hmover
    exact of_decide_eq_true hmover
  have hbp {n : Name} (hn : a.mover = some n) : n ≠ bpspayAccount := by
    rintro rfl
    exact hp hn (by decide)
  have hsr {n : Name} (hn : a.mover = some n) : n ≠ srpoolAccount := by
    rintro rfl
    exact hp hn (by decide)
  cases a with
  | cfgsrpool => exact h.cfgsrpool he
  | stake2pool => exact (h.stake2pool _ _ _ (hbp rfl)).of_ok _ he
  | setpoolnotif => exact h.setpoolnotif he
  | claimstake => exact (h.claimstake _ _ _ (hbp rfl)).of_ok _ he
  | transferstake => exact (h.transferstake _ _ _ _ _ _).of_ok _ he
  | upgradestake => exact (h.upgradestake _ _ _ _ _).of_ok _ he
  | votewithpool => exact h.votewithpool he
  | regpoolproxy => exact h.regpoolproxy he
  | regproducer => exact h.regproducer he
  | unregprod =>
    simp only [Action.exec, State.unregprod, bind_eq_ok, requireAuth_eq_ok, exists_const] at he
    exact h.deactivateProducer he.2
  | rmvproducer => exact h.deactivateProducer he
  | updatevotes => exact h.updatevotes he
  | updatepay => exact h.updatepay he
  | claimvotepay => exact h.claimvotepay (hsr rfl) he
  | onblock => exact Except.ok.inj he ▸ h.onblock t _ _
  | buyram => exact h.buyram (hp rfl) he
  | buyrambytes => exact h.buyrambytes (hp rfl) he
  | sellram => exact h.sellram (hp rfl) he
  | powerup => exact h.powerup (hp rfl) he
  | bidname => exact h.bidname (hp rfl) he
  | bidrefund => exact h.bidrefund (hp rfl) he
  | _ => simp [Action.isPoolOrFee] at hkind

/-- A move of stake computes no price with a zero divisor and leaves no pool negative. -/
theorem PoolSolvency.movesStake_avoids {s : State K} (h : PoolSolvency s) (env : Env)
    {a : Action K} (hm : a.movesStake) (ha : a.isSolvent) :
    Avoids solvencyBugs (a.exec env s) := by
  obtain ⟨-, hmover⟩ := Bool.and_eq_true_iff.mp ha
  have hbp {n : Name} (hn : a.mover = some n) : n ≠ bpspayAccount := by
    rintro rfl
    rw [hn] at hmover
    exact absurd hmover (by decide)
  cases a with
  | stake2pool => exact (h.stake2pool _ _ _ (hbp rfl)).avoids
  | claimstake => exact (h.claimstake _ _ _ (hbp rfl)).avoids
  | transferstake => exact (h.transferstake _ _ _ _ _ _).avoids
  | upgradestake => exact (h.upgradestake _ _ _ _ _).avoids
  | _ => simp [Action.movesStake] at hm

omit [FloorRing K] [CMath K] [IsStrictOrderedRing K] in
theorem poolSolvency_of_init {s : State K} (h : SolvencyInit s) : PoolSolvency s := by
  obtain ⟨hst, hv, ht, hsr, hbp, hsup⟩ := h
  refine ⟨?_, ?_, hsup, fun _ => hv, ?_, ?_⟩
  · rw [hsr, hst, Option.elim_none]
  · rw [hbp, ht, Table.sum_empty]
  · simp [hst]
  · simp [hst]

/-- **The books of the staking pools are right in every reachable state** of a run in which
`eosio.srpool` and `eosio.bpspay` do not act: the tokens of `eosio.srpool` are those of the pools,
the tokens of `eosio.bpspay` are the pay that is still to be claimed, the shares of each pool are
those of the voters, and a pool has shares if and only if it has tokens. No price is computed with
a zero divisor, and the checks for negative pools never fail. -/
theorem poolSolvency_of_run {t : BlockTimestamp} {s : State K}
    (h : Run SolvencyInit (Step fun _ a => a.isSolvent) t s) :
    s.token.balance srpoolAccount =
        (s.pools.state.elim 0 fun st => (st.pools.map fun p => p.tokenPool.balance).sum) ∧
      s.token.balance bpspayAccount = (s.pools.totals.sum fun _ t => t.votePay) ∧
      (∀ st, s.pools.state = some st → ∀ (i : ℕ) (p : StakingPool K), st.pools[i]? = some p →
        p.tokenPool.totalShares = (s.pools.voters.sum fun _ v => v.ownedShares.getD i 0) ∧
          (0 < p.tokenPool.totalShares ↔ 0 < p.tokenPool.balance) ∧
          0 ≤ p.tokenPool.totalShares ∧ 0 ≤ p.tokenPool.balance) ∧
      ∀ env (a : Action K), a.movesStake → a.isSolvent →
        ∀ e ∈ solvencyBugs, a.exec env s ≠ .error e := by
  have hp := h.invariant (P := PoolSolvency) (fun _ => poolSolvency_of_init)
    fun _ _ _ => PoolSolvency.step
  refine ⟨hp.srpool, hp.bpspay, fun st hst i p hi => ?_, fun env a hm ha =>
    hp.movesStake_avoids env hm ha⟩
  have hs := (hp.book st hst).solvent i p hi
  exact ⟨(hp.book st hst).shares i p hi, hs.shares_pos, hs.shares_nonneg, hs.balance_nonneg⟩

/-- Two pools and a proxy, a voter who stakes, and a fee for RAM. -/
def solvencyExampleStart : List (BlockTimestamp × Action ℚ) :=
  [(.ofSlot 1, .cfgsrpool ⟨some [1024, 2048], some [64, 64], some [1, 2], some 0, some 0,
      none, none, none, none, none⟩),
   (.ofSlot 2, .regpoolproxy ⟨2⟩ true),
   (.ofSlot 3, .stake2pool ⟨1⟩ 0 (exampleAsset 50000)),
   (.ofSlot 4, .buyram ⟨1⟩ ⟨1⟩ (exampleAsset 1000))]

/-- The voter transfers and claims a part of its stake. -/
def solvencyExampleRun : List (BlockTimestamp × Action ℚ) :=
  solvencyExampleStart ++
  [(.ofSlot 5, .transferstake ⟨1⟩ ⟨2⟩ 0 (exampleAsset 400) ""),
   (.ofSlot 6, .votewithpool ⟨1⟩ ⟨2⟩ []),
   (.ofSlot 200, .claimstake ⟨1⟩ 0 (exampleAsset 1000))]

theorem poolSolvency_of_run_example :
    ∃ s : State ℚ, s.token.balance srpoolAccount =
        (s.pools.state.elim 0 fun st => (st.pools.map fun p => p.tokenPool.balance).sum) ∧
      s.token.balance srpoolAccount = 49005 := by
  have hrun : (execAll (Action.execIn fun _ a => a.isSolvent) (.ofSlot 0) solvencyExampleRun
      exampleChain).isSome := by decide +kernel
  have hinit : SolvencyInit exampleChain := ⟨rfl, rfl, rfl, rfl, rfl, by decide⟩
  obtain ⟨hsr, -⟩ := poolSolvency_of_run (run_get_execIn hinit hrun)
  refine ⟨_, hsr, ?_⟩
  clear hsr
  decide +kernel +revert

/-- `eosio.bpspay` becomes a voter and claims stake. -/
def bpspayRun : List (BlockTimestamp × Action ℚ) :=
  solvencyExampleStart ++
  [(.ofSlot 5, .transferstake ⟨1⟩ bpspayAccount 0 (exampleAsset 20000) ""),
   (.ofSlot 6, .votewithpool bpspayAccount ⟨2⟩ []),
   (.ofSlot 200, .claimstake bpspayAccount 0 (exampleAsset 1000))]

/-- `eosio.srpool` buys RAM. -/
def srpoolRun : List (BlockTimestamp × Action ℚ) :=
  solvencyExampleStart ++ [(.ofSlot 5, .buyram srpoolAccount ⟨1⟩ (exampleAsset 1000))]

/-- When `eosio.bpspay` or `eosio.srpool` act themselves, their tokens are no longer those of the
books. -/
theorem poolSolvency_of_run_counterexample :
    (∃ t, ∃ s : State ℚ, Run SolvencyInit (Step fun _ a => a.isPoolOrFee) t s ∧
      s.token.balance bpspayAccount ≠ s.pools.totals.sum fun _ t => t.votePay) ∧
    ∃ t, ∃ s : State ℚ, Run SolvencyInit (Step fun _ a => a.isPoolOrFee) t s ∧
      s.token.balance srpoolAccount ≠
        s.pools.state.elim 0 fun st => (st.pools.map fun p => p.tokenPool.balance).sum := by
  have hinit : SolvencyInit exampleChain := ⟨rfl, rfl, rfl, rfl, rfl, by decide⟩
  have hbp : (execAll (Action.execIn fun _ a => a.isPoolOrFee) (.ofSlot 0) bpspayRun
      exampleChain).isSome := by decide +kernel
  have hsr : (execAll (Action.execIn fun _ a => a.isPoolOrFee) (.ofSlot 0) srpoolRun
      exampleChain).isSome := by decide +kernel
  refine ⟨⟨_, _, run_get_execIn hinit hbp, ?_⟩, ⟨_, _, run_get_execIn hinit hsr, ?_⟩⟩
  · clear hsr
    decide +kernel +revert
  · clear hbp
    decide +kernel +revert

end EosioSystem
