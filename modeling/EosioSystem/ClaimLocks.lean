import EosioSystem.PoolStakes

/-!
# Locks on claims

A stake in a pool can be claimed in part from a slot on that a deposit moves forward, by an average
with the slot of new stake, and a claim moves to the end of the longest lock.

## Main definitions

* `State.nextClaim`: the slot from which an account can claim from a pool
* `ClaimPaid`: what a claim pays
* `Deposits`: the parts of an amount, deposited one after another

## Main results

* `claimLock_of_run`: **locks move forward only**, and two claims are the longest lock apart
* `claimSlot_of_deposits`: **parts of a deposit** lose at most one slot of the lock each, but the
  first; `claimSlot_of_deposits_counterexample`: they can lose one
-/

namespace EosioSystem

open Checked

variable {K : Type} [Field K] [LinearOrder K] [FloorRing K]

/-- The slot from which an account can claim from a pool. -/
def State.nextClaim (s : State K) (a : Name) (i : ℕ) : ℕ :=
  s.pools.state.elim 0 fun st => (s.pools.stakes st).nextClaim a i

omit [LinearOrder K] [FloorRing K] in
theorem State.nextClaim_eq {s : State K} {st : StakingPoolState K} (hst : s.pools.state = some st)
    (a : Name) (i : ℕ) : s.nextClaim a i = (s.pools.stakes st).nextClaim a i := by
  rw [nextClaim, hst, Option.elim_some]

/-- What a claim pays: `out` tokens of a stake worth `balance` in the pool `p`, after the proceeds
of the name auctions have reached the pools. -/
inductive ClaimPaid (now : BlockTimestamp) (s s' : State K) (a : Name) (i : ℕ) (requested : ℤ)
    (p : StakingPool K) (balance out : ℤ) : Prop
  | intro {s₁ : State K} {st : StakingPoolState K} {pools : List (StakingPool K)}
      {v : PoolVoter K} (hs : s.distributeNamebidToPools now = .ok s₁)
      (hst : s₁.pools.state = some st) (hp : st.pools[i]? = some p)
      (hb : s₁.redeemable a i = .ok balance)
      (hw : State.withdrawFrom st.pools (getOrCreatePoolVoter s₁.pools.voters st.pools.length a) i
        requested true = .ok (pools, v, out))
      (ht : s'.token.balance a = s₁.token.balance a + out)

variable [IsStrictOrderedRing K]

/-! ## One claim -/

section

variable {now : BlockTimestamp} {s s' : State K} {a : Name} {i : ℕ} {requested : Asset}

/-- What a claim does to the lock. -/
theorem StakesKept.claimstake_lock (hk : StakesKept s)
    (h : s.claimstake now a i requested = .ok s') :
    s.nextClaim a i ≤ now.slot ∧ ∃ st p, s.pools.state = some st ∧ st.pools[i]? = some p ∧
      s'.nextClaim a i = (now.slot + p.claimPeriod * 2) % 2 ^ 32 := by
  cases State.claimstake_eq_ok h with
  | @intro s₁ st₀ st p pools v out totalVotes hst₀ hd hv hlen hst hp hnext hw ht hst' hs' =>
    have hkept := (hk.distributeNamebidToPools hd).kept st hst
    have hstakes : (s₁.pools.stakes st).nextClaim a i = s.nextClaim a i := by
      rw [State.nextClaim_eq hst₀, Stakes.nextClaim, Stakes.nextClaim, Stakes.voter, Stakes.voter,
        PoolTables.stakes, PoolTables.stakes, hv, hlen]
    obtain ⟨p₀, hp₀, hperiod⟩ : ∃ p₀, st₀.pools[i]? = some p₀ ∧ p.claimPeriod = p₀.claimPeriod := by
      cases (State.distributeNamebidToPools_moves (w := none) hd).1 with
      | unset hn =>
        rw [hst₀] at hn
        cases hn
      | @steps st₁ st₂ h₁ h₂ _ hsteps =>
        obtain rfl := Option.some.inj (h₁.symm.trans hst₀)
        obtain rfl := Option.some.inj (h₂.symm.trans hst)
        obtain ⟨p₀, hp₀, hc, -⟩ := pool_of_steps (hk.kept st₁ h₁) hsteps hp
        exact ⟨p₀, hp₀, hc⟩
    obtain ⟨p₁, x, hp₁, -, -, rfl, rfl, -⟩ := hkept.withdrawFrom_eq_ok hw
    refine ⟨hstakes ▸ hnext, st₀, p₀, hst₀, hp₀, ?_⟩
    have hi : i < ((s₁.pools.stakes st).voter a).nextClaim.length := by
      rw [hkept.claims a]
      exact (List.getElem?_eq_some_iff.mp hp).1
    have hclaims := hs'.claims a
    rw [getOrCreatePoolVoter_set, if_pos rfl] at hclaims
    rw [State.nextClaim_eq hst', Stakes.nextClaim, ← hperiod]
    refine (congrArg (fun l : List ℕ => l.getD i 0) hclaims).trans ?_
    simp [State.setShares, hi]

theorem StakesKept.claimstake_paid (hk : StakesKept s)
    (h : s.claimstake now a i requested = .ok s') :
    ∃ p balance out, ClaimPaid now s s' a i requested.amount p balance out ∧
      out ≤ min requested.amount (balance * p.claimPeriod / p.duration) := by
  cases State.claimstake_eq_ok h with
  | @intro s₁ st₀ st p pools v out totalVotes hst₀ hd hv hlen hst hp hnext hw ht hst' hs' =>
    have hk₁ := hk.distributeNamebidToPools hd
    obtain ⟨p₁, x, hp₁, -, -, -, -, -, hle, hclaim⟩ := (hk₁.kept st hst).withdrawFrom_eq_ok hw
    refine ⟨p₁, _, out, .intro hd hst hp₁ (hk₁.redeemable_eq hst hp₁ a) hw ?_,
      le_min hle (hclaim rfl)⟩
    split_ifs at ht with hz
    · obtain ⟨hne, -⟩ := Token.transfer_eq_ok ht
      rw [Token.balance_transfer ht, if_neg hne.symm, if_pos rfl, add_zero]
    · rw [← pure_eq_ok.mp ht, not_not.mp hz, add_zero]

/-! ## Locks along a run -/

/-- Claim slots along the steps of an action. -/
theorem nextClaim_of_steps {w : Option Name} {k k' : Stakes K} (hk : k.Kept)
    (h : Relation.ReflTransGen (StakeStep now w) k k') {j : ℕ} {p : StakingPool K}
    (hp : k.pools[j]? = some p) (hfit : now.slot + p.claimPeriod * 2 < 2 ^ 32)
    (hn : ∀ b, k.nextClaim b j ≤ now.slot + p.claimPeriod * 2) (b : Name) :
    k.nextClaim b j ≤ k'.nextClaim b j ∧ k'.nextClaim b j ≤ now.slot + p.claimPeriod * 2 := by
  induction h with
  | refl => exact ⟨le_rfl, hn b⟩
  | @tail k₁ k₂ h₁ hs ih =>
    obtain ⟨p₁, hp₁, hc₁⟩ := exists_pool_of_steps hk h₁ hp
    rw [← hc₁] at hfit ih ⊢
    obtain ⟨hle, hlast⟩ := hs.nextClaim_mem (StakesKept.kept_of_steps hk h₁) hp₁ hfit ih.2
    exact ⟨ih.1.trans hle, hlast⟩

variable [CMath K]

/-- The books are right, and no lock is longer than that of new stake. -/
structure ClaimsKept (t : BlockTimestamp) (s : State K) : Prop where
  stakes : StakesKept s
  le : ∀ st, s.pools.state = some st → ∀ i p, st.pools[i]? = some p →
    t.slot + p.claimPeriod * 2 < 2 ^ 32 → ∀ a, s.nextClaim a i ≤ t.slot + p.claimPeriod * 2

/-- **Locks move forward only**, and not past that of new stake. -/
theorem ClaimsKept.exec_nextClaim {t : BlockTimestamp} {env : Env} {x : Action K}
    (hk : ClaimsKept t s) (ht : t ≤ env.now) (he : x.exec env s = .ok s')
    {st : StakingPoolState K} (hst : s.pools.state = some st) {p : StakingPool K}
    (hp : st.pools[i]? = some p) (hfit : env.now.slot + p.claimPeriod * 2 < 2 ^ 32) (a : Name) :
    s.nextClaim a i ≤ s'.nextClaim a i ∧ s'.nextClaim a i ≤ env.now.slot + p.claimPeriod * 2 := by
  have hslot : t.slot ≤ env.now.slot := ht
  obtain ⟨st', hst', hsteps⟩ := hk.stakes.exec_steps he hst
  rw [State.nextClaim_eq hst, State.nextClaim_eq hst']
  refine nextClaim_of_steps (hk.stakes.kept st hst) hsteps hp hfit (fun b => ?_) a
  have hle := hk.le st hst i p hp (by omega) b
  rw [State.nextClaim_eq hst] at hle
  omega

/-- No pool is closed. -/
theorem StakesKept.exec_pool {env : Env} {x : Action K} (hk : StakesKept s)
    (he : x.exec env s = .ok s') {st : StakingPoolState K} (hst : s.pools.state = some st)
    {p : StakingPool K} (hp : st.pools[i]? = some p) :
    ∃ st' p', s'.pools.state = some st' ∧ st'.pools[i]? = some p' ∧
      p'.claimPeriod = p.claimPeriod := by
  obtain ⟨st', hst', hsteps⟩ := hk.exec_steps he hst
  obtain ⟨p', hp', hc⟩ := exists_pool_of_steps (hk.kept st hst) hsteps hp
  exact ⟨st', p', hst', hp', hc⟩

omit [CMath K] [FloorRing K] [IsStrictOrderedRing K] in
theorem cfgsrpool_voters {args : PoolConfig K} (h : s.cfgsrpool now args = .ok s') :
    s'.pools.voters = s.pools.voters := by
  unfold State.cfgsrpool at h
  obtain ⟨core, -, h⟩ := bind_eq_ok.mp h
  split at h
  · simp only [bind_eq_ok, pure_eq_ok] at h
    obtain ⟨_, -, _, -, rfl⟩ := h
    rfl
  · simp only [bind_eq_ok, check_eq_ok, exists_const, pure_eq_ok] at h
    obtain ⟨-, -, -, _, -, rfl⟩ := h
    rfl

theorem ClaimsKept.exec {t : BlockTimestamp} {env : Env} {x : Action K} (hk : ClaimsKept t s)
    (ht : t ≤ env.now) (he : x.exec env s = .ok s') : ClaimsKept env.now s' := by
  refine ⟨hk.stakes.exec he, fun st' hst' i p' hp' hfit a => ?_⟩
  cases hst : s.pools.state with
  | none =>
    by_cases hx : ∃ args, x = .cfgsrpool args
    · -- nobody has a lock in a new pool
      obtain ⟨args, rfl⟩ := hx
      have hv := (cfgsrpool_voters he).trans (hk.stakes.voters hst)
      rw [State.nextClaim_eq hst', Stakes.nextClaim, Stakes.voter, PoolTables.stakes, hv]
      simp [getOrCreatePoolVoter, PoolVoter.new]
    · cases Action.exec_moves hk.stakes he fun _ => not_exists.mp hx with
      | unset _ hn =>
        rw [hst'] at hn
        cases hn
      | steps hn =>
        rw [hst] at hn
        cases hn
  | some st =>
    obtain ⟨st₁, hst₁, hsteps⟩ := hk.stakes.exec_steps he hst
    obtain rfl := Option.some.inj (hst₁.symm.trans hst')
    obtain ⟨p, hp, hc, -⟩ := pool_of_steps (hk.stakes.kept st hst) hsteps hp'
    rw [hc] at hfit ⊢
    exact (hk.exec_nextClaim ht he hst hp hfit a).2

theorem claimsKept_of_run {allowed : State K → Action K → Prop} {t : BlockTimestamp}
    (h : Run PoolStakeInit (Step allowed) t s) : ClaimsKept t s := by
  refine h.invariant_at (P := ClaimsKept) (fun t s h₀ => ?_) ?_
  · refine ⟨stakesKept_of_init h₀, fun st hst => ?_⟩
    rw [h₀.1] at hst
    cases hst
  · rintro t t' s s' hk ht ⟨isAccount, x, -, he⟩
    exact hk.exec ht he

/-- **The locks on claims.** As long as the slots fit in 32 bits, a lock only moves forward and
never past that of new stake; a claim pays at most the part of a claim period, and two claims from
a pool are the longest lock apart. -/
theorem claimLock_of_run {allowed : State K → Action K → Prop} {t : BlockTimestamp}
    (h : Run PoolStakeInit (Step allowed) t s) {env : Env} (ht : t ≤ env.now) {x : Action K}
    (he : x.exec env s = .ok s') {st : StakingPoolState K} (hst : s.pools.state = some st) {p :
      StakingPool K} (hp : st.pools[i]? = some p)
    (hfit : env.now.slot + p.claimPeriod * 2 < 2 ^ 32) :
    (∀ a, s.nextClaim a i ≤ s'.nextClaim a i ∧
      s'.nextClaim a i ≤ env.now.slot + p.claimPeriod * 2) ∧
    ∀ a requested, x = .claimstake a i requested →
      (∃ q balance out, ClaimPaid env.now s s' a i requested.amount q balance out ∧
        out ≤ min requested.amount (balance * q.claimPeriod / q.duration)) ∧
      ∀ t₁ s₁ t₂ requested₂ s₂, Continued (Step allowed) env.now s' t₁ s₁ → t₁ ≤ t₂ →
        s₁.claimstake t₂ a i requested₂ = .ok s₂ →
        t₂.slot + p.claimPeriod * 2 < 2 ^ 32 → env.now.slot + p.claimPeriod * 2 ≤ t₂.slot := by
  have hk := claimsKept_of_run h
  refine ⟨hk.exec_nextClaim ht he hst hp hfit, fun a requested hclaim => ?_⟩
  subst hclaim
  obtain ⟨-, st₀, p₀, hst₀, hp₀, hlock⟩ := hk.stakes.claimstake_lock he
  obtain rfl := Option.some.inj (hst.symm.trans hst₀)
  obtain rfl := Option.some.inj (hp.symm.trans hp₀)
  rw [Nat.mod_eq_of_lt hfit] at hlock
  refine ⟨hk.stakes.claimstake_paid he, fun t₁ s₁ t₂ requested₂ s₂ hgo ht₁₂ h₂ hfit₂ => ?_⟩
  -- from the claim on, the lock is at least where the claim has put it
  obtain ⟨st', p', hst', hp', hc⟩ := hk.stakes.exec_pool he hst hp
  obtain ⟨hk₁, -, -, -, -, -, hle⟩ := hgo.invariant_at (P := fun u r => ClaimsKept u r ∧
      ∃ st' p', r.pools.state = some st' ∧ st'.pools[i]? = some p' ∧
        p'.claimPeriod = p.claimPeriod ∧ (u.slot + p.claimPeriod * 2 < 2 ^ 32 →
          env.now.slot + p.claimPeriod * 2 ≤ r.nextClaim a i))
    ⟨hk.exec ht he, st', p', hst', hp', hc, fun _ => hlock.ge⟩ (by
      rintro u u' r r' ⟨hkr, st₁, p₁, hst₁, hp₁, hc₁, hle⟩ hu ⟨isAccount, y, -, hy⟩
      have hslot : u.slot ≤ u'.slot := hu
      obtain ⟨st₂, p₂, hst₂, hp₂, hc₂⟩ := hkr.stakes.exec_pool hy hst₁ hp₁
      refine ⟨hkr.exec hu hy, st₂, p₂, hst₂, hp₂, hc₂.trans hc₁, fun hfit' => ?_⟩
      have hmono := (hkr.exec_nextClaim hu hy hst₁ hp₁ (hc₁.symm ▸ hfit') a).1
      exact (hle (by omega)).trans hmono)
  have hslot : t₁.slot ≤ t₂.slot := ht₁₂
  have hnow := (hk₁.stakes.claimstake_lock h₂).1
  have hlast := hle (by omega)
  omega

end

/-- The voter of the example claims twice. -/
theorem claimLock_of_run_example : ∃ s s' s₂ : State ℚ,
    s.claimstake (.ofSlot 200) ⟨1⟩ 0 (exampleAsset 1000) = .ok s' ∧
      s'.claimstake (.ofSlot 400) ⟨1⟩ 0 (exampleAsset 1000) = .ok s₂ ∧
      s.nextClaim ⟨1⟩ 0 ≤ s'.nextClaim ⟨1⟩ 0 ∧
      (BlockTimestamp.ofSlot 200).slot + 64 * 2 ≤ (BlockTimestamp.ofSlot 400).slot := by
  have hrun : (execAll (Action.execIn fun _ _ => true) (.ofSlot 0) stakesExampleRun
      exampleChain).isSome := by decide +kernel
  have ht : ((execAll (Action.execIn fun _ _ => true) (.ofSlot 0) stakesExampleRun
      exampleChain).get hrun).1 ≤ (⟨.ofSlot 200, fun _ => true⟩ : Env).now := by
    decide +kernel +revert
  have hclaim : (((execAll (Action.execIn fun _ _ => true) (.ofSlot 0) stakesExampleRun
      exampleChain).get hrun).2.claimstake (.ofSlot 200) ⟨1⟩ 0 (exampleAsset 1000)).isOk := by
    decide +kernel +revert
  have hagain : ((value _ hclaim).claimstake (.ofSlot 400) ⟨1⟩ 0 (exampleAsset 1000)).isOk := by
    decide +kernel +revert
  have hst : (((execAll (Action.execIn fun _ _ => true) (.ofSlot 0) stakesExampleRun
      exampleChain).get hrun).2.pools.state).isSome := by decide +kernel +revert
  have hp : ((((execAll (Action.execIn fun _ _ => true) (.ofSlot 0) stakesExampleRun
      exampleChain).get hrun).2.pools.state).get hst).pools[0]?.isSome := by
    decide +kernel +revert
  have hperiod : (((((execAll (Action.execIn fun _ _ => true) (.ofSlot 0) stakesExampleRun
      exampleChain).get hrun).2.pools.state).get hst).pools[0]?.get hp).claimPeriod = 64 := by
    decide +kernel +revert
  have hinit : PoolStakeInit exampleChain := ⟨rfl, rfl, by decide⟩
  have hexec : Action.exec ⟨.ofSlot 200, fun _ => true⟩ (.claimstake ⟨1⟩ 0 (exampleAsset 1000)) _ =
      .ok _ := eq_ok_value hclaim
  obtain ⟨hn, hpaid⟩ := claimLock_of_run (run_get_execIn hinit hrun) ht hexec
    (Option.some_get hst).symm (Option.some_get hp).symm (by rw [hperiod]; decide)
  have hlock := (hpaid ⟨1⟩ _ rfl).2 _ _ _ _ _ .refl (by decide) (eq_ok_value hagain)
    (by rw [hperiod]; decide)
  rw [hperiod] at hlock
  exact ⟨_, _, _, eq_ok_value hclaim, eq_ok_value hagain, (hn ⟨1⟩).1, hlock⟩

/-! ## Parts of a deposit -/

/-- What the pool is for an owner of shares: solvent, with the same claim period, and the shares
can be redeemed for the same. -/
structure StakingPool.SameBalance (owned : K) (p p' : StakingPool K) : Prop where
  solvent : p'.tokenPool.Solvent
  owned_le : owned ≤ p'.tokenPool.totalShares
  claimPeriod : p'.claimPeriod = p.claimPeriod
  balance : p'.tokenPool.simulateSell owned = p.tokenPool.simulateSell owned

/-- The parts of an amount are deposited in one block, one after another. Between two parts others
may act, as long as what the owner's shares can be redeemed for stays. -/
inductive Deposits (now : BlockTimestamp) :
    List ℤ → StakingPool K → K → ℕ → StakingPool K → K → ℕ → Prop
  | nil {p : StakingPool K} {owned : K} {next : ℕ} : Deposits now [] p owned next p owned next
  | cons {p p₁ p₂ p' : StakingPool K} {owned owned₁ owned' : K} {next next₁ next' : ℕ} {a : ℤ}
      {l : List ℤ} (h : depositPool now p owned next a = .ok (p₁, owned₁, next₁))
      (hsame : p₁.SameBalance owned₁ p₂) (hl : Deposits now l p₂ owned₁ next₁ p' owned' next') :
      Deposits now (a :: l) p owned next p' owned' next'

namespace Deposits

variable {now : BlockTimestamp} {l : List ℤ} {p p' : StakingPool K} {owned owned' : K}
  {next next' : ℕ}

/-- The lock after the parts is behind the average with all of them by the rounding of each. -/
theorem avg_le (hd : Deposits now l p owned next p' owned' next') (hl : l ≠ [])
    (hpos : ∀ a ∈ l, 0 < a) (hs : p.tokenPool.Solvent) (h₀ : 0 ≤ owned)
    (ho : owned ≤ p.tokenPool.totalShares) (hn : next < 2 ^ 32) :
    avg (max next now.slot : ℕ) (p.tokenPool.value owned)
      ((now.slot + p.claimPeriod * 2) % 2 ^ 32 : ℕ) l.sum - (l.length - 1) ≤ next' := by
  induction hd with
  | nil => exact absurd rfl hl
  | @cons p p₁ p₂ p' owned owned₁ owned' next next₁ next' a l hdep hsame hrest ih =>
    have ha : 0 < a := hpos a List.mem_cons_self
    obtain ⟨rfl, rfl, rfl⟩ : p₁ = p.deposit a ∧ owned₁ = owned + p.tokenPool.sharesBought a ∧
        next₁ = claimSlot now p.claimPeriod next (p.tokenPool.value owned) a := by
      have heq := hdep.symm.trans (depositPool_eq hs h₀ ho ha now next)
      simpa using heq
    have hb : 0 ≤ p.tokenPool.value owned := hs.value_nonneg h₀
    have hslot := claimSlot_eq now p.claimPeriod hn hb ha
    cases l with
    | nil =>
      cases hrest
      rw [hslot]
      simp
    | cons a' l =>
      -- the owner has what it had and the first part
      have hs₁ : (p.deposit a).tokenPool.Solvent := hs.bought ha
      have h₁ : 0 ≤ owned + p.tokenPool.sharesBought a :=
        add_nonneg h₀ (hs.sharesBought_pos ha).le
      have ho₁ : owned + p.tokenPool.sharesBought a ≤ (p.deposit a).tokenPool.totalShares :=
        add_le_add_left ho _
      have hvalue : p₂.tokenPool.value (owned + p.tokenPool.sharesBought a) =
          p.tokenPool.value owned + a := by
        have hbal := hsame.balance
        rw [hsame.solvent.simulateSell_eq h₁ hsame.owned_le, hs₁.simulateSell_eq h₁ ho₁] at hbal
        exact (Except.ok.inj hbal).trans (hs.value_bought ha h₀ ho)
      have hperiod : p₂.claimPeriod = p.claimPeriod := hsame.claimPeriod
      have hrest' := ih (List.cons_ne_nil _ _) (fun b hb => hpos b (List.mem_cons_of_mem _ hb))
        hsame.solvent h₁ hsame.owned_le (claimSlot_lt _ _ _ _ _)
      rw [hvalue, hperiod] at hrest'
      have hsum : 0 < (a' :: l).sum := List.sum_pos _
        (fun b hb => hpos b (List.mem_cons_of_mem _ hb)) (List.cons_ne_nil _ _)
      have hparts := avg_add_le (n := (max next now.slot : ℕ))
        (m := ((now.slot + p.claimPeriod * 2) % 2 ^ 32 : ℕ)) hb ha hsum
      have hmax : avg (max next now.slot : ℕ) (p.tokenPool.value owned)
          ((now.slot + p.claimPeriod * 2) % 2 ^ 32 : ℕ) a ≤
          (max (claimSlot now p.claimPeriod next (p.tokenPool.value owned) a) now.slot : ℕ) := by
        rw [← hslot]
        exact_mod_cast le_max_left _ _
      have hmono := avg_mono (m := ((now.slot + p.claimPeriod * 2) % 2 ^ 32 : ℕ)) hmax
        (add_nonneg hb ha.le) hsum
      rw [List.sum_cons, List.length_cons]
      push_cast at *
      linarith

end Deposits

/-- **Parts of a deposit lose at most one slot of the lock each, but the first.** -/
theorem claimSlot_of_deposits {now : BlockTimestamp} {parts : List ℤ} (hparts : parts ≠ [])
    (hpos : ∀ a ∈ parts, 0 < a) {p p' : StakingPool K} (hs : p.tokenPool.Solvent)
    {owned owned' : K} (h₀ : 0 ≤ owned) (ho : owned ≤ p.tokenPool.totalShares) {next next' : ℕ}
    (hn : next < 2 ^ 32) (hd : Deposits now parts p owned next p' owned' next') :
    ∃ p₁ owned₁ next₁, depositPool now p owned next parts.sum = .ok (p₁, owned₁, next₁) ∧
      next₁ + 1 ≤ next' + parts.length := by
  have hsum : 0 < parts.sum := List.sum_pos parts hpos hparts
  refine ⟨_, _, _, depositPool_eq hs h₀ ho hsum now next, ?_⟩
  have hle := hd.avg_le hparts hpos hs h₀ ho hn
  rw [← claimSlot_eq now p.claimPeriod hn (hs.value_nonneg h₀) hsum] at hle
  have hlen : 0 < parts.length := List.length_pos_of_ne_nil hparts
  omega

/-- A pool of a thousand tokens. -/
def examplePool : StakingPool ℚ := ⟨1024, 64, 1, ⟨1000, 1000⟩⟩

/-- The parts 5 and 6 of a deposit of 11. -/
theorem claimSlot_of_deposits_example : ∃ p₁ owned₁ next₁,
    depositPool (.ofSlot 100) examplePool 1000 131 [5, 6].sum = .ok (p₁, owned₁, next₁) ∧
      next₁ + 1 ≤ 131 + 2 := by
  have hs : examplePool.tokenPool.Solvent :=
    Pool.solvent_of_pos (by decide) (by norm_num [examplePool])
  have hs₁ : (examplePool.deposit 5).tokenPool.Solvent := hs.bought (by decide)
  have hs₂ : ((examplePool.deposit 5).deposit 6).tokenPool.Solvent := hs₁.bought (by decide)
  have ho : 1000 ≤ examplePool.tokenPool.totalShares := le_rfl
  have ho₁ : 1000 + examplePool.tokenPool.sharesBought 5 ≤
      (examplePool.deposit 5).tokenPool.totalShares := le_rfl
  have h₁ : 0 ≤ 1000 + examplePool.tokenPool.sharesBought 5 :=
    add_nonneg (by norm_num) (hs.sharesBought_pos (by decide)).le
  have hd : Deposits (.ofSlot 100) [5, 6] examplePool 1000 131 _ _ _ :=
    .cons (depositPool_eq hs (by norm_num) ho (by decide) _ _) ⟨hs₁, ho₁, rfl, rfl⟩
      (.cons (depositPool_eq hs₁ h₁ ho₁ (by decide) _ _) ⟨hs₂, le_rfl, rfl, rfl⟩ .nil)
  have hend : claimSlot (.ofSlot 100) (examplePool.deposit 5).claimPeriod
      (claimSlot (.ofSlot 100) examplePool.claimPeriod 131 (examplePool.tokenPool.value 1000) 5)
      ((examplePool.deposit 5).tokenPool.value (1000 + examplePool.tokenPool.sharesBought 5)) 6 =
        131 := by decide +kernel
  rw [hend] at hd
  exact claimSlot_of_deposits (List.cons_ne_nil _ _) (by decide) hs (by norm_num) ho (by norm_num)
    hd

/-- The pools are configured, and an account stakes. -/
def partsExampleRun : List (BlockTimestamp × Action ℚ) :=
  [(.ofSlot 1, .cfgsrpool ⟨some [1024, 2048], some [64, 64], some [1, 2], some 0, some 0,
      none, none, none, none, none⟩),
   (.ofSlot 3, .stake2pool ⟨1⟩ 0 (exampleAsset 1000))]

/-- An account that stakes 5 and then 6 in the same block can claim earlier than one that stakes
11 at once. -/
theorem claimSlot_of_deposits_counterexample : ∃ t, ∃ s s₁ s₂ s' : State ℚ,
    Run PoolStakeInit (Step fun _ _ => True) t s ∧
      s.stake2pool (.ofSlot 100) ⟨1⟩ 0 (exampleAsset 5) = .ok s₁ ∧
      s₁.stake2pool (.ofSlot 100) ⟨1⟩ 0 (exampleAsset 6) = .ok s₂ ∧
      s.stake2pool (.ofSlot 100) ⟨1⟩ 0 (exampleAsset 11) = .ok s' ∧
      s₂.nextClaim ⟨1⟩ 0 < s'.nextClaim ⟨1⟩ 0 := by
  have hrun : (execAll (Action.execIn fun _ _ => true) (.ofSlot 0) partsExampleRun
      exampleChain).isSome := by decide +kernel
  have h₁ : (((execAll (Action.execIn fun _ _ => true) (.ofSlot 0) partsExampleRun
      exampleChain).get hrun).2.stake2pool (.ofSlot 100) ⟨1⟩ 0 (exampleAsset 5)).isOk := by
    decide +kernel +revert
  have h₂ : ((value _ h₁).stake2pool (.ofSlot 100) ⟨1⟩ 0 (exampleAsset 6)).isOk := by
    decide +kernel +revert
  have h₃ : (((execAll (Action.execIn fun _ _ => true) (.ofSlot 0) partsExampleRun
      exampleChain).get hrun).2.stake2pool (.ofSlot 100) ⟨1⟩ 0 (exampleAsset 11)).isOk := by
    decide +kernel +revert
  have hlt : (value _ h₂).nextClaim ⟨1⟩ 0 < (value _ h₃).nextClaim ⟨1⟩ 0 := by
    decide +kernel +revert
  have hinit : PoolStakeInit exampleChain := ⟨rfl, rfl, by decide⟩
  exact ⟨_, _, _, _, _, (run_get_execIn hinit hrun).mono (fun _ h => h)
    fun _ _ _ h => h.mono fun _ _ _ => trivial, eq_ok_value h₁, eq_ok_value h₂, eq_ok_value h₃, hlt⟩

end EosioSystem
