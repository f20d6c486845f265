import EosioSystem.StakingPool.Prices

/-!
# The stake of the voters

A voter's stake is its shares in each pool and the slots from which it can claim them. Votes leave
it alone. What changes it, or the price of a share, is a deposit, a withdrawal or a payment to the
pools, and each of these keeps the books and the value of everybody else's shares.

## Main definitions

* `PoolVoter.stake`, `SameStake`: the stake of a voter, and tables in which it is the same
* `Stakes`: the pools and their voters
* `StakeStep`: what can happen to them

## Main results

* `PoolVotes.updatePoolVotes_stake`: a vote moves no stake
* `StakeStep.value_le`: **nobody's stake loses value by what others do**
* `StakeStep.nextClaim_le`, `StakeStep.nextClaim_mono`: claim slots move forward only
-/

namespace EosioSystem

open Checked

variable {K : Type} [Field K]

/-! ## Votes move no stake -/

/-- The shares of a voter, and the slots from which it can claim them. -/
def PoolVoter.stake (v : PoolVoter K) : List K × List ℕ := (v.ownedShares, v.nextClaim)

/-- Voters keep their stake, and new voters have none; `n` is the number of pools. -/
def SameStake (n : ℕ) (t t' : Table Name (PoolVoter K)) : Prop :=
  ∀ a, (getOrCreatePoolVoter t' n a).stake = (getOrCreatePoolVoter t n a).stake

theorem getOrCreatePoolVoter_of_find {t : Table Name (PoolVoter K)} {a : Name} {v : PoolVoter K}
    (h : t.find a = some v) (n : ℕ) : getOrCreatePoolVoter t n a = v := by
  rw [getOrCreatePoolVoter, h, Option.getD_some]

theorem getOrCreatePoolVoter_set (t : Table Name (PoolVoter K)) (n : ℕ) (a b : Name)
    (v : PoolVoter K) : getOrCreatePoolVoter (t.set a v) n b =
      if b = a then v else getOrCreatePoolVoter t n b := by
  unfold getOrCreatePoolVoter
  rw [Table.find_set]
  split_ifs <;> rfl

namespace SameStake

variable {n : ℕ} {t t₁ t₂ : Table Name (PoolVoter K)}

theorem refl (t : Table Name (PoolVoter K)) : SameStake n t t := fun _ => rfl

theorem trans (h₁ : SameStake n t t₁) (h₂ : SameStake n t₁ t₂) : SameStake n t t₂ :=
  fun a => (h₂ a).trans (h₁ a)

theorem set {a : Name} {v : PoolVoter K} (h : v.stake = (getOrCreatePoolVoter t n a).stake) :
    SameStake n t (t.set a v) := by
  intro b
  rw [getOrCreatePoolVoter_set]
  split_ifs with hb
  · rw [hb]
    exact h
  · rfl

theorem set_of_find {a : Name} {v w : PoolVoter K} (hf : t.find a = some w)
    (h : v.stake = w.stake) : SameStake n t (t.set a v) :=
  set (by rw [getOrCreatePoolVoter_of_find hf, h])

theorem owned (h : SameStake n t t₁) (a : Name) : (getOrCreatePoolVoter t₁ n a).ownedShares =
    (getOrCreatePoolVoter t n a).ownedShares := congrArg Prod.fst (h a)

theorem claims (h : SameStake n t t₁) (a : Name) : (getOrCreatePoolVoter t₁ n a).nextClaim =
    (getOrCreatePoolVoter t n a).nextClaim := congrArg Prod.snd (h a)

end SameStake

namespace PoolVotes

variable {n : ℕ} {pv : PoolVotes K}

theorem addProxiedShares_stake (p : PoolVoter K) (deltas : List K) :
    Yields solvencyBugs (fun p' => p'.stake = p.stake)
      (addProxiedShares p deltas "bug: proxy lost its pool") :=
  Avoids.bind_yields (.check (.inl (by decide))) fun _ _ => .pure rfl

theorem subProxiedShares_stake (p : PoolVoter K) (deltas : List K) :
    Yields solvencyBugs (fun p' => p'.stake = p.stake)
      (subProxiedShares p deltas "bug: proxy lost its pool") :=
  Avoids.bind_yields (.check (.inl (by decide))) fun _ _ => .pure rfl

/-- An error about a producer is not one about a pool. -/
theorem producerError_notMem_solvencyBugs (p : Name) (text : String) :
    VoteState.producerError p text ∉ solvencyBugs := by
  have hp : (VoteState.producerError p text).toList.take 2 = ['p', 'r'] := by
    simp [VoteState.producerError, String.toList_append]
  have hb : ∀ e ∈ solvencyBugs, e.toList.take 2 ≠ ['p', 'r'] := by decide
  exact fun h => hb _ h hp

theorem addPoolVotes_stake (acnt : Name) (deltas : List K) :
    Yields solvencyBugs (fun pv' => pv'.voters = pv.voters) (pv.addPoolVotes acnt deltas) :=
  Avoids.bind_yields (.require (by decide)) fun _ _ =>
    Avoids.bind_yields (.require (producerError_notMem_solvencyBugs _ _)) fun _ _ =>
    Avoids.bind_yields (.check (.inl (producerError_notMem_solvencyBugs _ _))) fun _ _ => .pure rfl

theorem subPoolVotes_stake (acnt : Name) (deltas : List K) :
    Yields solvencyBugs (fun pv' => pv'.voters = pv.voters)
      (pv.subPoolVotes acnt deltas "bug: producer lost its pool") :=
  Avoids.bind_yields (.require (by decide)) fun _ _ =>
    Avoids.bind_yields (.require (by decide)) fun _ _ =>
    Avoids.bind_yields (.check (.inl (by decide))) fun _ _ => .pure rfl

theorem moveProducerVotes_stake (last new : List K) (l : List Name) :
    Yields solvencyBugs (fun pv' => pv'.voters = pv.voters)
      (moveProducerVotes last new l pv) := by
  induction l generalizing pv with
  | nil => exact .pure rfl
  | cons p l ih =>
    exact Avoids.bind_yields (.require (by decide)) fun _ _ =>
      .bind (subPoolVotes_stake p last) fun pv₁ h₁ => .bind (addPoolVotes_stake p new)
      fun pv₂ h₂ => ih.mono fun pv₃ h₃ => h₃.trans (h₂.trans h₁)

theorem updatePoolProxy_stake (fuel : ℕ) (a : Name) :
    Yields solvencyBugs (fun pv' => SameStake n pv.voters pv'.voters)
      (updatePoolProxy fuel pv a) := by
  induction fuel generalizing pv a with
  | zero =>
    refine ⟨fun e he h => absurd (Except.error.inj h ▸ he) (by decide), fun pv' h => ?_⟩
    cases h
  | succ fuel ih =>
    refine Avoids.bind_yields (.require (by decide)) fun v hv =>
      Avoids.bind_yields (.check (.inl (by decide))) fun _ _ =>
      .bind (Q := fun pv' => SameStake n pv.voters pv'.voters) (.ite (fun _ => ?_) fun _ => ?_)
      fun pv₁ h₁ => Avoids.bind_yields (.require (by decide)) fun v₁ hv₁ =>
      .pure (h₁.trans (.set_of_find (w := v₁) (require_eq_ok.mp hv₁) (by rfl)))
    · refine Avoids.bind_yields (.require (by decide)) fun p hp =>
        .bind (subProxiedShares_stake p _) fun p₁ ho₁ =>
        .bind (addProxiedShares_stake p₁ _) fun p₂ ho₂ => (ih _).mono fun pv₁ h₁ => ?_
      exact (SameStake.set_of_find (require_eq_ok.mp hp) (ho₂.trans ho₁)).trans h₁
    · exact (moveProducerVotes_stake _ _ _).mono fun pv₁ h₁ => h₁ ▸ .refl _

theorem applyChanges_stake (voting : Bool) (last new : List K) (l : List (Name × Bool × Bool)) :
    Yields solvencyBugs (fun pv' => pv'.voters = pv.voters)
      (applyChanges voting last new l pv) := by
  induction l generalizing pv with
  | nil => exact .pure rfl
  | cons c l ih =>
    obtain ⟨p, old, isNew⟩ := c
    unfold applyChanges
    split
    · exact Avoids.bind_yields (.check (.inl (producerError_notMem_solvencyBugs _ _)))
        fun _ _ => ih
    · refine Avoids.bind_yields (.check (.inl (producerError_notMem_solvencyBugs _ _)))
        fun _ _ => .bind (Q := fun pv' => pv'.voters = pv.voters) ?_ fun pv₁ h₁ =>
        .bind (Q := fun pv' => pv'.voters = pv₁.voters) ?_ fun pv₂ h₂ =>
        ih.mono fun pv₃ h₃ => h₃.trans (h₂.trans h₁)
      · cases old
        · exact .pure rfl
        · exact subPoolVotes_stake p last
      · cases isNew
        · exact .pure rfl
        · exact addPoolVotes_stake p new

/-- A vote moves no shares. -/
theorem updatePoolVotes_stake (a proxy : Name) (producers : List Name) (voting : Bool) :
    Yields solvencyBugs (fun pv' => SameStake n pv.voters pv'.voters)
      (pv.updatePoolVotes n a proxy producers voting) := by
  refine Avoids.bind_yields (.ite ?_ ?_) fun _ _ =>
    Avoids.bind_yields (.check (.inl (by decide))) fun _ _ => ?_
  · exact .bind (.check (.inl (by decide))) fun _ _ => .check (.inl (by decide))
  · exact .bind (.check (.inl (by decide))) fun _ _ => .check (.inl (by decide))
  have h₀ : SameStake n pv.voters (pv.setVoter a (getOrCreatePoolVoter pv.voters n a)).voters :=
    .set rfl
  generalize pv.setVoter a (getOrCreatePoolVoter pv.voters n a) = pv₀ at h₀ ⊢
  generalize getOrCreatePoolVoter pv.voters n a = v
  refine .bind (Q := fun pv' => SameStake n pv₀.voters pv'.voters) (.ite (fun _ => ?_) fun _ =>
    .pure (.refl _)) fun pv₁ h₁ => .bind (Q := fun pv' => SameStake n pv₁.voters pv'.voters)
    (.ite (fun _ => ?_) fun _ => .pure (.refl _)) fun pv₂ h₂ =>
    Avoids.bind_yields (.require (by decide)) fun v' hv' =>
    .bind (applyChanges_stake _ _ _ _) fun pv₃ h₃ => .pure ?_
  · exact Avoids.bind_yields (.require (by decide)) fun p hp =>
      .bind (subProxiedShares_stake p _) fun p₁ ho₁ => (updatePoolProxy_stake _ _).mono
      fun pv₁ h₁ => (SameStake.set_of_find (require_eq_ok.mp hp) ho₁).trans h₁
  · exact Avoids.bind_yields (.require (by decide)) fun p hp =>
      Avoids.bind_yields (.check (.inl (by decide))) fun _ _ =>
      .bind (addProxiedShares_stake p _) fun p₁ ho₁ => (updatePoolProxy_stake _ _).mono
      fun pv₁ h₁ => (SameStake.set_of_find (require_eq_ok.mp hp) ho₁).trans h₁
  · have hv₃ : pv₃.voters.find a = some v' := by rw [h₃, require_eq_ok.mp hv']
    exact ((h₀.trans h₁).trans h₂).trans (h₃ ▸ .set_of_find hv₃ (by rfl))

end PoolVotes

/-! ## The books -/

variable [LinearOrder K]

/-- The books are about the shares of the voters only. -/
theorem Book.owned_congr {voters voters' : Table Name (PoolVoter K)}
    {pools : List (StakingPool K)} (h : Book voters pools)
    (hs : ∀ a, (getOrCreatePoolVoter voters' pools.length a).ownedShares =
      (getOrCreatePoolVoter voters pools.length a).ownedShares) : Book voters' pools := by
  have hrow : ∀ a v, voters'.find a = some v → v.ownedShares =
      (getOrCreatePoolVoter voters pools.length a).ownedShares := by
    intro a v hv
    rw [← hs a, getOrCreatePoolVoter_of_find hv]
  have hzero (t : Table Name (PoolVoter K)) (a : Name) (i : ℕ) :
      (t.find a).elim 0 (fun v => v.ownedShares.getD i 0) =
        (getOrCreatePoolVoter t pools.length a).ownedShares.getD i 0 := by
    unfold getOrCreatePoolVoter
    cases t.find a with
    | some v => rfl
    | none => by_cases hi : i < pools.length <;> simp [PoolVoter.new, hi]
  refine ⟨h.solvent, fun i p hp => ?_, fun a v hv => ?_, fun a v hv => ?_⟩
  · rw [h.shares i p hp]
    exact Table.sum_eq_of_elim fun a => by rw [hzero, hzero, hs a]
  · rw [hrow a v hv]
    exact (h.getOrCreate a).2.1
  · rw [hrow a v hv]
    exact (h.getOrCreate a).1

theorem Book.sameStake {voters voters' : Table Name (PoolVoter K)} {pools : List (StakingPool K)}
    (h : Book voters pools) (hs : SameStake pools.length voters voters') : Book voters' pools :=
  h.owned_congr hs.owned

/-! ## Pools and voters -/

/-- The pools and their voters. -/
structure Stakes (K : Type) where
  voters : Table Name (PoolVoter K)
  pools : List (StakingPool K)

namespace Stakes

variable (k : Stakes K)

omit [LinearOrder K] in
/-- The record of a voter, found or made. -/
def voter (a : Name) : PoolVoter K := getOrCreatePoolVoter k.voters k.pools.length a

omit [LinearOrder K] in
/-- The shares of an account in a pool. -/
def owned (a : Name) (i : ℕ) : K := (k.voter a).ownedShares.getD i 0

omit [LinearOrder K] in
/-- The slot from which an account can claim from a pool. -/
def nextClaim (a : Name) (i : ℕ) : ℕ := (k.voter a).nextClaim.getD i 0

/-- The books are right, and each voter has a claim slot for each pool. -/
structure Kept : Prop where
  book : Book k.voters k.pools
  claims : ∀ a, (k.voter a).nextClaim.length = k.pools.length

omit [LinearOrder K] in
/-- Another record of a voter, and another pool. -/
def put (a : Name) (v : PoolVoter K) (i : ℕ) (p : StakingPool K) : Stakes K :=
  ⟨k.voters.set a v, k.pools.set i p⟩

variable {k} {a b : Name} {v : PoolVoter K} {i j : ℕ} {p p' : StakingPool K}

omit [LinearOrder K] in
theorem voter_put : (k.put a v i p).voter b = if b = a then v else k.voter b := by
  unfold voter put
  rw [List.length_set]
  exact getOrCreatePoolVoter_set _ _ _ _ _

omit [Field K] [LinearOrder K] in
theorem pools_put (h : (k.put a v i p').pools[j]? = some p) :
    j = i ∧ p = p' ∨ j ≠ i ∧ k.pools[j]? = some p := by
  change (k.pools.set i p')[j]? = some p at h
  rw [List.getElem?_set] at h
  split_ifs at h with hij
  · exact .inl ⟨hij.symm, (Option.some.inj h).symm⟩
  · exact .inr ⟨Ne.symm hij, h⟩

omit [LinearOrder K] in
/-- The shares after a change of those in one pool. -/
theorem owned_put {x : K} (hv : v.ownedShares = (k.voter a).ownedShares.set i x)
    (hi : i < (k.voter a).ownedShares.length) :
    (k.put a v i p).owned b j = if b = a ∧ j = i then x else k.owned b j := by
  unfold owned
  rw [voter_put]
  by_cases hb : b = a
  · rw [if_pos hb, hv, getD_set _ _ _ _ hi, hb]
    by_cases hj : j = i <;> simp [hj]
  · rw [if_neg hb, if_neg fun h => hb h.1]

omit [LinearOrder K] in
/-- The claim slots after a change of that for one pool. -/
theorem nextClaim_put {next : ℕ} (hv : v.nextClaim = (k.voter a).nextClaim.set i next)
    (hi : i < (k.voter a).nextClaim.length) :
    (k.put a v i p).nextClaim b j = if b = a ∧ j = i then next else k.nextClaim b j := by
  unfold nextClaim
  rw [voter_put]
  by_cases hb : b = a
  · rw [if_pos hb, hv, hb]
    by_cases hj : j = i
    · subst hj
      simp [hi]
    · simp [hj, Ne.symm hj]
  · rw [if_neg hb, if_neg fun h => hb h.1]

omit [LinearOrder K] in
/-- A pool after a payment. -/
theorem credited_of_getElem? {pools pools' : List (StakingPool K)}
    (h : List.Forall₂ StakingPool.Credited pools pools') (hp : pools'[i]? = some p') :
    ∃ p, pools[i]? = some p ∧ p.Credited p' := by
  obtain ⟨hi, rfl⟩ := List.getElem?_eq_some_iff.mp hp
  have hi' : i < pools.length := h.length_eq ▸ hi
  exact ⟨pools[i], List.getElem?_eq_getElem hi', h.get hi' hi⟩

end Stakes

/-- A payment raises the price of the shares. -/
theorem StakingPool.adjust_price [IsStrictOrderedRing K] {p : StakingPool K} {amount : ℤ}
    (hs : 0 ≤ p.tokenPool.totalShares) (ha : 0 ≤ amount) :
    p.tokenPool.PriceKept (p.adjust amount).tokenPool := by
  have hle : (p.tokenPool.balance : K) ≤ (p.tokenPool.balance + amount : ℤ) := by
    exact_mod_cast le_add_of_nonneg_right ha
  exact mul_le_mul_of_nonneg_right hle hs

/-- What can happen to the pools and their voters at a time; stake is taken out by `w` only. -/
inductive StakeStep [FloorRing K] (now : BlockTimestamp) (w : Option Name) (k : Stakes K) :
    Stakes K → Prop
  | votes {voters : Table Name (PoolVoter K)} (h : SameStake k.pools.length k.voters voters) :
      StakeStep now w k ⟨voters, k.pools⟩
  | paid {pools : List (StakingPool K)} (h : List.Forall₂ StakingPool.Credited k.pools pools) :
      StakeStep now w k ⟨k.voters, pools⟩
  | deposit {a : Name} {i : ℕ} {amount : ℤ} {pools : List (StakingPool K)} {v : PoolVoter K}
      (ha : 0 < amount)
      (h : State.deposit2pool now k.pools (k.voter a) i amount = .ok (pools, v)) :
      StakeStep now w k ⟨k.voters.set a v, pools⟩
  | withdraw {a : Name} {i : ℕ} {requested sold : ℤ} {pools : List (StakingPool K)}
      {v : PoolVoter K} (hw : w = some a)
      (h : State.withdrawFrom k.pools (k.voter a) i requested false = .ok (pools, v, sold)) :
      StakeStep now w k ⟨k.voters.set a v, pools⟩
  | claim {a : Name} {i : ℕ} {requested sold : ℤ} {pools : List (StakingPool K)}
      {p : StakingPool K} {v : PoolVoter K} (hw : w = some a) (hp : k.pools[i]? = some p)
      (hnext : k.nextClaim a i ≤ now.slot)
      (h : State.withdrawFrom k.pools (k.voter a) i requested true = .ok (pools, v, sold)) :
      StakeStep now w k ⟨k.voters.set a { v with
        nextClaim := v.nextClaim.set i ((now.slot + p.claimPeriod * 2) % 2 ^ 32) }, pools⟩

variable [FloorRing K] [IsStrictOrderedRing K] {now : BlockTimestamp} {w : Option Name}
  {k k' : Stakes K}

/-! ### Deposits and withdrawals -/

namespace Stakes.Kept

variable {a : Name} {i : ℕ} {pools : List (StakingPool K)} {v : PoolVoter K}

omit [FloorRing K] [IsStrictOrderedRing K] in
theorem owned_nonneg (h : k.Kept) (a : Name) (i : ℕ) : 0 ≤ k.owned a i :=
  (h.book.getOrCreate a).2.1 i

omit [FloorRing K] [IsStrictOrderedRing K] in
theorem owned_length (h : k.Kept) (a : Name) : (k.voter a).ownedShares.length = k.pools.length :=
  (h.book.getOrCreate a).1

omit [FloorRing K] in
theorem owned_le (h : k.Kept) (a : Name) {p : StakingPool K} (hp : k.pools[i]? = some p) :
    k.owned a i ≤ p.tokenPool.totalShares := h.book.owned_le a hp

theorem deposit2pool_eq_ok (h : k.Kept) {amount : ℤ} (ha : 0 < amount)
    (hd : State.deposit2pool now k.pools (k.voter a) i amount = .ok (pools, v)) :
    ∃ p, k.pools[i]? = some p ∧ pools = k.pools.set i (p.deposit amount) ∧
      v = { k.voter a with
        ownedShares := (k.voter a).ownedShares.set i
          (k.owned a i + p.tokenPool.sharesBought amount)
        nextClaim := (k.voter a).nextClaim.set i (claimSlot now p.claimPeriod (k.nextClaim a i)
          (p.tokenPool.value (k.owned a i)) amount) } := by
  obtain ⟨p, hp, hd⟩ := bind_eq_ok.mp hd
  have hp' := require_eq_ok.mp hp
  obtain ⟨r, hr, hd⟩ := bind_eq_ok.mp hd
  obtain rfl := Except.ok.inj (hr.symm.trans (depositPool_eq (h.book.solvent i p hp')
    (h.owned_nonneg a i) (h.owned_le a hp') ha now (k.nextClaim a i)))
  obtain ⟨rfl, rfl⟩ := Prod.mk.inj (pure_eq_ok.mp hd)
  exact ⟨p, hp', rfl, rfl⟩

theorem withdrawFrom_eq_ok (h : k.Kept) {requested sold : ℤ} {claiming : Bool}
    (hw : State.withdrawFrom k.pools (k.voter a) i requested claiming = .ok (pools, v, sold)) :
    ∃ p x, k.pools[i]? = some p ∧ 0 ≤ x ∧ x ≤ k.owned a i ∧
      pools = k.pools.set i (p.sale x) ∧
      v = State.setShares (k.voter a) i (k.owned a i - x) ∧ sold = p.tokenPool.value x ∧
      sold ≤ requested ∧ (claiming = true →
        sold ≤ p.tokenPool.value (k.owned a i) * p.claimPeriod / p.duration) := by
  obtain ⟨p, hp, hw⟩ := bind_eq_ok.mp hw
  have hp' := require_eq_ok.mp hp
  obtain ⟨r, hr, hw⟩ := bind_eq_ok.mp hw
  cases withdrawPool_eq_ok (h.book.solvent i p hp') (h.owned_nonneg a i) (h.owned_le a hp') hr with
  | @sold x h₀ hx hle hclaim =>
    simp only [pure_eq_ok, Prod.mk.injEq] at hw
    obtain ⟨rfl, rfl, rfl⟩ := hw
    exact ⟨p, x, hp', h₀, hx, rfl, rfl, rfl, hle, hclaim⟩

end Stakes.Kept

/-! ### What a step does -/

/-- What a deposit, a withdrawal or a claim of the account `a` does to its stake in the pool `i`,
which is the pool `p` before and `p'` after it. -/
structure StakePut (now : BlockTimestamp) (w : Option Name) (k k' : Stakes K) (a : Name) (i : ℕ)
    (p p' : StakingPool K) (v : PoolVoter K) (x : K) (next : ℕ) : Prop where
  state : k' = k.put a v i p'
  pool : k.pools[i]? = some p
  book : Book k'.voters k'.pools
  price : p.tokenPool.PriceKept p'.tokenPool
  claimPeriod : p'.claimPeriod = p.claimPeriod
  duration : p'.duration = p.duration
  ownedShares : v.ownedShares = (k.voter a).ownedShares.set i x
  claims : v.nextClaim = (k.voter a).nextClaim.set i next
  owned_le : w ≠ some a → k.owned a i ≤ x
  next_mem : now.slot + p.claimPeriod * 2 < 2 ^ 32 →
    k.nextClaim a i ≤ now.slot + p.claimPeriod * 2 →
      k.nextClaim a i ≤ next ∧ next ≤ now.slot + p.claimPeriod * 2

/-- A step is a vote, a payment, or a change of one account's stake in one pool. -/
theorem StakeStep.cases (h : k.Kept) (hs : StakeStep now w k k') :
    (∃ voters, SameStake k.pools.length k.voters voters ∧ k' = ⟨voters, k.pools⟩) ∨
      (∃ pools, List.Forall₂ StakingPool.Credited k.pools pools ∧ k' = ⟨k.voters, pools⟩) ∨
      ∃ a i p p' v x next, StakePut now w k k' a i p p' v x next := by
  cases hs with
  | votes hv => exact .inl ⟨_, hv, rfl⟩
  | paid hc => exact .inr (.inl ⟨_, hc, rfl⟩)
  | @deposit a i amount pools v ha hd =>
    obtain ⟨p, hp, rfl, rfl⟩ := h.deposit2pool_eq_ok ha hd
    have hsolvent := h.book.solvent i p hp
    refine .inr (.inr ⟨a, i, p, _, _, _, _, rfl, hp, ?_, hsolvent.bought_price amount, rfl, rfl,
      rfl, rfl, fun _ => ?_, fun hfit hn => ?_⟩)
    · exact ((h.book.deposit2pool a ha now i).of_ok _ hd).1
    · exact le_add_of_nonneg_right (hsolvent.sharesBought_pos ha).le
    · exact claimSlot_mem hfit hn (hsolvent.value_nonneg (h.owned_nonneg a i)) ha
  | @withdraw a i requested sold pools v hw hd =>
    obtain ⟨p, x, hp, h₀, hx, rfl, rfl, rfl, -⟩ := h.withdrawFrom_eq_ok hd
    have hsolvent := h.book.solvent i p hp
    have hi : i < (k.voter a).nextClaim.length := by
      rw [h.claims a]
      exact (List.getElem?_eq_some_iff.mp hp).1
    refine .inr (.inr ⟨a, i, p, _, _, _, k.nextClaim a i, rfl, hp, ?_,
      hsolvent.sold_price h₀ (hx.trans (h.owned_le a hp)), rfl, rfl, rfl, ?_,
      fun hne => absurd hw hne, fun _ hn => ⟨le_rfl, hn⟩⟩)
    · exact ((h.book.withdrawFrom a i requested false).of_ok _ hd).1
    · -- the claim slots stay as they are
      rw [Stakes.nextClaim, List.getD_eq_getElem _ _ hi, List.set_getElem_self]
      rfl
  | @claim a i requested sold pools p v hw hp hnext hd =>
    obtain ⟨p₁, x, hp₁, h₀, hx, rfl, rfl, rfl, -⟩ := h.withdrawFrom_eq_ok hd
    obtain rfl : p = p₁ := Option.some.inj (hp.symm.trans hp₁)
    refine .inr (.inr ⟨a, i, p, _, _, _, _, rfl, hp, ?_,
      (h.book.solvent i p hp).sold_price h₀ (hx.trans (h.owned_le a hp)), rfl, rfl, rfl, rfl,
      fun hne => absurd hw hne, fun hfit _ => ?_⟩)
    · have hbook := ((h.book.withdrawFrom a i requested true).of_ok _ hd).1
      refine hbook.owned_congr fun b => ?_
      change (getOrCreatePoolVoter (k.voters.set a _) _ b).ownedShares = _
      rw [getOrCreatePoolVoter_set, getOrCreatePoolVoter_set]
      split_ifs <;> rfl
    · rw [Nat.mod_eq_of_lt hfit]
      exact ⟨hnext.trans (Nat.le_add_right _ _), le_rfl⟩

namespace StakePut

variable {a b : Name} {i j : ℕ} {p p' q : StakingPool K} {v : PoolVoter K} {x : K} {next : ℕ}

omit [FloorRing K] [IsStrictOrderedRing K] in
theorem owned_eq (h : StakePut now w k k' a i p p' v x next) (hk : k.Kept) :
    k'.owned b j = if b = a ∧ j = i then x else k.owned b j := by
  rw [h.state]
  refine Stakes.owned_put h.ownedShares ?_
  rw [hk.owned_length a]
  exact (List.getElem?_eq_some_iff.mp h.pool).1

omit [FloorRing K] [IsStrictOrderedRing K] in
theorem nextClaim_eq (h : StakePut now w k k' a i p p' v x next) (hk : k.Kept) :
    k'.nextClaim b j = if b = a ∧ j = i then next else k.nextClaim b j := by
  rw [h.state]
  refine Stakes.nextClaim_put h.claims ?_
  rw [hk.claims a]
  exact (List.getElem?_eq_some_iff.mp h.pool).1

omit [FloorRing K] [IsStrictOrderedRing K] in
theorem pools_eq (h : StakePut now w k k' a i p p' v x next) (hq : k'.pools[j]? = some q) :
    j = i ∧ q = p' ∨ j ≠ i ∧ k.pools[j]? = some q := by
  rw [h.state] at hq
  exact Stakes.pools_put hq

end StakePut

namespace StakeStep

/-- The number of pools does not change. -/
theorem length_eq (h : k.Kept) (hs : StakeStep now w k k') :
    k'.pools.length = k.pools.length := by
  rcases hs.cases h with ⟨_, -, rfl⟩ | ⟨_, hc, rfl⟩ | ⟨_, _, _, _, _, _, _, hput⟩
  · rfl
  · exact hc.length_eq.symm
  · rw [hput.state]
    exact List.length_set

/-- A step keeps the books. -/
theorem kept (h : k.Kept) (hs : StakeStep now w k k') : k'.Kept := by
  rcases hs.cases h with ⟨_, hv, rfl⟩ | ⟨_, hc, rfl⟩ | ⟨a, i, p, p', v, x, next, hput⟩
  · refine ⟨h.book.sameStake hv, fun b => ?_⟩
    rw [← h.claims b]
    exact congrArg List.length (hv.claims b)
  · refine ⟨h.book.credit hc, fun b => ?_⟩
    rw [← hc.length_eq, ← h.claims b, Stakes.voter, ← hc.length_eq]
    rfl
  · refine ⟨hput.book, fun b => ?_⟩
    rw [hput.state, Stakes.voter_put, Stakes.put, List.length_set]
    split_ifs
    · rw [hput.claims, List.length_set, h.claims]
    · exact h.claims b

/-- The price of a share is kept, and the periods of a pool do not change. -/
theorem pool (h : k.Kept) (hs : StakeStep now w k k') {j : ℕ} {q : StakingPool K}
    (hq : k'.pools[j]? = some q) :
    ∃ p, k.pools[j]? = some p ∧ p.tokenPool.PriceKept q.tokenPool ∧
      q.claimPeriod = p.claimPeriod ∧ q.duration = p.duration := by
  rcases hs.cases h with ⟨_, -, rfl⟩ | ⟨pools, hc, rfl⟩ | ⟨_, _, p, _, _, _, _, hput⟩
  · exact ⟨q, hq, .refl _, rfl, rfl⟩
  · obtain ⟨p, hp, amount, ha, rfl, -⟩ := Stakes.credited_of_getElem? hc hq
    refine ⟨p, hp, ?_, rfl, rfl⟩
    exact StakingPool.adjust_price ((h.book.solvent j p hp).shares_nonneg) ha
  · rcases hput.pools_eq hq with ⟨rfl, rfl⟩ | ⟨-, hp⟩
    · exact ⟨p, hput.pool, hput.price, hput.claimPeriod, hput.duration⟩
    · exact ⟨q, hp, .refl _, rfl, rfl⟩

/-- No pool is closed. -/
theorem exists_pool (h : k.Kept) (hs : StakeStep now w k k') {j : ℕ} {p : StakingPool K}
    (hp : k.pools[j]? = some p) :
    ∃ q, k'.pools[j]? = some q ∧ p.tokenPool.PriceKept q.tokenPool ∧
      q.claimPeriod = p.claimPeriod ∧ q.duration = p.duration := by
  have hj : j < k'.pools.length := by
    rw [hs.length_eq h]
    exact (List.getElem?_eq_some_iff.mp hp).1
  have hq := List.getElem?_eq_getElem hj
  obtain ⟨p₀, hp₀, heq⟩ := hs.pool h hq
  obtain rfl := Option.some.inj (hp.symm.trans hp₀)
  exact ⟨_, hq, heq⟩

/-- Nobody loses shares but the account that takes its stake out. -/
theorem owned_le (h : k.Kept) (hs : StakeStep now w k k') {b : Name} (hb : w ≠ some b) (j : ℕ) :
    k.owned b j ≤ k'.owned b j := by
  rcases hs.cases h with ⟨_, hv, rfl⟩ | ⟨pools, hc, rfl⟩ | ⟨a, i, _, _, _, _, _, hput⟩
  · exact (congrArg (fun l : List K => l.getD j 0) (hv.owned b)).ge
  · rw [Stakes.owned, Stakes.owned, Stakes.voter, Stakes.voter, hc.length_eq]
  · rw [hput.owned_eq h]
    split_ifs with hab
    · obtain ⟨rfl, rfl⟩ := hab
      exact hput.owned_le hb
    · exact le_rfl

/-- Claim slots move forward, and not past that of new stake. -/
theorem nextClaim_mem (h : k.Kept) (hs : StakeStep now w k k') {b : Name} {j : ℕ}
    {q : StakingPool K} (hq : k.pools[j]? = some q) (hfit : now.slot + q.claimPeriod * 2 < 2 ^ 32)
    (hn : k.nextClaim b j ≤ now.slot + q.claimPeriod * 2) :
    k.nextClaim b j ≤ k'.nextClaim b j ∧ k'.nextClaim b j ≤ now.slot + q.claimPeriod * 2 := by
  rcases hs.cases h with ⟨_, hv, rfl⟩ | ⟨pools, hc, rfl⟩ | ⟨a, i, p, _, _, _, _, hput⟩
  · have heq := congrArg (fun l : List ℕ => l.getD j 0) (hv.claims b)
    exact ⟨heq.ge, heq.le.trans hn⟩
  · have heq : Stakes.nextClaim ⟨k.voters, pools⟩ b j = k.nextClaim b j := by
      rw [Stakes.nextClaim, Stakes.nextClaim, Stakes.voter, Stakes.voter, hc.length_eq]
    exact ⟨heq.ge, heq.le.trans hn⟩
  · rw [hput.nextClaim_eq h]
    split_ifs with hab
    · obtain ⟨rfl, rfl⟩ := hab
      obtain rfl : q = p := Option.some.inj (hq.symm.trans hput.pool)
      exact hput.next_mem hfit hn
    · exact ⟨le_rfl, hn⟩

/-- **Nobody's stake loses value by what others do.** -/
theorem value_le (h : k.Kept) (hs : StakeStep now w k k') {b : Name} (hb : w ≠ some b) {j : ℕ}
    {p : StakingPool K} (hp : k.pools[j]? = some p) :
    ∃ p', k'.pools[j]? = some p' ∧
      p.tokenPool.value (k.owned b j) ≤ p'.tokenPool.value (k'.owned b j) := by
  obtain ⟨p', hp', hprice, -⟩ := hs.exists_pool h hp
  have hk' := hs.kept h
  exact ⟨p', hp', hprice.value_le (hk'.book.solvent j p' hp') (h.owned_nonneg b j)
    (h.owned_le b hp) (hs.owned_le h hb j) (hk'.owned_le b hp')⟩

end StakeStep

end EosioSystem
