import EosioSystem.PoolWeights
import EosioSystem.VoteEvents

/-!
# The registration of producers

A producer is active or not, and once it has registered with the staking pools it has pool votes
and a row in the totals, which says again whether it is active. Registrations and removals write
both tables; the votes, the pay and all other actions leave the registration as it is.

## Main definitions

* `SameRegistration`: each producer is registered as before
* `State.KeepsRows`: the totals and the registrations are as before
* `Ranked`: the totals are those of registered producers

## Main results

* `Action.exec_keepsRows`: which actions touch neither
* `rankedPools_of_run`: **the totals and the producers agree** in every reachable state
-/

namespace EosioSystem

open Checked

variable {K : Type}

/-- Whether a producer is active, and whether it has pool votes. -/
def ProducerInfo.registration (p : ProducerInfo K) : Bool × Bool := (p.isActive, p.poolVotes.isSome)

/-- Each producer is registered as before. -/
def SameRegistration (t t' : Table Name (ProducerInfo K)) : Prop :=
  t.AgreeOn ProducerInfo.registration t'

namespace SameRegistration

variable {t t₁ t' : Table Name (ProducerInfo K)}

theorem refl (t : Table Name (ProducerInfo K)) : SameRegistration t t := Table.AgreeOn.refl _ _

theorem trans (h₁ : SameRegistration t t₁) (h₂ : SameRegistration t₁ t') : SameRegistration t t' :=
  Table.AgreeOn.trans h₁ h₂

theorem set {p : Name} {old prod : ProducerInfo K} (hf : t.find p = some old)
    (h : prod.registration = old.registration) : SameRegistration t (t.set p prod) :=
  Table.AgreeOn.set hf h

theorem of_kept (h : ProducersKept t t') : SameRegistration t t' := by
  intro p
  have hp := congrArg (Option.map fun r : Bool × Option (List K) => (r.1, r.2.isSome)) (h.find p)
  rw [Option.map_map, Option.map_map] at hp
  exact hp

theorem of_recount (h : PoolRecount t t') : SameRegistration t t' := by
  induction h with
  | refl => exact .refl t
  | set l' _ hf hl ih => exact ih.trans (.set hf (by simp [ProducerInfo.registration, hl]))

theorem of_counted {producer : Name} (h : State.Counted producer t t') : SameRegistration t t' := by
  rcases h with rfl | ⟨prod, hf, rfl⟩
  · exact .refl _
  · exact .set hf rfl

end SameRegistration

section

variable [Field K]

/-! ## Rows that stay -/

/-- The totals and the registrations are as before, and the pools stay configured. -/
structure State.KeepsRows (s s' : State K) : Prop where
  totals : s'.pools.totals = s.pools.totals
  producers : SameRegistration s.vote.producers s'.vote.producers
  state : s'.pools.state = none → s.pools.state = none

namespace State

variable {s s₁ s' : State K} {now : BlockTimestamp}

namespace KeepsRows

omit [Field K]

theorem trans (h₁ : KeepsRows s s₁) (h₂ : KeepsRows s₁ s') : KeepsRows s s' :=
  ⟨h₂.totals.trans h₁.totals, h₁.producers.trans h₂.producers, fun h => h₁.state (h₂.state h)⟩

/-- The voting tables and the tokens may change. -/
theorem of_pools (hp : s'.pools = s.pools)
    (hv : SameRegistration s.vote.producers s'.vote.producers) : KeepsRows s s' :=
  ⟨by rw [hp], hv, fun h => by rwa [hp] at h⟩

theorem of_eq (hp : s'.pools = s.pools) (hv : s'.vote = s.vote) : KeepsRows s s' :=
  of_pools hp (hv ▸ .refl _)

end KeepsRows

theorem updatePoolVotes_keepsRows {a proxy : Name} {producers : List Name} {voting : Bool}
    (h : s.updatePoolVotes a proxy producers voting = .ok s') : KeepsRows s s' := by
  simp only [updatePoolVotes, bind_eq_ok, poolState_eq_ok, pure_eq_ok] at h
  obtain ⟨st, hst, pv, hpv, rfl⟩ := h
  exact ⟨rfl, (.of_recount (PoolVotes.updatePoolVotes_recount hpv)), fun h => by cases h⟩

theorem recastVotes_keepsRows {a : Name} (h : s.recastVotes a = .ok s') : KeepsRows s s' := by
  obtain ⟨_, -, h⟩ := bind_eq_ok.mp h
  exact updatePoolVotes_keepsRows h

omit [Field K] in
theorem setPools_keepsRows (token : Token) (st : StakingPoolState K)
    (voters : Table Name (PoolVoter K)) :
    KeepsRows s (({ s with token } : State K).setPools st voters) :=
  ⟨rfl, .refl _, fun h => by cases h⟩

variable [LinearOrder K]

theorem transitionChannelToPools_keepsRows {sender : Name} {amount rest : ℤ} {part : Bool}
    (h : s.transitionChannelToPools now sender amount part = .ok (s', rest)) : KeepsRows s s' := by
  rcases transitionChannelToPools_cases h with ⟨rfl, -⟩ | ⟨st, token, hst, -, ht, rfl, -⟩
  · exact .of_eq rfl rfl
  · exact ⟨rfl, .refl _, fun h => by cases h⟩

theorem channelToRexOrPools_keepsRows {sender : Name} {amount : ℤ} {req : Bool}
    (h : s.channelToRexOrPools now sender amount req = .ok s') : KeepsRows s s' := by
  obtain ⟨s₁, rest, h₁, h₂⟩ := channelToRexOrPools_cases h
  have hk := transitionChannelToPools_keepsRows h₁
  rcases h₂ with rfl | h₂
  · exact hk
  · rcases channelToRex_cases h₂ with ⟨-, rfl⟩ | ⟨rex, token, -, -, -, rfl⟩
    · exact hk
    · exact hk.trans (.of_eq rfl rfl)

theorem payRamFee_keepsRows {payer : Name} {fee : ℤ} (h : s.payRamFee now payer fee = .ok s') :
    KeepsRows s s' := by
  unfold payRamFee at h
  split_ifs at h
  · obtain ⟨token, -, h⟩ := bind_eq_ok.mp h
    have htoken : s.KeepsRows { s with token } := .of_eq rfl rfl
    exact htoken.trans (channelToRexOrPools_keepsRows h)
  · exact pure_eq_ok.mp h ▸ .of_eq rfl rfl

theorem distributeNamebidToPools_keepsRows (h : s.distributeNamebidToPools now = .ok s') :
    KeepsRows s s' := by
  unfold distributeNamebidToPools at h
  split at h
  · exact pure_eq_ok.mp h ▸ .of_eq rfl rfl
  · split_ifs at h
    · obtain ⟨⟨s₁, rest⟩, hc, h⟩ := bind_eq_ok.mp h
      obtain rfl := pure_eq_ok.mp h
      refine (transitionChannelToPools_keepsRows hc).trans ⟨rfl, .refl _, fun h => ?_⟩
      exact Option.map_eq_none_iff.mp h
    · exact pure_eq_ok.mp h ▸ .of_eq rfl rfl

theorem buyram_keepsRows {payer receiver : Name} {quant : Asset}
    (h : s.buyram now payer receiver quant = .ok s') : KeepsRows s s' := by
  simp only [buyram, bind_eq_ok, requireAuth_eq_ok, check_eq_ok, checkCore_eq_ok, exists_const,
    pure_eq_ok] at h
  obtain ⟨-, ram, -, -, -, token, -, s₁, hf, ⟨ram', _⟩, -, rfl⟩ := h
  have hk := payRamFee_keepsRows hf
  exact ⟨hk.totals, hk.producers, hk.state⟩

theorem sellram_keepsRows {account : Name} {bytes : ℤ} (h : s.sellram now account bytes = .ok s') :
    KeepsRows s s' := by
  simp only [sellram, bind_eq_ok, requireAuth_eq_ok, check_eq_ok, exists_const] at h
  obtain ⟨-, ram, -, -, _, -, -, _, -, ⟨ram', tokens⟩, -, token, -, hf⟩ := h
  have hk := payRamFee_keepsRows hf
  exact ⟨hk.totals, hk.producers, hk.state⟩

theorem cfgsrpool_keepsRows {args : PoolConfig K} (h : s.cfgsrpool now args = .ok s') :
    KeepsRows s s' := by
  unfold cfgsrpool at h
  obtain ⟨core, -, h⟩ := bind_eq_ok.mp h
  split at h
  · simp only [bind_eq_ok, pure_eq_ok] at h
    obtain ⟨st, -, st', -, rfl⟩ := h
    refine ⟨rfl, ?_, fun h => by cases h⟩
    dsimp only
    split_ifs <;> exact .refl _
  · simp only [bind_eq_ok, pure_eq_ok] at h
    obtain ⟨_, -, _, -, _, -, st', -, rfl⟩ := h
    exact ⟨rfl, .refl _, fun h => by cases h⟩

theorem onblock_keepsRows (timestamp : BlockTimestamp) (producer : Name) :
    KeepsRows s (s.onblock now timestamp producer) := by
  obtain ⟨_, _, _, q, r, names, pay, producers, he, hc, -⟩ := s.onblock_eq now timestamp producer
  rw [he]
  refine ⟨rfl, .of_counted hc, fun h => ?_⟩
  simpa [addNamebids] using h

variable [FloorRing K]

theorem powerup_keepsRows [CMath K] {payer receiver : Name} {days : ℕ} {net cpu : ℤ}
    {maxPayment : Asset} (h : s.powerup now payer receiver days net cpu maxPayment = .ok s') :
    KeepsRows s s' := by
  simp only [powerup, bind_eq_ok, requireAuth_eq_ok, check_eq_ok, checkCore_eq_ok, exists_const,
    pure_eq_ok] at h
  obtain ⟨-, m, -, -, -, -, -, -, -, ⟨s₁, m₁, _, _⟩, hq, _, -, _, -, -, -, s₂, h₂, s₃, h₃, s₄, h₄,
    rfl⟩ := h
  obtain ⟨res, powup, rfl⟩ := processPowerupQueue_frame hq
  obtain ⟨res₂, rfl⟩ := adjustResources_frame h₂
  obtain ⟨res₃, rfl⟩ := adjustResources_frame h₃
  have hk := channelToRexOrPools_keepsRows h₄
  exact ⟨hk.totals, hk.producers, hk.state⟩

theorem stake2pool_keepsRows {owner : Name} {i : ℕ} {amount : Asset}
    (h : s.stake2pool now owner i amount = .ok s') : KeepsRows s s' := by
  simp only [stake2pool, bind_eq_ok] at h
  obtain ⟨_, -, st, -, _, -, _, -, _, -, _, -, token, -, h⟩ := h
  exact (setPools_keepsRows _ _ _).trans (recastVotes_keepsRows h)

theorem claimstake_keepsRows {owner : Name} {i : ℕ} {requested : Asset}
    (h : s.claimstake now owner i requested = .ok s') : KeepsRows s s' := by
  simp only [claimstake, bind_eq_ok] at h
  obtain ⟨_, -, _, -, _, -, _, -, _, -, _, -, s₁, hd, st, -, _, -, _, -, ⟨_, _, _⟩, -, _, -, token,
    -, h⟩ := h
  exact (distributeNamebidToPools_keepsRows hd).trans
    ((setPools_keepsRows _ _ _).trans (recastVotes_keepsRows h))

theorem transferstake_keepsRows {env : Env} {sender receiver : Name} {i : ℕ} {requested : Asset}
    {memo : String} (h : s.transferstake env sender receiver i requested memo = .ok s') :
    KeepsRows s s' := by
  simp only [transferstake, bind_eq_ok] at h
  obtain ⟨_, -, _, -, _, -, _, -, st, -, _, -, _, -, _, -, _, -, _, -, ⟨_, _, _⟩, -, _, -, ⟨_, _⟩,
    -, _, -, s₁, h₁, h₂⟩ := h
  exact ((setPools_keepsRows s.token _ _).trans (recastVotes_keepsRows h₁)).trans
    (recastVotes_keepsRows h₂)

theorem upgradestake_keepsRows {owner : Name} {i j : ℕ} {requested : Asset}
    (h : s.upgradestake now owner i j requested = .ok s') : KeepsRows s s' := by
  simp only [upgradestake, bind_eq_ok] at h
  obtain ⟨_, -, st, -, _, -, _, -, _, -, _, -, _, -, _, -, ⟨_, _, _⟩, -, _, -, ⟨_, _⟩, -, _, -,
    h⟩ := h
  exact (setPools_keepsRows s.token _ _).trans (recastVotes_keepsRows h)

end State

variable [LinearOrder K] [FloorRing K] [CMath K] {s s' : State K}

/-- The actions that write the totals or the registration of a producer. -/
def Action.writesRows : Action K → Bool
  | regproducer .. | unregprod .. | rmvproducer .. | updatevotes .. | updatepay ..
  | claimvotepay .. => true
  | _ => false

/-- **The other actions** leave the totals and the registrations as they are. -/
theorem Action.exec_keepsRows {env : Env} {x : Action K} (h : x.exec env s = .ok s')
    (hx : x.writesRows = false) : s.KeepsRows s' := by
  have hframe (hp : Part.pools ∉ x.parts) (hpool : x.isPool = false) : s.KeepsRows s' := by
    have hsame : s'.pools = s.pools := (Action.exec_changes h).same .pools hp
    have hpools (hi : x.isPool = true) : s.KeepsRows s' := by
      rw [hpool] at hi
      cases hi
    cases Action.exec_vote h with
    | kept hk => exact .of_pools hsame (.of_kept hk.producers)
    | vote _ hk _ => exact .of_pools hsame (.of_kept hk)
    | register _ hk _ => exact .of_pools hsame (.of_kept hk)
    | manage _ _ hk => exact .of_pools hsame (hk ▸ .refl _)
    | producers hi _ => exact hpools hi
  cases x with
  | cfgsrpool => exact State.cfgsrpool_keepsRows h
  | stake2pool => exact State.stake2pool_keepsRows h
  | claimstake => exact State.claimstake_keepsRows h
  | transferstake => exact State.transferstake_keepsRows h
  | upgradestake => exact State.upgradestake_keepsRows h
  | buyram => exact State.buyram_keepsRows h
  | buyrambytes =>
    simp only [exec, State.buyrambytes, bind_eq_ok] at h
    obtain ⟨_, -, _, -, _, -, h⟩ := h
    exact State.buyram_keepsRows h
  | sellram => exact State.sellram_keepsRows h
  | powerup => exact State.powerup_keepsRows h
  | onblock timestamp producer =>
    exact Except.ok.inj h ▸ State.onblock_keepsRows timestamp producer
  | setpoolnotif =>
    simp only [exec, State.setpoolnotif, bind_eq_ok, pure_eq_ok] at h
    obtain ⟨_, -, st, -, rfl⟩ := h
    exact State.setPools_keepsRows s.token _ _
  | votewithpool =>
    simp only [exec, State.votewithpool, bind_eq_ok] at h
    obtain ⟨_, -, _, -, _, -, h⟩ := h
    exact State.updatePoolVotes_keepsRows h
  | regpoolproxy =>
    simp only [exec, State.regpoolproxy, bind_eq_ok, pure_eq_ok] at h
    obtain ⟨_, -, st, -, _, -, pv, hpv, rfl⟩ := h
    exact ⟨rfl, (.of_recount (PoolVotes.updatePoolProxy_recount hpv)), fun h => by cases h⟩
  | regproducer | unregprod | rmvproducer | updatevotes | updatepay | claimvotepay => cases hx
  | _ => exact hframe (by simp [parts]) rfl

/-! ## The totals -/

omit [Field K] [LinearOrder K] [FloorRing K] [CMath K] in
/-- The rows of some totals are those of the same producers, which are as active as before. -/
def SameActive (t t' : Table Name (TotalPoolVotes K)) : Prop :=
  ∀ p, (t'.find p).map TotalPoolVotes.active = (t.find p).map TotalPoolVotes.active

/-- Whether a producer is active, if it has pool votes. -/
def rank (producers : Table Name (ProducerInfo K)) (p : Name) : Option Bool :=
  (producers.find p).bind fun prod => if prod.poolVotes.isSome then some prod.isActive else none

/-- The totals are those of the producers with pool votes, and none is negative. -/
structure Ranked (s : State K) : Prop where
  rows : ∀ p, (s.pools.totals.find p).map TotalPoolVotes.active = rank s.vote.producers p
  nonneg : ∀ p t, s.pools.totals.find p = some t → 0 ≤ t.votes

omit [Field K] [LinearOrder K] [FloorRing K] [CMath K] in
theorem SameRegistration.rank_eq {t t' : Table Name (ProducerInfo K)} (h : SameRegistration t t')
    (p : Name) : rank t' p = rank t p := by
  have hrank (t : Table Name (ProducerInfo K)) : rank t p =
      ((t.find p).map ProducerInfo.registration).bind fun r => if r.2 then some r.1 else none := by
    rw [rank, Option.bind_map]
    rfl
  rw [hrank, hrank, h p]

omit [FloorRing K] [CMath K] in
theorem Ranked.keepsRows (h : Ranked s) (hk : s.KeepsRows s') : Ranked s' := by
  refine ⟨fun p => ?_, fun p t hf => ?_⟩
  · rw [hk.totals, hk.producers.rank_eq, h.rows]
  · exact h.nonneg p t (hk.totals ▸ hf)

/-! ### Pay -/

namespace SameActive

omit [LinearOrder K] [FloorRing K] [CMath K] [Field K]

variable {t t₁ t' : Table Name (TotalPoolVotes K)}

theorem refl (t : Table Name (TotalPoolVotes K)) : SameActive t t := fun _ => rfl

theorem trans (h₁ : SameActive t t₁) (h₂ : SameActive t₁ t') : SameActive t t' :=
  fun p => (h₂ p).trans (h₁ p)

theorem set {p : Name} {old r : TotalPoolVotes K} (hf : t.find p = some old)
    (h : r.active = old.active) : SameActive t (t.set p r) := by
  intro q
  rw [Table.find_set]
  split_ifs with hq
  · rw [hq, hf, Option.map_some, Option.map_some, h]
  · rfl

end SameActive

omit [CMath K] [FloorRing K] in
/-- Votes that are not negative have a weight that is not negative. -/
theorem calcVotes_nonneg [IsStrictOrderedRing K] {pools : List (StakingPool K)} {poolVotes : List K}
    {q : K} (hw : ∀ p ∈ pools, 0 < p.voteWeight) (hv : ∀ v ∈ poolVotes, 0 ≤ v)
    (h : calcVotes pools poolVotes = .ok q) : 0 ≤ q := by
  simp only [calcVotes, check_bind_eq_ok, pure_eq_ok] at h
  obtain ⟨-, rfl⟩ := h
  refine List.sum_nonneg fun x hx => ?_
  obtain ⟨i, hi, rfl⟩ := List.mem_iff_getElem.mp hx
  rw [List.getElem_zipWith]
  exact mul_nonneg (hv _ (List.getElem_mem _)) (hw _ (List.getElem_mem _)).le

/-- The pools have positive weights, and no producer has negative pool votes. -/
structure State.VotesNonneg (s : State K) : Prop where
  weights : ∀ st, s.pools.state = some st → ∀ p ∈ st.pools, 0 < p.voteWeight
  votes : ∀ p prod votes, s.vote.producers.find p = some prod → prod.poolVotes = some votes →
    ∀ v ∈ votes, 0 ≤ v

section

variable [IsStrictOrderedRing K]

omit [Field K] [FloorRing K] [CMath K] [IsStrictOrderedRing K] in
theorem votes_nonneg_set [Zero K] {totals : Table Name (TotalPoolVotes K)} {a : Name}
    {r : TotalPoolVotes K} (hr : 0 ≤ r.votes)
    (h : ∀ p t, totals.find p = some t → 0 ≤ t.votes) :
    ∀ p t, (totals.set a r).find p = some t → 0 ≤ t.votes := by
  intro p t hf
  rw [Table.find_set] at hf
  split_ifs at hf
  · cases hf
    exact hr
  · exact h p t hf

omit [CMath K] [FloorRing K] in
theorem refreshVotes_active {pools : List (StakingPool K)} {producers : Table Name (ProducerInfo K)}
    {l : List Name} {totals totals' : Table Name (TotalPoolVotes K)}
    (hw : ∀ p ∈ pools, 0 < p.voteWeight)
    (hv : ∀ p prod votes, producers.find p = some prod → prod.poolVotes = some votes →
      ∀ v ∈ votes, 0 ≤ v)
    (hn : ∀ p t, totals.find p = some t → 0 ≤ t.votes)
    (h : refreshVotes pools producers l totals = .ok totals') :
    SameActive totals totals' ∧ ∀ p t, totals'.find p = some t → 0 ≤ t.votes := by
  induction l generalizing totals with
  | nil => exact pure_eq_ok.mp h ▸ ⟨.refl _, hn⟩
  | cons a l ih =>
    simp only [refreshVotes, bind_eq_ok, require_eq_ok] at h
    obtain ⟨t, hf, prod, hp, votes, hvotes, q, hq, h⟩ := h
    have hnonneg := calcVotes_nonneg hw (hv a prod votes hp hvotes) hq
    have hset : SameActive totals (totals.set a { t with votes := q }) := .set hf rfl
    obtain ⟨hs, hn'⟩ := ih (votes_nonneg_set hnonneg hn) h
    exact ⟨hset.trans hs, hn'⟩

omit [CMath K] [IsStrictOrderedRing K] in
theorem payProducers_active {target : ℤ} {totalVotes maxVotes votesPaid : K} {l : List Name}
    {paid : ℤ} {totals totals' : Table Name (TotalPoolVotes K)} {paid' : ℤ}
    (hn : ∀ p t, totals.find p = some t → 0 ≤ t.votes)
    (h : State.payProducers target totalVotes maxVotes l totals votesPaid paid =
      .ok (totals', paid')) :
    SameActive totals totals' ∧ ∀ p t, totals'.find p = some t → 0 ≤ t.votes := by
  induction l generalizing totals votesPaid paid with
  | nil =>
    cases h
    exact ⟨.refl _, hn⟩
  | cons a l ih =>
    unfold State.payProducers at h
    split_ifs at h
    · cases h
      exact ⟨.refl _, hn⟩
    · obtain ⟨t, hf, h⟩ := bind_eq_ok.mp h
      have hf' := require_eq_ok.mp hf
      generalize hpay : truncate (target * t.votes / totalVotes) = pay at h
      have hset : SameActive totals (totals.set a { t with votePay := t.votePay + pay }) :=
        .set hf' rfl
      have hn₁ := votes_nonneg_set (a := a) (r := { t with votePay := t.votePay + pay })
        (hn a t hf') hn
      obtain ⟨hs, hn'⟩ := ih hn₁ h
      exact ⟨hset.trans hs, hn'⟩

namespace Ranked

variable {now : BlockTimestamp}

omit [FloorRing K] [CMath K] [IsStrictOrderedRing K]

/-- Both tables say the same about a producer. -/
theorem put (h : Ranked s) {p : Name} {prod : ProducerInfo K} {r : TotalPoolVotes K}
    (hp : s'.vote.producers = s.vote.producers.set p prod)
    (ht : s'.pools.totals = s.pools.totals.set p r) (hv : prod.poolVotes.isSome = true)
    (ha : r.active = prod.isActive) (hr : 0 ≤ r.votes) : Ranked s' := by
  refine ⟨fun q => ?_, ht ▸ votes_nonneg_set hr h.nonneg⟩
  rw [ht, hp, rank, Table.find_set, Table.find_set]
  split_ifs with hq
  · rw [Option.map_some, Option.bind_some, if_pos hv, ha]
  · exact h.rows q

/-- A producer without pool votes has no row. -/
theorem setProducer (h : Ranked s) {p : Name} {prod : ProducerInfo K}
    (hp : s'.vote.producers = s.vote.producers.set p prod) (ht : s'.pools.totals = s.pools.totals)
    (hv : prod.poolVotes = none) (hrow : s.pools.totals.find p = none) : Ranked s' := by
  refine ⟨fun q => ?_, ht ▸ h.nonneg⟩
  rw [ht, hp, rank, Table.find_set]
  split_ifs with hq
  · rw [hq, hrow, Option.bind_some, hv]
    rfl
  · exact h.rows q

/-- The rows change, but not which producers have one. -/
theorem setTotals (h : Ranked s) (hp : s'.vote.producers = s.vote.producers)
    (ht : SameActive s.pools.totals s'.pools.totals)
    (hn : ∀ p t, s'.pools.totals.find p = some t → 0 ≤ t.votes) : Ranked s' :=
  ⟨fun p => by rw [ht p, hp, h.rows], hn⟩

theorem find_eq_none (h : Ranked s) {p : Name}
    (hp : ∀ prod, s.vote.producers.find p = some prod → prod.poolVotes = none) :
    s.pools.totals.find p = none := by
  have hrow := h.rows p
  have hrank : rank s.vote.producers p = none := by
    unfold rank
    cases hf : s.vote.producers.find p with
    | none => rfl
    | some prod => rw [Option.bind_some, hp prod hf]; rfl
  rw [hrank] at hrow
  exact Option.map_eq_none_iff.mp hrow

omit [LinearOrder K] in
/-- What a producer gets when it registers. -/
theorem enableProdPoolVotes_cases {producer : Name} {poolVotes : Option (List K)}
    {r : Option (List K) × Table Name (TotalPoolVotes K)}
    (h : s.enableProdPoolVotes producer poolVotes = .ok r) :
    (s.pools.state = none ∧ r = (poolVotes, s.pools.totals)) ∨
      ∃ t, r.1.isSome = true ∧ r.2 = s.pools.totals.set producer t ∧ t.active = true ∧
        (t.votes = 0 ∨ ∃ old, s.pools.totals.find producer = some old ∧ t.votes = old.votes) := by
  unfold State.enableProdPoolVotes at h
  split at h
  · exact .inl ⟨‹_›, (pure_eq_ok.mp h).symm⟩
  · simp only [bind_eq_ok, require_eq_ok, pure_eq_ok] at h
    obtain ⟨t, hf, rfl⟩ := h
    exact .inr ⟨_, rfl, rfl, rfl, .inr ⟨t, hf, rfl⟩⟩
  · simp only [check_bind_eq_ok, pure_eq_ok] at h
    obtain ⟨-, rfl⟩ := h
    exact .inr ⟨_, rfl, rfl, rfl, .inl rfl⟩

/-- A registration writes both tables. -/
theorem registerProducer (h : Ranked s) (hall : AllTallied s) {producer : Name}
    (hs : s.registerProducer now producer = .ok s') : Ranked s' := by
  have hput {r : Option (List K) × Table Name (TotalPoolVotes K)} {p : ProducerInfo K}
      {poolVotes : Option (List K)} (he : s.enableProdPoolVotes producer poolVotes = .ok r)
      (hold : ∀ old, s.vote.producers.find producer = some old → old.poolVotes = poolVotes)
      (hnew : s.vote.producers.find producer = none → poolVotes = none)
      (hprod : p.poolVotes = r.1) (ha : p.isActive = true)
      (hp : s'.vote.producers = s.vote.producers.set producer p)
      (ht : s'.pools.totals = r.2) : Ranked s' := by
    rcases enableProdPoolVotes_cases he with ⟨hst, rfl⟩ | ⟨t, hsome, htotals, hact, hvotes⟩
    · -- without pools nobody has pool votes
      have hnone : ∀ old, s.vote.producers.find producer = some old → old.poolVotes = none := by
        have hall' : PoolsTallied _ s := hall
        simp only [PoolsTallied, hst] at hall'
        exact hall'.2 producer
      refine h.setProducer hp ht (hprod.trans ?_) (h.find_eq_none hnone)
      cases hf : s.vote.producers.find producer with
      | none => exact hnew hf
      | some old => exact (hold old hf).symm.trans (hnone old hf)
    · refine h.put hp (ht.trans htotals) (hprod ▸ hsome) (hact.trans ha.symm) ?_
      rcases hvotes with hz | ⟨old, hf, hv⟩
      · exact hz.ge
      · exact hv ▸ h.nonneg producer old hf
  unfold State.registerProducer at hs
  split at hs
  · rename_i info hf
    obtain ⟨r, he, hs⟩ := bind_eq_ok.mp hs
    obtain rfl := pure_eq_ok.mp hs
    refine hput (p := { info with
      isActive := true
      lastClaimTime := if info.lastClaimTime = 0 then now.usec else info.lastClaimTime
      poolVotes := r.1 }) he (fun old ho => ?_) (fun hn => ?_) rfl rfl ?_ rfl
    · rw [hf] at ho
      cases ho
      rfl
    · rw [hf] at hn
      cases hn
    · dsimp only
      split <;> rfl
  · rename_i hf
    simp only [bind_eq_ok, pure_eq_ok] at hs
    obtain ⟨r, he, _, -, rfl⟩ := hs
    refine hput (p := ⟨0, true, 0, now.usec, r.1⟩) he (fun old ho => ?_) (fun _ => rfl) rfl rfl
      rfl rfl
    rw [hf] at ho
    cases ho

/-- A producer that leaves is inactive in both tables. -/
theorem deactivateProducer (h : Ranked s) {producer : Name}
    (hs : s.deactivateProducer producer = .ok s') : Ranked s' := by
  simp only [State.deactivateProducer, bind_eq_ok, require_eq_ok, pure_eq_ok] at hs
  obtain ⟨prod, hf, rfl⟩ := hs
  have hrow := h.rows producer
  rw [rank, hf, Option.bind_some] at hrow
  cases ht : s.pools.totals.find producer with
  | none =>
    rw [ht, Option.map_none] at hrow
    refine h.setProducer rfl rfl ?_ ht
    cases hv : prod.poolVotes with
    | none => rfl
    | some votes => simp [hv] at hrow
  | some t =>
    rw [ht, Option.map_some] at hrow
    refine h.put rfl rfl ?_ rfl (h.nonneg producer t ht)
    by_contra hv
    simp [hv] at hrow

theorem updatevotes [IsStrictOrderedRing K] (h : Ranked s) (hn : s.VotesNonneg)
    {user producer : Name} (hs : s.updatevotes user producer = .ok s') : Ranked s' := by
  simp only [State.updatevotes, bind_eq_ok, require_eq_ok, State.poolState_eq_ok,
    pure_eq_ok] at hs
  obtain ⟨_, -, prod, hf, _, -, votes, hv, t, ht, st, hst, q, hq, rfl⟩ := hs
  have hnonneg := calcVotes_nonneg (hn.weights st hst) (hn.votes producer prod votes hf hv) hq
  exact h.setTotals rfl (.set ht rfl) (votes_nonneg_set hnonneg h.nonneg)

theorem claimvotepay (h : Ranked s) {producer : Name} (hs : s.claimvotepay producer = .ok s') :
    Ranked s' := by
  simp only [State.claimvotepay, bind_eq_ok, require_eq_ok, pure_eq_ok] at hs
  obtain ⟨_, -, t, ht, _, -, token, -, rfl⟩ := hs
  exact h.setTotals rfl (.set ht rfl) (votes_nonneg_set (h.nonneg producer t ht) h.nonneg)

variable [FloorRing K] [IsStrictOrderedRing K]

theorem updatepay (h : Ranked s) (hn : s.VotesNonneg) {user : Name}
    (hs : s.updatepay user = .ok s') : Ranked s' := by
  simp only [State.updatepay, bind_eq_ok, State.poolState_eq_ok, pure_eq_ok] at hs
  obtain ⟨_, -, st, hst, _, -, totals₁, htotals, totalVotes, -, ⟨totals₂, prodPay⟩, hpay, token, -,
    rfl⟩ := hs
  obtain ⟨hact₁, hn₁⟩ := refreshVotes_active (hn.weights st hst) hn.votes h.nonneg htotals
  have hpay' : SameActive totals₁ totals₂ ∧ ∀ p t, totals₂.find p = some t → 0 ≤ t.votes := by
    split_ifs at hpay
    · exact payProducers_active hn₁ hpay
    · cases hpay
      exact ⟨.refl _, hn₁⟩
  exact h.setTotals rfl (hact₁.trans hpay'.1) hpay'.2

/-- **An action** keeps the totals those of the producers. -/
theorem exec [CMath K] (h : Ranked s) (hall : AllTallied s) (hn : s.VotesNonneg) {env : Env}
    {x : Action K} (hs : x.exec env s = .ok s') : Ranked s' := by
  cases hx : x.writesRows with
  | false => exact h.keepsRows (Action.exec_keepsRows hs hx)
  | true =>
    cases x with
    | regproducer =>
      simp only [Action.exec, State.regproducer, bind_eq_ok] at hs
      obtain ⟨_, -, _, -, hs⟩ := hs
      exact h.registerProducer hall hs
    | unregprod =>
      obtain ⟨_, -, hs⟩ := bind_eq_ok.mp hs
      exact h.deactivateProducer hs
    | rmvproducer => exact h.deactivateProducer hs
    | updatevotes => exact h.updatevotes hn hs
    | updatepay => exact h.updatepay hn hs
    | claimvotepay => exact h.claimvotepay hs
    | _ => cases hx

end Ranked

/-! ## The weights of the pools -/

omit [CMath K] in
/-- Deposits, withdrawals and payments leave the weights of the pools as they are. -/
theorem StakeStep.weights {now : BlockTimestamp} {w : Option Name} {k k' : Stakes K} (hk : k.Kept)
    (h : StakeStep now w k k') (hw : ∀ p ∈ k.pools, 0 < p.voteWeight) :
    ∀ p ∈ k'.pools, 0 < p.voteWeight := by
  have hset {i : ℕ} {p p' : StakingPool K} (hp : k.pools[i]? = some p)
      (hweight : p'.voteWeight = p.voteWeight) : ∀ q ∈ k.pools.set i p', 0 < q.voteWeight := by
    intro q hq
    rcases List.mem_or_eq_of_mem_set hq with hmem | rfl
    · exact hw q hmem
    · exact hweight ▸ hw p (List.mem_of_getElem? hp)
  cases h with
  | votes => exact hw
  | paid hc =>
    intro q hq
    obtain ⟨i, hi⟩ := List.mem_iff_getElem?.mp hq
    obtain ⟨p, hp, amount, -, rfl, -⟩ := Stakes.credited_of_getElem? hc hi
    exact hw p (List.mem_of_getElem? hp)
  | deposit ha hd =>
    obtain ⟨p, hp, rfl, -⟩ := hk.deposit2pool_eq_ok ha hd
    exact hset hp rfl
  | withdraw _ hd =>
    obtain ⟨p, x, hp, -, -, rfl, -⟩ := hk.withdrawFrom_eq_ok hd
    exact hset hp rfl
  | claim _ _ _ hd =>
    obtain ⟨p, x, hp, -, -, rfl, -⟩ := hk.withdrawFrom_eq_ok hd
    exact hset hp rfl

omit [FloorRing K] [CMath K] [IsStrictOrderedRing K] in
theorem newPools_weights {durations claimPeriods : List ℕ} {voteWeights : List K}
    {pools : List (StakingPool K)} (h : newPools durations claimPeriods voteWeights = .ok pools) :
    ∀ p ∈ pools, 0 < p.voteWeight := by
  simp only [newPools, check_bind_eq_ok, pure_eq_ok] at h
  obtain ⟨-, -, -, -, -, hw, -, -, -, -, rfl⟩ := h
  intro p hp
  obtain ⟨i, hi, rfl⟩ := List.mem_iff_getElem.mp hp
  rw [List.getElem_zipWith]
  exact hw _ (List.getElem_mem _)

/-! ## Runs -/

/-- What the totals and the producers agree on rests on. -/
structure RankedPools (s : State K) : Prop where
  tallied : AllTallied s
  stakes : StakesKept s
  weights : ∀ st, s.pools.state = some st → ∀ p ∈ st.pools, 0 < p.voteWeight
  ranked : Ranked s

namespace RankedPools

omit [FloorRing K] [CMath K] in
theorem votesNonneg (h : RankedPools s) : s.VotesNonneg := by
  refine ⟨h.weights, fun p prod votes hf hv v hmem => ?_⟩
  have hall : PoolsTallied _ s := h.tallied
  cases hst : s.pools.state with
  | none =>
    simp only [PoolsTallied, hst] at hall
    rw [hall.2 p prod hf] at hv
    cases hv
  | some st =>
    have ht := (poolsTallied_some hst).mp hall
    have ho : ∀ a u, s.pools.voters.find a = some u → ∀ i, 0 ≤ u.ownedShares.getD i 0 := by
      intro a u hu i
      have hown := (h.stakes.kept st hst).owned_nonneg a i
      rwa [Stakes.owned, Stakes.voter, PoolTables.stakes, getOrCreatePoolVoter, hu] at hown
    obtain ⟨i, hi, rfl⟩ := List.mem_iff_getElem.mp hmem
    rw [← List.getD_eq_getElem _ 0 hi, ht.poolVotes_eq hf hv i]
    refine Table.sum_nonneg fun a u hu => ?_
    split_ifs
    · exact ht.lastVotes_nonneg ho hu i
    · exact le_rfl

theorem exec (h : RankedPools s) {env : Env} {x : Action K} (hs : x.exec env s = .ok s') :
    RankedPools s' := by
  refine ⟨h.tallied.step hs, h.stakes.exec hs, fun st' hst' => ?_,
    h.ranked.exec h.tallied h.votesNonneg hs⟩
  cases hst : s.pools.state with
  | some st =>
    obtain ⟨st₁, hst₁, hsteps⟩ := h.stakes.exec_steps hs hst
    obtain rfl := Option.some.inj (hst₁.symm.trans hst')
    have hrun : ∀ k, Relation.ReflTransGen (StakeStep env.now x.withdrawer) (s.pools.stakes st) k →
        ∀ p ∈ k.pools, 0 < p.voteWeight := by
      intro k hk
      induction hk with
      | refl => exact h.weights st hst
      | tail h₁ hlast ih =>
        exact hlast.weights (StakesKept.kept_of_steps (h.stakes.kept st hst) h₁) ih
    exact hrun _ hsteps
  | none =>
    -- the pools have just been created
    by_cases hx : ∃ args, x = .cfgsrpool args
    · obtain ⟨args, rfl⟩ := hx
      simp only [Action.exec, State.cfgsrpool, bind_eq_ok] at hs
      obtain ⟨core, -, hs⟩ := hs
      rw [hst] at hs
      simp only [bind_eq_ok, pure_eq_ok] at hs
      obtain ⟨st, hc, st₁, hcfg, rfl⟩ := hs
      obtain rfl := Option.some.inj hst'
      have hpools := (configure_eq_ok (create_eq_ok hc).1.ge hcfg).1
      simp only [StakingPoolState.create, bind_eq_ok, pure_eq_ok] at hc
      obtain ⟨_, -, _, -, _, -, _, -, _, -, pools, hnew, rfl⟩ := hc
      exact hpools ▸ newPools_weights hnew
    · cases Action.exec_moves h.stakes hs fun _ args hargs => hx ⟨args, hargs⟩ with
      | unset _ hn _ =>
        rw [hst'] at hn
        cases hn
      | steps hst₁ =>
        rw [hst] at hst₁
        cases hst₁

end RankedPools

/-- There are no staking pools and no totals yet, and the supply of the token is not negative. -/
def RankedInit (s : State K) : Prop := PoolWeightInit s ∧ s.pools.totals = .empty

omit [FloorRing K] [CMath K] [IsStrictOrderedRing K] in
theorem rankedPools_of_init (h : RankedInit s) : RankedPools s := by
  obtain ⟨⟨⟨hst, hv, hp⟩, hs⟩, ht⟩ := h
  refine ⟨?_, stakesKept_of_init ⟨hst, hv, hs⟩, by simp [hst], ⟨fun p => ?_, by simp [ht]⟩⟩
  · simp only [AllTallied, PoolsTallied, hst]
    exact ⟨hv, hp⟩
  · rw [ht, Table.find_empty, Option.map_none, rank]
    cases hf : s.vote.producers.find p with
    | none => rfl
    | some prod => rw [Option.bind_some, hp p prod hf]; rfl

theorem rankedPools_of_run {allowed : State K → Action K → Prop} {t : BlockTimestamp}
    (h : Run RankedInit (Step allowed) t s) : RankedPools s := by
  refine h.invariant (P := RankedPools) (fun _ => rankedPools_of_init) ?_
  rintro t s s' hk ⟨isAccount, x, -, he⟩
  exact hk.exec he

end

end

end EosioSystem
