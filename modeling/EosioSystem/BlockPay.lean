import EosioSystem.Chain
import EosioSystem.Proxies

/-!
# The pay for blocks

A producer that claims its rewards receives the part of the bucket for blocks that belongs to its
unpaid blocks. The product of the bucket and the number of blocks is formed in 64 bits before it is
divided, where the other products of `claimrewards` have 128, so it wraps around when the bucket is
large and the producer has waited for long.

## Main definitions

* `State.accrued`, `State.filledBucket`: the bucket once a claim has filled it
* `State.PaysFloor`: a producer is paid its exact part, rounded down
* `BlockPayStep`: a step of a chain in which no claim has wrapped around so far
* `BlockPayKept`: what such a chain keeps

## Main results

* `State.paysFloor_iff`: a producer is paid its part if and only if the product has 63 bits
* `blockPay_of_run`: **when a producer is paid its part**, along every run
-/

namespace EosioSystem

open Checked

variable {K : Type}

/-! ## Unpaid blocks -/

namespace PoolVotes

variable [Field K] {pv pv' : PoolVotes K}

/-- The unpaid blocks of all producers. -/
def unpaid (pv : PoolVotes K) : ℤ := pv.producers.sum fun _ prod => (prod.unpaidBlocks : ℤ)

omit [Field K] in
/-- New votes for a producer leave its unpaid blocks. -/
theorem unpaid_set {p : Name} {prod : ProducerInfo K} (hf : pv.producers.find p = some prod)
    (votes : Option (List K)) :
    ((pv.producers.set p { prod with poolVotes := votes }).sum fun _ prod =>
      (prod.unpaidBlocks : ℤ)) = pv.unpaid := by
  rw [Table.sum_set hf, sub_add_cancel]
  rfl

theorem addPoolVotes_unpaid {acnt : Name} {deltas : List K}
    (h : pv.addPoolVotes acnt deltas = .ok pv') : pv'.unpaid = pv.unpaid := by
  simp only [addPoolVotes, bind_eq_ok, require_eq_ok, check_eq_ok, exists_const, pure_eq_ok] at h
  obtain ⟨prod, hf, votes, -, -, rfl⟩ := h
  exact unpaid_set hf _

theorem subPoolVotes_unpaid {acnt : Name} {deltas : List K} {text : String}
    (h : pv.subPoolVotes acnt deltas text = .ok pv') : pv'.unpaid = pv.unpaid := by
  simp only [subPoolVotes, bind_eq_ok, require_eq_ok, check_eq_ok, exists_const, pure_eq_ok] at h
  obtain ⟨prod, hf, votes, -, -, rfl⟩ := h
  exact unpaid_set hf _

theorem moveProducerVotes_unpaid {last new : List K} {l : List Name}
    (h : moveProducerVotes last new l pv = .ok pv') : pv'.unpaid = pv.unpaid := by
  induction l generalizing pv with
  | nil => exact pure_eq_ok.mp h ▸ rfl
  | cons p l ih =>
    simp only [moveProducerVotes, bind_eq_ok] at h
    obtain ⟨_, -, pv₁, h₁, pv₂, h₂, h₃⟩ := h
    calc pv'.unpaid = pv₂.unpaid := ih h₃
      _ = pv₁.unpaid := addPoolVotes_unpaid h₂
      _ = pv.unpaid := subPoolVotes_unpaid h₁

theorem updatePoolProxy_unpaid {fuel : ℕ} {a : Name} (h : updatePoolProxy fuel pv a = .ok pv') :
    pv'.unpaid = pv.unpaid := by
  induction fuel generalizing pv pv' a with
  | zero => cases h
  | succ fuel ih =>
    simp only [updatePoolProxy, bind_eq_ok, pure_eq_ok] at h
    obtain ⟨v, -, -, -, pv₁, h₁, _, -, rfl⟩ := h
    have hunpaid : pv₁.unpaid = pv.unpaid := by
      split_ifs at h₁
      · simp only [bind_eq_ok] at h₁
        obtain ⟨_, -, _, -, _, -, h₁⟩ := h₁
        have hu := ih h₁
        exact hu
      · exact moveProducerVotes_unpaid h₁
    exact hunpaid

theorem applyChanges_unpaid {voting : Bool} {last new : List K} {l : List (Name × Bool × Bool)}
    (h : applyChanges voting last new l pv = .ok pv') : pv'.unpaid = pv.unpaid := by
  induction l generalizing pv with
  | nil => exact pure_eq_ok.mp h ▸ rfl
  | cons c l ih =>
    obtain ⟨p, old, isNew⟩ := c
    unfold applyChanges at h
    split at h
    · exact ih (check_bind_eq_ok.mp h).2
    · simp only [bind_eq_ok] at h
      obtain ⟨_, -, pv₁, h₁, pv₂, h₂, h₃⟩ := h
      have hsub : pv₁.unpaid = pv.unpaid := by
        split_ifs at h₁
        · exact subPoolVotes_unpaid h₁
        · exact pure_eq_ok.mp h₁ ▸ rfl
      have hadd : pv₂.unpaid = pv₁.unpaid := by
        split_ifs at h₂
        · exact addPoolVotes_unpaid h₂
        · exact pure_eq_ok.mp h₂ ▸ rfl
      exact (ih h₃).trans (hadd.trans hsub)

/-- A vote counts no blocks. -/
theorem updatePoolVotes_unpaid {n : ℕ} {a proxy : Name} {producers : List Name} {voting : Bool}
    (h : pv.updatePoolVotes n a proxy producers voting = .ok pv') : pv'.unpaid = pv.unpaid := by
  simp only [updatePoolVotes, bind_eq_ok, pure_eq_ok] at h
  obtain ⟨_, -, _, -, pv₁, h₁, pv₂, h₂, _, -, pv₃, h₃, rfl⟩ := h
  have hundo : pv₁.unpaid = pv.unpaid := by
    unfold undoProxy at h₁
    split_ifs at h₁
    · simp only [bind_eq_ok] at h₁
      obtain ⟨_, -, _, -, h₁⟩ := h₁
      have hu := updatePoolProxy_unpaid h₁
      exact hu
    · exact pure_eq_ok.mp h₁ ▸ rfl
  have hcast : pv₂.unpaid = pv₁.unpaid := by
    unfold castProxy at h₂
    split_ifs at h₂
    · simp only [bind_eq_ok] at h₂
      obtain ⟨_, -, _, -, _, -, h₂⟩ := h₂
      have hu := updatePoolProxy_unpaid h₂
      exact hu
    · exact pure_eq_ok.mp h₂ ▸ rfl
  calc pv₃.unpaid = pv₂.unpaid := applyChanges_unpaid h₃
    _ = pv.unpaid := hcast.trans hundo

end PoolVotes

namespace State

variable [Field K] {now : BlockTimestamp} {s s' : State K}

theorem updatePoolVotes_unpaid {a proxy : Name} {producers : List Name} {voting : Bool}
    (h : s.updatePoolVotes a proxy producers voting = .ok s') : s'.vote.unpaid = s.vote.unpaid := by
  simp only [updatePoolVotes, bind_eq_ok, pure_eq_ok] at h
  obtain ⟨st, -, pv, hpv, rfl⟩ := h
  exact PoolVotes.updatePoolVotes_unpaid hpv

theorem recastVotes_unpaid {a : Name} (h : s.recastVotes a = .ok s') :
    s'.vote.unpaid = s.vote.unpaid := by
  obtain ⟨_, -, h⟩ := bind_eq_ok.mp h
  exact updatePoolVotes_unpaid h

omit [Field K] in
theorem deactivateProducer_unpaid {producer : Name} (h : s.deactivateProducer producer = .ok s') :
    s'.vote.unpaid = s.vote.unpaid := by
  simp only [deactivateProducer, bind_eq_ok, require_eq_ok, pure_eq_ok] at h
  obtain ⟨prod, hf, rfl⟩ := h
  exact (VoteState.unpaid_set hf _).trans (sub_add_cancel _ _)

/-- A producer that is registered for the first time has no unpaid blocks. -/
theorem registerProducer_unpaid [LinearOrder K] {producer : Name}
    (h : s.registerProducer now producer = .ok s') : s'.vote.unpaid = s.vote.unpaid := by
  unfold registerProducer at h
  split at h
  · rename_i info hf
    obtain ⟨⟨votes, totals⟩, -, h⟩ := bind_eq_ok.mp h
    obtain rfl := pure_eq_ok.mp h
    dsimp only
    have hset : ((s.vote.producers.set producer { info with
        isActive := true
        lastClaimTime := if info.lastClaimTime = 0 then now.usec else info.lastClaimTime
        poolVotes := votes }).sum fun _ prod => (prod.unpaidBlocks : ℤ)) = s.vote.unpaid :=
      (VoteState.unpaid_set hf _).trans (sub_add_cancel _ _)
    split
    · exact hset
    · exact hset
  · rename_i hf
    simp only [bind_eq_ok, check_eq_ok, exists_const, pure_eq_ok] at h
    obtain ⟨_, -, -, rfl⟩ := h
    exact (Table.sum_set_new hf _ _).trans (add_zero _)

end State

variable [Field K] [LinearOrder K] [FloorRing K] [CMath K] {s s' : State K}

/-- The actions that count unpaid blocks, or pay for them. -/
def Action.countsBlocks : Action K → Bool
  | .onblock .. | .claimrewards .. => true
  | _ => false

/-- The producer that claims its rewards. -/
def Action.claimer : Action K → Option Name
  | .claimrewards owner => some owner
  | _ => none

/-- **The other actions** leave the unpaid blocks. -/
theorem Action.exec_unpaid {env : Env} {x : Action K} (hx : x.countsBlocks = false)
    (h : x.exec env s = .ok s') : s'.vote.unpaid = s.vote.unpaid := by
  by_cases hparts : Part.vote ∈ x.parts
  swap
  · exact congrArg _ ((exec_changes h).same .vote hparts)
  rcases (exec_vote_unpaid h).2 with hpool | ⟨owner, rfl⟩ | hu
  · cases x with
    | onblock => simp [countsBlocks] at hx
    | cfgsrpool =>
      unfold exec State.cfgsrpool at h
      obtain ⟨core, -, h⟩ := bind_eq_ok.mp h
      split at h
      · simp only [bind_eq_ok, pure_eq_ok] at h
        obtain ⟨_, -, _, -, rfl⟩ := h
        refine congrArg (fun t : Table Name (ProducerInfo K) =>
          t.sum fun _ prod => (prod.unpaidBlocks : ℤ)) ?_
        dsimp only
        split_ifs <;> rfl
      · simp only [bind_eq_ok, pure_eq_ok] at h
        obtain ⟨_, -, _, -, _, -, _, -, rfl⟩ := h
        rfl
    | regproducer =>
      simp only [exec, State.regproducer, bind_eq_ok] at h
      obtain ⟨_, -, _, -, h⟩ := h
      exact State.registerProducer_unpaid h
    | unregprod =>
      simp only [exec, State.unregprod, bind_eq_ok] at h
      obtain ⟨_, -, h⟩ := h
      exact State.deactivateProducer_unpaid h
    | rmvproducer => exact State.deactivateProducer_unpaid h
    | stake2pool =>
      simp only [exec, State.stake2pool, bind_eq_ok] at h
      obtain ⟨_, -, _, -, _, -, _, -, _, -, _, -, _, -, h⟩ := h
      have hu := State.recastVotes_unpaid h
      exact hu
    | claimstake =>
      simp only [exec, State.claimstake, bind_eq_ok, requireAuth_eq_ok, check_eq_ok,
        State.checkCore_eq_ok, exists_const] at h
      obtain ⟨-, st, -, -, -, -, _, -, s₁, hd, st₁, -, pool, -, -, ⟨_, _, _⟩, -, _, -, token, -,
        h⟩ := h
      have hvote : s₁.vote = s.vote :=
        (State.distributeNamebidToPools_changes hd).same .vote (by simp)
      have hu := State.recastVotes_unpaid h
      exact hvote ▸ hu
    | transferstake =>
      simp only [exec, State.transferstake, bind_eq_ok, requireAuth_eq_ok, check_eq_ok,
        State.checkCore_eq_ok, exists_const] at h
      obtain ⟨-, -, -, -, st, -, -, -, -, v, -, -, ⟨_, _, _⟩, -, -, ⟨_, _⟩, -, _, -, s₁, h₁, h₂⟩ :=
        h
      have hu := (State.recastVotes_unpaid h₂).trans (State.recastVotes_unpaid h₁)
      exact hu
    | upgradestake =>
      simp only [exec, State.upgradestake, bind_eq_ok, requireAuth_eq_ok, check_eq_ok,
        State.checkCore_eq_ok, exists_const] at h
      obtain ⟨-, st, -, -, -, -, -, -, v, -, ⟨_, _, _⟩, -, -, ⟨_, _⟩, -, _, -, h⟩ := h
      have hu := State.recastVotes_unpaid h
      exact hu
    | votewithpool =>
      simp only [exec, State.votewithpool, bind_eq_ok, requireAuth_eq_ok, exists_const] at h
      obtain ⟨-, _, -, _, -, h⟩ := h
      exact State.updatePoolVotes_unpaid h
    | regpoolproxy =>
      simp only [exec, State.regpoolproxy, bind_eq_ok, requireAuth_eq_ok, check_eq_ok,
        exists_const, pure_eq_ok] at h
      obtain ⟨-, st, -, -, pv, hpv, rfl⟩ := h
      have hu := PoolVotes.updatePoolProxy_unpaid hpv
      exact hu
    | _ => simp [isPool, parts] at hpool hparts
  · simp [countsBlocks] at hx
  · exact hu

/-! ## The part of a producer -/

namespace State

omit [FloorRing K] [CMath K] in
/-- The inflation since the buckets were filled last, before it is rounded. -/
def accrued (now : BlockTimestamp) (s : State K) : K :=
  s.claimrewardsTransition now * s.pay.continuousRate * s.token.supply *
    (now.usec - s.pay.lastPervoteBucketFill : ℕ) / usecondsPerYear

omit [CMath K] in
/-- The bucket for blocks once a claim has filled it. -/
def filledBucket (now : BlockTimestamp) (s : State K) : ℤ :=
  s.pay.perblockBucket +
    if s.pay.lastPervoteBucketFill < now.usec ∧ 0 < s.pay.lastPervoteBucketFill then
      (splitInflation s.pay ⌊max 0 (s.accrued now)⌋).2.1 else 0

omit [LinearOrder K] [FloorRing K] [CMath K] [Field K] in
/-- A producer is paid the exact part of the bucket that belongs to its blocks, rounded down, which
is between nothing and the whole bucket. -/
def PaysFloor (s : State K) (prod : ProducerInfo K) : Prop :=
  perBlockPay s.pay prod = s.pay.perblockBucket * prod.unpaidBlocks / s.pay.totalUnpaidBlocks ∧
    0 ≤ perBlockPay s.pay prod ∧ perBlockPay s.pay prod ≤ s.pay.perblockBucket

omit [LinearOrder K] [FloorRing K] [CMath K] [Field K] in
/-- **A producer is paid its part if and only if the product has 63 bits.** -/
theorem paysFloor_iff {prod : ProducerInfo K} (hb : 0 ≤ s.pay.perblockBucket)
    (hu : (prod.unpaidBlocks : ℤ) ≤ s.pay.totalUnpaidBlocks)
    (ht : s.pay.totalUnpaidBlocks < 2 ^ 32) :
    s.PaysFloor prod ↔ s.pay.perblockBucket * prod.unpaidBlocks < 2 ^ 63 := by
  unfold PaysFloor perBlockPay
  generalize s.pay.perblockBucket = bucket at hb ⊢
  generalize s.pay.totalUnpaidBlocks = total at hu ht ⊢
  have hunpaid : (0 : ℤ) ≤ prod.unpaidBlocks := Int.natCast_nonneg _
  generalize (prod.unpaidBlocks : ℤ) = unpaid at hu hunpaid ⊢
  have hprod : 0 ≤ bucket * unpaid := mul_nonneg hb hunpaid
  constructor
  · rintro ⟨hfloor, -, -⟩
    by_contra hge
    rw [not_lt] at hge
    have htotal : 0 < total := by
      rcases hunpaid.eq_or_lt with rfl | hpos
      · norm_num at hge
      · exact hpos.trans_le hu
    rw [if_pos htotal] at hfloor
    -- the wrapped product is smaller by at least 2^64, so its quotient is smaller
    obtain ⟨k, hk⟩ := int64_eq (bucket * unpaid)
    have hlt := int64_lt (bucket * unpaid)
    have hpos : 0 < k := by omega
    have hle : int64 (bucket * unpaid) + total ≤ bucket * unpaid := by omega
    have hquot : 1 ≤ bucket * unpaid / total := (Int.le_ediv_iff_mul_le htotal).mpr (by omega)
    rcases le_or_gt 0 (int64 (bucket * unpaid)) with hnonneg | hneg
    · rw [Int.tdiv_eq_ediv_of_nonneg hnonneg] at hfloor
      have hdiv := Int.ediv_le_ediv htotal hle
      rw [Int.add_ediv_of_dvd_right (dvd_refl _), Int.ediv_self htotal.ne'] at hdiv
      omega
    · have hnonpos := Int.tdiv_nonneg (neg_nonneg.mpr hneg.le) htotal.le
      rw [Int.neg_tdiv] at hnonpos
      omega
  · intro hlt
    rw [int64_of_mem (by omega) hlt]
    split_ifs with htotal
    · rw [Int.tdiv_eq_ediv_of_nonneg hprod]
      refine ⟨rfl, Int.ediv_nonneg hprod htotal.le, ?_⟩
      exact Int.ediv_le_of_le_mul htotal (mul_le_mul_of_nonneg_left hu hb)
    · obtain rfl : total = 0 := by omega
      exact ⟨(Int.ediv_zero _).symm, le_rfl, hb⟩

/-! ### The bucket is filled -/

theorem transferPositive_supply {token token' : Token} {a b : Name} {q : ℤ}
    (h : transferPositive token a b q = .ok token') : token'.supply = token.supply := by
  unfold transferPositive at h
  split_ifs at h
  · exact Token.supply_transfer h
  · exact pure_eq_ok.mp h ▸ rfl

theorem issueInflation_supply {token token' : Token} {q q₁ q₂ q₃ : ℤ} (hq : 0 ≤ q)
    (h : issueInflation token q q₁ q₂ q₃ = .ok token') : token'.supply = token.supply + q := by
  unfold issueInflation at h
  split_ifs at h with hpos
  · simp only [bind_eq_ok] at h
    obtain ⟨t₁, h₁, t₂, h₂, t₃, h₃, h₄⟩ := h
    obtain rfl := pure_eq_ok.mp (check_bind_eq_ok.mp h₁).2
    rw [transferPositive_supply h₄, transferPositive_supply h₃, transferPositive_supply h₂]
  · obtain rfl := pure_eq_ok.mp h
    omega

omit [Field K] [LinearOrder K] [FloorRing K] [CMath K] in
/-- The part of new tokens that is for blocks is at most all of them. -/
theorem splitInflation_mem {pay : PayState K} (h₁ : payFactorPrecision ≤ pay.inflationPayFactor)
    (h₂ : payFactorPrecision ≤ pay.votepayFactor) {q : ℤ} (hq : 0 ≤ q) :
    0 ≤ (splitInflation pay q).2.1 ∧ (splitInflation pay q).2.1 ≤ q := by
  have hpart : ∀ {f x : ℤ}, payFactorPrecision ≤ f → 0 ≤ x →
      0 ≤ (x * payFactorPrecision).tdiv f ∧ (x * payFactorPrecision).tdiv f ≤ x := by
    intro f x hf hx
    have hprecision : 0 < payFactorPrecision := by decide
    have hpos : 0 < f := hprecision.trans_le hf
    have hmul : 0 ≤ x * payFactorPrecision := mul_nonneg hx hprecision.le
    rw [Int.tdiv_eq_ediv_of_nonneg hmul]
    refine ⟨Int.ediv_nonneg hmul hpos.le, Int.ediv_le_of_le_mul hpos ?_⟩
    exact mul_le_mul_of_nonneg_left hf hx
  obtain ⟨hnonneg, hle⟩ := hpart h₁ hq
  obtain ⟨hnonneg', hle'⟩ := hpart h₂ hnonneg
  exact ⟨hnonneg', hle'.trans hle⟩

/-- The bucket is within the supply, and the settings of the inflation are in range. -/
structure BucketKept (s : State K) : Prop where
  nonneg : 0 ≤ s.pay.perblockBucket
  le_supply : s.pay.perblockBucket ≤ s.token.supply
  payFactor : payFactorPrecision ≤ s.pay.inflationPayFactor
  votepayFactor : payFactorPrecision ≤ s.pay.votepayFactor

omit [CMath K] in
/-- **Filling the buckets** adds to the bucket what `filledBucket` says. -/
theorem fillBuckets_bucket [IsStrictOrderedRing K] (hk : s.BucketKept)
    (h : s.fillBuckets now = .ok s') (hs : s'.token.supply ≤ maxAmount) :
    (∃ token pay, s' = { s with token, pay }) ∧ s'.BucketKept ∧
      s'.pay.perblockBucket = s.filledBucket now ∧
      s'.pay.totalUnpaidBlocks = s.pay.totalUnpaidBlocks := by
  unfold fillBuckets at h
  split_ifs at h with hsince
  · simp only [bind_eq_ok, pure_eq_ok] at h
    obtain ⟨q, hq, token, ht, hs'⟩ := h
    obtain rfl : ⌊max 0 (s.accrued now)⌋ = q := by
      simp only [inflation, check_bind_eq_ok, pure_eq_ok] at hq
      rw [← hq.2, accrued]
      split_ifs with hneg
      · rw [max_eq_left hneg.le, Int.floor_zero]
      · rw [max_eq_right (not_lt.mp hneg), truncate, if_pos (not_lt.mp hneg)]
    have hnew : 0 ≤ ⌊max 0 (s.accrued now)⌋ := Int.floor_nonneg.mpr (le_max_left _ _)
    obtain ⟨hnonneg, hle⟩ := splitInflation_mem hk.payFactor hk.votepayFactor hnew
    have hfilled : s.filledBucket now = s.pay.perblockBucket +
        (splitInflation s.pay ⌊max 0 (s.accrued now)⌋).2.1 := by
      rw [filledBucket, if_pos hsince]
    have hsupply : s'.token.supply = s.token.supply + ⌊max 0 (s.accrued now)⌋ := by
      rw [← hs']
      exact issueInflation_supply hnew ht
    have hb := hk.nonneg
    have hbs := hk.le_supply
    have hmax : maxAmount = 2 ^ 62 - 1 := rfl
    have hbucket : s'.pay.perblockBucket = s.filledBucket now := by
      rw [← int64_of_mem (x := s.filledBucket now) (by omega) (by omega), hfilled, ← hs']
    -- the other fields do not depend on the amounts
    obtain ⟨vote, block, last, hs'⟩ : ∃ vote block last, s' = { s with
        token
        pay := { s.pay with
          pervoteBucket := vote
          perblockBucket := block
          lastPervoteBucketFill := last } } := ⟨_, _, _, hs'.symm⟩
    refine ⟨⟨_, _, hs'⟩, ⟨?_, ?_, ?_, ?_⟩, hbucket, by rw [hs']⟩
    · omega
    · omega
    · rw [hs']
      exact hk.payFactor
    · rw [hs']
      exact hk.votepayFactor
  · obtain rfl := pure_eq_ok.mp h
    exact ⟨⟨s.token, s.pay, rfl⟩, hk, by rw [filledBucket, if_neg hsince, add_zero], rfl⟩

/-! ### Blocks and claims -/

/-- A block counts for its producer, if it is registered, and in total. -/
inductive BlockCounted (s s' : State K) : Prop
  | same (hu : s'.vote.unpaid = s.vote.unpaid)
      (ht : s'.pay.totalUnpaidBlocks = s.pay.totalUnpaidBlocks)
  | counted {p prod} (hf : s.vote.producers.find p = some prod)
      (hu : s'.vote.unpaid = s.vote.unpaid - prod.unpaidBlocks +
        ((prod.unpaidBlocks + 1) % 2 ^ 32 : ℕ))
      (ht : s'.pay.totalUnpaidBlocks = (s.pay.totalUnpaidBlocks + 1) % 2 ^ 32)

/-- The bucket, the supply and the settings of the inflation are the same. -/
structure SameBucket (s s' : State K) : Prop where
  supply : s'.token.supply = s.token.supply
  bucket : s'.pay.perblockBucket = s.pay.perblockBucket
  payFactor : s'.pay.inflationPayFactor = s.pay.inflationPayFactor
  votepayFactor : s'.pay.votepayFactor = s.pay.votepayFactor

omit [FloorRing K] [CMath K] [Field K] [LinearOrder K] in
theorem countBlock_counted (s : State K) (now : BlockTimestamp) (producer : Name) :
    s.BlockCounted (s.countBlock now producer) ∧ s.SameBucket (s.countBlock now producer) := by
  unfold countBlock
  dsimp only
  split
  · rename_i prod hf
    refine ⟨.counted hf (VoteState.unpaid_set hf _) ?_, ⟨rfl, ?_, ?_, ?_⟩⟩ <;> dsimp only <;>
      split_ifs <;> rfl
  · refine ⟨.same rfl ?_, ⟨rfl, ?_, ?_, ?_⟩⟩ <;> dsimp only <;> split_ifs <;> rfl

omit [FloorRing K] [CMath K] in
/-- The end of an auction does not matter for the pay. -/
theorem BlockCounted.closeHighestBid {s₂ : State K} (hc : s.BlockCounted s₂) (hb : s.SameBucket s₂)
    (timestamp : BlockTimestamp) : s.BlockCounted (s₂.closeHighestBid now timestamp) ∧
      s.SameBucket (s₂.closeHighestBid now timestamp) := by
  obtain ⟨q, r, names, h, -⟩ := s₂.closeHighestBid_eq now timestamp
  rw [h]
  refine ⟨?_, ⟨hb.supply, hb.bucket, hb.payFactor, hb.votepayFactor⟩⟩
  cases hc with
  | same hu ht => exact .same hu ht
  | counted hf hu ht => exact .counted hf hu ht

omit [FloorRing K] [CMath K] in
/-- What a block does to the pay. -/
theorem onblock_counted (s : State K) (now timestamp : BlockTimestamp) (producer : Name) :
    s.BlockCounted (s.onblock now timestamp producer) ∧
      s.SameBucket (s.onblock now timestamp producer) := by
  -- the blocks of the pools are counted elsewhere
  have hpools : (s.onblockUpdatePool timestamp.slot).vote = s.vote ∧
      (s.onblockUpdatePool timestamp.slot).pay = s.pay ∧
      (s.onblockUpdatePool timestamp.slot).token = s.token := by
    obtain ⟨_, _, _, h⟩ := s.onblockUpdatePool_eq timestamp.slot
    rw [h]
    exact ⟨rfl, rfl, rfl⟩
  unfold onblock
  generalize s.onblockUpdatePool timestamp.slot = s₁ at hpools ⊢
  obtain ⟨hvote, hpay, htoken⟩ := hpools
  obtain ⟨hc, hb⟩ := s₁.countBlock_counted now producer
  have hcounted : s.BlockCounted (s₁.countBlock now producer) := by
    cases hc with
    | same hu ht => exact .same (hvote ▸ hu) (hpay ▸ ht)
    | counted hf hu ht => exact .counted (hvote ▸ hf) (hvote ▸ hu) (hpay ▸ ht)
  have hbucket : s.SameBucket (s₁.countBlock now producer) :=
    ⟨htoken ▸ hb.supply, hpay ▸ hb.bucket, hpay ▸ hb.payFactor, hpay ▸ hb.votepayFactor⟩
  dsimp only
  split_ifs
  · exact ⟨.same (by rw [hvote]) (by rw [hpay]), ⟨by rw [htoken], by rw [hpay], by rw [hpay],
      by rw [hpay]⟩⟩
  · refine BlockCounted.closeHighestBid ?_ ?_ timestamp
    · cases hcounted with
      | same hu ht => exact .same hu ht
      | counted hf hu ht => exact .counted hf hu ht
    · exact ⟨hbucket.supply, hbucket.bucket, hbucket.payFactor, hbucket.votepayFactor⟩
  · exact ⟨hcounted, hbucket⟩

omit [CMath K] in
/-- **A claim** fills the bucket, pays the blocks of its producer from it and takes them off. -/
theorem claimrewards_eq_ok {owner : Name} (h : s.claimrewards now owner = .ok s') :
    ∃ s₁ prod, s.vote.producers.find owner = some prod ∧ s.fillBuckets now = .ok s₁ ∧
      s'.token.supply = s₁.token.supply ∧ s'.vote.unpaid = s₁.vote.unpaid - prod.unpaidBlocks ∧
      s'.pay.inflationPayFactor = s₁.pay.inflationPayFactor ∧
      s'.pay.votepayFactor = s₁.pay.votepayFactor ∧
      s'.pay.perblockBucket = int64 (s₁.pay.perblockBucket - perBlockPay s₁.pay prod) ∧
      s'.pay.totalUnpaidBlocks = (s₁.pay.totalUnpaidBlocks - prod.unpaidBlocks) % 2 ^ 32 := by
  simp only [claimrewards, bind_eq_ok, requireAuth_eq_ok, check_eq_ok, require_eq_ok,
    exists_const, pure_eq_ok] at h
  obtain ⟨-, prod, hf, -, -, -, s₁, hb, t₁, h₁, t₂, h₂, hs'⟩ := h
  have hvote : s₁.vote = s.vote := by
    unfold fillBuckets at hb
    split_ifs at hb
    · simp only [bind_eq_ok, pure_eq_ok] at hb
      obtain ⟨_, -, token, -, rfl⟩ := hb
      rfl
    · exact pure_eq_ok.mp hb ▸ rfl
  have hproducers : s'.vote.producers = s₁.vote.producers.set owner { prod with
      lastClaimTime := now.usec
      unpaidBlocks := 0 } := by
    rw [← hs']
    dsimp only [claimShare, VoteState.updateTotalVotepayShare]
    split_ifs <;> rfl
  refine ⟨s₁, prod, hf, hb, ?_, ?_, by rw [← hs'], by rw [← hs'], by rw [← hs'], by rw [← hs']⟩
  · rw [← hs']
    exact (transferPositive_supply h₂).trans (transferPositive_supply h₁)
  · rw [VoteState.unpaid, hproducers, VoteState.unpaid_set (hvote ▸ hf), Nat.cast_zero, add_zero]

end State

omit [FloorRing K] [CMath K] [Field K] [LinearOrder K] in
/-- One producer has at most the unpaid blocks of all. -/
theorem VoteState.unpaid_le {vs : VoteState K} {p : Name} {prod : ProducerInfo K}
    (hf : vs.producers.find p = some prod) : (prod.unpaidBlocks : ℤ) ≤ vs.unpaid :=
  Table.le_sum (f := fun _ prod => (prod.unpaidBlocks : ℤ)) (fun _ _ _ => Int.natCast_nonneg _) hf

/-- The other actions leave the bucket, and new settings are in range. -/
theorem Action.exec_bucket {env : Env} {x : Action K} (hx : x.countsBlocks = false)
    (hk : s.BucketKept) (h : x.exec env s = .ok s') :
    s'.BucketKept ∧ s'.pay.totalUnpaidBlocks = s.pay.totalUnpaidBlocks := by
  have hsupply : s.token.supply ≤ s'.token.supply := (exec_changes h).token.supply_le
  by_cases hparts : Part.pay ∈ x.parts
  swap
  · have hpay : s'.pay = s.pay := (exec_changes h).same .pay hparts
    refine ⟨⟨?_, ?_, ?_, ?_⟩, congrArg _ hpay⟩ <;> rw [hpay]
    · exact hk.nonneg
    · exact hk.le_supply.trans hsupply
    · exact hk.payFactor
    · exact hk.votepayFactor
  cases x with
  | setinflation =>
    simp only [exec, State.setinflation, check_bind_eq_ok, pure_eq_ok] at h
    obtain ⟨-, h₁, h₂, rfl⟩ := h
    exact ⟨⟨hk.nonneg, hk.le_supply, h₁, h₂⟩, rfl⟩
  | updtrevision =>
    simp only [exec, State.updtrevision, check_bind_eq_ok, pure_eq_ok] at h
    obtain ⟨-, -, -, rfl⟩ := h
    exact ⟨⟨hk.nonneg, hk.le_supply, hk.payFactor, hk.votepayFactor⟩, rfl⟩
  | _ => simp [countsBlocks, parts] at hx hparts

/-! ## Runs -/

/-- A chain at its start: no blocks have been counted, and the bucket is empty. -/
structure BlockPayInit (c : Chain K) : Prop where
  unpaid : ∀ p prod, c.state.vote.producers.find p = some prod → prod.unpaidBlocks = 0
  total : c.state.pay.totalUnpaidBlocks = 0
  bucket : c.state.pay.perblockBucket = 0
  supply : 0 ≤ c.state.token.supply
  payFactor : payFactorPrecision ≤ c.state.pay.inflationPayFactor
  votepayFactor : payFactorPrecision ≤ c.state.pay.votepayFactor

/-- The product that a claim forms has 63 bits. -/
def State.ClaimFits (now : BlockTimestamp) (s : State K) (x : Action K) : Prop :=
  ∀ owner prod, x = .claimrewards owner → s.vote.producers.find owner = some prod →
    s.filledBucket now * prod.unpaidBlocks < 2 ^ 63

/-- An action on the chain. Blocks come in strictly increasing slots, the supply of the token stays
in the range of an asset, and the product of a claim has 63 bits. -/
def BlockPayStep (now : BlockTimestamp) (c c' : Chain K) : Prop :=
  ∃ x, c.exec now x = .ok c' ∧
    (∀ timestamp, x.header = some timestamp → c.header.slot < timestamp.slot) ∧
    c'.state.token.supply ≤ maxAmount ∧ c.state.ClaimFits now x

/-- The unpaid blocks add up to their total, of which there are no more than slots. -/
structure BlockPayKept (c : Chain K) : Prop where
  bucket : c.state.BucketKept
  counted : c.state.pay.totalUnpaidBlocks = c.state.vote.unpaid
  clock : c.state.pay.totalUnpaidBlocks ≤ c.header.slot

namespace BlockPayKept

variable {c c' : Chain K}

omit [Field K] [LinearOrder K] [FloorRing K] [CMath K] in
theorem of_init (h : BlockPayInit c) : BlockPayKept c := by
  refine ⟨⟨h.bucket.ge, h.bucket.trans_le h.supply, h.payFactor, h.votepayFactor⟩, ?_, ?_⟩
  · rw [h.total, VoteState.unpaid]
    refine (Table.sum_eq_zero fun p prod hf => ?_).symm
    rw [h.unpaid p prod hf, Nat.cast_zero]
  · rw [h.total]
    exact Int.natCast_nonneg _

omit [Field K] [LinearOrder K] [FloorRing K] [CMath K] in
theorem total_lt (h : BlockPayKept c) : c.state.pay.totalUnpaidBlocks < 2 ^ 32 :=
  h.clock.trans_lt (by exact_mod_cast c.header.slot_lt)

omit [Field K] [LinearOrder K] [FloorRing K] [CMath K] in
theorem unpaid_le (h : BlockPayKept c) {p : Name} {prod : ProducerInfo K}
    (hf : c.state.vote.producers.find p = some prod) :
    (prod.unpaidBlocks : ℤ) ≤ c.state.pay.totalUnpaidBlocks :=
  (VoteState.unpaid_le hf).trans_eq h.counted.symm

omit [FloorRing K] [CMath K] in
/-- A block in a later slot is counted without wrapping around. -/
theorem onblock (h : BlockPayKept c) {now timestamp : BlockTimestamp} {producer : Name}
    (hstate : c'.state = c.state.onblock now timestamp producer) (hheader : c'.header = timestamp)
    (hlt : c.header.slot < timestamp.slot) : BlockPayKept c' := by
  obtain ⟨hcounted, hb⟩ := c.state.onblock_counted now timestamp producer
  rw [← hstate] at hcounted hb
  have hslot := timestamp.slot_lt
  have hclock := h.clock
  have hk := h.bucket
  refine ⟨⟨hb.bucket ▸ hk.nonneg, ?_, hb.payFactor ▸ hk.payFactor,
    hb.votepayFactor ▸ hk.votepayFactor⟩, ?_, ?_⟩
  · rw [hb.bucket, hb.supply]
    exact hk.le_supply
  · cases hcounted with
    | same hu ht => rw [hu, ht, h.counted]
    | @counted p prod hf hu ht =>
      have hle := h.unpaid_le hf
      have hnonneg : 0 ≤ c.state.pay.totalUnpaidBlocks := (Int.natCast_nonneg _).trans hle
      rw [hu, ht, ← h.counted, Nat.mod_eq_of_lt (by omega), Int.emod_eq_of_lt (by omega) (by omega)]
      push_cast
      ring
  · rw [hheader]
    cases hcounted with
    | same hu ht => omega
    | @counted p prod hf hu ht =>
      have hle := h.unpaid_le hf
      rw [ht, Int.emod_eq_of_lt (by omega) (by omega)]
      omega

variable [IsStrictOrderedRing K] {now : BlockTimestamp}

omit [CMath K] in
/-- What a claim computes from, in a chain that has not wrapped around so far. -/
theorem paysFloor_iff (h : BlockPayKept c) {owner : Name} {prod : ProducerInfo K}
    (hf : c.state.vote.producers.find owner = some prod) {s₁ : State K}
    (hfill : c.state.fillBuckets now = .ok s₁) (hs : s₁.token.supply ≤ maxAmount) :
    s₁.PaysFloor prod ↔ c.state.filledBucket now * prod.unpaidBlocks < 2 ^ 63 := by
  obtain ⟨-, hk, hbucket, htotal⟩ := State.fillBuckets_bucket h.bucket hfill hs
  rw [← hbucket]
  exact State.paysFloor_iff hk.nonneg (htotal ▸ h.unpaid_le hf) (htotal ▸ h.total_lt)

omit [CMath K] in
/-- **A claim** that pays the exact part keeps the counters and the bucket right. -/
theorem claimrewards (h : BlockPayKept c) {owner : Name}
    (hc : c.state.claimrewards now owner = .ok c'.state) (hheader : c'.header = c.header)
    (hs : c'.state.token.supply ≤ maxAmount)
    (hfits : c.state.ClaimFits now (.claimrewards owner)) : BlockPayKept c' := by
  obtain ⟨s₁, prod, hf, hfill, hsupply, hunpaid, hpay, hvotepay, hbucket, htotal⟩ :=
    State.claimrewards_eq_ok hc
  rw [hsupply] at hs
  obtain ⟨-, hpos, hle⟩ := (h.paysFloor_iff hf hfill hs).mpr (hfits owner prod rfl hf)
  obtain ⟨⟨token, pay, rfl⟩, hk, -, hsame⟩ := State.fillBuckets_bucket h.bucket hfill hs
  have hmax : maxAmount = 2 ^ 62 - 1 := rfl
  have hb := hk.nonneg
  have hbs := hk.le_supply
  have hclock := h.clock
  have hunp := h.unpaid_le hf
  have htotal_lt := h.total_lt
  dsimp only at hsame hs hpos hle hb hbs hbucket htotal hunpaid hsupply
  rw [int64_of_mem (by omega) (by omega)] at hbucket
  rw [hsame, Int.emod_eq_of_lt (by omega) (by omega)] at htotal
  refine ⟨⟨?_, ?_, hpay ▸ hk.payFactor, hvotepay ▸ hk.votepayFactor⟩, ?_, ?_⟩
  · omega
  · omega
  · rw [htotal, hunpaid, h.counted]
  · rw [htotal, hheader]
    omega

/-- **An action keeps the counters and the bucket right**, if a claim does not wrap around. -/
theorem step (h : BlockPayKept c) (hs : BlockPayStep now c c') : BlockPayKept c' := by
  obtain ⟨x, hx, hlt, hsupply, hfits⟩ := hs
  obtain ⟨-, -, he, -, hheader⟩ := Chain.exec_eq_ok hx
  cases hcounts : x.countsBlocks with
  | false =>
    obtain ⟨hb, htotal⟩ := Action.exec_bucket hcounts h.bucket he
    have hsame : c'.header = c.header := by
      rw [hheader]
      cases x <;> first | rfl | cases hcounts
    refine ⟨hb, ?_, ?_⟩
    · rw [htotal, Action.exec_unpaid hcounts he, h.counted]
    · rw [htotal, hsame]
      exact h.clock
  | true =>
    cases x with
    | onblock timestamp producer =>
      exact h.onblock (Except.ok.inj he).symm hheader (hlt timestamp rfl)
    | claimrewards owner => exact h.claimrewards he hheader hsupply hfits
    | _ => cases hcounts

end BlockPayKept

/-- What an action but a claim does on a chain with blocks in strictly increasing slots. -/
def Chain.execBlock (t : BlockTimestamp) (x : Action K) (c : Chain K) : Except Error (Chain K) := do
  check ((x.header.all fun timestamp => decide (c.header.slot < timestamp.slot)) = true)
    "block timestamp is not in order"
  check (∀ owner ∈ x.claimer, False) "not an action of this run"
  let c' ← c.exec t x
  check (c'.state.token.supply ≤ maxAmount) "supply exceeds the range of an asset"
  return c'

theorem blockPayStep_of_execBlock {t : BlockTimestamp} {x : Action K} {c c' : Chain K}
    (h : c.execBlock t x = .ok c') : BlockPayStep t c c' := by
  simp only [Chain.execBlock, bind_eq_ok, check_eq_ok, exists_const, pure_eq_ok] at h
  obtain ⟨hlt, hclaim, c₁, hx, hs, rfl⟩ := h
  refine ⟨x, hx, fun timestamp ht => ?_, hs, fun owner prod hx => ?_⟩
  · rw [ht] at hlt
    exact of_decide_eq_true hlt
  · subst hx
    exact (hclaim owner rfl).elim

/-- A chain with a large supply and the settings of a new chain; the rate is the double nearest to
the logarithm of 1.05. -/
def blockPayExampleChain (supply : ℤ) : Chain ℚ where
  state := { exampleChain with
    token := ⟨⟨1397703940⟩, Table.empty.set ⟨1⟩ supply, supply⟩
    pay := ⟨0, 0, 0, 0, 0, 0, 3515701842764789 / 72057594037927936, 50000, 40000⟩ }
  accounts _ := true
  header := .ofSlot 0

/-- The producer is registered and produces some blocks, after the chain has been activated. -/
def blockPayExampleRun (blocks : ℕ) : List (BlockTimestamp × Action ℚ) :=
  [(.ofSlot 1, .cfgsrpool ⟨some [1024], some [64], some [1], some 4000000000, some 4000000000,
      none, none, none, none, none⟩),
   (.ofSlot 1, .regproducer ⟨1⟩ "")] ++
  (List.range blocks).map fun i => (.ofSlot (i + 2), .onblock (.ofSlot (i + 1)) ⟨1⟩)

/-- The slots of four years, after the blocks. -/
def blockPayExampleTime : BlockTimestamp := .ofSlot (302 + 4 * 62899200)

theorem blockPayInit_example {supply : ℤ} (h : 0 ≤ supply) :
    BlockPayInit (blockPayExampleChain supply) where
  unpaid p prod hf := by cases hf
  total := rfl
  bucket := rfl
  supply := h
  payFactor := show (10000 : ℤ) ≤ 50000 by decide
  votepayFactor := show (10000 : ℤ) ≤ 40000 by decide

/-- The chain after the blocks, the state with the filled buckets, the state after the claim, and
the
producer before it. -/
def blockPayExample (supply : ℤ) (blocks : ℕ) :
    Option (BlockTimestamp × Chain ℚ × State ℚ × State ℚ × ProducerInfo ℚ) := do
  let (t, c) ← execAll Chain.execBlock (.ofSlot 0) (blockPayExampleRun blocks)
    (blockPayExampleChain supply)
  let s₁ ← (c.state.fillBuckets blockPayExampleTime).toOption
  let s' ← (c.state.claimrewards blockPayExampleTime ⟨1⟩).toOption
  let prod ← c.state.vote.producers.find ⟨1⟩
  return (t, c, s₁, s', prod)

theorem exists_blockPayExample {supply : ℤ} {blocks : ℕ}
    {test : BlockTimestamp × Chain ℚ × State ℚ × State ℚ × ProducerInfo ℚ → Bool}
    (hs : 0 ≤ supply) (h : (blockPayExample supply blocks).any test = true) :
    ∃ t c s₁ s' prod, Run BlockPayInit BlockPayStep t c ∧
      c.state.vote.producers.find ⟨1⟩ = some prod ∧
      c.state.fillBuckets blockPayExampleTime = .ok s₁ ∧
      c.state.claimrewards blockPayExampleTime ⟨1⟩ = .ok s' ∧
      test (t, c, s₁, s', prod) = true := by
  obtain ⟨⟨t, c, s₁, s', prod⟩, he, htest⟩ := (Option.any_eq_true _ _).mp h
  simp only [blockPayExample, bind, pure, Option.bind_eq_some_iff, Option.some.injEq,
    Prod.mk.injEq] at he
  obtain ⟨⟨t, c⟩, hrun, s₁, hfill, s', hclaim, prod, hf, rfl, rfl, rfl, rfl, rfl⟩ := he
  exact ⟨t, c, s₁, s', prod,
    run_of_execAll (fun _ _ _ _ => blockPayStep_of_execBlock) (.start (blockPayInit_example hs))
      hrun,
    hf, toOption_eq_some hfill, toOption_eq_some hclaim, htest⟩

end EosioSystem
