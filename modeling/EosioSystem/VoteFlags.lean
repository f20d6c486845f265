import EosioSystem.Frame
import EosioSystem.PoolTallies

/-!
# What actions do to the voters and the producers

The weights of the voters and the totals of the producers change with almost every action. What
the other records say, who uses which proxy, who is one, which resources are managed, and which
producers are registered, changes in few actions only.

## Main definitions

* `VoteState.flags`: the proxy and the flags of a voter
* `ProducersKept`: the producers have kept their registrations and their pool votes
* `VoteState.Kept`: only weights and totals have changed
* `VoteState.Weighed`: in addition, no block has been counted or paid for
* `VoteChange`: what an action does to the flags

## Main results

* `VoteState.updateVotes_flags`, `VoteState.updateVotingPower_kept`: votes and stakes
* `Action.exec_vote`: **an action** makes the change that belongs to it
-/

namespace EosioSystem

open Checked

variable {K : Type}

/-- What the records of the voters say besides stakes and weights. -/
structure VoterFlags where
  proxy : Name
  isProxy : Bool
  managed : Managed

/-- The flags of an account without a row. -/
def VoterFlags.new : VoterFlags := ⟨.none, false, false, false, false⟩

def VoterInfo.flags (v : VoterInfo K) : VoterFlags :=
  ⟨v.proxy, v.isProxy, v.ramManaged, v.netManaged, v.cpuManaged⟩

/-- The flags of an account. -/
def VoteState.flags (vs : VoteState K) (a : Name) : VoterFlags :=
  (vs.voters.find a).elim .new VoterInfo.flags

/-- Some producers have other records now, with the same registration and the same pool votes. -/
inductive ProducersKept (t : Table Name (ProducerInfo K)) : Table Name (ProducerInfo K) → Prop
  | refl : ProducersKept t t
  | set {t' p old prod} : ProducersKept t t' → t'.find p = some old →
    prod.isActive = old.isActive → prod.poolVotes = old.poolVotes → ProducersKept t (t'.set p prod)

theorem ProducersKept.trans {t t₁ t' : Table Name (ProducerInfo K)} (h₁ : ProducersKept t t₁)
    (h₂ : ProducersKept t₁ t') : ProducersKept t t' := by
  induction h₂ with
  | refl => exact h₁
  | set _ hf ha hv ih => exact .set ih hf ha hv

/-- The registration of each producer is the same. -/
theorem ProducersKept.find {t t' : Table Name (ProducerInfo K)} (h : ProducersKept t t')
    (p : Name) : (t'.find p).map (fun prod => (prod.isActive, prod.poolVotes)) =
      (t.find p).map fun prod => (prod.isActive, prod.poolVotes) := by
  induction h with
  | refl => rfl
  | @set t' q old prod _ hf ha hv ih =>
    rw [Table.find_set]
    split_ifs with hpq
    · rw [← ih, hpq, hf, Option.map_some, Option.map_some, ha, hv]
    · exact ih

namespace VoteState

variable {vs vs₁ vs' : VoteState K}

/-- Only weights, totals and shares of the pay have changed. -/
structure Kept (vs vs' : VoteState K) : Prop where
  flags : vs'.flags = vs.flags
  producers : ProducersKept vs.producers vs'.producers

theorem Kept.refl : Kept vs vs := ⟨rfl, .refl⟩

theorem Kept.trans (h₁ : Kept vs vs₁) (h₂ : Kept vs₁ vs') : Kept vs vs' :=
  ⟨h₂.flags.trans h₁.flags, h₁.producers.trans h₂.producers⟩

theorem Kept.of_eq (hv : vs'.voters = vs.voters) (hp : vs'.producers = vs.producers) :
    Kept vs vs' := by
  refine ⟨?_, hp ▸ .refl⟩
  unfold VoteState.flags
  rw [hv]

/-- The unpaid blocks of all producers. -/
def unpaid (vs : VoteState K) : ℤ := vs.producers.sum fun _ prod => (prod.unpaidBlocks : ℤ)

/-- Only weights, totals and shares of the pay have changed, and no block has been counted or paid
for. -/
structure Weighed (vs vs' : VoteState K) : Prop extends Kept vs vs' where
  unpaid : vs'.unpaid = vs.unpaid

theorem Weighed.refl : Weighed vs vs := ⟨.refl, rfl⟩

theorem Weighed.trans (h₁ : Weighed vs vs₁) (h₂ : Weighed vs₁ vs') : Weighed vs vs' :=
  ⟨h₁.toKept.trans h₂.toKept, h₂.unpaid.trans h₁.unpaid⟩

theorem Weighed.of_eq (hv : vs'.voters = vs.voters) (hp : vs'.producers = vs.producers) :
    Weighed vs vs' := ⟨.of_eq hv hp, by rw [VoteState.unpaid, VoteState.unpaid, hp]⟩

theorem unpaid_set {p : Name} {old : ProducerInfo K} (hf : vs.producers.find p = some old)
    (prod : ProducerInfo K) :
    ((vs.producers.set p prod).sum fun _ prod => (prod.unpaidBlocks : ℤ)) =
      vs.unpaid - old.unpaidBlocks + prod.unpaidBlocks := Table.sum_set hf prod _

/-- A producer's row with the same registration, pool votes and unpaid blocks. -/
theorem weighed_setProducer {p : Name} {old prod : ProducerInfo K}
    (hf : vs.producers.find p = some old) (hvoters : vs'.voters = vs.voters)
    (hp : vs'.producers = vs.producers.set p prod) (ha : prod.isActive = old.isActive)
    (hv : prod.poolVotes = old.poolVotes) (hu : prod.unpaidBlocks = old.unpaidBlocks) :
    Weighed vs vs' := by
  refine ⟨⟨?_, hp ▸ .set .refl hf ha hv⟩, ?_⟩
  · unfold VoteState.flags
    rw [hvoters]
  · rw [VoteState.unpaid, hp, unpaid_set hf, hu, sub_add_cancel]

theorem flags_of_find {a : Name} {v : VoterInfo K} (h : vs.voters.find a = some v) :
    vs.flags a = v.flags := by rw [flags, h, Option.elim_some]

theorem flags_setVoter (vs : VoteState K) (a : Name) (v : VoterInfo K) :
    (vs.setVoter a v).flags = Function.update vs.flags a v.flags := by
  funext b
  rw [Function.update_apply, flags, setVoter, Table.find_set]
  split_ifs
  · rfl
  · rfl

/-- A voter's row with the same flags. -/
theorem weighed_setVoter {a : Name} {v : VoterInfo K} (h : v.flags = vs.flags a) :
    Weighed vs (vs.setVoter a v) :=
  ⟨⟨by rw [flags_setVoter, h, Function.update_eq_self], .refl⟩, rfl⟩

theorem managed_eq (vs : VoteState K) (a : Name) : vs.managed a = (vs.flags a).managed := by
  unfold managed flags
  cases vs.voters.find a <;> rfl

/-! ## Votes -/

section Votes

variable [Field K] [LinearOrder K]

theorem updateVotepay_kept (vs : VoteState K) (ct : ℕ) (acnt : Name) (init : K) (last : ℕ)
    (delta : K) (acc : VotepayChange K) :
    Weighed vs (vs.updateVotepay ct acnt init last delta acc).1 := by
  unfold updateVotepay
  split
  · exact .refl
  · exact .of_eq rfl rfl

theorem addToProducers_kept {ct : ℕ} {delta : K} {l : List Name} {acc acc' : VotepayChange K}
    (h : addToProducers ct delta l vs acc = .ok (vs', acc')) : Weighed vs vs' := by
  induction l generalizing vs acc with
  | nil =>
    obtain ⟨rfl, -⟩ := Prod.mk.inj (pure_eq_ok.mp h)
    exact .refl
  | cons acnt l ih =>
    simp only [addToProducers, bind_eq_ok, require_eq_ok] at h
    obtain ⟨prod, hf, h⟩ := h
    have hset : Weighed vs { vs with
        producers := vs.producers.set acnt { prod with totalVotes := prod.totalVotes + delta }
        totalProducerVoteWeight := vs.totalProducerVoteWeight + delta } :=
      weighed_setProducer hf rfl rfl rfl rfl rfl
    exact (hset.trans (updateVotepay_kept ..)).trans (ih h)

theorem applyDeltas_kept {ct : ℕ} {voting : Bool} {l : List (Name × K × Bool)}
    {acc acc' : VotepayChange K} (h : applyDeltas ct voting l vs acc = .ok (vs', acc')) :
    Weighed vs vs' := by
  induction l generalizing vs acc with
  | nil =>
    obtain ⟨rfl, -⟩ := Prod.mk.inj (pure_eq_ok.mp h)
    exact .refl
  | cons d l ih =>
    obtain ⟨acnt, delta, isNew⟩ := d
    unfold applyDeltas at h
    split at h
    · exact ih (check_bind_eq_ok.mp h).2
    · rename_i prod hf
      have h := (check_bind_eq_ok.mp h).2
      have hset : Weighed vs { vs with
          producers := vs.producers.set acnt { prod with
            totalVotes := if prod.totalVotes + delta < 0 then 0 else prod.totalVotes + delta }
          totalProducerVoteWeight := vs.totalProducerVoteWeight + delta
          clamps := vs.clamps + if prod.totalVotes + delta < 0 then 1 else 0 } :=
        weighed_setProducer hf rfl rfl rfl rfl rfl
      exact (hset.trans (updateVotepay_kept ..)).trans (ih h)

variable [CMath K]

/-- A change of a voter's weight is passed on. -/
theorem propagateWeightChange_kept {now : BlockTimestamp} {n : ℕ} {a : Name}
    (h : propagateWeightChange now n vs a = .ok vs') : Weighed vs vs' := by
  induction n generalizing vs vs' a with
  | zero => cases h
  | succ n ih =>
    simp only [propagateWeightChange, bind_eq_ok, require_eq_ok, check_eq_ok, exists_const,
      pure_eq_ok] at h
    obtain ⟨voter, hf, -, vs₁, h₁, voter₁, hf₁, rfl⟩ := h
    have hkept : Weighed vs vs₁ := by
      split_ifs at h₁ with hsmall hproxy
      · simp only [bind_eq_ok, require_eq_ok] at h₁
        obtain ⟨proxy, hfp, h₁⟩ := h₁
        refine .trans (weighed_setVoter ?_) (ih h₁)
        exact (flags_of_find hfp).symm
      · simp only [bind_eq_ok, pure_eq_ok] at h₁
        obtain ⟨⟨vs₂, acc⟩, hadd, rfl⟩ := h₁
        exact (addToProducers_kept hadd).trans (.of_eq rfl rfl)
      · exact pure_eq_ok.mp h₁ ▸ .refl
      · exact pure_eq_ok.mp h₁ ▸ .of_eq rfl rfl
    exact hkept.trans (weighed_setVoter (flags_of_find hf₁).symm)

theorem changeProxied_kept {now : BlockTimestamp} {a : Name} {proxy : VoterInfo K} {delta : K}
    (hf : vs.voters.find a = some proxy) (h : vs.changeProxied now a proxy delta = .ok vs') :
    Weighed vs vs' := by
  refine .trans (weighed_setVoter ?_) (propagateWeightChange_kept h)
  exact (flags_of_find hf).symm

theorem undoProxy_kept {now : BlockTimestamp} {voter : VoterInfo K}
    (h : vs.undoProxy now voter = .ok vs') : Weighed vs vs' := by
  unfold undoProxy at h
  split_ifs at h
  · obtain ⟨old, hf, h⟩ := bind_eq_ok.mp h
    exact changeProxied_kept (require_eq_ok.mp hf) h
  · exact pure_eq_ok.mp h ▸ .refl

theorem castProxy_kept {now : BlockTimestamp} {proxy : Name} {weight : K} {voting : Bool}
    (h : vs.castProxy now proxy weight voting = .ok vs') :
    Weighed vs vs' ∧ (proxy = .none ∨ voting = false ∨ (vs.flags proxy).isProxy = true) := by
  unfold castProxy at h
  by_cases hp : proxy = .none
  · rw [if_neg (not_not.mpr hp)] at h
    exact ⟨pure_eq_ok.mp h ▸ .refl, .inl hp⟩
  · rw [if_pos hp] at h
    simp only [bind_eq_ok, require_eq_ok, check_eq_ok, exists_const] at h
    obtain ⟨new, hf, hv, h⟩ := h
    have hflag : voting = false ∨ (vs.flags proxy).isProxy = true := by rwa [flags_of_find hf]
    refine ⟨?_, .inr hflag⟩
    split_ifs at h
    · exact changeProxied_kept hf h
    · exact pure_eq_ok.mp h ▸ .refl

omit [CMath K] in
theorem activateStake_kept (vs : VoteState K) (now : BlockTimestamp) (voter : VoterInfo K) :
    Weighed vs (vs.activateStake now voter) := by
  unfold activateStake
  refine .of_eq ?_ ?_ <;> dsimp only <;> split_ifs <;> rfl

/-- A new vote sets the proxy of the voter. -/
theorem updateVotes_flags {now : BlockTimestamp} {a proxy : Name} {producers : List Name}
    {voting : Bool} (h : vs.updateVotes now a proxy producers voting = .ok vs') :
    vs'.flags = Function.update vs.flags a { vs.flags a with proxy } ∧
    ProducersKept vs.producers vs'.producers ∧ vs'.unpaid = vs.unpaid ∧
    (proxy = .none ∨ (vs.flags a).isProxy = false ∧ a ≠ proxy ∧
      (voting = false ∨ (vs.flags proxy).isProxy = true)) := by
  simp only [updateVotes, bind_eq_ok, require_eq_ok, check_eq_ok, exists_const, pure_eq_ok] at h
  obtain ⟨_, hval, voter, hf, hproxy, vs₁, h₁, vs₂, h₂, ⟨vs₃, acc⟩, h₃, voter', hf', rfl⟩ := h
  have hk₁ := (activateStake_kept vs now voter).trans (undoProxy_kept h₁)
  obtain ⟨hk₂, hcast⟩ := castProxy_kept h₂
  rw [hk₁.flags] at hcast
  have hk : Weighed vs (vs₃.updateTotalVotepayShare now.usec (-acc.totalInactiveVpayShare)
      acc.deltaChangeRate) :=
    ((hk₁.trans hk₂).trans (applyDeltas_kept h₃)).trans (.of_eq rfl rfl)
  have hflags : vs.flags a = voter'.flags := by rw [← hk.flags, flags_of_find hf']
  refine ⟨?_, hk.producers, hk.unpaid, ?_⟩
  · rw [flags_setVoter, hk.flags, hflags]
    rfl
  · by_cases hp : proxy = .none
    · exact .inl hp
    · refine .inr ⟨?_, ?_, hcast.resolve_left hp⟩
      · rw [flags_of_find hf]
        exact hproxy.resolve_left hp
      · rw [validateVote, if_pos hp] at hval
        exact check_eq_ok.mp (check_bind_eq_ok.mp hval).2

omit [CMath K] [LinearOrder K] in
theorem addStaked_kept (vs : VoteState K) (a : Name) (delta : ℤ) :
    Weighed vs (vs.addStaked a delta) := by
  refine weighed_setVoter ?_
  unfold flags
  cases vs.voters.find a <;> rfl

/-- The stake of a voter changes, and the same vote is cast again. -/
theorem updateVotingPower_kept {now : BlockTimestamp} {a : Name} {delta : ℤ}
    (h : vs.updateVotingPower now a delta = .ok vs') : Weighed vs vs' := by
  have hadd := addStaked_kept vs a delta
  simp only [updateVotingPower, bind_eq_ok, require_eq_ok, check_eq_ok, exists_const] at h
  obtain ⟨voter, hf, -, h⟩ := h
  have h : (if voter.producers ≠ [] ∨ voter.proxy ≠ .none then
      (vs.addStaked a delta).updateVotes now a voter.proxy voter.producers false
      else pure (vs.addStaked a delta)) = .ok vs' := by
    by_cases hb : a = b1Account
    · rw [if_pos hb] at h
      obtain ⟨_, -, h⟩ := bind_eq_ok.mp h
      exact h
    · rw [if_neg hb] at h
      exact h
  split_ifs at h
  · obtain ⟨hflags, hproducers, hunpaid, -⟩ := updateVotes_flags h
    refine hadd.trans ⟨⟨?_, hproducers⟩, hunpaid⟩
    rw [hflags, flags_of_find hf]
    exact Function.update_eq_self_iff.mpr (flags_of_find hf).symm
  · exact pure_eq_ok.mp h ▸ hadd

/-- A voter is registered as a proxy, or no longer. -/
theorem regproxy_flags {now : BlockTimestamp} {a : Name} {b : Bool}
    (h : vs.regproxy now a b = .ok vs') :
    vs'.flags = Function.update vs.flags a { vs.flags a with isProxy := b } ∧
    ProducersKept vs.producers vs'.producers ∧ vs'.unpaid = vs.unpaid ∧
    (b = true → (vs.flags a).proxy = .none) := by
  obtain ⟨-, h⟩ := check_bind_eq_ok.mp h
  split at h
  · rename_i v hf
    simp only [check_bind_eq_ok] at h
    obtain ⟨-, hb, h⟩ := h
    have hk := propagateWeightChange_kept h
    refine ⟨?_, hk.producers, hk.unpaid, fun ht => ?_⟩
    · rw [hk.flags, flags_setVoter, flags_of_find hf]
      rfl
    · rw [flags_of_find hf]
      exact hb.resolve_left (ht ▸ Bool.true_eq_false_eq_False)
  · rename_i hf
    obtain rfl := pure_eq_ok.mp h
    have hnew : vs.flags a = .new := by rw [flags, hf, Option.elim_none]
    refine ⟨?_, .refl, rfl, fun _ => by rw [hnew]; rfl⟩
    rw [flags_setVoter, hnew]
    rfl

end Votes

end VoteState

/-! ## Actions -/

/-- The actions that set or clear the flag of a managed resource. -/
def Action.administers : Action K → Bool
  | setacctram .. | setacctnet .. | setacctcpu .. => true
  | _ => false

/-- What an action does to the flags of the voters and to the producers. -/
inductive VoteChange : Action K → VoteState K → VoteState K → Prop
  | kept {x vs vs'} (h : vs.Kept vs') : VoteChange x vs vs'
  | vote {a proxy producers} {vs vs' : VoteState K}
      (hf : vs'.flags = Function.update vs.flags a { vs.flags a with proxy })
      (hk : ProducersKept vs.producers vs'.producers)
      (hp : proxy = .none ∨ (vs.flags a).isProxy = false ∧ a ≠ proxy ∧
        (vs.flags proxy).isProxy = true) : VoteChange (.voteproducer a proxy producers) vs vs'
  | register {a b} {vs vs' : VoteState K}
      (hf : vs'.flags = Function.update vs.flags a { vs.flags a with isProxy := b })
      (hk : ProducersKept vs.producers vs'.producers)
      (hb : b = true → (vs.flags a).proxy = .none) : VoteChange (.regproxy a b) vs vs'
  | manage {x a m} {vs vs' : VoteState K} (hx : x.administers = true)
      (hf : vs'.flags = Function.update vs.flags a { vs.flags a with managed := m })
      (hk : vs'.producers = vs.producers) : VoteChange x vs vs'
  | producers {x} {vs vs' : VoteState K} (hx : x.isPool = true) (hv : vs'.voters = vs.voters) :
      VoteChange x vs vs'

namespace State

variable {s s₁ s' : State K} {now : BlockTimestamp}

variable [Field K]

/-- A flag that changes only which resources are managed. -/
theorem setManaged_change (s : State K) {x : Action K} (a : Name)
    (flag : VoterInfo K → VoterInfo K) (hx : x.administers = true) (hp : ∀ v, (flag v).proxy =
      v.proxy)
    (hi : ∀ v, (flag v).isProxy = v.isProxy) :
    VoteChange x s.vote (s.setManaged a flag) := by
  refine .manage hx (a := a) (m := (flag ((s.vote.voters.find a).getD .new)).flags.managed) ?_ rfl
  rw [setManaged, VoteState.flags_setVoter]
  congr 1
  unfold VoteState.flags
  cases s.vote.voters.find a with
  | none => simp [VoterInfo.flags, hp, hi, VoterInfo.new, VoterFlags.new]
  | some v => simp [VoterInfo.flags, hp, hi]

theorem updatePoolVotes_voters {a proxy : Name} {producers : List Name} {voting : Bool}
    (h : s.updatePoolVotes a proxy producers voting = .ok s') :
    s'.vote.voters = s.vote.voters := by
  simp only [updatePoolVotes, bind_eq_ok, pure_eq_ok] at h
  obtain ⟨st, -, pv, -, rfl⟩ := h
  rfl

theorem recastVotes_voters {a : Name} (h : s.recastVotes a = .ok s') :
    s'.vote.voters = s.vote.voters := by
  obtain ⟨_, -, h⟩ := bind_eq_ok.mp h
  exact updatePoolVotes_voters h

omit [Field K] in
theorem updateRexStake_kept {a : Name} (h : s.updateRexStake a = .ok s') :
    s.vote.Weighed s'.vote := by
  unfold updateRexStake at h
  split at h
  · split_ifs at h
    · simp only [bind_eq_ok, pure_eq_ok] at h
      obtain ⟨stake, -, rfl⟩ := h
      dsimp only
      split
      · rename_i v hf
        exact VoteState.weighed_setVoter (VoteState.flags_of_find hf).symm
      · exact .refl
    · exact pure_eq_ok.mp h ▸ .refl
  · exact pure_eq_ok.mp h ▸ .refl

variable [LinearOrder K] [CMath K]

theorem updateRexAccount_kept {owner : Name} {proceeds deltaStake pending : ℤ} {force : Bool}
    (h : s.updateRexAccount now owner proceeds deltaStake force = .ok (s', pending)) :
    s.vote.Weighed s'.vote := by
  obtain ⟨_, _, _, rex, vote, -, -, hv, rfl⟩ := updateRexAccount_eq_ok h
  split_ifs at hv
  · exact VoteState.updateVotingPower_kept hv
  · exact pure_eq_ok.mp hv ▸ .refl

omit [Field K] [LinearOrder K] [CMath K] in
theorem runrex_vote {max : ℕ} (h : s.runrex now max = .ok s') : s'.vote = s.vote :=
  (runrex_changes h).same .vote (by simp)

omit [Field K] [LinearOrder K] [CMath K] in
theorem changeRefund_vote {sender owner receiver : Name} {net cpu : ℤ} {transfer : Bool}
    (h : s.changeRefund now sender owner receiver net cpu transfer = .ok s') :
    s'.vote = s.vote := by
  unfold changeRefund at h
  by_cases hstake : sender = stakeAccount
  · rw [if_pos hstake] at h
    exact pure_eq_ok.mp h ▸ rfl
  · rw [if_neg hstake] at h
    simp only [bind_eq_ok, pure_eq_ok] at h
    obtain ⟨_, -, token, -, rfl⟩ := h
    rfl

theorem changebw_kept {sender receiver : Name} {net cpu : ℤ} {transfer : Bool}
    (h : s.changebw now sender receiver net cpu transfer = .ok s') : s.vote.Weighed s'.vote := by
  simp only [changebw, bind_eq_ok, check_eq_ok, requireAuth_eq_ok, exists_const, pure_eq_ok] at h
  obtain ⟨-, -, -, stake, -, res, -, s₁, hr, s₂, hu, vote, hv, rfl⟩ := h
  have hvote := changeRefund_vote hr
  exact hvote ▸ (updateRexStake_kept hu).trans (VoteState.updateVotingPower_kept hv)

end State

namespace Action

variable [Field K] [LinearOrder K] [FloorRing K] [CMath K]

/-- An action makes the change of the voters and the producers that belongs to it, and counts no
unpaid blocks unless it is one of the pools, a block, or a claim. -/
theorem exec_vote_unpaid {env : Env} {x : Action K} {s s' : State K} (h : x.exec env s = .ok s') :
    VoteChange x s.vote s'.vote ∧
      (x.isPool = true ∨ (∃ owner, x = .claimrewards owner) ∨ s'.vote.unpaid = s.vote.unpaid) := by
  by_cases hparts : Part.vote ∈ x.parts
  swap
  · have hsame : s'.vote = s.vote := (exec_changes h).same .vote hparts
    rw [hsame]
    exact ⟨.kept .refl, .inr (.inr rfl)⟩
  have kept (hk : s.vote.Weighed s'.vote) : VoteChange x s.vote s'.vote ∧ (x.isPool = true ∨
      (∃ owner, x = .claimrewards owner) ∨ s'.vote.unpaid = s.vote.unpaid) :=
    ⟨.kept hk.toKept, .inr (.inr hk.unpaid)⟩
  have producers (hx : x.isPool = true) (hv : s'.vote.voters = s.vote.voters) :
      VoteChange x s.vote s'.vote ∧ (x.isPool = true ∨ (∃ owner, x = .claimrewards owner) ∨
        s'.vote.unpaid = s.vote.unpaid) := ⟨.producers hx hv, .inl hx⟩
  cases x with
  | setacctram account =>
    obtain ⟨m, ram, rfl, -⟩ := State.setacctram_eq_ok h
    exact ⟨s.setManaged_change account (fun v => { v with ramManaged := m }) rfl (fun _ => rfl)
      fun _ => rfl, .inr (.inr rfl)⟩
  | setacctnet account =>
    obtain ⟨m, net, rfl, -⟩ := State.setacctnet_eq_ok h
    exact ⟨s.setManaged_change account (fun v => { v with netManaged := m }) rfl (fun _ => rfl)
      fun _ => rfl, .inr (.inr rfl)⟩
  | setacctcpu account =>
    obtain ⟨m, cpu, rfl, -⟩ := State.setacctcpu_eq_ok h
    exact ⟨s.setManaged_change account (fun v => { v with cpuManaged := m }) rfl (fun _ => rfl)
      fun _ => rfl, .inr (.inr rfl)⟩
  | delegatebw =>
    simp only [exec, State.delegatebw, bind_eq_ok, check_eq_ok, State.checkCore_eq_ok,
      exists_const] at h
    exact kept (State.changebw_kept h.2.2.2.2.2.2)
  | undelegatebw =>
    simp only [exec, State.undelegatebw, bind_eq_ok, check_eq_ok, State.checkCore_eq_ok,
      exists_const] at h
    exact kept (State.changebw_kept h.2.2.2.2.2)
  | voteproducer voter proxy producers =>
    simp only [exec, State.voteproducer, bind_eq_ok, requireAuth_eq_ok, exists_const] at h
    obtain ⟨-, s₁, hu, vote, hv, h⟩ := h
    have hk := State.updateRexStake_kept hu
    obtain ⟨hf, hproducers, hunpaid, hp⟩ := VoteState.updateVotes_flags hv
    obtain rfl : { s₁ with vote } = s' := by
      split_ifs at h
      · exact pure_eq_ok.mp (check_bind_eq_ok.mp h).2
      · exact pure_eq_ok.mp h
    rw [hk.flags] at hf hp
    refine ⟨.vote hf (hk.producers.trans hproducers) (hp.imp_right ?_),
      .inr (.inr (hunpaid.trans hk.unpaid))⟩
    rintro ⟨hi, hne, ht⟩
    exact ⟨hi, hne, ht.resolve_left (by decide)⟩
  | regproxy =>
    simp only [exec, State.regproxy, bind_eq_ok, pure_eq_ok] at h
    obtain ⟨vote, hv, rfl⟩ := h
    obtain ⟨hf, hk, hu, hb⟩ := VoteState.regproxy_flags hv
    exact ⟨.register hf hk hb, .inr (.inr hu)⟩
  | withdraw =>
    simp only [exec, State.withdraw, bind_eq_ok, requireAuth_eq_ok, check_eq_ok,
      State.checkCore_eq_ok, exists_const, pure_eq_ok] at h
    obtain ⟨-, -, -, ⟨s₁, _⟩, ha, rex, -, token, -, rfl⟩ := h
    have hk := State.updateRexAccount_kept ha
    exact kept hk
  | buyrex =>
    simp only [exec, State.buyrex, bind_eq_ok, requireAuth_eq_ok, check_eq_ok,
      State.checkCore_eq_ok, VoteState.checkVotingRequirement_eq_ok, exists_const,
      pure_eq_ok] at h
    obtain ⟨-, -, -, -, _, -, ⟨_, _⟩, -, ⟨rex, _⟩, -, s₁, hr, ⟨s₂, _⟩, ha, rfl⟩ := h
    have hk := State.updateRexAccount_kept ha
    rw [State.runrex_vote hr] at hk
    exact kept hk
  | unstaketorex =>
    simp only [exec, State.unstaketorex, bind_eq_ok, requireAuth_eq_ok, check_eq_ok,
      State.checkCore_eq_ok, VoteState.checkVotingRequirement_eq_ok, exists_const,
      pure_eq_ok] at h
    obtain ⟨-, -, -, -, -, stake, -, res, -, token, -, ⟨_, _⟩, -, ⟨rex, _⟩, -, s₁, hr, ⟨s₂, _⟩,
      ha, rfl⟩ := h
    have hk := State.updateRexAccount_kept ha
    rw [State.runrex_vote hr] at hk
    exact kept hk
  | sellrex =>
    simp only [exec, State.sellrex, bind_eq_ok, requireAuth_eq_ok, check_eq_ok, require_eq_ok,
      exists_const, pure_eq_ok] at h
    obtain ⟨-, s₁, hr, rb, -, -, -, ⟨r, o⟩, -, -, ⟨s₂, _⟩, ha, -, _, -, -, rfl⟩ := h
    have hk := State.updateRexAccount_kept ha
    dsimp only at hk
    rw [State.runrex_vote hr] at hk
    exact kept hk
  | updaterex =>
    simp only [exec, State.updaterex, bind_eq_ok, requireAuth_eq_ok, require_eq_ok,
      exists_const, pure_eq_ok] at h
    obtain ⟨-, s₁, hr, rb, -, p, -, value, -, ⟨s₂, _⟩, ha, rfl⟩ := h
    have hk := State.updateRexAccount_kept ha
    dsimp only at hk
    rw [State.runrex_vote hr] at hk
    exact kept hk
  | consolidate =>
    simp only [exec, State.consolidate, bind_eq_ok, requireAuth_eq_ok, require_eq_ok,
      exists_const, pure_eq_ok] at h
    obtain ⟨-, s₁, hr, rb, -, ⟨s₂, _⟩, ha, rfl⟩ := h
    have hk := State.updateRexAccount_kept ha
    rw [State.runrex_vote hr] at hk
    exact kept hk
  | mvtosavings =>
    simp only [exec, State.mvtosavings, bind_eq_ok, requireAuth_eq_ok, require_eq_ok,
      check_eq_ok, exists_const, pure_eq_ok] at h
    obtain ⟨-, s₁, hr, rb, -, -, ⟨s₂, _⟩, ha, rb', -, rfl⟩ := h
    have hk := State.updateRexAccount_kept ha
    rw [State.runrex_vote hr] at hk
    exact kept hk
  | mvfrsavings =>
    simp only [exec, State.mvfrsavings, bind_eq_ok, requireAuth_eq_ok, require_eq_ok,
      check_eq_ok, exists_const, pure_eq_ok] at h
    obtain ⟨-, s₁, hr, rb, -, -, rb', -, ⟨s₂, _⟩, ha, rfl⟩ := h
    have hk := State.updateRexAccount_kept ha
    dsimp only at hk
    rw [State.runrex_vote hr] at hk
    exact kept hk
  | closerex =>
    simp only [exec, State.closerex, bind_eq_ok, requireAuth_eq_ok, exists_const,
      pure_eq_ok] at h
    obtain ⟨-, s₁, hr, ⟨s₂, _⟩, ha, rex, -, rfl⟩ := h
    have hk := State.updateRexAccount_kept ha
    have hvote : s₁.vote = s.vote := by
      split_ifs at hr
      · exact State.runrex_vote hr
      · exact pure_eq_ok.mp hr ▸ rfl
    rw [hvote] at hk
    exact kept hk
  | onblock timestamp producer =>
    obtain rfl := Except.ok.inj h
    obtain ⟨_, _, _, q, r, names, pay, producers, he, hc, -⟩ :=
      s.onblock_eq env.now timestamp producer
    rw [he]
    refine ⟨.kept ⟨rfl, ?_⟩, .inl rfl⟩
    rcases hc with rfl | ⟨prod, hf, rfl⟩
    · exact .refl
    · exact .set .refl hf rfl rfl
  | claimrewards owner =>
    simp only [exec, State.claimrewards, bind_eq_ok, requireAuth_eq_ok, check_eq_ok,
      require_eq_ok, exists_const, pure_eq_ok] at h
    obtain ⟨-, prod, hf, -, -, -, s₁, hb, t₁, -, t₂, -, rfl⟩ := h
    obtain ⟨token, pay, rfl⟩ : ∃ token pay, s₁ = { s with token, pay } := by
      unfold State.fillBuckets at hb
      split_ifs at hb
      · simp only [bind_eq_ok, pure_eq_ok] at hb
        obtain ⟨_, -, token, -, rfl⟩ := hb
        exact ⟨_, _, rfl⟩
      · exact ⟨s.token, s.pay, (pure_eq_ok.mp hb).symm⟩
    refine ⟨.kept ⟨?_, ?_⟩, .inr (.inl ⟨_, rfl⟩)⟩
    · unfold VoteState.flags
      dsimp only [State.claimShare, VoteState.updateTotalVotepayShare]
      split_ifs <;> rfl
    · have hset : ProducersKept s.vote.producers (s.vote.producers.set owner { prod with
          lastClaimTime := env.now.usec
          unpaidBlocks := 0 }) := .set .refl hf rfl rfl
      dsimp only [State.claimShare, VoteState.updateTotalVotepayShare]
      split_ifs <;> exact hset
  | cfgsrpool =>
    unfold exec State.cfgsrpool at h
    obtain ⟨core, -, h⟩ := bind_eq_ok.mp h
    split at h
    · simp only [bind_eq_ok, pure_eq_ok] at h
      obtain ⟨_, -, _, -, rfl⟩ := h
      refine producers rfl ?_
      dsimp only
      split_ifs <;> rfl
    · simp only [bind_eq_ok, check_eq_ok, exists_const, pure_eq_ok] at h
      obtain ⟨-, -, -, _, -, rfl⟩ := h
      exact kept .refl
  | regproducer producer url =>
    simp only [exec, State.regproducer, bind_eq_ok, check_eq_ok, requireAuth_eq_ok,
      exists_const] at h
    refine producers rfl ?_
    have h := h.2.2
    unfold State.registerProducer at h
    split at h
    · simp only [bind_eq_ok, pure_eq_ok] at h
      obtain ⟨_, -, rfl⟩ := h
      dsimp only
      split <;> rfl
    · simp only [bind_eq_ok, check_eq_ok, exists_const, pure_eq_ok] at h
      obtain ⟨_, -, -, rfl⟩ := h
      rfl
  | unregprod =>
    simp only [exec, State.unregprod, State.deactivateProducer, bind_eq_ok, pure_eq_ok] at h
    obtain ⟨_, -, _, -, rfl⟩ := h
    exact producers rfl rfl
  | rmvproducer =>
    simp only [exec, State.rmvproducer, State.deactivateProducer, bind_eq_ok, pure_eq_ok] at h
    obtain ⟨_, -, rfl⟩ := h
    exact producers rfl rfl
  | stake2pool =>
    simp only [exec, State.stake2pool, bind_eq_ok] at h
    obtain ⟨_, -, _, -, _, -, _, -, _, -, _, -, _, -, h⟩ := h
    have hv := State.recastVotes_voters h
    exact producers rfl hv
  | claimstake owner =>
    simp only [exec, State.claimstake, bind_eq_ok, requireAuth_eq_ok, check_eq_ok,
      State.checkCore_eq_ok, exists_const] at h
    obtain ⟨-, st, -, -, -, -, _, -, s₁, hd, st₁, -, pool, -, -, ⟨_, _, _⟩, -, _, -, token, -, h⟩ :=
      h
    have hvote : s₁.vote = s.vote := (State.distributeNamebidToPools_changes hd).same .vote (by
      simp)
    have hv := State.recastVotes_voters h
    rw [show _ = s₁.vote from rfl, hvote] at hv
    exact producers rfl hv
  | transferstake =>
    simp only [exec, State.transferstake, bind_eq_ok, requireAuth_eq_ok, check_eq_ok,
      State.checkCore_eq_ok, exists_const] at h
    obtain ⟨-, -, -, -, st, -, -, -, -, v, -, -, ⟨_, _, _⟩, -, -, ⟨_, _⟩, -, _, -, s₁, h₁, h₂⟩ := h
    have hv := (State.recastVotes_voters h₂).trans (State.recastVotes_voters h₁)
    exact producers rfl hv
  | upgradestake =>
    simp only [exec, State.upgradestake, bind_eq_ok, requireAuth_eq_ok, check_eq_ok,
      State.checkCore_eq_ok, exists_const] at h
    obtain ⟨-, st, -, -, -, -, -, -, v, -, ⟨_, _, _⟩, -, -, ⟨_, _⟩, -, _, -, h⟩ := h
    have hv := State.recastVotes_voters h
    exact producers rfl hv
  | votewithpool =>
    simp only [exec, State.votewithpool, bind_eq_ok, requireAuth_eq_ok, exists_const] at h
    obtain ⟨-, _, -, _, -, h⟩ := h
    exact producers rfl (State.updatePoolVotes_voters h)
  | regpoolproxy =>
    simp only [exec, State.regpoolproxy, bind_eq_ok, requireAuth_eq_ok, check_eq_ok,
      exists_const, pure_eq_ok] at h
    obtain ⟨-, st, -, -, pv, -, rfl⟩ := h
    exact producers rfl rfl
  | _ => simp [parts] at hparts

/-- **An action** makes the change of the voters and the producers that belongs to it. -/
theorem exec_vote {env : Env} {x : Action K} {s s' : State K} (h : x.exec env s = .ok s') :
    VoteChange x s.vote s'.vote := (exec_vote_unpaid h).1

end Action

end EosioSystem
