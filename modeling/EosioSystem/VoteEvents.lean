import EosioSystem.VoteFlags

/-!
# The voting tables, action by action

Each action changes the voting tables in one of a few ways: it casts a vote, changes a stake and
casts the vote again, registers a proxy or a producer, pays a producer, or writes fields that no
vote depends on. Invariants of the votes are proved once for each of these ways.

## Main definitions

* `PoolRecount`, `SameStanding`: what the pool votes and the blocks do to the producers
* `Restaked`: the stake of a voter has been brought up to date
* `VoteState.reregister`, `VoteState.claimed`: a registration and a claim
* `VoteEvent`: what an action does to the voting tables

## Main results

* `PoolVotes.updatePoolVotes_recount`: the staking pools change pool votes only
* `Action.exec_voteEvent`: **every action** is one of these events
-/

namespace EosioSystem

open Checked

variable {K : Type}

/-! ## Producers -/

/-- Some producers have other pool votes now, where they had some before. -/
inductive PoolRecount (t : Table Name (ProducerInfo K)) : Table Name (ProducerInfo K) → Prop
  | refl : PoolRecount t t
  | set {t' p prod l} (l' : List K) : PoolRecount t t' → t'.find p = some prod →
    prod.poolVotes = some l → PoolRecount t (t'.set p { prod with poolVotes := some l' })

theorem PoolRecount.trans {t t₁ t' : Table Name (ProducerInfo K)} (h₁ : PoolRecount t t₁)
    (h₂ : PoolRecount t₁ t') : PoolRecount t t' := by
  induction h₂ with
  | refl => exact h₁
  | set l' _ hf hl ih => exact .set l' ih hf hl

/-- What a producer's pay for votes depends on. -/
def ProducerInfo.standing (p : ProducerInfo K) : K × ℕ := (p.totalVotes, p.lastClaimTime)

/-- The votes and the last claims of all producers are as before. -/
def SameStanding (t t' : Table Name (ProducerInfo K)) : Prop := t.AgreeOn ProducerInfo.standing t'

namespace SameStanding

variable {t t' : Table Name (ProducerInfo K)}

theorem of_recount (h : PoolRecount t t') : SameStanding t t' := by
  induction h with
  | refl => exact Table.AgreeOn.refl _ t
  | set l' _ hf _ ih => exact Table.AgreeOn.trans ih (.set hf rfl)

theorem of_counted {producer : Name} (h : State.Counted producer t t') : SameStanding t t' := by
  rcases h with rfl | ⟨prod, hf, rfl⟩
  · exact Table.AgreeOn.refl _ _
  · exact Table.AgreeOn.set hf rfl

end SameStanding

/-! ### Pool votes -/

namespace PoolVotes

variable [Field K] {pv pv' : PoolVotes K}

theorem addPoolVotes_recount {acnt : Name} {deltas : List K}
    (h : pv.addPoolVotes acnt deltas = .ok pv') : PoolRecount pv.producers pv'.producers := by
  simp only [addPoolVotes, bind_eq_ok, require_eq_ok, check_eq_ok, exists_const, pure_eq_ok] at h
  obtain ⟨prod, hf, votes, hv, -, rfl⟩ := h
  exact .set _ .refl hf hv

theorem subPoolVotes_recount {acnt : Name} {deltas : List K} {text : String}
    (h : pv.subPoolVotes acnt deltas text = .ok pv') : PoolRecount pv.producers pv'.producers := by
  simp only [subPoolVotes, bind_eq_ok, require_eq_ok, check_eq_ok, exists_const, pure_eq_ok] at h
  obtain ⟨prod, hf, votes, hv, -, rfl⟩ := h
  exact .set _ .refl hf hv

theorem moveProducerVotes_recount {last new : List K} {l : List Name}
    (h : moveProducerVotes last new l pv = .ok pv') : PoolRecount pv.producers pv'.producers := by
  induction l generalizing pv with
  | nil => exact pure_eq_ok.mp h ▸ .refl
  | cons p l ih =>
    simp only [moveProducerVotes, bind_eq_ok] at h
    obtain ⟨_, -, pv₁, h₁, pv₂, h₂, h⟩ := h
    exact ((subPoolVotes_recount h₁).trans (addPoolVotes_recount h₂)).trans (ih h)

theorem updatePoolProxy_recount {fuel : ℕ} {a : Name} (h : updatePoolProxy fuel pv a = .ok pv') :
    PoolRecount pv.producers pv'.producers := by
  induction fuel generalizing pv pv' a with
  | zero => cases h
  | succ fuel ih =>
    simp only [updatePoolProxy, bind_eq_ok, require_eq_ok, check_eq_ok, exists_const,
      pure_eq_ok] at h
    obtain ⟨voter, -, -, pv₁, h₁, v, -, rfl⟩ := h
    change PoolRecount pv.producers pv₁.producers
    split_ifs at h₁
    · simp only [bind_eq_ok, require_eq_ok] at h₁
      obtain ⟨_, -, _, -, p, -, h₁⟩ := h₁
      have hproxy := ih h₁
      exact hproxy
    · exact moveProducerVotes_recount h₁

theorem applyChanges_recount {voting : Bool} {last new : List K} {l : List (Name × Bool × Bool)}
    (h : applyChanges voting last new l pv = .ok pv') :
    PoolRecount pv.producers pv'.producers := by
  induction l generalizing pv with
  | nil => exact pure_eq_ok.mp h ▸ .refl
  | cons c l ih =>
    obtain ⟨p, old, isNew⟩ := c
    unfold applyChanges at h
    split at h
    · exact ih (check_bind_eq_ok.mp h).2
    · simp only [bind_eq_ok] at h
      obtain ⟨_, -, pv₁, h₁, pv₂, h₂, h⟩ := h
      have hsub : PoolRecount pv.producers pv₁.producers := by
        cases old
        · exact pure_eq_ok.mp h₁ ▸ .refl
        · exact subPoolVotes_recount h₁
      have hadd : PoolRecount pv₁.producers pv₂.producers := by
        cases isNew
        · exact pure_eq_ok.mp h₂ ▸ .refl
        · exact addPoolVotes_recount h₂
      exact (hsub.trans hadd).trans (ih h)

/-- A vote in the staking pools changes pool votes only. -/
theorem updatePoolVotes_recount {n : ℕ} {a proxy : Name} {producers : List Name} {voting : Bool}
    (h : pv.updatePoolVotes n a proxy producers voting = .ok pv') :
    PoolRecount pv.producers pv'.producers := by
  simp only [updatePoolVotes, bind_eq_ok, check_eq_ok, require_eq_ok, exists_const,
    pure_eq_ok] at h
  obtain ⟨_, -, -, pv₁, h₁, pv₂, h₂, v, -, pv₃, h₃, rfl⟩ := h
  have hundo : PoolRecount pv.producers pv₁.producers := by
    unfold undoProxy at h₁
    split_ifs at h₁
    · simp only [bind_eq_ok] at h₁
      obtain ⟨_, -, p, -, h₁⟩ := h₁
      have hproxy := updatePoolProxy_recount h₁
      exact hproxy
    · exact pure_eq_ok.mp h₁ ▸ .refl
  have hcast : PoolRecount pv₁.producers pv₂.producers := by
    unfold castProxy at h₂
    split_ifs at h₂
    · simp only [bind_eq_ok] at h₂
      obtain ⟨_, -, _, -, p, -, h₂⟩ := h₂
      have hproxy := updatePoolProxy_recount h₂
      exact hproxy
    · exact pure_eq_ok.mp h₂ ▸ .refl
  have hchanges := applyChanges_recount h₃
  exact (hundo.trans hcast).trans hchanges

end PoolVotes

/-! ## Events -/

namespace VoteState

variable {vs vs' : VoteState K}

/-- The stake of one voter may have been brought up to date. -/
def Restaked (vs vs' : VoteState K) : Prop :=
  vs' = vs ∨ ∃ a v staked, vs.voters.find a = some v ∧ vs' = vs.setVoter a { v with staked }

variable [Field K] [LinearOrder K]

/-- After a change of its stake a voter casts its vote again, if it has one. -/
theorem updateVotingPower_cases [CMath K] {now : BlockTimestamp} {a : Name} {delta : ℤ}
    (h : vs.updateVotingPower now a delta = .ok vs') :
    ∃ voter, (vs.addStaked a delta).voters.find a = some voter ∧
      (vs' = vs.addStaked a delta ∨
        (vs.addStaked a delta).updateVotes now a voter.proxy voter.producers false = .ok vs') := by
  simp only [updateVotingPower, bind_eq_ok, require_eq_ok, check_eq_ok, exists_const] at h
  obtain ⟨voter, hf, -, h⟩ := h
  refine ⟨voter, hf, ?_⟩
  have h : (if voter.producers ≠ [] ∨ voter.proxy ≠ .none then
      (vs.addStaked a delta).updateVotes now a voter.proxy voter.producers false
      else pure (vs.addStaked a delta)) = .ok vs' := by
    by_cases hb : a = b1Account
    · rw [if_pos hb] at h
      obtain ⟨_, -, h⟩ := bind_eq_ok.mp h
      exact h
    · rw [if_neg hb] at h
      exact h
  split_ifs at h
  · exact .inr h
  · exact .inl (pure_eq_ok.mp h).symm

/-- A producer that is known has a new record, and a record of its share from now on. -/
def reregister (vs : VoteState K) (ct : ℕ) (producer : Name) (info : ProducerInfo K) :
    VoteState K :=
  let vs := { vs with producers := vs.producers.set producer info }
  match vs.producers2.find producer with
  | some _ => vs
  | none => ({ vs with producers2 := vs.producers2.set producer ⟨0, ct⟩ } :
      VoteState K).updateTotalVotepayShare ct 0 info.totalVotes

/-- What a claim of a producer's pay does to the votes; the total of the shares is brought up to
date first since the revision. -/
def claimed (vs : VoteState K) (now : BlockTimestamp) (owner : Name) (prod : ProducerInfo K)
    (revised : Bool) : VoteState K :=
  let (vote, share, updatedAfterThreshold) := State.claimShare now vs owner prod
  let vote := if revised then vote.updateTotalVotepayShare now.usec 0 0 else vote
  let vote := vote.updateTotalVotepayShare now.usec (-share)
    (if updatedAfterThreshold then prod.totalVotes else 0)
  { vote with producers := vote.producers.set owner { prod with
    lastClaimTime := now.usec
    unpaidBlocks := 0 } }

end VoteState

/-- What an action does to the voting tables. -/
inductive VoteEvent [Field K] [LinearOrder K] [CMath K] (now : BlockTimestamp) :
    VoteState K → VoteState K → Prop
  | vote {vs vs₁ vs' a proxy producers} (hr : vs.Restaked vs₁)
      (h : vs₁.updateVotes now a proxy producers true = .ok vs') : VoteEvent now vs vs'
  | stake {vs vs₁ vs' a delta} (hr : vs.Restaked vs₁)
      (h : vs₁.updateVotingPower now a delta = .ok vs') : VoteEvent now vs vs'
  | restake {vs vs'} (hr : vs.Restaked vs') : VoteEvent now vs vs'
  | regproxy {vs vs' a b} (h : vs.regproxy now a b = .ok vs') : VoteEvent now vs vs'
  | manage {vs : VoteState K} {a} {flag : VoterInfo K → VoterInfo K}
      (hflag : ∀ v, ∃ ramManaged netManaged cpuManaged,
        flag v = { v with ramManaged, netManaged, cpuManaged }) :
      VoteEvent now vs (vs.setVoter a (flag ((vs.voters.find a).getD .new)))
  | activate {vs : VoteState K} (threshActivatedStakeTime : ℕ) :
      VoteEvent now vs { vs with threshActivatedStakeTime }
  | producers {vs : VoteState K} {producers} (h : SameStanding vs.producers producers) :
      VoteEvent now vs { vs with producers }
  | register {vs : VoteState K} {p poolVotes} (hf : vs.producers.find p = none)
      (hf₂ : vs.producers2.find p = none) : VoteEvent now vs { vs with
        producers := vs.producers.set p ⟨0, true, 0, now.usec, poolVotes⟩
        producers2 := vs.producers2.set p ⟨0, now.usec⟩ }
  | reregister {vs : VoteState K} {p info poolVotes} (hf : vs.producers.find p = some info) :
      VoteEvent now vs (vs.reregister now.usec p { info with
        isActive := true
        lastClaimTime := if info.lastClaimTime = 0 then now.usec else info.lastClaimTime
        poolVotes })
  | claim {vs : VoteState K} {owner prod revised} (hf : vs.producers.find owner = some prod)
      (ht : prod.lastClaimTime + usecondsPerDay < now.usec) :
      VoteEvent now vs (vs.claimed now owner prod revised)

theorem VoteEvent.same [Field K] [LinearOrder K] [CMath K] {now : BlockTimestamp}
    {vs vs' : VoteState K} (h : vs' = vs) : VoteEvent now vs vs' := .restake (.inl h)

namespace State

variable [Field K] {s s' : State K} {now : BlockTimestamp}

/-- The staking pools change pool votes only. -/
theorem updatePoolVotes_vote {a proxy : Name} {producers : List Name} {voting : Bool}
    (h : s.updatePoolVotes a proxy producers voting = .ok s') :
    ∃ producers, s'.vote = { s.vote with producers } ∧ PoolRecount s.vote.producers producers := by
  simp only [updatePoolVotes, bind_eq_ok, pure_eq_ok] at h
  obtain ⟨st, -, pv, hpv, rfl⟩ := h
  exact ⟨pv.producers, rfl, PoolVotes.updatePoolVotes_recount hpv⟩

theorem recastVotes_vote {a : Name} (h : s.recastVotes a = .ok s') :
    ∃ producers, s'.vote = { s.vote with producers } ∧ PoolRecount s.vote.producers producers := by
  obtain ⟨_, -, h⟩ := bind_eq_ok.mp h
  exact updatePoolVotes_vote h

omit [Field K] in
theorem updateRexStake_restaked {a : Name} (h : s.updateRexStake a = .ok s') :
    s.vote.Restaked s'.vote := by
  unfold updateRexStake at h
  split at h
  · split_ifs at h
    · simp only [bind_eq_ok, pure_eq_ok] at h
      obtain ⟨stake, -, rfl⟩ := h
      dsimp only
      split
      · rename_i v hf
        exact .inr ⟨a, v, _, hf, rfl⟩
      · exact .inl rfl
    · exact .inl (pure_eq_ok.mp h ▸ rfl)
  · exact .inl (pure_eq_ok.mp h ▸ rfl)

variable [LinearOrder K] [CMath K]

/-- The stake of an account in REX is passed on to its votes. -/
theorem updateRexAccount_event {owner : Name} {proceeds deltaStake pending : ℤ} {force : Bool}
    (h : s.updateRexAccount now owner proceeds deltaStake force = .ok (s', pending)) :
    VoteEvent now s.vote s'.vote := by
  obtain ⟨_, _, _, rex, vote, -, -, hv, rfl⟩ := updateRexAccount_eq_ok h
  split_ifs at hv
  · exact .stake (.inl rfl) hv
  · exact .same (pure_eq_ok.mp hv).symm

theorem changebw_event {sender receiver : Name} {net cpu : ℤ} {transfer : Bool}
    (h : s.changebw now sender receiver net cpu transfer = .ok s') :
    VoteEvent now s.vote s'.vote := by
  simp only [changebw, bind_eq_ok, check_eq_ok, requireAuth_eq_ok, exists_const, pure_eq_ok] at h
  obtain ⟨-, -, -, stake, -, res, -, s₁, hr, s₂, hu, vote, hv, rfl⟩ := h
  have hstake := updateRexStake_restaked hu
  rw [changeRefund_vote hr] at hstake
  exact .stake hstake hv

theorem registerProducer_event {producer : Name} (h : s.registerProducer now producer = .ok s') :
    VoteEvent now s.vote s'.vote := by
  unfold registerProducer at h
  split at h
  · rename_i info hf
    obtain ⟨⟨poolVotes, totals⟩, -, h⟩ := bind_eq_ok.mp h
    obtain rfl := pure_eq_ok.mp h
    exact .reregister hf
  · rename_i hf
    simp only [bind_eq_ok, check_eq_ok, exists_const, pure_eq_ok] at h
    obtain ⟨⟨poolVotes, totals⟩, -, hf₂, rfl⟩ := h
    exact .register hf hf₂

theorem deactivateProducer_event {producer : Name}
    (h : s.deactivateProducer producer = .ok s') : VoteEvent now s.vote s'.vote := by
  simp only [deactivateProducer, bind_eq_ok, require_eq_ok, pure_eq_ok] at h
  obtain ⟨prod, hf, rfl⟩ := h
  exact .producers (Table.AgreeOn.set hf rfl)

theorem claimrewards_event [FloorRing K] {owner : Name} (h : s.claimrewards now owner = .ok s') :
    VoteEvent now s.vote s'.vote := by
  simp only [claimrewards, bind_eq_ok, requireAuth_eq_ok, check_eq_ok, require_eq_ok,
    exists_const, pure_eq_ok] at h
  obtain ⟨-, prod, hf, -, -, ht, s₁, hb, t₁, -, t₂, -, rfl⟩ := h
  obtain ⟨token, pay, rfl⟩ : ∃ token pay, s₁ = { s with token, pay } := by
    unfold fillBuckets at hb
    split_ifs at hb
    · simp only [bind_eq_ok, pure_eq_ok] at hb
      obtain ⟨_, -, token, -, rfl⟩ := hb
      exact ⟨_, _, rfl⟩
    · exact ⟨s.token, s.pay, (pure_eq_ok.mp hb).symm⟩
  have hclaim : VoteEvent now s.vote (s.vote.claimed now owner prod (0 < pay.revision)) :=
    .claim hf ht
  simpa only [VoteState.claimed, decide_eq_true_eq] using hclaim

end State

namespace Action

variable [Field K] [LinearOrder K] [FloorRing K] [CMath K]

/-- **Every action** changes the voting tables by one event. -/
theorem exec_voteEvent {env : Env} {x : Action K} {s s' : State K} (h : x.exec env s = .ok s') :
    VoteEvent env.now s.vote s'.vote := by
  by_cases hparts : Part.vote ∈ x.parts
  swap
  · exact .same ((exec_changes h).same .vote hparts)
  -- the staking pools write the producers, and nothing else
  have recount {t : VoteState K} (ht : t = s.vote)
      (hv : ∃ producers, s'.vote = { t with producers } ∧ PoolRecount t.producers producers) :
      VoteEvent env.now s.vote s'.vote := by
    subst ht
    obtain ⟨producers, he, hp⟩ := hv
    exact he ▸ .producers (.of_recount hp)
  cases x with
  | setacctram account =>
    obtain ⟨m, ram, rfl, -⟩ := State.setacctram_eq_ok h
    exact .manage fun v => ⟨m, v.netManaged, v.cpuManaged, rfl⟩
  | setacctnet account =>
    obtain ⟨m, net, rfl, -⟩ := State.setacctnet_eq_ok h
    exact .manage fun v => ⟨v.ramManaged, m, v.cpuManaged, rfl⟩
  | setacctcpu account =>
    obtain ⟨m, cpu, rfl, -⟩ := State.setacctcpu_eq_ok h
    exact .manage fun v => ⟨v.ramManaged, v.netManaged, m, rfl⟩
  | delegatebw =>
    simp only [exec, State.delegatebw, bind_eq_ok, check_eq_ok, State.checkCore_eq_ok,
      exists_const] at h
    exact State.changebw_event h.2.2.2.2.2.2
  | undelegatebw =>
    simp only [exec, State.undelegatebw, bind_eq_ok, check_eq_ok, State.checkCore_eq_ok,
      exists_const] at h
    exact State.changebw_event h.2.2.2.2.2
  | voteproducer voter proxy producers =>
    simp only [exec, State.voteproducer, bind_eq_ok, requireAuth_eq_ok, exists_const] at h
    obtain ⟨-, s₁, hu, vote, hv, h⟩ := h
    obtain rfl : { s₁ with vote } = s' := by
      split_ifs at h
      · exact pure_eq_ok.mp (check_bind_eq_ok.mp h).2
      · exact pure_eq_ok.mp h
    exact .vote (State.updateRexStake_restaked hu) hv
  | regproxy =>
    simp only [exec, State.regproxy, bind_eq_ok, pure_eq_ok] at h
    obtain ⟨vote, hv, rfl⟩ := h
    exact .regproxy hv
  | withdraw =>
    simp only [exec, State.withdraw, bind_eq_ok, requireAuth_eq_ok, check_eq_ok,
      State.checkCore_eq_ok, exists_const, pure_eq_ok] at h
    obtain ⟨-, -, -, ⟨s₁, _⟩, ha, rex, -, token, -, rfl⟩ := h
    have hk := State.updateRexAccount_event ha
    exact hk
  | buyrex =>
    simp only [exec, State.buyrex, bind_eq_ok, requireAuth_eq_ok, check_eq_ok,
      State.checkCore_eq_ok, VoteState.checkVotingRequirement_eq_ok, exists_const,
      pure_eq_ok] at h
    obtain ⟨-, -, -, -, _, -, ⟨_, _⟩, -, ⟨rex, _⟩, -, s₁, hr, ⟨s₂, _⟩, ha, rfl⟩ := h
    have hk := State.updateRexAccount_event ha
    rwa [State.runrex_vote hr] at hk
  | unstaketorex =>
    simp only [exec, State.unstaketorex, bind_eq_ok, requireAuth_eq_ok, check_eq_ok,
      State.checkCore_eq_ok, VoteState.checkVotingRequirement_eq_ok, exists_const,
      pure_eq_ok] at h
    obtain ⟨-, -, -, -, -, stake, -, res, -, token, -, ⟨_, _⟩, -, ⟨rex, _⟩, -, s₁, hr, ⟨s₂, _⟩,
      ha, rfl⟩ := h
    have hk := State.updateRexAccount_event ha
    rwa [State.runrex_vote hr] at hk
  | sellrex =>
    simp only [exec, State.sellrex, bind_eq_ok, requireAuth_eq_ok, check_eq_ok, require_eq_ok,
      exists_const, pure_eq_ok] at h
    obtain ⟨-, s₁, hr, rb, -, -, -, ⟨r, o⟩, -, -, ⟨s₂, _⟩, ha, -, _, -, -, rfl⟩ := h
    have hk := State.updateRexAccount_event ha
    rwa [State.runrex_vote hr] at hk
  | updaterex =>
    simp only [exec, State.updaterex, bind_eq_ok, requireAuth_eq_ok, require_eq_ok,
      exists_const, pure_eq_ok] at h
    obtain ⟨-, s₁, hr, rb, -, p, -, value, -, ⟨s₂, _⟩, ha, rfl⟩ := h
    have hk := State.updateRexAccount_event ha
    rwa [State.runrex_vote hr] at hk
  | consolidate =>
    simp only [exec, State.consolidate, bind_eq_ok, requireAuth_eq_ok, require_eq_ok,
      exists_const, pure_eq_ok] at h
    obtain ⟨-, s₁, hr, rb, -, ⟨s₂, _⟩, ha, rfl⟩ := h
    have hk := State.updateRexAccount_event ha
    rwa [State.runrex_vote hr] at hk
  | mvtosavings =>
    simp only [exec, State.mvtosavings, bind_eq_ok, requireAuth_eq_ok, require_eq_ok,
      check_eq_ok, exists_const, pure_eq_ok] at h
    obtain ⟨-, s₁, hr, rb, -, -, ⟨s₂, _⟩, ha, rb', -, rfl⟩ := h
    have hk := State.updateRexAccount_event ha
    rwa [State.runrex_vote hr] at hk
  | mvfrsavings =>
    simp only [exec, State.mvfrsavings, bind_eq_ok, requireAuth_eq_ok, require_eq_ok,
      check_eq_ok, exists_const, pure_eq_ok] at h
    obtain ⟨-, s₁, hr, rb, -, -, rb', -, ⟨s₂, _⟩, ha, rfl⟩ := h
    have hk := State.updateRexAccount_event ha
    rwa [State.runrex_vote hr] at hk
  | closerex =>
    simp only [exec, State.closerex, bind_eq_ok, requireAuth_eq_ok, exists_const,
      pure_eq_ok] at h
    obtain ⟨-, s₁, hr, ⟨s₂, _⟩, ha, rex, -, rfl⟩ := h
    have hk := State.updateRexAccount_event ha
    have hvote : s₁.vote = s.vote := by
      split_ifs at hr
      · exact State.runrex_vote hr
      · exact pure_eq_ok.mp hr ▸ rfl
    rwa [hvote] at hk
  | onblock timestamp producer =>
    obtain rfl := Except.ok.inj h
    obtain ⟨_, _, _, q, r, names, pay, producers, he, hc, -⟩ :=
      s.onblock_eq env.now timestamp producer
    rw [he]
    exact .producers (.of_counted hc)
  | claimrewards owner => exact State.claimrewards_event h
  | cfgsrpool =>
    unfold exec State.cfgsrpool at h
    obtain ⟨core, -, h⟩ := bind_eq_ok.mp h
    split at h
    · simp only [bind_eq_ok, pure_eq_ok] at h
      obtain ⟨_, -, _, -, rfl⟩ := h
      dsimp only
      split_ifs
      · exact .activate _
      · exact .same rfl
    · simp only [bind_eq_ok, check_eq_ok, exists_const, pure_eq_ok] at h
      obtain ⟨-, -, -, _, -, rfl⟩ := h
      exact .same rfl
  | regproducer producer url =>
    simp only [exec, State.regproducer, bind_eq_ok, check_eq_ok, requireAuth_eq_ok,
      exists_const] at h
    exact State.registerProducer_event h.2.2
  | unregprod =>
    simp only [exec, State.unregprod, bind_eq_ok] at h
    obtain ⟨_, -, h⟩ := h
    exact State.deactivateProducer_event h
  | rmvproducer => exact State.deactivateProducer_event h
  | stake2pool =>
    simp only [exec, State.stake2pool, bind_eq_ok] at h
    obtain ⟨_, -, _, -, _, -, _, -, _, -, _, -, _, -, h⟩ := h
    have hv := State.recastVotes_vote h
    exact recount rfl hv
  | claimstake owner =>
    simp only [exec, State.claimstake, bind_eq_ok, requireAuth_eq_ok, check_eq_ok,
      State.checkCore_eq_ok, exists_const] at h
    obtain ⟨-, st, -, -, -, -, _, -, s₁, hd, st₁, -, pool, -, -, ⟨_, _, _⟩, -, _, -, token, -, h⟩ :=
      h
    have hvote : s₁.vote = s.vote :=
      (State.distributeNamebidToPools_changes hd).same .vote (by simp)
    have hv := State.recastVotes_vote h
    exact recount hvote hv
  | transferstake =>
    simp only [exec, State.transferstake, bind_eq_ok, requireAuth_eq_ok, check_eq_ok,
      State.checkCore_eq_ok, exists_const] at h
    obtain ⟨-, -, -, -, st, -, -, -, -, v, -, -, ⟨_, _, _⟩, -, -, ⟨_, _⟩, -, _, -, s₁, h₁, h₂⟩ := h
    obtain ⟨producers₁, he₁, hp₁⟩ := State.recastVotes_vote h₁
    obtain ⟨producers₂, he₂, hp₂⟩ := State.recastVotes_vote h₂
    rw [he₁] at he₂ hp₂
    exact recount rfl ⟨producers₂, he₂, hp₁.trans hp₂⟩
  | upgradestake =>
    simp only [exec, State.upgradestake, bind_eq_ok, requireAuth_eq_ok, check_eq_ok,
      State.checkCore_eq_ok, exists_const] at h
    obtain ⟨-, st, -, -, -, -, -, -, v, -, ⟨_, _, _⟩, -, -, ⟨_, _⟩, -, _, -, h⟩ := h
    have hv := State.recastVotes_vote h
    exact recount rfl hv
  | votewithpool =>
    simp only [exec, State.votewithpool, bind_eq_ok, requireAuth_eq_ok, exists_const] at h
    obtain ⟨-, _, -, _, -, h⟩ := h
    have hv := State.updatePoolVotes_vote h
    exact recount rfl hv
  | regpoolproxy =>
    simp only [exec, State.regpoolproxy, bind_eq_ok, requireAuth_eq_ok, check_eq_ok,
      exists_const, pure_eq_ok] at h
    obtain ⟨-, st, -, -, pv, hpv, rfl⟩ := h
    exact recount rfl ⟨pv.producers, rfl, PoolVotes.updatePoolProxy_recount hpv⟩
  | _ => simp [parts] at hparts

end Action

end EosioSystem
