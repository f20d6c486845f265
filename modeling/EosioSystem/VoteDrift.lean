import EosioSystem.Proxies
import EosioSystem.VoteEvents

/-!
# Votes that are passed on

A voter's weight is added to the votes of its producers, or to the votes its proxy has received,
and is taken back with the weight it was last cast with. So the tallies should add up to the last
weights of the voters. But a change of at most one that a voter would have to pass on is dropped,
although the new weight is recorded. Each change that is dropped moves a tally by at most one.

## Main definitions

* `VoterInfo.ballot`: the vote of a voter, with its last weight
* `VoteState.proxySurplus`, `VoteState.producerSurplus`, `VoteState.totalSurplus`: the tallies less
  what the ballots add up to
* `VoteState.Drift`: what a change that is passed on does to them

## Main results

* `VoteState.propagateWeightChange_drift`: **a change passed from proxy to proxy**
* `VoteState.undoProxy_drift`, `VoteState.castProxy_drift`: the two parts of a vote through a proxy
-/

namespace EosioSystem

open Checked

variable {K : Type} [Field K]

/-- The vote of a voter. -/
def VoterInfo.ballot (v : VoterInfo K) : Ballot Name K where
  proxy := if v.proxy = .none then none else some v.proxy
  choices := v.producers
  weight := v.lastVoteWeight

namespace VoteState

section Surplus

variable (vs : VoteState K)

/-- The votes of a producer. -/
def votes (p : Name) : K := (vs.producers.find p).elim 0 ProducerInfo.totalVotes

/-- What all ballots give to the producers. -/
def given : Name → K := vs.voters.sum fun _ v => v.ballot.spread

/-- The votes proxies have received, less the ballots of those who use them. -/
def proxySurplus : Name → K :=
  vs.voters.surplus VoterInfo.proxiedVoteWeight fun v => v.ballot.share

/-- The votes of the producers, less the ballots for them. -/
def producerSurplus : Name → K := vs.votes - vs.given

/-- The global sum, less the votes of all producers. -/
def totalSurplus : K :=
  vs.totalProducerVoteWeight - vs.producers.sum fun _ prod => prod.totalVotes

omit [Field K] in
/-- The producers a voter has chosen. -/
def choices (a : Name) : List Name := (vs.voters.find a).elim [] VoterInfo.producers

end Surplus

variable {vs vs₁ vs₂ vs' : VoteState K}

/-! ## Writing the record of a voter -/

theorem proxySurplus_setVoter (a : Name) (v : VoterInfo K) :
    (vs.setVoter a v).proxySurplus = vs.proxySurplus +
      Pi.single a (v.proxiedVoteWeight - (vs.voters.find a).elim 0 VoterInfo.proxiedVoteWeight) +
        (vs.voters.find a).elim 0 (fun w => w.ballot.share) - v.ballot.share :=
  Table.surplus_set ..

theorem producerSurplus_setVoter (a : Name) (v : VoterInfo K) :
    (vs.setVoter a v).producerSurplus = vs.producerSurplus +
      (vs.voters.find a).elim 0 (fun w => w.ballot.spread) - v.ballot.spread := by
  have hgiven : (vs.setVoter a v).given = vs.given -
      (vs.voters.find a).elim 0 (fun w => w.ballot.spread) + v.ballot.spread :=
    Table.sum_set_elim ..
  have hvotes : (vs.setVoter a v).votes = vs.votes := rfl
  unfold producerSurplus
  rw [hgiven, hvotes]
  abel

omit [Field K] in
theorem choices_setVoter (a : Name) (v : VoterInfo K) :
    (vs.setVoter a v).choices = Function.update vs.choices a v.producers := by
  funext b
  rw [Function.update_apply, choices, setVoter, Table.find_set]
  split_ifs
  · rfl
  · rfl

omit [Field K] in
theorem choices_of_find {a : Name} {v : VoterInfo K} (h : vs.voters.find a = some v) :
    vs.choices a = v.producers := by rw [choices, h, Option.elim_some]

/-- A voter without a record gives nothing, and has received nothing. -/
theorem ballot_getD (o : Option (VoterInfo K)) :
    (o.getD .new).ballot.share = o.elim 0 (fun w => w.ballot.share) ∧
    (o.getD .new).ballot.spread = o.elim 0 (fun w => w.ballot.spread) ∧
    (o.getD .new).proxiedVoteWeight = o.elim 0 VoterInfo.proxiedVoteWeight ∧
    (o.getD .new).producers = o.elim [] VoterInfo.producers := by
  cases o with
  | none => exact ⟨rfl, rfl, rfl, rfl⟩
  | some w => exact ⟨rfl, rfl, rfl, rfl⟩

/-! ## Changes that are passed on -/

section Drift

variable [LinearOrder K]

/-- The voters keep their choices, the surpluses of the proxies change by `d` and those of the
producers by `e`, up to one vote for each change that has been dropped. -/
structure Drift (d e : Name → K) (vs vs' : VoteState K) : Prop where
  choices : vs'.choices = vs.choices
  proxy : ∀ q, |vs'.proxySurplus q - vs.proxySurplus q - d q| ≤
    (vs'.skippedChanges : K) - vs.skippedChanges
  producer : ∀ p, |vs'.producerSurplus p - vs.producerSurplus p - e p| ≤
    (vs'.skippedChanges : K) - vs.skippedChanges
  total : vs'.totalSurplus = vs.totalSurplus
  clamps : vs.clamps ≤ vs'.clamps

namespace Drift

variable [IsStrictOrderedRing K] {d d₁ d₂ e e₁ e₂ : Name → K}

/-- Nothing has been dropped. -/
theorem of_eq (hc : vs'.choices = vs.choices) (hq : vs'.proxySurplus = vs.proxySurplus + d)
    (hp : vs'.producerSurplus = vs.producerSurplus + e) (ht : vs'.totalSurplus = vs.totalSurplus)
    (hs : vs'.skippedChanges = vs.skippedChanges) (hclamps : vs.clamps ≤ vs'.clamps) :
    Drift d e vs vs' := by
  constructor
  · exact hc
  · intro q
    rw [hq, hs, Pi.add_apply, sub_self, add_sub_cancel_left, sub_self, abs_zero]
  · intro p
    rw [hp, hs, Pi.add_apply, sub_self, add_sub_cancel_left, sub_self, abs_zero]
  · exact ht
  · exact hclamps

/-- The voters and the votes of the producers are the same. -/
theorem of_votes (hv : vs'.voters = vs.voters) (hp : vs'.votes = vs.votes)
    (ht : vs'.totalProducerVoteWeight = vs.totalProducerVoteWeight)
    (hs : vs'.skippedChanges = vs.skippedChanges) (hclamps : vs.clamps ≤ vs'.clamps) :
    Drift 0 0 vs vs' := by
  have hsum : (vs'.producers.sum fun _ prod => prod.totalVotes) =
      vs.producers.sum fun _ prod => prod.totalVotes :=
    Table.sum_eq_of_elim (congrFun hp)
  refine .of_eq ?_ ?_ ?_ ?_ hs hclamps
  · funext a
    rw [VoteState.choices, VoteState.choices, hv]
  · rw [add_zero, proxySurplus, proxySurplus, hv]
  · unfold producerSurplus given
    rw [add_zero, hv, hp]
  · rw [totalSurplus, totalSurplus, ht, hsum]

theorem of_tables (hv : vs'.voters = vs.voters) (hp : vs'.producers = vs.producers)
    (ht : vs'.totalProducerVoteWeight = vs.totalProducerVoteWeight)
    (hs : vs'.skippedChanges = vs.skippedChanges) (hclamps : vs.clamps ≤ vs'.clamps) :
    Drift 0 0 vs vs' := by
  refine .of_votes hv ?_ ht hs hclamps
  unfold votes
  rw [hp]

theorem refl : Drift 0 0 vs vs := .of_tables rfl rfl rfl rfl le_rfl

theorem trans (h₁ : Drift d₁ e₁ vs vs₁) (h₂ : Drift d₂ e₂ vs₁ vs') :
    Drift (d₁ + d₂) (e₁ + e₂) vs vs' := by
  -- what is added up in two steps has moved by at most both bounds
  have htriangle {x x₁ x' c₁ c₂ : K}
      (hx₁ : |x₁ - x - c₁| ≤ (vs₁.skippedChanges : K) - vs.skippedChanges)
      (hx₂ : |x' - x₁ - c₂| ≤ (vs'.skippedChanges : K) - vs₁.skippedChanges) :
      |x' - x - (c₁ + c₂)| ≤ (vs'.skippedChanges : K) - vs.skippedChanges := by
    calc |x' - x - (c₁ + c₂)| = |(x₁ - x - c₁) + (x' - x₁ - c₂)| := by ring_nf
      _ ≤ |x₁ - x - c₁| + |x' - x₁ - c₂| := abs_add_le _ _
      _ ≤ ((vs₁.skippedChanges : K) - vs.skippedChanges) +
          (vs'.skippedChanges - vs₁.skippedChanges) := add_le_add hx₁ hx₂
      _ = vs'.skippedChanges - vs.skippedChanges := by ring
  constructor
  · exact h₂.choices.trans h₁.choices
  · intro q
    exact htriangle (h₁.proxy q) (h₂.proxy q)
  · intro p
    exact htriangle (h₁.producer p) (h₂.producer p)
  · exact h₂.total.trans h₁.total
  · exact h₁.clamps.trans h₂.clamps

theorem skipped_le (h : Drift d e vs vs') : vs.skippedChanges ≤ vs'.skippedChanges := by
  have hp := (abs_nonneg _).trans (h.producer .none)
  exact_mod_cast sub_nonneg.mp hp

/-- Writing a record with the same vote, and the same votes received. -/
theorem setVoter {a : Name} {v : VoterInfo K}
    (hb : v.ballot = ((vs.voters.find a).getD .new).ballot)
    (hr : v.proxiedVoteWeight = ((vs.voters.find a).getD .new).proxiedVoteWeight) :
    Drift 0 0 vs (vs.setVoter a v) := by
  obtain ⟨hshare, hspread, hreceived, hchoices⟩ := ballot_getD (vs.voters.find a)
  refine .of_eq ?_ ?_ ?_ rfl rfl le_rfl
  · have hl : v.producers = vs.choices a := (congrArg Ballot.choices hb).trans hchoices
    rw [choices_setVoter, hl, Function.update_eq_self]
  · rw [proxySurplus_setVoter, hb, hr, hshare, hreceived, sub_self, Pi.single_zero]
    abel
  · rw [producerSurplus_setVoter, hb, hspread]
    abel

/-- A proxy receives votes. -/
theorem receive {a : Name} {v : VoterInfo K} (h : vs.voters.find a = some v) (w : K) :
    Drift (Pi.single a w) 0 vs
      (vs.setVoter a { v with proxiedVoteWeight := v.proxiedVoteWeight + w }) := by
  refine .of_eq ?_ ?_ ?_ rfl rfl le_rfl
  · rw [choices_setVoter, ← choices_of_find h, Function.update_eq_self]
  · rw [proxySurplus_setVoter, h, Option.elim_some, Option.elim_some, add_sub_cancel_left]
    change _ + v.ballot.share - v.ballot.share = _
    abel
  · rw [producerSurplus_setVoter, h, Option.elim_some]
    change _ + v.ballot.spread - v.ballot.spread = _
    abel

/-- The weight of a voter is recorded. -/
theorem record {a : Name} {v : VoterInfo K} (h : vs.voters.find a = some v) (w : K) :
    Drift (-(⟨v.ballot.proxy, v.producers, w - v.lastVoteWeight⟩ : Ballot Name K).share)
      (-(⟨v.ballot.proxy, v.producers, w - v.lastVoteWeight⟩ : Ballot Name K).spread) vs
      (vs.setVoter a { v with lastVoteWeight := w }) := by
  have hb : ({ v with lastVoteWeight := w } : VoterInfo K).ballot =
      ⟨v.ballot.proxy, v.producers, v.lastVoteWeight + (w - v.lastVoteWeight)⟩ := by
    rw [add_sub_cancel]
    rfl
  refine .of_eq ?_ ?_ ?_ rfl rfl le_rfl
  · rw [choices_setVoter, ← choices_of_find h, Function.update_eq_self]
  · rw [proxySurplus_setVoter, h, hb, Ballot.share_add]
    simp only [Option.elim_some, sub_self, Pi.single_zero]
    change _ + 0 + v.ballot.share - (v.ballot.share + _) = _
    abel
  · rw [producerSurplus_setVoter, h, hb, Ballot.spread_add]
    change _ + v.ballot.spread - (v.ballot.spread + _) = _
    abel

/-- A change of a voter's weight by at most one is dropped, and counted unless it is zero. -/
theorem drop {a : Name} {v : VoterInfo K} (h : vs.voters.find a = some v) {delta : K}
    (hn : (vs.choices a).Nodup) (hd : |delta| ≤ 1) :
    Drift (⟨v.ballot.proxy, v.producers, delta⟩ : Ballot Name K).share
      (⟨v.ballot.proxy, v.producers, delta⟩ : Ballot Name K).spread vs
      (if delta = 0 then vs else { vs with skippedChanges := vs.skippedChanges + 1 }) := by
  rw [choices_of_find h] at hn
  split_ifs with hzero
  · subst hzero
    refine .of_eq rfl ?_ ?_ rfl rfl le_rfl
    · funext q
      have hq := Ballot.abs_share_le ⟨v.ballot.proxy, v.producers, (0 : K)⟩ q
      rw [abs_zero, abs_nonpos_iff] at hq
      rw [Pi.add_apply, hq, add_zero]
    · funext p
      have hp := Ballot.abs_spread_le (b := ⟨v.ballot.proxy, v.producers, (0 : K)⟩) hn p
      rw [abs_zero, abs_nonpos_iff] at hp
      rw [Pi.add_apply, hp, add_zero]
  · have hone : ((vs.skippedChanges + 1 : ℕ) : K) - vs.skippedChanges = 1 := by
      rw [Nat.cast_add_one, add_sub_cancel_left]
    refine ⟨rfl, fun q => ?_, fun p => ?_, rfl, le_rfl⟩
    · change |vs.proxySurplus q - vs.proxySurplus q - _| ≤ _
      rw [hone, sub_self, zero_sub, abs_neg]
      exact (Ballot.abs_share_le _ q).trans hd
    · change |vs.producerSurplus p - vs.producerSurplus p - _| ≤ _
      rw [hone, sub_self, zero_sub, abs_neg]
      exact (Ballot.abs_spread_le hn p).trans hd

end Drift

/-! ### Votes of producers -/

/-- The shares of the pay have a table of their own. -/
theorem updateVotepay_eq (vs : VoteState K) (ct : ℕ) (acnt : Name) (init : K) (last : ℕ)
    (delta : K) (acc : VotepayChange K) : ∃ producers2,
      (vs.updateVotepay ct acnt init last delta acc).1 = { vs with producers2 } := by
  unfold updateVotepay
  split
  · exact ⟨vs.producers2, rfl⟩
  · exact ⟨_, rfl⟩

theorem updateVotepay_voters (vs : VoteState K) (ct : ℕ) (acnt : Name) (init : K) (last : ℕ)
    (delta : K) (acc : VotepayChange K) :
    (vs.updateVotepay ct acnt init last delta acc).1.voters = vs.voters := by
  obtain ⟨producers2, he⟩ := updateVotepay_eq vs ct acnt init last delta acc
  rw [he]

omit [LinearOrder K] in
theorem votes_setProducer (t : Table Name (ProducerInfo K)) (p : Name) (prod : ProducerInfo K) :
    (fun q => ((t.set p prod).find q).elim 0 ProducerInfo.totalVotes) =
      Function.update (fun q => (t.find q).elim 0 ProducerInfo.totalVotes) p prod.totalVotes := by
  funext q
  rw [Function.update_apply, Table.find_set]
  split_ifs
  · rfl
  · rfl

omit [LinearOrder K] in
theorem votes_of_find {p : Name} {prod : ProducerInfo K} (h : vs.producers.find p = some prod) :
    vs.votes p = prod.totalVotes := by rw [votes, h, Option.elim_some]

variable [IsStrictOrderedRing K]

/-- A change goes to the producers of a list, one after the other. -/
theorem addToProducers_drift {ct : ℕ} {delta : K} {l : List Name} {acc acc' : VotepayChange K}
    (h : addToProducers ct delta l vs acc = .ok (vs', acc')) :
    Drift 0 (l.map fun p => Pi.single p delta).sum vs vs' ∧ vs'.voters = vs.voters := by
  induction l generalizing vs acc with
  | nil =>
    obtain ⟨rfl, -⟩ := Prod.mk.inj (pure_eq_ok.mp h)
    exact ⟨.refl, rfl⟩
  | cons acnt l ih =>
    simp only [addToProducers, bind_eq_ok, require_eq_ok] at h
    obtain ⟨prod, hf, h⟩ := h
    set vs₁ : VoteState K := { vs with
      producers := vs.producers.set acnt { prod with totalVotes := prod.totalVotes + delta }
      totalProducerVoteWeight := vs.totalProducerVoteWeight + delta }
    obtain ⟨producers2, he⟩ := updateVotepay_eq vs₁ ct acnt prod.totalVotes prod.lastClaimTime delta
      acc
    obtain ⟨hrest, hvoters⟩ := ih h
    rw [he] at hrest hvoters
    -- the votes and the global sum grow by the same
    have hone : Drift 0 (Pi.single acnt delta) vs { vs₁ with producers2 } := by
      refine .of_eq rfl (add_zero _).symm ?_ ?_ rfl le_rfl
      · have hvotes : ({ vs₁ with producers2 } : VoteState K).votes =
            vs.votes + Pi.single acnt delta := by
          refine (votes_setProducer vs.producers acnt _).trans (funext fun q => ?_)
          rw [Function.update_apply, Pi.add_apply, Pi.single_apply]
          split_ifs with hq
          · rw [hq, votes_of_find hf]
          · exact (add_zero _).symm
        change ({ vs₁ with producers2 } : VoteState K).votes - vs.given = _
        rw [hvotes, producerSurplus]
        abel
      · change vs.totalProducerVoteWeight + delta - (vs.producers.set acnt _).sum _ = _
        rw [Table.sum_set hf, totalSurplus]
        ring
    refine ⟨?_, hvoters⟩
    have hsum := hone.trans hrest
    rwa [add_zero] at hsum

/-! ### From proxy to proxy -/

/-- Whoever is not below a voter is left alone when the voter's change is passed on. -/
def RestKept (rank : Name → ℕ) (a : Name) (vs vs' : VoteState K) : Prop :=
  ∀ x, x ≠ a → rank a ≤ rank x → vs'.voters.find x = vs.voters.find x

omit [Field K] [LinearOrder K] [IsStrictOrderedRing K] in
theorem proxyOf_eq_some {a : Name} {v : VoterInfo K} (h : vs.voters.find a = some v)
    (hp : v.proxy ≠ .none) : vs.proxyOf a = some v.proxy := by
  rw [proxyOf, flags_of_find h]
  exact if_neg hp

variable [CMath K]

/-- **A change passed from proxy to proxy** leaves the surpluses as they are, but for one vote at
most if it is dropped on the way. -/
theorem propagateWeightChange_drift {now : BlockTimestamp} {rank : Name → ℕ} {n : ℕ} {a : Name}
    (hr : ∀ x y, vs.proxyOf x = some y → rank y < rank x) (hn : ∀ x, (vs.choices x).Nodup)
    (h : propagateWeightChange now n vs a = .ok vs') :
    Drift 0 0 vs vs' ∧ RestKept rank a vs vs' := by
  -- the rank falls from a voter to its proxy, so nobody on the way writes the voter's own record
  induction n generalizing vs vs' a with
  | zero => cases h
  | succ n ih =>
    simp only [propagateWeightChange, bind_eq_ok, require_eq_ok, check_eq_ok, exists_const,
      pure_eq_ok] at h
    obtain ⟨voter, hf, -, vs₁, h₁, voter₁, hf₁, rfl⟩ := h
    set w := voter.weight now
    set delta := w - voter.lastVoteWeight
    -- whatever is done with the change, the voter's own record waits for it
    have hpassed : Drift (⟨voter.ballot.proxy, voter.producers, delta⟩ : Ballot Name K).share
        (⟨voter.ballot.proxy, voter.producers, delta⟩ : Ballot Name K).spread vs vs₁ ∧
        vs₁.voters.find a = some voter ∧ RestKept rank a vs vs₁ := by
      by_cases hsmall : 1 < |delta|
      swap
      · have hdrop := Drift.drop hf (hn a) (not_lt.mp hsmall)
        rw [if_neg hsmall] at h₁
        obtain rfl := pure_eq_ok.mp h₁
        -- too small to be passed on
        refine ⟨hdrop, ?_, fun x _ _ => ?_⟩
        · split_ifs <;> exact hf
        · split_ifs <;> rfl
      rw [if_pos hsmall] at h₁
      by_cases hproxy : voter.proxy = .none
      · rw [if_neg (not_not.mpr hproxy)] at h₁
        -- the producers of the voter take the change
        simp only [bind_eq_ok, pure_eq_ok] at h₁
        obtain ⟨⟨vs₂, acc⟩, hadd, rfl⟩ := h₁
        obtain ⟨hadd, hvoters⟩ := addToProducers_drift hadd
        have htotal : Drift 0 0 vs₂ (vs₂.updateTotalVotepayShare now.usec
            (-acc.totalInactiveVpayShare) acc.deltaChangeRate) :=
          .of_tables rfl rfl rfl rfl ((Nat.le_add_right _ _).trans (Nat.le_add_right _ _))
        refine ⟨?_, ?_, fun x _ _ => congrArg (Table.find · x) hvoters⟩
        · have hsum := hadd.trans htotal
          rw [add_zero, add_zero] at hsum
          simpa [Ballot.share, Ballot.spread, VoterInfo.ballot, hproxy] using hsum
        · exact (congrArg (Table.find · a) hvoters).trans hf
      · rw [if_pos hproxy] at h₁
        simp only [bind_eq_ok, require_eq_ok] at h₁
        -- the proxy takes it, and is below the voter
        obtain ⟨proxy, hfp, h₁⟩ := h₁
        have hlt : rank voter.proxy < rank a := hr a voter.proxy (proxyOf_eq_some hf hproxy)
        have hreceive := Drift.receive hfp delta
        set vs₀ := vs.setVoter voter.proxy
          { proxy with proxiedVoteWeight := proxy.proxiedVoteWeight + delta }
        have hlinks : vs₀.proxyOf = vs.proxyOf := proxyOf_setVoter hfp rfl
        obtain ⟨hdrift, hrest⟩ := ih (hlinks ▸ hr) (hreceive.choices ▸ hn) h₁
        have hkept (x : Name) (hx : rank a ≤ rank x) : vs₁.voters.find x = vs.voters.find x := by
          have hne : x ≠ voter.proxy := by
            intro he
            rw [he] at hx
            exact absurd hx (not_le.mpr hlt)
          rw [hrest x hne (hlt.le.trans hx)]
          exact Table.find_set_ne _ _ hne
        refine ⟨?_, (hkept a le_rfl).trans hf, fun x _ hx => hkept x hx⟩
        have hsum := hreceive.trans hdrift
        rw [add_zero, add_zero] at hsum
        simpa [Ballot.share, Ballot.spread, VoterInfo.ballot, hproxy] using hsum
    obtain ⟨hdrift, hfa, hrest⟩ := hpassed
    obtain rfl := Option.some.inj (hfa.symm.trans hf₁)
    refine ⟨?_, fun x hx hle => ?_⟩
    · have hsum := hdrift.trans (.record hfa w)
      rwa [add_neg_cancel, add_neg_cancel] at hsum
    · rw [← hrest x hx hle]
      exact Table.find_set_ne _ _ hx

/-- The votes received by a proxy change, and the proxy passes the change on. -/
theorem changeProxied_drift {now : BlockTimestamp} {rank : Name → ℕ} {q : Name}
    {p : VoterInfo K} {delta : K} (hr : ∀ x y, vs.proxyOf x = some y → rank y < rank x)
    (hn : ∀ x, (vs.choices x).Nodup) (hf : vs.voters.find q = some p)
    (h : vs.changeProxied now q p delta = .ok vs') :
    Drift (Pi.single q delta) 0 vs vs' ∧ RestKept rank q vs vs' := by
  have hreceive := Drift.receive hf delta
  set vs₀ := vs.setVoter q { p with proxiedVoteWeight := p.proxiedVoteWeight + delta }
  have hlinks : vs₀.proxyOf = vs.proxyOf := proxyOf_setVoter hf rfl
  obtain ⟨hdrift, hrest⟩ := propagateWeightChange_drift (hlinks ▸ hr) (hreceive.choices ▸ hn) h
  constructor
  · have hsum := hreceive.trans hdrift
    rwa [add_zero, add_zero] at hsum
  · intro x hx hle
    rw [hrest x hx hle]
    exact Table.find_set_ne _ _ hx

/-- The vote last cast through the old proxy is taken back. -/
theorem undoProxy_drift {now : BlockTimestamp} {a : Name} {v : VoterInfo K}
    (hl : Acyclic vs.proxyOf) (hn : ∀ x, (vs.choices x).Nodup) (ha : vs.voters.find a = some v)
    (hlast : 0 ≤ v.lastVoteWeight) (h : vs.undoProxy now v = .ok vs') :
    Drift (-v.ballot.share) 0 vs vs' ∧ vs'.voters.find a = some v := by
  unfold undoProxy at h
  split_ifs at h with hundo
  · obtain ⟨old, hf, h⟩ := bind_eq_ok.mp h
    obtain ⟨rank, hr⟩ := hl
    have hlt : rank v.proxy < rank a := hr a v.proxy (proxyOf_eq_some ha hundo.2)
    obtain ⟨hdrift, hrest⟩ := changeProxied_drift hr hn (require_eq_ok.mp hf) h
    have hshare : v.ballot.share = Pi.single v.proxy v.lastVoteWeight := by
      simp [Ballot.share, VoterInfo.ballot, hundo.2]
    constructor
    · rwa [hshare, ← Pi.single_neg]
    · rw [hrest a _ hlt.le, ha]
      rintro rfl
      exact lt_irrefl _ hlt
  · obtain rfl := pure_eq_ok.mp h
    -- there was no proxy, or no weight
    have hshare : v.ballot.share = 0 := by
      by_cases hp : v.proxy = .none
      · simp [Ballot.share, VoterInfo.ballot, hp]
      · have hzero : v.lastVoteWeight = 0 :=
          le_antisymm (not_lt.mp fun hpos => hundo ⟨hpos, hp⟩) hlast
        simp [Ballot.share, VoterInfo.ballot, hp, hzero]
    rw [hshare, neg_zero]
    exact ⟨.refl, ha⟩

/-- A vote is given to a proxy, which is not above the voter. -/
theorem castProxy_drift {now : BlockTimestamp} {a proxy : Name} {v : VoterInfo K} {w : K}
    {voting : Bool} (hl : Acyclic vs.proxyOf) (hn : ∀ x, (vs.choices x).Nodup)
    (ha : vs.voters.find a = some v) (hw : 0 ≤ w) (hne : proxy ≠ .none → a ≠ proxy)
    (hup : proxy ≠ .none → vs.proxyOf proxy = none ∨ vs.proxyOf a = some proxy)
    (h : vs.castProxy now proxy w voting = .ok vs') (l : List Name) :
    Drift (⟨if proxy = .none then none else some proxy, l, w⟩ : Ballot Name K).share 0 vs vs' ∧
      vs'.voters.find a = some v := by
  unfold castProxy at h
  by_cases hp : proxy = .none
  · rw [if_neg (not_not.mpr hp)] at h
    obtain rfl := pure_eq_ok.mp h
    rw [if_pos hp]
    exact ⟨.refl, ha⟩
  · rw [if_pos hp, bind_eq_ok] at h
    obtain ⟨new, hf, h⟩ := h
    have h := (check_bind_eq_ok.mp h).2
    rw [if_pos hw] at h
    obtain ⟨rank, hr, hle⟩ := hl.exists_rank (hup hp)
    obtain ⟨hdrift, hrest⟩ := changeProxied_drift hr hn (require_eq_ok.mp hf) h
    rw [if_neg hp]
    exact ⟨hdrift, (hrest a (hne hp) hle).trans ha⟩

end Drift

end VoteState

end EosioSystem
