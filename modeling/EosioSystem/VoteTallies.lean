import EosioSystem.VoteDrift

/-!
# The tallies of the votes

A vote changes the votes of its old and new producers, which do not become negative: a producer that
would be left with less has no votes. The ballots for a producer are not negative either, so the
votes come only closer to them. The global sum takes every change in full, and falls behind the
votes of the producers by what was set to zero.

## Main definitions

* `VoteState.Adjusted`, `VoteState.Applied`: the producers of a vote
* `VoteState.Tallied`: the tallies are right up to the changes that have been dropped

## Main results

* `VoteState.updateVotes_tallied`: **a vote** keeps the tallies right
* `VoteEvent.tallied`: so does **every action**
* `voteTallies_of_run`: **the tallies of every run** are right up to one vote for each change that
  has been dropped
-/

namespace EosioSystem

open Checked

variable {K : Type} [Field K]

namespace VoteState

variable {vs vs₁ vs' : VoteState K}

/-! ## A new vote -/

section Changes

variable [LinearOrder K]

/-- The votes of a producer change by `delta`: they do not become negative, and without a record
there is nothing to take away. -/
def Adjusted (delta x x' : K) : Prop := x' = max (x + delta) 0 ∨ delta ≤ 0 ∧ x = 0 ∧ x' = 0

/-- Votes that are adjusted are no further from what is right than before, if that is not
negative. -/
theorem Adjusted.abs_sub_le [IsStrictOrderedRing K] {delta x x' y : K}
    (h : Adjusted delta x x') (hy : 0 ≤ y + delta) : |x' - (y + delta)| ≤ |x - y| := by
  rcases h with rfl | ⟨hd, rfl, rfl⟩
  · have hmax : max (y + delta) 0 = y + delta := max_eq_left hy
    calc |max (x + delta) 0 - (y + delta)| = |max (x + delta) 0 - max (y + delta) 0| := by rw [hmax]
      _ ≤ |x + delta - (y + delta)| := abs_max_sub_max_le_abs _ _ _
      _ = |x - y| := by rw [add_sub_add_right_eq_sub]
  · rw [zero_sub, zero_sub, abs_neg, abs_neg, abs_of_nonneg hy]
    exact (add_le_of_nonpos_right hd).trans (le_abs_self y)

/-- The producers of a list have been adjusted. The global sum has taken every change in full; what
was set to zero is missing there, `b` at most each time. -/
structure Applied (d : Name → K) (b : K) (l : List Name) (vs vs' : VoteState K) : Prop where
  skipped : vs'.skippedChanges = vs.skippedChanges
  clamps : vs.clamps ≤ vs'.clamps
  rest : ∀ p, p ∉ l → vs'.votes p = vs.votes p
  adjusted : ∀ p ∈ l, Adjusted (d p) (vs.votes p) (vs'.votes p)
  total_le : vs'.totalSurplus ≤ vs.totalSurplus
  le_total : vs.totalSurplus - ((vs'.clamps : K) - vs.clamps) * b ≤ vs'.totalSurplus

variable [IsStrictOrderedRing K]

omit [IsStrictOrderedRing K] in
theorem ite_neg_eq_max (x : K) : (if x < 0 then 0 else x) = max x 0 := by
  split_ifs with hx
  · exact (max_eq_right hx.le).symm
  · exact (max_eq_left (not_lt.mp hx)).symm

/-- The votes of one producer. -/
theorem Applied.single {p : Name} {prod : ProducerInfo K} {b : K} {d : Name → K}
    (hf : vs.producers.find p = some prod) (hlow : -b ≤ vs.votes p + d p)
    (producers2 : Table Name (ProducerInfo2 K)) :
    Applied d b [p] vs { vs with
      producers := vs.producers.set p { prod with
        totalVotes := if prod.totalVotes + d p < 0 then 0 else prod.totalVotes + d p }
      producers2
      totalProducerVoteWeight := vs.totalProducerVoteWeight + d p
      clamps := vs.clamps + if prod.totalVotes + d p < 0 then 1 else 0 } := by
  have hvotes (q : Name) := congrFun (votes_setProducer vs.producers p { prod with
    totalVotes := if prod.totalVotes + d p < 0 then 0 else prod.totalVotes + d p }) q
  have htotal : vs.totalProducerVoteWeight + d p - ((vs.producers.set p { prod with
      totalVotes := if prod.totalVotes + d p < 0 then 0 else prod.totalVotes + d p }).sum
        fun _ prod => prod.totalVotes) =
      vs.totalSurplus + (prod.totalVotes + d p -
        if prod.totalVotes + d p < 0 then 0 else prod.totalVotes + d p) := by
    rw [Table.sum_set hf, totalSurplus]
    ring
  rw [votes_of_find hf] at hlow
  constructor
  · rfl
  · exact Nat.le_add_right _ _
  · intro q hq
    refine (hvotes q).trans (Function.update_of_ne ?_ ..)
    rintro rfl
    exact hq (List.mem_singleton_self q)
  · intro q hq
    obtain rfl := List.mem_singleton.mp hq
    refine .inl ((hvotes q).trans ?_)
    rw [Function.update_self, votes_of_find hf]
    exact ite_neg_eq_max _
  -- the global sum takes the whole change, even if the votes stop at zero
  · change _ - _ ≤ _
    rw [htotal]
    split_ifs with hneg
    · rw [sub_zero]
      exact add_le_of_nonpos_right hneg.le
    · rw [sub_self, add_zero]
  · change _ ≤ _ - _
    rw [htotal]
    split_ifs with hneg
    · push_cast
      linarith
    · simp

/-- One producer after the other. -/
theorem Applied.cons {p : Name} {l : List Name} {b : K} {d : Name → K} (hp : p ∉ l)
    (h₁ : Applied d b [p] vs vs₁) (h₂ : Applied d b l vs₁ vs') : Applied d b (p :: l) vs vs' := by
  have hsame (q : Name) (hq : q ≠ p) : vs₁.votes q = vs.votes q := by
    apply h₁.rest
    exact fun hmem => hq (List.mem_singleton.mp hmem)
  constructor
  · exact h₂.skipped.trans h₁.skipped
  · exact h₁.clamps.trans h₂.clamps
  · intro q hq
    obtain ⟨hqp, hql⟩ := not_or.mp (mt List.mem_cons.mpr hq)
    exact (h₂.rest q hql).trans (hsame q hqp)
  · intro q hq
    rcases List.mem_cons.mp hq with rfl | hql
    · rw [h₂.rest q hp]
      exact h₁.adjusted q (List.mem_singleton_self q)
    · have hqp : q ≠ p := by
        rintro rfl
        exact hp hql
      rw [← hsame q hqp]
      exact h₂.adjusted q hql
  · exact h₂.total_le.trans h₁.total_le
  · have hle₁ := h₁.le_total
    have hle₂ := h₂.le_total
    linarith

omit [IsStrictOrderedRing K] in
/-- A vote for producers leaves the voters. -/
theorem applyDeltas_voters {ct : ℕ} {voting : Bool} {l : List (Name × K × Bool)}
    {acc acc' : VotepayChange K} (h : applyDeltas ct voting l vs acc = .ok (vs', acc')) :
    vs'.voters = vs.voters := by
  induction l generalizing vs acc with
  | nil => exact congrArg VoteState.voters (Prod.mk.inj (pure_eq_ok.mp h)).1.symm
  | cons e l ih =>
    obtain ⟨acnt, delta, isNew⟩ := e
    unfold applyDeltas at h
    split at h
    · exact ih (check_bind_eq_ok.mp h).2
    · exact (ih (check_bind_eq_ok.mp h).2).trans (updateVotepay_voters ..)

/-- The changes of a vote are applied to each producer once. -/
theorem applyDeltas_applied {ct : ℕ} {voting : Bool} {l : List (Name × K × Bool)}
    {acc acc' : VotepayChange K} {d : Name → K} {b : K} (hl : (l.map Prod.fst).Nodup)
    (hd : ∀ e ∈ l, e.2.1 = d e.1 ∧ (e.2.2 = false → d e.1 ≤ 0))
    (hlow : ∀ e ∈ l, -b ≤ vs.votes e.1 + d e.1)
    (h : applyDeltas ct voting l vs acc = .ok (vs', acc')) :
    Applied d b (l.map Prod.fst) vs vs' := by
  induction l generalizing vs acc with
  | nil =>
    obtain ⟨rfl, -⟩ := Prod.mk.inj (pure_eq_ok.mp h)
    refine ⟨rfl, le_rfl, fun _ _ => rfl, fun p hp => absurd hp List.not_mem_nil, le_rfl, ?_⟩
    rw [sub_self, zero_mul, sub_zero]
  | cons e l ih =>
    obtain ⟨acnt, delta, isNew⟩ := e
    obtain ⟨hdelta, hold⟩ : delta = d acnt ∧ (isNew = false → d acnt ≤ 0) :=
      hd _ List.mem_cons_self
    subst hdelta
    rw [List.map_cons, List.nodup_cons] at hl
    have hlow₁ : -b ≤ vs.votes acnt + d acnt := hlow _ List.mem_cons_self
    -- the producers that follow have the votes they had
    have hrest {vs₁ : VoteState K} (h₁ : Applied d b [acnt] vs vs₁) :
        ∀ e ∈ l, -b ≤ vs₁.votes e.1 + d e.1 := by
      intro e he
      rw [h₁.rest e.1 fun hmem => ?_]
      · exact hlow e (List.mem_cons_of_mem _ he)
      · have hkey := List.mem_map_of_mem (f := Prod.fst) he
        rw [List.mem_singleton.mp hmem] at hkey
        exact hl.1 hkey
    have htail : ∀ e ∈ l, e.2.1 = d e.1 ∧ (e.2.2 = false → d e.1 ≤ 0) := fun e he =>
      hd e (List.mem_cons_of_mem _ he)
    unfold applyDeltas at h
    split at h
    · rename_i hf
      obtain ⟨hnew, h⟩ := check_bind_eq_ok.mp h
      -- a producer that is not in the table has no votes that could be taken back
      have hzero : vs.votes acnt = 0 := by rw [votes, hf, Option.elim_none]
      have hone : Applied d b [acnt] vs vs := by
        refine ⟨rfl, le_rfl, fun _ _ => rfl, fun p hp => ?_, le_rfl, ?_⟩
        · obtain rfl := List.mem_singleton.mp hp
          exact .inr ⟨hold hnew, hzero, hzero⟩
        · rw [sub_self, zero_mul, sub_zero]
      exact hone.cons hl.1 (ih hl.2 htail (hrest hone) h)
    · rename_i prod hf
      have h := (check_bind_eq_ok.mp h).2
      obtain ⟨producers2, he⟩ := updateVotepay_eq { vs with
        producers := vs.producers.set acnt { prod with
          totalVotes := if prod.totalVotes + d acnt < 0 then 0 else prod.totalVotes + d acnt }
        totalProducerVoteWeight := vs.totalProducerVoteWeight + d acnt
        clamps := vs.clamps + if prod.totalVotes + d acnt < 0 then 1 else 0 } ct acnt
          prod.totalVotes prod.lastClaimTime (d acnt) acc
      have hone := Applied.single hf hlow₁ producers2
      dsimp only at h he
      rw [he] at h
      exact hone.cons hl.1 (ih hl.2 htail (hrest hone) h)

omit [IsStrictOrderedRing K] [LinearOrder K] in
theorem count_mul_eq {l : List Name} (hl : l.Nodup) (p : Name) (w : K) :
    (l.count p : K) * w = if p ∈ l then w else 0 := by
  split_ifs with hp
  · rw [List.count_eq_one_of_mem hl hp, Nat.cast_one, one_mul]
  · rw [List.count_eq_zero_of_not_mem hp, Nat.cast_zero, zero_mul]

omit [IsStrictOrderedRing K] [LinearOrder K] in
/-- A vote changes each of its old and new producers once. -/
theorem producerDeltas_spec {old new : List Name} (ho : old.Nodup) (hn : new.Nodup) (last w : K) :
    ((producerDeltas old new last w).map Prod.fst).Nodup ∧
    (∀ p, p ∈ (producerDeltas old new last w).map Prod.fst ↔ p ∈ old ∨ p ∈ new) ∧
    ∀ e ∈ producerDeltas old new last w,
      e.2.1 = (if e.1 ∈ new then w else 0) - (if e.1 ∈ old then last else 0) ∧
        (e.2.2 = false → e.1 ∉ new) := by
  have hperm := List.perm_insertionSort (fun a b : Name => a.value ≤ b.value) (old ++ new).dedup
  have hkeys : (producerDeltas old new last w).map Prod.fst =
      (old ++ new).dedup.insertionSort fun a b => a.value ≤ b.value := by
    unfold producerDeltas
    rw [List.map_map]
    exact List.map_id _
  refine ⟨?_, fun p => ?_, fun e he => ?_⟩
  · rw [hkeys]
    exact hperm.nodup_iff.mpr (List.nodup_dedup _)
  · rw [hkeys, hperm.mem_iff, List.mem_dedup, List.mem_append]
  · obtain ⟨p, -, rfl⟩ := List.mem_map.mp he
    refine ⟨?_, fun hp => of_decide_eq_false hp⟩
    rw [count_mul_eq hn, count_mul_eq ho]

end Changes

/-! ## Tallies -/

section Tallied

variable [LinearOrder K]

/-- The tallies are right up to one vote for each change that has been dropped, except that proxies
have received `d` for which there is no ballot yet. The global sum may be less than the votes of
all producers, by what was set to zero. -/
structure TalliedUpTo (d : Name → K) (vs : VoteState K) : Prop where
  proxy : ∀ q, |vs.proxySurplus q - d q| ≤ vs.skippedChanges
  producer : ∀ p, |vs.producerSurplus p| ≤ vs.skippedChanges
  total_le : vs.totalSurplus ≤ 0
  le_total : -((vs.clamps : K) * vs.skippedChanges) ≤ vs.totalSurplus
  nodup : ∀ a, (vs.choices a).Nodup

/-- The tallies are right up to one vote for each change that has been dropped. -/
def Tallied (vs : VoteState K) : Prop := vs.TalliedUpTo 0

/-- No voter has cast a negative weight. -/
def WeightsNonneg (vs : VoteState K) : Prop :=
  ∀ a v, vs.voters.find a = some v → 0 ≤ v.lastVoteWeight

variable [IsStrictOrderedRing K] {d e : Name → K}

theorem clamps_mul_mono (hc : vs.clamps ≤ vs'.clamps)
    (hs : vs.skippedChanges ≤ vs'.skippedChanges) :
    (vs.clamps : K) * vs.skippedChanges ≤ vs'.clamps * vs'.skippedChanges := by
  exact_mod_cast Nat.mul_le_mul hc hs

/-- What is passed on leaves the tallies right. -/
theorem TalliedUpTo.drift (h : vs.TalliedUpTo d) (hd : Drift e 0 vs vs') :
    vs'.TalliedUpTo (d + e) := by
  have hs := hd.skipped_le
  constructor
  · intro q
    calc |vs'.proxySurplus q - (d + e) q|
        = |(vs.proxySurplus q - d q) + (vs'.proxySurplus q - vs.proxySurplus q - e q)| := by
          rw [Pi.add_apply]
          ring_nf
      _ ≤ |vs.proxySurplus q - d q| + |vs'.proxySurplus q - vs.proxySurplus q - e q| :=
          abs_add_le _ _
      _ ≤ vs.skippedChanges + (vs'.skippedChanges - vs.skippedChanges) :=
          add_le_add (h.proxy q) (hd.proxy q)
      _ = vs'.skippedChanges := add_sub_cancel _ _
  · intro p
    have hp := hd.producer p
    rw [Pi.zero_apply, sub_zero] at hp
    calc |vs'.producerSurplus p|
        = |vs.producerSurplus p + (vs'.producerSurplus p - vs.producerSurplus p)| := by
          rw [add_sub_cancel]
      _ ≤ |vs.producerSurplus p| + |vs'.producerSurplus p - vs.producerSurplus p| := abs_add_le _ _
      _ ≤ vs.skippedChanges + (vs'.skippedChanges - vs.skippedChanges) :=
          add_le_add (h.producer p) hp
      _ = vs'.skippedChanges := add_sub_cancel _ _
  · exact hd.total.trans_le h.total_le
  · rw [hd.total]
    exact (neg_le_neg (clamps_mul_mono hd.clamps hs)).trans h.le_total
  · intro a
    rw [hd.choices]
    exact h.nodup a

theorem Tallied.drift (h : vs.Tallied) (hd : Drift 0 0 vs vs') : vs'.Tallied := by
  have h := TalliedUpTo.drift h hd
  rwa [add_zero] at h

/-- If no weight is negative, no producer is given less than nothing. -/
theorem given_nonneg (hw : vs.WeightsNonneg)
    (hn : ∀ a, (vs.choices a).Nodup) (p : Name) : 0 ≤ vs.given p := by
  unfold given
  rw [Table.sum_apply]
  refine Table.sum_nonneg fun a v hf => Ballot.spread_nonneg ?_ (hw a v hf) p
  have hv := hn a
  rwa [choices_of_find hf] at hv

omit [LinearOrder K] [IsStrictOrderedRing K] in
theorem spread_ite {q : Name} {l : List Name} (hl : l.Nodup) (w : K) (p : Name) :
    (⟨if q = .none then none else some q, l, w⟩ : Ballot Name K).spread p =
      if q = .none ∧ p ∈ l then w else 0 := by
  rw [Ballot.spread_apply hl]
  by_cases hq : q = .none <;> simp [hq]

omit [IsStrictOrderedRing K] in
/-- The producers that a vote is taken back from are those it was given to. -/
theorem spread_old {q : Name} {l : List Name} (hl : l.Nodup) {w : K} (hw : 0 ≤ w) (p : Name) :
    (⟨if q = .none then none else some q, l, w⟩ : Ballot Name K).spread p =
      if p ∈ (if 0 < w ∧ q = .none then l else []) then w else 0 := by
  rw [spread_ite hl]
  by_cases hq : q = .none
  · rcases hw.eq_or_lt with rfl | hpos
    · simp
    · simp [hq, hpos]
  · simp [hq]

omit [IsStrictOrderedRing K] in
theorem spread_new {q : Name} {l : List Name} (hl : l.Nodup) {w : K} (hw : 0 ≤ w) (p : Name) :
    (⟨if q = .none then none else some q, l, w⟩ : Ballot Name K).spread p =
      if p ∈ (if q = .none ∧ 0 ≤ w then l else []) then w else 0 := by
  rw [spread_ite hl]
  by_cases hq : q = .none
  · simp [hq, hw]
  · simp [hq]

theorem validateVote_nodup {a proxy : Name} {l : List Name} {u : Unit}
    (h : validateVote a proxy l = .ok u) : l.Nodup := by
  unfold validateVote at h
  split_ifs at h
  · have hlen := check_eq_ok.mp (check_bind_eq_ok.mp h).2
    obtain ⟨hlen, -⟩ := check_bind_eq_ok.mp h
    rw [List.eq_nil_of_length_eq_zero hlen]
    exact List.nodup_nil
  · have hlt := check_eq_ok.mp (check_bind_eq_ok.mp h).2
    refine hlt.imp fun hab he => ?_
    rw [he] at hab
    exact lt_irrefl _ hab

/-- The changes of a vote are the differences between the new ballot and the old one. -/
theorem producerDeltas_ballots {q q' : Name} {l l' : List Name} (hl : l.Nodup) (hl' : l'.Nodup)
    {last w : K} (hlast : 0 ≤ last) (hw : 0 ≤ w) {deltas : List (Name × K × Bool)}
    (hdeltas : deltas = producerDeltas (if 0 < last ∧ q = .none then l else [])
      (if q' = .none ∧ 0 ≤ w then l' else []) last w) {d : Name → K}
    (hd : d = (⟨if q' = .none then none else some q', l', w⟩ : Ballot Name K).spread -
      (⟨if q = .none then none else some q, l, last⟩ : Ballot Name K).spread) :
    (deltas.map Prod.fst).Nodup ∧ (∀ p, p ∉ deltas.map Prod.fst → d p = 0) ∧
      ∀ e ∈ deltas, e.2.1 = d e.1 ∧ (e.2.2 = false → d e.1 ≤ 0) := by
  have hold : (if 0 < last ∧ q = .none then l else []).Nodup := by
    split_ifs
    · exact hl
    · exact List.nodup_nil
  have hnew : (if q' = .none ∧ 0 ≤ w then l' else []).Nodup := by
    split_ifs
    · exact hl'
    · exact List.nodup_nil
  have hp (p : Name) : d p = (if p ∈ (if q' = .none ∧ 0 ≤ w then l' else []) then w else 0) -
      if p ∈ (if 0 < last ∧ q = .none then l else []) then last else 0 := by
    rw [hd, Pi.sub_apply, spread_new hl' hw, spread_old hl hlast]
  obtain ⟨hkeys, hmem, hspec⟩ := producerDeltas_spec hold hnew last w
  rw [← hdeltas] at hkeys hmem hspec
  refine ⟨hkeys, fun p hnot => ?_, fun e he => ?_⟩
  · obtain ⟨hpold, hpnew⟩ := not_or.mp (mt (hmem p).mpr hnot)
    rw [hp, if_neg hpnew, if_neg hpold, sub_zero]
  · obtain ⟨hdelta, hnotMem⟩ := hspec e he
    refine ⟨hdelta.trans (hp e.1).symm, fun hfalse => ?_⟩
    rw [hp, if_neg (hnotMem hfalse), zero_sub, neg_nonpos]
    exact ite_nonneg hlast le_rfl

/-- **The last part of a vote**: the votes of the producers are adjusted, and the ballot is
recorded. -/
theorem TalliedUpTo.recast {a proxy : Name} {v : VoterInfo K} {l : List Name} {w : K}
    {ct : ℕ} {voting : Bool} {acc acc' : VotepayChange K}
    (ht : vs.TalliedUpTo (-v.ballot.share +
      (⟨if proxy = .none then none else some proxy, l, w⟩ : Ballot Name K).share))
    (hf : vs.voters.find a = some v) (hl : l.Nodup) (hlast : 0 ≤ v.lastVoteWeight) (hw : 0 ≤ w)
    {deltas : List (Name × K × Bool)} (hdeltas : deltas = producerDeltas
      (if 0 < v.lastVoteWeight ∧ v.proxy = .none then v.producers else [])
      (if proxy = .none ∧ 0 ≤ w then l else []) v.lastVoteWeight w)
    (h : applyDeltas ct voting deltas vs acc = .ok (vs₁, acc'))
    (hvoters : vs'.voters = vs.voters.set a { v with
      lastVoteWeight := w
      producers := l
      proxy })
    (hproducers : vs'.producers = vs₁.producers)
    (htotal : vs'.totalProducerVoteWeight = vs₁.totalProducerVoteWeight)
    (hskipped : vs'.skippedChanges = vs₁.skippedChanges) (hclamps : vs₁.clamps ≤ vs'.clamps)
    (hw' : vs'.WeightsNonneg) : vs'.Tallied := by
  set b := v.ballot
  set b' : Ballot Name K := ⟨if proxy = .none then none else some proxy, l, w⟩
  set row : VoterInfo K := { v with
    lastVoteWeight := w
    producers := l
    proxy }
  have hv : v.producers.Nodup := choices_of_find hf ▸ ht.nodup a
  have hchoices : vs'.choices = Function.update vs.choices a l := by
    have hset : (vs.setVoter a row).choices = Function.update vs.choices a l :=
      choices_setVoter a row
    unfold choices at *
    rw [hvoters]
    exact hset
  have hnodup : ∀ x, (vs'.choices x).Nodup := by
    intro x
    rw [hchoices, Function.update_apply]
    split_ifs
    · exact hl
    · exact ht.nodup x
  have hgiven : vs'.given = vs.given + (b'.spread - b.spread) := by
    unfold given
    rw [hvoters, Table.sum_set hf]
    change _ - b.spread + b'.spread = _
    abel
  have hpos (p : Name) : 0 ≤ vs.given p + (b'.spread - b.spread) p := by
    have hp := given_nonneg hw' hnodup p
    rwa [hgiven] at hp
  obtain ⟨hkeys, hrest, hspec⟩ := producerDeltas_ballots hv hl hlast hw hdeltas
    (show b'.spread - b.spread = b'.spread - b.spread from rfl)
  -- the votes of a producer cannot fall below what has been dropped
  have hlow (p : Name) : -(vs.skippedChanges : K) ≤ vs.votes p + (b'.spread - b.spread) p := by
    have hp := (abs_le.mp (ht.producer p)).1
    have hsurplus : vs.votes p = vs.producerSurplus p + vs.given p := (sub_add_cancel _ _).symm
    rw [hsurplus, add_assoc]
    exact hp.trans (le_add_of_nonneg_right (hpos p))
  have happlied := applyDeltas_applied hkeys hspec (fun e _ => hlow e.1) h
  have hvotes : vs'.votes = vs₁.votes := by
    unfold votes
    rw [hproducers]
  constructor
  · intro q
    have hsurplus : vs'.proxySurplus = vs.proxySurplus + b.share - b'.share := by
      have hset : (vs.setVoter a row).proxySurplus = _ := proxySurplus_setVoter a row
      rw [hf, Option.elim_some, Option.elim_some, sub_self, Pi.single_zero, add_zero] at hset
      unfold proxySurplus at *
      rw [hvoters]
      exact hset
    have hq := ht.proxy q
    rw [hskipped, happlied.skipped, hsurplus]
    refine le_of_eq_of_le (congrArg _ ?_) hq
    simp only [Pi.add_apply, Pi.sub_apply, Pi.neg_apply, Pi.zero_apply]
    ring
  · intro p
    rw [hskipped, happlied.skipped]
    refine le_trans ?_ (ht.producer p)
    change |vs'.votes p - vs'.given p| ≤ |vs.votes p - vs.given p|
    rw [hvotes, hgiven, Pi.add_apply]
    by_cases hp : p ∈ deltas.map Prod.fst
    · exact (happlied.adjusted p hp).abs_sub_le (hpos p)
    · rw [happlied.rest p hp, hrest p hp, add_zero]
  · have hsame : vs'.totalSurplus = vs₁.totalSurplus := by
      rw [totalSurplus, totalSurplus, htotal, hproducers]
    rw [hsame]
    exact happlied.total_le.trans ht.total_le
  · have hsame : vs'.totalSurplus = vs₁.totalSurplus := by
      rw [totalSurplus, totalSurplus, htotal, hproducers]
    have hmono : (vs₁.clamps : K) * vs₁.skippedChanges ≤ vs'.clamps * vs'.skippedChanges :=
      clamps_mul_mono hclamps hskipped.ge
    have hle := happlied.le_total
    have hbound := ht.le_total
    rw [happlied.skipped] at hmono
    rw [hsame]
    linarith
  · exact hnodup

/-! ### Votes and stakes -/

theorem activateStake_drift (vs : VoteState K) (now : BlockTimestamp) (voter : VoterInfo K) :
    Drift 0 0 vs (vs.activateStake now voter) ∧
      (vs.activateStake now voter).voters = vs.voters := by
  unfold activateStake
  refine ⟨.of_tables ?_ ?_ ?_ ?_ ?_, ?_⟩ <;> dsimp only <;> split_ifs <;> rfl

variable [CMath K]

/-- **A vote** keeps the tallies right. -/
theorem updateVotes_tallied {now : BlockTimestamp} {a proxy : Name} {producers : List Name}
    {voting : Bool} (ht : vs.Tallied) (hl : vs.links.Sound) (hw : vs.WeightsNonneg)
    (hv : voting = true ∨ ∀ v, vs.voters.find a = some v → v.proxy = proxy)
    (h : vs.updateVotes now a proxy producers voting = .ok vs') (hw' : vs'.WeightsNonneg) :
    vs'.Tallied := by
  simp only [updateVotes, bind_eq_ok, require_eq_ok, check_eq_ok, exists_const, pure_eq_ok] at h
  obtain ⟨_, hval, voter, hf, hproxy, vs₁, h₁, vs₂, h₂, ⟨vs₃, acc⟩, h₃, voter', hf', rfl⟩ := h
  obtain ⟨hactivate, hvoters₀⟩ := activateStake_drift vs now voter
  have hflags₀ := (activateStake_kept vs now voter).flags
  set vs₀ := vs.activateStake now voter
  have hlast := hw a voter hf
  have hweight : 0 ≤ voter.weight now :=
    hw' a _ (Table.find_set_self _ a _)
  -- the old proxy gives the vote back
  rw [← hvoters₀] at hf
  have hl₀ : vs₀.links.Sound := links_congr hflags₀ ▸ hl
  obtain ⟨hundo, hf₁⟩ := undoProxy_drift hl₀.acyclic (ht.drift hactivate).nodup hf hlast h₁
  have hflags₁ := (undoProxy_kept h₁).flags
  have hl₁ : vs₁.links.Sound := links_congr hflags₁ ▸ hl₀
  have ht₁ := TalliedUpTo.drift (ht.drift hactivate) hundo
  -- a proxy just voted for uses none, and the proxy of a recast is the old one
  have hup : proxy ≠ .none → vs₁.proxyOf proxy = none ∨ vs₁.proxyOf a = some proxy := by
    intro hp
    rcases hv with hv | hv
    · have hcast := ((castProxy_kept h₂).2.resolve_left hp).resolve_left (hv ▸ Bool.noConfusion)
      exact .inl (hl₁.proxy_eq_none proxy hcast)
    · obtain rfl := hv voter (hvoters₀ ▸ hf)
      exact .inr (proxyOf_eq_some hf₁ hp)
  have hne : proxy ≠ .none → a ≠ proxy := by
    intro hp
    rw [validateVote, if_pos hp] at hval
    exact check_eq_ok.mp (check_bind_eq_ok.mp hval).2
  obtain ⟨hcast, hf₂⟩ := castProxy_drift hl₁.acyclic ht₁.nodup hf₁ hweight hne hup h₂ producers
  have ht₂ := ht₁.drift hcast
  rw [zero_add] at ht₂
  -- the votes for producers, and the record of the voter
  have hvoters₃ := applyDeltas_voters h₃
  have hsame : voter' = voter := by
    have hfind : vs₃.voters.find a = some voter' := hf'
    rw [hvoters₃, hf₂] at hfind
    exact (Option.some.inj hfind).symm
  subst hsame
  refine ht₂.recast hf₂ (validateVote_nodup hval) hlast hweight rfl h₃ ?_ rfl rfl rfl ?_ hw'
  · exact congrArg (Table.set · a _) hvoters₃
  · exact (Nat.le_add_right _ _).trans (Nat.le_add_right _ _)

/-- A change of the stake, after which the same vote is cast again. -/
theorem updateVotingPower_tallied {now : BlockTimestamp} {a : Name} {delta : ℤ} (ht : vs.Tallied)
    (hl : vs.links.Sound) (hw : vs.WeightsNonneg)
    (h : vs.updateVotingPower now a delta = .ok vs') (hw' : vs'.WeightsNonneg) : vs'.Tallied := by
  have hadd : Drift 0 0 vs (vs.addStaked a delta) := .setVoter rfl rfl
  have hl₁ : (vs.addStaked a delta).links.Sound :=
    links_congr (addStaked_kept vs a delta).flags ▸ hl
  have hw₁ : (vs.addStaked a delta).WeightsNonneg := by
    intro b v hf
    rw [addStaked, VoteState.setVoter, Table.find_set] at hf
    split_ifs at hf with hb
    · obtain rfl := Option.some.inj hf
      cases hfa : vs.voters.find a with
      | none => exact le_rfl
      | some u => exact hw a u hfa
    · exact hw b v hf
  obtain ⟨voter, hf, rfl | h⟩ := updateVotingPower_cases h
  · exact ht.drift hadd
  · refine updateVotes_tallied (ht.drift hadd) hl₁ hw₁ (.inr fun v hfv => ?_) h hw'
    rw [Option.some.inj (hfv.symm.trans hf)]

/-- A proxy is registered, or no longer. -/
theorem regproxy_tallied {now : BlockTimestamp} {a : Name} {b : Bool} (ht : vs.Tallied)
    (hl : vs.links.Sound) (h : vs.regproxy now a b = .ok vs') : vs'.Tallied := by
  obtain ⟨-, h⟩ := check_bind_eq_ok.mp h
  split at h
  · rename_i v hf
    simp only [check_bind_eq_ok] at h
    obtain ⟨-, hb, h⟩ := h
    have hset : Drift 0 0 vs (vs.setVoter a { v with isProxy := b }) := by
      refine .setVoter ?_ ?_
      · rw [hf]
        rfl
      · rw [hf]
        rfl
    have hflags : (vs.setVoter a { v with isProxy := b }).flags =
        Function.update vs.flags a { vs.flags a with isProxy := b } := by
      rw [flags_setVoter, flags_of_find hf]
      rfl
    have hlinks : (vs.setVoter a { v with isProxy := b }).proxyOf = vs.proxyOf :=
      congrArg Links.proxy (links_register hflags)
    have hacyclic : Acyclic vs.proxyOf := hl.acyclic
    rw [← hlinks] at hacyclic
    obtain ⟨rank, hr⟩ := hacyclic
    have ht₁ := ht.drift hset
    exact ht₁.drift (propagateWeightChange_drift hr ht₁.nodup h).1
  · rename_i hf
    obtain rfl := pure_eq_ok.mp h
    refine ht.drift (.setVoter ?_ ?_)
    · rw [hf]
      rfl
    · rw [hf]
      rfl

end Tallied

/-! ## Actions -/

section Restaked

omit [Field K] in
theorem Restaked.flags (h : vs.Restaked vs') : vs'.flags = vs.flags := by
  rcases h with rfl | ⟨a, v, staked, hf, rfl⟩
  · rfl
  · rw [flags_setVoter]
    exact Function.update_eq_self_iff.mpr (flags_of_find hf).symm

variable [LinearOrder K]

theorem Restaked.weightsNonneg (h : vs.Restaked vs') (hw : vs.WeightsNonneg) :
    vs'.WeightsNonneg := by
  rcases h with rfl | ⟨a, v, staked, hf, rfl⟩
  · exact hw
  · intro b u hfu
    rw [setVoter, Table.find_set] at hfu
    split_ifs at hfu with hb
    · obtain rfl := Option.some.inj hfu
      exact hw a v hf
    · exact hw b u hfu

theorem Restaked.drift [IsStrictOrderedRing K] (h : vs.Restaked vs') : Drift 0 0 vs vs' := by
  rcases h with rfl | ⟨a, v, staked, hf, rfl⟩
  · exact .refl
  · refine .setVoter ?_ ?_
    · rw [hf]
      rfl
    · rw [hf]
      rfl

end Restaked

variable [LinearOrder K]

theorem clamps_le_updateTotal (vs : VoteState K) (ct : ℕ) (shares rate : K) :
    vs.clamps ≤ (vs.updateTotalVotepayShare ct shares rate).clamps :=
  (Nat.le_add_right _ _).trans (Nat.le_add_right _ _)

variable [IsStrictOrderedRing K]

omit [LinearOrder K] [IsStrictOrderedRing K] in
/-- A new record of a producer with the votes that it had. -/
theorem votes_set_of_eq {p : Name} {prod : ProducerInfo K} (h : prod.totalVotes = vs.votes p) :
    (fun q => ((vs.producers.set p prod).find q).elim 0 ProducerInfo.totalVotes) = vs.votes := by
  rw [votes_setProducer, h]
  exact Function.update_eq_self p vs.votes

/-- The registration of a known producer leaves the votes. -/
theorem reregister_drift {ct : ℕ} {p : Name} {old info : ProducerInfo K}
    (hf : vs.producers.find p = some old) (h : info.totalVotes = old.totalVotes) :
    Drift 0 0 vs (vs.reregister ct p info) := by
  have hvotes := votes_set_of_eq (h.trans (votes_of_find hf).symm)
  unfold reregister
  dsimp only
  split
  · exact .of_votes rfl hvotes rfl rfl le_rfl
  · exact .of_votes rfl hvotes rfl rfl (clamps_le_updateTotal _ _ _ _)

/-- A claim leaves the votes. -/
theorem claimed_drift {now : BlockTimestamp} {owner : Name} {prod : ProducerInfo K}
    (hf : vs.producers.find owner = some prod) (revised : Bool) :
    Drift 0 0 vs (vs.claimed now owner prod revised) := by
  set claimant : ProducerInfo K := { prod with
    lastClaimTime := now.usec
    unpaidBlocks := 0 }
  have hvotes : (fun q => ((vs.producers.set owner claimant).find q).elim 0
      ProducerInfo.totalVotes) = vs.votes := votes_set_of_eq (votes_of_find hf).symm
  have hclamps (vs₁ : VoteState K) (h : vs.clamps ≤ vs₁.clamps) (ct : ℕ) (shares rate : K) :
      vs.clamps ≤ (vs₁.updateTotalVotepayShare ct shares rate).clamps :=
    h.trans (clamps_le_updateTotal _ _ _ _)
  unfold claimed State.claimShare
  dsimp only
  cases revised with
  | false =>
    refine .of_votes rfl ?_ rfl rfl ?_
    · exact hvotes
    · exact hclamps { vs with producers2 := _ } le_rfl _ _ _
  | true =>
    refine .of_votes rfl ?_ rfl rfl ?_
    · exact hvotes
    · exact hclamps _ (hclamps { vs with producers2 := _ } le_rfl _ _ _) _ _ _

end VoteState

namespace VoteEvent

variable [LinearOrder K] [IsStrictOrderedRing K] [CMath K] {vs vs' : VoteState K}
  {now : BlockTimestamp}

/-- **Every action** keeps the tallies right, if it leaves no negative weight. -/
theorem tallied (h : VoteEvent now vs vs') (ht : vs.Tallied) (hl : vs.links.Sound)
    (hw : vs.WeightsNonneg) (hw' : vs'.WeightsNonneg) : vs'.Tallied := by
  cases h with
  | vote hr h =>
    refine VoteState.updateVotes_tallied (ht.drift hr.drift) ?_ (hr.weightsNonneg hw) (.inl rfl)
      h hw'
    exact VoteState.links_congr hr.flags ▸ hl
  | stake hr h =>
    refine VoteState.updateVotingPower_tallied (ht.drift hr.drift) ?_ (hr.weightsNonneg hw) h hw'
    exact VoteState.links_congr hr.flags ▸ hl
  | restake hr => exact ht.drift hr.drift
  | regproxy h => exact VoteState.regproxy_tallied ht hl h
  | manage hflag =>
    obtain ⟨ram, net, cpu, hv⟩ := hflag ((vs.voters.find _).getD .new)
    rw [hv]
    exact ht.drift (.setVoter rfl rfl)
  | activate => exact ht.drift (.of_tables rfl rfl rfl rfl le_rfl)
  | producers h =>
    refine ht.drift (.of_votes rfl (funext fun p => ?_) rfl rfl le_rfl)
    have hp := congrArg (fun o : Option (K × ℕ) => o.elim 0 Prod.fst) (h p)
    rw [Option.elim_map, Option.elim_map] at hp
    exact hp
  | register hf =>
    refine ht.drift (.of_votes rfl ?_ rfl rfl le_rfl)
    refine VoteState.votes_set_of_eq ?_
    rw [VoteState.votes, hf, Option.elim_none]
  | reregister hf => exact ht.drift (VoteState.reregister_drift hf rfl)
  | claim hf => exact ht.drift (VoteState.claimed_drift hf _)

end VoteEvent

/-! ## Runs -/

section Runs

variable [LinearOrder K]

/-- Nobody has staked, voted or registered. -/
def VoteStart (s : State K) : Prop := s.vote = .empty

/-- The tallies are right, and who uses which proxy is in order. -/
structure VotesKept (vs : VoteState K) : Prop where
  tallied : vs.Tallied
  links : vs.links.Sound

variable [IsStrictOrderedRing K]

theorem VotesKept.of_start {s : State K} (h : VoteStart s) : VotesKept s.vote := by
  rw [show s.vote = .empty from h]
  refine ⟨⟨fun q => ?_, fun p => ?_, ?_, ?_, fun a => List.nodup_nil⟩, Links.sound_empty⟩
  · simp [VoteState.proxySurplus, Table.surplus, VoteState.empty]
  · simp [VoteState.producerSurplus, VoteState.votes, VoteState.given, VoteState.empty]
  · simp [VoteState.totalSurplus, VoteState.empty]
  · simp [VoteState.totalSurplus, VoteState.empty]

variable [FloorRing K] [CMath K]

theorem votesKept_of_run {t : BlockTimestamp} {s : State K}
    (h : Run VoteStart (Step fun s _ => s.vote.WeightsNonneg) t s)
    (hw : s.vote.WeightsNonneg) : VotesKept s.vote := by
  refine h.invariant (P := fun s => s.vote.WeightsNonneg → VotesKept s.vote)
    (fun s hs _ => .of_start hs) ?_ hw
  rintro t s s' hk ⟨isAccount, x, hw, he⟩ hw'
  -- the weights are compared before and after the action, the links need neither
  obtain ⟨htallied, hlinks⟩ := hk hw
  constructor
  · exact (Action.exec_voteEvent he).tallied htallied hlinks hw hw'
  · exact VoteState.links_sound hlinks (Action.exec_vote he)

/-- Whether any voter has cast a negative weight. -/
def VoteState.weightsNonneg (vs : VoteState K) : Bool :=
  vs.voters.rows.all fun r => decide (0 ≤ r.2.lastVoteWeight)

omit [IsStrictOrderedRing K] [FloorRing K] [CMath K] in
theorem VoteState.weightsNonneg_iff (vs : VoteState K) :
    vs.weightsNonneg = true ↔ vs.WeightsNonneg := by
  simp only [weightsNonneg, List.all_eq_true, decide_eq_true_eq]
  constructor
  · intro h a v hf
    exact h (a, v) (Table.mem_rows.mpr hf)
  · rintro h ⟨a, v⟩ hr
    exact h a v (Table.mem_rows.mp hr)

/-- Two accounts vote for a producer through a proxy; the second has so little stake that the proxy
does not pass it on. -/
def voteExampleRun : List (BlockTimestamp × Action ℚ) :=
  [(.ofSlot 1, .regproducer ⟨1⟩ ""),
   (.ofSlot 2, .regproxy ⟨2⟩ true),
   (.ofSlot 3, .voteproducer ⟨2⟩ .none [⟨1⟩]),
   (.ofSlot 4, .delegatebw ⟨1⟩ ⟨1⟩ (exampleAsset 60) (exampleAsset 40) false),
   (.ofSlot 5, .delegatebw ⟨1⟩ ⟨3⟩ (exampleAsset 1) (exampleAsset 0) true),
   (.ofSlot 6, .voteproducer ⟨1⟩ ⟨2⟩ []),
   (.ofSlot 7, .voteproducer ⟨3⟩ ⟨2⟩ [])]

end Runs

end EosioSystem
