import EosioSystem.PoolStakes
import EosioSystem.Proxies

/-!
# How a voter's weight reaches the producers

The documentation says that the weight of a voter is divided evenly between the producers it votes
for. The contract gives the whole weight to each of them, so the producers have more in total than
the voters, unless those whose votes go to several producers own no shares.

## Main definitions

* `State.DividesVotes`: what the documentation says
* `GivesTo`: a voter gives its votes to a registered proxy
* `State.NoSharesVote`: no shares stand behind a vote for several producers

## Main results

* `PoolVotes.Tallied.sum_votes`: **each producer gets the whole weight**
* `PoolVotes.Tallied.lastVotes_eq_zero_iff`: who has no weight
* `dividesVotes_iff`: **when the documentation is right**
-/

namespace EosioSystem

variable {K : Type} [Field K]

/-- A voter uses a registered proxy. -/
def GivesTo (voters : Table Name (PoolVoter K)) (a b : Name) : Prop :=
  ∃ v w, voters.find a = some v ∧ v.proxy ≠ .none ∧ v.proxy = b ∧ voters.find b = some w ∧
    w.isProxy = true

namespace PoolVotes.Tallied

variable {pv : PoolVotes K} {n : ℕ} {stale : Name → Prop}

/-- **Each producer gets the whole weight**: a voter without a proxy gives it once for each producer
it votes for. -/
theorem sum_votes (h : pv.Tallied n stale) (i : ℕ) :
    (pv.producers.sum fun _ prod => prodVotes prod i) = pv.voters.sum fun _ u =>
      if u.proxy = .none then u.producers.length * u.lastVotes.getD i 0 else 0 := by
  calc (pv.producers.sum fun _ prod => prodVotes prod i)
      = pv.producers.sum fun p _ => pv.voters.sum fun _ u =>
          if u.proxy = .none ∧ p ∈ u.producers then u.lastVotes.getD i 0 else 0 :=
        Table.sum_congr fun p prod hf => by rw [← h.votes_eq p i, votes, hf, Option.elim_some]
    _ = pv.voters.sum fun _ u => pv.producers.sum fun p _ =>
          if u.proxy = .none ∧ p ∈ u.producers then u.lastVotes.getD i 0 else 0 :=
        Table.sum_comm _ _ _
    _ = _ := Table.sum_congr fun a u hu => ?_
  have hw := shape_voters hu
  by_cases hp : u.proxy = .none
  · -- all producers that are voted for are in the table
    have hvoted : ∀ p ∈ u.producers, (pv.producers.find p).isSome := fun p hmem => by
      obtain ⟨b, hb⟩ := h.wf.voted a _ hw hp p hmem
      obtain ⟨prod, _, hf, -⟩ := exists_poolVotes hb
      rw [hf]
      rfl
    simp only [hp, true_and, if_true]
    have hnodup : u.producers.Nodup := h.wf.nodup a _ hw
    rw [Table.sum_ite_mem hnodup hvoted fun _ => u.lastVotes.getD i 0, List.map_const',
      List.sum_replicate, nsmul_eq_mul]
  · simp only [hp, false_and, if_false]
    exact Table.sum_eq_zero fun _ _ _ => rfl

omit [Field K] in
/-- The proxy of a voter that is found. -/
theorem proxyOf_eq {a : Name} {v : PoolVoter K} (hf : pv.voters.find a = some v)
    (hp : v.proxy ≠ .none) : pv.shape.proxyOf a = some v.proxy := by
  rw [Shape.proxyOf, shape_voters hf]
  exact if_neg hp

variable [LinearOrder K] [IsStrictOrderedRing K]

/-- Votes are not negative if shares are not. -/
theorem lastVotes_nonneg (h : pv.Tallied n fun _ => False)
    (ho : ∀ a v, pv.voters.find a = some v → ∀ i, 0 ≤ v.ownedShares.getD i 0) {a : Name}
    {v : PoolVoter K} (hf : pv.voters.find a = some v) (i : ℕ) : 0 ≤ v.lastVotes.getD i 0 := by
  refine Table.induction_on_proxies (P := fun _ v => 0 ≤ v.lastVotes.getD i 0) h.wf.acyclic
    (fun a v hv ih => ?_) hf
  rw [h.lastVotes_eq id hv]
  refine add_nonneg (ho a v hv i) ?_
  split_ifs
  · rw [h.proxiedShares_eq hv]
    refine Table.sum_nonneg fun b u hu => ?_
    split_ifs with hb
    · exact ih b u hu (hb.2 ▸ proxyOf_eq hu hb.1)
    · exact le_rfl
  · exact le_rfl

/-- **A voter has no weight if neither it owns shares nor anybody whose votes it is given.** -/
theorem lastVotes_eq_zero_iff (h : pv.Tallied n fun _ => False)
    (ho : ∀ a v, pv.voters.find a = some v → ∀ i, 0 ≤ v.ownedShares.getD i 0) {b : Name}
    {v : PoolVoter K} (hf : pv.voters.find b = some v) (i : ℕ) :
    v.lastVotes.getD i 0 = 0 ↔ ∀ a u, pv.voters.find a = some u →
      Relation.ReflTransGen (GivesTo pv.voters) a b → u.ownedShares.getD i 0 = 0 := by
  refine Table.induction_on_proxies (P := fun b v => v.lastVotes.getD i 0 = 0 ↔
    ∀ a u, pv.voters.find a = some u → Relation.ReflTransGen (GivesTo pv.voters) a b →
      u.ownedShares.getD i 0 = 0) h.wf.acyclic (fun b v hv ih => ?_) hf
  -- what a proxy has received is zero if those who use it have no votes
  have hterm : ∀ c u, pv.voters.find c = some u →
      0 ≤ if u.proxy ≠ .none ∧ u.proxy = b then u.lastVotes.getD i 0 else 0 := by
    intro c u hu
    split_ifs
    · exact h.lastVotes_nonneg ho hu i
    · exact le_rfl
  have hsum := Table.sum_eq_zero_iff hterm
  rw [← h.proxiedShares_eq hv] at hsum
  have hproxied : 0 ≤ if v.isProxy then v.proxiedShares.getD i 0 else 0 := by
    rw [h.proxiedShares_eq hv]
    split_ifs
    · exact Table.sum_nonneg hterm
    · exact le_rfl
  rw [h.lastVotes_eq id hv, add_eq_zero_iff_of_nonneg (ho b v hv i) hproxied]
  constructor
  · rintro ⟨hown, hrec⟩ a u hu hab
    rcases hab.cases_tail with rfl | ⟨c, hac, w, v', hw, hp, rfl, hv', hi⟩
    · obtain rfl := Option.some.inj (hu.symm.trans hv)
      exact hown
    · obtain rfl := Option.some.inj (hv'.symm.trans hv)
      rw [if_pos hi] at hrec
      have hzero := hsum.mp hrec c w hw
      rw [if_pos ⟨hp, rfl⟩] at hzero
      exact (ih c w hw (proxyOf_eq hw hp)).mp hzero a u hu hac
  · intro hall
    refine ⟨hall b v hv .refl, ?_⟩
    split_ifs with hi
    · refine hsum.mpr fun c u hu => ?_
      split_ifs with hc
      · refine (ih c u hu (hc.2 ▸ proxyOf_eq hu hc.1)).mpr fun a w hw hac => ?_
        exact hall a w hw (hac.tail ⟨u, v, hu, hc.1, hc.2, hv, hi⟩)
      · rfl
    · rfl

end PoolVotes.Tallied

/-! ## The documentation -/

/-- What the documentation says: for every pool, the producers have in total the votes of the voters
without a proxy who vote for a producer, and each producer has the `n`-th part of the votes of a
voter who votes for it and `n - 1` others. -/
structure State.DividesVotes (s : State K) : Prop where
  total : ∀ i, (s.vote.producers.sum fun _ prod => PoolVotes.prodVotes prod i) =
    s.pools.voters.sum fun _ v =>
      if v.proxy = .none ∧ v.producers ≠ [] then v.lastVotes.getD i 0 else 0
  each : ∀ p prod votes, s.vote.producers.find p = some prod → prod.poolVotes = some votes → ∀ i,
    votes.getD i 0 = s.pools.voters.sum fun _ v =>
      if v.proxy = .none ∧ p ∈ v.producers then v.lastVotes.getD i 0 / v.producers.length else 0

/-- Nobody who owns shares votes for several producers, neither itself nor through registered
proxies. -/
def State.NoSharesVote (s : State K) : Prop :=
  ∀ a b u v, s.pools.voters.find a = some u →
    Relation.ReflTransGen (GivesTo s.pools.voters) a b → s.pools.voters.find b = some v →
      v.proxy = .none → 2 ≤ v.producers.length → ∀ i, u.ownedShares.getD i 0 = 0

variable [LinearOrder K] [IsStrictOrderedRing K]

/-- The votes are divided if those who vote for several producers have none. -/
theorem PoolVotes.Tallied.divides_iff {s : State K} {st : StakingPoolState K}
    (h : (⟨st.totalVotes, s.pools.voters, s.vote.producers⟩ : PoolVotes K).Tallied st.pools.length
      fun _ => False)
    (ho : ∀ a v, s.pools.voters.find a = some v → ∀ i, 0 ≤ v.ownedShares.getD i 0) :
    s.DividesVotes ↔ ∀ b v, s.pools.voters.find b = some v → v.proxy = .none →
      2 ≤ v.producers.length → ∀ i, v.lastVotes.getD i 0 = 0 := by
  constructor
  · intro hd b v hv hp hn i
    -- what the producers have too much
    have hexcess : (s.pools.voters.sum fun _ v => if v.proxy = .none ∧ v.producers ≠ [] then
        (v.producers.length - 1) * v.lastVotes.getD i 0 else 0) = 0 := by
      have hsum := h.sum_votes i
      rw [hd.total i] at hsum
      refine left_eq_add.mp (hsum.trans ?_)
      rw [← Table.sum_add]
      refine Table.sum_congr fun _ u _ => ?_
      by_cases hu : u.proxy = .none <;> by_cases hl : u.producers = [] <;> simp [hu, hl]
      ring
    have hzero := (Table.sum_eq_zero_iff fun c u hu => ?_).mp hexcess b v hv
    · have hne : v.producers ≠ [] := by
        intro he
        simp [he] at hn
      have hpos : (v.producers.length - 1 : K) ≠ 0 := by
        have hlt : (1 : K) < v.producers.length := by exact_mod_cast hn
        exact (sub_pos.mpr hlt).ne'
      rw [if_pos ⟨hp, hne⟩] at hzero
      exact (mul_eq_zero.mp hzero).resolve_left hpos
    · split_ifs with hc
      · have hlen : (1 : K) ≤ u.producers.length := by
          exact_mod_cast List.length_pos_iff.mpr hc.2
        exact mul_nonneg (sub_nonneg.mpr hlen) (h.lastVotes_nonneg ho hu i)
      · exact le_rfl
  · intro hzero
    refine ⟨fun i => ?_, fun p prod votes hf hv i => ?_⟩
    · rw [h.sum_votes i]
      refine Table.sum_congr fun b v hv => ?_
      by_cases hp : v.proxy = .none
      · rcases hlen : v.producers with _ | ⟨q, _ | ⟨q', l⟩⟩
        · simp [hp]
        · simp [hp]
        · rw [hzero b v hv hp (by simp [hlen]) i]
          simp
      · simp [hp]
    · rw [h.poolVotes_eq hf hv i]
      refine Table.sum_congr fun b v hv => ?_
      by_cases hp : v.proxy = .none ∧ p ∈ v.producers
      · rw [if_pos hp, if_pos hp]
        rcases hlen : v.producers with _ | ⟨q, _ | ⟨q', l⟩⟩
        · simp [hlen] at hp
        · simp
        · rw [hzero b v hv hp.1 (by simp [hlen]) i, zero_div]
      · rw [if_neg hp, if_neg hp]

/-! ## Runs -/

/-- There are no staking pools yet, and the supply of the token is not negative. -/
def PoolWeightInit (s : State K) : Prop := PoolInit s ∧ 0 ≤ s.token.supply

variable [FloorRing K] [CMath K]

omit [IsStrictOrderedRing K] in
theorem allTallied_of_init {allowed : State K → Action K → Prop} {t : BlockTimestamp} {s : State K}
    (h : Run PoolWeightInit (Step allowed) t s) : AllTallied s := by
  refine h.invariant (P := AllTallied) (fun s hs => ?_) ?_
  · simpa only [AllTallied, PoolsTallied, hs.1.1] using hs.1.2
  · rintro t s s' hs ⟨isAccount, x, -, he⟩
    exact hs.step he

/-- The chain of the examples has no pools yet. -/
theorem poolWeightInit_exampleChain : PoolWeightInit exampleChain := by
  refine ⟨⟨rfl, rfl, fun p prod hf => ?_⟩, by decide⟩
  cases hf

end EosioSystem
