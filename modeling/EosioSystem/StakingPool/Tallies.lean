import EosioSystem.Library.Delegation
import EosioSystem.StakingPool.Votes

/-!
# Tallies of the pool votes

A change of a voter's votes is followed from proxy to proxy while the records on the way are
stale. What every step keeps are the differences between the tallies and the ballots they should
add up to: a step that adds to one side of a difference takes the same from it later. The tallies
are exact when all differences are zero.

## Main definitions

* `PoolVoter.ballot`: a pool voter's vote, with its last votes in all pools as weight
* `PoolVotes.proxyDefect`, `PoolVotes.producerDefect`, `PoolVotes.totalDefect`: the differences
* `PoolVotes.Shape`, `PoolVotes.Shape.Wf`: what the steps of a propagation keep of the records
* `PoolVotes.Current`: the last votes of a voter are those its shares give

## Main results

* `updatePoolProxy_spec`: **a propagation succeeds, keeps the differences and leaves every record
  on the way current**
* `updatePoolVotes_cases`: a new vote keeps the differences, or fails with one of its own errors
-/

namespace EosioSystem

open Checked

variable {K : Type} [Field K]

/-- A vector of the contract as a function of the pool. -/
def vec (l : List K) : ℕ → K := fun i => l.getD i 0

theorem vec_replicate (n : ℕ) : vec (List.replicate n (0 : K)) = 0 := by
  funext i
  by_cases h : i < n <;> simp [vec, h]

theorem vec_add {l m : List K} (h : l.length = m.length) :
    vec (List.zipWith (· + ·) l m) = vec l + vec m := by
  funext i
  unfold vec
  by_cases hi : i < l.length
  · simp [hi, h ▸ hi]
  · simp [hi, h ▸ hi]

theorem vec_sub {l m : List K} (h : l.length = m.length) :
    vec (List.zipWith (· - ·) l m) = vec l - vec m := by
  funext i
  unfold vec
  by_cases hi : i < l.length
  · simp [hi, h ▸ hi]
  · simp [hi, h ▸ hi]

/-- The vote of a pool voter. -/
def PoolVoter.ballot (v : PoolVoter K) : Ballot Name (ℕ → K) where
  proxy := if v.proxy = .none then none else some v.proxy
  choices := v.producers
  weight := vec v.lastVotes

namespace PoolVotes

variable (pv : PoolVotes K)

/-- The votes of a producer. -/
def prodVotes (prod : ProducerInfo K) : ℕ → K := prod.poolVotes.elim 0 vec

/-- The votes a voter has received as a proxy. -/
def received (a : Name) : ℕ → K := (pv.voters.find a).elim 0 fun v => vec v.proxiedShares

/-- The votes a producer has received. -/
def votes (p : Name) : ℕ → K := (pv.producers.find p).elim 0 prodVotes

/-- Received votes without a ballot behind them. -/
def proxyDefect : Name → ℕ → K := pv.received - pv.voters.sum fun _ v => v.ballot.share

/-- Votes of producers without a ballot behind them. -/
def producerDefect : Name → ℕ → K := pv.votes - pv.voters.sum fun _ v => v.ballot.spread

/-- The difference between the global sum and the votes of all producers. -/
def totalDefect : ℕ → K := vec pv.totalVotes - pv.producers.sum fun _ prod => prodVotes prod

/-! ## The shape of the records -/

/-- What a propagation keeps of the record of a voter. -/
structure VoterShape (K : Type) where
  ownedShares : List K
  proxied : ℕ
  last : ℕ
  proxy : Name
  producers : List Name
  isProxy : Bool

/-- What a propagation keeps of all records: all but the numbers of the votes. -/
structure Shape (K : Type) where
  voters : Name → Option (VoterShape K)
  producers : Name → Option (Option ℕ × Bool)
  total : ℕ

omit [Field K] in
def voterShape (v : PoolVoter K) : VoterShape K :=
  ⟨v.ownedShares, v.proxiedShares.length, v.lastVotes.length, v.proxy, v.producers, v.isProxy⟩

omit [Field K] in
def shape : Shape K where
  voters a := (pv.voters.find a).map voterShape
  producers p := (pv.producers.find p).map fun prod => (prod.poolVotes.map List.length,
    prod.isActive)
  total := pv.totalVotes.length

/-- The proxy of a voter. -/
def Shape.proxyOf (sh : Shape K) (a : Name) : Option Name :=
  (sh.voters a).bind fun v => if v.proxy = .none then none else some v.proxy

/-- The records are well formed: all vectors have one entry for each of the `n` pools, a proxy
uses no proxy, and every proxy and producer that is voted for has its record. -/
structure Shape.Wf (n : ℕ) (sh : Shape K) : Prop where
  owned : ∀ a v, sh.voters a = some v → v.ownedShares.length = n
  proxied : ∀ a v, sh.voters a = some v → v.proxied = n
  last : ∀ a v, sh.voters a = some v → v.last = n
  nodup : ∀ a v, sh.voters a = some v → v.producers.Nodup
  isProxy : ∀ a v, sh.voters a = some v → v.isProxy = true → v.proxy = .none
  proxies : ∀ a v, sh.voters a = some v → v.proxy ≠ .none → (sh.voters v.proxy).isSome
  voted : ∀ a v, sh.voters a = some v → v.proxy = .none → ∀ p ∈ v.producers,
    ∃ b, sh.producers p = some (some n, b)
  votes : ∀ p m b, sh.producers p = some (some m, b) → m = n
  total : sh.total = n
  acyclic : Acyclic sh.proxyOf

/-- The last votes of a voter are those its shares give now. -/
def Current (a : Name) : Prop :=
  ∀ v, pv.voters.find a = some v → v.lastVotes = v.poolVotes

/-! ## Writing a voter's record -/

section SetVoter

variable {pv}

omit [Field K] in
@[simp] theorem find_setVoter (a b : Name) (v : PoolVoter K) :
    (pv.setVoter a v).voters.find b = if b = a then some v else pv.voters.find b :=
  Table.find_set _ _ _ _

omit [Field K] in
theorem shape_setVoter {a : Name} {w : PoolVoter K} (h : pv.voters.find a = some w)
    {v : PoolVoter K} (hv : voterShape v = voterShape w) : (pv.setVoter a v).shape = pv.shape := by
  have hvoters : (pv.setVoter a v).shape.voters = pv.shape.voters := by
    funext b
    simp only [shape, find_setVoter]
    split_ifs with hb
    · simp [hb, h, hv]
    · rfl
  calc (pv.setVoter a v).shape
      = ⟨(pv.setVoter a v).shape.voters, pv.shape.producers, pv.shape.total⟩ := rfl
    _ = pv.shape := by rw [hvoters]

theorem received_setVoter (a : Name) (v : PoolVoter K) :
    (pv.setVoter a v).received =
      pv.received + Pi.single a (vec v.proxiedShares - pv.received a) := by
  funext b
  rw [Pi.add_apply, Pi.single_apply, received, find_setVoter]
  split_ifs with hb
  · simp [hb]
  · simp [received]

/-- The difference of the proxies when the record of a voter is written. -/
theorem proxyDefect_setVoter {a : Name} {w : PoolVoter K} (h : pv.voters.find a = some w)
    (v : PoolVoter K) :
    (pv.setVoter a v).proxyDefect =
      pv.proxyDefect + Pi.single a (vec v.proxiedShares - vec w.proxiedShares) +
        w.ballot.share - v.ballot.share := by
  have hr : pv.received a = vec w.proxiedShares := by simp [received, h]
  have hs : (pv.setVoter a v).voters.sum (fun _ v => v.ballot.share) =
      pv.voters.sum (fun _ v => v.ballot.share) - w.ballot.share + v.ballot.share :=
    Table.sum_set h v _
  unfold proxyDefect
  rw [received_setVoter, hs, hr]
  abel

/-- The difference of the producers when the record of a voter is written. -/
theorem producerDefect_setVoter {a : Name} {w : PoolVoter K} (h : pv.voters.find a = some w)
    (v : PoolVoter K) :
    (pv.setVoter a v).producerDefect = pv.producerDefect + w.ballot.spread - v.ballot.spread := by
  have hs : (pv.setVoter a v).voters.sum (fun _ v => v.ballot.spread) =
      pv.voters.sum (fun _ v => v.ballot.spread) - w.ballot.spread + v.ballot.spread :=
    Table.sum_set h v _
  have hv : (pv.setVoter a v).votes = pv.votes := rfl
  unfold producerDefect
  rw [hs, hv]
  abel

end SetVoter

/-! ## Moving votes between producers -/

/-- The votes of producers change by `d`, and the global sum with them. -/
structure VotesMoved (pv pv' : PoolVotes K) (d : Name → ℕ → K) : Prop where
  voters : pv'.voters = pv.voters
  shape : pv'.shape = pv.shape
  votes : pv'.votes = pv.votes + d
  total : pv'.totalDefect = pv.totalDefect

namespace VotesMoved

variable {pv} {pv₁ pv₂ : PoolVotes K} {d₁ d₂ : Name → ℕ → K}

theorem refl (pv : PoolVotes K) : VotesMoved pv pv 0 := ⟨rfl, rfl, by simp, rfl⟩

theorem trans (h₁ : VotesMoved pv pv₁ d₁) (h₂ : VotesMoved pv₁ pv₂ d₂) :
    VotesMoved pv pv₂ (d₁ + d₂) :=
  ⟨h₂.voters.trans h₁.voters, h₂.shape.trans h₁.shape,
    by rw [h₂.votes, h₁.votes, add_assoc], h₂.total.trans h₁.total⟩

theorem proxyDefect (h : VotesMoved pv pv₁ d₁) : pv₁.proxyDefect = pv.proxyDefect := by
  have hr : pv₁.received = pv.received := by
    funext a
    simp only [received, h.voters]
  simp only [PoolVotes.proxyDefect, hr, h.voters]

theorem producerDefect (h : VotesMoved pv pv₁ d₁) :
    pv₁.producerDefect = pv.producerDefect + d₁ := by
  simp only [PoolVotes.producerDefect, h.voters, h.votes]
  abel

/-- Writing the votes of one producer. -/
theorem single {acnt : Name} {prod : ProducerInfo K} {l : List K} {d : ℕ → K} (l' total : List K)
    (hp : pv.producers.find acnt = some prod) (hl : prod.poolVotes = some l)
    (hlen : l'.length = l.length) (hvec : vec l' = vec l + d)
    (hlen' : total.length = pv.totalVotes.length) (htotal : vec total = vec pv.totalVotes + d) :
    VotesMoved pv { pv with
      totalVotes := total
      producers := pv.producers.set acnt { prod with poolVotes := some l' } }
      (Pi.single acnt d) where
  voters := rfl
  shape := by
    have hprod : (fun p => ((pv.producers.set acnt { prod with poolVotes := some l' }).find p).map
        fun prod => (prod.poolVotes.map List.length, prod.isActive)) = pv.shape.producers := by
      funext p
      rw [Table.find_set]
      split_ifs with h
      · simp [PoolVotes.shape, h, hp, hl, hlen]
      · rfl
    unfold PoolVotes.shape at *
    dsimp only at *
    rw [hprod, hlen']
  votes := by
    funext p
    rw [Pi.add_apply, Pi.single_apply]
    unfold PoolVotes.votes
    dsimp only
    rw [Table.find_set]
    split_ifs with h
    · simp [h, hp, prodVotes, hl, hvec]
    · simp
  total := by
    unfold totalDefect
    dsimp only
    rw [Table.sum_set hp, htotal, prodVotes, prodVotes, hl, Option.elim_some, Option.elim_some,
      hvec]
    abel

end VotesMoved

section Producers

variable {pv} {n : ℕ} {acnt : Name} {deltas : List K}

omit [Field K] in
/-- A producer that is voted for has room for votes in every pool. -/
theorem exists_poolVotes {b : Bool} (hp : pv.shape.producers acnt = some (some n, b)) :
    ∃ prod l, pv.producers.find acnt = some prod ∧ prod.poolVotes = some l ∧ l.length = n := by
  simp only [shape, Option.map_eq_some_iff, Prod.mk.injEq] at hp
  obtain ⟨prod, hf, ⟨l, hl, rfl⟩, -⟩ := hp
  exact ⟨prod, l, hf, hl, rfl⟩

theorem addPoolVotes_eq_ok (hw : pv.shape.Wf n) (hd : deltas.length = n) {b : Bool}
    (hp : pv.shape.producers acnt = some (some n, b)) :
    ∃ pv', pv.addPoolVotes acnt deltas = .ok pv' ∧
      VotesMoved pv pv' (Pi.single acnt (vec deltas)) := by
  obtain ⟨prod, l, hf, hl, hlen⟩ := exists_poolVotes hp
  have htotal : pv.totalVotes.length = n := hw.total
  refine ⟨_, ?_, .single (List.zipWith (· + ·) l deltas)
    (List.zipWith (· + ·) pv.totalVotes deltas) hf hl ?_ (vec_add (hlen.trans hd.symm)) ?_
    (vec_add (htotal.trans hd.symm))⟩
  · simp [addPoolVotes, hf, hl, hlen, hd]
  · simp [hlen, hd]
  · simp [hd, htotal]

theorem subPoolVotes_eq_ok (hw : pv.shape.Wf n) (hd : deltas.length = n) {b : Bool}
    (hp : pv.shape.producers acnt = some (some n, b)) (text : String) :
    ∃ pv', pv.subPoolVotes acnt deltas text = .ok pv' ∧
      VotesMoved pv pv' (Pi.single acnt (-vec deltas)) := by
  obtain ⟨prod, l, hf, hl, hlen⟩ := exists_poolVotes hp
  have htotal : pv.totalVotes.length = n := hw.total
  refine ⟨_, ?_, .single (List.zipWith (· - ·) l deltas)
    (List.zipWith (· - ·) pv.totalVotes deltas) hf hl ?_
    ((vec_sub (hlen.trans hd.symm)).trans (sub_eq_add_neg _ _)) ?_
    ((vec_sub (htotal.trans hd.symm)).trans (sub_eq_add_neg _ _))⟩
  · simp [subPoolVotes, hf, hl, hlen, hd]
  · simp [hlen, hd]
  · simp [hd, htotal]

/-- The producers a proxy votes for get its new votes instead of its last ones. -/
theorem moveProducerVotes_eq_ok {last new : List K} (hl : last.length = n) (hn : new.length = n)
    {l : List Name} (hw : pv.shape.Wf n)
    (hp : ∀ p ∈ l, ∃ b, pv.shape.producers p = some (some n, b)) :
    ∃ pv', moveProducerVotes last new l pv = .ok pv' ∧
      VotesMoved pv pv' (l.map fun p => Pi.single p (vec new - vec last)).sum := by
  induction l generalizing pv with
  | nil => exact ⟨pv, rfl, .refl pv⟩
  | cons p l ih =>
    obtain ⟨b, hb⟩ := hp p List.mem_cons_self
    obtain ⟨prod, -, hf, -, -⟩ := exists_poolVotes hb
    obtain ⟨pv₁, h₁, hm₁⟩ := subPoolVotes_eq_ok hw hl hb "bug: producer lost its pool"
    obtain ⟨pv₂, h₂, hm₂⟩ := addPoolVotes_eq_ok (hm₁.shape ▸ hw) hn (hm₁.shape ▸ hb)
    have hm := hm₁.trans hm₂
    obtain ⟨pv₃, h₃, hm₃⟩ := ih (hm.shape ▸ hw) fun q hq =>
      hm.shape ▸ hp q (List.mem_cons_of_mem _ hq)
    refine ⟨pv₃, ?_, ?_⟩
    · simp only [moveProducerVotes, bind_eq_ok, require_eq_ok]
      exact ⟨prod, hf, pv₁, h₁, pv₂, h₂, h₃⟩
    · have hsum := hm.trans hm₃
      rw [← Pi.single_add, neg_add_eq_sub] at hsum
      simpa only [List.map_cons, List.sum_cons] using hsum

end Producers

/-! ## Propagation through the proxies -/

section Propagation

variable {pv} {pv' pv₁ pv₂ : PoolVotes K} {n : ℕ}

/-- The differences between the tallies and the ballots stay as they are. -/
structure SameDefects (pv pv' : PoolVotes K) : Prop where
  proxy : pv'.proxyDefect = pv.proxyDefect
  producer : pv'.producerDefect = pv.producerDefect
  total : pv'.totalDefect = pv.totalDefect

omit [Field K] in
theorem shape_voters {a : Name} {v : PoolVoter K} (h : pv.voters.find a = some v) :
    pv.shape.voters a = some (voterShape v) := by
  simp [shape, h]

omit [Field K] in
theorem length_poolVotes [Field K] (hw : pv.shape.Wf n) {a : Name} {v : PoolVoter K}
    (h : pv.voters.find a = some v) : v.poolVotes.length = n := by
  have ho : v.ownedShares.length = n := hw.owned a _ (shape_voters h)
  have hp : v.proxiedShares.length = n := hw.proxied a _ (shape_voters h)
  unfold PoolVoter.poolVotes
  split_ifs
  · simp [ho, hp]
  · exact ho

/-- The last write of a propagation: the record of the voter becomes current. -/
theorem setLast {a : Name} {v : PoolVoter K} (h : pv.voters.find a = some v) {new : List K}
    (hlen : new.length = v.lastVotes.length) :
    (pv.setVoter a { v with lastVotes := new }).shape = pv.shape ∧
      (pv.setVoter a { v with lastVotes := new }).proxyDefect = pv.proxyDefect -
        (⟨v.ballot.proxy, v.producers, vec new - vec v.lastVotes⟩ : Ballot Name (ℕ → K)).share ∧
      (pv.setVoter a { v with lastVotes := new }).producerDefect = pv.producerDefect -
        (⟨v.ballot.proxy, v.producers, vec new - vec v.lastVotes⟩ : Ballot Name (ℕ → K)).spread ∧
      (pv.setVoter a { v with lastVotes := new }).totalDefect = pv.totalDefect := by
  have hb : ({ v with lastVotes := new } : PoolVoter K).ballot =
      ⟨v.ballot.proxy, v.producers, vec v.lastVotes + (vec new - vec v.lastVotes)⟩ := by
    rw [add_sub_cancel]
    rfl
  refine ⟨shape_setVoter h (by simp [voterShape, hlen]), ?_, ?_, rfl⟩
  · rw [proxyDefect_setVoter h, hb, Ballot.share_add, sub_self, Pi.single_zero]
    change _ + 0 + v.ballot.share - (v.ballot.share + _) = _
    abel
  · rw [producerDefect_setVoter h, hb, Ballot.spread_add]
    change _ + v.ballot.spread - (v.ballot.spread + _) = _
    abel

omit [Field K] in
theorem proxyOf_shape {a : Name} {v : PoolVoter K} (h : pv.voters.find a = some v) :
    pv.shape.proxyOf a = if v.proxy = .none then none else some v.proxy := by
  simp [Shape.proxyOf, shape_voters h, voterShape]

/-- Moving the votes received by a proxy: their difference moves with them. -/
theorem moveProxied {q : Name} {p : PoolVoter K} (h : pv.voters.find q = some p)
    {proxied : List K} (hlen : proxied.length = p.proxiedShares.length) :
    (pv.setVoter q { p with proxiedShares := proxied }).shape = pv.shape ∧
      (pv.setVoter q { p with proxiedShares := proxied }).proxyDefect =
        pv.proxyDefect + Pi.single q (vec proxied - vec p.proxiedShares) ∧
      (pv.setVoter q { p with proxiedShares := proxied }).producerDefect = pv.producerDefect ∧
      (pv.setVoter q { p with proxiedShares := proxied }).totalDefect = pv.totalDefect := by
  refine ⟨shape_setVoter h (by simp [voterShape, hlen]), ?_, ?_, rfl⟩
  · rw [proxyDefect_setVoter h]
    exact add_sub_cancel_right _ _
  · rw [producerDefect_setVoter h]
    exact add_sub_cancel_right _ _

/-- **A propagation succeeds and keeps the differences.** The records on the way, and those that
were current before, are current afterwards; the records above it stay as they are. -/
theorem updatePoolProxy_spec {rank : Name → ℕ} {fuel : ℕ} {a : Name} {v : PoolVoter K}
    (hr : Ranked pv.shape.proxyOf rank) (hw : pv.shape.Wf n) (ha : pv.voters.find a = some v)
    (hf : pv.voters.below rank (rank a) < fuel) :
    ∃ pv', updatePoolProxy fuel pv a = .ok pv' ∧ pv'.shape = pv.shape ∧ SameDefects pv pv' ∧
      (∀ x, pv.Current x ∨ x = a → pv'.Current x) ∧
      ∀ x, x ≠ a → rank a ≤ rank x → pv'.voters.find x = pv.voters.find x := by
  induction fuel generalizing pv a v with
  | zero => omega
  | succ fuel ih =>
    have hlast : v.lastVotes.length = n := hw.last a _ (shape_voters ha)
    have hnew : v.poolVotes.length = n := length_poolVotes hw ha
    have hproxy : v.proxy = .none ∨ v.isProxy = false := by
      cases h : v.isProxy with
      | false => exact .inr rfl
      | true => exact .inl (hw.isProxy a _ (shape_voters ha) h)
    -- the last write makes the record of `a` current and leaves the others
    have current {pv₁ : PoolVotes K} (x : Name) (hx : x ≠ a → pv₁.Current x) :
        (pv₁.setVoter a { v with lastVotes := v.poolVotes }).Current x := by
      intro u hu
      rw [find_setVoter] at hu
      split_ifs at hu with hxa
      · cases hu
        rfl
      · exact hx hxa u hu
    by_cases hp : v.proxy = .none
    · have hprods : ∀ p ∈ v.producers, ∃ b, pv.shape.producers p = some (some n, b) :=
        hw.voted a _ (shape_voters ha) hp
      obtain ⟨pv₁, hm, hmoved⟩ := moveProducerVotes_eq_ok hlast hnew hw hprods
      have ha₁ : pv₁.voters.find a = some v := by rw [hmoved.voters, ha]
      obtain ⟨hs, hd, he, ht⟩ := setLast ha₁ (hnew.trans hlast.symm)
      refine ⟨_, ?_, hs.trans hmoved.shape, ⟨?_, ?_, ht.trans hmoved.total⟩, ?_, ?_⟩
      · simp [updatePoolProxy, ha, hp, hm, ha₁]
      · rw [hd, hmoved.proxyDefect]
        simp [Ballot.share, PoolVoter.ballot, hp]
      · rw [he, hmoved.producerDefect]
        simp [Ballot.spread, PoolVoter.ballot, hp]
      · refine fun x hx => current x fun hxa u hu => ?_
        rw [hmoved.voters] at hu
        exact hx.resolve_right hxa u hu
      · intro x hxa _
        rw [find_setVoter, if_neg hxa, hmoved.voters]
    · obtain ⟨p, hq⟩ : ∃ p, pv.voters.find v.proxy = some p := by
        have := hw.proxies a _ (shape_voters ha) hp
        simpa [shape, voterShape, Option.isSome_iff_exists] using this
      have hqlen : p.proxiedShares.length = n := hw.proxied _ _ (shape_voters hq)
      have hrank : rank v.proxy < rank a := hr a v.proxy (by simp [proxyOf_shape ha, hp])
      have hqa : v.proxy ≠ a := by
        intro h
        rw [h] at hrank
        exact lt_irrefl _ hrank
      let new := List.zipWith (· + ·) (List.zipWith (· - ·) p.proxiedShares v.lastVotes) v.poolVotes
      have hnewlen : new.length = p.proxiedShares.length := by simp [new, hqlen, hlast, hnew]
      have hvec : vec new = vec p.proxiedShares + (vec v.poolVotes - vec v.lastVotes) := by
        rw [vec_add (by simp [hqlen, hlast, hnew]), vec_sub (hqlen.trans hlast.symm)]
        abel
      obtain ⟨hs₁, hd₁, he₁, ht₁⟩ := moveProxied hq hnewlen
      set pv₁ := pv.setVoter v.proxy { p with proxiedShares := new }
      have hr₁ : Ranked pv₁.shape.proxyOf rank := by rwa [hs₁]
      have hw₁ : pv₁.shape.Wf n := by rwa [hs₁]
      have hq₁ : pv₁.voters.find v.proxy = some { p with proxiedShares := new } := by
        rw [find_setVoter, if_pos rfl]
      have hf₁ : pv₁.voters.below rank (rank v.proxy) < fuel := by
        have := Table.below_lt hq hrank
        have : pv₁.voters.below rank (rank v.proxy) = pv.voters.below rank (rank v.proxy) :=
          Table.below_set hq _ rank _
        omega
      obtain ⟨pv₂, h₂, hs₂, hsame, hcur, hrest⟩ := ih hr₁ hw₁ hq₁ hf₁
      have ha₂ : pv₂.voters.find a = some v := by
        rw [hrest a hqa.symm hrank.le, find_setVoter, if_neg hqa.symm, ha]
      obtain ⟨hs, hd, he, ht⟩ := setLast ha₂ (hnew.trans hlast.symm)
      refine ⟨_, ?_, hs.trans (hs₂.trans hs₁), ⟨?_, ?_, ht.trans (hsame.total.trans ht₁)⟩,
        ?_, ?_⟩
      · have hpr : v.isProxy = false := hproxy.resolve_left hp
        unfold updatePoolProxy
        refine bind_eq_ok.mpr ⟨v, require_eq_ok.mpr ha, bind_eq_ok.mpr ⟨(), check_of (.inr hpr),
          bind_eq_ok.mpr ⟨pv₂, ?_, bind_eq_ok.mpr ⟨v, require_eq_ok.mpr ha₂, rfl⟩⟩⟩⟩
        rw [if_pos hp]
        simp only [subProxiedShares, addProxiedShares, bind_eq_ok, check_eq_ok, exists_const,
          require_eq_ok, pure_eq_ok]
        exact ⟨p, hq, _, ⟨by omega, rfl⟩, _, ⟨by simp [hqlen, hlast, hnew], rfl⟩, h₂⟩
      · rw [hd, hsame.proxy, hd₁, hvec]
        simp [Ballot.share, PoolVoter.ballot, hp]
      · rw [he, hsame.producer, he₁]
        simp [Ballot.spread, PoolVoter.ballot, hp]
      · refine fun x hx => current x fun hxa => hcur x ?_
        by_cases hxq : x = v.proxy
        · exact .inr hxq
        · refine .inl fun u hu => hx.resolve_right hxa u ?_
          rwa [find_setVoter, if_neg hxq] at hu
      · intro x hxa hx
        have hxq : x ≠ v.proxy := by
          rintro rfl
          omega
        rw [find_setVoter, if_neg hxa, hrest x hxq (hrank.le.trans hx), find_setVoter, if_neg hxq]

/-- The votes received by a proxy change, and the proxy passes the change on. -/
theorem updateProxy_moveProxied {rank : Name → ℕ} {q : Name} {p : PoolVoter K} (proxied : List K)
    (hr : Ranked pv.shape.proxyOf rank) (hw : pv.shape.Wf n) (hq : pv.voters.find q = some p)
    (hlen : proxied.length = p.proxiedShares.length) :
    ∃ pv', (pv.setVoter q { p with proxiedShares := proxied }).updateProxy q = .ok pv' ∧
      pv'.shape = pv.shape ∧
      pv'.proxyDefect = pv.proxyDefect + Pi.single q (vec proxied - vec p.proxiedShares) ∧
      pv'.producerDefect = pv.producerDefect ∧ pv'.totalDefect = pv.totalDefect ∧
      (∀ x, pv.Current x → pv'.Current x) ∧
      ∀ x, x ≠ q → rank q ≤ rank x → pv'.voters.find x = pv.voters.find x := by
  obtain ⟨hs₁, hd₁, he₁, ht₁⟩ := moveProxied hq hlen
  set pv₁ := pv.setVoter q { p with proxiedShares := proxied }
  have hr₁ : Ranked pv₁.shape.proxyOf rank := by rwa [hs₁]
  have hw₁ : pv₁.shape.Wf n := by rwa [hs₁]
  have hq₁ : pv₁.voters.find q = some { p with proxiedShares := proxied } := by
    rw [find_setVoter, if_pos rfl]
  obtain ⟨pv', h, hs, hsame, hcur, hrest⟩ :=
    updatePoolProxy_spec hr₁ hw₁ hq₁ (Nat.lt_succ_of_le (Table.below_le _ _ _))
  refine ⟨pv', h, hs.trans hs₁, hsame.proxy.trans hd₁, hsame.producer.trans he₁,
    hsame.total.trans ht₁, fun x hx => hcur x ?_, fun x hxq hx => ?_⟩
  · by_cases hxq : x = q
    · exact .inr hxq
    · refine .inl fun u hu => hx u ?_
      rwa [find_setVoter, if_neg hxq] at hu
  · rw [hrest x hxq hx, find_setVoter, if_neg hxq]

/-- The last votes of a voter are taken back from its proxy. -/
theorem undoProxy_spec {a : Name} {v : PoolVoter K} (hw : pv.shape.Wf n)
    (ha : pv.voters.find a = some v) :
    ∃ pv', pv.undoProxy v = .ok pv' ∧ pv'.shape = pv.shape ∧
      pv'.proxyDefect = pv.proxyDefect - v.ballot.share ∧
      pv'.producerDefect = pv.producerDefect ∧ pv'.totalDefect = pv.totalDefect ∧
      (∀ x, pv.Current x → pv'.Current x) ∧ pv'.voters.find a = some v := by
  by_cases hp : v.proxy = .none
  · refine ⟨pv, by simp [undoProxy, hp, pure, Except.pure], rfl, ?_, rfl, rfl, fun _ h => h, ha⟩
    simp [Ballot.share, PoolVoter.ballot, hp]
  · obtain ⟨p, hq⟩ : ∃ p, pv.voters.find v.proxy = some p := by
      have := hw.proxies a _ (shape_voters ha) hp
      simpa [shape, voterShape, Option.isSome_iff_exists] using this
    have hqlen : p.proxiedShares.length = n := hw.proxied _ _ (shape_voters hq)
    have hlast : v.lastVotes.length = n := hw.last a _ (shape_voters ha)
    obtain ⟨rank, hr⟩ := hw.acyclic
    have hrank : rank v.proxy < rank a := hr a v.proxy (by simp [proxyOf_shape ha, hp])
    have hqa : a ≠ v.proxy := by
      intro h
      rw [← h] at hrank
      exact lt_irrefl _ hrank
    obtain ⟨pv', h, hs, hd, he, ht, hcur, hrest⟩ := updateProxy_moveProxied
      (List.zipWith (· - ·) p.proxiedShares v.lastVotes) hr hw hq (by simp [hqlen, hlast])
    refine ⟨pv', ?_, hs, ?_, he, ht, hcur, by rw [hrest a hqa hrank.le, ha]⟩
    · unfold undoProxy
      rw [if_pos hp]
      simp only [subProxiedShares, bind_eq_ok, check_eq_ok, exists_const, require_eq_ok,
        pure_eq_ok]
      exact ⟨p, hq, _, ⟨by omega, rfl⟩, h⟩
    · rw [hd, vec_sub (hqlen.trans hlast.symm)]
      simp [Ballot.share, PoolVoter.ballot, hp, sub_eq_add_neg, Pi.single_neg]

/-- Votes are given to a proxy, unless there is no such proxy. -/
theorem castProxy_spec {a proxy : Name} {v : PoolVoter K} {new : List K} {voting : Bool}
    (hw : pv.shape.Wf n) (ha : pv.voters.find a = some v) (hnew : new.length = n)
    (hproxy : proxy ≠ .none → a ≠ proxy) (hv : voting = true ∨ v.proxy = proxy) :
    pv.castProxy proxy new voting = .error "proxy not found" ∨
    ∃ pv', pv.castProxy proxy new voting = .ok pv' ∧ pv'.shape = pv.shape ∧
      (∀ l, pv'.proxyDefect = pv.proxyDefect + (⟨if proxy = .none then none else some proxy, l,
        vec new⟩ : Ballot Name (ℕ → K)).share) ∧
      pv'.producerDefect = pv.producerDefect ∧ pv'.totalDefect = pv.totalDefect ∧
      (∀ x, pv.Current x → pv'.Current x) ∧ pv'.voters.find a = some v ∧
      (proxy = .none ∨ (pv.shape.voters proxy).isSome ∧
        (pv.shape.proxyOf proxy = none ∨ pv.shape.proxyOf a = some proxy)) := by
  by_cases hp : proxy = .none
  · refine .inr ⟨pv, by simp [castProxy, hp, pure, Except.pure], rfl, fun l => ?_, rfl, rfl,
      fun _ h => h, ha, .inl hp⟩
    simp [Ballot.share, hp]
  · have hcast : pv.castProxy proxy new voting = (do
        let newProxy ← require (pv.voters.find proxy) "proxy not found"
        check (voting = false ∨ newProxy.isProxy = true) "proxy not found"
        let newProxy ← addProxiedShares newProxy new "bug: proxy lost its pool"
        (pv.setVoter proxy newProxy).updateProxy proxy) := if_pos hp
    rw [hcast]
    cases hq : pv.voters.find proxy with
    | none => exact .inl rfl
    | some p =>
      by_cases hvp : voting = false ∨ p.isProxy = true
      · have hqlen : p.proxiedShares.length = n := hw.proxied _ _ (shape_voters hq)
        -- a proxy just voted for uses none, and the proxy of a recast is the old one
        have hup : pv.shape.proxyOf proxy = none ∨ pv.shape.proxyOf a = some proxy := by
          rcases hv with hv | hv
          · have hpr : p.isProxy = true := hvp.resolve_left (by simp [hv])
            have hnone : p.proxy = .none := hw.isProxy _ _ (shape_voters hq) hpr
            exact .inl (by simp [proxyOf_shape hq, hnone])
          · exact .inr (by simp [proxyOf_shape ha, hv, hp])
        obtain ⟨rank, hr, hrank⟩ := hw.acyclic.exists_rank hup
        obtain ⟨pv', h, hs, hd, he, ht, hcur, hrest⟩ := updateProxy_moveProxied
          (List.zipWith (· + ·) p.proxiedShares new) hr hw hq (by simp [hqlen, hnew])
        refine .inr ⟨pv', ?_, hs, fun l => ?_, he, ht, hcur, by rw [hrest a (hproxy hp) hrank, ha],
          .inr ⟨by simp [shape_voters hq], hup⟩⟩
        · simp only [addProxiedShares, bind_eq_ok, check_eq_ok, exists_const, require_eq_ok,
            pure_eq_ok]
          exact ⟨p, rfl, hvp, _, ⟨by omega, rfl⟩, h⟩
        · rw [hd, vec_add (hqlen.trans hnew.symm)]
          simp [Ballot.share, hp]
      · refine .inl ?_
        simp only [bind_eq_error, check_eq_error]
        exact .inr ⟨p, rfl, .inl ⟨hvp, trivial⟩⟩

end Propagation

end PoolVotes

end EosioSystem
