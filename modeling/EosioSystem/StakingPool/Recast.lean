import EosioSystem.StakingPool.Tallies

/-!
# Casting pool votes

A voter's new vote takes its last votes back from the old proxy or producers and gives the votes
its shares give now to the new ones. Between the change of a voter's shares and its next vote the
voter's record is stale; all others are current.

## Main definitions

* `PoolVotes.poolVoteBugs`: the errors of checks that cannot fail
* `PoolVotes.Tallied`: all tallies are exact, and the votes are current but for some stale voters

## Main results

* `Tallied.setVoter`: a change of a voter's shares leaves a stale voter
* `Tallied.updateProxy`, `Tallied.updatePoolVotes`: **the voter is current again**, and no check
  that says `bug` fails
-/

namespace EosioSystem

open Checked

namespace PoolVotes

/-- The errors that would show a defect of the tallies, and that of a recursion too deep. -/
def poolVoteBugs : List Error :=
  ["bug: old proxy not found", "bug: proxy lost its pool", "bug: producer lost its pool",
    "bug: producer not found", "bug: proxy not found", "call depth exceeded"]

/-- An error about a producer is none of them. -/
theorem producerError_notMem (p : Name) (text : String) :
    VoteState.producerError p text ∉ poolVoteBugs := by
  have hp : (VoteState.producerError p text).toList.head? = some 'p' := by
    simp [VoteState.producerError, String.toList_append]
  have hb : ∀ e ∈ poolVoteBugs, e.toList.head? ≠ some 'p' := by decide
  exact fun h => hb _ h hp

variable {K : Type} [Field K] {pv : PoolVotes K} {n : ℕ}

/-! ## The producers of a vote -/

/-- What the changes of a vote give to the producers. -/
def changeVotes (last new : List K) (l : List (Name × Bool × Bool)) : Name → ℕ → K :=
  (l.map fun c => Pi.single c.1 (if c.2.2 then vec new else 0) -
    Pi.single c.1 (if c.2.1 then vec last else 0)).sum

/-- Taking the last votes back from a producer that is voted for. -/
theorem subIf_eq_ok {acnt : Name} {last : List K} {old : Bool} (hl : last.length = n)
    (hw : pv.shape.Wf n) (hold : old = true → ∃ b, pv.shape.producers acnt = some (some n, b)) :
    ∃ pv', (if old then pv.subPoolVotes acnt last "bug: producer lost its pool" else pure pv) =
        .ok pv' ∧ VotesMoved pv pv' (-Pi.single acnt (if old then vec last else 0)) := by
  cases old with
  | false => exact ⟨pv, rfl, by simpa using VotesMoved.refl pv⟩
  | true =>
    obtain ⟨b, hb⟩ := hold rfl
    obtain ⟨pv', h, hm⟩ := subPoolVotes_eq_ok hw hl hb "bug: producer lost its pool"
    exact ⟨pv', h, by simpa [Pi.single_neg] using hm⟩

/-- A producer that gets votes has room for them in every pool. -/
theorem exists_of_addPoolVotes {acnt : Name} {new : List K} (hn : new.length = n)
    {pv' : PoolVotes K} (h : pv.addPoolVotes acnt new = .ok pv') :
    ∃ b, pv.shape.producers acnt = some (some n, b) := by
  simp only [addPoolVotes, bind_eq_ok, require_eq_ok, check_eq_ok, exists_const] at h
  obtain ⟨prod, hp, l, hl, hlen, -⟩ := h
  exact ⟨prod.isActive, by simp [shape, hp, hl, hlen, hn]⟩

theorem addPoolVotes_avoids (acnt : Name) (new : List K) :
    Avoids poolVoteBugs (pv.addPoolVotes acnt new) := by
  have htext := producerError_notMem acnt " has not upgraded to support pool votes"
  refine .bind (.require (by decide)) fun prod _ => .bind (.require htext) fun votes _ => ?_
  exact .bind (.check (.inl htext)) fun _ _ => .pure _

/-- Giving the new votes to a producer. -/
theorem addIf_eq_ok {acnt : Name} {new : List K} {isNew : Bool} (hn : new.length = n)
    (hw : pv.shape.Wf n) {pv' : PoolVotes K}
    (h : (if isNew then pv.addPoolVotes acnt new else pure pv) = .ok pv') :
    VotesMoved pv pv' (Pi.single acnt (if isNew then vec new else 0)) ∧
      (isNew = true → ∃ b, pv.shape.producers acnt = some (some n, b)) := by
  cases isNew with
  | false =>
    cases h
    exact ⟨by simpa using VotesMoved.refl pv, by simp⟩
  | true =>
    obtain ⟨b, hb⟩ := exists_of_addPoolVotes hn h
    obtain ⟨pv₁, h₁, hm⟩ := addPoolVotes_eq_ok hw hn hb
    obtain rfl : pv₁ = pv' := Except.ok.inj (h₁.symm.trans h)
    exact ⟨hm, fun _ => ⟨b, hb⟩⟩

/-- All changes of a vote. -/
theorem applyChanges_spec {last new : List K} {voting : Bool} (hl : last.length = n)
    (hn : new.length = n) {l : List (Name × Bool × Bool)} (hw : pv.shape.Wf n)
    (hold : ∀ c ∈ l, c.2.1 = true → ∃ b, pv.shape.producers c.1 = some (some n, b)) :
    Yields poolVoteBugs (fun pv' => VotesMoved pv pv' (changeVotes last new l) ∧
      ∀ c ∈ l, c.2.2 = true → ∃ b, pv.shape.producers c.1 = some (some n, b))
      (applyChanges voting last new l pv) := by
  induction l generalizing pv with
  | nil =>
    refine ⟨.pure _, fun pv' h => ?_⟩
    cases h
    exact ⟨.refl pv, by simp⟩
  | cons c l ih =>
    obtain ⟨acnt, old, isNew⟩ := c
    have hold' : ∀ c ∈ l, c.2.1 = true → ∃ b, pv.shape.producers c.1 = some (some n, b) :=
      fun c hc => hold c (List.mem_cons_of_mem _ hc)
    have hacnt : old = true → ∃ b, pv.shape.producers acnt = some (some n, b) :=
      hold (acnt, old, isNew) List.mem_cons_self
    cases hp : pv.producers.find acnt with
    | none =>
      -- a producer without a record has no votes to take back
      have hold₀ : old = false := by
        cases old with
        | false => rfl
        | true =>
          obtain ⟨b, hb⟩ := hacnt rfl
          simp [shape, hp] at hb
      obtain ⟨hav, hok⟩ := ih hw hold'
      simp only [applyChanges, hp]
      refine ⟨.bind (.check (.inl (producerError_notMem _ _))) fun _ _ => hav, fun pv' h => ?_⟩
      obtain ⟨hnew, h⟩ := check_bind_eq_ok.mp h
      obtain ⟨hm, hall⟩ := hok pv' h
      refine ⟨?_, fun c hc => ?_⟩
      · simpa [changeVotes, hold₀, hnew] using hm
      · rcases List.mem_cons.mp hc with rfl | hc
        · simp [hnew]
        · exact hall c hc
    | some prod =>
      obtain ⟨pv₁, h₁, hm₁⟩ := subIf_eq_ok hl hw hacnt
      have hw₁ : pv₁.shape.Wf n := hm₁.shape ▸ hw
      simp only [applyChanges, hp]
      refine ⟨.bind (.check (.inl (producerError_notMem _ _))) fun _ _ => .bind (.of_ok h₁)
        fun pv₁' h₁' => .bind ?_ fun pv₂ h₂ => ?_, fun pv' h => ?_⟩
      · cases isNew
        · exact .pure _
        · exact addPoolVotes_avoids _ _
      · obtain rfl : pv₁ = pv₁' := Except.ok.inj (h₁.symm.trans h₁')
        have hm₂ := (addIf_eq_ok hn hw₁ h₂).1
        have hsh : pv₂.shape = pv.shape := hm₂.shape.trans hm₁.shape
        exact (ih (hsh ▸ hw) (by rwa [hsh])).1
      · obtain ⟨-, h⟩ := check_bind_eq_ok.mp h
        obtain ⟨pv₁', h₁', h⟩ := bind_eq_ok.mp h
        obtain rfl : pv₁ = pv₁' := Except.ok.inj (h₁.symm.trans h₁')
        obtain ⟨pv₂, h₂, h⟩ := bind_eq_ok.mp h
        obtain ⟨hm₂, hnew⟩ := addIf_eq_ok hn hw₁ h₂
        have hsh : pv₂.shape = pv.shape := hm₂.shape.trans hm₁.shape
        obtain ⟨hm₃, hall⟩ := (ih (hsh ▸ hw) (by rwa [hsh])).2 pv' h
        refine ⟨?_, fun c hc hcnew => ?_⟩
        · have hm := (hm₁.trans hm₂).trans hm₃
          rw [neg_add_eq_sub] at hm
          simpa only [changeVotes, List.map_cons, List.sum_cons] using hm
        · rcases List.mem_cons.mp hc with rfl | hc
          · obtain ⟨b, hb⟩ := hnew hcnew
            exact ⟨b, hm₁.shape ▸ hb⟩
          · rw [← hsh]
            exact hall c hc hcnew

theorem mem_producerChanges {old new : List Name} {c : Name × Bool × Bool} :
    c ∈ producerChanges old new ↔
      (c.1 ∈ old ∨ c.1 ∈ new) ∧ c.2.1 = decide (c.1 ∈ old) ∧ c.2.2 = decide (c.1 ∈ new) := by
  obtain ⟨p, o, w⟩ := c
  simp only [producerChanges, List.mem_map, List.mem_insertionSort, List.mem_dedup,
    List.mem_append, Prod.mk.injEq]
  constructor
  · rintro ⟨q, hq, rfl, rfl, rfl⟩
    exact ⟨hq, rfl, rfl⟩
  · rintro ⟨hq, ho, hw⟩
    exact ⟨p, hq, rfl, ho.symm, hw.symm⟩

/-- Together the changes give the new votes to the new producers and take the last votes from
the old ones. -/
theorem changeVotes_producerChanges {old new : List Name} (hold : old.Nodup) (hnew : new.Nodup)
    (last votes : List K) :
    changeVotes last votes (producerChanges old new) =
      (new.map fun p => Pi.single p (vec votes)).sum -
        (old.map fun p => Pi.single p (vec last)).sum := by
  let l := (old ++ new).dedup.insertionSort fun a b => a.value ≤ b.value
  have hl : l.Nodup := (List.perm_insertionSort _ _).nodup_iff.mpr (List.nodup_dedup _)
  have hmem : ∀ p, p ∈ l ↔ p ∈ old ∨ p ∈ new := by simp [l]
  have hite (m : List Name) (w : ℕ → K) :
      (fun p => (Pi.single p (if p ∈ m then w else 0) : Name → ℕ → K)) =
        fun p => if p ∈ m then Pi.single p w else 0 := by
    funext p
    split_ifs <;> simp
  calc changeVotes last votes (producerChanges old new)
      = (l.map fun p => (Pi.single p (if p ∈ new then vec votes else 0) : Name → ℕ → K) -
          Pi.single p (if p ∈ old then vec last else 0)).sum := by
        simp [changeVotes, producerChanges, l, List.map_map, Function.comp_def]
    _ = (l.map fun p => (Pi.single p (if p ∈ new then vec votes else 0) : Name → ℕ → K)).sum -
          (l.map fun p => Pi.single p (if p ∈ old then vec last else 0)).sum := by
        simpa only [Multiset.map_coe, Multiset.sum_coe] using Multiset.sum_map_sub (m := (l :
          Multiset Name))
    _ = _ := by
        rw [hite new, hite old, sum_map_ite_mem hl hnew (fun p hp => (hmem p).mpr (.inr hp)),
          sum_map_ite_mem hl hold (fun p hp => (hmem p).mpr (.inl hp))]

/-! ## Exact tallies -/

omit [Field K] in
/-- A voter's record may be written if it fits the others. -/
theorem Shape.Wf.setVoter {a : Name} {v : PoolVoter K} (hw : pv.shape.Wf n)
    (ho : v.ownedShares.length = n) (hp : v.proxiedShares.length = n)
    (hl : v.lastVotes.length = n) (hd : v.producers.Nodup)
    (hi : v.isProxy = true → v.proxy = .none)
    (hx : v.proxy ≠ .none → (pv.shape.voters v.proxy).isSome)
    (hv : v.proxy = .none → ∀ p ∈ v.producers, ∃ b, pv.shape.producers p = some (some n, b))
    (hc : Acyclic (pv.setVoter a v).shape.proxyOf) : (pv.setVoter a v).shape.Wf n := by
  have hrow : ∀ x u, (pv.setVoter a v).shape.voters x = some u →
      u = voterShape v ∨ pv.shape.voters x = some u := by
    intro x u hu
    simp only [shape, find_setVoter] at hu
    split_ifs at hu
    · exact .inl (Option.some.inj hu).symm
    · exact .inr hu
  have hsome : ∀ x, (pv.shape.voters x).isSome → ((pv.setVoter a v).shape.voters x).isSome := by
    intro x hx
    simp only [shape, find_setVoter, Option.isSome_map] at hx ⊢
    split_ifs
    · rfl
    · exact hx
  refine ⟨fun x u hu => ?_, fun x u hu => ?_, fun x u hu => ?_, fun x u hu => ?_,
    fun x u hu => ?_, fun x u hu => ?_, fun x u hu => ?_, hw.votes, hw.total, hc⟩
  all_goals rcases hrow x u hu with rfl | hu'
  · exact ho
  · exact hw.owned x u hu'
  · exact hp
  · exact hw.proxied x u hu'
  · exact hl
  · exact hw.last x u hu'
  · exact hd
  · exact hw.nodup x u hu'
  · exact hi
  · exact hw.isProxy x u hu'
  · exact fun h => hsome _ (hx h)
  · exact fun h => hsome _ (hw.proxies x u hu' h)
  · exact hv
  · exact hw.voted x u hu'

/-- **The tallies of the pool votes are exact**, and the last votes of all but some stale voters
are those their shares give. -/
structure Tallied (n : ℕ) (stale : Name → Prop) (pv : PoolVotes K) : Prop where
  wf : pv.shape.Wf n
  proxy : pv.proxyDefect = 0
  producer : pv.producerDefect = 0
  total : pv.totalDefect = 0
  current : ∀ x, ¬stale x → pv.Current x

namespace Tallied

variable {stale : Name → Prop}

/-- Before the first vote all tallies are zero. -/
theorem start (hv : pv.voters = .empty)
    (hp : ∀ p prod, pv.producers.find p = some prod → prod.poolVotes = none)
    (ht : pv.totalVotes = List.replicate n 0) : pv.Tallied n stale := by
  have hnone : ∀ x, pv.shape.voters x = none := by simp [shape, hv]
  have hprod : ∀ p m b, pv.shape.producers p ≠ some (some m, b) := by
    intro p m b h
    simp only [shape, Option.map_eq_some_iff, Prod.mk.injEq] at h
    obtain ⟨prod, hf, ⟨l, hl, -⟩, -⟩ := h
    simp [hp p prod hf] at hl
  have hvotes : pv.votes = 0 := by
    funext p
    unfold votes prodVotes
    cases hf : pv.producers.find p with
    | none => rfl
    | some prod => simp [hp p prod hf]
  refine ⟨⟨?_, ?_, ?_, ?_, ?_, ?_, ?_, fun p m b h => absurd h (hprod p m b), by simp [shape, ht],
    ⟨fun _ => 0, fun x y h => ?_⟩⟩, ?_, ?_, ?_, fun x _ v hf => ?_⟩
  any_goals
    intro x u hu
    cases (hnone x).symm.trans hu
  · simp [Shape.proxyOf, hnone] at h
  · funext q
    simp [proxyDefect, received, hv]
  · simp [producerDefect, hvotes, hv]
  · have hsum : pv.producers.sum (fun _ prod => prodVotes prod) = 0 :=
      Table.sum_eq_zero fun p prod hf => by simp [prodVotes, hp p prod hf]
    rw [totalDefect, hsum, ht, vec_replicate, sub_zero]
  · simp [hv] at hf

theorem mono {stale' : Name → Prop} (h : pv.Tallied n stale) (hs : ∀ x, stale x → stale' x) :
    pv.Tallied n stale' :=
  ⟨h.wf, h.proxy, h.producer, h.total, fun x hx => h.current x fun hs' => hx (hs x hs')⟩

/-- A record may be written that changes neither the vote nor the votes received: its voter may
be stale then. -/
theorem setVoter_of_find (h : pv.Tallied n stale) {a : Name} {w v : PoolVoter K}
    (hf : pv.voters.find a = some w) (hp : v.proxiedShares = w.proxiedShares)
    (hl : v.lastVotes = w.lastVotes) (hx : v.proxy = w.proxy) (hd : v.producers = w.producers)
    (ho : v.ownedShares.length = n) (hi : v.isProxy = true → v.proxy = .none) :
    (pv.setVoter a v).Tallied n fun x => stale x ∨ x = a := by
  have hb : v.ballot = w.ballot := by
    simp only [PoolVoter.ballot, hl, hx, hd]
  have hw : pv.shape.voters a = some (voterShape w) := shape_voters hf
  have hproxyOf : (pv.setVoter a v).shape.proxyOf = pv.shape.proxyOf := by
    funext x
    simp only [Shape.proxyOf, shape, find_setVoter]
    split_ifs with hxa
    · simp [hxa, hf, voterShape, hx]
    · rfl
  refine ⟨h.wf.setVoter ho (hp ▸ h.wf.proxied a _ hw) (hl ▸ h.wf.last a _ hw)
    (hd ▸ h.wf.nodup a _ hw) hi (hx ▸ h.wf.proxies a _ hw) ?_ (hproxyOf ▸ h.wf.acyclic), ?_, ?_,
    h.total, fun x hx => ?_⟩
  · rw [hx, hd]
    exact h.wf.voted a _ hw
  · rw [proxyDefect_setVoter hf, hb, hp, sub_self, Pi.single_zero, h.proxy]
    simp
  · rw [producerDefect_setVoter hf, hb, h.producer]
    simp
  · obtain ⟨hs, hxa⟩ := not_or.mp hx
    intro u hu
    rw [find_setVoter, if_neg hxa] at hu
    exact h.current x hs u hu

/-- A new voter has no votes. -/
theorem setVoter_new (h : pv.Tallied n stale) {a : Name} (hf : pv.voters.find a = none) :
    (pv.setVoter a (.new n)).Tallied n stale := by
  have hproxyOf : ∀ x y, (pv.setVoter a (.new n)).shape.proxyOf x = some y →
      pv.shape.proxyOf x = some y := by
    intro x y hxy
    simp only [Shape.proxyOf, shape, find_setVoter] at hxy ⊢
    split_ifs at hxy with hxa
    · simp [voterShape, PoolVoter.new] at hxy
    · exact hxy
  have hb : (PoolVoter.new n : PoolVoter K).ballot = ⟨none, [], 0⟩ := by
    simp [PoolVoter.ballot, PoolVoter.new, vec_replicate]
  have hr : pv.received a = 0 := by simp [received, hf]
  refine ⟨h.wf.setVoter (by simp [PoolVoter.new]) (by simp [PoolVoter.new])
    (by simp [PoolVoter.new]) (by simp [PoolVoter.new]) (fun _ => rfl)
    (fun hne => absurd rfl hne) (by simp [PoolVoter.new]) (h.wf.acyclic.mono hproxyOf), ?_, ?_,
    h.total, fun x hx u hu => ?_⟩
  · have hsum : (pv.setVoter a (.new n)).voters.sum (fun _ v => v.ballot.share) =
        pv.voters.sum fun _ v => v.ballot.share := by
      rw [PoolVotes.setVoter, Table.sum_set_new hf, hb]
      simp [Ballot.share]
    have := h.proxy
    unfold proxyDefect at *
    rw [hsum, received_setVoter, hr, PoolVoter.new, vec_replicate]
    simpa using this
  · have hsum : (pv.setVoter a (.new n)).voters.sum (fun _ v => v.ballot.spread) =
        pv.voters.sum fun _ v => v.ballot.spread := by
      rw [PoolVotes.setVoter, Table.sum_set_new hf, hb]
      simp [Ballot.spread]
    have := h.producer
    unfold producerDefect at *
    rw [hsum]
    exact this
  · rw [find_setVoter] at hu
    split_ifs at hu
    · cases hu
      simp [PoolVoter.new, PoolVoter.poolVotes]
    · exact h.current x hx u hu

/-- A voter's record may be written, or made, if its vote and the votes received stay. -/
theorem setVoter (h : pv.Tallied n stale) {a : Name} {v : PoolVoter K}
    (hp : v.proxiedShares = (getOrCreatePoolVoter pv.voters n a).proxiedShares)
    (hl : v.lastVotes = (getOrCreatePoolVoter pv.voters n a).lastVotes)
    (hx : v.proxy = (getOrCreatePoolVoter pv.voters n a).proxy)
    (hd : v.producers = (getOrCreatePoolVoter pv.voters n a).producers)
    (ho : v.ownedShares.length = n) (hi : v.isProxy = true → v.proxy = .none) :
    (pv.setVoter a v).Tallied n fun x => stale x ∨ x = a := by
  cases hf : pv.voters.find a with
  | some w =>
    simp only [getOrCreatePoolVoter, hf, Option.getD_some] at hp hl hx hd
    exact h.setVoter_of_find hf hp hl hx hd ho hi
  | none =>
    simp only [getOrCreatePoolVoter, hf, Option.getD_none] at hp hl hx hd
    have hset : (pv.setVoter a (.new n)).setVoter a v = pv.setVoter a v := by
      simp only [PoolVotes.setVoter, Table.set_set]
    rw [← hset]
    exact (h.setVoter_new hf).setVoter_of_find (by rw [find_setVoter, if_pos rfl]) hp hl hx hd ho hi

/-- What the record of a voter, found or made, satisfies. -/
theorem getOrCreate (h : pv.Tallied n stale) (a : Name) :
    (getOrCreatePoolVoter pv.voters n a).ownedShares.length = n ∧
      ((getOrCreatePoolVoter pv.voters n a).isProxy = true →
        (getOrCreatePoolVoter pv.voters n a).proxy = .none) ∧
      (¬stale a → (getOrCreatePoolVoter pv.voters n a).lastVotes =
        (getOrCreatePoolVoter pv.voters n a).poolVotes) := by
  unfold getOrCreatePoolVoter
  cases hf : pv.voters.find a with
  | some w =>
    exact ⟨h.wf.owned a _ (shape_voters hf), h.wf.isProxy a _ (shape_voters hf),
      fun hs => h.current a hs w hf⟩
  | none => exact ⟨by simp [PoolVoter.new], fun _ => rfl, fun _ => rfl⟩

/-- A stale voter whose last votes are those its shares give is none. -/
theorem of_current {a : Name} (h : pv.Tallied n fun x => stale x ∨ x = a) (hc : pv.Current a) :
    pv.Tallied n stale := by
  refine ⟨h.wf, h.proxy, h.producer, h.total, fun x hx => ?_⟩
  by_cases hxa : x = a
  · exact hxa ▸ hc
  · exact h.current x fun hs => hs.elim hx hxa

/-- The votes of a voter are passed on: the voter is current then. -/
theorem updateProxy (h : pv.Tallied n stale) {a : Name} (hf : (pv.voters.find a).isSome) :
    ∃ pv', pv.updateProxy a = .ok pv' ∧ pv'.Tallied n fun x => stale x ∧ x ≠ a := by
  obtain ⟨v, hv⟩ := Option.isSome_iff_exists.mp hf
  obtain ⟨rank, hr⟩ := h.wf.acyclic
  obtain ⟨pv', hok, hs, hsame, hcur, -⟩ := updatePoolProxy_spec hr h.wf hv
    (Nat.lt_succ_of_le (Table.below_le _ _ _))
  refine ⟨pv', hok, hs ▸ h.wf, hsame.proxy.trans h.proxy, hsame.producer.trans h.producer,
    hsame.total.trans h.total, fun x hx => hcur x ?_⟩
  by_cases hxa : x = a
  · exact .inr hxa
  · exact .inl (h.current x fun hs => hx ⟨hs, hxa⟩)

/-- A producer's record may be written, or made, if its votes stay. -/
theorem setProducer (h : pv.Tallied n stale) {p : Name} {prod : ProducerInfo K}
    (hv : prodVotes prod = pv.votes p) (hl : ∀ l, prod.poolVotes = some l → l.length = n)
    (hk : ∀ old, pv.producers.find p = some old → prod.poolVotes = none → old.poolVotes = none) :
    ({ pv with producers := pv.producers.set p prod } : PoolVotes K).Tallied n stale := by
  have hvotes : ({ pv with producers := pv.producers.set p prod } : PoolVotes K).votes =
      pv.votes := by
    funext q
    rw [votes, Table.find_set]
    split_ifs with hq
    · rw [hq, ← hv]
      rfl
    · rfl
  have hself : ∀ q m b, ({ pv with producers := pv.producers.set p prod } :
      PoolVotes K).shape.producers q = some (some m, b) →
        m = n ∨ pv.shape.producers q = some (some m, b) := by
    intro q m b hq
    simp only [shape, Table.find_set] at hq
    split_ifs at hq with hqp
    · simp only [Option.map_some, Option.some.injEq, Prod.mk.injEq, Option.map_eq_some_iff] at hq
      obtain ⟨⟨l, hpl, rfl⟩, -⟩ := hq
      exact .inl (hl l hpl)
    · exact .inr hq
  refine ⟨⟨h.wf.owned, h.wf.proxied, h.wf.last, h.wf.nodup, h.wf.isProxy, h.wf.proxies,
    fun x u hu hx q hq => ?_, fun q m b hq => ?_, h.wf.total, h.wf.acyclic⟩, h.proxy, ?_, ?_,
    h.current⟩
  · obtain ⟨b, hb⟩ := h.wf.voted x u hu hx q hq
    simp only [shape, Table.find_set]
    split_ifs with hqp
    · obtain ⟨old, l, hf, hol, -⟩ := exists_poolVotes hb
      cases hpl : prod.poolVotes with
      | none => simp [hk old (hqp ▸ hf) hpl] at hol
      | some l' => simp [hpl, hl l' hpl]
    · exact ⟨b, hb⟩
  · exact (hself q m b hq).elim id (h.wf.votes q m b)
  · have := h.producer
    unfold producerDefect at *
    rw [hvotes]
    exact this
  · have ht := h.total
    have hold : (pv.producers.find p).elim 0 prodVotes = pv.votes p := rfl
    unfold totalDefect at *
    dsimp only
    rw [Table.sum_set_elim, hold, hv, sub_add_cancel]
    exact ht

end Tallied

omit [Field K] in
/-- A vote has different producers, or a proxy other than the voter. -/
theorem validateVote_eq_ok {a proxy : Name} {producers : List Name} {u : Unit}
    (h : validateVote a proxy producers = .ok u) :
    producers.Nodup ∧ (proxy ≠ .none → a ≠ proxy ∧ producers = []) := by
  unfold validateVote VoteState.validateVote at h
  split_ifs at h with hp
  · obtain ⟨hlen, hne⟩ := check_bind_eq_ok.mp h
    obtain rfl := List.length_eq_zero_iff.mp hlen
    exact ⟨List.nodup_nil, fun _ => ⟨check_eq_ok.mp hne, rfl⟩⟩
  · obtain ⟨-, hsorted⟩ := check_bind_eq_ok.mp h
    refine ⟨(check_eq_ok.mp hsorted).imp fun hlt he => ?_, fun hne => absurd hne hp⟩
    rw [he] at hlt
    exact lt_irrefl _ hlt

omit [Field K] in
theorem validateVote_avoids (a proxy : Name) (producers : List Name) :
    Avoids poolVoteBugs (validateVote a proxy producers) := by
  unfold validateVote VoteState.validateVote
  split_ifs
  · exact .bind (.check (.inl (by decide))) fun _ _ => .check (.inl (by decide))
  · exact .bind (.check (.inl (by decide))) fun _ _ => .check (.inl (by decide))

omit [Field K] in
/-- The proxies have no cycles after a vote for a proxy that uses none, or for the old one. -/
theorem acyclic_setVoter {a : Name} {v : PoolVoter K} (hw : pv.shape.Wf n)
    (hne : v.proxy ≠ .none → a ≠ v.proxy)
    (hv : v.proxy = .none ∨ pv.shape.proxyOf v.proxy = none ∨
      pv.shape.proxyOf a = some v.proxy) : Acyclic (pv.setVoter a v).shape.proxyOf := by
  have hself : (pv.setVoter a v).shape.proxyOf a =
      if v.proxy = .none then none else some v.proxy :=
    proxyOf_shape (by rw [find_setVoter, if_pos rfl])
  have hother : ∀ x, x ≠ a → (pv.setVoter a v).shape.proxyOf x = pv.shape.proxyOf x := by
    intro x hxa
    simp only [Shape.proxyOf, shape, find_setVoter, if_neg hxa]
  by_cases hp : v.proxy = .none
  · refine hw.acyclic.mono fun x y hxy => ?_
    by_cases hxa : x = a
    · rw [hxa, hself, if_pos hp] at hxy
      cases hxy
    · rwa [← hother x hxa]
  · rcases hv.resolve_left hp with hy | hy
    · exact hw.acyclic.set hy (hne hp) hother (by rw [hself, if_neg hp])
    · refine hw.acyclic.mono fun x y hxy => ?_
      by_cases hxa : x = a
      · rw [hxa, hself, if_neg hp] at hxy
        rw [hxa, hy, hxy]
      · rwa [← hother x hxa]

/-- **A vote, or the same vote cast again, keeps the tallies exact** and makes the voter current;
no check that says `bug` fails. -/
theorem Tallied.updatePoolVotes {stale : Name → Prop} (h : pv.Tallied n stale) {a proxy : Name}
    {producers : List Name} {voting : Bool}
    (hv : voting = true ∨ (getOrCreatePoolVoter pv.voters n a).proxy = proxy) :
    Yields poolVoteBugs (Tallied n fun x => stale x ∧ x ≠ a)
      (pv.updatePoolVotes n a proxy producers voting) := by
  obtain ⟨ho, hi, -⟩ := h.getOrCreate a
  have h₀ := h.setVoter rfl rfl rfl rfl ho hi
  unfold PoolVotes.updatePoolVotes
  dsimp only
  generalize getOrCreatePoolVoter pv.voters n a = v at *
  have ha₀ : (pv.setVoter a v).voters.find a = some v := by rw [find_setVoter, if_pos rfl]
  generalize pv.setVoter a v = pv₀ at *
  have hn : v.poolVotes.length = n := length_poolVotes h₀.wf ha₀
  obtain ⟨pv₁, h₁, hs₁, hd₁, he₁, ht₁, hcur₁, ha₁⟩ := undoProxy_spec h₀.wf ha₀
  have hw₁ : pv₁.shape.Wf n := hs₁ ▸ h₀.wf
  have hvoter (hval : validateVote a proxy producers = .ok ()) :=
    castProxy_spec hw₁ ha₁ hn (fun hp => ((validateVote_eq_ok hval).2 hp).1) hv
  have hlast : v.lastVotes.length = n := h₀.wf.last a _ (shape_voters ha₀)
  have hnodup := h₀.wf.nodup a _ (shape_voters ha₀)
  have hvoted := h₀.wf.voted a _ (shape_voters ha₀)
  -- the old producers have room for votes
  have hold : ∀ c ∈ producerChanges (if v.proxy ≠ .none then [] else v.producers)
      (if proxy ≠ .none then [] else producers), c.2.1 = true →
        ∃ b, pv₀.shape.producers c.1 = some (some n, b) := by
    intro c hc hc₁
    have hmem : c.1 ∈ if v.proxy ≠ .none then [] else v.producers := by
      simpa [(mem_producerChanges.mp hc).2.1] using hc₁
    split_ifs at hmem with hp
    · exact absurd hmem List.not_mem_nil
    · exact hvoted (not_not.mp hp) c.1 hmem
  refine ⟨?_, fun pv' hok => ?_⟩
  · refine .bind (validateVote_avoids _ _ _) fun _ hval => .bind (.check (.inl (by decide)))
      fun _ _ => .bind (.of_ok h₁) fun pv₁' h₁' => ?_
    obtain rfl : pv₁ = pv₁' := Except.ok.inj (h₁.symm.trans h₁')
    rcases hvoter hval with herr | ⟨pv₂, h₂, hs₂, -, -, -, -, ha₂, -⟩
    · rw [herr]
      exact fun e he hx => by
        obtain rfl : "proxy not found" = e := Except.error.inj hx
        exact absurd he (by decide)
    · refine .bind (.of_ok h₂) fun pv₂' h₂' => .bind (.require (by decide)) fun v' hv' => ?_
      obtain rfl : pv₂ = pv₂' := Except.ok.inj (h₂.symm.trans h₂')
      obtain rfl : v = v' := Option.some.inj (ha₂.symm.trans (require_eq_ok.mp hv'))
      have hsh : pv₂.shape = pv₀.shape := hs₂.trans hs₁
      exact .bind (applyChanges_spec hlast hn (hsh ▸ h₀.wf) (by rwa [hsh])).1 fun _ _ => .pure _
  · simp only [bind_eq_ok, check_eq_ok, exists_const, require_eq_ok, pure_eq_ok] at hok
    obtain ⟨⟨⟩, hval, hproxy, pv₁', h₁', pv₂', h₂', v', hv', pv₃, h₃, rfl⟩ := hok
    obtain rfl : pv₁ = pv₁' := Except.ok.inj (h₁.symm.trans h₁')
    rcases hvoter hval with herr | ⟨pv₂, h₂, hs₂, hd₂, he₂, ht₂, hcur₂, ha₂, hup⟩
    · rw [herr] at h₂'
      cases h₂'
    obtain rfl : pv₂ = pv₂' := Except.ok.inj (h₂.symm.trans h₂')
    obtain rfl : v = v' := Option.some.inj (ha₂.symm.trans hv')
    have hsh : pv₂.shape = pv₀.shape := hs₂.trans hs₁
    obtain ⟨hm, hnew⟩ := (applyChanges_spec hlast hn (hsh ▸ h₀.wf) (by rwa [hsh])).2 pv₃ h₃
    have hsh₃ : pv₃.shape = pv₀.shape := hm.shape.trans hsh
    have ha₃ : pv₃.voters.find a = some v := by rw [hm.voters, ha₂]
    have hw₃ : pv₃.shape.Wf n := hsh₃ ▸ h₀.wf
    obtain ⟨hnodup', hval'⟩ := validateVote_eq_ok hval
    rw [show pv₁.shape = pv₃.shape from hs₁.trans hsh₃.symm] at hup
    refine ⟨?_, ?_, ?_, ?_, fun x hx u hu => ?_⟩
    · refine hw₃.setVoter ho (hw₃.proxied a _ (shape_voters ha₃)) hn hnodup' ?_ ?_ ?_
        (acyclic_setVoter hw₃ (fun hp => (hval' hp).1) (hup.imp_right And.right))
      · intro hpr
        dsimp only at hpr
        exact hproxy.resolve_right (by simp [hpr])
      · exact fun hp => (hup.resolve_left hp).1
      · intro hp p hmem
        have hc : (p, decide (p ∈ if v.proxy ≠ .none then [] else v.producers), true) ∈
            producerChanges (if v.proxy ≠ .none then [] else v.producers)
              (if proxy ≠ .none then [] else producers) := by
          dsimp only at hp hmem
          simp [mem_producerChanges, hp, hmem]
        exact hm.shape ▸ hnew _ hc rfl
    · rw [proxyDefect_setVoter ha₃, hm.proxyDefect, hd₂ producers, hd₁, h₀.proxy, sub_self,
        Pi.single_zero]
      change 0 - v.ballot.share + _ + 0 + v.ballot.share - _ = _
      unfold PoolVoter.ballot
      abel
    · have hvs : v.ballot.spread =
          ((if v.proxy ≠ .none then [] else v.producers).map fun p =>
            (Pi.single p (vec v.lastVotes) : Name → ℕ → K)).sum := by
        by_cases hp : v.proxy = .none <;> simp [Ballot.spread, PoolVoter.ballot, hp]
      have hvs' : (⟨if proxy = .none then none else some proxy, producers, vec v.poolVotes⟩ :
          Ballot Name (ℕ → K)).spread =
          ((if proxy ≠ .none then [] else producers).map fun p =>
            (Pi.single p (vec v.poolVotes) : Name → ℕ → K)).sum := by
        by_cases hp : proxy = .none <;> simp [Ballot.spread, hp]
      have hold' : (if v.proxy ≠ .none then [] else v.producers).Nodup := by
        split_ifs
        · exact List.nodup_nil
        · exact hnodup
      have hnew' : (if proxy ≠ .none then [] else producers).Nodup := by
        split_ifs
        · exact List.nodup_nil
        · exact hnodup'
      rw [producerDefect_setVoter ha₃, hm.producerDefect, he₂, he₁, h₀.producer,
        changeVotes_producerChanges hold' hnew', ← hvs, ← hvs']
      unfold PoolVoter.ballot
      abel
    · exact hm.total.trans (ht₂.trans (ht₁.trans h₀.total))
    · rw [find_setVoter] at hu
      split_ifs at hu with hxa
      · cases hu
        rfl
      · have hs : ¬(stale x ∨ x = a) := by
          rintro (hs | hxa')
          · exact hx ⟨hs, hxa⟩
          · exact hxa hxa'
        rw [hm.voters] at hu
        exact hcur₂ x (hcur₁ x (h₀.current x hs)) u hu

/-! ## What exact tallies say -/

namespace Tallied

variable {stale : Name → Prop}

theorem lastVotes_eq (h : pv.Tallied n stale) {a : Name} (hs : ¬stale a) {v : PoolVoter K}
    (hf : pv.voters.find a = some v) (i : ℕ) :
    v.lastVotes.getD i 0 =
      v.ownedShares.getD i 0 + if v.isProxy then v.proxiedShares.getD i 0 else 0 := by
  have ho : v.ownedShares.length = n := h.wf.owned a _ (shape_voters hf)
  have hp : v.proxiedShares.length = n := h.wf.proxied a _ (shape_voters hf)
  rw [h.current a hs v hf, PoolVoter.poolVotes]
  split_ifs
  · exact congrFun (vec_add (ho.trans hp.symm)) i
  · exact (add_zero _).symm

theorem proxiedShares_eq (h : pv.Tallied n stale) {a : Name} {v : PoolVoter K}
    (hf : pv.voters.find a = some v) (i : ℕ) :
    v.proxiedShares.getD i 0 = pv.voters.sum fun _ u =>
      if u.proxy ≠ .none ∧ u.proxy = a then u.lastVotes.getD i 0 else 0 := by
  have hd := congrFun (congrFun (sub_eq_zero.mp h.proxy) a) i
  rw [Table.sum_apply, Table.sum_apply, received, hf] at hd
  refine hd.trans (Table.sum_congr fun b u _ => ?_)
  rw [Ballot.share_apply]
  by_cases hn : u.proxy = .none
  · simp [PoolVoter.ballot, hn]
  · by_cases ha : u.proxy = a
    · simp [PoolVoter.ballot, ha, ha ▸ hn, vec]
    · simp [PoolVoter.ballot, hn, ha]

/-- A producer has the whole weight of each voter without a proxy that votes for it. -/
theorem votes_eq (h : pv.Tallied n stale) (p : Name) (i : ℕ) :
    pv.votes p i = pv.voters.sum fun _ u =>
      if u.proxy = .none ∧ p ∈ u.producers then u.lastVotes.getD i 0 else 0 := by
  have hd := congrFun (congrFun (sub_eq_zero.mp h.producer) p) i
  rw [Table.sum_apply, Table.sum_apply] at hd
  refine hd.trans (Table.sum_congr fun b u hu => ?_)
  rw [Ballot.spread_apply (h.wf.nodup b _ (shape_voters hu))]
  by_cases hn : u.proxy = .none <;> by_cases hp : p ∈ u.producers <;>
    simp [PoolVoter.ballot, hn, hp, vec]

theorem poolVotes_eq (h : pv.Tallied n stale) {p : Name} {prod : ProducerInfo K} {votes : List K}
    (hf : pv.producers.find p = some prod) (hv : prod.poolVotes = some votes) (i : ℕ) :
    votes.getD i 0 = pv.voters.sum fun _ u =>
      if u.proxy = .none ∧ p ∈ u.producers then u.lastVotes.getD i 0 else 0 := by
  rw [← h.votes_eq p i, PoolVotes.votes, hf, Option.elim_some, prodVotes, hv]
  rfl

theorem totalVotes_eq (h : pv.Tallied n stale) (i : ℕ) :
    pv.totalVotes.getD i 0 = pv.producers.sum fun _ prod =>
      prod.poolVotes.elim 0 fun votes => votes.getD i 0 := by
  have hd := congrFun (sub_eq_zero.mp h.total) i
  rw [Table.sum_apply] at hd
  refine hd.trans (Table.sum_congr fun p prod _ => ?_)
  unfold prodVotes
  cases prod.poolVotes <;> rfl

end Tallied

end PoolVotes

end EosioSystem
