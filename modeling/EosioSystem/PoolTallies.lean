import EosioSystem.Action
import EosioSystem.StakingPool.Recast

/-!
# The tallies of the pool votes along a run

In every state a run of the staking-pool actions reaches, the four tallies of the pool votes are
exact: a voter's last votes are those its shares give, a proxy has received the last votes of the
voters who use it, a producer those of the voters who vote for it, and the global sum is that of
the producers.

## Main definitions

* `PoolsTallied`: the tallies are exact, with some voters stale in the middle of an action
* `Action.isPool`: the actions of the staking pools

## Main results

* `poolTallies_of_run`: **the tallies are exact in every reachable state**, and no check that says
  `bug` fails
-/

namespace EosioSystem

open Checked PoolVotes

variable {K : Type} [Field K]

/-- The tallies are exact but for some stale voters; without pools nobody has votes. -/
def PoolsTallied (stale : Name → Prop) (s : State K) : Prop :=
  match s.pools.state with
  | none => s.pools.voters = .empty ∧
      ∀ p prod, s.vote.producers.find p = some prod → prod.poolVotes = none
  | some st => (⟨st.totalVotes, s.pools.voters, s.vote.producers⟩ : PoolVotes K).Tallied
      st.pools.length stale

theorem poolsTallied_some {stale : Name → Prop} {s : State K} {st : StakingPoolState K}
    (hst : s.pools.state = some st) :
    PoolsTallied stale s ↔ (⟨st.totalVotes, s.pools.voters, s.vote.producers⟩ :
      PoolVotes K).Tallied st.pools.length stale := by
  simp only [PoolsTallied, hst]

/-- The shares of a voter, and when they can be claimed, have changed. -/
def SharesChanged (w v : PoolVoter K) : Prop :=
  ∃ owned next, owned.length = w.ownedShares.length ∧
    v = { w with ownedShares := owned, nextClaim := next }

omit [Field K] in
theorem SharesChanged.trans {u v w : PoolVoter K} (h₁ : SharesChanged u v)
    (h₂ : SharesChanged v w) : SharesChanged u w := by
  obtain ⟨owned, next, ho, rfl⟩ := h₁
  obtain ⟨owned', next', ho', rfl⟩ := h₂
  exact ⟨owned', next', ho'.trans ho, rfl⟩

namespace PoolsTallied

variable {stale : Name → Prop} {s s' : State K}

theorem mono {stale' : Name → Prop} (h : PoolsTallied stale s) (hs : ∀ x, stale x → stale' x) :
    PoolsTallied stale' s := by
  unfold PoolsTallied at *
  split at h
  · exact h
  · exact h.mono hs

/-- What the tallies depend on. -/
theorem congr (h : PoolsTallied stale s)
    (hst : s'.pools.state.map (fun st => (st.totalVotes, st.pools.length)) =
      s.pools.state.map fun st => (st.totalVotes, st.pools.length))
    (hv : s'.pools.voters = s.pools.voters) (hp : s'.vote.producers = s.vote.producers) :
    PoolsTallied stale s' := by
  unfold PoolsTallied at *
  cases hs : s.pools.state <;> cases hs' : s'.pools.state
  · rw [hv, hp]
    simpa only [hs] using h
  · simp [hs, hs'] at hst
  · simp [hs, hs'] at hst
  · simp only [hs, hs', Option.map_some, Option.some.injEq, Prod.mk.injEq] at hst h ⊢
    rw [hst.1, hst.2, hv, hp]
    exact h

/-! ### Votes -/

/-- A vote, or the same vote cast again, makes the voter current. -/
theorem updatePoolVotes (h : PoolsTallied stale s) {a proxy : Name} {producers : List Name}
    {voting : Bool}
    (hv : voting = true ∨ ∃ v, s.pools.voters.find a = some v ∧ v.proxy = proxy) :
    Yields poolVoteBugs (PoolsTallied fun x => stale x ∧ x ≠ a)
      (s.updatePoolVotes a proxy producers voting) := by
  refine (s.poolState_avoids (by decide)).bind_yields fun st hst => ?_
  have ht := (poolsTallied_some (State.poolState_eq_ok.mp hst)).mp h
  refine .bind (ht.updatePoolVotes (hv.imp_right ?_)) fun pv hpv =>
    .pure ((poolsTallied_some rfl).mpr hpv)
  rintro ⟨v, hf, hx⟩
  simpa [getOrCreatePoolVoter, hf] using hx

/-- The same vote cast again -/
theorem recastVotes (h : PoolsTallied stale s) (a : Name) :
    Yields poolVoteBugs (PoolsTallied fun x => stale x ∧ x ≠ a) (s.recastVotes a) :=
  Avoids.bind_yields (.require (by decide)) fun v hv =>
    h.updatePoolVotes (.inr ⟨v, require_eq_ok.mp hv, rfl⟩)

/-! ### Shares -/

/-- The shares of a voter change, and the pools with them. -/
theorem setShares (h : PoolsTallied stale s) (token : Token) {st : StakingPoolState K} {a : Name}
    {v : PoolVoter K} {pools : List (StakingPool K)}
    (hst : s.pools.state = some st) (hlen : pools.length = st.pools.length)
    (hv : SharesChanged (getOrCreatePoolVoter s.pools.voters st.pools.length a) v) :
    PoolsTallied (fun x => stale x ∨ x = a)
      (({ s with token } : State K).setPools { st with pools } (s.pools.voters.set a v)) := by
  have ht := (poolsTallied_some hst).mp h
  obtain ⟨owned, next, ho, rfl⟩ := hv
  obtain ⟨ho', hi, -⟩ := ht.getOrCreate a
  refine (poolsTallied_some rfl).mpr ?_
  have hset := ht.setVoter (a := a) (v := { getOrCreatePoolVoter s.pools.voters st.pools.length a
    with
    ownedShares := owned, nextClaim := next }) rfl rfl rfl rfl (ho.trans ho') hi
  rw [← hlen] at hset ⊢
  exact hset

/-! ### Producers -/

/-- A producer's record is written, or made, and at most gets room for votes. -/
theorem setProducer (h : PoolsTallied stale s) {p : Name} {prod : ProducerInfo K}
    (hst : s'.pools.state = s.pools.state) (hv : s'.pools.voters = s.pools.voters)
    (hp : s'.vote.producers = s.vote.producers.set p prod)
    (hprod : prod.poolVotes = (s.vote.producers.find p).bind ProducerInfo.poolVotes ∨
      (s.vote.producers.find p).bind ProducerInfo.poolVotes = none ∧
        ∃ st, s.pools.state = some st ∧
          prod.poolVotes = some (List.replicate st.pools.length 0)) : PoolsTallied stale s' := by
  cases hs : s.pools.state with
  | none =>
    have h₀ : s.pools.voters = .empty ∧
        ∀ p prod, s.vote.producers.find p = some prod → prod.poolVotes = none := by
      simpa only [PoolsTallied, hs] using h
    have hnone : prod.poolVotes = none := by
      rcases hprod with hprod | ⟨-, st, hst', -⟩
      · rw [hprod]
        cases hf : s.vote.producers.find p with
        | none => rfl
        | some old => exact h₀.2 p old hf
      · simp [hs] at hst'
    simp only [PoolsTallied, hst, hs, hv, hp]
    refine ⟨h₀.1, fun q prod' hq => ?_⟩
    rw [Table.find_set] at hq
    split_ifs at hq with hqp
    · cases hq
      exact hnone
    · exact h₀.2 q prod' hq
  | some st =>
    have ht := (poolsTallied_some hs).mp h
    rw [poolsTallied_some (hst.trans hs), hv, hp]
    have hvotes : (⟨st.totalVotes, s.pools.voters, s.vote.producers⟩ : PoolVotes K).votes p =
        ((s.vote.producers.find p).bind ProducerInfo.poolVotes).elim 0 vec := by
      unfold PoolVotes.votes prodVotes
      cases s.vote.producers.find p <;> rfl
    refine ht.setProducer ?_ ?_ ?_
    · rw [hvotes, prodVotes]
      rcases hprod with hprod | ⟨hnone, st', -, hprod⟩
      · rw [hprod]
      · rw [hprod, hnone, Option.elim_some, Option.elim_none, vec_replicate]
    · intro l hl
      rcases hprod with hprod | ⟨-, st', hst', hprod⟩
      · rw [hl, eq_comm, Option.bind_eq_some_iff] at hprod
        obtain ⟨old, hf, hol⟩ := hprod
        exact ht.wf.votes p _ old.isActive (by simp [shape, hf, hol])
      · obtain rfl : st = st' := Option.some.inj (hs.symm.trans hst')
        rw [hl] at hprod
        simp [Option.some.inj hprod]
    · intro old hf hnone
      rcases hprod with hprod | ⟨-, st', -, hprod⟩
      · rw [hnone] at hprod
        simpa [hf] using hprod.symm
      · simp [hnone] at hprod

end PoolsTallied

section Shares

variable [LinearOrder K] [FloorRing K]

omit [LinearOrder K] [FloorRing K] [Field K] in
theorem setShares_changed (v : PoolVoter K) (i : ℕ) (shares : K) (next : List ℕ) :
    SharesChanged v { State.setShares v i shares with nextClaim := next } :=
  ⟨v.ownedShares.set i shares, next, List.length_set, rfl⟩

theorem deposit2pool_eq_ok {now : BlockTimestamp} {pools pools' : List (StakingPool K)}
    {v v' : PoolVoter K} {i : ℕ} {amount : ℤ}
    (h : State.deposit2pool now pools v i amount = .ok (pools', v')) :
    pools'.length = pools.length ∧ SharesChanged v v' := by
  simp only [State.deposit2pool, bind_eq_ok, pure_eq_ok, Prod.mk.injEq] at h
  obtain ⟨pool, -, ⟨pool', shares, next⟩, -, rfl, rfl⟩ := h
  exact ⟨List.length_set, setShares_changed _ _ _ _⟩

theorem withdrawFrom_eq_ok {pools pools' : List (StakingPool K)} {v v' : PoolVoter K} {i : ℕ}
    {requested sold : ℤ} {claiming : Bool}
    (h : State.withdrawFrom pools v i requested claiming = .ok (pools', v', sold)) :
    pools'.length = pools.length ∧ SharesChanged v v' := by
  simp only [State.withdrawFrom, bind_eq_ok, pure_eq_ok, Prod.mk.injEq] at h
  obtain ⟨pool, -, ⟨pool', shares, _⟩, -, rfl, rfl, -⟩ := h
  exact ⟨List.length_set, setShares_changed v _ _ v.nextClaim⟩

theorem simulateSell_avoids (p : Pool K) (x : K) : Avoids poolVoteBugs (p.simulateSell x) :=
  .ite (.pure _) (.ite (.pure _) (.bind (.check (.inl (by decide))) fun _ _ => .pure _))

theorem deposit2pool_avoids (now : BlockTimestamp) (pools : List (StakingPool K))
    (v : PoolVoter K) (i : ℕ) (amount : ℤ) :
    Avoids poolVoteBugs (State.deposit2pool now pools v i amount) := by
  refine .bind (.require (by decide)) fun pool _ => .bind ?_ fun _ _ => .pure _
  refine .bind (simulateSell_avoids _ _) fun _ _ => .bind (.bind ?_ fun _ _ => .pure _)
    fun _ _ => .bind (.check (.inl (by decide))) fun _ _ =>
    .bind (.check (.inl (by decide))) fun _ _ => .pure _
  exact .ite (.pure _) (.ite (.pure _) (.bind (.check (.inl (by decide))) fun _ _ => .pure _))

theorem withdrawFrom_avoids (pools : List (StakingPool K)) (v : PoolVoter K) (i : ℕ)
    (requested : ℤ) (claiming : Bool) :
    Avoids poolVoteBugs (State.withdrawFrom pools v i requested claiming) := by
  refine .bind (.require (by decide)) fun pool _ => .bind ?_ fun _ _ => .pure _
  refine .bind (simulateSell_avoids _ _) fun _ _ => .ite ?_ ?_
  · exact .bind (.bind (simulateSell_avoids _ _) fun _ _ => .pure _) fun _ _ => .pure _
  · refine .bind (.check (.inl (by decide))) fun _ _ => .bind ?_ fun _ _ =>
      .bind (.bind (simulateSell_avoids _ _) fun _ _ => .pure _) fun _ _ =>
      .bind (.check (.inl (by decide))) fun _ _ => .pure _
    exact .ite (.pure _) (.ite (.pure _) (.bind (.check (.inl (by decide))) fun _ _ => .pure _))

omit [FloorRing K] in
theorem checkPool_avoids (pools : List (StakingPool K)) (i : ℕ) :
    Avoids poolVoteBugs (State.checkPool pools i) :=
  .bind (.require (by decide)) fun _ _ => .bind (.check (.inl (by decide))) fun _ _ =>
    .check (.inl (by decide))

end Shares

/-! ## The actions -/

/-- No voter is stale. -/
def AllTallied (s : State K) : Prop := PoolsTallied (fun _ => False) s

namespace AllTallied

variable {s : State K}

/-- Cast the votes of the only stale voter. -/
theorem recastVotes {a : Name} (h : PoolsTallied (fun x => False ∨ x = a) s) :
    Yields poolVoteBugs AllTallied (s.recastVotes a) :=
  (h.recastVotes a).mono fun _ hs' => hs'.mono fun _ hx => hx.2 (hx.1.resolve_left id)

theorem setpoolnotif (h : AllTallied s) (owner : Name) (xferOut xferIn : Option Bool) :
    Yields poolVoteBugs AllTallied (s.setpoolnotif owner xferOut xferIn) := by
  refine (requireAuth_avoids (by decide) _).bind_yields fun _ _ => (s.poolState_avoids (by
    decide)).bind_yields
    fun st hst => .pure ?_
  have ht := (poolsTallied_some (State.poolState_eq_ok.mp hst)).mp h
  obtain ⟨ho, hi, hc⟩ := ht.getOrCreate owner
  have hset := ht.setVoter (a := owner) (v := { getOrCreatePoolVoter s.pools.voters
    st.pools.length owner with
      xferOutNotif := xferOut.getD (getOrCreatePoolVoter s.pools.voters st.pools.length
        owner).xferOutNotif
      xferInNotif := xferIn.getD (getOrCreatePoolVoter s.pools.voters st.pools.length
        owner).xferInNotif })
    rfl rfl rfl rfl ho hi
  refine (poolsTallied_some rfl).mpr (hset.of_current fun u hu => ?_)
  rw [find_setVoter, if_pos rfl] at hu
  cases hu
  exact hc id

section Stake

variable [LinearOrder K] [FloorRing K]

theorem stake2pool (h : AllTallied s) (now : BlockTimestamp) (owner : Name) (i : ℕ)
    (amount : Asset) : Yields poolVoteBugs AllTallied (s.stake2pool now owner i amount) := by
  refine (requireAuth_avoids (by decide) _).bind_yields fun _ _ => (s.poolState_avoids (by
    decide)).bind_yields
    fun st hst => Avoids.bind_yields (.check (.inl (by decide))) fun _ _ =>
    (s.checkCore_avoids (by decide) _).bind_yields fun _ _ =>
    Avoids.bind_yields (.check (.inl (by decide))) fun _ _ =>
    (deposit2pool_avoids _ _ _ _ _).bind_yields ?_
  rintro ⟨pools, voter⟩ hd
  refine (Token.transfer_avoids (by decide) _ _ _ _).bind_yields fun token _ => ?_
  obtain ⟨hlen, hv⟩ := deposit2pool_eq_ok hd
  exact recastVotes (h.setShares token (State.poolState_eq_ok.mp hst) hlen hv)

omit [FloorRing K] in
/-- The proceeds of name auctions reach the pools, whose voters keep their votes. -/
theorem distributeNamebidToPools (h : AllTallied s) (now : BlockTimestamp) :
    Yields poolVoteBugs (fun s' => AllTallied s' ∧ s'.pools.voters = s.pools.voters ∧
      s'.pools.state.map (fun st => st.pools.length) =
        s.pools.state.map fun st => st.pools.length) (s.distributeNamebidToPools now) := by
  unfold State.distributeNamebidToPools
  split
  · exact .pure ⟨h, rfl, rfl⟩
  · rename_i st hst
    refine .ite (fun _ => ?_) fun _ => .pure ⟨h, rfl, rfl⟩
    refine Avoids.bind_yields ?_ ?_
    · unfold State.transitionChannelToPools
      rw [hst]
      exact .ite (.pure _) (.bind (Token.transfer_avoids (by decide) _ _ _ _) fun _ _ => .pure _)
    · rintro ⟨s₁, rest⟩ hs₁
      refine .pure ?_
      rcases State.transitionChannelToPools_cases hs₁ with
        ⟨rfl, -⟩ | ⟨st', token, hst', -, -, rfl, -⟩
      · exact ⟨h.congr (by simp [hst]) rfl rfl, rfl, by simp [hst]⟩
      · obtain rfl : st = st' := Option.some.inj (hst.symm.trans hst')
        exact ⟨h.congr (by simp [hst, length_distribute]) rfl rfl, rfl,
          by simp [hst, length_distribute]⟩

theorem claimstake (h : AllTallied s) (now : BlockTimestamp) (owner : Name) (i : ℕ)
    (requested : Asset) : Yields poolVoteBugs AllTallied (s.claimstake now owner i requested) := by
  refine (requireAuth_avoids (by decide) _).bind_yields fun _ _ => (s.poolState_avoids (by
    decide)).bind_yields
    fun st₀ hst₀ => Avoids.bind_yields (.check (.inl (by decide))) fun _ _ =>
    (s.checkCore_avoids (by decide) _).bind_yields fun _ _ =>
    Avoids.bind_yields (.check (.inl (by decide))) fun _ _ =>
    (State.checkPoolRequirements_avoids (by decide) _ _).bind_yields fun _ _ =>
    .bind (h.distributeNamebidToPools now) ?_
  rintro s₁ ⟨h₁, hv₁, hlen₁⟩
  refine (s₁.poolState_avoids (by decide)).bind_yields fun st hst =>
    Avoids.bind_yields (.require (by decide)) fun pool _ =>
    Avoids.bind_yields (.check (.inl (by decide))) fun _ _ =>
    (withdrawFrom_avoids _ _ _ _ _).bind_yields ?_
  rintro ⟨pools, voter, claimed⟩ hw
  refine (checkPool_avoids _ _).bind_yields fun _ _ =>
    Avoids.bind_yields (.ite (Token.transfer_avoids (by decide) _ _ _ _) (.pure _)) fun token _ =>
      ?_
  have hst₁ := State.poolState_eq_ok.mp hst
  have hlen₀ : st.pools.length = st₀.pools.length := by
    simpa [hst₁, State.poolState_eq_ok.mp hst₀] using hlen₁
  obtain ⟨hlen, hv⟩ := withdrawFrom_eq_ok hw
  rw [← hv₁, ← hlen₀] at hv
  exact recastVotes (h₁.setShares token hst₁ hlen
    (hv.trans ⟨voter.ownedShares, _, rfl, rfl⟩))

theorem transferstake (h : AllTallied s) (env : Env) (sender receiver : Name) (i : ℕ)
    (requested : Asset) (memo : String) :
    Yields poolVoteBugs AllTallied (s.transferstake env sender receiver i requested memo) := by
  refine (requireAuth_avoids (by decide) _).bind_yields fun _ _ => Avoids.bind_yields (.check (.inl
    (by decide)))
    fun _ _ => Avoids.bind_yields (.check (.inl (by decide))) fun _ hne =>
    Avoids.bind_yields (.check (.inl (by decide))) fun _ _ =>
    (s.poolState_avoids (by decide)).bind_yields fun st hst =>
    Avoids.bind_yields (.check (.inl (by decide))) fun _ _ =>
    (s.checkCore_avoids (by decide) _).bind_yields fun _ _ =>
    Avoids.bind_yields (.check (.inl (by decide))) fun _ _ =>
    Avoids.bind_yields (.require (by decide)) fun fromVoter hf =>
    Avoids.bind_yields (.check (.inl (by decide))) fun _ _ =>
    (withdrawFrom_avoids _ _ _ _ _).bind_yields ?_
  rintro ⟨pools₁, fromVoter', transferred⟩ hw
  refine Avoids.bind_yields (.check (.inl (by decide))) fun _ _ =>
    (deposit2pool_avoids _ _ _ _ _).bind_yields ?_
  rintro ⟨pools₂, toVoter⟩ hd
  refine (checkPool_avoids _ _).bind_yields fun _ _ => ?_
  have hne' : receiver ≠ sender := fun he => check_eq_ok.mp hne he.symm
  have hst' := State.poolState_eq_ok.mp hst
  obtain ⟨hlen₁, hv₁⟩ := withdrawFrom_eq_ok hw
  obtain ⟨hlen₂, hv₂⟩ := deposit2pool_eq_ok hd
  have hfrom : getOrCreatePoolVoter s.pools.voters st.pools.length sender = fromVoter := by
    simp [getOrCreatePoolVoter, require_eq_ok.mp hf]
  -- the sender's shares change first, then the receiver's
  have h₁ := h.setShares s.token hst' hlen₁ (hfrom ▸ hv₁)
  have hto : getOrCreatePoolVoter (s.pools.voters.set sender fromVoter') pools₁.length receiver =
      getOrCreatePoolVoter s.pools.voters st.pools.length receiver := by
    simp [getOrCreatePoolVoter, Table.find_set_ne _ _ hne', hlen₁]
  have h₂ := h₁.setShares s.token rfl hlen₂ (hto ▸ hv₂)
  refine .bind (h₂.recastVotes sender) fun s₁ hs₁ => (hs₁.recastVotes receiver).mono
    fun s₂ hs₂ => hs₂.mono ?_
  rintro x ⟨⟨hx, hxs⟩, hxr⟩
  exact hx.elim (fun h => h.elim id hxs) hxr

theorem upgradestake (h : AllTallied s) (now : BlockTimestamp) (owner : Name) (i j : ℕ)
    (requested : Asset) :
    Yields poolVoteBugs AllTallied (s.upgradestake now owner i j requested) := by
  refine (requireAuth_avoids (by decide) _).bind_yields fun _ _ => (s.poolState_avoids (by
    decide)).bind_yields
    fun st hst => Avoids.bind_yields (.check (.inl (by decide))) fun _ _ =>
    Avoids.bind_yields (.check (.inl (by decide))) fun _ _ =>
    Avoids.bind_yields (.check (.inl (by decide))) fun _ _ =>
    (s.checkCore_avoids (by decide) _).bind_yields fun _ _ =>
    Avoids.bind_yields (.check (.inl (by decide))) fun _ _ =>
    Avoids.bind_yields (.require (by decide)) fun voter hf =>
    (withdrawFrom_avoids _ _ _ _ _).bind_yields ?_
  rintro ⟨pools₁, voter₁, transferred⟩ hw
  refine Avoids.bind_yields (.check (.inl (by decide))) fun _ _ =>
    (deposit2pool_avoids _ _ _ _ _).bind_yields ?_
  rintro ⟨pools₂, voter₂⟩ hd
  refine (checkPool_avoids _ _).bind_yields fun _ _ => ?_
  obtain ⟨hlen₁, hv₁⟩ := withdrawFrom_eq_ok hw
  obtain ⟨hlen₂, hv₂⟩ := deposit2pool_eq_ok hd
  have hvoter : getOrCreatePoolVoter s.pools.voters st.pools.length owner = voter := by
    simp [getOrCreatePoolVoter, require_eq_ok.mp hf]
  exact recastVotes (h.setShares s.token (State.poolState_eq_ok.mp hst)
    (hlen₂.trans hlen₁) (hvoter ▸ hv₁.trans hv₂))

end Stake

theorem votewithpool [LinearOrder K] (h : AllTallied s) (voter proxy : Name)
    (producers : List Name) :
    Yields poolVoteBugs AllTallied (s.votewithpool voter proxy producers) :=
  (requireAuth_avoids (by decide) _).bind_yields fun _ _ => (s.poolState_avoids (by
    decide)).bind_yields fun _ _ =>
    (State.checkPoolRequirements_avoids (by decide) _ _).bind_yields fun _ _ =>
    (h.updatePoolVotes (.inl rfl)).mono fun _ hs' => hs'.mono fun _ hx => hx.1

theorem regpoolproxy (h : AllTallied s) (proxy : Name) (isproxy : Bool) :
    Yields poolVoteBugs AllTallied (s.regpoolproxy proxy isproxy) := by
  refine (requireAuth_avoids (by decide) _).bind_yields fun _ _ => (s.poolState_avoids (by
    decide)).bind_yields
    fun st hst => Avoids.bind_yields (.check (.inl (by decide))) fun _ hc => ?_
  have ht := (poolsTallied_some (State.poolState_eq_ok.mp hst)).mp h
  obtain ⟨ho, -, -⟩ := ht.getOrCreate proxy
  have hset := ht.setVoter (a := proxy) (v := { getOrCreatePoolVoter s.pools.voters
    st.pools.length proxy with isProxy := isproxy }) rfl rfl rfl rfl ho
    fun hp => (check_eq_ok.mp hc).resolve_left (by simp [show isproxy = true from hp])
  obtain ⟨pv, hok, hpv⟩ := hset.updateProxy (a := proxy) (by rw [find_setVoter, if_pos rfl]; rfl)
  refine (Avoids.of_ok hok).bind_yields fun pv' hok' => .pure ?_
  obtain rfl : pv = pv' := Except.ok.inj (hok.symm.trans hok')
  exact (poolsTallied_some rfl).mpr (hpv.mono fun x hx => hx.2 (hx.1.resolve_left id))

/-! ### Producers -/

omit [Field K] in
/-- A producer without room for votes gets it once there are pools. -/
theorem enableProdPoolVotes_yields [Field K] (s : State K) (producer : Name)
    (poolVotes : Option (List K)) :
    Yields poolVoteBugs (fun r => r.1 = poolVotes ∨ poolVotes = none ∧ ∃ st,
      s.pools.state = some st ∧ r.1 = some (List.replicate st.pools.length 0))
      (s.enableProdPoolVotes producer poolVotes) := by
  unfold State.enableProdPoolVotes
  split
  · exact .pure (.inl rfl)
  · exact Avoids.bind_yields (.require (by decide)) fun _ _ => .pure (.inl rfl)
  · rename_i st hst
    exact Avoids.bind_yields (.check (.inl (by decide))) fun _ _ =>
      .pure (.inr ⟨rfl, st, hst, rfl⟩)

theorem regproducer [LinearOrder K] (h : AllTallied s) (now : BlockTimestamp) (producer : Name)
    (url : String) : Yields poolVoteBugs AllTallied (s.regproducer now producer url) := by
  refine (requireAuth_avoids (by decide) _).bind_yields fun _ _ =>
    Avoids.bind_yields (.check (.inl (by decide))) fun _ _ => ?_
  unfold State.registerProducer
  cases hf : s.vote.producers.find producer with
  | some info =>
    refine .bind (enableProdPoolVotes_yields s producer info.poolVotes) ?_
    rintro ⟨poolVotes, totals⟩ hv
    refine .pure ?_
    dsimp only
    split
    all_goals exact PoolsTallied.setProducer h rfl rfl rfl (by simpa [hf] using hv)
  | none =>
    refine .bind (enableProdPoolVotes_yields s producer none) ?_
    rintro ⟨poolVotes, totals⟩ hv
    refine Avoids.bind_yields (.check (.inl (by decide))) fun _ _ => .pure ?_
    exact PoolsTallied.setProducer h rfl rfl rfl (by simpa [hf] using hv)

theorem deactivateProducer (h : AllTallied s) (producer : Name) :
    Yields poolVoteBugs AllTallied (s.deactivateProducer producer) := by
  refine Avoids.bind_yields (.require (by decide)) fun prod hf => .pure ?_
  exact PoolsTallied.setProducer h rfl rfl rfl (.inl (by rw [require_eq_ok.mp hf]; rfl))

/-! ### Configuration and pay -/

theorem newPools_yields [LinearOrder K] (durations claimPeriods : List ℕ) (voteWeights : List K) :
    Yields poolVoteBugs (fun pools => pools.length = durations.length)
      (newPools durations claimPeriods voteWeights) := by
  refine Avoids.bind_yields (.check (.inl (by decide))) fun _ _ =>
    Avoids.bind_yields (.check (.inl (by decide))) fun _ hc =>
    Avoids.bind_yields (.check (.inl (by decide))) fun _ hw =>
    Avoids.bind_yields (.check (.inl (by decide))) fun _ _ =>
    Avoids.bind_yields (.check (.inl (by decide))) fun _ _ =>
    Avoids.bind_yields (.check (.inl (by decide))) fun _ _ =>
    Avoids.bind_yields (.check (.inl (by decide))) fun _ _ =>
    Avoids.bind_yields (.check (.inl (by decide))) fun _ _ =>
    Avoids.bind_yields (.check (.inl (by decide))) fun _ _ =>
    Avoids.bind_yields (.check (.inl (by decide))) fun _ _ => .pure ?_
  simp [check_eq_ok.mp hc, check_eq_ok.mp hw]

theorem create_yields [LinearOrder K] (now : BlockTimestamp) (args : PoolConfig K) :
    Yields poolVoteBugs (fun st => st.totalVotes = List.replicate st.pools.length 0)
      (StakingPoolState.create now args) :=
  Avoids.bind_yields (.require (by decide)) fun _ _ =>
    Avoids.bind_yields (.require (by decide)) fun _ _ =>
    Avoids.bind_yields (.require (by decide)) fun _ _ =>
    Avoids.bind_yields (.require (by decide)) fun _ _ =>
    Avoids.bind_yields (.require (by decide)) fun _ _ =>
    .bind (newPools_yields _ _ _) fun pools hlen => .pure (by simp [hlen])

theorem configure_yields [LinearOrder K] (st : StakingPoolState K) (core : Symbol)
    (args : PoolConfig K) :
    Yields poolVoteBugs (fun st' => st'.pools = st.pools ∧ st'.totalVotes = st.totalVotes)
      (st.configure core args) :=
  Avoids.bind_yields (.check (.inl (by decide))) fun _ _ =>
    Avoids.bind_yields (.check (.inl (by decide))) fun _ _ =>
    Avoids.bind_yields (.check (.inl (by decide))) fun _ _ =>
    Avoids.bind_yields (.check (.inl (by decide))) fun _ _ =>
    Avoids.bind_yields (.check (.inl (by decide))) fun _ _ => .pure ⟨rfl, rfl⟩

theorem cfgsrpool [LinearOrder K] (h : AllTallied s) (now : BlockTimestamp)
    (args : PoolConfig K) : Yields poolVoteBugs AllTallied (s.cfgsrpool now args) := by
  unfold State.cfgsrpool
  refine (s.coreSymbol_avoids (by decide)).bind_yields fun core _ => ?_
  split
  · rename_i hst
    refine .bind (create_yields now args) fun st hst₁ =>
      .bind (configure_yields st core args) ?_
    rintro st' ⟨hp, ht⟩
    refine .pure ?_
    obtain ⟨hv, hprod⟩ : s.pools.voters = .empty ∧
        ∀ p prod, s.vote.producers.find p = some prod → prod.poolVotes = none := by
      simpa only [AllTallied, PoolsTallied, hst] using h
    refine (poolsTallied_some rfl).mpr (.start hv ?_ (by rw [ht, hst₁, hp]))
    rw [apply_ite VoteState.producers, ite_self]
    exact hprod
  · rename_i st hst
    refine Avoids.bind_yields (.check (.inl (by decide))) fun _ _ =>
      Avoids.bind_yields (.check (.inl (by decide))) fun _ _ =>
      Avoids.bind_yields (.check (.inl (by decide))) fun _ _ =>
      .bind (configure_yields st core args) ?_
    rintro st' ⟨hp, ht⟩
    exact .pure (h.congr (by simp [hst, hp, ht]) rfl rfl)

/-- The block changes nothing the tallies depend on. -/
theorem onblock [LinearOrder K] (h : AllTallied s) (now timestamp : BlockTimestamp)
    (producer : Name) : AllTallied (s.onblock now timestamp producer) := by
  obtain ⟨_, _, _, q, r, names, pay, producers, he, hc, -⟩ := s.onblock_eq now timestamp producer
  rw [he]
  have hpools (s' : State K) : AllTallied ({ s with vote := s'.vote } : State K) →
      s'.pools.voters = s.pools.voters →
      s'.pools.state.map (fun st => (st.totalVotes, st.pools.length)) =
        s.pools.state.map (fun st => (st.totalVotes, st.pools.length)) → AllTallied s' :=
    fun h' hv hst => h'.congr hst hv rfl
  refine hpools _ ?_ rfl (by simp [State.addNamebids, Function.comp_def])
  rcases hc with rfl | ⟨prod, hf, rfl⟩
  · exact h.congr rfl rfl rfl
  · exact h.setProducer (p := producer) rfl rfl rfl (.inl (by rw [hf]; rfl))

theorem calcVotes_avoids (pools : List (StakingPool K)) (votes : List K) :
    Avoids poolVoteBugs (calcVotes pools votes) :=
  .bind (.check (.inl (by decide))) fun _ _ => .pure _

theorem updatevotes (h : AllTallied s) (user producer : Name) :
    Yields poolVoteBugs AllTallied (s.updatevotes user producer) :=
  (requireAuth_avoids (by decide) _).bind_yields fun _ _ => Avoids.bind_yields (.require (by
    decide))
    fun _ _ => Avoids.bind_yields (.check (.inl (by decide))) fun _ _ =>
    Avoids.bind_yields (.require (by decide)) fun _ _ =>
    Avoids.bind_yields (.require (by decide)) fun _ _ =>
    (s.poolState_avoids (by decide)).bind_yields fun _ _ => (calcVotes_avoids _ _).bind_yields fun
      _ _ =>
    .pure h

theorem refreshVotes_avoids (pools : List (StakingPool K))
    (producers : Table Name (ProducerInfo K)) (l : List Name)
    (totals : Table Name (TotalPoolVotes K)) :
    Avoids poolVoteBugs (refreshVotes pools producers l totals) := by
  induction l generalizing totals with
  | nil => exact .pure _
  | cons acnt l ih =>
    exact .bind (.require (by decide)) fun _ _ => .bind (.require (by decide)) fun _ _ =>
      .bind (.require (by decide)) fun _ _ => .bind (calcVotes_avoids _ _) fun _ _ => ih _

section Pay

variable [LinearOrder K] [FloorRing K]

theorem payProducers_avoids (target : ℤ) (totalVotes maxVotes : K) (l : List Name)
    (totals : Table Name (TotalPoolVotes K)) (votesPaid : K) (paid : ℤ) :
    Avoids poolVoteBugs
      (State.payProducers target totalVotes maxVotes l totals votesPaid paid) := by
  induction l generalizing totals votesPaid paid with
  | nil => exact .pure _
  | cons acnt l ih => exact .ite (.pure _) (.bind (.require (by decide)) fun _ _ => ih _ _ _)

omit [Field K] in
theorem issuePay_avoids (token : Token) (prodPay voterPay : ℤ) :
    Avoids poolVoteBugs (State.issuePay token prodPay voterPay) := by
  have hissue : Avoids poolVoteBugs (token.issue eosioAccount (prodPay + voterPay)) :=
    .bind (.check (.inl (by decide))) fun _ _ => .pure _
  exact .ite (.pure _) (.bind hissue fun _ _ => .bind (.ite (Token.transfer_avoids (by decide) _ _
    _ _) (.pure _))
    fun _ _ => .ite (Token.transfer_avoids (by decide) _ _ _ _) (.pure _))

theorem updatepay (h : AllTallied s) (user : Name) :
    Yields poolVoteBugs AllTallied (s.updatepay user) := by
  refine (requireAuth_avoids (by decide) _).bind_yields fun _ _ => (s.poolState_avoids (by
    decide)).bind_yields
    fun st hst => Avoids.bind_yields (.check (.inl (by decide))) fun _ _ =>
    (refreshVotes_avoids _ _ _ _).bind_yields fun totals _ =>
    (calcVotes_avoids _ _).bind_yields fun totalVotes _ =>
    Avoids.bind_yields (.ite (payProducers_avoids _ _ _ _ _ _ _) (.pure _)) fun _ _ =>
    (issuePay_avoids _ _ _).bind_yields fun token _ => .pure ?_
  exact h.congr (by simp [State.poolState_eq_ok.mp hst]) rfl rfl

omit [LinearOrder K] [FloorRing K] in
theorem claimvotepay (h : AllTallied s) (producer : Name) :
    Yields poolVoteBugs AllTallied (s.claimvotepay producer) :=
  (requireAuth_avoids (by decide) _).bind_yields fun _ _ => Avoids.bind_yields (.require (by
    decide))
    fun _ _ => Avoids.bind_yields (.check (.inl (by decide))) fun _ _ =>
    (Token.transfer_avoids (by decide) _ _ _ _).bind_yields fun _ _ => .pure h

end Pay

end AllTallied

/-! ## Runs -/

/-- There are no staking pools yet. -/
def PoolInit (s : State K) : Prop :=
  s.pools.state = none ∧ s.pools.voters = .empty ∧
    ∀ p prod, s.vote.producers.find p = some prod → prod.poolVotes = none

/-- The actions of the staking pools, those that register and remove producers, and blocks. -/
def Action.isPool : Action K → Bool
  | cfgsrpool .. | stake2pool .. | setpoolnotif .. | claimstake .. | transferstake ..
  | upgradestake .. | votewithpool .. | regpoolproxy .. | regproducer .. | unregprod ..
  | rmvproducer .. | updatevotes .. | updatepay .. | claimvotepay .. | onblock .. => true
  | _ => false

variable [LinearOrder K] [FloorRing K] [CMath K]

/-- An action of the staking pools keeps the tallies exact, and no check that says `bug` fails. -/
theorem AllTallied.exec {s : State K} (h : AllTallied s) (env : Env) {a : Action K}
    (ha : a.isPool) : Yields poolVoteBugs AllTallied (a.exec env s) := by
  cases a with
  | cfgsrpool => exact h.cfgsrpool _ _
  | stake2pool => exact h.stake2pool _ _ _ _
  | setpoolnotif => exact h.setpoolnotif _ _ _
  | claimstake => exact h.claimstake _ _ _ _
  | transferstake => exact h.transferstake _ _ _ _ _ _
  | upgradestake => exact h.upgradestake _ _ _ _ _
  | votewithpool => exact h.votewithpool _ _ _
  | regpoolproxy => exact h.regpoolproxy _ _
  | regproducer => exact h.regproducer _ _ _
  | unregprod => exact (requireAuth_avoids (by decide) _).bind_yields fun _ _ =>
    h.deactivateProducer _
  | rmvproducer => exact h.deactivateProducer _
  | updatevotes => exact h.updatevotes _ _
  | updatepay => exact h.updatepay _
  | claimvotepay => exact h.claimvotepay _
  | onblock => exact ⟨.of_ok rfl, fun s' hs' => Except.ok.inj hs' ▸ h.onblock env.now _ _⟩
  | _ => simp [Action.isPool] at ha

theorem allTallied_of_run {t : BlockTimestamp} {s : State K}
    (h : Run PoolInit (Step fun _ a => a.isPool) t s) : AllTallied s := by
  refine h.invariant (P := AllTallied) (fun s hs => ?_) fun t s s' hs hstep => ?_
  · simpa only [AllTallied, PoolsTallied, hs.1] using hs.2
  · obtain ⟨isAccount, a, ha, he⟩ := hstep
    exact (hs.exec _ ha).of_ok s' he

/-- **The tallies of the pool votes are exact in every reachable state**, for every pool: the last
votes of a voter are those its shares give; a proxy has received the last votes of the voters who
use it, and a producer those of the voters without a proxy who vote for it; the global sum is that
of the producers. All votes have an entry for each pool, and no check that says `bug` fails. -/
theorem poolTallies_of_run {t : BlockTimestamp} {s : State K}
    (h : Run PoolInit (Step fun _ a => a.isPool) t s) :
    (∀ a v, s.pools.voters.find a = some v → ∀ i,
      v.lastVotes.getD i 0 =
        v.ownedShares.getD i 0 + if v.isProxy then v.proxiedShares.getD i 0 else 0) ∧
    (∀ a v, s.pools.voters.find a = some v → ∀ i,
      v.proxiedShares.getD i 0 = s.pools.voters.sum fun _ u =>
        if u.proxy ≠ .none ∧ u.proxy = a then u.lastVotes.getD i 0 else 0) ∧
    (∀ p prod votes, s.vote.producers.find p = some prod → prod.poolVotes = some votes → ∀ i,
      votes.getD i 0 = s.pools.voters.sum fun _ u =>
        if u.proxy = .none ∧ p ∈ u.producers then u.lastVotes.getD i 0 else 0) ∧
    (∀ st, s.pools.state = some st → ∀ i,
      st.totalVotes.getD i 0 = s.vote.producers.sum fun _ prod =>
        prod.poolVotes.elim 0 fun votes => votes.getD i 0) ∧
    (∀ st, s.pools.state = some st → st.totalVotes.length = st.pools.length ∧
      (∀ a v, s.pools.voters.find a = some v → v.lastVotes.length = st.pools.length ∧
        v.ownedShares.length = st.pools.length ∧ v.proxiedShares.length = st.pools.length) ∧
      ∀ p prod votes, s.vote.producers.find p = some prod → prod.poolVotes = some votes →
        votes.length = st.pools.length) ∧
    ∀ env (a : Action K), a.isPool → ∀ e ∈ poolVoteBugs, a.exec env s ≠ .error e := by
  have hall := allTallied_of_run h
  have hbugs : ∀ env (a : Action K), a.isPool → ∀ e ∈ poolVoteBugs, a.exec env s ≠ .error e :=
    fun env a ha => (hall.exec env ha).avoids
  cases hst : s.pools.state with
  | none =>
    obtain ⟨hv, hp⟩ : s.pools.voters = .empty ∧
        ∀ p prod, s.vote.producers.find p = some prod → prod.poolVotes = none := by
      simpa only [AllTallied, PoolsTallied, hst] using hall
    refine ⟨?_, ?_, fun p prod votes hf hvotes => ?_, ?_, ?_, hbugs⟩
    · simp [hv]
    · simp [hv]
    · simp [hp p prod hf] at hvotes
    · simp
    · simp
  | some st =>
    have ht := (poolsTallied_some hst).mp hall
    refine ⟨fun a v => ht.lastVotes_eq id, fun a v => ht.proxiedShares_eq,
      fun p prod votes => ht.poolVotes_eq, fun st' hst' => ?_, fun st' hst' => ?_, hbugs⟩
    · cases hst'
      exact ht.totalVotes_eq
    · cases hst'
      refine ⟨ht.wf.total, fun a v hf => ⟨ht.wf.last a _ (shape_voters hf),
        ht.wf.owned a _ (shape_voters hf), ht.wf.proxied a _ (shape_voters hf)⟩,
        fun p prod votes hf hv => ht.wf.votes p _ prod.isActive (by simp [shape, hf, hv])⟩

/-- Two pools, a proxy that votes for all producers, and a voter who uses the proxy and then
transfers a part of its stake to it. -/
def poolExampleRun : List (BlockTimestamp × Action ℚ) :=
  let producers := (List.range 21).map fun i => Name.mk (100 + i)
  [(.ofSlot 1, .cfgsrpool ⟨some [1024, 2048], some [64, 64], some [1, 2], some 0, some 0,
      none, none, none, none, none⟩)] ++
  producers.map (fun p => (.ofSlot 2, .regproducer p "")) ++
  [(.ofSlot 3, .regpoolproxy ⟨2⟩ true),
   (.ofSlot 4, .votewithpool ⟨2⟩ .none producers),
   (.ofSlot 5, .stake2pool ⟨1⟩ 0 (exampleAsset 1000)),
   (.ofSlot 6, .votewithpool ⟨1⟩ ⟨2⟩ []),
   (.ofSlot 7, .transferstake ⟨1⟩ ⟨2⟩ 0 (exampleAsset 400) "")]

theorem poolTallies_of_run_example :
    ∃ s : State ℚ, (∀ p prod votes, s.vote.producers.find p = some prod →
      prod.poolVotes = some votes → ∀ i, votes.getD i 0 = s.pools.voters.sum fun _ u =>
        if u.proxy = .none ∧ p ∈ u.producers then u.lastVotes.getD i 0 else 0) ∧
      (s.vote.producers.find ⟨100⟩).bind ProducerInfo.poolVotes = some [1000, 0] := by
  have hrun : (execAll (Action.execIn fun _ a => a.isPool) (.ofSlot 0) poolExampleRun
      exampleChain).isSome := by decide +kernel
  have hinit : PoolInit exampleChain := by
    refine ⟨rfl, rfl, fun p prod hf => ?_⟩
    cases hf
  obtain ⟨-, -, hc, -⟩ := poolTallies_of_run (run_get_execIn hinit hrun)
  refine ⟨_, hc, ?_⟩
  clear hc
  decide +kernel +revert

end EosioSystem
