import EosioSystem.VoteDepth

/-!
# Proxies have no cycles

A voter can turn to a registered proxy only, and a registered proxy uses none itself. A proxy may
be unregistered, keep its voters and turn to another proxy then, so chains of any length arise, but
the last of a chain was never the voter of an earlier one when the link was made. So no chain
returns to its start, in neither of the two systems of votes.

## Main definitions

* `VoteState.links`, `PoolTables.proxyOf`: who uses which proxy
* `ProxiesKept`: the proxies of both systems are in order

## Main results

* `PoolVotes.updateProxy_ne_depth`: the depth suffices for the votes of the pools
* `AllTallied.step`: **every action** keeps the tallies of the pool votes
* `proxies_of_run`: **no cycles**, and the recursion through proxies ends
-/

namespace EosioSystem

open Checked

variable {K : Type}

/-! ## Links -/

/-- Who uses which proxy, and who is one. -/
def VoteState.links (vs : VoteState K) : Links Name := ⟨vs.proxyOf, fun a => (vs.flags a).isProxy⟩

/-- The proxy of a voter in the staking pools. -/
def PoolTables.proxyOf (p : PoolTables K) (a : Name) : Option Name :=
  (p.voters.find a).bind fun v => if v.proxy = .none then none else some v.proxy

namespace VoteState

variable {vs vs' : VoteState K}

theorem links_congr (h : vs'.flags = vs.flags) : vs'.links = vs.links := by
  unfold links
  rw [proxyOf_congr h, h]

/-- A vote changes the link of the voter only. -/
theorem links_vote {a proxy : Name}
    (h : vs'.flags = Function.update vs.flags a { vs.flags a with proxy }) :
    vs'.links = ⟨Function.update vs.proxyOf a (if proxy = .none then none else some proxy),
      vs.links.isProxy⟩ := by
  unfold links proxyOf
  congr 1
  · funext x
    rw [h, Function.update_apply, Function.update_apply]
    split_ifs <;> rfl
  · funext x
    rw [h, Function.update_apply]
    split_ifs with hx
    · rw [hx]
    · rfl

/-- A registration changes no link. -/
theorem links_register {a : Name} {b : Bool}
    (h : vs'.flags = Function.update vs.flags a { vs.flags a with isProxy := b }) :
    vs'.links = ⟨vs.proxyOf, Function.update vs.links.isProxy a b⟩ := by
  unfold links proxyOf
  congr 1
  · funext x
    rw [h, Function.update_apply]
    by_cases hx : x = a
    · rw [if_pos hx, hx]
    · rw [if_neg hx]
  · funext x
    rw [h, Function.update_apply, Function.update_apply]
    split_ifs <;> rfl

theorem links_manage {a : Name} {m : Managed}
    (h : vs'.flags = Function.update vs.flags a { vs.flags a with managed := m }) :
    vs'.links = vs.links := by
  unfold links proxyOf
  congr 1
  · funext x
    rw [h, Function.update_apply]
    by_cases hx : x = a
    · rw [if_pos hx, hx]
    · rw [if_neg hx]
  · funext x
    rw [h, Function.update_apply]
    split_ifs with hx
    · rw [hx]
    · rfl

/-- **The links stay in order**, whatever an action does. -/
theorem links_sound {x : Action K} (hs : vs.links.Sound) (h : VoteChange x vs vs') :
    vs'.links.Sound := by
  cases h with
  | kept h => rwa [links_congr h.flags]
  | vote hf _ hp =>
    rw [links_vote hf]
    refine hs.vote fun y hy => ?_
    split_ifs at hy with hnone
    obtain rfl := Option.some.inj hy
    exact hp.resolve_left hnone
  | register hf _ hb =>
    rw [links_register hf]
    refine hs.register fun ht => ?_
    exact if_pos (hb ht)
  | manage _ hf _ => rwa [links_manage hf]
  | producers _ hv =>
    rwa [links_congr]
    unfold flags
    rw [hv]

end VoteState

/-! ## The votes of the staking pools -/

namespace PoolVotes

variable [Field K] {pv : PoolVotes K}

/-- A greater depth makes no difference once the recursion ends. -/
theorem updatePoolProxy_eq_of_le {n m : ℕ} {a : Name} (hnm : n ≤ m)
    (h : updatePoolProxy n pv a ≠ .error "call depth exceeded") :
    updatePoolProxy m pv a = updatePoolProxy n pv a := by
  induction n generalizing m pv a with
  | zero => exact absurd rfl h
  | succ n ih =>
    obtain ⟨m, rfl⟩ : ∃ m', m = m' + 1 := ⟨m - 1, by omega⟩
    unfold updatePoolProxy
    refine bind_congr_ok fun voter hf => bind_congr_ok fun _ hc => congrArg (· >>= _) ?_
    split_ifs with hproxy
    · refine bind_congr_ok fun p₁ h₁ => bind_congr_ok fun p₂ h₂ => bind_congr_ok fun p₃ h₃ =>
        ih (Nat.le_of_succ_le_succ hnm) fun he => h ?_
      refine bind_eq_error.mpr (.inr ⟨voter, hf, bind_eq_error.mpr (.inr ⟨_, hc, ?_⟩)⟩)
      refine bind_eq_error.mpr (.inl ?_)
      rw [if_pos hproxy]
      refine bind_eq_error.mpr (.inr ⟨p₁, h₁, bind_eq_error.mpr (.inr ⟨p₂, h₂, ?_⟩)⟩)
      exact bind_eq_error.mpr (.inr ⟨p₃, h₃, he⟩)
    · rfl

/-- The depth suffices for the votes of the pools. -/
theorem updateProxy_ne_depth {n : ℕ} {stale : Name → Prop} (h : pv.Tallied n stale) (a : Name) :
    pv.updateProxy a ≠ .error "call depth exceeded" := by
  cases hf : pv.voters.find a with
  | none =>
    unfold updateProxy updatePoolProxy
    rw [hf]
    exact bind_ne_error (require_ne_error (by decide)) fun voter hv => by cases hv
  | some v =>
    obtain ⟨pv', hok, -⟩ := h.updateProxy (a := a) (by rw [hf]; rfl)
    rw [hok]
    exact fun he => by cases he

end PoolVotes

namespace AllTallied

variable [Field K] {s s' : State K}

/-- What does not touch the pool votes keeps the tallies. -/
theorem of_kept (h : AllTallied s)
    (hst : s'.pools.state.map (fun st => (st.totalVotes, st.pools.length)) =
      s.pools.state.map fun st => (st.totalVotes, st.pools.length))
    (hv : s'.pools.voters = s.pools.voters)
    (hk : ProducersKept s.vote.producers s'.vote.producers) : AllTallied s' := by
  have hset : ∀ t, ProducersKept s.vote.producers t →
      AllTallied ({ s with vote := { s.vote with producers := t } } : State K) := by
    intro t ht
    induction ht with
    | refl => exact h
    | set _ hf _ hvotes ih =>
      refine PoolsTallied.setProducer ih rfl rfl rfl (.inl ?_)
      rw [hvotes]
      show _ = (Table.find _ _).bind _
      rw [hf]
      rfl
  exact (hset _ hk).congr hst hv rfl

variable [LinearOrder K] {now : BlockTimestamp}

theorem channelToRexOrPools_pools {sender : Name} {amount : ℤ} {req : Bool}
    (h : s.channelToRexOrPools now sender amount req = .ok s') :
    s'.pools.voters = s.pools.voters ∧
      s'.pools.state.map (fun st => (st.totalVotes, st.pools.length)) =
        s.pools.state.map fun st => (st.totalVotes, st.pools.length) := by
  obtain ⟨s₁, rest, h₁, h₂⟩ := State.channelToRexOrPools_cases h
  have hpools : s'.pools = s₁.pools := by
    rcases h₂ with rfl | h₂
    · rfl
    · rcases State.channelToRex_cases h₂ with ⟨-, rfl⟩ | ⟨rex, token, -, -, -, rfl⟩
      · rfl
      · rfl
  rw [hpools]
  rcases State.transitionChannelToPools_cases h₁ with ⟨rfl, -⟩ | ⟨st, token, hst, -, -, rfl, -⟩
  · exact ⟨rfl, rfl⟩
  · exact ⟨rfl, by simp [hst, length_distribute]⟩

theorem payRamFee_pools {payer : Name} {fee : ℤ} (h : s.payRamFee now payer fee = .ok s') :
    s'.pools.voters = s.pools.voters ∧
      s'.pools.state.map (fun st => (st.totalVotes, st.pools.length)) =
        s.pools.state.map fun st => (st.totalVotes, st.pools.length) := by
  unfold State.payRamFee at h
  split_ifs at h
  · obtain ⟨token, -, h⟩ := bind_eq_ok.mp h
    have hp := channelToRexOrPools_pools h
    exact hp
  · exact pure_eq_ok.mp h ▸ ⟨rfl, rfl⟩

theorem buyram_pools {payer receiver : Name} {quant : Asset}
    (h : s.buyram now payer receiver quant = .ok s') :
    s'.pools.voters = s.pools.voters ∧
      s'.pools.state.map (fun st => (st.totalVotes, st.pools.length)) =
        s.pools.state.map fun st => (st.totalVotes, st.pools.length) := by
  simp only [State.buyram, bind_eq_ok, requireAuth_eq_ok, check_eq_ok, State.checkCore_eq_ok,
    exists_const, pure_eq_ok] at h
  obtain ⟨-, ram, -, -, -, token, -, s₁, hf, ⟨ram', _⟩, -, rfl⟩ := h
  have hp := payRamFee_pools hf
  exact hp

variable [FloorRing K] [CMath K]

/-- The other actions move tokens into the pools at most. -/
theorem exec_pools {env : Env} {x : Action K} (hx : x.isPool = false)
    (h : x.exec env s = .ok s') : s'.pools.voters = s.pools.voters ∧
      s'.pools.state.map (fun st => (st.totalVotes, st.pools.length)) =
        s.pools.state.map fun st => (st.totalVotes, st.pools.length) := by
  by_cases hparts : Part.pools ∈ x.parts
  swap
  · have hsame : s'.pools = s.pools := (Action.exec_changes h).same .pools hparts
    rw [hsame]
    exact ⟨rfl, rfl⟩
  cases x with
  | buyram => exact buyram_pools h
  | buyrambytes =>
    simp only [Action.exec, State.buyrambytes, bind_eq_ok] at h
    obtain ⟨_, -, _, -, _, -, h⟩ := h
    exact buyram_pools h
  | sellram =>
    simp only [Action.exec, State.sellram, bind_eq_ok, requireAuth_eq_ok, check_eq_ok,
      exists_const] at h
    obtain ⟨-, ram, -, -, _, -, -, _, -, ⟨ram', tokens⟩, -, token, -, hf⟩ := h
    have hp := payRamFee_pools hf
    exact hp
  | powerup =>
    simp only [Action.exec, State.powerup, bind_eq_ok, requireAuth_eq_ok, check_eq_ok,
      State.checkCore_eq_ok, exists_const, pure_eq_ok] at h
    obtain ⟨-, m, -, -, -, -, -, -, -, ⟨s₁, m₁, _, _⟩, hq, _, -, _, -, -, -, s₂, h₂, s₃, h₃, s₄, h₄,
      rfl⟩ := h
    obtain ⟨res, powup, rfl⟩ := State.processPowerupQueue_frame hq
    obtain ⟨res₂, rfl⟩ := State.adjustResources_frame h₂
    obtain ⟨res₃, rfl⟩ := State.adjustResources_frame h₃
    have hp := channelToRexOrPools_pools h₄
    exact hp
  | _ => simp [Action.isPool, Action.parts] at hx hparts

/-- **Every action** keeps the tallies of the pool votes. -/
theorem step (h : AllTallied s) {env : Env} {x : Action K} (he : x.exec env s = .ok s') :
    AllTallied s' := by
  cases hx : x.isPool with
  | true => exact (h.exec env hx).of_ok s' he
  | false =>
    obtain ⟨hv, hst⟩ := exec_pools hx he
    refine h.of_kept hst hv ?_
    cases Action.exec_vote he with
    | kept hk => exact hk.producers
    | vote _ hk _ => exact hk
    | register _ hk _ => exact hk
    | manage _ _ hk => exact hk ▸ .refl
    | producers hp => exact absurd (hx.symm.trans hp) Bool.false_ne_true

end AllTallied

/-! ## Runs -/

/-- Nobody has voted, and there are no staking pools. -/
def ProxyStart [Field K] (s : State K) : Prop := s.vote.voters = .empty ∧ PoolInit s

/-- The proxies of both systems are in order. -/
structure ProxiesKept [Field K] (s : State K) : Prop where
  links : s.vote.links.Sound
  pools : AllTallied s

namespace ProxiesKept

variable [Field K] {s s' : State K}

theorem of_start (h : ProxyStart s) : ProxiesKept s := by
  obtain ⟨hv, hpools⟩ := h
  refine ⟨?_, ?_⟩
  · have hflags : s.vote.flags = fun _ => .new := by
      funext a
      rw [VoteState.flags, hv]
      rfl
    have hlinks : s.vote.links = ⟨fun _ => none, fun _ => false⟩ := by
      unfold VoteState.links VoteState.proxyOf
      rw [hflags]
      rfl
    rw [hlinks]
    exact Links.sound_empty
  · simpa only [AllTallied, PoolsTallied, hpools.1] using hpools.2

/-- A proxy of the staking pools uses none, and their proxies have no cycles. -/
theorem pool_links (h : ProxiesKept s) :
    (∀ a v, s.pools.voters.find a = some v → v.isProxy = true → v.proxy = .none) ∧
      Acyclic s.pools.proxyOf := by
  cases hst : s.pools.state with
  | none =>
    have hv : s.pools.voters = .empty := by
      have hp := h.pools
      simp only [AllTallied, PoolsTallied, hst] at hp
      exact hp.1
    refine ⟨fun a v hf => ?_, fun _ => 0, fun x y hxy => ?_⟩
    · rw [hv] at hf
      cases hf
    · rw [PoolTables.proxyOf, hv] at hxy
      cases hxy
  | some st =>
    have ht := (poolsTallied_some hst).mp h.pools
    refine ⟨fun a v hf => ht.wf.isProxy a _ (PoolVotes.shape_voters hf), ?_⟩
    refine ht.wf.acyclic.mono fun x y hxy => ?_
    unfold PoolVotes.Shape.proxyOf PoolVotes.shape
    rw [Option.bind_map]
    exact hxy

variable [LinearOrder K] [FloorRing K] [CMath K]

theorem exec (h : ProxiesKept s) {env : Env} {x : Action K} (he : x.exec env s = .ok s') :
    ProxiesKept s' :=
  ⟨VoteState.links_sound h.links (Action.exec_vote he), h.pools.step he⟩

/-- No action needs a greater depth. -/
theorem exec_ne_depth (h : ProxiesKept s) (env : Env) (x : Action K) :
    x.exec env s ≠ .error "call depth exceeded" := by
  cases hx : x.isPool with
  | true => exact (h.pools.exec env hx).avoids _ (by simp [PoolVotes.poolVoteBugs])
  | false => exact Action.exec_ne_depth hx h.links.acyclic

end ProxiesKept

section Runs

variable [Field K] [LinearOrder K] [FloorRing K] [CMath K]

theorem proxiesKept_of_run {allowed : State K → Action K → Prop} {t : BlockTimestamp} {s : State K}
    (h : Run ProxyStart (Step allowed) t s) : ProxiesKept s := by
  refine h.invariant (P := ProxiesKept) (fun _ => .of_start) ?_
  rintro t s s' hk ⟨isAccount, x, -, he⟩
  exact hk.exec he

/-- **Proxies have no cycles**, in neither of the two systems of votes: no account is a proxy and
uses one, and the chain of proxies from an account does not return to it. No action exceeds the
depth of one call for each voter, and a greater depth would make no difference. -/
theorem proxies_of_run {t : BlockTimestamp} {s : State K}
    (h : Run ProxyStart (Step fun _ _ => True) t s) :
    (∀ a v, s.vote.voters.find a = some v → v.isProxy = true → v.proxy = .none) ∧
    (∀ a v, s.pools.voters.find a = some v → v.isProxy = true → v.proxy = .none) ∧
    (∀ a, ¬Relation.TransGen (fun x y => s.vote.proxyOf x = some y) a a) ∧
    (∀ a, ¬Relation.TransGen (fun x y => s.pools.proxyOf x = some y) a a) ∧
    (∀ env (x : Action K), x.exec env s ≠ .error "call depth exceeded") ∧
    (∀ now a n, s.vote.voters.rows.length < n →
      VoteState.propagateWeightChange now n s.vote a = s.vote.propagate now a) ∧
    ∀ st, s.pools.state = some st → ∀ a n, s.pools.voters.rows.length < n →
      PoolVotes.updatePoolProxy n ⟨st.totalVotes, s.pools.voters, s.vote.producers⟩ a =
        PoolVotes.updateProxy ⟨st.totalVotes, s.pools.voters, s.vote.producers⟩ a := by
  have hk := proxiesKept_of_run h
  obtain ⟨hpool, hacyclic⟩ := hk.pool_links
  refine ⟨fun a v hf hi => ?_, hpool, hk.links.acyclic.not_transGen, hacyclic.not_transGen,
    hk.exec_ne_depth, fun now a n hn => ?_, fun st hst a n hn => ?_⟩
  · by_contra hne
    have hflags := VoteState.flags_of_find hf
    have hnone : s.vote.proxyOf a = none := hk.links.proxy_eq_none a (by
      show (s.vote.flags a).isProxy = true
      rw [hflags]
      exact hi)
    rw [VoteState.proxyOf, hflags] at hnone
    exact absurd ((if_neg hne).symm.trans hnone) (Option.some_ne_none _)
  · exact VoteState.propagateWeightChange_eq_of_le hn (VoteState.propagate_ne_depth
    hk.links.acyclic a)
  · have ht := (poolsTallied_some hst).mp hk.pools
    exact PoolVotes.updatePoolProxy_eq_of_le hn (PoolVotes.updateProxy_ne_depth ht a)

/-- A proxy is unregistered, keeps its voter, and turns to another proxy. -/
def proxyExampleRun : List (BlockTimestamp × Action ℚ) :=
  [(.ofSlot 1, .regproxy ⟨2⟩ true),
   (.ofSlot 2, .regproxy ⟨3⟩ true),
   (.ofSlot 3, .regproxy ⟨1⟩ false),
   (.ofSlot 4, .voteproducer ⟨1⟩ ⟨2⟩ []),
   (.ofSlot 5, .regproxy ⟨2⟩ false),
   (.ofSlot 6, .voteproducer ⟨2⟩ ⟨3⟩ [])]

theorem proxies_of_run_example : ∃ s : State ℚ, s.vote.proxyOf ⟨1⟩ = some ⟨2⟩ ∧
    s.vote.proxyOf ⟨2⟩ = some ⟨3⟩ ∧
    ∀ a, ¬Relation.TransGen (fun x y => s.vote.proxyOf x = some y) a a := by
  have hrun : (execAll (Action.execIn fun _ _ => true) (.ofSlot 0) proxyExampleRun
      exampleChain).any fun p => decide (p.2.vote.proxyOf ⟨1⟩ = some ⟨2⟩ ∧
        p.2.vote.proxyOf ⟨2⟩ = some ⟨3⟩) := by decide +kernel
  have hinit : ProxyStart exampleChain := by
    refine ⟨rfl, rfl, rfl, fun p prod hf => ?_⟩
    cases hf
  have hstep : ∀ t x (s s' : State ℚ), Action.execIn (fun _ _ => true) t x s = .ok s' →
      Step (fun _ _ => True) t s s' :=
    fun _ x _ _ he => ⟨_, x, trivial, (check_bind_eq_ok.mp he).2⟩
  obtain ⟨t, s, h, htest⟩ := exists_run_of_execAll hstep hinit hrun
  obtain ⟨h₁, h₂⟩ := of_decide_eq_true htest
  exact ⟨s, h₁, h₂, (proxies_of_run h).2.2.1⟩

end Runs

end EosioSystem
