import EosioSystem.Rex.ReturnLedger
import EosioSystem.StakingPool.Solvency

/-!
# Where a fee goes

A fee is divided between the staking pools and REX. What the paying account loses is what the
pools and the return pool of REX gain, the pools with shares get equal parts up to one unit, and
a fee that has to be paid in full is paid in full or not at all.

## Main definitions

* `State.feeForPools`, `State.feeForRex`: the two parts of a fee
* `FeeMoved`: an account has paid the two parts of a fee
* `State.FeeReceivable`: somebody can receive a fee

## Main results

* `distribute_received`: the pools get equal parts up to one unit
* `transition_eq_floor`, `transition_mono`: the part of the pools grows with the transition
* `channelToRexOrPools_exact`: **nothing of a fee is lost, duplicated or charged without being
  delivered**
-/

namespace EosioSystem

open Checked

section Pools

variable {K : Type} [Field K] [LinearOrder K]

/-- The pool gets `q` or `q + 1` tokens if it has shares, and nothing otherwise. -/
def StakingPool.Received (q : ℤ) (p p' : StakingPool K) : Prop :=
  ∃ amount, p' = p.adjust amount ∧
    if p.tokenPool.totalShares = 0 then amount = 0 else q ≤ amount ∧ amount ≤ q + 1

/-- Two multiples of a fraction, one apart, differ by the fraction up to rounding. -/
theorem tdiv_mul_succ {total : ℤ} (h : 0 ≤ total) {n : ℕ} (hn : n ≠ 0) (i : ℕ) :
    total / n ≤ (total * (i + 1 : ℕ)).tdiv n - (total * i).tdiv n ∧
      (total * (i + 1 : ℕ)).tdiv n - (total * i).tdiv n ≤ total / n + 1 := by
  have hn' : (0 : ℤ) < n := by exact_mod_cast Nat.pos_of_ne_zero hn
  rw [Int.tdiv_eq_ediv_of_nonneg (by positivity), Int.tdiv_eq_ediv_of_nonneg (by positivity)]
  have ha := Int.mul_ediv_self_le (x := total * i) hn'.ne'
  have ha' := Int.lt_mul_ediv_self_add (x := total * i) hn'
  have hb := Int.mul_ediv_self_le (x := total * (i + 1 : ℕ)) hn'.ne'
  have hb' := Int.lt_mul_ediv_self_add (x := total * (i + 1 : ℕ)) hn'
  have hq := Int.mul_ediv_self_le (x := total) hn'.ne'
  have hq' := Int.lt_mul_ediv_self_add (x := total) hn'
  push_cast at hb hb' ⊢
  constructor
  · have : (n : ℤ) * (total / n) < n * (total * (i + 1) / n - total * i / n + 1) := by linarith
    have := lt_of_mul_lt_mul_left this hn'.le
    omega
  · have : (n : ℤ) * (total * (i + 1) / n - total * i / n) < n * (total / n + 2) := by linarith
    have := lt_of_mul_lt_mul_left this hn'.le
    omega

/-- **The pools with shares get equal parts** up to one unit. -/
theorem distribute_received {total : ℤ} (h : 0 ≤ total) {n : ℕ} (hn : n ≠ 0) (i : ℕ)
    (l : List (StakingPool K)) :
    List.Forall₂ (StakingPool.Received (total / n)) l
      (distribute total n i ((total * i).tdiv n) l) := by
  induction l generalizing i with
  | nil => exact .nil
  | cons p l ih =>
    unfold distribute
    split_ifs with hp
    · refine .cons ⟨_, rfl, ?_⟩ ?_
      · rw [if_neg hp]
        exact tdiv_mul_succ h hn i
      · rw [add_sub_cancel]
        exact ih (i + 1)
    · refine .cons ⟨0, by simp [StakingPool.adjust], ?_⟩ (ih i)
      rw [if_pos (not_not.mp hp)]

variable [IsStrictOrderedRing K] [FloorRing K]

/-- The part of the pools is the elapsed fraction of the amount, rounded down. -/
theorem transition_eq_floor (st : StakingPoolState K) (slot : ℕ) {amount : ℤ} (h : 0 ≤ amount) :
    st.transition slot amount = ⌊(amount : K) * st.transitionFraction slot⌋ := by
  unfold StakingPoolState.transition StakingPoolState.transitionFraction
  split_ifs
  · simp
  · simp
  · have hcast : (amount : K) * ((slot - st.beginTransition : ℕ) : K) =
        ((amount * (slot - st.beginTransition : ℕ) : ℤ) : K) := by push_cast; ring
    rw [Int.tdiv_eq_ediv_of_nonneg (by positivity), ← mul_div_assoc, hcast,
      Int.floor_div_natCast, Int.floor_intCast]

omit [Field K] [LinearOrder K] [IsStrictOrderedRing K] [FloorRing K] in
/-- The part of the pools does not fall with time. -/
theorem transition_mono (st : StakingPoolState K) {slot slot' : ℕ} (hle : slot ≤ slot') {amount : ℤ}
    (h : 0 ≤ amount) : st.transition slot amount ≤ st.transition slot' amount := by
  by_cases h₁ : st.endTransition ≤ slot'
  · rw [StakingPoolState.transition.eq_1 st slot', if_pos h₁]
    exact (st.transition_mem slot h).2
  by_cases h₂ : slot ≤ st.beginTransition
  · rw [StakingPoolState.transition.eq_1 st slot, if_neg (by omega), if_pos h₂]
    exact (st.transition_mem slot' h).1
  · unfold StakingPoolState.transition
    rw [if_neg (by omega), if_neg h₂, if_neg h₁, if_neg (by omega),
      Int.tdiv_eq_ediv_of_nonneg (by positivity), Int.tdiv_eq_ediv_of_nonneg (by positivity)]
    have hd : 0 < st.endTransition - st.beginTransition := by omega
    have hsub : slot - st.beginTransition ≤ slot' - st.beginTransition := by omega
    exact Int.ediv_le_ediv (by exact_mod_cast hd)
      (mul_le_mul_of_nonneg_left (by exact_mod_cast hsub) h)

end Pools

variable {K : Type} [Field K] [LinearOrder K]

namespace State

/-- The staking pools, of which there are none before they have been configured. -/
def poolList (s : State K) : List (StakingPool K) := s.pools.state.elim [] fun st => st.pools

/-- Somebody can receive a fee: a pool has shares, or there is REX. -/
def FeeReceivable (s : State K) : Prop :=
  (∃ p ∈ s.poolList, p.tokenPool.totalShares ≠ 0) ∨ s.rex.available = true

/-- The part of a fee for the pools. -/
def feeForPools (now : BlockTimestamp) (s : State K) (amount : ℤ) (req : Bool) : ℤ :=
  match s.pools.state with
  | none => 0
  | some st =>
    if activePools st.pools = 0 then 0
    else feeToPools now st amount (!req || s.rex.available)

/-- The part of a fee for REX. -/
def feeForRex (now : BlockTimestamp) (s : State K) (amount : ℤ) (req : Bool) : ℤ :=
  if s.rex.available then amount - s.feeForPools now amount req else 0

theorem feeForPools_mem (now : BlockTimestamp) (s : State K) {amount : ℤ} (h : 0 ≤ amount)
    (req : Bool) : 0 ≤ s.feeForPools now amount req ∧ s.feeForPools now amount req ≤ amount := by
  unfold feeForPools feeToPools
  split
  · exact ⟨le_rfl, h⟩
  · rename_i st hst
    split_ifs
    · exact ⟨le_rfl, h⟩
    · exact st.transition_mem now.slot h
    · exact ⟨h, le_rfl⟩

theorem activePools_ne_zero_iff (l : List (StakingPool K)) :
    activePools l ≠ 0 ↔ ∃ p ∈ l, p.tokenPool.totalShares ≠ 0 := by
  rw [activePools, ← Nat.pos_iff_ne_zero, List.countP_pos_iff]
  simp

end State

/-- The sender has paid `toPools` to the pools and `toRex` to REX: the pools have gained the first,
each its part, and the return pool the second, after it has been brought up to date. -/
structure FeeMoved (now : BlockTimestamp) (sender : Name) (toPools toRex : ℤ) (s s' : State K) :
    Prop where
  paid : s'.token.balance sender = s.token.balance sender - (toPools + toRex)
  pools : ∃ q, List.Forall₂ (StakingPool.Received q) s.poolList s'.poolList
  poolBalances : balances s'.poolList = balances s.poolList + toPools
  rex : toRex = 0 ∧ s'.rex = s.rex ∨ ∃ rex, s.rex.updateRexPool now.sec = .ok rex ∧
    s'.rex = { rex with ret := rex.ret.addFee now.sec toRex } ∧
    s'.rex.ret.proceeds = rex.ret.proceeds + toRex

/-- The pools have been paid, and then REX. -/
theorem FeeMoved.trans {now : BlockTimestamp} {sender : Name} {s s₁ s' : State K}
    {toPools toRex : ℤ} (hr : s₁.rex = s.rex)
    (hp : s'.pools = s₁.pools) (h₁ : FeeMoved now sender toPools 0 s s₁)
    (h₂ : FeeMoved now sender 0 toRex s₁ s') : FeeMoved now sender toPools toRex s s' := by
  have hlist : s'.poolList = s₁.poolList := by rw [State.poolList, hp, State.poolList]
  refine ⟨?_, ?_, ?_, ?_⟩
  · rw [h₂.paid, h₁.paid]
    ring
  · rw [hlist]
    exact h₁.pools
  · rw [hlist]
    exact h₁.poolBalances
  · rw [← hr]
    exact h₂.rex

/-- A pool that gets nothing. -/
theorem StakingPool.Received.refl (p : StakingPool K) : StakingPool.Received 0 p p :=
  ⟨0, by simp [StakingPool.adjust], by simp⟩

theorem RexReturn.proceeds_addFee (now : ℕ) (fee : ℤ) (ret : RexReturn) :
    (ret.addFee now fee).proceeds = ret.proceeds + fee := by
  unfold RexReturn.addFee RexReturn.proceeds
  cases ret.pool with
  | none => simp
  | some rp => rfl

namespace State

variable {now : BlockTimestamp} {s : State K} {sender : Name} {amount : ℤ} {req : Bool}

/-- The pools receive their part, and the rest remains. -/
theorem transitionChannelToPools_spec (h : 0 < amount) (hpool : sender ≠ srpoolAccount)
    (hfunds : amount ≤ s.token.balance sender) :
    ∃ s₁, s.transitionChannelToPools now sender amount (!req || s.rex.available) =
        .ok (s₁, amount - s.feeForPools now amount req) ∧ s₁.rex = s.rex ∧
      FeeMoved now sender (s.feeForPools now amount req) 0 s s₁ := by
  have hmem := s.feeForPools_mem now h.le req
  have hsame : FeeMoved now sender 0 0 s s :=
    ⟨by simp, ⟨0, List.forall₂_same.mpr fun p _ => .refl p⟩, by simp, .inl ⟨rfl, rfl⟩⟩
  cases hst : s.pools.state with
  | none =>
    refine ⟨s, ?_, rfl, ?_⟩
    · simp [transitionChannelToPools, feeForPools, hst, pure, Except.pure]
    · simpa [feeForPools, hst] using hsame
  | some st =>
    by_cases hn : activePools st.pools = 0
    · refine ⟨s, ?_, rfl, ?_⟩
      · simp [transitionChannelToPools, feeForPools, hst, hn, pure, Except.pure]
      · simpa [feeForPools, hst, hn] using hsame
    have hfee : s.feeForPools now amount req =
        feeToPools now st amount (!req || s.rex.available) := by
      simp only [feeForPools, hst, if_neg hn]
    rw [← hfee.symm] at hmem
    set toPools := feeToPools now st amount (!req || s.rex.available) with hto
    rw [hfee]
    by_cases hz : toPools = 0
    · refine ⟨s, ?_, rfl, by simpa [hz] using hsame⟩
      simp [transitionChannelToPools, hst, ← hto, hz, pure, Except.pure]
    -- the transfer to the pools cannot fail
    have ht := Token.transfer_isOk hpool (lt_of_le_of_ne hmem.1 (Ne.symm hz))
      (hmem.2.trans hfunds)
    refine ⟨{ s with
      token := (s.token.addBalance sender (-toPools)).addBalance srpoolAccount toPools
      pools := { s.pools with state := some { st with
        pools := distribute toPools (activePools st.pools) 0 0 st.pools } } }, ?_, rfl, ?_⟩
    · simp only [transitionChannelToPools, hst, ← hto, hn, hz, or_self, if_false, ht]
      rfl
    · have hdist := distribute_received hmem.1 hn 0 st.pools
      simp only [Nat.cast_zero, mul_zero, Int.zero_tdiv] at hdist
      refine ⟨?_, ⟨_, by simpa [poolList, hst] using hdist⟩, ?_, .inl ⟨rfl, rfl⟩⟩
      · simp [hpool]
        ring
      · simpa [poolList, hst] using balances_distribute toPools hn

/-- REX receives its part if there is REX, and the pools do not notice. -/
theorem channelToRex_spec {q : ℤ} (h : 0 < q) (hrex : sender ≠ rexAccount)
    (hfunds : q ≤ s.token.balance sender) :
    ∃ s', s.channelToRex now sender q = .ok s' ∧ s'.pools = s.pools ∧
      FeeMoved now sender 0 (if s.rex.available then q else 0) s s' := by
  have hpools : ∃ r, List.Forall₂ (StakingPool.Received r) s.poolList s.poolList :=
    ⟨0, List.forall₂_same.mpr fun p _ => .refl p⟩
  unfold channelToRex
  split_ifs with ha
  · have ht := Token.transfer_isOk hrex h hfunds
    obtain ⟨p, hp⟩ : ∃ p, s.rex.pool = some p := by
      rw [RexState.available, Option.any_eq_true] at ha
      obtain ⟨p, hp, -⟩ := ha
      exact ⟨p, hp⟩
    -- with a pool the distribution of what is due cannot fail
    obtain ⟨rex, hr⟩ : ∃ rex, s.rex.updateRexPool now.sec = .ok rex := by
      unfold RexState.updateRexPool RexState.getPool
      rw [hp]
      dsimp only
      split_ifs
      · exact ⟨_, rfl⟩
      · exact ⟨_, rfl⟩
    have hadd : s.rex.addToRexReturnPool now.sec q =
        .ok { rex with ret := rex.ret.addFee now.sec q } := by
      simp only [RexState.addToRexReturnPool, hr, if_neg (not_le.mpr h)]
      rfl
    refine ⟨{ s with
      rex := { rex with ret := rex.ret.addFee now.sec q }
      token := (s.token.addBalance sender (-q)).addBalance rexAccount q }, ?_, rfl, ?_, hpools, ?_,
      .inr ⟨rex, hr, rfl, RexReturn.proceeds_addFee _ _ _⟩⟩
    · rw [hadd, ht]
      rfl
    · simp [hrex]
      ring
    · simp [poolList]
  · exact ⟨s, rfl, rfl, by simp, hpools, by simp, .inl ⟨rfl, rfl⟩⟩

/-- When REX is there to receive what the pools do not get, or somebody has to, the two parts are
all of the fee. -/
theorem feeParts_eq (now : BlockTimestamp) (s : State K) (amount : ℤ) {req : Bool}
    (h : s.rex.available = true ∨ req = true ∧ s.FeeReceivable) :
    s.feeForPools now amount req + s.feeForRex now amount req = amount := by
  unfold feeForRex
  split_ifs with ha
  · ring
  · obtain ⟨rfl, ⟨p, hp, hs⟩ | ha'⟩ := h.resolve_left ha
    · cases hst : s.pools.state with
      | none => simp [poolList, hst] at hp
      | some st =>
        have hn : activePools st.pools ≠ 0 :=
          (activePools_ne_zero_iff _).mpr ⟨p, by simpa [poolList, hst] using hp, hs⟩
        simp [feeForPools, hst, hn, feeToPools, ha]
    · exact absurd ha' ha

/-- What a fee does. -/
theorem channelToRexOrPools_spec (h : 0 < amount) (hrex : sender ≠ rexAccount)
    (hpool : sender ≠ srpoolAccount) (hfunds : amount ≤ s.token.balance sender) :
    (∃ s', s.channelToRexOrPools now sender amount req = .ok s' ∧
      FeeMoved now sender (s.feeForPools now amount req) (s.feeForRex now amount req) s s') ∧
        (req = false ∨ s.FeeReceivable) ∨
    s.channelToRexOrPools now sender amount req = .error "can't channel fees to pools or to rex" ∧
      req = true ∧ ¬s.FeeReceivable := by
  obtain ⟨hmem₀, hmem⟩ := s.feeForPools_mem now h.le req
  obtain ⟨s₁, h₁, hr, hm₁⟩ : ∃ s₁,
      s.transitionChannelToPools now sender amount (!req || s.rex.available) = .ok (s₁, _) ∧ _ :=
    transitionChannelToPools_spec h hpool hfunds
  set p := s.feeForPools now amount req with hp
  have hbind : s.channelToRexOrPools now sender amount req =
      if amount - p = 0 then .ok s₁
      else check ((!req || s₁.rex.available) = true) "can't channel fees to pools or to rex" >>=
        fun _ => s₁.channelToRex now sender (amount - p) := by
    simp only [channelToRexOrPools, h₁]
    rfl
  rw [hbind]
  by_cases hz : amount - p = 0
  · -- the pools get all of it
    refine .inl ⟨⟨s₁, if_pos hz, ?_⟩, ?_⟩
    · have hzero : s.feeForRex now amount req = 0 := by
        rw [feeForRex, ← hp, hz, ite_self]
      rwa [hzero]
    · refine .inr (.inl ?_)
      have hpos : s.feeForPools now amount req ≠ 0 := by omega
      unfold feeForPools at hpos
      cases hst : s.pools.state with
      | none => simp [hst] at hpos
      | some st =>
        simp only [hst] at hpos
        split_ifs at hpos with hn
        · exact absurd rfl hpos
        · simpa [poolList, hst] using (activePools_ne_zero_iff _).mp hn
  rw [if_neg hz]
  by_cases hc : (!req || s₁.rex.available) = true
  · obtain ⟨s', h₂, hpl, hm₂⟩ := channelToRex_spec (by omega : 0 < amount - p) hrex
      (by rw [hm₁.paid]; omega) (s := s₁)
    refine .inl ⟨⟨s', ?_, ?_⟩, ?_⟩
    · rw [check_of hc]
      exact h₂
    · rw [hr] at hm₂
      exact hm₁.trans hr hpl hm₂
    · rw [hr, Bool.or_eq_true, Bool.not_eq_true'] at hc
      exact hc.imp_right .inr
  · rw [hr, Bool.or_eq_true, not_or, Bool.not_eq_true', Bool.not_eq_false] at hc
    refine .inr ⟨?_, hc.1, fun hf => hz ?_⟩
    · simp [check, hr, hc.1, hc.2]
      rfl
    · have := feeParts_eq now s amount (.inr ⟨hc.1, hf⟩)
      rw [← hp, feeForRex, if_neg hc.2] at this
      omega

end State

/-- **A fee is delivered in full or refused where it has to be, and in part where it need not.**
What the paying account loses is what the pools and the return pool gain, the pools with shares
get equal parts up to one unit, and with both there the part of the pools is the elapsed fraction of
the transition, rounded down, which grows from nothing to all. -/
theorem channelToRexOrPools_exact [IsStrictOrderedRing K] [FloorRing K] {s : State K}
    {sender : Name} {amount : ℤ} (h : 0 < amount) (hrex : sender ≠ rexAccount)
    (hpool : sender ≠ srpoolAccount) (hfunds : amount ≤ s.token.balance sender)
    (now : BlockTimestamp) (req : Bool) :
    (∀ s', s.channelToRexOrPools now sender amount req = .ok s' →
      FeeMoved now sender (s.feeForPools now amount req) (s.feeForRex now amount req) s s' ∧
        0 ≤ s.feeForPools now amount req ∧ 0 ≤ s.feeForRex now amount req ∧
        s.feeForPools now amount req + s.feeForRex now amount req ≤ amount ∧
        (req = true → s.feeForPools now amount req + s.feeForRex now amount req = amount)) ∧
    ((∃ s', s.channelToRexOrPools now sender amount req = .ok s') ↔
      req = false ∨ s.FeeReceivable) ∧
    (∀ st, s.pools.state = some st → (∃ p ∈ st.pools, p.tokenPool.totalShares ≠ 0) →
      s.rex.available = true →
        s.feeForPools now amount req = ⌊(amount : K) * st.transitionFraction now.slot⌋ ∧
        (∀ later, now ≤ later →
          s.feeForPools now amount req ≤ s.feeForPools later amount req) ∧
        (now.slot ≤ st.beginTransition → now.slot < st.endTransition →
          s.feeForPools now amount req = 0) ∧
        (st.endTransition ≤ now.slot → s.feeForPools now amount req = amount)) := by
  obtain ⟨hmem₀, hmem⟩ := s.feeForPools_mem now h.le req
  have hspec : (∃ s₁, s.channelToRexOrPools now sender amount req = .ok s₁ ∧ _) ∧ _ ∨ _ :=
    State.channelToRexOrPools_spec h hrex hpool hfunds
  refine ⟨fun s' hs => ?_, ?_, fun st hst hact ha => ?_⟩
  · rcases hspec with ⟨⟨s₁, hs₁, hm⟩, hr⟩ | ⟨he, -, -⟩
    · obtain rfl := Except.ok.inj (hs₁.symm.trans hs)
      refine ⟨hm, hmem₀, ?_, ?_, fun hreq => ?_⟩
      · unfold State.feeForRex
        split_ifs <;> omega
      · unfold State.feeForRex
        split_ifs <;> omega
      · exact State.feeParts_eq now s amount (.inr ⟨hreq, hr.resolve_left (by simp [hreq])⟩)
    · rw [he] at hs
      cases hs
  · rcases hspec with ⟨⟨s₁, hs₁, -⟩, hr⟩ | ⟨he, hreq, hr⟩
    · exact ⟨fun _ => hr, fun _ => ⟨s₁, hs₁⟩⟩
    · constructor
      · rintro ⟨s', hs⟩
        rw [he] at hs
        cases hs
      · rintro (hf | hf)
        · rw [hreq] at hf
          cases hf
        · exact absurd hf hr
  · have hpart : ∀ t, s.feeForPools t amount req = st.transition t.slot amount := by
      intro t
      simp [State.feeForPools, hst, (State.activePools_ne_zero_iff _).mpr hact, State.feeToPools,
        ha]
    simp only [hpart]
    refine ⟨transition_eq_floor st now.slot h.le, fun later hle => ?_, fun hb he => ?_, fun he =>
      ?_⟩
    · exact transition_mono st hle h.le
    · rw [StakingPoolState.transition, if_neg (not_le.mpr he), if_pos hb]
    · rw [StakingPoolState.transition, if_pos he]

/-- A quarter of the way through the transition to three pools, one of them without shares. -/
def feeExample : State ℚ :=
  { State.genesis ⟨⟨1397703940⟩, Table.empty.set ⟨1⟩ 1000000, 1000000⟩ with
    pools := ⟨some ⟨0, 100, 0, 0, 50, 0, 10000,
      [⟨100, 10, 1, ⟨500, 500⟩⟩, ⟨200, 20, 1, ⟨0, 0⟩⟩, ⟨300, 30, 1, ⟨700, 600⟩⟩],
      0, 0, 0, [0, 0, 0], 0⟩, .empty, .empty⟩
    rex := { RexState.empty with pool := some ⟨0, 1000, initTotalRent, 1000, 10000000, 0, 0⟩ } }

theorem channelToRexOrPools_exact_example :
    ∃ s', feeExample.channelToRexOrPools (.ofSlot 25) ⟨1⟩ 100 true = .ok s' ∧
      FeeMoved (.ofSlot 25) ⟨1⟩ 25 75 feeExample s' := by
  have hx := channelToRexOrPools_exact (s := feeExample) (by decide : (0 : ℤ) < 100)
    (by decide : (⟨1⟩ : Name) ≠ rexAccount) (by decide) (by decide) (.ofSlot 25) true
  obtain ⟨s', hs⟩ := hx.2.1.mpr (.inr (.inr (by decide)))
  have hp : feeExample.feeForPools (.ofSlot 25) 100 true = 25 := by decide +kernel
  have hr : feeExample.feeForRex (.ofSlot 25) 100 true = 75 := by decide +kernel
  refine ⟨s', hs, ?_⟩
  rw [← hp, ← hr]
  exact (hx.1 s' hs).1

end EosioSystem
