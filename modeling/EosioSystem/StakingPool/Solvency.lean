import EosioSystem.StakingPool.Actions

/-!
# Solvency of a staking pool

A staking pool sells shares in the tokens it holds. Whatever is deposited, withdrawn or paid into
it, the pool has shares if and only if it has tokens, and its shares are those of its owners.

## Main definitions

* `Pool.Solvent`: a pool has shares if and only if it has tokens
* `Book`: the pools are solvent, and the shares of each are those in the voters' records
* `solvencyBugs`: the errors of computations that need a solvent pool

## Main results

* `depositPool_spec`, `withdrawPool_spec`: **deposits and withdrawals keep a pool solvent**
* `Book.deposit2pool`, `Book.withdrawFrom`: they move as many shares as the pool does
* `distribute_credited`, `balances_distribute`: a fee reaches the pools with shares as a whole
-/

namespace EosioSystem

open Checked

/-- The errors of checks on a pool, and of divisions by zero. -/
def solvencyBugs : List Error :=
  ["pool shares is negative", "pool amount is negative", "zero divisor", "no shares in pool",
    "divide by zero"]

variable {K : Type} [Field K] [LinearOrder K]

/-- A pool has shares if and only if it has tokens, and neither is negative. -/
structure Pool.Solvent (p : Pool K) : Prop where
  balance_nonneg : 0 ≤ p.balance
  shares_nonneg : 0 ≤ p.totalShares
  shares_pos : 0 < p.totalShares ↔ 0 < p.balance

namespace Pool

variable {p : Pool K}

theorem Solvent.empty : (⟨0, 0⟩ : Pool K).Solvent := ⟨le_rfl, le_rfl, by simp⟩

theorem solvent_of_pos (hb : 0 < p.balance) (hs : 0 < p.totalShares) : p.Solvent :=
  ⟨hb.le, hs.le, iff_of_true hs hb⟩

/-- The shares for some tokens have a price. -/
theorem Solvent.buy (h : p.Solvent) (b : ℤ) :
    Yields solvencyBugs (fun r => r.1 = ⟨p.balance + b, p.totalShares + r.2⟩) (p.buy b) := by
  refine Avoids.bind_yields ?_ fun out _ => .pure rfl
  refine .ite (.pure _) ?_
  by_cases hs : p.totalShares = 0
  · rw [if_pos hs]
    exact .pure _
  · rw [if_neg hs]
    have hpos : 0 < p.balance := h.shares_pos.mp (lt_of_le_of_ne h.shares_nonneg (Ne.symm hs))
    exact .bind (.check (.inr hpos.ne')) fun _ _ => .pure _

variable [IsStrictOrderedRing K]

/-- The shares for a part of the tokens have a price. -/
theorem Solvent.sharesFor (h : p.Solvent) {d : ℤ} (hd : 0 < d) (hb : 0 < p.balance) :
    Yields solvencyBugs (0 ≤ ·) (p.sharesFor d) := by
  refine .ite (fun _ => .pure h.shares_nonneg) fun _ => .ite (fun _ => .pure le_rfl) fun _ =>
    Avoids.bind_yields (.check (.inr hb.ne')) fun _ _ => .pure ?_
  have : (0 : K) ≤ d := by exact_mod_cast hd.le
  have : (0 : K) ≤ p.balance := by exact_mod_cast hb.le
  have := h.shares_nonneg
  positivity

variable [FloorRing K]

/-- **The sale of a part of the shares** leaves a solvent pool. -/
theorem Solvent.simulateSell (h : p.Solvent) {s : K} (h₀ : 0 ≤ s) (hs : s ≤ p.totalShares) :
    Yields solvencyBugs (fun out => 0 ≤ out ∧
      (⟨p.balance - out, p.totalShares - s⟩ : Pool K).Solvent) (p.simulateSell s) := by
  refine .ite (fun hz => .pure ⟨le_rfl, ?_⟩) fun hz => .ite (fun hall => .pure ?_) fun hpart => ?_
  · subst hz
    simpa using h
  · obtain rfl : s = p.totalShares := le_antisymm hs hall
    simpa using ⟨h.balance_nonneg, Solvent.empty⟩
  · have hpos : 0 < s := lt_of_le_of_ne h₀ (Ne.symm hz)
    have hlt : s < p.totalShares := not_le.mp hpart
    have ht : 0 < p.totalShares := hpos.trans hlt
    have hb : (0 : K) < p.balance := by exact_mod_cast h.shares_pos.mp ht
    refine Avoids.bind_yields (.check (.inr ht)) fun _ _ => .pure ?_
    have hx : 0 ≤ s * p.balance / p.totalShares := by positivity
    have hx' : s * p.balance / p.totalShares < p.balance := by
      rw [div_lt_iff₀ ht, mul_comm]
      exact mul_lt_mul_of_pos_left hlt hb
    rw [truncate, if_pos hx]
    refine ⟨Int.floor_nonneg.mpr hx, solvent_of_pos ?_ (sub_pos.mpr hlt)⟩
    exact sub_pos.mpr (Int.floor_lt.mpr hx')

theorem Solvent.sell (h : p.Solvent) {s : K} (h₀ : 0 ≤ s) (hs : s ≤ p.totalShares) :
    Yields solvencyBugs (fun r => 0 ≤ r.2 ∧ r.1.Solvent ∧ r.1.balance = p.balance - r.2 ∧
      r.1.totalShares = p.totalShares - s) (p.sell s) := by
  refine .bind (h.simulateSell h₀ hs) ?_
  rintro out ⟨hout, hp⟩
  exact .pure ⟨hout, hp, rfl, rfl⟩

end Pool

variable [FloorRing K] [IsStrictOrderedRing K]

/-- **A deposit** keeps the pool solvent; the new shares are the owner's. -/
theorem depositPool_spec {pool : StakingPool K} (h : pool.tokenPool.Solvent) {owned : K}
    (h₀ : 0 ≤ owned) (ho : owned ≤ pool.tokenPool.totalShares) {amount : ℤ} (ha : 0 < amount)
    (now : BlockTimestamp) (next : ℕ) :
    Yields solvencyBugs (fun r => r.1.tokenPool.Solvent ∧
      r.1.tokenPool.balance = pool.tokenPool.balance + amount ∧
      r.1.tokenPool.totalShares - pool.tokenPool.totalShares = r.2.1 - owned ∧ 0 ≤ r.2.1)
      (depositPool now pool owned next amount) := by
  refine .bind (h.simulateSell h₀ ho) ?_
  rintro balance ⟨hb, -⟩
  refine .bind (h.buy amount) ?_
  rintro ⟨tokenPool, new⟩ hbuy
  refine Avoids.bind_yields (.check (.inl (by decide))) fun _ hnew =>
    Avoids.bind_yields (.check (.inr (by omega))) fun _ _ => .pure ?_
  have hnew' : 0 < new := check_eq_ok.mp hnew
  dsimp only at hbuy ⊢
  subst hbuy
  refine ⟨Pool.solvent_of_pos ?_ ?_, rfl, by ring, by linarith⟩
  · have := h.balance_nonneg
    dsimp only
    omega
  · have := h.shares_nonneg
    dsimp only
    linarith

/-- **A withdrawal** keeps the pool solvent; the shares sold were the owner's. -/
theorem withdrawPool_spec {pool : StakingPool K} (h : pool.tokenPool.Solvent) {owned : K}
    (h₀ : 0 ≤ owned) (ho : owned ≤ pool.tokenPool.totalShares) (requested : ℤ) (claiming : Bool) :
    Yields solvencyBugs (fun r => r.1.tokenPool.Solvent ∧
      r.1.tokenPool.balance = pool.tokenPool.balance - r.2.2 ∧
      r.1.tokenPool.totalShares - pool.tokenPool.totalShares = r.2.1 - owned ∧ 0 ≤ r.2.1 ∧
      0 ≤ r.2.2)
      (withdrawPool pool owned requested claiming) := by
  refine .bind (h.simulateSell h₀ ho) ?_
  rintro balance ⟨hb, hrest⟩
  refine .ite (fun _ => ?_) fun _ => ?_
  · refine .bind (h.sell h₀ ho) ?_
    rintro ⟨tokenPool, sold⟩ ⟨hsold, hp, hbal, hshares⟩
    refine .pure ?_
    dsimp only at *
    exact ⟨hp, hbal, by rw [hshares]; ring, le_rfl, hsold⟩
  · refine Avoids.bind_yields (.check (.inl (by decide))) fun _ hsell => ?_
    have hsell' := check_eq_ok.mp hsell
    -- an amount can only be withdrawn from a pool with tokens
    have hpos : 0 < pool.tokenPool.balance := by
      have hle : balance ≤ pool.tokenPool.balance := by
        have := hrest.balance_nonneg
        dsimp only at this
        omega
      rcases hb.eq_or_lt with hb | hb
      · subst hb
        simp at hsell'
      · omega
    refine .bind (h.sharesFor hsell' hpos) fun shares hshares => ?_
    refine .bind (h.sell (le_min hshares h₀) ((min_le_right _ _).trans ho)) ?_
    rintro ⟨tokenPool, sold⟩ ⟨hsold, hp, hbal, htotal⟩
    refine Avoids.bind_yields (.check (.inl (by decide))) fun _ _ => .pure ?_
    dsimp only at *
    exact ⟨hp, hbal, by rw [htotal]; ring, sub_nonneg.mpr (min_le_right _ _), hsold⟩

/-! ## The pools and their owners -/

/-- The tokens of all pools. -/
def balances (pools : List (StakingPool K)) : ℤ := (pools.map fun p => p.tokenPool.balance).sum

/-- The pools are solvent, and the shares in each are those of its owners. -/
structure Book (voters : Table Name (PoolVoter K)) (pools : List (StakingPool K)) : Prop where
  solvent : ∀ (i : ℕ) (p : StakingPool K), pools[i]? = some p → p.tokenPool.Solvent
  shares : ∀ (i : ℕ) (p : StakingPool K), pools[i]? = some p →
    p.tokenPool.totalShares = voters.sum fun _ v => v.ownedShares.getD i 0
  owned_nonneg : ∀ a v, voters.find a = some v → ∀ i, 0 ≤ v.ownedShares.getD i 0
  length : ∀ a v, voters.find a = some v → v.ownedShares.length = pools.length

omit [Field K] [LinearOrder K] [FloorRing K] [IsStrictOrderedRing K] in
theorem balances_cons (p : StakingPool K) (l : List (StakingPool K)) :
    balances (p :: l) = p.tokenPool.balance + balances l := rfl

omit [FloorRing K] [IsStrictOrderedRing K] in
theorem activePools_cons (p : StakingPool K) (l : List (StakingPool K)) :
    activePools (p :: l) = (if p.tokenPool.totalShares = 0 then 0 else 1) + activePools l := by
  unfold activePools
  rw [List.countP_cons]
  split_ifs <;> simp_all [add_comm]

omit [Field K] [LinearOrder K] [FloorRing K] [IsStrictOrderedRing K] in
theorem balances_set {pools : List (StakingPool K)} {i : ℕ} {p : StakingPool K}
    (h : pools[i]? = some p) (p' : StakingPool K) :
    balances (pools.set i p') = balances pools - p.tokenPool.balance + p'.tokenPool.balance := by
  induction pools generalizing i with
  | nil => simp at h
  | cons q l ih =>
    cases i with
    | zero =>
      obtain rfl : q = p := by simpa using h
      simp only [balances, List.set_cons_zero, List.map_cons, List.sum_cons]
      ring
    | succ i =>
      have := ih (by simpa using h)
      simp only [balances, List.set_cons_succ, List.map_cons, List.sum_cons] at *
      rw [this]
      ring

omit [LinearOrder K] [FloorRing K] [IsStrictOrderedRing K] in
theorem getD_set (l : List K) (i j : ℕ) (x : K) (hi : i < l.length) :
    (l.set i x).getD j 0 = if j = i then x else l.getD j 0 := by
  by_cases h : j = i
  · subst h
    simp [hi]
  · simp [h, Ne.symm h]

namespace Book

omit [FloorRing K] [IsStrictOrderedRing K] in
/-- The books of pools without stake. -/
theorem of_empty {pools : List (StakingPool K)} (h : ∀ p ∈ pools, p.tokenPool = ⟨0, 0⟩) :
    Book .empty pools := by
  refine ⟨fun i p hp => ?_, fun i p hp => ?_, by simp, by simp⟩
  · rw [h p (List.mem_of_getElem? hp)]
    exact Pool.Solvent.empty
  · rw [h p (List.mem_of_getElem? hp), Table.sum_empty]

variable {voters : Table Name (PoolVoter K)} {pools : List (StakingPool K)}

omit [FloorRing K] [IsStrictOrderedRing K] in
/-- What the record of a voter, found or made, satisfies. -/
theorem getOrCreate (h : Book voters pools) (a : Name) :
    (getOrCreatePoolVoter voters pools.length a).ownedShares.length = pools.length ∧
      (∀ i, 0 ≤ (getOrCreatePoolVoter voters pools.length a).ownedShares.getD i 0) ∧
      ∀ i, (voters.find a).elim 0 (fun v => v.ownedShares.getD i 0) =
        (getOrCreatePoolVoter voters pools.length a).ownedShares.getD i 0 := by
  unfold getOrCreatePoolVoter
  cases hf : voters.find a with
  | some v => exact ⟨h.length a v hf, h.owned_nonneg a v hf, fun i => rfl⟩
  | none =>
    have hzero : ∀ i, (List.replicate pools.length (0 : K)).getD i 0 = 0 := by
      intro i
      by_cases hi : i < pools.length <;> simp [hi]
    exact ⟨by simp [PoolVoter.new], fun i => (hzero i).ge, fun i => (hzero i).symm⟩

omit [FloorRing K] in
/-- A voter owns a part of the shares of a pool. -/
theorem owned_le (h : Book voters pools) (a : Name) {i : ℕ} {p : StakingPool K}
    (hp : pools[i]? = some p) :
    (getOrCreatePoolVoter voters pools.length a).ownedShares.getD i 0 ≤
      p.tokenPool.totalShares := by
  obtain ⟨-, -, hown⟩ := h.getOrCreate a
  rw [← hown i]
  cases hf : voters.find a with
  | none => exact (h.solvent i p hp).shares_nonneg
  | some v =>
    rw [h.shares i p hp]
    exact Table.le_sum (f := fun _ v => v.ownedShares.getD i 0)
      (fun b u hu => h.owned_nonneg b u hu i) hf

omit [FloorRing K] in
/-- A pool and a voter's shares in it change alike. -/
theorem set (h : Book voters pools) {a : Name} {i : ℕ} {p p' : StakingPool K} {v : PoolVoter K}
    {x : K} (hp : pools[i]? = some p) (hs : p'.tokenPool.Solvent) (hx : 0 ≤ x)
    (hd : p'.tokenPool.totalShares - p.tokenPool.totalShares =
      x - (getOrCreatePoolVoter voters pools.length a).ownedShares.getD i 0)
    (hv : v.ownedShares =
      (getOrCreatePoolVoter voters pools.length a).ownedShares.set i x) :
    Book (voters.set a v) (pools.set i p') := by
  obtain ⟨hlen, hnonneg, hown⟩ := h.getOrCreate a
  have hi : i < pools.length := (List.getElem?_eq_some_iff.mp hp).1
  have hget : ∀ j, v.ownedShares.getD j 0 = if j = i then x else
      (getOrCreatePoolVoter voters pools.length a).ownedShares.getD j 0 := fun j => by
    rw [hv, getD_set _ _ _ _ (hlen.symm ▸ hi : i < _)]
  have hpools : ∀ j q, (pools.set i p')[j]? = some q → q = p' ∧ j = i ∨
      j ≠ i ∧ pools[j]? = some q := by
    intro j q hq
    rw [List.getElem?_set] at hq
    split_ifs at hq with hij
    · exact .inl ⟨(Option.some.inj hq).symm, hij.symm⟩
    · exact .inr ⟨Ne.symm hij, hq⟩
  refine ⟨fun j q hq => ?_, fun j q hq => ?_, fun b u hu j => ?_, fun b u hu => ?_⟩
  · rcases hpools j q hq with ⟨rfl, -⟩ | ⟨-, hq⟩
    · exact hs
    · exact h.solvent j q hq
  · rw [Table.sum_set_elim, hown j, hget j]
    rcases hpools j q hq with ⟨rfl, rfl⟩ | ⟨hj, hq⟩
    · rw [if_pos rfl, ← h.shares j p hp]
      linarith
    · rw [if_neg hj, ← h.shares j q hq]
      ring
  · rw [Table.find_set] at hu
    split_ifs at hu
    · cases hu
      rw [hget j]
      split_ifs
      · exact hx
      · exact hnonneg j
    · exact h.owned_nonneg b u hu j
  · rw [Table.find_set] at hu
    rw [List.length_set]
    split_ifs at hu
    · cases hu
      rw [hv, List.length_set, hlen]
    · exact h.length b u hu

theorem deposit2pool (h : Book voters pools) (a : Name) {amount : ℤ} (ha : 0 < amount)
    (now : BlockTimestamp) (i : ℕ) :
    Yields solvencyBugs (fun r => Book (voters.set a r.2) r.1 ∧
      balances r.1 = balances pools + amount ∧ r.1.length = pools.length)
      (State.deposit2pool now pools (getOrCreatePoolVoter voters pools.length a) i amount) := by
  obtain ⟨-, hnonneg, -⟩ := h.getOrCreate a
  refine Avoids.bind_yields (.require (by decide)) fun p hp => ?_
  have hp' := require_eq_ok.mp hp
  refine .bind (depositPool_spec (h.solvent i p hp') (hnonneg i) (h.owned_le a hp') ha _ _) ?_
  rintro ⟨p', x, next⟩ ⟨hs, hb, hd, hx⟩
  refine .pure ⟨h.set hp' hs hx hd rfl, ?_, List.length_set⟩
  rw [balances_set hp', hb]
  ring

theorem withdrawFrom (h : Book voters pools) (a : Name) (i : ℕ) (requested : ℤ)
    (claiming : Bool) :
    Yields solvencyBugs (fun r => Book (voters.set a r.2.1) r.1 ∧
      balances r.1 = balances pools - r.2.2 ∧ 0 ≤ r.2.2 ∧ r.1.length = pools.length)
      (State.withdrawFrom pools (getOrCreatePoolVoter voters pools.length a) i requested
        claiming) := by
  obtain ⟨-, hnonneg, -⟩ := h.getOrCreate a
  refine Avoids.bind_yields (.require (by decide)) fun p hp => ?_
  have hp' := require_eq_ok.mp hp
  refine .bind (withdrawPool_spec (h.solvent i p hp') (hnonneg i) (h.owned_le a hp') _ _) ?_
  rintro ⟨p', x, sold⟩ ⟨hs, hb, hd, hx, hsold⟩
  refine .pure ⟨h.set hp' hs hx hd rfl, ?_, hsold, List.length_set⟩
  rw [balances_set hp', hb]
  ring

omit [FloorRing K] [IsStrictOrderedRing K] in
/-- The checks on a pool after a withdrawal never fail. -/
theorem checkPool_avoids (h : Book voters pools) (i : ℕ) :
    Avoids solvencyBugs (State.checkPool pools i) :=
  .bind (.require (by decide)) fun p hp =>
    .bind (.check (.inr (h.solvent i p (require_eq_ok.mp hp)).shares_nonneg)) fun _ _ =>
    .check (.inr (h.solvent i p (require_eq_ok.mp hp)).balance_nonneg)

end Book

/-! ## Fees -/

/-- A pool has been paid something, which a pool without shares never is. -/
def StakingPool.Credited (p p' : StakingPool K) : Prop :=
  ∃ amount, 0 ≤ amount ∧ p' = p.adjust amount ∧ (p.tokenPool.totalShares = 0 → amount = 0)

omit [FloorRing K] [IsStrictOrderedRing K] in
theorem StakingPool.Credited.solvent {p p' : StakingPool K} (hc : p.Credited p')
    (h : p.tokenPool.Solvent) : p'.tokenPool.Solvent := by
  obtain ⟨amount, ha, rfl, hz⟩ := hc
  by_cases hs : p.tokenPool.totalShares = 0
  · rw [hz hs]
    simpa [StakingPool.adjust] using h
  · have hpos : 0 < p.tokenPool.totalShares := lt_of_le_of_ne h.shares_nonneg (Ne.symm hs)
    refine Pool.solvent_of_pos ?_ hpos
    have := h.shares_pos.mp hpos
    simp only [StakingPool.adjust]
    omega

omit [FloorRing K] [IsStrictOrderedRing K] in
theorem Book.credit {voters : Table Name (PoolVoter K)} {pools pools' : List (StakingPool K)}
    (h : Book voters pools) (hc : List.Forall₂ StakingPool.Credited pools pools') :
    Book voters pools' := by
  have hlen : pools.length = pools'.length := hc.length_eq
  have hget : ∀ (i : ℕ) (p' : StakingPool K), pools'[i]? = some p' →
      ∃ p, pools[i]? = some p ∧ p.Credited p' := by
    intro i p' hp'
    obtain ⟨hi, rfl⟩ := List.getElem?_eq_some_iff.mp hp'
    have hi' : i < pools.length := hlen ▸ hi
    exact ⟨pools[i], List.getElem?_eq_getElem hi', hc.get hi' hi⟩
  refine ⟨fun i p' hp' => ?_, fun i p' hp' => ?_, h.owned_nonneg,
    fun a v hv => (h.length a v hv).trans hlen⟩
  · obtain ⟨p, hp, hc⟩ := hget i p' hp'
    exact hc.solvent (h.solvent i p hp)
  · obtain ⟨p, hp, amount, -, rfl, -⟩ := hget i p' hp'
    exact h.shares i p hp

theorem tdiv_mul_mono {total : ℤ} (h : 0 ≤ total) (n i : ℕ) :
    (total * i).tdiv n ≤ (total * (i + 1 : ℕ)).tdiv n := by
  have h₁ : 0 ≤ total * i := by positivity
  have h₂ : 0 ≤ total * (i + 1 : ℕ) := by positivity
  rw [Int.tdiv_eq_ediv_of_nonneg h₁, Int.tdiv_eq_ediv_of_nonneg h₂]
  rcases n.eq_zero_or_pos with rfl | hn
  · simp
  · refine Int.ediv_le_ediv (by exact_mod_cast hn) ?_
    push_cast
    linarith

omit [FloorRing K] [IsStrictOrderedRing K] in
/-- Each pool with shares gets a part of the fee. -/
theorem distribute_credited {total : ℤ} (h : 0 ≤ total) (n i : ℕ) (l : List (StakingPool K)) :
    List.Forall₂ StakingPool.Credited l (distribute total n i ((total * i).tdiv n) l) := by
  induction l generalizing i with
  | nil => exact .nil
  | cons p l ih =>
    unfold distribute
    split_ifs with hp
    · refine .cons ⟨_, sub_nonneg.mpr (tdiv_mul_mono h n i), rfl, fun hz => absurd hz hp⟩ ?_
      rw [add_sub_cancel]
      exact ih (i + 1)
    · exact .cons ⟨0, le_rfl, by simp [StakingPool.adjust], fun _ => rfl⟩ (ih i)

omit [FloorRing K] [IsStrictOrderedRing K] in
/-- After each pool the sum of what the pools have got is the proportional part of the fee. -/
theorem balances_distribute_from (total : ℤ) (n i : ℕ) (l : List (StakingPool K)) :
    balances (distribute total n i ((total * i).tdiv n) l) =
      balances l + (total * (i + activePools l : ℕ)).tdiv n - (total * i).tdiv n := by
  induction l generalizing i with
  | nil => simp [distribute, balances, activePools]
  | cons p l ih =>
    unfold distribute
    split_ifs with hp
    · have hcount : i + activePools (p :: l) = i + 1 + activePools l := by
        rw [activePools_cons, if_neg hp]
        omega
      dsimp only
      rw [add_sub_cancel, balances_cons, ih (i + 1), balances_cons, hcount]
      simp only [StakingPool.adjust]
      ring
    · rw [balances_cons, ih i, balances_cons, activePools_cons, if_pos (not_not.mp hp), zero_add]
      ring

omit [FloorRing K] [IsStrictOrderedRing K] in
/-- **A fee reaches the pools as a whole.** -/
theorem balances_distribute (total : ℤ) {l : List (StakingPool K)} (h : activePools l ≠ 0) :
    balances (distribute total (activePools l) 0 0 l) = balances l + total := by
  have hn : (activePools l : ℤ) ≠ 0 := by exact_mod_cast h
  have := balances_distribute_from total (activePools l) 0 l
  simp only [Nat.cast_zero, mul_zero, Int.zero_tdiv, Nat.zero_add, sub_zero] at this
  rw [this, Int.mul_tdiv_cancel _ hn]

omit [FloorRing K] [IsStrictOrderedRing K] in
/-- The pay of the voters reaches each pool with shares. -/
theorem payPools_credited {pay : ℤ} (h : 0 ≤ pay) (l : List (StakingPool K)) :
    List.Forall₂ StakingPool.Credited l (State.payPools pay l).1 := by
  unfold State.payPools
  rw [List.forall₂_map_right_iff]
  refine List.forall₂_same.mpr fun p _ => ?_
  split_ifs with hp
  · exact ⟨pay, h, rfl, fun hz => absurd hz hp⟩
  · exact ⟨0, le_rfl, by simp [StakingPool.adjust], fun _ => rfl⟩

omit [FloorRing K] [IsStrictOrderedRing K] in
theorem balances_payPools (pay : ℤ) (l : List (StakingPool K)) :
    balances (State.payPools pay l).1 = balances l + (State.payPools pay l).2 := by
  unfold State.payPools
  induction l with
  | nil => simp [balances, activePools]
  | cons p l ih =>
    dsimp only at ih ⊢
    rw [List.map_cons, balances_cons, ih, balances_cons, activePools_cons]
    by_cases hp : p.tokenPool.totalShares = 0
    · rw [if_neg (not_not.mpr hp), if_pos hp, zero_add]
      ring
    · rw [if_pos hp, if_neg hp, Nat.cast_add, Nat.cast_one]
      simp only [StakingPool.adjust]
      ring

/-! ## Configuration and pay -/

omit [FloorRing K] [IsStrictOrderedRing K] in
/-- A configuration leaves the pools; the rate of the voters' pay is not negative. -/
theorem configure_eq_ok {st st' : StakingPoolState K} {core : Symbol} {args : PoolConfig K}
    (hr : 0 ≤ st.voterRate) (h : st.configure core args = .ok st') :
    st'.pools = st.pools ∧ 0 ≤ st'.voterRate := by
  simp only [StakingPoolState.configure, check_bind_eq_ok, pure_eq_ok] at h
  obtain ⟨-, -, hv, -, -, rfl⟩ := h
  refine ⟨rfl, ?_⟩
  dsimp only
  cases hrate : args.voterRate with
  | none => exact hr
  | some r => exact (hv r hrate).1

omit [FloorRing K] [IsStrictOrderedRing K] in
theorem create_eq_ok {now : BlockTimestamp} {args : PoolConfig K} {st : StakingPoolState K}
    (h : StakingPoolState.create now args = .ok st) :
    st.voterRate = 0 ∧ ∀ p ∈ st.pools, p.tokenPool = ⟨0, 0⟩ := by
  simp only [StakingPoolState.create, newPools, bind_eq_ok, require_eq_ok, check_eq_ok,
    exists_const, pure_eq_ok] at h
  obtain ⟨_, -, _, -, _, -, _, -, _, -, _, ⟨-, -, -, -, -, -, -, -, -, -, rfl⟩, rfl⟩ := h
  refine ⟨rfl, fun p hp => ?_⟩
  obtain ⟨i, hi, rfl⟩ := List.mem_iff_getElem.mp hp
  rw [List.getElem_zipWith]
  rfl

omit [FloorRing K] in
theorem transitionFraction_nonneg (st : StakingPoolState K) (slot : ℕ) :
    0 ≤ st.transitionFraction slot := by
  unfold StakingPoolState.transitionFraction
  split_ifs
  · exact zero_le_one
  · exact le_rfl
  · positivity

/-- The pay of the voters of a pool is not negative. -/
theorem perPoolPay_nonneg {st : StakingPoolState K} {supply : ℤ} (hs : 0 ≤ supply)
    (hr : 0 ≤ st.voterRate) :
    0 ≤ truncate (((st.unpaidBlocks : K) / blocksPerRound) ^ 10 *
      st.transitionFraction st.intervalStart * st.voterRate / roundsPerYear * (supply : K) /
        st.pools.length) := by
  have hsupply : (0 : K) ≤ supply := by exact_mod_cast hs
  have hfraction := transitionFraction_nonneg st st.intervalStart
  have hx : 0 ≤ ((st.unpaidBlocks : K) / blocksPerRound) ^ 10 *
      st.transitionFraction st.intervalStart * st.voterRate / roundsPerYear * (supply : K) /
        st.pools.length := by positivity
  rw [truncate, if_pos hx]
  exact Int.floor_nonneg.mpr hx

end EosioSystem
