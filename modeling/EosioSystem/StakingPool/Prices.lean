import EosioSystem.Library.Average
import EosioSystem.StakingPool.Solvency

/-!
# The price of a share

What deposits and withdrawals do to a solvent pool, exactly: the shares that are bought or sold,
the tokens they are worth, and the slot from which the owner can claim. The price of a share is
kept by deposits and raised by everything that is rounded down in favour of the pool.

## Main definitions

* `Pool.value`: what shares in a pool are worth, rounded down
* `Pool.PriceKept`: a share is worth at least what it was
* `claimSlot`: the slot of the next claim after a deposit, an average
* `Withdrawn`: what a withdrawal does

## Main results

* `Pool.PriceKept.value_le`: at a price that is kept, the value of shares does not fall
* `depositPool_eq`, `withdrawPool_eq_ok`: the two operations
-/

namespace EosioSystem

open Checked

variable {K : Type} [Field K] [LinearOrder K]

namespace Pool

/-- What shares in a pool are worth, rounded down. -/
def value [FloorRing K] (p : Pool K) (s : K) : ℤ := ⌊s * p.balance / p.totalShares⌋

/-- The shares for a deposit of `b` tokens. -/
def sharesBought (p : Pool K) (b : ℤ) : K :=
  if p.totalShares = 0 then b else b * p.totalShares / p.balance

/-- A share is worth at least what it was; prices are compared by cross products. -/
def PriceKept (p p' : Pool K) : Prop :=
  (p.balance : K) * p'.totalShares ≤ p'.balance * p.totalShares

variable {p p' : Pool K} {s s' : K}

theorem PriceKept.refl (p : Pool K) : p.PriceKept p := le_refl _

variable [IsStrictOrderedRing K]

theorem Solvent.balance_pos (h : p.Solvent) (hs : 0 < p.totalShares) : (0 : K) < p.balance := by
  exact_mod_cast h.shares_pos.mp hs

theorem Solvent.cast_nonneg (h : p.Solvent) : (0 : K) ≤ p.balance := by
  exact_mod_cast h.balance_nonneg

/-! ## Values -/

section Value

variable [FloorRing K]

theorem Solvent.value_nonneg (h : p.Solvent) (h₀ : 0 ≤ s) : 0 ≤ p.value s :=
  Int.floor_nonneg.mpr (div_nonneg (mul_nonneg h₀ h.cast_nonneg) h.shares_nonneg)

theorem Solvent.value_mono (h : p.Solvent) (hs : s ≤ s') : p.value s ≤ p.value s' :=
  Int.floor_le_floor
    (div_le_div_of_nonneg_right (mul_le_mul_of_nonneg_right hs h.cast_nonneg) h.shares_nonneg)

omit [IsStrictOrderedRing K] in
@[simp] theorem value_zero (p : Pool K) : p.value 0 = 0 := by simp [value]

/-- All shares are worth the whole pool. -/
theorem value_all (hs : p.totalShares ≠ 0) : p.value p.totalShares = p.balance := by
  rw [value, mul_div_cancel_left₀ _ hs, Int.floor_intCast]

/-- The value that `simulate_sell` computes. -/
theorem Solvent.simulateSell_eq (h : p.Solvent) (h₀ : 0 ≤ s) (hs : s ≤ p.totalShares) :
    p.simulateSell s = .ok (p.value s) := by
  unfold Pool.simulateSell
  by_cases hz : s = 0
  · rw [if_pos hz, hz, value_zero]
    rfl
  have hpos : 0 < p.totalShares := (lt_of_le_of_ne h₀ (Ne.symm hz)).trans_le hs
  rw [if_neg hz]
  by_cases hall : p.totalShares ≤ s
  · obtain rfl : s = p.totalShares := le_antisymm hs hall
    rw [if_pos le_rfl, value_all hz]
    rfl
  · have hv : 0 ≤ s * p.balance / p.totalShares :=
      div_nonneg (mul_nonneg h₀ h.cast_nonneg) h.shares_nonneg
    rw [if_neg hall, check_of hpos, truncate, if_pos hv]
    rfl

theorem Solvent.sell_eq (h : p.Solvent) (h₀ : 0 ≤ s) (hs : s ≤ p.totalShares) :
    p.sell s = .ok (⟨p.balance - p.value s, p.totalShares - s⟩, p.value s) := by
  unfold Pool.sell
  rw [h.simulateSell_eq h₀ hs]
  rfl

/-- **At a price that is kept, the value of shares does not fall.** -/
theorem PriceKept.value_le (hp : p.PriceKept p') (h' : p'.Solvent) (h₀ : 0 ≤ s)
    (hs : s ≤ p.totalShares) (hle : s ≤ s') (hs' : s' ≤ p'.totalShares) :
    p.value s ≤ p'.value s' := by
  rcases h₀.eq_or_lt with rfl | hpos
  · rw [value_zero]
    exact h'.value_nonneg hle
  · have hT : 0 < p.totalShares := hpos.trans_le hs
    have hT' : 0 < p'.totalShares := (hpos.trans_le hle).trans_le hs'
    refine Int.floor_le_floor ?_
    rw [div_le_div_iff₀ hT hT']
    calc s * p.balance * p'.totalShares = s * (p.balance * p'.totalShares) := by ring
      _ ≤ s * (p'.balance * p.totalShares) := mul_le_mul_of_nonneg_left hp h₀
      _ = s * p'.balance * p.totalShares := by ring
      _ ≤ s' * p'.balance * p.totalShares :=
        mul_le_mul_of_nonneg_right (mul_le_mul_of_nonneg_right hle h'.cast_nonneg) hT.le

/-- A sale rounds the value of the shares down, in favour of those that remain. -/
theorem Solvent.sold_price (h : p.Solvent) (h₀ : 0 ≤ s) (hs : s ≤ p.totalShares) :
    p.PriceKept ⟨p.balance - p.value s, p.totalShares - s⟩ := by
  unfold PriceKept
  rcases h.shares_nonneg.eq_or_lt with hz | hpos
  · obtain rfl : s = 0 := le_antisymm (hz ▸ hs) h₀
    simp
  · have hfloor : (p.value s : K) * p.totalShares ≤ s * p.balance := by
      rw [← le_div_iff₀ hpos]
      exact Int.floor_le _
    push_cast
    linarith [mul_sub (p.balance : K) p.totalShares s,
      sub_mul (p.balance : K) (p.value s) p.totalShares]

end Value

/-! ## Purchases -/

omit [IsStrictOrderedRing K] in
theorem Solvent.buy_eq (h : p.Solvent) {b : ℤ} (hb : 0 < b) :
    p.buy b = .ok (⟨p.balance + b, p.totalShares + p.sharesBought b⟩, p.sharesBought b) := by
  unfold Pool.buy simulateBuy sharesBought
  rw [if_neg hb.ne']
  by_cases hz : p.totalShares = 0
  · rw [if_pos hz, if_pos hz]
    rfl
  · have hpos : 0 < p.totalShares := lt_of_le_of_ne h.shares_nonneg (Ne.symm hz)
    rw [if_neg hz, if_neg hz, check_of (h.shares_pos.mp hpos).ne']
    rfl

theorem Solvent.sharesBought_pos (h : p.Solvent) {b : ℤ} (hb : 0 < b) : 0 < p.sharesBought b := by
  have hb' : (0 : K) < b := by exact_mod_cast hb
  unfold sharesBought
  split_ifs with hz
  · exact hb'
  · have hpos : 0 < p.totalShares := lt_of_le_of_ne h.shares_nonneg (Ne.symm hz)
    exact div_pos (mul_pos hb' hpos) (h.balance_pos hpos)

/-- Shares are bought at their price. -/
theorem Solvent.sharesBought_mul (h : p.Solvent) (b : ℤ) :
    (p.balance : K) * p.sharesBought b = b * p.totalShares := by
  unfold sharesBought
  split_ifs with hz
  · have hbal : p.balance = 0 := by
      have := h.shares_pos.not.mp (hz ▸ lt_irrefl _)
      have := h.balance_nonneg
      omega
    rw [hz, hbal, Int.cast_zero, zero_mul, mul_zero]
  · have hpos : 0 < p.totalShares := lt_of_le_of_ne h.shares_nonneg (Ne.symm hz)
    rw [mul_div_cancel₀ _ (h.balance_pos hpos).ne']

theorem Solvent.bought_price (h : p.Solvent) (b : ℤ) :
    p.PriceKept ⟨p.balance + b, p.totalShares + p.sharesBought b⟩ := by
  unfold PriceKept
  push_cast
  linarith [h.sharesBought_mul b, mul_add (p.balance : K) p.totalShares (p.sharesBought b),
    add_mul (p.balance : K) b p.totalShares]

/-- After a purchase the pool is solvent. -/
theorem Solvent.bought (h : p.Solvent) {b : ℤ} (hb : 0 < b) :
    (⟨p.balance + b, p.totalShares + p.sharesBought b⟩ : Pool K).Solvent := by
  have hbal := h.balance_nonneg
  refine solvent_of_pos (by dsimp only; omega) ?_
  exact add_pos_of_nonneg_of_pos h.shares_nonneg (h.sharesBought_pos hb)

/-- What an owner has is worth just as much more as has been paid in. -/
theorem Solvent.value_bought [FloorRing K] (h : p.Solvent) {b : ℤ} (hb : 0 < b) (h₀ : 0 ≤ s)
    (hs : s ≤ p.totalShares) :
    (⟨p.balance + b, p.totalShares + p.sharesBought b⟩ : Pool K).value (s + p.sharesBought b) =
      p.value s + b := by
  unfold value
  rw [← Int.floor_add_intCast]
  congr 1
  have hb' : (0 : K) < b := by exact_mod_cast hb
  dsimp only
  rcases h.shares_nonneg.eq_or_lt with hz | hpos
  · have hbought : p.sharesBought b = b := if_pos hz.symm
    have hbal : p.balance = 0 := by
      have := h.shares_pos.not.mp (hz ▸ lt_irrefl _)
      have := h.balance_nonneg
      omega
    obtain rfl : s = 0 := le_antisymm (hz ▸ hs) h₀
    rw [hbought, ← hz, hbal]
    simp [hb'.ne']
  · have hB := h.balance_pos hpos
    have hbought : p.sharesBought b = b * p.totalShares / p.balance := if_neg hpos.ne'
    have hT : p.totalShares + p.sharesBought b = p.totalShares * (p.balance + b) / p.balance := by
      rw [hbought]
      field_simp
    rw [hT, hbought]
    push_cast
    field_simp

/-- The shares that are sold for an amount are worth no more than it. -/
theorem Solvent.sharesFor_eq_ok [FloorRing K] (h : p.Solvent) {d : ℤ} (hd : 0 < d)
    (hok : p.sharesFor d = .ok s) : 0 ≤ s ∧ p.value s = d := by
  have hd' : (0 : K) < d := by exact_mod_cast hd
  unfold Pool.sharesFor at hok
  split_ifs at hok with hall hz
  · obtain rfl := pure_eq_ok.mp hok
    have hpos : 0 < p.totalShares := h.shares_pos.mpr (hall ▸ hd)
    exact ⟨hpos.le, (value_all hpos.ne').trans hall.symm⟩
  · exact absurd hz hd.ne'
  · simp only [check_bind_eq_ok, pure_eq_ok] at hok
    obtain ⟨hne, rfl⟩ := hok
    have hpos : 0 < p.totalShares :=
      h.shares_pos.mpr (lt_of_le_of_ne h.balance_nonneg (Ne.symm hne))
    have hB := h.balance_pos hpos
    refine ⟨(div_pos (mul_pos hd' hpos) hB).le, ?_⟩
    have hdiv : d * p.totalShares / p.balance * p.balance / p.totalShares = (d : K) := by
      field_simp
    rw [value, hdiv, Int.floor_intCast]

end Pool

/-! ## Deposits and withdrawals -/

/-- The slot from which an owner can claim after a deposit of `amount` to a stake worth `balance`:
the average of the claim slot so far and that of new stake. -/
def claimSlot (now : BlockTimestamp) (claimPeriod next : ℕ) (balance amount : ℤ) : ℕ :=
  (avg (max next now.slot : ℕ) balance ((now.slot + claimPeriod * 2) % 2 ^ 32 : ℕ) amount
    % 2 ^ 32).toNat

theorem claimSlot_lt (now : BlockTimestamp) (claimPeriod next : ℕ) (balance amount : ℤ) :
    claimSlot now claimPeriod next balance amount < 2 ^ 32 := by
  have h₁ := Int.emod_nonneg (avg (max next now.slot : ℕ) balance
    ((now.slot + claimPeriod * 2) % 2 ^ 32 : ℕ) amount) (b := 2 ^ 32) (by norm_num)
  have h₂ := Int.emod_lt_of_pos (avg (max next now.slot : ℕ) balance
    ((now.slot + claimPeriod * 2) % 2 ^ 32 : ℕ) amount) (b := 2 ^ 32) (by norm_num)
  unfold claimSlot
  omega

/-- The average fits in 32 bits. -/
theorem claimSlot_eq (now : BlockTimestamp) (claimPeriod : ℕ) {next : ℕ} {balance amount : ℤ}
    (hn : next < 2 ^ 32) (hb : 0 ≤ balance) (ha : 0 < amount) :
    (claimSlot now claimPeriod next balance amount : ℤ) = avg (max next now.slot : ℕ) balance
      ((now.slot + claimPeriod * 2) % 2 ^ 32 : ℕ) amount := by
  have hlt : ((max next now.slot : ℕ) : ℤ) < 2 ^ 32 := by exact_mod_cast max_lt hn now.slot_lt
  have hlt' : (((now.slot + claimPeriod * 2) % 2 ^ 32 : ℕ) : ℤ) < 2 ^ 32 := by
    exact_mod_cast Nat.mod_lt _ (by norm_num)
  have h₀ := avg_nonneg (Int.natCast_nonneg (max next now.slot))
    (Int.natCast_nonneg ((now.slot + claimPeriod * 2) % 2 ^ 32)) hb ha
  rw [claimSlot, Int.emod_eq_of_lt h₀ (avg_lt hlt hlt' hb ha), Int.toNat_of_nonneg h₀]

/-- A deposit moves the claim slot forward, and not past that of new stake. -/
theorem claimSlot_mem {now : BlockTimestamp} {claimPeriod next : ℕ} {balance amount : ℤ}
    (hfit : now.slot + claimPeriod * 2 < 2 ^ 32) (hn : next ≤ now.slot + claimPeriod * 2)
    (hb : 0 ≤ balance) (ha : 0 < amount) :
    next ≤ claimSlot now claimPeriod next balance amount ∧
      claimSlot now claimPeriod next balance amount ≤ now.slot + claimPeriod * 2 := by
  have heq := claimSlot_eq now claimPeriod (hn.trans_lt hfit) hb ha
  rw [Nat.mod_eq_of_lt hfit] at heq
  have hmax : max next now.slot ≤ now.slot + claimPeriod * 2 := max_le hn (Nat.le_add_right _ _)
  have hle : ((max next now.slot : ℕ) : ℤ) ≤ (now.slot + claimPeriod * 2 : ℕ) := by
    exact_mod_cast hmax
  have h₁ := le_avg hle hb ha
  have h₂ := avg_le hle hb ha
  rw [← heq] at h₁ h₂
  exact ⟨(le_max_left _ _).trans (by exact_mod_cast h₁), by exact_mod_cast h₂⟩

variable [IsStrictOrderedRing K] [FloorRing K] {pool : StakingPool K} {owned : K} {amount : ℤ}

omit [IsStrictOrderedRing K] [FloorRing K] in
/-- What a deposit does to a pool. -/
def StakingPool.deposit (pool : StakingPool K) (amount : ℤ) : StakingPool K :=
  { pool with tokenPool := ⟨pool.tokenPool.balance + amount,
      pool.tokenPool.totalShares + pool.tokenPool.sharesBought amount⟩ }

/-- What the sale of `x` shares does to a pool. -/
def StakingPool.sale (pool : StakingPool K) (x : K) : StakingPool K :=
  { pool with tokenPool :=
      ⟨pool.tokenPool.balance - pool.tokenPool.value x, pool.tokenPool.totalShares - x⟩ }

/-- **A deposit** to a solvent pool never fails. -/
theorem depositPool_eq (h : pool.tokenPool.Solvent) (h₀ : 0 ≤ owned)
    (ho : owned ≤ pool.tokenPool.totalShares) (ha : 0 < amount) (now : BlockTimestamp)
    (next : ℕ) :
    depositPool now pool owned next amount =
      .ok (pool.deposit amount, owned + pool.tokenPool.sharesBought amount,
        claimSlot now pool.claimPeriod next (pool.tokenPool.value owned) amount) := by
  have hv : 0 ≤ pool.tokenPool.value owned := h.value_nonneg h₀
  have hsum : pool.tokenPool.value owned + amount ≠ 0 := by omega
  have hnum : 0 ≤ ((max next now.slot : ℕ) : ℤ) * pool.tokenPool.value owned +
      (((now.slot + pool.claimPeriod * 2) % 2 ^ 32 : ℕ) : ℤ) * amount := by positivity
  unfold depositPool
  rw [h.simulateSell_eq h₀ ho, h.buy_eq ha]
  simp only [bind, Except.bind, pure, Except.pure]
  rw [check_of (h.sharesBought_pos ha), check_of hsum]
  dsimp only
  rw [Int.tdiv_eq_ediv_of_nonneg hnum]
  rfl

/-- What a withdrawal does: some of the owner's shares are sold, for no more than is asked for,
and for no more than the part of the stake that can be claimed at a time. -/
inductive Withdrawn (pool : StakingPool K) (owned : K) (requested : ℤ) (claiming : Bool) :
    StakingPool K × K × ℤ → Prop
  | sold {x : K} (h₀ : 0 ≤ x) (hx : x ≤ owned) (hle : pool.tokenPool.value x ≤ requested)
      (hclaim : claiming = true → pool.tokenPool.value x ≤
        pool.tokenPool.value owned * pool.claimPeriod / pool.duration) :
      Withdrawn pool owned requested claiming
        (pool.sale x, owned - x, pool.tokenPool.value x)

theorem withdrawPool_eq_ok (h : pool.tokenPool.Solvent) (h₀ : 0 ≤ owned)
    (ho : owned ≤ pool.tokenPool.totalShares) {requested : ℤ} {claiming : Bool}
    {r : StakingPool K × K × ℤ} (hw : withdrawPool pool owned requested claiming = .ok r) :
    Withdrawn pool owned requested claiming r := by
  obtain ⟨balance, hb, hw⟩ := bind_eq_ok.mp hw
  rw [h.simulateSell_eq h₀ ho] at hb
  obtain rfl := Except.ok.inj hb
  have hv : 0 ≤ pool.tokenPool.value owned := h.value_nonneg h₀
  by_cases hall : claiming = false ∧ pool.tokenPool.value owned ≤ requested
  · -- all shares are sold
    rw [if_pos hall, h.sell_eq h₀ ho] at hw
    obtain rfl := Except.ok.inj hw
    have hsold : Withdrawn pool owned requested claiming
        (pool.sale owned, owned - owned, pool.tokenPool.value owned) :=
      .sold h₀ le_rfl hall.2 fun hc => absurd (hall.1.symm.trans hc) Bool.false_ne_true
    rwa [sub_self] at hsold
  · rw [if_neg hall] at hw
    simp only [bind_eq_ok, check_eq_ok, exists_const, pure_eq_ok] at hw
    obtain ⟨hpos, shares, hshares, ⟨tokenPool, sold⟩, hsell, -, rfl⟩ := hw
    obtain ⟨hs₀, hval⟩ := h.sharesFor_eq_ok hpos hshares
    have hmin : 0 ≤ min shares owned := le_min hs₀ h₀
    rw [h.sell_eq hmin ((min_le_right _ _).trans ho)] at hsell
    obtain ⟨rfl, rfl⟩ := Prod.mk.inj (Except.ok.inj hsell)
    -- the shares for the amount are worth it, and no more shares are sold
    have hle := (h.value_mono (min_le_left shares owned)).trans hval.le
    refine .sold hmin (min_le_right _ _) (hle.trans (min_le_right _ _)) fun hc => ?_
    have hav := hle.trans (min_le_left _ _)
    have hnum : 0 ≤ pool.tokenPool.value owned * pool.claimPeriod := by positivity
    rwa [if_pos hc, Int.tdiv_eq_ediv_of_nonneg hnum] at hav

end EosioSystem
