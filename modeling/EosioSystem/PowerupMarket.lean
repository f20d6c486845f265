import EosioSystem.Frame
import EosioSystem.Library.Ramp

/-!
# The powerup market over time

A configuration fixes a line along which the weight ratio of a resource falls, and with it how
the weight grows. What is sold of the weight, and the adjusted utilization that the price depends
on, stay within it.

## Main definitions

* `PowerupResource.weightAt`: the weight that goes with the ratio of a time
* `PowerupResource.Settings`: what `cfgpowerup` accepts
* `PowerupResource.Kept`: the invariant of a resource

## Main results

* `Settings.ratio_anti`, `Settings.weightAt_mono`, `Settings.weightAt_mem`: ratio and weight
* `configure_eq_ok`: a configuration that is accepted
* `Kept.updateUtilization`, `Kept.weigh`, `Kept.release`, `Kept.buy`: the operations
-/

namespace EosioSystem

open Checked

variable {K : Type}

namespace PowerupResource

variable {r r' : PowerupResource K} {core : Symbol} {now t t' : ℕ} {δ : ℤ}

/-! ## Ratio and weight -/

theorem currentRatio_eq (r : PowerupResource K) (now : ℕ) :
    r.currentRatio now =
      ramp r.initialWeightRatio r.targetWeightRatio r.initialTimestamp r.targetTimestamp now := rfl

/-- The weight that goes with the ratio of a time. -/
def weightAt (r : PowerupResource K) (now : ℕ) : ℤ :=
  (r.assumedStakeWeight * powerupFrac).tdiv (r.currentRatio now) - r.assumedStakeWeight

/-- The resource with the ratio and the weight of a time. -/
def weighed (r : PowerupResource K) (now : ℕ) : PowerupResource K :=
  { r with weightRatio := r.currentRatio now, weight := r.weightAt now }

theorem updateWeight_eq (h : r.currentRatio now ≠ 0) :
    r.updateWeight now = .ok (r.weighed now, r.weightAt now - r.weight) := by
  unfold updateWeight
  dsimp only
  rw [check_of h]
  rfl

theorem updateWeight_eq_ok (h : r.updateWeight now = .ok (r', δ)) :
    r.currentRatio now ≠ 0 ∧ r' = r.weighed now ∧ δ = r.weightAt now - r.weight := by
  simp only [updateWeight, bind_eq_ok, check_eq_ok, exists_const, pure_eq_ok, Prod.mk.injEq] at h
  obtain ⟨hne, rfl, rfl⟩ := h
  exact ⟨hne, rfl, rfl⟩

variable [Field K] [LinearOrder K]

/-- The settings of a resource as `cfgpowerup` has checked them. -/
structure Settings (core : Symbol) (r : PowerupResource K) : Prop where
  target_pos : 0 < r.targetWeightRatio
  target_le : r.targetWeightRatio ≤ r.initialWeightRatio
  initial_le : r.initialWeightRatio ≤ powerupFrac
  line : r.initialWeightRatio ≠ r.targetWeightRatio → r.initialTimestamp < r.targetTimestamp
  flat : r.initialWeightRatio = r.targetWeightRatio → r.targetTimestamp = r.initialTimestamp
  stake_pos : 1 ≤ r.assumedStakeWeight
  stake_le : (r.assumedStakeWeight * powerupFrac).tdiv r.targetWeightRatio ≤ 2 ^ 63 - 1
  one_le_exponent : 1 ≤ r.exponent
  one_le_decay : 1 ≤ r.decaySecs
  max_symbol : r.maxPrice.symbol = core
  max_pos : 0 < r.maxPrice.amount
  min_symbol : r.minPrice.symbol = core
  min_nonneg : 0 ≤ r.minPrice.amount
  min_le_max : r.minPrice.amount ≤ r.maxPrice.amount
  exponent_ne : r.exponent ≠ 1 ∨ r.minPrice.amount = r.maxPrice.amount

namespace Settings

theorem ratio_mem (h : r.Settings core) (ht : r.initialTimestamp ≤ t) :
    r.targetWeightRatio ≤ r.currentRatio t ∧ r.currentRatio t ≤ r.initialWeightRatio :=
  ramp_mem h.target_le ht

theorem ratio_pos (h : r.Settings core) (ht : r.initialTimestamp ≤ t) : 0 < r.currentRatio t :=
  h.target_pos.trans_le (h.ratio_mem ht).1

/-- The ratio only falls. -/
theorem ratio_anti (h : r.Settings core) (ht : r.initialTimestamp ≤ t) (htt : t ≤ t') :
    r.currentRatio t' ≤ r.currentRatio t :=
  ramp_anti h.target_le ht htt

theorem ratio_start (h : r.Settings core) : r.currentRatio r.initialTimestamp =
    r.initialWeightRatio := by
  by_cases he : r.initialWeightRatio = r.targetWeightRatio
  · rw [currentRatio_eq, ramp_of_le (h.flat he).le, he]
  · exact ramp_start (h.line he)

theorem stake_mul_nonneg (h : r.Settings core) : 0 ≤ r.assumedStakeWeight * powerupFrac :=
  mul_nonneg (by have := h.stake_pos; omega) (by decide)

theorem weightAt_eq (h : r.Settings core) (t : ℕ) : r.weightAt t =
    r.assumedStakeWeight * powerupFrac / r.currentRatio t - r.assumedStakeWeight := by
  rw [weightAt, Int.tdiv_eq_ediv_of_nonneg h.stake_mul_nonneg]

/-- The weight only grows. -/
theorem weightAt_mono (h : r.Settings core) (ht : r.initialTimestamp ≤ t) (htt : t ≤ t') :
    r.weightAt t ≤ r.weightAt t' := by
  have hpos := h.ratio_pos (ht.trans htt)
  have hdiv : r.assumedStakeWeight * powerupFrac / r.currentRatio t ≤
      r.assumedStakeWeight * powerupFrac / r.currentRatio t' := by
    rw [Int.le_ediv_iff_mul_le hpos]
    have h₁ := mul_le_mul_of_nonneg_left (h.ratio_anti ht htt)
      (Int.ediv_nonneg h.stake_mul_nonneg (h.ratio_pos ht).le)
    exact h₁.trans (Int.ediv_mul_le _ (h.ratio_pos ht).ne')
  rw [h.weightAt_eq, h.weightAt_eq]
  omega

/-- The weight is not negative and fits in 64 bits. -/
theorem weightAt_mem (h : r.Settings core) (ht : r.initialTimestamp ≤ t) :
    0 ≤ r.weightAt t ∧ r.weightAt t ≤ 2 ^ 63 - 1 := by
  have hpos := h.ratio_pos ht
  obtain ⟨hlo, hhi⟩ := h.ratio_mem ht
  have hstake := h.stake_pos
  constructor
  · have : r.assumedStakeWeight ≤ r.assumedStakeWeight * powerupFrac / r.currentRatio t := by
      rw [Int.le_ediv_iff_mul_le hpos]
      exact mul_le_mul_of_nonneg_left (hhi.trans h.initial_le) (by omega)
    rw [h.weightAt_eq]
    omega
  · have hle := h.stake_le
    rw [Int.tdiv_eq_ediv_of_nonneg h.stake_mul_nonneg] at hle
    have : r.assumedStakeWeight * powerupFrac / r.currentRatio t ≤
        r.assumedStakeWeight * powerupFrac / r.targetWeightRatio := by
      rw [Int.le_ediv_iff_mul_le h.target_pos]
      have h₁ := mul_le_mul_of_nonneg_left hlo
        (Int.ediv_nonneg h.stake_mul_nonneg hpos.le)
      exact h₁.trans (Int.ediv_mul_le _ hpos.ne')
    rw [h.weightAt_eq]
    omega

end Settings

/-- The same settings; only the weight and the utilization may differ. -/
def SameSettings (r r' : PowerupResource K) : Prop :=
  ∃ weight weightRatio utilization adjustedUtilization utilizationTimestamp, r' = { r with
    weight, weightRatio, utilization, adjustedUtilization, utilizationTimestamp }

omit [Field K] [LinearOrder K] in
theorem SameSettings.refl (r : PowerupResource K) : r.SameSettings r :=
  ⟨_, _, _, _, _, rfl⟩

omit [Field K] [LinearOrder K] in
theorem SameSettings.trans {r'' : PowerupResource K} (h : r.SameSettings r')
    (h' : r'.SameSettings r'') : r.SameSettings r'' := by
  obtain ⟨_, _, _, _, _, rfl⟩ := h
  obtain ⟨_, _, _, _, _, rfl⟩ := h'
  exact ⟨_, _, _, _, _, rfl⟩

theorem Settings.same (h : r.Settings core) (hs : r.SameSettings r') : r'.Settings core := by
  obtain ⟨_, _, _, _, _, rfl⟩ := hs
  exact ⟨h.target_pos, h.target_le, h.initial_le, h.line, h.flat, h.stake_pos, h.stake_le,
    h.one_le_exponent, h.one_le_decay, h.max_symbol, h.max_pos, h.min_symbol, h.min_nonneg,
    h.min_le_max, h.exponent_ne⟩

/-! ## A configuration -/

/-- What an accepted configuration has checked, and what it leaves alone. -/
theorem configure_eq_ok {args : PowerupConfigResource K}
    (h : r.configure now core args = .ok r') :
    r'.Settings core ∧ r'.initialTimestamp = now ∧ r'.utilization = r.utilization ∧
      r'.adjustedUtilization = r.adjustedUtilization ∧
      r'.utilizationTimestamp = r.utilizationTimestamp ∧ r'.weight = r.weight := by
  simp only [configure, bind_eq_ok, check_eq_ok, exists_const, pure_eq_ok] at h
  obtain ⟨-, -, hfuture, -, hpos, hfrac, htarget, hle, hstake, hbound, hexp, hdecay, hmaxs, hmax,
    hmins, hmin, hminmax, hne, rfl⟩ := h
  refine ⟨⟨htarget, hle, hfrac, fun hr => ?_, fun hr => ?_, hstake, hbound, hexp, hdecay, hmaxs,
    hmax, hmins, hmin, hminmax, hne⟩, rfl, rfl, rfl, rfl, rfl⟩
  · exact hfuture.resolve_left hr
  · exact if_pos hr

end PowerupResource

/-- A configuration of a resource that gives no value. -/
def PowerupConfigResource.empty : PowerupConfigResource K :=
  ⟨none, none, none, none, none, none, none, none⟩

/-- A configuration that gives no value. -/
def PowerupConfig.empty : PowerupConfig K := ⟨.empty, .empty, none, none⟩

namespace PowerupResource

variable {r r' : PowerupResource K} {core : Symbol} {now t t' : ℕ} {δ : ℤ}

/-- The same line, started anew from where it is. -/
def restarted (r : PowerupResource K) (now : ℕ) : PowerupResource K :=
  { r with
    initialWeightRatio := r.weightRatio
    initialTimestamp := now
    targetTimestamp := if r.weightRatio = r.targetWeightRatio then now else r.targetTimestamp }

variable [Field K] [LinearOrder K]

/-- **A configuration that gives no value** is accepted, and starts the line anew. -/
theorem configure_empty (h : r.Settings core) (ht : r.initialTimestamp ≤ now)
    (hr : r.weightRatio = r.currentRatio now) :
    r.configure now core .empty = .ok (r.restarted now) := by
  obtain ⟨hlo, hhi⟩ := h.ratio_mem ht
  have hpos := h.ratio_pos ht
  rw [← hr] at hlo hhi hpos
  have hne : r.weightRatio ≠ 0 := hpos.ne'
  have hstake : r.assumedStakeWeight ≠ 0 := by
    have := h.stake_pos
    omega
  have hmax : r.maxPrice.isDefault = false := by
    refine decide_eq_false fun he => ?_
    have := h.max_pos
    rw [he] at this
    exact lt_irrefl _ this
  have hmin : (if r.minPrice.isDefault then { r.maxPrice with amount := 0 } else r.minPrice) =
      r.minPrice := by
    split_ifs with hd
    · -- a default price has the core symbol and is zero
      have he : r.minPrice = .default := of_decide_eq_true hd
      have hsym := h.min_symbol
      rw [he] at hsym ⊢
      show Asset.mk 0 r.maxPrice.symbol = _
      rw [h.max_symbol, ← hsym]
      rfl
    · rfl
  -- before the line has come to its end the time of the end is still to come
  have hfuture : r.weightRatio = r.targetWeightRatio ∨ now < r.targetTimestamp := by
    refine (eq_or_ne _ _).imp_right fun hnr => not_le.mp fun hle => hnr ?_
    rw [hr, currentRatio_eq, ramp_of_le hle]
  simp only [configure, bind_eq_ok, check_eq_ok, exists_const, pure_eq_ok]
  simp only [PowerupConfigResource.empty, Option.getD_none, if_pos hne, hmin]
  refine ⟨.inr hstake, ?_, ?_, .inr hmax, hpos, hhi.trans h.initial_le, h.target_pos, hlo,
    h.stake_pos, h.stake_le, h.one_le_exponent, h.one_le_decay, h.max_symbol, h.max_pos,
    h.min_symbol, h.min_nonneg, h.min_le_max, h.exponent_ne, rfl⟩
  · exact hfuture.imp_right fun hlt => .inr (by omega)
  · refine (em (r.weightRatio = r.targetWeightRatio)).imp_right fun he => ?_
    rw [if_neg he]
    exact hfuture.resolve_left he

/-! ## The invariant -/

/-- The invariant of a resource at the time `t`: its weight is that of some time since the
configuration, and neither utilization is more. -/
structure Kept (core : Symbol) (t : ℕ) (r : PowerupResource K) : Prop where
  settings : r.Settings core
  weighed : ∃ t₀ ≤ t, r.initialTimestamp ≤ t₀ ∧ r.weightRatio = r.currentRatio t₀ ∧
    r.weight = r.weightAt t₀
  utilization_le : r.utilization ≤ r.weight
  adjusted_le : r.adjustedUtilization ≤ r.weight
  timestamp_le : r.utilizationTimestamp ≤ t

namespace Kept

theorem initial_le (h : r.Kept core t) : r.initialTimestamp ≤ t := by
  obtain ⟨t₀, h₀, hi, -⟩ := h.weighed
  exact hi.trans h₀

theorem mono (h : r.Kept core t) (ht : t ≤ now) : r.Kept core now := by
  obtain ⟨t₀, h₀, hw⟩ := h.weighed
  exact ⟨h.settings, ⟨t₀, h₀.trans ht, hw⟩, h.utilization_le, h.adjusted_le,
    h.timestamp_le.trans ht⟩

/-- The weight of a later time is not less. -/
theorem le_weightAt (h : r.Kept core t) (ht : t ≤ now) : r.weight ≤ r.weightAt now := by
  obtain ⟨t₀, h₀, hi, -, hw⟩ := h.weighed
  rw [hw]
  exact h.settings.weightAt_mono hi (h₀.trans ht)

theorem updateWeight_eq (h : r.Kept core t) (ht : t ≤ now) :
    r.updateWeight now = .ok (r.weighed now, r.weightAt now - r.weight) :=
  PowerupResource.updateWeight_eq (h.settings.ratio_pos (h.initial_le.trans ht)).ne'

/-- The weight grows as time passes. -/
theorem weigh (h : r.Kept core t) (ht : t ≤ now) : (r.weighed now).Kept core now := by
  have hle := h.le_weightAt ht
  exact ⟨h.settings.same ⟨_, _, _, _, _, rfl⟩,
    ⟨now, le_rfl, h.initial_le.trans ht, rfl, rfl⟩, h.utilization_le.trans hle,
    h.adjusted_le.trans hle, h.timestamp_le.trans ht⟩

/-- Sold capacity comes back. -/
theorem release (h : r.Kept core t) {freed : ℤ} (hf : 0 ≤ freed) :
    ({ r with utilization := r.utilization - freed } : PowerupResource K).Kept core t := by
  refine ⟨h.settings.same ⟨_, _, _, _, _, rfl⟩, h.weighed, ?_, h.adjusted_le, h.timestamp_le⟩
  have := h.utilization_le
  dsimp only
  omega

/-- Capacity is sold as long as there is some. -/
theorem buy (h : r.Kept core t) {amount : ℤ} (ha : r.utilization + amount ≤ r.weight) :
    ({ r with utilization := r.utilization + amount } : PowerupResource K).Kept core t :=
  ⟨h.settings.same ⟨_, _, _, _, _, rfl⟩, h.weighed, ha, h.adjusted_le, h.timestamp_le⟩

end Kept

/-- **A configuration** leaves the resource with the weight of the new line. -/
theorem configured_kept {r₁ r₂ : PowerupResource K} {args : PowerupConfigResource K}
    (hc : r.configure now core args = .ok r₁) (hw : r₁.updateWeight now = .ok (r₂, δ))
    (hu : r₂.utilization ≤ r₂.weight) (ht : r.utilizationTimestamp ≤ now) :
    ({ r₂ with adjustedUtilization := min r₂.adjustedUtilization r₂.weight } :
      PowerupResource K).Kept core now ∧ r₂.utilization = r.utilization := by
  obtain ⟨hs, hi, hutil, -, hts, -⟩ := configure_eq_ok hc
  obtain ⟨-, rfl, -⟩ := updateWeight_eq_ok hw
  refine ⟨⟨hs.same ⟨_, _, _, _, _, rfl⟩, ⟨now, le_rfl, hi.le, rfl, rfl⟩, hu, min_le_right _ _, ?_⟩,
    hutil⟩
  exact hts.trans_le ht

/-! ## The adjusted utilization -/

section

variable [FloorRing K] [CMath K]

/-- **An update of the adjusted utilization**: nothing happens twice in a second; else the new
value is between the utilization and the old value. -/
theorem updateUtilization_cases (r : PowerupResource K) (now : ℕ) :
    now ≤ r.utilizationTimestamp ∧ r.updateUtilization now = r ∨
      r.utilizationTimestamp < now ∧ ∃ adjusted, r.updateUtilization now = { r with
        adjustedUtilization := adjusted
        utilizationTimestamp := now } ∧
        r.utilization ≤ adjusted ∧ adjusted ≤ max r.utilization r.adjustedUtilization := by
  unfold updateUtilization
  dsimp only
  by_cases ht : now ≤ r.utilizationTimestamp
  · exact .inl ⟨ht, if_pos ht⟩
  · refine .inr ⟨not_le.mp ht, ?_⟩
    rw [if_neg ht]
    by_cases hu : r.adjustedUtilization ≤ r.utilization
    · exact ⟨r.utilization, if_pos hu, le_rfl, le_max_left _ _⟩
    · rw [if_neg hu]
      generalize truncate (((r.adjustedUtilization - r.utilization : ℤ) : K) *
        CMath.exp (-((now - r.utilizationTimestamp : ℕ) : K) / r.decaySecs)) = delta
      -- whatever the factor, the difference is cut to what it was
      refine ⟨_, rfl, ?_, ?_⟩
      · split_ifs <;> omega
      · rw [max_eq_right (not_le.mp hu).le]
        split_ifs <;> omega

theorem sameSettings_updateUtilization (r : PowerupResource K) (now : ℕ) :
    r.SameSettings (r.updateUtilization now) := by
  rcases r.updateUtilization_cases now with ⟨-, he⟩ | ⟨-, _, he, -⟩
  · rw [he]
    exact .refl r
  · rw [he]
    exact ⟨_, _, _, _, _, rfl⟩

theorem utilization_updateUtilization (r : PowerupResource K) (now : ℕ) :
    (r.updateUtilization now).utilization = r.utilization := by
  rcases r.updateUtilization_cases now with ⟨-, he⟩ | ⟨-, _, he, -⟩ <;> rw [he]

theorem weight_updateUtilization (r : PowerupResource K) (now : ℕ) :
    (r.updateUtilization now).weight = r.weight := by
  rcases r.updateUtilization_cases now with ⟨-, he⟩ | ⟨-, _, he, -⟩ <;> rw [he]

theorem Kept.updateUtilization (h : r.Kept core t) (ht : t ≤ now) :
    (r.updateUtilization now).Kept core now := by
  rcases r.updateUtilization_cases now with ⟨-, he⟩ | ⟨-, adjusted, he, -, hle⟩
  · rw [he]
    exact h.mono ht
  · rw [he]
    have h' := h.mono ht
    exact ⟨h'.settings.same ⟨_, _, _, _, _, rfl⟩, h'.weighed, h.utilization_le,
      hle.trans (max_le h.utilization_le h.adjusted_le), le_rfl⟩

/-- The resource after the queue has been processed: what has expired is available again, and the
weight is that of the time. -/
def queued (r : PowerupResource K) (now : ℕ) (freed : ℤ) : PowerupResource K :=
  ({ r.updateUtilization now with
    utilization := (r.updateUtilization now).utilization - freed } : PowerupResource K).weighed now

theorem sameSettings_queued (r : PowerupResource K) (now : ℕ) (freed : ℤ) :
    r.SameSettings (r.queued now freed) :=
  (r.sameSettings_updateUtilization now).trans ⟨_, _, _, _, _, rfl⟩

theorem utilization_queued (r : PowerupResource K) (now : ℕ) (freed : ℤ) :
    (r.queued now freed).utilization = r.utilization - freed :=
  congrArg (· - freed) (r.utilization_updateUtilization now)

theorem Kept.queued (h : r.Kept core t) (ht : t ≤ now) {freed : ℤ} (hf : 0 ≤ freed) :
    (r.queued now freed).Kept core now :=
  ((h.updateUtilization ht).release hf).weigh le_rfl

/-- **A purchase** of a fraction: the amount is not negative and there is as much left. -/
theorem reserve_eq_ok {frac amount fee : ℤ} (hw : 0 ≤ r.weight) (hu : r.utilization ≤ r.weight)
    (hf : 0 ≤ frac) (h : r.reserve frac = .ok (r', amount, fee)) :
    r' = { r with utilization := r.utilization + amount } ∧ 0 ≤ amount ∧
      r.utilization + amount ≤ r.weight := by
  unfold reserve at h
  split_ifs at h
  · simp only [pure_eq_ok, Prod.mk.injEq] at h
    obtain ⟨rfl, rfl, -⟩ := h
    simpa using hu
  · simp only [bind_eq_ok, check_eq_ok, exists_const, pure_eq_ok, Prod.mk.injEq] at h
    obtain ⟨-, hle, -, rfl, rfl, -⟩ := h
    exact ⟨rfl, Int.tdiv_nonneg (mul_nonneg hf hw) (by decide), hle⟩

end

end PowerupResource

end EosioSystem
