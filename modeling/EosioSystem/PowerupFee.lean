import EosioSystem.Library.CostCurve
import EosioSystem.Powerup

/-!
# The fee of a powerup

The fee is the area under the price between the utilizations before and after the purchase, where
the price below the adjusted utilization is the one at the adjusted utilization, rounded up. With
exact real numbers it is the cost of a `CostCurve`, and what holds of cost curves holds of the fee.

## Main definitions

* `PowerupResource.Priced`: the settings and the utilization of a market
* `PowerupResource.curve`: the cost curve of a market
* `PowerupResource.bought`: the market after a purchase

## Main results

* `Priced.calcPowerupFee_eq`: the fee is the cost of the curve, rounded up
* `calcPowerupFee_law`: what splitting, more and later purchases cost, and the bounds
-/

namespace EosioSystem

/-- The C math functions on the reals. -/
noncomputable instance : CMath ℝ where
  pow := Real.rpow
  exp := Real.exp
  log1p x := Real.log (1 + x)
  pow_pos _ y h := Real.rpow_pos_of_pos h y
  exp_pos := Real.exp_pos
  exp_le_one _ h := Real.exp_le_one_iff.mpr h

namespace PowerupResource

/-- The market after an amount has been bought. -/
def bought {K : Type} (r : PowerupResource K) (a : ℤ) : PowerupResource K :=
  { r with utilization := r.utilization + a }

/-- The settings of a market that has something to sell, and utilizations in its range. -/
structure Priced (r : PowerupResource ℝ) : Prop where
  weight_pos : 0 < r.weight
  min_nonneg : 0 ≤ r.minPrice.amount
  min_le_max : r.minPrice.amount ≤ r.maxPrice.amount
  max_pos : 0 < r.maxPrice.amount
  one_le_exponent : 1 ≤ r.exponent
  min_eq_max : r.exponent = 1 → r.minPrice.amount = r.maxPrice.amount
  utilization_nonneg : 0 ≤ r.utilization
  utilization_le : r.utilization ≤ r.weight
  adjusted_nonneg : 0 ≤ r.adjustedUtilization
  adjusted_le : r.adjustedUtilization ≤ r.weight

namespace Priced

variable {r : PowerupResource ℝ} {a b : ℤ}

theorem min_le_max_cast (h : r.Priced) : (r.minPrice.amount : ℝ) ≤ r.maxPrice.amount :=
  Int.cast_le.mpr h.min_le_max

theorem min_eq_max_cast (h : r.Priced) (he : r.exponent = 1) :
    (r.minPrice.amount : ℝ) = r.maxPrice.amount :=
  congrArg Int.cast (h.min_eq_max he)

/-- The price of the settings, for fractions of the market. -/
noncomputable def power (h : r.Priced) : CostCurve ℝ :=
  .power r.minPrice.amount r.maxPrice.amount r.exponent h.min_le_max_cast h.one_le_exponent
    h.min_eq_max_cast

/-- The cost of using a fraction of the market, the price below the adjusted utilization being
flat. -/
noncomputable def curve (h : r.Priced) : CostCurve ℝ :=
  h.power.flat (r.adjustedUtilization / r.weight)
    (div_nonneg (Int.cast_nonneg h.adjusted_nonneg) (Int.cast_nonneg h.weight_pos.le))

theorem bought (h : r.Priced) (ha : 0 ≤ a) (hle : r.utilization + a ≤ r.weight) :
    (r.bought a).Priced :=
  { h with
    utilization_nonneg := add_nonneg h.utilization_nonneg ha
    utilization_le := hle }

/-- The cost when the utilization is `u`. -/
noncomputable def costAt (h : r.Priced) (u : ℤ) : ℝ := h.curve.cost (u / r.weight)

theorem costAt_bought (h : r.Priced) (h' : (r.bought a).Priced) (u : ℤ) :
    h'.costAt u = h.costAt u := rfl

/-- The price of the curve below the switch is that at the adjusted utilization. -/
theorem costAt_of_le (h : r.Priced) {u : ℤ} (hu : u ≤ r.adjustedUtilization) :
    h.costAt u = r.priceFunction r.adjustedUtilization * (u - r.adjustedUtilization : ℤ) /
      r.weight := by
  have hW : (0 : ℝ) < r.weight := Int.cast_pos.mpr h.weight_pos
  have hle : (u : ℝ) / r.weight ≤ r.adjustedUtilization / r.weight :=
    div_le_div_of_nonneg_right (Int.cast_le.mpr hu) hW.le
  have hprice : r.priceFunction r.adjustedUtilization =
      h.power.price (r.adjustedUtilization / r.weight) := by
    simp only [priceFunction, power, CostCurve.power, Int.cast_sub]
    rfl
  rw [hprice]
  refine (if_pos hle).trans ?_
  rw [Int.cast_sub]
  ring

/-- Above the switch the curve is the integral of the price. -/
theorem costAt_of_ge (h : r.Priced) {u : ℤ} (hu : r.adjustedUtilization ≤ u) :
    h.costAt u = r.priceIntegralDelta r.adjustedUtilization u := by
  have hW : (0 : ℝ) < r.weight := Int.cast_pos.mpr h.weight_pos
  rcases hu.eq_or_lt with rfl | hlt
  · rw [h.costAt_of_le le_rfl, priceIntegralDelta]
    simp
  · have hlt' : (r.adjustedUtilization : ℝ) / r.weight < u / r.weight :=
      div_lt_div_of_pos_right (Int.cast_lt.mpr hlt) hW
    refine (if_neg (not_le.mpr hlt')).trans ?_
    have hpow : ∀ x y : ℝ, CMath.pow x y = x ^ y := fun _ _ => rfl
    simp only [priceIntegralDelta, power, CostCurve.power, Int.cast_sub, hpow]
    ring

/-- Integrals of the price add up. -/
theorem priceIntegralDelta_sub (r : PowerupResource ℝ) (u v w : ℤ) :
    r.priceIntegralDelta u w - r.priceIntegralDelta u v = r.priceIntegralDelta v w := by
  unfold priceIntegralDelta
  ring

/-- **The fee is the cost of the curve**, rounded up. -/
theorem calcPowerupFee_eq (h : r.Priced) (ha : 0 < a) :
    r.calcPowerupFee a = ⌈h.costAt (r.utilization + a) - h.costAt r.utilization⌉ := by
  unfold calcPowerupFee
  rw [if_neg (not_le.mpr ha)]
  dsimp only
  congr 1
  by_cases hbelow : r.utilization < r.adjustedUtilization
  · rw [if_pos hbelow, if_pos hbelow, h.costAt_of_le hbelow.le]
    by_cases hend : r.adjustedUtilization < r.utilization + a
    · -- the purchase goes beyond the adjusted utilization
      rw [if_pos hend, h.costAt_of_ge hend.le, min_eq_right (by omega)]
      push_cast
      ring
    · rw [if_neg hend, h.costAt_of_le (not_lt.mp hend), min_eq_left (by omega)]
      push_cast
      ring
  · rw [if_neg hbelow, if_neg hbelow, if_pos (by omega), h.costAt_of_ge (not_lt.mp hbelow),
      h.costAt_of_ge (by omega), priceIntegralDelta_sub, zero_add]

/-! ## What purchases cost -/

/-- A fraction of the market. -/
theorem frac_mem (h : r.Priced) {u : ℤ} (hu : 0 ≤ u) (hle : u ≤ r.weight) :
    0 ≤ (u : ℝ) / r.weight ∧ (u : ℝ) / r.weight ≤ 1 := by
  have hW : (0 : ℝ) < r.weight := Int.cast_pos.mpr h.weight_pos
  exact ⟨div_nonneg (Int.cast_nonneg hu) hW.le, (div_le_one hW).mpr (Int.cast_le.mpr hle)⟩

/-- The price at any utilization is in the range of the settings. -/
theorem price_mem (h : r.Priced) {u : ℤ} (hu : 0 ≤ u) (hle : u ≤ r.weight) :
    r.minPrice.amount ≤ h.curve.price (u / r.weight) ∧
      h.curve.price (u / r.weight) ≤ r.maxPrice.amount := by
  obtain ⟨hu₀, hu₁⟩ := h.frac_mem hu hle
  obtain ⟨hA₀, hA₁⟩ := h.frac_mem h.adjusted_nonneg h.adjusted_le
  have hmax := hu₀.trans (le_max_right ((r.adjustedUtilization : ℝ) / r.weight) (u / r.weight))
  exact ⟨CostCurve.le_power_price h.min_le_max_cast h.one_le_exponent h.min_eq_max_cast hmax,
    CostCurve.power_price_le h.min_le_max_cast h.one_le_exponent h.min_eq_max_cast hmax
      (max_le hA₁ hu₁)⟩

theorem frac_add (u : ℤ) : ((u + a : ℤ) : ℝ) / r.weight = u / r.weight + a / r.weight := by
  push_cast
  ring

/-- The amount at the minimum and at the maximum price. -/
theorem cost_mem (h : r.Priced) {u : ℤ} (hu : 0 ≤ u) (ha : 0 ≤ a) (hle : u + a ≤ r.weight) :
    (r.minPrice.amount * a / r.weight : ℝ) ≤ h.costAt (u + a) - h.costAt u ∧
      h.costAt (u + a) - h.costAt u ≤ r.maxPrice.amount * a / r.weight := by
  have hW : (0 : ℝ) < r.weight := Int.cast_pos.mpr h.weight_pos
  obtain ⟨hu₀, -⟩ := h.frac_mem hu (by omega)
  have hxy : (u : ℝ) / r.weight ≤ ((u + a : ℤ) : ℝ) / r.weight :=
    div_le_div_of_nonneg_right (Int.cast_le.mpr (by omega)) hW.le
  have hdiff : ((u + a : ℤ) : ℝ) / r.weight - u / r.weight = a / r.weight := by
    rw [frac_add, add_sub_cancel_left]
  have hlo := h.curve.le_cost_sub hu₀ hxy (h.price_mem hu (by omega)).1
  have hhi := h.curve.cost_sub_le hu₀ hxy (h.price_mem (by omega : 0 ≤ u + a) hle).2
  rw [hdiff, mul_div_assoc'] at hlo hhi
  exact ⟨hlo, hhi⟩

/-- More costs more. -/
theorem costAt_mono (h : r.Priced) {u : ℤ} (hu : 0 ≤ u) (ha : 0 ≤ a) (hle : u + a ≤ r.weight) :
    h.costAt u ≤ h.costAt (u + a) := by
  have hlo := (h.cost_mem hu ha hle).1
  have hnonneg : (0 : ℝ) ≤ r.minPrice.amount * a / r.weight :=
    div_nonneg (mul_nonneg (Int.cast_nonneg h.min_nonneg) (Int.cast_nonneg ha))
      (Int.cast_nonneg h.weight_pos.le)
  exact sub_nonneg.mp (hnonneg.trans hlo)

/-- The same amount costs more when more is in use. -/
theorem costAt_sub_mono (h : r.Priced) {u : ℤ} (hu : 0 ≤ u) (ha : 0 ≤ a) (hb : 0 ≤ b) :
    h.costAt (u + a) - h.costAt u ≤ h.costAt (u + b + a) - h.costAt (u + b) := by
  have hW : (0 : ℝ) < r.weight := Int.cast_pos.mpr h.weight_pos
  have hmono := h.curve.cost_sub_mono (div_nonneg (Int.cast_nonneg hu) hW.le)
    (div_le_div_of_nonneg_right (Int.cast_le.mpr (le_add_of_nonneg_right hb)) hW.le)
    (div_nonneg (Int.cast_nonneg ha) hW.le)
  simpa only [costAt, frac_add] using hmono

end Priced

/-- **The fee law**: in a market that is not empty, for amounts `a` and `b` that it has: buying
both in one purchase costs at most as much as one after the other in the same second; a larger
amount does not cost less, nor the same amount when more is in use; and the fee is at least the
amount at the minimum price and at most that at the maximum price, up to rounding. -/
theorem calcPowerupFee_law {r : PowerupResource ℝ} (h : r.Priced) {a b : ℤ} (ha : 0 < a) (hb : 0 <
    b)
    (hab : r.utilization + a + b ≤ r.weight) :
    (∀ now ≤ r.utilizationTimestamp, r.calcPowerupFee (a + b) ≤
      r.calcPowerupFee a + ((r.bought a).updateUtilization now).calcPowerupFee b) ∧
    r.calcPowerupFee a ≤ r.calcPowerupFee (a + b) ∧
    r.calcPowerupFee a ≤ (r.bought b).calcPowerupFee a ∧
    (r.minPrice.amount * a / r.weight : ℝ) ≤ r.calcPowerupFee a ∧
    (r.calcPowerupFee a : ℝ) < r.maxPrice.amount * a / r.weight + 1 := by
  have hu := h.utilization_nonneg
  have hsum : r.utilization + (a + b) = r.utilization + a + b := (add_assoc _ _ _).symm
  have hfee := h.calcPowerupFee_eq ha
  have hfees := h.calcPowerupFee_eq (add_pos ha hb)
  rw [hsum] at hfees
  refine ⟨fun now hnow => ?_, ?_, ?_, ?_, ?_⟩
  · -- the two parts of the area are rounded up separately
    have h₁ := h.bought ha.le (by omega)
    have hnow' : now ≤ (r.bought a).utilizationTimestamp := hnow
    have hsecond : (r.bought a).calcPowerupFee b =
        ⌈h.costAt (r.utilization + a + b) - h.costAt (r.utilization + a)⌉ :=
      h₁.calcPowerupFee_eq hb
    rw [updateUtilization_of_le hnow', hfees, hfee, hsecond]
    refine le_trans (le_of_eq (congrArg Int.ceil ?_)) (Int.ceil_add_le _ _)
    ring
  · rw [hfee, hfees]
    have := h.costAt_mono (by omega : 0 ≤ r.utilization + a) hb.le hab
    exact Int.ceil_mono (sub_le_sub_right this _)
  · have h₁ := h.bought hb.le (by omega)
    have hlater : (r.bought b).calcPowerupFee a =
        ⌈h.costAt (r.utilization + b + a) - h.costAt (r.utilization + b)⌉ :=
      h₁.calcPowerupFee_eq ha
    rw [hfee, hlater]
    exact Int.ceil_mono (h.costAt_sub_mono hu ha.le hb.le)
  · rw [hfee]
    exact (h.cost_mem hu ha.le (by omega)).1.trans (Int.le_ceil _)
  · rw [hfee]
    have := (h.cost_mem hu ha.le (by omega)).2
    exact (Int.ceil_lt_add_one _).trans_le (by linarith)

/-- A market with a quadratic cost, a tenth of it in use. -/
noncomputable def feeExample : PowerupResource ℝ :=
  { PowerupResource.new with
    weight := 1000
    minPrice := ⟨100, ⟨1397703940⟩⟩
    maxPrice := ⟨5000, ⟨1397703940⟩⟩
    utilization := 100
    adjustedUtilization := 150 }

theorem calcPowerupFee_law_example :
    feeExample.calcPowerupFee (30 + 40) ≤
        feeExample.calcPowerupFee 30 +
          ((feeExample.bought 30).updateUtilization 0).calcPowerupFee 40 ∧
      (feeExample.calcPowerupFee 30 : ℝ) < 5000 * 30 / 1000 + 1 := by
  have h : feeExample.Priced := by
    refine ⟨?_, ?_, ?_, ?_, ?_, ?_, ?_, ?_, ?_, ?_⟩
    all_goals simp [feeExample, PowerupResource.new]
  have hlaw := calcPowerupFee_law h (show (0 : ℤ) < 30 by decide) (show (0 : ℤ) < 40 by decide)
    (by simp [feeExample])
  refine ⟨hlaw.1 0 (Nat.zero_le _), ?_⟩
  have := hlaw.2.2.2.2
  simpa [feeExample] using this

end PowerupResource

end EosioSystem
