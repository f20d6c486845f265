import Mathlib.Algebra.Order.Ring.Defs
import Mathlib.Tactic.Linarith
import Mathlib.Tactic.Ring
import Mathlib.Analysis.SpecialFunctions.Pow.Real
import Mathlib.Analysis.Convex.SpecificFunctions.Basic

/-!
# Cost curves

Something is sold at a price that rises with the amount in use. The cost of going from one amount
to another is the area under the price; all that is used about it is that the price is a tangent
of the cost. Then a purchase costs more the more is in use, and a price that is kept from falling
below the price at some amount is again the price of a cost curve.

## Main definitions

* `CostCurve R`: a price and a cost with the tangent inequality, from the amount 0 on
* `CostCurve.flat`: the price below an amount is the one at that amount
* `CostCurve.power`: a price with a minimum and a part that is a power of the amount

## Main results

* `CostCurve.cost_sub_le`, `CostCurve.le_cost_sub`: the price bounds the cost of a purchase
* `CostCurve.le_power_price`, `CostCurve.power_price_le`: the range of the price of a power curve
* `CostCurve.cost_sub_mono`: the same amount costs more when more is in use
-/

/-- A price and the cost of the amounts from 0 on, of which the price is a tangent. -/
structure CostCurve (R : Type*) [CommRing R] [LinearOrder R] where
  price : R → R
  cost : R → R
  tangent : ∀ x y, 0 ≤ x → 0 ≤ y → price x * (y - x) ≤ cost y - cost x

namespace CostCurve

variable {R : Type*} [CommRing R] [LinearOrder R] [IsStrictOrderedRing R] (c : CostCurve R)
  {x y d A lo hi : R}

/-- A purchase costs at most its amount at the last price. -/
theorem cost_sub_le_price (hx : 0 ≤ x) (hy : 0 ≤ y) : c.cost y - c.cost x ≤ c.price y * (y -
    x) := by
  have := c.tangent y x hy hx
  linarith

theorem price_mono (hx : 0 ≤ x) (hxy : x ≤ y) : c.price x ≤ c.price y := by
  rcases hxy.eq_or_lt with rfl | hlt
  · exact le_rfl
  · have h₁ := c.tangent x y hx (hx.trans hxy)
    have h₂ := c.cost_sub_le_price hx (hx.trans hxy)
    exact le_of_mul_le_mul_right (h₁.trans h₂) (sub_pos.mpr hlt)

/-- **Upper bound**: a purchase costs at most its amount at a price that is not exceeded. -/
theorem cost_sub_le (hx : 0 ≤ x) (hxy : x ≤ y) (hhi : c.price y ≤ hi) :
    c.cost y - c.cost x ≤ hi * (y - x) :=
  (c.cost_sub_le_price hx (hx.trans hxy)).trans
    (mul_le_mul_of_nonneg_right hhi (sub_nonneg.mpr hxy))

/-- **Lower bound**: a purchase costs at least its amount at a price that is always asked. -/
theorem le_cost_sub (hx : 0 ≤ x) (hxy : x ≤ y) (hlo : lo ≤ c.price x) :
    lo * (y - x) ≤ c.cost y - c.cost x :=
  (mul_le_mul_of_nonneg_right hlo (sub_nonneg.mpr hxy)).trans (c.tangent x y hx (hx.trans hxy))

/-- More costs more, if the price is not negative. -/
theorem cost_mono (hx : 0 ≤ x) (hxy : x ≤ y) (hp : 0 ≤ c.price x) : c.cost x ≤ c.cost y := by
  have := c.le_cost_sub hx hxy hp
  rw [zero_mul] at this
  exact sub_nonneg.mp this

/-- **The same amount costs more when more is in use.** -/
theorem cost_sub_mono (hx : 0 ≤ x) (hxy : x ≤ y) (hd : 0 ≤ d) :
    c.cost (x + d) - c.cost x ≤ c.cost (y + d) - c.cost y := by
  have hy : 0 ≤ y := hx.trans hxy
  rcases le_total (x + d) y with hle | hle
  · -- the two purchases do not overlap
    have h₁ := c.cost_sub_le hx (le_add_of_nonneg_right hd) (c.price_mono (add_nonneg hx hd) hle)
    have h₂ := c.le_cost_sub hy (le_add_of_nonneg_right hd) le_rfl
    rw [add_sub_cancel_left] at h₁ h₂
    exact h₁.trans h₂
  · -- the parts that do not overlap are of the same length
    have h₁ := c.cost_sub_le hx hxy (c.price_mono hy hle)
    have h₂ := c.le_cost_sub (add_nonneg hx hd) (add_le_add_left hxy d) le_rfl
    have h₃ : y + d - (x + d) = y - x := by ring
    rw [h₃] at h₂
    linarith

/-- The price below an amount is the price at that amount. -/
def flat (c : CostCurve R) (A : R) (hA : 0 ≤ A) : CostCurve R where
  price x := c.price (max A x)
  cost x := if x ≤ A then c.price A * (x - A) else c.cost x - c.cost A
  tangent x y hx hy := by
    by_cases hxA : x ≤ A
    · rw [max_eq_left hxA, if_pos hxA]
      by_cases hyA : y ≤ A
      · rw [if_pos hyA]
        exact le_of_eq (by ring)
      · rw [if_neg hyA]
        have := c.tangent A y hA hy
        linarith
    · have hlt := not_le.mp hxA
      rw [max_eq_right hlt.le, if_neg hxA]
      by_cases hyA : y ≤ A
      · -- the price falls to that at `A` on the way, and stays there
        rw [if_pos hyA]
        have h₁ := c.cost_sub_le_price hA hx
        have h₂ := mul_le_mul_of_nonneg_right (c.price_mono hA hlt.le) (sub_nonneg.mpr hyA)
        linarith
      · rw [if_neg hyA, sub_sub_sub_cancel_right]
        exact c.tangent x y hx hy

/-- A power of the amount lies above its tangents. -/
theorem rpow_tangent {e x y : ℝ} (he : 1 < e) (hx : 0 ≤ x) (hy : 0 ≤ y) :
    e * x ^ (e - 1) * (y - x) ≤ y ^ e - x ^ e := by
  rcases hx.eq_or_lt with rfl | hpos
  · rw [Real.zero_rpow (by linarith), Real.zero_rpow (by linarith)]
    simpa using Real.rpow_nonneg hy e
  · have hb := one_add_mul_self_le_rpow_one_add (s := y / x - 1)
      (by linarith [div_nonneg hy hpos.le]) he.le
    rw [add_sub_cancel, Real.div_rpow hy hx, le_div_iff₀ (Real.rpow_pos_of_pos hpos e)] at hb
    have hxe : x ^ e = x ^ (e - 1) * x := by
      rw [← Real.rpow_add_one hpos.ne', sub_add_cancel]
    have hexp : (1 + e * (y / x - 1)) * x ^ e = x ^ e + e * x ^ (e - 1) * (y - x) := by
      rw [hxe]
      field_simp
    linarith

/-- A price that rises from `lo` to `hi` as a power of the amount; it stays at `hi` if the power
is 0. -/
noncomputable def power (lo hi e : ℝ) (hle : lo ≤ hi) (he : 1 ≤ e) (h : e = 1 → lo = hi) :
    CostCurve ℝ where
  price x := if e - 1 ≤ 0 then hi else lo + (hi - lo) * x ^ (e - 1)
  cost x := lo * x + (hi - lo) / e * x ^ e
  tangent x y hx hy := by
    rcases he.eq_or_lt with rfl | hlt
    · rw [if_pos (by norm_num), h rfl]
      exact le_of_eq (by ring)
    · rw [if_neg (by linarith)]
      have hcoeff : 0 ≤ (hi - lo) / e := div_nonneg (sub_nonneg.mpr hle) (by linarith)
      have hmul := mul_le_mul_of_nonneg_left (rpow_tangent hlt hx hy) hcoeff
      have hcancel : (hi - lo) / e * (e * x ^ (e - 1) * (y - x)) =
          (hi - lo) * x ^ (e - 1) * (y - x) := by
        have hne : e ≠ 0 := by linarith
        field_simp
      rw [hcancel] at hmul
      linarith

/-- The price of a power curve is at least the minimum. -/
theorem le_power_price {lo hi e x : ℝ} (hle : lo ≤ hi) (he : 1 ≤ e) (h : e = 1 → lo = hi)
    (hx : 0 ≤ x) : lo ≤ (power lo hi e hle he h).price x := by
  unfold power
  dsimp only
  split_ifs
  · exact hle
  · exact le_add_of_nonneg_right
      (mul_nonneg (sub_nonneg.mpr hle) (Real.rpow_nonneg hx _))

/-- Up to the amount 1 it is at most the maximum. -/
theorem power_price_le {lo hi e x : ℝ} (hle : lo ≤ hi) (he : 1 ≤ e) (h : e = 1 → lo = hi)
    (hx : 0 ≤ x) (hx₁ : x ≤ 1) : (power lo hi e hle he h).price x ≤ hi := by
  unfold power
  dsimp only
  split_ifs
  · exact le_rfl
  · have hpow : x ^ (e - 1) ≤ 1 := Real.rpow_le_one hx hx₁ (by linarith)
    have := mul_le_mul_of_nonneg_left hpow (sub_nonneg.mpr hle)
    linarith

end CostCurve
