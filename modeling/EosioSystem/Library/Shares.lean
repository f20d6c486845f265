import Mathlib.Algebra.Order.Ring.Int
import Mathlib.Tactic.Linarith
import Mathlib.Tactic.Positivity
import Mathlib.Tactic.Ring

/-!
# Shares of a pool

A pool of `S` tokens that is divided into `R` shares. A share is sold for its part of the tokens
and bought at the same price, both rounded down, so that what remains in the pool is never worth
less per share than before. Prices are compared by cross products.

## Main results

* `Shares.value_le`, `Shares.value_mono`: the value of shares is between nothing and the pool
* `Shares.sell_price`, `Shares.buy_price`, `Shares.price_trans`: the price of a share never falls
* `Shares.value_le_value`: neither does the value of shares
-/

namespace Shares

variable {r r' S S' R R' : ℤ}

/-- What `r` of the `R` shares are worth. -/
theorem value_nonneg (hr : 0 ≤ r) (hS : 0 ≤ S) (hR : 0 < R) : 0 ≤ r * S / R :=
  Int.ediv_nonneg (mul_nonneg hr hS) hR.le

theorem value_mono (hr : r ≤ r') (hS : 0 ≤ S) (hR : 0 < R) : r * S / R ≤ r' * S / R :=
  Int.ediv_le_ediv hR (mul_le_mul_of_nonneg_right hr hS)

theorem value_le (hr : r ≤ R) (hS : 0 ≤ S) (hR : 0 < R) : r * S / R ≤ S :=
  (value_mono hr hS hR).trans (Int.mul_ediv_cancel_left S hR.ne').le

/-- All shares are worth the whole pool. -/
theorem value_all (hR : 0 < R) : R * S / R = S := Int.mul_ediv_cancel_left S hR.ne'

/-- A sale leaves the remaining shares at least what they were worth. -/
theorem sell_price (hR : 0 < R) : S * (R - r) ≤ (S - r * S / R) * R := by
  have h := Int.ediv_mul_le (r * S) hR.ne'
  linarith [sub_mul S (r * S / R) R]

/-- A purchase leaves all shares at least what they were worth. -/
theorem buy_price (hS : 0 < S) : S * (S' * R / S) ≤ S' * R := Int.mul_ediv_self_le hS.ne'

/-- Prices that do not fall, one after the other. -/
theorem price_trans {S₁ R₁ : ℤ} (hR : 0 ≤ R) (hR₁ : 0 < R₁) (hR' : 0 ≤ R')
    (h₁ : S * R₁ ≤ S₁ * R) (h₂ : S₁ * R' ≤ S' * R₁) : S * R' ≤ S' * R := by
  have h : S * R' * R₁ ≤ S' * R * R₁ := by
    calc S * R' * R₁ = S * R₁ * R' := by ring
      _ ≤ S₁ * R * R' := mul_le_mul_of_nonneg_right h₁ hR'
      _ = S₁ * R' * R := by ring
      _ ≤ S' * R₁ * R := mul_le_mul_of_nonneg_right h₂ hR
      _ = S' * R * R₁ := by ring
  exact le_of_mul_le_mul_right h hR₁

/-- At a price that has not fallen the value of shares has not fallen. -/
theorem value_le_value (hr : 0 ≤ r) (hR : 0 < R) (hR' : 0 < R') (h : S * R' ≤ S' * R) :
    r * S / R ≤ r * S' / R' := by
  rw [Int.le_ediv_iff_mul_le hR']
  have hle : r * S / R * R' * R ≤ r * S' * R := by
    calc r * S / R * R' * R = r * S / R * R * R' := by ring
      _ ≤ r * S * R' := mul_le_mul_of_nonneg_right (Int.ediv_mul_le _ hR.ne') hR'.le
      _ = r * (S * R') := by ring
      _ ≤ r * (S' * R) := mul_le_mul_of_nonneg_left h hr
      _ = r * S' * R := by ring
  exact le_of_mul_le_mul_right hle hR

/-- A bound on the number of shares per token is kept while the price does not fall. -/
theorem ratio_le {c : ℤ} (hS : 0 < S) (hS' : 0 ≤ S') (h : R ≤ c * S) (hp : S * R' ≤ S' * R) :
    R' ≤ c * S' := by
  have h₁ : S * R' ≤ S * (c * S') := by
    calc S * R' ≤ S' * R := hp
      _ ≤ S' * (c * S) := mul_le_mul_of_nonneg_left h hS'
      _ = S * (c * S') := by ring
  exact le_of_mul_le_mul_left h₁ hS

end Shares
