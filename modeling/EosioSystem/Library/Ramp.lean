import Mathlib.Algebra.Order.Ring.Int
import Mathlib.Tactic.Linarith
import Mathlib.Tactic.Ring

/-!
# Ramps

An integer that falls along a straight line from one value to another between two times, rounded
toward the value it starts from, and keeps the second value afterwards. A ramp that is started
anew from the value it has reached, rounded as it is, stays within one unit of the old one.

## Main definitions

* `ramp hi lo t₀ t₁ t`: the value at the time `t`

## Main results

* `ramp_mem`, `ramp_anti`, `lt_ramp`: the range of a ramp, which only falls
* `ramp_restart`: **a ramp that is started anew** differs by at most one
-/

/-- The value at `t` on the way from `hi` at `t₀` down to `lo` at `t₁`. -/
def ramp (hi lo : ℤ) (t₀ t₁ t : ℕ) : ℤ :=
  if t₁ ≤ t then lo else hi + ((lo - hi) * (t - t₀ : ℕ)).tdiv (t₁ - t₀ : ℕ)

variable {hi lo : ℤ} {t₀ t₁ t t' : ℕ}

/-- From the end on a ramp is at its end. -/
theorem ramp_of_le (h : t₁ ≤ t) : ramp hi lo t₀ t₁ t = lo := if_pos h

/-- Before the end it is what is above the line. -/
theorem ramp_of_lt (hle : lo ≤ hi) (h : t < t₁) :
    ramp hi lo t₀ t₁ t = hi - (hi - lo) * (t - t₀ : ℕ) / (t₁ - t₀ : ℕ) := by
  have hneg : (lo - hi) * ((t - t₀ : ℕ) : ℤ) = -((hi - lo) * ((t - t₀ : ℕ) : ℤ)) := by ring
  have hnonneg : 0 ≤ (hi - lo) * ((t - t₀ : ℕ) : ℤ) :=
    mul_nonneg (sub_nonneg.mpr hle) (Int.natCast_nonneg _)
  rw [ramp, if_neg (not_le.mpr h), hneg, Int.neg_tdiv, Int.tdiv_eq_ediv_of_nonneg hnonneg]
  exact (sub_eq_add_neg _ _).symm

theorem ramp_start (h : t₀ < t₁) : ramp hi lo t₀ t₁ t₀ = hi := by
  rw [ramp, if_neg (not_le.mpr h), Nat.sub_self]
  simp

/-- The part of the way that is left is not more than the whole. -/
theorem ramp_mem (hle : lo ≤ hi) (ht : t₀ ≤ t) :
    lo ≤ ramp hi lo t₀ t₁ t ∧ ramp hi lo t₀ t₁ t ≤ hi := by
  rcases le_or_gt t₁ t with h | h
  · rw [ramp_of_le h]
    exact ⟨le_rfl, hle⟩
  · have hd : 0 ≤ hi - lo := sub_nonneg.mpr hle
    have hpos : (0 : ℤ) < (t₁ - t₀ : ℕ) := by omega
    have hlow : 0 ≤ (hi - lo) * ((t - t₀ : ℕ) : ℤ) / (t₁ - t₀ : ℕ) :=
      Int.ediv_nonneg (mul_nonneg hd (Int.natCast_nonneg _)) hpos.le
    have hhigh : (hi - lo) * ((t - t₀ : ℕ) : ℤ) / (t₁ - t₀ : ℕ) ≤ hi - lo := by
      refine Int.ediv_le_of_le_mul hpos ?_
      exact mul_le_mul_of_nonneg_left (by omega) hd
    rw [ramp_of_lt hle h]
    omega

/-- **A ramp only falls.** -/
theorem ramp_anti (hle : lo ≤ hi) (ht : t₀ ≤ t) (htt : t ≤ t') :
    ramp hi lo t₀ t₁ t' ≤ ramp hi lo t₀ t₁ t := by
  rcases le_or_gt t₁ t' with h | h
  · rw [ramp_of_le h]
    exact (ramp_mem hle ht).1
  · rw [ramp_of_lt hle h, ramp_of_lt hle (htt.trans_lt h)]
    have hmul : (hi - lo) * ((t - t₀ : ℕ) : ℤ) ≤ (hi - lo) * ((t' - t₀ : ℕ) : ℤ) :=
      mul_le_mul_of_nonneg_left (by omega) (sub_nonneg.mpr hle)
    have := Int.ediv_le_ediv (by omega : (0 : ℤ) < (t₁ - t₀ : ℕ)) hmul
    omega

/-- Before the end a ramp has not reached its end. -/
theorem lt_ramp (hlt : lo < hi) (ht : t₀ ≤ t) (h : t < t₁) : lo < ramp hi lo t₀ t₁ t := by
  rw [ramp_of_lt hlt.le h]
  have hmul : (hi - lo) * ((t - t₀ : ℕ) : ℤ) < (hi - lo) * (t₁ - t₀ : ℕ) :=
    mul_lt_mul_of_pos_left (by omega) (sub_pos.mpr hlt)
  have := Int.ediv_lt_of_lt_mul (by omega : (0 : ℤ) < (t₁ - t₀ : ℕ)) hmul
  omega

/-- Two floors, the second of what the first has left over, against the floor of the whole. -/
theorem floor_restart {D q X Q e k M : ℤ} (he : 0 ≤ e) (hk : 0 ≤ k) (hkM : k < M)
    (hq : q = D * e / (M + e)) (hX : X = (D - q) * k / M) (hQ : Q = D * (e + k) / (M + e)) :
    q + X ≤ Q ∧ Q ≤ q + X + 1 := by
  have hM : 0 < M := hk.trans_lt hkM
  have hL : 0 < M + e := by omega
  have hq₁ : q * (M + e) ≤ D * e := hq ▸ Int.ediv_mul_le _ hL.ne'
  have hq₂ : D * e < (q + 1) * (M + e) := hq ▸ Int.lt_ediv_add_one_mul_self _ hL
  have hX₁ : X * M ≤ (D - q) * k := hX ▸ Int.ediv_mul_le _ hM.ne'
  have hX₂ : (D - q) * k < (X + 1) * M := hX ▸ Int.lt_ediv_add_one_mul_self _ hM
  constructor
  · rw [hQ, Int.le_ediv_iff_mul_le hL]
    have h₁ := mul_le_mul_of_nonneg_right hX₁ hL.le
    have h₂ := mul_le_mul_of_nonneg_right hq₁ (sub_nonneg.mpr hkM.le)
    have h₃ : (q + X) * (M + e) * M ≤ D * (e + k) * M := by linarith
    exact le_of_mul_le_mul_right h₃ hM
  · have h₁ := mul_lt_mul_of_pos_right hX₂ hL
    have h₂ := mul_lt_mul_of_pos_right hq₂ (sub_pos.mpr hkM)
    have h₀ := mul_nonneg hk hL.le
    have h₃ : D * (e + k) * M < (q + X + 2) * (M + e) * M := by linarith
    have h₄ : D * (e + k) < (q + X + 2) * (M + e) := lt_of_mul_lt_mul_right h₃ hM.le
    have := Int.ediv_lt_of_lt_mul hL h₄
    omega

/-- **A ramp that is started anew**, toward the same end, from the value it has reached. -/
theorem ramp_restart (hle : lo ≤ hi) (ht : t₀ ≤ t) (htt : t ≤ t') :
    ramp hi lo t₀ t₁ t' ≤ ramp (ramp hi lo t₀ t₁ t) lo t t₁ t' ∧
      ramp (ramp hi lo t₀ t₁ t) lo t t₁ t' ≤ ramp hi lo t₀ t₁ t' + 1 := by
  rcases le_or_gt t₁ t' with h | h
  · rw [ramp_of_le h, ramp_of_le h]
    exact ⟨le_rfl, by omega⟩
  · have hmem : lo ≤ ramp hi lo t₀ t₁ t ∧ ramp hi lo t₀ t₁ t ≤ hi := ramp_mem hle ht
    rw [ramp_of_lt hmem.1 h, ramp_of_lt hle h, ramp_of_lt hle (htt.trans_lt h)]
    -- the times counted from `t`
    have hL : ((t₁ - t₀ : ℕ) : ℤ) = (t₁ - t : ℕ) + (t - t₀ : ℕ) := by omega
    have hk : ((t' - t₀ : ℕ) : ℤ) = (t - t₀ : ℕ) + (t' - t : ℕ) := by omega
    rw [hL, hk]
    set q := (hi - lo) * ((t - t₀ : ℕ) : ℤ) / ((t₁ - t : ℕ) + (t - t₀ : ℕ)) with hq
    have hrest : hi - q - lo = hi - lo - q := by ring
    have := floor_restart (D := hi - lo) (Int.natCast_nonneg (t - t₀)) (Int.natCast_nonneg (t' - t))
      (by omega : ((t' - t : ℕ) : ℤ) < (t₁ - t : ℕ)) hq rfl rfl
    rw [hrest]
    omega
