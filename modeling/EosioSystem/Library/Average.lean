import Mathlib.Algebra.Order.BigOperators.Group.List
import Mathlib.Algebra.Order.Ring.Int
import Mathlib.Data.Int.Order.Basic
import Mathlib.Tactic.Linarith
import Mathlib.Tactic.Ring

/-!
# Weighted averages in whole numbers

The average of two numbers with weights, rounded down, and what a sequence of such averages comes
to when a weight is added in parts: each part after the first can lose less than one to rounding.

## Main definitions

* `avg n b m a`: the average of `n` with the weight `b` and of `m` with the weight `a`

## Main results

* `le_avg`, `avg_le`: the average lies between the two numbers
* `avg_mono`, `avg_sub_le`: it grows with the first number, and by no more than that does
* `avg_add_le`: adding a weight in two parts loses at most one
-/

/-- The average of `n` with the weight `b` and of `m` with the weight `a`, rounded down. -/
def avg (n b m a : ℤ) : ℤ := (n * b + m * a) / (b + a)

section

variable {n n' b m a a' k : ℤ}

theorem le_avg (h : n ≤ m) (hb : 0 ≤ b) (ha : 0 < a) : n ≤ avg n b m a := by
  refine (Int.le_ediv_iff_mul_le (add_pos_of_nonneg_of_pos hb ha)).mpr ?_
  have hmul := mul_le_mul_of_nonneg_right h ha.le
  linarith [mul_add n b a]

theorem avg_le (h : n ≤ m) (hb : 0 ≤ b) (ha : 0 < a) : avg n b m a ≤ m := by
  refine Int.ediv_le_of_le_mul (add_pos_of_nonneg_of_pos hb ha) ?_
  have hmul := mul_le_mul_of_nonneg_right h hb
  linarith [mul_add m b a]

theorem avg_mono (h : n ≤ n') (hb : 0 ≤ b) (ha : 0 < a) : avg n b m a ≤ avg n' b m a := by
  refine Int.ediv_le_ediv (add_pos_of_nonneg_of_pos hb ha) ?_
  exact Int.add_le_add_right (mul_le_mul_of_nonneg_right h hb) _

/-- The average falls by no more than its first number. -/
theorem avg_sub_le (hk : 0 ≤ k) (hb : 0 ≤ b) (ha : 0 < a) :
    avg n b m a - k ≤ avg (n - k) b m a := by
  have hpos : 0 < b + a := add_pos_of_nonneg_of_pos hb ha
  rw [avg, avg, Int.le_ediv_iff_mul_le hpos]
  have hfloor := Int.ediv_mul_le (n * b + m * a) hpos.ne'
  have hka : 0 ≤ k * a := mul_nonneg hk ha.le
  linarith [sub_mul ((n * b + m * a) / (b + a)) k (b + a), mul_add k b a, sub_mul n k b]

theorem avg_nonneg (hn : 0 ≤ n) (hm : 0 ≤ m) (hb : 0 ≤ b) (ha : 0 < a) : 0 ≤ avg n b m a :=
  Int.ediv_nonneg (add_nonneg (mul_nonneg hn hb) (mul_nonneg hm ha.le))
    (add_pos_of_nonneg_of_pos hb ha).le

/-- The average is below every bound of both numbers. -/
theorem avg_lt (hn : n < k) (hm : m < k) (hb : 0 ≤ b) (ha : 0 < a) : avg n b m a < k := by
  refine Int.ediv_lt_of_lt_mul (add_pos_of_nonneg_of_pos hb ha) ?_
  have h₁ := mul_le_mul_of_nonneg_right hn.le hb
  have h₂ := mul_lt_mul_of_pos_right hm ha
  linarith [mul_add k b a]

/-- A weight that is added in two parts loses at most one to rounding. -/
theorem avg_add_le (hb : 0 ≤ b) (ha : 0 < a) (ha' : 0 < a') :
    avg n b m (a + a') - 1 ≤ avg (avg n b m a) (b + a) m a' := by
  have hpos : 0 < b + a := add_pos_of_nonneg_of_pos hb ha
  have hpos' : 0 < b + a + a' := add_pos hpos ha'
  -- the first part rounds off less than its own weight
  have hpart : n * b + m * a - (b + a) < avg n b m a * (b + a) := by
    have := Int.lt_ediv_add_one_mul_self (n * b + m * a) hpos
    unfold avg
    linarith [add_mul ((n * b + m * a) / (b + a)) 1 (b + a)]
  have hwhole : avg n b m (a + a') * (b + a + a') ≤ n * b + m * (a + a') := by
    have := Int.ediv_mul_le (n * b + m * (a + a')) (b := b + (a + a')) (by linarith)
    unfold avg
    linarith [add_assoc b a a']
  refine (Int.le_ediv_iff_mul_le hpos').mpr ?_
  linarith [sub_mul (avg n b m (a + a')) 1 (b + a + a'), mul_add m a a']

end
