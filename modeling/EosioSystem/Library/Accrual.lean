import Mathlib.Algebra.BigOperators.Intervals
import Mathlib.Algebra.Group.Action.Defs
import Mathlib.Algebra.Order.BigOperators.Group.Finset
import Mathlib.Order.Interval.Finset.Nat

/-!
# Accrual at a rate that changes

Something grows at every tick of a clock by a rate that is changed from time to time. A change
at a tick is in force from the next tick on. The amount due over an interval is the sum over its
ticks; while the rate is constant it is a product, so that nothing depends on how an interval is
cut up.

## Main definitions

* `Accrual.rateAt changes j`: the rate in force at the tick `j`
* `Accrual.due changes a b`: what is due for the ticks after `a`, up to `b`

## Main results

* `Accrual.due_add_due`: two intervals put together
* `Accrual.due_of_const`: a constant rate
* `Accrual.due_cons`: a change does not touch the past
-/

namespace Accrual

variable {changes : List (ℕ × ℕ)} {a b c j t r : ℕ}

/-- The rate in force at a tick, when the changes are given with the latest first. -/
def rateAt (changes : List (ℕ × ℕ)) (j : ℕ) : ℕ :=
  ((changes.find? fun c => c.1 < j).map Prod.snd).getD 0

theorem rateAt_nil (j : ℕ) : rateAt [] j = 0 := rfl

theorem rateAt_cons_of_lt (changes : List (ℕ × ℕ)) (r : ℕ) (h : t < j) :
    rateAt ((t, r) :: changes) j = r := by
  simp [rateAt, h]

theorem rateAt_cons_of_le (changes : List (ℕ × ℕ)) (r : ℕ) (h : j ≤ t) :
    rateAt ((t, r) :: changes) j = rateAt changes j := by
  simp [rateAt, h]

/-- What is due for the ticks after `a`, up to `b`. -/
def due (changes : List (ℕ × ℕ)) (a b : ℕ) : ℕ := ∑ j ∈ Finset.Ioc a b, rateAt changes j

theorem due_self (changes : List (ℕ × ℕ)) (a : ℕ) : due changes a a = 0 := by
  simp [due]

theorem due_add_due (changes : List (ℕ × ℕ)) (h₁ : a ≤ b) (h₂ : b ≤ c) :
    due changes a b + due changes b c = due changes a c :=
  Finset.sum_Ioc_consecutive _ h₁ h₂

/-- A rate that stays the same. -/
theorem due_of_const (h : ∀ j, a < j → rateAt changes j = r) : due changes a b = (b - a) * r := by
  unfold due
  rw [Finset.sum_congr rfl fun j hj => h j (Finset.mem_Ioc.mp hj).1, Finset.sum_const,
    Nat.card_Ioc, smul_eq_mul]

/-- A change does not touch what is due up to it. -/
theorem due_cons (changes : List (ℕ × ℕ)) (r : ℕ) (h : b ≤ t) :
    due ((t, r) :: changes) a b = due changes a b :=
  Finset.sum_congr rfl fun _ hj => rateAt_cons_of_le changes r ((Finset.mem_Ioc.mp hj).2.trans h)

end Accrual
