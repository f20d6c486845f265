import Mathlib.Algebra.Order.Group.Defs
import Mathlib.Algebra.Order.Group.Unbundled.Basic

/-!
# Event flows

A sequence of events, each of which carries an amount: what comes into a ledger with it, or leaves
it when the amount is negative. The amounts of a flow add up, and its peak bounds what they add up
to on the way. A quantity that each event changes by its amount is then known at the end, and
bounded at every state in between.

## Main definitions

* `EventFlow step peak q s s'`: events from `s` to `s'` whose amounts add up to `q`, and never to
more
  than `peak`

## Main results

* `EventFlow.single`, `EventFlow.trans`, `EventFlow.mono`: flows are put together
* `EventFlow.invariant`: what every event keeps
* `EventFlow.measure_eq`: the quantity at the end
* `EventFlow.invariant_le`: what every event keeps while the quantity is bounded
-/

variable {M σ : Type*} [AddCommGroup M] [LinearOrder M]

/-- A sequence of events whose amounts add up to `q` and never to more than `peak`. -/
inductive EventFlow (step : M → σ → σ → Prop) (peak : M) : M → σ → σ → Prop
  | refl {s} : 0 ≤ peak → EventFlow step peak 0 s s
  | tail {q q' s s₁ s'} : EventFlow step peak q s s₁ → step q' s₁ s' → q + q' ≤ peak →
    EventFlow step peak (q + q') s s'

namespace EventFlow

variable {step step' : M → σ → σ → Prop} {peak peak' q q' : M} {s s₁ s' : σ}

theorem peak_nonneg (h : EventFlow step peak q s s') : 0 ≤ peak := by
  induction h with
  | refl h => exact h
  | tail _ _ _ ih => exact ih

theorem le_peak (h : EventFlow step peak q s s') : q ≤ peak := by
  cases h with
  | refl h => exact h
  | tail _ _ h => exact h

/-- A single event. -/
theorem single (h : step q s s') : EventFlow step (max 0 q) q s s' := by
  have h₁ : EventFlow step (max 0 q) (0 + q) s s' :=
    .tail (.refl (le_max_left _ _)) h (by rw [zero_add]; exact le_max_right _ _)
  rwa [zero_add] at h₁

/-- An event that brings nothing. -/
theorem single_zero (h : step 0 s s') : EventFlow step 0 0 s s' := by
  have h₁ := single h
  rwa [max_self] at h₁

theorem refl_zero : EventFlow step 0 0 s s := .refl le_rfl

/-- A flow is also one with a higher peak, of a system with more events. -/
theorem mono (h : EventFlow step peak q s s') (hs : ∀ q s s', step q s s' → step' q s s')
    (hp : peak ≤ peak') : EventFlow step' peak' q s s' := by
  induction h with
  | refl h => exact .refl (h.trans hp)
  | tail _ hst hle ih => exact .tail ih (hs _ _ _ hst) (hle.trans hp)

theorem cast (h : EventFlow step peak q s s') (hq : q = q') (hp : peak ≤ peak') :
    EventFlow step peak' q' s s' := by
  subst hq
  exact h.mono (fun _ _ _ => id) hp

/-- What every event keeps holds at the end. -/
theorem invariant {P : σ → Prop} (h : EventFlow step peak q s s')
    (hs : ∀ q s s', P s → step q s s' → P s') (hP : P s) : P s' := by
  induction h with
  | refl => exact hP
  | tail _ hst _ ih => exact hs _ _ _ (ih hP) hst

/-- A quantity that each event changes by its amount. -/
theorem measure_eq {P : σ → Prop} {m : σ → M} (h : EventFlow step peak q s s')
    (hs : ∀ q s s', P s → step q s s' → P s')
    (hm : ∀ q s s', P s → step q s s' → m s' = m s + q) (hP : P s) : m s' = m s + q := by
  induction h with
  | refl => rw [add_zero]
  | tail h hst _ ih => rw [hm _ _ _ (h.invariant hs hP) hst, ih hP, add_assoc]

section Ordered

variable [IsOrderedAddMonoid M]

/-- One flow after the other. -/
theorem trans (h₁ : EventFlow step peak q s s₁) (h₂ : EventFlow step peak' q' s₁ s')
    (hp : q + peak' ≤ peak) : EventFlow step peak (q + q') s s' := by
  induction h₂ with
  | refl => simpa using h₁
  | tail _ hst hle ih =>
    rw [← add_assoc]
    refine .tail (ih h₁) hst ?_
    rw [add_assoc]
    exact (add_le_add_right hle q).trans hp

/-- A flow that brings nothing, after another one. -/
theorem trans_zero (h₁ : EventFlow step peak q s s₁) (h₂ : EventFlow step 0 0 s₁ s') :
    EventFlow step peak q s s' := by
  have h := h₁.trans h₂ (by rw [add_zero]; exact h₁.le_peak)
  rwa [add_zero] at h

/-- An event that takes something away, after others. -/
theorem trans_nonpos (h : EventFlow step peak q s s₁) (hs : step q' s₁ s') (hq : q' ≤ 0) :
    EventFlow step peak (q + q') s s' :=
  .tail h hs ((add_le_add_right hq q).trans (by rw [add_zero]; exact h.le_peak))

/-- What every event keeps as long as the quantity is at most `b`. -/
theorem invariant_le {P Q : σ → Prop} {m : σ → M} {b : M} (h : EventFlow step peak q s s')
    (hs : ∀ q s s', P s → step q s s' → P s')
    (hm : ∀ q s s', P s → step q s s' → m s' = m s + q)
    (hq : ∀ q s s', P s → m s' ≤ b → Q s → step q s s' → Q s') (hP : P s) (hQ : Q s)
    (hb : m s + peak ≤ b) : Q s' := by
  induction h with
  | refl => exact hQ
  | @tail q q' s s₁ s' h hst hle ih =>
    have hP₁ := h.invariant hs hP
    refine hq _ _ _ hP₁ ?_ (ih hP hQ hb) hst
    rw [hm _ _ _ hP₁ hst, h.measure_eq hs hm hP, add_assoc]
    exact (add_le_add_right hle _).trans hb

end Ordered

end EventFlow
