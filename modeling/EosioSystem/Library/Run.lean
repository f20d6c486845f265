import Mathlib.Order.Basic
import Mathlib.Tactic.SplitIfs

/-!
# Runs of a timed transition system

A transition system whose steps carry the time at which they happen, run at non-decreasing
times. An invariant is proved once for the initial states and once for a step, and then holds in
every reachable state; it may speak about the time of the last step.

## Main definitions

* `Run init step t s`: some run from an initial state reaches `s`, its last step not after `t`
* `Continued step t₀ s₀ t s`: a run that is in `s₀` at the time `t₀` goes on to `s`
* `execAll step t l s`: the run of a deterministic system through a list of timed steps

## Main results

* `Run.invariant`, `Run.invariant_at`: the induction along a run
* `Run.mono`: a system with more steps reaches more states
* `Run.exists_recorded`: every run is one of the system that records its history
* `Continued.invariant_at`, `Run.continued`: what holds since some time, and runs put together
* `exists_execAll`, `execAll_filter_idle`: schedules that cannot fail, and idle steps
* `run_of_execAll`, `exists_run_of_execAll`, `run_get_execAll`, `continued_get_execAll`: what a
  computation of the steps reaches
-/

variable {τ σ α ε : Type*}

/-- The states a run reaches, with a time not before its last step. -/
inductive Run [Preorder τ] (init : σ → Prop) (step : τ → σ → σ → Prop) : τ → σ → Prop
  | start {t s} : init s → Run init step t s
  | step {t t' s s'} : Run init step t s → t ≤ t' → step t' s s' → Run init step t' s'

namespace Run

variable [Preorder τ] {init : σ → Prop} {step : τ → σ → σ → Prop}

/-- An invariant that depends on the time holds along every run. -/
theorem invariant_at {P : τ → σ → Prop} (h₀ : ∀ t s, init s → P t s)
    (hs : ∀ t t' s s', P t s → t ≤ t' → step t' s s' → P t' s') {t : τ} {s : σ}
    (h : Run init step t s) : P t s := by
  induction h with
  | start h => exact h₀ _ _ h
  | step _ ht hst ih => exact hs _ _ _ _ ih ht hst

/-- An invariant that every step keeps holds along every run. -/
theorem invariant {P : σ → Prop} (h₀ : ∀ s, init s → P s)
    (hs : ∀ t s s', P s → step t s s' → P s') {t : τ} {s : σ} (h : Run init step t s) : P s :=
  invariant_at (P := fun _ s => P s) (fun _ s => h₀ s) (fun _ t' s s' hP _ => hs t' s s' hP) h

/-- Every state a run reaches is also reached by the runs of a system with more steps. -/
theorem mono {init' : σ → Prop} {step' : τ → σ → σ → Prop} (h₀ : ∀ s, init s → init' s)
    (hs : ∀ t s s', step t s s' → step' t s s') {t : τ} {s : σ} (h : Run init step t s) :
    Run init' step' t s := by
  induction h with
  | start h => exact .start (h₀ _ h)
  | step _ ht hst ih => exact .step ih ht (hs _ _ _ hst)

/-- A run with a component that records its history, and that no step depends on. -/
theorem exists_recorded {γ : Type*} {init' : σ × γ → Prop} {g : τ → σ → σ → γ → γ}
    (h₀ : ∀ s, init s → ∃ c, init' (s, c)) {t : τ} {s : σ} (h : Run init step t s) :
    ∃ c, Run init' (fun t p p' => step t p.1 p'.1 ∧ p'.2 = g t p.1 p'.1 p.2) t (s, c) := by
  induction h with
  | start h =>
    obtain ⟨c, hc⟩ := h₀ _ h
    exact ⟨c, .start hc⟩
  | step _ ht hst ih =>
    obtain ⟨c, hc⟩ := ih
    exact ⟨g _ _ _ c, .step hc ht ⟨hst, rfl⟩⟩

end Run

/-- The states a run goes on to that is in the state `s₀` at the time `t₀`. -/
inductive Continued [Preorder τ] (step : τ → σ → σ → Prop) (t₀ : τ) (s₀ : σ) : τ → σ → Prop
  | refl : Continued step t₀ s₀ t₀ s₀
  | step {t t' s s'} : Continued step t₀ s₀ t s → t ≤ t' → step t' s s' →
    Continued step t₀ s₀ t' s'

namespace Continued

variable [Preorder τ] {step : τ → σ → σ → Prop} {t₀ t : τ} {s₀ s : σ}

theorem le (h : Continued step t₀ s₀ t s) : t₀ ≤ t := by
  induction h with
  | refl => exact le_rfl
  | step _ ht _ ih => exact ih.trans ht

/-- What holds at some time and is kept by the steps holds from then on. -/
theorem invariant_at {P : τ → σ → Prop} (h₀ : P t₀ s₀)
    (hs : ∀ t t' s s', P t s → t ≤ t' → step t' s s' → P t' s') (h : Continued step t₀ s₀ t s) :
    P t s := by
  induction h with
  | refl => exact h₀
  | step _ ht hst ih => exact hs _ _ _ _ ih ht hst

end Continued

/-- Two parts of a run. -/
theorem Run.continued [Preorder τ] {init : σ → Prop} {step : τ → σ → σ → Prop} {t₀ t : τ} {s₀ s : σ}
    (h₀ : Run init step t₀ s₀) (h : Continued step t₀ s₀ t s) : Run init step t s := by
  induction h with
  | refl => exact h₀
  | step _ ht hst ih => exact .step ih ht hst

/-- Run a list of timed steps of a deterministic system, each at a time not before the one before.
-/
def execAll [LE τ] [DecidableLE τ] (step : τ → α → σ → Except ε σ) :
    τ → List (τ × α) → σ → Option (τ × σ)
  | t, [], s => some (t, s)
  | t, (t', a) :: l, s =>
    if t ≤ t' then
      match step t' a s with
      | .ok s' => execAll step t' l s'
      | .error _ => none
    else none

/-- What a computation of the steps reaches is reachable. -/
theorem run_of_execAll [Preorder τ] [DecidableLE τ] {init : σ → Prop} {R : τ → σ → σ → Prop}
    {step : τ → α → σ → Except ε σ} {l : List (τ × α)} {t t' : τ} {s s' : σ}
    (hR : ∀ t a s s', step t a s = .ok s' → R t s s') (hs : Run init R t s)
    (h : execAll step t l s = some (t', s')) : Run init R t' s' := by
  induction l generalizing t s with
  | nil =>
    simp only [execAll, Option.some.injEq, Prod.mk.injEq] at h
    obtain ⟨rfl, rfl⟩ := h
    exact hs
  | cons x l ih =>
    obtain ⟨u, a⟩ := x
    simp only [execAll] at h
    split_ifs at h with hu
    split at h
    · rename_i s₁ h₁
      exact ih (.step hs hu (hR _ _ _ _ h₁)) h
    · cases h

/-- What a computation of the steps goes on to. -/
theorem continued_of_execAll [Preorder τ] [DecidableLE τ] {R : τ → σ → σ → Prop}
    {step : τ → α → σ → Except ε σ} {l : List (τ × α)} {t₀ t t' : τ} {s₀ s s' : σ}
    (hR : ∀ t a s s', step t a s = .ok s' → R t s s') (hs : Continued R t₀ s₀ t s)
    (h : execAll step t l s = some (t', s')) : Continued R t₀ s₀ t' s' := by
  induction l generalizing t s with
  | nil =>
    simp only [execAll, Option.some.injEq, Prod.mk.injEq] at h
    obtain ⟨rfl, rfl⟩ := h
    exact hs
  | cons x l ih =>
    obtain ⟨u, a⟩ := x
    simp only [execAll] at h
    split_ifs at h with hu
    split at h
    · rename_i s₁ h₁
      exact ih (.step hs hu (hR _ _ _ _ h₁)) h
    · cases h

/-- The state a successful computation ends in is reachable. -/
theorem run_get_execAll [Preorder τ] [DecidableLE τ] {init : σ → Prop} {R : τ → σ → σ → Prop}
    {step : τ → α → σ → Except ε σ} {l : List (τ × α)} {t : τ} {s : σ}
    (hR : ∀ t a s s', step t a s = .ok s' → R t s s') (hs : init s)
    (h : (execAll step t l s).isSome) :
    Run init R ((execAll step t l s).get h).1 ((execAll step t l s).get h).2 :=
  run_of_execAll hR (.start hs) (Option.some_get h).symm

/-- A computation whose last state passes a test reaches a state that passes it. -/
theorem exists_run_of_execAll [Preorder τ] [DecidableLE τ] {init : σ → Prop} {R : τ → σ → σ → Prop}
    {step : τ → α → σ → Except ε σ} {l : List (τ × α)} {t : τ} {s : σ} {test : τ × σ → Bool}
    (hR : ∀ t a s s', step t a s = .ok s' → R t s s') (hs : init s)
    (h : (execAll step t l s).any test = true) :
    ∃ t' s', Run init R t' s' ∧ test (t', s') = true := by
  obtain ⟨⟨t', s'⟩, he, htest⟩ := (Option.any_eq_true _ _).mp h
  exact ⟨t', s', run_of_execAll hR (.start hs) he, htest⟩

/-- The state a successful computation goes on to. -/
theorem continued_get_execAll [Preorder τ] [DecidableLE τ] {R : τ → σ → σ → Prop}
    {step : τ → α → σ → Except ε σ} {l : List (τ × α)} {t : τ} {s : σ}
    (hR : ∀ t a s s', step t a s = .ok s' → R t s s') (h : (execAll step t l s).isSome) :
    Continued R t s ((execAll step t l s).get h).1 ((execAll step t l s).get h).2 :=
  continued_of_execAll hR .refl (Option.some_get h).symm

/-! ## Extra steps of a system -/

section

variable [Preorder τ] {step : τ → α → σ → Except ε σ}

/-- Two states that no later step tells apart. -/
def SameFrom (step : τ → α → σ → Except ε σ) (t : τ) (s s' : σ) : Prop :=
  ∀ t' a, t ≤ t' → step t' a s = step t' a s'

namespace SameFrom

theorem refl (step : τ → α → σ → Except ε σ) (t : τ) (s : σ) : SameFrom step t s s :=
  fun _ _ _ => rfl

theorem trans {t : τ} {s s' s'' : σ} (h : SameFrom step t s s') (h' : SameFrom step t s' s'') :
    SameFrom step t s s'' := fun u a hu => (h u a hu).trans (h' u a hu)

theorem mono {t t' : τ} {s s' : σ} (h : SameFrom step t s s') (ht : t ≤ t') :
    SameFrom step t' s s' := fun u a hu => h u a (ht.trans hu)

end SameFrom

/-- **Idle steps leave no trace**: if no later step tells whether an idle step has been taken, then
a
run ends in the same state with and without its idle steps, once it takes a last step. -/
theorem execAll_filter_idle [DecidableLE τ] {P : τ → σ → Prop} {idle : α → Bool}
    (hstep : ∀ t t' a s s', P t s → t ≤ t' → step t' a s = .ok s' → P t' s')
    (hidle : ∀ t t' a s, P t s → t ≤ t' → idle a = true →
      ∃ s', step t' a s = .ok s' ∧ SameFrom step t' s' s)
    {l : List (τ × α)} {last : τ × α} {t t₀ : τ} {s s₀ : σ} (hs : P t s) (ht : t₀ ≤ t)
    (hsame : SameFrom step t s s₀)
    (hl : List.Pairwise (· ≤ ·) (t :: (l ++ [last]).map Prod.fst)) :
    execAll step t (l ++ [last]) s =
      execAll step t₀ (l.filter (fun c => !idle c.2) ++ [last]) s₀ := by
  induction l generalizing t t₀ s s₀ with
  | nil =>
    have hlast : t ≤ last.1 := (List.pairwise_cons.mp hl).1 _ (by simp)
    simp only [List.filter_nil, List.nil_append, execAll, if_pos hlast,
      if_pos (ht.trans hlast), hsame last.1 last.2 hlast]
  | cons c l ih =>
    obtain ⟨hfirst, hl'⟩ := List.pairwise_cons.mp hl
    have hc : t ≤ c.1 := hfirst _ (by simp)
    simp only [List.cons_append, execAll, if_pos hc]
    by_cases hi : idle c.2 = true
    · -- the shorter run stays where it is
      obtain ⟨s₁, h₁, hsame₁⟩ := hidle t c.1 c.2 s hs hc hi
      rw [List.filter_cons_of_neg (by simp [hi]), h₁]
      exact ih (hstep _ _ _ _ _ hs hc h₁) (ht.trans hc) (hsame₁.trans (hsame.mono hc)) hl'
    · -- both runs take the step, and meet
      rw [List.filter_cons_of_pos (by simp [hi]), List.cons_append]
      simp only [execAll, if_pos (ht.trans hc), ← hsame c.1 c.2 hc]
      cases h₁ : step c.1 c.2 s with
      | error e => rfl
      | ok s₁ => exact ih (hstep _ _ _ _ _ hs hc h₁) le_rfl (.refl step _ _) hl'

/-- A system whose steps never fail runs through every schedule. -/
theorem exists_execAll [DecidableLE τ] {P : τ → σ → Prop}
    (hstep : ∀ t t' a s, P t s → t ≤ t' → ∃ s', step t' a s = .ok s' ∧ P t' s')
    {l : List (τ × α)} {last : τ × α} {t : τ} {s : σ} (hs : P t s)
    (hl : List.Pairwise (· ≤ ·) (t :: (l ++ [last]).map Prod.fst)) :
    ∃ s', execAll step t (l ++ [last]) s = some (last.1, s') := by
  induction l generalizing t s with
  | nil =>
    have hlast : t ≤ last.1 := (List.pairwise_cons.mp hl).1 _ (by simp)
    obtain ⟨s', h', -⟩ := hstep t last.1 last.2 s hs hlast
    exact ⟨s', by simp only [List.nil_append, execAll, if_pos hlast, h']⟩
  | cons c l ih =>
    obtain ⟨hfirst, hl'⟩ := List.pairwise_cons.mp hl
    have hc : t ≤ c.1 := hfirst _ (by simp)
    obtain ⟨s₁, h₁, hs₁⟩ := hstep t c.1 c.2 s hs hc
    obtain ⟨s', h'⟩ := ih hs₁ hl'
    exact ⟨s', by simpa only [List.cons_append, execAll, if_pos hc, h₁] using h'⟩

end
