import Mathlib.Logic.Basic
import Mathlib.Data.Option.Basic
import Mathlib.Tactic.SplitIfs

/-!
# Computations that can abort

A contract action is a computation in `Except ε`: it runs to its end or aborts with an error, and
an aborted action leaves the state as it was. The lemmas here take such a computation apart into
its steps: a successful run gives every intermediate value, and an error comes from one of the
steps.

## Main definitions

* `check p e`: abort with `e` unless `p` holds
* `require o e`: the value of `o`, or abort with `e`
* `value x h`: the value of a computation that is known not to abort
* `Avoids bad x`: the computation aborts with none of the errors `bad`
* `Yields bad P x`: moreover its value satisfies `P`

## Main results

* `bind_eq_ok`, `map_eq_ok`, `bind_eq_error`, `map_eq_error`: the two outcomes of a sequence
* `check_eq_ok`, `check_eq_error`, `require_eq_ok`, `require_eq_error`: those of a single step
* `Avoids.bind`, `Avoids.check`, `Avoids.require`: errors that cannot happen, step by step
* `Yields.bind`, `Avoids.bind_yields`: postconditions, step by step
-/

namespace Checked

universe u

variable {ε : Type u} {α β : Type}

/-- Abort with `e` unless `p` holds. -/
def check (p : Prop) [Decidable p] (e : ε) : Except ε Unit := if p then .ok () else .error e

/-- The value of an optional row, or abort with `e`. -/
def require (o : Option α) (e : ε) : Except ε α := o.elim (.error e) .ok

@[simp] theorem bind_eq_ok {x : Except ε α} {f : α → Except ε β} {b : β} :
    x >>= f = .ok b ↔ ∃ a, x = .ok a ∧ f a = .ok b := by
  cases x with
  | error e => exact ⟨nofun, fun ⟨_, h, _⟩ => nomatch h⟩
  | ok a => exact ⟨fun h => ⟨a, rfl, h⟩, fun ⟨_, h, h'⟩ => by cases h; exact h'⟩

/-- A sequence whose two parts succeed. -/
theorem exists_bind_ok {x : Except ε α} {f : α → Except ε β} {a : α} (hx : x = .ok a)
    (hf : ∃ b, f a = .ok b) : ∃ b, x >>= f = .ok b := by
  obtain ⟨b, hb⟩ := hf
  exact ⟨b, bind_eq_ok.mpr ⟨a, hx, hb⟩⟩

@[simp] theorem map_eq_ok {x : Except ε α} {f : α → β} {b : β} :
    f <$> x = .ok b ↔ ∃ a, x = .ok a ∧ f a = b := by
  cases x with
  | error e => exact ⟨nofun, fun ⟨_, h, _⟩ => nomatch h⟩
  | ok a => exact ⟨fun h => ⟨a, rfl, by cases h; rfl⟩, fun ⟨_, h, h'⟩ => by cases h; rw [← h']; rfl⟩

theorem map_eq_error {x : Except ε α} {f : α → β} {e : ε} :
    f <$> x = .error e ↔ x = .error e := by
  cases x with
  | error e' => exact ⟨fun h => by cases h; rfl, fun h => by cases h; rfl⟩
  | ok a => exact ⟨nofun, nofun⟩

theorem bind_eq_error {x : Except ε α} {f : α → Except ε β} {e : ε} :
    x >>= f = .error e ↔ x = .error e ∨ ∃ a, x = .ok a ∧ f a = .error e := by
  cases x with
  | error e' =>
    refine ⟨fun h => .inl (by cases h; rfl), fun h => ?_⟩
    rcases h with h | ⟨a, h, -⟩
    · cases h; rfl
    · cases h
  | ok a =>
    refine ⟨fun h => .inr ⟨a, rfl, h⟩, fun h => ?_⟩
    rcases h with h | ⟨a', h, h'⟩
    · cases h
    · cases h; exact h'

/-- Two sequences that differ after the first step only. -/
theorem bind_congr_ok {x : Except ε α} {f g : α → Except ε β}
    (h : ∀ a, x = .ok a → f a = g a) : x >>= f = x >>= g := by
  cases x with
  | error e => rfl
  | ok a => exact h a rfl

@[simp] theorem pure_eq_ok {a b : α} : (pure a : Except ε α) = .ok b ↔ a = b :=
  ⟨fun h => by cases h; rfl, fun h => h ▸ rfl⟩

@[simp] theorem pure_ne_error {a : α} {e : ε} : (pure a : Except ε α) ≠ .error e := nofun

@[simp] theorem check_eq_ok {p : Prop} [Decidable p] {e : ε} {u : Unit} :
    check p e = .ok u ↔ p := by
  unfold check
  split_ifs with h
  · exact ⟨fun _ => h, fun _ => rfl⟩
  · exact ⟨nofun, fun hp => absurd hp h⟩

@[simp] theorem check_bind_eq_ok {p : Prop} [Decidable p] {e : ε} {f : Unit → Except ε β} {b : β} :
    check p e >>= f = .ok b ↔ p ∧ f () = .ok b := by
  rw [bind_eq_ok]
  exact ⟨fun ⟨_, h, h'⟩ => ⟨check_eq_ok.mp h, h'⟩, fun h => ⟨(), check_eq_ok.mpr h.1, h.2⟩⟩

@[simp] theorem check_map_eq_ok {p : Prop} [Decidable p] {e : ε} {f : Unit → β} {b : β} :
    f <$> check p e = .ok b ↔ p ∧ f () = b := by
  rw [map_eq_ok]
  exact ⟨fun ⟨_, h, h'⟩ => ⟨check_eq_ok.mp h, h'⟩, fun h => ⟨(), check_eq_ok.mpr h.1, h.2⟩⟩

theorem check_eq_error {p : Prop} [Decidable p] {e e' : ε} :
    check p e = .error e' ↔ ¬p ∧ e = e' := by
  unfold check
  split_ifs with h
  · exact ⟨nofun, fun hp => absurd h hp.1⟩
  · exact ⟨fun he => ⟨h, by cases he; rfl⟩, fun he => he.2 ▸ rfl⟩

theorem check_of {p : Prop} [Decidable p] {e : ε} (h : p) : check p e = .ok () := if_pos h

@[simp] theorem require_eq_ok {o : Option α} {e : ε} {a : α} :
    require o e = .ok a ↔ o = some a := by
  cases o with
  | none => exact ⟨nofun, nofun⟩
  | some b => exact ⟨fun h => by cases h; rfl, fun h => by cases h; rfl⟩

theorem toOption_eq_some {x : Except ε α} {a : α} (h : x.toOption = some a) : x = .ok a := by
  cases x with
  | ok b => exact congrArg Except.ok (Option.some.inj h)
  | error e => cases h

theorem require_eq_error {o : Option α} {e e' : ε} :
    require o e = .error e' ↔ o = none ∧ e = e' := by
  cases o with
  | none => exact ⟨fun h => ⟨rfl, by cases h; rfl⟩, fun h => h.2 ▸ rfl⟩
  | some b => exact ⟨nofun, nofun⟩

/-- The value of a computation that does not abort. -/
def value : (x : Except ε α) → x.isOk = true → α
  | .ok a, _ => a

theorem eq_ok_value {x : Except ε α} (h : x.isOk = true) : x = .ok (value x h) := by
  cases x with
  | error e => cases h
  | ok a => rfl

/-- A sequence does not abort with an error that none of its steps aborts with. -/
theorem bind_ne_error {x : Except ε α} {f : α → Except ε β} {e : ε} (hx : x ≠ .error e)
    (hf : ∀ a, x = .ok a → f a ≠ .error e) : x >>= f ≠ .error e := by
  rw [Ne, bind_eq_error]
  rintro (h | ⟨a, ha, h⟩)
  · exact hx h
  · exact hf a ha h

theorem check_ne_error {p : Prop} [Decidable p] {e e' : ε} (h : e ≠ e' ∨ p) :
    check p e ≠ .error e' := by
  rw [Ne, check_eq_error]
  rintro ⟨hp, he⟩
  exact h.elim (fun h => h he) hp

theorem require_ne_error {o : Option α} {e e' : ε} (h : e ≠ e') : require o e ≠ .error e' := by
  rw [Ne, require_eq_error]
  exact fun he => h he.2

/-- The computation aborts with none of the given errors. -/
def Avoids (bad : List ε) (x : Except ε α) : Prop := ∀ e ∈ bad, x ≠ .error e

namespace Avoids

variable {bad : List ε}

theorem bind {x : Except ε α} {f : α → Except ε β} (hx : Avoids bad x)
    (hf : ∀ a, x = .ok a → Avoids bad (f a)) : Avoids bad (x >>= f) :=
  fun e he => bind_ne_error (hx e he) fun a ha => hf a ha e he

theorem pure (a : α) : Avoids bad (Pure.pure a : Except ε α) := fun _ _ => pure_ne_error

theorem of_ok {x : Except ε α} {a : α} (h : x = .ok a) : Avoids bad x := fun _ _ he => by
  rw [h] at he
  cases he

theorem check {p : Prop} [Decidable p] {e : ε} (h : e ∉ bad ∨ p) : Avoids bad (check p e) :=
  fun _ he' => check_ne_error (h.imp_left fun hb he => hb (he ▸ he'))

theorem require {o : Option α} {e : ε} (h : e ∉ bad) : Avoids bad (require o e) :=
  fun _ he' => require_ne_error fun he => h (he ▸ he')

theorem ite {p : Prop} [Decidable p] {x y : Except ε α} (hx : Avoids bad x)
    (hy : Avoids bad y) : Avoids bad (if p then x else y) := by
  split_ifs
  · exact hx
  · exact hy

/-- All errors of the computation are known. -/
theorem of_error {x : Except ε α} {texts : List ε} (h : ∀ e, x = .error e → e ∈ texts)
    (ht : ∀ e ∈ texts, e ∉ bad) : Avoids bad x := fun e he hx => ht e (h e hx) he

end Avoids

/-- The computation aborts with none of the given errors, and its value satisfies `P`. -/
structure Yields (bad : List ε) (P : α → Prop) (x : Except ε α) : Prop where
  avoids : Avoids bad x
  of_ok : ∀ a, x = .ok a → P a

namespace Yields

variable {bad : List ε} {P : α → Prop}

theorem bind {Q : β → Prop} {x : Except ε β} {f : β → Except ε α} (hx : Yields bad Q x)
    (hf : ∀ b, Q b → Yields bad P (f b)) : Yields bad P (x >>= f) where
  avoids := .bind hx.avoids fun b hb => (hf b (hx.of_ok b hb)).avoids
  of_ok a h := by
    obtain ⟨b, hb, ha⟩ := bind_eq_ok.mp h
    exact (hf b (hx.of_ok b hb)).of_ok a ha

theorem pure {a : α} (h : P a) : Yields bad P (Pure.pure a : Except ε α) where
  avoids := .pure a
  of_ok _ hb := pure_eq_ok.mp hb ▸ h

theorem ite {p : Prop} [Decidable p] {x y : Except ε α} (hx : p → Yields bad P x)
    (hy : ¬p → Yields bad P y) : Yields bad P (if p then x else y) := by
  split_ifs with h
  · exact hx h
  · exact hy h

theorem mono {Q : α → Prop} {x : Except ε α} (h : Yields bad P x) (hq : ∀ a, P a → Q a) :
    Yields bad Q x := ⟨h.avoids, fun a ha => hq a (h.of_ok a ha)⟩

end Yields

/-- A step whose value is only known to be the one it gives. -/
theorem Avoids.bind_yields {bad : List ε} {P : α → Prop} {x : Except ε β} {f : β → Except ε α}
    (hx : Avoids bad x) (hf : ∀ b, x = .ok b → Yields bad P (f b)) : Yields bad P (x >>= f) :=
  Yields.bind ⟨hx, fun _ hb => hb⟩ hf

end Checked
