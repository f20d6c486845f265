import Mathlib.Data.List.AList
import Mathlib.Data.List.MinMax
import Mathlib.Data.Prod.Lex
import Mathlib.Algebra.BigOperators.Group.List.Basic
import Mathlib.Algebra.BigOperators.Ring.List
import Mathlib.Algebra.BigOperators.Group.Finset.Basic
import Mathlib.Algebra.Order.BigOperators.Group.List
import Mathlib.Tactic.Abel

/-!
# Keyed tables

A finite table of rows with a unique primary key, with the operations of a contract table (find,
set, erase, filter, first row of an index) and the sum of a quantity over its rows. The sum is
what the conservation laws of a ledger are about, and each operation changes it by the rows it
replaces.

## Main definitions

* `Table κ ν`: rows of type `ν` under distinct keys of type `κ`
* `Table.sum t f`: the sum of `f` over the rows
* `Table.first t key`: the row with the least index key
* `Table.AgreeOn f t t'`: two tables with the same keys, whose rows agree in `f`

## Main results

* `find_set`, `find_erase`, `find_filter`: what a lookup sees after an update
* `find_of_first`, `key_first_le`: the first row of an index
* `filter_filter`, `filter_set_new`: a filter after another update
* `sum_set_new`, `sum_set`, `sum_erase`, `sum_filter`: what an update does to a sum
* `le_sum`, `sum_congr`, `sum_le_sum`: comparing sums row by row
* `sum_comm`: a sum over the rows of two tables
* `AgreeOn.set`, `AgreeOn.sum_eq`: writing the rest of a row, and sums over the agreed part
* `sum_eq_of_elim`: comparing sums key by key
-/

/-- A finite table with a unique primary key. -/
def Table (κ ν : Type*) := AList fun _ : κ => ν

namespace Table

variable {κ ν M : Type*}

/-- The table without rows. -/
def empty : Table κ ν := (∅ : AList fun _ : κ => ν)

/-- The rows, each with its key. -/
def rows (t : Table κ ν) : List (κ × ν) := t.entries.map fun e => (e.1, e.2)

/-- The sum of a quantity over the rows. -/
def sum [AddCommMonoid M] (t : Table κ ν) (f : κ → ν → M) : M :=
  (t.rows.map fun r => f r.1 r.2).sum

/-- The row an index with the given key visits first. -/
def first {β : Type*} [LinearOrder β] (t : Table κ ν) (key : κ → ν → β) : Option (κ × ν) :=
  t.rows.argmin fun r => key r.1 r.2

/-- The rows that satisfy a predicate. -/
def filter (t : Table κ ν) (p : κ → ν → Bool) : Table κ ν where
  entries := t.entries.filter fun e => p e.1 e.2
  nodupKeys := t.nodupKeys.sublist List.filter_sublist

variable [DecidableEq κ]

/-- The row under a key. -/
def find (t : Table κ ν) (k : κ) : Option ν := AList.lookup k t

/-- Write the row under a key, replacing the one that is there. -/
def set (t : Table κ ν) (k : κ) (v : ν) : Table κ ν := AList.insert k v t

/-- Remove the row under a key. -/
def erase (t : Table κ ν) (k : κ) : Table κ ν := AList.erase k t

/-! ## Lookups -/

@[simp] theorem find_empty (k : κ) : (empty : Table κ ν).find k = none := rfl

@[simp] theorem find_set_self (t : Table κ ν) (k : κ) (v : ν) : (t.set k v).find k = some v :=
  AList.lookup_insert t

theorem find_set_ne (t : Table κ ν) {k k' : κ} (v : ν) (h : k' ≠ k) :
    (t.set k v).find k' = t.find k' :=
  AList.lookup_insert_ne h

theorem find_set (t : Table κ ν) (k k' : κ) (v : ν) :
    (t.set k v).find k' = if k' = k then some v else t.find k' := by
  split_ifs with h
  · rw [h, find_set_self]
  · exact find_set_ne t v h

@[simp] theorem set_set (t : Table κ ν) (k : κ) (v w : ν) : (t.set k v).set k w = t.set k w :=
  AList.insert_insert t

@[simp] theorem find_erase_self (t : Table κ ν) (k : κ) : (t.erase k).find k = none :=
  AList.lookup_erase k t

theorem find_erase_ne (t : Table κ ν) {k k' : κ} (h : k' ≠ k) : (t.erase k).find k' = t.find k' :=
  AList.lookup_erase_ne h

theorem find_erase (t : Table κ ν) (k k' : κ) :
    (t.erase k).find k' = if k' = k then none else t.find k' := by
  split_ifs with h
  · rw [h, find_erase_self]
  · exact find_erase_ne t h

/-- The rows are the successful lookups. -/
theorem mem_rows {t : Table κ ν} {k : κ} {v : ν} : (k, v) ∈ t.rows ↔ t.find k = some v := by
  have h : (k, v) ∈ t.rows ↔ (⟨k, v⟩ : Sigma fun _ : κ => ν) ∈ t.entries := by
    simp only [rows, List.mem_map]
    constructor
    · rintro ⟨⟨k', v'⟩, hm, he⟩
      cases he
      exact hm
    · exact fun hm => ⟨_, hm, rfl⟩
  rw [h]
  exact (List.mem_dlookup_iff t.nodupKeys).symm

omit [DecidableEq κ] in
/-- The keys are distinct. -/
theorem nodup_keys (t : Table κ ν) : (t.rows.map Prod.fst).Nodup := by
  have hn := t.nodupKeys
  unfold rows
  rw [List.map_map]
  exact hn

theorem find_of_first {β : Type*} [LinearOrder β] {t : Table κ ν} {key : κ → ν → β} {k : κ} {v : ν}
    (h : t.first key = some (k, v)) : t.find k = some v :=
  mem_rows.mp (List.argmin_mem h)

/-- Without a first row there is no row. -/
theorem find_of_first_none {β : Type*} [LinearOrder β] {t : Table κ ν} {key : κ → ν → β}
    (h : t.first key = none) (k : κ) : t.find k = none := by
  have hrows : t.rows = [] := List.argmin_eq_none.mp h
  cases hf : t.find k with
  | none => rfl
  | some v =>
    have hmem := mem_rows.mpr hf
    rw [hrows] at hmem
    cases hmem

/-- No row is before the first one. -/
theorem key_first_le {β : Type*} [LinearOrder β] {t : Table κ ν} {key : κ → ν → β} {k k' : κ}
    {v v' : ν} (h : t.first key = some (k, v)) (hf : t.find k' = some v') : key k v ≤ key k' v' :=
  List.le_of_mem_argmin (mem_rows.mpr hf) h

theorem find_filter (t : Table κ ν) (p : κ → ν → Bool) (k : κ) :
    (t.filter p).find k = (t.find k).filter (p k) := by
  apply Option.ext
  intro v
  rw [← mem_rows, Option.filter_eq_some_iff, ← mem_rows]
  simp only [rows, filter, List.mem_map, List.mem_filter]
  constructor
  · rintro ⟨e, ⟨he, hp⟩, h⟩
    cases h
    exact ⟨⟨e, he, rfl⟩, hp⟩
  · rintro ⟨⟨e, he, h⟩, hp⟩
    cases h
    exact ⟨e, ⟨he, hp⟩, rfl⟩

omit [DecidableEq κ] in
theorem filter_filter (t : Table κ ν) (p q : κ → ν → Bool) :
    (t.filter p).filter q = t.filter fun k v => q k v && p k v :=
  AList.ext (List.filter_filter)

theorem filter_congr {t : Table κ ν} {p q : κ → ν → Bool}
    (h : ∀ k v, t.find k = some v → p k v = q k v) :
    t.filter p = t.filter q := by
  refine AList.ext (List.filter_congr fun e he => h e.1 e.2 ?_)
  exact mem_rows.mp (List.mem_map.mpr ⟨e, he, rfl⟩)

theorem filter_eq_self {t : Table κ ν} {p : κ → ν → Bool}
    (h : ∀ k v, t.find k = some v → p k v = true) : t.filter p = t := by
  refine AList.ext (List.filter_eq_self.mpr fun e he => h e.1 e.2 ?_)
  exact mem_rows.mp (List.mem_map.mpr ⟨e, he, rfl⟩)

theorem entries_set_new {t : Table κ ν} {k : κ} (h : t.find k = none) (v : ν) :
    (t.set k v).entries = ⟨k, v⟩ :: t.entries :=
  AList.entries_insert_of_notMem (AList.lookup_eq_none.mp h)

/-- A new row goes through a filter by itself. -/
theorem filter_set_new {t : Table κ ν} {k : κ} (h : t.find k = none) (v : ν) (p : κ → ν → Bool) :
    (t.set k v).filter p = if p k v then (t.filter p).set k v else t.filter p := by
  have hf : (t.filter p).find k = none := by
    rw [find_filter, h]
    rfl
  split_ifs with hp
  · apply AList.ext
    rw [entries_set_new hf]
    simp only [filter, entries_set_new h]
    exact List.filter_cons_of_pos hp
  · apply AList.ext
    simp only [filter, entries_set_new h]
    exact List.filter_cons_of_neg hp

/-! ## Sums -/

section Sum

omit [DecidableEq κ] in
@[simp] theorem sum_empty [AddCommMonoid M] (f : κ → ν → M) : (empty : Table κ ν).sum f = 0 := rfl

omit [DecidableEq κ] in
theorem rows_filter (t : Table κ ν) (p : κ → ν → Bool) :
    (t.filter p).rows = t.rows.filter fun r => p r.1 r.2 := by
  simp only [rows, filter, List.filter_map]
  rfl

theorem sum_congr [AddCommMonoid M] {t : Table κ ν} {f g : κ → ν → M}
    (h : ∀ k v, t.find k = some v → f k v = g k v) : t.sum f = t.sum g := by
  unfold sum
  congr 1
  exact List.map_congr_left fun r hr => h r.1 r.2 (mem_rows.mp hr)

theorem sum_eq_zero [AddCommMonoid M] {t : Table κ ν} {f : κ → ν → M}
    (h : ∀ k v, t.find k = some v → f k v = 0) : t.sum f = 0 := by
  rw [sum_congr h]
  simp [sum]

omit [DecidableEq κ] in
theorem sum_add [AddCommMonoid M] (t : Table κ ν) (f g : κ → ν → M) :
    t.sum (fun k v => f k v + g k v) = t.sum f + t.sum g :=
  List.sum_map_add

omit [DecidableEq κ] in
/-- Sums over two tables can be taken in either order. -/
theorem sum_comm {κ' ν' : Type*} [AddCommMonoid M] (t : Table κ ν) (t' : Table κ' ν')
    (f : κ → ν → κ' → ν' → M) :
    (t.sum fun k v => t'.sum (f k v)) = t'.sum fun k' v' => t.sum fun k v => f k v k' v' := by
  unfold sum
  induction t.rows with
  | nil => simp
  | cons r l ih =>
    simp only [List.map_cons, List.sum_cons, ih]
    exact List.sum_map_add.symm

omit [DecidableEq κ] in
theorem sum_mul_right {R : Type*} [NonUnitalNonAssocSemiring R] (t : Table κ ν) (f : κ → ν → R)
    (c : R) : (t.sum fun k v => f k v * c) = t.sum f * c :=
  List.sum_map_mul_right _ _ _

omit [DecidableEq κ] in
theorem sum_filter [AddCommMonoid M] (t : Table κ ν) (p : κ → ν → Bool) (f : κ → ν → M) :
    (t.filter p).sum f = t.sum fun k v => if p k v then f k v else 0 := by
  unfold sum
  rw [rows_filter]
  induction t.rows with
  | nil => rfl
  | cons r l ih =>
    by_cases hr : p r.1 r.2 <;> simp [hr, ih]

/-- The rows with the row under a key set apart. -/
theorem sum_erase_add [AddCommMonoid M] (t : Table κ ν) (k : κ) (f : κ → ν → M) :
    (t.find k).elim 0 (f k) + (t.erase k).sum f = t.sum f := by
  cases h : t.find k with
  | none =>
    have hk : k ∉ t.entries.keys := AList.lookup_eq_none.mp h
    have he : t.erase k = t := AList.ext (List.kerase_of_notMem_keys hk)
    rw [he, Option.elim_none, zero_add]
  | some v =>
    have hk : k ∈ t.entries.keys :=
      AList.mem_keys.mp (AList.lookup_isSome.mp (Option.isSome_iff_exists.mpr ⟨v, h⟩))
    obtain ⟨w, l₁, l₂, -, hl, hr⟩ := List.exists_of_kerase hk
    have hw : t.find k = some w := mem_rows.mp
      (List.mem_map.mpr ⟨⟨k, w⟩, by rw [hl]; simp, rfl⟩)
    obtain rfl : w = v := by simpa [hw] using h
    have hr' : (t.erase k).rows = (l₁ ++ l₂).map fun e => (e.1, e.2) :=
      congrArg (List.map _) hr
    simp only [sum, hr', Option.elim_some]
    simp only [rows, hl, List.map_append, List.map_cons, List.sum_append, List.sum_cons]
    abel

theorem sum_set_eq [AddCommMonoid M] (t : Table κ ν) (k : κ) (v : ν) (f : κ → ν → M) :
    (t.set k v).sum f = f k v + (t.erase k).sum f := rfl

/-- A new row adds its own quantity. -/
theorem sum_set_new [AddCommMonoid M] {t : Table κ ν} {k : κ} (h : t.find k = none) (v : ν)
    (f : κ → ν → M) : (t.set k v).sum f = t.sum f + f k v := by
  rw [sum_set_eq, ← sum_erase_add t k f, h, Option.elim_none, zero_add, add_comm]

theorem sum_erase_none [AddCommMonoid M] {t : Table κ ν} {k : κ} (h : t.find k = none)
    (f : κ → ν → M) : (t.erase k).sum f = t.sum f := by
  rw [← sum_erase_add t k f, h, Option.elim_none, zero_add]

/-- A sum over the rows, as a sum over any keys that include theirs. -/
theorem sum_eq_finset_sum [AddCommMonoid M] {t : Table κ ν} {f : κ → ν → M} {s : Finset κ}
    (h : ∀ k v, t.find k = some v → k ∈ s) : t.sum f = ∑ k ∈ s, (t.find k).elim 0 (f k) := by
  induction s using Finset.induction_on generalizing t with
  | empty => exact sum_eq_zero fun k v hk => absurd (h k v hk) (Finset.notMem_empty k)
  | insert a s ha ih =>
    rw [← sum_erase_add t a f, Finset.sum_insert ha, ih (t := t.erase a) fun k v hk => ?_]
    · congr 1
      refine Finset.sum_congr rfl fun k hk => ?_
      rw [find_erase_ne t fun he : k = a => ha (he ▸ hk)]
    · rw [find_erase] at hk
      split_ifs at hk with hka
      exact (Finset.mem_insert.mp (h k v hk)).resolve_left hka

/-- Tables whose rows contribute the same under each key have the same sum. -/
theorem sum_eq_of_elim [AddCommMonoid M] {t t' : Table κ ν} {f : κ → ν → M}
    (h : ∀ k, (t'.find k).elim 0 (f k) = (t.find k).elim 0 (f k)) : t'.sum f = t.sum f := by
  let keys : Table κ ν → Finset κ := fun t => (t.rows.map Prod.fst).toFinset
  have hkeys : ∀ (u : Table κ ν) k v, u.find k = some v → k ∈ keys u := fun u k v hk =>
    List.mem_toFinset.mpr (List.mem_map.mpr ⟨(k, v), mem_rows.mpr hk, rfl⟩)
  rw [sum_eq_finset_sum (s := keys t ∪ keys t') fun k v hk =>
      Finset.mem_union_right _ (hkeys t' k v hk),
    sum_eq_finset_sum (s := keys t ∪ keys t') fun k v hk =>
      Finset.mem_union_left _ (hkeys t k v hk)]
  exact Finset.sum_congr rfl fun k _ => h k

variable [AddCommGroup M]

/-- Replacing a row changes the sum by the difference of the two rows. -/
theorem sum_set {t : Table κ ν} {k : κ} {w : ν} (h : t.find k = some w) (v : ν) (f : κ → ν → M) :
    (t.set k v).sum f = t.sum f - f k w + f k v := by
  rw [sum_set_eq, ← sum_erase_add t k f, h, Option.elim_some]
  abel

/-- Removing a row removes its quantity. -/
theorem sum_erase {t : Table κ ν} {k : κ} {w : ν} (h : t.find k = some w) (f : κ → ν → M) :
    (t.erase k).sum f = t.sum f - f k w := by
  rw [← sum_erase_add t k f, h, Option.elim_some]
  abel

/-- Writing a row, whether or not the key had one. -/
theorem sum_set_elim (t : Table κ ν) (k : κ) (v : ν) (f : κ → ν → M) :
    (t.set k v).sum f = t.sum f - (t.find k).elim 0 (f k) + f k v := by
  rw [sum_set_eq, ← sum_erase_add t k f]
  abel

end Sum

section Order

variable [AddCommMonoid M] [PartialOrder M] [IsOrderedAddMonoid M]

theorem sum_nonneg {t : Table κ ν} {f : κ → ν → M}
    (h : ∀ k v, t.find k = some v → 0 ≤ f k v) : 0 ≤ t.sum f := by
  refine List.sum_nonneg fun x hx => ?_
  obtain ⟨r, hr, rfl⟩ := List.mem_map.mp hx
  exact h r.1 r.2 (mem_rows.mp hr)

theorem sum_le_sum {t : Table κ ν} {f g : κ → ν → M}
    (h : ∀ k v, t.find k = some v → f k v ≤ g k v) : t.sum f ≤ t.sum g :=
  List.sum_le_sum fun r hr => h r.1 r.2 (mem_rows.mp hr)

/-- One row is at most the sum of nonnegative rows. -/
theorem le_sum {t : Table κ ν} {f : κ → ν → M} (h : ∀ k v, t.find k = some v → 0 ≤ f k v)
    {k : κ} {v : ν} (hv : t.find k = some v) : f k v ≤ t.sum f := by
  rw [← sum_erase_add t k f, hv, Option.elim_some]
  refine le_add_of_nonneg_right (sum_nonneg fun k' v' hk => ?_)
  rw [find_erase] at hk
  split_ifs at hk
  exact h k' v' hk

/-- A sum of what is not negative is zero only if all of it is. -/
theorem sum_eq_zero_iff {t : Table κ ν} {f : κ → ν → M}
    (h : ∀ k v, t.find k = some v → 0 ≤ f k v) :
    t.sum f = 0 ↔ ∀ k v, t.find k = some v → f k v = 0 := by
  refine ⟨fun hs k v hv => ?_, sum_eq_zero⟩
  exact le_antisymm (hs ▸ le_sum h hv) (h k v hv)

end Order

/-! ## Tables that agree in part of their rows -/

/-- The rows under each key agree in `f`. -/
def AgreeOn {μ : Type*} (f : ν → μ) (t t' : Table κ ν) : Prop :=
  ∀ k, (t'.find k).map f = (t.find k).map f

namespace AgreeOn

variable {μ : Type*} {f : ν → μ} {t t₁ t' : Table κ ν}

theorem refl (f : ν → μ) (t : Table κ ν) : t.AgreeOn f t := fun _ => rfl

theorem trans (h₁ : t.AgreeOn f t₁) (h₂ : t₁.AgreeOn f t') : t.AgreeOn f t' :=
  fun k => (h₂ k).trans (h₁ k)

/-- Writing a row that agrees with the one that is there. -/
theorem set {k : κ} {v w : ν} (hf : t.find k = some w) (h : f v = f w) :
    t.AgreeOn f (t.set k v) := by
  intro k'
  rw [find_set]
  split_ifs with hk
  · rw [hk, hf, Option.map_some, Option.map_some, h]
  · rfl

/-- What depends on the agreed part only has the same sum. -/
theorem sum_eq [AddCommMonoid M] (h : t.AgreeOn f t') (g : κ → μ → M) :
    (t'.sum fun k v => g k (f v)) = t.sum fun k v => g k (f v) := by
  refine sum_eq_of_elim fun k => ?_
  have hk := congrArg (fun o : Option μ => o.elim 0 (g k)) (h k)
  rw [Option.elim_map, Option.elim_map] at hk
  exact hk

end AgreeOn

end Table
