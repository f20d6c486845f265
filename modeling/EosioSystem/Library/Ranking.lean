import Mathlib.Data.List.Sort
import Mathlib.Data.List.TakeWhile

/-!
# Rankings

Lists that are sorted by a key, and what is taken from their beginning: the entries up to the first
that fails a test, the first `n` of them, and the entries found by binary search. A seat that is
left over is given to the next one of the ranking who has none.

## Main definitions

* `fill ok taken n l top`: give the seats up to `n` along the ranking `l` to those not in `taken`
* `lowerBound le x l`: the first entry that is not less than `x`

## Main results

* `takeWhile_eq_filter_of_pairwise`: a test that only the first pass
* `fill_eq`, `rel_of_mem_fill`: **who gets a seat**
* `lowerBound_eq_some_iff`: **a sorted list is searched**
-/

namespace Ranking

variable {α : Type*}

/-- If whoever passes a test is preceded only by those who pass it, those who pass come first. -/
theorem takeWhile_eq_filter_of_pairwise {p : α → Bool} {l : List α}
    (h : l.Pairwise fun x y => p y = true → p x = true) : l.takeWhile p = l.filter p := by
  induction l with
  | nil => rfl
  | cons a l ih =>
    obtain ⟨ha, hl⟩ := List.pairwise_cons.mp h
    by_cases hp : p a = true
    · rw [List.takeWhile_cons_of_pos hp, List.filter_cons_of_pos hp, ih hl]
    · rw [List.takeWhile_cons_of_neg hp, List.filter_cons_of_neg hp, eq_comm]
      exact List.filter_eq_nil_iff.mpr fun b hb hpb => hp (ha b hb hpb)

/-- Whoever is among the first of a ranking comes before whoever is not. -/
theorem rel_of_mem_prefix {R : α → α → Prop} {l l' : List α} (hl : l.Pairwise R) (hp : l' <+: l)
    {x y : α} (hx : x ∈ l') (hy : y ∈ l) (hy' : y ∉ l') : R x y := by
  obtain ⟨rest, rfl⟩ := hp
  refine (List.pairwise_append.mp hl).2.2 x hx y ?_
  exact (List.mem_append.mp hy).resolve_left hy'

/-! ## Seats -/

/-- Give the seats up to `n` along a ranking, to those who pass the test and are not taken yet; the
walk ends at the first one who does not pass. -/
def fill (ok taken : α → Bool) (n : ℕ) : List α → List α → List α
  | [], top => top
  | a :: l, top =>
    if top.length < n ∧ ok a = true then
      if taken a then fill ok taken n l top else fill ok taken n l (top ++ [a])
    else top

variable {ok taken : α → Bool} {n : ℕ} {l top : List α}

/-- **Who gets a seat**: as many as there are seats, of those who pass and are not taken yet. -/
theorem fill_eq : fill ok taken n l top =
    top ++ ((l.takeWhile ok).filter fun a => !taken a).take (n - top.length) := by
  induction l generalizing top with
  | nil => simp [fill]
  | cons a l ih =>
    unfold fill
    by_cases hok : ok a = true
    · by_cases hlen : top.length < n
      · rw [if_pos ⟨hlen, hok⟩, List.takeWhile_cons_of_pos hok]
        by_cases ht : taken a = true
        · rw [if_pos ht, List.filter_cons_of_neg (by simp [ht]), ih]
        · obtain ⟨m, hm⟩ : ∃ m, n - top.length = m + 1 := ⟨n - top.length - 1, by omega⟩
          rw [if_neg ht, List.filter_cons_of_pos (by simp [ht]), ih, hm, List.take_succ_cons,
            List.append_assoc, List.length_append, List.length_singleton, ← Nat.sub_sub, hm]
          rfl
      · have hzero : n - top.length = 0 := by omega
        rw [if_neg fun h => hlen h.1, hzero, List.take_zero, List.append_nil]
    · rw [if_neg fun h => hok h.2, List.takeWhile_cons_of_neg hok]
      simp

theorem length_fill_le (h : top.length ≤ n) : (fill ok taken n l top).length ≤ n := by
  rw [fill_eq, List.length_append, List.length_take]
  omega

theorem mem_of_mem_fill {a : α} (h : a ∈ fill ok taken n l top) :
    a ∈ top ∨ a ∈ l ∧ ok a = true ∧ taken a = false := by
  rw [fill_eq] at h
  refine (List.mem_append.mp h).imp_right fun h => ?_
  obtain ⟨hmem, htaken⟩ := List.mem_filter.mp (List.mem_of_mem_take h)
  exact ⟨(List.takeWhile_subset ok) hmem, List.mem_takeWhile_imp hmem, by simpa using htaken⟩

/-- Those who had a seat keep it, and nobody gets two. -/
theorem nodup_fill (htop : top.Nodup) (hl : l.Nodup) (ht : ∀ a ∈ top, taken a = true) :
    (fill ok taken n l top).Nodup := by
  rw [fill_eq]
  refine List.Nodup.append htop ?_ fun a ha h => ?_
  · exact hl.sublist ((List.take_sublist _ _).trans
      (List.filter_sublist.trans (List.takeWhile_sublist ok)))
  · have hmem := (List.mem_filter.mp (List.mem_of_mem_take h)).2
    rw [ht a ha] at hmem
    cases hmem

/-- **A seat is given in the order of the ranking**: whoever gets one comes before whoever passes
and has none. -/
theorem rel_of_mem_fill {R : α → α → Prop} (hl : l.Pairwise R) {a b : α}
    (ha : a ∈ fill ok taken n l top) (hat : a ∉ top) (hb : b ∈ l) (hbt : taken b = false)
    (hb' : b ∉ fill ok taken n l top) : R a b := by
  rw [fill_eq] at ha hb'
  have ha' := (List.mem_append.mp ha).resolve_left hat
  have hb'' := fun h => hb' (List.mem_append.mpr (.inr h))
  by_cases hw : b ∈ l.takeWhile ok
  · -- both pass the test, and the seats are full
    have hsorted := (hl.sublist (List.takeWhile_sublist ok)).sublist
      (List.filter_sublist (p := fun a => !taken a))
    exact rel_of_mem_prefix hsorted (List.take_prefix _ _) ha'
      (List.mem_filter.mpr ⟨hw, by simp [hbt]⟩) hb''
  · exact rel_of_mem_prefix hl (List.takeWhile_prefix ok)
      (List.mem_filter.mp (List.mem_of_mem_take ha')).1 hb hw

/-! ## Search -/

/-- The first entry of a sorted list that is not less than `x`. -/
def lowerBound {β : Type*} [LinearOrder β] (key : α → β) (x : α) (l : List α) : Option α :=
  l.find? fun y => decide (key x ≤ key y)

/-- **The search in a sorted list** finds what is there. -/
theorem lowerBound_eq_some_iff {β : Type*} [LinearOrder β] {key : α → β}
    (hkey : Function.Injective key) (hl : l.Pairwise fun x y => key x ≤ key y) (x : α) :
    lowerBound key x l = some x ↔ x ∈ l := by
  refine ⟨fun h => List.mem_of_find?_eq_some h, fun h => ?_⟩
  induction l with
  | nil => cases h
  | cons a l ih =>
    obtain ⟨ha, hl'⟩ := List.pairwise_cons.mp hl
    unfold lowerBound
    by_cases hle : key x ≤ key a
    · rw [List.find?_cons_of_pos (by simpa using hle)]
      rcases List.mem_cons.mp h with rfl | hmem
      · rfl
      · exact congrArg some (hkey (le_antisymm (ha x hmem) hle))
    · rw [List.find?_cons_of_neg (by simpa using hle)]
      refine ih hl' ((List.mem_cons.mp h).resolve_left ?_)
      rintro rfl
      exact hle le_rfl

end Ranking
