import Mathlib.Algebra.BigOperators.Group.Finset.Basic
import Mathlib.Algebra.BigOperators.Pi
import Mathlib.Algebra.Order.Group.Abs
import Mathlib.Algebra.Order.Ring.Nat
import Mathlib.Logic.Function.Basic
import Mathlib.Logic.Relation
import EosioSystem.Library.Table

/-!
# Delegated votes

Each voter has a ballot with a weight. The weight goes to the candidates of its choice, or to a
proxy that votes with the weight it has received. Who is a proxy for whom has no cycles, so a
change of weight can be followed from proxy to proxy to its end.

## Main definitions

* `Ballot`: a proxy or a list of choices, and a weight
* `Ballot.share`, `Ballot.spread`: what a ballot gives to each proxy and to each candidate
* `Acyclic`: the proxies have no cycles
* `Links`, `Links.Sound`: who uses which proxy and who is one, in order
* `Table.below`: the number of rows of smaller rank
* `Table.surplus`: what the rows have received beyond what all rows give

## Main results

* `Ballot.share_add`, `Ballot.spread_add`: both are additive in the weight
* `Acyclic.set`, `Acyclic.mono`: what keeps the proxies acyclic
* `Acyclic.not_transGen`: the chain from a voter does not return to it
* `Links.Sound.vote`, `Links.Sound.register`: the two ways in which links change
* `Acyclic.exists_rank`: a rank for following the chain of a given proxy
* `Table.below_lt`: the chain of proxies of a row is shorter than the table
* `Table.induction_on_proxies`: induction over the chains, from those whom nobody uses as a proxy
* `Table.surplus_set`: what writing one row does to all of them
* `sum_map_ite_mem`: a vote moved from one list of candidates to another
-/

variable {κ ν M : Type*} [DecidableEq κ]

/-- A vote: through a proxy, or for a list of candidates, with a weight. -/
structure Ballot (κ M : Type*) where
  proxy : Option κ
  choices : List κ
  weight : M

namespace Ballot

variable [AddCommMonoid M]

/-- What a ballot gives to each proxy. -/
def share (b : Ballot κ M) : κ → M := b.proxy.elim 0 fun q => Pi.single q b.weight

/-- What a ballot gives to each candidate. -/
def spread (b : Ballot κ M) : κ → M :=
  if b.proxy = none then (b.choices.map fun p => Pi.single p b.weight).sum else 0

theorem share_apply (b : Ballot κ M) (q : κ) :
    b.share q = if b.proxy = some q then b.weight else 0 := by
  unfold share
  cases b.proxy with
  | none => simp
  | some q' => simp [Pi.single_apply, eq_comm]

/-- A list of votes of one weight for different candidates. -/
theorem sum_single_apply {l : List κ} (hl : l.Nodup) (w : M) (p : κ) :
    (l.map fun q => (Pi.single q w : κ → M)).sum p = if p ∈ l then w else 0 := by
  induction l with
  | nil => simp
  | cons q l ih =>
    obtain ⟨hq, hl⟩ := List.nodup_cons.mp hl
    rw [List.map_cons, List.sum_cons, Pi.add_apply, ih hl, Pi.single_apply]
    by_cases hpq : p = q
    · subst hpq
      simp [hq]
    · simp [hpq]

theorem spread_apply {b : Ballot κ M} (hb : b.choices.Nodup) (p : κ) :
    b.spread p = if b.proxy = none ∧ p ∈ b.choices then b.weight else 0 := by
  unfold spread
  by_cases h : b.proxy = none
  · simp [h, sum_single_apply hb]
  · simp [h]

theorem share_add (q : Option κ) (l : List κ) (w d : M) :
    (⟨q, l, w + d⟩ : Ballot κ M).share =
      (⟨q, l, w⟩ : Ballot κ M).share + (⟨q, l, d⟩ : Ballot κ M).share := by
  cases q with
  | none => simp [share]
  | some q => simp [share, Pi.single_add]

theorem spread_add (q : Option κ) (l : List κ) (w d : M) :
    (⟨q, l, w + d⟩ : Ballot κ M).spread =
      (⟨q, l, w⟩ : Ballot κ M).spread + (⟨q, l, d⟩ : Ballot κ M).spread := by
  unfold spread
  split_ifs with h
  · simp only [Pi.single_add]
    exact List.sum_map_add
  · simp

section Order

variable {G : Type*} [AddCommGroup G] [LinearOrder G] [IsOrderedAddMonoid G]

theorem abs_share_le (b : Ballot κ G) (q : κ) : |b.share q| ≤ |b.weight| := by
  rw [share_apply]
  split_ifs
  · exact le_rfl
  · rw [abs_zero]
    exact abs_nonneg _

theorem abs_spread_le {b : Ballot κ G} (hb : b.choices.Nodup) (p : κ) :
    |b.spread p| ≤ |b.weight| := by
  rw [spread_apply hb]
  split_ifs
  · exact le_rfl
  · rw [abs_zero]
    exact abs_nonneg _

theorem spread_nonneg {b : Ballot κ G} (hb : b.choices.Nodup) (hw : 0 ≤ b.weight) (p : κ) :
    0 ≤ b.spread p := by
  rw [spread_apply hb]
  split_ifs
  · exact hw
  · exact le_rfl

end Order

end Ballot

/-- A sum over a list without repetitions that has all elements of another one. -/
theorem sum_map_ite_mem [AddCommMonoid M] {l m : List κ} (hl : l.Nodup) (hm : m.Nodup)
    (hsub : ∀ x ∈ m, x ∈ l) (f : κ → M) :
    (l.map fun x => if x ∈ m then f x else 0).sum = (m.map f).sum := by
  rw [← List.sum_toFinset _ hl, ← List.sum_toFinset _ hm, ← Finset.sum_filter]
  congr 1
  ext x
  simp only [Finset.mem_filter, List.mem_toFinset]
  exact ⟨fun h => h.2, fun h => ⟨hsub x h, h⟩⟩

/-! ## Chains of proxies -/

/-- The proxies have no cycles: each has a smaller rank than those who use it. -/
def Ranked (proxy : κ → Option κ) (rank : κ → ℕ) : Prop :=
  ∀ x y, proxy x = some y → rank y < rank x

/-- The proxies have no cycles. -/
def Acyclic (proxy : κ → Option κ) : Prop := ∃ rank, Ranked proxy rank

namespace Acyclic

variable {proxy proxy' : κ → Option κ}

omit [DecidableEq κ] in
theorem mono (h : Acyclic proxy) (hp : ∀ x y, proxy' x = some y → proxy x = some y) :
    Acyclic proxy' := by
  obtain ⟨rank, hr⟩ := h
  exact ⟨rank, fun x y hxy => hr x y (hp x y hxy)⟩

/-- A voter may turn to a proxy that uses none itself. -/
theorem set (h : Acyclic proxy) {x y : κ} (hy : proxy y = none) (hxy : x ≠ y)
    (hp : ∀ z, z ≠ x → proxy' z = proxy z) (hx : proxy' x = some y) : Acyclic proxy' := by
  obtain ⟨rank, hr⟩ := h
  -- the new proxy moves to the bottom
  refine ⟨fun z => if z = y then 0 else rank z + 1, fun z w hzw => ?_⟩
  have hzy : z ≠ y := by
    rintro rfl
    rw [hp z hxy.symm, hy] at hzw
    cases hzw
  beta_reduce
  rw [if_neg hzy]
  by_cases hzx : z = x
  · subst hzx
    rw [hx] at hzw
    cases hzw
    simp
  · rw [hp z hzx] at hzw
    have := hr z w hzw
    split_ifs <;> omega

omit [DecidableEq κ] in
/-- Following the proxies from a voter does not lead back to it. -/
theorem not_transGen (h : Acyclic proxy) (x : κ) :
    ¬Relation.TransGen (fun y z => proxy y = some z) x x := by
  obtain ⟨rank, hr⟩ := h
  have hlt : ∀ y z, Relation.TransGen (fun y z => proxy y = some z) y z → rank z < rank y := by
    intro y z hyz
    induction hyz with
    | single hstep => exact hr _ _ hstep
    | tail _ hstep ih => exact (hr _ _ hstep).trans ih
  exact fun hx => lt_irrefl _ (hlt x x hx)

end Acyclic

/-- Who uses which proxy, and who is registered as one. -/
structure Links (κ : Type*) where
  proxy : κ → Option κ
  isProxy : κ → Bool

namespace Links

variable {l : Links κ}

/-- A registered proxy uses none itself, and the proxies have no cycles. -/
structure Sound (l : Links κ) : Prop where
  proxy_eq_none : ∀ x, l.isProxy x = true → l.proxy x = none
  acyclic : Acyclic l.proxy

omit [DecidableEq κ] in
theorem sound_empty : (⟨fun _ => none, fun _ => false⟩ : Links κ).Sound where
  proxy_eq_none _ _ := rfl
  acyclic := ⟨fun _ => 0, fun x y h => by cases h⟩

/-- A voter who is no proxy turns to a registered one, or to none at all. -/
theorem Sound.vote (h : l.Sound) {x : κ} {q : Option κ}
    (hq : ∀ y, q = some y → l.isProxy x = false ∧ x ≠ y ∧ l.isProxy y = true) :
    Sound ⟨Function.update l.proxy x q, l.isProxy⟩ := by
  have hother (z : κ) (hz : z ≠ x) : Function.update l.proxy x q z = l.proxy z :=
    Function.update_of_ne hz ..
  have hself : Function.update l.proxy x q x = q := Function.update_self ..
  cases q with
  | none =>
    constructor
    · intro z hz
      by_cases hzx : z = x
      · subst hzx
        exact hself
      · exact (hother z hzx).trans (h.proxy_eq_none z hz)
    · refine h.acyclic.mono fun z y hzy => ?_
      by_cases hzx : z = x
      · subst hzx
        exact absurd (hself.symm.trans hzy) (Option.some_ne_none _).symm
      · exact (hother z hzx).symm.trans hzy
  | some y =>
    obtain ⟨hx, hxy, hy⟩ := hq y rfl
    constructor
    · intro z hz
      have hzx : z ≠ x := by
        rintro rfl
        exact absurd (hx.symm.trans hz) Bool.false_ne_true
      exact (hother z hzx).trans (h.proxy_eq_none z hz)
    · exact h.acyclic.set (h.proxy_eq_none y hy) hxy hother hself

/-- A voter is registered, if it uses no proxy, or unregistered. -/
theorem Sound.register (h : l.Sound) {x : κ} {b : Bool} (hx : b = true → l.proxy x = none) :
    Sound ⟨l.proxy, Function.update l.isProxy x b⟩ := by
  refine ⟨fun z hz => ?_, h.acyclic⟩
  by_cases hzx : z = x
  · subst hzx
    dsimp only at hz
    rw [Function.update_self] at hz
    exact hx hz
  · dsimp only at hz
    rw [Function.update_of_ne hzx] at hz
    exact h.proxy_eq_none z hz

end Links

omit [DecidableEq κ] in
/-- A rank in which a proxy that uses none, or the one a voter uses, is not above the voter. -/
theorem Acyclic.exists_rank {proxy : κ → Option κ} [DecidableEq κ] (h : Acyclic proxy) {x y : κ}
    (hy : proxy y = none ∨ proxy x = some y) : ∃ rank, Ranked proxy rank ∧ rank y ≤ rank x := by
  obtain ⟨rank, hr⟩ := h
  rcases hy with hy | hy
  · refine ⟨fun z => if z = y then 0 else rank z + 1, fun z w hzw => ?_, by simp⟩
    have hzy : z ≠ y := by
      rintro rfl
      rw [hy] at hzw
      cases hzw
    have := hr z w hzw
    beta_reduce
    rw [if_neg hzy]
    split_ifs <;> omega
  · exact ⟨rank, hr, (hr x y hy).le⟩

namespace Table

/-- The number of rows of smaller rank than `n`. -/
def below (t : Table κ ν) (rank : κ → ℕ) (n : ℕ) : ℕ :=
  t.sum fun k _ => if rank k < n then 1 else 0

omit [DecidableEq κ] in
theorem below_le (t : Table κ ν) (rank : κ → ℕ) (n : ℕ) : t.below rank n ≤ t.rows.length := by
  unfold below sum
  refine (List.sum_le_card_nsmul _ 1 fun x hx => ?_).trans (by simp)
  obtain ⟨r, -, rfl⟩ := List.mem_map.mp hx
  beta_reduce
  split_ifs <;> omega

/-- Writing an existing row leaves the number. -/
theorem below_set {t : Table κ ν} {k : κ} {w : ν} (h : t.find k = some w) (v : ν)
    (rank : κ → ℕ) (n : ℕ) : (t.set k v).below rank n = t.below rank n := by
  unfold below
  rw [sum_set_eq, ← sum_erase_add t k, h]
  rfl

/-- Going down to a row of smaller rank leaves fewer rows below. -/
theorem below_lt {t : Table κ ν} {rank : κ → ℕ} {x : κ} {v : ν} {n : ℕ} (h : t.find x = some v)
    (hx : rank x < n) : t.below rank (rank x) < t.below rank n := by
  unfold below
  rw [← sum_erase_add t x, ← sum_erase_add t x (fun k _ => if rank k < n then 1 else 0), h]
  refine add_lt_add_of_lt_of_le (by simp [hx]) (sum_le_sum fun k _ _ => ?_)
  split_ifs <;> omega

omit [DecidableEq κ] in
/-- A sum of functions, at a point. -/
theorem sum_apply {ι : Type*} [AddCommMonoid M] (t : Table κ ν) (f : κ → ν → ι → M) (x : ι) :
    t.sum f x = t.sum fun k v => f k v x := by
  unfold sum
  rw [Pi.list_sum_apply, List.map_map]
  rfl

/-- A sum over the rows under some keys, all of which are in use. -/
theorem sum_ite_mem [AddCommMonoid M] {t : Table κ ν} {m : List κ} (hm : m.Nodup)
    (h : ∀ k ∈ m, (t.find k).isSome) (f : κ → M) :
    (t.sum fun k _ => if k ∈ m then f k else 0) = (m.map f).sum := by
  have hkeys : (t.rows.map Prod.fst).Nodup := by
    have hn := t.nodupKeys
    unfold rows
    rw [List.map_map]
    exact hn
  rw [← sum_map_ite_mem hkeys hm (fun k hk => ?_) f, List.map_map]
  · rfl
  · obtain ⟨v, hv⟩ := Option.isSome_iff_exists.mp (h k hk)
    exact List.mem_map.mpr ⟨(k, v), mem_rows.mpr hv, rfl⟩

/-- What the rows have received beyond what all rows give. -/
def surplus [AddCommGroup M] (t : Table κ ν) (received : ν → M) (share : ν → κ → M) : κ → M :=
  (fun k => (t.find k).elim 0 received) - t.sum fun _ v => share v

/-- Writing a row moves its own surplus, and that of those it gives to. -/
theorem surplus_set [AddCommGroup M] (t : Table κ ν) (k : κ) (v : ν) (received : ν → M)
    (share : ν → κ → M) : (t.set k v).surplus received share =
      t.surplus received share + Pi.single k (received v - (t.find k).elim 0 received) +
        (t.find k).elim 0 share - share v := by
  have hreceived : (fun k' => ((t.set k v).find k').elim 0 received) =
      (fun k' => (t.find k').elim 0 received) +
        Pi.single k (received v - (t.find k).elim 0 received) := by
    funext k'
    rw [Pi.add_apply, Pi.single_apply, find_set]
    split_ifs with hk
    · rw [hk, Option.elim_some, add_sub_cancel]
    · rw [add_zero]
  unfold surplus
  rw [hreceived, sum_set_elim]
  abel

/-- What holds of a voter if it holds of those who use it as a proxy, holds of all voters. -/
theorem induction_on_proxies {t : Table κ ν} {proxy : κ → Option κ} (h : Acyclic proxy)
    {P : κ → ν → Prop} (step : ∀ k v, t.find k = some v →
      (∀ k' v', t.find k' = some v' → proxy k' = some k → P k' v') → P k v) {k : κ} {v : ν}
    (hv : t.find k = some v) : P k v := by
  obtain ⟨rank, hr⟩ := h
  -- those who use a proxy have a larger rank, and the ranks in the table are bounded
  have hbound : ∀ k v, t.find k = some v → rank k ≤ t.sum fun k _ => rank k :=
    fun k v hv => le_sum (f := fun k _ => rank k) (fun _ _ _ => Nat.zero_le _) hv
  induction hn : (t.sum fun k _ => rank k) - rank k using Nat.strong_induction_on
    generalizing k v with
  | _ n ih =>
    refine step k v hv fun k' v' hv' hk' => ih _ ?_ hv' rfl
    have hlt := hr k' k hk'
    have hle := hbound k' v' hv'
    omega

end Table
