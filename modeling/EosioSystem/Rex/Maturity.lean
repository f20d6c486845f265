import EosioSystem.Rex.Actions

/-!
# Maturity buckets

An owner's REX is its matured REX and what its buckets hold. The buckets are kept in the order in
which they mature, the savings bucket at the end, and no operation on them takes from the REX that
is reserved for an open sell order or brings a maturity forward.

## Main definitions

* `RexBalance.Ledger`: the invariant of an owner's record
* `RexBalance.availableBy`: the REX that is matured at a time, or will be by then
* `RexBalance.Moves`: the operations on the buckets of a record

## Main results

* `RexBalance.Ledger.moves`: the operations keep the invariant, and the sum of the record
* `RexBalance.availableBy_moves`: no operation makes REX available earlier
-/

namespace EosioSystem

open Checked

/-! ## Sums over buckets -/

/-- The REX in the buckets. -/
def bucketSum (l : List (ℕ × ℤ)) : ℤ := (l.map Prod.snd).sum

/-- The REX in the buckets that mature by the time `t`. -/
def bucketSumBy (t : ℕ) (l : List (ℕ × ℤ)) : ℤ :=
  (l.map fun m => if m.1 ≤ t then m.2 else 0).sum

@[simp] theorem bucketSum_nil : bucketSum [] = 0 := rfl

@[simp] theorem bucketSum_cons (m : ℕ × ℤ) (l : List (ℕ × ℤ)) :
    bucketSum (m :: l) = m.2 + bucketSum l := List.sum_cons

@[simp] theorem bucketSum_append (l l' : List (ℕ × ℤ)) :
    bucketSum (l ++ l') = bucketSum l + bucketSum l' := by
  simp [bucketSum]

@[simp] theorem bucketSum_reverse (l : List (ℕ × ℤ)) : bucketSum l.reverse = bucketSum l := by
  simp [bucketSum]

@[simp] theorem bucketSumBy_nil (t : ℕ) : bucketSumBy t [] = 0 := rfl

@[simp] theorem bucketSumBy_cons (t : ℕ) (m : ℕ × ℤ) (l : List (ℕ × ℤ)) :
    bucketSumBy t (m :: l) = (if m.1 ≤ t then m.2 else 0) + bucketSumBy t l := List.sum_cons

@[simp] theorem bucketSumBy_append (t : ℕ) (l l' : List (ℕ × ℤ)) :
    bucketSumBy t (l ++ l') = bucketSumBy t l + bucketSumBy t l' := by
  simp [bucketSumBy]

@[simp] theorem bucketSumBy_reverse (t : ℕ) (l : List (ℕ × ℤ)) :
    bucketSumBy t l.reverse = bucketSumBy t l := by
  simp [bucketSumBy]

theorem bucketSum_nonneg {l : List (ℕ × ℤ)} (h : ∀ m ∈ l, 0 ≤ m.2) : 0 ≤ bucketSum l := by
  refine List.sum_nonneg fun x hx => ?_
  obtain ⟨m, hm, rfl⟩ := List.mem_map.mp hx
  exact h m hm

theorem bucketSumBy_le {l : List (ℕ × ℤ)} (h : ∀ m ∈ l, 0 ≤ m.2) (t : ℕ) :
    bucketSumBy t l ≤ bucketSum l := by
  refine List.sum_le_sum fun m hm => ?_
  have := h m hm
  split_ifs <;> omega

theorem bucketSumBy_nonneg {l : List (ℕ × ℤ)} (h : ∀ m ∈ l, 0 ≤ m.2) (t : ℕ) :
    0 ≤ bucketSumBy t l := by
  refine List.sum_nonneg fun x hx => ?_
  obtain ⟨m, hm, rfl⟩ := List.mem_map.mp hx
  split_ifs
  · exact h m hm
  · exact le_rfl

/-! ## Well-formed buckets -/

theorem getRexMaturity_mono {t t' : ℕ} (h : t ≤ t') : getRexMaturity t ≤ getRexMaturity t' := by
  unfold getRexMaturity secondsPerDay
  omega

theorem lt_getRexMaturity (t : ℕ) : t < getRexMaturity t := by
  unfold getRexMaturity secondsPerDay
  omega

/-- The maturity of a purchase is before the end of time. -/
theorem getRexMaturity_lt (t : BlockTimestamp) : getRexMaturity t.sec < maximumTime := by
  have := t.sec_lt
  unfold getRexMaturity secondsPerDay maximumTime
  omega

/-- Buckets in the order of their times, which are not after the maturity of a purchase at `now`;
the amounts are not negative. -/
structure Buckets (now : ℕ) (l : List (ℕ × ℤ)) : Prop where
  amounts : ∀ m ∈ l, 0 ≤ m.2
  sorted : l.Pairwise fun m m' => m.1 < m'.1
  times : ∀ m ∈ l, m.1 ≤ getRexMaturity now

/-- The savings bucket, which is there only if it holds something. -/
def savingsBucket (a : ℤ) : List (ℕ × ℤ) := if a = 0 then [] else [(maximumTime, a)]

@[simp] theorem bucketSum_savingsBucket (a : ℤ) : bucketSum (savingsBucket a) = a := by
  unfold savingsBucket
  split_ifs with h
  · simp [h]
  · simp

theorem bucketSumBy_savingsBucket {t : ℕ} (ht : t < maximumTime) (a : ℤ) :
    bucketSumBy t (savingsBucket a) = 0 := by
  unfold savingsBucket
  split_ifs
  · rfl
  · simp [ht]

theorem Buckets.mono {now now' : ℕ} {l : List (ℕ × ℤ)} (h : Buckets now l) (hle : now ≤ now') :
    Buckets now' l :=
  ⟨h.amounts, h.sorted, fun m hm => (h.times m hm).trans (getRexMaturity_mono hle)⟩

theorem Buckets.nil (now : ℕ) : Buckets now [] := ⟨by simp, .nil, by simp⟩

/-- What is left of the buckets when some leave and some lose a part. -/
theorem Buckets.of_sublist {now : ℕ} {l l' : List (ℕ × ℤ)} (h : Buckets now l)
    (ht : (l'.map Prod.fst).Sublist (l.map Prod.fst)) (ha : ∀ m ∈ l', 0 ≤ m.2) :
    Buckets now l' := by
  refine ⟨ha, ?_, fun m hm => ?_⟩
  · have hs := (List.pairwise_map.mpr h.sorted).sublist ht
    exact List.pairwise_map.mp hs
  · obtain ⟨m', hm', he⟩ := List.mem_map.mp (ht.subset (List.mem_map_of_mem hm))
    rw [← he]
    exact h.times m' hm'

/-- Adding to the bucket that matures last. -/
theorem Buckets.addToLast {now : ℕ} {l : List (ℕ × ℤ)} (h : Buckets now l) {rex : ℤ}
    (hr : 0 ≤ rex) : Buckets now (addToLastBucket (getRexMaturity now) rex l) := by
  unfold addToLastBucket
  rcases List.eq_nil_or_concat l with rfl | ⟨l', ⟨t, a⟩, rfl⟩
  · exact ⟨by simpa using hr, by simp, by simp⟩
  · have hsort := h.sorted
    have ht := h.times
    have ha := h.amounts
    rw [List.concat_eq_append] at *
    rw [List.pairwise_append] at hsort
    simp only [List.getLast?_append, List.getLast?_singleton, Option.some_or,
      List.dropLast_concat]
    split_ifs with he
    · refine ⟨fun m hm => ?_, ?_, fun m hm => ?_⟩
      · rcases List.mem_append.mp hm with hm | hm
        · exact ha m (List.mem_append_left _ hm)
        · rw [List.mem_singleton.mp hm]
          have := ha (t, a) (by simp)
          dsimp only at this ⊢
          omega
      · rw [List.pairwise_append]
        refine ⟨hsort.1, by simp, fun m hm m' hm' => ?_⟩
        rw [List.mem_singleton.mp hm', ← he]
        exact hsort.2.2 m hm (t, a) (by simp)
      · rcases List.mem_append.mp hm with hm | hm
        · exact ht m (List.mem_append_left _ hm)
        · rw [List.mem_singleton.mp hm]
    · refine ⟨fun m hm => ?_, ?_, fun m hm => ?_⟩
      · rcases List.mem_append.mp hm with hm | hm
        · exact ha m hm
        · rw [List.mem_singleton.mp hm]
          exact hr
      · rw [List.pairwise_append]
        refine ⟨h.sorted, by simp, fun m hm m' hm' => ?_⟩
        rw [List.mem_singleton.mp hm']
        have hlast := ht (t, a) (by simp)
        have hle : m.1 ≤ t := by
          rcases List.mem_append.mp hm with hm | hm
          · exact (hsort.2.2 m hm (t, a) (by simp)).le
          · rw [List.mem_singleton.mp hm]
        dsimp only at hlast ⊢
        omega
      · rcases List.mem_append.mp hm with hm | hm
        · exact ht m hm
        · rw [List.mem_singleton.mp hm]

theorem bucketSum_addToLast (t : ℕ) (rex : ℤ) (l : List (ℕ × ℤ)) :
    bucketSum (addToLastBucket t rex l) = bucketSum l + rex := by
  unfold addToLastBucket
  rcases List.eq_nil_or_concat l with rfl | ⟨l', ⟨t', a⟩, rfl⟩
  · simp
  · rw [List.concat_eq_append]
    simp only [List.getLast?_append, List.getLast?_singleton, Option.some_or,
      List.dropLast_concat]
    split_ifs <;> simp [add_assoc]

theorem bucketSumBy_addToLast {t u : ℕ} (h : u < t) (rex : ℤ) (l : List (ℕ × ℤ)) :
    bucketSumBy u (addToLastBucket t rex l) = bucketSumBy u l := by
  unfold addToLastBucket
  rcases List.eq_nil_or_concat l with rfl | ⟨l', ⟨t', a⟩, rfl⟩
  · simp [h]
  · rw [List.concat_eq_append]
    simp only [List.getLast?_append, List.getLast?_singleton, Option.some_or,
      List.dropLast_concat]
    have hn : ¬t ≤ u := not_le.mpr h
    split_ifs with he
    · simp [he, hn]
    · simp [hn]

/-! ## Due buckets -/

theorem takeWhile_dropWhile_savings {now : ℕ} (hnow : now < maximumTime) (l : List (ℕ × ℤ))
    (a : ℤ) :
    ((l ++ savingsBucket a).takeWhile fun m => m.1 ≤ now) = (l.takeWhile fun m => m.1 ≤ now) ∧
      ((l ++ savingsBucket a).dropWhile fun m => m.1 ≤ now) =
        (l.dropWhile fun m => m.1 ≤ now) ++ savingsBucket a := by
  have hs : (savingsBucket a).takeWhile (fun m => m.1 ≤ now) = [] ∧
      (savingsBucket a).dropWhile (fun m => m.1 ≤ now) = savingsBucket a := by
    unfold savingsBucket
    split_ifs
    · simp
    · simp [hnow]
  induction l with
  | nil => exact ⟨hs.1, hs.2⟩
  | cons m l ih =>
    by_cases hm : m.1 ≤ now
    · simp [hm, ih]
    · simp [hm]

theorem bucketSum_due (now : ℕ) (l : List (ℕ × ℤ)) :
    bucketSum (l.takeWhile fun m => m.1 ≤ now) + bucketSum (l.dropWhile fun m => m.1 ≤ now) =
      bucketSum l := by
  rw [← bucketSum_append, List.takeWhile_append_dropWhile]

theorem bucketSumBy_due {now t : ℕ} (h : now ≤ t) (l : List (ℕ × ℤ)) :
    bucketSum (l.takeWhile fun m => m.1 ≤ now) +
      bucketSumBy t (l.dropWhile fun m => m.1 ≤ now) = bucketSumBy t l := by
  induction l with
  | nil => rfl
  | cons m l ih =>
    by_cases hm : m.1 ≤ now
    · have hmt : m.1 ≤ t := hm.trans h
      simp [hm, hmt, ← ih, add_assoc]
    · simp [hm]

theorem Buckets.dropWhile {now : ℕ} {l : List (ℕ × ℤ)} (h : Buckets now l) (t : ℕ) :
    Buckets now (l.dropWhile fun m => m.1 ≤ t) :=
  h.of_sublist ((List.dropWhile_sublist _).map _) fun m hm =>
    h.amounts m ((List.dropWhile_sublist _).subset hm)

/-! ## Taking out of the buckets -/

/-- What is taken out of the buckets leaves them, and is all that is wanted or all there is. -/
theorem drainMaturities_spec {l l' : List (ℕ × ℤ)} {want moved : ℤ} (hw : 0 ≤ want)
    (ha : ∀ m ∈ l, 0 ≤ m.2) (h : drainMaturities l want = (l', moved)) :
    (l'.map Prod.fst).Sublist (l.map Prod.fst) ∧ (∀ m ∈ l', 0 ≤ m.2) ∧
      bucketSum l = bucketSum l' + moved ∧ 0 ≤ moved ∧ moved ≤ want ∧
      ∀ t, bucketSumBy t l' ≤ bucketSumBy t l := by
  induction l generalizing want l' moved with
  | nil =>
    simp only [drainMaturities, Prod.mk.injEq] at h
    obtain ⟨rfl, rfl⟩ := h
    exact ⟨.slnil, by simp, by simp, le_rfl, hw, fun _ => le_rfl⟩
  | cons m l ih =>
    obtain ⟨t, a⟩ := m
    have hm := ha (t, a) (by simp)
    have hl : ∀ m ∈ l, 0 ≤ m.2 := fun m hm => ha m (List.mem_cons_of_mem _ hm)
    dsimp only at hm
    unfold drainMaturities at h
    dsimp only at h
    split_ifs at h with hpos hall
    · -- the whole bucket goes
      rcases hr : drainMaturities l (want - min want a) with ⟨l₁, moved₁⟩
      rw [hr] at h
      simp only [Prod.mk.injEq] at h
      obtain ⟨rfl, rfl⟩ := h
      obtain ⟨h₁, h₂, h₃, h₄, h₅, h₆⟩ := ih (by omega) hl hr
      refine ⟨h₁.cons _, h₂, ?_, by omega, by omega, fun u => ?_⟩
      · rw [bucketSum_cons, h₃]
        dsimp only
        omega
      · rw [bucketSumBy_cons]
        have := h₆ u
        split_ifs <;> omega
    · -- a part of the bucket goes
      simp only [Prod.mk.injEq] at h
      obtain ⟨rfl, rfl⟩ := h
      refine ⟨by simp, ?_, ?_, by omega, by omega, fun u => ?_⟩
      · intro m' hm'
        rcases List.mem_cons.mp hm' with rfl | hm'
        · dsimp only
          omega
        · exact hl m' hm'
      · simp only [bucketSum_cons]
        omega
      · simp only [bucketSumBy_cons]
        split_ifs <;> omega
    · simp only [Prod.mk.injEq] at h
      obtain ⟨rfl, rfl⟩ := h
      exact ⟨.refl _, ha, by simp, le_rfl, hw, fun _ => le_rfl⟩

/-! ## Records -/

namespace RexBalance

/-- An owner's record, of which `reserved` is requested by an open sell order. -/
structure Ledger (now : ℕ) (reserved : ℤ) (rb : RexBalance) : Prop where
  buckets : ∃ l a, Buckets now l ∧ 0 ≤ a ∧ rb.rexMaturities = l ++ savingsBucket a
  balance : rb.rexBalance = rb.maturedRex + bucketSum rb.rexMaturities
  reserved_nonneg : 0 ≤ reserved
  reserved_le : reserved ≤ rb.maturedRex

/-- The REX of a record that is matured at the time `t`, if nothing happens until then. -/
def availableBy (t : ℕ) (rb : RexBalance) : ℤ := rb.maturedRex + bucketSumBy t rb.rexMaturities

/-- The operations on the buckets of a record of which `reserved` is in a sell order. -/
inductive Moves (now : ℕ) (reserved : ℤ) : RexBalance → RexBalance → Prop
  | mature (rb : RexBalance) : Moves now reserved rb (processRexMaturities now rb)
  | consolidate (rb : RexBalance) : Moves now reserved rb (consolidateRexBalance now reserved rb)
  | toSavings {rb rb' : RexBalance} {rex : ℤ} (hr : 0 < rex)
    (h : State.moveToSavings now reserved rex rb = .ok rb') : Moves now reserved rb rb'
  | fromSavings {rb rb' : RexBalance} {rex : ℤ} (hr : 0 < rex)
    (h : State.moveFromSavings now rex rb = .ok rb') : Moves now reserved rb rb'

variable {reserved : ℤ} {now : BlockTimestamp} {rb rb' : RexBalance} {l : List (ℕ × ℤ)} {a : ℤ}

/-- The savings bucket is read off the end of the buckets. -/
theorem readRexSavings_eq (hl : Buckets now.sec l) (h : rb.rexMaturities = l ++ savingsBucket a) :
    readRexSavings rb = ({ rb with rexMaturities := l }, a) := by
  unfold readRexSavings savingsBucket at *
  split_ifs at h with ha
  · rw [List.append_nil] at h
    subst h
    split
    · rename_i u b hlast
      have hmem := hl.times (u, b) (List.mem_of_getLast? hlast)
      have hlt := getRexMaturity_lt now
      dsimp only at hmem
      rw [if_neg (by omega), ha]
    · rw [ha]
  · rw [h]
    simp

/-- What is put back in savings goes to the end of the buckets. -/
theorem putRexSavings_eq (hl : Buckets now.sec rb.rexMaturities) :
    putRexSavings rb a = { rb with rexMaturities := rb.rexMaturities ++ savingsBucket a } := by
  unfold putRexSavings savingsBucket
  split_ifs with ha
  · rw [List.append_nil]
  · congr 1
    unfold addToLastBucket
    split
    · rename_i u b hlast
      have hmem := hl.times (u, b) (List.mem_of_getLast? hlast)
      have hlt := getRexMaturity_lt now
      dsimp only at hmem
      rw [if_neg (by omega)]
    · rename_i hlast
      rw [List.getLast?_eq_none_iff.mp hlast]
      rfl

/-- The due buckets become matured REX; savings never do. -/
theorem processRexMaturities_eq (now : BlockTimestamp)
    (h : rb.rexMaturities = l ++ savingsBucket a) :
    processRexMaturities now.sec rb = { rb with
      maturedRex := rb.maturedRex + bucketSum (l.takeWhile fun m => m.1 ≤ now.sec)
      rexMaturities := (l.dropWhile fun m => m.1 ≤ now.sec) ++ savingsBucket a } := by
  have hlt : now.sec < maximumTime := (lt_getRexMaturity _).trans (getRexMaturity_lt now)
  obtain ⟨h₁, h₂⟩ := takeWhile_dropWhile_savings hlt l a
  unfold processRexMaturities
  rw [h, h₁, h₂]
  rfl

namespace Ledger

theorem mono {t t' : ℕ} (h : Ledger t reserved rb) (ht : t ≤ t') : Ledger t' reserved rb := by
  obtain ⟨l, a, hl, ha, he⟩ := h.buckets
  exact ⟨⟨l, a, hl.mono ht, ha, he⟩, h.balance, h.reserved_nonneg, h.reserved_le⟩

/-- The reserved part may be any part of the matured REX. -/
theorem reserve {t : ℕ} {r : ℤ} (h : Ledger t reserved rb) (h₀ : 0 ≤ r) (hr : r ≤ rb.maturedRex) :
    Ledger t r rb := ⟨h.buckets, h.balance, h₀, hr⟩

theorem matured_nonneg {t : ℕ} (h : Ledger t reserved rb) : 0 ≤ rb.maturedRex :=
  h.reserved_nonneg.trans h.reserved_le

theorem amounts {t : ℕ} (h : Ledger t reserved rb) : ∀ m ∈ rb.rexMaturities, 0 ≤ m.2 := by
  obtain ⟨l, a, hl, ha, he⟩ := h.buckets
  rw [he]
  intro m hm
  rcases List.mem_append.mp hm with hm | hm
  · exact hl.amounts m hm
  · unfold savingsBucket at hm
    split_ifs at hm
    · cases hm
    · rw [List.mem_singleton.mp hm]
      exact ha

theorem matured_le {t : ℕ} (h : Ledger t reserved rb) : rb.maturedRex ≤ rb.rexBalance := by
  have := bucketSum_nonneg h.amounts
  have := h.balance
  omega

/-- The times of the buckets strictly increase, up to the savings bucket. -/
theorem sorted (h : Ledger now.sec reserved rb) :
    rb.rexMaturities.Pairwise fun m m' => m.1 < m'.1 := by
  obtain ⟨l, a, hl, -, he⟩ := h.buckets
  rw [he, List.pairwise_append]
  unfold savingsBucket
  refine ⟨hl.sorted, ?_, fun m hm m' hm' => ?_⟩
  · split_ifs <;> simp
  · split_ifs at hm'
    · cases hm'
    · rw [List.mem_singleton.mp hm']
      exact (hl.times m hm).trans_lt (getRexMaturity_lt now)

/-- The savings bucket is the one that matures last. -/
theorem times (h : Ledger now.sec reserved rb) : ∀ m ∈ rb.rexMaturities, m.1 ≤ maximumTime := by
  obtain ⟨l, a, hl, -, he⟩ := h.buckets
  intro m hm
  rw [he, List.mem_append] at hm
  unfold savingsBucket at hm
  rcases hm with hm | hm
  · exact ((hl.times m hm).trans_lt (getRexMaturity_lt now)).le
  · split_ifs at hm
    · cases hm
    · rw [List.mem_singleton.mp hm]

theorem availableBy_le {t u : ℕ} (h : Ledger t reserved rb) : rb.availableBy u ≤ rb.rexBalance := by
  have := bucketSumBy_le h.amounts u
  rw [h.balance, availableBy]
  omega

end Ledger

/-- What an operation does to a record: the invariant and the amounts stay, and nothing becomes
available before the maturity of a purchase made now. -/
structure Kept (now : BlockTimestamp) (reserved : ℤ) (rb rb' : RexBalance) : Prop where
  ledger : Ledger now.sec reserved rb'
  rexBalance : rb'.rexBalance = rb.rexBalance
  voteStake : rb'.voteStake = rb.voteStake
  available : ∀ u, now.sec ≤ u → u < getRexMaturity now.sec → rb'.availableBy u ≤ rb.availableBy u

/-- Below the maturity of a purchase, savings are not available. -/
theorem availableBy_eq {u : ℕ} (hu : u < getRexMaturity now.sec)
    (h : rb.rexMaturities = l ++ savingsBucket a) :
    rb.availableBy u = rb.maturedRex + bucketSumBy u l := by
  rw [availableBy, h, bucketSumBy_append,
    bucketSumBy_savingsBucket (hu.trans (getRexMaturity_lt now)), add_zero]

namespace Ledger

theorem mature (h : Ledger now.sec reserved rb) :
    Kept now reserved rb (processRexMaturities now.sec rb) := by
  obtain ⟨l, a, hl, ha, he⟩ := h.buckets
  have hbal := h.balance
  have hres := h.reserved_le
  have hdue := bucketSum_due now.sec l
  have hdue₀ := bucketSum_nonneg fun m hm =>
    hl.amounts m ((List.takeWhile_sublist fun m => decide (m.1 ≤ now.sec)).subset hm)
  rw [processRexMaturities_eq now he]
  rw [he, bucketSum_append, bucketSum_savingsBucket] at hbal
  refine ⟨⟨⟨_, a, hl.dropWhile _, ha, rfl⟩, ?_, h.reserved_nonneg, ?_⟩, rfl, rfl, ?_⟩
  · rw [bucketSum_append, bucketSum_savingsBucket]
    dsimp only
    omega
  · dsimp only
    omega
  · intro u hu hlt
    rw [availableBy_eq hlt he, availableBy_eq hlt rfl, ← bucketSumBy_due hu l]
    dsimp only
    omega

theorem consolidate (h : Ledger now.sec reserved rb) :
    Kept now reserved rb (consolidateRexBalance now.sec reserved rb) := by
  obtain ⟨l, a, hl, ha, he⟩ := h.buckets
  have hbal := h.balance
  have hres := h.reserved_le
  have hsum := bucketSum_nonneg hl.amounts
  rw [he, bucketSum_append, bucketSum_savingsBucket] at hbal
  unfold consolidateRexBalance
  rw [readRexSavings_eq hl he]
  dsimp only
  change Kept now reserved rb (putRexSavings { rb with
    maturedRex := reserved
    rexMaturities := if 0 < rb.maturedRex - reserved + bucketSum l then
      [(getRexMaturity now.sec, rb.maturedRex - reserved + bucketSum l)] else [] } a)
  set total := rb.maturedRex - reserved + bucketSum l with htotal
  have hnew : Buckets now.sec (if 0 < total then [(getRexMaturity now.sec, total)] else []) := by
    split_ifs with hpos
    · exact ⟨by simpa using hpos.le, by simp, by simp⟩
    · exact .nil _
  have hnewSum : bucketSum (if 0 < total then [(getRexMaturity now.sec, total)] else []) =
      total := by
    split_ifs
    · simp
    · rw [bucketSum_nil]
      omega
  rw [putRexSavings_eq hnew]
  refine ⟨⟨⟨_, a, hnew, ha, rfl⟩, ?_, h.reserved_nonneg, le_rfl⟩, rfl, rfl, ?_⟩
  · rw [bucketSum_append, bucketSum_savingsBucket, hnewSum]
    dsimp only
    omega
  · intro u hu hlt
    have hzero : bucketSumBy u (if 0 < total then [(getRexMaturity now.sec, total)] else []) =
        0 := by
      split_ifs
      · simp [not_le.mpr hlt]
      · rfl
    have := bucketSumBy_nonneg hl.amounts u
    rw [availableBy_eq hlt he, availableBy_eq hlt rfl, hzero]
    dsimp only
    omega

theorem toSavings (h : Ledger now.sec reserved rb) {rex : ℤ} (hr : 0 < rex)
    (hm : State.moveToSavings now.sec reserved rex rb = .ok rb') : Kept now reserved rb rb' := by
  obtain ⟨l, a, hl, ha, he⟩ := h.buckets
  have hbal := h.balance
  have hres := h.reserved_le
  have hdue := bucketSum_due now.sec l
  have hdue₀ := bucketSum_nonneg fun m hm =>
    hl.amounts m ((List.takeWhile_sublist fun m => decide (m.1 ≤ now.sec)).subset hm)
  rw [he, bucketSum_append, bucketSum_savingsBucket] at hbal
  have hl₀ : ({ rb with rexMaturities := l } : RexBalance).rexMaturities =
      l ++ savingsBucket 0 := by simp [savingsBucket]
  have hproc := processRexMaturities_eq now hl₀
  unfold State.moveToSavings at hm
  rw [readRexSavings_eq hl he] at hm
  dsimp only at hm
  rw [hproc] at hm
  rcases hd : drainMaturities ((l.dropWhile fun m => m.1 ≤ now.sec) ++ savingsBucket 0).reverse rex
    with ⟨drained, moved⟩
  have hl' := hl.dropWhile now.sec
  simp only [hd, bind_eq_ok, check_eq_ok, exists_const, pure_eq_ok] at hm
  obtain ⟨hle, hlogic, hmoved, rfl⟩ := hm
  simp only [savingsBucket, if_true, List.append_nil] at hd
  obtain ⟨hsub, hnonneg, hsum, h₀, h₁, hby⟩ := drainMaturities_spec hr.le
    (fun m hm => hl'.amounts m (List.mem_reverse.mp hm)) hd
  have hdrained : Buckets now.sec drained.reverse := by
    refine hl'.of_sublist ?_ fun m hm => hnonneg m (List.mem_reverse.mp hm)
    have := List.reverse_sublist.mpr hsub
    simpa [List.map_reverse] using this
  rw [bucketSum_reverse] at hsum
  have hmat : reserved ≤ (if moved < rex then
      rb.maturedRex + bucketSum (l.takeWhile fun m => m.1 ≤ now.sec) - (rex - moved)
      else rb.maturedRex + bucketSum (l.takeWhile fun m => m.1 ≤ now.sec)) := by
    split_ifs at hlogic ⊢ <;> omega
  rw [putRexSavings_eq hdrained]
  refine ⟨⟨⟨_, a + rex, hdrained, by omega, rfl⟩, ?_, h.reserved_nonneg, hmat⟩, rfl, rfl, ?_⟩
  · rw [bucketSum_append, bucketSum_savingsBucket, bucketSum_reverse]
    dsimp only
    split_ifs <;> omega
  · intro u hu hlt
    have hby' := hby u
    have hdueBy := bucketSumBy_due hu l
    rw [bucketSumBy_reverse] at hby'
    rw [availableBy_eq hlt he, availableBy_eq hlt rfl, bucketSumBy_reverse]
    dsimp only
    split_ifs <;> omega

theorem fromSavings (h : Ledger now.sec reserved rb) {rex : ℤ} (hr : 0 < rex)
    (hm : State.moveFromSavings now.sec rex rb = .ok rb') : Kept now reserved rb rb' := by
  obtain ⟨l, a, hl, ha, he⟩ := h.buckets
  have hbal := h.balance
  have hres := h.reserved_le
  have hdue := bucketSum_due now.sec l
  have hdue₀ := bucketSum_nonneg fun m hm =>
    hl.amounts m ((List.takeWhile_sublist fun m => decide (m.1 ≤ now.sec)).subset hm)
  rw [he, bucketSum_append, bucketSum_savingsBucket] at hbal
  have hl₀ : ({ rb with rexMaturities := l } : RexBalance).rexMaturities =
      l ++ savingsBucket 0 := by simp [savingsBucket]
  have hproc := processRexMaturities_eq now hl₀
  have hnil : savingsBucket 0 = [] := if_pos rfl
  unfold State.moveFromSavings at hm
  rw [readRexSavings_eq hl he] at hm
  dsimp only at hm
  rw [hproc, hnil, List.append_nil] at hm
  simp only [check_bind_eq_ok, pure_eq_ok] at hm
  obtain ⟨hle, rfl⟩ := hm
  have hl' := (hl.dropWhile now.sec).addToLast hr.le
  unfold addRexMaturity
  dsimp only
  rw [putRexSavings_eq hl']
  refine ⟨⟨⟨_, a - rex, hl', by omega, rfl⟩, ?_, h.reserved_nonneg, ?_⟩, rfl, rfl, ?_⟩
  · rw [bucketSum_append, bucketSum_savingsBucket, bucketSum_addToLast]
    dsimp only
    omega
  · dsimp only
    omega
  · intro u hu hlt
    have hdueBy := bucketSumBy_due hu l
    rw [availableBy_eq hlt he, availableBy_eq hlt rfl, bucketSumBy_addToLast hlt]
    dsimp only
    omega

/-- **The operations on the buckets** keep the record. -/
theorem moves (h : Ledger now.sec reserved rb) (hm : Moves now.sec reserved rb rb') :
    Kept now reserved rb rb' := by
  cases hm with
  | mature => exact h.mature
  | consolidate => exact h.consolidate
  | toSavings hr hm => exact h.toSavings hr hm
  | fromSavings hr hm => exact h.fromSavings hr hm

/-- **A purchase** adds its REX to the buckets, to mature last. -/
theorem buy (h : Ledger now.sec reserved rb) {rex : ℤ} (hr : 0 ≤ rex) {rb₁ : RexBalance}
    (hb : rb₁.rexBalance = rb.rexBalance + rex) (hm : rb₁.maturedRex = rb.maturedRex)
    (hl : rb₁.rexMaturities = rb.rexMaturities) :
    Ledger now.sec reserved (RexState.buyMaturity now.sec rex rb₁) ∧
      (RexState.buyMaturity now.sec rex rb₁).rexBalance = rb.rexBalance + rex ∧
      (RexState.buyMaturity now.sec rex rb₁).voteStake = rb₁.voteStake ∧
      ∀ u, now.sec ≤ u → u < getRexMaturity now.sec →
        (RexState.buyMaturity now.sec rex rb₁).availableBy u = rb.availableBy u := by
  obtain ⟨l, a, hl₀, ha, he⟩ := h.buckets
  have hbal := h.balance
  have hres := h.reserved_le
  have hdue := bucketSum_due now.sec l
  have hdue₀ := bucketSum_nonneg fun m hm =>
    hl₀.amounts m ((List.takeWhile_sublist fun m => decide (m.1 ≤ now.sec)).subset hm)
  rw [he, bucketSum_append, bucketSum_savingsBucket] at hbal
  have hnosav : ({ rb₁ with rexMaturities := l } : RexBalance).rexMaturities =
      l ++ savingsBucket 0 := by simp [savingsBucket]
  have hproc := processRexMaturities_eq now hnosav
  have hnil : savingsBucket 0 = [] := if_pos rfl
  have hl' := (hl₀.dropWhile now.sec).addToLast hr
  unfold RexState.buyMaturity
  rw [readRexSavings_eq hl₀ (hl.trans he)]
  dsimp only
  rw [hproc, hnil, List.append_nil]
  unfold addRexMaturity
  dsimp only
  rw [putRexSavings_eq hl']
  refine ⟨⟨⟨_, a, hl', ha, rfl⟩, ?_, h.reserved_nonneg, ?_⟩, hb, rfl, ?_⟩
  · rw [bucketSum_append, bucketSum_savingsBucket, bucketSum_addToLast]
    dsimp only
    omega
  · dsimp only
    omega
  · intro u hu hlt
    have hdueBy := bucketSumBy_due hu l
    rw [availableBy_eq hlt he, availableBy_eq hlt rfl, bucketSumBy_addToLast hlt]
    dsimp only
    omega

end Ledger

end RexBalance

end EosioSystem
