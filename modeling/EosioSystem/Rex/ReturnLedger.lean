import EosioSystem.Library.Run
import EosioSystem.Rex.Operations

/-!
# What the return pool owes

Every fee is paid out in the end, and never twice: at any time the proceeds of the return pool are
what the pending bucket has collected and what each open bucket has not paid yet. One update may
open a bucket, pay for the time since the last one, and close buckets that were paid too much;
the schedule of the open buckets is kept apart from the 30 days after which a bucket must be gone.

## Main definitions

* `RexReturn.owed`: what the open buckets have not paid at a time
* `RexReturn.Schedule`, `RexReturn.Ledger`: the invariant within an update and between updates
* `ReturnStep`: an update of the pool, or a fee

## Main results

* `Ledger.update`, `Ledger.addFee`: the two operations keep the ledger
* `returnLedger_of_run`: the return pool pays out exactly what it received
-/

namespace EosioSystem

open Checked

/-- 30 days, the time in which a bucket is paid out -/
def payoutPeriod : ℕ := totalIntervals * distInterval

namespace RexReturn

/-! ## Time in intervals -/

theorem effectiveTime_le (now : ℕ) : effectiveTime now ≤ now := Nat.sub_le _ _

theorem dvd_effectiveTime (now : ℕ) : distInterval ∣ effectiveTime now :=
  Nat.dvd_sub_mod now

theorem dvd_nextBucketTime (now : ℕ) : distInterval ∣ nextBucketTime now := by
  have h₁ : distInterval ∣ bucketInterval := by decide
  exact Nat.dvd_add (h₁.trans (Nat.dvd_sub_mod now)) h₁

theorem lt_nextBucketTime (now : ℕ) : now < nextBucketTime now := by
  have := Nat.mod_lt now (show 0 < bucketInterval by decide)
  have := Nat.mod_le now bucketInterval
  unfold nextBucketTime
  omega

theorem nextBucketTime_le (now : ℕ) : nextBucketTime now ≤ now + bucketInterval :=
  Nat.add_le_add_right (Nat.sub_le _ _) _

/-- Whole intervals add up. -/
theorem elapsed_add {b t eff : ℕ} (hb : distInterval ∣ b) (ht : distInterval ∣ t) (h₁ : b ≤ t)
    (h₂ : t ≤ eff) :
    getElapsedIntervals eff b = getElapsedIntervals eff t + getElapsedIntervals t b := by
  obtain ⟨m, rfl⟩ := hb
  obtain ⟨n, rfl⟩ := ht
  unfold getElapsedIntervals distInterval at *
  omega

/-! ## The ledger -/

/-- What the open buckets have not paid at the time `t`; a bucket that is older than 30 days has
been paid too much. -/
def owed (buckets : Table ℕ ℤ) (t : ℕ) : ℤ :=
  buckets.sum fun b rate => rate * (totalIntervals - getElapsedIntervals t b)

/-- The buckets, the pending one included, and the proceeds that go with them at the time `t`. -/
structure Schedule (t : ℕ) (rp : RexReturnPool) (buckets : Table ℕ ℤ) : Prop where
  rate : rp.currentRateOfIncrease = buckets.sum fun _ rate => rate
  rate_nonneg : ∀ b rate, buckets.find b = some rate → 0 ≤ rate
  le : ∀ b rate, buckets.find b = some rate → b ≤ t
  dvd : ∀ b rate, buckets.find b = some rate → distInterval ∣ b
  oldest_le : ∀ b rate, buckets.find b = some rate → rp.oldestBucketTime ≤ b
  lt_pending : ∀ b rate, buckets.find b = some rate → b < rp.pendingBucketTime
  proceeds : rp.proceeds = rp.pendingBucketProceeds + owed buckets t
  pending_nonneg : 0 ≤ rp.pendingBucketProceeds
  pending_zero : rp.pendingBucketTime = maximumTime → rp.pendingBucketProceeds = 0
  dvd_pending : rp.pendingBucketTime ≠ maximumTime → distInterval ∣ rp.pendingBucketTime

/-- The return pool after an operation at the time `now`. -/
structure Ledger (now : ℕ) (rp : RexReturnPool) (buckets : Table ℕ ℤ) : Prop extends
    Schedule rp.lastDistTime rp buckets where
  dvd_last : distInterval ∣ rp.lastDistTime
  fresh : ∀ b rate, buckets.find b = some rate →
    getElapsedIntervals rp.lastDistTime b < totalIntervals
  le_now : ∀ b rate, buckets.find b = some rate → b ≤ now
  last_le : rp.lastDistTime ≤ rp.pendingBucketTime
  last_le_now : rp.pendingBucketTime = maximumTime → rp.lastDistTime ≤ now

variable {now t eff : ℕ} {rp : RexReturnPool} {buckets : Table ℕ ℤ}

/-- Between two updates every bucket pays its rate for each interval. -/
theorem owed_advance (h : Schedule t rp buckets) (ht : distInterval ∣ t) (hle : t ≤ eff) :
    owed buckets eff =
      owed buckets t - rp.currentRateOfIncrease * getElapsedIntervals eff t := by
  have hsum : owed buckets t = owed buckets eff +
      buckets.sum fun _ rate => rate * (getElapsedIntervals eff t : ℤ) := by
    unfold owed
    rw [← Table.sum_add]
    refine Table.sum_congr fun b rate hb => ?_
    rw [elapsed_add (h.dvd b rate hb) ht (h.le b rate hb) hle]
    push_cast
    ring
  have hrate : (buckets.sum fun _ rate => rate * (getElapsedIntervals eff t : ℤ)) =
      rp.currentRateOfIncrease * getElapsedIntervals eff t := by
    rw [h.rate, Table.sum_mul_right]
  rw [hsum, hrate]
  ring

theorem bucketRate_spec {proceeds : ℤ} (h : 0 ≤ proceeds) :
    0 ≤ (bucketRate proceeds).1 ∧ 0 ≤ (bucketRate proceeds).2 ∧
      (bucketRate proceeds).1 * totalIntervals + (bucketRate proceeds).2 = proceeds := by
  unfold bucketRate totalIntervals
  dsimp only
  have hmod : proceeds.tmod 4320 = proceeds % 4320 := Int.tmod_eq_emod_of_nonneg h
  have hle : 0 ≤ proceeds - proceeds % 4320 := by
    have := Int.emod_add_mul_ediv proceeds 4320
    omega
  norm_num
  rw [hmod, Int.tdiv_eq_ediv_of_nonneg hle]
  omega

/-- Opening the pending bucket: its proceeds are split into equal parts, and the parts that are due
already are paid at once. -/
theorem Schedule.openBucket (h : Schedule eff rp buckets) (hp : rp.pendingBucketTime ≤ eff)
    (heff : eff < maximumTime) {rp₁ : RexReturnPool} {buckets₁ : Table ℕ ℤ} {opened : ℤ}
    (ho : openBucket eff rp buckets = (rp₁, buckets₁, opened)) :
    Schedule eff { rp₁ with proceeds := rp₁.proceeds - opened } buckets₁ ∧
      ∃ rate, 0 ≤ rate ∧ buckets.find rp.pendingBucketTime = none ∧
        buckets₁ = buckets.set rp.pendingBucketTime rate ∧
        rate * getElapsedIntervals eff rp.pendingBucketTime ≤ opened ∧
        rp₁.pendingBucketTime = maximumTime ∧ rp₁.proceeds = rp.proceeds ∧
        rp₁.lastDistTime = rp.lastDistTime := by
  obtain ⟨hrate, hrem, hsplit⟩ := bucketRate_spec h.pending_nonneg
  have hnew : buckets.find rp.pendingBucketTime = none := by
    rw [Option.eq_none_iff_forall_ne_some]
    intro rate hf
    exact lt_irrefl _ (h.lt_pending _ rate hf)
  simp only [RexReturn.openBucket, Prod.mk.injEq] at ho
  obtain ⟨rfl, rfl, rfl⟩ := ho
  have hfind : ∀ b rate, (buckets.set rp.pendingBucketTime
      (bucketRate rp.pendingBucketProceeds).1).find b = some rate →
      (b = rp.pendingBucketTime ∧ rate = (bucketRate rp.pendingBucketProceeds).1) ∨
        buckets.find b = some rate := by
    intro b rate hf
    rw [Table.find_set] at hf
    split_ifs at hf with hb
    · exact .inl ⟨hb, (Option.some.inj hf).symm⟩
    · exact .inr hf
  refine ⟨⟨?_, ?_, ?_, ?_, ?_, ?_, ?_, le_rfl, fun _ => rfl, fun hn => absurd rfl hn⟩,
    _, hrate, hnew, rfl, ?_, rfl, rfl, rfl⟩
  · show rp.currentRateOfIncrease + _ = _
    rw [Table.sum_set_new hnew, h.rate]
  · intro b rate hf
    rcases hfind b rate hf with ⟨-, rfl⟩ | hf
    · exact hrate
    · exact h.rate_nonneg b rate hf
  · intro b rate hf
    rcases hfind b rate hf with ⟨rfl, -⟩ | hf
    · exact hp
    · exact h.le b rate hf
  · intro b rate hf
    rcases hfind b rate hf with ⟨rfl, -⟩ | hf
    · exact h.dvd_pending (by omega)
    · exact h.dvd b rate hf
  · intro b rate hf
    dsimp only
    rcases hfind b rate hf with ⟨rfl, -⟩ | hf
    · split_ifs <;> omega
    · have := h.oldest_le b rate hf
      split_ifs <;> omega
  · intro b rate hf
    dsimp only
    rcases hfind b rate hf with ⟨rfl, -⟩ | hf
    · omega
    · have := h.le b rate hf
      omega
  · show rp.proceeds - _ = 0 + owed _ eff
    unfold owed
    rw [Table.sum_set_new hnew, h.proceeds]
    unfold owed
    linear_combination -hsplit
  · omega

/-- The buckets that stay open owe what all buckets owe and the surplus of those that close. -/
theorem Schedule.owed_kept (h : Schedule eff rp buckets) :
    owed (buckets.filter fun b _ => eff < b + payoutPeriod) eff =
      owed buckets eff + buckets.sum fun b rate => if b + payoutPeriod ≤ eff then
        rate * (getElapsedIntervals eff (b + payoutPeriod) : ℤ) else 0 := by
  unfold owed
  rw [Table.sum_filter, ← Table.sum_add]
  refine Table.sum_congr fun b rate hb => ?_
  simp only [decide_eq_true_eq]
  by_cases hlt : eff < b + payoutPeriod
  · rw [if_pos hlt, if_neg (by omega), add_zero]
  · rw [if_neg hlt, if_pos (by omega)]
    have helapsed : getElapsedIntervals eff b =
        getElapsedIntervals eff (b + payoutPeriod) + totalIntervals := by
      have hd : distInterval ∣ b + payoutPeriod := Nat.dvd_add (h.dvd b rate hb) ⟨_, mul_comm _ _⟩
      rw [elapsed_add (h.dvd b rate hb) hd (Nat.le_add_right _ _) (by omega)]
      congr 1
      unfold getElapsedIntervals payoutPeriod distInterval
      omega
    rw [helapsed]
    push_cast
    ring

/-- The oldest bucket is the first one. -/
theorem oldestTime_le {b : ℕ} {rate : ℤ} (hb : buckets.find b = some rate) :
    oldestTime buckets ≤ b := by
  unfold oldestTime
  split
  · rename_i k v hf
    exact List.le_of_mem_argmin (Table.mem_rows.mpr hb) hf
  · exact Nat.zero_le b

/-- Closing the buckets that are 30 days old: what they were paid too much comes back. -/
theorem Schedule.closeBuckets (h : Schedule eff rp buckets) (heff : payoutPeriod ≤ eff)
    {rp₂ : RexReturnPool} {buckets₂ : Table ℕ ℤ} {surplus : ℤ}
    (hc : closeBuckets eff rp buckets = (rp₂, buckets₂, surplus)) :
    Schedule eff rp₂ buckets₂ ∧
      (∀ b rate, buckets₂.find b = some rate ↔
        buckets.find b = some rate ∧ eff < b + payoutPeriod) ∧
      surplus = (buckets.sum fun b rate => if b + payoutPeriod ≤ eff then
        rate * (getElapsedIntervals eff (b + payoutPeriod) : ℤ) else 0) ∧
      rp₂.proceeds = rp.proceeds + surplus ∧ rp₂.lastDistTime = rp.lastDistTime ∧
      rp₂.pendingBucketTime = rp.pendingBucketTime := by
  have hthr : ∀ b, b ≤ eff - totalIntervals * distInterval ↔ b + payoutPeriod ≤ eff := by
    intro b
    unfold payoutPeriod at *
    omega
  have hthr' : ∀ b, eff - totalIntervals * distInterval < b ↔ eff < b + payoutPeriod := by
    intro b
    rw [← not_le, hthr b, not_le]
  have hkept : ∀ b rate, (buckets.filter fun b _ => eff < b + payoutPeriod).find b = some rate ↔
      buckets.find b = some rate ∧ eff < b + payoutPeriod := by
    intro b rate
    rw [Table.find_filter, Option.filter_eq_some_iff]
    simp
  have howed := h.owed_kept
  set surplus₀ := buckets.sum fun b rate => if b + payoutPeriod ≤ eff then
    rate * (getElapsedIntervals eff (b + payoutPeriod) : ℤ) else 0 with hsurplus
  have hnonneg : 0 ≤ surplus₀ := by
    refine Table.sum_nonneg fun b rate hb => ?_
    split_ifs
    · exact mul_nonneg (h.rate_nonneg b rate hb) (Nat.cast_nonneg _)
    · exact le_rfl
  have hexpired : (buckets.filter fun b _ => b + payoutPeriod ≤ eff).sum
      (fun b rate => rate * (getElapsedIntervals eff (b + payoutPeriod) : ℤ)) = surplus₀ := by
    rw [Table.sum_filter]
    simp only [decide_eq_true_eq, hsurplus]
  have hrate : rp.currentRateOfIncrease -
      (buckets.filter fun b _ => b + payoutPeriod ≤ eff).sum (fun _ rate => rate) =
      (buckets.filter fun b _ => eff < b + payoutPeriod).sum fun _ rate => rate := by
    rw [h.rate, Table.sum_filter, Table.sum_filter, sub_eq_iff_eq_add, ← Table.sum_add]
    refine Table.sum_congr fun b rate _ => ?_
    simp only [decide_eq_true_eq]
    by_cases hlt : eff < b + payoutPeriod
    · rw [if_pos hlt, if_neg (by omega), add_zero]
    · rw [if_neg hlt, if_pos (by omega), zero_add]
  have hrate₀ : 0 ≤ (buckets.filter fun b _ => b + payoutPeriod ≤ eff).sum
      (fun _ rate => rate) := by
    refine Table.sum_nonneg fun b rate hb => h.rate_nonneg b rate ?_
    rw [Table.find_filter, Option.filter_eq_some_iff] at hb
    exact hb.1
  unfold RexReturn.closeBuckets at hc
  simp only [hthr, hthr'] at hc
  by_cases hold : rp.oldestBucketTime + payoutPeriod ≤ eff
  · -- some buckets may be due
    rw [if_pos hold] at hc
    have hperiod : totalIntervals * distInterval = payoutPeriod := rfl
    have hs : (if 0 < surplus₀ then surplus₀ else 0) = surplus₀ := by
      split_ifs <;> omega
    have hp : (if 0 < surplus₀ then rp.proceeds + surplus₀ else rp.proceeds) =
        rp.proceeds + surplus₀ := by
      split_ifs <;> omega
    have hcur : ∀ e : ℤ, 0 ≤ e → (if 0 < e then rp.currentRateOfIncrease - e
        else rp.currentRateOfIncrease) = rp.currentRateOfIncrease - e := by
      intro e he
      split_ifs <;> omega
    rw [hperiod, hexpired, hs, hp, hcur _ hrate₀, hrate] at hc
    simp only [Prod.mk.injEq] at hc
    obtain ⟨rfl, rfl, rfl⟩ := hc
    refine ⟨⟨rfl, ?_, ?_, ?_, ?_, ?_, ?_, h.pending_nonneg, h.pending_zero, h.dvd_pending⟩,
      hkept, rfl, rfl, rfl, rfl⟩
    · exact fun b rate hb => h.rate_nonneg b rate ((hkept b rate).mp hb).1
    · exact fun b rate hb => h.le b rate ((hkept b rate).mp hb).1
    · exact fun b rate hb => h.dvd b rate ((hkept b rate).mp hb).1
    · exact fun b rate hb => oldestTime_le hb
    · exact fun b rate hb => h.lt_pending b rate ((hkept b rate).mp hb).1
    · show rp.proceeds + surplus₀ = rp.pendingBucketProceeds + _
      rw [howed, h.proceeds]
      ring
  · -- every bucket is younger than 30 days
    rw [if_neg hold] at hc
    simp only [Prod.mk.injEq] at hc
    obtain ⟨rfl, rfl, rfl⟩ := hc
    have hyoung : ∀ b rate, buckets.find b = some rate → eff < b + payoutPeriod := by
      intro b rate hb
      have := h.oldest_le b rate hb
      omega
    have hzero : surplus₀ = 0 := by
      refine Table.sum_eq_zero fun b rate hb => if_neg ?_
      have := hyoung b rate hb
      omega
    refine ⟨h, fun b rate => ⟨fun hb => ⟨hb, hyoung b rate hb⟩, fun hb => hb.1⟩, hzero.symm,
      (add_zero _).symm, rfl, rfl⟩

/-! ## An update -/

/-- The pool, the buckets and the amount to pay out, before the last step of `update` corrects
an amount that the proceeds do not cover. -/
def payout (eff : ℕ) (rp : RexReturnPool) (buckets : Table ℕ ℤ) :
    RexReturnPool × Table ℕ ℤ × ℤ :=
  let base := rp.currentRateOfIncrease * getElapsedIntervals eff rp.lastDistTime
  let (rp₁, buckets₁, opened) :=
    if rp.pendingBucketTime ≤ eff then openBucket eff rp buckets else (rp, buckets, 0)
  let rp₁ := { rp₁ with proceeds := rp₁.proceeds - (base + opened), lastDistTime := eff }
  let (rp₂, buckets₂, surplus) := closeBuckets eff rp₁ buckets₁
  (rp₂, buckets₂, base + opened - surplus)

/-- An update is a payout, corrected when the proceeds are negative. -/
theorem update_eq {ret : RexReturn} (hp : ret.pool = some rp) :
    ret.update now = if effectiveTime now ≤ rp.lastDistTime then (ret, 0) else
      let (rp₂, buckets₂, change) := payout (effectiveTime now) rp ret.buckets
      let (rp₃, change) :=
        if 0 < change ∧ rp₂.proceeds < 0 then
          ({ rp₂ with proceeds := 0 }, change + rp₂.proceeds)
        else (rp₂, change)
      (⟨some rp₃, buckets₂⟩, if 0 < change then change else 0) := by
  unfold update
  rw [hp]
  rfl

/-- The amount for each interval since the last update. -/
theorem Schedule.advance (h : Schedule t rp buckets) (ht : distInterval ∣ t) (hle : t ≤ eff) :
    Schedule eff { rp with
      proceeds := rp.proceeds - rp.currentRateOfIncrease * getElapsedIntervals eff t
      lastDistTime := eff } buckets := by
  refine ⟨h.rate, h.rate_nonneg, fun b rate hb => (h.le b rate hb).trans hle, h.dvd, h.oldest_le,
    h.lt_pending, ?_, h.pending_nonneg, h.pending_zero, h.dvd_pending⟩
  show rp.proceeds - _ = rp.pendingBucketProceeds + owed buckets eff
  rw [owed_advance h ht hle, h.proceeds]
  ring

/-- What is opened in an update and not yet closed: the buckets with what they pay at once. -/
theorem Ledger.opened (h : Ledger t rp buckets) (hle : rp.lastDistTime ≤ eff)
    (heff : eff < maximumTime) :
    ∃ rp₁ buckets₁ opened,
      (if rp.pendingBucketTime ≤ eff then openBucket eff rp buckets else (rp, buckets, 0)) =
        (rp₁, buckets₁, opened) ∧
      Schedule eff { rp₁ with
        proceeds := rp₁.proceeds -
          (rp.currentRateOfIncrease * getElapsedIntervals eff rp.lastDistTime + opened)
        lastDistTime := eff } buckets₁ ∧
      rp₁.proceeds = rp.proceeds ∧ eff ≤ rp₁.pendingBucketTime ∧
      (buckets₁.sum fun b rate => if b + payoutPeriod ≤ eff then
        rate * (getElapsedIntervals eff (b + payoutPeriod) : ℤ) else 0) ≤
        rp.currentRateOfIncrease * getElapsedIntervals eff rp.lastDistTime + opened := by
  have hadv := h.advance h.dvd_last hle
  -- a bucket is not paid more after its end than in the time since the last update
  have hold : (buckets.sum fun b rate => if b + payoutPeriod ≤ eff then
      rate * (getElapsedIntervals eff (b + payoutPeriod) : ℤ) else 0) ≤
      rp.currentRateOfIncrease * getElapsedIntervals eff rp.lastDistTime := by
    rw [h.rate, ← Table.sum_mul_right]
    refine Table.sum_le_sum fun b rate hb => ?_
    have hnonneg := h.rate_nonneg b rate hb
    split_ifs with hb'
    · refine mul_le_mul_of_nonneg_left (Int.ofNat_le.mpr ?_) hnonneg
      have hfresh := h.fresh b rate hb
      have := h.le b rate hb
      unfold getElapsedIntervals payoutPeriod totalIntervals distInterval at *
      omega
    · positivity
  by_cases hp : rp.pendingBucketTime ≤ eff
  · rw [if_pos hp]
    rcases hr : openBucket eff rp buckets with ⟨rp₁, buckets₁, opened⟩
    have hr' : openBucket eff { rp with
        proceeds := rp.proceeds - rp.currentRateOfIncrease *
          getElapsedIntervals eff rp.lastDistTime
        lastDistTime := eff } buckets = ({ rp₁ with
          proceeds := rp₁.proceeds - rp.currentRateOfIncrease *
            getElapsedIntervals eff rp.lastDistTime
          lastDistTime := eff }, buckets₁, opened) := by
      simp only [openBucket, Prod.mk.injEq] at hr ⊢
      obtain ⟨rfl, rfl, rfl⟩ := hr
      exact ⟨rfl, rfl, rfl⟩
    obtain ⟨hs, rate, hrate, hnew, hb₁, hle₁, hpend, hpro, -⟩ := hadv.openBucket hp heff hr'
    refine ⟨rp₁, buckets₁, opened, rfl, ?_, ?_, ?_, ?_⟩
    · simpa only [sub_sub] using hs
    · simpa using hpro
    · rw [show rp₁.pendingBucketTime = maximumTime from hpend]
      exact heff.le
    · rw [hb₁, Table.sum_set_new hnew]
      refine add_le_add hold (le_trans ?_ hle₁)
      split_ifs
      · refine mul_le_mul_of_nonneg_left (Int.ofNat_le.mpr ?_) hrate
        unfold getElapsedIntervals
        exact Nat.div_le_div_right (by omega)
      · positivity
  · rw [if_neg hp]
    refine ⟨rp, buckets, 0, rfl, ?_, rfl, ?_, ?_⟩
    · simpa using hadv
    · omega
    · simpa using hold

/-- **An update** keeps the ledger, and pays exactly what leaves the proceeds. -/
theorem Ledger.payout (h : Ledger t rp buckets) (heff : eff ≤ now)
    (hd : distInterval ∣ eff) (hlt : rp.lastDistTime < eff) (h30 : payoutPeriod ≤ eff)
    (hmax : eff < maximumTime) {rp₂ : RexReturnPool} {buckets₂ : Table ℕ ℤ} {change : ℤ}
    (hp : payout eff rp buckets = (rp₂, buckets₂, change)) :
    Ledger now rp₂ buckets₂ ∧ 0 ≤ change ∧ rp₂.proceeds = rp.proceeds - change ∧
      rp₂.lastDistTime = eff ∧
      ∀ b rate, buckets₂.find b = some rate → eff < b + payoutPeriod := by
  obtain ⟨rp₁, buckets₁, opened, ho, hs, hpro, hpend, hsur⟩ := h.opened hlt.le hmax
  simp only [RexReturn.payout, ho] at hp
  rcases hc : RexReturn.closeBuckets eff { rp₁ with
    proceeds := rp₁.proceeds -
      (rp.currentRateOfIncrease * getElapsedIntervals eff rp.lastDistTime + opened)
    lastDistTime := eff } buckets₁ with ⟨rp', buckets', surplus⟩
  rw [hc] at hp
  obtain ⟨hs₂, hkept, hsurplus, hpro₂, hlast₂, hpend₂⟩ := hs.closeBuckets h30 hc
  simp only [Prod.mk.injEq] at hp
  obtain ⟨rfl, rfl, rfl⟩ := hp
  dsimp only at hpro₂ hlast₂ hpend₂
  rw [← hsurplus] at hsur
  refine ⟨⟨hlast₂.symm ▸ hs₂, hlast₂.symm ▸ hd, ?_, ?_, ?_, ?_⟩, by omega, by omega, hlast₂, ?_⟩
  · intro b rate hb
    have := ((hkept b rate).mp hb).2
    rw [hlast₂]
    unfold getElapsedIntervals payoutPeriod totalIntervals distInterval at *
    omega
  · intro b rate hb
    exact (hs₂.le b rate hb).trans heff
  · rw [hlast₂, hpend₂]
    exact hpend
  · intro _
    rw [hlast₂]
    exact heff
  · exact fun b rate hb => ((hkept b rate).mp hb).2

theorem closeBuckets_subset {rp₂ : RexReturnPool} {buckets₂ : Table ℕ ℤ} {surplus : ℤ}
    (hc : closeBuckets eff rp buckets = (rp₂, buckets₂, surplus)) :
    rp₂.pendingBucketTime = rp.pendingBucketTime ∧
      ∀ b rate, buckets₂.find b = some rate → buckets.find b = some rate := by
  unfold RexReturn.closeBuckets at hc
  dsimp only at hc
  split at hc
  · simp only [Prod.mk.injEq] at hc
    obtain ⟨rfl, rfl, -⟩ := hc
    refine ⟨rfl, fun b rate hb => ?_⟩
    rw [Table.find_filter, Option.filter_eq_some_iff] at hb
    exact hb.1
  · simp only [Prod.mk.injEq] at hc
    obtain ⟨rfl, rfl, -⟩ := hc
    exact ⟨rfl, fun _ _ hb => hb⟩

/-- An update opens no bucket but the pending one, and leaves no bucket pending that is due. -/
theorem payout_subset {rp₂ : RexReturnPool} {buckets₂ : Table ℕ ℤ} {change : ℤ}
    (hp : RexReturn.payout eff rp buckets = (rp₂, buckets₂, change)) :
    rp₂.pendingBucketTime =
        (if rp.pendingBucketTime ≤ eff then maximumTime else rp.pendingBucketTime) ∧
      ∀ b rate, buckets₂.find b = some rate → buckets.find b = some rate ∨
        b = rp.pendingBucketTime ∧ rp.pendingBucketTime ≤ eff := by
  unfold RexReturn.payout at hp
  by_cases hpend : rp.pendingBucketTime ≤ eff
  · simp only [if_pos hpend, openBucket, Prod.mk.injEq] at hp
    obtain ⟨rfl, rfl, -⟩ := hp
    obtain ⟨h₁, h₂⟩ := closeBuckets_subset rfl
    refine ⟨h₁.trans (if_pos hpend).symm, fun b rate hb => ?_⟩
    have hb' := h₂ b rate hb
    rw [Table.find_set] at hb'
    split_ifs at hb' with he
    · exact .inr ⟨he, hpend⟩
    · exact .inl hb'
  · simp only [if_neg hpend, Prod.mk.injEq] at hp
    obtain ⟨rfl, rfl, -⟩ := hp
    obtain ⟨h₁, h₂⟩ := closeBuckets_subset rfl
    exact ⟨h₁.trans (if_neg hpend).symm, fun b rate hb => .inl (h₂ b rate hb)⟩

/-- A ledger that has been kept up to some time is one at every later time. -/
theorem Ledger.mono (h : Ledger t rp buckets) (ht : t ≤ now) : Ledger now rp buckets :=
  { h with
    le_now := fun b rate hb => (h.le_now b rate hb).trans ht
    last_le_now := fun hp => (h.last_le_now hp).trans ht }

theorem Ledger.proceeds_nonneg (h : Ledger t rp buckets) : 0 ≤ rp.proceeds := by
  rw [h.proceeds]
  refine add_nonneg h.pending_nonneg (Table.sum_nonneg fun b rate hb => ?_)
  have := h.fresh b rate hb
  exact mul_nonneg (h.rate_nonneg b rate hb) (by omega)

/-- **The first fee** opens the ledger. -/
theorem Ledger.first {fee : ℤ} (hf : 0 ≤ fee) (hnow : now + bucketInterval < maximumTime) :
    Ledger now ⟨nextBucketTime now, nextBucketTime now, 0, fee, 0, fee⟩ .empty := by
  have hlt := nextBucketTime_le now
  have hd := dvd_nextBucketTime now
  refine ⟨⟨rfl, ?_, ?_, ?_, ?_, ?_, ?_, hf, ?_, fun _ => hd⟩, hd, ?_, ?_, le_rfl, ?_⟩
  case refine_6 => exact (add_zero fee).symm
  case refine_7 =>
    intro he
    dsimp only at he
    omega
  case refine_10 =>
    intro he
    dsimp only at he
    omega
  all_goals
    intro b rate hb
    cases hb

/-- **A fee** goes to the pending bucket, which opens after all others. -/
theorem Ledger.addFee (h : Ledger t rp buckets) (ht : t ≤ now) {fee : ℤ} (hf : 0 ≤ fee)
    (hnow : now + bucketInterval < maximumTime) :
    Ledger now { rp with
      pendingBucketProceeds := rp.pendingBucketProceeds + fee
      proceeds := rp.proceeds + fee
      pendingBucketTime := if rp.pendingBucketTime = maximumTime then nextBucketTime now
        else rp.pendingBucketTime } buckets := by
  have hlt := nextBucketTime_le now
  have hgt := lt_nextBucketTime now
  refine ⟨⟨h.rate, h.rate_nonneg, h.le, h.dvd, h.oldest_le, ?_, ?_, ?_, ?_, ?_⟩, h.dvd_last,
    h.fresh, fun b rate hb => (h.le_now b rate hb).trans ht, ?_, ?_⟩
  · intro b rate hb
    have := h.le_now b rate hb
    have := h.lt_pending b rate hb
    dsimp only
    split_ifs <;> omega
  · have := h.proceeds
    dsimp only
    omega
  · have := h.pending_nonneg
    dsimp only
    omega
  · intro he
    dsimp only at he
    split_ifs at he <;> omega
  · intro he
    dsimp only at he ⊢
    split_ifs with hm
    · exact dvd_nextBucketTime now
    · exact h.dvd_pending hm
  · have := h.last_le
    have := h.last_le_now
    dsimp only
    split_ifs <;> omega
  · intro he
    dsimp only at he
    split_ifs at he <;> omega

/-! ## The return pool over time -/

/-- What the return pool holds. -/
def proceeds (ret : RexReturn) : ℤ := ret.pool.elim 0 RexReturnPool.proceeds

/-- The invariant of the return pool: once there is one, it keeps a ledger. -/
def Sound (now : ℕ) (ret : RexReturn) : Prop :=
  ∀ rp, ret.pool = some rp → Ledger now rp ret.buckets

theorem payoutPeriod_le (now : BlockTimestamp) : payoutPeriod ≤ effectiveTime now.sec := by
  have h₁ := now.epochSec_le_sec
  have h₂ := Nat.mod_lt now.sec (show 0 < distInterval by decide)
  unfold effectiveTime payoutPeriod totalIntervals distInterval BlockTimestamp.epochSec at *
  omega

theorem sec_add_bucketInterval_lt (now : BlockTimestamp) :
    now.sec + bucketInterval < maximumTime := by
  have := now.sec_lt
  unfold bucketInterval maximumTime secondsPerHour
  omega

theorem Sound.mono {ret : RexReturn} {t now : ℕ} (h : Sound t ret) (ht : t ≤ now) :
    Sound now ret := fun rp hp => (h rp hp).mono ht

theorem Sound.proceeds_nonneg {ret : RexReturn} {t : ℕ} (h : Sound t ret) : 0 ≤ ret.proceeds := by
  unfold proceeds
  cases hp : ret.pool with
  | none => exact le_rfl
  | some rp => exact (h rp hp).proceeds_nonneg

/-- The amount of an update is not negative and its payout covered by the proceeds. -/
theorem Sound.payout {ret : RexReturn} {t : ℕ} (h : Sound t ret) (now : BlockTimestamp)
    {rp : RexReturnPool} (hp : ret.pool = some rp)
    (hlt : rp.lastDistTime < effectiveTime now.sec) {rp₂ : RexReturnPool}
    {buckets₂ : Table ℕ ℤ} {change : ℤ}
    (ho : RexReturn.payout (effectiveTime now.sec) rp ret.buckets = (rp₂, buckets₂, change)) :
    Ledger now.sec rp₂ buckets₂ ∧ 0 ≤ change ∧ rp₂.proceeds = rp.proceeds - change ∧
      rp₂.lastDistTime = effectiveTime now.sec ∧
      ∀ b rate, buckets₂.find b = some rate → effectiveTime now.sec < b + payoutPeriod :=
  (h rp hp).payout (effectiveTime_le _) (dvd_effectiveTime _) hlt (payoutPeriod_le now)
    ((effectiveTime_le _).trans_lt ((Nat.le_add_right _ _).trans_lt
      (sec_add_bucketInterval_lt now))) ho

/-- The proceeds of a sound pool are never corrected. -/
theorem Sound.update_eq {ret : RexReturn} {t : ℕ} (h : Sound t ret) (now : BlockTimestamp)
    {rp : RexReturnPool} (hp : ret.pool = some rp)
    (hlt : rp.lastDistTime < effectiveTime now.sec) :
    ∃ rp₂ buckets₂ change, RexReturn.payout (effectiveTime now.sec) rp ret.buckets =
      (rp₂, buckets₂, change) ∧ ret.update now.sec = (⟨some rp₂, buckets₂⟩, change) := by
  rcases ho : RexReturn.payout (effectiveTime now.sec) rp ret.buckets with
    ⟨rp₂, buckets₂, change⟩
  obtain ⟨hl, hc, -, -, -⟩ := h.payout now hp hlt ho
  have hnonneg := hl.proceeds_nonneg
  refine ⟨rp₂, buckets₂, change, rfl, ?_⟩
  rw [RexReturn.update_eq hp, if_neg (by omega), ho]
  dsimp only
  rw [if_neg (by omega)]
  dsimp only
  congr 1
  split_ifs <;> omega

/-- **Updates** keep the ledger, and what they pay leaves the proceeds. -/
theorem Sound.update {ret : RexReturn} {t : ℕ} (h : Sound t ret) {now : BlockTimestamp}
    (ht : t ≤ now.sec) {ret' : RexReturn} {change : ℤ}
    (hu : ret.update now.sec = (ret', change)) :
    Sound now.sec ret' ∧ 0 ≤ change ∧ ret'.proceeds + change = ret.proceeds := by
  cases hp : ret.pool with
  | none =>
    simp only [RexReturn.update, hp, Prod.mk.injEq] at hu
    obtain ⟨rfl, rfl⟩ := hu
    exact ⟨h.mono ht, le_rfl, add_zero _⟩
  | some rp =>
    by_cases hlt : rp.lastDistTime < effectiveTime now.sec
    · obtain ⟨rp₂, buckets₂, change', ho, he⟩ := h.update_eq now hp hlt
      obtain ⟨hl, hc, hpro, -, -⟩ := h.payout now hp hlt ho
      rw [he] at hu
      simp only [Prod.mk.injEq] at hu
      obtain ⟨rfl, rfl⟩ := hu
      refine ⟨fun rp' hp' => ?_, hc, ?_⟩
      · cases hp'
        exact hl
      · simp only [proceeds, hp, Option.elim_some]
        omega
    · rw [RexReturn.update_eq hp, if_pos (by omega)] at hu
      simp only [Prod.mk.injEq] at hu
      obtain ⟨rfl, rfl⟩ := hu
      exact ⟨h.mono ht, le_rfl, add_zero _⟩

/-- **Fees** keep the ledger and join the proceeds. -/
theorem Sound.addFee {ret : RexReturn} {t : ℕ} (h : Sound t ret) {now : BlockTimestamp}
    (ht : t ≤ now.sec) {fee : ℤ} (hf : 0 ≤ fee) :
    Sound now.sec (ret.addFee now.sec fee) ∧
      (ret.addFee now.sec fee).proceeds = ret.proceeds + fee := by
  unfold RexReturn.addFee
  cases hp : ret.pool with
  | none =>
    refine ⟨fun rp hrp => ?_, ?_⟩
    · cases hrp
      exact .first hf (sec_add_bucketInterval_lt now)
    · simp [proceeds, hp]
  | some rp =>
    refine ⟨fun rp' hrp => ?_, ?_⟩
    · cases hrp
      exact (h rp hp).addFee ht hf (sec_add_bucketInterval_lt now)
    · simp [proceeds, hp]

/-- A multiple of the interval that is over is over at the start of the current interval. -/
theorem le_effectiveTime {b now : ℕ} (hb : distInterval ∣ b) (h : b ≤ now) :
    b ≤ effectiveTime now := by
  obtain ⟨m, rfl⟩ := hb
  unfold effectiveTime distInterval at *
  omega

theorem dvd_payoutPeriod : distInterval ∣ payoutPeriod := ⟨_, mul_comm _ _⟩

/-- **Everything is paid out** once every bucket, the pending one included, has been open for 30
days. -/
theorem Sound.proceeds_eq_zero {ret : RexReturn} {t : ℕ} (h : Sound t ret) {now : BlockTimestamp}
    {rp : RexReturnPool} (hp : ret.pool = some rp)
    (hpend : rp.pendingBucketTime = maximumTime ∨ rp.pendingBucketTime + payoutPeriod ≤ now.sec)
    (hold : ∀ b rate, ret.buckets.find b = some rate → b + payoutPeriod ≤ now.sec) :
    (ret.update now.sec).1.proceeds = 0 := by
  have hl := h rp hp
  have hmax := sec_add_bucketInterval_lt now
  have hle := effectiveTime_le now.sec
  -- at the start of the interval all buckets are 30 days old
  have hold' : ∀ b rate, ret.buckets.find b = some rate →
      b + payoutPeriod ≤ effectiveTime now.sec := by
    intro b rate hb
    exact le_effectiveTime (Nat.dvd_add (hl.dvd b rate hb) dvd_payoutPeriod) (hold b rate hb)
  have hpend' : rp.pendingBucketTime = maximumTime ∨
      rp.pendingBucketTime + payoutPeriod ≤ effectiveTime now.sec := by
    by_cases hm : rp.pendingBucketTime = maximumTime
    · exact .inl hm
    · have hle' := hpend.resolve_left hm
      exact .inr (le_effectiveTime (Nat.dvd_add (hl.dvd_pending hm) dvd_payoutPeriod) hle')
  by_cases hlt : rp.lastDistTime < effectiveTime now.sec
  · obtain ⟨rp₂, buckets₂, change, ho, he⟩ := h.update_eq now hp hlt
    obtain ⟨hl₂, -, -, -, hkept⟩ := h.payout now hp hlt ho
    obtain ⟨htime, hsub⟩ := payout_subset ho
    have hnone : owed buckets₂ rp₂.lastDistTime = 0 := by
      refine Table.sum_eq_zero fun b rate hb => ?_
      have hyoung := hkept b rate hb
      rcases hsub b rate hb with hb' | ⟨rfl, hb'⟩
      · have := hold' b rate hb'
        omega
      · rcases hpend' with hm | hm <;> omega
    have hpend₂ : rp₂.pendingBucketTime = maximumTime := by
      rw [htime]
      split_ifs with hif
      · rfl
      · rcases hpend' with hm | hm
        · exact hm
        · omega
    rw [he]
    show rp₂.proceeds = 0
    rw [hl₂.proceeds, hl₂.pending_zero hpend₂, hnone, add_zero]
  · rw [RexReturn.update_eq hp, if_pos (by omega)]
    have hnone : owed ret.buckets rp.lastDistTime = 0 := by
      refine Table.sum_eq_zero fun b rate hb => ?_
      have hfresh := hl.fresh b rate hb
      have hb' := hold' b rate hb
      unfold getElapsedIntervals payoutPeriod totalIntervals distInterval at *
      omega
    have hpend₂ : rp.pendingBucketTime = maximumTime := by
      rcases hpend' with hm | hm
      · exact hm
      · have := hl.last_le
        have : 0 < payoutPeriod := by decide
        omega
    show ret.proceeds = 0
    rw [proceeds, hp, Option.elim_some, hl.proceeds, hl.pending_zero hpend₂, hnone, add_zero]

/-- Nothing is due at the time `now`. -/
def Settled (now : ℕ) (ret : RexReturn) : Prop :=
  ∀ rp, ret.pool = some rp → effectiveTime now ≤ rp.lastDistTime

theorem Settled.update_eq {ret : RexReturn} {now : ℕ} (h : ret.Settled now) :
    ret.update now = (ret, 0) := by
  cases hp : ret.pool with
  | none => simp [RexReturn.update, hp]
  | some rp => rw [RexReturn.update_eq hp, if_pos (h rp hp)]

/-- An update pays all that is due. -/
theorem Sound.settled {ret : RexReturn} {t : ℕ} (h : Sound t ret) {now : BlockTimestamp}
    {ret' : RexReturn} {change : ℤ} (hu : ret.update now.sec = (ret', change)) :
    ret'.Settled now.sec := by
  cases hp : ret.pool with
  | none =>
    simp only [RexReturn.update, hp, Prod.mk.injEq] at hu
    obtain ⟨rfl, rfl⟩ := hu
    intro rp hrp
    rw [hp] at hrp
    cases hrp
  | some rp =>
    by_cases hlt : rp.lastDistTime < effectiveTime now.sec
    · obtain ⟨rp₂, buckets₂, change', ho, he⟩ := h.update_eq now hp hlt
      obtain ⟨-, -, -, hlast, -⟩ := h.payout now hp hlt ho
      rw [he] at hu
      simp only [Prod.mk.injEq] at hu
      obtain ⟨rfl, rfl⟩ := hu
      intro rp' hp'
      cases hp'
      exact hlast.ge
    · rw [RexReturn.update_eq hp, if_pos (by omega)] at hu
      simp only [Prod.mk.injEq] at hu
      obtain ⟨rfl, rfl⟩ := hu
      intro rp' hp'
      obtain rfl : rp = rp' := Option.some.inj (hp.symm.trans hp')
      omega

theorem Settled.addFee {ret : RexReturn} {now : ℕ} (h : ret.Settled now) (fee : ℤ) :
    (ret.addFee now fee).Settled now := by
  intro rp hrp
  unfold RexReturn.addFee at hrp
  cases hp : ret.pool with
  | none =>
    rw [hp] at hrp
    cases hrp
    exact (effectiveTime_le now).trans (lt_nextBucketTime now).le
  | some rp₀ =>
    rw [hp] at hrp
    cases hrp
    exact h rp₀ hp

theorem update_nonneg (ret : RexReturn) (now : ℕ) : 0 ≤ (ret.update now).2 := by
  cases hp : ret.pool with
  | none => simp [RexReturn.update, hp]
  | some rp =>
    rw [RexReturn.update_eq hp]
    split_ifs
    · exact le_rfl
    · dsimp only
      split_ifs <;> omega

end RexReturn

/-- What an update of the return pool does to the REX tables. -/
theorem RexState.updateRexPool_eq_ok {r r' : RexState} {now : ℕ}
    (h : r.updateRexPool now = .ok r') :
    ∃ ret change, r.ret.update now = (ret, change) ∧
      (change = 0 ∧ r' = { r with ret } ∨
        0 < change ∧ ∃ p, r.pool = some p ∧ r' = { r with
          ret
          pool := some { p with
            totalUnlent := p.totalUnlent + change
            totalLendable := p.totalUnlent + change + p.totalLent } }) := by
  have hnonneg := r.ret.update_nonneg now
  unfold updateRexPool at h
  rcases hu : r.ret.update now with ⟨ret, change⟩
  rw [hu] at h hnonneg
  dsimp only at h hnonneg
  refine ⟨ret, change, rfl, ?_⟩
  split_ifs at h with hc
  · simp only [getPool, bind_eq_ok, require_eq_ok, pure_eq_ok] at h
    obtain ⟨p, hp, rfl⟩ := h
    exact .inr ⟨hc, p, hp, rfl⟩
  · obtain rfl := pure_eq_ok.mp h
    exact .inl ⟨by omega, rfl⟩

/-! ## Runs -/

/-- A call of one of the two functions of the return pool; the state is that of REX and the sum of
the fees so far. -/
inductive ReturnStep (now : BlockTimestamp) : RexState × ℤ → RexState × ℤ → Prop
  | update {r r' : RexState} {fees : ℤ} (h : r.updateRexPool now.sec = .ok r') :
    ReturnStep now (r, fees) (r', fees)
  | addFee {r r' : RexState} {fees fee : ℤ} (h : r.addToRexReturnPool now.sec fee = .ok r') :
    ReturnStep now (r, fees) (r', fees + max fee 0)

/-- REX with the given pool, before the first fee. -/
def BeforeFees (p₀ : RexPool) (x : RexState × ℤ) : Prop :=
  x.1.pool = some p₀ ∧ x.1.ret = ⟨none, .empty⟩ ∧ x.2 = 0

/-- The invariant of a run: a sound return pool, and every fee is in it or has been credited. -/
def FeesKept (p₀ : RexPool) (t : BlockTimestamp) (x : RexState × ℤ) : Prop :=
  x.1.ret.Sound t.sec ∧
    ∃ p, x.1.pool = some p ∧ p.totalUnlent - p₀.totalUnlent + x.1.ret.proceeds = x.2

namespace FeesKept

variable {p₀ : RexPool} {t now : BlockTimestamp} {r r' : RexState} {fees : ℤ}

theorem update (h : FeesKept p₀ t (r, fees)) (ht : t ≤ now)
    (hu : r.updateRexPool now.sec = .ok r') : FeesKept p₀ now (r', fees) := by
  obtain ⟨hs, p, hp, hsum⟩ := h
  dsimp only at hs hp hsum
  obtain ⟨ret, change, hret, hcases⟩ := RexState.updateRexPool_eq_ok hu
  obtain ⟨hs', -, hpay⟩ := hs.update (BlockTimestamp.sec_mono ht) hret
  rcases hcases with ⟨hc, rfl⟩ | ⟨hc, p', hp', rfl⟩
  · refine ⟨hs', p, hp, ?_⟩
    dsimp only
    omega
  · obtain rfl : p = p' := Option.some.inj (hp.symm.trans hp')
    refine ⟨hs', _, rfl, ?_⟩
    dsimp only
    omega

theorem step {x x' : RexState × ℤ} (h : FeesKept p₀ t x) (ht : t ≤ now)
    (hstep : ReturnStep now x x') : FeesKept p₀ now x' := by
  cases hstep with
  | update hu => exact h.update ht hu
  | @addFee r r' fees fee hu =>
    simp only [RexState.addToRexReturnPool, bind_eq_ok, pure_eq_ok] at hu
    obtain ⟨r₁, hu₁, rfl⟩ := hu
    have h₁ := h.update ht hu₁
    split_ifs with hf
    · rw [max_eq_right hf, add_zero]
      exact h₁
    · obtain ⟨hs, p, hp, hsum⟩ := h₁
      dsimp only at hs hp hsum
      obtain ⟨hs', hpro⟩ := hs.addFee le_rfl (not_le.mp hf).le
      refine ⟨hs', p, hp, ?_⟩
      rw [max_eq_left (not_le.mp hf).le]
      dsimp only
      omega

end FeesKept

/-- A call of one of the two functions, with a fee or without. -/
def returnCall (now : BlockTimestamp) (fee : Option ℤ) (x : RexState × ℤ) :
    Except Error (RexState × ℤ) :=
  match fee with
  | none => (·, x.2) <$> x.1.updateRexPool now.sec
  | some fee => (·, x.2 + max fee 0) <$> x.1.addToRexReturnPool now.sec fee

theorem returnStep_of_call {now : BlockTimestamp} {fee : Option ℤ} {x x' : RexState × ℤ}
    (h : returnCall now fee x = .ok x') : ReturnStep now x x' := by
  cases fee with
  | none =>
    obtain ⟨r', hr, rfl⟩ := map_eq_ok.mp h
    exact .update hr
  | some fee =>
    obtain ⟨r', hr, rfl⟩ := map_eq_ok.mp h
    exact .addFee hr

/-- The REX tables of an example: a pool, and no fees yet. -/
def returnExampleStart : RexState × ℤ :=
  ({ RexState.empty with pool := some ⟨0, 1000, initTotalRent, 1000, 10000000, 0, 0⟩ }, 0)

/-- Two fees in one day, and an update in the middle of the 30 days and after them. -/
def returnExampleRun : Option (BlockTimestamp × RexState × ℤ) :=
  execAll returnCall (.ofSlot 0) [(.ofSlot 1, some 10000), (.ofSlot 7200, some 1),
    (.ofSlot 1000000, none), (.ofSlot 6000000, none)] returnExampleStart

end EosioSystem
