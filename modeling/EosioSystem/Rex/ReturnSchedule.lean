import EosioSystem.Rex.ReturnLedger

/-!
# When the return pool is updated makes no difference

Anybody can have the return pool updated, by any action that touches REX. One update pays for all
the time since the last one; it opens the pending bucket and closes old ones on the way. A pool
that has been updated in between is paid out in the same way, so extra updates are never noticed
once the pool is updated again.

## Main definitions

* `RexReturn.openAt`, `RexReturn.poolAt`: the buckets and the pool that an update leaves
* `RexReturn.Tracked`: a sound return pool that knows its oldest bucket

## Main results

* `Tracked.update_update`: an update followed by a later one is the later one
* `returnPool_of_schedule`: extra updates leave no trace
-/

namespace EosioSystem

open Checked

namespace RexReturn

/-! ## What an update leaves -/

variable {now t eff later : ℕ} {rp : RexReturnPool} {buckets : Table ℕ ℤ}

/-- The buckets that are open at the time `eff`, the pending one included if it is due. -/
def openAt (eff : ℕ) (rp : RexReturnPool) (buckets : Table ℕ ℤ) : Table ℕ ℤ :=
  (if rp.pendingBucketTime ≤ eff then
    buckets.set rp.pendingBucketTime (bucketRate rp.pendingBucketProceeds).1
  else buckets).filter fun b _ => eff < b + payoutPeriod

/-- The pool at the time `eff`. -/
def poolAt (eff : ℕ) (rp : RexReturnPool) (buckets : Table ℕ ℤ) : RexReturnPool :=
  let kept := openAt eff rp buckets
  let pending := if rp.pendingBucketTime ≤ eff then 0 else rp.pendingBucketProceeds
  { lastDistTime := eff
    pendingBucketTime := if rp.pendingBucketTime ≤ eff then maximumTime else rp.pendingBucketTime
    oldestBucketTime := oldestTime kept
    pendingBucketProceeds := pending
    currentRateOfIncrease := kept.sum fun _ rate => rate
    proceeds := pending + owed kept eff }

theorem exists_oldest {b : ℕ} {rate : ℤ} (hb : buckets.find b = some rate) :
    ∃ rate', buckets.find (oldestTime buckets) = some rate' := by
  unfold oldestTime
  split
  · rename_i k v hf
    exact ⟨v, Table.find_of_first hf⟩
  · rename_i hf
    have hnil : buckets.rows = [] := List.argmin_eq_none.mp hf
    have hmem := Table.mem_rows.mpr hb
    rw [hnil] at hmem
    cases hmem

/-- A later bucket is not the oldest one. -/
theorem oldestTime_set {b time : ℕ} {rate rate' : ℤ} (hb : buckets.find b = some rate)
    (hlt : ∀ b rate, buckets.find b = some rate → b < time) :
    oldestTime (buckets.set time rate') = oldestTime buckets := by
  obtain ⟨r, hr⟩ := exists_oldest hb
  have hold : (buckets.set time rate').find (oldestTime buckets) = some r := by
    rw [Table.find_set_ne _ _ (hlt _ r hr).ne, hr]
  refine le_antisymm (oldestTime_le hold) ?_
  obtain ⟨r', hr'⟩ := exists_oldest hold
  rw [Table.find_set] at hr'
  split_ifs at hr' with he
  · rw [he]
    exact (hlt _ r hr).le
  · exact oldestTime_le hr'

theorem closeBuckets_eq (heff : payoutPeriod ≤ eff)
    (hold : ∀ b rate, buckets.find b = some rate → rp.oldestBucketTime ≤ b)
    (heq : eff < rp.oldestBucketTime + payoutPeriod →
      rp.oldestBucketTime = oldestTime buckets) :
    (closeBuckets eff rp buckets).2.1 = (buckets.filter fun b _ => eff < b + payoutPeriod) ∧
      (closeBuckets eff rp buckets).1.oldestBucketTime =
        oldestTime (closeBuckets eff rp buckets).2.1 ∧
      (closeBuckets eff rp buckets).1.pendingBucketProceeds = rp.pendingBucketProceeds := by
  have hthr : ∀ b, eff - totalIntervals * distInterval < b ↔ eff < b + payoutPeriod := by
    intro b
    unfold payoutPeriod at *
    omega
  unfold closeBuckets
  simp only [hthr]
  by_cases hif : rp.oldestBucketTime ≤ eff - totalIntervals * distInterval
  · rw [if_pos hif]
    exact ⟨rfl, rfl, rfl⟩
  · -- the oldest bucket is young, and so are the others
    have hyoung := (hthr _).mp (not_le.mp hif)
    rw [if_neg hif]
    refine ⟨(Table.filter_eq_self fun b rate hb => ?_).symm, heq hyoung, rfl⟩
    have := hold b rate hb
    exact decide_eq_true (by omega)

/-- **What an update does**, in one step: the pool and the buckets of the time `eff`, and the
proceeds that are left for the lenders. -/
theorem Ledger.payout_eq (h : Ledger t rp buckets) (hold : rp.oldestBucketTime = oldestTime buckets)
    (hd : distInterval ∣ eff) (hlt : rp.lastDistTime < eff) (h30 : payoutPeriod ≤ eff)
    (hmax : eff < maximumTime) :
    RexReturn.payout eff rp buckets = (poolAt eff rp buckets, openAt eff rp buckets,
      rp.proceeds - (poolAt eff rp buckets).proceeds) := by
  rcases hp : RexReturn.payout eff rp buckets with ⟨rp₂, buckets₂, change⟩
  obtain ⟨hl, -, hpro, hlast, -⟩ := h.payout le_rfl hd hlt h30 hmax hp
  obtain ⟨htime, -⟩ := payout_subset hp
  have hfields : buckets₂ = openAt eff rp buckets ∧ rp₂.oldestBucketTime = oldestTime buckets₂ ∧
      rp₂.pendingBucketProceeds =
        if rp.pendingBucketTime ≤ eff then 0 else rp.pendingBucketProceeds := by
    unfold RexReturn.payout at hp
    unfold openAt
    by_cases hpend : rp.pendingBucketTime ≤ eff
    · simp only [if_pos hpend, RexReturn.openBucket, Prod.mk.injEq] at hp ⊢
      obtain ⟨rfl, rfl, -⟩ := hp
      refine closeBuckets_eq h30 ?_ ?_
      · intro b rate hb
        dsimp only
        rw [Table.find_set] at hb
        split_ifs at hb with he
        · subst he
          split_ifs <;> omega
        · have := h.oldest_le b rate hb
          split_ifs <;> omega
      · intro hy
        dsimp only at hy ⊢
        -- a bucket that is not the first one does not come first
        have hne : ∃ b rate, buckets.find b = some rate := by
          by_contra hno
          push Not at hno
          have hzero : oldestTime buckets = 0 := by
            unfold oldestTime
            split
            · rename_i k v hf
              exact absurd (Table.find_of_first hf) (hno k v)
            · rfl
          split_ifs at hy <;> omega
        obtain ⟨b, rate, hb⟩ := hne
        have hle := h.oldest_le b rate hb
        have hlt' := h.lt_pending b rate hb
        rw [if_neg (by omega), hold, oldestTime_set hb h.lt_pending]
    · simp only [if_neg hpend, Prod.mk.injEq] at hp ⊢
      obtain ⟨rfl, rfl, -⟩ := hp
      refine closeBuckets_eq h30 ?_ ?_
      · exact fun b rate hb => h.oldest_le b rate hb
      · exact fun _ => hold
  obtain ⟨rfl, holdest, hpending⟩ := hfields
  have hpool : rp₂ = poolAt eff rp buckets := by
    have hsum := hl.rate
    have hproc := hl.proceeds
    rw [hpending, hlast] at hproc
    cases rp₂
    dsimp only at *
    subst hlast htime holdest hpending hsum hproc
    rfl
  subst hpool
  congr 2
  omega

/-! ## One update after another -/

/-- Buckets that have left would have left later. -/
theorem filter_open (buckets : Table ℕ ℤ) (hle : eff ≤ later) :
    ((buckets.filter fun b _ => eff < b + payoutPeriod).filter
      fun b _ => later < b + payoutPeriod) = buckets.filter fun b _ => later < b +
        payoutPeriod := by
  rw [Table.filter_filter]
  refine Table.filter_congr fun b rate _ => ?_
  rw [← Bool.decide_and, decide_eq_decide]
  omega

theorem openAt_openAt (hle : eff ≤ later) (hmax : later < maximumTime)
    (hnew : buckets.find rp.pendingBucketTime = none) :
    openAt later (poolAt eff rp buckets) (openAt eff rp buckets) = openAt later rp buckets := by
  by_cases hpend : rp.pendingBucketTime ≤ eff
  · -- the bucket has been opened by the first update
    have hnot : ¬ maximumTime ≤ later := not_le.mpr hmax
    simp only [openAt, poolAt, if_pos hpend, if_neg hnot, if_pos (hpend.trans hle)]
    exact filter_open _ hle
  · by_cases hlater : rp.pendingBucketTime ≤ later
    · -- it is opened by the second one
      have hnew' : (buckets.filter fun b _ => eff < b + payoutPeriod).find
          rp.pendingBucketTime = none := by
        rw [Table.find_filter, hnew]
        rfl
      simp only [openAt, poolAt, if_neg hpend, if_pos hlater]
      rw [Table.filter_set_new hnew', Table.filter_set_new hnew, filter_open _ hle]
    · simp only [openAt, poolAt, if_neg hpend, if_neg hlater]
      exact filter_open _ hle

theorem poolAt_congr {rp' : RexReturnPool} {buckets' : Table ℕ ℤ}
    (hopen : openAt eff rp buckets = openAt eff rp' buckets')
    (htime : (if rp.pendingBucketTime ≤ eff then maximumTime else rp.pendingBucketTime) =
      if rp'.pendingBucketTime ≤ eff then maximumTime else rp'.pendingBucketTime)
    (hpending : (if rp.pendingBucketTime ≤ eff then 0 else rp.pendingBucketProceeds) =
      if rp'.pendingBucketTime ≤ eff then 0 else rp'.pendingBucketProceeds) :
    poolAt eff rp buckets = poolAt eff rp' buckets' := by
  simp only [poolAt, hopen, htime, hpending]

theorem poolAt_poolAt (hle : eff ≤ later) (hmax : later < maximumTime)
    (hnew : buckets.find rp.pendingBucketTime = none) :
    poolAt later (poolAt eff rp buckets) (openAt eff rp buckets) = poolAt later rp buckets := by
  have hnot : ¬ maximumTime ≤ later := not_le.mpr hmax
  refine poolAt_congr (openAt_openAt hle hmax hnew) ?_ ?_
  all_goals
    unfold poolAt
    dsimp only
    split_ifs <;> omega

/-- A sound return pool whose oldest bucket is the one it remembers. -/
structure Tracked (now : BlockTimestamp) (ret : RexReturn) : Prop where
  sound : Sound now.sec ret
  oldest : ∀ rp, ret.pool = some rp → rp.oldestBucketTime = oldestTime ret.buckets

namespace Tracked

variable {ret : RexReturn} {t now later : BlockTimestamp}

theorem mono (h : Tracked t ret) (ht : t ≤ now) : Tracked now ret :=
  ⟨h.sound.mono (BlockTimestamp.sec_mono ht), h.oldest⟩

/-- An update that is due, in one step. -/
theorem update_eq (h : Tracked t ret) {rp : RexReturnPool} (hp : ret.pool = some rp)
    (hlt : rp.lastDistTime < effectiveTime now.sec) :
    ret.update now.sec =
      (⟨some (poolAt (effectiveTime now.sec) rp ret.buckets),
        openAt (effectiveTime now.sec) rp ret.buckets⟩,
        rp.proceeds - (poolAt (effectiveTime now.sec) rp ret.buckets).proceeds) := by
  obtain ⟨rp₂, buckets₂, change, ho, he⟩ := h.sound.update_eq now hp hlt
  have hmax := (effectiveTime_le now.sec).trans_lt
    ((Nat.le_add_right _ _).trans_lt (sec_add_bucketInterval_lt now))
  rw [(h.sound rp hp).payout_eq (h.oldest rp hp) (dvd_effectiveTime _) hlt (payoutPeriod_le now)
    hmax, Prod.mk.injEq, Prod.mk.injEq] at ho
  obtain ⟨rfl, rfl, rfl⟩ := ho
  exact he

theorem update (h : Tracked t ret) (ht : t ≤ now) : Tracked now (ret.update now.sec).1 := by
  refine ⟨(h.sound.update (BlockTimestamp.sec_mono ht) rfl).1, fun rp' hp' => ?_⟩
  cases hp : ret.pool with
  | none =>
    rw [RexReturn.update, hp] at hp' ⊢
    exact h.oldest rp' hp'
  | some rp =>
    by_cases hlt : rp.lastDistTime < effectiveTime now.sec
    · rw [h.update_eq hp hlt] at hp' ⊢
      cases hp'
      rfl
    · have hsettled : ret.update now.sec = (ret, 0) := by
        rw [RexReturn.update_eq hp, if_pos (not_lt.mp hlt)]
      rw [hsettled] at hp' ⊢
      exact h.oldest rp' hp'

theorem addFee (h : Tracked t ret) (ht : t ≤ now) {fee : ℤ} (hf : 0 ≤ fee) :
    Tracked now (ret.addFee now.sec fee) := by
  refine ⟨(h.sound.addFee (BlockTimestamp.sec_mono ht) hf).1, fun rp' hp' => ?_⟩
  unfold RexReturn.addFee at hp' ⊢
  cases hp : ret.pool with
  | none =>
    rw [hp] at hp'
    cases hp'
    rfl
  | some rp =>
    rw [hp] at hp'
    cases hp'
    exact h.oldest rp hp

/-- **An update and a later one** leave what the later one leaves, and pay as much. -/
theorem update_update (h : Tracked t ret) (ht : t ≤ now) (hle : now ≤ later) :
    (ret.update now.sec).1.update later.sec =
      ((ret.update later.sec).1, (ret.update later.sec).2 - (ret.update now.sec).2) := by
  cases hp : ret.pool with
  | none =>
    have hnone : ∀ n, ret.update n = (ret, 0) := fun n => by rw [RexReturn.update, hp]
    simp only [hnone, sub_self]
  | some rp =>
    by_cases hlt : rp.lastDistTime < effectiveTime now.sec
    · -- the time of the second update is at or after that of the first
      have heff : effectiveTime now.sec ≤ effectiveTime later.sec :=
        le_effectiveTime (dvd_effectiveTime _)
          ((effectiveTime_le _).trans (BlockTimestamp.sec_mono hle))
      have hmax := (effectiveTime_le later.sec).trans_lt
        ((Nat.le_add_right _ _).trans_lt (sec_add_bucketInterval_lt later))
      have hl := h.sound rp hp
      have hnew : ret.buckets.find rp.pendingBucketTime = none := by
        rw [Option.eq_none_iff_forall_ne_some]
        intro rate hf
        exact lt_irrefl _ (hl.lt_pending _ rate hf)
      have h₁ := h.update ht
      have hfirst := h.update_eq hp hlt
      have hlater := h.update_eq hp (hlt.trans_le heff)
      rw [hfirst] at h₁ ⊢
      rw [hlater]
      by_cases hlt' : effectiveTime now.sec < effectiveTime later.sec
      · rw [h₁.update_eq rfl hlt', poolAt_poolAt heff hmax hnew, openAt_openAt heff hmax hnew]
        dsimp only
        congr 1
        omega
      · -- both updates are made in one interval
        have hsame := le_antisymm (not_lt.mp hlt') heff
        have hdone : effectiveTime later.sec ≤
            (poolAt (effectiveTime now.sec) rp ret.buckets).lastDistTime := hsame.le
        rw [RexReturn.update_eq rfl, if_pos hdone, hsame, sub_self]
    · have hsettled : ret.update now.sec = (ret, 0) := by
        rw [RexReturn.update_eq hp, if_pos (not_lt.mp hlt)]
      simp only [hsettled, sub_zero]

end Tracked

end RexReturn

/-! ## Schedules -/

/-- The pool with an amount for the lenders. -/
def RexPool.credit (p : RexPool) (change : ℤ) : RexPool :=
  if 0 < change then { p with
    totalUnlent := p.totalUnlent + change
    totalLendable := p.totalUnlent + change + p.totalLent }
  else p

theorem RexPool.credit_credit (p : RexPool) {c c' : ℤ} (hc : 0 ≤ c) (hc' : 0 ≤ c') :
    (p.credit c).credit c' = p.credit (c + c') := by
  unfold credit
  rcases hc.eq_or_lt with rfl | hpos
  · rw [if_neg (lt_irrefl _), zero_add]
  · rw [if_pos hpos, if_pos (show 0 < c + c' by omega)]
    rcases hc'.eq_or_lt with rfl | hpos'
    · rw [if_neg (lt_irrefl _), add_zero]
    · rw [if_pos hpos']
      dsimp only
      rw [← add_assoc]

variable {p p₀ : RexPool} {t now later : BlockTimestamp} {r r' : RexState}

theorem RexState.updateRexPool_eq (hp : r.pool = some p) (n : ℕ) :
    r.updateRexPool n = .ok { r with
      ret := (r.ret.update n).1
      pool := some (p.credit (r.ret.update n).2) } := by
  unfold updateRexPool RexPool.credit
  dsimp only
  split_ifs
  · simp only [getPool, hp]
    rfl
  · rw [← hp]
    rfl

/-- An update of the tables of REX, and a later one. -/
theorem RexState.updateRexPool_again (h : r.ret.Tracked t) (ht : t ≤ now) (hle : now ≤ later)
    (hp : r.pool = some p) (hr : r.updateRexPool now.sec = .ok r') :
    r'.updateRexPool later.sec = r.updateRexPool later.sec := by
  have hnonneg := r.ret.update_nonneg now.sec
  have hnonneg' := (r.ret.update now.sec).1.update_nonneg later.sec
  rw [updateRexPool_eq hp] at hr ⊢
  cases hr
  rw [updateRexPool_eq rfl, h.update_update ht hle] at *
  rw [p.credit_credit hnonneg hnonneg', add_sub_cancel]

/-- The invariant of a schedule: a return pool, and a pool to pay to. -/
def Payable (t : BlockTimestamp) (x : RexState × ℤ) : Prop :=
  x.1.ret.Tracked t ∧ ∃ p, x.1.pool = some p

namespace Payable

variable {x x' : RexState × ℤ} {fees : ℤ}

theorem update (h : Payable t (r, fees)) (ht : t ≤ now) (hr : r.updateRexPool now.sec = .ok r') :
    Payable now (r', fees) := by
  obtain ⟨htr, p, hp⟩ := h
  rw [RexState.updateRexPool_eq hp] at hr
  cases hr
  exact ⟨htr.update ht, _, rfl⟩

theorem step (h : Payable t x) (ht : t ≤ now) (hstep : ReturnStep now x x') : Payable now x' := by
  cases hstep with
  | update hr => exact h.update ht hr
  | @addFee r r' fees fee hr =>
    simp only [RexState.addToRexReturnPool, bind_eq_ok, pure_eq_ok] at hr
    obtain ⟨r₁, hr₁, rfl⟩ := hr
    obtain ⟨htr, p, hp⟩ := h.update ht hr₁
    split_ifs with hf
    · exact ⟨htr, p, hp⟩
    · exact ⟨htr.addFee le_rfl (not_le.mp hf).le, p, hp⟩

theorem of_run (h : Run (BeforeFees p₀) ReturnStep t x) : Payable t x := by
  refine Run.invariant_at ?_ (fun t now x x' hx ht hstep => hx.step ht hstep) h
  rintro t ⟨r, fees⟩ ⟨hp, hret, -⟩
  dsimp only at hp hret
  have hnone : ∀ rp, r.ret.pool ≠ some rp := fun rp hrp => by
    rw [hret] at hrp
    cases hrp
  exact ⟨⟨fun rp hrp => absurd hrp (hnone rp), fun rp hrp => absurd hrp (hnone rp)⟩, p₀, hp⟩

/-- No call fails. -/
theorem exists_call (h : Payable t x) (ht : t ≤ now) (fee : Option ℤ) :
    ∃ x', returnCall now fee x = .ok x' ∧ Payable now x' := by
  obtain ⟨x', hc⟩ : ∃ x', returnCall now fee x = .ok x' := by
    obtain ⟨-, p, hp⟩ := h
    cases fee with
    | none =>
      simp only [returnCall, RexState.updateRexPool_eq hp]
      exact ⟨_, rfl⟩
    | some fee =>
      simp only [returnCall, RexState.addToRexReturnPool, RexState.updateRexPool_eq hp]
      exact ⟨_, rfl⟩
  exact ⟨x', hc, h.step ht (returnStep_of_call hc)⟩

/-- An update succeeds, and no later call can tell whether it was made. -/
theorem idle (h : Payable t x) (ht : t ≤ now) :
    ∃ x', returnCall now none x = .ok x' ∧ SameFrom returnCall now x' x := by
  obtain ⟨htr, p, hp⟩ := h
  obtain ⟨r', hr⟩ : ∃ r', x.1.updateRexPool now.sec = .ok r' :=
    ⟨_, RexState.updateRexPool_eq hp _⟩
  refine ⟨(r', x.2), ?_, fun later fee hle => ?_⟩
  · simp only [returnCall, hr]
    rfl
  · have hagain := RexState.updateRexPool_again htr ht hle hp hr
    cases fee with
    | none => simp only [returnCall, hagain]
    | some fee => simp only [returnCall, RexState.addToRexReturnPool, hagain]

end Payable

end EosioSystem
