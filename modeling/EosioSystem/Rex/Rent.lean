import EosioSystem.Rex.Records

/-!
# The rent price

The price of a loan is that of a market between `total_rent` and `total_unlent`. The rent side stays
positive as long as tokens are left on the other side when a loan expires; then no loan rents all of
the tokens. When everything outside of loans has been sold, which the reserve of a tenth of the
loans does not prevent if these are small, an expiring loan empties the rent side.

## Main definitions

* `RexState.Priced`: the invariant
* `RexState.Drained`: the states from which background work can empty the rent side

## Main results

* `RexState.Priced.action`: actions keep it, but for background work on a drained pool
* `rexRent_of_run`: the rent side in every reachable state
-/

namespace EosioSystem

open Checked

namespace RexState

variable {now : BlockTimestamp} {r r' : RexState} {p : RexPool} {owner : Name}

/-- The rent side of the market is not empty, and no loan has taken all of the other side. -/
structure Priced (r : RexState) : Prop where
  rent : ∀ p, r.pool = some p → 0 < p.totalRent
  left : ∀ x ∈ r.leftUnlent, 1 ≤ x

/-- Nothing is unlent or about to be paid out, and a loan has expired. -/
def Drained (now : BlockTimestamp) (r : RexState) : Prop :=
  (∃ p ∈ r.pool, p.totalUnlent = 0) ∧ (r.ret.update now.sec).2 = 0 ∧
    ∃ l ∈ r.loans.rows, l.2.expiration ≤ now.usec

instance (now : BlockTimestamp) (r : RexState) : Decidable (r.Drained now) :=
  inferInstanceAs (Decidable (_ ∧ _ ∧ _))

theorem Priced.congr (h : r.Priced) (hp : ∀ p', r'.pool = some p' → ∃ p, r.pool = some p ∧
    p'.totalRent = p.totalRent) (hl : r'.leftUnlent = r.leftUnlent) : r'.Priced := by
  refine ⟨fun p' hp' => ?_, hl ▸ h.left⟩
  obtain ⟨p, hpool, he⟩ := hp p' hp'
  exact he ▸ h.rent p hpool

theorem Priced.purchase {payment : ℤ} (h : r.Priced) (hbuy : RexPurchase now owner payment r r') :
    r'.Priced := by
  cases hbuy with
  | @buy p rex c c' rb hq hp hr =>
    refine ⟨fun p' hp' => ?_, h.left⟩
    obtain rfl : p = p' := Option.some.inj hp'
    generalize hpool : r.pool = pool at hp
    cases hp with
    | first => exact (by decide : 0 < initTotalRent)
    | restart => exact (by decide : 0 < initTotalRent)
    | @more p hpos hs => exact h.rent p hpool

theorem Priced.opening {q : ℤ} (h : r.Priced) (ho : RexOpening now q r r') : r'.Priced := by
  cases ho with
  | none => exact h
  | @fromFund r r' owner payment b hf hle hbuy =>
    have hfund : ({ r with funds := r.funds.set owner (b - payment) } : RexState).Priced :=
      ⟨h.rent, h.left⟩
    exact hfund.purchase hbuy
  | fromStake hbuy => exact h.purchase hbuy

/-- After an expired loan something is unlent. -/
theorem Priced.loan_event {q : ℤ} (h : r.Priced) (hv : r.Valid now)
    (he : RexEvent now .loan q r r') (hunlent : 0 < r.totals.totalUnlent) :
    r'.Priced ∧ 0 < r'.totals.totalUnlent := by
  cases he with
  | @closeLoan r p key loan delta hl hexp hp hd =>
    rw [totals_eq hp] at hunlent
    obtain ⟨h₁, h₂, -, -⟩ := hv.accounts.loan key loan hl
    have hdelta := getBancorOutput_lt hunlent (h.rent p hp) (by omega) hd
    refine ⟨⟨fun p' hp' => ?_, h.left⟩, ?_⟩
    · cases hp'
      show 0 < p.totalRent - delta
      omega
    · show 0 < p.totalUnlent + loan.totalStaked
      omega
  | @renewLoan r p key loan delta rented hl hexp hp hd ho hb hr ha =>
    rw [totals_eq hp] at hunlent
    obtain ⟨h₁, h₂, -, -⟩ := hv.accounts.loan key loan hl
    have hdelta := getBancorOutput_lt hunlent (h.rent p hp) (by omega) hd
    have hrented := getBancorOutput_lt (sub_pos.mpr hdelta) (by omega) h₁.le ho
    refine ⟨⟨fun p' hp' => ?_, fun x hx => ?_⟩, ?_⟩
    · cases hp'
      show 0 < p.totalRent - delta + loan.payment
      omega
    · rcases List.mem_cons.mp hx with rfl | hx
      · omega
      · exact h.left x hx
    · show 0 < p.totalUnlent + loan.totalStaked - rented
      omega

/-- **Every other event** keeps the price. -/
theorem Priced.event {k : RexPhase} {q : ℤ} (h : r.Priced) (hv : r.Valid now)
    (he : RexEvent now k q r r') (hk : k ≠ .loan) : r'.Priced := by
  cases he with
  | closeLoan => exact absurd rfl hk
  | renewLoan => exact absurd rfl hk
  | setRent hp hq =>
    refine ⟨fun p' hp' => ?_, h.left⟩
    cases hp'
    exact hq
  | @lend r p key loan ha hp ho hq hr hb hf hl hexp =>
    have hunlent := hv.pool.unlent_nonneg
    have hrent := h.rent p hp
    rw [totals_eq hp] at hunlent
    have hle := getBancorOutput_le hrent.le hunlent hq.le ho
    have hlt := getBancorOutput_lt hrent (by omega) hq.le ho
    refine ⟨fun p' hp' => ?_, fun x hx => ?_⟩
    · cases hp'
      show 0 < p.totalRent + loan.payment
      omega
    · rcases List.mem_cons.mp hx with rfl | hx
      · omega
      · exact h.left x hx
  | distribute hp | namebid hp | namebidsPaid hp =>
    refine h.congr (fun p' hp' => ?_) rfl
    cases hp'
    exact ⟨_, hp, rfl⟩
  | fill ho hopen hb hp | sell hb hrex hm hres hp =>
    refine h.congr (fun p' hp' => ?_) rfl
    cases hp'
    exact ⟨_, hp, rfl⟩
  | _ => exact h.congr (fun p' hp' => ⟨p', hp', rfl⟩) rfl

/-- Before loans are processed they stay as they are. -/
theorem loans_setup {peak q : ℤ} (h : EventFlow (RexEvent now .setup) peak q r r') :
    r'.loans = r.loans := by
  refine h.invariant (P := fun r₁ => r₁.loans = r.loans) (fun q r₁ r₂ hl he => ?_) rfl
  cases he <;> exact hl

theorem loans_opening {q : ℤ} (h : RexOpening now q r r') : r'.loans = r.loans := by
  cases h with
  | none => rfl
  | fromFund hf hle hbuy => cases hbuy with | buy => rfl
  | fromStake hbuy => cases hbuy with | buy => rfl

/-- Loans that have not expired are not processed. -/
theorem eq_of_unexpired {peak q : ℤ} (h : EventFlow (RexEvent now .loan) peak q r r')
    (hl : ∀ k l, r.loans.find k = some l → now.usec < l.expiration) : r' = r := by
  refine h.invariant (P := fun r₁ => r₁ = r) (fun q r₁ r₂ hr he => ?_) rfl
  subst hr
  cases he with
  | closeLoan hf hexp => exact absurd hexp (not_le.mpr (hl _ _ hf))
  | renewLoan hf hexp => exact absurd hexp (not_le.mpr (hl _ _ hf))

/-- Loans are processed when there is a pool. -/
theorem eq_of_no_pool {peak q : ℤ} (h : EventFlow (RexEvent now .loan) peak q r r')
    (hp : r.pool = none) : r' = r := by
  refine h.invariant (P := fun r₁ => r₁ = r) (fun q r₁ r₂ hr he => ?_) rfl
  subst hr
  cases he with
  | closeLoan hf hexp hp' => simp [hp] at hp'
  | renewLoan hf hexp hp' => simp [hp] at hp'

/-- What the return pool pays does not make a pool. -/
theorem pool_setup {peak q : ℤ} (h : EventFlow (RexEvent now .setup) peak q r r')
    (hp : r.pool = none) : r'.pool = none := by
  refine h.invariant (P := fun r₁ => r₁.pool = none) (fun q r₁ r₂ hr he => ?_) hp
  cases he <;> simp_all

/-- **An action** keeps the price, unless it is for background work on a drained pool. -/
theorem Priced.action {use : RexUse} {q : ℤ} (h : r.Priced) (hv : r.Valid now)
    (ha : RexAction now use q r r')
    (hd : use.maintains = true → use.buys = false → ¬r.Drained now) : r'.Priced := by
  obtain ⟨q₀, q₁, q₂, r₀, r₁, r₂, r₃, r₄, hadm, h₀, h₁, h₂, h₃, h₄, hend⟩ := ha.phases
  have hflow {k : RexPhase} (hk : k ≠ .loan) {peak q : ℤ} {r r' : RexState}
      (hf : EventFlow (RexEvent now k) peak q r r') (hr : r.Valid now) (hp : r.Priced) :
      r'.Priced :=
    (hf.invariant (P := fun r => r.Valid now ∧ r.Priced)
      (fun q r r' hr he => ⟨hr.1.event he, hr.2.event hr.1 he hk⟩) ⟨hr, hp⟩).2
  have hv₀ := hv.opening h₀
  have hv₁ := hv₀.flow h₁
  have hv₂ := hv₁.flow h₂
  have hp₁ := hflow (by simp) h₁ hv₀ (h.opening h₀)
  -- either something is unlent when the loans are processed, or none is
  have hloans : 0 < r₁.totals.totalUnlent ∨ r₂ = r₁ := by
    by_contra hno
    obtain ⟨hzero, hne⟩ := not_or.mp hno
    have hmain : use.maintains = true := by
      by_contra hm
      exact hne (hadm.loans (by simpa using hm))
    obtain ⟨hbought, hdue⟩ := hadm.due.resolve_left hne
    have hmono := unlent_mono_setup h₁
    have hpos : ¬0 < r₀.totals.totalUnlent := fun hpos => hzero (hpos.trans_le hmono)
    have hsome (r : RexState) (hr : r.pool = none → r₂ = r₁) : ∃ p, r.pool = some p :=
      Option.ne_none_iff_exists'.mp fun hnone => hne (hr hnone)
    obtain ⟨p₁, hp₁⟩ := hsome r₁ (eq_of_no_pool h₂)
    obtain ⟨p₀, hp₀⟩ := hsome r₀ fun hnone => eq_of_no_pool h₂ (pool_setup h₁ hnone)
    rw [totals_eq hp₀] at hpos
    cases hb : use.buys with
    | true => exact hpos (hbought hb p₀ hp₀)
    | false =>
      obtain ⟨-, rfl⟩ := hadm.opening hb
      have hunlent := hv.pool.unlent_nonneg
      have hret := r₀.ret.update_nonneg now.sec
      have hle := hdue p₁ hp₁
      rw [totals_eq hp₀] at hunlent
      rw [totals_eq hp₁] at hzero
      refine hd hmain hb ⟨⟨p₀, hp₀, by omega⟩, by omega, ?_⟩
      by_contra hexp
      refine hne (eq_of_unexpired h₂ fun k l hl => ?_)
      rw [loans_setup h₁] at hl
      by_contra hle
      exact hexp ⟨(k, l), Table.mem_rows.mpr hl, not_lt.mp hle⟩
  have hp₂ : r₂.Priced := by
    rcases hloans with hpos | rfl
    · exact (h₂.invariant (P := fun r => r.Valid now ∧ r.Priced ∧ 0 < r.totals.totalUnlent)
        (fun q r r' hr he => ⟨hr.1.event he, hr.2.1.loan_event hr.1 he hr.2.2⟩)
        ⟨hv₁, hp₁, hpos⟩).2.1
    · exact hp₁
  have hp₃ := hflow (by simp) h₃ hv₂ hp₂
  have hp₄ := hflow (by simp) h₄ (hv₂.flow h₃) hp₃
  rcases hend with ⟨-, rfl⟩ | ⟨q₃, hl, -⟩
  · exact hp₄
  · exact hp₄.event ((hv₂.flow h₃).flow h₄) hl (by simp)

end RexState

/-! ## Runs -/

variable {K : Type}

/-- The actions of a run at a given time that are not for background work on a drained pool. -/
def RentKept (now : BlockTimestamp) (s : State K) (a : Action K) : Prop :=
  a.use.maintains = true → a.use.buys = false → ¬s.rex.Drained now

instance (now : BlockTimestamp) (s : State K) (a : Action K) : Decidable (RentKept now s a) :=
  inferInstanceAs (Decidable (_ → _ → ¬_))

variable [Field K] [LinearOrder K] [FloorRing K] [CMath K]

/-- An account buys REX and rents CPU with it at a low price. -/
def rexRentRun : List (BlockTimestamp × Action ℚ) :=
  [(.ofSlot 1, .delegatebw ⟨1⟩ ⟨1⟩ (exampleAsset 500) (exampleAsset 300) false),
   (.ofSlot 1, .regproxy ⟨2⟩ true),
   (.ofSlot 2, .voteproducer ⟨1⟩ ⟨2⟩ []),
   (.ofSlot 3, .deposit ⟨1⟩ (exampleAsset 1000)),
   (.ofSlot 4, .buyrex ⟨1⟩ (exampleAsset 100)),
   (.ofSlot 5, .setrex (exampleAsset 10)),
   (.ofSlot 6, .rentRex .cpu ⟨1⟩ ⟨1⟩ (exampleAsset 1) (exampleAsset 0))]

/-- All that the small loan has left is sold, and then the loan expires. -/
def rexDrainRun : List (BlockTimestamp × Action ℚ) :=
  rexRentRun ++
  [(.ofSlot 1000000, .sellrex ⟨1⟩ ⟨910892, rexSymbol⟩),
   (.ofSlot 6000000, .rexexec ⟨1⟩ 2)]

end EosioSystem
