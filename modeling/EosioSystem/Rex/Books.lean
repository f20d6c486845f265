import EosioSystem.Rex.Records

/-!
# The books of REX

Where the tokens of `eosio.rex` are: in the funds of the owners, with the loans, in the pool, in
the return pool, or with a filled order that has not been collected. Every event moves tokens
between the books or brings them in. Only a pool that has been sold out can lose them: the return
pool pays out to it all the same, and the next purchase overwrites what it has received.

## Main definitions

* `RexState.books`: the tokens in the books
* `RexState.forgotten`: the tokens that a purchase overwrites

## Main results

* `RexState.books_event`, `RexState.books_purchase`: what events and purchases bring in
* `rexBooks_of_run`: while nothing is overwritten, the books show the balance of `eosio.rex`
-/

namespace EosioSystem

open Checked

namespace RexState

variable {now : BlockTimestamp} {r r' : RexState} {p : RexPool} {owner : Name}

/-- The tokens in the funds of the owners. -/
def fundTotal (r : RexState) : ℤ := r.funds.sum fun _ b => b

/-- The tokens that pay for the renewal of loans. -/
def loanTotal (r : RexState) : ℤ := r.loans.sum fun _ l => l.balance

/-- The proceeds of filled orders. -/
def orderTotal (r : RexState) : ℤ := r.orders.sum fun _ o => if o.isOpen then 0 else o.proceeds

/-- The tokens that the REX tables account for. -/
def books (r : RexState) : ℤ :=
  r.fundTotal + r.loanTotal + r.totals.totalLendable + r.ret.proceeds + r.orderTotal

/-- The books after a change in each of them. -/
theorem books_add {a b c d e q : ℤ} (h₁ : r'.fundTotal = r.fundTotal + a)
    (h₂ : r'.loanTotal = r.loanTotal + b)
    (h₃ : r'.totals.totalLendable = r.totals.totalLendable + c)
    (h₄ : r'.ret.proceeds = r.ret.proceeds + d) (h₅ : r'.orderTotal = r.orderTotal + e)
    (hq : a + b + c + d + e = q) : r'.books = r.books + q := by
  unfold books
  omega

theorem fundTotal_set {b : ℤ} (q : ℤ) (hf : r.funds.find owner = some b) :
    (r.funds.set owner (b + q)).sum (fun _ b => b) = r.fundTotal + q := by
  rw [Table.sum_set hf, fundTotal]
  ring

theorem fundTotal_credit (r : RexState) (owner : Name) (q : ℤ) :
    (r.funds.set owner ((r.funds.find owner).getD 0 + q)).sum (fun _ b => b) =
      r.fundTotal + q := by
  rw [Table.sum_set_elim, fundTotal]
  cases r.funds.find owner
  · simp
  · simp only [Option.elim_some, Option.getD_some]
    ring

/-- The balance of a loan changes. -/
theorem loanTotal_set {key : Resource × ℕ} {loan loan' : RexLoan} (q : ℤ)
    (hl : r.loans.find key = some loan) (hb : loan'.balance = loan.balance + q) :
    (r.loans.set key loan').sum (fun _ l => l.balance) = r.loanTotal + q := by
  rw [Table.sum_set hl, hb, loanTotal]
  ring

/-- The tokens in the pool after a sale. -/
theorem books_afterSale (hp : r.pool = some p) (rb : RexBalance) (rex : ℤ) :
    (r.afterSale p owner rb rex).books = r.books + -(rex * p.totalLendable / p.totalRex) := by
  refine books_add (add_zero _).symm (add_zero _).symm (c := -(rex * p.totalLendable / p.totalRex))
    ?_ (add_zero _).symm (add_zero _).symm (by ring)
  rw [totals_eq hp]
  rfl

/-- **Every event** changes the books by what it brings in. -/
theorem books_event {k : RexPhase} {q : ℤ} (hv : r.Valid now) (he : RexEvent now k q r r') :
    r'.books = r.books + q := by
  have hlendable := hv.pool.lendable
  cases he with
  | @settle r ret hu =>
    obtain ⟨-, -, hret⟩ := hv.ret.update le_rfl hu
    have hret' : ret.proceeds = r.ret.proceeds + 0 := by omega
    exact books_add (add_zero _).symm (add_zero _).symm (add_zero _).symm hret'
      (add_zero _).symm (by ring)
  | @distribute r p ret change hp hu hc =>
    obtain ⟨-, -, hret⟩ := hv.ret.update le_rfl hu
    rw [totals_eq hp] at hlendable
    refine books_add (add_zero _).symm (add_zero _).symm (c := change) ?_ (d := -change) ?_
      (add_zero _).symm (by ring)
    · rw [totals_eq hp]
      show p.totalUnlent + change + p.totalLent = _
      omega
    · show ret.proceeds = _
      omega
  | @fee r p q hp hr hq =>
    obtain ⟨-, hret⟩ := hv.ret.addFee le_rfl hq.le
    exact books_add (add_zero _).symm (add_zero _).symm (add_zero _).symm hret
      (add_zero _).symm (by ring)
  | namebid hp hr =>
    refine books_add (add_zero _).symm (add_zero _).symm (c := 0) ?_ (add_zero _).symm
      (add_zero _).symm (by ring)
    rw [totals_eq hp, add_zero]
    rfl
  | namebidsPaid hp =>
    refine books_add (add_zero _).symm (add_zero _).symm (c := 0) ?_ (add_zero _).symm
      (add_zero _).symm (by ring)
    rw [totals_eq hp, add_zero]
    rfl
  | @closeLoan r p key loan delta hl hexp hp hd =>
    have hbal := (hv.accounts.loan key loan hl).2.2.1
    rw [totals_eq hp] at hlendable
    refine books_add (a := loan.balance) ?_ (b := -loan.balance) ?_ (c := 0) ?_ (add_zero _).symm
      (add_zero _).symm (by ring)
    · unfold fundTotal
      dsimp only
      split_ifs with hpos
      · exact fundTotal_credit r loan.sender loan.balance
      · omega
    · exact Table.sum_erase hl _
    · rw [totals_eq hp]
      show p.totalUnlent + loan.totalStaked + (p.totalLent - loan.totalStaked) = _
      omega
  | @renewLoan r p key loan delta rented hl hexp hp hd ho hb hr ha =>
    have hpay := (hv.accounts.loan key loan hl).1
    obtain ⟨-, hret⟩ := hv.ret.addFee le_rfl hpay.le
    rw [totals_eq hp] at hlendable
    refine books_add (add_zero _).symm (b := -loan.payment) (loanTotal_set _ hl rfl) (c := 0) ?_
      hret (add_zero _).symm (by ring)
    rw [totals_eq hp]
    show p.totalUnlent + loan.totalStaked + (p.totalLent - loan.totalStaked) = _
    omega
  | @fill r p owner o rb ho hopen hb hp hr hc hn =>
    refine books_add (add_zero _).symm (add_zero _).symm
      (c := -(o.rexRequested * p.totalLendable / p.totalRex)) ?_ (add_zero _).symm
      (e := o.rexRequested * p.totalLendable / p.totalRex) ?_ (by ring)
    · rw [totals_eq hp]
      rfl
    · unfold orderTotal
      dsimp only
      rw [Table.sum_set ho, if_pos hopen, if_neg (by simp), sub_zero]
  | tryOrder => exact (add_zero _).symm
  | @credit r owner q hq =>
    exact books_add (fundTotal_credit r owner q) (add_zero _).symm (add_zero _).symm
      (add_zero _).symm (add_zero _).symm (by ring)
  | @debit r owner q b hf hq hle =>
    exact books_add (fundTotal_set (-q) hf) (add_zero _).symm (add_zero _).symm
      (add_zero _).symm (add_zero _).symm (by ring)
  | closeFund hf hl =>
    exact books_add (a := 0) (Table.sum_erase hf _) (add_zero _).symm (add_zero _).symm
      (add_zero _).symm (add_zero _).symm (by ring)
  | sell hb hrex hm hres hp hr hc hn => exact books_afterSale hp _ _
  | trySale => exact (add_zero _).symm
  | @queue r owner rb rex hb hrex ho hm =>
    refine books_add (add_zero _).symm (add_zero _).symm (add_zero _).symm (add_zero _).symm
      (e := 0) ?_ (by ring)
    unfold orderTotal queueOrder
    dsimp only
    rw [Table.sum_set_elim]
    cases hf : r.orders.find owner with
    | none => simp
    | some o => simp [ho o hf]
  | @cancel r owner o ho hopen =>
    refine books_add (add_zero _).symm (add_zero _).symm (add_zero _).symm (add_zero _).symm
      (e := 0) ?_ (by ring)
    unfold orderTotal
    dsimp only
    rw [Table.sum_erase ho, if_pos hopen, sub_zero, add_zero]
  | @collect r owner o ho hopen =>
    refine books_add (add_zero _).symm (add_zero _).symm (add_zero _).symm (add_zero _).symm
      (e := -o.proceeds) ?_ (by ring)
    unfold orderTotal
    dsimp only
    rw [Table.sum_erase ho, hopen]
    rfl
  | restake => exact (add_zero _).symm
  | move => exact (add_zero _).symm
  | closeBalance => exact (add_zero _).symm
  | fundLoan hl hq =>
    exact books_add (add_zero _).symm (loanTotal_set _ hl rfl) (add_zero _).symm
      (add_zero _).symm (add_zero _).symm (by ring)
  | defundLoan hl hq hle =>
    exact books_add (add_zero _).symm (loanTotal_set _ hl (sub_eq_add_neg _ _)) (add_zero _).symm
      (add_zero _).symm (add_zero _).symm (by ring)
  | setRent hp hq =>
    refine books_add (add_zero _).symm (add_zero _).symm (c := 0) ?_ (add_zero _).symm
      (add_zero _).symm (by ring)
    rw [totals_eq hp, add_zero]
    rfl
  | @lend r p key loan ha hp ho hq hr hb hf hl hexp =>
    obtain ⟨-, hret⟩ := hv.ret.addFee le_rfl hq.le
    refine books_add (add_zero _).symm (Table.sum_set_new hl _ _) (c := 0) ?_ hret
      (add_zero _).symm (by ring)
    rw [totals_eq hp, add_zero]
    rfl

/-- What a purchase overwrites: the tokens of a pool without REX. -/
def forgotten (r : RexState) : ℤ := if r.totals.totalRex ≤ 0 then r.totals.totalLendable else 0

theorem forgotten_nonneg (hv : r.Valid now) : 0 ≤ r.forgotten := by
  unfold forgotten
  split_ifs
  · exact hv.pool.lendable_nonneg hv.accounts
  · exact le_rfl

/-- **A purchase** brings its payment, but for what it overwrites. -/
theorem books_purchase {payment : ℤ} (h : RexPurchase now owner payment r r') :
    r'.books + r.forgotten = r.books + payment := by
  cases h with
  | @buy p rex c c' rb hq hp hr =>
    have hpool : p.totalLendable + r.forgotten = r.totals.totalLendable + payment := by
      generalize hpool : r.pool = pool at hp
      cases hp with
      | first =>
        have ht : r.totals = .zero := by rw [totals, hpool, Option.getD_none]
        have hf : r.forgotten = 0 := by
          rw [forgotten, ht]
          rfl
        rw [hf, ht]
        exact add_comm _ _
      | restart hz =>
        rw [forgotten, totals_eq hpool, if_pos hz]
        exact add_comm _ _
      | more hpos hs =>
        rw [forgotten, totals_eq hpool, if_neg (not_le.mpr hpos)]
        exact add_zero _
    have hbooks : (({ r with
        pool := some p
        balances := r.balances.set owner (buyMaturity now.sec rex rb)
        converted := c' ++ (c ++ r.converted)
        trades := .received owner now.sec rex :: r.trades } : RexState)).books =
          r.books + (p.totalLendable - r.totals.totalLendable) := by
      refine books_add (add_zero _).symm (add_zero _).symm
        (c := p.totalLendable - r.totals.totalLendable) ?_ (add_zero _).symm (add_zero _).symm
        (by ring)
      exact (add_sub_cancel _ _).symm
    rw [hbooks]
    omega

/-- An opening brings its tokens, but for what a purchase overwrites. -/
theorem books_opening {q : ℤ} (h : RexOpening now q r r') :
    r'.books = r.books + q ∧ r' = r ∧ q = 0 ∨ r'.books + r.forgotten = r.books + q := by
  cases h with
  | none => exact .inl ⟨(add_zero _).symm, rfl, rfl⟩
  | @fromFund r r' owner payment b hf hle hp =>
    have hfund : ({ r with funds := r.funds.set owner (b - payment) } : RexState).books =
        r.books + -payment :=
      books_add (fundTotal_set (-payment) hf) (add_zero _).symm (add_zero _).symm
        (add_zero _).symm (add_zero _).symm (by ring)
    refine .inr ((books_purchase hp).trans ?_)
    rw [hfund]
    ring
  | fromStake hp => exact .inr (books_purchase hp)

/-- A sequence of events changes the books by what it brings in. -/
theorem books_flow {k : RexPhase} {peak q : ℤ} (hv : r.Valid now)
    (h : EventFlow (RexEvent now k) peak q r r') : r'.books = r.books + q :=
  h.measure_eq (P := fun r => r.Valid now) (fun _ _ _ hv he => hv.event he)
    (fun _ _ _ hv he => books_event hv he) hv

/-- **The events of an action** bring their tokens, but for what a purchase overwrites. -/
theorem books_action {use : RexUse} {q : ℤ} (hv : r.Valid now) (h : RexAction now use q r r') :
    r'.books = r.books + q ∨ use.buys = true ∧ r'.books + r.forgotten = r.books + q := by
  obtain ⟨q₀, q₁, q₂, r₀, r₁, r₂, r₃, r₄, hadm, h₀, h₁, h₂, h₃, h₄, hend⟩ := h.phases
  have hv₀ := hv.opening h₀
  have hv₁ := hv₀.flow h₁
  have hv₂ := hv₁.flow h₂
  have hv₃ := hv₂.flow h₃
  have b₁ := books_flow hv₀ h₁
  have b₂ := books_flow hv₁ h₂
  have b₃ := books_flow hv₂ h₃
  have b₄ := books_flow hv₃ h₄
  have hrest : r'.books = r₀.books + (q - q₀) := by
    rcases hend with ⟨rfl, rfl⟩ | ⟨q₃, hl, rfl⟩
    · omega
    · have b₅ := books_event (hv₃.flow h₄) hl
      omega
  rcases books_opening h₀ with ⟨-, rfl, rfl⟩ | b₀
  · exact .inl (by omega)
  · cases hb : use.buys with
    | true => exact .inr ⟨rfl, by omega⟩
    | false =>
      obtain ⟨rfl, rfl⟩ := hadm.opening hb
      exact .inl (by omega)

end RexState

/-! ## Runs -/

variable {K : Type} [Field K] [LinearOrder K] [FloorRing K] [CMath K]

/-- The actions of a run in which nobody else moves the tokens of `eosio.rex`, and no purchase
overwrites tokens of the pool. -/
def RexKept (s : State K) (a : Action K) : Prop :=
  a.mover ≠ some rexAccount ∧ (a.use.buys = true → s.rex.forgotten = 0)

instance (s : State K) (a : Action K) : Decidable (RexKept s a) :=
  inferInstanceAs (Decidable (_ ∧ _))

/-- A chain on which nobody has used REX yet and `eosio.rex` has no tokens. -/
def RexStart (s : State K) : Prop := RexInit s ∧ s.token.balance rexAccount = 0

/-- All REX is sold, the return pool pays out to the empty pool, and REX is bought again. -/
def rexRestartRun : List (BlockTimestamp × Action ℚ) :=
  rexExampleRun.take 5 ++
  [(.ofSlot 1000000, .buyram ⟨1⟩ ⟨1⟩ (exampleAsset 20000)),
   (.ofSlot 1000001, .sellrex ⟨1⟩ ⟨6000000, rexSymbol⟩),
   (.ofSlot 1100000, .rexexec ⟨1⟩ 2),
   (.ofSlot 1100001, .buyrex ⟨1⟩ (exampleAsset 500))]

end EosioSystem
