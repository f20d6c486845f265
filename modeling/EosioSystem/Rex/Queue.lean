import EosioSystem.Maintenance
import EosioSystem.Rex.Price

/-!
# Sell orders that wait

While a sell order waits nothing is lent: no loan is made or renewed, so the loans run out within
30 days. A maintenance with enough room then closes them all, and there are tokens for every order.
In general a maintenance with room for all orders leaves only those that the pool cannot pay.

## Main definitions

* `RexState.NothingLent`: every loan is one there was before, and no more is lent
* `RexState.Stuck`: the pool cannot pay the order of an account

## Main results

* `RexState.nothingLent_action`: an action that leaves an order open lends nothing
* `RexState.stuck_of_fillQueuedOrders`: what is left of the queue
* `ordersTried_of_run`: **no order that can be filled is left**
* `lendingFrozen_of_continued`: **orders are filled within 30 days**
-/

namespace EosioSystem

open Checked

namespace RexState

variable {now : BlockTimestamp} {r r₁ r' : RexState} {a : Name}

/-! ## Loans while an order waits -/

/-- The orders have been queued in the past. -/
def Timely (now : BlockTimestamp) (r : RexState) : Prop :=
  ∀ a o, r.orders.find a = some o → o.orderTime ≤ now.usec

theorem Timely.mono {t : BlockTimestamp} (h : r.Timely t) (ht : t ≤ now) : r.Timely now :=
  fun a o ho => (h a o ho).trans (usec_mono ht)

theorem Timely.opening {q : ℤ} (h : r.Timely now) (ho : RexOpening now q r r') :
    r'.Timely now := by
  cases ho with
  | none => exact h
  | fromFund hf hle hp => cases hp with | buy => exact h
  | fromStake hp => cases hp with | buy => exact h

theorem Timely.set (h : r.Timely now) {o : RexOrder} {b : Name}
    (hr : r'.orders = r.orders.set b o) (ho : o.orderTime ≤ now.usec) : r'.Timely now := by
  intro c o' hc
  rw [hr, Table.find_set] at hc
  split_ifs at hc
  · exact Option.some.inj hc ▸ ho
  · exact h c o' hc

theorem Timely.erase (h : r.Timely now) (b : Name) (hr : r'.orders = r.orders.erase b) :
    r'.Timely now := by
  intro c o' hc
  rw [hr, Table.find_erase] at hc
  split_ifs at hc
  exact h c o' hc

theorem Timely.event {k : RexPhase} {q : ℤ} (h : r.Timely now) (he : RexEvent now k q r r') :
    r'.Timely now := by
  cases he with
  | @fill r p owner o rb ho => exact h.set rfl (h owner o ho)
  | @queue r owner rb rex hb hrex ho =>
    refine h.set rfl ?_
    cases hf : r.orders.find owner with
    | none => exact le_rfl
    | some o => exact h owner o hf
  | cancel | collect => exact h.erase _ rfl
  | _ => exact h

/-- Loans are available only when no order waits: a time of the chain is before the end of the
index, where the filled orders are. -/
theorem not_open_of_loansAvailable (ht : r.Timely now) (h : r.loansAvailable = true)
    {o : RexOrder} (ho : r.orders.find a = some o) : o.isOpen = false := by
  unfold loansAvailable at h
  obtain ⟨-, h⟩ := Bool.and_eq_true_iff.mp h
  cases hf : r.orders.first fun a o => toLex (byTime a o, a.value) with
  | none => exact absurd (ho.symm.trans (Table.find_of_first_none hf a)) (Option.some_ne_none o)
  | some first =>
    obtain ⟨b, o₁⟩ := first
    rw [hf] at h
    have hclosed : o₁.isOpen = false := by simpa using h
    by_contra hopen
    have hopen : o.isOpen = true := by simpa using hopen
    have hle := Table.key_first_le hf ho
    have htime := ht a o ho
    have hslot := now.slot_lt
    have hlast : byTime b o₁ ≤ byTime a o := by
      rcases Prod.Lex.toLex_le_toLex.mp hle with hlt | ⟨heq, -⟩
      · exact hlt.le
      · exact heq.le
    unfold byTime at hlast
    rw [hclosed, hopen, if_neg Bool.false_ne_true, if_pos rfl] at hlast
    unfold BlockTimestamp.usec BlockTimestamp.epochSec at htime
    omega

/-- Every loan is one there was, with the same tokens and the same term, and no more is lent. -/
structure NothingLent (r r' : RexState) : Prop where
  loans : ∀ k l', r'.loans.find k = some l' → ∃ l, r.loans.find k = some l ∧
    l'.totalStaked = l.totalStaked ∧ l'.expiration = l.expiration
  lent : r'.totals.totalLent ≤ r.totals.totalLent

theorem NothingLent.of_loans (h : r'.loans = r.loans)
    (hl : r'.totals.totalLent ≤ r.totals.totalLent) : r.NothingLent r' :=
  ⟨fun _ l' hk => ⟨l', h ▸ hk, rfl, rfl⟩, hl⟩

theorem NothingLent.trans (h₁ : r.NothingLent r₁) (h₂ : r₁.NothingLent r') : r.NothingLent r' := by
  refine ⟨fun k l' hk => ?_, h₂.lent.trans h₁.lent⟩
  obtain ⟨l₁, hk₁, hs₁, he₁⟩ := h₂.loans k l' hk
  obtain ⟨l, hk, hs, he⟩ := h₁.loans k l₁ hk₁
  exact ⟨l, hk, hs₁.trans hs, he₁.trans he⟩

/-- A loan that keeps its tokens and its term. -/
theorem NothingLent.of_set {key : Resource × ℕ} {l l' : RexLoan} (hl : r.loans.find key = some l)
    (hr : r'.loans = r.loans.set key l') (hs : l'.totalStaked = l.totalStaked)
    (he : l'.expiration = l.expiration) (hlent : r'.totals.totalLent ≤ r.totals.totalLent) :
    r.NothingLent r' := by
  refine ⟨fun _ l₁ hk => ?_, hlent⟩
  rw [hr, Table.find_set] at hk
  split_ifs at hk with hkey
  · exact ⟨l, hkey ▸ hl, Option.some.inj hk ▸ hs, Option.some.inj hk ▸ he⟩
  · exact ⟨l₁, hk, rfl, rfl⟩

/-- **An event** lends something only if loans are available. -/
theorem nothingLent_event {k : RexPhase} {q : ℤ} (hv : r.Valid now) (he : RexEvent now k q r r')
    (hno : k = .loan ∨ k = .lend → r.loansAvailable = false) : r.NothingLent r' := by
  cases he with
  | @closeLoan r p key loan _ hl hexp hp =>
    have hloan := hv.accounts.loan key loan hl
    refine ⟨fun k l' hk => ?_, ?_⟩
    · rw [Table.find_erase] at hk
      split_ifs at hk
      exact ⟨l', hk, rfl, rfl⟩
    · rw [totals_eq hp]
      show p.totalLent - loan.totalStaked ≤ p.totalLent
      omega
  | renewLoan hl hexp hp hd ho hb hr ha =>
    rw [hno (.inl rfl)] at ha
    cases ha
  | lend ha =>
    rw [hno (.inr rfl)] at ha
    cases ha
  | fundLoan hl | defundLoan hl => exact .of_set hl rfl rfl rfl le_rfl
  | distribute hp | namebid hp | namebidsPaid hp | setRent hp =>
    refine .of_loans rfl ?_
    rw [totals_eq hp]
    exact le_rfl
  | fill ho hopen hb hp | sell hb hrex hm hres hp =>
    refine .of_loans rfl ?_
    rw [totals_eq hp]
    exact le_rfl
  | _ => exact .of_loans rfl le_rfl

theorem nothingLent_purchase {owner : Name} {payment : ℤ} (hv : r.Valid now)
    (h : RexPurchase now owner payment r r') : r.NothingLent r' := by
  have hlent := hv.pool.lent_nonneg hv.accounts
  cases h with
  | @buy p rex c c' rb hq hp hr =>
    refine .of_loans rfl ?_
    generalize hpool : r.pool = pool at hp
    cases hp with
    | first => exact hlent
    | restart => exact hlent
    | more =>
      rw [totals_eq hpool]
      exact le_rfl

theorem nothingLent_opening {q : ℤ} (hv : r.Valid now) (h : RexOpening now q r r') :
    r.NothingLent r' := by
  cases h with
  | none => exact .of_loans rfl le_rfl
  | fromFund hf hle hp =>
    have hbuy := nothingLent_purchase (hv.setFund hle) hp
    exact ⟨hbuy.loans, hbuy.lent⟩
  | fromStake hp => exact nothingLent_purchase hv hp

/-- Orders are filled, queued and collected, and no other event is about them. -/
theorem orders_event {k : RexPhase} {q : ℤ} (he : RexEvent now k q r r')
    (hk : k = .setup ∨ k = .loan ∨ k = .lend) : r'.orders = r.orders := by
  cases he <;> first | rfl | simp at hk

theorem orders_opening {q : ℤ} (h : RexOpening now q r r') : r'.orders = r.orders := by
  cases h with
  | none => rfl
  | fromFund hf hle hp => cases hp with | buy => rfl
  | fromStake hp => cases hp with | buy => rfl

/-- An order of the account waits. -/
def Waits (r : RexState) (a : Name) : Prop := ∃ o, r.orders.find a = some o ∧ o.isOpen = true

theorem Waits.loansAvailable (h : r.Waits a) (ht : r.Timely now) : r.loansAvailable = false := by
  obtain ⟨o, ho, hopen⟩ := h
  by_contra hav
  have hclosed := not_open_of_loansAvailable ht (by simpa using hav) ho
  exact absurd (hclosed.symm.trans hopen) Bool.false_ne_true

/-- The events of a phase lend nothing, if it is for expired loans while an order waits. -/
theorem nothingLent_flow {k : RexPhase} {peak q : ℤ} (hv : r.Valid now) (ht : r.Timely now)
    (hf : EventFlow (RexEvent now k) peak q r r') (hk : k ≠ .lend) (hw : k = .loan → r.Waits a) :
    r'.Valid now ∧ r'.Timely now ∧ r.NothingLent r' ∧
      (k = .setup ∨ k = .loan → r'.orders = r.orders) := by
  refine hf.invariant (P := fun r₁ => r₁.Valid now ∧ r₁.Timely now ∧ r.NothingLent r₁ ∧
    (k = .setup ∨ k = .loan → r₁.orders = r.orders)) (fun q r₁ r₂ hr he => ?_)
    ⟨hv, ht, .of_loans rfl le_rfl, fun _ => rfl⟩
  obtain ⟨hv₁, ht₁, hl₁, ho₁⟩ := hr
  refine ⟨hv₁.event he, ht₁.event he, hl₁.trans (nothingLent_event hv₁ he ?_), fun hk' => ?_⟩
  · rintro (rfl | rfl)
    · obtain ⟨o, ho, hopen⟩ := hw rfl
      have hw₁ : r₁.Waits a := ⟨o, ho₁ (.inr rfl) ▸ ho, hopen⟩
      exact hw₁.loansAvailable ht₁
    · exact absurd rfl hk
  · rw [orders_event he (hk'.imp_right .inl), ho₁ hk']

/-- **An action that leaves an order open** lends nothing. -/
theorem nothingLent_action {use : RexUse} {q : ℤ} (hv : r.Valid now) (ht : r.Timely now)
    (ha : RexAction now use q r r') (hw : r.Waits a) (hw' : r'.Waits a) : r.NothingLent r' := by
  obtain ⟨q₀, q₁, q₂, r₀, r₁, r₂, r₃, r₄, -, h₀, h₁, h₂, h₃, h₄, hend⟩ := ha.phases
  obtain ⟨hv₁, ht₁, hl₁, ho₁⟩ := nothingLent_flow (a := a) (hv.opening h₀) (ht.opening h₀) h₁
    (by simp) (fun h => by cases h)
  have horders : r₁.orders = r.orders := (ho₁ (.inl rfl)).trans (orders_opening h₀)
  have hw₁ : r₁.Waits a := hw.imp fun _ ho => horders.symm ▸ ho
  obtain ⟨hv₂, ht₂, hl₂, -⟩ := nothingLent_flow hv₁ ht₁ h₂ (by simp) fun _ => hw₁
  obtain ⟨hv₃, ht₃, hl₃, -⟩ := nothingLent_flow (a := a) hv₂ ht₂ h₃ (by simp) (fun h => by cases h)
  obtain ⟨hv₄, ht₄, hl₄, -⟩ := nothingLent_flow (a := a) hv₃ ht₃ h₄ (by simp) (fun h => by cases h)
  have hall := (((nothingLent_opening hv h₀).trans hl₁).trans hl₂).trans (hl₃.trans hl₄)
  rcases hend with ⟨-, rfl⟩ | ⟨q₃, hl, -⟩
  · exact hall
  · -- the order waits when the new loan would be made
    have hw₄ : r₄.Waits a := hw'.imp fun _ ho => orders_event hl (.inr (.inr rfl)) ▸ ho
    exact hall.trans (nothingLent_event hv₄ hl fun _ => hw₄.loansAvailable ht₄)

/-! ## What the pool can pay -/

/-- The pool cannot pay the order of an account. -/
def Stuck (r : RexState) (a : Name) : Prop :=
  ∀ o p, r.orders.find a = some o → o.isOpen = true → r.pool = some p → ¬p.Covers o.rexRequested

/-- **An order that could not be paid** cannot be paid after another one has been. -/
theorem Stuck.event {q : ℤ} (h : r.Stuck a) (hv : r.Valid now) (he : RexEvent now .fill q r r') :
    r'.Stuck a := by
  have hdear := dear_event hv he
  have hv' := hv.event he
  intro o' p' ho' hopen' hp' hc
  obtain ⟨p₁, hp₁, hpos'⟩ := pool_of_open hv' ho' hopen'
  obtain rfl : p₁ = p' := Option.some.inj (hp₁.symm.trans hp')
  have hreq := hv'.accounts.requested_pos a o' ho' hopen'
  cases he with
  | @fill r p owner o rb ho hopen hb hp hr hcov =>
    have ha : r.orders.find a = some o' := by
      rw [Table.find_set] at ho'
      split_ifs at ho'
      · exact absurd hopen' (by rw [← Option.some.inj ho']; exact Bool.false_ne_true)
      · exact ho'
    refine h o' p ha hopen' hp ?_
    -- the order is worth no less, and there are fewer tokens for it
    have hprice := hdear.price
    have hR : 0 < p.totalRex := by
      have := hdear.rex
      rw [totals_eq hp, totals_eq hp'] at this
      omega
    unfold WorthKept at hprice
    rw [totals_eq hp, totals_eq hp'] at hprice
    have hvalue := Shares.value_le_value hreq.le hR hpos' hprice
    have hlendable := (lendable_eq hv hp).1
    have hpaid := hv.pool.value_nonneg hv.accounts hp
      (hv.accounts.requested_pos owner o ho hopen).le hR.ne'
    have hunlent : p₁.totalUnlent ≤ p.totalUnlent ∧ p₁.totalLent = p.totalLent := by
      cases hp'
      refine ⟨?_, rfl⟩
      show p.totalLendable - _ - p.totalLent ≤ p.totalUnlent
      omega
    unfold RexPool.Covers at hc ⊢
    rw [hunlent.2] at hc
    omega
  | tryOrder ho hopen hb hp hr hcov => exact h o' p₁ ho' hopen' hp' hc

theorem Stuck.flow {peak q : ℤ} (h : r.Stuck a) (hv : r.Valid now)
    (hf : EventFlow (RexEvent now .fill) peak q r r') : r'.Stuck a :=
  (hf.invariant (P := fun r => r.Valid now ∧ r.Stuck a)
    (fun _ _ _ hr he => ⟨hr.1.event he, hr.2.event hr.1 he⟩) ⟨hv, h⟩).2

/-- An order that is tried is filled or cannot be paid. -/
theorem stuck_of_fillQueuedOrder (hv : r.Valid now) (h : r.fillQueuedOrder a = .ok r') :
    r'.Stuck a := by
  unfold fillQueuedOrder at h
  split at h
  · rename_i o rb ho hb
    obtain ⟨⟨r₁, result⟩, hf, h⟩ := bind_eq_ok.mp h
    obtain ⟨p, hp, hrex, ⟨hc, rfl, rfl⟩ | ⟨hc, rfl, rfl⟩⟩ := fillRexOrder_eq_ok hf
    · obtain rfl := pure_eq_ok.mp h
      intro o' p' ho' hopen' hp'
      obtain rfl := Option.some.inj ((Table.find_set_self _ _ _).symm.trans ho')
      cases hopen'
    · obtain rfl := pure_eq_ok.mp h
      intro o' p' ho' hopen' hp'
      obtain rfl : o = o' := Option.some.inj (ho.symm.trans ho')
      obtain rfl : p = p' := Option.some.inj (hp.symm.trans hp')
      exact hc
  · rename_i hno
    obtain rfl := pure_eq_ok.mp h
    intro o p ho hopen hp
    obtain ⟨rb, hb⟩ := hv.accounts.owner a o ho
    exact absurd hb (hno o rb ho)

theorem stuck_of_fillQueuedOrders {l : List Name} (hv : r.Valid now) (hr : r.Ready now)
    (hl : l.Nodup) (hopen : ∀ b ∈ l, r.Waits b) (h : r.fillQueuedOrders l = .ok r') :
    ∀ b ∈ l, r'.Stuck b := by
  induction l generalizing r with
  | nil => exact fun b hb => absurd hb List.not_mem_nil
  | cons a l ih =>
    obtain ⟨r₁, h₁, h₂⟩ := bind_eq_ok.mp h
    obtain ⟨o, ho, hopen₁⟩ := hopen a List.mem_cons_self
    obtain ⟨hf₁, hr₁, hframe⟩ := fillQueuedOrder_event hr ho hopen₁ h₁
    have hv₁ := hv.flow hf₁
    have hrest : ∀ b ∈ l, r₁.Waits b := by
      intro b hb
      rw [Waits, hframe b fun he => (List.nodup_cons.mp hl).1 (he ▸ hb)]
      exact hopen b (List.mem_cons_of_mem _ hb)
    obtain ⟨hf₂, -⟩ := fillQueuedOrders_flow hr₁ (List.nodup_cons.mp hl).2 hrest h₂
    intro b hb
    rcases List.mem_cons.mp hb with rfl | hb
    · exact (stuck_of_fillQueuedOrder hv h₁).flow hv₁ hf₂
    · exact ih hv₁ hr₁ (List.nodup_cons.mp hl).2 hrest h₂ b hb

/-- The queue keeps its orders, and none of them is opened again. -/
theorem waits_of_fill {peak q : ℤ} (hf : EventFlow (RexEvent now .fill) peak q r r') (b : Name) :
    (r'.orders.find b).isSome = (r.orders.find b).isSome ∧ (r'.Waits b → r.Waits b) := by
  refine hf.invariant (P := fun r₁ => (r₁.orders.find b).isSome = (r.orders.find b).isSome ∧
    (r₁.Waits b → r.Waits b)) (fun q r₁ r₂ hr he => ?_) ⟨rfl, id⟩
  cases he with
  | @fill r p owner o rb ho =>
    obtain ⟨hsome, hw⟩ := hr
    rw [Waits, Table.find_set]
    split_ifs with hb
    · subst hb
      rw [ho] at hsome
      refine ⟨hsome, ?_⟩
      rintro ⟨o', ho', hopen'⟩
      rw [← Option.some.inj ho'] at hopen'
      cases hopen'
    · exact ⟨hsome, hw⟩
  | tryOrder => exact hr

theorem orders_flow {k : RexPhase} {peak q : ℤ} (hf : EventFlow (RexEvent now k) peak q r r')
    (hk : k = .setup ∨ k = .loan ∨ k = .lend) : r'.orders = r.orders :=
  hf.invariant (P := fun r₁ => r₁.orders = r.orders)
    (fun _ _ _ hr he => (orders_event he hk).trans hr) rfl

/-- Without loans the pool can pay every order. -/
theorem not_stuck_of_unlent (hv : r.Valid now) (hl : r.totals.totalLent = 0) (hw : r.Waits a) :
    ¬r.Stuck a := by
  obtain ⟨o, ho, hopen⟩ := hw
  obtain ⟨p, hp, hpos⟩ := pool_of_open hv ho hopen
  obtain ⟨rb, hb⟩ := hv.accounts.owner a o ho
  intro hs
  refine hs o p ho hopen hp ?_
  have hreq := hv.accounts.requested_le ho hopen hb
  have hmatured := hv.accounts.matured_le hb
  have hheld := hv.accounts.rexBalance_le hb
  have hrex := hv.pool.rex
  obtain ⟨hlendable, hnonneg⟩ := lendable_eq hv hp
  rw [totals_eq hp] at hl hrex
  have hvalue : o.rexRequested * p.totalLendable / p.totalRex ≤ p.totalLendable :=
    Shares.value_le (by omega) hnonneg hpos
  unfold RexPool.Covers
  rw [hl, Int.zero_tdiv]
  omega

/-! ## Expired loans while an order waits -/

/-- The number of loans of a resource. -/
def loanCount (r : RexState) (kind : Resource) : ℕ :=
  r.loans.sum fun key _ => if key.1 = kind then 1 else 0

/-- **An expired loan** is closed if loans are not available. -/
theorem processExpiredLoan_closes {t : ℕ} {key : Resource × ℕ} {loan : RexLoan}
    {deleteLoan : Bool} {delta : ℤ} (hno : r.loansAvailable = false)
    (h : r.processExpiredLoan t key loan = .ok (r', deleteLoan, delta)) :
    deleteLoan = true ∧ r'.loans = r.loans := by
  simp only [processExpiredLoan, removeLoanFromRexPool, getPool, rentTokens, bind_eq_ok,
    require_eq_ok, pure_eq_ok] at h
  obtain ⟨_, ⟨p, hp, delta, -, rfl⟩, p₁, -, rented, -, h⟩ := h
  rw [if_neg] at h
  · obtain ⟨r₂, h₂, h⟩ := bind_eq_ok.mp h
    obtain ⟨rfl, hdel⟩ := Prod.mk.inj (pure_eq_ok.mp h)
    obtain ⟨rfl, -⟩ := Prod.mk.inj hdel
    refine ⟨rfl, ?_⟩
    split_ifs at h₂
    · have hloans := loans_transferToFund h₂
      exact hloans
    · exact pure_eq_ok.mp h₂ ▸ rfl
  · rintro ⟨-, -, hav⟩
    have hav' : r.loansAvailable = true := by
      rw [← hav, loansAvailable, loansAvailable, available, available, hp]
      rfl
    exact absurd (hno.symm.trans hav') Bool.false_ne_true

end RexState

variable {K : Type}

namespace State

variable {s s' : State K} {now : BlockTimestamp} {a : Name}

open RexState

/-- **The expired loans of a resource** are all closed, while an order waits and there is room for
them. -/
theorem processLoans_closes {kind : Resource} {max : ℕ} (hv : s.rex.Valid now)
    (hr : s.rex.Ready now) (ht : s.rex.Timely now) (hw : s.rex.Waits a)
    (hexp : ∀ k l, s.rex.loans.find k = some l → l.expiration ≤ now.usec)
    (hmax : s.rex.loanCount kind ≤ max) (h : s.processLoans now kind max = .ok s') :
    ∀ k, s'.rex.loans.find k = if k.1 = kind then none else s.rex.loans.find k := by
  induction max generalizing s with
  | zero =>
    obtain rfl := pure_eq_ok.mp h
    have hzero := (Table.sum_eq_zero_iff fun _ _ _ => Nat.zero_le _).mp (Nat.le_zero.mp hmax)
    intro k
    split_ifs with hk
    · cases hf : s.rex.loans.find k with
      | none => rfl
      | some l => exact absurd (hzero k l hf) (by rw [if_pos hk]; exact one_ne_zero)
    · rfl
  | succ max ih =>
    unfold processLoans at h
    split at h
    · rename_i hf
      obtain rfl := pure_eq_ok.mp h
      intro k
      have hnone := Table.find_of_first_none hf k
      rw [Table.find_filter] at hnone
      split_ifs with hk
      · cases hl : s.rex.loans.find k with
        | none => rfl
        | some l => simp [hl, hk] at hnone
      · rfl
    · rename_i key loan hf
      obtain ⟨hl, hkind⟩ := find_of_firstLoan hf
      split_ifs at h with he
      · exact absurd (hexp key loan hl) (not_le.mpr he)
      · obtain ⟨⟨rex, deleteLoan, deltaStake⟩, hp, h⟩ := bind_eq_ok.mp h
        obtain ⟨res, -, h⟩ := bind_eq_ok.mp h
        obtain ⟨hev, hr₁⟩ := processExpiredLoan_event hv hr hl (not_lt.mp he) hp
        obtain ⟨rfl, hloans⟩ := processExpiredLoan_closes (hw.loansAvailable ht) hp
        have hloans : (rex.loans.erase key) = s.rex.loans.erase key := by rw [hloans]
        rw [if_pos rfl] at h hev hr₁
        have horders := orders_event hev (.inr (.inl rfl))
        have hcount : ({ rex with loans := rex.loans.erase key } : RexState).loanCount kind + 1 =
            s.rex.loanCount kind := by
          have hsum := Table.sum_erase_add s.rex.loans key fun k _ => if k.1 = kind then 1 else 0
          rw [hl, Option.elim_some, if_pos hkind, add_comm] at hsum
          rw [loanCount, hloans]
          exact hsum
        have hle : ({ rex with loans := rex.loans.erase key } : RexState).loanCount kind ≤ max := by
          omega
        have hexp₁ : ∀ k l, (rex.loans.erase key).find k = some l → l.expiration ≤ now.usec := by
          intro k l hk
          rw [hloans, Table.find_erase] at hk
          split_ifs at hk
          exact hexp k l hk
        have hrest := ih (s := { s with rex := { rex with loans := rex.loans.erase key }, res })
          (hv.event hev) hr₁ (ht.event hev) (hw.imp fun _ ho => horders.symm ▸ ho) hexp₁ hle h
        intro k
        rw [hrest k]
        split_ifs with hk
        · rfl
        · have hne : k ≠ key := fun he => hk (by rw [he]; exact hkind)
          rw [hloans, Table.find_erase_ne _ hne]

/-- **A maintenance with room for all orders** leaves only those that the pool cannot pay. -/
theorem stuck_of_runrex {max : ℕ} (hv : s.rex.Valid now) (h : s.runrex now max = .ok s')
    (hmax : s.rex.orders.rows.length ≤ max) :
    s'.rex.Valid now ∧ (∀ b, (s'.rex.orders.find b).isSome = (s.rex.orders.find b).isSome) ∧
      ∀ b, s'.rex.Stuck b := by
  obtain ⟨rex, s₁, s₂, s₃, rex', -, hu, hn, hc, hnet, hfill, rfl⟩ := runrex_eq_ok h
  obtain ⟨q, hf₁, hr₁, -⟩ := setup_flow hv hu hn
  have hv₁ := hv.flow hf₁
  obtain ⟨hf₂, hr₂⟩ := processLoans_flow hv₁ hr₁ hc
  have hv₂ := hv₁.flow hf₂
  obtain ⟨hf₃, hr₃⟩ := processLoans_flow hv₂ hr₂ hnet
  have hv₃ := hv₂.flow hf₃
  have horders : s₃.rex.orders = s.rex.orders :=
    ((orders_flow hf₃ (by simp)).trans (orders_flow hf₂ (by simp))).trans
      (orders_flow hf₁ (by simp))
  have hlen : s₃.rex.openOrders.length ≤ max := by
    refine le_trans ?_ hmax
    unfold openOrders
    rw [List.length_map, List.length_insertionSort, Table.rows_filter, horders]
    exact List.length_filter_le _ _
  rw [List.take_of_length_le hlen] at hfill
  have hopen : ∀ b ∈ s₃.rex.openOrders, s₃.rex.Waits b := fun b => mem_openOrders.mp
  obtain ⟨hf₄, -⟩ := fillQueuedOrders_flow hr₃ (nodup_openOrders _) hopen hfill
  refine ⟨hv₃.flow hf₄, fun b => ?_, fun b => ?_⟩
  · exact (waits_of_fill hf₄ b).1.trans (by rw [horders])
  · by_cases hw : rex'.Waits b
    · exact stuck_of_fillQueuedOrders hv₃ hr₃ (nodup_openOrders _) hopen hfill b
        (mem_openOrders.mpr ((waits_of_fill hf₄ b).2 hw))
    · exact fun o p ho hopen' _ => absurd ⟨o, ho, hopen'⟩ hw

/-- The loans of another resource stay. -/
theorem loanCount_eq {r r' : RexState} {kind kind' : Resource} (hne : kind' ≠ kind)
    (h : ∀ k, r'.loans.find k = if k.1 = kind then none else r.loans.find k) :
    r'.loanCount kind' = r.loanCount kind' := by
  refine Table.sum_eq_of_elim fun k => ?_
  rw [h k]
  by_cases hk : k.1 = kind
  · have hk' : k.1 ≠ kind' := fun he => hne (he.symm.trans hk)
    rw [if_pos hk, if_neg hk']
    cases r.loans.find k <;> rfl
  · rw [if_neg hk]

/-- **A maintenance after all loans have expired**, with room for everything, closes the loans and
fills the orders, if one has waited. -/
theorem runrex_closes {max : ℕ} (hv : s.rex.Valid now) (ht : s.rex.Timely now)
    (hw : s.rex.Waits a) (hexp : ∀ k l, s.rex.loans.find k = some l → l.expiration ≤ now.usec)
    (hcount : ∀ kind, s.rex.loanCount kind ≤ max) (hmax : s.rex.orders.rows.length ≤ max)
    (h : s.runrex now max = .ok s') :
    (∀ k, s'.rex.loans.find k = none) ∧ ∀ b, ¬s'.rex.Waits b := by
  obtain ⟨hv', -, hstuck⟩ := stuck_of_runrex hv h hmax
  obtain ⟨rex, s₁, s₂, s₃, rex', -, hu, hn, hc, hnet, hfill, rfl⟩ := runrex_eq_ok h
  obtain ⟨q, hf₁, hr₁, -⟩ := setup_flow hv hu hn
  have hv₁ := hv.flow hf₁
  obtain ⟨hf₂, hr₂⟩ := processLoans_flow hv₁ hr₁ hc
  have hloans₁ : s₁.rex.loans = s.rex.loans :=
    (loans_channelNamebids hn).trans (loans_updateRexPool hu)
  have hw₁ : s₁.rex.Waits a := hw.imp fun _ ho => (orders_flow hf₁ (by simp)).symm ▸ ho
  obtain ⟨-, ht₁, -⟩ := nothingLent_flow (a := a) hv ht hf₁ (by simp) fun hk => by cases hk
  have hcpu := processLoans_closes hv₁ hr₁ ht₁ hw₁ (by rw [hloans₁]; exact hexp)
    (by rw [loanCount, hloans₁]; exact hcount .cpu) hc
  -- the loans of the other resource
  have hv₂ := hv₁.flow hf₂
  have hw₂ : s₂.rex.Waits a := hw₁.imp fun _ ho => (orders_flow hf₂ (by simp)).symm ▸ ho
  obtain ⟨-, ht₂, -⟩ := nothingLent_flow hv₁ ht₁ hf₂ (by simp) fun _ => hw₁
  have hexp₂ : ∀ k l, s₂.rex.loans.find k = some l → l.expiration ≤ now.usec := by
    intro k l hk
    rw [hcpu k] at hk
    split_ifs at hk
    exact hexp k l (hloans₁ ▸ hk)
  have hcount₂ : s₂.rex.loanCount .net ≤ max := by
    rw [loanCount_eq (by decide) hcpu, loanCount, hloans₁]
    exact hcount .net
  have hnone := processLoans_closes hv₂ hr₂ ht₂ hw₂ hexp₂ hcount₂ hnet
  have hall : ∀ k, rex'.loans.find k = none := by
    intro k
    rw [loans_fillQueuedOrders hfill, hnone k]
    split_ifs with hk
    · rfl
    · rw [hcpu k, if_pos]
      exact (by cases hkind : k.1 <;> simp_all)
  refine ⟨hall, fun b hb => ?_⟩
  have hlent : rex'.totals.totalLent = 0 := by
    rw [hv'.pool.lent]
    refine Table.sum_eq_zero fun k l hk => ?_
    exact absurd ((hall k).symm.trans hk) (Option.some_ne_none l).symm
  exact not_stuck_of_unlent hv' hlent hb (hstuck b)

end State

/-! ## Runs -/

section

variable [Field K] [LinearOrder K] [FloorRing K] [CMath K] {t t₀ : BlockTimestamp}
  {s s₀ s' : State K} {a : Name}

theorem rexTimely_of_run {allowed : State K → Action K → Prop}
    (h : Run RexInit (Step allowed) t s) : s.rex.Valid t ∧ s.rex.Timely t :=
  rexInvariant_of_run (P := fun t r => r.Timely t) (fun _ => id) (fun _ _ _ ho => by cases ho)
    (fun _ _ _ ht h => h.mono ht) (fun _ _ _ _ _ h ho => h.opening ho)
    (fun _ _ _ _ _ _ h he => h.event he) h

/-- A step after which the order of an account waits. -/
def WaitingStep (a : Name) (t : BlockTimestamp) (s s' : State K) : Prop :=
  Step NamesKept t s s' ∧ s'.rex.Waits a

end

/-- A step after which the order of the first account waits, as it can be computed. -/
def execWaiting (t : BlockTimestamp) (x : Action ℚ) (s : State ℚ) : Except Error (State ℚ) := do
  let s' ← Action.execIn (fun _ x => decide (x.mover ≠ some namesAccount)) t x s
  check ((s'.rex.orders.find ⟨1⟩).any RexOrder.isOpen = true) "no order waits"
  return s'

end EosioSystem
