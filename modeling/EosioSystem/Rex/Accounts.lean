import EosioSystem.Rex.Events

/-!
# The records of the REX accounts

What the records of an account say about each other, whatever happens to the pool: the REX of an
owner is its matured REX and its buckets, an open sell order reserves a part of the matured REX,
the owner of an order has a record and the creator of a loan has a fund.

## Main definitions

* `RexState.Accounts`: the invariant

## Main results

* `RexState.Accounts.purchase`, `RexState.Accounts.event`: purchases and events keep it
-/

namespace EosioSystem

open Checked

namespace RexState

/-- The records of the accounts agree with each other. -/
structure Accounts (now : BlockTimestamp) (r : RexState) : Prop where
  ledger : ∀ a rb, r.balances.find a = some rb → rb.Ledger now.sec (r.reserved a)
  owner : ∀ a o, r.orders.find a = some o → ∃ rb, r.balances.find a = some rb
  requested_pos : ∀ a o, r.orders.find a = some o → o.isOpen = true → 0 < o.rexRequested
  funds_nonneg : ∀ a b, r.funds.find a = some b → 0 ≤ b
  loan : ∀ k l, r.loans.find k = some l →
    0 < l.payment ∧ l.payment < l.totalStaked ∧ 0 ≤ l.balance ∧
      l.expiration ≤ now.usec + loanPeriod
  creator : ∀ k l, r.loans.find k = some l → ∃ b, r.funds.find l.sender = some b

variable {now : BlockTimestamp} {r r' : RexState} {a owner : Name}

theorem reserved_eq {o : RexOrder} (h : r.orders.find a = some o) :
    r.reserved a = if o.isOpen then o.rexRequested else 0 := by
  rw [reserved, h]

theorem reserved_of_none (h : r.orders.find a = none) : r.reserved a = 0 := by
  rw [reserved, h]

theorem reserved_congr (h : r'.orders.find a = r.orders.find a) : r'.reserved a = r.reserved a := by
  rw [reserved, reserved, h]

theorem usec_mono {t t' : BlockTimestamp} (h : t ≤ t') : t.usec ≤ t'.usec :=
  Nat.add_le_add_left (Nat.mul_le_mul_right _ h) _

namespace Accounts

theorem mono {t : BlockTimestamp} (h : r.Accounts t) (ht : t ≤ now) : r.Accounts now where
  ledger a rb hb := (h.ledger a rb hb).mono (BlockTimestamp.sec_mono ht)
  owner := h.owner
  requested_pos := h.requested_pos
  funds_nonneg := h.funds_nonneg
  loan k l hl := by
    obtain ⟨h₁, h₂, h₃, h₄⟩ := h.loan k l hl
    exact ⟨h₁, h₂, h₃, h₄.trans (Nat.add_le_add_right (usec_mono ht) _)⟩
  creator := h.creator

/-- The invariant is about the records only. -/
theorem congr (h : r.Accounts now) (hb : r'.balances = r.balances) (ho : r'.orders = r.orders)
    (hf : r'.funds = r.funds) (hl : r'.loans = r.loans) : r'.Accounts now where
  ledger a rb hrb := by
    rw [reserved_congr (r := r) (by rw [ho])]
    exact h.ledger a rb (hb ▸ hrb)
  owner a o hao := hb ▸ h.owner a o (ho ▸ hao)
  requested_pos a o hao := h.requested_pos a o (ho ▸ hao)
  funds_nonneg a b hab := h.funds_nonneg a b (hf ▸ hab)
  loan k l hkl := h.loan k l (hl ▸ hkl)
  creator k l hkl := hf ▸ h.creator k l (hl ▸ hkl)

theorem matured_le (h : r.Accounts now) {rb : RexBalance} (hb : r.balances.find a = some rb) :
    rb.maturedRex ≤ rb.rexBalance := (h.ledger a rb hb).matured_le

theorem rexBalance_nonneg (h : r.Accounts now) {rb : RexBalance}
    (hb : r.balances.find a = some rb) : 0 ≤ rb.rexBalance :=
  (h.ledger a rb hb).matured_nonneg.trans (h.matured_le hb)

/-- What an open order requests is matured REX of its owner. -/
theorem requested_le (h : r.Accounts now) {o : RexOrder} {rb : RexBalance}
    (ho : r.orders.find a = some o) (hopen : o.isOpen = true)
    (hb : r.balances.find a = some rb) : o.rexRequested ≤ rb.maturedRex := by
  have hres := (h.ledger a rb hb).reserved_le
  rwa [reserved_eq ho, if_pos hopen] at hres

/-! ### One record changes -/

theorem setFund (h : r.Accounts now) {b : ℤ} (hb : 0 ≤ b) :
    ({ r with funds := r.funds.set a b } : RexState).Accounts now where
  ledger := h.ledger
  owner := h.owner
  requested_pos := h.requested_pos
  funds_nonneg c x hc := by
    rw [Table.find_set] at hc
    split_ifs at hc
    · cases hc
      exact hb
    · exact h.funds_nonneg c x hc
  loan := h.loan
  creator k l hl := by
    rw [Table.find_set]
    split_ifs
    · exact ⟨b, rfl⟩
    · exact h.creator k l hl

theorem credit (h : r.Accounts now) {q : ℤ} (hq : 0 ≤ q) :
    ({ r with funds := r.funds.set a ((r.funds.find a).getD 0 + q) } : RexState).Accounts now := by
  refine h.setFund ?_
  cases hf : r.funds.find a with
  | none => simpa using hq
  | some b =>
    have := h.funds_nonneg a b hf
    rw [Option.getD_some]
    omega

theorem closeFund (h : r.Accounts now) (hl : r.hasLoan a = false) :
    ({ r with funds := r.funds.erase a } : RexState).Accounts now where
  ledger := h.ledger
  owner := h.owner
  requested_pos := h.requested_pos
  funds_nonneg c x hc := by
    rw [Table.find_erase] at hc
    split_ifs at hc
    exact h.funds_nonneg c x hc
  loan := h.loan
  creator k l hkl := by
    have hne : l.sender ≠ a := by
      intro he
      unfold hasLoan at hl
      have := List.any_eq_false.mp hl (k, l) (Table.mem_rows.mpr hkl)
      exact this (by simpa using he)
    rw [Table.find_erase_ne _ hne]
    exact h.creator k l hkl

theorem setLoan (h : r.Accounts now) {key : Resource × ℕ} {loan : RexLoan}
    (hl : 0 < loan.payment ∧ loan.payment < loan.totalStaked ∧ 0 ≤ loan.balance ∧
      loan.expiration ≤ now.usec + loanPeriod)
    (hf : ∃ b, r.funds.find loan.sender = some b) :
    ({ r with loans := r.loans.set key loan } : RexState).Accounts now where
  ledger := h.ledger
  owner := h.owner
  requested_pos := h.requested_pos
  funds_nonneg := h.funds_nonneg
  loan k l hkl := by
    rw [Table.find_set] at hkl
    split_ifs at hkl
    · cases hkl
      exact hl
    · exact h.loan k l hkl
  creator k l hkl := by
    rw [Table.find_set] at hkl
    split_ifs at hkl
    · cases hkl
      exact hf
    · exact h.creator k l hkl

theorem eraseLoan (h : r.Accounts now) (key : Resource × ℕ) :
    ({ r with loans := r.loans.erase key } : RexState).Accounts now where
  ledger := h.ledger
  owner := h.owner
  requested_pos := h.requested_pos
  funds_nonneg := h.funds_nonneg
  loan k l hkl := by
    rw [Table.find_erase] at hkl
    split_ifs at hkl
    exact h.loan k l hkl
  creator k l hkl := by
    rw [Table.find_erase] at hkl
    split_ifs at hkl
    exact h.creator k l hkl

theorem setBalance (h : r.Accounts now) {rb : RexBalance}
    (hb : rb.Ledger now.sec (r.reserved a)) :
    ({ r with balances := r.balances.set a rb } : RexState).Accounts now where
  ledger c x hc := by
    rw [Table.find_set] at hc
    split_ifs at hc with he
    · cases hc
      rw [he]
      exact hb
    · exact h.ledger c x hc
  owner c o hc := by
    rw [Table.find_set]
    split_ifs
    · exact ⟨rb, rfl⟩
    · exact h.owner c o hc
  requested_pos := h.requested_pos
  funds_nonneg := h.funds_nonneg
  loan := h.loan
  creator := h.creator

/-- The order of an owner with a record changes to one that its matured REX covers. -/
theorem setOrder (h : r.Accounts now) {o : RexOrder} {rb : RexBalance}
    (hb : r.balances.find a = some rb)
    (ho : o.isOpen = true → 0 < o.rexRequested ∧ o.rexRequested ≤ rb.maturedRex) :
    ({ r with orders := r.orders.set a o } : RexState).Accounts now where
  ledger c x hc := by
    by_cases he : c = a
    · subst he
      obtain rfl : rb = x := Option.some.inj (hb.symm.trans hc)
      have hl := h.ledger c rb hb
      rw [reserved_eq (Table.find_set_self _ _ _)]
      split_ifs with hopen
      · exact hl.reserve (ho hopen).1.le (ho hopen).2
      · exact hl.reserve le_rfl hl.matured_nonneg
    · rw [reserved_congr (r := r) (Table.find_set_ne _ _ he)]
      exact h.ledger c x hc
  owner c o' hc := by
    rw [Table.find_set] at hc
    split_ifs at hc with he
    · exact ⟨rb, he ▸ hb⟩
    · exact h.owner c o' hc
  requested_pos c o' hc hopen := by
    rw [Table.find_set] at hc
    split_ifs at hc
    · cases hc
      exact (ho hopen).1
    · exact h.requested_pos c o' hc hopen
  funds_nonneg := h.funds_nonneg
  loan := h.loan
  creator := h.creator

theorem eraseOrder (h : r.Accounts now) (a : Name) :
    ({ r with orders := r.orders.erase a } : RexState).Accounts now where
  ledger c x hc := by
    have hl := h.ledger c x hc
    by_cases he : c = a
    · rw [reserved_of_none (by rw [he]; exact Table.find_erase_self _ _)]
      exact hl.reserve le_rfl hl.matured_nonneg
    · rw [reserved_congr (r := r) (Table.find_erase_ne _ he)]
      exact hl
  owner c o hc := by
    rw [Table.find_erase] at hc
    split_ifs at hc
    exact h.owner c o hc
  requested_pos c o hc := by
    rw [Table.find_erase] at hc
    split_ifs at hc
    exact h.requested_pos c o hc
  funds_nonneg := h.funds_nonneg
  loan := h.loan
  creator := h.creator

/-- A record without REX has no order, so it can go. -/
theorem eraseBalance (h : r.Accounts now) {rb : RexBalance} (hb : r.balances.find a = some rb)
    (hz : rb.rexBalance = 0) (ho : ∀ o, r.orders.find a = some o → o.isOpen = true) :
    ({ r with balances := r.balances.erase a } : RexState).Accounts now where
  ledger c x hc := by
    rw [Table.find_erase] at hc
    split_ifs at hc
    exact h.ledger c x hc
  owner c o hc := by
    by_cases he : c = a
    · subst he
      have hpos := h.requested_pos c o hc (ho o hc)
      have hle := h.requested_le hc (ho o hc) hb
      have hm := h.matured_le hb
      omega
    · rw [Table.find_erase_ne _ he]
      exact h.owner c o hc
  requested_pos := h.requested_pos
  funds_nonneg := h.funds_nonneg
  loan := h.loan
  creator := h.creator

/-! ### Purchases and events -/

/-- The records of a sale that leaves what the owner's open order has reserved. -/
theorem afterSale (h : r.Accounts now) {p : RexPool} {rb : RexBalance} {rex : ℤ}
    (hb : r.balances.find a = some rb) (hres : r.reserved a ≤ rb.maturedRex - rex) :
    (r.afterSale p a rb rex).Accounts now := by
  have hl := h.ledger a rb hb
  have hsale : ({ rb with
      voteStake := rb.rexBalance * p.totalLendable / p.totalRex -
        rex * p.totalLendable / p.totalRex
      rexBalance := rb.rexBalance - rex
      maturedRex := rb.maturedRex - rex } : RexBalance).Ledger now.sec (r.reserved a) := by
    refine ⟨hl.buckets, ?_, hl.reserved_nonneg, hres⟩
    have := hl.balance
    dsimp only
    omega
  exact (h.setBalance hsale).congr rfl rfl rfl rfl

/-- The record before a purchase, which has nothing in it if there was none. -/
theorem row {payment rex : ℤ} {p : RexPool} {rb : RexBalance} {c : List ℤ} (h : r.Accounts now)
    (hr : RowPurchase payment rex p (r.balances.find owner) rb c) :
    ∃ rb₀ : RexBalance, rb₀ = (r.balances.find owner).getD ⟨0, 0, 0, []⟩ ∧
      rb₀.Ledger now.sec (r.reserved owner) ∧ rb.rexBalance = rb₀.rexBalance + rex ∧
      rb.maturedRex = rb₀.maturedRex ∧ rb.rexMaturities = rb₀.rexMaturities := by
  generalize hf : r.balances.find owner = row at hr
  cases hr with
  | new =>
    -- an account without a record has no order
    have hno : r.reserved owner = 0 := by
      refine reserved_of_none (Option.eq_none_iff_forall_ne_some.mpr fun o ho => ?_)
      obtain ⟨rb, hb⟩ := h.owner owner o ho
      rw [hf] at hb
      cases hb
    refine ⟨⟨0, 0, 0, []⟩, rfl, ⟨⟨[], 0, .nil _, le_rfl, rfl⟩, rfl, ?_, ?_⟩, ?_, rfl, rfl⟩
    · rw [hno]
    · rw [hno]
    · exact (zero_add rex).symm
  | more hr => exact ⟨_, rfl, h.ledger owner _ hf, rfl, rfl, rfl⟩

theorem purchase {payment : ℤ} (h : r.Accounts now) (hp : RexPurchase now owner payment r r')
    (hrex : ∀ p rex c, PoolPurchase payment r.pool p rex c → 0 ≤ rex) : r'.Accounts now := by
  cases hp with
  | buy hq hp hr =>
    obtain ⟨rb₀, -, hl, h₁, h₂, h₃⟩ := h.row hr
    exact (h.setBalance (hl.buy (hrex _ _ _ hp) h₁ h₂ h₃).1).congr rfl rfl rfl rfl

/-- **Every event** keeps the records of the accounts. -/
theorem event {k : RexPhase} {q : ℤ} (h : r.Accounts now) (he : RexEvent now k q r r') :
    r'.Accounts now := by
  cases he with
  | settle => exact h.congr rfl rfl rfl rfl
  | distribute => exact h.congr rfl rfl rfl rfl
  | fee => exact h.congr rfl rfl rfl rfl
  | namebid => exact h.congr rfl rfl rfl rfl
  | namebidsPaid => exact h.congr rfl rfl rfl rfl
  | setRent => exact h.congr rfl rfl rfl rfl
  | tryOrder => exact h.congr rfl rfl rfl rfl
  | trySale => exact h.congr rfl rfl rfl rfl
  | @closeLoan r p key loan delta hl he hp hd =>
    have hb := (h.loan key loan hl).2.2.1
    by_cases hpos : 0 < loan.balance
    · refine ((h.credit (a := loan.sender) hb).eraseLoan key).congr rfl rfl ?_ rfl
      exact if_pos hpos
    · refine (h.eraseLoan key).congr rfl rfl ?_ rfl
      exact if_neg hpos
  | @renewLoan r p key loan delta rented hl he hp hd ho hb hr ha =>
    obtain ⟨h₁, h₂, h₃, h₄⟩ := h.loan key loan hl
    have hloan : 0 < loan.payment ∧ loan.payment < rented ∧ 0 ≤ loan.balance - loan.payment ∧
        loan.expiration + loanPeriod ≤ now.usec + loanPeriod :=
      ⟨h₁, hr, sub_nonneg.mpr hb, Nat.add_le_add_right he _⟩
    have h' : ({ r with
        loans := r.loans.set key (updateRenewedLoan loan rented) } : RexState).Accounts now :=
      h.setLoan hloan (h.creator key loan hl)
    exact h'.congr rfl rfl rfl rfl
  | @fill r p owner o rb ho hopen hb hp hr hc hn =>
    have hreq := h.requested_le ho hopen hb
    have hres : r.reserved owner = o.rexRequested := by rw [reserved_eq ho, if_pos hopen]
    -- the order is closed with the sale, so that nothing is reserved any more
    have h₁ : ({ r with orders := r.orders.set owner { o with
        proceeds := o.rexRequested * p.totalLendable / p.totalRex
        stakeChange := rb.rexBalance * p.totalLendable / p.totalRex -
          o.rexRequested * p.totalLendable / p.totalRex - rb.voteStake
        isOpen := false } } : RexState).Accounts now :=
      h.setOrder hb (by simp)
    refine RexState.Accounts.congr (h₁.afterSale (p := p) (a := owner) hb ?_) rfl rfl rfl rfl
    rw [reserved_eq (Table.find_set_self _ _ _)]
    simpa using hreq
  | credit hq => exact h.credit hq.le
  | debit hf hq hle => exact h.setFund (sub_nonneg.mpr hle)
  | closeFund hf hl => exact h.closeFund hl
  | sell hb hrex hm hres hp hr hc hn => exact h.afterSale hb hres
  | @queue r owner rb rex hb hrex ho hm =>
    refine h.setOrder hb fun _ => ⟨?_, hm⟩
    cases hf : r.orders.find owner with
    | none => exact hrex
    | some o =>
      have := h.requested_pos owner o hf (ho o hf)
      show 0 < o.rexRequested + rex
      omega
  | cancel => exact h.eraseOrder _
  | collect => exact h.eraseOrder _
  | @restake r p owner rb value hb hp hv =>
    have hl := h.ledger owner rb hb
    have hrow : ({ rb with voteStake := value } : RexBalance).Ledger now.sec (r.reserved owner) :=
      ⟨hl.buckets, hl.balance, hl.reserved_nonneg, hl.reserved_le⟩
    exact (h.setBalance hrow).congr rfl rfl rfl rfl
  | move hb hm => exact h.setBalance ((h.ledger _ _ hb).moves hm).ledger
  | closeBalance hb hz ho => exact h.eraseBalance hb hz ho
  | @fundLoan r key loan q hl hq =>
    obtain ⟨h₁, h₂, h₃, h₄⟩ := h.loan key loan hl
    exact h.setLoan ⟨h₁, h₂, add_nonneg h₃ hq.le, h₄⟩ (h.creator key loan hl)
  | @defundLoan r key loan q hl hq hle =>
    obtain ⟨h₁, h₂, h₃, h₄⟩ := h.loan key loan hl
    exact h.setLoan ⟨h₁, h₂, sub_nonneg.mpr hle, h₄⟩ (h.creator key loan hl)
  | lend ha hp ho hq hr hb hf hl he =>
    refine (h.setLoan ⟨hq, hr, hb, he.le⟩ (Option.isSome_iff_exists.mp hf)).congr rfl rfl rfl rfl

end Accounts

end RexState

end EosioSystem
