import EosioSystem.Rex.Records

/-!
# REX is locked until it matures

Whatever an owner does with its REX, it has never sold more than has matured: of what it has
received, that part whose maturity has come covers what it has sold and what its record still
shows as matured. The reason is an invariant for all future times at once, of which the amounts
that become available in the meantime are a part.

## Main definitions

* `RexState.sold`, `RexState.receivedBy`: the trades of an account
* `RexState.Locked`: the invariant

## Main results

* `RexState.Locked.event`, `RexState.Locked.purchase`: events keep it
* `rexLocked_of_run`: what has been sold and what has matured
-/

namespace EosioSystem

open Checked

/-! ## Trades -/

namespace RexTrade

/-- The REX that an account has sold in a trade. -/
def soldBy (a : Name) : RexTrade → ℤ
  | received .. => 0
  | sold owner rex => if owner = a then rex else 0

/-- The REX that an account has received in a trade and that matures by the time `t`. -/
def maturesBy (a : Name) (t : ℕ) : RexTrade → ℤ
  | received owner time rex => if owner = a ∧ getRexMaturity time ≤ t then rex else 0
  | sold .. => 0

/-- The REX that an account has received in a trade. -/
def receivedBy (a : Name) : RexTrade → ℤ
  | received owner _ rex => if owner = a then rex else 0
  | sold .. => 0

end RexTrade

namespace RexState

variable {now : BlockTimestamp} {r r' : RexState} {a owner : Name}

/-- The REX that an account has sold, at once or through the queue. -/
def sold (r : RexState) (a : Name) : ℤ := (r.trades.map (RexTrade.soldBy a)).sum

/-- The REX that an account has received and that matures by the time `t`. -/
def maturingBy (r : RexState) (a : Name) (t : ℕ) : ℤ := (r.trades.map (RexTrade.maturesBy a t)).sum

/-- The REX that an account has received. -/
def received (r : RexState) (a : Name) : ℤ := (r.trades.map (RexTrade.receivedBy a)).sum

/-- The REX of an account. -/
def rexOf (r : RexState) (a : Name) : ℤ := (r.balances.find a).elim 0 RexBalance.rexBalance

/-- The REX of an account that is matured at the time `t` if nothing happens until then. -/
def availableBy (r : RexState) (a : Name) (t : ℕ) : ℤ :=
  (r.balances.find a).elim 0 (RexBalance.availableBy t)

/-- The matured REX of an account. -/
def maturedOf (r : RexState) (a : Name) : ℤ := (r.balances.find a).elim 0 RexBalance.maturedRex

/-- The account has what it has received and not sold, and at no time can it have more for sale
than what has matured by then. -/
structure Locked (now : BlockTimestamp) (r : RexState) (a : Name) : Prop where
  balance : r.received a = r.sold a + r.rexOf a
  available : ∀ t, now.sec ≤ t → r.sold a + r.availableBy a t ≤ r.maturingBy a t

/-- Trades are made in the past. -/
def Past (now : BlockTimestamp) (r : RexState) : Prop :=
  ∀ owner time rex, RexTrade.received owner time rex ∈ r.trades → time ≤ now.sec

/-! ### Records and trades -/

/-- By the maturity of a purchase made now, everything has matured. -/
theorem maturingBy_eq (h : r.Past now) {t : ℕ} (ht : getRexMaturity now.sec ≤ t) :
    r.maturingBy a t = r.received a := by
  unfold maturingBy received
  refine congrArg List.sum (List.map_congr_left fun x hx => ?_)
  cases x with
  | sold => rfl
  | received b time rex =>
    have hm : getRexMaturity time ≤ t := (getRexMaturity_mono (h b time rex hx)).trans ht
    simp only [RexTrade.maturesBy, RexTrade.receivedBy, hm, and_true]

theorem availableBy_le_rexOf (h : r.Accounts now) (t : ℕ) : r.availableBy a t ≤ r.rexOf a := by
  unfold availableBy rexOf
  cases hf : r.balances.find a with
  | none => exact le_rfl
  | some rb => exact (h.ledger a rb hf).availableBy_le

theorem maturedOf_le_availableBy (h : r.Accounts now) (t : ℕ) :
    r.maturedOf a ≤ r.availableBy a t := by
  unfold availableBy maturedOf
  cases hf : r.balances.find a with
  | none => exact le_rfl
  | some rb => exact le_add_of_nonneg_right (bucketSumBy_nonneg (h.ledger a rb hf).amounts t)

namespace Locked

/-- After the maturity of a purchase made now there is nothing to show. -/
theorem of_lt (ha : r.Accounts now) (hp : r.Past now)
    (hb : r.received a = r.sold a + r.rexOf a)
    (h : ∀ t, now.sec ≤ t → t < getRexMaturity now.sec →
      r.sold a + r.availableBy a t ≤ r.maturingBy a t) : r.Locked now a := by
  refine ⟨hb, fun t ht => ?_⟩
  by_cases hlt : t < getRexMaturity now.sec
  · exact h t ht hlt
  · rw [maturingBy_eq hp (not_lt.mp hlt), hb]
    exact add_le_add_right (availableBy_le_rexOf ha t) _

theorem mono {t : BlockTimestamp} (h : r.Locked t a) (ht : t ≤ now) : r.Locked now a :=
  ⟨h.balance, fun u hu => h.available u ((BlockTimestamp.sec_mono ht).trans hu)⟩

/-- Nothing is traded and the records stay. -/
theorem congr (h : r.Locked now a) (hb : r'.balances.find a = r.balances.find a)
    (ht : r'.trades = r.trades) : r'.Locked now a := by
  refine ⟨?_, fun t hn => ?_⟩
  · rw [received, sold, rexOf, ht, hb]
    exact h.balance
  · rw [sold, availableBy, maturingBy, ht, hb]
    exact h.available t hn

/-- The record of an owner changes, and nothing is traded. -/
theorem setBalance (h : r.Locked now a) (hp : r.Past now) {rb rb' : RexBalance}
    (hf : r.balances.find owner = some rb) (hrex : rb'.rexBalance = rb.rexBalance)
    (hav : ∀ t, now.sec ≤ t → t < getRexMaturity now.sec → rb'.availableBy t ≤ rb.availableBy t)
    (ha : r'.Accounts now) (hb : r'.balances = r.balances.set owner rb')
    (ht : r'.trades = r.trades) : r'.Locked now a := by
  by_cases he : a = owner
  · subst he
    have hf' : r'.balances.find a = some rb' := by rw [hb, Table.find_set_self]
    have hbal := h.balance
    rw [rexOf, hf, Option.elim_some] at hbal
    refine of_lt ha (fun b time rex hm => hp b time rex (ht ▸ hm)) ?_ fun t hn hlt => ?_
    · rw [received, sold, rexOf, ht, hf', Option.elim_some, hrex]
      exact hbal
    · have hold := h.available t hn
      rw [availableBy, hf, Option.elim_some] at hold
      rw [sold, availableBy, maturingBy, ht, hf', Option.elim_some]
      exact (add_le_add_right (hav t hn hlt) _).trans hold
  · exact h.congr (by rw [hb, Table.find_set_ne _ _ he]) ht

/-- A sale out of the matured REX of an owner. -/
theorem afterSale (h : r.Locked now a) {p : RexPool} {rb : RexBalance} {rex : ℤ}
    (hf : r.balances.find owner = some rb) : (r.afterSale p owner rb rex).Locked now a := by
  have hsold : (r.afterSale p owner rb rex).sold a = r.sold a + if owner = a then rex else 0 := by
    show RexTrade.soldBy a (.sold owner rex) + _ = _
    exact add_comm _ _
  have hrec : (r.afterSale p owner rb rex).received a = r.received a := zero_add _
  have hby (t : ℕ) : (r.afterSale p owner rb rex).maturingBy a t = r.maturingBy a t := zero_add _
  by_cases he : owner = a
  · subst he
    have hf' := Table.find_set_self r.balances owner ({ rb with
      voteStake := rb.rexBalance * p.totalLendable / p.totalRex - rex * p.totalLendable / p.totalRex
      rexBalance := rb.rexBalance - rex
      maturedRex := rb.maturedRex - rex } : RexBalance)
    rw [if_pos rfl] at hsold
    refine ⟨?_, fun t hn => ?_⟩
    · have hbal := h.balance
      rw [rexOf, hf, Option.elim_some] at hbal
      rw [hrec, hsold, rexOf]
      show _ = _ + ((r.balances.set owner _).find owner).elim 0 _
      rw [hf', Option.elim_some]
      dsimp only
      omega
    · have hold := h.available t hn
      rw [availableBy, hf, Option.elim_some, RexBalance.availableBy] at hold
      rw [hby, hsold, availableBy]
      show _ + ((r.balances.set owner _).find owner).elim 0 _ ≤ _
      rw [hf', Option.elim_some, RexBalance.availableBy]
      dsimp only
      omega
  · rw [if_neg he, add_zero] at hsold
    have hf' : (r.afterSale p owner rb rex).balances.find a = r.balances.find a :=
      Table.find_set_ne _ _ (Ne.symm he)
    refine ⟨?_, fun t hn => ?_⟩
    · rw [hrec, hsold, rexOf, hf']
      exact h.balance
    · rw [hby, hsold, availableBy, hf']
      exact h.available t hn

/-- A record without REX is deleted. -/
theorem eraseBalance (h : r.Locked now a) (ha : r.Accounts now) {rb : RexBalance}
    (hf : r.balances.find owner = some rb) (hz : rb.rexBalance = 0) :
    ({ r with balances := r.balances.erase owner } : RexState).Locked now a := by
  by_cases he : a = owner
  · subst he
    have hf' := Table.find_erase_self r.balances a
    refine ⟨?_, fun t hn => ?_⟩
    · have hbal := h.balance
      rw [rexOf, hf, Option.elim_some, hz] at hbal
      rw [rexOf, hf', Option.elim_none]
      exact hbal
    · have hl := ha.ledger a rb hf
      have hnonneg := add_nonneg hl.matured_nonneg (bucketSumBy_nonneg hl.amounts t)
      have hold := h.available t hn
      rw [availableBy, hf, Option.elim_some, RexBalance.availableBy] at hold
      rw [availableBy, hf', Option.elim_none]
      show r.sold a + 0 ≤ r.maturingBy a t
      omega
  · exact h.congr (Table.find_erase_ne _ he) rfl

/-- REX that is bought now. -/
theorem purchase {payment : ℤ} (h : r.Locked now a) (ha : r.Accounts now)
    (ha' : r'.Accounts now) (hp' : r'.Past now) (hbuy : RexPurchase now owner payment r r') :
    r'.Locked now a := by
  cases hbuy with
  | @buy p rex c c' rb hq hpp hr =>
    have hrex : 0 ≤ rex := PoolLedger.received_nonneg hq hpp
    obtain ⟨rb₀, hrow, hl, h₁, h₂, h₃⟩ := ha.row hr
    obtain ⟨-, hbal, -, hav⟩ := hl.buy hrex h₁ h₂ h₃
    by_cases he : a = owner
    · subst he
      have hf' := Table.find_set_self r.balances a (buyMaturity now.sec rex rb)
      have hrexOf : r.rexOf a = rb₀.rexBalance := by
        rw [hrow, rexOf]
        cases r.balances.find a <;> rfl
      have havail (t : ℕ) : r.availableBy a t = rb₀.availableBy t := by
        rw [hrow, availableBy]
        cases r.balances.find a <;> rfl
      refine of_lt ha' hp' ?_ fun t hn hlt => ?_
      · have hold := h.balance
        rw [rexOf, hf', Option.elim_some, hbal]
        show (if a = a then rex else 0) + r.received a = 0 + r.sold a + _
        rw [if_pos rfl]
        omega
      · have hold := h.available t hn
        rw [havail] at hold
        rw [availableBy, hf', Option.elim_some, hav t hn hlt]
        show 0 + r.sold a + _ ≤ (if a = a ∧ getRexMaturity now.sec ≤ t then rex else 0) + _
        rw [if_neg fun hc => absurd hc.2 (not_le.mpr hlt)]
        show 0 + r.sold a + _ ≤ 0 + r.maturingBy a t
        omega
    · have hf' := Table.find_set_ne r.balances (buyMaturity now.sec rex rb) he
      refine ⟨?_, fun t hn => ?_⟩
      · rw [rexOf, hf']
        show (if owner = a then rex else 0) + r.received a = 0 + r.sold a + r.rexOf a
        rw [if_neg (Ne.symm he), zero_add, zero_add, h.balance]
      · rw [availableBy, hf']
        show 0 + r.sold a + r.availableBy a t ≤
          (if owner = a ∧ getRexMaturity now.sec ≤ t then rex else 0) + r.maturingBy a t
        rw [if_neg fun hc => he hc.1.symm, zero_add, zero_add]
        exact h.available t hn

/-- **Every event** keeps the lock. -/
theorem event {k : RexPhase} {q : ℤ} (h : r.Locked now a) (hp : r.Past now) (hv : r.Valid now)
    (he : RexEvent now k q r r') : r'.Locked now a := by
  have ha' := hv.accounts.event he
  cases he with
  | fill ho hopen hb hpool hr hc hn => exact (h.afterSale hb).congr rfl rfl
  | sell hb hrex hm hres hpool hr hc hn => exact h.afterSale hb
  | @restake r p owner rb value hb hpool hval =>
    have hrex : ({ rb with voteStake := value } : RexBalance).rexBalance = rb.rexBalance := rfl
    exact h.setBalance hp hb hrex (fun _ _ _ => le_rfl) ha' rfl rfl
  | move hb hm =>
    have hk := (hv.accounts.ledger _ _ hb).moves hm
    exact h.setBalance hp hb hk.rexBalance hk.available ha' rfl rfl
  | closeBalance hb hz ho => exact h.eraseBalance hv.accounts hb hz
  | _ => exact h.congr rfl rfl

end Locked

/-! ### Runs -/

theorem Past.purchase {payment : ℤ} (h : r.Past now) (hbuy : RexPurchase now owner payment r r') :
    r'.Past now := by
  cases hbuy with
  | buy =>
    intro b time rex hm
    rcases List.mem_cons.mp hm with he | hm
    · cases he
      exact le_rfl
    · exact h b time rex hm

theorem Past.event {k : RexPhase} {q : ℤ} (h : r.Past now) (he : RexEvent now k q r r') :
    r'.Past now := by
  have hsale (p : RexPool) (owner : Name) (rb : RexBalance) (rex : ℤ) :
      (r.afterSale p owner rb rex).Past now := by
    intro b time x hm
    rcases List.mem_cons.mp hm with he | hm
    · cases he
    · exact h b time x hm
  cases he with
  | @fill r p owner o rb => exact hsale p owner rb o.rexRequested
  | @sell r p owner rb rex => exact hsale p owner rb rex
  | _ => exact h

/-- The lock of every account. -/
def AllLocked (now : BlockTimestamp) (r : RexState) : Prop := r.Past now ∧ ∀ a, r.Locked now a

namespace AllLocked

theorem purchase {payment : ℤ} (h : r.AllLocked now) (hv : r.Valid now)
    (hv' : r'.Valid now) (hbuy : RexPurchase now owner payment r r') : r'.AllLocked now :=
  ⟨h.1.purchase hbuy, fun a =>
    (h.2 a).purchase hv.accounts hv'.accounts (h.1.purchase hbuy) hbuy⟩

theorem opening {q : ℤ} (h : r.AllLocked now) (hv : r.Valid now) (ho : RexOpening now q r r') :
    r'.AllLocked now := by
  have hv' := hv.opening ho
  cases ho with
  | none => exact h
  | @fromFund r r' owner payment b hf hle hbuy =>
    have h₁ : ({ r with funds := r.funds.set owner (b - payment) } : RexState).AllLocked now :=
      ⟨h.1, fun a => (h.2 a).congr rfl rfl⟩
    exact h₁.purchase (hv.setFund hle) hv' hbuy
  | fromStake hbuy => exact h.purchase hv hv' hbuy

end AllLocked

end RexState

variable {K : Type} [Field K] [LinearOrder K] [FloorRing K] [CMath K]

theorem allLocked_of_run {allowed : State K → Action K → Prop} {t : BlockTimestamp} {s : State K}
    (h : Run RexInit (Step allowed) t s) : s.rex.Valid t ∧ s.rex.AllLocked t := by
  refine rexInvariant_of_run (P := RexState.AllLocked) (fun _ => id) (fun t => ?_)
    (fun t t' r ht h => ?_) (fun t q r r' hv h ho => h.opening hv ho)
    (fun t k q r r' hv h he => ⟨h.1.event he, fun a => (h.2 a).event h.1 hv he⟩) h
  · exact ⟨fun _ _ _ hm => absurd hm (List.not_mem_nil), fun a => ⟨rfl, fun _ _ => le_rfl⟩⟩
  · exact ⟨fun b time rex hm => (h.1 b time rex hm).trans (BlockTimestamp.sec_mono ht),
      fun a => (h.2 a).mono ht⟩

end EosioSystem
