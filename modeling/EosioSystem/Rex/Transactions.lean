import EosioSystem.Frame
import EosioSystem.Rex.PoolLedger

/-!
# Actions as REX transactions

Every action of the contract does to the REX tables what a sequence of events does, and `eosio.rex`
receives the tokens that come in with them. What the events keep is then kept by every action.

## Main definitions

* `RexState.Valid`: the invariant of the REX tables
* `RexState.Ready`: nothing is due, and no auction proceeds are left

## Main results

* `RexState.Valid.action`: the events of an action keep the invariant
* `State.runrex_flow`: the background work as events
-/

namespace EosioSystem

open Checked

/-! ## The invariant -/

namespace RexState

/-- The REX tables are in order. -/
structure Valid (now : BlockTimestamp) (r : RexState) : Prop where
  accounts : r.Accounts now
  pool : r.PoolLedger
  ret : r.ret.Sound now.sec

/-- Nothing is due, and no proceeds of name auctions are left. -/
structure Ready (now : BlockTimestamp) (r : RexState) : Prop where
  settled : r.ret.Settled now.sec
  namebids : ∀ p, r.pool = some p → p.namebidProceeds ≤ 0

variable {now : BlockTimestamp} {r r₁ r' : RexState}

namespace Valid

theorem mono {t : BlockTimestamp} (h : r.Valid t) (ht : t ≤ now) : r.Valid now :=
  ⟨h.accounts.mono ht, h.pool, h.ret.mono (BlockTimestamp.sec_mono ht)⟩

/-- **Every event** keeps the invariant. -/
theorem event {k : RexPhase} {q : ℤ} (h : r.Valid now) (he : RexEvent now k q r r') :
    r'.Valid now := by
  refine ⟨h.accounts.event he, h.pool.event h.accounts he, ?_⟩
  cases he with
  | settle hu => exact (h.ret.update le_rfl hu).1
  | distribute hp hu hc => exact (h.ret.update le_rfl hu).1
  | fee hp hr hq => exact (h.ret.addFee le_rfl hq.le).1
  | renewLoan hl hexp hp hd ho hb hr ha =>
    exact (h.ret.addFee le_rfl (h.accounts.loan _ _ hl).1.le).1
  | lend ha hp ho hq hr hb hf hl hexp => exact (h.ret.addFee le_rfl hq.le).1
  | _ => exact h.ret

theorem flow {k : RexPhase} {peak q : ℤ} (h : r.Valid now)
    (hf : EventFlow (RexEvent now k) peak q r r') : r'.Valid now :=
  hf.invariant (fun _ _ _ hv he => hv.event he) h

theorem purchase {owner : Name} {payment : ℤ} (h : r.Valid now)
    (hp : RexPurchase now owner payment r r') : r'.Valid now := by
  refine ⟨h.accounts.purchase hp ?_, h.pool.purchase h.accounts hp, ?_⟩
  · cases hp with
    | buy hq _ _ => exact fun p rex c hp => PoolLedger.received_nonneg hq hp
  · cases hp with
    | buy => exact h.ret

/-- A payment out of a fund. -/
theorem setFund {owner : Name} {payment b : ℤ} (h : r.Valid now) (hle : payment ≤ b) :
    ({ r with funds := r.funds.set owner (b - payment) } : RexState).Valid now :=
  ⟨h.accounts.setFund (sub_nonneg.mpr hle),
    h.pool.congr rfl rfl rfl h.pool.closed h.pool.returns, h.ret⟩

theorem opening {q : ℤ} (h : r.Valid now) (ho : RexOpening now q r r') : r'.Valid now := by
  cases ho with
  | none => exact h
  | fromFund hf hle hp => exact (h.setFund hle).purchase hp
  | fromStake hp => exact h.purchase hp

/-- What the opening of an action and every event keep is kept by the action. -/
theorem action_keeps {P : RexState → Prop} {use : RexUse} {q : ℤ} (h : r.Valid now)
    (ha : RexAction now use q r r')
    (hopen : ∀ q r r', r.Valid now → P r → RexOpening now q r r' → P r')
    (hevent : ∀ k q r r', r.Valid now → P r → RexEvent now k q r r' → P r') (hP : P r) :
    r'.Valid now ∧ P r' := by
  obtain ⟨q₀, q₁, q₂, r₀, r₁, r₂, r₃, r₄, -, h₀, h₁, h₂, h₃, h₄, hend⟩ := ha.phases
  have hflow {k : RexPhase} {peak q : ℤ} {r r' : RexState}
      (hf : EventFlow (RexEvent now k) peak q r r') (hr : r.Valid now ∧ P r) :
      r'.Valid now ∧ P r' :=
    hf.invariant (P := fun r => r.Valid now ∧ P r)
      (fun q r r' hr he => ⟨hr.1.event he, hevent k q r r' hr.1 hr.2 he⟩) hr
  have h₅ := hflow h₄ (hflow h₃ (hflow h₂ (hflow h₁ ⟨h.opening h₀, hopen _ _ _ h hP h₀⟩)))
  rcases hend with ⟨-, rfl⟩ | ⟨q₃, hl, -⟩
  · exact h₅
  · exact ⟨h₅.1.event hl, hevent _ _ _ _ h₅.1 h₅.2 hl⟩

/-- **The events of an action** keep the invariant. -/
theorem action {use : RexUse} {q : ℤ} (h : r.Valid now) (ha : RexAction now use q r r') :
    r'.Valid now :=
  (h.action_keeps ha (fun _ _ _ _ _ _ => trivial) (fun _ _ _ _ _ _ _ => trivial)
    (P := fun _ => True) trivial).1

end Valid

theorem Ready.addFee (h : r.Ready now) {fee : ℤ}
    (hn : ∀ p', r'.pool = some p' → ∃ p, r.pool = some p ∧ p'.namebidProceeds = p.namebidProceeds)
    (hr : r'.ret = r.ret.addFee now.sec fee) : r'.Ready now := by
  refine ⟨hr ▸ h.settled.addFee fee, fun p' hp' => ?_⟩
  obtain ⟨p, hp, he⟩ := hn p' hp'
  exact he ▸ h.namebids p hp

/-- What is ready stays so while the return pool is not touched. -/
theorem Ready.congr (h : r.Ready now)
    (hn : ∀ p', r'.pool = some p' → ∃ p, r.pool = some p ∧ p'.namebidProceeds = p.namebidProceeds)
    (hr : r'.ret = r.ret) : r'.Ready now := by
  refine ⟨hr ▸ h.settled, fun p' hp' => ?_⟩
  obtain ⟨p, hp, he⟩ := hn p' hp'
  exact he ▸ h.namebids p hp

/-! ## The return pool -/

theorem updateRexPool_event (h : r.updateRexPool now.sec = .ok r') :
    RexEvent now .setup 0 r r' := by
  obtain ⟨ret, change, hu, ⟨hc, rfl⟩ | ⟨hc, p, hp, rfl⟩⟩ := updateRexPool_eq_ok h
  · rw [hc] at hu
    exact .settle hu
  · exact .distribute hp hu hc

/-- After an update nothing is due, and there is as much REX as before. -/
theorem updateRexPool_settled (hs : r.ret.Sound now.sec) (h : r.updateRexPool now.sec = .ok r') :
    r'.ret.Settled now.sec ∧ r'.available = r.available := by
  obtain ⟨ret, change, hu, ⟨hc, rfl⟩ | ⟨hc, p, hp, rfl⟩⟩ := updateRexPool_eq_ok h
  · exact ⟨hs.settled hu, rfl⟩
  · refine ⟨hs.settled hu, ?_⟩
    rw [available, available, hp]
    rfl

/-- Before loans are processed nothing is lent. -/
theorem unlent_mono_setup {peak q : ℤ} (h : EventFlow (RexEvent now .setup) peak q r r') :
    r.totals.totalUnlent ≤ r'.totals.totalUnlent := by
  refine h.invariant (P := fun r₁ => r.totals.totalUnlent ≤ r₁.totals.totalUnlent)
    (fun q r₁ r₂ hle he => hle.trans ?_) le_rfl
  cases he with
  | settle => exact le_rfl
  | @distribute r p ret change hp hu hc =>
    rw [totals_eq hp]
    show p.totalUnlent ≤ p.totalUnlent + change
    omega
  | fee => exact le_rfl
  | namebid hp hr =>
    rw [totals_eq hp]
    exact le_rfl
  | namebidsPaid hp =>
    rw [totals_eq hp]
    exact le_rfl

theorem addToRexReturnPool_settled (h : r.ret.Settled now.sec) {fee : ℤ} (hf : 0 < fee) :
    r.addToRexReturnPool now.sec fee = .ok { r with ret := r.ret.addFee now.sec fee } := by
  have hu : r.updateRexPool now.sec = .ok r := by
    unfold updateRexPool
    rw [h.update_eq]
    rfl
  rw [addToRexReturnPool, hu]
  show Except.ok _ = _
  rw [if_neg (not_le.mpr hf)]

theorem available_eq_true {p : RexPool} (h : r.available = true) (hp : r.pool = some p) :
    0 < p.totalRex := by
  rw [available, hp] at h
  simpa using h

theorem exists_pool_of_available (h : r.available = true) : ∃ p, r.pool = some p ∧
    0 < p.totalRex := by
  obtain ⟨p, hp, hr⟩ := (Option.any_eq_true _ _).mp h
  exact ⟨p, hp, of_decide_eq_true hr⟩

/-- A fee for the return pool: what is due is paid first. -/
theorem addToRexReturnPool_flow {fee : ℤ} (ha : r.available = true) (hf : 0 < fee)
    (h : r.addToRexReturnPool now.sec fee = .ok r') :
    EventFlow (RexEvent now .setup) fee fee r r' := by
  simp only [addToRexReturnPool, bind_eq_ok, pure_eq_ok] at h
  obtain ⟨r₁, hu, rfl⟩ := h
  rw [if_neg (not_le.mpr hf)]
  have he := updateRexPool_event hu
  have ha₁ : r₁.available = true := by
    obtain ⟨ret, change, -, ⟨-, rfl⟩ | ⟨-, p, hp, rfl⟩⟩ := updateRexPool_eq_ok hu
    · exact ha
    · rw [available, hp] at ha
      exact ha
  obtain ⟨p, hp, hr⟩ := exists_pool_of_available ha₁
  have h₁ := (EventFlow.single_zero he).mono (fun _ _ _ => id) hf.le
  have h₂ := h₁.trans (.single (.fee hp hr hf)) (by rw [zero_add, max_eq_right hf.le])
  rwa [zero_add] at h₂

/-! ## Expired loans -/

/-- **An expired loan** is closed or renewed. -/
theorem processExpiredLoan_event (hv : r.Valid now) (hr : r.Ready now) {key : Resource × ℕ}
    {loan : RexLoan} (hl : r.loans.find key = some loan) (he : loan.expiration ≤ now.usec)
    {deleteLoan : Bool} {deltaStake : ℤ}
    (h : r.processExpiredLoan now.sec key loan = .ok (r', deleteLoan, deltaStake)) :
    RexEvent now .loan 0 r
        (if deleteLoan then { r' with loans := r'.loans.erase key } else r') ∧
      (if deleteLoan then { r' with loans := r'.loans.erase key } else r').Ready now := by
  simp only [processExpiredLoan, removeLoanFromRexPool, getPool, rentTokens, bind_eq_ok,
    require_eq_ok, pure_eq_ok] at h
  obtain ⟨_, ⟨p, hp, delta, hd, rfl⟩, _, hp₁, rented, ho, h⟩ := h
  obtain rfl := Option.some.inj hp₁
  dsimp only at ho
  split_ifs at h with hc hb
  · -- the loan pays for another term
    obtain ⟨hbal, hrent, hav⟩ := hc
    simp only [addLoanToRexPool, getPool, bind_eq_ok, require_eq_ok, pure_eq_ok,
      Prod.mk.injEq] at h
    obtain ⟨_, ⟨r₁, hf, p₁, hp₁, rfl⟩, rfl, rfl, -⟩ := h
    have hpay := (hv.accounts.loan key loan hl).1
    have hset : ({ r with pool := some { p with
        totalRent := p.totalRent - delta
        totalUnlent := p.totalUnlent + loan.totalStaked
        totalLent := p.totalLent - loan.totalStaked
        totalLendable := p.totalUnlent + loan.totalStaked + (p.totalLent - loan.totalStaked) } } :
        RexState).ret.Settled now.sec := hr.settled
    obtain rfl := Except.ok.inj (hf.symm.trans (addToRexReturnPool_settled hset hpay))
    obtain rfl := Option.some.inj hp₁
    have hav' : r.loansAvailable = true := by
      rw [← hav, loansAvailable, loansAvailable, available, available, hp]
      rfl
    refine ⟨.renewLoan hl he hp hd ho hbal hrent hav', hr.addFee (fun p' hp' => ?_) rfl⟩
    cases hp'
    exact ⟨p, hp, rfl⟩
  · -- its balance goes back to the fund of its creator
    simp only [transferToFund, bind_eq_ok, check_eq_ok, exists_const, pure_eq_ok,
      Prod.mk.injEq] at h
    obtain ⟨_, ⟨-, rfl⟩, rfl, rfl, -⟩ := h
    have hevent := RexEvent.closeLoan (r := r) hl he hp hd
    rw [if_pos hb] at hevent
    refine ⟨hevent, hr.congr (fun p' hp' => ?_) rfl⟩
    cases hp'
    exact ⟨p, hp, rfl⟩
  · simp only [bind_eq_ok, pure_eq_ok, Prod.mk.injEq] at h
    obtain ⟨_, rfl, rfl, rfl, -⟩ := h
    have hevent := RexEvent.closeLoan (r := r) hl he hp hd
    rw [if_neg hb] at hevent
    refine ⟨hevent, hr.congr (fun p' hp' => ?_) rfl⟩
    cases hp'
    exact ⟨p, hp, rfl⟩

/-! ## Queued orders -/

theorem mem_openOrders {a : Name} :
    a ∈ r.openOrders ↔ ∃ o, r.orders.find a = some o ∧ o.isOpen = true := by
  simp only [openOrders, List.mem_map, List.mem_insertionSort, Prod.exists, exists_and_right,
    exists_eq_right]
  simp only [Table.mem_rows, Table.find_filter, Option.filter_eq_some_iff]

theorem nodup_openOrders (r : RexState) : r.openOrders.Nodup := by
  unfold openOrders
  refine (List.Perm.nodup_iff ((List.perm_insertionSort _ _).map Prod.fst)).mpr ?_
  rw [Table.rows_filter]
  have hkeys : (r.orders.rows.map Prod.fst).Nodup := by
    have h : r.orders.rows.map Prod.fst = r.orders.entries.keys := by
      simp [Table.rows, List.keys]
    rw [h]
    exact r.orders.nodupKeys
  exact hkeys.sublist (List.filter_sublist.map _)

/-- **A queued order** is filled or waits. -/
theorem fillQueuedOrder_event (hr : r.Ready now) {a : Name} {o : RexOrder}
    (ho : r.orders.find a = some o) (hopen : o.isOpen = true)
    (h : r.fillQueuedOrder a = .ok r') :
    EventFlow (RexEvent now .fill) 0 0 r r' ∧ r'.Ready now ∧
      ∀ b, b ≠ a → r'.orders.find b = r.orders.find b := by
  unfold fillQueuedOrder at h
  rw [ho] at h
  cases hb : r.balances.find a with
  | none =>
    rw [hb] at h
    obtain rfl := pure_eq_ok.mp h
    exact ⟨.refl_zero, hr, fun _ _ => rfl⟩
  | some rb =>
    rw [hb] at h
    obtain ⟨⟨r₁, result⟩, hf, h⟩ := bind_eq_ok.mp h
    obtain ⟨p, hp, hrex, ⟨hc, rfl, rfl⟩ | ⟨hc, rfl, rfl⟩⟩ := fillRexOrder_eq_ok hf
    · obtain rfl := pure_eq_ok.mp h
      refine ⟨.single_zero (.fill ho hopen hb hp hrex hc (hr.namebids p hp)),
        hr.congr (fun p' hp' => ?_) rfl, fun b hne => ?_⟩
      · cases hp'
        exact ⟨p, hp, rfl⟩
      · exact Table.find_set_ne _ _ hne
    · obtain rfl := pure_eq_ok.mp h
      exact ⟨.single_zero (.tryOrder ho hopen hb hp hrex hc),
        hr.congr (fun p' hp' => ⟨p', hp', rfl⟩) rfl, fun _ _ => rfl⟩

/-- Distinct open orders, one after the other. -/
theorem fillQueuedOrders_flow {l : List Name} (hr : r.Ready now) (hl : l.Nodup)
    (hopen : ∀ a ∈ l, ∃ o, r.orders.find a = some o ∧ o.isOpen = true)
    (h : r.fillQueuedOrders l = .ok r') :
    EventFlow (RexEvent now .fill) 0 0 r r' ∧ r'.Ready now := by
  induction l generalizing r with
  | nil =>
    obtain rfl := pure_eq_ok.mp h
    exact ⟨.refl_zero, hr⟩
  | cons a l ih =>
    obtain ⟨r₁, h₁, h₂⟩ := bind_eq_ok.mp h
    obtain ⟨o, ho, hopen₁⟩ := hopen a List.mem_cons_self
    obtain ⟨hf₁, hr₁, hframe⟩ := fillQueuedOrder_event hr ho hopen₁ h₁
    have hrest : ∀ b ∈ l, ∃ o, r₁.orders.find b = some o ∧ o.isOpen = true := by
      intro b hb
      rw [hframe b fun he => (List.nodup_cons.mp hl).1 (he ▸ hb)]
      exact hopen b (List.mem_cons_of_mem _ hb)
    obtain ⟨hf₂, hr₂⟩ := ih hr₁ (List.nodup_cons.mp hl).2 hrest h₂
    exact ⟨hf₁.trans_zero hf₂, hr₂⟩

end RexState

/-! ## Background work -/

variable {K : Type}

namespace State

variable {now : BlockTimestamp} {s s' : State K}

theorem processLoans_flow {kind : Resource} {max : ℕ} (hv : s.rex.Valid now)
    (hr : s.rex.Ready now) (h : s.processLoans now kind max = .ok s') :
    EventFlow (RexEvent now .loan) 0 0 s.rex s'.rex ∧ s'.rex.Ready now := by
  induction max generalizing s with
  | zero =>
    obtain rfl := pure_eq_ok.mp h
    exact ⟨.refl_zero, hr⟩
  | succ max ih =>
    unfold processLoans at h
    split at h
    · obtain rfl := pure_eq_ok.mp h
      exact ⟨.refl_zero, hr⟩
    · rename_i key loan hf
      split_ifs at h with he
      · obtain rfl := pure_eq_ok.mp h
        exact ⟨.refl_zero, hr⟩
      · obtain ⟨⟨rex, deleteLoan, deltaStake⟩, hp, h⟩ := bind_eq_ok.mp h
        obtain ⟨res, -, h⟩ := bind_eq_ok.mp h
        have hl : s.rex.loans.find key = some loan := by
          have := Table.find_of_first hf
          rw [Table.find_filter, Option.filter_eq_some_iff] at this
          exact this.1
        obtain ⟨hev, hr₁⟩ := RexState.processExpiredLoan_event hv hr hl (not_lt.mp he) hp
        obtain ⟨hf₂, hr₂⟩ := ih (hv.event hev) hr₁ h
        exact ⟨(EventFlow.single_zero hev).trans_zero hf₂, hr₂⟩

/-- Tokens of another account reach `eosio.rex`. -/
theorem balance_to_rex {t t' : Token} {a : Name} {q : ℤ} (ha : a ≠ rexAccount)
    (h : t.transfer a rexAccount q = .ok t') :
    t'.balance rexAccount = t.balance rexAccount + q := by
  rw [Token.balance_transfer h, if_neg ha.symm, if_pos rfl, add_zero]

/-- A fee for REX. -/
theorem channelToRex_flow {sender : Name} {amount : ℤ}
    (h : s.channelToRex now sender amount = .ok s') :
    ∃ q, EventFlow (RexEvent now .setup) q q s.rex s'.rex ∧
      (sender ≠ rexAccount → s'.token.balance rexAccount = s.token.balance rexAccount + q) := by
  rcases channelToRex_cases h with ⟨-, rfl⟩ | ⟨rex, token, ha, hf, ht, rfl⟩
  · exact ⟨0, .refl_zero, fun _ => (add_zero _).symm⟩
  · obtain ⟨-, hq, -, -⟩ := Token.transfer_eq_ok ht
    exact ⟨amount, RexState.addToRexReturnPool_flow ha hq hf, fun hs => balance_to_rex hs ht⟩

/-- The proceeds of name auctions, when nothing else is due. -/
theorem channelNamebids_flow (hset : s.rex.ret.Settled now.sec)
    (h : s.channelNamebids now = .ok s') :
    ∃ q, EventFlow (RexEvent now .setup) q q s.rex s'.rex ∧ s'.rex.Ready now ∧
      s'.token.balance rexAccount = s.token.balance rexAccount + q := by
  unfold channelNamebids at h
  simp only [RexState.getPool, bind_eq_ok, require_eq_ok] at h
  obtain ⟨p, hp, h⟩ := h
  split_ifs at h with hn
  · simp only [bind_eq_ok, require_eq_ok, pure_eq_ok] at h
    obtain ⟨s₁, hc, p₁, hp₁, rfl⟩ := h
    have hready : s₁.rex.ret.Settled now.sec → RexState.Ready now { s₁.rex with
        pool := some { p₁ with namebidProceeds := 0 } } := by
      refine fun hs => ⟨hs, fun p' hp' => ?_⟩
      cases hp'
      exact le_rfl
    obtain ⟨q, hflow, hb⟩ := channelToRex_flow hc
    have hpaid := hflow.trans (.single_zero (.namebidsPaid hp₁)) (by rw [add_zero])
    rw [add_zero] at hpaid
    refine ⟨q, hpaid, hready ?_, hb (by decide)⟩
    rcases channelToRex_cases hc with ⟨-, rfl⟩ | ⟨rex, token, -, hf, -, rfl⟩
    · exact hset
    · obtain rfl := Except.ok.inj (hf.symm.trans (RexState.addToRexReturnPool_settled hset hn))
      exact hset.addFee _
  · obtain rfl := pure_eq_ok.mp h
    refine ⟨0, .refl_zero, ⟨hset, fun p' hp' => ?_⟩, (add_zero _).symm⟩
    obtain rfl : p = p' := Option.some.inj (hp.symm.trans hp')
    exact not_lt.mp hn

/-- What the background work leaves behind: its events, the tokens that came with them, and
nothing that is due. -/
structure Background (now : BlockTimestamp) (q : ℤ) (s s' : State K) : Prop where
  flow : ∃ r₁ r₂, EventFlow (RexEvent now .setup) q q s.rex r₁ ∧
    EventFlow (RexEvent now .loan) 0 0 r₁ r₂ ∧ EventFlow (RexEvent now .fill) 0 0 r₂ s'.rex ∧
    ∀ p, r₁.pool = some p → (s.rex.ret.update now.sec).2 ≤ p.totalUnlent
  ready : s'.rex.Ready now
  valid : s'.rex.Valid now
  balance : s'.token.balance rexAccount = s.token.balance rexAccount + q

/-- What the return pool has paid is not lent yet. -/
theorem due_le_unlent {r r₀ r₁ : RexState} {q : ℤ} (hv : r.Valid now)
    (hu : r.updateRexPool now.sec = .ok r₀) (hf : EventFlow (RexEvent now .setup) q q r₀ r₁) :
    (r.ret.update now.sec).2 ≤ r₁.totals.totalUnlent := by
  refine le_trans ?_ (RexState.unlent_mono_setup hf)
  have hnonneg := hv.pool.unlent_nonneg
  obtain ⟨ret, change, hret, ⟨hc, rfl⟩ | ⟨hc, p, hp, rfl⟩⟩ := RexState.updateRexPool_eq_ok hu
  · rw [hret, hc]
    exact hnonneg
  · rw [RexState.totals_eq hp] at hnonneg
    rw [hret]
    show change ≤ p.totalUnlent + change
    omega

/-- What the return pool owes, and the auction proceeds. -/
theorem setup_flow {rex : RexState} {s₁ : State K} (hv : s.rex.Valid now)
    (hu : s.rex.updateRexPool now.sec = .ok rex)
    (hn : ({ s with rex } : State K).channelNamebids now = .ok s₁) :
    ∃ q, EventFlow (RexEvent now .setup) q q s.rex s₁.rex ∧ s₁.rex.Ready now ∧
      s₁.token.balance rexAccount = s.token.balance rexAccount + q ∧
      (s.rex.ret.update now.sec).2 ≤ s₁.rex.totals.totalUnlent := by
  have he := RexState.updateRexPool_event hu
  obtain ⟨hset, -⟩ := RexState.updateRexPool_settled hv.ret hu
  obtain ⟨q, hf, hr, hb⟩ := channelNamebids_flow hset hn
  have h₀ : EventFlow (RexEvent now .setup) q 0 s.rex rex :=
    (EventFlow.single_zero he).mono (fun _ _ _ => id) hf.peak_nonneg
  have h₁ := h₀.trans hf (by rw [zero_add])
  rw [zero_add] at h₁
  exact ⟨q, h₁, hr, hb, due_le_unlent hv hu hf⟩

/-- **The background work** as events. -/
theorem runrex_flow {max : ℕ} (hv : s.rex.Valid now) (h : s.runrex now max = .ok s') :
    ∃ q, Background now q s s' := by
  obtain ⟨rex, s₁, s₂, s₃, rex', -, hu, hn, hc, hnet, hfill, rfl⟩ := runrex_eq_ok h
  obtain ⟨q, hf₁, hr₁, hb, hdue⟩ := setup_flow hv hu hn
  have hv₁ := hv.flow hf₁
  obtain ⟨hf₂, hr₂⟩ := processLoans_flow hv₁ hr₁ hc
  have hv₂ := hv₁.flow hf₂
  obtain ⟨hf₃, hr₃⟩ := processLoans_flow hv₂ hr₂ hnet
  have hv₃ := hv₂.flow hf₃
  obtain ⟨hf₄, hr₄⟩ := RexState.fillQueuedOrders_flow hr₃
    ((RexState.nodup_openOrders _).sublist (List.take_sublist _ _))
    (fun a ha => RexState.mem_openOrders.mp (List.mem_of_mem_take ha)) hfill
  obtain ⟨_, _, rfl⟩ := processLoans_frame hc
  obtain ⟨_, _, rfl⟩ := processLoans_frame hnet
  refine ⟨q, ⟨s₁.rex, _, hf₁, hf₂.trans_zero hf₃, hf₄, fun p hp => ?_⟩, hr₄, hv₃.flow hf₄, hb⟩
  rw [← RexState.totals_eq hp]
  exact hdue

/-- Without a number of loans and orders to process, nothing else is done. -/
theorem runrex_zero_flow (hv : s.rex.Valid now) (h : s.runrex now 0 = .ok s') :
    ∃ q, EventFlow (RexEvent now .setup) q q s.rex s'.rex ∧
      s'.token.balance rexAccount = s.token.balance rexAccount + q := by
  obtain ⟨rex, s₁, s₂, s₃, rex', -, hu, hn, hc, hnet, hfill, rfl⟩ := runrex_eq_ok h
  obtain rfl := pure_eq_ok.mp hc
  obtain rfl := pure_eq_ok.mp hnet
  obtain rfl := pure_eq_ok.mp hfill
  obtain ⟨q, hf, -, hb, -⟩ := setup_flow hv hu hn
  exact ⟨q, hf, hb⟩

/-! ## Filled orders -/

/-- What does not depend on the amounts of a collected order. -/
structure CollectFrame (owner : Name) (pending : ℤ) (r r' : RexState) : Prop where
  balances : r'.balances = r.balances
  pool : r'.pool = r.pool
  ret : r'.ret = r.ret
  before : pending = r.reserved owner
  after : pending = r'.reserved owner
  isOpen : ∀ o, r'.orders.find owner = some o → o.isOpen = true

/-- The three ways to collect an order. -/
theorem collectOrder_cases {r r₁ : RexState} {owner : Name} {orderProceeds stakeChange pending : ℤ}
    (hc : r.collectOrder owner = (r₁, orderProceeds, stakeChange, pending)) :
    (r.orders.find owner = none ∧ r₁ = r ∧ orderProceeds = 0 ∧ stakeChange = 0 ∧ pending = 0) ∨
    (∃ o, r.orders.find owner = some o ∧ o.isOpen = true ∧ r₁ = r ∧ orderProceeds = 0 ∧
      stakeChange = 0 ∧ pending = o.rexRequested) ∨
    ∃ o, r.orders.find owner = some o ∧ o.isOpen = false ∧
      r₁ = { r with orders := r.orders.erase owner } ∧ orderProceeds = o.proceeds ∧
      stakeChange = o.stakeChange ∧ pending = 0 := by
  unfold RexState.collectOrder at hc
  cases ho : r.orders.find owner with
  | none =>
    rw [ho] at hc
    cases hc
    exact .inl ⟨rfl, rfl, rfl, rfl, rfl⟩
  | some o =>
    rw [ho] at hc
    dsimp only at hc
    split_ifs at hc with hopen
    · cases hc
      exact .inr (.inl ⟨o, rfl, hopen, rfl, rfl, rfl, rfl⟩)
    · cases hc
      exact .inr (.inr ⟨o, rfl, by simpa using hopen, rfl, rfl, rfl, rfl⟩)

/-- The proceeds go to the fund of the owner, if there are any. -/
theorem transferToFund_if {r r' : RexState} {owner : Name} {q : ℤ}
    (ht : (if 0 < q then r.transferToFund owner q else pure r) = .ok r') :
    0 < q ∧ r' = { r with funds := r.funds.set owner ((r.funds.find owner).getD 0 + q) } ∨
      q ≤ 0 ∧ r' = r := by
  split_ifs at ht with hpos
  · simp only [RexState.transferToFund, bind_eq_ok, check_eq_ok, exists_const, pure_eq_ok] at ht
    obtain ⟨-, rfl⟩ := ht
    exact .inl ⟨hpos, rfl⟩
  · exact .inr ⟨not_lt.mp hpos, (pure_eq_ok.mp ht).symm⟩

theorem collectOrder_frame {r r₁ r' : RexState} {owner : Name} {proceeds orderProceeds stakeChange
    pending : ℤ} (hc : r.collectOrder owner = (r₁, orderProceeds, stakeChange, pending))
    (ht : (if 0 < proceeds + orderProceeds then r₁.transferToFund owner (proceeds + orderProceeds)
      else pure r₁) = .ok r') : CollectFrame owner pending r r' := by
  have h₁ : CollectFrame owner pending r r₁ := by
    rcases collectOrder_cases hc with ⟨ho, rfl, -, -, rfl⟩ | ⟨o, ho, hopen, rfl, -, -, rfl⟩ |
      ⟨o, ho, hclosed, rfl, -, -, rfl⟩
    · have hres := RexState.reserved_of_none ho
      exact ⟨rfl, rfl, rfl, hres.symm, hres.symm, by simp [ho]⟩
    · have hres : r₁.reserved owner = o.rexRequested := by
        rw [RexState.reserved_eq ho, if_pos hopen]
      refine ⟨rfl, rfl, rfl, hres.symm, hres.symm, fun o' ho' => ?_⟩
      obtain rfl := Option.some.inj (ho.symm.trans ho')
      exact hopen
    · refine ⟨rfl, rfl, rfl, ?_, ?_, fun o' ho' => ?_⟩
      · rw [RexState.reserved_eq ho, hclosed]
        rfl
      · exact (RexState.reserved_of_none (Table.find_erase_self _ _)).symm
      · rw [Table.find_erase_self] at ho'
        cases ho'
  rcases transferToFund_if ht with ⟨-, rfl⟩ | ⟨-, rfl⟩
  · exact ⟨h₁.balances, h₁.pool, h₁.ret, h₁.before, h₁.after, h₁.isOpen⟩
  · exact h₁

/-- Collecting an order, without the votes. -/
theorem collectOrder_flow {r r₁ r' : RexState} {owner : Name} {proceeds orderProceeds stakeChange
    pending : ℤ} (hv : r.Valid now) (hq : 0 ≤ proceeds)
    (hc : r.collectOrder owner = (r₁, orderProceeds, stakeChange, pending))
    (ht : (if 0 < proceeds + orderProceeds then r₁.transferToFund owner (proceeds + orderProceeds)
      else pure r₁) = .ok r') :
    EventFlow (RexEvent now .own) proceeds proceeds r r' := by
  -- first the order, then the fund
  obtain ⟨hnonneg, hflow⟩ : 0 ≤ orderProceeds ∧
      EventFlow (RexEvent now .own) 0 (-orderProceeds) r r₁ := by
    rcases collectOrder_cases hc with ⟨-, rfl, rfl, -, -⟩ | ⟨o, -, -, rfl, rfl, -, -⟩ |
      ⟨o, ho, hclosed, rfl, rfl, -, -⟩
    · exact ⟨le_rfl, neg_zero (G := ℤ) ▸ .refl_zero⟩
    · exact ⟨le_rfl, neg_zero (G := ℤ) ▸ .refl_zero⟩
    · have hnonneg := hv.pool.closed owner o ho hclosed
      have h₁ : EventFlow (RexEvent now .own) (max 0 (-o.proceeds)) (-o.proceeds) r _ :=
        .single (.collect ho hclosed)
      rw [max_eq_left (by omega)] at h₁
      exact ⟨hnonneg, h₁⟩
  rcases transferToFund_if ht with ⟨hpos, rfl⟩ | ⟨hle, rfl⟩
  · have hmax : max 0 (proceeds + orderProceeds) = proceeds + orderProceeds := max_eq_right hpos.le
    exact ((hflow.mono (fun _ _ _ => id) hq).trans (.single (.credit hpos)) (by omega)).cast
      (by ring) le_rfl
  · obtain ⟨rfl, rfl⟩ : proceeds = 0 ∧ orderProceeds = 0 := by omega
    exact hflow

/-- What is known after the filled order of an owner has been collected. -/
structure Collected (now : BlockTimestamp) (owner : Name) (q pending : ℤ) (s s' : State K) :
    Prop where
  flow : EventFlow (RexEvent now .own) q q s.rex s'.rex
  valid : s'.rex.Valid now
  frame : CollectFrame owner pending s.rex s'.rex
  token : s'.token = s.token

variable [Field K] [LinearOrder K] [CMath K]

theorem updateRexAccount_frame {owner : Name} {proceeds deltaStake pending : ℤ} {force : Bool}
    (h : s.updateRexAccount now owner proceeds deltaStake force = .ok (s', pending)) :
    CollectFrame owner pending s.rex s'.rex ∧ s'.token = s.token := by
  obtain ⟨r₁, orderProceeds, stakeChange, rex, vote, hc, ht, -, rfl⟩ := updateRexAccount_eq_ok h
  exact ⟨collectOrder_frame hc ht, rfl⟩

theorem updateRexAccount_collected {owner : Name} {proceeds deltaStake pending : ℤ}
    {force : Bool} (hv : s.rex.Valid now) (hq : 0 ≤ proceeds)
    (h : s.updateRexAccount now owner proceeds deltaStake force = .ok (s', pending)) :
    Collected now owner proceeds pending s s' := by
  obtain ⟨r₁, orderProceeds, stakeChange, rex, vote, hc, ht, -, rfl⟩ := updateRexAccount_eq_ok h
  have hf := collectOrder_flow hv hq hc ht
  exact ⟨hf, hv.flow hf, collectOrder_frame hc ht, rfl⟩

end State

end EosioSystem
