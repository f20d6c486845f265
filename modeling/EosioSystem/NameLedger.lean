import EosioSystem.NamePayouts

/-!
# The tokens of name bids

The tokens of `eosio.names` are the high bids of the open auctions, the bids that can be refunded,
the proceeds that wait for REX and for the staking pools, and what was left of a closed bid that
neither could take.

## Main definitions

* `NameState.openBids`, `NameState.refundTotal`: the tokens of the bidders
* `State.leftInPlace`: what nobody takes of the bids that a step closes
* `NameBooks`: the books along a run

## Main results

* `nameBooks_of_run`: **the books balance**, and no payment lacks tokens
-/

namespace EosioSystem

open Checked

variable {K : Type}

/-! ## Payments that lack no tokens -/

/-- The error of a transfer of more than there is. -/
def overdrawn : List Error := ["overdrawn balance"]

section Avoids

variable {s s' : State K} {now : BlockTimestamp}

theorem Token.transfer_avoids_overdrawn {t : Token} {a b : Name} {q : ℤ}
    (h : q ≤ t.balance a) : Avoids overdrawn (t.transfer a b q) :=
  .bind (.check (.inl (by decide))) fun _ _ => .bind (.check (.inl (by decide))) fun _ _ =>
    .bind (.check (.inr h)) fun _ _ => .pure _

theorem RexState.updateRexPool_avoids (r : RexState) (t : ℕ) :
    Avoids overdrawn (r.updateRexPool t) := by
  unfold updateRexPool
  exact .ite (.bind (.require (by decide)) fun _ _ => .pure _) (.pure _)

theorem RexState.addToRexReturnPool_avoids (r : RexState) (t : ℕ) (fee : ℤ) :
    Avoids overdrawn (r.addToRexReturnPool t fee) :=
  .bind (r.updateRexPool_avoids t) fun _ _ => .pure _

theorem getBancorOutput_avoids (a b q : ℤ) : Avoids overdrawn (getBancorOutput a b q) :=
  .bind (.check (.inl (by decide))) fun _ _ => .pure _

theorem RexState.processExpiredLoan_avoids (r : RexState) (t : ℕ) (key : Resource × ℕ)
    (loan : RexLoan) : Avoids overdrawn (r.processExpiredLoan t key loan) := by
  have hpool (r : RexState) : Avoids overdrawn r.getPool := .require (by decide)
  refine .bind ?_ fun _ _ => .bind (hpool _) fun _ _ =>
    .bind (getBancorOutput_avoids _ _ _) fun _ _ => .ite ?_ ?_
  · exact .bind (hpool _) fun _ _ => .bind (getBancorOutput_avoids _ _ _) fun _ _ => .pure _
  · refine .bind ?_ fun _ _ => .pure _
    exact .bind (addToRexReturnPool_avoids _ _ _) fun _ _ => .bind (hpool _) fun _ _ => .pure _
  · refine .bind (.ite ?_ (.pure _)) fun _ _ => .pure _
    exact .bind (.check (.inl (by decide))) fun _ _ => .pure _

theorem RexState.fillRexOrder_avoids (r : RexState) (owner : Name) (rb : RexBalance) (rex : ℤ) :
    Avoids overdrawn (r.fillRexOrder owner rb rex) := by
  have hvalue (a b c : ℤ) : Avoids overdrawn (rexValue a b c) :=
    .bind (.check (.inl (by decide))) fun _ _ => .pure _
  exact .bind (.require (by decide)) fun _ _ => .bind (hvalue _ _ _) fun _ _ =>
    .ite (.bind (hvalue _ _ _) fun _ _ => .pure _) (.pure _)

theorem RexState.fillQueuedOrders_avoids (r : RexState) (l : List Name) :
    Avoids overdrawn (r.fillQueuedOrders l) := by
  induction l generalizing r with
  | nil => exact .pure _
  | cons a l ih =>
    refine .bind ?_ fun r' _ => ih r'
    unfold fillQueuedOrder
    split
    · exact .bind (r.fillRexOrder_avoids _ _ _) fun _ _ => .ite (.pure _) (.pure _)
    · exact .pure _

theorem State.updateLimits_avoids (s : State K) (kind : Resource) (a : Name) (delta : ℤ) :
    Avoids overdrawn (s.updateLimits kind a delta) := by
  unfold updateLimits ResourceState.updateResourceLimits
  refine .ite (.pure _) (.bind (.check (.inl (by decide))) fun _ _ => .bind ?_ fun _ _ => .pure _)
  exact .bind (.check (.inl (by decide))) fun _ _ => .bind (.check (.inl (by decide))) fun _ _ =>
    .pure _

theorem State.processLoans_avoids (s : State K) (kind : Resource) (max : ℕ) :
    Avoids overdrawn (s.processLoans now kind max) := by
  induction max generalizing s with
  | zero => exact .pure _
  | succ max ih =>
    unfold processLoans
    split
    · exact .pure _
    · exact .ite (.pure _) (.bind (RexState.processExpiredLoan_avoids _ _ _ _) fun _ _ =>
        .bind (updateLimits_avoids _ _ _ _) fun _ _ => ih _)

theorem State.channelNamebids_avoids (h : s.rex.namebids ≤ s.token.balance namesAccount) :
    Avoids overdrawn (s.channelNamebids now) := by
  refine .bind (.require (by decide)) fun p hp => .ite ?_ (.pure _)
  rw [RexState.namebids_eq (require_eq_ok.mp hp)] at h
  refine .bind (.ite ?_ (.pure _)) fun _ _ => .bind (.require (by decide)) fun _ _ => .pure _
  exact .bind (RexState.addToRexReturnPool_avoids _ _ _) fun _ _ =>
    .bind (Token.transfer_avoids_overdrawn h) fun _ _ => .pure _

/-- **The background work** lacks no tokens. -/
theorem State.runrex_avoids (h : s.rex.namebids ≤ s.token.balance namesAccount) (max : ℕ) :
    Avoids overdrawn (s.runrex now max) := by
  refine .bind (.check (.inl (by decide))) fun _ _ =>
    .bind (RexState.updateRexPool_avoids _ _) fun rex hu => .bind (channelNamebids_avoids ?_)
      fun _ _ => .bind (processLoans_avoids _ _ _) fun _ _ =>
        .bind (processLoans_avoids _ _ _) fun _ _ =>
          .bind (RexState.fillQueuedOrders_avoids _ _) fun _ _ => .pure _
  exact (RexState.updateRexPool_namebids hu).le.trans h

/-- **The distribution to the pools** lacks no tokens. -/
theorem State.distributeNamebidToPools_avoids [Field K] [LinearOrder K]
    (h : s.pools.namebids ≤ s.token.balance namesAccount) :
    Avoids overdrawn (s.distributeNamebidToPools now) := by
  unfold distributeNamebidToPools
  split
  · exact .pure _
  · rename_i st hst
    have hn : st.namebidProceeds ≤ s.token.balance namesAccount := by
      rwa [PoolTables.namebids, hst] at h
    refine .ite (.bind ?_ fun _ _ => .pure _) (.pure _)
    unfold transitionChannelToPools
    rw [hst]
    exact .ite (.pure _) (.bind (Token.transfer_avoids_overdrawn hn) fun _ _ => .pure _)

end Avoids

/-! ## The books -/

namespace NameState

/-- The high bids of the open auctions. -/
def openBids (ns : NameState) : ℤ := ns.bids.sum fun _ b => if 0 < b.highBid then b.highBid else 0

/-- The bids that can be refunded. -/
def refundTotal (ns : NameState) : ℤ := ns.refunds.sum fun _ q => q

variable {ns ns' : NameState}

theorem openBids_nonneg (ns : NameState) : 0 ≤ ns.openBids :=
  Table.sum_nonneg fun _ _ _ => by split_ifs <;> omega

theorem refundTotal_nonneg (h : ∀ k q, ns.refunds.find k = some q → 0 < q) : 0 ≤ ns.refundTotal :=
  Table.sum_nonneg fun k q hq => (h k q hq).le

/-- A bid brings its tokens. -/
theorem bidAccepted_total {now : BlockTimestamp} {bidder newname : Name} {bid : ℤ} (hpos : 0 < bid)
    (h : BidAccepted now ns bidder newname bid ns') :
    ns'.openBids + ns'.refundTotal = ns.openBids + ns.refundTotal + bid := by
  have hnew : (ns.setBid now bidder newname bid).openBids =
      ns.openBids - (ns.bids.find newname).elim 0 (fun b => if 0 < b.highBid then b.highBid else 0)
        +
        bid := by
    rw [openBids, setBid, Table.sum_set_elim, if_pos hpos, openBids]
  cases h with
  | start hf =>
    rw [hnew, hf, Option.elim_none]
    show _ + ns.refundTotal = _
    ring
  | @raise b ho hlt =>
    show (ns.setBid now bidder newname bid).openBids + _ = _
    rw [hnew, ho.1, Option.elim_some, if_pos ho.2, refundTotal, Table.sum_set_elim, refundTotal,
      refundable]
    cases ns.refunds.find (b.highBidder, newname) with
    | none =>
      simp only [Option.getD_none, Option.elim_none]
      ring
    | some q =>
      simp only [Option.getD_some, Option.elim_some]
      ring

end NameState

/-- What neither REX nor, for their part, the pools can take of a bid. -/
def State.unclaimedNamebid [Field K] [LinearOrder K] (s : State K) (now : BlockTimestamp)
    (bid : ℤ) : ℤ := if s.rex.available then 0 else bid - s.poolsNamebid now bid

/-- What is left in place of the bids that a step closes. -/
def State.leftInPlace [Field K] [LinearOrder K] (s s' : State K) (now : BlockTimestamp) : ℤ :=
  s.names.bids.sum fun n b =>
    if 0 < b.highBid ∧ ((s'.names.bids.find n).any fun b' => decide (b'.highBid < 0)) = true then
      s.unclaimedNamebid now b.highBid
    else 0

variable [Field K] [LinearOrder K]

/-- The parts of a bid. -/
theorem State.unclaimedNamebid_eq (s : State K) (now : BlockTimestamp) (bid : ℤ) :
    s.unclaimedNamebid now bid = bid - s.poolsNamebid now bid - s.rexNamebid now bid := by
  unfold unclaimedNamebid rexNamebid
  split_ifs <;> ring

theorem State.rexNamebid_nonneg (s : State K) (now : BlockTimestamp) {bid : ℤ} (hb : 0 ≤ bid) :
    0 ≤ s.rexNamebid now bid := by
  have hq := s.poolsNamebid_mem now hb
  unfold rexNamebid
  split_ifs <;> omega

theorem State.unclaimedNamebid_nonneg (s : State K) (now : BlockTimestamp) {bid : ℤ}
    (hb : 0 ≤ bid) : 0 ≤ s.unclaimedNamebid now bid := by
  have hq := s.poolsNamebid_mem now hb
  unfold unclaimedNamebid
  split_ifs <;> omega

/-- What the books of a state hold, when `rest` has been left in place. -/
structure NameBooks (t : BlockTimestamp) (s : State K) (rest : ℤ) : Prop where
  valid : s.rex.Valid t
  due : s.rex.NamebidsDue
  rex : 0 ≤ s.rex.namebids
  pools : 0 ≤ s.pools.namebids
  refunds : ∀ k q, s.names.refunds.find k = some q → 0 < q
  rest_nonneg : 0 ≤ rest
  balance : s.token.balance namesAccount =
    s.names.openBids + s.names.refundTotal + s.rex.namebids + s.pools.namebids + rest

namespace State

variable {s s' : State K} {now : BlockTimestamp}

omit [Field K] [LinearOrder K] in
/-- The proceeds are recorded where they wait. -/
theorem addNamebids_namebids (q r : ℤ) (hr : r = 0 ∨ s.rex.available = true)
    (hq : q = 0 ∨ s.pools.state.isSome) :
    (s.addNamebids q r).rex.namebids = s.rex.namebids + r ∧
      (s.addNamebids q r).pools.namebids = s.pools.namebids + q := by
  unfold RexState.namebids PoolTables.namebids addNamebids
  constructor
  · cases hp : s.rex.pool with
    | none =>
      have ha : s.rex.available = false := by rw [RexState.available, hp]; rfl
      obtain rfl : r = 0 := by simpa [ha] using hr
      rfl
    | some p => rfl
  · cases hst : s.pools.state with
    | none =>
      obtain rfl : q = 0 := by simpa [hst] using hq
      rfl
    | some st => rfl

/-- Nothing is left in place by a step that closes no auction. -/
theorem leftInPlace_eq_zero (h : ∀ n b b', s.names.IsOpen n b → ¬s'.names.IsClosed n b') :
    s.leftInPlace s' now = 0 := by
  refine Table.sum_eq_zero fun n b hf => if_neg ?_
  rintro ⟨hpos, hany⟩
  obtain ⟨b', hf', hneg⟩ := (Option.any_eq_true _ _).mp hany
  exact h n b b' ⟨hf, hpos⟩ ⟨hf', of_decide_eq_true hneg⟩

/-- What is left in place of the one bid that a block closes. -/
theorem leftInPlace_close {timestamp : BlockTimestamp} {n : Name} {b : NameBid}
    (hf : s.names.bids.find n = some b) (hpos : 0 < b.highBid)
    (hs : s'.names = s.names.close timestamp n b) :
    s.leftInPlace s' now = s.unclaimedNamebid now b.highBid := by
  have hrow (n' : Name) : s'.names.bids.find n' =
      if n' = n then some { b with highBid := -b.highBid } else s.names.bids.find n' := by
    rw [hs]
    exact Table.find_set ..
  rw [leftInPlace, ← Table.sum_erase_add _ n, hf, Option.elim_some, if_pos, Table.sum_eq_zero,
    add_zero]
  · -- the other auctions stay open
    intro n' b' hf'
    rw [Table.find_erase] at hf'
    split_ifs at hf' with hn
    refine if_neg ?_
    rintro ⟨hpos', hany⟩
    rw [hrow, if_neg hn, hf'] at hany
    exact hpos'.not_gt (of_decide_eq_true hany)
  · refine ⟨hpos, ?_⟩
    rw [hrow, if_pos rfl]
    exact decide_eq_true (neg_neg_of_pos hpos)

end State

/-! ## Steps -/

namespace NameBooks

variable [FloorRing K] [CMath K] {t : BlockTimestamp} {env : Env} {x : Action K} {s s' : State K}
  {rest : ℤ}

omit [Field K] [LinearOrder K] [FloorRing K] [CMath K] in
theorem due_opening {now : BlockTimestamp} {q : ℤ} {r r' : RexState} (h : r.NamebidsDue)
    (ho : RexOpening now q r r') : r'.NamebidsDue := by
  cases ho with
  | none => exact h
  | fromFund hf hle hp =>
    refine RexState.NamebidsDue.purchase ?_ hp
    exact h.congr rfl
  | fromStake hp => exact h.purchase hp

/-- The REX tables stay in order, with REX for the proceeds. -/
theorem exec_rex (hb : NameBooks t s rest) (ht : t ≤ env.now) (h : x.exec env s = .ok s') :
    s'.rex.Valid env.now ∧ s'.rex.NamebidsDue := by
  have hv := hb.valid.mono ht
  obtain ⟨q, ha, -⟩ := Action.exec_rex hv h
  exact hv.action_keeps ha (fun _ _ _ _ hdue ho => due_opening hdue ho)
    (fun _ _ _ _ _ hdue he => hdue.event he) hb.due

/-- A payout is booked. -/
theorem payout (hb : NameBooks t s rest) (ht : t ≤ env.now) (h : x.exec env s = .ok s')
    (hm : x.mover ≠ some namesAccount) (hx : x.onNames = false) :
    NameBooks env.now s' rest ∧ s.leftInPlace s' env.now = 0 := by
  have hp := Action.exec_payout hb.due h hm hx
  have hns := Action.exec_names h
  obtain ⟨hv, hdue⟩ := hb.exec_rex ht h
  obtain ⟨hopen, hrefunds, hleft⟩ : s'.names.openBids = s.names.openBids ∧
      s'.names.refunds = s.names.refunds ∧ s.leftInPlace s' env.now = 0 := by
    have hzero (hkeep : ∀ n b, s'.names.bids.find n = some b → s.names.bids.find n = some b) :
        s.leftInPlace s' env.now = 0 := by
      refine State.leftInPlace_eq_zero fun n b b' ho hc => ?_
      obtain rfl := Option.some.inj (ho.1.symm.trans (hkeep n b' hc.1))
      exact ho.2.not_gt hc.2
    generalize hn : s'.names = ns' at hns hzero
    cases hns with
    | bid => cases hx
    | refund => cases hx
    | close => cases hx
    | consume hne hc _ =>
      refine ⟨?_, rfl, hzero fun n b hf => ?_⟩
      · rw [NameState.openBids, Table.sum_erase hc.1, if_neg hc.2.not_gt, sub_zero,
          NameState.openBids]
      · rw [Table.find_erase] at hf
        split_ifs at hf
        exact hf
    | other => exact ⟨rfl, rfl, hzero fun _ _ hf => hf⟩
  refine ⟨⟨hv, hdue, hp.rex_nonneg hb.rex, hp.pools_nonneg hb.pools, ?_, hb.rest_nonneg, ?_⟩, hleft⟩
  · rw [hrefunds]
    exact hb.refunds
  · have hfree := hp.free_eq
    have hbal := hb.balance
    rw [hopen, NameState.refundTotal, hrefunds, ← NameState.refundTotal]
    omega

/-- A bid is booked. -/
theorem bidname (hb : NameBooks t s rest) (ht : t ≤ env.now) {bidder newname : Name} {bid : Asset}
    (h : s.bidname env bidder newname bid = .ok s') (hm : bidder ≠ namesAccount) :
    NameBooks env.now s' rest ∧ s.leftInPlace s' env.now = 0 := by
  have hexec : (Action.bidname bidder newname bid).exec env s = .ok s' := h
  obtain ⟨hv, hdue⟩ := hb.exec_rex ht hexec
  have hch := Action.exec_changes hexec
  have hrex : s'.rex = s.rex := hch.same .rex (by simp [Action.parts])
  have hpools : s'.pools = s.pools := hch.same .pools (by simp [Action.parts])
  obtain ⟨-, hpos, -, htoken, hacc⟩ := State.bidname_eq_ok h
  refine ⟨⟨hv, hdue, hrex ▸ hb.rex, hpools ▸ hb.pools, ?_, hb.rest_nonneg, ?_⟩, ?_⟩
  · generalize s'.names = ns' at hacc
    cases hacc with
    | start => exact hb.refunds
    | raise ho =>
      intro k q hq
      rw [Table.find_set] at hq
      split_ifs at hq
      · obtain rfl := Option.some.inj hq
        have hopen := ho.2
        unfold NameState.refundable
        cases hf : s.names.refunds.find _ with
        | none => simpa using hopen
        | some q' =>
          have := hb.refunds _ _ hf
          simp only [Option.getD_some]
          omega
      · exact hb.refunds k q hq
  · have htotal := NameState.bidAccepted_total hpos hacc
    have hbal := hb.balance
    rw [hrex, hpools, Token.balance_transfer htoken, if_neg hm.symm, if_pos rfl]
    omega
  · refine State.leftInPlace_eq_zero fun n b b' ho hc => ?_
    cases (Action.exec_names hexec).at_name n with
    | same hs =>
      obtain rfl := Option.some.inj (ho.1.symm.trans (hs.symm.trans hc.1))
      exact ho.2.not_gt hc.2
    | bid _ _ hs _ =>
      obtain rfl := Option.some.inj (hs.symm.trans hc.1)
      exact hpos.not_gt hc.2

/-- A refund is booked. -/
theorem bidrefund (hb : NameBooks t s rest) (ht : t ≤ env.now) {bidder newname : Name}
    (h : s.bidrefund bidder newname = .ok s') :
    NameBooks env.now s' rest ∧ s.leftInPlace s' env.now = 0 := by
  obtain ⟨hv, hdue⟩ := hb.exec_rex (x := .bidrefund bidder newname) ht h
  simp only [State.bidrefund, bind_eq_ok, require_eq_ok, pure_eq_ok] at h
  obtain ⟨q, hf, token, htoken, rfl⟩ := h
  obtain ⟨hne, -⟩ := Token.transfer_eq_ok htoken
  refine ⟨⟨hv, hdue, hb.rex, hb.pools, ?_, hb.rest_nonneg, ?_⟩, ?_⟩
  · intro k q' hq
    rw [Table.find_erase] at hq
    split_ifs at hq
    exact hb.refunds k q' hq
  · have hbal := hb.balance
    have htotal : (s.names.refunds.erase (bidder, newname)).sum (fun _ q => q) =
        s.names.refundTotal - q := Table.sum_erase hf _
    show token.balance namesAccount = s.names.openBids + _ + s.rex.namebids + s.pools.namebids +
      rest
    rw [Token.balance_transfer htoken, if_pos rfl, if_neg hne, NameState.refundTotal, htotal]
    omega
  · refine State.leftInPlace_eq_zero fun n b b' ho hc => ?_
    obtain rfl := Option.some.inj (ho.1.symm.trans hc.1)
    exact ho.2.not_gt hc.2

omit [FloorRing K] [CMath K] in
/-- What a block records. -/
theorem onblock_namebids (s : State K) (now timestamp : BlockTimestamp) (producer : Name) :
    ∃ q r, (s.onblock now timestamp producer).token = s.token ∧
      (s.onblock now timestamp producer).rex.namebids = s.rex.namebids + r ∧
      (s.onblock now timestamp producer).pools.namebids = s.pools.namebids + q ∧
      s.BidClosed now timestamp q r (s.onblock now timestamp producer).names := by
  obtain ⟨a, b, c, q, r, names, pay, producers, he, -, hb⟩ := s.onblock_eq now timestamp producer
  rw [he]
  set s₁ : State K := { s with pools := { s.pools with state := s.pools.state.map fun st =>
    { st with intervalStart := a, blocks := b, unpaidBlocks := c } } }
  have hpools : s₁.pools.namebids = s.pools.namebids := by
    rw [PoolTables.namebids, PoolTables.namebids]
    cases hst : s.pools.state <;> simp [s₁, hst]
  have hadd := s₁.addNamebids_namebids q r (by
    cases hb with
    | same => exact .inl rfl
    | closed =>
      unfold State.rexNamebid
      split_ifs with ha
      · exact .inr ha
      · exact .inl rfl) (by
    cases hb with
    | same => exact .inl rfl
    | closed =>
      unfold State.poolsNamebid
      split
      · exact .inl rfl
      · rename_i st hst
        exact .inr (by simp [s₁, hst]))
  rw [hpools] at hadd
  exact ⟨q, r, rfl, hadd.1, hadd.2, hb⟩

/-- The proceeds of a closed auction are booked. -/
theorem onblock (hb : NameBooks t s rest) (ht : t ≤ env.now) (timestamp : BlockTimestamp)
    (producer : Name) : NameBooks env.now (s.onblock env.now timestamp producer)
      (rest + s.leftInPlace (s.onblock env.now timestamp producer) env.now) := by
  obtain ⟨hv, hdue⟩ := hb.exec_rex (x := .onblock timestamp producer) ht rfl
  obtain ⟨q, r, htoken, hrex, hpools, hclosed⟩ := onblock_namebids s env.now timestamp producer
  generalize s.onblock env.now timestamp producer = s' at *
  have hbal := hb.balance
  have hrest := hb.rest_nonneg
  have hrex₀ := hb.rex
  have hpools₀ := hb.pools
  generalize hn : s'.names = ns' at hclosed
  cases hclosed with
  | same =>
    have hleft : s.leftInPlace s' env.now = 0 := by
      refine State.leftInPlace_eq_zero fun n b b' ho hc => ?_
      rw [hn] at hc
      obtain rfl := Option.some.inj (ho.1.symm.trans hc.1)
      exact ho.2.not_gt hc.2
    rw [hleft]
    refine ⟨hv, hdue, by omega, by omega, ?_, by omega, ?_⟩
    · rw [hn]
      exact hb.refunds
    · rw [htoken, hn]
      omega
  | @closed n b hc =>
    have hpos := hc.pos
    have hq := (s.poolsNamebid_mem env.now hpos.le).1
    have hr := s.rexNamebid_nonneg env.now hpos.le
    have hu := s.unclaimedNamebid_nonneg env.now hpos.le
    have hparts := s.unclaimedNamebid_eq env.now b.highBid
    have hopen : (s.names.close timestamp n b).openBids = s.names.openBids - b.highBid := by
      rw [NameState.openBids, NameState.close, Table.sum_set hc.find, if_pos hpos,
        if_neg (by dsimp only; omega), add_zero, NameState.openBids]
    rw [State.leftInPlace_close hc.find hpos hn]
    refine ⟨hv, hdue, by omega, by omega, ?_, by omega, ?_⟩
    · rw [hn]
      exact hb.refunds
    · have hrefunds : (s.names.close timestamp n b).refundTotal = s.names.refundTotal := rfl
      rw [htoken, hn, hopen, hrefunds]
      omega

/-- **Every action** is booked, if it moves no tokens of `eosio.names` as a user. -/
theorem exec (hb : NameBooks t s rest) (ht : t ≤ env.now) (h : x.exec env s = .ok s')
    (hm : x.mover ≠ some namesAccount) :
    NameBooks env.now s' (rest + s.leftInPlace s' env.now) := by
  by_cases hx : x.onNames = false
  · obtain ⟨hb', hleft⟩ := hb.payout ht h hm hx
    rwa [hleft, add_zero]
  · cases x with
    | bidname bidder newname bid =>
      obtain ⟨hb', hleft⟩ := hb.bidname ht h fun he => hm (by rw [he]; rfl)
      rwa [hleft, add_zero]
    | bidrefund bidder newname =>
      obtain ⟨hb', hleft⟩ := hb.bidrefund ht h
      rwa [hleft, add_zero]
    | onblock timestamp producer =>
      obtain rfl := Except.ok.inj h
      exact hb.onblock ht timestamp producer
    | _ => exact absurd rfl hx

end NameBooks

/-! ## Runs -/

/-- No name has been bid on, there is no REX and there are no pools, and `eosio.names` has no
tokens. -/
def NamesStart (p : State K × ℤ) : Prop :=
  p.1.rex = .empty ∧ p.1.pools.state = none ∧ p.1.names.bids = .empty ∧
    p.1.names.refunds = .empty ∧ p.1.token.balance namesAccount = 0 ∧ p.2 = 0

variable [FloorRing K] [CMath K]

/-- A step of a run that counts what is left in place. -/
def LedgerStep (allowed : State K → Action K → Prop) (t : BlockTimestamp) (p p' : State K × ℤ) :
    Prop := Step allowed t p.1 p'.1 ∧ p'.2 = p.2 + p.1.leftInPlace p'.1 t

/-- The actions that move no tokens of `eosio.names` as those of a user. -/
def NamesKept (_ : State K) (x : Action K) : Prop := x.mover ≠ some namesAccount

theorem nameBooks_kept {t : BlockTimestamp} {s : State K} {rest : ℤ}
    (h : Run NamesStart (LedgerStep NamesKept) t (s, rest)) : NameBooks t s rest := by
  refine h.invariant_at (P := fun t p => NameBooks t p.1 p.2) ?_ ?_
  · rintro t ⟨s, rest⟩ ⟨hrex, hpools, hbids, hrefunds, hbal, hrest⟩
    dsimp only at *
    refine ⟨hrex ▸ RexState.valid_empty t, ?_, ?_, ?_, ?_, hrest.ge, ?_⟩
    · rw [hrex]
      exact fun hn => absurd hn (lt_irrefl _)
    · rw [hrex]
      exact le_rfl
    · rw [PoolTables.namebids, hpools]
      exact le_rfl
    · rw [hrefunds]
      rintro k q hq
      cases hq
    · rw [NameState.openBids, NameState.refundTotal, PoolTables.namebids, hbids, hrefunds, hpools,
        hrex, hbal, hrest]
      rfl
  · rintro t t' ⟨s, rest⟩ ⟨s', rest'⟩ hb ht ⟨⟨isAccount, x, hm, he⟩, hrest⟩
    dsimp only at *
    rw [hrest]
    exact hb.exec ht he hm

/-- A bid, a refund or a block takes nothing from the proceeds. -/
theorem namebids_le {env : Env} {x : Action K} {s s' : State K}
    (h : x.exec env s = .ok s') (hx : x.onNames = true) :
    s.rex.namebids ≤ s'.rex.namebids ∧ s.pools.namebids ≤ s'.pools.namebids := by
  have hsame (hr : Part.rex ∉ x.parts) (hp : Part.pools ∉ x.parts) :
      s.rex.namebids ≤ s'.rex.namebids ∧ s.pools.namebids ≤ s'.pools.namebids := by
    have hrex : s'.rex = s.rex := (Action.exec_changes h).same .rex hr
    have hpools : s'.pools = s.pools := (Action.exec_changes h).same .pools hp
    rw [hrex, hpools]
    exact ⟨le_rfl, le_rfl⟩
  cases x with
  | bidname => exact hsame (by simp [Action.parts]) (by simp [Action.parts])
  | bidrefund => exact hsame (by simp [Action.parts]) (by simp [Action.parts])
  | onblock timestamp producer =>
    obtain rfl := Except.ok.inj h
    obtain ⟨q, r, -, hrex, hpools, hclosed⟩ :=
      NameBooks.onblock_namebids s env.now timestamp producer
    rw [hrex, hpools]
    generalize (State.onblock env.now timestamp s producer).names = ns at hclosed
    cases hclosed with
    | same => exact ⟨(add_zero _).ge, (add_zero _).ge⟩
    | closed hc =>
      have hq := (s.poolsNamebid_mem env.now hc.pos.le).1
      have hr := s.rexNamebid_nonneg env.now hc.pos.le
      exact ⟨by omega, by omega⟩
  | _ => cases hx

/-- What an action does in a run that counts what is left in place, while no name is an account. -/
def ledgerExec (t : BlockTimestamp) (x : Action K) (p : State K × ℤ) :
    Except Error (State K × ℤ) := do
  check (x.mover ≠ some namesAccount) "not an action of this run"
  let s' ← x.exec ⟨t, fun _ => false⟩ p.1
  return (s', p.2 + p.1.leftInPlace s' t)

theorem ledgerStep_of_exec {t : BlockTimestamp} {x : Action K} {p p' : State K × ℤ}
    (h : ledgerExec t x p = .ok p') : LedgerStep NamesKept t p p' := by
  obtain ⟨hm, h⟩ := check_bind_eq_ok.mp h
  obtain ⟨s', he, h⟩ := bind_eq_ok.mp h
  obtain rfl := pure_eq_ok.mp h
  exact ⟨⟨_, x, hm, he⟩, rfl⟩

end EosioSystem
