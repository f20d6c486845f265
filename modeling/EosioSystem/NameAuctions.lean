import EosioSystem.Chain
import EosioSystem.Frame

/-!
# Name auctions

The life of the auction of a name. The sign of the high bid says whether it is open or closed: it
opens with a first bid, is open for higher bids, is closed by a block when its bid is the highest
of all, and ends when the winner creates the account. The block finds the highest bid at half the
range of an index of negated bids in unsigned numbers, which works because bids are amounts of
tokens.

## Main definitions

* `NameState.IsOpen`, `NameState.IsClosed`: the two states of an auction
* `BidAccepted`: what a bid does
* `NameStep`: what an action does to the auctions

## Main results

* `Closes.highest`: the index finds the highest bid of the open auctions
* `Action.exec_names`: the four actions that change auctions
* `nameAuction_of_run`: the life of an auction on a chain
-/

namespace EosioSystem

open Checked

variable {K : Type}

/-! ## Bids and closings -/

namespace NameState

/-- The auction of a name is open, with the given bid. -/
def IsOpen (ns : NameState) (n : Name) (b : NameBid) : Prop :=
  ns.bids.find n = some b ∧ 0 < b.highBid

/-- The auction of a name is closed and waits for its winner. -/
def IsClosed (ns : NameState) (n : Name) (b : NameBid) : Prop :=
  ns.bids.find n = some b ∧ b.highBid < 0

/-- What a bidder that has been outbid can get back. -/
def refundable (ns : NameState) (bidder newname : Name) : ℤ :=
  (ns.refunds.find (bidder, newname)).getD 0

/-- A bid becomes the high bid of its auction. -/
def setBid (ns : NameState) (now : BlockTimestamp) (bidder newname : Name) (bid : ℤ) : NameState :=
  { ns with bids := ns.bids.set newname ⟨bidder, bid, now.usec⟩ }

/-- Every bid is an amount of tokens, negated when the auction is closed. -/
def BidsInRange (ns : NameState) : Prop :=
  ∀ n b, ns.bids.find n = some b → b.highBid ≠ 0 ∧ |b.highBid| ≤ maxAmount

end NameState

/-- A bid that is accepted. It is the first one on the name, or exceeds the high bid of the open
auction by more than a tenth of it, and that bid can then be refunded. -/
inductive BidAccepted (now : BlockTimestamp) (ns : NameState) (bidder newname : Name) (bid : ℤ) :
    NameState → Prop
  | start (hf : ns.bids.find newname = none) :
      BidAccepted now ns bidder newname bid (ns.setBid now bidder newname bid)
  | raise {b : NameBid} (ho : ns.IsOpen newname b) (hlt : b.highBid / 10 < bid - b.highBid) :
      BidAccepted now ns bidder newname bid { ns.setBid now bidder newname bid with
        refunds := ns.refunds.set (b.highBidder, newname)
          (ns.refundable b.highBidder newname + b.highBid) }

/-- A closed auction takes no bids. -/
theorem BidAccepted.not_isClosed {now : BlockTimestamp} {ns ns' : NameState}
    {bidder newname : Name} {bid : ℤ} (h : BidAccepted now ns bidder newname bid ns')
    {b : NameBid} : ¬ns.IsClosed newname b := by
  rintro ⟨hf, hneg⟩
  cases h with
  | start hnone =>
    rw [hf] at hnone
    cases hnone
  | raise ho =>
    obtain rfl := Option.some.inj (ho.1.symm.trans hf)
    exact absurd hneg ho.2.not_gt

theorem State.bidname_eq_ok {s s' : State K} {env : Env} {bidder newname : Name} {bid : Asset}
    (h : s.bidname env bidder newname bid = .ok s') :
    env.isAccount newname = false ∧ 0 < bid.amount ∧ bid.amount ≤ maxAmount ∧
      s.token.transfer bidder namesAccount bid.amount = .ok s'.token ∧
      BidAccepted env.now s.names bidder newname bid.amount s'.names := by
  simp only [bidname, bind_eq_ok, requireAuth_eq_ok, check_eq_ok, checkCore_eq_ok,
    exists_const] at h
  obtain ⟨-, -, -, -, -, ha, -, hpos, hmax, token, ht, h⟩ := h
  split at h
  · rename_i hf
    obtain rfl := pure_eq_ok.mp h
    exact ⟨ha, hpos, hmax, ht, .start hf⟩
  · rename_i b hf
    simp only [bind_eq_ok, check_eq_ok, exists_const, pure_eq_ok] at h
    obtain ⟨hopen, hlt, -, rfl⟩ := h
    rw [Int.tdiv_eq_ediv_of_nonneg hopen.le] at hlt
    exact ⟨ha, hpos, hmax, ht, .raise ⟨hf, hopen⟩ hlt⟩

namespace NameState.BidsInRange

variable {ns ns' : NameState}

theorem bid (h : ns.BidsInRange) {now : BlockTimestamp} {bidder newname : Name} {bid : ℤ}
    (hpos : 0 < bid) (hmax : bid ≤ maxAmount) (hb : BidAccepted now ns bidder newname bid ns') :
    ns'.BidsInRange := by
  have hset : (ns.setBid now bidder newname bid).BidsInRange := by
    intro n b hf
    rw [setBid, Table.find_set] at hf
    split_ifs at hf
    · obtain rfl := Option.some.inj hf
      exact ⟨hpos.ne', by rwa [abs_of_pos hpos]⟩
    · exact h n b hf
  cases hb with
  | start => exact hset
  | raise => exact hset

theorem close (h : ns.BidsInRange) {timestamp : BlockTimestamp} {n : Name} {b : NameBid}
    (hf : ns.bids.find n = some b) : (ns.close timestamp n b).BidsInRange := by
  intro n' b' hf'
  rw [NameState.close, Table.find_set] at hf'
  split_ifs at hf'
  · obtain rfl := Option.some.inj hf'
    obtain ⟨hne, hmax⟩ := h n b hf
    exact ⟨neg_ne_zero.mpr hne, by rwa [abs_neg]⟩
  · exact h n' b' hf'

theorem erase (h : ns.BidsInRange) (n : Name) :
    ({ ns with bids := ns.bids.erase n } : NameState).BidsInRange := by
  intro n' b' hf'
  rw [Table.find_erase] at hf'
  split_ifs at hf'
  exact h n' b' hf'

/-- The key of an open auction is in the upper half of the range. -/
theorem byHighBid_eq (h : ns.BidsInRange) {n : Name} {b : NameBid} (ho : ns.IsOpen n b) :
    (b.byHighBid : ℤ) = 2 ^ 64 - b.highBid := by
  obtain ⟨hf, hpos⟩ := ho
  have hmax := (h n b hf).2
  rw [abs_of_pos hpos] at hmax
  unfold NameBid.byHighBid
  unfold maxAmount at hmax
  omega

end NameState.BidsInRange

/-- **The index finds the highest bid** of the open auctions. -/
theorem State.Closes.highest {now timestamp : BlockTimestamp} {ns : NameState} {n n' : Name}
    {b b' : NameBid} (h : Closes now timestamp ns n b) (hr : ns.BidsInRange)
    (ho : ns.IsOpen n' b') : b'.highBid ≤ b.highBid := by
  have hkey := hr.byHighBid_eq ⟨h.find, h.pos⟩
  have hkey' := hr.byHighBid_eq ho
  have hmax := (hr n' b' ho.1).2
  rw [abs_of_pos ho.2, maxAmount] at hmax
  have hmem : (ns.bids.filter fun _ b => 2 ^ 63 - 1 ≤ b.byHighBid).find n' = some b' := by
    rw [Table.find_filter, ho.1, Option.filter_some, if_pos]
    exact decide_eq_true (by omega)
  have hle := (Prod.Lex.toLex_le_toLex.mp (Table.key_first_le h.first hmem))
  dsimp only at hle
  omega

/-! ## Accounts of names -/

/-- A name of 12 characters has a last one. -/
theorem Name.twelve_le_length {n : Name} (h : n.value >>> 4 % 32 ≠ 0) : 12 ≤ n.chars.length := by
  have hmap : ∀ k < 32, k ≠ 0 → ".12345abcdefghijklmnopqrstuvwxyz".toList.getD k '.' ≠ '.' := by
    decide
  have hlast := hmap _ (Nat.mod_lt _ (by norm_num)) h
  simp only [chars]
  rw [List.range_succ, List.map_append, List.map_singleton]
  rw [List.rdropWhile_concat]
  split_ifs
  · rw [List.rdropWhile_concat_neg _ _ _ (by simpa using hlast)]
    simp
  · simp

/-- What `newaccount` asks of the creator of a name. -/
theorem NameState.claimName_eq_ok {ns ns' : NameState} {creator newact : Name}
    (h : ns.claimName creator newact = .ok ns') :
    (creator ≠ eosioAccount ∧ ∃ b, ns.IsClosed newact b ∧ b.highBidder = creator ∧
      ns' = { ns with bids := ns.bids.erase newact }) ∨
    (ns' = ns ∧ (creator = eosioAccount ∨ newact.suffix ≠ newact ∨ 12 ≤ newact.chars.length)) := by
  unfold claimName at h
  dsimp only at h
  split_ifs at h with hc hs
  · obtain rfl := pure_eq_ok.mp h
    refine .inr ⟨rfl, hc.imp_right fun hdot => .inr (Name.twelve_le_length fun hz => ?_)⟩
    have hfirst := List.any_eq_false.mp hdot 0 (by simp)
    exact hfirst (decide_eq_true (by simpa using hz))
  · simp only [bind_eq_ok, require_eq_ok, check_eq_ok, exists_const, pure_eq_ok] at h
    obtain ⟨b, hf, hb, hneg, rfl⟩ := h
    exact .inl ⟨fun he => hc (.inl he), b, ⟨hf, hneg⟩, hb, rfl⟩
  · simp only [bind_eq_ok, check_eq_ok, exists_const, pure_eq_ok] at h
    exact .inr ⟨h.2.symm, .inr (.inl hs)⟩

/-! ## Actions -/

/-- What an action does to the auctions. -/
inductive NameStep (env : Env) (ns : NameState) : Action K → NameState → Prop
  | bid {bidder newname : Name} {bid : Asset} {ns' : NameState}
      (ha : env.isAccount newname = false) (hpos : 0 < bid.amount) (hmax : bid.amount ≤ maxAmount)
      (hb : BidAccepted env.now ns bidder newname bid.amount ns') :
      NameStep env ns (.bidname bidder newname bid) ns'
  | refund {bidder newname : Name} : NameStep env ns (.bidrefund bidder newname)
      { ns with refunds := ns.refunds.erase (bidder, newname) }
  | close {timestamp : BlockTimestamp} {producer n : Name} {b : NameBid}
      (h : State.Closes env.now timestamp ns n b) :
      NameStep env ns (.onblock timestamp producer) (ns.close timestamp n b)
  | consume {creator newact : Name} {b : NameBid} (hne : creator ≠ eosioAccount)
      (hc : ns.IsClosed newact b) (hb : b.highBidder = creator) :
      NameStep env ns (.newaccount creator newact) { ns with bids := ns.bids.erase newact }
  | other {x : Action K} : NameStep env ns x ns

/-- What an action does to the auction of one name. -/
inductive NameStep.At (env : Env) (ns ns' : NameState) (n : Name) : Action K → Prop
  | same {x : Action K} (h : ns'.bids.find n = ns.bids.find n) : At env ns ns' n x
  | bid {bidder : Name} {bid : Asset} (ha : env.isAccount n = false)
      (hb : BidAccepted env.now ns bidder n bid.amount ns')
      (h : ns'.bids.find n = some ⟨bidder, bid.amount, env.now.usec⟩) (hpos : 0 < bid.amount) :
      At env ns ns' n (.bidname bidder n bid)
  | close {timestamp : BlockTimestamp} {producer : Name} {b : NameBid}
      (hc : State.Closes env.now timestamp ns n b)
      (h : ns'.bids.find n = some { b with highBid := -b.highBid })
      (hlast : ns'.lastNameClose = timestamp.slot) : At env ns ns' n (.onblock timestamp producer)
  | consume {b : NameBid} (hne : b.highBidder ≠ eosioAccount) (hc : ns.IsClosed n b)
      (h : ns'.bids.find n = none) : At env ns ns' n (.newaccount b.highBidder n)

theorem NameStep.at_name {env : Env} {ns ns' : NameState} {x : Action K}
    (h : NameStep env ns x ns') (n : Name) : NameStep.At env ns ns' n x := by
  cases h with
  | @bid bidder newname bid _ ha hpos hmax hb =>
    have hf (n' : Name) : ns'.bids.find n' = if n' = newname then
        some ⟨bidder, bid.amount, env.now.usec⟩ else ns.bids.find n' := by
      cases hb <;> exact Table.find_set ..
    by_cases hn : n = newname
    · subst hn
      exact .bid ha hb ((hf n).trans (if_pos rfl)) hpos
    · exact .same ((hf n).trans (if_neg hn))
  | refund => exact .same rfl
  | @close timestamp producer n' b hc =>
    by_cases hn : n = n'
    · subst hn
      exact .close hc (Table.find_set_self ..) rfl
    · exact .same (Table.find_set_ne _ _ hn)
  | @consume creator newact b hne hc hb =>
    by_cases hn : n = newact
    · subst hn hb
      exact .consume hne hc (Table.find_erase_self ..)
    · exact .same (Table.find_erase_ne _ hn)
  | other => exact .same rfl

variable [Field K] [LinearOrder K] [FloorRing K] [CMath K]

theorem Action.exec_names {env : Env} {x : Action K} {s s' : State K}
    (h : x.exec env s = .ok s') : NameStep env s.names x s'.names := by
  cases x with
  | newaccount creator newact =>
    simp only [exec, State.newaccount, bind_eq_ok, check_eq_ok, exists_const, pure_eq_ok] at h
    obtain ⟨names, hn, -, -, -, rfl⟩ := h
    rcases NameState.claimName_eq_ok hn with ⟨hne, b, hc, hb, rfl⟩ | ⟨rfl, -⟩
    · exact .consume hne hc hb
    · exact .other
  | bidname bidder newname bid =>
    obtain ⟨ha, hpos, hmax, -, hb⟩ := State.bidname_eq_ok h
    exact .bid ha hpos hmax hb
  | bidrefund bidder newname =>
    simp only [exec, State.bidrefund, bind_eq_ok, pure_eq_ok] at h
    obtain ⟨_, -, _, -, rfl⟩ := h
    exact .refund
  | onblock timestamp producer =>
    obtain rfl := Except.ok.inj h
    obtain ⟨_, _, _, _, _, names, _, _, he, -, hb⟩ := s.onblock_eq env.now timestamp producer
    rw [he]
    cases hb with
    | same => exact .other
    | closed hc => exact .close hc
  | _ =>
    have hn : s'.names = s.names := (exec_changes h).same .names (by simp [parts])
    rw [hn]
    exact .other

/-! ## Runs of the chain -/

/-- No name has been bid on. -/
def AuctionStart (c : Chain K) : Prop :=
  c.state.names.bids = .empty ∧ c.state.names.lastNameClose ≤ c.header.slot

/-- The bids are in range, and the last auction has been closed in a block that is over. -/
structure AuctionsKept (c : Chain K) : Prop where
  bids : c.state.names.BidsInRange
  lastNameClose : c.state.names.lastNameClose ≤ c.header.slot

/-- An auction that was open is not open any more. -/
def AuctionEnds (c c' : Chain K) (n : Name) (b : NameBid) : Prop :=
  c.state.names.IsOpen n b ∧ ∀ b', ¬c'.state.names.IsOpen n b'

namespace AuctionsKept

variable {t : BlockTimestamp} {c c' : Chain K} {x : Action K}

theorem exec (hk : AuctionsKept c) (he : c.Executed t x c') : AuctionsKept c' := by
  have hle : c.header.slot ≤ c'.header.slot := he.header_le
  obtain ⟨hbids, hlast⟩ := hk
  have hns := Action.exec_names he.state
  generalize hn : c'.state.names = ns at hns
  refine ⟨?_, ?_⟩
  · rw [hn]
    cases hns with
    | bid _ hpos hmax hb => exact hbids.bid hpos hmax hb
    | refund => exact hbids
    | close h => exact hbids.close h.find
    | consume => exact hbids.erase _
    | other => exact hbids
  · rw [hn]
    cases hns with
    | bid _ _ _ hb => cases hb <;> exact hlast.trans hle
    | close h => exact he.header_eq.symm ▸ le_rfl
    | _ => exact hlast.trans hle

theorem lastNameClose_le (hk : AuctionsKept c) (he : c.Executed t x c') :
    c.state.names.lastNameClose ≤ c'.state.names.lastNameClose := by
  have hns := Action.exec_names he.state
  generalize c'.state.names = ns at hns
  cases hns with
  | bid _ _ _ hb => cases hb <;> exact le_rfl
  | close => exact hk.lastNameClose.trans (he.header _ rfl)
  | _ => exact le_rfl

/-- **An auction ends in a block**, if its bid is the highest of all. -/
theorem ends (hk : AuctionsKept c) (he : c.Executed t x c') {n : Name} {b : NameBid}
    (h : AuctionEnds c c' n b) : ∃ timestamp producer, x = .onblock timestamp producer ∧
      State.Closes t timestamp c.state.names n b ∧
      c'.state.names.IsClosed n { b with highBid := -b.highBid } ∧
      c.state.names.lastNameClose + 2 * secondsPerDay < timestamp.slot ∧
      c'.state.names.lastNameClose = timestamp.slot := by
  obtain ⟨⟨hf, hpos⟩, hend⟩ := h
  cases (Action.exec_names he.state).at_name n with
  | same hs => exact absurd ⟨hs.trans hf, hpos⟩ (hend b)
  | bid _ _ hs hnew => exact absurd ⟨hs, hnew⟩ (hend _)
  | @close timestamp producer b' hc hs hlast =>
    obtain rfl : b' = b := Option.some.inj (hc.find.symm.trans hf)
    refine ⟨timestamp, producer, rfl, hc, ⟨hs, neg_neg_of_pos hpos⟩, ?_, hlast⟩
    -- the header is not before the one in which the last auction was closed
    have hle : c.header.slot ≤ timestamp.slot := he.header _ rfl
    have hprev := hk.lastNameClose
    have hlt := timestamp.slot_lt
    have hapart := hc.apart
    unfold BlockTimestamp.slotsSince at hapart
    omega
  | consume _ hc =>
    obtain rfl := Option.some.inj (hc.1.symm.trans hf)
    exact absurd hc.2 hpos.not_gt

end AuctionsKept

/-- The auction of a name is over: its winner has created the account. -/
def AuctionOver (c : Chain K) (n : Name) : Prop :=
  c.state.names.bids.find n = none ∧ c.accounts n = true

section

variable {t : BlockTimestamp} {c c' : Chain K} {x : Action K} {n : Name} {b : NameBid}

/-- A closed auction stays as it is until the winner creates the account. -/
theorem isClosed_step (he : c.Executed t x c') (h : c.state.names.IsClosed n b) :
    c'.state.names.IsClosed n b ∨
      (x = .newaccount b.highBidder n ∧ b.highBidder ≠ eosioAccount ∧ AuctionOver c' n) := by
  obtain ⟨hf, hneg⟩ := h
  cases (Action.exec_names he.state).at_name n with
  | same hs => exact .inl ⟨hs.trans hf, hneg⟩
  | bid _ hb => exact absurd ⟨hf, hneg⟩ hb.not_isClosed
  | close hc =>
    obtain rfl := Option.some.inj (hc.find.symm.trans hf)
    exact absurd hneg hc.pos.not_gt
  | consume hne hc hs =>
    obtain rfl := Option.some.inj (hc.1.symm.trans hf)
    exact .inr ⟨rfl, hne, hs, (he.accounts n).mpr (.inr rfl)⟩

/-- An auction is closed by its end only. -/
theorem isClosed_of_step (he : c.Executed t x c') (h : c'.state.names.IsClosed n b) :
    c.state.names.IsClosed n b ∨ AuctionEnds c c' n { b with highBid := -b.highBid } := by
  obtain ⟨hf, hneg⟩ := h
  cases (Action.exec_names he.state).at_name n with
  | same hs => exact .inl ⟨hs.symm.trans hf, hneg⟩
  | bid _ _ hs hpos =>
    obtain rfl := Option.some.inj (hs.symm.trans hf)
    exact absurd hneg hpos.not_gt
  | close hc hs =>
    obtain rfl := Option.some.inj (hs.symm.trans hf)
    refine .inr ⟨⟨?_, ?_⟩, ?_⟩
    · rw [neg_neg]
      exact hc.find
    · rw [neg_neg]
      exact hc.pos
    · rintro b' ⟨hf', hpos'⟩
      obtain rfl := Option.some.inj (hf.symm.trans hf')
      exact absurd hneg hpos'.not_gt
  | consume _ _ hs => cases hs.symm.trans hf

/-- Nobody bids on the name of an account. -/
theorem auctionOver_step (he : c.Executed t x c') (h : AuctionOver c n) : AuctionOver c' n := by
  obtain ⟨hf, ha⟩ := h
  refine ⟨?_, he.accounts_mono ha⟩
  cases (Action.exec_names he.state).at_name n with
  | same hs => exact hs.trans hf
  | bid hnew => cases ha.symm.trans hnew
  | close hc =>
    rw [hc.find] at hf
    cases hf
  | consume _ hc hs => exact hs

/-- Only the winner of its auction creates the account of a short name. -/
theorem newaccount_short {creator : Name} (he : c.Executed t (.newaccount creator n) c')
    (hne : creator ≠ eosioAccount) (hs : n.suffix = n) (hlen : n.chars.length < 12) :
    ∃ b, c.state.names.IsClosed n b ∧ b.highBidder = creator ∧ AuctionOver c' n := by
  have hstate := he.state
  simp only [Action.exec, State.newaccount, bind_eq_ok, check_eq_ok, exists_const,
    pure_eq_ok] at hstate
  obtain ⟨names, hn, -, -, -, hs'⟩ := hstate
  rcases NameState.claimName_eq_ok hn with ⟨-, b, hc, hb, rfl⟩ | ⟨-, h | h | h⟩
  · refine ⟨b, hc, hb, ?_, (he.accounts n).mpr (.inr rfl)⟩
    rw [← hs']
    exact Table.find_erase_self ..
  · exact absurd h hne
  · exact absurd hs h
  · exact absurd h hlen.not_ge

end

theorem auctionsKept_of_run {allowed : State K → Action K → Prop} {t : BlockTimestamp}
    {c : Chain K} (h : Run AuctionStart (ChainStep allowed) t c) : AuctionsKept c := by
  refine h.invariant (P := AuctionsKept) ?_ ?_
  · rintro c ⟨hb, hlast⟩
    refine ⟨fun n b hf => ?_, hlast⟩
    rw [hb] at hf
    cases hf
  · rintro t c c' hk ⟨x, -, he⟩
    exact hk.exec (Chain.exec_eq_ok he)

/-- **The life of a name auction.** A bid is accepted only if the auction has not begun or is open
for it. An open auction ends in a block that closes it as the highest of all, and two such blocks
are more than a day apart. A closed one stays as it is until its winner creates the account, which
nobody else but `eosio` can, and then the name is never bid on again. -/
theorem nameAuction_of_run {allowed : State K → Action K → Prop} {t : BlockTimestamp}
    {c : Chain K} (h : Run AuctionStart (ChainStep allowed) t c) {t' : BlockTimestamp}
    {x : Action K} {c' : Chain K} (he : c.exec t' x = .ok c') :
    (∀ bidder n bid, x = .bidname bidder n bid → c.accounts n = false ∧
      BidAccepted t' c.state.names bidder n bid.amount c'.state.names) ∧
    (∀ n b, AuctionEnds c c' n b → ∃ timestamp producer, x = .onblock timestamp producer ∧
      c'.state.names.IsClosed n { b with highBid := -b.highBid } ∧
      (∀ n' b', c.state.names.IsOpen n' b' → b'.highBid ≤ b.highBid) ∧
      b.lastBidTime + usecondsPerDay < t'.usec ∧
      ∀ t₁ c₁ t₂ x₂ c₂ n₂ b₂, Continued (ChainStep allowed) t' c' t₁ c₁ →
        c₁.exec t₂ x₂ = .ok c₂ → AuctionEnds c₁ c₂ n₂ b₂ →
        ∃ timestamp₂ producer₂, x₂ = .onblock timestamp₂ producer₂ ∧
          timestamp.slot + 2 * secondsPerDay < timestamp₂.slot) ∧
    (∀ n b, c'.state.names.IsClosed n b → c.state.names.IsClosed n b ∨
      AuctionEnds c c' n { b with highBid := -b.highBid }) ∧
    (∀ n b, c.state.names.IsClosed n b → ∀ t₁ c₁, Continued (ChainStep allowed) t c t₁ c₁ →
      c₁.state.names.IsClosed n b ∨ AuctionOver c₁ n) ∧
    ∀ creator n, x = .newaccount creator n → creator ≠ eosioAccount → n.suffix = n →
      n.chars.length < 12 →
      ∃ b, c.state.names.IsClosed n b ∧ b.highBidder = creator ∧ AuctionOver c' n := by
  have hk := auctionsKept_of_run h
  have hx := Chain.exec_eq_ok he
  refine ⟨?_, ?_, fun n b => isClosed_of_step hx, ?_, ?_⟩
  · rintro bidder n bid rfl
    obtain ⟨ha, -, -, -, hb⟩ := State.bidname_eq_ok hx.state
    exact ⟨ha, hb⟩
  · intro n b hend
    obtain ⟨timestamp, producer, rfl, hc, hclosed, -, hlast⟩ := hk.ends hx hend
    refine ⟨timestamp, producer, rfl, hclosed, fun _ _ ho => hc.highest hk.bids ho, hc.stood, ?_⟩
    intro t₁ c₁ t₂ x₂ c₂ n₂ b₂ hgo he₂ hend₂
    -- the last closing is this one, or a later one
    obtain ⟨hk₁, hle⟩ := hgo.invariant_at
      (P := fun _ c₁ => AuctionsKept c₁ ∧ timestamp.slot ≤ c₁.state.names.lastNameClose)
      ⟨hk.exec hx, hlast.ge⟩ (by
        rintro _ _ r r' ⟨hkr, hle⟩ - ⟨y, -, hy⟩
        have hy := Chain.exec_eq_ok hy
        exact ⟨hkr.exec hy, hle.trans (hkr.lastNameClose_le hy)⟩)
    obtain ⟨timestamp₂, producer₂, rfl, -, -, hlt, -⟩ := hk₁.ends (Chain.exec_eq_ok he₂) hend₂
    exact ⟨timestamp₂, producer₂, rfl, by omega⟩
  · intro n b hclosed t₁ c₁ hgo
    refine hgo.invariant_at (P := fun _ c₁ => c₁.state.names.IsClosed n b ∨ AuctionOver c₁ n)
      (.inl hclosed) ?_
    rintro _ _ r r' hr - ⟨y, -, hy⟩
    rcases hr with hr | hr
    · exact (isClosed_step (Chain.exec_eq_ok hy) hr).imp_right fun hover => hover.2.2
    · exact .inr (auctionOver_step (Chain.exec_eq_ok hy) hr)
  · rintro creator n rfl hne hs hlen
    exact newaccount_short hx hne hs hlen

/-! ## An auction for example -/

/-- A chain with two bidders. -/
def auctionExampleChain : Chain ℚ where
  state := { exampleChain with
    token := exampleChain.token.addBalance ⟨2⟩ 1000000
    vote := { exampleChain.vote with threshActivatedStakeTime := 1 } }
  accounts n := decide (n = ⟨1⟩ ∨ n = ⟨2⟩)
  header := .ofSlot 0

/-- The second bidder of the example wins the name and creates its account. -/
theorem nameAuction_of_run_example : ∃ (c₁ c₂ c₃ c₄ : Chain ℚ) (b : NameBid),
    c₁.exec (.ofSlot 300) (.bidname ⟨2⟩ b1Account (exampleAsset 120)) = .ok c₂ ∧
      BidAccepted (.ofSlot 300) c₁.state.names ⟨2⟩ b1Account 120 c₂.state.names ∧
      c₂.exec (.ofSlot 400001) (.onblock (.ofSlot 400000) ⟨9⟩) = .ok c₃ ∧
      c₃.state.names.IsClosed b1Account { b with highBid := -b.highBid } ∧
      c₃.exec (.ofSlot 400002) (.newaccount ⟨2⟩ b1Account) = .ok c₄ ∧
      AuctionOver c₄ b1Account := by
  have hbid : (execAll (Chain.execIn fun _ _ => true) (.ofSlot 0)
      [(.ofSlot 200, .bidname ⟨1⟩ b1Account (exampleAsset 100))]
      auctionExampleChain).isSome := by decide +kernel
  have ht : ((execAll (Chain.execIn fun _ _ => true) (.ofSlot 0)
      [(.ofSlot 200, .bidname ⟨1⟩ b1Account (exampleAsset 100))]
      auctionExampleChain).get hbid).1 ≤ .ofSlot 300 := by decide +kernel +revert
  have hraise : (((execAll (Chain.execIn fun _ _ => true) (.ofSlot 0)
      [(.ofSlot 200, .bidname ⟨1⟩ b1Account (exampleAsset 100))]
      auctionExampleChain).get hbid).2.exec (.ofSlot 300)
      (.bidname ⟨2⟩ b1Account (exampleAsset 120))).isOk := by decide +kernel +revert
  have hclose : ((value _ hraise).exec (.ofSlot 400001) (.onblock (.ofSlot 400000) ⟨9⟩)).isOk := by
    decide +kernel +revert
  have haccount : ((value _ hclose).exec (.ofSlot 400002) (.newaccount ⟨2⟩ b1Account)).isOk := by
    decide +kernel +revert
  have hopen : ((value _ hraise).state.names.bids.find b1Account).isSome := by
    decide +kernel +revert
  have hpos : 0 < (((value _ hraise).state.names.bids.find b1Account).get hopen).highBid := by
    decide +kernel +revert
  have hrow : ((value _ hclose).state.names.bids.find b1Account).isSome := by
    decide +kernel +revert
  have hneg : (((value _ hclose).state.names.bids.find b1Account).get hrow).highBid < 0 := by
    decide +kernel +revert
  have hinit : AuctionStart auctionExampleChain := ⟨rfl, le_rfl⟩
  have hrun := run_get_chain hinit hbid
  have hrun₂ := hrun.step ht ⟨_, rfl, eq_ok_value hraise⟩
  have hrun₃ := hrun₂.step (by decide) ⟨_, rfl, eq_ok_value hclose⟩
  have hends : AuctionEnds (value _ hraise) (value _ hclose) b1Account
      (((value _ hraise).state.names.bids.find b1Account).get hopen) := by
    refine ⟨⟨(Option.some_get hopen).symm, hpos⟩, ?_⟩
    rintro b' ⟨hf, hpos'⟩
    obtain rfl := Option.some.inj ((Option.some_get hrow).trans hf)
    exact hneg.not_gt hpos'
  obtain ⟨-, hb⟩ := (nameAuction_of_run hrun (eq_ok_value hraise)).1 _ _ _ rfl
  obtain ⟨_, _, -, hclosed, -⟩ :=
    (nameAuction_of_run hrun₂ (eq_ok_value hclose)).2.1 _ _ hends
  obtain ⟨_, -, -, hover⟩ := (nameAuction_of_run hrun₃ (eq_ok_value haccount)).2.2.2.2 _ _ rfl
    (by decide) (by decide) (by decide)
  exact ⟨_, _, _, _, _, eq_ok_value hraise, hb, eq_ok_value hclose, hclosed,
    eq_ok_value haccount, hover⟩

end EosioSystem
