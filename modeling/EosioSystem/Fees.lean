import EosioSystem.StakingPool.Shares

/-!
# Fees and name auctions

Where the fees for RAM, powerups and names go: in part to the staking pools, as far as the
transition to them has come, and the rest to the REX return pool. The proceeds of a name auction
wait in the REX pool or in the state of the staking pools until somebody passes them on.

## Main definitions

* `State.channelToRex`, `State.transitionChannelToPools`, `State.channelToRexOrPools`
* `State.channelNamebidToRexOrPools`: the proceeds of an auction that closes
* `State.bidname`, `State.bidrefund`, `State.closeHighestBid`: the auctions
-/

namespace EosioSystem

open Checked

variable {K : Type}

namespace State

/-- `channel_to_rex` -/
def channelToRex (now : BlockTimestamp) (s : State K) (sender : Name) (amount : ℤ) :
    Except Error (State K) :=
  if s.rex.available then do
    let rex ← s.rex.addToRexReturnPool now.sec amount
    let token ← s.token.transfer sender rexAccount amount
    return { s with rex, token }
  else return s

/-- `channel_namebid_to_rex` -/
def channelNamebidToRex (s : State K) (highestBid : ℤ) : State K :=
  match s.rex.pool with
  | some p =>
    if s.rex.available then
      { s with rex := { s.rex with pool := some { p with
        namebidProceeds := p.namebidProceeds + highestBid } } }
    else s
  | none => s

variable [Field K] [LinearOrder K]

omit [LinearOrder K] in
/-- The part of a fee that is for the pools; `part` is whether REX gets the rest. -/
def feeToPools (now : BlockTimestamp) (st : StakingPoolState K) (amount : ℤ) (part : Bool) : ℤ :=
  if part then st.transition now.slot amount else amount

/-- `transition_channel_to_pools`; what remains is not for the pools. -/
def transitionChannelToPools (now : BlockTimestamp) (s : State K) (sender : Name) (amount : ℤ)
    (part : Bool) : Except Error (State K × ℤ) :=
  match s.pools.state with
  | none => return (s, amount)
  | some st =>
    let n := activePools st.pools
    let toPools := feeToPools now st amount part
    if n = 0 ∨ toPools = 0 then return (s, amount)
    else do
      let token ← s.token.transfer sender srpoolAccount toPools
      let st := { st with pools := distribute toPools n 0 0 st.pools }
      return ({ s with token, pools := { s.pools with state := some st } }, amount - toPools)

/-- `channel_to_rex_or_pools` -/
def channelToRexOrPools (now : BlockTimestamp) (s : State K) (sender : Name) (amount : ℤ)
    (requireAllFundsTransferred : Bool) : Except Error (State K) := do
  let (s, remaining) ← s.transitionChannelToPools now sender amount
    (!requireAllFundsTransferred || s.rex.available)
  if remaining = 0 then return s
  check ((!requireAllFundsTransferred || s.rex.available) = true)
    "can't channel fees to pools or to rex"
  s.channelToRex now sender remaining

/-- `channel_namebid_to_rex_or_pools` -/
def channelNamebidToRexOrPools (now : BlockTimestamp) (s : State K) (highestBid : ℤ) : State K :=
  match s.pools.state with
  | none => s.channelNamebidToRex highestBid
  | some st =>
    if activePools st.pools = 0 then s.channelNamebidToRex highestBid
    else
      let toPools := st.transition now.slot highestBid
      let toRex := highestBid - toPools
      let st := { st with namebidProceeds := st.namebidProceeds + toPools }
      let s := { s with pools := { s.pools with state := some st } }
      if toRex = 0 then s else s.channelNamebidToRex toRex

/-- `distribute_namebid_to_pools` -/
def distributeNamebidToPools (now : BlockTimestamp) (s : State K) : Except Error (State K) := do
  match s.pools.state with
  | none => return s
  | some st =>
    if 0 < st.namebidProceeds then
      let (s, remaining) ← s.transitionChannelToPools now namesAccount st.namebidProceeds false
      return { s with pools := { s.pools with state := s.pools.state.map fun st =>
        { st with namebidProceeds := remaining } } }
    else return s

/-! ### What a fee changes -/

omit [Field K] [LinearOrder K] in
/-- A fee for REX goes to the return pool with its tokens, or nothing happens. -/
theorem channelToRex_cases {now : BlockTimestamp} {s s' : State K} {sender : Name} {amount : ℤ}
    (h : s.channelToRex now sender amount = .ok s') :
    (s.rex.available = false ∧ s' = s) ∨
      ∃ rex token, s.rex.available = true ∧ s.rex.addToRexReturnPool now.sec amount = .ok rex ∧
        s.token.transfer sender rexAccount amount = .ok token ∧ s' = { s with rex, token } := by
  unfold channelToRex at h
  split_ifs at h with ha
  · simp only [bind_eq_ok, pure_eq_ok] at h
    obtain ⟨rex, hr, token, ht, rfl⟩ := h
    exact .inr ⟨rex, token, ha, hr, ht, rfl⟩
  · obtain rfl := pure_eq_ok.mp h
    exact .inl ⟨by simpa using ha, rfl⟩

/-- A fee for the pools is distributed over them with its tokens, or all of it remains. -/
theorem transitionChannelToPools_cases {now : BlockTimestamp} {s s' : State K} {sender : Name}
    {amount rest : ℤ} {part : Bool}
    (h : s.transitionChannelToPools now sender amount part = .ok (s', rest)) :
    (s' = s ∧ rest = amount) ∨
      ∃ st token, s.pools.state = some st ∧ activePools st.pools ≠ 0 ∧
        s.token.transfer sender srpoolAccount (feeToPools now st amount part) = .ok token ∧
        s' = { s with token, pools := { s.pools with state := some { st with
          pools := distribute (feeToPools now st amount part) (activePools st.pools) 0 0
            st.pools } } } ∧
        rest = amount - feeToPools now st amount part := by
  unfold transitionChannelToPools at h
  split at h
  · obtain ⟨rfl, rfl⟩ := Prod.mk.inj (pure_eq_ok.mp h)
    exact .inl ⟨rfl, rfl⟩
  · rename_i st hst
    dsimp only at h
    split_ifs at h with hn
    · obtain ⟨rfl, rfl⟩ := Prod.mk.inj (pure_eq_ok.mp h)
      exact .inl ⟨rfl, rfl⟩
    · simp only [bind_eq_ok, pure_eq_ok, Prod.mk.injEq] at h
      obtain ⟨token, ht, rfl, rfl⟩ := h
      exact .inr ⟨st, token, hst, fun h => hn (.inl h), ht, rfl, rfl⟩

/-- A fee goes to the pools in part, and what remains, if anything, to REX. -/
theorem channelToRexOrPools_cases {now : BlockTimestamp} {s s' : State K} {sender : Name}
    {amount : ℤ} {req : Bool} (h : s.channelToRexOrPools now sender amount req = .ok s') :
    ∃ s₁ rest, s.transitionChannelToPools now sender amount (!req || s.rex.available)
        = .ok (s₁, rest) ∧ (s' = s₁ ∨ s₁.channelToRex now sender rest = .ok s') := by
  simp only [channelToRexOrPools, bind_eq_ok] at h
  obtain ⟨⟨s₁, rest⟩, h₁, h⟩ := h
  refine ⟨s₁, rest, h₁, ?_⟩
  dsimp only at h
  split_ifs at h with hz
  · exact .inl (pure_eq_ok.mp h).symm
  · exact .inr (check_bind_eq_ok.mp h).2

/-- The ways a fee can fail. -/
theorem channelToRexOrPools_error {now : BlockTimestamp} {s : State K} {sender : Name}
    {amount : ℤ} {req : Bool} {e : Error}
    (h : s.channelToRexOrPools now sender amount req = .error e) :
    e ∈ ["cannot transfer to self", "must transfer positive quantity", "overdrawn balance",
      "can't channel fees to pools or to rex", "cannot pass end iterator to modify"] := by
  have ht : ∀ {t : Token} {a b : Name} {q : ℤ}, t.transfer a b q = .error e →
      e ∈ ["cannot transfer to self", "must transfer positive quantity", "overdrawn balance",
        "can't channel fees to pools or to rex", "cannot pass end iterator to modify"] :=
    fun h => List.mem_append_left ["can't channel fees to pools or to rex",
      "cannot pass end iterator to modify"] (Token.transfer_error h)
  rcases bind_eq_error.mp h with h | ⟨⟨s₁, rest⟩, -, h⟩
  · unfold transitionChannelToPools at h
    split at h
    · exact absurd h pure_ne_error
    · dsimp only at h
      split_ifs at h
      · exact absurd h pure_ne_error
      · rcases bind_eq_error.mp h with h | ⟨_, -, h⟩
        · exact ht h
        · exact absurd h pure_ne_error
  · dsimp only at h
    split_ifs at h
    · exact absurd h pure_ne_error
    · rcases bind_eq_error.mp h with h | ⟨_, -, h⟩
      · simp [← (check_eq_error.mp h).2]
      · unfold channelToRex at h
        split_ifs at h
        · rcases bind_eq_error.mp h with h | ⟨_, -, h⟩
          · simp [RexState.addToRexReturnPool_error h]
          · rcases bind_eq_error.mp h with h | ⟨_, -, h⟩
            · exact ht h
            · exact absurd h pure_ne_error
        · exact absurd h pure_ne_error

/-- Only the tokens, the REX tables and the pools are touched by a fee, and of the tokens only
those of the sender and of the two accounts that receive fees. -/
theorem channelToRexOrPools_frame {now : BlockTimestamp} {s s' : State K} {sender : Name}
    {amount : ℤ} {req : Bool} (h : s.channelToRexOrPools now sender amount req = .ok s') :
    ∃ token rex pools, s' = { s with token, rex, pools } ∧
      ∀ a, a ≠ sender → a ≠ rexAccount → a ≠ srpoolAccount →
        token.balance a = s.token.balance a := by
  obtain ⟨s₁, rest, h₁, h₂⟩ := channelToRexOrPools_cases h
  obtain ⟨token, pools, hs₁, hb⟩ : ∃ token pools, s₁ = { s with token, pools } ∧
      ∀ a, a ≠ sender → a ≠ srpoolAccount → token.balance a = s.token.balance a := by
    rcases transitionChannelToPools_cases h₁ with ⟨rfl, -⟩ | ⟨st, token, -, -, ht, rfl, -⟩
    · exact ⟨s₁.token, s₁.pools, rfl, fun _ _ _ => rfl⟩
    · refine ⟨token, _, rfl, fun a h₁ h₂ => ?_⟩
      simp [Token.balance_transfer ht, h₁, h₂]
  subst hs₁
  rcases h₂ with rfl | h₂
  · exact ⟨token, s.rex, pools, rfl, fun a h₁ _ h₃ => hb a h₁ h₃⟩
  · rcases channelToRex_cases h₂ with ⟨-, rfl⟩ | ⟨rex, token', -, -, ht, rfl⟩
    · exact ⟨token, s.rex, pools, rfl, fun a h₁ _ h₃ => hb a h₁ h₃⟩
    · refine ⟨token', rex, pools, rfl, fun a h₁ h₂ h₃ => ?_⟩
      simp [Token.balance_transfer ht, h₁, h₂, hb a h₁ h₃]

end State

/-! ## Name auctions -/

/-- `name::suffix`: what follows the last dot before another character, or the whole name. -/
def Name.suffix (n : Name) : Name :=
  let (dot, last) := (List.range 12).foldl (fun (acc : ℕ × ℕ) i =>
    let bits := 59 - 5 * i
    if n.value >>> bits % 32 = 0 then (bits, acc.2) else (acc.1, acc.1)) (0, 0)
  let thirteenth := n.value % 16
  let last := if thirteenth = 0 then last else dot
  if last = 0 then n
  else ⟨n.value % 2 ^ last / 16 * 16 * 2 ^ (64 - last) + thirteenth * 2 ^ (63 - last)⟩

/-- One day, in microseconds -/
def usecondsPerDay : ℕ := secondsPerDay * 1000000

/-- `asset::max_amount`, the most tokens that a transfer can send -/
def maxAmount : ℤ := 2 ^ 62 - 1

/-- `by_high_bid`: the negated bid, as an unsigned number of 64 bits. -/
def NameBid.byHighBid (b : NameBid) : ℕ := (-b.highBid % 2 ^ 64).toNat

/-- `lower_bound` in the index of the bids -/
def NameState.lowerBound (ns : NameState) (k : ℕ) : Option (Name × NameBid) :=
  (ns.bids.filter fun _ b => k ≤ b.byHighBid).first fun n b => toLex (b.byHighBid, n.value)

/-- The auction of a name ends with the given bid. -/
def NameState.close (ns : NameState) (timestamp : BlockTimestamp) (newname : Name)
    (bid : NameBid) : NameState :=
  { ns with
    lastNameClose := timestamp.slot
    bids := ns.bids.set newname { bid with highBid := -bid.highBid } }

namespace State

variable (s : State K)

/-- `bidname` -/
def bidname (env : Env) (bidder newname : Name) (bid : Asset) : Except Error (State K) := do
  requireAuth bidder
  check (newname.suffix = newname) "you can only bid on top-level suffix"
  check (newname ≠ .none) "the empty name is not a valid account name to bid on"
  check (newname.value % 16 = 0) "13 character names are not valid account names to bid on"
  check (newname.value >>> 4 % 32 = 0)
    "accounts with 12 character names and no dots can be created without bidding required"
  check (env.isAccount newname = false) "account already exists"
  s.checkCore bid "asset must be system token"
  check (0 < bid.amount) "insufficient bid"
  check (bid.amount ≤ maxAmount) "invalid quantity" -- a transfer needs a valid asset
  let token ← s.token.transfer bidder namesAccount bid.amount
  let new : NameBid := ⟨bidder, bid.amount, env.now.usec⟩
  match s.names.bids.find newname with
  | none =>
    return { s with token, names := { s.names with bids := s.names.bids.set newname new } }
  | some current =>
    check (0 < current.highBid) "this auction has already closed"
    check (current.highBid.tdiv 10 < bid.amount - current.highBid) "must increase bid by 10%"
    check (current.highBidder ≠ bidder) "account is already highest bidder"
    let key := (current.highBidder, newname)
    let refund := (s.names.refunds.find key).getD 0 + current.highBid
    return { s with token, names := { s.names with
      bids := s.names.bids.set newname new
      refunds := s.names.refunds.set key refund } }

/-- `bidrefund` -/
def bidrefund (bidder newname : Name) : Except Error (State K) := do
  let amount ← require (s.names.refunds.find (bidder, newname)) "refund not found"
  let token ← s.token.transfer namesAccount bidder amount
  return { s with token, names := { s.names with
    refunds := s.names.refunds.erase (bidder, newname) } }

/-- The part of `onblock` that closes the highest auction, once a day, when nobody has outbid it
for a day and the chain has been active for two weeks; `timestamp` is that of the block header. -/
def closeHighestBid [Field K] [LinearOrder K] (now timestamp : BlockTimestamp) : State K :=
  if 2 * secondsPerDay < timestamp.slotsSince s.names.lastNameClose then
    match s.names.lowerBound (2 ^ 63 - 1) with -- half of the range
    | some (newname, bid) =>
      if 0 < bid.highBid ∧ bid.lastBidTime + usecondsPerDay < now.usec ∧
          0 < s.vote.threshActivatedStakeTime ∧
          s.vote.threshActivatedStakeTime + 14 * usecondsPerDay < now.usec then
        { s.channelNamebidToRexOrPools now bid.highBid with
          names := s.names.close timestamp newname bid }
      else s
    | none => s
  else s

/-- The proceeds of names in the pools and in the REX pool grow by the given amounts. -/
def addNamebids (q r : ℤ) : State K :=
  { s with
    rex := { s.rex with pool := s.rex.pool.map fun p =>
      { p with namebidProceeds := p.namebidProceeds + r } }
    pools := { s.pools with state := s.pools.state.map fun st =>
      { st with namebidProceeds := st.namebidProceeds + q } } }

theorem addNamebids_zero : s.addNamebids 0 0 = s := by
  simp only [addNamebids, add_zero, Option.map_id']

theorem channelNamebidToRex_eq (q : ℤ) :
    s.channelNamebidToRex q = s.addNamebids 0 (if s.rex.available then q else 0) := by
  unfold channelNamebidToRex
  split
  · rename_i p hp
    split_ifs
    · simp only [addNamebids, hp, add_zero, Option.map_id', Option.map_some]
    · exact s.addNamebids_zero.symm
  · rename_i hp
    have ha : s.rex.available = false := by rw [RexState.available, hp]; rfl
    simp only [ha, Bool.false_eq_true, if_false]
    exact s.addNamebids_zero.symm

variable [Field K] [LinearOrder K]

/-- The part of the proceeds of an auction that is for the staking pools. -/
def poolsNamebid (now : BlockTimestamp) (bid : ℤ) : ℤ :=
  match s.pools.state with
  | none => 0
  | some st => if activePools st.pools = 0 then 0 else st.transition now.slot bid

/-- The part that is for REX. When there is no REX it belongs to nobody. -/
def rexNamebid (now : BlockTimestamp) (bid : ℤ) : ℤ :=
  if s.rex.available then bid - s.poolsNamebid now bid else 0

theorem poolsNamebid_mem (now : BlockTimestamp) {bid : ℤ} (hb : 0 ≤ bid) :
    0 ≤ s.poolsNamebid now bid ∧ s.poolsNamebid now bid ≤ bid := by
  unfold poolsNamebid
  split
  · exact ⟨le_rfl, hb⟩
  · rename_i st hst
    split_ifs
    · exact ⟨le_rfl, hb⟩
    · exact st.transition_mem now.slot hb

/-- The proceeds of an auction wait in the pools and in the REX pool. -/
theorem channelNamebidToRexOrPools_eq (now : BlockTimestamp) (bid : ℤ) :
    s.channelNamebidToRexOrPools now bid =
      s.addNamebids (s.poolsNamebid now bid) (s.rexNamebid now bid) := by
  unfold channelNamebidToRexOrPools rexNamebid poolsNamebid
  split
  · rw [channelNamebidToRex_eq, sub_zero]
  · rename_i st hst
    dsimp only
    by_cases hn : activePools st.pools = 0
    · rw [if_pos hn, if_pos hn, channelNamebidToRex_eq, sub_zero]
    · rw [if_neg hn, if_neg hn]
      by_cases hz : bid - st.transition now.slot bid = 0
      · rw [if_pos hz, hz, ite_self]
        simp only [addNamebids, hst, add_zero, Option.map_id', Option.map_some]
      · rw [if_neg hz, channelNamebidToRex_eq]
        simp only [addNamebids, hst, add_zero, Option.map_some]

/-- The auction that a block closes: the first one in the upper half of the index, when its bid
has not been exceeded for a day and no auction has been closed for a day. -/
structure Closes (now timestamp : BlockTimestamp) (ns : NameState) (newname : Name)
    (bid : NameBid) : Prop where
  first : ns.lowerBound (2 ^ 63 - 1) = some (newname, bid)
  pos : 0 < bid.highBid
  stood : bid.lastBidTime + usecondsPerDay < now.usec
  apart : 2 * secondsPerDay < timestamp.slotsSince ns.lastNameClose

omit [Field K] [LinearOrder K] in
theorem Closes.find {now timestamp : BlockTimestamp} {ns : NameState} {newname : Name}
    {bid : NameBid} (h : Closes now timestamp ns newname bid) :
    ns.bids.find newname = some bid := by
  have hf := Table.find_of_first h.first
  rw [Table.find_filter, Option.filter_eq_some_iff] at hf
  exact hf.1

/-- No auction has been closed, or one whose proceeds wait in the two pools. -/
inductive BidClosed (now timestamp : BlockTimestamp) : ℤ → ℤ → NameState → Prop
  | same : BidClosed now timestamp 0 0 s.names
  | closed {newname : Name} {bid : NameBid} (h : Closes now timestamp s.names newname bid) :
      BidClosed now timestamp (s.poolsNamebid now bid.highBid) (s.rexNamebid now bid.highBid)
        (s.names.close timestamp newname bid)

theorem BidClosed.congr {s s' : State K} {now timestamp : BlockTimestamp} {q r : ℤ}
    {names : NameState} (hn : s'.names = s.names) (hr : s'.rex = s.rex)
    (hp : ∀ bid, s'.poolsNamebid now bid = s.poolsNamebid now bid)
    (h : s'.BidClosed now timestamp q r names) : s.BidClosed now timestamp q r names := by
  cases h with
  | same =>
    rw [hn]
    exact .same
  | closed hc =>
    rw [hn] at hc ⊢
    rw [rexNamebid, hr, hp]
    exact .closed hc

/-- What the end of an auction changes. -/
theorem closeHighestBid_eq (now timestamp : BlockTimestamp) :
    ∃ q r names, s.closeHighestBid now timestamp = { s.addNamebids q r with names } ∧
      s.BidClosed now timestamp q r names := by
  have hsame : ∃ q r names, s = { s.addNamebids q r with names } ∧
      s.BidClosed now timestamp q r names :=
    ⟨0, 0, s.names, by rw [addNamebids_zero], .same⟩
  unfold closeHighestBid
  split_ifs with hapart
  · split
    · rename_i newname bid hfirst
      split_ifs with hc
      · exact ⟨_, _, _, by rw [channelNamebidToRexOrPools_eq], .closed ⟨hfirst, hc.1, hc.2.1,
          hapart⟩⟩
      · exact hsame
    · exact hsame
  · exact hsame

end State

end EosioSystem
