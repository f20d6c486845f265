import EosioSystem.PoolStakes

/-!
# The rounds of the staking pools

Blocks are counted round by round. When a block is produced after the round that is counted, the
count becomes the blocks to be paid for and a new round starts, which pay for the round before sets
to zero. A log says which slots stand behind the two counts and behind each payment, so that a
payment can be traced back to its blocks.

## Main definitions

* `PayLog`: the slots that are counted, that are to be paid, and that have been paid
* `PayLog.after`, `LoggedStep`: what the actions do to the log; blocks come in strictly increasing
  slots
* `PayLog.Logs`: the log is that of a state

## Main results

* `Action.exec_round`: only blocks and payments touch the counts
* `poolRounds_of_continued`: **each round is paid at most once, and never above the full rate**
-/

namespace EosioSystem

open Checked

variable {K : Type} [Field K] [LinearOrder K] [FloorRing K]

/-- The round that is counted, its blocks, and the blocks to be paid. -/
def PoolTables.round (p : PoolTables K) : Option (ℕ × ℕ × ℕ) :=
  p.state.map fun st => (st.intervalStart, st.blocks, st.unpaidBlocks)

/-! ## Who touches the counts -/

namespace State

variable {now : BlockTimestamp} {s s' : State K}

omit [FloorRing K] in
theorem transitionChannelToPools_round {sender : Name} {amount rest : ℤ} {part : Bool}
    (h : s.transitionChannelToPools now sender amount part = .ok (s', rest)) :
    s'.pools.round = s.pools.round := by
  rcases transitionChannelToPools_cases h with ⟨rfl, -⟩ | ⟨st, token, hst, -, -, rfl, -⟩
  · rfl
  · rw [PoolTables.round, PoolTables.round, hst]
    rfl

omit [FloorRing K] in
theorem channelToRexOrPools_round {sender : Name} {amount : ℤ} {req : Bool}
    (h : s.channelToRexOrPools now sender amount req = .ok s') :
    s'.pools.round = s.pools.round := by
  obtain ⟨s₁, rest, h₁, h₂⟩ := channelToRexOrPools_cases h
  have hr := transitionChannelToPools_round h₁
  rcases h₂ with rfl | h₂
  · exact hr
  · rcases channelToRex_cases h₂ with ⟨-, rfl⟩ | ⟨rex, token, -, -, -, rfl⟩
    · exact hr
    · exact hr

omit [FloorRing K] in
theorem payRamFee_round {payer : Name} {fee : ℤ} (h : s.payRamFee now payer fee = .ok s') :
    s'.pools.round = s.pools.round := by
  unfold payRamFee at h
  split_ifs at h
  · obtain ⟨token, -, h⟩ := bind_eq_ok.mp h
    have hr := channelToRexOrPools_round h
    exact hr
  · exact pure_eq_ok.mp h ▸ rfl

omit [FloorRing K] in
theorem buyram_round {payer receiver : Name} {quant : Asset}
    (h : s.buyram now payer receiver quant = .ok s') : s'.pools.round = s.pools.round := by
  simp only [buyram, bind_eq_ok, requireAuth_eq_ok, check_eq_ok, checkCore_eq_ok, exists_const,
    pure_eq_ok] at h
  obtain ⟨-, ram, -, -, -, token, -, s₁, hf, ⟨ram', _⟩, -, rfl⟩ := h
  have hr := payRamFee_round hf
  exact hr

omit [FloorRing K] in
theorem distributeNamebidToPools_round (h : s.distributeNamebidToPools now = .ok s') :
    s'.pools.round = s.pools.round := by
  unfold distributeNamebidToPools at h
  split at h
  · cases h
    rfl
  · split_ifs at h
    · obtain ⟨⟨s₁, rest⟩, hc, h⟩ := bind_eq_ok.mp h
      obtain rfl := pure_eq_ok.mp h
      refine Eq.trans ?_ (transitionChannelToPools_round hc)
      unfold PoolTables.round
      rw [Option.map_map]
      rfl
    · cases h
      rfl

omit [LinearOrder K] [FloorRing K] in
theorem updatePoolVotes_round {a proxy : Name} {producers : List Name} {voting : Bool}
    (h : s.updatePoolVotes a proxy producers voting = .ok s') :
    s'.pools.round = s.pools.round := by
  obtain ⟨st, totalVotes, hst, hst', -, -⟩ := updatePoolVotes_eq_ok h
  rw [PoolTables.round, PoolTables.round, hst, hst']
  rfl

omit [LinearOrder K] [FloorRing K] in
theorem recastVotes_round {a : Name} (h : s.recastVotes a = .ok s') :
    s'.pools.round = s.pools.round := by
  obtain ⟨_, -, h⟩ := bind_eq_ok.mp h
  exact updatePoolVotes_round h

omit [Field K] [LinearOrder K] [FloorRing K] in
theorem setPools_round {st : StakingPoolState K} (hst : s.pools.state = some st)
    (pools : List (StakingPool K)) (voters : Table Name (PoolVoter K)) :
    (s.setPools { st with pools } voters).pools.round = s.pools.round := by
  rw [setPools, PoolTables.round, PoolTables.round, hst]
  rfl

theorem claimstake_round {owner : Name} {i : ℕ} {requested : Asset}
    (h : s.claimstake now owner i requested = .ok s') : s'.pools.round = s.pools.round := by
  cases claimstake_eq_ok h with
  | @intro s₁ st₀ st p pools v out totalVotes _ hd _ _ hst _ _ _ _ hst' _ =>
    rw [← distributeNamebidToPools_round hd, PoolTables.round, PoolTables.round, hst, hst']
    rfl

omit [FloorRing K] in
/-- A later configuration starts no round. -/
theorem cfgsrpool_round {args : PoolConfig K} (hst : s.pools.state ≠ none)
    (h : s.cfgsrpool now args = .ok s') : s'.pools.round = s.pools.round := by
  obtain ⟨st, hst⟩ := Option.ne_none_iff_exists'.mp hst
  unfold cfgsrpool at h
  obtain ⟨core, -, h⟩ := bind_eq_ok.mp h
  rw [hst] at h
  simp only [bind_eq_ok, check_eq_ok, exists_const, pure_eq_ok] at h
  obtain ⟨-, -, -, st', hcfg, rfl⟩ := h
  simp only [StakingPoolState.configure, check_bind_eq_ok, pure_eq_ok] at hcfg
  obtain ⟨-, -, -, -, -, rfl⟩ := hcfg
  rw [PoolTables.round, PoolTables.round, hst]
  rfl

omit [FloorRing K] in
/-- The first configuration starts with the round of its block. -/
theorem cfgsrpool_first {args : PoolConfig K} (hst : s.pools.state = none)
    (h : s.cfgsrpool now args = .ok s') :
    s'.pools.round = some (now.slot / blocksPerRound * blocksPerRound, 0, 0) := by
  unfold cfgsrpool at h
  obtain ⟨core, -, h⟩ := bind_eq_ok.mp h
  rw [hst] at h
  simp only [bind_eq_ok, pure_eq_ok] at h
  obtain ⟨st, hc, st', hcfg, rfl⟩ := h
  simp only [StakingPoolState.create, bind_eq_ok, pure_eq_ok] at hc
  obtain ⟨_, -, _, -, _, -, _, -, _, -, _, -, rfl⟩ := hc
  simp only [StakingPoolState.configure, check_bind_eq_ok, pure_eq_ok] at hcfg
  obtain ⟨-, -, -, -, -, rfl⟩ := hcfg
  rfl

/-- A payment needs blocks to be paid, and leaves none. -/
theorem updatepay_round {user : Name} (h : s.updatepay user = .ok s') : ∃ st,
    s.pools.state = some st ∧ 0 < st.unpaidBlocks ∧
      s'.pools.round = some (st.intervalStart, st.blocks, 0) := by
  simp only [updatepay, bind_eq_ok, requireAuth_eq_ok, poolState_eq_ok, check_eq_ok, exists_const,
    pure_eq_ok] at h
  obtain ⟨-, st, hst, hpos, _, -, _, -, ⟨_, _⟩, -, token, -, rfl⟩ := h
  exact ⟨st, hst, hpos, rfl⟩

omit [FloorRing K] in
/-- Only the first part of `onblock` counts a block of the pools. -/
theorem onblock_round_eq (s : State K) (timestamp : BlockTimestamp) (producer : Name) :
    (s.onblock now timestamp producer).pools.round =
      (s.onblockUpdatePool timestamp.slot).pools.round := by
  unfold onblock
  dsimp only
  split_ifs
  · rfl
  · obtain ⟨pay, producers, hc, -⟩ := countBlock_eq now (s.onblockUpdatePool timestamp.slot)
      producer
    obtain ⟨q, r, names, hb, -⟩ := closeHighestBid_eq
      { (s.onblockUpdatePool timestamp.slot).countBlock now producer with
        pay := { ((s.onblockUpdatePool timestamp.slot).countBlock now producer).pay with
          lastProducerScheduleUpdate := timestamp.slot } } now timestamp
    rw [hb, hc]
    unfold PoolTables.round addNamebids
    rw [Option.map_map]
    rfl
  · obtain ⟨pay, producers, hc, -⟩ := countBlock_eq now (s.onblockUpdatePool timestamp.slot)
      producer
    rw [hc]

omit [FloorRing K] in
/-- A block is counted, after the round is changed if it is over. -/
theorem onblock_round (now timestamp : BlockTimestamp) (producer : Name)
    {start blocks unpaid : ℕ}
    (h : s.pools.round = some (start, blocks, unpaid)) :
    (s.onblock now timestamp producer).pools.round =
      if (start + blocksPerRound) % 2 ^ 32 ≤ timestamp.slot then
        some (timestamp.slot / blocksPerRound * blocksPerRound, 1, blocks)
      else some (start, blocks + 1, unpaid) := by
  rw [onblock_round_eq, onblockUpdatePool]
  obtain ⟨st, hst, he⟩ := Option.map_eq_some_iff.mp h
  obtain ⟨rfl, rfl, rfl⟩ : st.intervalStart = start ∧ st.blocks = blocks ∧
    st.unpaidBlocks = unpaid := by simpa only [Prod.mk.injEq] using he
  rw [hst]
  dsimp only
  split_ifs
  · rfl
  · rfl

end State

variable [CMath K] {s s' : State K}

/-- The actions that touch the counts: a block, and a payment. -/
def Action.isRound : Action K → Bool
  | .onblock .. | .updatepay .. => true
  | _ => false

/-- **The other actions** leave the round and the counts as they are. -/
theorem Action.exec_round {env : Env} {x : Action K} (hx : x.isRound = false)
    (hst : s.pools.state ≠ none) (h : x.exec env s = .ok s') :
    s'.pools.round = s.pools.round := by
  by_cases hparts : Part.pools ∈ x.parts
  swap
  · have hsame : s'.pools = s.pools := (Action.exec_changes h).same .pools hparts
    rw [hsame]
  have hsame (hp : s'.pools.state = s.pools.state) : s'.pools.round = s.pools.round := by
    rw [PoolTables.round, PoolTables.round, hp]
  cases x with
  | cfgsrpool => exact State.cfgsrpool_round hst h
  | stake2pool =>
    simp only [exec, State.stake2pool, bind_eq_ok, requireAuth_eq_ok, check_eq_ok,
      State.checkCore_eq_ok, State.poolState_eq_ok, exists_const] at h
    obtain ⟨-, st, hst, -, -, -, ⟨pools, voter⟩, -, token, -, h⟩ := h
    exact (State.recastVotes_round h).trans (State.setPools_round hst _ _)
  | claimstake => exact State.claimstake_round h
  | transferstake =>
    simp only [exec, State.transferstake, bind_eq_ok, requireAuth_eq_ok, check_eq_ok,
      State.checkCore_eq_ok, State.poolState_eq_ok, require_eq_ok, exists_const] at h
    obtain ⟨-, -, -, -, st, hst, -, -, -, v, -, -, ⟨pools₁, v₁, sold⟩, -, -, ⟨pools₂, v₂⟩, -, _, -,
      s₁, h₁, h₂⟩ := h
    calc s'.pools.round = s₁.pools.round := State.recastVotes_round h₂
      _ = _ := State.recastVotes_round h₁
      _ = s.pools.round := State.setPools_round hst _ _
  | upgradestake =>
    simp only [exec, State.upgradestake, bind_eq_ok, requireAuth_eq_ok, check_eq_ok,
      State.checkCore_eq_ok, State.poolState_eq_ok, require_eq_ok, exists_const] at h
    obtain ⟨-, st, hst, -, -, -, -, -, v, -, ⟨pools₁, v₁, sold⟩, -, -, ⟨pools₂, v₂⟩, -, _, -, h⟩ :=
      h
    exact (State.recastVotes_round h).trans (State.setPools_round hst _ _)
  | setpoolnotif =>
    simp only [exec, State.setpoolnotif, bind_eq_ok, requireAuth_eq_ok, State.poolState_eq_ok,
      exists_const, pure_eq_ok] at h
    obtain ⟨-, st, hst, rfl⟩ := h
    exact State.setPools_round hst _ _
  | votewithpool =>
    simp only [exec, State.votewithpool, bind_eq_ok, requireAuth_eq_ok, exists_const] at h
    obtain ⟨-, _, -, _, -, h⟩ := h
    exact State.updatePoolVotes_round h
  | regpoolproxy =>
    simp only [exec, State.regpoolproxy, bind_eq_ok, requireAuth_eq_ok, State.poolState_eq_ok,
      check_eq_ok, exists_const, pure_eq_ok] at h
    obtain ⟨-, st, hst, -, pv, -, rfl⟩ := h
    rw [PoolTables.round, PoolTables.round, hst]
    rfl
  | buyram => exact State.buyram_round h
  | buyrambytes =>
    simp only [exec, State.buyrambytes, bind_eq_ok] at h
    obtain ⟨_, -, _, -, _, -, h⟩ := h
    exact State.buyram_round h
  | sellram =>
    simp only [exec, State.sellram, bind_eq_ok, requireAuth_eq_ok, check_eq_ok, exists_const] at h
    obtain ⟨-, ram, -, -, _, -, -, _, -, ⟨ram', tokens⟩, -, token, -, hf⟩ := h
    have hr := State.payRamFee_round hf
    exact hr
  | powerup =>
    simp only [exec, State.powerup, bind_eq_ok, requireAuth_eq_ok, check_eq_ok,
      State.checkCore_eq_ok, exists_const, pure_eq_ok] at h
    obtain ⟨-, m, -, -, -, -, -, -, -, ⟨s₁, m₁, _, _⟩, hq, _, -, _, -, -, -, s₂, h₂, s₃, h₃, s₄, h₄,
      rfl⟩ := h
    obtain ⟨res, powup, rfl⟩ := State.processPowerupQueue_frame hq
    obtain ⟨res₂, rfl⟩ := State.adjustResources_frame h₂
    obtain ⟨res₃, rfl⟩ := State.adjustResources_frame h₃
    have hr := State.channelToRexOrPools_round h₄
    exact hr
  | regproducer =>
    simp only [exec, State.regproducer, bind_eq_ok, check_eq_ok, requireAuth_eq_ok,
      exists_const] at h
    exact hsame (State.registerProducer_pools h.2.2).1
  | unregprod =>
    simp only [exec, State.unregprod, bind_eq_ok, requireAuth_eq_ok, exists_const] at h
    exact hsame (State.deactivateProducer_pools h.2).1
  | rmvproducer => exact hsame (State.deactivateProducer_pools h).1
  | updatevotes =>
    simp only [exec, State.updatevotes, bind_eq_ok, requireAuth_eq_ok, check_eq_ok,
      exists_const, pure_eq_ok] at h
    obtain ⟨-, prod, -, -, _, -, t, -, st, -, votes, -, rfl⟩ := h
    exact hsame rfl
  | claimvotepay =>
    simp only [exec, State.claimvotepay, bind_eq_ok, requireAuth_eq_ok, check_eq_ok,
      exists_const, pure_eq_ok] at h
    obtain ⟨-, t, -, -, token, -, rfl⟩ := h
    exact hsame rfl
  | _ => simp [isRound, parts] at hx hparts

/-! ## The log -/

/-- The slot of the block that is counted. -/
def Action.blockSlot : Action K → Option ℕ
  | .onblock timestamp _ => some timestamp.slot
  | _ => none

/-- The slots of the blocks of the round that is counted, of those that are to be paid for, and of
those that each payment was for; how often a round was over; and the first slot that a block can
still have. -/
structure PayLog where
  next : ℕ
  counted : List ℕ
  pending : List ℕ
  paid : List (List ℕ)
  rollovers : ℕ

namespace PayLog

/-- No block has been counted since the pools were configured. -/
def new (slot : ℕ) : PayLog := ⟨slot, [], [], [], 0⟩

/-- A block is counted. What was to be paid is forfeited when the round is over. -/
def block (l : PayLog) (start slot : ℕ) : PayLog :=
  if (start + blocksPerRound) % 2 ^ 32 ≤ slot then
    { l with
      next := slot + 1
      counted := [slot]
      pending := l.counted
      rollovers := l.rollovers + 1 }
  else { l with next := slot + 1, counted := slot :: l.counted }

/-- The blocks that are to be paid for are paid. -/
def pay (l : PayLog) : PayLog := { l with pending := [], paid := l.pending :: l.paid }

/-- What an action does to the log. -/
def after (l : PayLog) (s : State K) : Action K → PayLog
  | .onblock timestamp _ => match s.pools.state with
    | none => l
    | some st => l.block st.intervalStart timestamp.slot
  | .updatepay _ => l.pay
  | _ => l

/-- Blocks come in strictly increasing slots. -/
def Admits (l : PayLog) (x : Action K) : Prop := ∀ slot ∈ x.blockSlot, l.next ≤ slot

instance (l : PayLog) (x : Action K) : Decidable (l.Admits x) :=
  inferInstanceAs (Decidable (∀ slot ∈ x.blockSlot, l.next ≤ slot))

end PayLog

/-- An action succeeds and is logged. -/
def LoggedStep (t : BlockTimestamp) (p p' : PayLog × State K) : Prop :=
  ∃ isAccount x, p.1.Admits x ∧ Action.exec ⟨t, isAccount⟩ x p.2 = .ok p'.2 ∧
    p'.1 = p.1.after p.2 x

/-! ## What the log keeps -/

/-- The log is in order when the round starts at `start`: rounds start at multiples of their length,
the counted blocks are of the round, and no block occurs twice. -/
structure PayLog.Logs (l : PayLog) (start : ℕ) : Prop where
  aligned : blocksPerRound ∣ start
  started : start ≤ l.next
  window : ∀ x ∈ l.counted, start ≤ x ∧ x < start + blocksPerRound
  pending_le : l.pending.length ≤ blocksPerRound
  lt_next : ∀ x ∈ l.counted ++ l.pending ++ l.paid.flatten, x < l.next
  nodup : (l.counted ++ l.pending ++ l.paid.flatten).Nodup

namespace PayLog.Logs

variable {l : PayLog} {start slot : ℕ}

theorem new (slot : ℕ) : (PayLog.new slot).Logs (slot / blocksPerRound * blocksPerRound) where
  aligned := Nat.dvd_mul_left _ _
  started := Nat.div_mul_le_self _ _
  window x hx := by cases hx
  pending_le := Nat.zero_le _
  lt_next x hx := by cases hx
  nodup := List.nodup_nil

/-- A round has no more blocks than slots. -/
theorem counted_le (h : l.Logs start) : l.counted.length ≤ blocksPerRound := by
  have hnodup : l.counted.Nodup :=
    (List.nodup_append.mp (List.nodup_append.mp h.nodup).1).1
  have hsub : l.counted.toFinset ⊆ Finset.Ico start (start + blocksPerRound) := by
    intro x hx
    exact Finset.mem_Ico.mpr (h.window x (List.mem_toFinset.mp hx))
  calc l.counted.length = l.counted.toFinset.card := (List.toFinset_card_of_nodup hnodup).symm
    _ ≤ (Finset.Ico start (start + blocksPerRound)).card := Finset.card_le_card hsub
    _ = blocksPerRound := by rw [Nat.card_Ico, Nat.add_sub_cancel_left]

/-- A block in a later slot than all before keeps the log in order. -/
theorem block (h : l.Logs start) (hn : l.next ≤ slot) :
    (l.block start slot).Logs (if (start + blocksPerRound) % 2 ^ 32 ≤ slot then
      slot / blocksPerRound * blocksPerRound else start) := by
  have hnew : ∀ x ∈ l.counted ++ l.pending ++ l.paid.flatten, x < slot :=
    fun x hx => (h.lt_next x hx).trans_le hn
  unfold PayLog.block
  split_ifs with hover
  · -- the round is over, and what was not paid for is forfeited
    have hsub : (l.counted ++ l.paid.flatten).Sublist (l.counted ++ l.pending ++ l.paid.flatten) :=
      (List.sublist_append_left _ _).append (.refl _)
    have hround : slot < slot / blocksPerRound * blocksPerRound + blocksPerRound := by
      have := Nat.lt_div_mul_add (a := slot) (b := blocksPerRound) (by decide)
      exact this
    constructor
    · exact Nat.dvd_mul_left _ _
    · exact (Nat.div_mul_le_self _ _).trans (Nat.le_succ _)
    · intro x hx
      obtain rfl := List.mem_singleton.mp hx
      exact ⟨Nat.div_mul_le_self _ _, hround⟩
    · exact h.counted_le
    · intro x hx
      rcases List.mem_cons.mp hx with rfl | hx
      · exact Nat.lt_succ_self _
      · exact (hnew x (hsub.subset hx)).trans (Nat.lt_succ_self _)
    · refine List.nodup_cons.mpr ⟨fun hx => ?_, h.nodup.sublist hsub⟩
      exact lt_irrefl _ (hnew slot (hsub.subset hx))
  · constructor
    · exact h.aligned
    · exact (h.started.trans hn).trans (Nat.le_succ _)
    · intro x hx
      rcases List.mem_cons.mp hx with rfl | hx
      · have hmod := Nat.mod_le (start + blocksPerRound) (2 ^ 32)
        exact ⟨h.started.trans hn, (not_le.mp hover).trans_le hmod⟩
      · exact h.window x hx
    · exact h.pending_le
    · intro x hx
      rcases List.mem_cons.mp hx with rfl | hx
      · exact Nat.lt_succ_self _
      · exact (hnew x hx).trans (Nat.lt_succ_self _)
    · exact List.nodup_cons.mpr ⟨fun hx => lt_irrefl _ (hnew slot hx), h.nodup⟩

/-- Rounds start later and later. -/
theorem start_le (h : l.Logs start) (hn : l.next ≤ slot) :
    start ≤ slot / blocksPerRound * blocksPerRound := by
  obtain ⟨k, rfl⟩ := h.aligned
  have hk : k ≤ slot / blocksPerRound := by
    rw [Nat.le_div_iff_mul_le (by decide), Nat.mul_comm]
    exact h.started.trans hn
  rw [Nat.mul_comm]
  exact Nat.mul_le_mul_right _ hk

theorem pay (h : l.Logs start) : l.pay.Logs start := by
  have hsame : l.pay.counted ++ l.pay.pending ++ l.pay.paid.flatten =
      l.counted ++ l.pending ++ l.paid.flatten := by
    simp [PayLog.pay]
  exact ⟨h.aligned, h.started, h.window, Nat.zero_le _, hsame ▸ h.lt_next, hsame ▸ h.nodup⟩

end PayLog.Logs

/-- The state has the counts of the log, which is in order, and its round starts at `a` or later. -/
def LoggedFrom (a : ℕ) (p : PayLog × State K) : Prop :=
  ∃ start, a ≤ start ∧ p.1.Logs start ∧
    p.2.pools.round = some (start, p.1.counted.length, p.1.pending.length)

/-- **An action keeps the log in order.** -/
theorem LoggedFrom.step {a : ℕ} {t : BlockTimestamp} {p p' : PayLog × State K}
    (h : LoggedFrom a p) (hs : LoggedStep t p p') : LoggedFrom a p' := by
  obtain ⟨l, s⟩ := p
  obtain ⟨l', s'⟩ := p'
  obtain ⟨start, ha, hl, hr⟩ := h
  obtain ⟨isAccount, x, hadm, he, hafter⟩ := hs
  dsimp only at hl hr hadm he hafter
  obtain ⟨st, hst, hround⟩ := Option.map_eq_some_iff.mp hr
  obtain ⟨hstart, -⟩ := Prod.mk.inj hround
  cases hx : x.isRound with
  | false =>
    have hsame : l' = l := by
      rw [hafter]
      cases x <;> first | rfl | cases hx
    have hkept := Action.exec_round hx (by rw [hst]; simp) he
    exact ⟨start, ha, hsame ▸ hl, by rw [hkept, hr, hsame]⟩
  | true =>
    cases x with
    | onblock timestamp producer =>
      have hn : l.next ≤ timestamp.slot := hadm _ rfl
      have hlog : l' = l.block start timestamp.slot := by
        rw [hafter, PayLog.after, hst, ← hstart]
      subst hlog
      obtain rfl := Except.ok.inj he
      have hb := State.onblock_round t timestamp producer hr
      refine ⟨_, ?_, hl.block hn, ?_⟩
      · split_ifs
        · exact ha.trans (hl.start_le hn)
        · exact ha
      · rw [hb]
        unfold PayLog.block
        split_ifs
        · rfl
        · rfl
    | updatepay user =>
      obtain ⟨st', hst', hpos, hpaid⟩ := State.updatepay_round he
      obtain rfl := Option.some.inj (hst.symm.trans hst')
      obtain ⟨rfl, hblocks, -⟩ : st.intervalStart = start ∧ st.blocks = l.counted.length ∧
        st.unpaidBlocks = l.pending.length := by simpa only [Prod.mk.injEq] using hround
      subst hafter
      exact ⟨_, ha, hl.pay, by rw [hpaid, hblocks]; rfl⟩
    | _ => cases hx

/-! ## Runs -/

variable [IsStrictOrderedRing K]

omit [FloorRing K] [CMath K] in
theorem transitionFraction_le_one (st : StakingPoolState K) (slot : ℕ) :
    st.transitionFraction slot ≤ 1 := by
  unfold StakingPoolState.transitionFraction
  split_ifs with hend hbegin
  · exact le_rfl
  · exact zero_le_one
  · refine div_le_one_of_le₀ ?_ (Nat.cast_nonneg _)
    exact Nat.cast_le.mpr (Nat.sub_le_sub_right (not_le.mp hend).le _)

omit [CMath K] in
/-- The factor of the pay of a round with at most as many blocks as slots is at most one. -/
theorem payScale_le_one {st : StakingPoolState K} (h : st.unpaidBlocks ≤ blocksPerRound) :
    ((st.unpaidBlocks : K) / blocksPerRound) ^ 10 * st.transitionFraction st.intervalStart ≤ 1 := by
  have hratio : (st.unpaidBlocks : K) / blocksPerRound ≤ 1 :=
    div_le_one_of_le₀ (Nat.cast_le.mpr h) (Nat.cast_nonneg _)
  have hnonneg : 0 ≤ (st.unpaidBlocks : K) / blocksPerRound := by positivity
  refine mul_le_one₀ (pow_le_one₀ hnonneg hratio) ?_ (transitionFraction_le_one st _)
  exact transitionFraction_nonneg st _

omit [IsStrictOrderedRing K] in
theorem loggedFrom_of_continued {a : ℕ} {t t' : BlockTimestamp} {p p' : PayLog × State K}
    (hp : LoggedFrom a p) (h : Continued LoggedStep t p t' p') : LoggedFrom a p' :=
  h.invariant_at (P := fun _ p => LoggedFrom a p) hp fun _ _ _ _ hP _ hs => hP.step hs

omit [IsStrictOrderedRing K] in
/-- As long as no round is over after a payment, there is nothing to be paid. -/
theorem pending_of_continued {r : ℕ} {t t' : BlockTimestamp} {p p' : PayLog × State K}
    (hp : p.1.pending = [] ∧ p.1.rollovers = r) (h : Continued LoggedStep t p t' p') :
    r < p'.1.rollovers ∨ p'.1.pending = [] ∧ p'.1.rollovers = r := by
  refine h.invariant_at (P := fun _ p => r < p.1.rollovers ∨ p.1.pending = [] ∧ p.1.rollovers = r)
    (.inr hp) fun _ _ p p' hP _ hs => ?_
  obtain ⟨_, x, -, -, hafter⟩ := hs
  rw [hafter]
  unfold PayLog.after
  split
  · split
    · exact hP
    · unfold PayLog.block
      split_ifs
      · left
        dsimp only
        omega
      · exact hP
  · exact hP.imp id fun hP => ⟨rfl, hP.2⟩
  · exact hP

/-- **Each round is paid at most once, and never above the full rate.** After the first
configuration of the pools, whatever the other actions are and in whatever increasing slots blocks
are produced from then on: the counts are at most the length of a round, a round starts at a
multiple of its length and later than the ones before, between two payments a round is over, and no
block stands behind two payments. -/
theorem poolRounds_of_continued {t₀ t : BlockTimestamp} {s₀ s₁ s : State K} {args : PoolConfig K}
    {l : PayLog} (hst : s₀.pools.state = none) (hc : s₀.cfgsrpool t₀ args = .ok s₁)
    (h : Continued LoggedStep t₀ (.new t₀.slot, s₁) t (l, s)) :
    (∃ st, s.pools.state = some st ∧
      st.blocks = l.counted.length ∧ st.unpaidBlocks = l.pending.length ∧
      st.blocks ≤ 252 ∧ st.unpaidBlocks ≤ 252 ∧
      ((st.unpaidBlocks : K) / 252) ^ 10 * st.transitionFraction st.intervalStart ≤ 1 ∧
      252 ∣ st.intervalStart ∧
      ∀ t' l' s', Continued LoggedStep t (l, s) t' (l', s') →
        ∃ st', s'.pools.state = some st' ∧ st.intervalStart ≤ st'.intervalStart) ∧
    (∀ user s₂, s.updatepay user = .ok s₂ → ∀ t' l' s', Continued LoggedStep t (l.pay, s₂) t' (l',
      s') →
      ∀ user' s₃, s'.updatepay user' = .ok s₃ → l.rollovers < l'.rollovers) ∧
    l.paid.flatten.Nodup := by
  have hfirst : LoggedFrom 0 (PayLog.new t₀.slot, s₁) :=
    ⟨_, Nat.zero_le _, .new _, State.cfgsrpool_first hst hc⟩
  obtain ⟨start, -, hl, hr⟩ := loggedFrom_of_continued hfirst h
  dsimp only at hl hr
  refine ⟨?_, fun user s₂ hpay t' l' s' hgo user' s₃ hpay' => ?_, ?_⟩
  · obtain ⟨st, hst', hround⟩ := Option.map_eq_some_iff.mp hr
    obtain ⟨rfl, hblocks, hunpaid⟩ : st.intervalStart = start ∧ st.blocks = l.counted.length ∧
      st.unpaidBlocks = l.pending.length := by simpa only [Prod.mk.injEq] using hround
    have hle : st.unpaidBlocks ≤ blocksPerRound := hunpaid ▸ hl.pending_le
    refine ⟨st, hst', hblocks, hunpaid, hblocks ▸ hl.counted_le, hle, payScale_le_one hle,
      hl.aligned, fun t' l' s' hgo => ?_⟩
    obtain ⟨start', hstart, -, hr'⟩ :=
      loggedFrom_of_continued (p := (l, s)) ⟨_, le_rfl, hl, hr⟩ hgo
    obtain ⟨st', hst', hround'⟩ := Option.map_eq_some_iff.mp hr'
    obtain ⟨rfl, -⟩ := Prod.mk.inj hround'
    exact ⟨st', hst', hstart⟩
  · -- the second payment has something to pay
    have hpaid : LoggedFrom 0 (l.pay, s₂) :=
      LoggedFrom.step (p := (l, s)) ⟨start, Nat.zero_le _, hl, hr⟩
        (t := t) ⟨fun _ => true, .updatepay user, (fun slot hslot => by cases hslot), hpay, rfl⟩
    obtain ⟨start', -, -, hr'⟩ := loggedFrom_of_continued hpaid hgo
    obtain ⟨st', hst', hpos, -⟩ := State.updatepay_round hpay'
    have hpending : l'.pending ≠ [] := by
      intro hnil
      have hzero : st'.unpaidBlocks = 0 := by
        simpa [PoolTables.round, hst', hnil] using congrArg (fun r => r.map fun x => x.2.2) hr'
      omega
    refine (pending_of_continued (r := l.rollovers) ⟨rfl, rfl⟩ hgo).resolve_right fun hnil => ?_
    exact hpending hnil.1
  · exact (List.nodup_append.mp hl.nodup).2.1

/-- What an action does, with the log, when every name is an account. -/
def LoggedStep.execIn (t : BlockTimestamp) (x : Action K) (p : PayLog × State K) :
    Except Error (PayLog × State K) := do
  check (p.1.Admits x) "not a later slot"
  let s ← x.exec ⟨t, fun _ => true⟩ p.2
  return (p.1.after p.2 x, s)

/-- The pools are configured in the middle of a round, two rounds are paid, and the blocks of one
round are missed. -/
def poolRoundsExampleRun : List (BlockTimestamp × Action ℚ) :=
  [(.ofSlot 301, .onblock (.ofSlot 300) ⟨1⟩),
   (.ofSlot 302, .onblock (.ofSlot 301) ⟨1⟩),
   (.ofSlot 506, .onblock (.ofSlot 505) ⟨1⟩),
   (.ofSlot 506, .updatepay ⟨1⟩),
   (.ofSlot 507, .onblock (.ofSlot 506) ⟨1⟩),
   (.ofSlot 1100, .onblock (.ofSlot 1099) ⟨1⟩),
   (.ofSlot 1100, .updatepay ⟨1⟩)]

def poolRoundsExampleArgs : PoolConfig ℚ :=
  ⟨some [1024], some [64], some [1], some 0, some 0, none, none, none, none, none⟩

theorem poolRounds_of_continued_example : ∃ (s₁ s : State ℚ) (l : PayLog),
    exampleChain.cfgsrpool (.ofSlot 300) poolRoundsExampleArgs = .ok s₁ ∧
      l.paid = [[506, 505], [301, 300]] ∧ l.paid.flatten.Nodup ∧
        ∃ st, s.pools.state = some st ∧ st.blocks ≤ 252 ∧ 252 ∣ st.intervalStart := by
  have hok : (exampleChain.cfgsrpool (.ofSlot 300) poolRoundsExampleArgs).isOk = true := by decide
  have hrun : (execAll LoggedStep.execIn (.ofSlot 300) poolRoundsExampleRun
      (.new 300, value _ hok)).any fun p => decide (p.2.1.paid = [[506, 505], [301, 300]]) := by
    decide +kernel +revert
  obtain ⟨⟨t, l, s⟩, he, htest⟩ := (Option.any_eq_true _ _).mp hrun
  clear hrun
  have hc := eq_ok_value hok
  have hgo : Continued LoggedStep (.ofSlot 300) (.new 300, value _ hok) t (l, s) := by
    refine continued_of_execAll (fun t x p p' hx => ?_) .refl he
    obtain ⟨hadm, hx⟩ := check_bind_eq_ok.mp hx
    obtain ⟨s', hs', hp⟩ := bind_eq_ok.mp hx
    obtain rfl := pure_eq_ok.mp hp
    exact ⟨_, x, hadm, hs', rfl⟩
  obtain ⟨⟨st, hst, -, -, hblocks, -, -, hdvd, -⟩, -, hnodup⟩ :=
    poolRounds_of_continued rfl hc hgo
  exact ⟨_, s, l, hc, of_decide_eq_true htest, hnodup, st, hst, hblocks, hdvd⟩

end EosioSystem
