import EosioSystem.Library.Accrual
import EosioSystem.RamLedger

/-!
# The growth of the RAM supply

The RAM supply grows with every block slot. It is brought up to date by the actions on the market,
for all slots since the last update at once, at a rate that was in force at all of them. The product
of the slots and the rate is computed in 32 bits: an update after a long pause adds what is left of
it, and the rest is never made up for.

## Main definitions

* `RamTrace`: a state with the changes of the rate and the growth so far
* `RamTrace.exec`: an action on the market, with what its update adds

## Main results

* `updateRamSupply_spec`: what one update adds
* `ramGrowth_of_run`: **the growth is the sum of the rates** in force at the elapsed slots exactly
  when every update was in time
-/

namespace EosioSystem

open Checked

variable {K : Type}

namespace RamState

variable {rs rs' : RamState} {now : BlockTimestamp}

/-- The bytes for sale. -/
def forSale (rs : RamState) : ℤ := rs.market.elim 0 fun es => es.base.amount

/-- What an update at the given time adds to the maximum and to the bytes for sale. -/
def growth (rs : RamState) (now : BlockTimestamp) : ℤ × ℤ :=
  match rs.updateRamSupply now with
  | .ok rs' => (rs'.maxRamSize - rs.maxRamSize, rs'.forSale - rs.forSale)
  | .error _ => 0

/-- The bytes that are due for the slots since the last update. -/
def ramDue (rs : RamState) (now : BlockTimestamp) : ℕ :=
  (now.slot - rs.lastRamIncrease) * rs.newRamPerBlock

/-- An update adds what is due, modulo `2 ^ 32`. -/
theorem updateRamSupply_spec (h : rs.updateRamSupply now = .ok rs') :
    rs'.lastRamIncrease = max rs.lastRamIncrease now.slot ∧
      rs'.newRamPerBlock = rs.newRamPerBlock ∧
      rs'.maxRamSize = rs.maxRamSize + (rs.ramDue now % 2 ^ 32 : ℕ) ∧
      rs'.forSale = rs.forSale + (rs.ramDue now % 2 ^ 32 : ℕ) := by
  unfold RamState.updateRamSupply at h
  split_ifs at h with hnow
  · obtain rfl := pure_eq_ok.mp h
    simp [ramDue, Nat.sub_eq_zero_of_le hnow, max_eq_left hnow]
  · simp only [bind_eq_ok, require_eq_ok, pure_eq_ok] at h
    obtain ⟨es, hes, rfl⟩ := h
    refine ⟨(max_eq_right (not_le.mp hnow).le).symm, rfl, rfl, ?_⟩
    simp [forSale, hes, ExchangeState.addBase, ramDue]

theorem growth_eq (h : rs.updateRamSupply now = .ok rs') :
    rs.growth now = (((rs.ramDue now % 2 ^ 32 : ℕ) : ℤ), ((rs.ramDue now % 2 ^ 32 : ℕ) : ℤ)) := by
  obtain ⟨-, -, hm, hb⟩ := updateRamSupply_spec h
  unfold growth
  rw [h]
  dsimp only
  rw [hm, hb, add_sub_cancel_left, add_sub_cancel_left]

/-- A trade leaves the maximum and the clock of the supply alone. -/
structure SameSupply (rs rs' : RamState) : Prop where
  max : rs'.maxRamSize = rs.maxRamSize
  last : rs'.lastRamIncrease = rs.lastRamIncrease
  rate : rs'.newRamPerBlock = rs.newRamPerBlock

theorem SameSupply.buyBytes {quantity : Asset} {bytes : ℤ}
    (h : rs.buyBytes quantity = .ok (rs', bytes)) : rs.SameSupply rs' := by
  simp only [RamState.buyBytes, bind_eq_ok, check_eq_ok, exists_const, require_eq_ok, pure_eq_ok,
    Prod.mk.injEq] at h
  obtain ⟨es, -, _, -, -, rfl, -⟩ := h
  exact ⟨rfl, rfl, rfl⟩

theorem SameSupply.sellBytes {bytes tokens : ℤ} {core : Symbol}
    (h : rs.sellBytes bytes core = .ok (rs', tokens)) : rs.SameSupply rs' := by
  simp only [RamState.sellBytes, bind_eq_ok, check_eq_ok, exists_const, require_eq_ok, pure_eq_ok,
    Prod.mk.injEq] at h
  obtain ⟨es, -, _, -, -, -, rfl, -⟩ := h
  exact ⟨rfl, rfl, rfl⟩

end RamState

/-- An action that brings the RAM supply up to date first. -/
def Action.updatesRam : Action K → Bool
  | setramrate .. | buyram .. | buyrambytes .. | sellram .. => true
  | _ => false

/-- The bytes an action adds by raising the maximum. -/
def Action.raisesRam (a : Action K) (rs : RamState) : ℤ :=
  match a with
  | setram maxRamSize => maxRamSize - rs.maxRamSize
  | _ => 0

/-- A change of the rate, with its slot. -/
def Action.ramRate (a : Action K) (now : BlockTimestamp) : List (ℕ × ℕ) :=
  match a with
  | setramrate bytesPerBlock => [(now.slot, bytesPerBlock)]
  | _ => []

variable [Field K] [LinearOrder K]

/-- The fee for RAM does not touch the market. -/
theorem ram_payRamFee {s s' : State K} {now : BlockTimestamp} {payer : Name} {fee : ℤ}
    (h : s.payRamFee now payer fee = .ok s') : s'.ram = s.ram := by
  unfold State.payRamFee at h
  split_ifs at h
  · simp only [bind_eq_ok] at h
    obtain ⟨token, -, h⟩ := h
    obtain ⟨token', rex, pools, rfl, -⟩ := State.channelToRexOrPools_frame h
    rfl
  · obtain rfl := pure_eq_ok.mp h
    rfl

/-- What an action on the market does to the supply after its update. -/
theorem ram_buyram {s s' : State K} {now : BlockTimestamp} {payer receiver : Name} {quant : Asset}
    (h : s.buyram now payer receiver quant = .ok s') :
    ∃ ram, s.ram.updateRamSupply now = .ok ram ∧ ram.SameSupply s'.ram := by
  simp only [State.buyram, bind_eq_ok, check_eq_ok, requireAuth_eq_ok, State.checkCore_eq_ok,
    exists_const, pure_eq_ok] at h
  obtain ⟨-, ram, hu, -, -, token, -, s₁, hf, ⟨ram', bytes⟩, hbuy, rfl⟩ := h
  refine ⟨ram, hu, ?_⟩
  have hbuy' := RamState.SameSupply.buyBytes hbuy
  rwa [ram_payRamFee hf] at hbuy'

theorem ram_sellram {s s' : State K} {now : BlockTimestamp} {account : Name} {bytes : ℤ}
    (h : s.sellram now account bytes = .ok s') :
    ∃ ram, s.ram.updateRamSupply now = .ok ram ∧ ram.SameSupply s'.ram := by
  simp only [State.sellram, bind_eq_ok, check_eq_ok, requireAuth_eq_ok, exists_const,
    require_eq_ok] at h
  obtain ⟨-, ram, hu, -, row, -, -, core, -, ⟨ram', tokens⟩, hsell, token, -, hf⟩ := h
  refine ⟨ram, hu, ?_⟩
  rw [ram_payRamFee hf]
  exact RamState.SameSupply.sellBytes hsell

variable [FloorRing K] [CMath K]

/-- **What an action on the market does to the supply**: it raises the maximum, or brings the
supply up to date and may change the rate. -/
theorem Action.exec_supply {env : Env} {a : Action K} {s s' : State K} (ha : a.isRam = true)
    (h : a.exec env s = .ok s') :
    (a.updatesRam = false ∧ a.ramRate env.now = [] ∧
      s'.ram.maxRamSize = s.ram.maxRamSize + a.raisesRam s.ram ∧
      s'.ram.lastRamIncrease = s.ram.lastRamIncrease ∧
      s'.ram.newRamPerBlock = s.ram.newRamPerBlock) ∨
    ∃ ram, s.ram.updateRamSupply env.now = .ok ram ∧ a.updatesRam = true ∧
      a.raisesRam s.ram = 0 ∧ s'.ram.maxRamSize = ram.maxRamSize ∧
      s'.ram.lastRamIncrease = ram.lastRamIncrease ∧
      (a.ramRate env.now = [] ∧ s'.ram.newRamPerBlock = ram.newRamPerBlock ∨
        a.ramRate env.now = [(env.now.slot, s'.ram.newRamPerBlock)]) := by
  cases a with
  | setram maxRamSize =>
    left
    simp only [Action.exec, State.setram, RamState.setram, bind_eq_ok, check_eq_ok, exists_const,
      require_eq_ok, pure_eq_ok] at h
    obtain ⟨ram, ⟨-, -, -, es, -, rfl⟩, rfl⟩ := h
    exact ⟨rfl, rfl, (add_sub_cancel _ _).symm, rfl, rfl⟩
  | setramrate bytesPerBlock =>
    right
    simp only [Action.exec, State.setramrate, bind_eq_ok, pure_eq_ok] at h
    obtain ⟨ram, hu, rfl⟩ := h
    exact ⟨ram, hu, rfl, rfl, rfl, rfl, .inr rfl⟩
  | buyram payer receiver quant =>
    right
    obtain ⟨ram, hu, hs⟩ := ram_buyram h
    exact ⟨ram, hu, rfl, rfl, hs.max, hs.last, .inl ⟨rfl, hs.rate⟩⟩
  | buyrambytes payer receiver bytes =>
    right
    simp only [Action.exec, State.buyrambytes, bind_eq_ok] at h
    obtain ⟨_, -, _, -, _, -, h⟩ := h
    obtain ⟨ram, hu, hs⟩ := ram_buyram h
    exact ⟨ram, hu, rfl, rfl, hs.max, hs.last, .inl ⟨rfl, hs.rate⟩⟩
  | sellram account bytes =>
    right
    obtain ⟨ram, hu, hs⟩ := ram_sellram h
    exact ⟨ram, hu, rfl, rfl, hs.max, hs.last, .inl ⟨rfl, hs.rate⟩⟩
  | _ => simp [Action.isRam] at ha

/-! ## Runs -/

/-- A state with the changes of the rate so far, the latest first, the growth of the maximum and of
the bytes for sale by the updates, the bytes added by raising the maximum, and whether every update
came while the bytes due fitted into 32 bits. -/
structure RamTrace (K : Type) where
  state : State K
  rates : List (ℕ × ℕ)
  grown : ℤ × ℤ
  raised : ℤ
  inTime : Bool

/-- An action on the market. -/
def RamTrace.exec (env : Env) (a : Action K) (x : RamTrace K) : Except Error (RamTrace K) := do
  check (a.isRam = true) "not an action on the market"
  let state ← a.exec env x.state
  return {
    state
    rates := a.ramRate env.now ++ x.rates
    grown := x.grown + if a.updatesRam then x.state.ram.growth env.now else 0
    raised := x.raised + a.raisesRam x.state.ram
    inTime := x.inTime && (!a.updatesRam || x.state.ram.ramDue env.now < 2 ^ 32) }

def RamTrace.Step (t : BlockTimestamp) (x x' : RamTrace K) : Prop :=
  ∃ isAccount a, x.exec ⟨t, isAccount⟩ a = .ok x'

/-- Before the first update: the rate is zero and nothing has been added. -/
structure RamTrace.Start (maxRamSize : ℤ) (x : RamTrace K) : Prop where
  last : x.state.ram.lastRamIncrease = 0
  rate : x.state.ram.newRamPerBlock = 0
  max : x.state.ram.maxRamSize = maxRamSize
  rates : x.rates = []
  grown : x.grown = 0
  raised : x.raised = 0
  inTime : x.inTime = true

/-- The bytes due for all slots up to the last update. -/
def RamTrace.due (x : RamTrace K) : ℕ := Accrual.due x.rates 0 x.state.ram.lastRamIncrease

/-- The invariant of the growth. -/
structure RamTrace.Grown (maxRamSize : ℤ) (t : BlockTimestamp) (x : RamTrace K) : Prop where
  last : x.state.ram.lastRamIncrease ≤ t.slot
  rate : ∀ j, x.state.ram.lastRamIncrease < j →
    Accrual.rateAt x.rates j = x.state.ram.newRamPerBlock
  max : x.state.ram.maxRamSize = maxRamSize + x.grown.1 + x.raised
  base : x.grown.2 = x.grown.1
  le : x.grown.1 ≤ x.due
  exact : x.grown.1 = x.due ↔ x.inTime = true

namespace RamTrace.Grown

variable {M : ℤ} {t t' : BlockTimestamp} {x x' : RamTrace K}

omit [Field K] [LinearOrder K] [FloorRing K] [CMath K] in
theorem start (h : x.Start M) : x.Grown M t where
  last := by simp [h.last]
  rate j _ := by rw [h.rates, h.rate, Accrual.rateAt_nil]
  max := by simp [h.max, h.grown, h.raised]
  base := by simp [h.grown]
  le := by simp [h.grown]
  exact := by simp [RamTrace.due, h.grown, h.last, h.inTime, Accrual.due_self]

omit [Field K] [LinearOrder K] [FloorRing K] [CMath K] in
/-- What is due grows by what is due since the last update. -/
theorem due_update (h : x.Grown M t) (ht : t ≤ t') :
    Accrual.due x.rates 0 t'.slot = x.due + x.state.ram.ramDue t' := by
  rw [RamTrace.due, RamState.ramDue, ← Accrual.due_of_const h.rate,
    Accrual.due_add_due _ (Nat.zero_le _) (h.last.trans ht)]

/-- An action on the market keeps the growth. -/
theorem step (h : x.Grown M t) (ht : t ≤ t') (hs : RamTrace.Step t' x x') : x'.Grown M t' := by
  obtain ⟨isAccount, a, hs⟩ := hs
  simp only [RamTrace.exec, bind_eq_ok, check_eq_ok, exists_const, pure_eq_ok] at hs
  obtain ⟨ha, s, he, rfl⟩ := hs
  have hlast : x.state.ram.lastRamIncrease ≤ t'.slot := h.last.trans ht
  rcases Action.exec_supply ha he with ⟨hu, hr, hm, hl, hrate⟩ |
    ⟨ram, hram, hu, hraise, hm, hl, hrate⟩
  · -- raising the maximum is not growth
    simp only [hu, hr, List.nil_append, Bool.false_eq_true, if_false, add_zero, Bool.not_false,
      Bool.true_or, Bool.and_true]
    refine ⟨hl ▸ hlast, fun j hj => ?_, ?_, h.base, ?_, ?_⟩
    · dsimp only at hj ⊢
      rw [hrate]
      exact h.rate j (hl ▸ hj)
    · dsimp only
      rw [hm, h.max]
      ring
    · simpa only [RamTrace.due, hl] using h.le
    · simpa only [RamTrace.due, hl] using h.exact
  · obtain ⟨hlu, hru, hmu, -⟩ := RamState.updateRamSupply_spec hram
    have hslot : s.ram.lastRamIncrease = t'.slot := by rw [hl, hlu, max_eq_right hlast]
    have hdue : Accrual.due (a.ramRate t' ++ x.rates) 0 t'.slot = x.due + x.state.ram.ramDue
      t' := by
      rw [← h.due_update ht]
      rcases hrate with ⟨hr, -⟩ | hr
      · rw [hr, List.nil_append]
      · rw [hr, List.singleton_append, Accrual.due_cons _ _ le_rfl]
    have hle := Nat.mod_le (x.state.ram.ramDue t') (2 ^ 32)
    have hiff : x.state.ram.ramDue t' % 2 ^ 32 = x.state.ram.ramDue t' ↔
        x.state.ram.ramDue t' < 2 ^ 32 := Nat.mod_eq_iff_lt (by norm_num)
    have hgrowth := RamState.growth_eq hram
    dsimp only at hgrowth hmu
    simp only [hu, hraise, if_true, add_zero, hgrowth, Bool.not_true, Bool.false_or]
    refine ⟨hslot.le, fun j hj => ?_, ?_, ?_, ?_, ?_⟩
    · dsimp only at hj ⊢
      rw [hslot] at hj
      rcases hrate with ⟨hr, hrate⟩ | hr
      · rw [hr, List.nil_append, hrate, hru]
        exact h.rate j (hlast.trans_lt hj)
      · rw [hr, List.singleton_append, Accrual.rateAt_cons_of_lt _ _ hj]
    · dsimp only
      rw [hm, hmu, h.max, Prod.fst_add]
      ring
    · rw [Prod.snd_add, Prod.fst_add, h.base]
    · have := h.le
      simp only [RamTrace.due, hslot, hdue, Prod.fst_add]
      simp only [RamTrace.due] at this
      push_cast
      omega
    · have h₁ := h.le
      have h₂ := h.exact
      simp only [RamTrace.due, hslot, hdue, Prod.fst_add, Bool.and_eq_true, decide_eq_true_eq,
        ← h₂, ← hiff]
      simp only [RamTrace.due] at h₁
      push_cast
      omega

end RamTrace.Grown

/-- **The growth is the sum of the rates in force at the elapsed slots exactly when every update was
in time**, that is, came while the bytes due for the slots since the last one were fewer than
`2 ^ 32`; it is the same for the maximum and for the bytes for sale. -/
theorem ramGrowth_of_run {M : ℤ} {t : BlockTimestamp} {x : RamTrace K}
    (h : Run (RamTrace.Start M) RamTrace.Step t x) :
    x.state.ram.maxRamSize = M + x.grown.1 + x.raised ∧
      (x.grown.1 = x.due ∧ x.grown.2 = x.due ↔ x.inTime = true) := by
  have hg : x.Grown M t := h.invariant_at (P := fun t x => x.Grown M t)
    (fun _ _ => RamTrace.Grown.start) (fun _ _ _ _ => RamTrace.Grown.step)
  refine ⟨hg.max, ?_⟩
  rw [hg.base, and_self]
  exact hg.exact

/-- A computation of an action on the market is a step. -/
theorem RamTrace.step_of_exec {t : BlockTimestamp} {a : Action K} {x x' : RamTrace K}
    (h : x.exec ⟨t, fun _ => true⟩ a = .ok x') : RamTrace.Step t x x' := ⟨_, a, h⟩

/-- The chain of the example, on which nothing has been added. -/
def ramTraceExample : RamTrace ℚ := ⟨exampleChain, [], 0, 0, true⟩

theorem ramTraceExample_start : RamTrace.Start (64 * 1024 ^ 3) ramTraceExample :=
  ⟨rfl, rfl, rfl, rfl, rfl, rfl, rfl⟩

/-- The rate is set, and the next purchase comes a few blocks later. -/
theorem ramGrowth_of_run_example :
    ∃ (x : RamTrace ℚ), x.grown = (9000, 9000) ∧ x.grown.1 = x.due ∧ x.grown.2 = x.due := by
  have hrun : (execAll (fun t a (x : RamTrace ℚ) => x.exec ⟨t, fun _ => true⟩ a) (.ofSlot 0)
      [(.ofSlot 1, .setramrate 1000), (.ofSlot 10, .buyram ⟨1⟩ ⟨1⟩ (exampleAsset 10000))]
      ramTraceExample).any fun p => decide (p.2.grown = (9000, 9000) ∧ p.2.inTime = true) := by
    decide +kernel
  have hstep : ∀ (t : BlockTimestamp) a (x x' : RamTrace ℚ),
      x.exec ⟨t, fun _ => true⟩ a = .ok x' → RamTrace.Step t x x' :=
    fun _ _ _ _ => RamTrace.step_of_exec
  obtain ⟨t, x, h, htest⟩ := exists_run_of_execAll hstep ramTraceExample_start hrun
  clear hrun hstep
  obtain ⟨hg, hin⟩ := of_decide_eq_true htest
  exact ⟨x, hg, (ramGrowth_of_run h).2.mpr hin⟩

/-- At the rate of 65535 bytes a block, nine hours and six minutes without a trade pass before a
purchase. More than four gigabytes are due, and 65534 bytes are added. -/
theorem ramGrowth_short :
    ∃ t, ∃ x : RamTrace ℚ, Run (RamTrace.Start (64 * 1024 ^ 3)) RamTrace.Step t x ∧
      x.grown = (65534, 65534) ∧ x.due = 2 ^ 32 + 65534 := by
  have hrun : (execAll (fun t a (x : RamTrace ℚ) => x.exec ⟨t, fun _ => true⟩ a) (.ofSlot 0)
      [(.ofSlot 1, .setramrate 65535), (.ofSlot 65539, .buyram ⟨1⟩ ⟨1⟩ (exampleAsset 10000))]
      ramTraceExample).any fun p => decide (p.2.grown = (65534, 65534) ∧
        p.2.rates = [(1, 65535)] ∧ p.2.state.ram.lastRamIncrease = 65539) := by
    decide +kernel
  have hstep : ∀ (t : BlockTimestamp) a (x x' : RamTrace ℚ),
      x.exec ⟨t, fun _ => true⟩ a = .ok x' → RamTrace.Step t x x' :=
    fun _ _ _ _ => RamTrace.step_of_exec
  obtain ⟨t, x, h, htest⟩ := exists_run_of_execAll hstep ramTraceExample_start hrun
  clear hrun hstep
  obtain ⟨hg, hr, hl⟩ := of_decide_eq_true htest
  refine ⟨t, x, h, hg, ?_⟩
  rw [RamTrace.due, hr, hl, ← Accrual.due_add_due _ zero_le_one (by norm_num : 1 ≤ 65539),
    Accrual.due_cons [] 65535 le_rfl, Accrual.due_of_const fun j hj =>
      Accrual.rateAt_cons_of_lt [] 65535 hj]
  rfl

end EosioSystem
