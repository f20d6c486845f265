import EosioSystem.CoreSymbol
import EosioSystem.PowerupQueue

/-!
# The weight of the powerup market

Between two configurations the ratio of a resource falls along the line that the first one has
fixed, and its weight grows with it. The line stays within the bounds that the configuration has
checked, so the arithmetic in 128 bits loses nothing. A configuration that gives no value starts
the same line anew, from a ratio that has been rounded.

## Main definitions

* `PowerupResource.machineRatio`, `PowerupResource.machineWeight`: the arithmetic of the code
* `PowerupResource.Trajectory`: ratio and weight from a configuration on
* `PowerupResource.reissued`: a resource after a configuration that gives no value

## Main results

* `PowerupResource.Settings.trajectory`: **the trajectory** of what a configuration accepts
* `State.cfgpowerup_empty`: **when a configuration that gives no value succeeds**
* `powerupWeights_of_continued`: the market until the next configuration
-/

namespace EosioSystem

open Checked PowerupTables

variable {K : Type}

/-- A 128-bit signed number. -/
def int128 (x : ℤ) : ℤ := x.bmod (2 ^ 128)

namespace PowerupResource

variable {r r' : PowerupResource K} {core : Symbol} {now t t' : ℕ}

/-- The ratio as the code computes it: the product has 128 bits, the ratio 64. -/
def machineRatio (r : PowerupResource K) (now : ℕ) : ℤ :=
  if r.targetTimestamp ≤ now then r.targetWeightRatio
  else int64 (r.initialWeightRatio +
    (int128 ((r.targetWeightRatio - r.initialWeightRatio) * (now - r.initialTimestamp : ℕ))).tdiv
      (r.targetTimestamp - r.initialTimestamp : ℕ))

/-- The weight as the code computes it: the product has 128 bits, the weight 64. -/
def machineWeight (r : PowerupResource K) (now : ℕ) : ℤ :=
  int64 ((int128 (r.assumedStakeWeight * powerupFrac)).tdiv (r.machineRatio now) -
    r.assumedStakeWeight)

/-- Ratio and weight of a resource from the time `t₀` of its configuration on. -/
structure Trajectory (t₀ : ℕ) (r : PowerupResource K) : Prop where
  line_ne : ∀ now, t₀ ≤ now → now < r.targetTimestamp → r.targetTimestamp - r.initialTimestamp ≠ 0
  updates : ∀ now, t₀ ≤ now → r.currentRatio now ≠ 0 ∧
    r.updateWeight now = .ok (r.weighed now, r.weightAt now - r.weight)
  ratio_mem : ∀ now, t₀ ≤ now →
    r.targetWeightRatio ≤ r.currentRatio now ∧ r.currentRatio now ≤ r.initialWeightRatio
  ratio_anti : ∀ now later, t₀ ≤ now → now ≤ later → r.currentRatio later ≤ r.currentRatio now
  ratio_end : ∀ now, r.targetTimestamp ≤ now → r.currentRatio now = r.targetWeightRatio
  weight_mem : ∀ now, t₀ ≤ now → 0 ≤ r.weightAt now ∧ r.weightAt now < 2 ^ 63
  weight_mono : ∀ now later, t₀ ≤ now → now ≤ later → r.weightAt now ≤ r.weightAt later
  no_loss : ∀ now, t₀ ≤ now → now < 2 ^ 32 →
    r.machineRatio now = r.currentRatio now ∧ r.machineWeight now = r.weightAt now

/-! ## The arithmetic -/

theorem int128_of_mem {x : ℤ} (h : -2 ^ 127 ≤ x) (h' : x < 2 ^ 127) : int128 x = x :=
  Int.bmod_eq_of_le (by omega) (by omega)

theorem int64_of_mem {x : ℤ} (h : -2 ^ 63 ≤ x) (h' : x < 2 ^ 63) : int64 x = x :=
  Int.bmod_eq_of_le (by omega) (by omega)

variable [Field K] [LinearOrder K]

namespace Settings

/-- The stake weight fits in 64 bits as well. -/
theorem stake_lt (h : r.Settings core) : r.assumedStakeWeight < 2 ^ 63 := by
  have hle := h.stake_le
  have hnonneg := h.stake_pos
  have htarget : r.targetWeightRatio ≤ powerupFrac := h.target_le.trans h.initial_le
  rw [Int.tdiv_eq_ediv_of_nonneg h.stake_mul_nonneg] at hle
  have hdiv : r.assumedStakeWeight ≤ r.assumedStakeWeight * powerupFrac / r.targetWeightRatio := by
    rw [Int.le_ediv_iff_mul_le h.target_pos]
    exact mul_le_mul_of_nonneg_left htarget (by omega)
  omega

/-- The interpolation loses no bits. -/
theorem machineRatio_eq (h : r.Settings core) (ht : r.initialTimestamp ≤ now)
    (hnow : now < 2 ^ 32) : r.machineRatio now = r.currentRatio now := by
  obtain ⟨hlo, hhi⟩ := h.ratio_mem ht
  have hfrac := h.initial_le
  have htarget := h.target_pos
  have hle := h.target_le
  unfold powerupFrac at hfrac
  unfold machineRatio currentRatio at *
  split_ifs at hlo hhi ⊢ with hend
  · rfl
  · have hd : r.targetWeightRatio - r.initialWeightRatio ≤ 0 := by omega
    have he : (0 : ℤ) ≤ (now - r.initialTimestamp : ℕ) := Int.natCast_nonneg _
    have hprod : (r.targetWeightRatio - r.initialWeightRatio) * (now - r.initialTimestamp : ℕ) ≤
      0 :=
      mul_nonpos_of_nonpos_of_nonneg hd he
    -- the difference is at least minus the whole, and the time has 32 bits
    have hlow : -(10 ^ 15 * 2 ^ 32) ≤
        (r.targetWeightRatio - r.initialWeightRatio) * ((now - r.initialTimestamp : ℕ) : ℤ) := by
      have h₁ : -(10 ^ 15) * ((now - r.initialTimestamp : ℕ) : ℤ) ≤
          (r.targetWeightRatio - r.initialWeightRatio) * ((now - r.initialTimestamp : ℕ) : ℤ) :=
        mul_le_mul_of_nonneg_right (by omega) he
      omega
    rw [int128_of_mem (by omega) (by omega)]
    exact int64_of_mem (by omega) (by omega)

/-- The weight loses no bits. -/
theorem machineWeight_eq (h : r.Settings core) (ht : r.initialTimestamp ≤ now)
    (hnow : now < 2 ^ 32) : r.machineWeight now = r.weightAt now := by
  obtain ⟨hlo, hhi⟩ := h.weightAt_mem ht
  have hlt := h.stake_lt
  have hnonneg := h.stake_mul_nonneg
  have hprod : r.assumedStakeWeight * powerupFrac < 2 ^ 127 := by
    unfold powerupFrac
    omega
  unfold machineWeight
  rw [h.machineRatio_eq ht hnow, int128_of_mem (by omega) hprod]
  exact int64_of_mem (by unfold weightAt at hlo; omega) (by unfold weightAt at hhi; omega)

/-- **The trajectory** of what a configuration accepts. -/
theorem trajectory (h : r.Settings core) : r.Trajectory r.initialTimestamp where
  line_ne now ht hlt := by omega
  updates now ht := by
    have hne := (h.ratio_pos ht).ne'
    exact ⟨hne, updateWeight_eq hne⟩
  ratio_mem now ht := h.ratio_mem ht
  ratio_anti now later ht htt := h.ratio_anti ht htt
  ratio_end now ht := ramp_of_le ht
  weight_mem now ht := by
    obtain ⟨hlo, hhi⟩ := h.weightAt_mem ht
    exact ⟨hlo, by omega⟩
  weight_mono now later ht htt := h.weightAt_mono ht htt
  no_loss now ht hnow := ⟨h.machineRatio_eq ht hnow, h.machineWeight_eq ht hnow⟩

end Settings

/-! ## A configuration that gives no value -/

/-- A line that is started anew is at its start. -/
theorem currentRatio_restarted (h : r.Settings core) (ht : r.initialTimestamp ≤ now)
    (hr : r.weightRatio = r.currentRatio now) :
    (r.restarted now).currentRatio now = r.weightRatio := by
  obtain ⟨hs, hi, -⟩ := configure_eq_ok (configure_empty h ht hr)
  have hstart := hs.ratio_start
  rwa [hi] at hstart

/-- **Restarting the line** moves the ratio by at most one. -/
theorem currentRatio_restarted_le (h : r.Settings core) (ht : r.initialTimestamp ≤ now)
    (hr : r.weightRatio = r.currentRatio now) {later : ℕ} (hl : now ≤ later) :
    r.currentRatio later ≤ (r.restarted now).currentRatio later ∧
      (r.restarted now).currentRatio later ≤ r.currentRatio later + 1 := by
  have hline : (r.restarted now).currentRatio later =
      ramp (r.currentRatio now) r.targetWeightRatio now r.targetTimestamp later := by
    rw [currentRatio_eq, ← hr]
    unfold restarted
    dsimp only
    split_ifs with he
    · -- the line has come to its end
      rw [ramp_of_le hl, he]
      obtain ⟨hlo, hhi⟩ : _ ≤ ramp r.targetWeightRatio r.targetWeightRatio now r.targetTimestamp
        later ∧
        _ ≤ r.targetWeightRatio := ramp_mem le_rfl hl
      exact le_antisymm hlo hhi
    · rfl
  rw [hline]
  exact ramp_restart h.target_le ht hl

variable [FloorRing K] [CMath K]

/-- The resource with the utilization and the weight of a time. -/
def refreshed (r : PowerupResource K) (now : ℕ) : PowerupResource K :=
  (r.updateUtilization now).weighed now

/-- The resource after a configuration that gives no value. -/
def reissued (r : PowerupResource K) (now : ℕ) : PowerupResource K :=
  { (r.refreshed now).restarted now with
    adjustedUtilization := min (r.refreshed now).adjustedUtilization (r.refreshed now).weight }

omit [Field K] [LinearOrder K] [FloorRing K] [CMath K] in
theorem SameSettings.currentRatio (h : r.SameSettings r') (now : ℕ) :
    r'.currentRatio now = r.currentRatio now := by
  obtain ⟨_, _, _, _, _, rfl⟩ := h
  rfl

omit [Field K] [LinearOrder K] [FloorRing K] [CMath K] in
theorem SameSettings.weightAt (h : r.SameSettings r') (now : ℕ) :
    r'.weightAt now = r.weightAt now := by
  obtain ⟨_, _, _, _, _, rfl⟩ := h
  rfl

theorem sameSettings_refreshed (r : PowerupResource K) (now : ℕ) :
    r.SameSettings (r.refreshed now) :=
  (r.sameSettings_updateUtilization now).trans ⟨_, _, _, _, _, rfl⟩

variable (hk : r.Kept core t) (ht : t ≤ now)

include hk ht

/-- The first part of a configuration. -/
theorem refreshed_eq : (r.updateUtilization now).updateWeight now =
    .ok (r.refreshed now, r.weightAt now - r.weight) := by
  rw [(hk.updateUtilization ht).updateWeight_eq le_rfl, r.weight_updateUtilization,
    (r.sameSettings_updateUtilization now).weightAt]
  rfl

theorem refreshed_kept : (r.refreshed now).Kept core now :=
  (hk.updateUtilization ht).weigh le_rfl

/-- The second part: no value is given, and none is changed but the start of the line. -/
theorem configure_refreshed :
    (r.refreshed now).configure now core .empty = .ok ((r.refreshed now).restarted now) := by
  have hk' := refreshed_kept hk ht
  exact configure_empty hk'.settings hk'.initial_le rfl

/-- The third part: the weight stays what it is. -/
theorem updateWeight_restarted : ((r.refreshed now).restarted now).updateWeight now =
    .ok ((r.refreshed now).restarted now, 0) := by
  have hk' := refreshed_kept hk ht
  have hratio := currentRatio_restarted hk'.settings hk'.initial_le rfl
  have hne : (r.refreshed now).weightRatio ≠ 0 := (hk'.settings.ratio_pos hk'.initial_le).ne'
  have hweight : ((r.refreshed now).restarted now).weightAt now = (r.refreshed now).weight := by
    unfold PowerupResource.weightAt
    rw [hratio]
    rfl
  rw [updateWeight_eq (hratio.trans_ne hne), weighed, hratio, hweight]
  exact congrArg (fun δ => Except.ok (_, δ)) (sub_self _)

/-- **Re-issuing a configuration** leaves the weight of the time, and the line within one unit. -/
theorem reissued_spec : (r.reissued now).weight = r.weightAt now ∧
    (r.reissued now).weightRatio = r.currentRatio now ∧ ∀ later, now ≤ later →
      r.currentRatio later ≤ (r.reissued now).currentRatio later ∧
        (r.reissued now).currentRatio later ≤ r.currentRatio later + 1 := by
  have hk' := refreshed_kept hk ht
  have hsame := r.sameSettings_refreshed now
  refine ⟨(r.sameSettings_updateUtilization now).weightAt now,
    (r.sameSettings_updateUtilization now).currentRatio now, fun later hl => ?_⟩
  have hrestart := currentRatio_restarted_le hk'.settings hk'.initial_le rfl hl
  rwa [hsame.currentRatio] at hrestart

end PowerupResource

/-! ## The action -/

section

variable [Field K] [LinearOrder K] [FloorRing K] [CMath K] {core : Symbol} {t : ℕ}
  {s s' : State K} {m : PowerupMarket K} {env : Env}

/-- The market after a configuration that gives no value. -/
def PowerupMarket.reissued (m : PowerupMarket K) (now : ℕ) : PowerupMarket K :=
  { m with
    net := m.net.reissued now
    cpu := m.cpu.reissued now }

theorem PowerupMarket.resource_reissued (m : PowerupMarket K) (now : ℕ) (kind : Resource) :
    (m.reissued now).resource kind = (m.resource kind).reissued now := by cases kind <;> rfl

omit [Field K] [LinearOrder K] [FloorRing K] [CMath K] in
/-- An asset with an amount is not the default. -/
theorem Asset.isDefault_of_pos {a : Asset} (h : 0 < a.amount) : a.isDefault = false :=
  decide_eq_false fun he => by
    rw [he] at h
    exact lt_irrefl _ h

namespace State

/-- The reserve need not be changed at a time, or it may be. -/
def ReserveSettled (s : State K) (m : PowerupMarket K) (now : ℕ) : Prop :=
  (∀ kind, (m.resource kind).weightAt now = (m.resource kind).weight) ∨
    ((s.vote.managed reservAccount).net || (s.vote.managed reservAccount).cpu) = false

/-- **A configuration that gives no value** does nothing but to change the reserve by what the
weights have grown. -/
theorem cfgpowerup_empty_eq_ok (hs : s.powup.Sound core t) (ht : t ≤ env.now.sec)
    (hm : s.powup.market = some m) (hcore : s.coreSymbol = .ok core) :
    s.cfgpowerup env .empty = .ok s' ↔ env.isAccount reservAccount = true ∧ ∃ res,
      s.res.adjustResources (s.vote.managed reservAccount) reservAccount
        (m.net.weightAt env.now.sec - m.net.weight) (m.cpu.weightAt env.now.sec - m.cpu.weight)
        true = .ok res ∧
      s' = { s with res, powup := ⟨some (m.reissued env.now.sec), s.powup.orders⟩ } := by
  have hn := hs.kept m hm .net
  have hc := hs.kept m hm .cpu
  obtain ⟨hsym, hpos⟩ := hs.fee m hm
  have hdays := hs.days_pos m hm
  have hrefresh : refreshMarket env.now.sec s.powup.market =
      .ok ({ m with net := m.net.refreshed env.now.sec, cpu := m.cpu.refreshed env.now.sec },
        m.net.weightAt env.now.sec - m.net.weight, m.cpu.weightAt env.now.sec - m.cpu.weight) := by
    rw [hm]
    simp only [refreshMarket, bind_eq_ok, pure_eq_ok]
    exact ⟨_, PowerupResource.refreshed_eq hn ht, _, PowerupResource.refreshed_eq hc ht, rfl⟩
  have hnu := (PowerupResource.refreshed_kept hn ht).utilization_le
  have hcu := (PowerupResource.refreshed_kept hc ht).utilization_le
  simp only [cfgpowerup, bind_eq_ok, check_eq_ok, exists_const, pure_eq_ok, adjustResources]
  constructor
  · rintro ⟨core', hcore', ha, ⟨m₁, δn, δc⟩, hr, -, -, -, -, net₁, hnet, cpu₁, hcpu, ⟨net₂, δnet⟩,
      hnetw, ⟨cpu₂, δcpu⟩, hcpuw, -, -, s₁, ⟨res, hres, rfl⟩, rfl⟩
    obtain rfl := Except.ok.inj (hcore.symm.trans hcore')
    cases hrefresh.symm.trans hr
    obtain rfl := Except.ok.inj ((PowerupResource.configure_refreshed hn ht).symm.trans hnet)
    obtain rfl := Except.ok.inj ((PowerupResource.configure_refreshed hc ht).symm.trans hcpu)
    obtain ⟨rfl, rfl⟩ := Prod.mk.inj (Except.ok.inj
      ((PowerupResource.updateWeight_restarted hn ht).symm.trans hnetw))
    obtain ⟨rfl, rfl⟩ := Prod.mk.inj (Except.ok.inj
      ((PowerupResource.updateWeight_restarted hc ht).symm.trans hcpuw))
    rw [add_zero, add_zero] at hres
    exact ⟨ha, res, hres, rfl⟩
  · rintro ⟨ha, res, hres, rfl⟩
    refine ⟨core, hcore, ha, _, hrefresh, .inr (Asset.isDefault_of_pos hpos), hdays, hsym, hpos, _,
      PowerupResource.configure_refreshed hn ht, _, PowerupResource.configure_refreshed hc ht, _,
      PowerupResource.updateWeight_restarted hn ht, _,
      PowerupResource.updateWeight_restarted hc ht, hnu, hcu, _, ⟨res, ?_, rfl⟩, rfl⟩
    rw [add_zero, add_zero]
    exact hres

/-- It succeeds unless the reserve is managed and would have to change. -/
theorem cfgpowerup_empty (h : s.Backed) (hs : s.powup.Sound core t) (ht : t ≤ env.now.sec)
    (hm : s.powup.market = some m) (hcore : s.coreSymbol = .ok core) :
    (∃ s', s.cfgpowerup env .empty = .ok s') ↔
      env.isAccount reservAccount = true ∧ s.ReserveSettled m env.now.sec := by
  have hgrown : ∀ kind : Resource, 0 ≤ kind.pick (m.net.weightAt env.now.sec - m.net.weight)
      (m.cpu.weightAt env.now.sec - m.cpu.weight) := fun kind => by
    have hle := (hs.kept m hm kind).le_weightAt ht
    cases kind <;> exact sub_nonneg.mpr hle
  have hrow : ∀ kind, 0 ≤ s.res.weightOf kind reservAccount + kind.pick
      (m.net.weightAt env.now.sec - m.net.weight) (m.cpu.weightAt env.now.sec - m.cpu.weight) :=
    fun kind => by
      have hle := h.unsold_le hs.nonneg kind
      have hun := unsold_nonneg hs hm kind
      rw [unsold_eq hm] at hle
      exact add_nonneg (hun.trans hle) (hgrown kind)
  have hreserve : (∃ res, s.res.adjustResources (s.vote.managed reservAccount) reservAccount
      (m.net.weightAt env.now.sec - m.net.weight) (m.cpu.weightAt env.now.sec - m.cpu.weight)
      true = .ok res) ↔ s.ReserveSettled m env.now.sec := by
    rw [ResourceState.exists_adjustResources hrow, ReserveSettled, Bool.true_and]
    refine or_congr_left ⟨?_, fun heq => ⟨sub_eq_zero.mpr (heq .net), sub_eq_zero.mpr (heq .cpu)⟩⟩
    rintro ⟨hnet, hcpu⟩ kind
    cases kind
    · exact sub_eq_zero.mp hnet
    · exact sub_eq_zero.mp hcpu
  rw [← hreserve]
  constructor
  · rintro ⟨s', hc⟩
    obtain ⟨ha, res, hres, -⟩ := (cfgpowerup_empty_eq_ok hs ht hm hcore).mp hc
    exact ⟨ha, res, hres⟩
  · rintro ⟨ha, res, hres⟩
    exact ⟨_, (cfgpowerup_empty_eq_ok hs ht hm hcore).mpr ⟨ha, res, hres, rfl⟩⟩

end State

end

/-! ## Runs -/

/-- The action that configures the market. -/
def Action.isCfgpowerup : Action K → Bool
  | cfgpowerup _ => true
  | _ => false

section

variable [Field K] [LinearOrder K] [FloorRing K] [CMath K]

theorem PowerupResource.sameSettings_reserve {r r' : PowerupResource K} {frac amount fee : ℤ}
    (h : r.reserve frac = .ok (r', amount, fee)) : r.SameSettings r' := by
  unfold PowerupResource.reserve at h
  split_ifs at h
  · simp only [pure_eq_ok, Prod.mk.injEq] at h
    exact h.1 ▸ .refl r
  · simp only [bind_eq_ok, check_eq_ok, exists_const, pure_eq_ok, Prod.mk.injEq] at h
    obtain ⟨-, -, -, rfl, -⟩ := h
    exact ⟨_, _, _, _, _, rfl⟩

variable {core : Symbol} {m₁ : PowerupMarket K} {t now : BlockTimestamp} {s s' : State K}

/-- The settings of both resources are those of the market `m₁`. -/
def PowerupTables.Follows (p : PowerupTables K) (m₁ : PowerupMarket K) : Prop :=
  ∃ m, p.market = some m ∧ ∀ kind, (m₁.resource kind).SameSettings (m.resource kind)

/-- The queue does not change the settings. -/
theorem State.sameSettings_processPowerupQueue {now max : ℕ} {m m' : PowerupMarket K} {net cpu : ℤ}
    (hn : OrdersNonneg s.powup.orders)
    (h : s.processPowerupQueue now m max = .ok (s', m', net, cpu)) (kind : Resource) :
    (m.resource kind).SameSettings (m'.resource kind) := by
  obtain ⟨res, orders, -, -, -, hres, -⟩ := State.processPowerupQueue_spec hn h
  rw [hres kind]
  exact PowerupResource.sameSettings_queued _ _ _

/-- **Only a configuration changes the settings.** -/
theorem PowerupTables.Follows.exec (h : s.powup.Follows m₁) (hn : OrdersNonneg s.powup.orders)
    {env : Env} {x : Action K} (hx : x.isCfgpowerup = false) (he : x.exec env s = .ok s') :
    s'.powup.Follows m₁ := by
  obtain ⟨m, hm, hsame⟩ := h
  cases x with
  | cfgpowerup => cases hx
  | powerup =>
    simp only [Action.exec, State.powerup, bind_eq_ok, requireAuth_eq_ok, check_eq_ok,
      State.checkCore_eq_ok, exists_const, require_eq_ok, pure_eq_ok] at he
    obtain ⟨-, m', hm', -, -, -, -, -, -, ⟨s₁, m₂, _, _⟩, hq, ⟨net, _, _⟩, hnet, ⟨cpu, _, _⟩, hcpu,
      -, -, s₂, -, s₃, -, s₄, -, rfl⟩ := he
    obtain rfl := Option.some.inj (hm.symm.trans hm')
    refine ⟨_, rfl, fun kind => ?_⟩
    have hqueue := (hsame kind).trans (State.sameSettings_processPowerupQueue hn hq kind)
    cases kind
    · exact hqueue.trans (PowerupResource.sameSettings_reserve hnet)
    · exact hqueue.trans (PowerupResource.sameSettings_reserve hcpu)
  | powerupexec =>
    simp only [Action.exec, State.powerupexec, bind_eq_ok, requireAuth_eq_ok, exists_const,
      require_eq_ok, pure_eq_ok] at he
    obtain ⟨-, m', hm', -, -, ⟨s₁, m₂, _, _⟩, hq, s₂, -, rfl⟩ := he
    obtain rfl := Option.some.inj (hm.symm.trans hm')
    exact ⟨_, rfl, fun kind => (hsame kind).trans
      (State.sameSettings_processPowerupQueue hn hq kind)⟩
  | _ =>
    have hpowup : s'.powup = s.powup :=
      (Action.exec_changes he).same .powup (by simp [Action.parts])
    rw [hpowup]
    exact ⟨m, hm, hsame⟩

/-- What holds from the configuration that has left the market `m₁` until the next one. -/
structure State.Configured (core : Symbol) (m₁ : PowerupMarket K) (t : ℕ) (s : State K) :
    Prop where
  coreSymbol : s.coreSymbol = .ok core
  sound : s.powup.Sound core t
  backed : s.Backed
  follows : s.powup.Follows m₁

theorem State.Configured.step (h : s.Configured core m₁ t.sec) (ht : t ≤ now)
    (hs : Step (fun _ x => x.isCfgpowerup = false) now s s') : s'.Configured core m₁ now.sec := by
  obtain ⟨isAccount, x, hx, he⟩ := hs
  have ht' := BlockTimestamp.sec_mono ht
  refine ⟨coreSymbol_exec h.coreSymbol he, ?_, h.backed.exec h.sound.nonneg he,
    h.follows.exec h.sound.nonneg hx he⟩
  cases x with
  | cfgpowerup => cases hx
  | powerup => exact h.sound.powerup ht' he
  | powerupexec => exact h.sound.powerupexec ht' he
  | _ =>
    have hpowup : s'.powup = s.powup :=
      (Action.exec_changes he).same .powup (by simp [Action.parts])
    rw [hpowup]
    exact h.sound.mono ht'

/-- A configuration starts both lines. -/
theorem State.initialTimestamp_of_cfgpowerup {env : Env} {args : PowerupConfig K}
    (h : s.cfgpowerup env args = .ok s') : ∃ m, s'.powup.market = some m ∧
      ∀ kind, (m.resource kind).initialTimestamp = env.now.sec := by
  simp only [State.cfgpowerup, bind_eq_ok, check_eq_ok, exists_const, pure_eq_ok] at h
  obtain ⟨core, -, -, ⟨m, _, _⟩, -, -, -, -, -, net₁, hnet, cpu₁, hcpu, ⟨net₂, _⟩, hnetw,
    ⟨cpu₂, _⟩, hcpuw, -, -, s₁, -, rfl⟩ := h
  obtain ⟨-, hn, -⟩ := PowerupResource.configure_eq_ok hnet
  obtain ⟨-, hc, -⟩ := PowerupResource.configure_eq_ok hcpu
  obtain ⟨-, rfl, -⟩ := PowerupResource.updateWeight_eq_ok hnetw
  obtain ⟨-, rfl, -⟩ := PowerupResource.updateWeight_eq_ok hcpuw
  refine ⟨_, rfl, fun kind => ?_⟩
  cases kind
  · exact hn
  · exact hc

/-- Ratio and weight of a resource are those of a time between two times. -/
def PowerupResource.WeighedIn (r : PowerupResource K) (t₀ t : ℕ) : Prop :=
  ∃ u, t₀ ≤ u ∧ u ≤ t ∧ r.weightRatio = r.currentRatio u ∧ r.weight = r.weightAt u

/-- What a configuration that gives no value leaves at the time `now` of a resource: the weight of
that time, and from then on a ratio that is at most one more. -/
def PowerupResource.Reissues (r : PowerupResource K) (now : ℕ) (r' : PowerupResource K) : Prop :=
  r'.weight = r.weightAt now ∧ r'.weightRatio = r.currentRatio now ∧ ∀ later, now ≤ later →
    r.currentRatio later ≤ r'.currentRatio later ∧
      r'.currentRatio later ≤ r.currentRatio later + 1

/-- A configuration under which the ratio falls from ten percent to one within 1000 seconds. -/
def fallingExampleConfig : PowerupConfigResource ℚ :=
  { powerupExampleConfig with
    currentWeightRatio := some 100000000000000
    targetTimestamp := some (BlockTimestamp.epochSec + 1001) }

/-- The falling line for both resources. -/
def fallingExample : PowerupConfig ℚ :=
  ⟨fallingExampleConfig, fallingExampleConfig, some 30, some (exampleAsset 1)⟩

/-- What goes on from the falling line without a new configuration. -/
theorem continued_fallingExample {l : List (BlockTimestamp × Action ℚ)} {t : BlockTimestamp}
    {s₁ s : State ℚ} (h : execAll (Action.execIn fun _ x => !x.isCfgpowerup) (.ofSlot 2) l s₁ =
      some (t, s)) :
    Continued (Step fun _ x => x.isCfgpowerup = false) (.ofSlot 2) s₁ t s := by
  refine continued_of_execAll (fun t x p p' hx => ?_) .refl h
  obtain ⟨hx, he⟩ := check_bind_eq_ok.mp hx
  exact ⟨_, x, by simpa using hx, he⟩

theorem fallingExample_ok :
    (powerupExampleChain.cfgpowerup ⟨.ofSlot 2, fun _ => true⟩ fallingExample).isOk := by
  decide +kernel

end

end EosioSystem
