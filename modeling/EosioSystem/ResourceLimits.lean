import EosioSystem.BackingLedger
import EosioSystem.Chain
import EosioSystem.VoteFlags

/-!
# The limits of the chain

The chain enforces limits of its own, which the contract writes whenever the row of an account
changes: delegations, loans, powerup orders and the trade in RAM each have their own code for it.
An administrator may manage a resource of an account instead; then the row changes and the limit
stays.

## Main definitions

* `AdminLimits`: the limits an administrator has set
* `Mirrors`: the limits of an account are those of its row, or those that have been set
* `RowStep`: a change of a row with its limits
* `LimitChain`: the chain with what administrators have set, and the accounts it has created

## Main results

* `RowStep.mirrors`: a change of a row keeps the limits right
* `Action.exec_rows`: what an action does to the rows
* `limits_of_run`: **the limits mirror the books**
-/

namespace EosioSystem

open Checked Relation

/-- The limits an administrator has set, of the resources that are managed. -/
structure AdminLimits where
  ram : Option ℤ
  net : Option ℤ
  cpu : Option ℤ

/-- Nothing is managed. -/
def AdminLimits.none : AdminLimits := ⟨.none, .none, .none⟩

/-- The resources that have been set are managed. -/
def AdminLimits.managed (l : AdminLimits) : Managed := ⟨l.ram.isSome, l.net.isSome, l.cpu.isSome⟩

namespace ResourceState

variable {rs rs' : ResourceState} {managed : Name → Managed} {a x : Name} {l : AdminLimits}

/-- The limits of an account are those that have been set; the others are those of its row, where
RAM may have a gift. -/
structure Mirrors (rs : ResourceState) (l : AdminLimits) (a : Name) : Prop where
  net : (rs.getLimits a).net = l.net.getD (rs.row a).netWeight
  cpu : (rs.getLimits a).cpu = l.cpu.getD (rs.row a).cpuWeight
  ram : ∀ bytes, l.ram = some bytes → (rs.getLimits a).ramBytes = bytes
  ram_mem : l.ram = .none → (rs.row a).ramBytes ≤ (rs.getLimits a).ramBytes ∧
    (rs.getLimits a).ramBytes ≤ (rs.row a).ramBytes + ramGiftBytes

/-- A row is written with the limits that go with it. A change of the weights leaves the RAM in the
row, and may raise the limit of the RAM to what goes with it. -/
inductive RowStep (managed : Name → Managed) (rs : ResourceState) : ResourceState → Prop
  | weights {a tot ram} (ht : tot.ramBytes = (rs.row a).ramBytes)
      (hr : ram = (rs.getLimits a).ramBytes ∨ ram = rs.ramLimit (managed a) a tot) :
      RowStep managed rs ((rs.writeLimits (managed a) a tot ram).storeTotals a tot)
  | ram {a bytes} : RowStep managed rs (rs.addRam (managed a) a bytes)

theorem getLimits_setLimits (rs : ResourceState) (a x : Name) (l : Limits) :
    (rs.setLimits a l).getLimits x = if x = a then l else rs.getLimits x := by
  rw [getLimits, setLimits, Table.find_set]
  split_ifs <;> rfl

theorem getLimits_writeLimits (rs : ResourceState) (m : Managed) (a x : Name) (tot : UserResources)
    (ram : ℤ) : (rs.writeLimits m a tot ram).getLimits x =
      if x = a ∧ (m.net && m.cpu) = false then ⟨ram,
        if m.net then (rs.getLimits a).net else tot.netWeight,
        if m.cpu then (rs.getLimits a).cpu else tot.cpuWeight⟩
      else rs.getLimits x := by
  unfold writeLimits
  by_cases hm : (m.net && m.cpu) = true
  · rw [if_pos hm, if_neg fun h => by simp [hm] at h]
  · rw [if_neg hm, getLimits_setLimits]
    simp only [Bool.not_eq_true] at hm
    simp only [hm, and_true]

theorem row_writeLimits (rs : ResourceState) (m : Managed) (a x : Name) (tot : UserResources)
    (ram : ℤ) : (rs.writeLimits m a tot ram).row x = rs.row x := by
  rw [row, userres_writeLimits, row]

theorem Mirrors.congr (h : Mirrors rs l a) (hr : rs'.row a = rs.row a)
    (hl : rs'.getLimits a = rs.getLimits a) : Mirrors rs' l a := by
  refine ⟨?_, ?_, ?_, ?_⟩
  · rw [hl, hr, h.net]
  · rw [hl, hr, h.cpu]
  · rw [hl]
    exact h.ram
  · rw [hl, hr]
    exact h.ram_mem

/-- The RAM limit that goes with a row is the one that has been set, or all that is allowed. -/
theorem Mirrors.ramLimit_eq (h : Mirrors rs l a) {tot : UserResources}
    (ht : tot.ramBytes = (rs.row a).ramBytes) :
    rs.ramLimit l.managed a tot = l.ram.getD ((rs.row a).ramBytes + ramGiftBytes) := by
  have hmanaged : l.managed.ram = l.ram.isSome := rfl
  rw [ramLimit, hmanaged, ht]
  cases hl : l.ram with
  | some bytes =>
    rw [if_pos Option.isSome_some, Option.getD_some]
    exact h.ram bytes hl
  | none =>
    rw [if_neg (by simp), Option.getD_none]
    exact max_eq_left (h.ram_mem hl).2

/-- A change of the weights, with the limits that are not managed. -/
theorem Mirrors.weights (h : Mirrors rs l a) {tot : UserResources} {ram : ℤ}
    (ht : tot.ramBytes = (rs.row a).ramBytes)
    (hr : ram = (rs.getLimits a).ramBytes ∨ ram = rs.ramLimit l.managed a tot) :
    Mirrors ((rs.writeLimits l.managed a tot ram).storeTotals a tot) l a := by
  have hlimits : ((rs.writeLimits l.managed a tot ram).storeTotals a tot).getLimits a =
      (rs.writeLimits l.managed a tot ram).getLimits a := rfl
  have hrow : ((rs.writeLimits l.managed a tot ram).storeTotals a tot).row a = tot := by
    rw [row_storeTotals, if_pos rfl]
  rw [getLimits_writeLimits] at hlimits
  have hlimit := h.ramLimit_eq ht
  have hgift : (0 : ℤ) ≤ ramGiftBytes := by decide
  obtain ⟨lram, lnet, lcpu⟩ := l
  by_cases hm : (lnet.isSome && lcpu.isSome) = true
  · -- both are managed, and no limit is written
    rw [if_neg fun hw => Bool.false_ne_true (hw.2.symm.trans hm)] at hlimits
    obtain ⟨hn, hc⟩ := Bool.and_eq_true_iff.mp hm
    obtain ⟨net, rfl⟩ := Option.isSome_iff_exists.mp hn
    obtain ⟨cpu, rfl⟩ := Option.isSome_iff_exists.mp hc
    refine ⟨hlimits ▸ h.net, hlimits ▸ h.cpu, hlimits ▸ h.ram, ?_⟩
    rw [hlimits, hrow, ht]
    exact h.ram_mem
  · rw [if_pos ⟨rfl, Bool.not_eq_true _ ▸ hm⟩] at hlimits
    refine ⟨?_, ?_, fun bytes hb => ?_, fun hn => ?_⟩ <;> rw [hlimits]
    · cases lnet with
      | none => exact hrow.symm ▸ rfl
      | some net => exact h.net
    · cases lcpu with
      | none => exact hrow.symm ▸ rfl
      | some cpu => exact h.cpu
    · rcases hr with rfl | rfl
      · exact h.ram bytes hb
      · exact hlimit.trans (hb ▸ rfl)
    · rw [hrow, ht]
      rcases hr with rfl | rfl
      · exact h.ram_mem hn
      · rw [hlimit, hn, Option.getD_none]
        exact ⟨le_add_of_nonneg_right hgift, le_rfl⟩

/-- A trade in RAM, with the limit if it is not managed. -/
theorem Mirrors.trade (h : Mirrors rs l a) (bytes : ℤ) :
    Mirrors (rs.addRam l.managed a bytes) l a := by
  have hrow : (rs.addRam l.managed a bytes).row a =
      ⟨(rs.row a).netWeight, (rs.row a).cpuWeight, (rs.row a).ramBytes + bytes⟩ := by
    unfold addRam
    dsimp only
    split_ifs <;> simp only [row, setLimits, Table.find_set_self, Option.getD_some]
  have hlimits : (rs.addRam l.managed a bytes).getLimits a =
      ⟨if l.ram.isSome then (rs.getLimits a).ramBytes
        else (rs.row a).ramBytes + bytes + ramGiftBytes, (rs.getLimits a).net,
        (rs.getLimits a).cpu⟩ := by
    unfold addRam AdminLimits.managed
    dsimp only
    split_ifs
    · rfl
    · rw [getLimits_setLimits, if_pos rfl]
      rfl
  have hgift : (0 : ℤ) ≤ ramGiftBytes := by decide
  refine ⟨?_, ?_, fun ram hb => ?_, fun hn => ?_⟩ <;> rw [hlimits]
  · rw [hrow]
    exact h.net
  · rw [hrow]
    exact h.cpu
  · rw [hb]
    exact h.ram ram hb
  · rw [hrow, hn]
    dsimp only [Option.isSome_none]
    rw [if_neg Bool.false_ne_true]
    omega

/-- **A change of a row** keeps the limits of every account right. -/
theorem RowStep.mirrors (hs : RowStep managed rs rs') (h : Mirrors rs l a)
    (hm : managed a = l.managed) : Mirrors rs' l a := by
  cases hs with
  | @weights x tot ram ht hr =>
    by_cases hx : a = x
    · subst hx
      rw [hm] at hr ⊢
      exact h.weights ht hr
    · refine h.congr ?_ ?_
      · rw [row_storeTotals, if_neg hx, row_writeLimits]
      · refine (getLimits_writeLimits rs (managed x) x a tot ram).trans ?_
        exact if_neg fun hw => hx hw.1
  | @ram x bytes =>
    by_cases hx : a = x
    · subst hx
      rw [hm]
      exact h.trade bytes
    · refine h.congr ?_ ?_
      · unfold addRam
        dsimp only
        split_ifs <;> simp only [row, setLimits, Table.find_set, if_neg hx]
      · unfold addRam
        dsimp only
        split_ifs
        · rfl
        · exact (getLimits_setLimits _ _ _ _).trans (if_neg hx)

/-! ### Limits set by an administrator -/

/-- An account that has been created has an empty row and no limits. -/
theorem mirrors_of_zero (hr : rs.row a = .zero) (hl : rs.getLimits a = ⟨0, 0, 0⟩) :
    Mirrors rs .none a := by
  refine ⟨?_, ?_, fun bytes hb => (by cases hb), fun _ => ?_⟩ <;> rw [hr, hl]
  · rfl
  · rfl
  · decide

theorem Mirrors.setRam (h : Mirrors rs l a) {value : Option ℤ} {ram : ℤ}
    (hv : ram = value.getD (ramGiftBytes + (rs.row a).ramBytes)) :
    Mirrors (rs.setLimits a { rs.getLimits a with ramBytes := ram }) { l with ram := value } a := by
  have hgift : (0 : ℤ) ≤ ramGiftBytes := by decide
  have hlimits := (getLimits_setLimits rs a a { rs.getLimits a with ramBytes := ram }).trans
    (if_pos rfl)
  refine ⟨?_, ?_, fun bytes hb => ?_, fun hn => ?_⟩ <;> rw [hlimits]
  · exact h.net
  · exact h.cpu
  · rw [hv, show value = some bytes from hb, Option.getD_some]
  · have hrow : (rs.setLimits a { rs.getLimits a with ramBytes := ram }).row a = rs.row a := rfl
    rw [hrow, hv, show value = .none from hn, Option.getD_none]
    dsimp only
    omega

theorem Mirrors.setNet (h : Mirrors rs l a) {value : Option ℤ} {net : ℤ}
    (hv : net = value.getD (rs.row a).netWeight) :
    Mirrors (rs.setLimits a { rs.getLimits a with net }) { l with net := value } a := by
  have hlimits := (getLimits_setLimits rs a a { rs.getLimits a with net }).trans (if_pos rfl)
  refine ⟨?_, ?_, ?_, ?_⟩ <;> rw [hlimits]
  · exact hv
  · exact h.cpu
  · exact h.ram
  · exact h.ram_mem

theorem Mirrors.setCpu (h : Mirrors rs l a) {value : Option ℤ} {cpu : ℤ}
    (hv : cpu = value.getD (rs.row a).cpuWeight) :
    Mirrors (rs.setLimits a { rs.getLimits a with cpu }) { l with cpu := value } a := by
  have hlimits := (getLimits_setLimits rs a a { rs.getLimits a with cpu }).trans (if_pos rfl)
  refine ⟨?_, ?_, ?_, ?_⟩ <;> rw [hlimits]
  · exact h.net
  · exact hv
  · exact h.ram
  · exact h.ram_mem

/-- The limits of one account are written. -/
theorem Mirrors.setLimits_ne (h : Mirrors rs l a) (hx : a ≠ x) (limits : Limits) :
    Mirrors (rs.setLimits x limits) l a :=
  h.congr rfl ((getLimits_setLimits rs x a limits).trans (if_neg hx))

/-! ### Changes of weights -/

theorem RowStep.of_addWeights {tot : UserResources} {ram net cpu : ℤ}
    (h : rs.addWeights a net cpu = .ok tot)
    (hr : ram = (rs.getLimits a).ramBytes ∨ ram = rs.ramLimit (managed a) a tot) :
    RowStep managed rs ((rs.writeLimits (managed a) a tot ram).storeTotals a tot) :=
  .weights (by rw [(addWeights_eq_ok h).1]) hr

theorem changeTotals_rows {net cpu : ℤ} (h : rs.changeTotals (managed a) a net cpu = .ok rs') :
    ReflTransGen (RowStep managed) rs rs' := by
  simp only [changeTotals, bind_eq_ok, pure_eq_ok] at h
  obtain ⟨tot, ht, rfl⟩ := h
  exact .single (.of_addWeights ht (.inr rfl))

theorem updateResourceLimits_rows {net cpu : ℤ}
    (h : rs.updateResourceLimits (managed a) a net cpu = .ok rs') :
    ReflTransGen (RowStep managed) rs rs' := by
  unfold updateResourceLimits at h
  split_ifs at h
  · exact pure_eq_ok.mp h ▸ .refl
  · simp only [bind_eq_ok, check_eq_ok, exists_const, pure_eq_ok] at h
    obtain ⟨-, tot, ht, rfl⟩ := h
    exact .single (.of_addWeights ht (.inl rfl))

theorem adjustResources_rows {net cpu : ℤ} {must : Bool}
    (h : rs.adjustResources (managed a) a net cpu must = .ok rs') :
    ReflTransGen (RowStep managed) rs rs' := by
  unfold adjustResources at h
  split_ifs at h
  · exact pure_eq_ok.mp h ▸ .refl
  · simp only [bind_eq_ok, check_eq_ok, exists_const, pure_eq_ok] at h
    obtain ⟨tot, ht, -, rfl⟩ := h
    exact .single (.of_addWeights ht (.inr rfl))

end ResourceState

/-! ## Actions -/

variable {K : Type}

namespace State

open ResourceState

variable {s s' : State K} {now : BlockTimestamp} {owner sender receiver : Name}

/-- The rows change step by step, with the limits that are managed at the beginning. -/
def Rows (s s' : State K) : Prop := ReflTransGen (RowStep s.vote.managed) s.res s'.res

theorem Rows.of_eq (h : s'.res = s.res) : Rows s s' := by
  unfold Rows
  rw [h]

/-- What follows a change of the rows leaves them alone, or changes them with the same flags. -/
theorem Rows.trans {s₁ : State K} (h₁ : Rows s s₁) (hv : s₁.vote = s.vote) (h₂ : Rows s₁ s') :
    Rows s s' := by
  unfold Rows at *
  rw [hv] at h₂
  exact ReflTransGen.trans h₁ h₂

theorem Rows.congr {s₁ : State K} (h : Rows s s₁) (hr : s'.res = s₁.res) : Rows s s' := by
  unfold Rows at *
  rw [hr]
  exact h

theorem changebw_rows [Field K] [LinearOrder K] [CMath K] {net cpu : ℤ} {transfer : Bool}
    (h : s.changebw now sender receiver net cpu transfer = .ok s') : Rows s s' := by
  simp only [changebw, bind_eq_ok, check_eq_ok, requireAuth_eq_ok, exists_const, pure_eq_ok] at h
  obtain ⟨-, -, -, stake, -, res, ht, s₁, hr, s₂, hu, vote, -, rfl⟩ := h
  obtain ⟨stake₁, token, rfl, -⟩ := changeRefund_frame hr
  obtain ⟨rex, vote₂, rfl⟩ := updateRexStake_frame hu
  exact changeTotals_rows ht

/-- **Expired loans** are closed or renewed. -/
theorem processLoans_rows {kind : Resource} {max : ℕ} (h : s.processLoans now kind max = .ok s') :
    Rows s s' := by
  induction max generalizing s with
  | zero =>
    cases h
    exact .of_eq rfl
  | succ max ih =>
    rcases processLoans_succ h with rfl | ⟨key, loan, rex, del, delta, res, -, -, hr, h⟩
    · exact .of_eq rfl
    · have hstep : ReflTransGen (RowStep s.vote.managed) s.res res := updateResourceLimits_rows hr
      exact hstep.trans (ih h)

theorem runrex_rows {max : ℕ} (h : s.runrex now max = .ok s') : Rows s s' := by
  obtain ⟨rex, s₁, s₂, s₃, rex', -, -, hn, hc, hnet, -, rfl⟩ := runrex_eq_ok h
  obtain ⟨token, rex₁, rfl, -⟩ := channelNamebids_frame hn
  have hcpu := processLoans_rows hc
  obtain ⟨rex₂, res₂, rfl⟩ := processLoans_frame hc
  have hrows := hcpu.trans rfl (processLoans_rows hnet)
  exact hrows

theorem rentRex_rows {kind : Resource} {payment fund : Asset}
    (h : s.rentRex now kind sender receiver payment fund = .ok s') : Rows s s' := by
  simp only [rentRex, updateLimits, bind_eq_ok, pure_eq_ok] at h
  obtain ⟨_, -, s₁, hrun, _, -, _, -, _, -, _, -, _, -, _, -, _, -, _, -, _, -, _, -, _, -, res,
    hres, rfl⟩ := h
  have hloan : ReflTransGen (RowStep s₁.vote.managed) s₁.res res := updateResourceLimits_rows hres
  rw [runrex_vote hrun] at hloan
  have hrows := runrex_rows hrun
  exact ReflTransGen.trans hrows hloan

theorem expireOrders_rows {t max : ℕ} {net cpu net' cpu' : ℤ}
    (h : s.expireOrders t max net cpu = .ok (s', net', cpu')) : Rows s s' := by
  induction max generalizing s net cpu with
  | zero =>
    cases h
    exact .of_eq rfl
  | succ max ih =>
    unfold expireOrders at h
    split at h
    · cases h
      exact .of_eq rfl
    · split_ifs at h
      · cases h
        exact .of_eq rfl
      · simp only [adjustResources, bind_eq_ok, pure_eq_ok] at h
        obtain ⟨s₁, ⟨res, hr, rfl⟩, h⟩ := h
        have hstep : ReflTransGen (RowStep s.vote.managed) s.res res := adjustResources_rows hr
        exact hstep.trans (ih h)

theorem Rows.set {s₁ : State K} (h : Rows s s₁) {res : ResourceState} (hv : s₁.vote = s.vote)
    (hr : ReflTransGen (RowStep s₁.vote.managed) s₁.res res) (hs : s'.res = res) : Rows s s' := by
  unfold Rows at *
  rw [hv] at hr
  rw [hs]
  exact ReflTransGen.trans h hr

section

variable [Field K] [LinearOrder K] [CMath K]

theorem updateRexAccount_res {proceeds deltaStake pending : ℤ} {force : Bool}
    (h : s.updateRexAccount now owner proceeds deltaStake force = .ok (s', pending)) :
    s'.res = s.res := by
  obtain ⟨_, _, _, rex, vote, -, -, -, rfl⟩ := updateRexAccount_eq_ok h
  rfl

theorem buyrex_rows {amount : Asset} (h : s.buyrex now owner amount = .ok s') : Rows s s' := by
  simp only [buyrex, bind_eq_ok, requireAuth_eq_ok, check_eq_ok, checkCore_eq_ok,
    VoteState.checkVotingRequirement_eq_ok, exists_const, pure_eq_ok] at h
  obtain ⟨-, -, -, -, r₁, -, ⟨r₂, _⟩, -, ⟨r₃, _⟩, -, s₁, hr, ⟨s₂, _⟩, ha, rfl⟩ := h
  have hrows := runrex_rows hr
  have hrest := hrows.congr (updateRexAccount_res ha)
  exact hrest

theorem unstaketorex_rows {fromNet fromCpu : Asset}
    (h : s.unstaketorex now owner receiver fromNet fromCpu = .ok s') : Rows s s' := by
  simp only [unstaketorex, bind_eq_ok, check_eq_ok, requireAuth_eq_ok, checkCore_eq_ok,
    VoteState.checkVotingRequirement_eq_ok, exists_const, pure_eq_ok] at h
  obtain ⟨-, -, -, -, -, stake, -, res, hres, token, -, ⟨r₁, _⟩, -, ⟨r₂, _⟩, -, s₁, hr,
    ⟨s₂, _⟩, ha, rfl⟩ := h
  have hstep : ReflTransGen (RowStep s.vote.managed) s.res res := updateResourceLimits_rows hres
  have hrows := runrex_rows hr
  have hrest := hrows.congr (updateRexAccount_res ha)
  exact hstep.trans hrest

theorem sellrex_rows {rex : Asset} (h : s.sellrex now owner rex = .ok s') : Rows s s' := by
  simp only [sellrex, bind_eq_ok, requireAuth_eq_ok, check_eq_ok, require_eq_ok, exists_const,
    pure_eq_ok] at h
  obtain ⟨-, s₁, hr, rb, -, -, -, ⟨r, o⟩, -, -, ⟨s₂, pending⟩, ha, -, rb', -, -, rfl⟩ := h
  have hres := updateRexAccount_res ha
  refine (runrex_rows hr).congr (Eq.trans ?_ hres)
  split_ifs <;> rfl

theorem updaterex_rows (h : s.updaterex now owner = .ok s') : Rows s s' := by
  simp only [updaterex, bind_eq_ok, requireAuth_eq_ok, require_eq_ok, exists_const,
    pure_eq_ok] at h
  obtain ⟨-, s₁, hr, rb, -, p, -, value, -, ⟨s₂, _⟩, ha, rfl⟩ := h
  have hres := updateRexAccount_res ha
  exact (runrex_rows hr).congr hres

theorem consolidate_rows (h : s.consolidate now owner = .ok s') : Rows s s' := by
  simp only [consolidate, bind_eq_ok, requireAuth_eq_ok, require_eq_ok, exists_const,
    pure_eq_ok] at h
  obtain ⟨-, s₁, hr, rb, -, ⟨s₂, _⟩, ha, rfl⟩ := h
  have hres := updateRexAccount_res ha
  exact (runrex_rows hr).congr hres

theorem mvtosavings_rows {rex : Asset} (h : s.mvtosavings now owner rex = .ok s') : Rows s s' := by
  simp only [mvtosavings, bind_eq_ok, requireAuth_eq_ok, require_eq_ok, check_eq_ok,
    exists_const, pure_eq_ok] at h
  obtain ⟨-, s₁, hr, rb, -, -, ⟨s₂, _⟩, ha, rb', -, rfl⟩ := h
  have hres := updateRexAccount_res ha
  exact (runrex_rows hr).congr hres

theorem mvfrsavings_rows {rex : Asset} (h : s.mvfrsavings now owner rex = .ok s') : Rows s s' := by
  simp only [mvfrsavings, bind_eq_ok, requireAuth_eq_ok, require_eq_ok, check_eq_ok,
    exists_const, pure_eq_ok] at h
  obtain ⟨-, s₁, hr, rb, -, -, rb', -, ⟨s₂, _⟩, ha, rfl⟩ := h
  have hres := updateRexAccount_res ha
  exact (runrex_rows hr).congr hres

theorem closerex_rows (h : s.closerex now owner = .ok s') : Rows s s' := by
  simp only [closerex, bind_eq_ok, requireAuth_eq_ok, exists_const, pure_eq_ok] at h
  obtain ⟨-, s₁, hr, ⟨s₂, _⟩, ha, rex, -, rfl⟩ := h
  have hrows : Rows s s₁ := by
    split_ifs at hr
    · exact runrex_rows hr
    · cases hr
      exact .of_eq rfl
  have hres := updateRexAccount_res ha
  exact hrows.congr hres

omit [CMath K] in
theorem buyram_rows {payer : Name} {quant : Asset}
    (h : s.buyram now payer receiver quant = .ok s') : Rows s s' := by
  simp only [buyram, bind_eq_ok, requireAuth_eq_ok, check_eq_ok, checkCore_eq_ok,
    exists_const, pure_eq_ok] at h
  obtain ⟨-, ram, -, -, -, token, -, s₁, hf, ⟨ram', bytes⟩, -, rfl⟩ := h
  have hch := payRamFee_changes hf
  have hres : s₁.res = s.res := hch.same .res (by simp)
  have hvote : s₁.vote = s.vote := hch.same .vote (by simp)
  exact (Rows.of_eq hres).set hvote (.single .ram) rfl

omit [CMath K] in
theorem sellram_rows {bytes : ℤ} (h : s.sellram now owner bytes = .ok s') : Rows s s' := by
  simp only [sellram, bind_eq_ok, requireAuth_eq_ok, check_eq_ok, exists_const,
    require_eq_ok] at h
  obtain ⟨-, ram, -, -, row, -, -, sym, -, ⟨ram', tokens⟩, -, token, -, hf⟩ := h
  have hres : s'.res = s.res.addRam (s.vote.managed owner) owner (-bytes) :=
    (payRamFee_changes hf).same .res (by simp)
  exact (Rows.of_eq (s := s) rfl).set rfl (.single .ram) hres

variable [FloorRing K]

theorem powerupexec_rows {user : Name} {max : ℕ} (h : s.powerupexec now user max = .ok s') :
    Rows s s' := by
  simp only [powerupexec, processPowerupQueue, adjustResources, bind_eq_ok, requireAuth_eq_ok,
    exists_const, require_eq_ok, pure_eq_ok] at h
  obtain ⟨-, m, -, -, -, ⟨s₁, m₁, _, _⟩, ⟨⟨s₀, _, _⟩, he, _, -, _, -, hq⟩, s₂, ⟨res₂, h₂, rfl⟩,
    rfl⟩ := h
  cases hq
  have hrows := expireOrders_rows he
  obtain ⟨res, powup, rfl⟩ := expireOrders_frame he
  exact hrows.set rfl (adjustResources_rows h₂) rfl

theorem cfgpowerup_rows {env : Env} {args : PowerupConfig K}
    (h : s.cfgpowerup env args = .ok s') : Rows s s' := by
  simp only [cfgpowerup, adjustResources, bind_eq_ok, check_eq_ok, exists_const, pure_eq_ok] at h
  obtain ⟨core, -, -, ⟨m, net, cpu⟩, -, -, -, -, -, net₁, -, cpu₁, -, ⟨net₂, _⟩, -, ⟨cpu₂, _⟩, -, -,
    -, s₁, ⟨res, hr, rfl⟩, rfl⟩ := h
  have hstep : ReflTransGen (RowStep s.vote.managed) s.res res := adjustResources_rows hr
  exact hstep

theorem powerup_rows {payer : Name} {days : ℕ} {netFrac cpuFrac : ℤ} {maxPayment : Asset}
    (h : s.powerup now payer receiver days netFrac cpuFrac maxPayment = .ok s') : Rows s s' := by
  simp only [powerup, processPowerupQueue, adjustResources, bind_eq_ok, pure_eq_ok] at h
  obtain ⟨_, -, m, -, _, -, _, -, _, -, _, -, _, -, _, -, ⟨s₁, m₁, _, _⟩,
    ⟨⟨s₀, _, _⟩, he, _, -, _, -, rfl, -, -, -⟩, _, -, _, -, _, -, _, -, s₂, ⟨res₂, h₂, rfl⟩, s₃,
    ⟨res₃, h₃, rfl⟩, s₄, h₄, rfl⟩ := h
  have hrows := expireOrders_rows he
  obtain ⟨res, powup, rfl⟩ := expireOrders_frame he
  have hres : s₄.res = res₃ := (channelToRexOrPools_changes h₄).same .res (by simp)
  have hstep₂ : ReflTransGen (RowStep s.vote.managed) res res₂ := adjustResources_rows h₂
  have hstep₃ : ReflTransGen (RowStep s.vote.managed) res₂ res₃ := adjustResources_rows h₃
  exact hrows.set rfl (hstep₂.trans hstep₃) hres

end

end State

section

open ResourceState

variable [Field K] [LinearOrder K] [FloorRing K] [CMath K] {s s' : State K}

/-- The actions that create an account or write its limits as an administrator. -/
def Action.writesLimits : Action K → Bool
  | newaccount .. | setalimits .. | setacctram .. | setacctnet .. | setacctcpu .. => true
  | _ => false

/-- **The other actions** change the rows step by step. -/
theorem Action.exec_rows {env : Env} {x : Action K} (h : x.exec env s = .ok s')
    (hx : x.writesLimits = false) : s.Rows s' := by
  by_cases hres : Part.res ∈ x.parts
  swap
  · exact .of_eq ((Action.exec_changes h).same .res hres)
  cases x with
  | newaccount | setalimits | setacctram | setacctnet | setacctcpu => cases hx
  | buyram => exact State.buyram_rows h
  | buyrambytes =>
    simp only [exec, State.buyrambytes, bind_eq_ok] at h
    obtain ⟨_, -, _, -, _, -, h⟩ := h
    exact State.buyram_rows h
  | sellram => exact State.sellram_rows h
  | delegatebw =>
    simp only [exec, State.delegatebw, bind_eq_ok, check_eq_ok, State.checkCore_eq_ok,
      exists_const] at h
    exact State.changebw_rows h.2.2.2.2.2.2
  | undelegatebw =>
    simp only [exec, State.undelegatebw, bind_eq_ok, check_eq_ok, State.checkCore_eq_ok,
      exists_const] at h
    exact State.changebw_rows h.2.2.2.2.2
  | buyrex => exact State.buyrex_rows h
  | unstaketorex => exact State.unstaketorex_rows h
  | sellrex => exact State.sellrex_rows h
  | updaterex => exact State.updaterex_rows h
  | consolidate => exact State.consolidate_rows h
  | mvtosavings => exact State.mvtosavings_rows h
  | mvfrsavings => exact State.mvfrsavings_rows h
  | closerex => exact State.closerex_rows h
  | rentRex => exact State.rentRex_rows h
  | rexexec =>
    obtain ⟨_, -, h⟩ := bind_eq_ok.mp h
    exact State.runrex_rows h
  | cfgpowerup => exact State.cfgpowerup_rows h
  | powerup => exact State.powerup_rows h
  | powerupexec => exact State.powerupexec_rows h
  | _ => simp [parts] at hres

/-- **Only an administrator** changes which resources are managed. -/
theorem Action.exec_managed {env : Env} {x : Action K} (h : x.exec env s = .ok s')
    (hx : x.administers = false) (a : Name) : s'.vote.managed a = s.vote.managed a := by
  rw [VoteState.managed_eq, VoteState.managed_eq]
  cases Action.exec_vote h with
  | kept hk => rw [hk.flags]
  | vote hf =>
    rw [hf, Function.update_apply]
    split_ifs with ha
    · rw [ha]
    · rfl
  | register hf =>
    rw [hf, Function.update_apply]
    split_ifs with ha
    · rw [ha]
    · rfl
  | manage hm => exact absurd hm (by rw [hx]; exact Bool.false_ne_true)
  | producers _ hv =>
    unfold VoteState.flags
    rw [hv]

omit [LinearOrder K] [FloorRing K] [CMath K] in
/-- A flag that changes which resources an account has managed. -/
theorem State.managed_setManaged (s : State K) (b : Name) {flag : VoterInfo K → VoterInfo K}
    {f : Managed → Managed} (hf : ∀ v, (flag v).flags.managed = f v.flags.managed) (a : Name) :
    (s.setManaged b flag).managed a =
      if a = b then f (s.vote.managed b) else s.vote.managed a := by
  rw [VoteState.managed_eq, State.setManaged, VoteState.flags_setVoter, Function.update_apply]
  split_ifs
  · rw [hf, VoteState.managed_eq, VoteState.flags]
    cases s.vote.voters.find b <;> rfl
  · exact (VoteState.managed_eq _ _).symm

/-! ## Runs -/

/-- The action that writes limits without a flag. -/
def Action.isSetalimits : Action K → Bool
  | setalimits .. => true
  | _ => false

/-- What administrators have set, after an action. -/
def Action.recordLimits (x : Action K) (admin : Name → AdminLimits) : Name → AdminLimits :=
  match x with
  | setacctram a ram => Function.update admin a { admin a with ram }
  | setacctnet a net => Function.update admin a { admin a with net }
  | setacctcpu a cpu => Function.update admin a { admin a with cpu }
  | _ => admin

omit [FloorRing K] [CMath K] [LinearOrder K] [Field K] in
theorem Action.recordLimits_eq {x : Action K} (hx : x.administers = false)
    (admin : Name → AdminLimits) : x.recordLimits admin = admin := by
  cases x <;> first | rfl | cases hx

variable (K) in
/-- The chain, with what administrators have set and the accounts that have been created. -/
structure LimitChain where
  chain : Chain K
  admin : Name → AdminLimits
  created : Name → Bool

/-- An action, which may set a limit or create an account. -/
def LimitChain.exec (t : BlockTimestamp) (x : Action K) (c : LimitChain K) :
    Except Error (LimitChain K) := do
  check (x.isSetalimits = false) "not an action of this run"
  let chain ← c.chain.exec t x
  return {
    chain
    admin := x.recordLimits c.admin
    created := fun a => c.created a || decide (x.created = some a) }

def LimitStep (t : BlockTimestamp) (c c' : LimitChain K) : Prop := ∃ x, c.exec t x = .ok c'

omit [Field K] [LinearOrder K] [FloorRing K] [CMath K] in
variable (K) in
/-- Names without an account have nothing managed, and nothing has been set yet. -/
def LimitStart (c : LimitChain K) : Prop :=
  (∀ a, c.chain.accounts a = false →
    c.chain.state.vote.managed a = AdminLimits.none.managed) ∧
  (c.admin = fun _ => .none) ∧ c.created = fun _ => false

namespace LimitChain

variable {c c' : LimitChain K} {a b : Name} {t : BlockTimestamp}

/-- What holds for an account along a run. -/
structure Kept (c : LimitChain K) (a : Name) : Prop where
  unknown : c.chain.accounts a = false →
    c.chain.state.vote.managed a = AdminLimits.none.managed ∧ c.admin a = .none
  created : c.created a = true → c.chain.accounts a = true ∧
    c.chain.state.vote.managed a = (c.admin a).managed ∧ Mirrors c.chain.state.res (c.admin a) a

/-- An administrator sets a limit of an account, or gives it up. -/
structure Administered (c : LimitChain K) (b : Name) (c' : LimitChain K) : Prop where
  exists_account : c.chain.accounts b = true
  accounts : c'.chain.accounts = c.chain.accounts
  created : c'.created = c.created
  managed_ne : ∀ a, a ≠ b → c'.chain.state.vote.managed a = c.chain.state.vote.managed a
  admin_ne : ∀ a, a ≠ b → c'.admin a = c.admin a
  managed : c.chain.state.vote.managed b = (c.admin b).managed →
    c'.chain.state.vote.managed b = (c'.admin b).managed
  limits : ∃ l, c'.chain.state.res = c.chain.state.res.setLimits b l
  mirrors : Mirrors c.chain.state.res (c.admin b) b → Mirrors c'.chain.state.res (c'.admin b) b

omit [Field K] [LinearOrder K] [FloorRing K] [CMath K] in
/-- Nothing has changed for an account but its row and its limits. -/
theorem Kept.congr (h : c.Kept a) (ha : c'.chain.accounts a = c.chain.accounts a)
    (hc : c'.created a = c.created a)
    (hm : c'.chain.state.vote.managed a = c.chain.state.vote.managed a)
    (hadmin : c'.admin a = c.admin a)
    (hl : ∀ l, c.chain.state.vote.managed a = AdminLimits.managed l →
      Mirrors c.chain.state.res l a → Mirrors c'.chain.state.res l a) : c'.Kept a := by
  constructor
  · rw [ha, hm, hadmin]
    exact h.unknown
  · rw [hc, ha, hm, hadmin]
    intro hcreated
    obtain ⟨haccount, hmanaged, hmirrors⟩ := h.created hcreated
    exact ⟨haccount, hmanaged, hl _ hmanaged hmirrors⟩

omit [Field K] [LinearOrder K] [FloorRing K] [CMath K] in
theorem Kept.administered (h : c.Kept a) (hb : c.Administered b c') : c'.Kept a := by
  -- only the account of the administrator's action has new limits
  by_cases hab : a = b
  · subst hab
    refine ⟨fun hn => ?_, fun hc => ?_⟩
    · rw [hb.accounts, hb.exists_account] at hn
      cases hn
    · rw [hb.created] at hc
      obtain ⟨-, hm, hl⟩ := h.created hc
      exact ⟨hb.accounts ▸ hb.exists_account, hb.managed hm, hb.mirrors hl⟩
  · obtain ⟨l, hl⟩ := hb.limits
    refine h.congr (by rw [hb.accounts]) (by rw [hb.created]) (hb.managed_ne a hab)
      (hb.admin_ne a hab) fun admin _ hm => ?_
    exact hl ▸ hm.setLimits_ne hab l

omit [Field K] [LinearOrder K] [FloorRing K] [CMath K] in
/-- What a row says, or 0 if there is none. -/
theorem elim_row (rs : ResourceState) (a : Name) {f : UserResources → ℤ} (hf : f .zero = 0) :
    (rs.userres.find a).elim 0 f = f (rs.row a) := by
  unfold row
  cases rs.userres.find a with
  | none => exact hf.symm
  | some r => rfl

/-- An action that switches a flag of an account, writes its limits and records them. -/
theorem administered_of {x : Action K} {chain : Chain K} {flag : VoterInfo K → VoterInfo K}
    {f : Managed → Managed} {l : AdminLimits} {limits : Limits} (he : c.chain.Executed t x chain)
    (hx : x.created = none) (hb : c.chain.accounts b = true)
    (hf : ∀ v, (flag v).flags.managed = f v.flags.managed)
    (hvote : chain.state.vote = c.chain.state.setManaged b flag)
    (hres : chain.state.res = c.chain.state.res.setLimits b limits)
    (hadmin : x.recordLimits c.admin = Function.update c.admin b l)
    (hl : f (c.admin b).managed = l.managed)
    (hmirrors : Mirrors c.chain.state.res (c.admin b) b →
      Mirrors (c.chain.state.res.setLimits b limits) l b) :
    c.Administered b ⟨chain, x.recordLimits c.admin,
      fun a => c.created a || decide (x.created = some a)⟩ := by
  have hmanaged := c.chain.state.managed_setManaged b hf
  refine ⟨hb, ?_, ?_, fun a ha => ?_, fun a ha => ?_, fun hm => ?_, ⟨limits, hres⟩, ?_⟩
  · funext n
    exact Bool.eq_iff_iff.mpr ((he.accounts n).trans (by simp [hx]))
  · funext n
    dsimp only
    rw [hx]
    exact Bool.or_false _
  · dsimp only
    rw [hvote, hmanaged, if_neg ha]
  · dsimp only
    rw [hadmin, Function.update_of_ne ha]
  · dsimp only
    rw [hvote, hmanaged, if_pos rfl, hm, hl, hadmin, Function.update_self]
  · dsimp only
    rw [hres, hadmin, Function.update_self]
    exact hmirrors

/-- **The limits set by an administrator** are recorded. -/
theorem administered_of_exec {x : Action K} (hx : x.administers = true)
    (he : c.exec t x = .ok c') : ∃ b, c.Administered b c' := by
  simp only [exec, bind_eq_ok, check_eq_ok, exists_const, pure_eq_ok] at he
  obtain ⟨-, chain, he, rfl⟩ := he
  have he := Chain.exec_eq_ok he
  cases x with
  | setacctram b value =>
    obtain ⟨m, ram, hs, h⟩ := State.setacctram_eq_ok he.state
    refine ⟨b, administered_of he rfl h.account (f := fun man => { man with ram := m })
      (fun _ => rfl) (by rw [hs]) (by rw [hs]) rfl (by rw [h.flag]; rfl) fun hm => hm.setRam ?_⟩
    rw [h.limit_eq, elim_row _ _ rfl]
  | setacctnet b value =>
    obtain ⟨m, net, hs, h⟩ := State.setacctnet_eq_ok he.state
    refine ⟨b, administered_of he rfl h.account (f := fun man => { man with net := m })
      (fun _ => rfl) (by rw [hs]) (by rw [hs]) rfl (by rw [h.flag]; rfl) fun hm => hm.setNet ?_⟩
    rw [h.limit_eq, elim_row _ _ rfl]
  | setacctcpu b value =>
    obtain ⟨m, cpu, hs, h⟩ := State.setacctcpu_eq_ok he.state
    refine ⟨b, administered_of he rfl h.account (f := fun man => { man with cpu := m })
      (fun _ => rfl) (by rw [hs]) (by rw [hs]) rfl (by rw [h.flag]; rfl) fun hm => hm.setCpu ?_⟩
    rw [h.limit_eq, elim_row _ _ rfl]
  | _ => cases hx

/-- **A new account** has an empty row. -/
theorem Kept.newaccount {creator n : Name} (h : c.Kept a)
    (he : c.exec t (.newaccount creator n) = .ok c') : c'.Kept a := by
  simp only [exec, bind_eq_ok, check_eq_ok, exists_const, pure_eq_ok] at he
  obtain ⟨-, chain, he, rfl⟩ := he
  have he := Chain.exec_eq_ok he
  have hstate := he.state
  simp only [Action.exec, State.newaccount, bind_eq_ok, check_eq_ok, exists_const,
    pure_eq_ok] at hstate
  obtain ⟨names, -, core, -, -, hs⟩ := hstate
  have hvote : chain.state.vote = c.chain.state.vote := by rw [← hs]
  have hres : chain.state.res = ResourceState.setLimits
      { c.chain.state.res with userres := c.chain.state.res.userres.set n .zero } n ⟨0, 0, 0⟩ := by
    rw [← hs]
  -- a name without an account has never had limits of an administrator
  by_cases han : a = n
  · subst han
    obtain ⟨hm, hadmin⟩ := h.unknown (he.created a rfl)
    have hadmin : (Action.newaccount (K := K) creator a).recordLimits c.admin a = .none := hadmin
    have haccount : chain.accounts a = true := (he.accounts a).mpr (.inr rfl)
    refine ⟨fun hn => ?_, fun _ => ?_⟩
    · exact absurd (haccount.symm.trans hn) Bool.true_eq_false.mp
    · dsimp only
      rw [hadmin, hvote, hres]
      refine ⟨haccount, hm, mirrors_of_zero ?_ ?_⟩
      · unfold row ResourceState.setLimits
        rw [Table.find_set_self, Option.getD_some]
      · exact (getLimits_setLimits _ _ _ _).trans (if_pos rfl)
  · have hne : some n ≠ some a := fun hn => han (Option.some.inj hn).symm
    refine h.congr ?_ ?_ (by rw [hvote]) rfl fun l _ hl => ?_
    · exact Bool.eq_iff_iff.mpr ((he.accounts a).trans (or_iff_left hne))
    · exact (congrArg _ (decide_eq_false hne)).trans (Bool.or_false _)
    · dsimp only
      rw [hres]
      have hset : Mirrors { c.chain.state.res with
          userres := c.chain.state.res.userres.set n .zero } l a := by
        refine hl.congr ?_ rfl
        unfold row
        rw [Table.find_set, if_neg han]
      exact hset.setLimits_ne han _

/-- **Any other action** changes rows with their limits. -/
theorem Kept.rows {x : Action K} (h : c.Kept a) (hx : x.writesLimits = false)
    (he : c.exec t x = .ok c') : c'.Kept a := by
  simp only [exec, bind_eq_ok, check_eq_ok, exists_const, pure_eq_ok] at he
  obtain ⟨-, chain, he, rfl⟩ := he
  have he := Chain.exec_eq_ok he
  have hadmin : x.administers = false := by cases x <;> first | rfl | cases hx
  have hcreated : x.created = none := by cases x <;> first | rfl | cases hx
  refine h.congr ?_ ?_ (Action.exec_managed he.state hadmin a) ?_ fun l hm hl => ?_
  · exact Bool.eq_iff_iff.mpr ((he.accounts a).trans (by simp [hcreated]))
  · dsimp only
    rw [hcreated]
    exact Bool.or_false _
  · exact congrFun (Action.recordLimits_eq hadmin _) a
  · have hrows : ReflTransGen (RowStep c.chain.state.vote.managed) c.chain.state.res
        chain.state.res := Action.exec_rows he.state hx
    -- one row after the other, each with the flags from before the action
    dsimp only
    generalize chain.state.res = rs at hrows ⊢
    induction hrows with
    | refl => exact hl
    | tail _ hs ih => exact hs.mirrors ih hm

/-- **Every action** keeps the limits of an account right. -/
theorem Kept.exec {x : Action K} (h : c.Kept a) (he : c.exec t x = .ok c') : c'.Kept a := by
  by_cases hadmin : x.administers = true
  · obtain ⟨b, hb⟩ := administered_of_exec hadmin he
    exact h.administered hb
  · cases x with
    | newaccount => exact h.newaccount he
    | setalimits =>
      obtain ⟨hx, -⟩ := check_bind_eq_ok.mp he
      cases hx
    | setacctram | setacctnet | setacctcpu => exact absurd rfl hadmin
    | _ => exact h.rows rfl he

end LimitChain

/-- **The limits of the chain mirror the books**: for every account that has been created, the NET
and CPU limits that are not managed are the weights in its row, the RAM limit is at most the gift
above the RAM in its row unless it is managed, and a managed limit is the one that an administrator
has set last. -/
theorem limits_of_run {t : BlockTimestamp} {c : LimitChain K} (h : Run (LimitStart K) LimitStep t c)
    {a : Name} (ha : c.created a = true) :
    ((c.chain.state.vote.managed a).net = false →
      (c.chain.state.res.getLimits a).net = (c.chain.state.res.row a).netWeight) ∧
    ((c.chain.state.vote.managed a).cpu = false →
      (c.chain.state.res.getLimits a).cpu = (c.chain.state.res.row a).cpuWeight) ∧
    ((c.chain.state.vote.managed a).ram = false →
      (c.chain.state.res.row a).ramBytes ≤ (c.chain.state.res.getLimits a).ramBytes ∧
      (c.chain.state.res.getLimits a).ramBytes ≤ (c.chain.state.res.row a).ramBytes + 1400) ∧
    ((c.chain.state.vote.managed a).net = true →
      (c.admin a).net = some (c.chain.state.res.getLimits a).net) ∧
    ((c.chain.state.vote.managed a).cpu = true →
      (c.admin a).cpu = some (c.chain.state.res.getLimits a).cpu) ∧
    ((c.chain.state.vote.managed a).ram = true →
      (c.admin a).ram = some (c.chain.state.res.getLimits a).ramBytes) := by
  have hkept : ∀ b, c.Kept b := h.invariant (P := fun c => ∀ b, c.Kept b)
    (fun c hc b => by
      obtain ⟨hmanaged, hadmin, hcreated⟩ := hc
      refine ⟨fun hb => ⟨hmanaged b hb, by rw [hadmin]⟩, fun hb => ?_⟩
      rw [hcreated] at hb
      cases hb)
    fun _ _ _ hc hs b => hs.elim fun _ he => (hc b).exec he
  obtain ⟨-, hm, hl⟩ := (hkept a).created ha
  obtain ⟨hnet, hcpu, hram, hmem⟩ := hl
  rw [hm]
  generalize c.admin a = l at hnet hcpu hram hmem ⊢
  obtain ⟨ram, net, cpu⟩ := l
  refine ⟨fun hn => ?_, fun hn => ?_, fun hn => ?_, fun hn => ?_, fun hn => ?_, fun hn => ?_⟩
  · rw [hnet, Option.not_isSome_iff_eq_none.mp (Bool.eq_false_iff.mp hn), Option.getD_none]
  · rw [hcpu, Option.not_isSome_iff_eq_none.mp (Bool.eq_false_iff.mp hn), Option.getD_none]
  · exact hmem (Option.not_isSome_iff_eq_none.mp (Bool.eq_false_iff.mp hn))
  · obtain ⟨value, rfl⟩ := Option.isSome_iff_exists.mp hn
    exact congrArg some hnet.symm
  · obtain ⟨value, rfl⟩ := Option.isSome_iff_exists.mp hn
    exact congrArg some hcpu.symm
  · obtain ⟨value, rfl⟩ := Option.isSome_iff_exists.mp hn
    exact congrArg some (hram value rfl).symm

end

/-- A chain with one account. -/
def limitExampleChain : LimitChain ℚ where
  chain := ⟨exampleChain, fun n => decide (n = ⟨1⟩), .ofSlot 0⟩
  admin := fun _ => .none
  created := fun _ => false

/-- An account is created; its NET is managed before part of its stake is taken back. -/
def limitExampleRun : List (BlockTimestamp × Action ℚ) :=
  [(.ofSlot 1, .newaccount eosioAccount ⟨50⟩),
   (.ofSlot 2, .delegatebw ⟨1⟩ ⟨50⟩ (exampleAsset 500) (exampleAsset 300) false),
   (.ofSlot 3, .buyram ⟨1⟩ ⟨50⟩ (exampleAsset 1000)),
   (.ofSlot 4, .setacctnet ⟨50⟩ (some 77)),
   (.ofSlot 5, .undelegatebw ⟨1⟩ ⟨50⟩ (exampleAsset 200) (exampleAsset 100))]

/-- After `limitExampleRun` the NET limit is the one that has been set, and the CPU limit is what is
left of the stake. -/
theorem limits_of_run_example : ∃ c : LimitChain ℚ, c.created ⟨50⟩ = true ∧
    (c.admin ⟨50⟩).net = some 77 ∧ (c.chain.state.res.row ⟨50⟩).netWeight = 300 ∧
    (c.admin ⟨50⟩).net = some (c.chain.state.res.getLimits ⟨50⟩).net ∧
    (c.chain.state.res.getLimits ⟨50⟩).cpu = (c.chain.state.res.row ⟨50⟩).cpuWeight := by
  have hrun : (execAll LimitChain.exec (.ofSlot 0) limitExampleRun limitExampleChain).any fun p =>
      decide (p.2.created ⟨50⟩ = true ∧ (p.2.admin ⟨50⟩).net = some 77 ∧
        (p.2.chain.state.res.row ⟨50⟩).netWeight = 300 ∧
        (p.2.chain.state.vote.managed ⟨50⟩).net = true ∧
        (p.2.chain.state.vote.managed ⟨50⟩).cpu = false) := by decide +kernel
  have hinit : LimitStart ℚ limitExampleChain := ⟨fun _ _ => rfl, rfl, rfl⟩
  have hstep : ∀ t x (c c' : LimitChain ℚ), LimitChain.exec t x c = .ok c' → LimitStep t c c' :=
    fun _ x _ _ he => ⟨x, he⟩
  obtain ⟨t, c, h, htest⟩ := exists_run_of_execAll hstep hinit hrun
  clear hrun
  obtain ⟨hcreated, hadmin, hrow, hnet, hcpu⟩ := of_decide_eq_true htest
  have hlimits := limits_of_run h hcreated
  exact ⟨c, hcreated, hadmin, hrow, hlimits.2.2.2.1 hnet, hlimits.2.1 hcpu⟩

end EosioSystem
