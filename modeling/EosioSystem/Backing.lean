import EosioSystem.PowerupLedger
import EosioSystem.Rex.Loans
import EosioSystem.StakeLedger

/-!
# What backs the resource totals

The NET and the CPU weight of an account is what is delegated to it, what it has in loans and what
it has in powerup orders; the account of the reserve holds on top of that what the powerup market
has not sold. Three parts of the contract change the rows of the totals, each together with a
record of its own.

## Main definitions

* `ResourceState.weightOf`: the weight in the row of an account
* `ResourceState.Adds`: a change of one row
* `State.backing`: what backs the weight of an account
* `State.Backed`: the invariant

## Main results

* `ResourceState.changeTotals_adds`, `ResourceState.updateResourceLimits_adds`,
  `ResourceState.adjustResources_adds`: the three places where rows change
* `State.Backed.changebw`, `State.Backed.runrex`, `State.Backed.powerupexec`: each subsystem keeps
  the invariant
* `backed_of_run`: **the totals are backed** in every reachable state
-/

namespace EosioSystem

open Checked

variable {K : Type}

/-! ## Weights -/

/-- The one of two amounts that is for a resource. -/
def Resource.pick (kind : Resource) (net cpu : ℤ) : ℤ :=
  match kind with
  | .net => net
  | .cpu => cpu

theorem Resource.pick_zero (kind : Resource) : kind.pick 0 0 = 0 := by cases kind <;> rfl

theorem Resource.pick_add (kind : Resource) (net cpu net' cpu' : ℤ) :
    kind.pick (net + net') (cpu + cpu') = kind.pick net cpu + kind.pick net' cpu' := by
  cases kind <;> rfl

theorem Resource.pick_neg (kind : Resource) (net cpu : ℤ) :
    kind.pick (-net) (-cpu) = -kind.pick net cpu := by
  cases kind <;> rfl

/-- A change of one resource leaves the other alone. -/
theorem Resource.pick_weights (kind kind' : Resource) (delta : ℤ) :
    kind'.pick (kind.weights delta).1 (kind.weights delta).2 =
      if kind = kind' then delta else 0 := by
  cases kind <;> cases kind' <;> rfl

def UserResources.weight (kind : Resource) (u : UserResources) : ℤ :=
  kind.pick u.netWeight u.cpuWeight

def DelegatedBandwidth.weight (kind : Resource) (d : DelegatedBandwidth) : ℤ :=
  kind.pick d.netWeight d.cpuWeight

theorem PowerupOrder.weight_eq (kind : Resource) (o : PowerupOrder) :
    o.weight kind = kind.pick o.netWeight o.cpuWeight := by cases kind <;> rfl

namespace ResourceState

variable {rs rs' : ResourceState} {a x : Name} {net cpu net' cpu' : ℤ} {m : Managed}

/-- The row of an account; one that is missing is empty. -/
def row (rs : ResourceState) (a : Name) : UserResources := (rs.userres.find a).getD .zero

/-- The weight in the row of an account. -/
def weightOf (rs : ResourceState) (kind : Resource) (a : Name) : ℤ := (rs.row a).weight kind

/-- The row of an account has been written with more weight, unless there was nothing to write. A
row that is written is not empty, and no weight in it is negative. -/
structure Adds (a : Name) (net cpu : ℤ) (rs rs' : ResourceState) : Prop where
  weight : ∀ kind x, rs'.weightOf kind x =
    rs.weightOf kind x + if x = a then kind.pick net cpu else 0
  ram : ∀ x, (rs'.row x).ramBytes = (rs.row x).ramBytes
  others : ∀ x, x ≠ a → rs'.userres.find x = rs.userres.find x
  written : rs' = rs ∧ net = 0 ∧ cpu = 0 ∨
    rs'.userres.find a ≠ some .zero ∧ ∀ kind, 0 ≤ rs'.weightOf kind a

theorem Adds.refl (a : Name) (rs : ResourceState) : Adds a 0 0 rs rs := by
  refine ⟨fun kind x => ?_, fun _ => rfl, fun _ _ => rfl, .inl ⟨rfl, rfl, rfl⟩⟩
  rw [Resource.pick_zero, ite_self, add_zero]

theorem userres_writeLimits (rs : ResourceState) (m : Managed) (a : Name) (tot : UserResources)
    (ram : ℤ) : (rs.writeLimits m a tot ram).userres = rs.userres := by
  unfold writeLimits
  split_ifs <;> rfl

theorem isEmpty_eq_true {u : UserResources} (h : u.isEmpty = true) : u = .zero := by
  obtain ⟨net, cpu, ram⟩ := u
  simp only [UserResources.isEmpty, Bool.and_eq_true, decide_eq_true_eq] at h
  obtain ⟨⟨rfl, rfl⟩, rfl⟩ := h
  rfl

theorem find_storeTotals (rs : ResourceState) (a x : Name) (tot : UserResources) :
    (rs.storeTotals a tot).userres.find x =
      if x = a then (if tot.isEmpty then none else some tot) else rs.userres.find x := by
  unfold storeTotals
  by_cases he : tot.isEmpty
  · simp only [if_pos he, Table.find_erase]
  · simp only [if_neg he, Table.find_set]

theorem row_storeTotals (rs : ResourceState) (a x : Name) (tot : UserResources) :
    (rs.storeTotals a tot).row x = if x = a then tot else rs.row x := by
  unfold row
  rw [find_storeTotals]
  split_ifs with hx he
  · exact (isEmpty_eq_true he).symm
  · rfl
  · rfl

theorem addWeights_eq_ok {tot : UserResources} (h : rs.addWeights a net cpu = .ok tot) :
    tot = ⟨(rs.row a).netWeight + net, (rs.row a).cpuWeight + cpu, (rs.row a).ramBytes⟩ ∧
      ∀ kind, 0 ≤ tot.weight kind := by
  simp only [addWeights, bind_eq_ok, check_eq_ok, exists_const, pure_eq_ok] at h
  obtain ⟨hn, hc, rfl⟩ := h
  refine ⟨rfl, fun kind => ?_⟩
  cases kind
  · exact hn
  · exact hc

/-- What the three places have in common. -/
theorem adds_of_addWeights {tot : UserResources} {ram : ℤ}
    (h : rs.addWeights a net cpu = .ok tot) :
    Adds a net cpu rs ((rs.writeLimits m a tot ram).storeTotals a tot) := by
  obtain ⟨htot, hpos⟩ := addWeights_eq_ok h
  have hrow : ∀ x, (rs.writeLimits m a tot ram).row x = rs.row x := fun x => by
    rw [row, userres_writeLimits, row]
  refine ⟨fun kind x => ?_, fun x => ?_, fun x hx => ?_, .inr ⟨?_, fun kind => ?_⟩⟩
  · unfold weightOf
    rw [row_storeTotals, hrow]
    split_ifs with hx
    · rw [hx, htot]
      cases kind <;> rfl
    · exact (add_zero _).symm
  · rw [row_storeTotals, hrow]
    split_ifs with hx
    · rw [hx, htot]
    · rfl
  · rw [find_storeTotals, if_neg hx, userres_writeLimits]
  · rw [find_storeTotals, if_pos rfl]
    split_ifs with he
    · exact (Option.some_ne_none _).symm
    · intro hz
      rw [Option.some.inj hz] at he
      exact he rfl
  · unfold weightOf
    rw [row_storeTotals, if_pos rfl]
    exact hpos kind

/-- A change with an amount that no row can lack is not refused. -/
theorem exists_addWeights (h : ∀ kind, 0 ≤ rs.weightOf kind a + kind.pick net cpu) :
    ∃ tot, rs.addWeights a net cpu = .ok tot := by
  simp only [addWeights, bind_eq_ok, check_eq_ok, exists_const, pure_eq_ok]
  exact ⟨_, h .net, h .cpu, rfl⟩

theorem changeTotals_adds (h : rs.changeTotals m a net cpu = .ok rs') : Adds a net cpu rs rs' := by
  simp only [changeTotals, bind_eq_ok, pure_eq_ok] at h
  obtain ⟨tot, ha, rfl⟩ := h
  exact adds_of_addWeights ha

theorem updateResourceLimits_adds (h : rs.updateResourceLimits m a net cpu = .ok rs') :
    Adds a net cpu rs rs' := by
  unfold updateResourceLimits at h
  split_ifs at h with hz
  · obtain rfl := pure_eq_ok.mp h
    obtain ⟨rfl, rfl⟩ := hz
    exact .refl a rs
  · simp only [bind_eq_ok, check_eq_ok, exists_const, pure_eq_ok] at h
    obtain ⟨-, tot, ha, rfl⟩ := h
    exact adds_of_addWeights ha

theorem adjustResources_adds {must : Bool} (h : rs.adjustResources m a net cpu must = .ok rs') :
    Adds a net cpu rs rs' := by
  unfold adjustResources at h
  split_ifs at h with hz
  · obtain rfl := pure_eq_ok.mp h
    obtain ⟨rfl, rfl⟩ := hz
    exact .refl a rs
  · simp only [bind_eq_ok, check_eq_ok, exists_const, pure_eq_ok] at h
    obtain ⟨tot, ha, -, rfl⟩ := h
    exact adds_of_addWeights ha

/-- **A powerup change** is refused only for an account that is managed. -/
theorem exists_adjustResources {must : Bool}
    (h : ∀ kind, 0 ≤ rs.weightOf kind a + kind.pick net cpu) :
    (∃ rs', rs.adjustResources m a net cpu must = .ok rs') ↔
      net = 0 ∧ cpu = 0 ∨ (must && (m.net || m.cpu)) = false := by
  unfold adjustResources
  by_cases hz : net = 0 ∧ cpu = 0
  · rw [if_pos hz]
    exact ⟨fun _ => .inl hz, fun _ => ⟨rs, rfl⟩⟩
  · rw [if_neg hz, or_iff_right hz]
    obtain ⟨tot, ha⟩ := exists_addWeights h
    simp only [bind_eq_ok, check_eq_ok, exists_const, pure_eq_ok, ha]
    constructor
    · rintro ⟨rs', _, -, hm, -⟩
      exact hm
    · exact fun hm => ⟨_, tot, rfl, hm, rfl⟩

theorem weightOf_congr (h : rs'.userres = rs.userres) (kind : Resource) (x : Name) :
    rs'.weightOf kind x = rs.weightOf kind x := by rw [weightOf, row, h, weightOf, row]

/-- Buying and selling RAM leaves the weights alone. -/
theorem weightOf_addRam (rs : ResourceState) (m : Managed) (a : Name) (bytes : ℤ) (kind : Resource)
    (x : Name) : (rs.addRam m a bytes).weightOf kind x = rs.weightOf kind x := by
  have hrow : (rs.addRam m a bytes).row x =
      if x = a then { rs.row a with ramBytes := (rs.row a).ramBytes + bytes } else rs.row x := by
    unfold addRam row
    dsimp only
    split_ifs <;> simp only [setLimits, Table.find_set] <;> split_ifs <;> rfl
  unfold weightOf
  rw [hrow]
  split_ifs with hx
  · rw [hx]
    cases kind <;> rfl
  · rfl

end ResourceState

/-! ## What backs them -/

namespace StakeState

variable {st st' : StakeState} {owner receiver a : Name} {net cpu : ℤ} {kind : Resource}

/-- What is delegated to an account, by all owners. -/
def delegatedTo (st : StakeState) (kind : Resource) (a : Name) : ℤ :=
  st.delband.sum fun k d => if k.2 = a then d.weight kind else 0

/-- No delegation is negative. -/
def DelegationsNonneg (st : StakeState) : Prop :=
  ∀ k d, st.delband.find k = some d → ∀ kind, 0 ≤ d.weight kind

theorem delegatedTo_nonneg (h : st.DelegationsNonneg) (kind : Resource) (a : Name) :
    0 ≤ st.delegatedTo kind a := by
  refine Table.sum_nonneg fun k d hf => ?_
  split_ifs
  · exact h k d hf kind
  · exact le_rfl

theorem isEmpty_weight {d : DelegatedBandwidth} (h : d.isEmpty = true) (kind : Resource) :
    d.weight kind = 0 := by
  obtain ⟨net, cpu⟩ := d
  simp only [DelegatedBandwidth.isEmpty, Bool.and_eq_true, decide_eq_true_eq] at h
  obtain ⟨rfl, rfl⟩ := h
  exact kind.pick_zero

theorem delegatedTo_putDelband (st : StakeState) (k : Name × Name) (d : DelegatedBandwidth)
    (kind : Resource) (a : Name) :
    (st.putDelband k d).delegatedTo kind a = st.delegatedTo kind a +
      if a = k.2 then d.weight kind - (st.delband.find k).elim 0 (DelegatedBandwidth.weight kind)
      else 0 := by
  have hold : ((st.delband.find k).elim 0 fun d => if k.2 = a then d.weight kind else 0) =
      if a = k.2 then (st.delband.find k).elim 0 (DelegatedBandwidth.weight kind) else 0 := by
    cases st.delband.find k with
    | none => exact (ite_self _).symm
    | some d => simp only [Option.elim_some, eq_comm]
  unfold delegatedTo putDelband
  by_cases he : d.isEmpty
  · have hsum := Table.sum_erase_add st.delband k fun k d => if k.2 = a then d.weight kind else 0
    rw [hold] at hsum
    simp only [if_pos he, isEmpty_weight he]
    split_ifs at hsum ⊢ <;> omega
  · simp only [if_neg he]
    rw [Table.sum_set_elim, hold]
    simp only [eq_comm (a := k.2)]
    split_ifs <;> ring

theorem DelegationsNonneg.putDelband (h : st.DelegationsNonneg) {k : Name × Name}
    {d : DelegatedBandwidth} (hd : ∀ kind, 0 ≤ d.weight kind) :
    (st.putDelband k d).DelegationsNonneg := by
  intro k' d' hf
  unfold StakeState.putDelband at hf
  dsimp only at hf
  split_ifs at hf
  · rw [Table.find_erase] at hf
    split_ifs at hf
    exact h k' d' hf
  · rw [Table.find_set] at hf
    split_ifs at hf
    · cases hf
      exact hd
    · exact h k' d' hf

/-- **A delegation** is for its receiver. -/
theorem changeDelband_delegatedTo (h : st.DelegationsNonneg)
    (hc : st.changeDelband owner receiver net cpu = .ok st') :
    st'.DelegationsNonneg ∧ ∀ kind a, st'.delegatedTo kind a =
      st.delegatedTo kind a + if a = receiver then kind.pick net cpu else 0 := by
  simp only [changeDelband, bind_eq_ok, check_eq_ok, exists_const, pure_eq_ok] at hc
  obtain ⟨hn, hcpu, rfl⟩ := hc
  constructor
  · refine h.putDelband fun kind => ?_
    cases kind
    · exact hn
    · exact hcpu
  · intro kind a
    refine (delegatedTo_putDelband st (owner, receiver) _ kind a).trans ?_
    congr 2
    cases st.delband.find (owner, receiver) with
    | none => cases kind <;> simp [DelegatedBandwidth.weight, Resource.pick]
    | some d => cases kind <;> simp [DelegatedBandwidth.weight, Resource.pick]

theorem unstakeDelband_delegatedTo (h : st.DelegationsNonneg)
    (hu : State.unstakeDelband st owner receiver net cpu = .ok st') :
    st'.DelegationsNonneg ∧ ∀ kind a, st'.delegatedTo kind a =
      st.delegatedTo kind a + if a = receiver then kind.pick (-net) (-cpu) else 0 := by
  simp only [State.unstakeDelband, bind_eq_ok, check_eq_ok, exists_const, require_eq_ok,
    pure_eq_ok] at hu
  obtain ⟨d, hd, hn, hc, rfl⟩ := hu
  constructor
  · refine h.putDelband fun kind => ?_
    cases kind
    · exact sub_nonneg.mpr hn
    · exact sub_nonneg.mpr hc
  · intro kind a
    refine (delegatedTo_putDelband st (owner, receiver) _ kind a).trans ?_
    rw [hd]
    congr 2
    cases kind <;> simp [DelegatedBandwidth.weight, Resource.pick]

theorem delegatedTo_congr (h : st'.delband = st.delband) (kind : Resource) (a : Name) :
    st'.delegatedTo kind a = st.delegatedTo kind a := by rw [delegatedTo, h, delegatedTo]

theorem DelegationsNonneg.congr (hn : st.DelegationsNonneg) (h : st'.delband = st.delband) :
    st'.DelegationsNonneg := by
  intro k d hf
  rw [h] at hf
  exact hn k d hf

end StakeState

namespace PowerupTables

variable {p : PowerupTables K} {orders : Table ℕ PowerupOrder} {id : ℕ} {o : PowerupOrder}

/-- What an account has in powerup orders. -/
def soldTo (orders : Table ℕ PowerupOrder) (kind : Resource) (a : Name) : ℤ :=
  orders.sum fun _ o => if o.owner = a then o.weight kind else 0

/-- What the market has not sold of its weight. -/
def unsold (p : PowerupTables K) (kind : Resource) : ℤ :=
  p.market.elim 0 fun m => (m.resource kind).weight - (m.resource kind).utilization

theorem soldTo_nonneg (h : OrdersNonneg orders) (kind : Resource) (a : Name) :
    0 ≤ soldTo orders kind a := by
  refine Table.sum_nonneg fun id o ho => ?_
  split_ifs
  · exact h id o ho kind
  · exact le_rfl

theorem soldTo_erase (h : orders.find id = some o) (kind : Resource) (a : Name) :
    soldTo (orders.erase id) kind a =
      soldTo orders kind a + if a = o.owner then -o.weight kind else 0 := by
  unfold soldTo
  rw [Table.sum_erase h]
  simp only [eq_comm (a := a)]
  split_ifs <;> ring

theorem soldTo_order (orders : Table ℕ PowerupOrder) (o : PowerupOrder) (kind : Resource)
    (a : Name) : soldTo (orders.set (State.nextOrderId orders) o) kind a =
      soldTo orders kind a + if a = o.owner then o.weight kind else 0 := by
  unfold soldTo
  rw [Table.sum_set_new (Sound.find_nextOrderId orders)]
  simp only [eq_comm (a := a)]

/-- One order is at most what its owner has. -/
theorem weight_le_soldTo (hn : OrdersNonneg orders) (h : orders.find id = some o)
    (kind : Resource) : o.weight kind ≤ soldTo orders kind o.owner := by
  have hle := Table.le_sum (f := fun _ o' => if o'.owner = o.owner then o'.weight kind else 0)
    (fun id' o' ho' => ?_) h
  · rwa [if_pos rfl] at hle
  · split_ifs
    · exact hn id' o' ho' kind
    · exact le_rfl

end PowerupTables

open PowerupTables

namespace State

/-- What backs the weight of an account. -/
def backing (s : State K) (kind : Resource) (a : Name) : ℤ :=
  s.stake.delegatedTo kind a + s.rex.lentTo kind a + soldTo s.powup.orders kind a +
    if a = reservAccount then s.powup.unsold kind else 0

/-- **The invariant**: every weight is backed, and no delegation and no loan is negative. -/
structure Backed (s : State K) : Prop where
  weight : ∀ kind a, s.res.weightOf kind a = s.backing kind a
  delegated : s.stake.DelegationsNonneg
  lent : s.rex.LoansNonneg

variable {s s' : State K} {now : BlockTimestamp} {a : Name} {net cpu : ℤ}

namespace Backed

/-- What the totals, the delegations, the loans and the market do not depend on may change. -/
theorem congr (h : s.Backed)
    (hw : ∀ kind a, s'.res.weightOf kind a = s.res.weightOf kind a)
    (hd : s'.stake.delband = s.stake.delband) (hl : s'.rex.loans = s.rex.loans)
    (hp : s'.powup = s.powup) : s'.Backed := by
  refine ⟨fun kind a => ?_, h.delegated.congr hd, h.lent.congr hl⟩
  rw [hw, h.weight, backing, backing, StakeState.delegatedTo_congr hd, RexState.lentTo_congr hl, hp]

/-- One row and what backs it change by the same. -/
theorem change (h : s.Backed) (hr : s.res.Adds a net cpu s'.res)
    (hb : ∀ kind x, s'.backing kind x =
      s.backing kind x + if x = a then kind.pick net cpu else 0)
    (hd : s'.stake.DelegationsNonneg) (hl : s'.rex.LoansNonneg) : s'.Backed := by
  refine ⟨fun kind x => ?_, hd, hl⟩
  rw [hr.weight, h.weight, hb]

end Backed

end State

end EosioSystem
