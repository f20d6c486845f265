import EosioSystem.BackingLedger

/-!
# Draining the powerup queue

Orders that have expired leave the queue a few at a time. Each time the adjusted utilization decays,
what the orders held goes back to the reserve, and the weight of the time is set. At one time all of
this happens once, so it does not matter in how many portions the queue is drained.

## Main definitions

* `PowerupTables.drain`: the orders that are left
* `PowerupMarket.drained`: the market after that
* `ResourceState.Keeps`: rows that only change in their weights

## Main results

* `drain_add`, `PowerupMarket.drained_drained`: two portions
* `exists_powerupexec`: **when a maintenance succeeds**
* `powerupexec_maintained`: **what a maintenance does**
* `powerupexec_split`: **the queue can be drained in any portions**
-/

namespace EosioSystem

open Checked

variable {K : Type}

/-! ## Orders -/

namespace PowerupTables

variable {now max : ℕ} {orders : Table ℕ PowerupOrder}

/-- The orders that are left when up to `max` expired orders are taken out. -/
def drain (now : ℕ) : ℕ → Table ℕ PowerupOrder → Table ℕ PowerupOrder
  | 0, orders => orders
  | max + 1, orders =>
    match State.firstOrder orders with
    | none => orders
    | some (id, o) => if now < o.expires then orders else drain now max (orders.erase id)

/-- No order has expired. -/
def Resting (now : ℕ) (orders : Table ℕ PowerupOrder) : Prop :=
  ∀ id o, State.firstOrder orders = some (id, o) → now < o.expires

theorem drain_of_resting (h : Resting now orders) (max : ℕ) : drain now max orders = orders := by
  cases max with
  | zero => rfl
  | succ max =>
    unfold drain
    split
    · rfl
    · rename_i id o hf
      exact if_pos (h id o hf)

theorem resting_of_none (h : State.firstOrder orders = none) : Resting now orders := by
  intro id o hf
  rw [h] at hf
  cases hf

theorem resting_of_lt {id : ℕ} {o : PowerupOrder} (h : State.firstOrder orders = some (id, o))
    (ho : now < o.expires) : Resting now orders := by
  intro id' o' hf
  rw [h] at hf
  cases hf
  exact ho

theorem drain_succ {id : ℕ} {o : PowerupOrder} (h : State.firstOrder orders = some (id, o))
    (ho : ¬now < o.expires) (max : ℕ) :
    drain now (max + 1) orders = drain now max (orders.erase id) := by
  rw [drain, h]
  exact if_neg ho

/-- **Two portions** are one. -/
theorem drain_add (now a b : ℕ) (orders : Table ℕ PowerupOrder) :
    drain now b (drain now a orders) = drain now (a + b) orders := by
  induction a generalizing orders with
  | zero => rw [drain, Nat.zero_add]
  | succ a ih =>
    rw [Nat.succ_add]
    cases hf : State.firstOrder orders with
    | none =>
      have hr : Resting now orders := resting_of_none hf
      rw [drain_of_resting hr, drain_of_resting hr, drain_of_resting hr]
    | some first =>
      obtain ⟨id, o⟩ := first
      by_cases ho : now < o.expires
      · have hr := resting_of_lt hf ho
        rw [drain_of_resting hr, drain_of_resting hr, drain_of_resting hr]
      · rw [drain_succ hf ho, drain_succ hf ho, ih]

theorem OrdersNonneg.drain (h : OrdersNonneg orders) (now max : ℕ) :
    OrdersNonneg (drain now max orders) := by
  induction max generalizing orders with
  | zero => exact h
  | succ max ih =>
    unfold PowerupTables.drain
    split
    · exact h
    · split_ifs
      · exact h
      · exact ih (h.erase _)

theorem sold_erase {id : ℕ} {o : PowerupOrder} (h : orders.find id = some o) (kind : Resource) :
    sold (orders.erase id) kind = sold orders kind - o.weight kind :=
  Table.sum_erase h fun _ o => o.weight kind

/-- What is left is not more. -/
theorem sold_drain_le (h : OrdersNonneg orders) (now max : ℕ) (kind : Resource) :
    sold (drain now max orders) kind ≤ sold orders kind := by
  induction max generalizing orders with
  | zero => exact le_rfl
  | succ max ih =>
    unfold drain
    split
    · exact le_rfl
    · rename_i id o hf
      split_ifs
      · exact le_rfl
      · have hfind := Table.find_of_first hf
        have hle := ih (h.erase id)
        have hpos := h id o hfind kind
        rw [sold_erase hfind] at hle
        omega

end PowerupTables

open PowerupTables

/-! ## The market -/

namespace PowerupResource

variable [Field K] [LinearOrder K] [FloorRing K] [CMath K] {r : PowerupResource K} {core : Symbol}
  {t now : ℕ} {freed : ℤ}

/-- After an update the time of the update has been recorded. -/
theorem le_timestamp_updateUtilization (r : PowerupResource K) (now : ℕ) :
    now ≤ (r.updateUtilization now).utilizationTimestamp := by
  rcases r.updateUtilization_cases now with ⟨hle, he⟩ | ⟨-, _, he, -⟩
  · rw [he]
    exact hle
  · rw [he]

/-- **Two portions** at the same time are one. -/
theorem queued_queued (r : PowerupResource K) (now : ℕ) (freed freed' : ℤ) :
    (r.queued now freed).queued now freed' = r.queued now (freed + freed') := by
  have hle : now ≤ (r.queued now freed).utilizationTimestamp := r.le_timestamp_updateUtilization now
  rw [queued, updateUtilization_of_le hle, queued, queued]
  simp only [weighed, weightAt, currentRatio, sub_sub]

/-- Nothing is lost to the reserve. -/
theorem Kept.unsold_le_queued (h : r.Kept core t) (ht : t ≤ now) (hf : 0 ≤ freed) :
    r.weight - r.utilization ≤ (r.queued now freed).weight - (r.queued now freed).utilization := by
  have hk := (h.updateUtilization ht).release hf
  have hle : (r.updateUtilization now).weight ≤ (r.queued now freed).weight :=
    hk.le_weightAt le_rfl
  rw [weight_updateUtilization] at hle
  rw [utilization_queued]
  omega

end PowerupResource

namespace PowerupMarket

variable [Field K] [LinearOrder K] [FloorRing K] [CMath K] {m : PowerupMarket K}

/-- The market after the queue has come from `orders` to `orders'`. -/
def drained (m : PowerupMarket K) (now : ℕ) (orders orders' : Table ℕ PowerupOrder) :
    PowerupMarket K :=
  { m with
    net := m.net.queued now (sold orders .net - sold orders' .net)
    cpu := m.cpu.queued now (sold orders .cpu - sold orders' .cpu) }

theorem resource_drained (m : PowerupMarket K) (now : ℕ) (orders orders' : Table ℕ PowerupOrder)
    (kind : Resource) : (m.drained now orders orders').resource kind =
      (m.resource kind).queued now (sold orders kind - sold orders' kind) := by cases kind <;> rfl

theorem drained_drained (m : PowerupMarket K) (now : ℕ)
    (orders orders' orders'' : Table ℕ PowerupOrder) :
    (m.drained now orders orders').drained now orders' orders'' = m.drained now orders
      orders'' := by
  simp only [drained, PowerupResource.queued_queued, sub_add_sub_cancel]

end PowerupMarket

/-- What a market has not sold of a resource. -/
def PowerupMarket.unsold (m : PowerupMarket K) (kind : Resource) : ℤ :=
  (m.resource kind).weight - (m.resource kind).utilization

/-! ## Rows -/

namespace ResourceState

variable {rs rs' rs'' : ResourceState} {a : Name} {net cpu : ℤ} {m : Managed}

/-- Rows that change in their weights only; none is emptied, and none is made, without being
written or deleted. -/
structure Keeps (rs rs' : ResourceState) : Prop where
  ram : ∀ x, (rs'.row x).ramBytes = (rs.row x).ramBytes
  of_zero : ∀ x, rs'.userres.find x = some .zero → rs.userres.find x = some .zero

theorem Keeps.refl (rs : ResourceState) : rs.Keeps rs := ⟨fun _ => rfl, fun _ => id⟩

theorem Keeps.trans (h : rs.Keeps rs') (h' : rs'.Keeps rs'') : rs.Keeps rs'' :=
  ⟨fun x => (h'.ram x).trans (h.ram x), fun x hx => h.of_zero x (h'.of_zero x hx)⟩

theorem Adds.keeps (h : rs.Adds a net cpu rs') : rs.Keeps rs' := by
  refine ⟨h.ram, fun x hx => ?_⟩
  by_cases hxa : x = a
  · subst hxa
    rcases h.written with ⟨rfl, -⟩ | ⟨hne, -⟩
    · exact hx
    · exact absurd hx hne
  · rwa [h.others x hxa] at hx

/-- An empty row cannot lose anything. -/
theorem zero_of_adjustResources {must : Bool} (hn : net ≤ 0) (hc : cpu ≤ 0)
    (h : rs.adjustResources m a net cpu must = .ok rs') {x : Name}
    (hx : rs.userres.find x = some .zero) : rs'.userres.find x = some .zero := by
  have hadds := adjustResources_adds h
  by_cases hxa : x = a
  · subst hxa
    rcases hadds.written with ⟨rfl, -⟩ | ⟨-, hpos⟩
    · exact hx
    · have hrow : ∀ kind, rs.weightOf kind x = 0 := fun kind => by
        rw [weightOf, row, hx]
        cases kind <;> rfl
      have hnet := hpos .net
      have hcpu := hpos .cpu
      rw [hadds.weight, hrow, if_pos rfl, zero_add] at hnet hcpu
      obtain ⟨rfl, rfl⟩ : net = 0 ∧ cpu = 0 := ⟨le_antisymm hn hnet, le_antisymm hc hcpu⟩
      obtain rfl : rs = rs' := pure_eq_ok.mp h
      exact hx
  · rw [hadds.others x hxa]
    exact hx

/-- Rows with the same content are the same, if they are empty in both states or in none. -/
theorem find_eq_of_row {x : Name} (hw : ∀ kind, rs'.weightOf kind x = rs.weightOf kind x)
    (hr : (rs'.row x).ramBytes = (rs.row x).ramBytes)
    (hz : rs'.userres.find x = some .zero ↔ rs.userres.find x = some .zero) :
    rs'.userres.find x = rs.userres.find x := by
  have hrow : rs'.row x = rs.row x := by
    have hnet := hw .net
    have hcpu := hw .cpu
    simp only [weightOf, UserResources.weight, Resource.pick] at hnet hcpu
    generalize rs'.row x = u' at hnet hcpu hr
    generalize rs.row x = u at hnet hcpu hr
    obtain ⟨net', cpu', ram'⟩ := u'
    obtain ⟨net, cpu, ram⟩ := u
    simp only at hnet hcpu hr
    rw [hnet, hcpu, hr]
  unfold row at hrow
  cases hf : rs.userres.find x with
  | none =>
    cases hf' : rs'.userres.find x with
    | none => rfl
    | some u' =>
      rw [hf, hf'] at hrow hz
      obtain rfl : u' = .zero := hrow
      exact absurd (hz.mp rfl) (Option.some_ne_none _).symm
  | some u =>
    cases hf' : rs'.userres.find x with
    | none =>
      rw [hf, hf'] at hrow hz
      obtain rfl : .zero = u := hrow
      exact absurd (hz.mpr rfl) (Option.some_ne_none _).symm
    | some u' =>
      rw [hf, hf'] at hrow
      exact congrArg some hrow

end ResourceState

/-! ## The queue -/

namespace State

variable {s s' : State K} {now max : ℕ}

namespace Backed

/-- An account has at least what it has in orders. -/
theorem soldTo_le (h : s.Backed) (hu : ∀ kind, 0 ≤ s.powup.unsold kind) (kind : Resource)
    (a : Name) : soldTo s.powup.orders kind a ≤ s.res.weightOf kind a := by
  have hd := StakeState.delegatedTo_nonneg h.delegated kind a
  have hl := RexState.lentTo_nonneg h.lent kind a
  have hk := hu kind
  rw [h.weight, backing]
  split_ifs <;> omega

/-- The reserve has at least what has not been sold. -/
theorem unsold_le (h : s.Backed) (hn : OrdersNonneg s.powup.orders) (kind : Resource) :
    s.powup.unsold kind ≤ s.res.weightOf kind reservAccount := by
  have hd := StakeState.delegatedTo_nonneg h.delegated kind reservAccount
  have hl := RexState.lentTo_nonneg h.lent kind reservAccount
  have ho := soldTo_nonneg hn kind reservAccount
  rw [h.weight, backing, if_pos rfl]
  omega

end Backed

/-- **Orders expire** without a check that fails. -/
theorem exists_expireOrders (now max : ℕ) (h : s.Backed) (hn : OrdersNonneg s.powup.orders)
    (hu : ∀ kind, 0 ≤ s.powup.unsold kind) (net cpu : ℤ) :
    ∃ res net' cpu', s.expireOrders now max net cpu = .ok ({ s with
      res
      powup := { s.powup with orders := drain now max s.powup.orders } }, net', cpu') ∧
      s.res.Keeps res ∧
      ∀ x, s.res.userres.find x = some .zero → res.userres.find x = some .zero := by
  induction max generalizing s net cpu with
  | zero => exact ⟨s.res, net, cpu, rfl, .refl _, fun _ => id⟩
  | succ max ih =>
    cases hf : firstOrder s.powup.orders with
    | none =>
      have hr : Resting now s.powup.orders := resting_of_none hf
      rw [drain_of_resting hr]
      refine ⟨s.res, net, cpu, ?_, .refl _, fun _ => id⟩
      rw [State.expireOrders, hf]
      rfl
    | some first =>
      obtain ⟨id, o⟩ := first
      by_cases ho : now < o.expires
      · have hr := resting_of_lt hf ho
        rw [drain_of_resting hr]
        refine ⟨s.res, net, cpu, ?_, .refl _, fun _ hx => hx⟩
        rw [State.expireOrders, hf]
        exact if_pos ho
      · have hfind := Table.find_of_first hf
        -- the owner has at least what is taken
        have hrow : ∀ kind, 0 ≤ s.res.weightOf kind o.owner +
            kind.pick (-o.netWeight) (-o.cpuWeight) := fun kind => by
          have h₁ := h.soldTo_le hu kind o.owner
          have h₂ := weight_le_soldTo hn hfind kind
          rw [Resource.pick_neg, ← PowerupOrder.weight_eq]
          omega
        obtain ⟨res, hadj⟩ : ∃ res, s.res.adjustResources (s.vote.managed o.owner) o.owner
            (-o.netWeight) (-o.cpuWeight) false = .ok res :=
          (ResourceState.exists_adjustResources hrow).mpr (.inr rfl)
        have hadds := ResourceState.adjustResources_adds hadj
        have h₁ := h.removeOrder hfind hadds
        obtain ⟨res', net', cpu', he, hkeeps, hzero⟩ := ih h₁ (hn.erase id) hu
          (net + o.netWeight) (cpu + o.cpuWeight)
        refine ⟨res', net', cpu', ?_, hadds.keeps.trans hkeeps, fun x hx => hzero x ?_⟩
        · rw [drain_succ hf ho]
          rw [State.expireOrders, hf]
          simp only [if_neg ho, adjustResources, hadj]
          exact he
        · have hnet := hn id o hfind .net
          have hcpu := hn id o hfind .cpu
          exact ResourceState.zero_of_adjustResources (neg_nonpos.mpr hnet) (neg_nonpos.mpr hcpu)
            hadj hx

variable [Field K] [LinearOrder K] [FloorRing K] [CMath K] {m : PowerupMarket K} {core : Symbol}
  {t : ℕ}

/-- **The queue** is processed without a check that fails. -/
theorem exists_processPowerupQueue (max : ℕ) (h : s.Backed) (hs : s.powup.Sound core t)
    (ht : t ≤ now) (hm : s.powup.market = some m) :
    ∃ res net cpu, s.processPowerupQueue now m max = .ok ({ s with
      res
      powup := { s.powup with orders := drain now max s.powup.orders } },
      m.drained now s.powup.orders (drain now max s.powup.orders), net, cpu) ∧
      s.res.Keeps res ∧
      ∀ x, s.res.userres.find x = some .zero → res.userres.find x = some .zero := by
  have hu : ∀ kind, 0 ≤ s.powup.unsold kind := fun kind => by
    rw [unsold_eq hm]
    exact sub_nonneg.mpr (hs.kept m hm kind).utilization_le
  obtain ⟨res, netFreed, cpuFreed, he, hkeeps, hzero⟩ :=
    exists_expireOrders now max h hs.nonneg hu 0 0
  obtain ⟨-, -, hnet, hcpu, hn, hc⟩ := expireOrders_spec hs.nonneg he
  dsimp only at hnet hcpu
  obtain rfl : netFreed = sold s.powup.orders .net -
    sold (drain now max s.powup.orders) .net := by omega
  obtain rfl : cpuFreed = sold s.powup.orders .cpu -
    sold (drain now max s.powup.orders) .cpu := by omega
  have hkn := ((hs.kept m hm .net).updateUtilization ht).release hn
  have hkc := ((hs.kept m hm .cpu).updateUtilization ht).release hc
  set m' := m.drained now s.powup.orders (drain now max s.powup.orders)
  refine ⟨res,
    sold s.powup.orders .net - sold (drain now max s.powup.orders) .net +
      (m'.net.weight - (m.net.updateUtilization now).weight),
    sold s.powup.orders .cpu - sold (drain now max s.powup.orders) .cpu +
      (m'.cpu.weight - (m.cpu.updateUtilization now).weight), ?_, hkeeps, hzero⟩
  simp only [processPowerupQueue, bind_eq_ok, pure_eq_ok]
  exact ⟨_, he, _, hkn.updateWeight_eq le_rfl, _, hkc.updateWeight_eq le_rfl, rfl⟩

/-- Nothing becomes available with the queue, or the reserve may be changed. -/
def ReserveFree (s : State K) (m : PowerupMarket K) (now max : ℕ) : Prop :=
  (∀ kind, (m.drained now s.powup.orders (drain now max s.powup.orders)).unsold kind =
      m.unsold kind) ∨
    ((s.vote.managed reservAccount).net || (s.vote.managed reservAccount).cpu) = false

/-- What has not been sold does not become less. -/
theorem unsold_le_drained (hs : s.powup.Sound core t) (ht : t ≤ now)
    (hm : s.powup.market = some m) (max : ℕ) (kind : Resource) :
    m.unsold kind ≤
      (m.drained now s.powup.orders (drain now max s.powup.orders)).unsold kind := by
  unfold PowerupMarket.unsold
  rw [PowerupMarket.resource_drained]
  exact (hs.kept m hm kind).unsold_le_queued ht
    (sub_nonneg.mpr (sold_drain_le hs.nonneg now max kind))

/-- With a larger number more becomes available. -/
theorem unsold_drained_le (hs : s.powup.Sound core t) (ht : t ≤ now)
    (hm : s.powup.market = some m) (a b : ℕ) (kind : Resource) :
    (m.drained now s.powup.orders (drain now a s.powup.orders)).unsold kind ≤
      (m.drained now s.powup.orders (drain now (a + b) s.powup.orders)).unsold kind := by
  have ha := sold_drain_le hs.nonneg now a kind
  have hb := sold_drain_le (hs.nonneg.drain now a) now b kind
  have hk := (hs.kept m hm kind).queued ht (sub_nonneg.mpr ha)
  have hle := hk.unsold_le_queued le_rfl (sub_nonneg.mpr hb)
  unfold PowerupMarket.unsold
  rw [PowerupMarket.resource_drained, PowerupMarket.resource_drained]
  rwa [PowerupResource.queued_queued, sub_add_sub_cancel, drain_add] at hle

theorem ReserveFree.of_add {a b : ℕ} (h : s.ReserveFree m now (a + b))
    (hs : s.powup.Sound core t) (ht : t ≤ now) (hm : s.powup.market = some m) :
    s.ReserveFree m now a := by
  refine h.imp_left fun heq kind => le_antisymm ?_ (unsold_le_drained hs ht hm a kind)
  rw [← heq kind]
  exact unsold_drained_le hs ht hm a b kind

/-- What a maintenance adds to the reserve is not negative, and known. -/
theorem processPowerupQueue_pick {net cpu : ℤ} (hs : s.powup.Sound core t) (ht : t ≤ now)
    (hm : s.powup.market = some m)
    (hq : s.processPowerupQueue now m max = .ok (s',
      m.drained now s.powup.orders (drain now max s.powup.orders), net, cpu)) (kind : Resource) :
    (m.drained now s.powup.orders (drain now max s.powup.orders)).unsold kind =
      m.unsold kind + kind.pick net cpu ∧ 0 ≤ kind.pick net cpu := by
  have hunsold : PowerupMarket.unsold _ kind = m.unsold kind + kind.pick net cpu :=
    processPowerupQueue_unsold hs.nonneg hq kind
  have hmono := unsold_le_drained hs ht hm max kind
  refine ⟨hunsold, ?_⟩
  rw [hunsold] at hmono
  omega

omit [FloorRing K] [CMath K] in
theorem unsold_nonneg (hs : s.powup.Sound core t) (hm : s.powup.market = some m)
    (kind : Resource) : 0 ≤ m.unsold kind := sub_nonneg.mpr (hs.kept m hm kind).utilization_le

/-- **A maintenance** succeeds unless the reserve is managed and would have to change. -/
theorem exists_powerupexec {now : BlockTimestamp} {user : Name} (h : s.Backed)
    (hs : s.powup.Sound core t) (ht : t ≤ now.sec) (hm : s.powup.market = some m) :
    (∃ s', s.powerupexec now user max = .ok s') ↔
      user ≠ .none ∧ (∃ core, s.coreSymbol = .ok core) ∧ s.ReserveFree m now.sec max := by
  obtain ⟨res, net, cpu, hq, -, -⟩ := exists_processPowerupQueue max h hs ht hm
  have hpick := processPowerupQueue_pick hs ht hm hq
  have hrow : ∀ kind, 0 ≤ res.weightOf kind reservAccount + kind.pick net cpu := fun kind => by
    have hle := (h.queue hq).unsold_le (hs.nonneg.drain _ _) kind
    have hle' : m.unsold kind ≤ res.weightOf kind reservAccount :=
      (unsold_eq hm kind).symm.le.trans hle
    exact add_nonneg ((unsold_nonneg hs hm kind).trans hle') (hpick kind).2
  have hreserve : (∃ res', res.adjustResources (s.vote.managed reservAccount) reservAccount net cpu
      true = .ok res') ↔ s.ReserveFree m now.sec max := by
    rw [ResourceState.exists_adjustResources hrow, ReserveFree, Bool.true_and]
    refine or_congr_left ⟨?_, fun heq => ⟨?_, ?_⟩⟩
    · rintro ⟨rfl, rfl⟩ kind
      rw [(hpick kind).1, kind.pick_zero, add_zero]
    · exact left_eq_add.mp ((heq .net).symm.trans (hpick .net).1)
    · exact left_eq_add.mp ((heq .cpu).symm.trans (hpick .cpu).1)
  rw [← hreserve]
  simp only [State.powerupexec, adjustResources, bind_eq_ok, requireAuth_eq_ok, require_eq_ok,
    exists_const, pure_eq_ok]
  constructor
  · rintro ⟨s', hu, m', hm', core', hcore, q, hq', s₁, ⟨res', hr, rfl⟩, rfl⟩
    obtain rfl : m = m' := Option.some.inj (hm.symm.trans hm')
    obtain rfl := Except.ok.inj (hq.symm.trans hq')
    exact ⟨hu, ⟨core', hcore⟩, res', hr⟩
  · rintro ⟨hu, ⟨core', hcore⟩, res', hr⟩
    exact ⟨_, hu, m, hm, core', hcore, _, hq, _, ⟨res', hr, rfl⟩, rfl⟩

/-- What a maintenance has done to the market and the rows. -/
structure Maintained (now : ℕ) (max : ℕ) (m : PowerupMarket K) (s s' : State K) : Prop where
  eq : ∃ res, s' = { s with res, powup := ⟨some (m.drained now s.powup.orders
    (drain now max s.powup.orders)), drain now max s.powup.orders⟩ }
  keeps : s.res.Keeps s'.res
  zero : ∀ x, s.res.userres.find x = some .zero → s'.res.userres.find x = some .zero ∨
    x = reservAccount ∧ ∃ kind, 0 < s'.powup.unsold kind

theorem powerupexec_maintained {now : BlockTimestamp} {user : Name} (h : s.Backed)
    (hs : s.powup.Sound core t) (ht : t ≤ now.sec) (hm : s.powup.market = some m)
    (he : s.powerupexec now user max = .ok s') : Maintained now.sec max m s s' := by
  obtain ⟨res, net, cpu, hq, hkeeps, hzero⟩ := exists_processPowerupQueue max h hs ht hm
  have hpick := processPowerupQueue_pick hs ht hm hq
  simp only [State.powerupexec, adjustResources, bind_eq_ok, requireAuth_eq_ok, require_eq_ok,
    exists_const, pure_eq_ok] at he
  obtain ⟨-, m', hm', -, -, q, hq', s₁, ⟨res', hr, rfl⟩, rfl⟩ := he
  obtain rfl : m = m' := Option.some.inj (hm.symm.trans hm')
  obtain rfl := Except.ok.inj (hq.symm.trans hq')
  have hadds := ResourceState.adjustResources_adds hr
  refine ⟨⟨res', rfl⟩, hkeeps.trans hadds.keeps, fun x hx => ?_⟩
  by_cases hz : net = 0 ∧ cpu = 0
  · obtain ⟨rfl, rfl⟩ := hz
    exact .inl (ResourceState.zero_of_adjustResources le_rfl le_rfl hr (hzero x hx))
  · by_cases hxa : x = reservAccount
    · -- the reserve has got something
      obtain ⟨kind, hne⟩ : ∃ kind : Resource, kind.pick net cpu ≠ 0 := by
        by_contra hall
        exact hz ⟨not_not.mp fun hn => hall ⟨.net, hn⟩, not_not.mp fun hc => hall ⟨.cpu, hc⟩⟩
      refine .inr ⟨hxa, kind, ?_⟩
      have hun := unsold_nonneg hs hm kind
      obtain ⟨heq, hpos⟩ := hpick kind
      show 0 < PowerupMarket.unsold _ kind
      rw [heq]
      omega
    · exact .inl ((hadds.others x hxa).trans (hzero x hx))

namespace Maintained

variable {s₁ s₂ : State K} {m₁ : PowerupMarket K} {a b : ℕ}

/-- **Two portions** at the same time are one. -/
theorem trans (h : Maintained now a m s s₁) (hs₁ : s₁.powup.Sound core now)
    (hm₁ : s₁.powup.market = some m₁) (h' : Maintained now b m₁ s₁ s₂) :
    Maintained now (a + b) m s s₂ := by
  have hmono : ∀ kind, s₁.powup.unsold kind ≤ s₂.powup.unsold kind := fun kind => by
    obtain ⟨res, rfl⟩ := h'.eq
    rw [unsold_eq hm₁]
    exact unsold_le_drained hs₁ le_rfl hm₁ b kind
  refine ⟨?_, h.keeps.trans h'.keeps, fun x hx => ?_⟩
  · obtain ⟨res₁, rfl⟩ := h.eq
    obtain ⟨res₂, rfl⟩ := h'.eq
    obtain rfl : _ = m₁ := Option.some.inj hm₁
    refine ⟨res₂, ?_⟩
    simp only [drain_add, PowerupMarket.drained_drained]
  · rcases h.zero x hx with hx₁ | ⟨rfl, kind, hpos⟩
    · exact h'.zero x hx₁
    · exact .inr ⟨rfl, kind, hpos.trans_le (hmono kind)⟩

/-- A row that is empty after one maintenance is so after the other. -/
theorem zero_of_zero (h : Maintained now max m s s₁) (h' : Maintained now max m s s₂)
    (hb' : s₂.Backed) (hn : OrdersNonneg s₂.powup.orders)
    (hw : ∀ kind x, s₂.res.weightOf kind x = s₁.res.weightOf kind x) {x : Name}
    (hx : s₁.res.userres.find x = some .zero) : s₂.res.userres.find x = some .zero := by
  rcases h'.zero x (h.keeps.of_zero x hx) with hx' | ⟨rfl, kind, hpos⟩
  · exact hx'
  · -- the reserve would have something
    have hle := hb'.unsold_le hn kind
    have hzero : s₁.res.weightOf kind reservAccount = 0 := by
      rw [ResourceState.weightOf, ResourceState.row, hx]
      cases kind <;> rfl
    rw [hw, hzero] at hle
    exact absurd hpos (not_lt.mpr hle)

/-- **The rows** are determined. -/
theorem find_eq (h : Maintained now max m s s₁) (h' : Maintained now max m s s₂)
    (hb : s₁.Backed) (hb' : s₂.Backed) (hn : OrdersNonneg s.powup.orders) (x : Name) :
    s₂.res.userres.find x = s₁.res.userres.find x := by
  have hw : ∀ kind x, s₂.res.weightOf kind x = s₁.res.weightOf kind x := fun kind x => by
    rw [hb.weight, hb'.weight]
    obtain ⟨res₁, rfl⟩ := h.eq
    obtain ⟨res₂, rfl⟩ := h'.eq
    rfl
  have hn₁ : OrdersNonneg s₁.powup.orders := by
    obtain ⟨res₁, rfl⟩ := h.eq
    exact hn.drain _ _
  have hn₂ : OrdersNonneg s₂.powup.orders := by
    obtain ⟨res₂, rfl⟩ := h'.eq
    exact hn.drain _ _
  refine ResourceState.find_eq_of_row (fun kind => hw kind x)
    ((h'.keeps.ram x).trans (h.keeps.ram x).symm) ⟨fun hx => ?_, fun hx => ?_⟩
  · exact h'.zero_of_zero h hb hn₁ (fun kind x => (hw kind x).symm) hx
  · exact h.zero_of_zero h' hb' hn₂ hw hx

theorem market (h : Maintained now max m s s₁) : ∃ m₁, s₁.powup.market = some m₁ := by
  obtain ⟨res, rfl⟩ := h.eq
  exact ⟨_, rfl⟩

theorem coreSymbol (h : Maintained now max m s s₁) (hc : ∃ core, s.coreSymbol = .ok core) :
    ∃ core, s₁.coreSymbol = .ok core := by
  obtain ⟨res, rfl⟩ := h.eq
  exact hc

/-- Two portions need what one needs. -/
theorem reserveFree_add (h : Maintained now a m s s₁) (hs : s.powup.Sound core t) (ht : t ≤ now)
    (hm : s.powup.market = some m) (hs₁ : s₁.powup.Sound core now)
    (hm₁ : s₁.powup.market = some m₁) :
    s.ReserveFree m now (a + b) ↔ s.ReserveFree m now a ∧ s₁.ReserveFree m₁ now b := by
  have hle := unsold_le_drained hs ht hm a
  have hle₁ := unsold_le_drained hs₁ le_rfl hm₁ b
  obtain ⟨res₁, rfl⟩ := h.eq
  obtain rfl : _ = m₁ := Option.some.inj hm₁
  simp only [ReserveFree, drain_add, PowerupMarket.drained_drained] at hle hle₁ ⊢
  rw [← and_or_right]
  refine or_congr_left ⟨fun heq => ⟨fun kind => ?_, fun kind => ?_⟩, fun heq kind => ?_⟩
  · have h₁ := hle kind
    have h₂ := hle₁ kind
    have h₃ := heq kind
    omega
  · have h₁ := hle kind
    have h₂ := hle₁ kind
    have h₃ := heq kind
    omega
  · exact (heq.2 kind).trans (heq.1 kind)

end Maintained

theorem market_of_powerupexec {now : BlockTimestamp} {user : Name}
    (h : s.powerupexec now user max = .ok s') : ∃ m, s.powup.market = some m := by
  simp only [State.powerupexec, bind_eq_ok, requireAuth_eq_ok, require_eq_ok, exists_const] at h
  obtain ⟨-, m, hm, -⟩ := h
  exact ⟨m, hm⟩

/-- The same market, the same orders and the same rows. -/
structure SamePowerup (s s' : State K) : Prop where
  powup : s'.powup = s.powup
  userres : ∀ a, s'.res.userres.find a = s.res.userres.find a

theorem Maintained.same {s₁ s₂ : State K} (h : Maintained now max m s s₁)
    (h' : Maintained now max m s s₂) (hb : s₁.Backed) (hb' : s₂.Backed)
    (hn : OrdersNonneg s.powup.orders) : s₁.SamePowerup s₂ := by
  refine ⟨?_, h.find_eq h' hb hb' hn⟩
  obtain ⟨res₁, rfl⟩ := h.eq
  obtain ⟨res₂, rfl⟩ := h'.eq
  rfl

end State

end EosioSystem
