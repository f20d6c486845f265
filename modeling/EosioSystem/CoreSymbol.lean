import EosioSystem.Frame
import EosioSystem.RamGrowth

/-!
# The core symbol

The contract keeps the symbol of its token in the RAM market. The market is made once, and trades
only change the amounts in it, so a symbol that is known stays what it is.

## Main definitions

* `RamState.core`: the symbol in the RAM market

## Main results

* `coreSymbol_exec`: **the core symbol does not change**
-/

namespace EosioSystem

open Checked

namespace RamState

variable {rs rs' : RamState}

/-- The symbol of the tokens in the market. -/
def core (rs : RamState) : Option Symbol := rs.market.map fun m => m.quote.symbol

theorem core_of_market {es : ExchangeState} (h : rs.market = some es) :
    rs.core = some es.quote.symbol := by rw [core, h, Option.map_some]

/-- A trade does not change the symbols. -/
theorem symbol_directConvert {es es' : ExchangeState} {inp out : Asset} {sym : Symbol}
    (h : es.directConvert inp sym = .ok (es', out)) : es'.quote.symbol = es.quote.symbol := by
  simp only [ExchangeState.directConvert, check_bind_eq_ok] at h
  obtain ⟨-, h⟩ := h
  split_ifs at h
  · simp only [bind_eq_ok, pure_eq_ok, Prod.mk.injEq] at h
    obtain ⟨out', -, rfl, -⟩ := h
    rfl
  · simp only [bind_eq_ok, pure_eq_ok, Prod.mk.injEq] at h
    obtain ⟨out', -, rfl, -⟩ := h
    rfl

theorem core_setram {maxRamSize : ℤ} (h : rs.setram maxRamSize = .ok rs') : rs'.core = rs.core := by
  simp only [RamState.setram, bind_eq_ok, check_eq_ok, exists_const, require_eq_ok,
    pure_eq_ok] at h
  obtain ⟨-, -, -, es, hm, rfl⟩ := h
  rw [core_of_market hm]
  rfl

theorem core_updateRamSupply {now : BlockTimestamp} (h : rs.updateRamSupply now = .ok rs') :
    rs'.core = rs.core := by
  unfold RamState.updateRamSupply at h
  split_ifs at h
  · obtain rfl := pure_eq_ok.mp h
    rfl
  · simp only [bind_eq_ok, require_eq_ok, pure_eq_ok] at h
    obtain ⟨es, hm, rfl⟩ := h
    rw [core_of_market hm]
    rfl

theorem core_buyBytes {quantity : Asset} {bytes : ℤ} (h : rs.buyBytes quantity = .ok (rs', bytes)) :
    rs'.core = rs.core := by
  simp only [RamState.buyBytes, bind_eq_ok, check_eq_ok, exists_const, require_eq_ok, pure_eq_ok,
    Prod.mk.injEq] at h
  obtain ⟨es, hm, ⟨es', _⟩, hc, -, rfl, -⟩ := h
  rw [core_of_market hm]
  exact congrArg some (symbol_directConvert hc)

theorem core_sellBytes {bytes tokens : ℤ} {sym : Symbol}
    (h : rs.sellBytes bytes sym = .ok (rs', tokens)) : rs'.core = rs.core := by
  simp only [RamState.sellBytes, bind_eq_ok, check_eq_ok, exists_const, require_eq_ok, pure_eq_ok,
    Prod.mk.injEq] at h
  obtain ⟨es, hm, ⟨es', _⟩, hc, -, -, rfl, -⟩ := h
  rw [core_of_market hm]
  exact congrArg some (symbol_directConvert hc)

end RamState

variable {K : Type} {s s' : State K}

theorem coreSymbol_eq_ok {sym : Symbol} : s.coreSymbol = .ok sym ↔ s.ram.core = some sym := by
  simp only [State.coreSymbol, bind_eq_ok, require_eq_ok, pure_eq_ok, RamState.core,
    Option.map_eq_some_iff]

variable [Field K] [LinearOrder K]

theorem core_buyram {now : BlockTimestamp} {payer receiver : Name} {quant : Asset}
    (h : s.buyram now payer receiver quant = .ok s') : s'.ram.core = s.ram.core := by
  simp only [State.buyram, bind_eq_ok, check_eq_ok, requireAuth_eq_ok, State.checkCore_eq_ok,
    exists_const, pure_eq_ok] at h
  obtain ⟨-, ram, hu, -, -, token, -, s₁, hf, ⟨ram', bytes⟩, hbuy, rfl⟩ := h
  have hcore := RamState.core_buyBytes hbuy
  rw [ram_payRamFee hf] at hcore
  exact hcore.trans (RamState.core_updateRamSupply hu)

theorem core_sellram {now : BlockTimestamp} {account : Name} {bytes : ℤ}
    (h : s.sellram now account bytes = .ok s') : s'.ram.core = s.ram.core := by
  simp only [State.sellram, bind_eq_ok, check_eq_ok, requireAuth_eq_ok, exists_const,
    require_eq_ok] at h
  obtain ⟨-, ram, hu, -, row, -, -, sym, -, ⟨ram', tokens⟩, hsell, token, -, hf⟩ := h
  rw [ram_payRamFee hf]
  exact (RamState.core_sellBytes hsell).trans (RamState.core_updateRamSupply hu)

variable [FloorRing K] [CMath K]

/-- **The core symbol does not change.** -/
theorem coreSymbol_exec {env : Env} {a : Action K} {sym : Symbol} (hs : s.coreSymbol = .ok sym)
    (h : a.exec env s = .ok s') : s'.coreSymbol = .ok sym := by
  rw [coreSymbol_eq_ok] at hs ⊢
  rw [← hs]
  cases a with
  | init =>
    -- the market has been made already
    simp only [Action.exec, State.init, bind_eq_ok, check_eq_ok, exists_const, pure_eq_ok] at h
    obtain ⟨-, hnone, -⟩ := h
    rw [RamState.core, Option.isNone_iff_eq_none.mp hnone] at hs
    cases hs
  | setram =>
    simp only [Action.exec, State.setram, bind_eq_ok, pure_eq_ok] at h
    obtain ⟨ram, hr, rfl⟩ := h
    exact RamState.core_setram hr
  | setramrate =>
    simp only [Action.exec, State.setramrate, bind_eq_ok, pure_eq_ok] at h
    obtain ⟨ram, hu, rfl⟩ := h
    have hcore := RamState.core_updateRamSupply hu
    exact hcore
  | buyram => exact core_buyram h
  | buyrambytes =>
    simp only [Action.exec, State.buyrambytes, bind_eq_ok] at h
    obtain ⟨_, -, _, -, _, -, h⟩ := h
    exact core_buyram h
  | sellram => exact core_sellram h
  | _ =>
    have hsame : s'.ram = s.ram := (Action.exec_changes h).same .ram (by simp [Action.parts])
    rw [hsame]

end EosioSystem
