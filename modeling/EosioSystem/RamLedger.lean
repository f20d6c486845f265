import EosioSystem.Action

/-!
# The RAM market is solvent

Four ledgers describe the RAM market: the bytes for sale, the bytes in the accounts' rows, the
reserve of core tokens and the tokens that `eosio.ram` really holds. They agree in every run that
starts with `init`, and the reserve never falls below its initial value. The invariant that gives
this is about the product of the two connectors: a trade does not lower it, and new RAM raises
the bytes for sale while every byte is worth at least its initial price.

## Main definitions

* `RamState.Solvent`: the invariant of the market
* `RamLedger`: the market with the accounts' rows and the token balance

## Main results

* `RamState.Solvent.buyBytes`, `RamState.Solvent.sellBytes`: the market after a trade
* `ramLedger_of_run`: **all four ledgers agree in every run**
-/

namespace EosioSystem

open Checked

namespace ResourceState

/-- The bytes in the row of an account. -/
def ramBytes (rs : ResourceState) (a : Name) : ℤ := ((rs.userres.find a).getD .zero).ramBytes

/-- The bytes in the rows of all accounts. -/
def totalRam (rs : ResourceState) : ℤ := rs.userres.sum fun _ u => u.ramBytes

theorem userres_addRam (rs : ResourceState) (m : Managed) (a : Name) (bytes : ℤ) :
    (rs.addRam m a bytes).userres = rs.userres.set a
      { (rs.userres.find a).getD .zero with ramBytes := rs.ramBytes a + bytes } := by
  unfold addRam ramBytes
  split_ifs <;> rfl

@[simp] theorem totalRam_addRam (rs : ResourceState) (m : Managed) (a : Name) (bytes : ℤ) :
    (rs.addRam m a bytes).totalRam = rs.totalRam + bytes := by
  unfold totalRam
  rw [userres_addRam, Table.sum_set_elim, ramBytes]
  cases rs.userres.find a with
  | none => simp [UserResources.zero]
  | some u => simp; ring

@[simp] theorem ramBytes_addRam (rs : ResourceState) (m : Managed) (a b : Name) (bytes : ℤ) :
    (rs.addRam m a bytes).ramBytes b = rs.ramBytes b + if b = a then bytes else 0 := by
  unfold ramBytes
  rw [userres_addRam, Table.find_set]
  split_ifs with h
  · simp [h, ramBytes]
  · simp

/-- No account has more bytes than all together. -/
theorem ramBytes_le_totalRam {rs : ResourceState} (h : ∀ a, 0 ≤ rs.ramBytes a) (a : Name) :
    rs.ramBytes a ≤ rs.totalRam := by
  have hrow : ∀ b u, rs.userres.find b = some u → 0 ≤ u.ramBytes := fun b u hu => by
    simpa [ramBytes, hu] using h b
  unfold ramBytes
  cases hu : rs.userres.find a with
  | none => exact Table.sum_nonneg hrow
  | some u => exact Table.le_sum hrow hu

end ResourceState

namespace RamState

/-- The market `es` of a RAM state in which the reserve started at `Q₀`. -/
structure Solvent (Q₀ : ℤ) (rs : RamState) (es : ExchangeState) : Prop where
  market : rs.market = some es
  symbol : es.base.symbol = ramSymbol
  max_pos : 0 < rs.maxRamSize
  reserve : rs.maxRamSize = es.base.amount + rs.totalRamBytesReserved
  stake : es.quote.amount - rs.totalRamStake = Q₀
  initial_nonneg : 0 ≤ Q₀
  base_nonneg : 0 ≤ es.base.amount
  quote_nonneg : 0 ≤ es.quote.amount
  reserved_nonneg : 0 ≤ rs.totalRamBytesReserved
  product : Q₀ * rs.maxRamSize ≤ es.base.amount * es.quote.amount

namespace Solvent

variable {Q₀ : ℤ} {rs rs' : RamState} {es : ExchangeState}

/-- The reserve has at least its initial value. -/
theorem initial_le (h : Solvent Q₀ rs es) : Q₀ ≤ es.quote.amount := by
  have hle : es.base.amount ≤ rs.maxRamSize := by
    have := h.reserve
    have := h.reserved_nonneg
    omega
  rcases h.base_nonneg.eq_or_lt with hb | hb
  · -- with nothing for sale the initial value is zero
    have hp := h.product
    rw [← hb, zero_mul] at hp
    have := nonpos_of_mul_nonpos_left hp h.max_pos
    linarith [h.quote_nonneg]
  · refine le_of_mul_le_mul_left ?_ hb
    calc es.base.amount * Q₀ = Q₀ * es.base.amount := mul_comm _ _
      _ ≤ Q₀ * rs.maxRamSize := mul_le_mul_of_nonneg_left hle h.initial_nonneg
      _ ≤ es.base.amount * es.quote.amount := h.product

theorem stake_nonneg (h : Solvent Q₀ rs es) : 0 ≤ rs.totalRamStake := by
  have := h.stake
  have := h.initial_le
  omega

/-- More RAM for sale keeps the market solvent. -/
theorem addBase (h : Solvent Q₀ rs es) {bytes : ℤ} (hb : 0 ≤ bytes) (last rate : ℕ) :
    Solvent Q₀ { rs with
      market := some (es.addBase bytes)
      maxRamSize := rs.maxRamSize + bytes
      lastRamIncrease := last
      newRamPerBlock := rate } (es.addBase bytes) where
  market := rfl
  symbol := h.symbol
  max_pos := add_pos_of_pos_of_nonneg h.max_pos hb
  reserve := by
    have := h.reserve
    simp only [ExchangeState.addBase]
    omega
  stake := h.stake
  initial_nonneg := h.initial_nonneg
  base_nonneg := add_nonneg h.base_nonneg hb
  quote_nonneg := h.quote_nonneg
  reserved_nonneg := h.reserved_nonneg
  product := by
    have h₁ := h.product
    have h₂ := mul_le_mul_of_nonneg_right h.initial_le hb
    simp only [ExchangeState.addBase]
    nlinarith

/-- `update_ram_supply` adds RAM for sale and changes nothing else. -/
theorem updateRamSupply (h : Solvent Q₀ rs es) {now : BlockTimestamp}
    (hu : rs.updateRamSupply now = .ok rs') :
    ∃ es', Solvent Q₀ rs' es' ∧ es'.quote = es.quote ∧
      rs'.totalRamBytesReserved = rs.totalRamBytesReserved ∧
      rs'.totalRamStake = rs.totalRamStake := by
  unfold RamState.updateRamSupply at hu
  split_ifs at hu with hnow
  · obtain rfl := pure_eq_ok.mp hu
    exact ⟨es, h, rfl, rfl, rfl⟩
  · simp only [bind_eq_ok, require_eq_ok, pure_eq_ok] at hu
    obtain ⟨es₁, hes, rfl⟩ := hu
    obtain rfl : es = es₁ := by simpa [h.market] using hes
    exact ⟨_, h.addBase (Int.natCast_nonneg _) now.slot rs.newRamPerBlock, rfl, rfl, rfl⟩

/-- **Buying RAM**: the tokens that go in are staked, the bytes that come out are reserved. -/
theorem buyBytes (h : Solvent Q₀ rs es) {quantity : Asset} {bytes : ℤ} (hq : 0 ≤ quantity.amount)
    (hb : rs.buyBytes quantity = .ok (rs', bytes)) :
    ∃ es', Solvent Q₀ rs' es' ∧ rs'.totalRamBytesReserved = rs.totalRamBytesReserved + bytes ∧
      rs'.totalRamStake = rs.totalRamStake + quantity.amount := by
  simp only [RamState.buyBytes, bind_eq_ok, check_eq_ok, exists_const, require_eq_ok,
    pure_eq_ok] at hb
  obtain ⟨es₁, hes, ⟨es', out⟩, hc, hpos, hb⟩ := hb
  obtain ⟨rfl, rfl⟩ := Prod.mk.inj hb
  obtain rfl : es = es₁ := by simpa [h.market] using hes
  obtain ⟨ho, rfl⟩ := directConvert_quote h.symbol.symm hc
  have hle := getBancorOutput_le h.quote_nonneg h.base_nonneg hq ho
  have hprod := product_le_of_getBancorOutput h.quote_nonneg h.base_nonneg hq ho
  refine ⟨_, ⟨rfl, h.symbol, h.max_pos, ?_, ?_, h.initial_nonneg, ?_, ?_, ?_, ?_⟩, rfl, rfl⟩
  · have := h.reserve
    dsimp only at *
    omega
  · have := h.stake
    dsimp only
    omega
  · exact sub_nonneg.mpr hle
  · exact add_nonneg h.quote_nonneg hq
  · exact add_nonneg h.reserved_nonneg hpos.le
  · have := h.product
    dsimp only
    linarith [mul_comm es.quote.amount es.base.amount,
      mul_comm (es.quote.amount + quantity.amount) (es.base.amount - out.amount)]

/-- The market after bytes have come back, before the stake is checked. -/
theorem sell (h : Solvent Q₀ rs es) {bytes out : ℤ} (h₀ : 0 ≤ bytes)
    (hle : bytes ≤ rs.totalRamBytesReserved)
    (ho : getBancorOutput es.base.amount es.quote.amount bytes = .ok out) :
    let es' := { es with
      base := { es.base with amount := es.base.amount + bytes }
      quote := { es.quote with amount := es.quote.amount - out } }
    Solvent Q₀ { rs with
      market := some es'
      totalRamBytesReserved := rs.totalRamBytesReserved - bytes
      totalRamStake := rs.totalRamStake - out } es' where
  market := rfl
  symbol := h.symbol
  max_pos := h.max_pos
  reserve := by
    have := h.reserve
    dsimp only
    omega
  stake := by
    have := h.stake
    dsimp only
    omega
  initial_nonneg := h.initial_nonneg
  base_nonneg := add_nonneg h.base_nonneg h₀
  quote_nonneg := sub_nonneg.mpr (getBancorOutput_le h.base_nonneg h.quote_nonneg h₀ ho)
  reserved_nonneg := sub_nonneg.mpr hle
  product := h.product.trans (product_le_of_getBancorOutput h.base_nonneg h.quote_nonneg h₀ ho)

/-- **Selling RAM**: the bytes are released, the tokens that come out are unstaked. -/
theorem sellBytes (h : Solvent Q₀ rs es) {bytes tokens : ℤ} {core : Symbol} (h₀ : 0 ≤ bytes)
    (hle : bytes ≤ rs.totalRamBytesReserved)
    (hs : rs.sellBytes bytes core = .ok (rs', tokens)) :
    ∃ es', Solvent Q₀ rs' es' ∧ rs'.totalRamBytesReserved = rs.totalRamBytesReserved - bytes ∧
      rs'.totalRamStake = rs.totalRamStake - tokens := by
  simp only [RamState.sellBytes, bind_eq_ok, check_eq_ok, exists_const, require_eq_ok,
    pure_eq_ok] at hs
  obtain ⟨es₁, hes, ⟨es', out⟩, hc, -, -, hs⟩ := hs
  obtain ⟨rfl, rfl⟩ := Prod.mk.inj hs
  obtain rfl : es = es₁ := by simpa [h.market] using hes
  obtain ⟨ho, rfl⟩ := directConvert_base h.symbol.symm hc
  exact ⟨_, h.sell h₀ hle ho, rfl, rfl⟩

/-- What is paid for RAM was staked before. -/
theorem sellBytes_ne_error (h : Solvent Q₀ rs es) {bytes : ℤ} (h₀ : 0 ≤ bytes)
    (hle : bytes ≤ rs.totalRamBytesReserved) (core : Symbol) :
    rs.sellBytes bytes core ≠
      .error "error, attempt to unstake more tokens than previously staked" := by
  unfold RamState.sellBytes
  refine bind_ne_error (require_ne_error (by decide)) fun es₁ hes => ?_
  obtain rfl : es = es₁ := by simpa [h.market] using require_eq_ok.mp hes
  refine bind_ne_error ?_ ?_
  · intro hc
    simpa using directConvert_error hc
  · rintro ⟨es', out⟩ hc
    obtain ⟨ho, rfl⟩ := directConvert_base h.symbol.symm hc
    refine bind_ne_error (check_ne_error (.inl (by decide))) fun _ _ => ?_
    exact bind_ne_error (check_ne_error (.inr (h.sell h₀ hle ho).stake_nonneg)) fun _ _ =>
      pure_ne_error

end Solvent

end RamState

variable {K : Type} [Field K] [LinearOrder K]

/-- The four ledgers of the RAM market. -/
structure RamLedger (Q₀ : ℤ) (s : State K) (es : ExchangeState) : Prop where
  solvent : s.ram.Solvent Q₀ es
  rows : s.ram.totalRamBytesReserved = s.res.totalRam
  rows_nonneg : ∀ a, 0 ≤ s.res.ramBytes a
  tokens : s.token.balance ramAccount = s.ram.totalRamStake

/-- The fee for RAM leaves the market, the rows and the tokens of `eosio.ram` alone. -/
theorem payRamFee_frame {s s' : State K} {now : BlockTimestamp} {payer : Name} {fee : ℤ}
    (hp : payer ≠ ramAccount) (h : s.payRamFee now payer fee = .ok s') :
    ∃ token rex pools, s' = { s with token, rex, pools } ∧
      token.balance ramAccount = s.token.balance ramAccount := by
  unfold State.payRamFee at h
  split_ifs at h
  · simp only [bind_eq_ok] at h
    obtain ⟨token, ht, h⟩ := h
    obtain ⟨token', rex, pools, rfl, hb⟩ := State.channelToRexOrPools_frame h
    refine ⟨token', rex, pools, rfl, ?_⟩
    rw [hb ramAccount (by decide) (by decide) (by decide)]
    simp [Token.balance_transfer ht, hp.symm, show ramAccount ≠ ramfeeAccount by decide]
  · obtain rfl := pure_eq_ok.mp h
    exact ⟨s.token, s.rex, s.pools, rfl, rfl⟩

namespace RamLedger

variable {Q₀ : ℤ} {s s' : State K} {es : ExchangeState} {now : BlockTimestamp}

omit [Field K] [LinearOrder K] in
/-- `update_ram_supply` before an action -/
theorem updateRamSupply (h : RamLedger Q₀ s es) {ram : RamState}
    (hu : s.ram.updateRamSupply now = .ok ram) : ∃ es', RamLedger Q₀ { s with ram } es' := by
  obtain ⟨es', hs, -, hr, hst⟩ := h.solvent.updateRamSupply hu
  exact ⟨es', hs, hr.trans h.rows, h.rows_nonneg, h.tokens.trans hst.symm⟩

omit [Field K] [LinearOrder K] in
theorem setram (h : RamLedger Q₀ s es) {maxRamSize : ℤ} (hr : s.setram maxRamSize = .ok s') :
    ∃ es', RamLedger Q₀ s' es' := by
  simp only [State.setram, RamState.setram, bind_eq_ok, check_eq_ok, exists_const, require_eq_ok,
    pure_eq_ok] at hr
  obtain ⟨ram, ⟨hlt, -, -, es₁, hes, rfl⟩, rfl⟩ := hr
  obtain rfl : es = es₁ := by simpa [h.solvent.market] using hes
  have hs := h.solvent.addBase (sub_nonneg.mpr hlt.le) s.ram.lastRamIncrease s.ram.newRamPerBlock
  rw [add_sub_cancel] at hs
  exact ⟨_, hs, h.rows, h.rows_nonneg, h.tokens⟩

omit [Field K] [LinearOrder K] in
theorem setramrate (h : RamLedger Q₀ s es) {bytes : ℕ} (hr : s.setramrate now bytes = .ok s') :
    ∃ es', RamLedger Q₀ s' es' := by
  simp only [State.setramrate, bind_eq_ok, pure_eq_ok] at hr
  obtain ⟨ram, hu, rfl⟩ := hr
  obtain ⟨es', h'⟩ := h.updateRamSupply hu
  have hs := h'.solvent
  exact ⟨es', ⟨hs.market, hs.symbol, hs.max_pos, hs.reserve, hs.stake, hs.initial_nonneg,
    hs.base_nonneg, hs.quote_nonneg, hs.reserved_nonneg, hs.product⟩, h'.rows, h'.rows_nonneg,
    h'.tokens⟩

theorem buyram (h : RamLedger Q₀ s es) {payer receiver : Name} {quant : Asset}
    (hb : s.buyram now payer receiver quant = .ok s') : ∃ es', RamLedger Q₀ s' es' := by
  simp only [State.buyram, bind_eq_ok, check_eq_ok, requireAuth_eq_ok, State.checkCore_eq_ok,
    exists_const, pure_eq_ok] at hb
  obtain ⟨-, ram, hu, -, -, token, ht, s₁, hf, ⟨ram', bytes⟩, hbuy, rfl⟩ := hb
  obtain ⟨es₁, h₁⟩ := h.updateRamSupply hu
  obtain ⟨hne, hq, -, -⟩ := Token.transfer_eq_ok ht
  obtain ⟨token', rex, pools, rfl, hb⟩ := payRamFee_frame hne hf
  obtain ⟨es', hs, hr, hst⟩ := h₁.solvent.buyBytes hq.le hbuy
  refine ⟨es', hs, ?_, fun a => ?_, ?_⟩
  · have := h₁.rows
    simp only [ResourceState.totalRam_addRam] at *
    omega
  · have h₂ := h₁.solvent.reserved_nonneg
    have := h₁.rows_nonneg a
    have hpos : 0 < bytes := by
      simp only [RamState.buyBytes, bind_eq_ok, check_eq_ok, exists_const, pure_eq_ok] at hbuy
      obtain ⟨_, -, _, -, hp, he⟩ := hbuy
      rw [← (Prod.mk.inj he).2]
      exact hp
    rw [ResourceState.ramBytes_addRam]
    dsimp only at *
    split_ifs <;> omega
  · have := h₁.tokens
    have hpay := Token.balance_transfer ht ramAccount
    rw [if_neg hne.symm, if_pos rfl] at hpay
    dsimp only at *
    omega

theorem buyrambytes (h : RamLedger Q₀ s es) {payer receiver : Name} {bytes : ℕ}
    (hb : s.buyrambytes now payer receiver bytes = .ok s') : ∃ es', RamLedger Q₀ s' es' := by
  simp only [State.buyrambytes, bind_eq_ok] at hb
  obtain ⟨_, -, _, -, _, -, hb⟩ := hb
  exact h.buyram hb

theorem sellram (h : RamLedger Q₀ s es) {account : Name} {bytes : ℤ}
    (hs : s.sellram now account bytes = .ok s') : ∃ es', RamLedger Q₀ s' es' := by
  simp only [State.sellram, bind_eq_ok, check_eq_ok, requireAuth_eq_ok, exists_const,
    require_eq_ok] at hs
  obtain ⟨-, ram, hu, hpos, row, hrow, hle, core, -, ⟨ram', tokens⟩, hsell, token, ht, hf⟩ := hs
  obtain ⟨es₁, h₁⟩ := h.updateRamSupply hu
  obtain ⟨hne, -, -, -⟩ := Token.transfer_eq_ok ht
  obtain ⟨token', rex, pools, rfl, hb⟩ := payRamFee_frame hne.symm hf
  have hbytes : s.res.ramBytes account = row.ramBytes := by simp [ResourceState.ramBytes, hrow]
  have htotal := ResourceState.ramBytes_le_totalRam h₁.rows_nonneg account
  have hrows := h₁.rows
  obtain ⟨es', hs', hr, hst⟩ := h₁.solvent.sellBytes hpos.le (by dsimp only at *; omega) hsell
  refine ⟨es', hs', ?_, fun a => ?_, ?_⟩
  · simp only [ResourceState.totalRam_addRam] at *
    omega
  · have := h₁.rows_nonneg a
    rw [ResourceState.ramBytes_addRam]
    dsimp only at *
    split_ifs with ha
    · subst ha
      omega
    · omega
  · have := h₁.tokens
    have hpay := Token.balance_transfer ht ramAccount
    rw [if_pos rfl, if_neg hne] at hpay
    dsimp only at *
    omega

/-- A sale of RAM is never refused for lack of staked tokens. -/
theorem sellram_ne_error (h : RamLedger Q₀ s es) (account : Name) (bytes : ℤ) :
    s.sellram now account bytes ≠
      .error "error, attempt to unstake more tokens than previously staked" := by
  unfold State.sellram
  refine bind_ne_error (check_ne_error (.inl (by decide))) fun _ _ => ?_
  refine bind_ne_error (fun he => ?_) fun ram hu => ?_
  · unfold RamState.updateRamSupply at he
    split_ifs at he
    · exact pure_ne_error he
    · rcases bind_eq_error.mp he with he | ⟨_, -, he⟩
      · exact absurd (require_eq_error.mp he).2 (by decide)
      · exact pure_ne_error he
  obtain ⟨es₁, h₁⟩ := h.updateRamSupply hu
  refine bind_ne_error (check_ne_error (.inl (by decide))) fun _ hpos => ?_
  refine bind_ne_error (require_ne_error (by decide)) fun row hrow => ?_
  refine bind_ne_error (check_ne_error (.inl (by decide))) fun _ hle => ?_
  refine bind_ne_error ?_ fun core _ => ?_
  · exact bind_ne_error (require_ne_error (by decide)) fun _ _ => pure_ne_error
  have hbytes : s.res.ramBytes account = row.ramBytes := by
    simp [ResourceState.ramBytes, require_eq_ok.mp hrow]
  have htotal := ResourceState.ramBytes_le_totalRam h₁.rows_nonneg account
  have hrows := h₁.rows
  have hle' := check_eq_ok.mp hle
  refine bind_ne_error (h₁.solvent.sellBytes_ne_error (check_eq_ok.mp hpos).le
    (by dsimp only at *; omega) core) ?_
  rintro ⟨ram', tokens⟩ -
  refine bind_ne_error (fun he => by simpa using Token.transfer_error he) fun token _ => ?_
  unfold State.payRamFee
  split_ifs
  · refine bind_ne_error (fun he => by simpa using Token.transfer_error he) fun _ _ he => ?_
    simpa using State.channelToRexOrPools_error he
  · exact pure_ne_error

end RamLedger

/-! ## Runs -/

/-- Nothing has been sold and no token is staked for RAM. -/
structure RamGenesis (s : State K) : Prop where
  max_pos : 0 < s.ram.maxRamSize
  reserved : s.ram.totalRamBytesReserved = 0
  stake : s.ram.totalRamStake = 0
  rows : ∀ a, s.res.ramBytes a = 0
  tokens : s.token.balance ramAccount = 0

/-- A state right after `init`, which gives the market the reserve `Q₀`. -/
def RamInit (Q₀ : ℤ) (s : State K) : Prop :=
  ∃ s₀ version core, RamGenesis s₀ ∧ s₀.init version core = .ok s ∧
    s.ram.market.map (fun es => es.quote.amount) = some Q₀

/-- The actions on the RAM market. -/
def Action.isRam : Action K → Bool
  | setram .. | setramrate .. | buyram .. | buyrambytes .. | sellram .. => true
  | _ => false

omit [Field K] [LinearOrder K] in
theorem ramLedger_of_init {Q₀ : ℤ} {s : State K} (h : RamInit Q₀ s) : ∃ es, RamLedger Q₀ s es := by
  obtain ⟨s₀, version, core, hg, hi, hQ⟩ := h
  simp only [State.init, bind_eq_ok, check_eq_ok, exists_const, pure_eq_ok] at hi
  obtain ⟨-, -, -, hsup, rfl⟩ := hi
  obtain rfl : s₀.token.supply.tdiv 1000 = Q₀ := by simpa using hQ
  have hQ₀ : 0 ≤ s₀.token.supply.tdiv 1000 := Int.tdiv_nonneg hsup.le (by decide)
  have hmax := hg.max_pos
  refine ⟨_, ⟨rfl, rfl, hmax, ?_, ?_, hQ₀, ?_, hQ₀, hg.reserved.ge, ?_⟩, ?_, ?_, ?_⟩
  · simp [hg.reserved]
  · simp [hg.stake]
  · simp [hg.reserved, hmax.le]
  · simp [hg.reserved, mul_comm]
  · refine hg.reserved.trans (Table.sum_eq_zero fun a u hu => ?_).symm
    simpa [ResourceState.ramBytes, hu] using hg.rows a
  · exact fun a => (hg.rows a).ge
  · exact hg.tokens.trans hg.stake.symm

variable [FloorRing K] [CMath K]

theorem RamLedger.step {Q₀ : ℤ} {t : BlockTimestamp} {s s' : State K}
    (h : ∃ es, RamLedger Q₀ s es) (hs : Step (fun _ a => a.isRam) t s s') :
    ∃ es, RamLedger Q₀ s' es := by
  obtain ⟨es, h⟩ := h
  obtain ⟨isAccount, a, ha, he⟩ := hs
  cases a with
  | setram => exact h.setram he
  | setramrate => exact h.setramrate he
  | buyram => exact h.buyram he
  | buyrambytes => exact h.buyrambytes he
  | sellram => exact h.sellram he
  | _ => simp [Action.isRam] at ha

/-- **The four ledgers of the RAM market agree in every run**, the product of the connectors keeps
the market solvent, and no sale is refused for lack of staked tokens. -/
theorem ramLedger_of_run {Q₀ : ℤ} {t : BlockTimestamp} {s : State K}
    (h : Run (RamInit Q₀) (Step fun _ a => a.isRam) t s) :
    ∃ es, s.ram.market = some es ∧
      s.ram.maxRamSize = es.base.amount + s.ram.totalRamBytesReserved ∧
      s.ram.totalRamBytesReserved = s.res.totalRam ∧
      es.quote.amount - s.ram.totalRamStake = Q₀ ∧
      s.token.balance ramAccount = s.ram.totalRamStake ∧
      Q₀ * s.ram.maxRamSize ≤ es.base.amount * es.quote.amount ∧
      Q₀ ≤ es.quote.amount ∧ 0 ≤ s.ram.totalRamStake ∧
      ∀ now account bytes, s.sellram now account bytes ≠
        .error "error, attempt to unstake more tokens than previously staked" := by
  obtain ⟨es, h⟩ := h.invariant (P := fun s => ∃ es, RamLedger Q₀ s es)
    (fun _ => ramLedger_of_init) (fun _ _ _ => RamLedger.step)
  exact ⟨es, h.solvent.market, h.solvent.reserve, h.rows, h.solvent.stake, h.tokens,
    h.solvent.product, h.solvent.initial_le, h.solvent.stake_nonneg,
    fun _ => h.sellram_ne_error⟩

/-- A new chain on which one account has a million units of the core token. -/
def ramExample : State ℚ := .genesis ⟨⟨1397703940⟩, Table.empty.set ⟨1⟩ 1000000, 1000000⟩

/-- The account buys RAM and sells some of it two blocks later, while the supply grows. -/
def ramExampleRun : List (BlockTimestamp × Action ℚ) :=
  [(.ofSlot 1, .setramrate 1024),
   (.ofSlot 2, .buyram ⟨1⟩ ⟨1⟩ ⟨10000, ⟨1397703940⟩⟩),
   (.ofSlot 4, .sellram ⟨1⟩ 100000000)]

theorem ramLedger_of_run_example :
    ∃ (s : State ℚ) (es : ExchangeState), s.ram.market = some es ∧
      es.quote.amount - s.ram.totalRamStake = 1000 ∧ 0 ≤ s.ram.totalRamStake ∧
      s.ram.totalRamBytesReserved = s.res.totalRam := by
  obtain ⟨s₀, hinit⟩ : ∃ s₀, ramExample.init 0 ⟨1397703940⟩ = .ok s₀ := ⟨_, rfl⟩
  have hstart : RamInit 1000 s₀ := by
    refine ⟨ramExample, 0, ⟨1397703940⟩, ⟨by decide, rfl, rfl, fun _ => rfl, rfl⟩, hinit, ?_⟩
    cases hinit
    rfl
  have hrun : (execAll (Action.execIn fun _ a => a.isRam) (.ofSlot 0) ramExampleRun
      s₀).isSome := by
    cases hinit
    decide +kernel
  obtain ⟨es, hm, -, hr, hq, -, -, -, hs, -⟩ := ramLedger_of_run (run_get_execIn hstart hrun)
  exact ⟨_, es, hm, hq, hs, hr⟩

end EosioSystem
