import EosioSystem.RamGrowth

/-!
# The bytes that `buyrambytes` delivers

`buyrambytes` looks up the price of the bytes it is asked for, adds the fee, and buys RAM for the
sum. The price is rounded down before the fee is added and after it is taken off again, and the
purchase rounds the bytes down; RAM that is added to the market in the same call works the other
way. What is delivered is what was asked for only when the two make up for each other.

## Main definitions

* `tokensPaid`, `roundingLoss`: what goes into the market, and what the rounding costs
* `GrowthMakesUp`: the new RAM makes up for the rounding

## Main results

* `amount_afterFee`: the fee taken off what it was added to
* `getBancorOutput_eq_iff`: when the purchase gives back the bytes the price was asked for
* `buyrambytes_delivers_iff`: **when `buyrambytes` delivers what was asked for**
-/

namespace EosioSystem

open Checked

/-- What goes into a market with the reserve `Q` of tokens and `R` of bytes when `n` bytes are asked
for: their price rounded down, less one unit unless the fee comes out even. -/
def tokensPaid (Q R n : ℤ) : ℤ := Q * n / (R - n) - if 199 ∣ Q * n / (R - n) then 0 else 1

/-- The loss by rounding the price and the fee, in units of a byte for a token of the reserve. -/
def roundingLoss (Q R n : ℤ) : ℤ :=
  Q * n % (R - n) + if 199 ∣ Q * n / (R - n) then 0 else R - n

/-- The bytes that are added to the market in the call make up for the rounding, to the byte. -/
def GrowthMakesUp (Q R n g : ℤ) : Prop :=
  roundingLoss Q R n ≤ tokensPaid Q R n * g ∧
    tokensPaid Q R n * g < roundingLoss Q R n + tokensPaid Q R n + Q

/-- Taking the fee off a price it was added to loses one unit, unless it comes out even. -/
theorem amount_afterFee {cost : ℤ} (h : 0 ≤ cost) :
    (cost * 1000).tdiv 995 - ramFee ((cost * 1000).tdiv 995) =
      cost - if 199 ∣ cost then 0 else 1 := by
  have hq : (cost * 1000).tdiv 995 = cost * 1000 / 995 := Int.tdiv_eq_ediv_of_nonneg (by omega)
  have hpos : 0 ≤ cost * 1000 / 995 := by omega
  have hfee : ramFee (cost * 1000 / 995) = (cost * 1000 / 995 + 199) / 200 :=
    Int.tdiv_eq_ediv_of_nonneg (by omega)
  rw [hq, hfee]
  split_ifs with hdvd
  · omega
  · -- with no unit lost the price would be 199 times the fee
    have hlt : cost * 1000 / 995 - (cost * 1000 / 995 + 199) / 200 < cost := by
      by_contra hge
      have h₁ : cost ≤ 199 * ((cost * 1000 / 995 + 199) / 200) := by omega
      have h₂ : 199 * ((cost * 1000 / 995 + 199) / 200) ≤ cost := by omega
      exact hdvd ⟨_, le_antisymm h₁ h₂⟩
    omega

/-- **The purchase gives back the bytes** the price was asked for when the RAM that was added in
between makes up for the rounding. -/
theorem getBancorOutput_eq_iff {Q R n g out : ℤ} (hQ : 0 < Q) (hn : 0 ≤ n) (hR : n < R) (hg : 0 ≤ g)
    (hp : 0 ≤ tokensPaid Q R n)
    (h : getBancorOutput Q (R + g) (tokensPaid Q R n) = .ok out) :
    out = n ↔ GrowthMakesUp Q R n g := by
  obtain ⟨-, hle, hlt⟩ := getBancorOutput_bounds hQ.le (by omega : 0 ≤ R + g) hp h
  set p := tokensPaid Q R n with hpdef
  have hpos : 0 < Q + p := by omega
  have hbounds : out = n ↔ n * (Q + p) ≤ p * (R + g) ∧ p * (R + g) < (n + 1) * (Q + p) := by
    constructor
    · rintro rfl
      exact ⟨hle, hlt⟩
    · rintro ⟨hle', hlt'⟩
      have h₁ : out < n + 1 := lt_of_mul_lt_mul_right (hle.trans_lt hlt') hpos.le
      have h₂ : n < out + 1 := lt_of_mul_lt_mul_right (hle'.trans_lt hlt) hpos.le
      omega
  -- the tokens asked for the bytes, by division with remainder
  have hdiv : Q * n = (R - n) * p + roundingLoss Q R n := by
    have hmod := Int.mul_ediv_add_emod (Q * n) (R - n)
    rw [hpdef]
    unfold tokensPaid roundingLoss
    split_ifs
    · linarith
    · linarith [mul_sub (R - n) (Q * n / (R - n)) 1]
  rw [hbounds, GrowthMakesUp, ← hpdef]
  constructor
  · rintro ⟨h₁, h₂⟩
    constructor <;> nlinarith
  · rintro ⟨h₁, h₂⟩
    constructor <;> nlinarith

/-- With no new RAM the bytes come out even only when the price does, fee included. -/
theorem growthMakesUp_zero_iff {Q R n : ℤ} (hQ : 0 < Q) (hR : n < R) (hp : 0 ≤ tokensPaid Q R n) :
    GrowthMakesUp Q R n 0 ↔ 199 * (R - n) ∣ Q * n := by
  have hm : 0 < R - n := by omega
  have hmod := Int.emod_nonneg (Q * n) hm.ne'
  have hzero : GrowthMakesUp Q R n 0 ↔ (R - n) ∣ Q * n ∧ 199 ∣ Q * n / (R - n) := by
    rw [GrowthMakesUp, mul_zero, Int.dvd_iff_emod_eq_zero (a := R - n)]
    unfold roundingLoss
    split_ifs with h <;> simp only [h, and_true, and_false, iff_false]
    · omega
    · omega
  rw [hzero, mul_comm 199 (R - n)]
  constructor
  · rintro ⟨⟨k, hk⟩, hdvd⟩
    rw [hk, Int.mul_ediv_cancel_left _ hm.ne'] at hdvd
    rw [hk]
    exact mul_dvd_mul_left _ hdvd
  · intro h
    have hk := dvd_of_mul_right_dvd h
    refine ⟨hk, ?_⟩
    obtain ⟨k, hk⟩ := hk
    rw [hk] at h ⊢
    rw [Int.mul_ediv_cancel_left _ hm.ne']
    exact (mul_dvd_mul_iff_left hm.ne').mp h

theorem tdiv_nonpos {a b : ℤ} (ha : a ≤ 0) (hb : 0 ≤ b) : a.tdiv b ≤ 0 := by
  have h := Int.tdiv_nonneg (neg_nonneg.mpr ha) hb
  rwa [Int.neg_tdiv, neg_nonneg] at h

/-- A positive price is the exact one rounded down. -/
theorem getBancorInput_eq {Q R n cost : ℤ} (hR : n < R) (hpos : 0 < cost)
    (h : getBancorInput R Q n = .ok cost) : 0 < Q * n ∧ cost = Q * n / (R - n) := by
  simp only [getBancorInput, bind_eq_ok, check_eq_ok, exists_const, pure_eq_ok] at h
  obtain ⟨-, rfl⟩ := h
  have hm : 0 < R - n := by omega
  split_ifs at hpos ⊢ with hneg
  · exact absurd hpos (lt_irrefl _)
  · have hQn : 0 < Q * n := by
      by_contra hle
      have := tdiv_nonpos (not_lt.mp hle) hm.le
      omega
    exact ⟨hQn, Int.tdiv_eq_ediv_of_nonneg hQn.le⟩

/-- The market after an update has the same reserve of tokens, and the bytes that were due. -/
theorem RamState.market_updateRamSupply {rs rs' : RamState} {es : ExchangeState}
    {now : BlockTimestamp} (hm : rs.market = some es) (h : rs.updateRamSupply now = .ok rs') :
    ∃ es', rs'.market = some es' ∧ es'.quote = es.quote ∧ es'.base.symbol = es.base.symbol ∧
      es'.base.amount = es.base.amount + (rs.ramDue now % 2 ^ 32 : ℕ) := by
  unfold RamState.updateRamSupply at h
  split_ifs at h with hnow
  · obtain rfl := pure_eq_ok.mp h
    exact ⟨es, hm, rfl, rfl, by simp [RamState.ramDue, Nat.sub_eq_zero_of_le hnow]⟩
  · simp only [bind_eq_ok, require_eq_ok, pure_eq_ok, hm, Option.some.injEq] at h
    obtain ⟨_, rfl, rfl⟩ := h
    exact ⟨_, rfl, rfl, rfl, rfl⟩

/-- The bytes that come out of a purchase. -/
theorem RamState.buyBytes_output {rs rs' : RamState} {es : ExchangeState} {quantity : Asset}
    {bytes : ℤ} (hm : rs.market = some es) (hs : quantity.symbol = es.quote.symbol)
    (h : rs.buyBytes quantity = .ok (rs', bytes)) :
    getBancorOutput es.quote.amount es.base.amount quantity.amount = .ok bytes := by
  simp only [RamState.buyBytes, bind_eq_ok, check_eq_ok, exists_const, require_eq_ok, pure_eq_ok,
    hm, Option.some.injEq, Prod.mk.injEq] at h
  obtain ⟨_, rfl, ⟨es', out⟩, hc, -, -, rfl⟩ := h
  simp only [ExchangeState.directConvert, check_bind_eq_ok] at hc
  obtain ⟨hne, hc⟩ := hc
  split_ifs at hc with h₁ h₂
  · exact absurd (hs.trans h₁.2.symm) hne
  · simp only [bind_eq_ok, pure_eq_ok, Prod.mk.injEq] at hc
    obtain ⟨_, ho, -, rfl⟩ := hc
    exact ho

variable {K : Type} [Field K] [LinearOrder K]

/-- **A purchase of RAM** gives the receiver what comes out of the market for the price less the
fee, after the supply has been brought up to date. -/
theorem buyram_output {s s' : State K} {es : ExchangeState} {now : BlockTimestamp}
    {payer receiver : Name} {quant : Asset} (hm : s.ram.market = some es)
    (h : s.buyram now payer receiver quant = .ok s') :
    0 < quant.amount ∧ 0 < quant.amount - ramFee quant.amount ∧
      ∃ bytes, s'.res.ramBytes receiver = s.res.ramBytes receiver + bytes ∧
        getBancorOutput es.quote.amount (es.base.amount + (s.ram.ramDue now % 2 ^ 32 : ℕ))
          (quant.amount - ramFee quant.amount) = .ok bytes := by
  simp only [State.buyram, bind_eq_ok, check_eq_ok, requireAuth_eq_ok, State.checkCore_eq_ok,
    exists_const, pure_eq_ok] at h
  obtain ⟨-, ram, hu, hcore, hpos, token, ht, s₁, hf, ⟨ram', bytes⟩, hbuy, rfl⟩ := h
  obtain ⟨es', hm', hq, -, hb⟩ := RamState.market_updateRamSupply hm hu
  obtain ⟨-, hpaid, -, -⟩ := Token.transfer_eq_ok ht
  have hres : s₁.res = s.res ∧ s₁.ram = ram := by
    unfold State.payRamFee at hf
    split_ifs at hf
    · simp only [bind_eq_ok] at hf
      obtain ⟨token', -, hf⟩ := hf
      obtain ⟨token'', rex, pools, rfl, -⟩ := State.channelToRexOrPools_frame hf
      exact ⟨rfl, rfl⟩
    · obtain rfl := pure_eq_ok.mp hf
      exact ⟨rfl, rfl⟩
  refine ⟨hpos, hpaid, bytes, by simp [hres.1], ?_⟩
  rw [hres.2] at hbuy
  have hsym : quant.symbol = es'.quote.symbol := by
    simp only [State.coreSymbol, bind_eq_ok, require_eq_ok, hm', Option.some.injEq,
      pure_eq_ok] at hcore
    obtain ⟨_, rfl, hs⟩ := hcore
    exact hs.symm
  have hpaidSym : (⟨quant.amount - ramFee quant.amount, quant.symbol⟩ : Asset).symbol =
      es'.quote.symbol := hsym
  have hout := RamState.buyBytes_output hm' hpaidSym hbuy
  rwa [hq, hb] at hout

/-- **When `buyrambytes` delivers what was asked for**: when the RAM that is added to the market in
the same call makes up for the rounding; with no such RAM, when the price comes out even, fee
included. -/
theorem buyrambytes_delivers_iff {s s' : State K} {es : ExchangeState} {now : BlockTimestamp}
    {payer receiver : Name} {bytes : ℕ} (hm : s.ram.market = some es)
    (hr : bytes < es.base.amount) (h : s.buyrambytes now payer receiver bytes = .ok s') :
    (s'.res.ramBytes receiver = s.res.ramBytes receiver + bytes ↔
      GrowthMakesUp es.quote.amount es.base.amount bytes (s.ram.ramDue now % 2 ^ 32 : ℕ)) ∧
    (s.ram.ramDue now % 2 ^ 32 = 0 →
      (s'.res.ramBytes receiver = s.res.ramBytes receiver + bytes ↔
        199 * (es.base.amount - bytes) ∣ es.quote.amount * bytes)) := by
  simp only [State.buyrambytes, bind_eq_ok, require_eq_ok, hm, Option.some.injEq] at h
  obtain ⟨_, rfl, cost, hcost, core, -, h⟩ := h
  obtain ⟨hpos, hpaid, out, hout, ho⟩ := buyram_output hm h
  have hcost₀ : 0 < cost := by
    by_contra hle
    have := tdiv_nonpos (by omega : cost * 1000 ≤ 0) (by norm_num : (0 : ℤ) ≤ 995)
    dsimp only at hpos
    omega
  obtain ⟨hQn, hc⟩ := getBancorInput_eq hr hcost₀ hcost
  have hQ : 0 < es.quote.amount := by
    by_contra hle
    exact absurd hQn (not_lt.mpr
      (mul_nonpos_of_nonpos_of_nonneg (not_lt.mp hle) (Int.natCast_nonneg _)))
  have hpaid' : (cost * 1000).tdiv 995 - ramFee ((cost * 1000).tdiv 995) =
      tokensPaid es.quote.amount es.base.amount bytes := by
    rw [amount_afterFee hcost₀.le, hc, tokensPaid]
  simp only [hpaid'] at hpaid ho
  have hiff : s'.res.ramBytes receiver = s.res.ramBytes receiver + bytes ↔
      GrowthMakesUp es.quote.amount es.base.amount bytes (s.ram.ramDue now % 2 ^ 32 : ℕ) := by
    rw [hout, add_right_inj]
    exact getBancorOutput_eq_iff hQ (Int.natCast_nonneg _) hr (Int.natCast_nonneg _) hpaid.le ho
  refine ⟨hiff, fun hg => ?_⟩
  rw [hiff, hg]
  exact growthMakesUp_zero_iff hQ hr hpaid.le

/-- A market in which the price of 1000 bytes comes out even. -/
def evenExample : State ℚ :=
  { exampleChain with ram := ⟨some ⟨⟨100000000000000, ramcoreSymbol⟩, ⟨2000, ramSymbol⟩,
      exampleAsset 1990⟩, 2000, 0, 0, 0, 0⟩ }

theorem buyrambytes_delivers_iff_example :
    ∃ s', evenExample.buyrambytes (.ofSlot 4) ⟨1⟩ ⟨1⟩ 1000 = .ok s' ∧
      s'.res.ramBytes ⟨1⟩ = evenExample.res.ramBytes ⟨1⟩ + 1000 := by
  have hok : (evenExample.buyrambytes (.ofSlot 4) ⟨1⟩ ⟨1⟩ 1000).isOk := by decide +kernel
  refine ⟨value _ hok, eq_ok_value hok, ?_⟩
  exact ((buyrambytes_delivers_iff rfl (by decide) (eq_ok_value hok)).2 (by decide)).mpr (by decide)

/-- A new chain with a thousand million tokens of four decimals. -/
def billionExample : State ℚ :=
  .genesis ⟨⟨1397703940⟩, Table.empty.set ⟨1⟩ 10000000000000, 10000000000000⟩

/-- The first buyer on that chain asks for 10000 bytes and gets 9991. -/
theorem buyrambytes_short :
    ((billionExample.init 0 ⟨1397703940⟩ >>= fun s =>
        s.buyrambytes (.ofSlot 4) ⟨1⟩ ⟨1⟩ 10000).map fun s => s.res.ramBytes ⟨1⟩) = .ok 9991 ∧
      billionExample.res.ramBytes ⟨1⟩ = 0 := by
  decide +kernel

end EosioSystem
