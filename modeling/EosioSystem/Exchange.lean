import EosioSystem.Basic

/-!
# The Bancor exchange

The exchange behind the RAM market and the REX rent price. The contract computes its quotients
in doubles and truncates them; here a quotient is exact and truncated. A quotient whose divisor
is zero has no integer value, and its conversion aborts.

## Main definitions

* `getBancorOutput`, `getBancorInput`: the amount that comes out for one that goes in, and back
* `ExchangeState.directConvert`: a trade between the two connectors
-/

namespace EosioSystem

open Checked

def getBancorOutput (inpReserve outReserve inp : ℤ) : Except Error ℤ := do
  check (inpReserve + inp ≠ 0) "integer conversion of an infinite value"
  let out := (inp * outReserve).tdiv (inpReserve + inp)
  return if out < 0 then 0 else out

def getBancorInput (outReserve inpReserve out : ℤ) : Except Error ℤ := do
  check (outReserve - out ≠ 0) "integer conversion of an infinite value"
  let inp := (inpReserve * out).tdiv (outReserve - out)
  return if inp < 0 then 0 else inp

/-- The supply and the balances of the two connectors. -/
structure ExchangeState where
  supply : Asset
  base : Asset
  quote : Asset

/-- Trade an amount of one connector for the other. -/
def ExchangeState.directConvert (es : ExchangeState) (from_ : Asset) (to_ : Symbol) :
    Except Error (ExchangeState × Asset) := do
  check (from_.symbol ≠ to_) "cannot convert to the same symbol"
  if from_.symbol = es.base.symbol ∧ to_ = es.quote.symbol then
    let out ← getBancorOutput es.base.amount es.quote.amount from_.amount
    return ({ es with
      base := { es.base with amount := es.base.amount + from_.amount }
      quote := { es.quote with amount := es.quote.amount - out } }, ⟨out, to_⟩)
  else if from_.symbol = es.quote.symbol ∧ to_ = es.base.symbol then
    let out ← getBancorOutput es.quote.amount es.base.amount from_.amount
    return ({ es with
      quote := { es.quote with amount := es.quote.amount + from_.amount }
      base := { es.base with amount := es.base.amount - out } }, ⟨out, to_⟩)
  else .error "invalid conversion"

/-! ## Bounds of the output -/

/-- The output is the exact quotient rounded down. -/
theorem getBancorOutput_bounds {x y i out : ℤ} (hx : 0 ≤ x) (hy : 0 ≤ y) (hi : 0 ≤ i)
    (h : getBancorOutput x y i = .ok out) :
    0 ≤ out ∧ out * (x + i) ≤ i * y ∧ i * y < (out + 1) * (x + i) := by
  simp only [getBancorOutput, bind_eq_ok, check_eq_ok, pure_eq_ok] at h
  obtain ⟨-, hne, rfl⟩ := h
  have hpos : 0 < x + i := lt_of_le_of_ne (by omega) (Ne.symm hne)
  have hnum : 0 ≤ i * y := mul_nonneg hi hy
  have hq : 0 ≤ (i * y).tdiv (x + i) := Int.tdiv_nonneg hnum hpos.le
  rw [if_neg (not_lt.mpr hq), Int.tdiv_eq_ediv_of_nonneg hnum]
  refine ⟨Int.ediv_nonneg hnum hpos.le, Int.ediv_mul_le _ hpos.ne', ?_⟩
  exact Int.lt_ediv_add_one_mul_self _ hpos

/-- An output is never negative. -/
theorem getBancorOutput_nonneg {x y i out : ℤ} (h : getBancorOutput x y i = .ok out) :
    0 ≤ out := by
  simp only [getBancorOutput, bind_eq_ok, check_eq_ok, pure_eq_ok] at h
  obtain ⟨-, -, rfl⟩ := h
  split_ifs with h
  · exact le_rfl
  · exact not_lt.mp h

/-- The output never exceeds the reserve it comes from. -/
theorem getBancorOutput_le {x y i out : ℤ} (hx : 0 ≤ x) (hy : 0 ≤ y) (hi : 0 ≤ i)
    (h : getBancorOutput x y i = .ok out) : out ≤ y := by
  have hb := getBancorOutput_bounds hx hy hi h
  simp only [getBancorOutput, bind_eq_ok, check_eq_ok] at h
  obtain ⟨-, hne, -⟩ := h
  have hpos : 0 < x + i := lt_of_le_of_ne (by omega) (Ne.symm hne)
  by_contra hlt
  have h₁ : (y + 1) * (x + i) ≤ out * (x + i) := by
    apply mul_le_mul_of_nonneg_right _ hpos.le
    omega
  nlinarith [hb.2.1]

/-- A connector that is not empty sells less than all of the other one. -/
theorem getBancorOutput_lt {x y i out : ℤ} (hx : 0 < x) (hy : 0 < y) (hi : 0 ≤ i)
    (h : getBancorOutput x y i = .ok out) : out < y := by
  have hb := (getBancorOutput_bounds hx.le hy.le hi h).2.1
  have hlt : out * (x + i) < y * (x + i) :=
    hb.trans_lt (by linarith [mul_pos hx hy, mul_comm i y, mul_add y x i, mul_comm x y])
  exact lt_of_mul_lt_mul_right hlt (by omega)

/-- **A trade never lowers the product of the reserves.** -/
theorem product_le_of_getBancorOutput {x y i out : ℤ} (hx : 0 ≤ x) (hy : 0 ≤ y) (hi : 0 ≤ i)
    (h : getBancorOutput x y i = .ok out) : x * y ≤ (x + i) * (y - out) := by
  have hb := (getBancorOutput_bounds hx hy hi h).2.1
  linarith [hb, mul_comm out (x + i)]

/-- A trade of the base for the quote, when the two have different symbols. -/
theorem directConvert_base {es es' : ExchangeState} {inp out : Asset} {sym : Symbol}
    (hs : inp.symbol = es.base.symbol) (h : es.directConvert inp sym = .ok (es', out)) :
    getBancorOutput es.base.amount es.quote.amount inp.amount = .ok out.amount ∧
      es' = { es with
        base := { es.base with amount := es.base.amount + inp.amount }
        quote := { es.quote with amount := es.quote.amount - out.amount } } := by
  simp only [ExchangeState.directConvert, check_bind_eq_ok] at h
  obtain ⟨hne, h⟩ := h
  split_ifs at h with h₁ h₂
  · simp only [bind_eq_ok, pure_eq_ok, Prod.mk.injEq] at h
    obtain ⟨out', ho, rfl, rfl⟩ := h
    exact ⟨ho, rfl⟩
  · exact absurd (hs.trans h₂.2.symm) hne

/-- A trade of the quote for the base, when the two have different symbols. -/
theorem directConvert_quote {es es' : ExchangeState} {inp out : Asset} {sym : Symbol}
    (hs : sym = es.base.symbol) (h : es.directConvert inp sym = .ok (es', out)) :
    getBancorOutput es.quote.amount es.base.amount inp.amount = .ok out.amount ∧
      es' = { es with
        quote := { es.quote with amount := es.quote.amount + inp.amount }
        base := { es.base with amount := es.base.amount - out.amount } } := by
  simp only [ExchangeState.directConvert, check_bind_eq_ok] at h
  obtain ⟨hne, h⟩ := h
  split_ifs at h with h₁ h₂
  · exact absurd (h₁.1.trans hs.symm) hne
  · simp only [bind_eq_ok, pure_eq_ok, Prod.mk.injEq] at h
    obtain ⟨out', ho, rfl, rfl⟩ := h
    exact ⟨ho, rfl⟩

theorem getBancorOutput_error {x y i : ℤ} {e : Error} (h : getBancorOutput x y i = .error e) :
    e = "integer conversion of an infinite value" := by
  simp only [getBancorOutput, bind_eq_error, check_eq_error] at h
  rcases h with ⟨-, rfl⟩ | ⟨_, -, h⟩
  · rfl
  · exact absurd h pure_ne_error

/-- The ways a trade can fail. -/
theorem directConvert_error {es : ExchangeState} {inp : Asset} {sym : Symbol} {e : Error}
    (h : es.directConvert inp sym = .error e) :
    e ∈ ["cannot convert to the same symbol", "integer conversion of an infinite value",
      "invalid conversion"] := by
  rcases bind_eq_error.mp h with h | ⟨_, -, h⟩
  · simp [(check_eq_error.mp h).2]
  · split_ifs at h
    · rcases bind_eq_error.mp h with h | ⟨_, -, h⟩
      · simp [getBancorOutput_error h]
      · exact absurd h pure_ne_error
    · rcases bind_eq_error.mp h with h | ⟨_, -, h⟩
      · simp [getBancorOutput_error h]
      · exact absurd h pure_ne_error
    · cases h
      simp

end EosioSystem
