import Mathlib
import EosioSystem.Library.Table
import EosioSystem.Library.Checked

/-!
# Names, assets, block time and doubles

The value types of the contract. Amounts are integers, times are the block slots of the chain,
and the values the contract keeps as `double` are read over an ordered field `K`.

## Main definitions

* `Name`, `Symbol`, `Asset`: the chain's value types, with the accounts and symbols of the contract
* `BlockTimestamp`: a block slot, which fits in 32 bits, and the clocks derived from it
* `CMath`: the functions of the C math library that the contract calls
* `Error`: the text of a failed check
-/

namespace EosioSystem

/-- The text of a failed check; the transaction it belongs to has no effect. -/
abbrev Error := String

/-- An account name, by its 64-bit value. -/
structure Name where
  value : ℕ
  deriving DecidableEq, Repr

/-- The empty name, which no account has. -/
def Name.none : Name := ⟨0⟩

/-- The characters of a name: 60 bits in groups of five and a last group of four. -/
def Name.chars (n : Name) : List Char :=
  let charmap := ".12345abcdefghijklmnopqrstuvwxyz".toList
  let high := (List.range 12).map fun i => charmap.getD (n.value >>> (59 - 5 * i) % 32) '.'
  (high ++ [charmap.getD (n.value % 16) '.']).rdropWhile (· = '.')

/-- `name::to_string` -/
def Name.toString (n : Name) : String := String.ofList n.chars

/-- The order of names is the order of their values. -/
instance : LT Name := ⟨fun a b => a.value < b.value⟩

instance : DecidableLT Name := fun a b => inferInstanceAs (Decidable (a.value < b.value))

/-- A token symbol, by its raw value: the code and, in the low byte, the precision. -/
structure Symbol where
  raw : ℕ
  deriving DecidableEq, Repr

structure Asset where
  amount : ℤ
  symbol : Symbol
  deriving DecidableEq, Repr

/-- The letters of a symbol code: the bytes above the precision, up to the first zero. -/
def Symbol.code (s : Symbol) : String :=
  String.ofList (((List.range 7).map fun i => Char.ofNat (s.raw / 256 ^ (i + 1) % 256)).takeWhile
    fun c => c ≠ Char.ofNat 0)

/-- `asset::to_string`: the amount with as many decimals as the precision, and the symbol code. -/
def Asset.toString (a : Asset) : String :=
  let precision := a.symbol.raw % 256
  let digits := (Nat.repr a.amount.natAbs).toList
  let digits := List.replicate (precision + 1 - digits.length) '0' ++ digits
  let whole := String.ofList (digits.take (digits.length - precision))
  let decimals := String.ofList (digits.drop (digits.length - precision))
  (if a.amount < 0 then "-" else "") ++ whole ++
    (if precision = 0 then "" else "." ++ decimals) ++ " " ++ a.symbol.code

/-! ## The accounts and symbols of the contract -/

/-- `"eosio"_n`, the account of the contract itself. -/
def eosioAccount : Name := ⟨6138663577826885632⟩
/-- `"eosio.ram"_n` -/
def ramAccount : Name := ⟨6138663590285017088⟩
/-- `"eosio.ramfee"_n` -/
def ramfeeAccount : Name := ⟨6138663590285202592⟩
/-- `"eosio.stake"_n` -/
def stakeAccount : Name := ⟨6138663591134630912⟩
/-- `"eosio.names"_n` -/
def namesAccount : Name := ⟨6138663588137709568⟩
/-- `"eosio.rex"_n` -/
def rexAccount : Name := ⟨6138663590357893120⟩
/-- `"eosio.reserv"_n` -/
def reservAccount : Name := ⟨6138663590355447728⟩
/-- `"eosio.srpool"_n` -/
def srpoolAccount : Name := ⟨6138663591109011728⟩
/-- `"eosio.bpspay"_n` -/
def bpspayAccount : Name := ⟨6138663581950234080⟩
/-- `"eosio.saving"_n` -/
def savingAccount : Name := ⟨6138663590826845888⟩
/-- `"eosio.bpay"_n` -/
def bpayAccount : Name := ⟨6138663581940940800⟩
/-- `"eosio.vpay"_n` -/
def vpayAccount : Name := ⟨6138663592678359040⟩
/-- `"b1"_n` -/
def b1Account : Name := ⟨4053239664633446400⟩

/-- `symbol(symbol_code("REX"), 4)` -/
def rexSymbol : Symbol := ⟨1480937988⟩
/-- `symbol(symbol_code("RAM"), 0)` -/
def ramSymbol : Symbol := ⟨1296126464⟩
/-- `symbol(symbol_code("RAMCORE"), 4)` -/
def ramcoreSymbol : Symbol := ⟨4995142087184830980⟩

/-! ## Constants -/

def secondsPerYear : ℕ := 52 * 7 * 24 * 3600
def secondsPerDay : ℕ := 24 * 3600
def secondsPerHour : ℕ := 3600
/-- 21 producers with 12 blocks each -/
def blocksPerRound : ℕ := 21 * 12
def refundDelaySec : ℕ := 3 * secondsPerDay
def ramGiftBytes : ℤ := 1400
/-- 1.0 of a powerup ratio -/
def powerupFrac : ℤ := 1000000000000000

/-! ## Time -/

/-- A block time: a number of half seconds since the start of the year 2000, in 32 bits. -/
structure BlockTimestamp where
  slot : ℕ
  slot_lt : slot < 2 ^ 32
  deriving DecidableEq

namespace BlockTimestamp

instance : Preorder BlockTimestamp := Preorder.lift slot

instance : DecidableLE BlockTimestamp := fun a b => inferInstanceAs (Decidable (a.slot ≤ b.slot))

theorem slot_mod_lt (n : ℕ) : n % 2 ^ 32 < 2 ^ 32 := Nat.mod_lt n (by norm_num)

/-- The block time of a slot number, which wraps around at 32 bits. -/
def ofSlot (n : ℕ) : BlockTimestamp := ⟨n % 2 ^ 32, slot_mod_lt n⟩

/-- `block_timestamp_epoch`, in seconds -/
def epochSec : ℕ := 946684800

/-- `current_time_point().sec_since_epoch()` -/
def sec (t : BlockTimestamp) : ℕ := epochSec + t.slot / 2

/-- `current_time_point()`, in microseconds -/
def usec (t : BlockTimestamp) : ℕ := epochSec * 1000000 + t.slot * 500000

/-- The slots from `slot` to this block, in 32 bits. -/
def slotsSince (t : BlockTimestamp) (slot : ℕ) : ℕ := (t.slot + 2 ^ 32 - slot) % 2 ^ 32

theorem sec_mono {t t' : BlockTimestamp} (h : t ≤ t') : t.sec ≤ t'.sec :=
  Nat.add_le_add_left (Nat.div_le_div_right h) _

/-- A block time is far from the largest value of a 32-bit clock of seconds. -/
theorem sec_lt (t : BlockTimestamp) : t.sec < 3094168448 := by
  have := t.slot_lt
  unfold sec epochSec
  omega

theorem epochSec_le_sec (t : BlockTimestamp) : epochSec ≤ t.sec := Nat.le_add_right _ _

end BlockTimestamp

/-- The value that an `int64_t` has after arithmetic that may have wrapped around. -/
def int64 (x : ℤ) : ℤ := x.bmod (2 ^ 64)

theorem int64_of_mem {x : ℤ} (h₁ : -2 ^ 63 ≤ x) (h₂ : x < 2 ^ 63) : int64 x = x := by
  unfold int64
  exact Int.bmod_eq_of_le (by omega) (by omega)

theorem int64_lt (x : ℤ) : int64 x < 2 ^ 63 := by
  have h := Int.bmod_lt (x := x) (m := 2 ^ 64) (by norm_num)
  unfold int64
  omega

/-- Arithmetic that wraps around is off by a multiple of 2^64. -/
theorem int64_eq (x : ℤ) : ∃ k : ℤ, int64 x = x - k * 2 ^ 64 := by
  refine ⟨x.bdiv (2 ^ 64), ?_⟩
  have h := Int.bdiv_add_bmod x (2 ^ 64)
  have hm : ((2 ^ 64 : ℕ) : ℤ) = 2 ^ 64 := by norm_num
  rw [hm] at h
  unfold int64
  linarith

/-- `time_point_sec::maximum()`, later than any block time -/
def maximumTime : ℕ := 0xffffffff

/-- What an action can ask the chain: the time of its block and which accounts exist. -/
structure Env where
  now : BlockTimestamp
  isAccount : Name → Bool

/-! ## Doubles -/

/-- The functions of the C math library the contract calls on doubles, with the properties of
the real functions that the results use. -/
class CMath (K : Type) [Field K] [LinearOrder K] where
  pow : K → K → K
  exp : K → K
  log1p : K → K
  pow_pos : ∀ x y, 0 < x → 0 < pow x y
  exp_pos : ∀ x, 0 < exp x
  exp_le_one : ∀ x, x ≤ 0 → exp x ≤ 1

/-- A rational reading of the C math functions, for computations: exact for integer exponents of
`pow`, for `exp` at 0 and for `log1p` at 0. -/
instance : CMath ℚ where
  pow x y := x ^ ⌊y⌋
  exp x := 2 ^ ⌊x⌋
  log1p x := x
  pow_pos _ _ h := zpow_pos h _
  exp_pos _ := zpow_pos two_pos _
  exp_le_one x h := by
    have h₁ : (2 : ℚ) ^ ⌊x⌋ ≤ 2 ^ (0 : ℤ) :=
      zpow_le_zpow_right₀ one_le_two (Int.floor_nonpos h)
    simpa using h₁

/-- The conversion of a double to an integer rounds toward zero. -/
def truncate {K : Type} [Field K] [LinearOrder K] [FloorRing K] (x : K) : ℤ :=
  if 0 ≤ x then ⌊x⌋ else ⌈x⌉

end EosioSystem
