import EosioSystem.Basic

/-!
# The core token

The balances of the core token, which the contract moves by inline transfers. A transfer moves
exactly the amount sent, and fails when it would be from an account to itself, of nothing, or of
more than the sender has. An inline action runs after the action that sends it, but the contract
never reads a balance, so a transfer is modelled where it is sent.

## Main results

* `balance_transfer`: what a transfer does to every balance
* `supply_transfer`, `total_transfer`: a transfer creates and destroys nothing
-/

namespace EosioSystem

open Checked

structure Token where
  symbol : Symbol
  balances : Table Name ℤ
  supply : ℤ

namespace Token

/-- The balance of an account. -/
def balance (t : Token) (a : Name) : ℤ := (t.balances.find a).getD 0

/-- Add to a balance, which may be the first of its account. -/
def addBalance (t : Token) (a : Name) (quantity : ℤ) : Token :=
  { t with balances := t.balances.set a (t.balance a + quantity) }

def transfer (t : Token) (sender receiver : Name) (quantity : ℤ) : Except Error Token := do
  check (sender ≠ receiver) "cannot transfer to self"
  check (0 < quantity) "must transfer positive quantity"
  check (quantity ≤ t.balance sender) "overdrawn balance"
  return (t.addBalance sender (-quantity)).addBalance receiver quantity

/-- New tokens for the issuer. -/
def issue (t : Token) (issuer : Name) (quantity : ℤ) : Except Error Token := do
  check (0 < quantity) "must issue positive quantity"
  return { t.addBalance issuer quantity with supply := t.supply + quantity }

/-- The sum of all balances. -/
def total (t : Token) : ℤ := t.balances.sum fun _ b => b

@[simp] theorem balance_addBalance (t : Token) (a b : Name) (q : ℤ) :
    (t.addBalance a q).balance b = t.balance b + if b = a then q else 0 := by
  unfold addBalance balance
  rw [Table.find_set]
  split_ifs with h
  · simp [h]
  · simp

@[simp] theorem supply_addBalance (t : Token) (a : Name) (q : ℤ) :
    (t.addBalance a q).supply = t.supply := rfl

@[simp] theorem total_addBalance (t : Token) (a : Name) (q : ℤ) :
    (t.addBalance a q).total = t.total + q := by
  unfold total addBalance balance
  rw [Table.sum_set_elim]
  cases t.balances.find a with
  | none => simp
  | some b => simp; ring

/-- A transfer is between different accounts, of a positive amount that the sender has. -/
theorem transfer_eq_ok {t t' : Token} {a b : Name} {q : ℤ} (h : t.transfer a b q = .ok t') :
    a ≠ b ∧ 0 < q ∧ q ≤ t.balance a ∧ t' = (t.addBalance a (-q)).addBalance b q := by
  simp only [transfer, check_bind_eq_ok, pure_eq_ok] at h
  obtain ⟨h₁, h₂, h₃, rfl⟩ := h
  exact ⟨h₁, h₂, h₃, rfl⟩

/-- **A transfer** takes the amount from the sender and gives it to the receiver. -/
theorem balance_transfer {t t' : Token} {a b : Name} {q : ℤ} (h : t.transfer a b q = .ok t')
    (c : Name) :
    t'.balance c = t.balance c + (if c = a then -q else 0) + if c = b then q else 0 := by
  obtain ⟨-, -, -, rfl⟩ := transfer_eq_ok h
  simp

theorem supply_transfer {t t' : Token} {a b : Name} {q : ℤ} (h : t.transfer a b q = .ok t') :
    t'.supply = t.supply := by
  obtain ⟨-, -, -, rfl⟩ := transfer_eq_ok h
  rfl

theorem total_transfer {t t' : Token} {a b : Name} {q : ℤ} (h : t.transfer a b q = .ok t') :
    t'.total = t.total := by
  obtain ⟨-, -, -, rfl⟩ := transfer_eq_ok h
  simp

/-- The ways a transfer can fail. -/
theorem transfer_error {t : Token} {a b : Name} {q : ℤ} {e : Error}
    (h : t.transfer a b q = .error e) :
    e ∈ ["cannot transfer to self", "must transfer positive quantity", "overdrawn balance"] := by
  simp only [transfer, bind_eq_error, check_eq_error, check_eq_ok, exists_const] at h
  rcases h with ⟨-, rfl⟩ | ⟨-, ⟨-, rfl⟩ | ⟨-, ⟨-, rfl⟩ | ⟨-, h⟩⟩⟩
  · simp
  · simp
  · simp
  · exact absurd h pure_ne_error

/-- A transfer that cannot fail. -/
theorem transfer_isOk {t : Token} {a b : Name} {q : ℤ} (h₁ : a ≠ b) (h₂ : 0 < q)
    (h₃ : q ≤ t.balance a) : t.transfer a b q = .ok ((t.addBalance a (-q)).addBalance b q) := by
  simp [transfer, check_of, h₁, h₂, h₃]

theorem transfer_avoids {bad : List Error}
    (h : ∀ e ∈ ["cannot transfer to self", "must transfer positive quantity",
      "overdrawn balance"], e ∉ bad) (t : Token) (a b : Name) (q : ℤ) :
    Avoids bad (t.transfer a b q) := .of_error (fun _ => transfer_error) h

end Token

end EosioSystem
