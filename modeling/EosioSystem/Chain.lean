import EosioSystem.Action

/-!
# The contract on its chain

The chain adds two things to the state of the contract: the accounts that exist, to which only
`newaccount` adds, and the block header that `onblock` reads, whose time never goes back.

## Main definitions

* `Chain`: the state of the contract with the accounts and the last block header
* `Chain.exec`, `ChainStep`: what an action does on the chain

## Main results

* `Chain.exec_eq_ok`: an action on the chain, taken apart
-/

namespace EosioSystem

open Checked

variable {K : Type}

variable (K) in
/-- The contract, the accounts of its chain, and the time in the last block header it has seen. -/
structure Chain where
  state : State K
  accounts : Name → Bool
  header : BlockTimestamp

/-- The account an action creates. -/
def Action.created : Action K → Option Name
  | newaccount _ newact => some newact
  | _ => none

/-- The time in the block header that comes with an action. -/
def Action.header : Action K → Option BlockTimestamp
  | onblock timestamp _ => some timestamp
  | _ => none

variable [Field K] [LinearOrder K] [FloorRing K] [CMath K]

namespace Chain

/-- An action on the chain, which creates an account once only and has block headers in order. -/
def exec (t : BlockTimestamp) (c : Chain K) (x : Action K) : Except Error (Chain K) := do
  check ((x.created.all fun n => !c.accounts n) = true) "that name is already taken"
  check ((x.header.all fun timestamp => decide (c.header ≤ timestamp)) = true)
    "block timestamp is not in order"
  let state ← x.exec ⟨t, c.accounts⟩ c.state
  return {
    state
    accounts := fun n => c.accounts n || decide (x.created = some n)
    header := x.header.getD c.header }

/-- What an action has found and left on the chain. -/
structure Executed (t : BlockTimestamp) (c : Chain K) (x : Action K) (c' : Chain K) : Prop where
  created : ∀ n, x.created = some n → c.accounts n = false
  header : ∀ timestamp, x.header = some timestamp → c.header ≤ timestamp
  state : x.exec ⟨t, c.accounts⟩ c.state = .ok c'.state
  accounts : ∀ n, c'.accounts n = true ↔ c.accounts n = true ∨ x.created = some n
  header_eq : c'.header = x.header.getD c.header

theorem exec_eq_ok {t : BlockTimestamp} {c c' : Chain K} {x : Action K}
    (h : c.exec t x = .ok c') : c.Executed t x c' := by
  simp only [exec, bind_eq_ok, check_eq_ok, exists_const, pure_eq_ok] at h
  obtain ⟨hc, hh, state, hs, rfl⟩ := h
  refine ⟨fun n hn => ?_, fun timestamp ht => ?_, hs, fun n => ?_, rfl⟩
  · rw [hn] at hc
    simpa using hc
  · rw [ht] at hh
    simpa using hh
  · simp

/-- Accounts are not deleted. -/
theorem Executed.accounts_mono {t : BlockTimestamp} {c c' : Chain K} {x : Action K}
    (h : c.Executed t x c') {n : Name} (hn : c.accounts n = true) : c'.accounts n = true :=
  (h.accounts n).mpr (.inl hn)

theorem Executed.header_le {t : BlockTimestamp} {c c' : Chain K} {x : Action K}
    (h : c.Executed t x c') : c.header ≤ c'.header := by
  rw [h.header_eq]
  cases hx : x.header with
  | none => exact le_rfl
  | some timestamp => exact h.header _ hx

end Chain

/-- One step of a run of the chain: an action, in a set that may depend on the state, that
succeeds. -/
def ChainStep (allowed : State K → Action K → Prop) (t : BlockTimestamp) (c c' : Chain K) : Prop :=
  ∃ x, allowed c.state x ∧ c.exec t x = .ok c'

/-- What the allowed actions do on the chain. -/
def Chain.execIn (allowed : State K → Action K → Bool) (t : BlockTimestamp) (x : Action K)
    (c : Chain K) : Except Error (Chain K) := do
  check (allowed c.state x = true) "not an action of this run"
  c.exec t x

/-- A run of the chain that can be computed. -/
theorem run_get_chain {init : Chain K → Prop} {allowed : State K → Action K → Bool}
    {l : List (BlockTimestamp × Action K)} {t : BlockTimestamp} {c : Chain K} (hc : init c)
    (h : (execAll (Chain.execIn allowed) t l c).isSome) :
    Run init (ChainStep fun s x => allowed s x) ((execAll (Chain.execIn allowed) t l c).get h).1
      ((execAll (Chain.execIn allowed) t l c).get h).2 :=
  run_get_execAll (fun _ x _ _ h =>
    ⟨x, (check_bind_eq_ok.mp h).1, (check_bind_eq_ok.mp h).2⟩) hc h

end EosioSystem
