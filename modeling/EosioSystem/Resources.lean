import EosioSystem.State

/-!
# Resource totals

The three places where the contract changes the NET and CPU weight of an account: delegations,
loans and powerup orders. Each adds to the row of the account, which may be new, checks that no
weight becomes negative, writes the limits of the chain unless an administrator manages them, and
deletes the row if it has become empty.

## Main definitions

* `ResourceState.changeTotals`: the middle part of `changebw`
* `ResourceState.updateResourceLimits`: `update_resource_limits`, for loans and `unstaketorex`
* `ResourceState.adjustResources`: `adjust_resources`, for powerup orders
* `State.setalimits`, `State.setacctram`, `State.setacctnet`, `State.setacctcpu`: the limits an
  administrator sets
-/

namespace EosioSystem

open Checked

/-- Which resources of an account an administrator manages: the bits of `flags1`. -/
structure Managed where
  ram : Bool
  net : Bool
  cpu : Bool

/-- The flags in the voters row of an account. -/
def VoteState.managed {K : Type} (vs : VoteState K) (a : Name) : Managed :=
  match vs.voters.find a with
  | some v => ⟨v.ramManaged, v.netManaged, v.cpuManaged⟩
  | none => ⟨false, false, false⟩

namespace ResourceState

variable (rs : ResourceState)

/-- `get_resource_limits` -/
def getLimits (a : Name) : Limits := (rs.limits.find a).getD ⟨-1, -1, -1⟩

/-- `set_resource_limits` -/
def setLimits (a : Name) (l : Limits) : ResourceState := { rs with limits := rs.limits.set a l }

/-- The row of an account after a change of its weights. -/
def addWeights (a : Name) (netDelta cpuDelta : ℤ) : Except Error UserResources := do
  let tot := (rs.userres.find a).getD .zero
  let tot := { tot with
    netWeight := tot.netWeight + netDelta
    cpuWeight := tot.cpuWeight + cpuDelta }
  check (0 ≤ tot.netWeight) "insufficient staked total net bandwidth"
  check (0 ≤ tot.cpuWeight) "insufficient staked total cpu bandwidth"
  return tot

/-- Write the limits of the weights that are not managed; `ram` is the RAM limit to write. -/
def writeLimits (m : Managed) (a : Name) (tot : UserResources) (ram : ℤ) : ResourceState :=
  if m.net && m.cpu then rs
  else
    let l := rs.getLimits a
    rs.setLimits a ⟨ram, if m.net then l.net else tot.netWeight,
      if m.cpu then l.cpu else tot.cpuWeight⟩

/-- Write a row, or delete it if it is empty. -/
def storeTotals (a : Name) (tot : UserResources) : ResourceState :=
  { rs with userres := if tot.isEmpty then rs.userres.erase a else rs.userres.set a tot }

/-- The RAM limit that goes with a row: at least the bytes bought and the gift. -/
def ramLimit (m : Managed) (a : Name) (tot : UserResources) : ℤ :=
  let l := rs.getLimits a
  if m.ram then l.ramBytes else max (tot.ramBytes + ramGiftBytes) l.ramBytes

/-- The totals of the receiver of a delegation. -/
def changeTotals (m : Managed) (receiver : Name) (netDelta cpuDelta : ℤ) :
    Except Error ResourceState := do
  let tot ← rs.addWeights receiver netDelta cpuDelta
  return (rs.writeLimits m receiver tot (rs.ramLimit m receiver tot)).storeTotals receiver tot

def updateResourceLimits (m : Managed) (receiver : Name) (deltaNet deltaCpu : ℤ) :
    Except Error ResourceState := do
  if deltaCpu = 0 ∧ deltaNet = 0 then return rs -- nothing to update
  check (rs.userres.find receiver ≠ none ∨ (0 ≤ deltaNet ∧ 0 ≤ deltaCpu))
    "logic error, should not occur"
  let tot ← rs.addWeights receiver deltaNet deltaCpu
  return (rs.writeLimits m receiver tot (rs.getLimits receiver).ramBytes).storeTotals receiver tot

def adjustResources (m : Managed) (account : Name) (netDelta cpuDelta : ℤ)
    (mustNotBeManaged : Bool) : Except Error ResourceState := do
  if netDelta = 0 ∧ cpuDelta = 0 then return rs
  let tot ← rs.addWeights account netDelta cpuDelta
  check ((mustNotBeManaged && (m.net || m.cpu)) = false)
    "something is managed which shouldn't be"
  return (rs.writeLimits m account tot (rs.ramLimit m account tot)).storeTotals account tot

/-- Add to the RAM of an account, and write its limit unless it is managed. -/
def addRam (m : Managed) (a : Name) (bytes : ℤ) : ResourceState :=
  let tot := (rs.userres.find a).getD .zero
  let tot := { tot with ramBytes := tot.ramBytes + bytes }
  let rs := { rs with userres := rs.userres.set a tot }
  if m.ram then rs
  else rs.setLimits a { rs.getLimits a with ramBytes := tot.ramBytes + ramGiftBytes }

end ResourceState

/-! ## Limits set by an administrator -/

variable {K : Type} [Field K]

namespace State

variable (s : State K)

omit [Field K] in
/-- `setalimits` -/
def setalimits (account : Name) (ram net cpu : ℤ) : Except Error (State K) := do
  check (s.res.userres.find account).isNone "only supports unlimited accounts"
  let m := s.vote.managed account
  check ((m.ram || m.net || m.cpu) = false)
    "cannot use setalimits on an account with managed resources"
  return { s with res := s.res.setLimits account ⟨ram, net, cpu⟩ }

/-- Switch a flag of an account, which may not have a voters row yet. -/
def setManaged (account : Name) (flag : VoterInfo K → VoterInfo K) : VoteState K :=
  s.vote.setVoter account (flag ((s.vote.voters.find account).getD .new))

omit [Field K] in
/-- The limits of an account; `get_resource_limits` fails for a name that no account has. -/
def currentLimits (env : Env) (account : Name) : Except Error Limits := do
  check (env.isAccount account = true) "unknown account"
  return s.res.getLimits account

/-- `setacctram` -/
def setacctram (env : Env) (account : Name) (ramBytes : Option ℤ) : Except Error (State K) := do
  let current ← s.currentLimits env account
  match ramBytes with
  | none =>
    check ((s.vote.managed account).ram = true) "RAM of account is already unmanaged"
    let ram := ramGiftBytes + (s.res.userres.find account).elim 0 UserResources.ramBytes
    return { s with
      vote := s.setManaged account fun v => { v with ramManaged := false }
      res := s.res.setLimits account { current with ramBytes := ram } }
  | some ram =>
    check (0 ≤ ram) "not allowed to set RAM limit to unlimited"
    return { s with
      vote := s.setManaged account fun v => { v with ramManaged := true }
      res := s.res.setLimits account { current with ramBytes := ram } }

/-- `setacctnet` -/
def setacctnet (env : Env) (account : Name) (netWeight : Option ℤ) : Except Error (State K) := do
  let current ← s.currentLimits env account
  match netWeight with
  | none =>
    check ((s.vote.managed account).net = true) "Network bandwidth of account is already unmanaged"
    let net := (s.res.userres.find account).elim 0 UserResources.netWeight
    return { s with
      vote := s.setManaged account fun v => { v with netManaged := false }
      res := s.res.setLimits account { current with net } }
  | some net =>
    check (-1 ≤ net) "invalid value for net_weight"
    return { s with
      vote := s.setManaged account fun v => { v with netManaged := true }
      res := s.res.setLimits account { current with net } }

/-- `setacctcpu` -/
def setacctcpu (env : Env) (account : Name) (cpuWeight : Option ℤ) : Except Error (State K) := do
  let current ← s.currentLimits env account
  match cpuWeight with
  | none =>
    check ((s.vote.managed account).cpu = true) "CPU bandwidth of account is already unmanaged"
    let cpu := (s.res.userres.find account).elim 0 UserResources.cpuWeight
    return { s with
      vote := s.setManaged account fun v => { v with cpuManaged := false }
      res := s.res.setLimits account { current with cpu } }
  | some cpu =>
    check (-1 ≤ cpu) "invalid value for cpu_weight"
    return { s with
      vote := s.setManaged account fun v => { v with cpuManaged := true }
      res := s.res.setLimits account { current with cpu } }

/-! ### What a change of a limit is -/

variable {s} {s' : State K} {env : Env} {account : Name} {value : Option ℤ}

/-- Either the flag is switched off and the limit is that of the books, or it is switched on and
the limit is the given one. -/
structure AdminChange (env : Env) (account : Name) (managed : Bool) (value : Option ℤ)
    (own : ℤ) (m : Bool) (limit : ℤ) : Prop where
  account : env.isAccount account = true
  flag : m = value.isSome
  managed_of_none : value = none → managed = true
  limit_eq : limit = value.getD own

theorem setacctram_eq_ok (h : s.setacctram env account value = .ok s') :
    ∃ m ram, s' = { s with
      vote := s.setManaged account fun v => { v with ramManaged := m }
      res := s.res.setLimits account { s.res.getLimits account with ramBytes := ram } } ∧
    AdminChange env account (s.vote.managed account).ram value
      (ramGiftBytes + (s.res.userres.find account).elim 0 UserResources.ramBytes) m ram := by
  simp only [setacctram, currentLimits, bind_eq_ok, check_eq_ok, exists_const, pure_eq_ok] at h
  obtain ⟨_, ⟨ha, rfl⟩, h⟩ := h
  cases value with
  | none =>
    simp only [bind_eq_ok, check_eq_ok, exists_const, pure_eq_ok] at h
    obtain ⟨hm, rfl⟩ := h
    exact ⟨_, _, rfl, ha, rfl, fun _ => hm, rfl⟩
  | some ram =>
    simp only [bind_eq_ok, check_eq_ok, exists_const, pure_eq_ok] at h
    obtain ⟨-, rfl⟩ := h
    exact ⟨_, _, rfl, ha, rfl, fun hn => absurd hn (Option.some_ne_none _), rfl⟩

theorem setacctnet_eq_ok (h : s.setacctnet env account value = .ok s') :
    ∃ m net, s' = { s with
      vote := s.setManaged account fun v => { v with netManaged := m }
      res := s.res.setLimits account { s.res.getLimits account with net } } ∧
    AdminChange env account (s.vote.managed account).net value
      ((s.res.userres.find account).elim 0 UserResources.netWeight) m net := by
  simp only [setacctnet, currentLimits, bind_eq_ok, check_eq_ok, exists_const, pure_eq_ok] at h
  obtain ⟨_, ⟨ha, rfl⟩, h⟩ := h
  cases value with
  | none =>
    simp only [bind_eq_ok, check_eq_ok, exists_const, pure_eq_ok] at h
    obtain ⟨hm, rfl⟩ := h
    exact ⟨_, _, rfl, ha, rfl, fun _ => hm, rfl⟩
  | some net =>
    simp only [bind_eq_ok, check_eq_ok, exists_const, pure_eq_ok] at h
    obtain ⟨-, rfl⟩ := h
    exact ⟨_, _, rfl, ha, rfl, fun hn => absurd hn (Option.some_ne_none _), rfl⟩

theorem setacctcpu_eq_ok (h : s.setacctcpu env account value = .ok s') :
    ∃ m cpu, s' = { s with
      vote := s.setManaged account fun v => { v with cpuManaged := m }
      res := s.res.setLimits account { s.res.getLimits account with cpu } } ∧
    AdminChange env account (s.vote.managed account).cpu value
      ((s.res.userres.find account).elim 0 UserResources.cpuWeight) m cpu := by
  simp only [setacctcpu, currentLimits, bind_eq_ok, check_eq_ok, exists_const, pure_eq_ok] at h
  obtain ⟨_, ⟨ha, rfl⟩, h⟩ := h
  cases value with
  | none =>
    simp only [bind_eq_ok, check_eq_ok, exists_const, pure_eq_ok] at h
    obtain ⟨hm, rfl⟩ := h
    exact ⟨_, _, rfl, ha, rfl, fun _ => hm, rfl⟩
  | some cpu =>
    simp only [bind_eq_ok, check_eq_ok, exists_const, pure_eq_ok] at h
    obtain ⟨-, rfl⟩ := h
    exact ⟨_, _, rfl, ha, rfl, fun hn => absurd hn (Option.some_ne_none _), rfl⟩

end State

end EosioSystem
