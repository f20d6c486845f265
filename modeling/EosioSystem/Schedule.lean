import EosioSystem.Library.Ranking
import EosioSystem.Registration

/-!
# The elected schedule

Once a minute a block proposes a schedule of up to 21 producers: first those that the staking pools
rank highest, as many as the transition to the pools has come to, and then those with the most votes
of the others. The schedule is sorted by location, and it never becomes shorter.

## Main definitions

* `ProducerKeys`: the columns of a producer that only the schedule reads
* `State.poolProducers`, `State.topProducers`: who is elected
* `State.updateElectedProducers`: `update_elected_producers`
* `Elected`: what a schedule has to be
* `ScheduleChain`, `ScheduleChain.onblock`: the blocks that propose schedules

## Main results

* `topActiveProducers_eq`: the ranking of the pools
* `State.elected_topProducers`: **who is elected**
* `elected_of_run`: **the schedules of a run** are well formed
-/

namespace EosioSystem

open Checked Ranking

variable {K : Type}

/-! ## The index of the producers -/

/-- The columns of a producer that only the schedule reads: its location, and its
`get_producer_authority`. -/
structure ProducerKeys (A : Type) where
  location : ℕ
  authority : A

section

variable [Field K] [LinearOrder K]

/-- `by_votes`: the active producers with the most votes come first. -/
def ProducerInfo.byVotes (p : ProducerInfo K) : K :=
  if p.isActive then -p.totalVotes else p.totalVotes

/-- The order of the index `prototalvote`. -/
def prototalvoteLe (x y : Name × ProducerInfo K) : Prop :=
  toLex (x.2.byVotes, x.1.value) ≤ toLex (y.2.byVotes, y.1.value)

instance : DecidableRel (prototalvoteLe (K := K)) := fun _ _ => inferInstanceAs (Decidable (_ ≤ _))

instance : Std.Total (prototalvoteLe (K := K)) := ⟨fun _ _ => le_total _ _⟩

instance : IsTrans (Name × ProducerInfo K) prototalvoteLe := ⟨fun _ _ _ h h' => le_trans h h'⟩

/-- The index `prototalvote`. -/
def prototalvote (producers : Table Name (ProducerInfo K)) : List (Name × ProducerInfo K) :=
  producers.rows.insertionSort prototalvoteLe

end

namespace State

/-- The rows of some producers. -/
def getProducers (producers : Table Name (ProducerInfo K)) :
    List Name → Except Error (List (Name × ProducerInfo K))
  | [] => return []
  | p :: l => do
    let prod ← require (producers.find p) "unable to find key"
    let rest ← getProducers producers l
    return (p, prod) :: rest

variable [Field K] [LinearOrder K] (s : State K)

/-- The producers that the pools elect at the time of a block, in their order. -/
def poolProducers (blockTime : BlockTimestamp) : List Name :=
  match s.pools.state with
  | none => []
  | some st =>
    let n := st.transition blockTime.slot 21
    if 1 ≤ n then topActiveProducers s.pools.totals n.toNat else []

/-- The producers that are elected, in the order in which they are found. -/
def topProducers (blockTime : BlockTimestamp) : Except Error (List (Name × ProducerInfo K)) := do
  let pool := s.poolProducers blockTime
  let top ← getProducers s.vote.producers pool
  let sorted := pool.insertionSort fun a b => a.value ≤ b.value
  return fill (fun x => decide (0 < x.2.totalVotes) && x.2.isActive)
    (fun x => decide (lowerBound Name.value x.1 sorted = some x.1)) 21
    (prototalvote s.vote.producers) top

/-- `update_elected_producers`: the schedule to propose, unless nobody is elected or the schedule
would become shorter. -/
def updateElectedProducers {A : Type} (keys : Name → ProducerKeys A) (blockTime : BlockTimestamp)
    (lastScheduleSize : ℕ) : Except Error (Option (List (Name × A))) := do
  let top ← s.topProducers blockTime
  if top.length = 0 ∨ top.length < lastScheduleSize then return none
  let sorted := top.insertionSort fun x y => (keys x.1).location ≤ (keys y.1).location
  return some (sorted.map fun x => (x.1, (keys x.1).authority))

end State

/-! ## The ranking of the pools -/

section

variable [Field K] [LinearOrder K] {totals : Table Name (TotalPoolVotes K)} {n : ℕ}

/-- The order of the index `byvotes`. -/
def byvotesLe (x y : Name × TotalPoolVotes K) : Prop :=
  toLex (x.2.byVotes, x.1.value) ≤ toLex (y.2.byVotes, y.1.value)

instance : DecidableRel (byvotesLe (K := K)) := fun _ _ => inferInstanceAs (Decidable (_ ≤ _))

instance : Std.Total (byvotesLe (K := K)) := ⟨fun _ _ => le_total _ _⟩

instance : IsTrans (Name × TotalPoolVotes K) byvotesLe := ⟨fun _ _ _ h h' => le_trans h h'⟩

/-- The rows of the active producers with votes, the highest first. -/
def rankedProducers (totals : Table Name (TotalPoolVotes K)) : List (Name × TotalPoolVotes K) :=
  (totals.rows.insertionSort byvotesLe).filter fun x => decide (0 < x.2.votes ∧ x.2.active)

/-- **The producers that are elected by the pools** are the first of the active ones with votes. -/
theorem topActiveProducers_eq [IsStrictOrderedRing K]
    (h : ∀ p t, totals.find p = some t → 0 ≤ t.votes) (n : ℕ) :
    topActiveProducers totals n = ((rankedProducers totals).take n).map Prod.fst := by
  have hsorted : (totals.rows.insertionSort byvotesLe).Pairwise byvotesLe :=
    List.pairwise_insertionSort _ _
  have hfirst := takeWhile_eq_filter_of_pairwise
    (p := fun x : Name × TotalPoolVotes K => decide (0 < x.2.votes ∧ x.2.active))
    (hsorted.imp_of_mem fun {x y} hx hy hle hp => ?_)
  · exact congrArg (fun l => (l.take n).map Prod.fst) hfirst
  · -- the key of an active producer with votes is negative, that of the others is not
    obtain ⟨hpos, hact⟩ := of_decide_eq_true hp
    have hkey : x.2.byVotes ≤ y.2.byVotes := by
      rcases Prod.Lex.toLex_le_toLex.mp hle with hlt | ⟨heq, -⟩
      · exact hlt.le
      · exact heq.le
    have hx₀ := h x.1 x.2 (Table.mem_rows.mp ((List.mem_insertionSort _).mp hx))
    rw [TotalPoolVotes.byVotes, TotalPoolVotes.byVotes, if_pos hact] at hkey
    split_ifs at hkey with hx'
    · exact decide_eq_true ⟨by linarith, hx'⟩
    · linarith

theorem nodup_topActiveProducers (totals : Table Name (TotalPoolVotes K)) (n : ℕ) :
    (topActiveProducers totals n).Nodup := by
  have hsorted := ((List.perm_insertionSort byvotesLe totals.rows).map Prod.fst).nodup_iff.mpr
    totals.nodup_keys
  exact hsorted.sublist (((List.take_sublist _ _).trans (List.takeWhile_sublist _)).map Prod.fst)

theorem length_topActiveProducers_le (totals : Table Name (TotalPoolVotes K)) (n : ℕ) :
    (topActiveProducers totals n).length ≤ n := by
  rw [topActiveProducers, List.length_map, List.length_take]
  exact min_le_left _ _

theorem active_of_mem_topActiveProducers {p : Name} (h : p ∈ topActiveProducers totals n) :
    ∃ t, totals.find p = some t ∧ 0 < t.votes ∧ t.active = true := by
  obtain ⟨r, hr, rfl⟩ := List.mem_map.mp h
  have hr' := List.mem_of_mem_take hr
  have htest := List.mem_takeWhile_imp hr'
  have hmem := (List.mem_insertionSort _).mp ((List.takeWhile_sublist _).mem hr')
  exact ⟨r.2, Table.mem_rows.mp hmem, of_decide_eq_true htest⟩

/-! ## What is elected -/

namespace State

omit [Field K] [LinearOrder K] in
theorem getProducers_eq_ok {producers : Table Name (ProducerInfo K)} {l : List Name}
    (h : ∀ p ∈ l, ∃ prod, producers.find p = some prod) :
    ∃ rows, getProducers producers l = .ok rows ∧ rows.map Prod.fst = l ∧
      ∀ x ∈ rows, producers.find x.1 = some x.2 := by
  induction l with
  | nil => exact ⟨[], rfl, rfl, by simp⟩
  | cons p l ih =>
    obtain ⟨prod, hf⟩ := h p List.mem_cons_self
    obtain ⟨rows, hr, hl, hrows⟩ := ih fun q hq => h q (List.mem_cons_of_mem p hq)
    refine ⟨(p, prod) :: rows, ?_, by rw [List.map_cons, hl], ?_⟩
    · simp only [getProducers, bind_eq_ok, require_eq_ok, pure_eq_ok]
      exact ⟨prod, hf, rows, hr, rfl⟩
    · intro x hx
      rcases List.mem_cons.mp hx with rfl | hx
      · exact hf
      · exact hrows x hx

/-- The number of producers that the pools elect at the time of a block. -/
def poolSeats (s : State K) (blockTime : BlockTimestamp) : ℕ :=
  s.pools.state.elim 0 fun st => (st.transition blockTime.slot 21).toNat

end State

/-- What a schedule has to be: at most 21 active producers, none of them twice; the first of those
that the pools rank, as many as the pools elect; and no other producer has more votes than those who
are elected for them. -/
structure Elected (s : State K) (blockTime : BlockTimestamp) (schedule : List Name) : Prop where
  nodup : schedule.Nodup
  length_le : schedule.length ≤ 21
  active : ∀ p ∈ schedule, ∃ prod, s.vote.producers.find p = some prod ∧ prod.isActive = true
  pools : ∀ x ∈ (rankedProducers s.pools.totals).take (s.poolSeats blockTime), x.1 ∈ schedule
  votes : ∀ p ∈ schedule,
    p ∉ ((rankedProducers s.pools.totals).take (s.poolSeats blockTime)).map Prod.fst →
    ∃ prod, s.vote.producers.find p = some prod ∧ 0 < prod.totalVotes ∧
      ∀ q other, s.vote.producers.find q = some other → other.isActive = true → q ∉ schedule →
        other.totalVotes ≤ prod.totalVotes

namespace State

variable [IsStrictOrderedRing K] {s : State K} {blockTime : BlockTimestamp}

theorem poolProducers_eq (h : Ranked s) (blockTime : BlockTimestamp) :
    s.poolProducers blockTime =
      ((rankedProducers s.pools.totals).take (s.poolSeats blockTime)).map Prod.fst := by
  unfold poolProducers poolSeats
  cases hst : s.pools.state with
  | none => rfl
  | some st =>
    dsimp only [Option.elim_some]
    split_ifs with hn
    · exact topActiveProducers_eq h.nonneg _
    · rw [Int.toNat_eq_zero.mpr (by omega), List.take_zero, List.map_nil]

omit [IsStrictOrderedRing K] in
theorem length_poolProducers_le (s : State K) (blockTime : BlockTimestamp) :
    (s.poolProducers blockTime).length ≤ 21 := by
  unfold poolProducers
  split
  · exact Nat.zero_le _
  · rename_i st hst
    have hmax : (0 : ℤ) ≤ 21 := by norm_num
    have hn := (st.transition_mem blockTime.slot hmax).2
    dsimp only
    split_ifs
    · exact (length_topActiveProducers_le _ _).trans (by omega)
    · exact Nat.zero_le _

omit [IsStrictOrderedRing K] in
theorem nodup_poolProducers (s : State K) (blockTime : BlockTimestamp) :
    (s.poolProducers blockTime).Nodup := by
  unfold poolProducers
  split
  · exact List.nodup_nil
  · dsimp only
    split_ifs
    · exact nodup_topActiveProducers _ _
    · exact List.nodup_nil

omit [IsStrictOrderedRing K] in
/-- Whom the pools elect is an active producer. -/
theorem active_of_mem_poolProducers (h : Ranked s) {p : Name} (hp : p ∈ s.poolProducers blockTime) :
    ∃ prod, s.vote.producers.find p = some prod ∧ prod.isActive = true := by
  obtain ⟨t, ht, hact⟩ : ∃ t, s.pools.totals.find p = some t ∧ t.active = true := by
    unfold poolProducers at hp
    split at hp
    · cases hp
    · dsimp only at hp
      split_ifs at hp
      · obtain ⟨t, ht, -, hact⟩ := active_of_mem_topActiveProducers hp
        exact ⟨t, ht, hact⟩
      · cases hp
  have hrow := h.rows p
  rw [ht, Option.map_some, hact, rank] at hrow
  obtain ⟨prod, hf, hprod⟩ := Option.bind_eq_some_iff.mp hrow.symm
  refine ⟨prod, hf, ?_⟩
  split_ifs at hprod
  exact Option.some.inj hprod

omit [Field K] [LinearOrder K] [IsStrictOrderedRing K] in
/-- The binary search in the sorted names finds what is there. -/
theorem lowerBound_names_iff (l : List Name) (p : Name) :
    lowerBound Name.value p (l.insertionSort fun a b => a.value ≤ b.value) = some p ↔ p ∈ l := by
  have hkey : Function.Injective Name.value := fun a b hab => by
    cases a
    cases b
    exact congrArg _ hab
  rw [lowerBound_eq_some_iff hkey (List.pairwise_insertionSort _ _), List.mem_insertionSort]

omit [IsStrictOrderedRing K] in
theorem mem_prototalvote {producers : Table Name (ProducerInfo K)} {x : Name × ProducerInfo K} :
    x ∈ prototalvote producers ↔ producers.find x.1 = some x.2 :=
  (List.mem_insertionSort _).trans Table.mem_rows

omit [IsStrictOrderedRing K] in
theorem nodup_prototalvote (producers : Table Name (ProducerInfo K)) :
    (prototalvote producers).Nodup :=
  (List.perm_insertionSort _ _).nodup_iff.mpr (.of_map _ producers.nodup_keys)

/-- **Who is elected**: the election succeeds, and finds a schedule. -/
theorem elected_topProducers (h : Ranked s) (blockTime : BlockTimestamp) :
    ∃ top, s.topProducers blockTime = .ok top ∧ Elected s blockTime (top.map Prod.fst) := by
  set pool := s.poolProducers blockTime with hpool
  have hrow : ∀ p ∈ pool, ∃ prod, s.vote.producers.find p = some prod := fun p hp =>
    (active_of_mem_poolProducers h hp).imp fun _ => And.left
  obtain ⟨rows, hrows, hl, hfind⟩ := getProducers_eq_ok hrow
  let ok := fun x : Name × ProducerInfo K => decide (0 < x.2.totalVotes) && x.2.isActive
  let taken := fun x : Name × ProducerInfo K => decide (lowerBound Name.value x.1
    (pool.insertionSort fun a b => a.value ≤ b.value) = some x.1)
  set top := fill ok taken 21 (prototalvote s.vote.producers) rows with htop
  refine ⟨top, ?_, ?_⟩
  · simp only [topProducers, bind_eq_ok, pure_eq_ok]
    exact ⟨rows, hrows, rfl⟩
  have htaken (x : Name × ProducerInfo K) : taken x = true ↔ x.1 ∈ pool := by
    rw [decide_eq_true_iff, lowerBound_names_iff]
  have htopfind : ∀ x ∈ top, s.vote.producers.find x.1 = some x.2 := fun x hx => by
    rcases mem_of_mem_fill hx with hmem | ⟨hmem, -⟩
    · exact hfind x hmem
    · exact mem_prototalvote.mp hmem
  have hrowspool : ∀ x ∈ rows, x.1 ∈ pool := fun x hx => hl ▸ List.mem_map_of_mem hx
  have hpooltop : ∀ p ∈ pool, p ∈ top.map Prod.fst := fun p hp => by
    rw [← hl] at hp
    obtain ⟨x, hx, rfl⟩ := List.mem_map.mp hp
    rw [htop, fill_eq, List.map_append]
    exact List.mem_append_left _ (List.mem_map_of_mem hx)
  refine ⟨?_, ?_, ?_, ?_, ?_⟩
  · -- two rows of one producer are the same row
    refine List.Nodup.map_on (fun x hx y hy hxy => ?_) (nodup_fill ?_
      (nodup_prototalvote _) fun x hx => ?_)
    · have hx' := htopfind x hx
      rw [hxy, htopfind y hy] at hx'
      exact Prod.ext hxy (Option.some.inj hx').symm
    · exact .of_map Prod.fst (hl ▸ nodup_poolProducers s blockTime)
    · exact (htaken x).mpr (hrowspool x hx)
  · rw [List.length_map]
    refine length_fill_le ?_
    have hlen : (rows.map Prod.fst).length ≤ 21 := hl ▸ length_poolProducers_le s blockTime
    rwa [List.length_map] at hlen
  · intro p hp
    obtain ⟨x, hx, rfl⟩ := List.mem_map.mp hp
    rcases mem_of_mem_fill hx with hmem | ⟨-, hok, -⟩
    · exact active_of_mem_poolProducers h (hrowspool x hmem)
    · exact ⟨x.2, htopfind x hx, (Bool.and_eq_true_iff.mp hok).2⟩
  · intro x hx
    refine hpooltop x.1 ?_
    rw [hpool, poolProducers_eq h]
    exact List.mem_map_of_mem hx
  · intro p hp hnot
    rw [← poolProducers_eq h, ← hpool] at hnot
    obtain ⟨x, hx, rfl⟩ := List.mem_map.mp hp
    have hxrows : x ∉ rows := fun hmem => hnot (hrowspool x hmem)
    obtain ⟨hvotes, hact⟩ := Bool.and_eq_true_iff.mp
      ((mem_of_mem_fill hx).resolve_left hxrows).2.1
    refine ⟨x.2, htopfind x hx, of_decide_eq_true hvotes, fun q other hq hqact hqtop => ?_⟩
    -- who is left out comes later in the index
    have hle : prototalvoteLe x (q, other) := by
      refine rel_of_mem_fill (List.pairwise_insertionSort prototalvoteLe _) hx hxrows
        (mem_prototalvote.mpr hq) ?_ fun hmem => hqtop (List.mem_map_of_mem hmem)
      exact Bool.eq_false_iff.mpr fun ht => hqtop (hpooltop q ((htaken (q, other)).mp ht))
    have hkeys : x.2.byVotes ≤ other.byVotes := by
      rcases Prod.Lex.toLex_le_toLex.mp hle with hlt | ⟨heq, -⟩
      · exact hlt.le
      · exact heq.le
    rw [ProducerInfo.byVotes, ProducerInfo.byVotes, if_pos hact, if_pos hqact] at hkeys
    exact neg_le_neg_iff.mp hkeys

end State

/-- The order of a schedule does not matter. -/
theorem Elected.perm {s : State K} {blockTime : BlockTimestamp} {l l' : List Name}
    (h : Elected s blockTime l) (hp : l.Perm l') : Elected s blockTime l' := by
  refine ⟨hp.nodup_iff.mp h.nodup, hp.length_eq ▸ h.length_le,
    fun p hm => h.active p (hp.mem_iff.mpr hm), fun x hx => hp.mem_iff.mp (h.pools x hx),
    fun p hm hnot => ?_⟩
  obtain ⟨prod, hf, hpos, hle⟩ := h.votes p (hp.mem_iff.mpr hm) hnot
  exact ⟨prod, hf, hpos, fun q other hq ha hout =>
    hle q other hq ha fun hm => hout (hp.mem_iff.mp hm)⟩

/-- The schedule that a block proposes, with the state in which its producers are elected, the time
of the block, and the size of the schedule that has been accepted last. -/
structure Proposal (K A : Type) where
  state : State K
  blockTime : BlockTimestamp
  lastScheduleSize : ℕ
  producers : List (Name × A)

/-- A proposal is one of elected producers, and is not shorter than the schedule before. -/
structure Proposal.Sound {A : Type} (e : Proposal K A) : Prop where
  size : e.lastScheduleSize ≤ e.producers.length
  elected : Elected e.state e.blockTime (e.producers.map Prod.fst)

namespace State

variable {A : Type} {s : State K} {blockTime : BlockTimestamp}

/-- **The election never fails**, and proposes producers that are elected. -/
theorem exists_updateElectedProducers [IsStrictOrderedRing K] (h : Ranked s)
    (keys : Name → ProducerKeys A) (blockTime : BlockTimestamp) (lastScheduleSize : ℕ) :
    ∃ r, s.updateElectedProducers keys blockTime lastScheduleSize = .ok r ∧
      ∀ producers, r = some producers →
        (⟨s, blockTime, lastScheduleSize, producers⟩ : Proposal K A).Sound := by
  obtain ⟨top, htop, helected⟩ := elected_topProducers h blockTime
  unfold updateElectedProducers
  rw [htop]
  by_cases hlen : top.length = 0 ∨ top.length < lastScheduleSize
  · refine ⟨none, ?_, fun producers hp => by cases hp⟩
    exact if_pos hlen
  · have hperm := List.perm_insertionSort
      (fun x y : Name × ProducerInfo K => (keys x.1).location ≤ (keys y.1).location) top
    refine ⟨_, if_neg hlen, fun producers hp => ?_⟩
    cases hp
    refine ⟨?_, ?_⟩
    · dsimp only
      rw [List.length_map, hperm.length_eq]
      omega
    · dsimp only
      rw [List.map_map]
      exact helected.perm (hperm.map Prod.fst).symm

/-- The state in which a block elects producers, if it does. -/
def electionState (now timestamp : BlockTimestamp) (s : State K) (producer : Name) :
    Option (State K) :=
  let s := s.onblockUpdatePool timestamp.slot
  if s.vote.threshActivatedStakeTime = 0 then none
  else
    let s := s.countBlock now producer
    if 120 < timestamp.slotsSince s.pay.lastProducerScheduleUpdate then some s else none

omit [Field K] [LinearOrder K] in
theorem electionState_keepsRows {now timestamp : BlockTimestamp} {producer : Name} {s₁ : State K}
    (h : s.electionState now timestamp producer = some s₁) : s.KeepsRows s₁ := by
  obtain ⟨_, _, _, h₁⟩ := s.onblockUpdatePool_eq timestamp.slot
  unfold electionState at h
  dsimp only at h
  split_ifs at h
  obtain rfl := Option.some.inj h
  obtain ⟨pay, producers, h₂, hc⟩ := countBlock_eq now (s.onblockUpdatePool timestamp.slot) producer
  rw [h₂, h₁] at *
  exact ⟨rfl, .of_counted hc, Option.map_eq_none_iff.mp⟩

end State

/-! ## The schedules of a run -/

variable {A : Type}

/-- The contract, the size of the schedule that has been accepted last, and the proposals so far. -/
structure ScheduleChain (K A : Type) where
  state : State K
  lastScheduleSize : ℕ
  proposed : List (Proposal K A)

/-- `onblock` with the schedule it proposes, which the chain accepts or not. -/
def ScheduleChain.onblock (keys : Name → ProducerKeys A) (accepted : Bool)
    (now timestamp : BlockTimestamp) (c : ScheduleChain K A) (producer : Name) :
    Except Error (ScheduleChain K A) := do
  let state := c.state.onblock now timestamp producer
  match c.state.electionState now timestamp producer with
  | none => return { c with state }
  | some s =>
    match ← s.updateElectedProducers keys timestamp c.lastScheduleSize with
    | none => return { c with state }
    | some producers => return {
        state
        lastScheduleSize := if accepted then producers.length % 2 ^ 16 else c.lastScheduleSize
        proposed := ⟨s, timestamp, c.lastScheduleSize, producers⟩ :: c.proposed }

variable [FloorRing K] [CMath K]

/-- A block. -/
def Action.isBlock : Action K → Bool
  | onblock .. => true
  | _ => false

/-- A step: a block, which may propose a schedule, or another action. -/
inductive ScheduleStep (t : BlockTimestamp) : ScheduleChain K A → ScheduleChain K A → Prop
  | action {c s'} (h : Step (fun _ x => x.isBlock = false) t c.state s') :
      ScheduleStep t c { c with state := s' }
  | block {c c' keys accepted timestamp producer}
      (h : c.onblock keys accepted t timestamp producer = .ok c') : ScheduleStep t c c'

/-- The chain before the staking pools are configured. -/
def ScheduleStart (c : ScheduleChain K A) : Prop := RankedInit c.state ∧ c.proposed = []

/-- What holds along a run. -/
structure ScheduleChain.Sound (c : ScheduleChain K A) : Prop where
  pools : RankedPools c.state
  proposed : ∀ e ∈ c.proposed, e.Sound
  growing : (c.lastScheduleSize :: c.proposed.map Proposal.lastScheduleSize).Pairwise (· ≥ ·)

variable [IsStrictOrderedRing K]

namespace ScheduleChain.Sound

variable {c c' : ScheduleChain K A}

/-- A block proposes a schedule that is right. -/
theorem onblock (h : c.Sound) {keys : Name → ProducerKeys A} {accepted : Bool}
    {now timestamp : BlockTimestamp} {producer : Name} :
    ∃ c', c.onblock keys accepted now timestamp producer = .ok c' ∧ c'.Sound := by
  have hpools : RankedPools (c.state.onblock now timestamp producer) :=
    h.pools.exec (x := .onblock timestamp producer)
      (show Action.exec ⟨now, fun _ => true⟩ _ _ = .ok _ from rfl)
  unfold ScheduleChain.onblock
  cases hs : c.state.electionState now timestamp producer with
  | none => exact ⟨_, rfl, hpools, h.proposed, h.growing⟩
  | some s =>
    have hranked := h.pools.ranked.keepsRows (State.electionState_keepsRows hs)
    obtain ⟨r, hr, hsound⟩ := State.exists_updateElectedProducers hranked keys timestamp
      c.lastScheduleSize
    dsimp only
    rw [hr]
    cases r with
    | none => exact ⟨_, rfl, hpools, h.proposed, h.growing⟩
    | some producers =>
      have he := hsound producers rfl
      refine ⟨_, rfl, hpools, ?_, ?_⟩
      · exact List.forall_mem_cons.mpr ⟨he, h.proposed⟩
      · have hle : c.lastScheduleSize ≤
            if accepted then producers.length % 2 ^ 16 else c.lastScheduleSize := by
          have hsize : c.lastScheduleSize ≤ producers.length := he.size
          have hlen := he.elected.length_le
          rw [List.length_map] at hlen
          dsimp only at hlen
          split_ifs
          · rwa [Nat.mod_eq_of_lt (by omega)]
          · exact le_rfl
        refine List.pairwise_cons.mpr ⟨fun n hn => ?_, h.growing⟩
        rcases List.mem_cons.mp hn with rfl | hn
        · exact hle
        · exact ((List.pairwise_cons.mp h.growing).1 n hn).trans hle

theorem step (h : c.Sound) {t : BlockTimestamp} (hs : ScheduleStep t c c') : c'.Sound := by
  cases hs with
  | action hstep =>
    obtain ⟨isAccount, x, -, he⟩ := hstep
    exact ⟨h.pools.exec he, h.proposed, h.growing⟩
  | block hb =>
    obtain ⟨c₁, h₁, hsound⟩ := h.onblock
    rw [h₁] at hb
    exact Except.ok.inj hb ▸ hsound

end ScheduleChain.Sound

theorem scheduleChain_sound_of_run {t : BlockTimestamp} {c : ScheduleChain K A}
    (h : Run ScheduleStart ScheduleStep t c) : c.Sound := by
  refine h.invariant (P := ScheduleChain.Sound) (fun c hc => ?_) fun _ _ _ hs hstep =>
    hs.step hstep
  refine ⟨rankedPools_of_init hc.1, ?_, ?_⟩
  · rw [hc.2]
    exact fun e he => by cases he
  · rw [hc.2]
    exact List.pairwise_singleton _ _

omit [IsStrictOrderedRing K] in
/-- A run in which no block is produced. -/
theorem run_schedule_of_run {t : BlockTimestamp} {s : State K} (n : ℕ)
    (h : Run RankedInit (Step fun _ x => x.isBlock = false) t s) :
    Run ScheduleStart ScheduleStep t (⟨s, n, []⟩ : ScheduleChain K A) := by
  induction h with
  | start h => exact .start ⟨h, rfl⟩
  | step _ ht hs ih => exact .step ih ht (.action hs)

end

/-- The pools are configured, and two producers have pool votes. -/
def scheduleExampleRun : List (BlockTimestamp × Action ℚ) :=
  poolExampleRun ++ [(.ofSlot 8, .updatevotes ⟨1⟩ ⟨100⟩), (.ofSlot 9, .updatevotes ⟨1⟩ ⟨105⟩)]

/-- The example chain, whose producers are located in the reverse order of their names. -/
def scheduleExampleKeys (p : Name) : ProducerKeys ℕ := ⟨1000 - p.value, p.value⟩

end EosioSystem
