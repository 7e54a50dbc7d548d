import Auger.Balance
import Auger.Query
import Auger.Sampling

set_option autoImplicit false

/-! A scan in ranges of `_id`s that it samples for itself, over a collection that is
written to while its cursors run. -/

namespace Auger

open General

def idPipeline (size : Int64) : List Fields :=
  [[("$sample", .document [("size", .int64 size)])], [("$project", .document [("_id", .int32 1)])],
    [("$sort", .document [("_id", .int32 1)])]]

/-- `sample_ids`: `_id` values, sorted, for splitting a scan; `none` is an error. -/
def sampleIds (aggregate : List Fields → Drained) (partitions : Nat) : Option (List Bson) :=
  if partitions ≤ 1 then some []
  else
    -- `partitions * 64` wraps in a release build
    let answer := aggregate (idPipeline (Int64.ofNat (min (partitions * 64 % 2 ^ 64) 10000)))
    if answer.failed then none else some (answer.docs.filterMap fun doc => doc.get "_id")

section
variable {server : AggregationServer} {docs : List CollectionDoc} {aggregate : List Fields → Drained}

end

section
variable {provider : MongoTableProvider} {available : Option Nat} {sample : Nat → Option (List Bson)}
  {projection : Option (List Nat)} {filters : List Expr} {limit : Option Nat} {exec : MongoExec}

end

section
variable {server : AggregationServer} {before : List CollectionDoc} {aggregate : List Fields → Drained}
  {provider : MongoTableProvider} {available : Option Nat} {projection : Option (List Nat)} {filters : List Expr}
  {limit : Option Nat} {exec : MongoExec} {shown : List (List CollectionDoc)}

end

end Auger
