import Auger.Bson

set_option autoImplicit false

/-! The aggregation pipeline a scan sends to the server. -/

namespace Auger

inductive SortDir
  | asc | desc
  deriving DecidableEq, Repr

def SortDir.asI32 : SortDir → Int32
  | .asc => 1
  | .desc => -1

/-- Everything a single collection scan pushes to the server. -/
structure MongoPlan where
  filter : Option Fields
  /-- Extra `$match` restricting this partition to an `_id` range. -/
  partition : Option Fields
  /-- Dotted paths to fetch; empty means the whole document. -/
  projection : List String
  sort : List (String × SortDir)
  skip : Option Int64
  limit : Option Int64

def isStrictPrefix (start path : String) : Bool :=
  decide (start.length < path.length) && start.toList.isPrefixOf path.toList &&
    path.toList[start.length]? == some '.'

/-- A `$project` document: paths below another path of the list are left to it,
and `_id` is suppressed unless asked for. -/
def projectionDoc (paths : List String) : Fields :=
  let kept := paths.filter fun path => !paths.any fun other => isStrictPrefix other path
  let wantsId := kept.any fun path => path == "_id" || "_id.".toList.isPrefixOf path.toList
  let projection : Fields := kept.foldl (fun projection path => Fields.insert path (.int32 1) projection) []
  if wantsId then projection else Fields.insert "_id" (.int32 0) projection

namespace MongoPlan

/-- The user predicate combined with the partition bound. -/
def matchStage (plan : MongoPlan) : Option Fields :=
  match plan.filter, plan.partition with
  | none, none => none
  | some f, none => some f
  | none, some p => some p
  | some f, some p => some [("$and", .array [.document f, .document p])]

def sortDoc (sort : List (String × SortDir)) : Fields :=
  sort.foldl (fun keys entry => Fields.insert entry.1 (.int32 entry.2.asI32) keys) []

/-- The stages in the order `$match`, `$sort`, `$skip`, `$limit`, `$project`. -/
def toPipeline (plan : MongoPlan) : List Fields :=
  plan.matchStage.toList.map (fun m => [("$match", .document m)]) ++
  (if plan.sort.isEmpty then [] else [[("$sort", .document (sortDoc plan.sort))]]) ++
  (plan.skip.filter fun skip => decide (0 < skip)).toList.map (fun skip => [("$skip", .int64 skip)]) ++
  (plan.limit.filter fun limit => decide (0 ≤ limit)).toList.map (fun limit => [("$limit", .int64 limit)]) ++
  if plan.projection.isEmpty then [] else [[("$project", .document (projectionDoc plan.projection))]]

end MongoPlan

/-- `$match` restricting a scan to documents whose `_id` falls in `[lo, hi)`. -/
def idRange (lo hi : Option Bson) : Option Fields :=
  let bounds : Fields := match lo with
    | some lo => [("$gte", lo)]
    | none => []
  let bounds : Fields := match hi with
    | some hi => Fields.insert "$lt" hi bounds
    | none => bounds
  if bounds.isEmpty then none else some [("_id", .document bounds)]

/-- The loop over the cut points; the last range is open-ended. -/
def boundsBetween : Option Bson → List Bson → List (Option Fields)
  | previous, [] => [idRange previous none]
  | previous, cut :: cuts => idRange previous (some cut) :: boundsBetween (some cut) cuts

/-- Split sampled ids into `n` ranges at their quantiles. -/
def partitionBounds (sortedIds : List Bson) (n : Nat) : List (Option Fields) :=
  if n ≤ 1 ∨ sortedIds.length < 2 then [none]
  else
    let n := min n sortedIds.length
    let cuts := (List.range' 1 (n - 1)).foldl (fun cuts i =>
      match sortedIds[i * sortedIds.length / n]? with
      | some candidate =>
          -- Duplicate cut points would produce empty partitions.
          if cuts.getLast?.all (fun last => !last.eq candidate) then cuts ++ [candidate] else cuts
      | none => cuts) []
    boundsBetween none cuts

end Auger
