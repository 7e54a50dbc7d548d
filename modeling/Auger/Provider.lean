import Auger.Pipeline
import Auger.Pushdown

set_option autoImplicit false

/-! The table provider: what it tells the planner of each filter, and the plans
a scan builds. -/

namespace Auger

structure PushdownConfig where
  /-- Translate `WHERE` into `$match`. -/
  filters : Bool
  /-- Translate `LIMIT` into `$limit`. -/
  limits : Bool
  /-- Cursors of one scan; zero picks a number. -/
  scanParallelism : Nat
  parallelScanMinDocs : Nat
  explainPipeline : Bool

def PushdownConfig.default : PushdownConfig := ⟨true, true, 0, 100000, true⟩

structure Config where
  pushdown : PushdownConfig
  /-- `server.batch_size`. -/
  batchSize : Nat

/-- Cursors for a collection of `docCount` documents; `available` is what
`available_parallelism` answers. -/
def Config.effectiveParallelism (config : Config) (available : Option Nat) (docCount : Nat) : Nat :=
  if docCount < config.pushdown.parallelScanMinDocs then 1
  else
    match config.pushdown.scanParallelism with
    | 0 =>
        match available with
        | some n => min n 8
        | none => 1
    | n => max n 1

def projectFields (schema : Schema) : List Nat → Except DataFusionError Schema
  | [] => .ok []
  | i :: rest =>
      match schema[i]? with
      | some field => (projectFields schema rest).map (field :: ·)
      | none => .error (.internal s!"projection index {i} out of range")

def projectSchema (schema : Schema) : Option (List Nat) → Except DataFusionError Schema
  | none => .ok schema
  | some indices => projectFields schema indices

inductive TableProviderFilterPushDown
  | unsupported | inexact | exact
  deriving DecidableEq, Repr

/-- The physical scan: one plan for each output partition. -/
structure MongoExec where
  schema : Schema
  plans : List MongoPlan
  batchSize : Nat
  estimatedRows : Nat
  explainPipeline : Bool

structure MongoTableProvider where
  schema : Schema
  /-- `stats.doc_count`. -/
  docCount : Nat
  config : Config

namespace MongoTableProvider

def supportsFilterPushdown (provider : MongoTableProvider) (filter : Expr) : TableProviderFilterPushDown :=
  match translate provider.schema filter with
  | some t => if t.exact then .exact else .inexact
  | none => .unsupported

def supportsFiltersPushdown (provider : MongoTableProvider) (filters : List Expr) :
    List TableProviderFilterPushDown :=
  filters.map provider.supportsFilterPushdown

/-- A guess for costing: a filter keeps a fifth, a limit caps. -/
def estimateRows (provider : MongoTableProvider) (filtered : Bool) (limit : Option Nat) : Nat :=
  let afterFilter := if filtered then max (provider.docCount / 5) 1 else provider.docCount
  match limit with
  | some l => min afterFilter l
  | none => afterFilter

def limitI64 (limit : Nat) : Option Int64 :=
  if limit < 2 ^ 63 then some (Int64.ofNat limit) else none

/-- Build the physical scan. `sampleIds` is the outcome of sampling ids for a
number of partitions, `none` when the server could not. -/
def scan (provider : MongoTableProvider) (available : Option Nat)
    (sampleIds : Nat → Option (List Bson)) (projection : Option (List Nat)) (filters : List Expr)
    (limit : Option Nat) : Except DataFusionError MongoExec := do
  let projected ← projectSchema provider.schema projection
  let translated :=
    if provider.config.pushdown.filters then filters.filterMap (translate provider.schema) else []
  let filter := combine translated
  let paths := if projection.isSome then projected.map fieldPath else []
  let wantPartitions :=
    if limit.isSome then 1 else provider.config.effectiveParallelism available provider.docCount
  let partitions :=
    if 1 < wantPartitions then
      match sampleIds wantPartitions with
      | some ids => partitionBounds ids wantPartitions
      -- Falling back to one cursor is always correct.
      | none => [none]
    else [none]
  let plans := partitions.map fun partition =>
    { filter, partition, projection := paths, sort := [], skip := none
      limit := if provider.config.pushdown.limits then limit.bind limitI64 else none : MongoPlan }
  .ok
    { schema := projected, plans, batchSize := provider.config.batchSize
      estimatedRows := provider.estimateRows filter.isSome limit
      explainPipeline := provider.config.pushdown.explainPipeline }

end MongoTableProvider

end Auger
