import Auger.MatchFacts
import Auger.Partitions
import Auger.Provider

set_option autoImplicit false

/-! What the server returns for a pipeline, and for the plans of a scan. -/

namespace Auger

/-- The parts of the server that a scan relies on without looking inside. -/
structure AggregationServer where
  regex : RegexEngine
  sort : Fields → List Document → List Document
  project : Fields → Document → Document

namespace AggregationServer

/-- One stage; `none` is an error. A limit must be positive. -/
def runStage (server : AggregationServer) (docs : List Document) : Fields → Option (List Document)
  | [("$match", .document filter)] => some (docs.filter fun doc => accepts server.regex filter doc.fields)
  | [("$sort", .document keys)] => some (server.sort keys docs)
  | [("$skip", .int64 n)] => if 0 ≤ n then some (docs.drop n.toInt.toNat) else none
  | [("$limit", .int64 n)] => if 0 < n then some (docs.take n.toInt.toNat) else none
  | [("$project", .document spec)] => some (docs.map (server.project spec))
  | _ => none

def aggregate (server : AggregationServer) (stages : List Fields) (docs : List Document) :
    Option (List Document) :=
  stages.foldlM server.runStage docs

/-- The documents all partitions of a scan return. -/
def runPlans (server : AggregationServer) (plans : List MongoPlan) (docs : List Document) :
    Option (List Document) :=
  (plans.mapM fun plan => server.aggregate plan.toPipeline docs).map List.flatten

end AggregationServer

section
variable (server : AggregationServer)

/-- What a scan's `$project` leaves of a document. -/
def delivered (paths : List String) (doc : Document) : Document :=
  if paths.isEmpty then doc else server.project (projectionDoc paths) doc

/-- A `$match` of the plan's predicate and its partition bound. -/
def MongoPlan.passes (regex : RegexEngine) (plan : MongoPlan) (doc : Document) : Bool :=
  boundAccepts regex doc.fields plan.filter && boundAccepts regex doc.fields plan.partition

theorem aggregate_append (first second : List Fields) (docs : List Document) :
    server.aggregate (first ++ second) docs =
      (server.aggregate first docs).bind (server.aggregate second) := by
  simp only [AggregationServer.aggregate, List.foldlM_append]
  rfl

theorem passes_matchStage (regex : RegexEngine) (plan : MongoPlan) :
    plan.passes regex = fun doc => boundAccepts regex doc.fields plan.matchStage := by
  funext doc
  rcases plan with ⟨_ | filter, _ | partition, projection, sort, skip, limit⟩ <;>
    simp [MongoPlan.passes, MongoPlan.matchStage, boundAccepts]

theorem aggregate_match (plan : MongoPlan) (docs : List Document) :
    server.aggregate (plan.matchStage.toList.map fun m => [("$match", .document m)]) docs =
      some (docs.filter (plan.passes server.regex)) := by
  rw [passes_matchStage]
  cases plan.matchStage with
  | none => simp [AggregationServer.aggregate, boundAccepts]
  | some m => simp [AggregationServer.aggregate, AggregationServer.runStage, boundAccepts]

@[simp] theorem aggregate_nil (docs : List Document) : server.aggregate [] docs = some docs := rfl

def limited (limit : Option Int64) (docs : List Document) : List Document :=
  match limit with
  | some n => docs.take n.toInt.toNat
  | none => docs

theorem aggregate_limit {limit : Option Int64} (positive : ∀ n, limit = some n → 0 < n)
    (docs : List Document) :
    server.aggregate ((limit.filter fun limit => decide (0 ≤ limit)).toList.map
      fun limit => [("$limit", .int64 limit)]) docs = some (limited limit docs) := by
  cases limit with
  | none => rfl
  | some n =>
      have above := positive n rfl
      have atLeast : 0 ≤ n := by
        rw [Int64.le_iff_toInt_le]
        exact (Int64.lt_iff_toInt_lt.mp above).le
      have kept : (some n).filter (fun limit => decide (0 ≤ limit)) = some n := by
        simp [Option.filter, atLeast]
      rw [kept]
      simp [AggregationServer.aggregate, AggregationServer.runStage, above, limited]

theorem aggregate_project (paths : List String) (docs : List Document) :
    server.aggregate (if paths.isEmpty then [] else [[("$project", .document (projectionDoc paths))]]) docs =
      some (docs.map (delivered server paths)) := by
  cases empty : paths.isEmpty with
  | true =>
      have same : delivered server paths = id := by
        funext doc
        simp [delivered, empty]
      simp [AggregationServer.aggregate, same]
  | false =>
      have projected : delivered server paths = server.project (projectionDoc paths) := by
        funext doc
        simp [delivered, empty]
      simp [AggregationServer.aggregate, AggregationServer.runStage, projected]

theorem aggregate_plan (plan : MongoPlan) (unsorted : plan.sort = []) (unskipped : plan.skip = none)
    (positive : ∀ n, plan.limit = some n → 0 < n) (docs : List Document) :
    server.aggregate plan.toPipeline docs =
      some ((limited plan.limit (docs.filter (plan.passes server.regex))).map
        (delivered server plan.projection)) := by
  rw [MongoPlan.toPipeline, unsorted, unskipped, aggregate_append, aggregate_append, aggregate_append,
    aggregate_append, aggregate_match]
  simp only [List.isEmpty_nil, if_true, Option.filter_none, Option.toList_none, List.map_nil,
    Option.bind_some, aggregate_nil, aggregate_limit server positive, aggregate_project]

theorem aggregate_limit_zero (plan : MongoPlan) (zero : plan.limit = some 0) (docs : List Document) :
    server.aggregate plan.toPipeline docs = none := by
  have refused : ∀ docs, server.aggregate ((plan.limit.filter fun limit => decide (0 ≤ limit)).toList.map
      fun limit => [("$limit", .int64 limit)]) docs = none := by
    intro docs
    rw [zero]
    rfl
  rw [MongoPlan.toPipeline, aggregate_append, aggregate_append, Option.bind_assoc]
  simp only [refused, Option.bind_none, Option.bind_fun_none]

theorem combine_accepts (regex : RegexEngine) (translated : List Translated) (doc : Fields) :
    boundAccepts regex doc (combine translated) = translated.all fun t => accepts regex t.filter doc := by
  match translated with
  | [] => rfl
  | [t] => simp [combine, boundAccepts]
  | t :: u :: rest =>
      have clauses := allAccept_documents regex ((t :: u :: rest).map Translated.filter) doc
      rw [List.map_map, List.all_map] at clauses
      have whole : combine (t :: u :: rest) =
          some [("$and", .array ((t :: u :: rest).map (Bson.document ∘ Translated.filter)))] := rfl
      rw [whole, boundAccepts, accepts_single, clauseAccepts, if_pos rfl]
      exact clauses

end

end Auger
