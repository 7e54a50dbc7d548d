import Auger.Aggregation

set_option autoImplicit false

/-! The promise a scan makes to the planner: the filters it calls exact may be
dropped. -/

namespace Auger

open General

section
variable (server : AggregationServer) (text : BsonText) (external : Expr → Row → Cell)
  (provider : MongoTableProvider)

/-- SQL keeps the row of a document. -/
def sqlKeeps (schema : Schema) (filter : Expr) (doc : Document) : Bool :=
  filter.truth external (decodeRow text schema doc) == some true

def satisfying (schema : Schema) (filters : List Expr) (docs : List Document) : List Document :=
  docs.filter fun doc => filters.all fun filter => sqlKeeps text external schema filter doc

/-- The filters the planner keeps: all that are not reported exact. -/
def MongoTableProvider.residual (filters : List Expr) : List Expr :=
  ((filters.zip (provider.supportsFiltersPushdown filters)).filter fun entry =>
    entry.2 != .exact).map Prod.fst

def MongoExec.paths (exec : MongoExec) (projection : Option (List Nat)) : List String :=
  if projection.isSome then exec.schema.map fieldPath else []

/-- The documents a scan returns, after the planner's own filters. -/
def MongoTableProvider.answer (exec : MongoExec) (filters : List Expr) (docs : List Document) :
    Option (List Document) :=
  (server.runPlans exec.plans docs).map fun found =>
    found.filter fun doc => (provider.residual filters).all fun filter =>
      sqlKeeps text external exec.schema filter doc

/-- Every translation covers its predicate, and the exact ones hold no more. -/
def Honest (filters : List Expr) (docs : List Document) : Prop :=
  ∀ filter ∈ filters, ∀ t, translate provider.schema filter = some t → ∀ doc ∈ docs,
    (sqlKeeps text external provider.schema filter doc = true →
      accepts server.regex t.filter doc.fields = true) ∧
    (t.exact = true → accepts server.regex t.filter doc.fields = true →
      sqlKeeps text external provider.schema filter doc = true)

/-- The projected output still holds what the planner's own filters read. -/
def Visible (exec : MongoExec) (projection : Option (List Nat)) (filters : List Expr)
    (docs : List Document) : Prop :=
  ∀ filter ∈ provider.residual filters, ∀ doc ∈ docs,
    sqlKeeps text external exec.schema filter (delivered server (exec.paths projection) doc) =
      sqlKeeps text external provider.schema filter doc

/-- Sampled bounds cut the collection into parts. -/
def Covering (sampleIds : Nat → Option (List Bson)) (docs : List Document) : Prop :=
  ∀ n ids, sampleIds n = some ids → ∀ doc ∈ docs,
    (partitionBounds ids n).countP (boundAccepts server.regex doc.fields) = 1

theorem residual_eq (filters : List Expr) :
    provider.residual filters =
      filters.filter fun filter => provider.supportsFilterPushdown filter != .exact := by
  unfold MongoTableProvider.residual MongoTableProvider.supportsFiltersPushdown
  induction filters with
  | nil => rfl
  | cons filter rest ih =>
      rw [List.map_cons, List.zip_cons_cons, List.filter_cons, List.filter_cons, ← ih]
      split <;> rfl

theorem supports_exact {filter : Expr} {t : Translated}
    (translated : translate provider.schema filter = some t) :
    (provider.supportsFilterPushdown filter != .exact) = !t.exact := by
  rw [MongoTableProvider.supportsFilterPushdown, translated]
  cases exact : t.exact <;> simp [exact]

theorem supports_none {filter : Expr} (refused : translate provider.schema filter = none) :
    (provider.supportsFilterPushdown filter != .exact) = true := by
  rw [MongoTableProvider.supportsFilterPushdown, refused]
  rfl

/-- A document passes the pushed filters and the kept ones exactly when it
satisfies all of them. -/
theorem pushed_and_kept {filters : List Expr} {docs : List Document}
    (honest : Honest server text external provider filters docs) {doc : Document} (member : doc ∈ docs) :
    ((filters.filterMap (translate provider.schema)).all (fun t => accepts server.regex t.filter doc.fields) &&
        (provider.residual filters).all fun filter => sqlKeeps text external provider.schema filter doc) =
      filters.all fun filter => sqlKeeps text external provider.schema filter doc := by
  rw [residual_eq]
  induction filters with
  | nil => rfl
  | cons filter rest ih =>
      have later := ih fun other inside => honest other (List.mem_cons_of_mem _ inside)
      rw [List.all_cons, ← later, List.filterMap_cons, List.filter_cons]
      cases translated : translate provider.schema filter with
      | none =>
          rw [supports_none provider translated, if_pos rfl, List.all_cons]
          exact Bool.and_left_comm _ _ _
      | some t =>
          obtain ⟨covers, precise⟩ := honest filter (by simp) t translated doc member
          rw [supports_exact provider translated]
          cases exact : t.exact with
          | true =>
              have same : accepts server.regex t.filter doc.fields =
                  sqlKeeps text external provider.schema filter doc :=
                Bool.eq_iff_iff.mpr ⟨precise exact, covers⟩
              rw [Bool.not_true, if_neg Bool.false_ne_true, List.all_cons, same, Bool.and_assoc]
          | false =>
              rw [Bool.not_false, if_pos rfl, List.all_cons, List.all_cons]
              cases kept : sqlKeeps text external provider.schema filter doc with
              | false => simp
              | true => rw [covers kept, Bool.true_and, Bool.true_and, Bool.true_and]

def MongoTableProvider.translations (filters : List Expr) : List Translated :=
  if provider.config.pushdown.filters then filters.filterMap (translate provider.schema) else []

/-- The predicate every cursor of a scan is sent. -/
def MongoTableProvider.pushed (filters : List Expr) : Option Fields :=
  combine (provider.translations filters)

def pushedAccepts (filters : List Expr) (doc : Document) : Bool :=
  (provider.translations filters).all fun t => accepts server.regex t.filter doc.fields

def sentLimit (limit : Option Nat) : Option Int64 :=
  if provider.config.pushdown.limits then limit.bind MongoTableProvider.limitI64 else none

theorem scan_plans {available : Option Nat} {sampleIds : Nat → Option (List Bson)}
    {projection : Option (List Nat)} {filters : List Expr} {limit : Option Nat} {exec : MongoExec}
    (scanned : provider.scan available sampleIds projection filters limit = .ok exec) :
    ∃ partitions, exec.plans = partitions.map (fun partition =>
        { filter := provider.pushed filters, partition
          projection := exec.paths projection, sort := [], skip := none
          limit := sentLimit provider limit : MongoPlan }) ∧
      (partitions = [none] ∨ limit = none ∧
        ∃ ids, sampleIds (provider.config.effectiveParallelism available provider.docCount) = some ids ∧
          partitions = partitionBounds ids (provider.config.effectiveParallelism available provider.docCount)) := by
  unfold MongoTableProvider.scan at scanned
  obtain ⟨projected, -, built⟩ := bind_ok scanned
  simp only [Except.ok.injEq] at built
  subst built
  refine ⟨_, rfl, ?_⟩
  cases limit with
  | some l => exact .inl (if_neg (lt_irrefl 1))
  | none =>
      by_cases several : 1 < provider.config.effectiveParallelism available provider.docCount
      · simp only [Option.isSome_none, Bool.false_eq_true, if_false, several, if_true]
        split
        · rename_i ids sampled
          exact .inr ⟨trivial, ids, sampled, rfl⟩
        · exact .inl rfl
      · exact .inl (if_neg several)

theorem runPlans_of {plans : List MongoPlan} {docs : List Document} {found : MongoPlan → List Document}
    (each : ∀ plan ∈ plans, server.aggregate plan.toPipeline docs = some (found plan)) :
    server.runPlans plans docs = some (plans.flatMap found) := by
  have all : (plans.mapM fun plan => server.aggregate plan.toPipeline docs) = some (plans.map found) := by
    induction plans with
    | nil => rfl
    | cons plan rest ih =>
        rw [List.mapM_cons, each plan (by simp), ih fun other inside => each other (List.mem_cons_of_mem _ inside)]
        rfl
  rw [AggregationServer.runPlans, all, Option.map_some, List.flatMap_def]

theorem limitI64_small {l : Nat} (small : l < 2 ^ 63) :
    ∃ n : Int64, MongoTableProvider.limitI64 l = some n ∧ n.toInt = l := by
  refine ⟨Int64.ofNat l, by rw [MongoTableProvider.limitI64, if_pos small], ?_⟩
  exact Int64.toInt_ofNat_of_lt small

theorem sentLimit_some {limit : Option Nat} {n : Int64} (sent : sentLimit provider limit = some n) :
    ∃ l : Nat, limit = some l ∧ provider.config.pushdown.limits = true ∧ l < 2 ^ 63 ∧ n.toInt = l := by
  unfold sentLimit at sent
  split_ifs at sent with limits
  obtain ⟨l, given, value⟩ := Option.bind_eq_some_iff.mp sent
  have small : l < 2 ^ 63 := by
    by_contra large
    rw [MongoTableProvider.limitI64, if_neg large] at value
    cases value
  obtain ⟨m, known, same⟩ := limitI64_small small
  rw [known, Option.some.injEq] at value
  exact ⟨l, given, limits, small, value ▸ same⟩

theorem sentLimit_small {l : Nat} (limits : provider.config.pushdown.limits = true) (small : l < 2 ^ 63) :
    ∃ n : Int64, sentLimit provider (some l) = some n ∧ n.toInt = l := by
  obtain ⟨n, value, same⟩ := limitI64_small small
  exact ⟨n, by rw [sentLimit, if_pos limits, Option.bind_some, value], same⟩

theorem sentLimit_unsent {l : Nat} (unsent : ¬(provider.config.pushdown.limits = true ∧ l < 2 ^ 63)) :
    sentLimit provider (some l) = none := by
  cases sent : sentLimit provider (some l) with
  | none => rfl
  | some n =>
      obtain ⟨m, given, limits, small, -⟩ := sentLimit_some provider sent
      rw [Option.some.injEq] at given
      exact absurd ⟨limits, given ▸ small⟩ unsent

theorem sentLimit_positive {limit : Option Nat}
    (positive : provider.config.pushdown.limits = true → limit ≠ some 0) :
    ∀ n, sentLimit provider limit = some n → 0 < n := by
  intro n sent
  obtain ⟨l, given, limits, -, same⟩ := sentLimit_some provider sent
  have nonzero : l ≠ 0 := fun zero => positive limits (by rw [given, zero])
  rw [Int64.lt_iff_toInt_lt, same, Int64.toInt_zero]
  omega

theorem answer_eq {projection : Option (List Nat)} {filters : List Expr} {limit : Option Nat}
    {exec : MongoExec} {partitions : List (Option Fields)} (docs : List Document)
    (plans : exec.plans = partitions.map (fun partition =>
        { filter := provider.pushed filters, partition
          projection := exec.paths projection, sort := [], skip := none
          limit := sentLimit provider limit : MongoPlan }))
    (positive : ∀ n, sentLimit provider limit = some n → 0 < n) :
    provider.answer server text external exec filters docs =
      some ((partitions.flatMap fun partition =>
        (limited (sentLimit provider limit) (docs.filter fun doc =>
          pushedAccepts server provider filters doc && boundAccepts server.regex doc.fields partition)).map
            (delivered server (exec.paths projection))).filter fun doc =>
              (provider.residual filters).all fun filter => sqlKeeps text external exec.schema filter doc) := by
  have each : ∀ plan ∈ exec.plans, server.aggregate plan.toPipeline docs =
      some ((limited plan.limit (docs.filter (plan.passes server.regex))).map
        (delivered server plan.projection)) := by
    intro plan member
    rw [plans, List.mem_map] at member
    obtain ⟨partition, -, rfl⟩ := member
    exact aggregate_plan server _ rfl rfl positive docs
  rw [MongoTableProvider.answer, runPlans_of server each, Option.map_some, plans, List.flatMap_map]
  have passes : ∀ partition, MongoPlan.passes server.regex
      { filter := provider.pushed filters, partition
        projection := exec.paths projection, sort := [], skip := none
        limit := sentLimit provider limit : MongoPlan } = fun doc =>
      pushedAccepts server provider filters doc && boundAccepts server.regex doc.fields partition := by
    intro partition
    funext doc
    rw [MongoPlan.passes, MongoTableProvider.pushed, combine_accepts]
    rfl
  simp only [passes]

theorem answer_zero {projection : Option (List Nat)} {filters : List Expr} {limit : Option Nat}
    {exec : MongoExec} (docs : List Document)
    (plans : exec.plans = [none].map (fun partition =>
        { filter := provider.pushed filters, partition
          projection := exec.paths projection, sort := [], skip := none
          limit := sentLimit provider limit : MongoPlan }))
    (zero : sentLimit provider limit = some 0) :
    provider.answer server text external exec filters docs = none := by
  rw [MongoTableProvider.answer, AggregationServer.runPlans, plans, List.map_singleton, List.mapM_cons,
    aggregate_limit_zero server _ zero]
  rfl

def passing (filters : List Expr) (docs : List Document) : List Document :=
  docs.filter fun doc => pushedAccepts server provider filters doc &&
    (provider.residual filters).all fun filter => sqlKeeps text external provider.schema filter doc

theorem kept_after_push {projection : Option (List Nat)} {filters : List Expr} {exec : MongoExec}
    {docs : List Document} (visible : Visible server text external provider exec projection filters docs) :
    (((docs.filter (pushedAccepts server provider filters)).map (delivered server (exec.paths projection))).filter
        fun doc => (provider.residual filters).all fun filter => sqlKeeps text external exec.schema filter doc) =
      (passing server text external provider filters docs).map (delivered server (exec.paths projection)) := by
  rw [List.filter_map, List.filter_filter, passing]
  refine congrArg (List.map _) (List.filter_congr fun doc member => ?_)
  rw [Function.comp_apply, Bool.and_comm]
  refine congrArg (pushedAccepts server provider filters doc && ·) (Bool.eq_iff_iff.mpr ?_)
  simp only [List.all_eq_true]
  exact forall₂_congr fun filter inside => by rw [visible filter inside doc member]

/-- Dropping the exact filters loses nothing where the others are pushed. -/
theorem passing_pushed {filters : List Expr} {docs : List Document}
    (pushed : provider.config.pushdown.filters = true)
    (honest : Honest server text external provider filters docs) :
    passing server text external provider filters docs = satisfying text external provider.schema filters docs := by
  refine List.filter_congr fun doc member => ?_
  rw [← pushed_and_kept server text external provider honest member, pushedAccepts,
    MongoTableProvider.translations, if_pos pushed]

theorem answer_unlimited {available : Option Nat} {sampleIds : Nat → Option (List Bson)}
    {projection : Option (List Nat)} {filters : List Expr} {limit : Option Nat} {exec : MongoExec}
    {docs : List Document} (visible : Visible server text external provider exec projection filters docs)
    (covering : Covering server sampleIds docs) (unsent : sentLimit provider limit = none)
    (scanned : provider.scan available sampleIds projection filters limit = .ok exec) :
    ∃ answer, provider.answer server text external exec filters docs = some answer ∧
      answer.Perm ((passing server text external provider filters docs).map
        (delivered server (exec.paths projection))) := by
  obtain ⟨partitions, plans, shape⟩ := scan_plans provider scanned
  refine ⟨_, answer_eq server text external provider docs plans (by rw [unsent]; exact fun n sent => by cases sent), ?_⟩
  rw [unsent, ← List.map_flatMap, ← kept_after_push server text external provider visible]
  refine ((CutPoints.flatMap_filter_perm partitions
    (fun partition (doc : Document) => boundAccepts server.regex doc.fields partition) _
    fun doc member => ?_).map _).filter _
  rcases shape with rfl | ⟨-, ids, sampled, rfl⟩
  · rfl
  · exact covering _ ids sampled doc member

/-- A limit at the server cuts off the first documents that pass. -/
theorem answer_limited {available : Option Nat} {sampleIds : Nat → Option (List Bson)}
    {projection : Option (List Nat)} {filters : List Expr} {l : Nat} {exec : MongoExec} {n : Int64}
    (docs : List Document) (exact : provider.residual filters = []) (sent : sentLimit provider (some l) = some n)
    (same : n.toInt = l) (positive : 0 < l)
    (scanned : provider.scan available sampleIds projection filters (some l) = .ok exec) :
    provider.answer server text external exec filters docs =
      some (((passing server text external provider filters docs).take l).map
        (delivered server (exec.paths projection))) := by
  obtain ⟨partitions, plans, rfl | ⟨absent, -⟩⟩ := scan_plans provider scanned
  · have above : ∀ m, sentLimit provider (some l) = some m → 0 < m :=
      sentLimit_positive provider fun _ zero => positive.ne' (Option.some.inj zero)
    rw [answer_eq server text external provider docs plans above, sent, passing, exact]
    simp [limited, same, boundAccepts]
  · cases absent

/-- What a scan owes the planner: all satisfying documents, or as many as the limit asks for. -/
def KeepsPromise (projection : Option (List Nat)) (filters : List Expr)
    (limit : Option Nat) (exec : MongoExec) (docs : List Document) : Prop :=
  ∃ answer, provider.answer server text external exec filters docs = some answer ∧
    let expected := (satisfying text external provider.schema filters docs).map
      (delivered server (exec.paths projection))
    match limit with
    | none => answer.Perm expected
    | some l => answer.Subperm expected ∧ answer.length = min l expected.length

/-- Filters are pushed, or those the planner kept decide alone. -/
def Decided (filters : List Expr) (docs : List Document) : Prop :=
  provider.config.pushdown.filters = true ∨ ∀ doc ∈ docs,
    ((provider.residual filters).all fun filter => sqlKeeps text external provider.schema filter doc) = true →
      (filters.all fun filter => sqlKeeps text external provider.schema filter doc) = true

/-- Each of the first `l` documents that fails a filter is delivered as a later one is that satisfies all. -/
def Replaced (paths : List String) (filters : List Expr) (l : Nat) (docs : List Document) : Prop :=
  (((docs.take l).filter fun doc =>
      !filters.all fun filter => sqlKeeps text external provider.schema filter doc).map (delivered server paths)).Subperm
    ((satisfying text external provider.schema filters (docs.drop l)).map (delivered server paths))

def MongoTableProvider.paths (projection : Option (List Nat)) : List String :=
  match projectSchema provider.schema projection with
  | .ok projected => if projection.isSome then projected.map fieldPath else []
  | .error _ => []

/-- The settings, the limit and the documents under which a scan keeps its promise. -/
def Promising (projection : Option (List Nat)) (filters : List Expr) (limit : Option Nat)
    (docs : List Document) : Prop :=
  match limit with
  | none => Decided text external provider filters docs
  | some l =>
      if provider.config.pushdown.limits = true ∧ l < 2 ^ 63 then
        0 < l ∧ (provider.config.pushdown.filters = true ∨
          Replaced server text external provider (provider.paths projection) filters l docs)
      else Decided text external provider filters docs ∧
        (satisfying text external provider.schema filters docs).length ≤ l

theorem scan_paths {available : Option Nat} {sampleIds : Nat → Option (List Bson)}
    {projection : Option (List Nat)} {filters : List Expr} {limit : Option Nat} {exec : MongoExec}
    (scanned : provider.scan available sampleIds projection filters limit = .ok exec) :
    exec.paths projection = provider.paths projection := by
  unfold MongoTableProvider.scan at scanned
  obtain ⟨projected, known, built⟩ := bind_ok scanned
  rw [Except.ok.injEq] at built
  subst built
  rw [MongoTableProvider.paths, known]
  rfl

theorem residual_of_all {filters : List Expr} {doc : Document}
    (all : (filters.all fun filter => sqlKeeps text external provider.schema filter doc) = true) :
    ((provider.residual filters).all fun filter => sqlKeeps text external provider.schema filter doc) = true := by
  rw [List.all_eq_true] at all ⊢
  intro filter kept
  rw [residual_eq] at kept
  exact all filter (List.mem_of_mem_filter kept)

/-- With filters off nothing is sent, and what passes is what the planner kept lets through. -/
theorem passing_off {filters : List Expr} {docs : List Document} (off : provider.config.pushdown.filters = false) :
    passing server text external provider filters docs = docs.filter fun doc =>
      (provider.residual filters).all fun filter => sqlKeeps text external provider.schema filter doc := by
  refine List.filter_congr fun doc _ => ?_
  rw [pushedAccepts, MongoTableProvider.translations, off, if_neg Bool.false_ne_true, List.all_nil, Bool.true_and]

theorem satisfying_sublist {filters : List Expr} {docs : List Document}
    (honest : Honest server text external provider filters docs) :
    (satisfying text external provider.schema filters docs).Sublist
      (passing server text external provider filters docs) := by
  cases pushed : provider.config.pushdown.filters with
  | true =>
      rw [passing_pushed server text external provider pushed honest]
  | false =>
      rw [passing_off server text external provider pushed]
      exact List.monotone_filter_right _ fun doc => residual_of_all text external provider

theorem passing_of_decided {filters : List Expr} {docs : List Document}
    (honest : Honest server text external provider filters docs)
    (decided : Decided text external provider filters docs) :
    passing server text external provider filters docs = satisfying text external provider.schema filters docs := by
  cases pushed : provider.config.pushdown.filters with
  | true => exact passing_pushed server text external provider pushed honest
  | false =>
      rw [passing_off server text external provider pushed]
      refine List.filter_congr fun doc member => Bool.eq_iff_iff.mpr ⟨?_, residual_of_all text external provider⟩
      exact (decided.resolve_left fun on => by rw [pushed] at on; cases on) doc member

theorem decided_of_length {filters : List Expr} {docs : List Document}
    (honest : Honest server text external provider filters docs)
    (same : (passing server text external provider filters docs).length ≤
      (satisfying text external provider.schema filters docs).length) :
    Decided text external provider filters docs := by
  have equal := (satisfying_sublist server text external provider honest).eq_of_length_le same
  cases pushed : provider.config.pushdown.filters with
  | true => exact .inl pushed
  | false =>
      refine .inr fun doc member kept => ?_
      rw [passing_off server text external provider pushed] at equal
      have passes : doc ∈ satisfying text external provider.schema filters docs := by
        rw [equal]
        exact List.mem_filter.mpr ⟨member, kept⟩
      exact (List.mem_filter.mp passes).2

/-- The first members stand among the images of those kept exactly when each one
that is not kept has the image of a later one that is. -/
theorem take_subperm_iff {α β : Type} (keep : α → Bool) (image : α → β) (l : Nat) (list : List α) :
    ((list.take l).map image).Subperm ((list.filter keep).map image) ↔
      (((list.take l).filter fun a => !keep a).map image).Subperm (((list.drop l).filter keep).map image) := by
  have first : (((list.take l).filter keep).map image ++ ((list.take l).filter fun a => !keep a).map image).Perm
      ((list.take l).map image) := by
    rw [← List.map_append]
    exact (List.filter_append_perm keep _).map image
  have second : (list.filter keep).map image =
      ((list.take l).filter keep).map image ++ ((list.drop l).filter keep).map image := by
    rw [← List.map_append, ← List.filter_append, List.take_append_drop]
  rw [second, ← first.subperm_right, List.subperm_append_left]

theorem promise_sent_iff {available : Option Nat} {sampleIds : Nat → Option (List Bson)}
    {projection : Option (List Nat)} {filters : List Expr} {l : Nat} {exec : MongoExec} {docs : List Document}
    (honest : Honest server text external provider filters docs)
    (allExact : ∀ filter ∈ filters, provider.supportsFilterPushdown filter = .exact)
    (sent : provider.config.pushdown.limits = true ∧ l < 2 ^ 63)
    (scanned : provider.scan available sampleIds projection filters (some l) = .ok exec) :
    KeepsPromise server text external provider projection filters (some l) exec docs ↔
      0 < l ∧ (provider.config.pushdown.filters = true ∨
        Replaced server text external provider (provider.paths projection) filters l docs) := by
  rw [← scan_paths provider scanned]
  have exact : provider.residual filters = [] := by
    rw [residual_eq, List.filter_eq_nil_iff]
    intro filter member
    rw [allExact filter member]
    decide
  obtain ⟨n, value, same⟩ := sentLimit_small provider sent.1 sent.2
  rcases Nat.eq_zero_or_pos l with rfl | positive
  · obtain ⟨partitions, plans, rfl | ⟨absent, -⟩⟩ := scan_plans provider scanned
    · have zero : n = 0 := Int64.toInt_inj.mp same
      have refused := answer_zero server text external provider docs plans (by rw [value, zero])
      simp [KeepsPromise, refused]
    · cases absent
  · have found := answer_limited server text external provider docs exact value same positive scanned
    simp only [KeepsPromise, found, Option.some.injEq, exists_eq_left', positive, true_and]
    cases pushed : provider.config.pushdown.filters with
    | true =>
        rw [passing_pushed server text external provider pushed honest]
        simp [(List.take_sublist l _).subperm]
    | false =>
        have whole : passing server text external provider filters docs = docs := by
          rw [passing_off server text external provider pushed, exact]
          simp
        have fewer := (satisfying_sublist server text external provider honest).length_le
        rw [whole] at fewer ⊢
        rw [satisfying, take_subperm_iff, List.length_map, List.length_map, List.length_take]
        simp only [Bool.false_eq_true, false_or]
        refine and_iff_left_of_imp fun among => ?_
        have size := ((take_subperm_iff _ _ _ _).mpr among).length_le
        rw [List.length_map, List.length_map, List.length_take] at size
        rw [satisfying] at fewer
        omega

/-- A scan keeps its promise in exactly the settings where the filters it calls
exact are evaluated, and the limit is sent and positive or no smaller than what
satisfies all filters. -/
theorem scan_keeps_promise_iff (available : Option Nat) (sampleIds : Nat → Option (List Bson))
    (projection : Option (List Nat)) (filters : List Expr) (limit : Option Nat) (exec : MongoExec)
    (docs : List Document) (honest : Honest server text external provider filters docs)
    (visible : Visible server text external provider exec projection filters docs)
    (covering : Covering server sampleIds docs)
    (allExact : limit.isSome → ∀ filter ∈ filters, provider.supportsFilterPushdown filter = .exact)
    (scanned : provider.scan available sampleIds projection filters limit = .ok exec) :
    KeepsPromise server text external provider projection filters limit exec docs ↔
      Promising server text external provider projection filters limit docs := by
  have fewer := (satisfying_sublist server text external provider honest).length_le
  cases limit with
  | none =>
      obtain ⟨answer, found, all⟩ := answer_unlimited server text external provider visible covering
        (by simp [sentLimit]) scanned
      simp only [KeepsPromise, found, Option.some.injEq, exists_eq_left', Promising]
      constructor
      · intro same
        have count := all.length_eq.symm.trans same.length_eq
        rw [List.length_map, List.length_map] at count
        exact decided_of_length server text external provider honest count.le
      · intro decided
        rwa [← passing_of_decided server text external provider honest decided]
  | some l =>
      by_cases sent : provider.config.pushdown.limits = true ∧ l < 2 ^ 63
      · simp only [Promising, if_pos sent]
        exact promise_sent_iff server text external provider honest (allExact rfl) sent scanned
      · simp only [Promising, if_neg sent]
        obtain ⟨answer, found, all⟩ := answer_unlimited server text external provider visible covering
          (sentLimit_unsent provider sent) scanned
        have count := all.length_eq
        rw [List.length_map] at count
        simp only [KeepsPromise, found, Option.some.injEq, exists_eq_left', List.length_map]
        constructor
        · rintro ⟨-, length⟩
          refine ⟨decided_of_length server text external provider honest ?_, ?_⟩ <;> omega
        · rintro ⟨decided, short⟩
          rw [passing_of_decided server text external provider honest decided] at all count
          refine ⟨all.subperm, ?_⟩
          omega

end

section
variable (server : AggregationServer) (text : BsonText) (external : Expr → Row → Cell)

/-- The promise is kept under all switches and limits that `allowed` admits. -/
def PromiseWhen (allowed : PushdownConfig → Option Nat → Prop) : Prop :=
  ∀ (provider : MongoTableProvider) (available : Option Nat) (sampleIds : Nat → Option (List Bson))
    (projection : Option (List Nat)) (filters : List Expr) (limit : Option Nat) (exec : MongoExec)
    (docs : List Document), allowed provider.config.pushdown limit →
    Honest server text external provider filters docs →
    Visible server text external provider exec projection filters docs →
    Covering server sampleIds docs →
    (limit.isSome → ∀ filter ∈ filters, provider.supportsFilterPushdown filter = .exact) →
    provider.scan available sampleIds projection filters limit = .ok exec →
    KeepsPromise server text external provider projection filters limit exec docs

end

def plainServer : AggregationServer := ⟨noRegex, fun _ docs => docs, fun _ doc => doc⟩

def shipmentsTable (pushdown : PushdownConfig) : MongoTableProvider :=
  ⟨inferredSchema shipments 4, 3, ⟨pushdown, 100⟩⟩

def shipmentsScan (pushdown : PushdownConfig) (filters : List Expr) (limit : Option Nat) :
    Except DataFusionError MongoExec :=
  (shipmentsTable pushdown).scan none (fun _ => none) none filters limit

theorem shipments_honest (pushdown : PushdownConfig) :
    Honest plainServer plainText noExternal (shipmentsTable pushdown) [sizeIs .eq 1] shipments := by
  intro filter only t translated doc member
  obtain rfl := List.mem_singleton.mp only
  have precise : t.exact = true := by
    have known : (translate (inferredSchema shipments 4) (sizeIs .eq 1)).all (·.exact) = true := by decide
    rw [show translate (inferredSchema shipments 4) (sizeIs .eq 1) = some t from translated] at known
    simpa using known
  have same : accepts noRegex t.filter doc.fields = true ↔
      (sizeIs .eq 1).truth noExternal (decodeRow plainText (inferredSchema shipments 4) doc) = some true :=
    (sizeIs_leaf .eq rfl 1).exact plainText noExternal shipments_plain member translated
  constructor
  · intro kept
    exact same.mpr (beq_iff_eq.mp kept)
  · intro _ accepted
    exact beq_iff_eq.mpr (same.mp accepted)

theorem shipments_visible (pushdown : PushdownConfig) (exec : MongoExec) :
    Visible plainServer plainText noExternal (shipmentsTable pushdown) exec none [sizeIs .eq 1] shipments := by
  have dropped : (shipmentsTable PushdownConfig.default).residual [sizeIs .eq 1] = [] := by decide
  intro filter member
  rw [show (shipmentsTable pushdown).residual [sizeIs .eq 1] = [] from dropped] at member
  cases member

theorem shipments_covering (docs : List Document) : Covering plainServer (fun _ => none) docs := by
  intro n ids sampled
  cases sampled

def returned (pushdown : PushdownConfig) (filters : List Expr) (limit : Option Nat) : Option Nat :=
  match shipmentsScan pushdown filters limit with
  | .ok exec =>
      ((shipmentsTable pushdown).answer plainServer plainText noExternal exec filters shipments).map List.length
  | .error _ => none

theorem returned_eq {pushdown : PushdownConfig} {filters : List Expr} {limit : Option Nat} {exec : MongoExec}
    (scanned : shipmentsScan pushdown filters limit = .ok exec) :
    returned pushdown filters limit =
      ((shipmentsTable pushdown).answer plainServer plainText noExternal exec filters shipments).map
        List.length := by
  rw [returned, scanned]

theorem no_filters_honest (provider : MongoTableProvider) (docs : List Document) :
    Honest plainServer plainText noExternal provider [] docs := by
  intro filter member
  cases member

theorem no_filters_visible (provider : MongoTableProvider) (exec : MongoExec) (docs : List Document) :
    Visible plainServer plainText noExternal provider exec none [] docs := by
  intro filter member
  cases member

/-- With the filter switch off, the planner drops `size = 1` and nobody evaluates it. -/
theorem filters_off_breaks :
    ¬PromiseWhen plainServer plainText noExternal fun config limit => config.limits = true ∧ limit = none := by
  intro promise
  let pushdown : PushdownConfig := { PushdownConfig.default with filters := false }
  obtain ⟨exec, scanned⟩ := ok_of_isOk (x := shipmentsScan pushdown [sizeIs .eq 1] none) (by decide)
  obtain ⟨answer, found, same⟩ := promise (shipmentsTable pushdown) none (fun _ => none) none
    [sizeIs .eq 1] none exec shipments ⟨rfl, rfl⟩ (shipments_honest pushdown) (shipments_visible pushdown exec)
    (shipments_covering shipments) (fun given => by cases given) scanned
  have all : returned pushdown [sizeIs .eq 1] none = some 3 := by decide
  have one : (satisfying plainText noExternal (inferredSchema shipments 4) [sizeIs .eq 1] shipments).length = 1 := by
    decide
  rw [returned_eq scanned, found, Option.map_some, Option.some.injEq, same.length_eq, List.length_map] at all
  exact absurd (all.symm.trans one) (by decide)

/-- With the limit switch off, the limit is the planner's own to apply. -/
theorem limits_off_breaks :
    ¬PromiseWhen plainServer plainText noExternal fun config limit => config.filters = true ∧ limit = some 1 := by
  intro promise
  let pushdown : PushdownConfig := { PushdownConfig.default with limits := false }
  obtain ⟨exec, scanned⟩ := ok_of_isOk (x := shipmentsScan pushdown [] (some 1)) (by decide)
  obtain ⟨answer, found, -, short⟩ := promise (shipmentsTable pushdown) none (fun _ => none) none [] (some 1)
    exec shipments ⟨rfl, rfl⟩ (no_filters_honest _ _) (no_filters_visible _ _ _)
    (shipments_covering shipments) (fun _ _ member => by cases member) scanned
  have all : returned pushdown [] (some 1) = some 3 := by decide
  rw [returned_eq scanned, found, Option.map_some, Option.some.injEq] at all
  omega

/-- The server refuses a limit of zero. -/
theorem limit_zero_breaks :
    ¬PromiseWhen plainServer plainText noExternal fun config limit =>
      config.filters = true ∧ config.limits = true ∧ limit = some 0 := by
  intro promise
  obtain ⟨exec, scanned⟩ := ok_of_isOk (x := shipmentsScan PushdownConfig.default [] (some 0)) (by decide)
  obtain ⟨answer, found, -⟩ := promise (shipmentsTable PushdownConfig.default) none (fun _ => none) none []
    (some 0) exec shipments ⟨rfl, rfl, rfl⟩ (no_filters_honest _ _) (no_filters_visible _ _ _)
    (shipments_covering shipments) (fun _ _ member => by cases member) scanned
  have refused : returned PushdownConfig.default [] (some 0) = none := by decide
  rw [returned_eq scanned, found] at refused
  cases refused

/-- A limit past the 64-bit integers is not sent at all. -/
theorem huge_limit_breaks :
    ¬PromiseWhen plainServer plainText noExternal fun config limit =>
      config.filters = true ∧ config.limits = true ∧ limit = some (2 ^ 63) := by
  intro promise
  let provider := shipmentsTable PushdownConfig.default
  obtain ⟨docs, long⟩ : ∃ docs : List Document, docs.length = 2 ^ 63 + 1 :=
    ⟨List.replicate (2 ^ 63 + 1) Document.empty, List.length_replicate⟩
  obtain ⟨exec, scanned⟩ := ok_of_isOk (x := provider.scan none (fun _ => none) none [] (some (2 ^ 63))) (by decide)
  obtain ⟨answer, found, -, short⟩ := promise provider none (fun _ => none) none [] (some (2 ^ 63))
    exec docs ⟨rfl, rfl, rfl⟩ (no_filters_honest _ _) (no_filters_visible _ _ _)
    (shipments_covering docs) (fun _ _ member => by cases member) scanned
  obtain ⟨whole, again, all⟩ := answer_unlimited plainServer plainText noExternal provider
    (no_filters_visible _ _ _) (shipments_covering docs) (by decide) scanned
  rw [found, Option.some.injEq] at again
  subst again
  have count := all.length_eq
  rw [List.length_map, passing_pushed plainServer plainText noExternal provider rfl (no_filters_honest _ _),
    satisfying, List.filter_eq_self.mpr (by simp), long] at count
  omega

/-- Each of the three switches the promise depends on can break it. -/
theorem promise_broken :
    ¬PromiseWhen plainServer plainText noExternal (fun config limit => config.limits = true ∧ limit = none) ∧
      ¬PromiseWhen plainServer plainText noExternal (fun config limit =>
        config.filters = true ∧ limit = some 1) ∧
      ¬PromiseWhen plainServer plainText noExternal (fun config limit =>
        config.filters = true ∧ config.limits = true ∧ limit = some 0) ∧
      ¬PromiseWhen plainServer plainText noExternal (fun config limit =>
        config.filters = true ∧ config.limits = true ∧ limit = some (2 ^ 63)) :=
  ⟨filters_off_breaks, limits_off_breaks, limit_zero_breaks, huge_limit_breaks⟩

/-- With the default switches the scan of the small shipments keeps its promise;
with the filters off it does not. -/
theorem scan_keeps_promise_iff_shipments :
    let off : PushdownConfig := { PushdownConfig.default with filters := false }
    (∃ exec, shipmentsScan PushdownConfig.default [sizeIs .eq 1] none = .ok exec ∧
      KeepsPromise plainServer plainText noExternal (shipmentsTable PushdownConfig.default) none
        [sizeIs .eq 1] none exec shipments) ∧
      ∃ exec, shipmentsScan off [sizeIs .eq 1] none = .ok exec ∧
        ¬KeepsPromise plainServer plainText noExternal (shipmentsTable off) none
          [sizeIs .eq 1] none exec shipments := by
  have promise := fun (pushdown : PushdownConfig) (exec : MongoExec) =>
    scan_keeps_promise_iff plainServer plainText noExternal (shipmentsTable pushdown) none (fun _ => none)
      none [sizeIs .eq 1] none exec shipments (shipments_honest pushdown) (shipments_visible pushdown exec)
      (shipments_covering shipments) (fun given => by cases given)
  constructor
  · obtain ⟨exec, scanned⟩ := ok_of_isOk (x := shipmentsScan PushdownConfig.default [sizeIs .eq 1] none) (by decide)
    exact ⟨exec, scanned, (promise _ exec scanned).mpr (.inl rfl)⟩
  · obtain ⟨exec, scanned⟩ := ok_of_isOk
      (x := shipmentsScan { PushdownConfig.default with filters := false } [sizeIs .eq 1] none) (by decide)
    refine ⟨exec, scanned, fun kept => ?_⟩
    rcases (promise _ exec scanned).mp kept with on | all
    · cases on
    · exact absurd all (by decide)

end Auger
