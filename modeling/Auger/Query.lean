import Auger.Partial
import Auger.Projection
import Auger.Promise
import Auger.Stream

set_option autoImplicit false

/-! A query over one table: the rows SQL asks for, and the rows that reach the
client through pushed filters, partitions, projection and batches. -/

namespace Auger

open General

structure TableQuery where
  projection : Option (List Nat)
  filters : List Expr
  limit : Option Nat

def selectColumns (projection : Option (List Nat)) (row : Row) : Row :=
  match projection with
  | none => row
  | some indices => indices.filterMap (row[·]?)

def RecordBatch.rows (batch : RecordBatch) : List Row := (List.range batch.numRows).map batch.row

section
variable (server : AggregationServer) (text : BsonText) (external : Expr → Row → Cell)

def TableQuery.rows (query : TableQuery) (table : List Row) : List Row :=
  (table.filter fun row => query.filters.all fun filter => filter.truth external row == some true).map
    (selectColumns query.projection)

/-- What a client may be sent: all rows in some order, or as many as the limit asks for. -/
def TableQuery.AnsweredBy (query : TableQuery) (table sent : List Row) : Prop :=
  match query.limit with
  | none => sent.Perm (query.rows external table)
  | some l => sent.Subperm (query.rows external table) ∧ sent.length = min l (query.rows external table).length

/-- The rows of one partition: the documents its pipeline returns, decoded batch by batch. -/
def MongoExec.partitionRows (exec : MongoExec) (docs : List Document) (plan : MongoPlan) : Option (List Row) :=
  (server.aggregate plan.toPipeline docs).bind fun cursor =>
    ((MongoExec.execute text exec.schema exec.batchSize cursor).mapM id).toOption.map fun batches =>
      batches.flatMap RecordBatch.rows

/-- The scan the planner asks for: the limit goes down when no filter stays above. -/
def MongoTableProvider.planScan (provider : MongoTableProvider) (available : Option Nat)
    (sampleIds : Nat → Option (List Bson)) (query : TableQuery) : Except DataFusionError MongoExec :=
  provider.scan available sampleIds query.projection query.filters
    (if (provider.residual query.filters).isEmpty then query.limit else none)

/-- The rows of all partitions, through the filters and the limit the planner kept. -/
def MongoTableProvider.queryRows (provider : MongoTableProvider) (exec : MongoExec) (query : TableQuery)
    (docs : List Document) : Option (List Row) :=
  (exec.plans.mapM (exec.partitionRows server text docs)).map fun parts =>
    let kept := parts.flatten.filter fun row =>
      (provider.residual query.filters).all fun filter => filter.truth external row == some true
    match query.limit with
    | none => kept
    | some l => kept.take l

end

section
variable (text : BsonText)

theorem rows_decoded {schema : Schema} {docs : List Document} {batch : RecordBatch}
    (decoded : documentsToBatch text schema docs = .ok batch) : batch.rows = docs.map (decodeRow text schema) := by
  obtain ⟨columns, -, rfl⟩ := documentsToBatch_columns text decoded
  apply List.ext_getElem
  · simp [RecordBatch.rows]
  · intro i bound inside
    have here : i < docs.length := by simpa using inside
    simpa [RecordBatch.rows] using documentsToBatch_row text decoded i here

theorem stream_rows {schema : Schema} (decodable : ∀ field ∈ schema, field.dataType.decodable = true)
    (batchSize : Nat) {cursor : List Document} {whole : RecordBatch}
    (decoded : documentsToBatch text schema cursor = .ok whole) :
    ∃ batches, (MongoExec.execute text schema batchSize cursor).mapM id = .ok batches ∧
      batches.flatMap RecordBatch.rows = cursor.map (decodeRow text schema) := by
  -- Every batch takes at least one document, so the rest of the cursor is shorter.
  induction length : cursor.length using Nat.strongRecOn generalizing cursor whole with
  | ind n ih =>
      by_cases present : cursor = []
      · subst present
        exact ⟨[], by rw [execute_nil]; rfl, rfl⟩
      · have positive := List.length_pos_of_ne_nil present
        rw [← List.take_append_drop (max batchSize 1) cursor] at decoded
        obtain ⟨left, right, one, two, -⟩ := documentsToBatch_append text decodable decoded
        have shorter : (cursor.drop (max batchSize 1)).length < n := by
          rw [List.length_drop]
          omega
        obtain ⟨batches, items, rows⟩ := ih _ shorter two rfl
        refine ⟨left :: batches, ?_, ?_⟩
        · rw [execute_cons text batchSize present one, List.mapM_cons, items]
          rfl
        · rw [List.flatMap_cons, rows_decoded text one, rows, ← List.map_append, List.take_append_drop]

theorem decodes_part {schema fields : Schema} (decodable : ∀ field ∈ schema, field.dataType.decodable = true)
    (selected : ∀ field ∈ fields, field ∈ schema) {docs part : List Document} {whole : RecordBatch}
    (decoded : documentsToBatch text schema docs = .ok whole)
    (slots : ∀ field ∈ fields, (columnSlots field part).Sublist (columnSlots field docs)) :
    ∃ batch, documentsToBatch text fields part = .ok batch := by
  obtain ⟨columns, -, same⟩ := documentsToBatch_columns text decoded
  have conditions := (documentsToBatch_isOk text decodable docs).mp ⟨_, decoded, by rw [same]⟩
  have parts := (documentsToBatch_isOk text (fun field inside => decodable field (selected field inside)) part).mpr
  obtain ⟨batch, done, -⟩ := parts
    ⟨fun field inside => (conditions.1 field (selected field inside)).imp_right fun held v stored =>
        held v ((slots field inside).subset stored),
      fun field inside => (conditions.2 field (selected field inside)).imp
        (ListsFit.part (slots field inside)) (TextFits.part text (slots field inside))⟩
  exact ⟨batch, done⟩

end

/-- Decoding the selected columns of a projected document selects columns of its row. -/
theorem decodeRow_selected (text : BsonText) (server : AggregationServer) (mongo : KeepsIncluded server.project)
    {schema fields : Schema} {indices : List Nat}
    (picked : List.Forall₂ (fun i field => schema[i]? = some field) indices fields) (doc : Document) :
    decodeRow text fields (delivered server (fields.map fieldPath) doc) =
      selectColumns (some indices) (decodeRow text schema doc) := by
  have kept : ∀ field ∈ fields, lookupPath (delivered server (fields.map fieldPath) doc) (fieldPath field) =
      lookupPath doc (fieldPath field) :=
    fun field inside => delivered_lookup server mongo (List.mem_map_of_mem inside) doc
  generalize delivered server (fields.map fieldPath) doc = projected at kept
  induction picked with
  | nil => rfl
  | @cons i field indices fields here _ ih =>
      have first := kept field (List.mem_cons_self ..)
      have later := ih fun other inside => kept other (List.mem_cons_of_mem _ inside)
      simp only [decodeRow, selectColumns, List.map_cons, List.filterMap_cons, List.getElem?_map, here,
        Option.map_some, first] at later ⊢
      rw [later]

/-- Nests of `AND`, `OR` and aliases over predicates pushed exactly and others with no
translation at all. -/
inductive Pushable (schema : Schema) : Expr → Prop
  | leaf {expr : Expr} (leaf : ExactLeaf schema expr) : Pushable schema expr
  | untranslated {expr : Expr} (none : translate schema expr = none) : Pushable schema expr
  | and {left right : Expr} (first : Pushable schema left) (second : Pushable schema right) :
      Pushable schema (.binaryExpr left .and right)
  | or {left right : Expr} (first : Pushable schema left) (second : Pushable schema right) :
      Pushable schema (.binaryExpr left .or right)
  | aliased {expr : Expr} (name : String) (inner : Pushable schema expr) : Pushable schema (.alias expr name)

/-- What is pushed keeps every row of the predicate, and no other when it is called exact. -/
theorem Pushable.keeps {docs : List Document} {maxDepth : Nat} (text : BsonText)
    (external : Expr → Row → Cell) {regex : RegexEngine} {doc : Document}
    (plain : ∀ doc ∈ docs, doc.keysAll plainKey = true) (member : doc ∈ docs) {expr : Expr}
    (pushable : Pushable (inferredSchema docs maxDepth) expr) {t : Translated}
    (translated : translate (inferredSchema docs maxDepth) expr = some t) :
    (expr.truth external (decodeRow text (inferredSchema docs maxDepth) doc) = some true →
        accepts regex t.filter doc.fields = true) ∧
      (t.exact = true → accepts regex t.filter doc.fields = true →
        expr.truth external (decodeRow text (inferredSchema docs maxDepth) doc) = some true) := by
  induction pushable generalizing t with
  | leaf leaf =>
      have exactly : accepts regex t.filter doc.fields = true ↔ _ :=
        leaf.exact text external plain member translated
      exact ⟨exactly.mpr, fun _ => exactly.mp⟩
  | untranslated none =>
      rw [none] at translated
      cases translated
  | @and left right _ _ first second =>
      rw [truth_and, Kleene.conj_true]
      simp only [translate] at translated
      cases one : translate (inferredSchema docs maxDepth) left <;>
        cases two : translate (inferredSchema docs maxDepth) right <;>
        simp only [one, two, reduceCtorEq, Option.some.injEq] at translated <;> subst translated
      · exact ⟨fun both => (second two).1 both.2, fun exact => by simp [Translated.withExactness] at exact⟩
      · exact ⟨fun both => (first one).1 both.1, fun exact => by simp [Translated.withExactness] at exact⟩
      · simp only [accepts_and, Bool.and_eq_true]
        exact ⟨fun both => ⟨(first one).1 both.1, (second two).1 both.2⟩,
          fun exact both => ⟨(first one).2 exact.1 both.1, (second two).2 exact.2 both.2⟩⟩
  | @or left right _ _ first second =>
      obtain ⟨a, b, one, two, exact, filter⟩ := translate_or translated
      rw [truth_or, Kleene.disj_true, filter, accepts_or, Bool.or_eq_true, exact, Bool.and_eq_true]
      exact ⟨Or.imp (first one).1 (second two).1,
        fun exact => Or.imp ((first one).2 exact.1) ((second two).2 exact.2)⟩
  | aliased name _ ih =>
      simp only [translate] at translated
      rw [truth_alias]
      exact ih translated

theorem bounds_cover (regex : RegexEngine) {collection : List CollectionDoc} {sortedIds : List Bson} (n : Nat)
    (sampled : ∀ id ∈ sortedIds, ∃ doc ∈ collection, doc.id = id)
    (sorted : sortedIds.Pairwise fun a b => a.sortKey ≤ b.sortKey)
    (uniform : ∀ doc ∈ collection, ∀ other ∈ collection, doc.id.matchClass = other.id.matchClass)
    {doc : CollectionDoc} (member : doc ∈ collection) :
    (partitionBounds sortedIds n).countP (boundAccepts regex doc.document.fields) = 1 := by
  by_cases whole : n ≤ 1 ∨ sortedIds.length < 2
  · rw [partitionBounds, if_pos whole]
    simp [boundAccepts]
  · have kept : (CutPoints.dropRepeats Bson.eq (quantiles sortedIds n)).Sublist (quantiles sortedIds n) :=
      CutPoints.dropRepeats_sublist _
    have tests : (boundAccepts regex doc.document.fields ∘ fun range : Option Bson × Option Bson =>
        idRange range.1 range.2) = CutPoints.inRange Bson.matchClass Bson.sortKey doc.id := by
      funext range
      exact idRange_accepts regex doc range
    rw [partitionBounds_ranges (by omega) (by omega), List.countP_map, tests,
      CutPoints.countP_ranges (fun a b order => sortKey_matchClass order) ((quantiles_sorted (n := n) sorted).sublist kept)]
    intro cut inside
    obtain ⟨drawn, present, rfl⟩ := sampled cut (quantiles_mem (kept.subset inside))
    have same := uniform drawn present doc member
    exact ⟨fun earlier => absurd same earlier.ne, fun later => absurd same later.ne'⟩

/-- The predicate is as true on a row as on any other that agrees at the names. -/
def ReadsOnly (external : Expr → Row → Cell) (names : List String) (expr : Expr) : Prop :=
  ∀ row other : Row, (∀ name ∈ names, row.lookup name = other.lookup name) →
    expr.truth external row = expr.truth external other

theorem scan_schema {provider : MongoTableProvider} {available : Option Nat} {sampleIds : Nat → Option (List Bson)}
    {projection : Option (List Nat)} {filters : List Expr} {limit : Option Nat} {exec : MongoExec}
    (scanned : provider.scan available sampleIds projection filters limit = .ok exec) :
    projectSchema provider.schema projection = .ok exec.schema := by
  unfold MongoTableProvider.scan at scanned
  obtain ⟨fields, projected, built⟩ := bind_ok scanned
  cases built
  exact projected

section
variable {text : BsonText} {server : AggregationServer} (mongo : KeepsIncluded server.project)
  {schema : Schema} {projection : Option (List Nat)} {exec : MongoExec}
  (projected : projectSchema schema projection = .ok exec.schema)
include mongo projected

theorem paths_kept {field : Field} (column : field ∈ exec.schema) (doc : Document) :
    lookupPath (delivered server (exec.paths projection) doc) (fieldPath field) =
      lookupPath doc (fieldPath field) := by
  cases projection with
  | none => rfl
  | some indices => exact delivered_lookup server mongo (List.mem_map_of_mem column) doc

theorem decodeRow_delivered (doc : Document) :
    decodeRow text exec.schema (delivered server (exec.paths projection) doc) =
      selectColumns projection (decodeRow text schema doc) := by
  cases projection with
  | none =>
      cases projected
      rfl
  | some indices =>
      exact decodeRow_selected text server mongo ((projectSchema_picked projected).2 indices rfl) doc

/-- Any part of the collection is decoded row by row, whatever the batches. -/
theorem part_rows (decodable : ∀ field ∈ schema, field.dataType.decodable = true) {docs part : List Document}
    {whole : RecordBatch} (decoded : documentsToBatch text schema docs = .ok whole) (within : part.Sublist docs) :
    ∃ batches, (MongoExec.execute text exec.schema exec.batchSize
        (part.map (delivered server (exec.paths projection)))).mapM id = .ok batches ∧
      batches.flatMap RecordBatch.rows =
        part.map fun doc => decodeRow text exec.schema (delivered server (exec.paths projection) doc) := by
  have selected := (projectSchema_picked projected).1
  have slots : ∀ field ∈ exec.schema,
      (columnSlots field (part.map (delivered server (exec.paths projection)))).Sublist
        (columnSlots field docs) := by
    intro field column
    have same : columnSlots field (part.map (delivered server (exec.paths projection))) = columnSlots field part := by
      simp only [columnSlots, List.map_map]
      exact List.map_congr_left fun doc _ => paths_kept mongo projected column doc
    rw [same]
    exact within.map _
  obtain ⟨batch, done⟩ := decodes_part text decodable selected decoded slots
  obtain ⟨batches, items, rows⟩ := stream_rows text (fun field inside => decodable field (selected field inside))
    exec.batchSize done
  exact ⟨batches, items, by rw [rows, List.map_map]; rfl⟩

end

theorem limited_sublist (limit : Option Int64) (docs : List Document) : (limited limit docs).Sublist docs := by
  cases limit with
  | none => exact List.Sublist.refl _
  | some n => exact List.take_sublist _ _

theorem queryRows_answer {text : BsonText} {server : AggregationServer} (mongo : KeepsIncluded server.project)
    (external : Expr → Row → Cell) {provider : MongoTableProvider} {query : TableQuery} {exec : MongoExec}
    {docs : List Document} {whole : RecordBatch}
    (decodable : ∀ field ∈ provider.schema, field.dataType.decodable = true)
    (projected : projectSchema provider.schema query.projection = .ok exec.schema)
    (shape : ∀ plan ∈ exec.plans, plan.sort = [] ∧ plan.skip = none ∧ (∀ n, plan.limit = some n → 0 < n) ∧
      plan.projection = exec.paths query.projection)
    (decoded : documentsToBatch text provider.schema docs = .ok whole) :
    provider.queryRows server text external exec query docs =
      (provider.answer server text external exec query.filters docs).map fun found =>
        match query.limit with
        | none => found.map (decodeRow text exec.schema)
        | some l => (found.map (decodeRow text exec.schema)).take l := by
  have each : ∀ plan ∈ exec.plans, ∃ found, server.aggregate plan.toPipeline docs = some found ∧
      exec.partitionRows server text docs plan = some (found.map (decodeRow text exec.schema)) := by
    intro plan member
    obtain ⟨unsorted, unskipped, positive, paths⟩ := shape plan member
    have found := aggregate_plan server plan unsorted unskipped positive docs
    have within : (limited plan.limit (docs.filter (plan.passes server.regex))).Sublist docs :=
      (limited_sublist _ _).trans List.filter_sublist
    obtain ⟨batches, items, rows⟩ := part_rows mongo projected decodable decoded within
    rw [paths] at found
    refine ⟨_, found, ?_⟩
    rw [MongoExec.partitionRows, found, Option.bind_some, items, List.map_map]
    exact congrArg some rows
  have parts : ∀ plans : List MongoPlan, (∀ plan ∈ plans, plan ∈ exec.plans) →
      plans.mapM (exec.partitionRows server text docs) =
        (plans.mapM fun plan => server.aggregate plan.toPipeline docs).map
          (List.map (List.map (decodeRow text exec.schema))) := by
    intro plans inside
    induction plans with
    | nil => rfl
    | cons plan rest ih =>
        obtain ⟨found, answered, rows⟩ := each plan (inside plan (List.mem_cons_self ..))
        rw [List.mapM_cons, List.mapM_cons, answered, rows,
          ih fun other later => inside other (List.mem_cons_of_mem _ later)]
        cases rest.mapM fun plan => server.aggregate plan.toPipeline docs <;> rfl
  rw [MongoTableProvider.queryRows, parts _ fun _ inside => inside, MongoTableProvider.answer,
    AggregationServer.runPlans, Option.map_map, Option.map_map, Option.map_map]
  refine congrArg (Option.map · _) (funext fun found => ?_)
  simp only [Function.comp_apply, ← List.map_flatten, List.filter_map]
  rfl

section
variable (text : BsonText) (server : AggregationServer) (external : Expr → Row → Cell)
  (provider : MongoTableProvider) (query : TableQuery) (collection : List CollectionDoc) (maxDepth : Nat)

theorem pushable_honest {docs : List Document} (inferred : provider.schema = inferredSchema docs maxDepth)
    (plain : ∀ doc ∈ docs, doc.keysAll plainKey = true)
    (pushable : ∀ filter ∈ query.filters, Pushable provider.schema filter) :
    Honest server text external provider query.filters docs := by
  rw [inferred] at pushable
  intro filter inside t translated doc member
  rw [inferred] at translated
  simp only [sqlKeeps, beq_iff_eq, inferred]
  exact (pushable filter inside).keeps text external plain member translated

theorem reads_visible (mongo : KeepsIncluded server.project) {docs : List Document} {exec : MongoExec}
    (inferred : provider.schema = inferredSchema docs maxDepth)
    (projected : projectSchema provider.schema query.projection = .ok exec.schema)
    (reads : ∀ filter ∈ provider.residual query.filters,
      ReadsOnly external (exec.schema.map FieldOf.name) filter) :
    Visible server text external provider exec query.projection query.filters docs := by
  intro filter inside doc _
  refine congrArg (· == some true) (reads filter inside _ _ fun name column => ?_)
  obtain ⟨field, present, rfl⟩ := List.mem_map.mp column
  have whole : findField field.name provider.schema = some field := by
    have member := (projectSchema_picked projected).1 field present
    rw [inferred] at member ⊢
    exact findField_mem_finish member
  have own : findField field.name exec.schema = some field := by
    cases found : findField field.name exec.schema with
    | none =>
        have absent := List.find?_eq_none.mp found field present
        simp at absent
    | some other =>
        obtain ⟨among, named⟩ := findField_spec found
        have member := (projectSchema_picked projected).1 other among
        rw [inferred] at member whole
        have again := findField_mem_finish member
        rw [named, whole] at again
        exact again.symm
  rw [lookup_decodeRow, lookup_decodeRow, own, whole, Option.map_some, Option.map_some,
    paths_kept mongo projected present]

/-- The limit goes to the server only when no filter stays behind. -/
theorem found_documents {docs : List Document} {exec : MongoExec} {available : Option Nat}
    {sampleIds : Nat → Option (List Bson)} (honest : Honest server text external provider query.filters docs)
    (visible : Visible server text external provider exec query.projection query.filters docs)
    (covering : Covering server sampleIds docs) (pushed : provider.config.pushdown.filters = true)
    (positive : provider.config.pushdown.limits = true → query.limit ≠ some 0)
    (scanned : provider.planScan available sampleIds query = .ok exec) :
    let expected := (satisfying text external provider.schema query.filters docs).map
      (delivered server (exec.paths query.projection))
    (∀ plan ∈ exec.plans, plan.sort = [] ∧ plan.skip = none ∧ (∀ n, plan.limit = some n → 0 < n) ∧
        plan.projection = exec.paths query.projection) ∧
      ∃ found, provider.answer server text external exec query.filters docs = some found ∧
        (found.Perm expected ∨ ∃ l, query.limit = some l ∧ found = expected.take l) := by
  have passed := passing_pushed server text external provider pushed honest
  constructor
  · obtain ⟨partitions, plans, -⟩ := scan_plans provider scanned
    have sent := sentLimit_positive provider fun limits => show
        (if (provider.residual query.filters).isEmpty then query.limit else none) ≠ some 0 by
      split
      · exact positive limits
      · exact Option.some_ne_none 0 ∘ Eq.symm
    intro plan member
    rw [plans, List.mem_map] at member
    obtain ⟨partition, -, rfl⟩ := member
    exact ⟨rfl, rfl, sent, rfl⟩
  · cases sent : sentLimit provider (if (provider.residual query.filters).isEmpty then query.limit else none) with
    | none =>
        obtain ⟨found, answered, all⟩ :=
          answer_unlimited server text external provider visible covering sent scanned
        rw [passed] at all
        exact ⟨found, answered, .inl all⟩
    | some n =>
        obtain ⟨l, given, limits, -, same⟩ := sentLimit_some provider sent
        have exact : provider.residual query.filters = [] := by
          by_contra kept
          rw [if_neg (by simpa using kept)] at given
          cases given
        rw [MongoTableProvider.planScan, given] at scanned
        rw [given] at sent
        rw [exact, List.isEmpty_nil, if_pos rfl] at given
        have above : 0 < l := Nat.pos_of_ne_zero fun zero => positive limits (by rw [given, zero])
        have found := answer_limited server text external provider docs exact sent same above scanned
        rw [passed, List.map_take] at found
        exact ⟨_, found, .inr ⟨l, given, rfl⟩⟩

theorem rows_delivered (mongo : KeepsIncluded server.project) {docs : List Document} {exec : MongoExec}
    {whole : RecordBatch} (projected : projectSchema provider.schema query.projection = .ok exec.schema)
    (decoded : documentsToBatch text provider.schema docs = .ok whole) :
    query.rows external whole.rows =
      ((satisfying text external provider.schema query.filters docs).map
        (delivered server (exec.paths query.projection))).map (decodeRow text exec.schema) := by
  rw [TableQuery.rows, rows_decoded text decoded, List.filter_map, List.map_map, List.map_map]
  refine List.map_congr_left fun doc _ => ?_
  exact (decodeRow_delivered mongo projected doc).symm

/-- A query over a sampled collection is answered by the rows SQL asks for: pushing
filters and the limit, reading only the selected columns, cutting the scan into
partitions and the cursor into batches changes nothing but the order. -/
theorem query_answers (mongo : KeepsIncluded server.project) (available : Option Nat)
    (sampleIds : Nat → Option (List Bson)) (exec : MongoExec) (whole : RecordBatch)
    (inferred : provider.schema = inferredSchema (collection.map CollectionDoc.document) maxDepth)
    (plain : ∀ doc ∈ collection.map CollectionDoc.document, doc.keysAll plainKey = true)
    (pushable : ∀ filter ∈ query.filters, Pushable provider.schema filter)
    (reads : ∀ filter ∈ provider.residual query.filters,
      ReadsOnly external (exec.schema.map FieldOf.name) filter)
    (sampled : ∀ n ids, sampleIds n = some ids → (∀ id ∈ ids, ∃ doc ∈ collection, doc.id = id) ∧
      ids.Pairwise fun a b => a.sortKey ≤ b.sortKey)
    (uniform : ∀ doc ∈ collection, ∀ other ∈ collection, doc.id.matchClass = other.id.matchClass)
    (pushed : provider.config.pushdown.filters = true)
    (positive : provider.config.pushdown.limits = true → query.limit ≠ some 0)
    (decoded : documentsToBatch text provider.schema (collection.map CollectionDoc.document) = .ok whole)
    (scanned : provider.planScan available sampleIds query = .ok exec) :
    ∃ rows, provider.queryRows server text external exec query (collection.map CollectionDoc.document) = some rows ∧
      query.AnsweredBy external whole.rows rows := by
  generalize documents : collection.map CollectionDoc.document = docs at inferred plain decoded ⊢
  have projected := scan_schema scanned
  have decodable : ∀ field ∈ provider.schema, field.dataType.decodable = true := by
    rw [inferred]
    exact finish_decodable _ maxDepth
  have covering : Covering server sampleIds docs := by
    intro n ids drawn doc member
    rw [← documents] at member
    obtain ⟨stored, among, rfl⟩ := List.mem_map.mp member
    exact bounds_cover server.regex n (sampled n ids drawn).1 (sampled n ids drawn).2 uniform among
  obtain ⟨shape, found, answered, arranged⟩ := found_documents text server external provider query
    (pushable_honest text server external provider query maxDepth inferred plain pushable)
    (reads_visible text server external provider query maxDepth mongo inferred projected reads) covering pushed
    positive scanned
  have asked := rows_delivered text server external provider query mongo projected decoded
  rw [queryRows_answer mongo external decodable projected shape decoded, answered, Option.map_some]
  refine ⟨_, rfl, ?_⟩
  unfold TableQuery.AnsweredBy
  rw [asked]
  cases limit : query.limit with
  | none =>
      rcases arranged with all | ⟨l, given, -⟩
      · exact all.map _
      · rw [limit] at given
        cases given
  | some l =>
      rcases arranged with all | ⟨m, given, rfl⟩
      · have rows := all.map (decodeRow text exec.schema)
        exact ⟨(List.take_sublist _ _).subperm.trans rows.subperm, by rw [List.length_take, rows.length_eq]⟩
      · rw [limit, Option.some.injEq] at given
        subst given
        simp only [List.map_take, List.take_take, min_self]
        exact ⟨(List.take_sublist _ _).subperm, List.length_take⟩

end

def crate (n size : Int32) : CollectionDoc :=
  ⟨⟨[("_id", .int32 n), ("size", .int32 size)], rfl⟩, .int32 n, rfl, rfl⟩

def unsizedCrate (n : Int32) : CollectionDoc := ⟨⟨[("_id", .int32 n)], rfl⟩, .int32 n, rfl, rfl⟩

def crates : List CollectionDoc := [crate 1 1, crate 2 5, unsizedCrate 3]

/-- Two columns, scanned by two cursors. -/
def cratesTable : MongoTableProvider :=
  ⟨inferredSchema (crates.map CollectionDoc.document) 4, 3, ⟨⟨true, true, 2, 0, true⟩, 1⟩⟩

/-- No `$match` compares two fields, so this one stays with the planner. -/
def sizeReachesItself : Expr := .binaryExpr (.column "size") .gtEq (.column "size")

/-- `SELECT size FROM crates WHERE size > 0 AND size >= size LIMIT 1`. -/
def sizesQuery : TableQuery := ⟨some [1], [sizeIs .gt 0, sizeReachesItself], some 1⟩

theorem sizesQuery_pushable : ∀ filter ∈ sizesQuery.filters, Pushable cratesTable.schema filter := by
  have size : ∃ field, PlainColumn cratesTable.schema (.column "size") ["size"] field ∧ field.dataType = .int32 :=
    ⟨_, plainColumn_root (by decide) (by decide) (by decide), by decide⟩
  obtain ⟨field, column, dataType⟩ := size
  simp only [sizesQuery, List.forall_mem_cons, List.not_mem_nil, false_implies, implies_true, and_true]
  exact ⟨.leaf (.compare .gt rfl column ⟨_, rfl, by rw [dataType]; rfl⟩),
    .untranslated (Option.isNone_iff_eq_none.mp (by decide))⟩

theorem sizeReachesItself_reads (external : Expr → Row → Cell) {names : List String} (size : "size" ∈ names) :
    ReadsOnly external names sizeReachesItself := by
  intro row other agree
  simp only [Expr.truth, sizeReachesItself, Expr.eval, agree "size" size]

theorem query_answers_crates : ∃ exec whole rows,
    cratesTable.planScan none (fun _ => some sampledNumbers) sizesQuery = .ok exec ∧
      documentsToBatch plainText cratesTable.schema (crates.map CollectionDoc.document) = .ok whole ∧
      cratesTable.queryRows ⟨noRegex, fun _ docs => docs, includeDocument⟩ plainText noExternal exec sizesQuery
        (crates.map CollectionDoc.document) = some rows ∧
      sizesQuery.AnsweredBy noExternal whole.rows rows := by
  obtain ⟨exec, scanned⟩ := ok_of_isOk
    (x := cratesTable.planScan none (fun _ => some sampledNumbers) sizesQuery) (by decide)
  obtain ⟨whole, decoded⟩ := ok_of_isOk
    (x := documentsToBatch plainText cratesTable.schema (crates.map CollectionDoc.document)) (by decide)
  have columns : exec.schema.map FieldOf.name = ["size"] := by
    have named : (projectSchema cratesTable.schema sizesQuery.projection).toOption.map (List.map FieldOf.name) =
        some ["size"] := by decide
    rw [scan_schema scanned] at named
    exact Option.some.inj named
  obtain ⟨rows, answered, asked⟩ := query_answers plainText ⟨noRegex, fun _ docs => docs, includeDocument⟩ noExternal
    cratesTable sizesQuery crates 4 includeDocument_keeps none (fun _ => some sampledNumbers) exec whole rfl
    (by decide) sizesQuery_pushable
    (by
      have dropped : cratesTable.supportsFilterPushdown (sizeIs .gt 0) = .exact := by decide
      intro filter inside
      rw [residual_eq, List.mem_filter] at inside
      rcases List.mem_pair.mp inside.1 with rfl | rfl
      · simp [dropped] at inside
      · exact sizeReachesItself_reads _ (by simp [columns]))
    (by
      rintro n _ ⟨rfl⟩
      exact ⟨by simp [sampledNumbers, crates, crate], sampledNumbers_sorted⟩)
    (by decide) rfl (by decide) decoded scanned
  exact ⟨exec, whole, rows, scanned, decoded, answered, asked⟩

end Auger
