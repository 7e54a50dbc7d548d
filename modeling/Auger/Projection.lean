import Auger.Aggregation
import Auger.Drift

set_option autoImplicit false

/-! Decoding the selected columns from what the server sends for them. -/

namespace Auger

open General

theorem lookupPath_eq (doc : Document) (path : String) : lookupPath doc path = valueAt doc (pathParts path) := by
  have follow : ∀ (parts : List String) (v : Bson),
      lookupRest v parts = parts.foldl (fun v key => childSlot key v) (some v) := by
    have missing : ∀ parts : List String, parts.foldl (fun v key => childSlot key v) none = none := by
      intro parts
      induction parts with
      | nil => rfl
      | cons part parts ih => exact ih
    intro parts
    induction parts with
    | nil =>
        intro v
        cases v <;> rfl
    | cons part parts ih =>
        intro v
        cases v
        case document fields =>
          rw [lookupRest, List.foldl_cons, childSlot_document]
          cases found : fields.lookup part with
          | none => exact (missing parts).symm
          | some next => exact ih next
        all_goals exact (missing parts).symm
  rw [lookupPath, valueAt, ← follow]
  cases parts : pathParts path with
  | nil => exact absurd (List.map_eq_nil_iff.mp parts) (splitDots_ne_nil path.toList)
  | cons first parts => rfl

/-- A path that runs through another. -/
def PathBelow (start path : String) : Prop := ∃ rest, path = start ++ "." ++ rest

theorem PathBelow.length {start path : String} (below : PathBelow start path) : start.length < path.length := by
  obtain ⟨rest, rfl⟩ := below
  have dot : ".".length = 1 := rfl
  rw [String.length_append, String.length_append, dot]
  omega

theorem isStrictPrefix_iff {start path : String} : isStrictPrefix start path = true ↔ PathBelow start path := by
  simp only [isStrictPrefix, Bool.and_eq_true, decide_eq_true_eq, beq_iff_eq, List.isPrefixOf_iff_prefix]
  constructor
  · rintro ⟨⟨-, tail, same⟩, dot⟩
    rw [← same, ← String.length_toList, List.getElem?_append_right le_rfl, Nat.sub_self] at dot
    obtain ⟨more, rfl⟩ : ∃ more, tail = '.' :: more := by
      cases tail with
      | nil => cases dot
      | cons c more => exact ⟨more, by rw [Option.some.inj dot]⟩
    refine ⟨String.ofList more, ?_⟩
    rw [← String.toList_inj, String.toList_append, String.toList_append, String.toList_ofList, ← same]
    simp
  · intro below
    have shorter := below.length
    obtain ⟨rest, rfl⟩ := below
    have chars : (start ++ "." ++ rest).toList = start.toList ++ '.' :: rest.toList := by
      simp [String.toList_append]
    refine ⟨⟨shorter, ?_⟩, ?_⟩
    · rw [chars]
      exact List.prefix_append ..
    · rw [chars, ← String.length_toList, List.getElem?_append_right le_rfl, Nat.sub_self]
      rfl

theorem PathBelow.parts {start path : String} (below : PathBelow start path) :
    ∃ more, pathParts path = pathParts start ++ more := by
  obtain ⟨rest, rfl⟩ := below
  exact ⟨pathParts rest, pathParts_join start rest⟩

theorem PathBelow.agree {start path : String} (below : PathBelow start path) {doc other : Document}
    (agree : lookupPath other start = lookupPath doc start) : lookupPath other path = lookupPath doc path := by
  obtain ⟨more, parts⟩ := below.parts
  rw [lookupPath_eq, lookupPath_eq] at agree ⊢
  simp only [valueAt] at agree ⊢
  rw [parts, List.foldl_append, List.foldl_append, agree]

namespace Fields

theorem mem_insert_self (key : String) (value : Bson) (fields : Fields) : (key, value) ∈ insert key value fields := by
  induction fields with
  | nil => exact List.mem_singleton_self _
  | cons entry rest ih =>
      rcases entry with ⟨k, v⟩
      simp only [insert]
      split_ifs with same
      · rw [same]
        exact List.mem_cons_self ..
      · exact List.mem_cons_of_mem _ ih

theorem mem_insert {key : String} {value : Bson} {fields : Fields} {entry : String × Bson}
    (inside : entry ∈ insert key value fields) : entry = (key, value) ∨ entry ∈ fields := by
  induction fields with
  | nil => exact .inl (List.mem_singleton.mp inside)
  | cons other rest ih =>
      rcases other with ⟨k, v⟩
      simp only [insert] at inside
      split_ifs at inside with same
      · rcases List.mem_cons.mp inside with rfl | later
        · rw [same]
          exact .inl rfl
        · exact .inr (List.mem_cons_of_mem _ later)
      · rcases List.mem_cons.mp inside with rfl | later
        · exact .inr (List.mem_cons_self ..)
        · exact (ih later).imp_right (List.mem_cons_of_mem _)

theorem mem_insert_other {key : String} {value : Bson} {fields : Fields} {entry : String × Bson}
    (inside : entry ∈ fields) (differ : entry.1 ≠ key) : entry ∈ insert key value fields := by
  induction fields with
  | nil => cases inside
  | cons other rest ih =>
      rcases other with ⟨k, v⟩
      simp only [insert]
      rcases List.mem_cons.mp inside with rfl | later
      · rw [if_neg differ]
        exact List.mem_cons_self ..
      · split_ifs
        · exact List.mem_cons_of_mem _ later
        · exact List.mem_cons_of_mem _ (ih later)

end Fields

/-- The paths listed for inclusion. -/
def keptPaths (paths : List String) : List String :=
  paths.filter fun path => !paths.any fun other => isStrictPrefix other path

theorem mem_keptPaths {paths : List String} {path : String} :
    path ∈ keptPaths paths ↔ path ∈ paths ∧ ∀ other ∈ paths, ¬PathBelow other path := by
  simp only [keptPaths, List.mem_filter, Bool.not_eq_true', List.any_eq_false, isStrictPrefix_iff]

theorem kept_above {paths : List String} {path : String} (requested : path ∈ paths) :
    ∃ kept ∈ keptPaths paths, kept = path ∨ PathBelow kept path := by
  induction length : path.length using Nat.strongRecOn generalizing path with
  | ind n ih =>
      by_cases alone : ∀ other ∈ paths, ¬PathBelow other path
      · exact ⟨path, mem_keptPaths.mpr ⟨requested, alone⟩, .inl rfl⟩
      · obtain ⟨other, listed, below⟩ : ∃ other ∈ paths, PathBelow other path := by
          simpa using alone
        obtain ⟨kept, inside, above⟩ := ih other.length (length ▸ below.length) listed rfl
        refine ⟨kept, inside, .inr ?_⟩
        rcases above with rfl | above
        · exact below
        · obtain ⟨first, rfl⟩ := above
          obtain ⟨second, rfl⟩ := below
          exact ⟨first ++ "." ++ second, by simp [String.append_assoc]⟩

theorem mem_included {paths : List String} {start : Fields} {entry : String × Bson} :
    entry ∈ paths.foldl (fun projection path => Fields.insert path (.int32 1) projection) start →
      (∃ path ∈ paths, entry = (path, .int32 1)) ∨ entry ∈ start := by
  induction paths generalizing start with
  | nil => exact .inr
  | cons path rest ih =>
      intro inside
      rcases ih inside with ⟨other, listed, rfl⟩ | earlier
      · exact .inl ⟨other, List.mem_cons_of_mem _ listed, rfl⟩
      · rcases Fields.mem_insert earlier with rfl | old
        · exact .inl ⟨path, List.mem_cons_self .., rfl⟩
        · exact .inr old

theorem included_mem {paths : List String} {start : Fields} {path : String}
    (listed : path ∈ paths ∨ (path, Bson.int32 1) ∈ start) :
    (path, Bson.int32 1) ∈ paths.foldl (fun projection path => Fields.insert path (.int32 1) projection) start := by
  induction paths generalizing start with
  | nil => simpa using listed
  | cons first rest ih =>
      rw [List.foldl_cons]
      apply ih
      by_cases same : path = first
      · rw [same]
        exact .inr (Fields.mem_insert_self ..)
      · rcases listed with inside | old
        · exact .inl ((List.mem_cons.mp inside).resolve_left same)
        · exact .inr (Fields.mem_insert_other old same)

/-- An inclusion projection the server accepts: paths marked 1, `_id` perhaps
marked 0, and no path running through another. -/
structure Inclusion (spec : Fields) : Prop where
  marks : ∀ entry ∈ spec, entry.2 = .int32 1 ∨ entry = ("_id", .int32 0)
  apart : ∀ first ∈ spec, ∀ second ∈ spec, ¬PathBelow first.1 second.1

theorem projectionDoc_eq (paths : List String) :
    projectionDoc paths =
      let projection : Fields :=
        (keptPaths paths).foldl (fun projection path => Fields.insert path (.int32 1) projection) []
      if (keptPaths paths).any fun path => path == "_id" || "_id.".toList.isPrefixOf path.toList then projection
      else Fields.insert "_id" (.int32 0) projection := rfl

theorem id_below {path : String} (below : PathBelow "_id" path) : "_id.".toList.isPrefixOf path.toList = true := by
  obtain ⟨rest, rfl⟩ := below
  rw [List.isPrefixOf_iff_prefix, String.toList_append]
  exact List.prefix_append ..

theorem not_below_id {path : String} : ¬PathBelow path "_id" := by
  rintro ⟨rest, same⟩
  have dot : '.' ∈ (path ++ "." ++ rest).toList := by simp [String.toList_append]
  rw [← same] at dot
  revert dot
  decide

theorem keptPaths_apart {paths : List String} {first second : String} (one : first ∈ keptPaths paths)
    (two : second ∈ keptPaths paths) : ¬PathBelow first second :=
  (mem_keptPaths.mp two).2 first (mem_keptPaths.mp one).1

theorem projectionDoc_inclusion (paths : List String) : Inclusion (projectionDoc paths) := by
  rw [projectionDoc_eq]
  simp only
  split_ifs with wanted
  · constructor
    · intro entry inside
      rcases mem_included inside with ⟨path, -, rfl⟩ | nothing
      · exact .inl rfl
      · cases nothing
    · intro first one second two
      rcases mem_included one with ⟨path, listed, rfl⟩ | nothing
      · rcases mem_included two with ⟨other, listed', rfl⟩ | nothing
        · exact keptPaths_apart listed listed'
        · cases nothing
      · cases nothing
  · have listing : ∀ entry ∈ Fields.insert "_id" (.int32 0)
        ((keptPaths paths).foldl (fun projection path => Fields.insert path (.int32 1) projection) []),
          entry = ("_id", .int32 0) ∨ ∃ path ∈ keptPaths paths, entry = (path, .int32 1) := by
      intro entry inside
      rcases Fields.mem_insert inside with rfl | earlier
      · exact .inl rfl
      · rcases mem_included earlier with included | nothing
        · exact .inr included
        · cases nothing
    constructor
    · intro entry inside
      rcases listing entry inside with rfl | ⟨path, -, rfl⟩
      · exact .inr rfl
      · exact .inl rfl
    · intro first one second two
      rcases listing first one with rfl | ⟨path, listed, rfl⟩ <;>
        rcases listing second two with rfl | ⟨other, listed', rfl⟩
      · exact not_below_id
      · intro below
        refine wanted (List.any_eq_true.mpr ⟨other, listed', ?_⟩)
        rw [id_below below, Bool.or_true]
      · exact not_below_id
      · exact keptPaths_apart listed listed'

theorem projectionDoc_lists {paths : List String} {path : String} (kept : path ∈ keptPaths paths) :
    (path, Bson.int32 1) ∈ projectionDoc paths := by
  have included : (path, Bson.int32 1) ∈
      (keptPaths paths).foldl (fun projection path => Fields.insert path (.int32 1) projection) [] :=
    included_mem (.inl kept)
  rw [projectionDoc_eq]
  simp only
  split_ifs with wanted
  · exact included
  · refine Fields.mem_insert_other included ?_
    rintro rfl
    exact wanted (List.any_eq_true.mpr ⟨"_id", kept, rfl⟩)

/-- What is relied on of the server's `$project`: an included path holds what it held. -/
structure KeepsIncluded (project : Fields → Document → Document) : Prop where
  keeps : ∀ spec, Inclusion spec → ∀ path, (path, .int32 1) ∈ spec → ∀ doc,
    lookupPath (project spec doc) path = lookupPath doc path

/-- Every requested path survives the projection, kept or pruned. -/
theorem delivered_lookup (server : AggregationServer) (mongo : KeepsIncluded server.project) {paths : List String}
    {path : String} (requested : path ∈ paths) (doc : Document) :
    lookupPath (delivered server paths doc) path = lookupPath doc path := by
  have nonempty : paths.isEmpty = false := by
    cases paths with
    | nil => cases requested
    | cons first rest => rfl
  obtain ⟨kept, listed, above⟩ := kept_above requested
  have agree := mongo.keeps _ (projectionDoc_inclusion paths) kept (projectionDoc_lists listed) doc
  rw [delivered, nonempty]
  rcases above with rfl | below
  · exact agree
  · exact below.agree agree

theorem projectFields_ok (schema : Schema) (indices : List Nat) (inRange : ∀ i ∈ indices, i < schema.length) :
    ∃ fields, projectFields schema indices = .ok fields ∧
      List.Forall₂ (fun i field => schema[i]? = some field) indices fields := by
  induction indices with
  | nil => exact ⟨[], rfl, .nil⟩
  | cons i rest ih =>
      obtain ⟨fields, done, each⟩ := ih fun j inside => inRange j (List.mem_cons_of_mem _ inside)
      have bound := inRange i (List.mem_cons_self ..)
      refine ⟨schema[i] :: fields, ?_, .cons (List.getElem?_eq_getElem bound) each⟩
      simp only [projectFields, List.getElem?_eq_getElem bound, done]
      rfl

theorem projectSchema_picked {schema fields : Schema} {projection : Option (List Nat)}
    (projected : projectSchema schema projection = .ok fields) :
    (∀ field ∈ fields, field ∈ schema) ∧
      ∀ indices, projection = some indices →
        List.Forall₂ (fun i field => schema[i]? = some field) indices fields := by
  cases projection with
  | none =>
      cases projected
      exact ⟨fun _ inside => inside, fun indices given => by cases given⟩
  | some indices =>
      have picked : List.Forall₂ (fun i field => schema[i]? = some field) indices fields := by
        change projectFields schema indices = .ok fields at projected
        induction indices generalizing fields with
        | nil =>
            cases projected
            exact .nil
        | cons i rest ih =>
            rw [projectFields] at projected
            cases found : schema[i]? with
            | none =>
                rw [found] at projected
                cases projected
            | some field =>
                cases later : projectFields schema rest with
                | error e =>
                    rw [found, later] at projected
                    cases projected
                | ok others =>
                    rw [found, later] at projected
                    cases projected
                    exact .cons found (ih later)
      constructor
      · intro field inside
        obtain ⟨position, bound, same⟩ := List.getElem_of_mem inside
        have here := picked.get (picked.length_eq ▸ bound) bound
        rw [← same]
        exact List.mem_of_getElem? here
      · rintro _ ⟨rfl⟩
        exact picked

section
variable (text : BsonText)

theorem buildColumns_eq (schema : Schema) (docs : List Document) (columns : List ArrayData) :
    buildColumns text schema docs = .ok columns ↔
      List.Forall₂ (fun field column => buildArray text field (columnSlots field docs) = .ok column) schema columns := by
  induction schema generalizing columns with
  | nil =>
      simp only [buildColumns, Except.ok.injEq, List.forall₂_nil_left_iff]
      exact eq_comm
  | cons field rest ih =>
      constructor
      · intro built
        simp only [buildColumns] at built
        obtain ⟨column, first, built⟩ := bind_ok built
        obtain ⟨others, later, built⟩ := bind_ok built
        cases built
        exact .cons first ((ih others).mp later)
      · intro each
        cases each with
        | @cons _ column _ others first later =>
            have built := (ih others).mpr later
            simp only [buildColumns]
            rw [show docs.map (fun doc => lookupPath doc (fieldPath field)) = columnSlots field docs from rfl, first,
              built]
            rfl

theorem columnSlots_delivered (server : AggregationServer) (mongo : KeepsIncluded server.project) {fields : Schema}
    {field : Field} (selected : field ∈ fields) (docs : List Document) :
    columnSlots field (docs.map (delivered server (fields.map fieldPath))) = columnSlots field docs := by
  simp only [columnSlots, List.map_map]
  apply List.map_congr_left
  intro doc _
  exact delivered_lookup server mongo (List.mem_map_of_mem selected) doc

theorem selected_columns {schema fields : Schema} {docs : List Document} {columns selection : List ArrayData}
    {indices : List Nat} (picked : List.Forall₂ (fun i field => schema[i]? = some field) indices fields)
    (all : List.Forall₂ (fun field column => buildArray text field (columnSlots field docs) = .ok column)
      schema columns)
    (some_of : List.Forall₂ (fun field column => buildArray text field (columnSlots field docs) = .ok column)
      fields selection) :
    selection.map some = indices.map (columns[·]?) := by
  induction picked generalizing selection with
  | nil =>
      cases some_of
      rfl
  | @cons i field indices fields here _ ih =>
      cases some_of with
      | @cons _ column _ others first later =>
          obtain ⟨bound, same⟩ := List.getElem?_eq_some_iff.mp here
          have inside : i < columns.length := all.length_eq ▸ bound
          have built := all.get bound inside
          simp only [List.get_eq_getElem, same] at built
          have equal : columns[i] = column := Except.ok.inj (built.symm.trans first)
          rw [List.map_cons, List.map_cons, ih later, List.getElem?_eq_getElem inside, equal]

end

/-- A scan that only projects. -/
def projectionPlan (fields : Schema) : MongoPlan := ⟨none, none, fields.map fieldPath, [], none, none⟩

/-- Decoding the selected columns from the projected documents gives what selecting
them from the decoded documents gives. -/
theorem projection_commutes (text : BsonText) (server : AggregationServer) (mongo : KeepsIncluded server.project)
    (sample : List Document) (maxDepth : Nat) (indices : List Nat)
    (inRange : ∀ i ∈ indices, i < (inferredSchema sample maxDepth).length) (docs : List Document)
    {whole : RecordBatch} (decoded : documentsToBatch text (inferredSchema sample maxDepth) docs = .ok whole) :
    ∃ fields returned batch, projectSchema (inferredSchema sample maxDepth) (some indices) = .ok fields ∧
      server.aggregate (projectionPlan fields).toPipeline docs = some returned ∧
      documentsToBatch text fields returned = .ok batch ∧
      batch.columns.map some = indices.map (whole.columns[·]?) ∧ batch.numRows = whole.numRows := by
  obtain ⟨fields, projected, picked⟩ := projectFields_ok _ indices inRange
  obtain ⟨columns, built, rfl⟩ := documentsToBatch_columns text decoded
  have decodable := finish_decodable (Sampler.observeAll sample) maxDepth
  have inSchema : ∀ field ∈ fields, field ∈ inferredSchema sample maxDepth := by
    intro field inside
    obtain ⟨position, bound, same⟩ := List.getElem_of_mem inside
    have here := picked.get (picked.length_eq ▸ bound) bound
    rw [← same]
    exact List.mem_of_getElem? here
  have conditions := (documentsToBatch_isOk text decodable docs).mp ⟨_, decoded, rfl⟩
  let returned := docs.map (delivered server (fields.map fieldPath))
  have slots : ∀ field ∈ fields, columnSlots field returned = columnSlots field docs :=
    fun field selected => columnSlots_delivered server mongo selected docs
  obtain ⟨batch, done, -⟩ := (documentsToBatch_isOk text (fun field inside => decodable field (inSchema field inside))
    returned).mpr ⟨fun field inside => by rw [slots field inside]; exact conditions.1 field (inSchema field inside),
      fun field inside => by rw [slots field inside]; exact conditions.2 field (inSchema field inside)⟩
  obtain ⟨selection, assembled, rfl⟩ := documentsToBatch_columns text done
  refine ⟨fields, returned, _, projected, ?_, done, ?_, ?_⟩
  · rw [aggregate_plan server (projectionPlan fields) rfl rfl (by simp [projectionPlan])]
    have passing : docs.filter ((projectionPlan fields).passes server.regex) = docs :=
      List.filter_eq_self.mpr fun _ _ => rfl
    simp only [passing]
    rfl
  · have same : List.Forall₂ (fun field column => buildArray text field (columnSlots field docs) = .ok column)
        fields selection := by
      have there := (buildColumns_eq text fields returned selection).mp assembled
      refine ((List.forall₂_and_left fields selection).mpr ⟨slots, there⟩).imp fun field column both => ?_
      rw [← both.1]
      exact both.2
    exact selected_columns text picked ((buildColumns_eq text _ docs columns).mp built) same
  · simp [returned]

/-- What the paths ask for below a key. -/
def pathsBelow (key : String) (paths : List (List String)) : List (List String) :=
  paths.filterMap fun
    | first :: rest => if first = key then some rest else none
    | [] => none

mutual
/-- Keeps the values along the paths: whole where a path ends, else what is
requested inside, in every element of an array. -/
def includeFields (paths : List (List String)) : List (String × Bson) → List (String × Bson)
  | [] => []
  | (key, value) :: rest =>
      let below := pathsBelow key paths
      if below.isEmpty then includeFields paths rest
      else if below.any List.isEmpty then (key, value) :: includeFields paths rest
      else (includeValue below value).toList.map (key, ·) ++ includeFields paths rest
def includeValue (paths : List (List String)) : Bson → Option Bson
  | .document fields => some (.document (includeFields paths fields))
  | .array items => some (.array (includeItems paths items))
  | _ => none
def includeItems (paths : List (List String)) : List Bson → List Bson
  | [] => []
  | item :: rest => (includeValue paths item).toList ++ includeItems paths rest
end

/-- The paths an inclusion asks for: `_id` too, unless suppressed or asked for in part. -/
def requestedPaths (spec : Fields) : List (List String) :=
  let listed := (spec.filter fun entry => entry.2.eq (.int32 1)).map fun entry => pathParts entry.1
  if (spec.lookup "_id").isSome || listed.any (fun parts => parts.head? == some "_id") then listed
  else ["_id"] :: listed

theorem mem_includeFields_key {paths : List (List String)} {fields : Fields} {entry : String × Bson}
    (inside : entry ∈ includeFields paths fields) : ∃ old ∈ fields, old.1 = entry.1 := by
  induction fields with
  | nil => cases inside
  | cons first rest ih =>
      rcases first with ⟨key, value⟩
      simp only [includeFields] at inside
      split_ifs at inside
      · obtain ⟨old, member, same⟩ := ih inside
        exact ⟨old, List.mem_cons_of_mem _ member, same⟩
      · rcases List.mem_cons.mp inside with rfl | later
        · exact ⟨_, List.mem_cons_self .., rfl⟩
        · obtain ⟨old, member, same⟩ := ih later
          exact ⟨old, List.mem_cons_of_mem _ member, same⟩
      · rcases List.mem_append.mp inside with here | later
        · obtain ⟨kept, -, rfl⟩ := List.mem_map.mp here
          exact ⟨_, List.mem_cons_self .., rfl⟩
        · obtain ⟨old, member, same⟩ := ih later
          exact ⟨old, List.mem_cons_of_mem _ member, same⟩

mutual
theorem includeFields_distinct (paths : List (List String)) (fields : List (String × Bson))
    (distinct : fieldsDistinct fields = true) : fieldsDistinct (includeFields paths fields) = true := by
  cases fields with
  | nil => rfl
  | cons first rest =>
      rcases first with ⟨key, value⟩
      simp only [fieldsDistinct, Bool.and_eq_true, Bool.not_eq_true', List.any_eq_false, beq_iff_eq] at distinct
      have later := includeFields_distinct paths rest distinct.2
      have absent : ∀ entry ∈ includeFields paths rest, ¬entry.1 = key := by
        intro entry inside same
        obtain ⟨old, member, named⟩ := mem_includeFields_key inside
        exact distinct.1.1 old member (named.trans same)
      simp only [includeFields]
      split_ifs
      · exact later
      · simp only [fieldsDistinct, Bool.and_eq_true, Bool.not_eq_true', List.any_eq_false, beq_iff_eq]
        exact ⟨⟨absent, distinct.1.2⟩, later⟩
      · have inner := includeValue_distinct (pathsBelow key paths) value distinct.1.2
        cases kept : includeValue (pathsBelow key paths) value with
        | none => exact later
        | some v =>
            simp only [Option.toList_some, List.map_cons, List.map_nil, List.cons_append, List.nil_append,
              fieldsDistinct, Bool.and_eq_true, Bool.not_eq_true', List.any_eq_false, beq_iff_eq]
            exact ⟨⟨absent, inner v kept⟩, later⟩
theorem includeValue_distinct (paths : List (List String)) (value : Bson) (distinct : value.distinctKeys = true) :
    ∀ v, includeValue paths value = some v → v.distinctKeys = true := by
  cases value with
  | document fields =>
      intro v kept
      cases kept
      exact includeFields_distinct paths fields distinct
  | array items =>
      intro v kept
      cases kept
      exact includeItems_distinct paths items distinct
  | _ =>
      intro v kept
      cases kept
theorem includeItems_distinct (paths : List (List String)) (items : List Bson)
    (distinct : itemsDistinct items = true) : itemsDistinct (includeItems paths items) = true := by
  cases items with
  | nil => rfl
  | cons item rest =>
      simp only [itemsDistinct, Bool.and_eq_true] at distinct
      have inner := includeValue_distinct paths item distinct.1
      have later := includeItems_distinct paths rest distinct.2
      simp only [includeItems]
      cases kept : includeValue paths item with
      | none => exact later
      | some v =>
          simp only [Option.toList_some, List.cons_append, List.nil_append, itemsDistinct, Bool.and_eq_true]
          exact ⟨inner v kept, later⟩
end

def includeDocument (spec : Fields) (doc : Document) : Document :=
  ⟨includeFields (requestedPaths spec) doc.fields, includeFields_distinct _ _ doc.distinct⟩

theorem lookup_includeFields (paths : List (List String)) {fields : Fields} (distinct : fieldsDistinct fields = true)
    (query : String) :
    (includeFields paths fields).lookup query =
      (fields.lookup query).bind fun value =>
        if (pathsBelow query paths).isEmpty then none
        else if (pathsBelow query paths).any List.isEmpty then some value
        else includeValue (pathsBelow query paths) value := by
  induction fields with
  | nil => rfl
  | cons first rest ih =>
      rcases first with ⟨key, value⟩
      simp only [fieldsDistinct, Bool.and_eq_true, Bool.not_eq_true', List.any_eq_false, beq_iff_eq] at distinct
      have later := ih distinct.2
      by_cases same : query = key
      · subst same
        have absent : (includeFields paths rest).lookup query = none := by
          refine List.lookup_eq_none_iff.mpr fun entry inside => ?_
          obtain ⟨old, member, named⟩ := mem_includeFields_key inside
          have differ := distinct.1.1 old member
          rw [named] at differ
          simpa using Ne.symm differ
        rw [List.lookup_cons_self, Option.bind_some]
        simp only [includeFields]
        split_ifs
        · exact absent
        · exact List.lookup_cons_self
        · cases includeValue (pathsBelow query paths) value with
          | none => exact absent
          | some v => simp
      · have differ : (query == key) = false := by simpa using same
        rw [List.lookup_cons, differ]
        refine Eq.trans ?_ later
        simp only [includeFields]
        split_ifs
        · rfl
        · rw [List.lookup_cons, differ]
        · cases includeValue (pathsBelow key paths) value with
          | none => rfl
          | some v => simp [List.lookup_cons, differ]

theorem include_follow (parts : List String) (nonempty : parts ≠ []) (paths : List (List String))
    (included : parts ∈ paths) (fields : Fields) (distinct : fieldsDistinct fields = true) :
    parts.foldl (fun v key => childSlot key v) (some (.document (includeFields paths fields))) =
      parts.foldl (fun v key => childSlot key v) (some (.document fields)) := by
  induction parts generalizing paths fields with
  | nil => exact absurd rfl nonempty
  | cons key rest ih =>
      have below : rest ∈ pathsBelow key paths := by
        refine List.mem_filterMap.mpr ⟨_, included, ?_⟩
        exact if_pos rfl
      have present : (pathsBelow key paths).isEmpty = false := by
        cases listed : pathsBelow key paths with
        | nil =>
            rw [listed] at below
            cases below
        | cons first others => rfl
      simp only [List.foldl_cons, childSlot_document, lookup_includeFields paths distinct]
      cases found : fields.lookup key with
      | none => rfl
      | some value =>
          simp only [Option.bind_some, present, Bool.false_eq_true, if_false]
          split_ifs with whole
          · rfl
          · have further : rest ≠ [] := by
              rintro rfl
              exact whole (List.any_eq_true.mpr ⟨[], below, rfl⟩)
            cases value
            case document inner => exact ih further _ below inner (fieldsDistinct_mem distinct (SortedMap.mem_of_lookup found))
            all_goals
              obtain ⟨next, others, rfl⟩ := List.exists_cons_of_ne_nil further
              simp only [includeValue, List.foldl_cons, childSlot]

theorem includeDocument_keeps : KeepsIncluded includeDocument := by
  constructor
  intro spec _ path listed doc
  rw [lookupPath_eq, lookupPath_eq]
  refine include_follow (pathParts path) ?_ _ ?_ doc.fields doc.distinct
  · exact fun nothing => splitDots_ne_nil path.toList (List.map_eq_nil_iff.mp nothing)
  · have inside : pathParts path ∈ (spec.filter fun entry => entry.2.eq (.int32 1)).map fun entry => pathParts entry.1 :=
      List.mem_map.mpr ⟨(path, .int32 1), List.mem_filter.mpr ⟨listed, rfl⟩, rfl⟩
    simp only [requestedPaths]
    split_ifs
    · exact inside
    · exact List.mem_cons_of_mem _ inside

/-- Three columns: `_id`, `tags` and `to`. -/
def parcels : List Document :=
  [⟨[("_id", .int32 1), ("to", .string "Oslo"), ("tags", .array [.string "a", .string "b"])], rfl⟩,
    ⟨[("_id", .int32 2), ("to", .string "Bergen")], rfl⟩]

theorem projection_commutes_parcels :
    ∃ whole fields returned batch, documentsToBatch plainText (inferredSchema parcels 4) parcels = .ok whole ∧
      projectSchema (inferredSchema parcels 4) (some [2, 1, 2]) = .ok fields ∧
      (AggregationServer.mk noRegex (fun _ docs => docs) includeDocument).aggregate
        (projectionPlan fields).toPipeline parcels = some returned ∧
      documentsToBatch plainText fields returned = .ok batch ∧
      batch.columns.map some = [2, 1, 2].map (whole.columns[·]?) ∧ batch.numRows = whole.numRows := by
  obtain ⟨whole, decoded⟩ : ∃ whole, documentsToBatch plainText (inferredSchema parcels 4) parcels = .ok whole :=
    ⟨_, rfl⟩
  have columns : (inferredSchema parcels 4).length = 3 := rfl
  have inRange : ∀ i ∈ [2, 1, 2], i < (inferredSchema parcels 4).length := by
    rw [columns]
    decide
  obtain ⟨fields, returned, batch, done⟩ := projection_commutes plainText
    ⟨noRegex, fun _ docs => docs, includeDocument⟩ includeDocument_keeps parcels 4 [2, 1, 2] inRange parcels decoded
  exact ⟨whole, fields, returned, batch, decoded, done⟩

end Auger
