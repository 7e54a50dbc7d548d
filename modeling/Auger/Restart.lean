import Auger.Drift
import Auger.StoredText

set_option autoImplicit false

/-! Restarting on the catalog file a single writer has left. -/

namespace Auger

open General

/-- The nesting `serde_json` reads by default. -/
def recursionLimit : Nat := 128

/-- What is relied on of `serde_json::from_str`: it inverts `to_string_pretty` on
catalogs whose text is not nested deeper than the limit, and refuses the others. -/
structure ReadsBack (limit : Nat) (fromStr : String → Option StoredCatalog) : Prop where
  /-- A table without columns is within the limit. -/
  room : 5 ≤ limit
  accepts : ∀ catalog : StoredCatalog, catalog.toJson.depth ≤ limit → fromStr catalog.text = some catalog
  refuses : ∀ catalog : StoredCatalog, limit < catalog.toJson.depth → fromStr catalog.text = none

/-- The catalog map of a process and the file it writes through to. -/
structure CatalogStore where
  tables : KeyMap CachedTable
  file : Option String

namespace CatalogStore

/-- `CatalogStore::new`: an unreadable file is ignored. -/
def new (fromStr : String → Option StoredCatalog) (file : Option String) : CatalogStore :=
  { tables := match file.bind fromStr with
      | some stored => load KeyMap.empty stored
      | none => KeyMap.empty
    file }

def persist (store : CatalogStore) : CatalogStore :=
  { store with file := some (snapshot store.tables).text }

def put (store : CatalogStore) (entry : String × CachedTable) : CatalogStore :=
  { store with tables := store.tables.insert entry.1 entry.2 }.persist

end CatalogStore

/-- A collection inferred and put into the catalog. -/
structure InferredPut where
  key : String
  sample : List Document
  stats : CollectionStats
  inferredAt : Nat

def InferredPut.entry (maxDepth : Nat) (put : InferredPut) : String × CachedTable :=
  (put.key, ⟨(Sampler.observeAll put.sample).finish maxDepth, put.stats, put.inferredAt⟩)

def putAll (maxDepth : Nat) (puts : List InferredPut) : CatalogStore :=
  puts.foldl (fun store put => store.put (put.entry maxDepth)) ⟨KeyMap.empty, none⟩

/-- The file is readable, and a new process on it knows every table. -/
def Restarts (fromStr : String → Option StoredCatalog) (store : CatalogStore) : Prop :=
  (∀ raw, store.file = some raw → (fromStr raw).isSome) ∧
    ∀ key table, store.tables.get key = some table →
      (CatalogStore.new fromStr store.file).tables.get key = some table

mutual
/-- The arrays and objects one inside another in the stored form of a type. -/
def DataType.storedLevels : DataType → Nat
  | .struct children => 2 + childrenLevels children
  | .list item => 2 + item.dataType.storedLevels
  | _ => 1
def childrenLevels : List (FieldOf DataType) → Nat
  | [] => 0
  | child :: rest => max (1 + child.dataType.storedLevels) (childrenLevels rest)
end

theorem DataType.storedLevels_pos (dataType : DataType) : 0 < dataType.storedLevels := by
  cases dataType <;> simp only [DataType.storedLevels] <;> omega

/-- Every column's levels fit under those of the catalog around it. -/
def NestingFits (limit : Nat) (schema : Schema) : Prop :=
  ∀ field ∈ schema, 5 + field.dataType.storedLevels ≤ limit

theorem metadataJson_depth (metadata : List (String × String)) : (metadataJson metadata).depth = 1 := by
  have flat : Json.membersDepth (metadata.map fun entry => (entry.1, Json.string entry.2)) ≤ 0 := by
    rw [Json.membersDepth_le]
    intro member inside
    obtain ⟨entry, -, rfl⟩ := List.mem_map.mp inside
    rfl
  simp only [metadataJson, Json.depth]
  omega

theorem fieldJson_depth (name : String) {ty : Json} (nullable : Bool) (metadata : List (String × String))
    (nested : 0 < ty.depth) : (fieldJson name ty nullable metadata).depth = 1 + ty.depth := by
  simp only [fieldJson, Json.depth, Json.membersDepth, metadataJson_depth]
  omega

mutual
theorem toJson_depth (ty : StoredType) : ty.toJson.depth = ty.toArrow.storedLevels := by
  cases ty with
  | struct fields =>
      simp only [StoredType.toJson, StoredType.toArrow, DataType.storedLevels, Json.depth, Json.membersDepth,
        allToJson_depth fields]
      omega
  | list item =>
      rcases item with ⟨name, ty, nullable, metadata⟩
      have inner := toJson_depth ty
      have positive := ty.toArrow.storedLevels_pos
      simp only [StoredType.toJson, StoredType.toArrow, DataType.storedLevels, Json.depth, Json.membersDepth,
        fieldJson_depth name nullable metadata (inner ▸ positive), inner]
      omega
  | decimal precision scale => rfl
  | timestampMs tz => cases tz <;> rfl
  | _ => rfl
theorem allToJson_depth (fields : List (StoredFieldOf StoredType)) :
    Json.itemsDepth (StoredField.allToJson fields) = childrenLevels (StoredField.allToArrow fields) := by
  cases fields with
  | nil => rfl
  | cons field rest =>
      rcases field with ⟨name, ty, nullable, metadata⟩
      have inner := toJson_depth ty
      have positive := ty.toArrow.storedLevels_pos
      simp only [StoredField.allToJson, StoredField.allToArrow, Json.itemsDepth, childrenLevels,
        fieldJson_depth name nullable metadata (inner ▸ positive), inner, allToJson_depth rest]
end

theorem childrenLevels_le {fields : List Field} {n : Nat} :
    childrenLevels fields ≤ n ↔ ∀ field ∈ fields, 1 + field.dataType.storedLevels ≤ n := by
  induction fields with
  | nil => simp [childrenLevels]
  | cons field rest ih => simp only [childrenLevels, max_le_iff, ih, List.forall_mem_cons]

theorem statsJson_depth (stats : CollectionStats) : stats.toJson.depth = 2 := by
  have flat : Json.itemsDepth (stats.indexedPaths.map .string) ≤ 0 := by
    rw [Json.itemsDepth_le]
    intro item inside
    obtain ⟨path, -, rfl⟩ := List.mem_map.mp inside
    rfl
  simp only [CollectionStats.toJson, Json.depth, Json.membersDepth, Json.ofNat]
  omega

theorem tableJson_depth_le {limit : Nat} (room : 5 ≤ limit) (table : StoredTable) :
    2 + table.toJson.depth ≤ limit ↔ NestingFits limit table.cached.schema := by
  have fields := @childrenLevels_le table.cached.schema (limit - 4)
  calc
    2 + table.toJson.depth ≤ limit ↔ childrenLevels table.cached.schema ≤ limit - 4 := by
      simp only [StoredTable.toJson, Json.depth, Json.membersDepth, Json.ofNat, statsJson_depth, allToJson_depth,
        StoredTable.cached]
      omega
    _ ↔ NestingFits limit table.cached.schema := by
      rw [fields, NestingFits]
      refine forall₂_congr fun field _ => ?_
      omega

theorem catalogJson_depth_le {limit : Nat} (room : 5 ≤ limit) (catalog : StoredCatalog) :
    catalog.toJson.depth ≤ limit ↔
      ∀ entry ∈ catalog.tables.entries, NestingFits limit entry.2.cached.schema := by
  have tables := @Json.membersDepth_le (catalog.tables.entries.map fun entry => (entry.1, entry.2.toJson)) (limit - 2)
  rw [List.forall_mem_map] at tables
  calc
    catalog.toJson.depth ≤ limit ↔
        Json.membersDepth (catalog.tables.entries.map fun entry => (entry.1, entry.2.toJson)) ≤ limit - 2 := by
      simp only [StoredCatalog.toJson, Json.depth, Json.membersDepth, Json.ofNat]
      omega
    _ ↔ ∀ entry ∈ catalog.tables.entries, NestingFits limit entry.2.cached.schema := by
      rw [tables]
      refine forall₂_congr fun entry _ => ?_
      rw [← tableJson_depth_le room]
      change entry.2.toJson.depth ≤ limit - 2 ↔ _
      omega

mutual
theorem fromArrow_decodable (dataType : DataType) (decodable : dataType.decodable = true) :
    ∃ stored, StoredType.fromArrow dataType = some stored := by
  cases dataType with
  | struct children =>
      simp only [DataType.decodable, Bool.and_eq_true] at decodable
      obtain ⟨stored, all⟩ := allFromArrow_decodable children decodable.2
      exact ⟨.struct stored, by simp only [StoredType.fromArrow, all, Option.map_some]⟩
  | list item =>
      rcases item with ⟨name, dataType, nullable, metadata⟩
      simp only [DataType.decodable, Bool.and_eq_true] at decodable
      obtain ⟨stored, inner⟩ := fromArrow_decodable dataType decodable.2
      refine ⟨.list ⟨name, stored, nullable, metadata⟩, ?_⟩
      simp only [StoredType.fromArrow, inner, Option.map_some]
  | timestamp unit timezone =>
      cases unit with
      | millisecond => exact ⟨_, rfl⟩
      | _ => cases decodable
  | largeUtf8 => cases decodable
  | other display => cases decodable
  | _ => exact ⟨_, rfl⟩
theorem allFromArrow_decodable (fields : List (FieldOf DataType)) (decodable : childrenDecodable fields = true) :
    ∃ stored, StoredField.allFromArrow fields = some stored := by
  cases fields with
  | nil => exact ⟨[], rfl⟩
  | cons field rest =>
      rcases field with ⟨name, dataType, nullable, metadata⟩
      simp only [childrenDecodable, Bool.and_eq_true] at decodable
      obtain ⟨first, one⟩ := fromArrow_decodable dataType decodable.1.2
      obtain ⟨others, later⟩ := allFromArrow_decodable rest decodable.2
      refine ⟨⟨name, first, nullable, metadata⟩ :: others, ?_⟩
      simp only [StoredField.allFromArrow, one, later]
end

/-- Schemas whose columns all have a stored form. -/
def Storable (schema : Schema) : Prop := ∃ stored, StoredField.allFromArrow schema = some stored

theorem allFromArrow_storable {fields : List Field}
    (each : ∀ field ∈ fields, ∃ stored, StoredType.fromArrow field.dataType = some stored) : Storable fields := by
  induction fields with
  | nil => exact ⟨[], rfl⟩
  | cons field rest ih =>
      obtain ⟨first, one⟩ := each field (List.mem_cons_self ..)
      obtain ⟨others, later⟩ := ih fun other inside => each other (List.mem_cons_of_mem _ inside)
      refine ⟨⟨field.name, first, field.nullable, field.metadata⟩ :: others, ?_⟩
      simp only [StoredField.allFromArrow, one, later]

theorem finish_storable (sampler : Sampler) (maxDepth : Nat) : Storable (sampler.finish maxDepth) := by
  apply allFromArrow_storable
  intro field inside
  exact fromArrow_decodable _ (finish_decodable sampler maxDepth field inside)

structure Persisted (maxDepth : Nat) (store : CatalogStore) : Prop where
  inferred : ∀ key table, store.tables.get key = some table →
    ∃ sampler : Sampler, table.schema = sampler.finish maxDepth
  written : store.file = none ∧ store.tables = KeyMap.empty ∨
    store.file = some (CatalogStore.snapshot store.tables).text

theorem Persisted.stored {maxDepth : Nat} {store : CatalogStore} (persisted : Persisted maxDepth store) {key : String}
    {table : CachedTable} (found : store.tables.get key = some table) : ∃ stored, table.stored = some stored := by
  obtain ⟨sampler, same⟩ := persisted.inferred key table found
  obtain ⟨fields, all⟩ := finish_storable sampler maxDepth
  exact ⟨_, by rw [CachedTable.stored, same, all, Option.map_some]⟩

theorem put_persisted {maxDepth : Nat} {store : CatalogStore} (persisted : Persisted maxDepth store)
    (put : InferredPut) : Persisted maxDepth (store.put (put.entry maxDepth)) := by
  constructor
  · intro key table found
    simp only [CatalogStore.put, CatalogStore.persist, KeyMap.get_insert] at found
    split_ifs at found with same
    · cases found
      exact ⟨_, rfl⟩
    · exact persisted.inferred key table found
  · exact .inr rfl

theorem putAll_persisted (maxDepth : Nat) (puts : List InferredPut) : Persisted maxDepth (putAll maxDepth puts) := by
  have run : ∀ store, Persisted maxDepth store →
      Persisted maxDepth (puts.foldl (fun store put => store.put (put.entry maxDepth)) store) := by
    induction puts with
    | nil => exact fun store persisted => persisted
    | cons put rest ih => exact fun store persisted => ih _ (put_persisted persisted put)
  apply run
  constructor
  · intro key table found
    cases found
  · exact .inl ⟨rfl, rfl⟩

theorem mem_snapshot {tables : KeyMap CachedTable} {entry : String × StoredTable}
    (inside : entry ∈ (CatalogStore.snapshot tables).tables.entries) :
    tables.get entry.1 = some entry.2.cached := by
  rcases entry with ⟨key, stored⟩
  have found : (CatalogStore.snapshot tables).tables.get key = some stored :=
    SortedMap.lookup_of_mem (CatalogStore.snapshot tables).tables.ordered inside
  rw [get_snapshot, Option.bind_eq_some_iff] at found
  obtain ⟨table, held, represented⟩ := found
  rw [held, cached_stored represented]

theorem snapshot_fits (limit : Nat) {maxDepth : Nat} {store : CatalogStore} (persisted : Persisted maxDepth store) :
    (∀ entry ∈ (CatalogStore.snapshot store.tables).tables.entries, NestingFits limit entry.2.cached.schema) ↔
      ∀ key table, store.tables.get key = some table → NestingFits limit table.schema := by
  constructor
  · intro fits key table found
    obtain ⟨kept, stored⟩ := persisted.stored found
    have held : (CatalogStore.snapshot store.tables).tables.get key = some kept := by
      rw [get_snapshot, found, Option.bind_some, stored]
    have here := fits _ (SortedMap.mem_of_lookup held)
    rwa [cached_stored stored] at here
  · intro fits entry inside
    exact fits entry.1 _ (mem_snapshot inside)

theorem get_new {fromStr : String → Option StoredCatalog} {maxDepth : Nat} {store : CatalogStore}
    (persisted : Persisted maxDepth store) {text : String}
    (accepted : fromStr text = some (CatalogStore.snapshot store.tables))
    {key : String} {table : CachedTable} (found : store.tables.get key = some table) :
    (CatalogStore.new fromStr (some text)).tables.get key = some table := by
  obtain ⟨kept, stored⟩ := persisted.stored found
  simp only [CatalogStore.new, Option.bind_some, accepted]
  rw [get_load rfl, get_snapshot, found, Option.bind_some, stored, Option.map_some, cached_stored stored]
  rfl

theorem restarts_iff {limit : Nat} {fromStr : String → Option StoredCatalog} (serde : ReadsBack limit fromStr)
    {maxDepth : Nat} {store : CatalogStore} (persisted : Persisted maxDepth store) :
    Restarts fromStr store ↔ ∀ key table, store.tables.get key = some table → NestingFits limit table.schema := by
  rcases persisted.written with ⟨absent, nothing⟩ | written
  · have empty : ∀ key, store.tables.get key = none := by
      intro key
      rw [nothing]
      rfl
    refine ⟨fun _ key table found => ?_, fun _ => ⟨fun raw held => ?_, fun key table found => ?_⟩⟩
    · cases (empty key).symm.trans found
    · cases absent.symm.trans held
    · cases (empty key).symm.trans found
  · rw [← snapshot_fits limit persisted, ← catalogJson_depth_le serde.room]
    constructor
    · intro restarts
      by_contra deep
      have readable := restarts.1 _ written
      rw [serde.refuses _ (Nat.lt_of_not_le deep)] at readable
      cases readable
    · intro fits
      have accepted := serde.accepts _ fits
      refine ⟨fun raw held => ?_, fun key table found => ?_⟩
      · rw [written, Option.some.injEq] at held
        rw [← held, accepted]
        rfl
      · rw [written]
        exact get_new persisted accepted found

/-- Whatever was put is there after a restart exactly when no column of it is
stored deeper than the reader goes. -/
theorem restart_restores_iff {limit : Nat} {fromStr : String → Option StoredCatalog} (serde : ReadsBack limit fromStr)
    (maxDepth : Nat) (puts : List InferredPut) :
    Restarts fromStr (putAll maxDepth puts) ↔
      ∀ key table, (putAll maxDepth puts).tables.get key = some table → NestingFits limit table.schema :=
  restarts_iff serde (putAll_persisted maxDepth puts)

mutual
/-- A struct takes three levels of the stored form, a list two. -/
theorem arrowType_levels (shape : Shape) (path : String) (depth maxDepth : Nat) :
    (arrowType shape path depth maxDepth).1.storedLevels ≤ 1 + 3 * (maxDepth - depth) := by
  cases shape with
  | document children =>
      simp only [arrowType]
      split_ifs with nested
      · have inner := buildFields_levels children path (maxPresent children) (depth + 1) maxDepth
        simp only [DataType.storedLevels]
        omega
      · exact Nat.le_add_right _ _
  | array inner =>
      simp only [arrowType]
      split_ifs with nested
      · have item := arrowType_levels inner path (depth + 1) maxDepth
        simp only [DataType.storedLevels]
        omega
      · exact Nat.le_add_right _ _
  | _ => exact Nat.le_add_right _ _
theorem buildFields_levels (children : List (String × FieldShapeOf Shape)) (path : String)
    (total depth maxDepth : Nat) :
    childrenLevels (buildFields children path total depth maxDepth) ≤ 2 + 3 * (maxDepth - depth) := by
  cases children with
  | nil => exact Nat.zero_le _
  | cons entry rest =>
      rcases entry with ⟨key, shape, present, nulls, mixed⟩
      have first := arrowType_levels shape (path ++ "." ++ key) depth maxDepth
      have later := buildFields_levels rest path total depth maxDepth
      simp only [buildFields, childrenLevels, fieldAround]
      omega
end

theorem finish_fits (sampler : Sampler) {limit maxDepth : Nat} (shallow : 6 + 3 * maxDepth ≤ limit) :
    NestingFits limit (sampler.finish maxDepth) := by
  intro field inside
  obtain ⟨name, fs, -, rfl⟩ := mem_finish inside
  have levels := arrowType_levels fs.shape name 0 maxDepth
  simp only [buildField, fieldAround]
  omega

theorem restart_restores_shallow {limit : Nat} {fromStr : String → Option StoredCatalog}
    (serde : ReadsBack limit fromStr) {maxDepth : Nat} (shallow : 6 + 3 * maxDepth ≤ limit) (puts : List InferredPut) :
    Restarts fromStr (putAll maxDepth puts) := by
  have persisted := putAll_persisted maxDepth puts
  refine (restarts_iff serde persisted).mpr fun key table found => ?_
  obtain ⟨sampler, same⟩ := persisted.inferred key table found
  rw [same]
  exact finish_fits sampler shallow

open Classical in
/-- A reader that inverts the writer up to the limit. -/
noncomputable def readCatalog (text : String) : Option StoredCatalog :=
  if found : ∃ catalog : StoredCatalog, catalog.text = text ∧ catalog.toJson.depth ≤ recursionLimit then
    some found.choose
  else none

theorem readCatalog_readsBack : ReadsBack recursionLimit readCatalog := by
  constructor
  · decide
  · intro catalog fits
    have found : ∃ other : StoredCatalog, other.text = catalog.text ∧ other.toJson.depth ≤ recursionLimit :=
      ⟨catalog, rfl, fits⟩
    rw [readCatalog, dif_pos found, StoredCatalog.text_injective found.choose_spec.1]
  · intro catalog deep
    refine dif_neg ?_
    rintro ⟨other, same, fits⟩
    rw [StoredCatalog.text_injective same] at fits
    omega

mutual
/-- The documents and arrays one inside another. -/
def Bson.nesting : Bson → Nat
  | .document fields => 1 + fieldsNesting fields
  | .javaScriptCodeWithScope _ scope => 1 + fieldsNesting scope
  | .array items => 1 + itemsNesting items
  | _ => 0
def fieldsNesting : List (String × Bson) → Nat
  | [] => 0
  | (_, value) :: rest => max value.nesting (fieldsNesting rest)
def itemsNesting : List Bson → Nat
  | [] => 0
  | value :: rest => max value.nesting (itemsNesting rest)
end

def Document.nesting (doc : Document) : Nat := 1 + fieldsNesting doc.fields

/-- `n` documents one inside another around a number. -/
def chain : Nat → Bson
  | 0 => .int32 1
  | n + 1 => .document [("a", chain n)]

theorem chain_distinct (n : Nat) : (chain n).distinctKeys = true := by
  induction n with
  | zero => rfl
  | succ n ih => simp [chain, Bson.distinctKeys, fieldsDistinct, ih]

def chainDocument (n : Nat) : Document := ⟨[("a", chain n)], by simp [fieldsDistinct, chain_distinct]⟩

theorem chain_nesting (n : Nat) : (chain n).nesting = n := by
  induction n with
  | zero => rfl
  | succ n ih =>
      simp only [chain, Bson.nesting, fieldsNesting, ih]
      omega

theorem chain_slot (n : Nat) :
    observeShape FieldShapeOf.empty (chain n).isNull (shapeOf (chain n)) = ⟨shapeOf (chain n), 1, 0, false⟩ := by
  have known : (chain n).isNull = false := by cases n <;> rfl
  simp [observeShape, known, FieldShapeOf.empty]

theorem chain_levels (n : Nat) (path : String) (depth maxDepth : Nat) (room : depth + n ≤ maxDepth) :
    (arrowType (shapeOf (chain n)) path depth maxDepth).1.storedLevels = 1 + 3 * n := by
  induction n generalizing path depth with
  | zero => rfl
  | succ n ih =>
      have shape : shapeOf (chain (n + 1)) = .document [("a", ⟨shapeOf (chain n), 1, 0, false⟩)] := by
        simp only [chain, shapeOf, shapeOfFields, chain_slot]
        rfl
      have inner := ih (path ++ "." ++ "a") (depth + 1) (by omega)
      have below : depth < maxDepth := by omega
      simp only [shape, arrowType, below, ne_eq, List.cons_ne_nil, not_false_eq_true, and_self, if_true,
        DataType.storedLevels, childrenLevels, buildFields, fieldAround, inner]
      omega

def deepPut (n : Nat) : InferredPut := ⟨"shop.orders", [chainDocument n], ⟨1, 100, 100, []⟩, 0⟩

theorem deepPut_column (n maxDepth : Nat) :
    (Sampler.observeAll [chainDocument n]).finish maxDepth =
      [buildField "a" "a" ⟨shapeOf (chain n), 1, 0, false⟩ 1 0 maxDepth] := by
  have root : Sampler.observeAll [chainDocument n] = ⟨[("a", ⟨shapeOf (chain n), 1, 0, false⟩)], 1⟩ := by
    simp only [Sampler.observeAll, Sampler.observe, Sampler.new, chainDocument, observeValue, List.foldl_cons,
      List.foldl_nil, List.lookup_nil, Option.getD_none, chain_slot, Nat.zero_add]
    rfl
  rw [root]
  rfl

theorem deepPut_fits {n maxDepth limit : Nat} (room : n ≤ maxDepth)
    (fits : NestingFits limit ((deepPut n).entry maxDepth).2.schema) : 6 + 3 * n ≤ limit := by
  have levels := chain_levels n "a" 0 maxDepth (by omega)
  rw [InferredPut.entry, deepPut, deepPut_column] at fits
  have column := fits _ (List.mem_singleton_self _)
  simp only [buildField, fieldAround, levels] at column
  omega

theorem put_found (maxDepth : Nat) (put : InferredPut) :
    (putAll maxDepth [put]).tables.get put.key = some (put.entry maxDepth).2 := by
  rw [putAll, List.foldl_cons, List.foldl_nil, CatalogStore.put, CatalogStore.persist, KeyMap.get_insert]
  exact if_pos rfl

theorem restart_loses_tables : ¬∀ fromStr, ReadsBack recursionLimit fromStr → ∀ (maxDepth : Nat) (puts : List InferredPut),
    (∀ put ∈ puts, ∀ doc ∈ put.sample, doc.nesting ≤ 100) → Restarts fromStr (putAll maxDepth puts) := by
  intro holds
  have storable : ∀ put ∈ [deepPut 45], ∀ doc ∈ put.sample, doc.nesting ≤ 100 := by
    simp [deepPut, chainDocument, Document.nesting, fieldsNesting, chain_nesting]
  have restarts := holds readCatalog readCatalog_readsBack 60 [deepPut 45] storable
  have fits := (restarts_iff readCatalog_readsBack (putAll_persisted 60 [deepPut 45])).mp restarts
    "shop.orders" _ (put_found 60 (deepPut 45))
  have levels := deepPut_fits (by omega) fits
  rw [recursionLimit] at levels
  omega

/-- Documents nested three deep, at the default depth of inference. -/
theorem restart_restores_iff_orders : Restarts readCatalog (putAll 4 [deepPut 3]) := by
  refine (restart_restores_iff readCatalog_readsBack 4 [deepPut 3]).mpr fun key table found => ?_
  obtain ⟨sampler, same⟩ := (putAll_persisted 4 [deepPut 3]).inferred key table found
  rw [same]
  exact finish_fits sampler (by decide)

end Auger
