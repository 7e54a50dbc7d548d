import Auger.Infer
import Auger.General.KeyMap

set_option autoImplicit false

/-! The schema catalog: its in-memory tables, and the form they take on disk. -/

namespace Auger

open General

structure CollectionStats where
  docCount : Nat
  avgDocSize : Nat
  totalSize : Nat
  indexedPaths : List String
  deriving Repr

structure CachedTable where
  schema : Schema
  stats : CollectionStats
  /-- Unix seconds when this entry was inferred. -/
  inferredAt : Nat

/-- A stored field; `τ` is the type of stored types, tied below. -/
structure StoredFieldOf (τ : Type) where
  name : String
  ty : τ
  nullable : Bool
  metadata : List (String × String)

inductive StoredType
  | boolean | int32 | int64 | float64 | utf8 | binary
  | decimal (precision : Nat) (scale : Int)
  | timestampMs (tz : Option String)
  | struct (fields : List (StoredFieldOf StoredType))
  | list (item : StoredFieldOf StoredType)

abbrev StoredField := StoredFieldOf StoredType

structure StoredTable where
  fields : List StoredField
  stats : CollectionStats
  inferredAt : Nat

structure StoredCatalog where
  version : Nat
  tables : KeyMap StoredTable

def catalogVersion : Nat := 1

mutual
def StoredType.fromArrow : DataType → Option StoredType
  | .boolean => some .boolean
  | .int32 => some .int32
  | .int64 => some .int64
  | .float64 => some .float64
  | .utf8 => some .utf8
  | .binary => some .binary
  | .decimal128 precision scale => some (.decimal precision scale)
  | .timestamp .millisecond tz => some (.timestampMs tz)
  | .struct fields => (StoredField.allFromArrow fields).map .struct
  | .list item =>
      (StoredType.fromArrow item.dataType).map fun ty => .list ⟨item.name, ty, item.nullable, item.metadata⟩
  | _ => none
def StoredField.allFromArrow : List (FieldOf DataType) → Option (List (StoredFieldOf StoredType))
  | [] => some []
  | field :: rest =>
      match StoredType.fromArrow field.dataType, StoredField.allFromArrow rest with
      | some ty, some stored => some (⟨field.name, ty, field.nullable, field.metadata⟩ :: stored)
      | _, _ => none
end

mutual
def StoredType.toArrow : StoredType → DataType
  | .boolean => .boolean
  | .int32 => .int32
  | .int64 => .int64
  | .float64 => .float64
  | .utf8 => .utf8
  | .binary => .binary
  | .decimal precision scale => .decimal128 precision scale
  | .timestampMs tz => .timestamp .millisecond tz
  | .struct fields => .struct (StoredField.allToArrow fields)
  | .list item => .list ⟨item.name, StoredType.toArrow item.ty, item.nullable, item.metadata⟩
def StoredField.allToArrow : List (StoredFieldOf StoredType) → List (FieldOf DataType)
  | [] => []
  | stored :: rest =>
      ⟨stored.name, StoredType.toArrow stored.ty, stored.nullable, stored.metadata⟩ ::
        StoredField.allToArrow rest
end

def StoredField.fromArrow (field : Field) : Option StoredField :=
  (StoredType.fromArrow field.dataType).map fun ty => ⟨field.name, ty, field.nullable, field.metadata⟩

def StoredField.toArrow (stored : StoredField) : Field :=
  FieldOf.withMetadata ⟨stored.name, stored.ty.toArrow, stored.nullable, []⟩ stored.metadata

mutual
/-- What is read back is stored again as it was. -/
theorem fromArrow_toArrow (ty : StoredType) : StoredType.fromArrow ty.toArrow = some ty := by
  cases ty <;> simp only [StoredType.toArrow, StoredType.fromArrow]
  case struct fields => rw [allFromArrow_allToArrow fields, Option.map_some]
  case list item =>
    rcases item with ⟨name, ty, nullable, metadata⟩
    rw [fromArrow_toArrow ty, Option.map_some]
theorem allFromArrow_allToArrow (fields : List (StoredFieldOf StoredType)) :
    StoredField.allFromArrow (StoredField.allToArrow fields) = some fields := by
  cases fields with
  | nil => rfl
  | cons field rest =>
      rcases field with ⟨name, ty, nullable, metadata⟩
      simp only [StoredField.allToArrow, StoredField.allFromArrow, fromArrow_toArrow ty,
        allFromArrow_allToArrow rest]
end

mutual
/-- What is stored is read back as it was. -/
theorem toArrow_fromArrow (dataType : DataType) (stored : StoredType)
    (represented : StoredType.fromArrow dataType = some stored) : stored.toArrow = dataType := by
  cases dataType with
  | struct fields =>
      simp only [StoredType.fromArrow, Option.map_eq_some_iff] at represented
      obtain ⟨kept, all, rfl⟩ := represented
      rw [StoredType.toArrow, allToArrow_allFromArrow fields kept all]
  | list item =>
      rcases item with ⟨name, dataType, nullable, metadata⟩
      simp only [StoredType.fromArrow, Option.map_eq_some_iff] at represented
      obtain ⟨ty, inner, rfl⟩ := represented
      rw [StoredType.toArrow, toArrow_fromArrow dataType ty inner]
  | timestamp unit tz =>
      cases unit <;> simp only [StoredType.fromArrow, reduceCtorEq, Option.some.injEq] at represented
      subst represented
      rfl
  | largeUtf8 => cases represented
  | other display => cases represented
  | _ =>
      cases represented
      rfl
theorem allToArrow_allFromArrow (fields : List (FieldOf DataType)) (stored : List (StoredFieldOf StoredType))
    (represented : StoredField.allFromArrow fields = some stored) : StoredField.allToArrow stored = fields := by
  cases fields with
  | nil =>
      cases represented
      rfl
  | cons field rest =>
      rcases field with ⟨name, dataType, nullable, metadata⟩
      simp only [StoredField.allFromArrow] at represented
      cases first : StoredType.fromArrow dataType with
      | none => simp [first] at represented
      | some ty =>
          cases later : StoredField.allFromArrow rest with
          | none => simp [first, later] at represented
          | some others =>
              simp only [first, later, Option.some.injEq] at represented
              subst represented
              rw [StoredField.allToArrow, toArrow_fromArrow dataType ty first,
                allToArrow_allFromArrow rest others later]
end

def CachedTable.stored (table : CachedTable) : Option StoredTable :=
  (StoredField.allFromArrow table.schema).map fun fields => ⟨fields, table.stats, table.inferredAt⟩

def StoredTable.cached (table : StoredTable) : CachedTable :=
  ⟨StoredField.allToArrow table.fields, table.stats, table.inferredAt⟩

theorem stored_cached (table : StoredTable) : table.cached.stored = some table := by
  rw [CachedTable.stored, StoredTable.cached, allFromArrow_allToArrow, Option.map_some]

theorem cached_stored {table : CachedTable} {stored : StoredTable} (represented : table.stored = some stored) :
    stored.cached = table := by
  obtain ⟨fields, all, rfl⟩ := Option.map_eq_some_iff.mp represented
  rw [StoredTable.cached, allToArrow_allFromArrow _ _ all]

namespace CatalogStore

def key (db collection : String) : String := db ++ "." ++ collection

/-- The entry if it was inferred within `maxAge` seconds; zero never expires. -/
def getFresh (tables : KeyMap CachedTable) (key : String) (maxAge now : Nat) : Option CachedTable :=
  (tables.get key).bind fun entry =>
    if maxAge = 0 then some entry else if now - entry.inferredAt ≤ maxAge then some entry else none

/-- What `persist` copies out of the map under its lock. -/
def snapshot (tables : KeyMap CachedTable) : StoredCatalog :=
  ⟨catalogVersion, tables.filterMap CachedTable.stored⟩

/-- The tables `load_from` puts in place of what the map held under their keys. -/
def load (tables : KeyMap CachedTable) (stored : StoredCatalog) : KeyMap CachedTable :=
  if stored.version = catalogVersion then
    stored.tables.entries.foldl (fun tables entry => tables.insert entry.1 entry.2.cached) tables
  else tables

end CatalogStore

theorem get_foldl_insert {α : Type} (entries : List (String × α)) (distinct : SortedMap.Ordered entries)
    (wrap : α → CachedTable) (tables : KeyMap CachedTable) (query : String) :
    (entries.foldl (fun tables entry => tables.insert entry.1 (wrap entry.2)) tables).get query =
      ((entries.lookup query).map wrap).or (tables.get query) := by
  induction entries generalizing tables with
  | nil => rfl
  | cons entry rest ih =>
      rcases entry with ⟨key, value⟩
      rw [List.foldl_cons, ih (SortedMap.ordered_tail distinct), KeyMap.get_insert, List.lookup_cons]
      by_cases same : query = key
      · subst same
        have absent : rest.lookup query = none := by
          refine SortedMap.lookup_eq_none.mpr fun other inside equal => ?_
          exact absurd (SortedMap.head_lt distinct other inside) (by rw [equal]; exact lt_irrefl _)
        simp [absent]
      · have differ : (query == key) = false := by simpa using same
        simp [same, differ]

theorem get_load {stored : StoredCatalog} (current : stored.version = catalogVersion)
    (tables : KeyMap CachedTable) (query : String) :
    (CatalogStore.load tables stored).get query =
      ((stored.tables.get query).map StoredTable.cached).or (tables.get query) := by
  rw [CatalogStore.load, if_pos current]
  exact get_foldl_insert _ stored.tables.ordered StoredTable.cached tables query

theorem get_snapshot (tables : KeyMap CachedTable) (query : String) :
    (CatalogStore.snapshot tables).tables.get query = (tables.get query).bind CachedTable.stored :=
  KeyMap.get_filterMap _ tables query

end Auger
