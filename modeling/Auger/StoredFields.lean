import Auger.Store

set_option autoImplicit false

/-! The fields the catalog can store, and the stored form read back. -/

namespace Auger

/-- The ten kinds of types with a stored form, whatever they hold inside. -/
def DataType.supported : DataType → Bool
  | .boolean | .int32 | .int64 | .float64 | .utf8 | .binary => true
  | .decimal128 _ _ | .timestamp .millisecond _ | .struct _ | .list _ => true
  | _ => false

/-- The types inside a type: itself, and those inside the fields of a struct and the item
of a list. -/
inductive DataType.Inside : DataType → DataType → Prop
  | here (dataType : DataType) : Inside dataType dataType
  | struct {inner : DataType} {fields : List Field} {field : Field} (member : field ∈ fields)
      (within : Inside inner field.dataType) : Inside inner (.struct fields)
  | list {inner : DataType} {item : Field} (within : Inside inner item.dataType) : Inside inner (.list item)

/-- Every type inside a type has a stored form. -/
def DataType.AllSupported (dataType : DataType) : Prop :=
  ∀ inner : DataType, inner.Inside dataType → inner.supported = true

theorem allFromArrow_mapM (fields : List Field) :
    StoredField.allFromArrow fields = fields.mapM StoredField.fromArrow := by
  induction fields with
  | nil => rfl
  | cons field rest ih =>
      rw [StoredField.allFromArrow, List.mapM_cons, ih, StoredField.fromArrow]
      cases StoredType.fromArrow field.dataType with
      | none => rfl
      | some ty => cases rest.mapM StoredField.fromArrow <;> rfl

theorem fromArrow_struct (fields : List Field) :
    StoredType.fromArrow (.struct fields) = (fields.mapM StoredField.fromArrow).map .struct := by
  rw [StoredType.fromArrow, allFromArrow_mapM]

theorem fromArrow_list (item : Field) :
    StoredType.fromArrow (.list item) = (StoredField.fromArrow item).map .list := by
  rw [StoredType.fromArrow, StoredField.fromArrow, Option.map_map]
  rfl

theorem fromArrow_isSome (field : Field) :
    (StoredField.fromArrow field).isSome = (StoredType.fromArrow field.dataType).isSome := by
  rw [StoredField.fromArrow, Option.isSome_map]

theorem mapM_isSome {fields : List Field} :
    (fields.mapM StoredField.fromArrow).isSome = true ↔
      ∀ field ∈ fields, (StoredType.fromArrow field.dataType).isSome = true := by
  induction fields with
  | nil => simp
  | cons field rest ih =>
      rw [List.mapM_cons, List.forall_mem_cons, ← ih, ← fromArrow_isSome]
      cases StoredField.fromArrow field with
      | none => simp
      | some stored => cases rest.mapM StoredField.fromArrow <;> simp

theorem allSupported_struct {fields : List Field} :
    (DataType.struct fields).AllSupported ↔ ∀ field ∈ fields, field.dataType.AllSupported := by
  constructor
  · intro all field member inner within
    exact all inner (.struct member within)
  · intro each inner within
    cases within with
    | here => rfl
    | struct member within => exact each _ member inner within

theorem allSupported_list {item : Field} : (DataType.list item).AllSupported ↔ item.dataType.AllSupported := by
  constructor
  · intro all inner within
    exact all inner (.list within)
  · intro each inner within
    cases within with
    | here => rfl
    | list within => exact each inner within

theorem allSupported_leaf {dataType : DataType} (alone : ∀ inner : DataType, inner.Inside dataType → inner = dataType) :
    dataType.AllSupported ↔ dataType.supported = true := by
  constructor
  · exact fun all => all dataType (.here dataType)
  · intro kept inner within
    rw [alone inner within]
    exact kept

mutual
/-- A type is stored exactly when every type inside it can be. -/
theorem fromArrow_isSome_iff (dataType : DataType) :
    (StoredType.fromArrow dataType).isSome = true ↔ dataType.AllSupported := by
  cases dataType with
  | struct fields =>
      rw [fromArrow_struct, Option.isSome_map, mapM_isSome, allSupported_struct]
      exact allFromArrow_isSome_iff fields
  | list item =>
      rcases item with ⟨name, dataType, nullable, metadata⟩
      rw [fromArrow_list, Option.isSome_map, fromArrow_isSome, allSupported_list]
      exact fromArrow_isSome_iff dataType
  | timestamp unit tz =>
      rw [allSupported_leaf fun inner within => by cases within; rfl]
      cases unit <;> simp [StoredType.fromArrow, DataType.supported]
  | _ =>
      rw [allSupported_leaf fun inner within => by cases within; rfl]
      simp [StoredType.fromArrow, DataType.supported]
theorem allFromArrow_isSome_iff (fields : List (FieldOf DataType)) :
    (∀ field ∈ fields, (StoredType.fromArrow field.dataType).isSome = true) ↔
      ∀ field ∈ fields, field.dataType.AllSupported := by
  cases fields with
  | nil => simp
  | cons field rest =>
      rcases field with ⟨name, dataType, nullable, metadata⟩
      rw [List.forall_mem_cons, List.forall_mem_cons, fromArrow_isSome_iff dataType, allFromArrow_isSome_iff rest]
end

/-- A stored field is read back as it was, and a field has no stored form exactly when a
type inside it has none. -/
theorem stored_field_lossless (field : Field) :
    (∀ stored, StoredField.fromArrow field = some stored → stored.toArrow = field) ∧
    (StoredField.fromArrow field = none ↔
      ∃ inner : DataType, inner.Inside field.dataType ∧ inner.supported = false) := by
  constructor
  · intro stored represented
    obtain ⟨ty, same, rfl⟩ := Option.map_eq_some_iff.mp represented
    rw [StoredField.toArrow, toArrow_fromArrow field.dataType ty same, FieldOf.withMetadata]
  · have given : (StoredField.fromArrow field).isSome = true ↔ field.dataType.AllSupported := by
      rw [fromArrow_isSome]
      exact fromArrow_isSome_iff field.dataType
    rw [← Option.not_isSome_iff_eq_none, given, DataType.AllSupported]
    simp only [not_forall, Bool.not_eq_true, exists_prop]

end Auger
