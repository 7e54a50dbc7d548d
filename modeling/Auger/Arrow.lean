import Auger.Bson
import Mathlib.Algebra.Order.Ring.Int

set_option autoImplicit false

/-! The part of Arrow that inference and decoding build: types, fields, arrays
and record batches, with the checks their constructors make. -/

namespace Auger

inductive TimeUnit
  | second | millisecond | microsecond | nanosecond
  deriving DecidableEq, Repr

/-- A named, typed slot; `δ` is the type of types, tied below. -/
structure FieldOf (δ : Type) where
  name : String
  dataType : δ
  nullable : Bool
  metadata : List (String × String)
  deriving Repr

inductive DataType
  | boolean | int32 | int64 | float64 | utf8 | largeUtf8 | binary
  | timestamp (unit : TimeUnit) (timezone : Option String)
  | decimal128 (precision : Nat) (scale : Int)
  | struct (fields : List (FieldOf DataType))
  | list (item : FieldOf DataType)
  /-- Any Arrow type inference never produces, by its display text. -/
  | other (display : String)
  deriving Repr

abbrev Field := FieldOf DataType

abbrev Schema := List Field

mutual
def DataType.eq : DataType → DataType → Bool
  | .boolean, .boolean | .int32, .int32 | .int64, .int64 | .float64, .float64
  | .utf8, .utf8 | .largeUtf8, .largeUtf8 | .binary, .binary => true
  | .timestamp u z, .timestamp u' z' => u == u' && z == z'
  | .decimal128 p s, .decimal128 p' s' => p == p' && s == s'
  | .struct fields, .struct fields' => fieldsEq fields fields'
  | .list ⟨n, t, b, m⟩, .list ⟨n', t', b', m'⟩ => n == n' && t.eq t' && b == b' && m == m'
  | .other d, .other d' => d == d'
  | _, _ => false
def fieldsEq : List (FieldOf DataType) → List (FieldOf DataType) → Bool
  | [], [] => true
  | ⟨n, t, b, m⟩ :: rest, ⟨n', t', b', m'⟩ :: rest' =>
      (n == n' && t.eq t' && b == b' && m == m') && fieldsEq rest rest'
  | _, _ => false
end

mutual
theorem DataType.eq_iff (left right : DataType) : left.eq right = true ↔ left = right := by
  cases left <;> cases right <;>
    simp only [DataType.eq, Bool.and_eq_true, beq_iff_eq, reduceCtorEq, Bool.false_eq_true,
      DataType.timestamp.injEq, DataType.decimal128.injEq, DataType.struct.injEq,
      DataType.list.injEq, DataType.other.injEq]
  case struct.struct fields fields' => exact fieldsEq_iff fields fields'
  case list.list item item' =>
    rcases item with ⟨n, t, b, m⟩
    rcases item' with ⟨n', t', b', m'⟩
    simp only [DataType.eq_iff t t', FieldOf.mk.injEq, and_assoc]
theorem fieldsEq_iff (left right : List (FieldOf DataType)) :
    fieldsEq left right = true ↔ left = right := by
  cases left with
  | nil => cases right <;> simp [fieldsEq]
  | cons field rest =>
      cases right with
      | nil => simp [fieldsEq]
      | cons field' rest' =>
          rcases field with ⟨n, t, b, m⟩
          rcases field' with ⟨n', t', b', m'⟩
          simp only [fieldsEq, Bool.and_eq_true, beq_iff_eq, DataType.eq_iff t t',
            fieldsEq_iff rest rest', List.cons.injEq, FieldOf.mk.injEq, and_assoc]
end

instance : DecidableEq DataType := fun left right =>
  decidable_of_iff (left.eq right = true) (DataType.eq_iff left right)

def findField (name : String) (fields : List Field) : Option Field :=
  fields.find? (fun field => field.name == name)

def FieldOf.withMetadata {δ : Type} (field : FieldOf δ) (metadata : List (String × String)) :
    FieldOf δ :=
  { field with metadata }

inductive DataFusionError
  | internal (message : String)
  | execution (message : String)
  | notImplemented (message : String)
  | arrow (message : String)
  /-- A constructor that unwraps: the thread panics instead of returning. -/
  | panic (message : String)
  deriving DecidableEq, Repr

/-- Arrow arrays, column-wise: a validity bit beside each slot of a nested array. -/
inductive ArrayData
  | boolean (values : List (Option Bool))
  | int32 (values : List (Option Int32))
  | int64 (values : List (Option Int64))
  | float64 (values : List (Option F64))
  | utf8 (values : List (Option String))
  | binary (values : List (Option (List UInt8)))
  | timestampMillisecond (timezone : Option String) (values : List (Option Int64))
  | decimal128 (precision : Nat) (scale : Int) (values : List (Option Int))
  | struct (fields : List Field) (children : List ArrayData) (validity : List Bool)
  | list (item : Field) (offsets : List Nat) (child : ArrayData) (validity : List Bool)

namespace ArrayData

def len : ArrayData → Nat
  | .boolean values => values.length
  | .int32 values => values.length
  | .int64 values => values.length
  | .float64 values => values.length
  | .utf8 values => values.length
  | .binary values => values.length
  | .timestampMillisecond _ values => values.length
  | .decimal128 _ _ values => values.length
  | .struct _ _ validity => validity.length
  | .list _ _ _ validity => validity.length

def dataType : ArrayData → DataType
  | .boolean _ => .boolean
  | .int32 _ => .int32
  | .int64 _ => .int64
  | .float64 _ => .float64
  | .utf8 _ => .utf8
  | .binary _ => .binary
  | .timestampMillisecond timezone _ => .timestamp .millisecond timezone
  | .decimal128 precision scale _ => .decimal128 precision scale
  | .struct fields _ _ => .struct fields
  | .list item _ _ _ => .list item

def validity : ArrayData → List Bool
  | .boolean values => values.map Option.isSome
  | .int32 values => values.map Option.isSome
  | .int64 values => values.map Option.isSome
  | .float64 values => values.map Option.isSome
  | .utf8 values => values.map Option.isSome
  | .binary values => values.map Option.isSome
  | .timestampMillisecond _ values => values.map Option.isSome
  | .decimal128 _ _ values => values.map Option.isSome
  | .struct _ _ validity => validity
  | .list _ _ _ validity => validity

def hasNulls (array : ArrayData) : Bool := array.validity.any (! ·)

/-- `Decimal128Array::with_precision_and_scale` checks the type, not the values. -/
def withPrecisionAndScale (precision : Nat) (scale : Int) (values : List (Option Int)) :
    Except DataFusionError ArrayData :=
  if precision = 0 ∨ 38 < precision ∨ 38 < scale ∨ (precision : Int) < scale then
    .error (.arrow "invalid Decimal128 precision or scale")
  else .ok (.decimal128 precision scale values)

/-- `StringArray::from`, which panics where an `i32` cannot count the bytes of the texts. -/
def fromTexts (values : List (Option String)) : Except DataFusionError ArrayData :=
  if (values.map fun v => (v.getD "").utf8ByteSize).sum < 2 ^ 31 then .ok (.utf8 values)
  else .error (.panic "byte array offset overflow")

/-- `BinaryArray::from`, which panics in the same way. -/
def fromBytes (values : List (Option (List UInt8))) : Except DataFusionError ArrayData :=
  if (values.map fun v => (v.getD []).length).sum < 2 ^ 31 then .ok (.binary values)
  else .error (.panic "byte array offset overflow")

/-- A child null where its parent is valid, at some slot. -/
def unmaskedNull (parent child : List Bool) : Bool :=
  (parent.zip child).any (fun (p, c) => p && !c)

/-- `StructArray::new`, which panics on an inconsistent child. -/
def newStruct (fields : List Field) (children : List ArrayData) (validity : List Bool) :
    Except DataFusionError ArrayData :=
  if fields.length ≠ children.length then
    .error (.panic "Incorrect number of arrays for StructArray fields")
  else if (fields.zip children).any (fun (f, a) => f.dataType ≠ a.dataType) then
    .error (.panic "Incorrect datatype for StructArray field")
  else if children.any (fun a => a.len ≠ validity.length) then
    .error (.panic "Incorrect array length for StructArray field")
  else if (fields.zip children).any
      (fun (f, a) => !f.nullable && unmaskedNull validity a.validity) then
    .error (.panic "Found unmasked nulls for non-nullable StructArray field")
  else .ok (.struct fields children validity)

/-- `ListArray::new`, which panics on inconsistent parts. -/
def newList (item : Field) (offsets : List Nat) (child : ArrayData) (validity : List Bool) :
    Except DataFusionError ArrayData :=
  if child.len < offsets.getLastD 0 then .error (.panic "Max offset exceeds length of values")
  else if offsets.length ≠ validity.length + 1 then
    .error (.panic "Incorrect length of null buffer for ListArray")
  else if !item.nullable && child.hasNulls then
    .error (.panic "Non-nullable field of ListArray cannot contain nulls")
  else if item.dataType ≠ child.dataType then
    .error (.panic "ListArray expected data type got other")
  else .ok (.list item offsets child validity)

end ArrayData

structure RecordBatch where
  schema : Schema
  columns : List ArrayData
  numRows : Nat

/-- `RecordBatch::try_new_with_options` with an explicit row count. -/
def RecordBatch.tryNew (schema : Schema) (columns : List ArrayData) (rowCount : Nat) :
    Except DataFusionError RecordBatch :=
  if schema.length ≠ columns.length then
    .error (.arrow "number of columns must match number of fields in schema")
  else if (schema.zip columns).any (fun (f, a) => !f.nullable && a.hasNulls) then
    .error (.arrow "Column is declared as non-nullable but contains null values")
  else if columns.any (fun a => a.len ≠ rowCount) then
    .error (.arrow "all columns in a record batch must have the specified row count")
  else if (schema.zip columns).any (fun (f, a) => f.dataType ≠ a.dataType) then
    .error (.arrow "column types must match schema types")
  else .ok ⟨schema, columns, rowCount⟩

inductive Cell
  | null
  | boolean (value : Bool)
  | int (value : Int)
  | float (value : F64)
  | text (value : String)
  | bytes (value : List UInt8)
  | timestamp (millis : Int)
  | decimal (unscaled : Int) (scale : Int)
  | struct (fields : List (String × Cell))
  | list (items : List Cell)

namespace Cell

def isNull : Cell → Bool
  | .null => true
  | _ => false

def ofOption {α : Type} (wrap : α → Cell) : Option α → Cell
  | some value => wrap value
  | none => .null

/-- `struct['key']`, NULL on a null struct. -/
def getField (key : String) : Cell → Cell
  | .struct fields => (fields.lookup key).getD .null
  | _ => .null

end Cell

mutual
/-- The value in slot `i`. -/
def ArrayData.cell : ArrayData → Nat → Cell
  | .boolean values, i => Cell.ofOption .boolean values[i]?.join
  | .int32 values, i => Cell.ofOption (fun v => .int v.toInt) values[i]?.join
  | .int64 values, i => Cell.ofOption (fun v => .int v.toInt) values[i]?.join
  | .float64 values, i => Cell.ofOption .float values[i]?.join
  | .utf8 values, i => Cell.ofOption .text values[i]?.join
  | .binary values, i => Cell.ofOption .bytes values[i]?.join
  | .timestampMillisecond _ values, i => Cell.ofOption (fun v => .timestamp v.toInt) values[i]?.join
  | .decimal128 _ scale values, i => Cell.ofOption (.decimal · scale) values[i]?.join
  | .struct fields children validity, i =>
      if validity[i]?.getD false then .struct (structCells fields children i) else .null
  | .list _ offsets child validity, i =>
      if validity[i]?.getD false then
        let start := offsets[i]?.getD 0
        .list ((List.range (offsets[i + 1]?.getD 0 - start)).map fun j => child.cell (start + j))
      else .null
def structCells : List Field → List ArrayData → Nat → List (String × Cell)
  | field :: fields, child :: children, i => (field.name, child.cell i) :: structCells fields children i
  | _, _, _ => []
end

abbrev Row := List (String × Cell)

def RecordBatch.row (batch : RecordBatch) (i : Nat) : Row := structCells batch.schema batch.columns i

end Auger
