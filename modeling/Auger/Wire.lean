import Auger.Encode

set_option autoImplicit false

/-! The wire: the PostgreSQL type each result column is declared with, and the
value each row hands to the encoder. -/

namespace Auger

open General

inductive PgType
  | bool | int2 | int4 | int8 | float4 | float8 | numeric | bytea | date | timestamp | timestamptz | text
  deriving DecidableEq, Repr

inductive OutputType
  | boolean | int8 | int16 | int32 | int64 | uint8 | uint16 | uint32 | uint64 | float16 | float32 | float64
  | decimal128 (precision : Nat) (scale : Int)
  | decimal256 (precision : Nat) (scale : Int)
  | utf8 | utf8View | largeUtf8 | binary | largeBinary | binaryView | date32 | date64
  | timestamp (unit : TimeUnit) (timezone : Option String)
  | struct (fields : List (String × OutputType))
  | list (item : OutputType)
  /-- Any type no arm names, by its display text. -/
  | other (display : String)

/-- What arrow checks of a decimal type. -/
def OutputType.Valid : OutputType → Prop
  | .decimal128 precision scale => 0 < precision ∧ precision ≤ 38 ∧ -128 ≤ scale ∧ scale ≤ precision
  | _ => True

def pgTypeOf : OutputType → PgType
  | .boolean => .bool
  | .int8 | .int16 => .int2
  | .int32 | .uint8 | .uint16 => .int4
  | .int64 | .uint32 | .uint64 => .int8
  | .float16 | .float32 => .float4
  | .float64 => .float8
  | .decimal128 _ _ | .decimal256 _ _ => .numeric
  | .binary | .largeBinary | .binaryView => .bytea
  | .date32 | .date64 => .date
  | .timestamp _ (some _) => .timestamptz
  | .timestamp _ none => .timestamp
  | _ => .text

/-- Result arrays. Floats of 16 and 32 bits are kept as bits. -/
inductive OutputArray
  | boolean (values : List (Option Bool))
  | int8 (values : List (Option Int8))
  | int16 (values : List (Option Int16))
  | int32 (values : List (Option Int32))
  | int64 (values : List (Option Int64))
  | uint8 (values : List (Option UInt8))
  | uint16 (values : List (Option UInt16))
  | uint32 (values : List (Option UInt32))
  | uint64 (values : List (Option UInt64))
  | float16 (values : List (Option (BitVec 16)))
  | float32 (values : List (Option (BitVec 32)))
  | float64 (values : List (Option F64))
  | decimal128 (precision : Nat) (scale : Int) (values : List (Option Int))
  | decimal256 (precision : Nat) (scale : Int) (values : List (Option Int))
  | utf8 (values : List (Option String))
  | utf8View (values : List (Option String))
  | largeUtf8 (values : List (Option String))
  | binary (values : List (Option (List UInt8)))
  | largeBinary (values : List (Option (List UInt8)))
  | binaryView (values : List (Option (List UInt8)))
  | date32 (values : List (Option Int32))
  | date64 (values : List (Option Int64))
  | timestamp (unit : TimeUnit) (timezone : Option String) (values : List (Option Int64))
  | struct (names : List String) (children : List OutputArray) (validity : List Bool)
  | list (item : OutputType) (offsets : List Nat) (child : OutputArray) (validity : List Bool)
  | other (display : String) (validity : List Bool)

namespace OutputArray

mutual
def dataType : OutputArray → OutputType
  | .boolean _ => .boolean
  | .int8 _ => .int8
  | .int16 _ => .int16
  | .int32 _ => .int32
  | .int64 _ => .int64
  | .uint8 _ => .uint8
  | .uint16 _ => .uint16
  | .uint32 _ => .uint32
  | .uint64 _ => .uint64
  | .float16 _ => .float16
  | .float32 _ => .float32
  | .float64 _ => .float64
  | .decimal128 precision scale _ => .decimal128 precision scale
  | .decimal256 precision scale _ => .decimal256 precision scale
  | .utf8 _ => .utf8
  | .utf8View _ => .utf8View
  | .largeUtf8 _ => .largeUtf8
  | .binary _ => .binary
  | .largeBinary _ => .largeBinary
  | .binaryView _ => .binaryView
  | .date32 _ => .date32
  | .date64 _ => .date64
  | .timestamp unit timezone _ => .timestamp unit timezone
  | .struct names children _ => .struct (fieldTypes names children)
  | .list item _ _ _ => .list item
  | .other display _ => .other display
def fieldTypes : List String → List OutputArray → List (String × OutputType)
  | name :: names, child :: children => (name, dataType child) :: fieldTypes names children
  | _, _ => []
end

def isNull : OutputArray → Nat → Bool
  | .boolean values, row => values[row]?.join.isNone
  | .int8 values, row => values[row]?.join.isNone
  | .int16 values, row => values[row]?.join.isNone
  | .int32 values, row => values[row]?.join.isNone
  | .int64 values, row => values[row]?.join.isNone
  | .uint8 values, row => values[row]?.join.isNone
  | .uint16 values, row => values[row]?.join.isNone
  | .uint32 values, row => values[row]?.join.isNone
  | .uint64 values, row => values[row]?.join.isNone
  | .float16 values, row => values[row]?.join.isNone
  | .float32 values, row => values[row]?.join.isNone
  | .float64 values, row => values[row]?.join.isNone
  | .decimal128 _ _ values, row => values[row]?.join.isNone
  | .decimal256 _ _ values, row => values[row]?.join.isNone
  | .utf8 values, row => values[row]?.join.isNone
  | .utf8View values, row => values[row]?.join.isNone
  | .largeUtf8 values, row => values[row]?.join.isNone
  | .binary values, row => values[row]?.join.isNone
  | .largeBinary values, row => values[row]?.join.isNone
  | .binaryView values, row => values[row]?.join.isNone
  | .date32 values, row => values[row]?.join.isNone
  | .date64 values, row => values[row]?.join.isNone
  | .timestamp _ _ values, row => values[row]?.join.isNone
  | .struct _ _ validity, row => !validity[row]?.getD false
  | .list _ _ _ validity, row => !validity[row]?.getD false
  | .other _ validity, row => !validity[row]?.getD false

end OutputArray

/-- Arrow's debug text of a slice of one row stands beside the formatters of values. -/
structure OutputFormatters extends Formatters where
  debug : OutputArray → Nat → String

/-- A value handed to the encoder, by its Rust type. `json` is a `String` as `text`
is, from the arm that renders JSON. -/
inductive Handed
  | null
  | bool (value : Bool)
  | int4 (value : Int32)
  | int8 (value : Int64)
  | float8 (value : F64)
  | text (value : String)
  | bytea (value : List UInt8)
  | dateTime (millis : Int64)
  | numeric (mantissa : Int) (scale : Nat)
  | json (value : String)

/-- A null slot, or its value handed over by `wrap`. -/
def Handed.ofOption {α : Type} (wrap : α → Handed) : Option α → Handed
  | some value => wrap value
  | none => .null

/-- `Decimal::try_from_i128_with_scale` holds 96 bits of mantissa and 28 places. -/
def fitsDecimal (raw : Int) (scale : Nat) : Bool := raw.natAbs < 2 ^ 96 && scale ≤ 28

section
variable (format : OutputFormatters)

mutual
/-- `value_to_json`, for the arrays of any result. -/
def outputToJson : OutputArray → Nat → List Char
  | .boolean values, row => orNull (fun b => (if b then "true" else "false").toList) values[row]?.join
  | .int32 values, row => orNull (fun v => (toString v.toInt).toList) values[row]?.join
  | .int64 values, row => orNull (fun v => (toString v.toInt).toList) values[row]?.join
  | .float64 values, row => orNull (fun v => if v.isFinite then v.display.toList else "null".toList) values[row]?.join
  | .utf8 values, row => orNull quoteJson values[row]?.join
  | .utf8View values, row => orNull quoteJson values[row]?.join
  | .largeUtf8 values, row => orNull quoteJson values[row]?.join
  | .timestamp .millisecond _ values, row =>
      orNull (fun millis => match format.rfc3339 millis with
        | some text => quoteJson text
        | none => (toString millis.toInt).toList) values[row]?.join
  | .decimal128 precision scale values, row =>
      orNull (fun v => (format.decimal precision scale v).toList) values[row]?.join
  | .binary values, row => orNull (fun bytes => quoteJson (hex bytes)) values[row]?.join
  | .struct names children validity, row =>
      if validity[row]?.getD false then '{' :: (Json.joined (outputParts names children row) ++ ['}'])
      else "null".toList
  | .list _ offsets child validity, row =>
      if validity[row]?.getD false then
        let start := offsets[row]?.getD 0
        '[' :: (Json.joined ((List.range (offsets[row + 1]?.getD 0 - start)).map fun j =>
          outputToJson child (start + j)) ++ [']'])
      else "null".toList
  -- A type no arm models: the debug text, quoted.
  | array, row => if array.isNull row then "null".toList else quoteJson (format.debug array row)
def outputParts : List String → List OutputArray → Nat → List (List Char)
  | name :: names, child :: children, row =>
      (quoteJson name ++ ':' :: outputToJson child row) :: outputParts names children row
  | _, _, _ => []
end

def encodeValue : OutputArray → Nat → Handed
  | .boolean values, row => Handed.ofOption .bool values[row]?.join
  | .int32 values, row => Handed.ofOption .int4 values[row]?.join
  | .int64 values, row => Handed.ofOption .int8 values[row]?.join
  | .float64 values, row => Handed.ofOption .float8 values[row]?.join
  | .utf8 values, row => Handed.ofOption .text values[row]?.join
  | .utf8View values, row => Handed.ofOption .text values[row]?.join
  | .largeUtf8 values, row => Handed.ofOption .text values[row]?.join
  | .binary values, row => Handed.ofOption .bytea values[row]?.join
  | .timestamp .millisecond _ values, row =>
      Handed.ofOption (fun millis =>
        if (format.rfc3339 millis).isSome then .dateTime millis
        -- Outside chrono's range: the raw epoch value as text.
        else .text (toString millis.toInt)) values[row]?.join
  | .decimal128 precision scale values, row =>
      Handed.ofOption (fun raw =>
        if fitsDecimal raw scale.toNat then .numeric raw scale.toNat
        else .text (format.decimal precision scale raw)) values[row]?.join
  | array, row => if array.isNull row then .null else .json (String.ofList (outputToJson format array row))

inductive FieldFormat
  | text | binary

structure FieldInfo where
  name : String
  pgType : PgType
  format : FieldFormat

/-- Build the row description for a result schema. -/
def fieldInfos (schema : List (String × OutputType)) (formatFor : Nat → FieldFormat) : List FieldInfo :=
  schema.zipIdx.map fun (field, i) => ⟨field.1, pgTypeOf field.2, formatFor i⟩

/-- A result batch: its columns have the schema's types. -/
structure OutputBatch where
  schema : List (String × OutputType)
  columns : List OutputArray
  numRows : Nat
  types : columns.map OutputArray.dataType = schema.map Prod.snd
  valid : ∀ field ∈ schema, field.2.Valid

def encodeBatch (batch : OutputBatch) : List (List Handed) :=
  (List.range batch.numRows).map fun row => batch.columns.map fun column => encodeValue format column row

end

mutual
def DataType.output : DataType → OutputType
  | .boolean => .boolean
  | .int32 => .int32
  | .int64 => .int64
  | .float64 => .float64
  | .utf8 => .utf8
  | .largeUtf8 => .largeUtf8
  | .binary => .binary
  | .timestamp unit timezone => .timestamp unit timezone
  | .decimal128 precision scale => .decimal128 precision scale
  | .struct children => .struct (childrenOutput children)
  | .list item => .list item.dataType.output
  | .other display => .other display
def childrenOutput : List (FieldOf DataType) → List (String × OutputType)
  | [] => []
  | child :: rest => (child.name, child.dataType.output) :: childrenOutput rest
end

mutual
def ArrayData.output : ArrayData → OutputArray
  | .boolean values => .boolean values
  | .int32 values => .int32 values
  | .int64 values => .int64 values
  | .float64 values => .float64 values
  | .utf8 values => .utf8 values
  | .binary values => .binary values
  | .timestampMillisecond timezone values => .timestamp .millisecond timezone values
  | .decimal128 precision scale values => .decimal128 precision scale values
  | .struct fields children validity => .struct (fields.map FieldOf.name) (arraysOutput children) validity
  | .list item offsets child validity => .list item.dataType.output offsets child.output validity
def arraysOutput : List ArrayData → List OutputArray
  | [] => []
  | child :: rest => child.output :: arraysOutput rest
end

mutual
theorem outputToJson_output (format : OutputFormatters) (array : ArrayData) (row : Nat) :
    outputToJson format array.output row = valueToJson format.toFormatters array row := by
  cases array with
  | struct fields children validity =>
      simp only [ArrayData.output, outputToJson, valueToJson, outputParts_output format fields children row]
  | list item offsets child validity =>
      have items : ∀ j, outputToJson format child.output j = valueToJson format.toFormatters child j :=
        fun j => outputToJson_output format child j
      simp only [ArrayData.output, outputToJson, valueToJson, items]
  | timestampMillisecond timezone values =>
      cases cell : values[row]?.join with
      | none => simp only [ArrayData.output, outputToJson, valueToJson, cell, orNull]
      | some millis =>
          cases said : format.rfc3339 millis <;>
            simp only [ArrayData.output, outputToJson, valueToJson, cell, orNull, said]
  | _ => simp only [ArrayData.output, outputToJson, valueToJson]
theorem outputParts_output (format : OutputFormatters) (fields : List Field) (children : List ArrayData) (row : Nat) :
    outputParts format (fields.map FieldOf.name) (arraysOutput children) row =
      structParts format.toFormatters fields children row := by
  cases children with
  | nil => cases fields <;> simp only [arraysOutput, outputParts, structParts, List.map_nil, List.map_cons]
  | cons child children =>
      cases fields with
      | nil => simp only [arraysOutput, outputParts, structParts, List.map_nil]
      | cons field fields =>
          simp only [arraysOutput, outputParts, structParts, List.map_cons, outputToJson_output format child row,
            outputParts_output format fields children row]
end

end Auger
