import Auger.Infer

set_option autoImplicit false

/-! BSON to Arrow conversion, driven by the frozen schema. -/

namespace Auger

/-- `split('.')`: the pieces between dots, at least one. -/
def splitDots : List Char → List (List Char)
  | [] => [[]]
  | c :: rest =>
      if c = '.' then [] :: splitDots rest
      else
        match splitDots rest with
        | [] => [[c]]
        | piece :: pieces => (c :: piece) :: pieces

def pathParts (path : String) : List String := (splitDots path.toList).map String.ofList

/-- The loop of `lookup_path` after the first part. -/
def lookupRest : Bson → List String → Option Bson
  | current, [] => some current
  | .document inner, part :: parts => (inner.lookup part).bind fun next => lookupRest next parts
  | _, _ :: _ => none

/-- Follow a dotted path into a document; `none` for a missing field. -/
def lookupPath (doc : Document) (path : String) : Option Bson :=
  match pathParts path with
  | [] => none
  | first :: parts => (doc.get first).bind fun current => lookupRest current parts

/-- True for values that must become SQL NULL regardless of the target type. -/
def isNull : Option Bson → Bool
  | none => true
  | some value => value.isNull

def asI64 : Option Bson → Option Int64
  | some (.int32 v) => some v.toInt64
  | some (.int64 v) => some v
  -- Only exact integers convert; 2.5 in an integer column becomes NULL.
  | some (.double v) => if v.isFinite && v.isIntegral then some v.toI64 else none
  | some (.boolean b) => some (if b then 1 else 0)
  | _ => none

def toI32 (v : Int64) : Option Int32 :=
  if -2 ^ 31 ≤ v.toInt ∧ v.toInt < 2 ^ 31 then some v.toInt32 else none

def asF64 (text : BsonText) : Option Bson → Option F64
  | some (.double v) => some v
  | some (.int32 v) => some (F64.ofInt v.toInt)
  | some (.int64 v) => some (F64.ofInt v.toInt)
  | some (.decimal128 d) => F64.parse (text.decimal d)
  | _ => none

def checkedMul64 (a b : Int) : Option Int64 :=
  if -2 ^ 63 ≤ a * b ∧ a * b < 2 ^ 63 then some (Int64.ofInt (a * b)) else none

def asMillis : Option Bson → Option Int64
  | some (.dateTime millis) => some millis
  -- Whole seconds in the high 32 bits; the increment is not a time.
  | some (.timestamp time _) => checkedMul64 time.toNat 1000
  | some (.int64 v) => some v
  | _ => none

def inI128 (v : Int) : Option Int := if -2 ^ 127 ≤ v ∧ v < 2 ^ 127 then some v else none

/-- `10i128.checked_pow`: the largest power of ten in an `i128` is `10 ^ 38`. -/
def checkedPow10 (exponent : Nat) : Option Int :=
  if exponent ≤ 38 then some (10 ^ exponent) else none

def toU32 (v : Int32) : Option Nat := if 0 ≤ v.toInt then some v.toInt.toNat else none

def scaleInt (v scale : Int) : Option Int :=
  (checkedPow10 (max scale 0).toNat).bind fun factor => inI128 (v * factor)

/-- The Unicode `White_Space` characters, which `trim` removes. -/
def isRustWhitespace (c : Char) : Bool :=
  let n := c.toNat
  (9 ≤ n && n ≤ 13) || n == 0x20 || n == 0x85 || n == 0xA0 || n == 0x1680 ||
    (0x2000 ≤ n && n ≤ 0x200A) || n == 0x2028 || n == 0x2029 || n == 0x202F ||
    n == 0x205F || n == 0x3000

def trim (text : List Char) : List Char :=
  ((text.dropWhile isRustWhitespace).reverse.dropWhile isRustWhitespace).reverse

/-- `parse::<i32>()`: an optional sign, at least one digit, in range. -/
def parseI32 (text : List Char) : Option Int32 :=
  (F64.parseExponent text).bind fun v =>
    if -2 ^ 31 ≤ v ∧ v < 2 ^ 31 then some (Int32.ofInt v) else none

/-- The digit loop of `parse_decimal`, checked at every step. -/
def accumulateDigits (digits : List Char) (value : Int) : Option Int :=
  match digits with
  | [] => some value
  | c :: rest =>
      (inI128 (value * 10)).bind fun tens =>
        (inI128 (tens + ((c.toNat : Int) - '0'.toNat))).bind (accumulateDigits rest)

/-- Parse a decimal string into an integer scaled by `10 ^ scale`. The exponent
arithmetic is unchecked `i32` arithmetic, which wraps. -/
def parseDecimal (source : String) (scale : Int) : Option Int :=
  let text := trim source.toList
  if text.isEmpty || F64.asciiLower text == "nan".toList then none
  else do
    let mantissa := text.takeWhile fun c => c != 'e' && c != 'E'
    let exponent ← match text.dropWhile fun c => c != 'e' && c != 'E' with
      | [] => some 0
      | _ :: rest => parseI32 rest
    let (negative, digits) := F64.splitSign mantissa
    if F64.asciiLower digits == "infinity".toList || F64.asciiLower digits == "inf".toList then none
    else
      let intPart := digits.takeWhile (· != '.')
      let fracPart := (digits.dropWhile (· != '.')).drop 1
      if !intPart.all Char.isDigit || !fracPart.all Char.isDigit then none
      else
        let value ← accumulateDigits (intPart ++ fracPart) 0
        let shift := Int32.ofInt scale + exponent - Int32.ofNat fracPart.length
        let shifted ←
          if 0 ≤ shift.toInt then do
            let factor ← (toU32 shift).bind checkedPow10
            inI128 (value * factor)
          else do
            let factor ← (toU32 (-shift)).bind checkedPow10
            some (value.tdiv factor)
        some (if negative then -shifted else shifted)

def asDecimal (text : BsonText) (scale : Int) : Option Bson → Option Int
  | some (.decimal128 d) => parseDecimal (text.decimal d) scale
  | some (.int32 v) => scaleInt v.toInt scale
  | some (.int64 v) => scaleInt v.toInt scale
  | some (.double v) => parseDecimal v.display scale
  | some (.string s) => parseDecimal s scale
  | _ => none

namespace Base64Min

def alphabet : List Char :=
  "ABCDEFGHIJKLMNOPQRSTUVWXYZabcdefghijklmnopqrstuvwxyz0123456789+/".toList

def letter (n : Nat) : Char := alphabet.getD (n % 64) 'A'

def encodeChunk (b0 : UInt8) (b1 b2 : Option UInt8) : List Char :=
  let n := b0.toNat * 2 ^ 16 + (b1.getD 0).toNat * 2 ^ 8 + (b2.getD 0).toNat
  [letter (n / 2 ^ 18), letter (n / 2 ^ 12),
    if b1.isSome then letter (n / 2 ^ 6) else '=', if b2.isSome then letter n else '=']

def encodeBytes : List UInt8 → List Char
  | b0 :: b1 :: b2 :: rest => encodeChunk b0 (some b1) (some b2) ++ encodeBytes rest
  | [b0, b1] => encodeChunk b0 (some b1) none
  | [b0] => encodeChunk b0 none none
  | [] => []

def encode (input : List UInt8) : String := String.ofList (encodeBytes input)

end Base64Min

/-- Render any BSON value as text for a `Utf8` column. The tag is part of the
signature; no arm looks at it. -/
def renderText (text : BsonText) (value : Bson) (_tag : BsonTag) : Option String :=
  some <| match value with
    | .string s => s
    | .symbol s => s
    | .objectId oid => oid.toHex
    | .boolean b => if b then "true" else "false"
    | .int32 v => toString v.toInt
    | .int64 v => toString v.toInt
    | .double v => v.display
    | .decimal128 d => text.decimal d
    | .dateTime millis => (text.rfc3339 millis).getD (toString millis.toInt)
    | .binary _ bytes => Base64Min.encode bytes
    | other => text.extjson other

def childSlots (name : String) (values : List (Option Bson)) : List (Option Bson) :=
  values.map fun
    | some (.document fields) => fields.lookup name
    | _ => none

/-- What one slot adds to a list column: its items, a lone non-null value as a
one-element list, or nothing for a null slot. -/
def listItems : Option Bson → Option (List Bson)
  | some (.array items) => some items
  | some other => if other.isNull then none else some [other]
  | none => none

/-- The offsets after the leading zero, checked against `i32`. -/
def listOffsets : List (Option Bson) → Nat → Except DataFusionError (List Nat)
  | [], _ => .ok []
  | value :: rest, filled =>
      let filled := filled + ((listItems value).getD []).length
      if filled < 2 ^ 31 then (listOffsets rest filled).map (filled :: ·)
      else .error (.execution "array column exceeds 2^31 elements in a single batch")

def flatItems (values : List (Option Bson)) : List (Option Bson) :=
  values.flatMap fun value => ((listItems value).getD []).map some

def isDocument : Option Bson → Bool
  | some (.document _) => true
  | _ => false

section
variable (text : BsonText)

mutual
/-- The array of one type; `name` is for the error and `tag` for the text. -/
def buildTyped : DataType → String → BsonTag → List (Option Bson) →
    Except DataFusionError ArrayData
  | .boolean, _, _, values =>
      .ok (.boolean (values.map fun | some (.boolean b) => some b | _ => none))
  | .int32, _, _, values => .ok (.int32 (values.map fun v => (asI64 v).bind toI32))
  | .int64, _, _, values => .ok (.int64 (values.map asI64))
  | .float64, _, _, values => .ok (.float64 (values.map (asF64 text)))
  | .utf8, _, tag, values =>
      ArrayData.fromTexts (values.map fun v =>
        if isNull v then none else v.bind fun value => renderText text value tag)
  | .binary, _, _, values =>
      ArrayData.fromBytes (values.map fun | some (.binary _ bytes) => some bytes | _ => none)
  | .timestamp .millisecond timezone, _, _, values =>
      .ok (.timestampMillisecond timezone (values.map asMillis))
  | .decimal128 precision scale, _, _, values =>
      ArrayData.withPrecisionAndScale precision scale (values.map (asDecimal text scale))
  | .struct children, name, _, values => do
      let arrays ← buildChildren children values
      if children.isEmpty then .error (.internal s!"struct column {name} has no fields")
      else ArrayData.newStruct children arrays (values.map isDocument)
  | .list item, _, _, values => do
      let offsets ← listOffsets values 0
      let child ← buildTyped item.dataType item.name (BsonTag.of item) (flatItems values)
      ArrayData.newList item (0 :: offsets) child (values.map fun v => (listItems v).isSome)
  | .largeUtf8, _, _, _ => .error (.notImplemented "no BSON decoder for Arrow type LargeUtf8")
  | .timestamp _ _, _, _, _ => .error (.notImplemented "no BSON decoder for Arrow type Timestamp")
  | .other display, _, _, _ =>
      .error (.notImplemented s!"no BSON decoder for Arrow type {display}")
def buildChildren : List (FieldOf DataType) → List (Option Bson) →
    Except DataFusionError (List ArrayData)
  | [], _ => .ok []
  | child :: rest, values => do
      let array ← buildTyped child.dataType child.name (BsonTag.of child) (childSlots child.name values)
      let arrays ← buildChildren rest values
      .ok (array :: arrays)
end

def buildArray (field : Field) (values : List (Option Bson)) : Except DataFusionError ArrayData :=
  buildTyped text field.dataType field.name (BsonTag.of field) values

/-- The columns of a batch, each read along its field's recorded path. -/
def buildColumns : Schema → List Document → Except DataFusionError (List ArrayData)
  | [], _ => .ok []
  | field :: rest, docs => do
      let column ← buildArray text field (docs.map fun doc => lookupPath doc (fieldPath field))
      let columns ← buildColumns rest docs
      .ok (column :: columns)

/-- Build one record batch from a list of documents, following `schema`. -/
def documentsToBatch (schema : Schema) (docs : List Document) :
    Except DataFusionError RecordBatch := do
  let columns ← buildColumns text schema docs
  RecordBatch.tryNew schema columns docs.length

end

end Auger
