import Auger.F64

set_option autoImplicit false

namespace Auger

/-- The UTF-8 bytes of a text, which is what strings compare by. -/
def textBytes (s : String) : List Nat := s.toUTF8.data.toList.map UInt8.toNat

/-- Twelve bytes, read as one big-endian number. -/
structure ObjectId where
  value : BitVec 96
  deriving DecidableEq, Repr

/-- The value a decimal128 denotes, after decoding its combination field. -/
inductive Decimal128
  | nan
  | infinity (negative : Bool)
  | finite (negative : Bool) (coefficient : Nat) (exponent : Int)
  deriving DecidableEq, Repr

inductive Bson
  | double (value : F64)
  | string (value : String)
  | array (items : List Bson)
  | document (fields : List (String × Bson))
  | boolean (value : Bool)
  | null
  | regularExpression (pattern options : String)
  | javaScriptCode (code : String)
  | javaScriptCodeWithScope (code : String) (scope : List (String × Bson))
  | int32 (value : Int32)
  | int64 (value : Int64)
  | timestamp (time increment : UInt32)
  | binary (subtype : UInt8) (bytes : List UInt8)
  | objectId (value : ObjectId)
  | dateTime (millis : Int64)
  | symbol (value : String)
  | decimal128 (value : Decimal128)
  | undefined
  | maxKey
  | minKey
  | dbPointer (collection : String) (id : ObjectId)
  deriving Repr

/-- The entries of a document in insertion order. -/
abbrev Fields := List (String × Bson)

/-- Insertion of an existing key replaces its value in place. -/
def Fields.insert (key : String) (value : Bson) : Fields → Fields
  | [] => [(key, value)]
  | (k, v) :: rest => if k = key then (k, value) :: rest else (k, v) :: Fields.insert key value rest

mutual
/-- A key occurs once in each embedded document. -/
def Bson.distinctKeys : Bson → Bool
  | .document fields => fieldsDistinct fields
  | .javaScriptCodeWithScope _ scope => fieldsDistinct scope
  | .array items => itemsDistinct items
  | _ => true
def fieldsDistinct : List (String × Bson) → Bool
  | [] => true
  | (key, value) :: rest =>
      !rest.any (fun entry => entry.1 == key) && value.distinctKeys && fieldsDistinct rest
def itemsDistinct : List Bson → Bool
  | [] => true
  | value :: rest => value.distinctKeys && itemsDistinct rest
end

/-- A stored document: an insertion-ordered map, so no level repeats a key. -/
structure Document where
  fields : Fields
  distinct : fieldsDistinct fields = true

namespace Document

def get (doc : Document) (key : String) : Option Bson := doc.fields.lookup key

def empty : Document := ⟨[], rfl⟩

end Document

namespace Bson

def isNull : Bson → Bool
  | .null | .undefined => true
  | _ => false

def isArray : Bson → Bool
  | .array _ => true
  | _ => false

mutual
/-- Rust's derived `PartialEq`: doubles compare as numbers, so NaN differs from
itself and the two zeros agree; everything else compares structurally. -/
def eq : Bson → Bson → Bool
  | .double x, .double y => !x.isNan && !y.isNan && (x == y || (x.magnitude == 0 && y.magnitude == 0))
  | .string x, .string y => x == y
  | .array x, .array y => eqItems x y
  | .document x, .document y => x.length == y.length && eqFields x y
  | .boolean x, .boolean y => x == y
  | .null, .null => true
  | .regularExpression p o, .regularExpression p' o' => p == p' && o == o'
  | .javaScriptCode x, .javaScriptCode y => x == y
  | .javaScriptCodeWithScope x s, .javaScriptCodeWithScope y t =>
      x == y && s.length == t.length && eqFields s t
  | .int32 x, .int32 y => x == y
  | .int64 x, .int64 y => x == y
  | .timestamp t i, .timestamp t' i' => t == t' && i == i'
  | .binary s b, .binary s' b' => s == s' && b == b'
  | .objectId x, .objectId y => x == y
  | .dateTime x, .dateTime y => x == y
  | .symbol x, .symbol y => x == y
  | .decimal128 x, .decimal128 y => x == y
  | .undefined, .undefined => true
  | .maxKey, .maxKey => true
  | .minKey, .minKey => true
  | .dbPointer c i, .dbPointer c' i' => c == c' && i == i'
  | _, _ => false
def eqItems : List Bson → List Bson → Bool
  | [], [] => true
  | x :: xs, y :: ys => eq x y && eqItems xs ys
  | _, _ => false
/-- Documents are insertion-ordered maps, whose equality ignores the order. -/
def eqFields : List (String × Bson) → List (String × Bson) → Bool
  | [], _ => true
  | (key, x) :: rest, other =>
      (match other.lookup key with
        | some y => eq x y
        | none => false) && eqFields rest other
end

end Bson

namespace ObjectId

def hexDigit (n : Nat) : Char := "0123456789abcdef".toList.getD n '0'

/-- The nibble `position` places from the right. -/
def nibble (id : ObjectId) (position : Nat) : Nat := id.value.toNat / 16 ^ position % 16

def toHex (id : ObjectId) : String :=
  String.ofList ((List.range 24).map fun i => hexDigit (id.nibble (23 - i)))

def hexValue (c : Char) : Option Nat :=
  if '0' ≤ c ∧ c ≤ '9' then some (c.toNat - '0'.toNat)
  else if 'a' ≤ c ∧ c ≤ 'f' then some (c.toNat - 'a'.toNat + 10)
  else if 'A' ≤ c ∧ c ≤ 'F' then some (c.toNat - 'A'.toNat + 10)
  else none

/-- Exactly 24 hexadecimal digits of either case. -/
def parse (text : String) : Option ObjectId :=
  if text.toList.length = 24 then do
    let digits ← text.toList.mapM hexValue
    some ⟨BitVec.ofNat 96 (digits.foldl (fun value d => value * 16 + d) 0)⟩
  else none

end ObjectId

/-- Renderings of the `bson` crate that inference and decoding call by name. -/
structure BsonText where
  /-- `Decimal128::to_string`. -/
  decimal : Decimal128 → String
  /-- `DateTime::try_to_rfc3339_string`. -/
  rfc3339 : Int64 → Option String
  /-- `into_relaxed_extjson().to_string()`. -/
  extjson : Bson → String

end Auger
