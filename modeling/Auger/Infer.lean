import Auger.Arrow
import Auger.General.SortedMap
import Mathlib.Data.List.Sort
import Mathlib.Data.String.Basic

set_option autoImplicit false

/-! Sampling-based schema inference: the shape lattice, the sampler and the
Arrow schema it finishes with. -/

namespace Auger

open General

def metaBson : String := "auger.bson"
def metaPath : String := "auger.path"
def metaFreq : String := "auger.freq"
def metaMixed : String := "auger.mixed"

def decimalPrecision : Nat := 38
def decimalScale : Int := 10

/-- The BSON provenance of an Arrow column. -/
inductive BsonTag
  | bool | int32 | int64 | double | decimal | string | objectId | dateTime | timestamp
  | binary | document | array | json | unknown
  deriving DecidableEq, Repr

namespace BsonTag

def asStr : BsonTag → String
  | .bool => "bool"
  | .int32 => "int32"
  | .int64 => "int64"
  | .double => "double"
  | .decimal => "decimal"
  | .string => "string"
  | .objectId => "objectId"
  | .dateTime => "date"
  | .timestamp => "timestamp"
  | .binary => "binary"
  | .document => "document"
  | .array => "array"
  | .json => "json"
  | .unknown => "unknown"

def parse (s : String) : BsonTag :=
  match s with
  | "bool" => .bool
  | "int32" => .int32
  | "int64" => .int64
  | "double" => .double
  | "decimal" => .decimal
  | "string" => .string
  | "objectId" => .objectId
  | "date" => .dateTime
  | "timestamp" => .timestamp
  | "binary" => .binary
  | "document" => .document
  | "array" => .array
  | "json" => .json
  | _ => .unknown

@[simp] theorem parse_asStr (tag : BsonTag) : parse tag.asStr = tag := by
  cases tag <;> rfl

/-- Read the tag back off an Arrow field. -/
def of (field : Field) : BsonTag :=
  match field.metadata.lookup metaBson with
  | some s => parse s
  | none => .unknown

end BsonTag

/-- A field's shape plus its occurrence counters; `σ` is the type of shapes. -/
structure FieldShapeOf (σ : Type) where
  shape : σ
  present : Nat
  nulls : Nat
  /-- Whether reaching this shape required coercing across type families. -/
  mixed : Bool
  deriving Repr

/-- An inferred type: `unknown` is the bottom, `json` the top. -/
inductive Shape
  | unknown | bool | int32 | int64 | double | decimal | utf8 | objectId | dateTime
  | bsonTimestamp | binary
  | document (fields : List (String × FieldShapeOf Shape))
  | array (inner : Shape)
  | json
  deriving Repr

abbrev FieldShape := FieldShapeOf Shape

def FieldShapeOf.empty : FieldShape := ⟨.unknown, 0, 0, false⟩

namespace Shape

mutual
/-- The derived `PartialEq`: structural, counters included. -/
def eq : Shape → Shape → Bool
  | .unknown, .unknown | .bool, .bool | .int32, .int32 | .int64, .int64 | .double, .double
  | .decimal, .decimal | .utf8, .utf8 | .objectId, .objectId | .dateTime, .dateTime
  | .bsonTimestamp, .bsonTimestamp | .binary, .binary | .json, .json => true
  | .document fields, .document fields' => eqFields fields fields'
  | .array inner, .array inner' => eq inner inner'
  | _, _ => false
def eqFields : List (String × FieldShapeOf Shape) → List (String × FieldShapeOf Shape) → Bool
  | [], [] => true
  | (k, ⟨s, p, n, m⟩) :: rest, (k', ⟨s', p', n', m'⟩) :: rest' =>
      (k == k' && eq s s' && p == p' && n == n' && m == m') && eqFields rest rest'
  | _, _ => false
end

mutual
theorem eq_iff (left right : Shape) : eq left right = true ↔ left = right := by
  cases left <;> cases right <;>
    simp only [eq, reduceCtorEq, Bool.false_eq_true, Shape.document.injEq, Shape.array.injEq]
  case document.document fields fields' => exact eqFields_iff fields fields'
  case array.array inner inner' => exact eq_iff inner inner'
theorem eqFields_iff (left right : List (String × FieldShapeOf Shape)) :
    eqFields left right = true ↔ left = right := by
  cases left with
  | nil => cases right <;> simp [eqFields]
  | cons entry rest =>
      cases right with
      | nil => simp [eqFields]
      | cons entry' rest' =>
          rcases entry with ⟨k, s, p, n, m⟩
          rcases entry' with ⟨k', s', p', n', m'⟩
          simp only [eqFields, Bool.and_eq_true, beq_iff_eq, eq_iff s s', eqFields_iff rest rest',
            List.cons.injEq, Prod.mk.injEq, FieldShapeOf.mk.injEq, and_assoc]
end

instance : DecidableEq Shape := fun left right =>
  decidable_of_iff (eq left right = true) (eq_iff left right)

mutual
/-- A bound on how deep `unify` can recurse into a shape. -/
def size : Shape → Nat
  | .document fields => 1 + sizeFields fields
  | .array inner => 1 + inner.size
  | _ => 1
def sizeFields : List (String × FieldShapeOf Shape) → Nat
  | [] => 0
  | (_, fs) :: rest => fs.shape.size + sizeFields rest
end

end Shape

/-- The joined slot of a key both documents hold. -/
def joinSlots (recur : Shape → Shape → Bool → Shape × Bool) (lv rv : FieldShape) : FieldShape :=
  let joined := recur lv.shape rv.shape (lv.mixed || rv.mixed)
  ⟨joined.1, lv.present + rv.present, lv.nulls + rv.nulls, joined.2⟩

/-- The body of `unify`, over the function it calls for the parts. The flag is
the source's `&mut bool`, passed in and handed back. -/
def unifyStep (recur : Shape → Shape → Bool → Shape × Bool) (a b : Shape) (mixed : Bool) :
    Shape × Bool :=
  if a = b then (a, mixed) else
  match a, b with
  | .unknown, other => (other, mixed)
  | other, .unknown => (other, mixed)
  | .json, _ => (.json, true)
  | _, .json => (.json, true)
  | .int32, .int64 => (.int64, mixed)
  | .int64, .int32 => (.int64, mixed)
  | .int32, .double => (.double, mixed)
  | .double, .int32 => (.double, mixed)
  | .int64, .double => (.double, mixed)
  | .double, .int64 => (.double, mixed)
  | .decimal, .int32 => (.decimal, mixed)
  | .decimal, .int64 => (.decimal, mixed)
  | .decimal, .double => (.decimal, mixed)
  | .int32, .decimal => (.decimal, mixed)
  | .int64, .decimal => (.decimal, mixed)
  | .double, .decimal => (.decimal, mixed)
  | .objectId, .utf8 => (.utf8, true)
  | .utf8, .objectId => (.utf8, true)
  | .dateTime, .bsonTimestamp => (.dateTime, mixed)
  | .bsonTimestamp, .dateTime => (.dateTime, mixed)
  | .array x, .array y =>
      let joined := recur x y mixed
      (.array joined.1, joined.2)
  | .array inner, other =>
      let joined := recur inner other mixed
      (.array joined.1, joined.2)
  | other, .array inner =>
      let joined := recur inner other mixed
      (.array joined.1, joined.2)
  | .document left, .document right =>
      (.document (SortedMap.mergeWith (joinSlots recur) left right), mixed)
  | _, _ => (.json, true)

/-- `unify` unrolled `fuel` calls deep; `unify_eq` shows that the sizes suffice. -/
def unifyFuel : Nat → Shape → Shape → Bool → Shape × Bool
  | 0 => fun a _ mixed => (a, mixed)
  | fuel + 1 => unifyStep (unifyFuel fuel)

def unify (a b : Shape) (mixed : Bool) : Shape × Bool := unifyFuel (a.size + b.size) a b mixed

def observeShape (slot : FieldShape) (isNull : Bool) (shape : Shape) : FieldShape :=
  if isNull then { slot with present := slot.present + 1, nulls := slot.nulls + 1 }
  else
    let joined := unify slot.shape shape slot.mixed
    { slot with shape := joined.1, present := slot.present + 1, mixed := joined.2 }

mutual
def shapeOf : Bson → Shape
  | .boolean _ => .bool
  | .int32 _ => .int32
  | .int64 _ => .int64
  | .double _ => .double
  | .decimal128 _ => .decimal
  | .string _ => .utf8
  | .symbol _ => .utf8
  | .objectId _ => .objectId
  | .dateTime _ => .dateTime
  | .timestamp _ _ => .bsonTimestamp
  | .binary _ _ => .binary
  | .null => .unknown
  | .undefined => .unknown
  | .document fields => .document (shapeOfFields fields [])
  | .array items => .array (shapeOfItems items .unknown false)
  -- Regexes, JS code, DBPointer, min/max key.
  | _ => .json
/-- The loop over a document's entries: `observe_value` on an empty slot. -/
def shapeOfFields : List (String × Bson) → List (String × FieldShapeOf Shape) →
    List (String × FieldShapeOf Shape)
  | [], fields => fields
  | (k, v) :: rest, fields =>
      shapeOfFields rest
        (SortedMap.insert k (observeShape FieldShapeOf.empty v.isNull (shapeOf v)) fields)
/-- The loop over an array's items; the flag is local and dropped. -/
def shapeOfItems : List Bson → Shape → Bool → Shape
  | [], elem, _ => elem
  | item :: rest, elem, mixed =>
      let joined := unify elem (shapeOf item) mixed
      shapeOfItems rest joined.1 joined.2
end

def observeValue (slot : FieldShape) (value : Bson) : FieldShape :=
  observeShape slot value.isNull (shapeOf value)

/-- Accumulates shapes across a stream of sampled documents. -/
structure Sampler where
  root : List (String × FieldShape)
  docsSeen : Nat

namespace Sampler

def new : Sampler := ⟨[], 0⟩

def observe (sampler : Sampler) (doc : Document) : Sampler :=
  { root := doc.fields.foldl (fun root entry =>
      SortedMap.insert entry.1
        (observeValue ((root.lookup entry.1).getD FieldShapeOf.empty) entry.2) root) sampler.root
    docsSeen := sampler.docsSeen + 1 }

def observeAll (docs : List Document) : Sampler := docs.foldl observe new

end Sampler

/-- `format!("{:.6}", present as f64 / parent_count as f64)`, zero without documents. -/
def frequency (present parentCount : Nat) : String :=
  if parentCount = 0 then "0.000000"
  else
    let num := (F64.ofInt present).magnitude
    let den := (F64.ofInt parentCount).magnitude
    (F64.ofRatio false num den).fixed6

/-- The metadata of an inferred field. -/
def fieldMetadata (tag : BsonTag) (path : String) (fs : FieldShape) (parentCount : Nat) :
    List (String × String) :=
  [(metaBson, tag.asStr), (metaPath, path), (metaFreq, frequency fs.present parentCount)] ++
    if fs.mixed then [(metaMixed, "true")] else []

/-- The field around a type and tag: only the root `_id` is non-nullable. -/
def fieldAround (name path : String) (fs : FieldShape) (parentCount : Nat)
    (typed : DataType × BsonTag) : Field :=
  ⟨name, typed.1, path != "_id", fieldMetadata typed.2 path fs parentCount⟩

def maxPresent (children : List (String × FieldShape)) : Nat :=
  children.foldl (fun best child => max best child.2.present) 0

mutual
def arrowType : Shape → String → Nat → Nat → DataType × BsonTag
  | .unknown, _, _, _ => (.utf8, .unknown)
  | .bool, _, _, _ => (.boolean, .bool)
  | .int32, _, _, _ => (.int32, .int32)
  | .int64, _, _, _ => (.int64, .int64)
  | .double, _, _, _ => (.float64, .double)
  | .decimal, _, _, _ => (.decimal128 decimalPrecision decimalScale, .decimal)
  | .utf8, _, _, _ => (.utf8, .string)
  | .objectId, _, _, _ => (.utf8, .objectId)
  | .dateTime, _, _, _ => (.timestamp .millisecond (some "UTC"), .dateTime)
  | .bsonTimestamp, _, _, _ => (.timestamp .millisecond (some "UTC"), .timestamp)
  | .binary, _, _, _ => (.binary, .binary)
  | .json, _, _, _ => (.utf8, .json)
  | .document children, path, depth, maxDepth =>
      if depth < maxDepth ∧ children ≠ [] then
        (.struct (buildFields children path (maxPresent children) (depth + 1) maxDepth), .document)
      else (.utf8, .json)
  | .array inner, path, depth, maxDepth =>
      if depth < maxDepth then
        let item := arrowType inner path (depth + 1) maxDepth
        (.list ⟨"item", item.1, true, [(metaBson, item.2.asStr)]⟩, .array)
      else (.utf8, .json)
/-- The children of a struct, each under its parent's path. -/
def buildFields : List (String × FieldShapeOf Shape) → String → Nat → Nat → Nat →
    List (FieldOf DataType)
  | [], _, _, _, _ => []
  | (k, fs) :: rest, path, total, depth, maxDepth =>
      fieldAround k (path ++ "." ++ k) fs total
          (arrowType fs.shape (path ++ "." ++ k) depth maxDepth) ::
        buildFields rest path total depth maxDepth
end

def buildField (name path : String) (fs : FieldShape) (parentCount depth maxDepth : Nat) : Field :=
  fieldAround name path fs parentCount (arrowType fs.shape path depth maxDepth)

/-- `_id` first, then by name. -/
def nameOrder (a b : String) : Prop := (a ≠ "_id" ∧ b ≠ "_id" ∧ a ≤ b) ∨ a = "_id"

instance : DecidableRel nameOrder := fun a b => by
  unfold nameOrder
  infer_instance

/-- Materialise the accumulated shapes as an Arrow schema. -/
def Sampler.finish (sampler : Sampler) (maxDepth : Nat) : Schema :=
  ((sampler.root.map Prod.fst).insertionSort nameOrder).filterMap fun name =>
    (sampler.root.lookup name).map fun fs =>
      buildField name name fs sampler.docsSeen 0 maxDepth

/-- Whether a field's values were coerced across type families. -/
def fieldIsMixed (field : Field) : Bool :=
  match field.metadata.lookup metaMixed with
  | some s => s == "true"
  | none => false

/-- The dotted Mongo path a column reads from. -/
def fieldPath (field : Field) : String :=
  (field.metadata.lookup metaPath).getD field.name

end Auger
