import Auger.Exactness

set_option autoImplicit false

/-! Which unflagged columns hold values of one comparison class, the class of
every literal pushed against them. -/

namespace Auger

/-- The comparison classes a scalar column can stand for. -/
inductive ComparisonClass
  | number | string | objectId | boolean | date | timestamp | binary
  deriving DecidableEq, Repr

def Bson.comparisonClass : Bson → Option ComparisonClass
  | .int32 _ | .int64 _ | .double _ | .decimal128 _ => some .number
  | .string _ | .symbol _ => some .string
  | .objectId _ => some .objectId
  | .boolean _ => some .boolean
  | .dateTime _ => some .date
  | .timestamp _ _ => some .timestamp
  | .binary _ _ => some .binary
  | _ => none

/-- The named classes are classes of the server's order. -/
theorem comparisonClass_typeClass {v w : Bson} {c d : ComparisonClass}
    (first : v.comparisonClass = some c) (second : w.comparisonClass = some d) :
    v.typeClass = w.typeClass ↔ c = d := by
  cases v <;> cases w <;>
    simp only [Bson.comparisonClass, Option.some.injEq, reduceCtorEq] at first second <;>
    subst first <;> subst second <;> simp [Bson.typeClass]

def DataType.literalClass (tag : BsonTag) : DataType → ComparisonClass
  | .boolean => .boolean
  | .int32 | .int64 | .float64 | .decimal128 _ _ => .number
  | .timestamp _ _ => .date
  | .binary => .binary
  | _ => if tag = .objectId then .objectId else .string

def DataType.isScalar : DataType → Bool
  | .struct _ | .list _ => false
  | _ => true

/-- One class holds the observed values and every literal of the column's type. -/
def SafeToCompare (field : Field) (values : List Bson) : Prop :=
  ∃ shared : ComparisonClass,
    (∀ v ∈ values, v.isNull = false → v.comparisonClass = some shared) ∧
      ∀ scalar operand, scalar.dataType = some field.dataType →
        scalarToBson scalar (BsonTag.of field) = some operand →
        operand.comparisonClass = some shared

/-- Values a column can end up with although nothing flags it: internal
timestamps, nested values, and those with no SQL type of their own. -/
def Bson.escapesFlag : Bson → Bool
  | .timestamp _ _ | .document _ | .array _ => true
  | v => v.isExotic

theorem intLiteral_class (v : Int64) (tag : BsonTag) :
    (intLiteral v tag).comparisonClass = some .number := by
  cases tag <;> simp only [intLiteral] <;> first | rfl | (cases toI32 v <;> rfl)

theorem literal_class {tag : BsonTag} {dataType : DataType} {scalar : ScalarValue} {operand : Bson}
    (own : scalar.dataType = some dataType) (emitted : scalarToBson scalar tag = some operand) :
    operand.comparisonClass = some (dataType.literalClass tag) := by
  cases scalar with
  | boolean value =>
      cases own
      cases value <;> cases emitted
      rfl
  | int32 value =>
      cases own
      cases value <;> cases emitted
      exact intLiteral_class _ _
  | int64 value =>
      cases own
      cases value <;> cases emitted
      exact intLiteral_class _ _
  | float64 value =>
      cases own
      cases value <;> cases emitted
      rfl
  | timestampMillisecond value timezone =>
      cases own
      cases value <;> cases emitted
      rfl
  | utf8 value =>
      cases own
      cases value with
      | none => cases emitted
      | some s =>
          simp only [scalarToBson] at emitted
          split_ifs at emitted with identified
          · obtain ⟨id, -, rfl⟩ := Option.map_eq_some_iff.mp emitted
            simp [DataType.literalClass, identified, Bson.comparisonClass]
          · cases emitted
            simp [DataType.literalClass, identified, Bson.comparisonClass]
  | binary value => cases value <;> cases emitted
  | decimal128 value precision scale => cases value <;> cases emitted
  | _ => cases own

/-- What an unflagged scalar shape admits is of the column's class, internal
timestamps and values without a class apart. -/
theorem admitted_class {shape : Shape} {path : String} {depth maxDepth : Nat} {v : Bson}
    (admitted : shape.admits false v = true) (kept : v.escapesFlag = false) :
    v.comparisonClass =
      some ((arrowType shape path depth maxDepth).1.literalClass
        (arrowType shape path depth maxDepth).2) := by
  cases shape <;> cases v <;> first
    | (cases admitted; done)
    | (cases kept; done)
    | rfl

/-- An internal timestamp in an unflagged scalar column makes it a column of dates. -/
theorem timestamp_column {shape : Shape} {path : String} {depth maxDepth : Nat} {values : List Bson}
    (explained : Explains shape false values)
    (classed : ∀ v ∈ values, v.isNull = false → v.comparisonClass ≠ none) {time increment : UInt32}
    (member : .timestamp time increment ∈ values) :
    (arrowType shape path depth maxDepth).1 = .timestamp .millisecond (some "UTC") := by
  cases shape with
  | document fields =>
      simp only [Explains] at explained
      rcases explained.1 _ member with null | ⟨inner, same⟩
      · cases null
      · cases same
  | array inner =>
      simp only [Explains] at explained
      obtain ⟨array, inside, isArray⟩ := explained.1
      cases array <;> first | (cases isArray; done) | exact absurd rfl (classed _ inside rfl)
  | dateTime | bsonTimestamp => rfl
  | _ =>
      rcases explained _ member with null | admitted
      · cases null
      · cases admitted

theorem values_class {shape : Shape} {path : String} {depth maxDepth : Nat} {values : List Bson}
    (explained : Explains shape false values) (kept : ∀ v ∈ values, v.escapesFlag = false) :
    ∀ v ∈ values, v.isNull = false →
      v.comparisonClass =
        some ((arrowType shape path depth maxDepth).1.literalClass
          (arrowType shape path depth maxDepth).2) := by
  intro v member known
  have ordinary := kept v member
  cases shape with
  | document fields =>
      simp only [Explains] at explained
      rcases explained.1 v member with null | ⟨inner, rfl⟩
      · rw [known] at null
        cases null
      · cases ordinary
  | array inner =>
      simp only [Explains] at explained
      obtain ⟨array, inside, isArray⟩ := explained.1
      have escapes := kept array inside
      cases array <;> first | (cases isArray; done) | cases escapes
  | _ =>
      rcases explained v member with null | admitted
      · rw [known] at null
        cases null
      · exact admitted_class admitted ordinary

/-- An unflagged column is safe to compare exactly when no internal timestamp,
nested value or exotic value was observed at it. -/
theorem unflagged_safe_iff (docs : List Document) (maxDepth : Nat) (keys : List String) (field : Field)
    (place : FieldAt (inferredSchema docs maxDepth) keys field)
    (unflagged : fieldIsMixed field = false) :
    SafeToCompare field (valuesUnder keys docs) ↔
      ∀ v ∈ valuesUnder keys docs, v.escapesFlag = false := by
  obtain ⟨fs, slot, name, total, depth, rfl⟩ := place.slot
  have explained := slot.explains
  rw [mixed_fieldAround] at unflagged
  rw [unflagged] at explained
  constructor
  · rintro ⟨shared, observed, literals⟩ v member
    by_contra escapes
    rw [Bool.not_eq_false] at escapes
    have classed : ∀ w ∈ valuesUnder keys docs, w.isNull = false → w.comparisonClass ≠ none := by
      intro w inside known
      rw [observed w inside known]
      exact Option.some_ne_none shared
    have known : v.isNull = false := by cases v <;> first | rfl | cases escapes
    have own := observed v member known
    cases v with
    | timestamp time increment =>
        have dates : (arrowType fs.shape (dotted keys) depth maxDepth).1 =
            .timestamp .millisecond (some "UTC") := timestamp_column explained classed member
        have epoch := literals (.timestampMillisecond (some 0) (some "UTC")) (.dateTime 0)
          (congrArg some dates.symm) rfl
        cases own
        cases epoch
    | _ => first | (cases own; done) | cases escapes
  · intro kept
    refine ⟨(arrowType fs.shape (dotted keys) depth maxDepth).1.literalClass
      (arrowType fs.shape (dotted keys) depth maxDepth).2, values_class explained kept, ?_⟩
    intro scalar operand own emitted
    rw [tag_fieldAround] at emitted
    exact literal_class own emitted

theorem fieldAt_root {schema : Schema} {name : String} (known : (findField name schema).isSome = true) :
    FieldAt schema [name] ((findField name schema).get known) := by
  have spec := findField_spec (Option.some_get known).symm
  have place := FieldAt.root spec.1
  rwa [spec.2] at place

/-- The column of a date and an internal timestamp is an unflagged date column. -/
def events : List Document :=
  [⟨[("at", .dateTime 0)], rfl⟩, ⟨[("at", .timestamp 1 1)], rfl⟩]

theorem unflagged_mixes_dates : ¬∀ (docs : List Document) (maxDepth : Nat) (keys : List String)
    (field : Field), FieldAt (inferredSchema docs maxDepth) keys field →
      field.dataType.isScalar = true → fieldIsMixed field = false →
      SafeToCompare field (valuesUnder keys docs) := by
  intro claimed
  obtain ⟨shared, observed, -⟩ := claimed events 4 ["at"] _ (fieldAt_root (by decide)) (by decide)
    (by decide)
  have date := observed (.dateTime 0) (by simp [valuesUnder, events, valueAt, childSlot]) rfl
  have internal := observed (.timestamp 1 1) (by simp [valuesUnder, events, valueAt, childSlot]) rfl
  cases date
  cases internal

theorem unflagged_safe_iff_shipments :
    ∃ field, FieldAt (inferredSchema shipments 4) ["size"] field ∧
      SafeToCompare field (valuesUnder ["size"] shipments) :=
  ⟨_, fieldAt_root (by decide),
    (unflagged_safe_iff shipments 4 ["size"] _ (fieldAt_root (by decide)) (by decide)).mpr (by decide)⟩

end Auger
