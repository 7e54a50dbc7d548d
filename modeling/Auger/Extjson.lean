import Auger.Encode
import Auger.Uniform

set_option autoImplicit false

/-! Relaxed extended JSON, which the bson crate writes for a json column. -/

namespace Auger

open General

/-- The values extended JSON wraps in an object of their own. -/
def Bson.isWrapped : Bson → Bool
  | .double x => !x.isFinite
  | .string _ | .array _ | .document _ | .boolean _ | .null | .int32 _ | .int64 _ => false
  | _ => true

/-- What is relied on of the bson crate: the text of `into_relaxed_extjson`, read
as JSON. Doubles are written in the shortest digits that read back. -/
structure RelaxedExtjson (text : BsonText) (relaxed : Bson → Json) : Prop where
  reads : ∀ v, Json.parse (text.extjson v) = some (relaxed v)
  null : relaxed .null = .null
  boolean : ∀ b, relaxed (.boolean b) = .bool b
  int32 : ∀ v, relaxed (.int32 v) = .number (toString v.toInt)
  int64 : ∀ v, relaxed (.int64 v) = .number (toString v.toInt)
  double : ∀ x, x.isFinite = true → ∃ lexeme, relaxed (.double x) = .number lexeme ∧
    Json.numberValue lexeme.toList = Json.numberValue x.display.toList
  string : ∀ s, relaxed (.string s) = .string s
  array : ∀ items, relaxed (.array items) = .array (items.map relaxed)
  document : ∀ fields, ∃ members, relaxed (.document fields) = .object members ∧
    ∀ name, members.lookup name = (fields.lookup name).map relaxed
  wrapped : ∀ v, v.isWrapped = true → ∃ members, relaxed v = .object members

namespace RelaxedExtjson

variable {text : BsonText} {relaxed : Bson → Json} (extjson : RelaxedExtjson text relaxed)
include extjson

theorem ne_string {v : Bson} (other : v.isString = false) (s : String) : relaxed v ≠ .string s := by
  intro same
  by_cases wrapped : v.isWrapped = true
  · obtain ⟨members, object⟩ := extjson.wrapped v wrapped
    cases same.symm.trans object
  · cases v with
    | double x =>
        obtain ⟨lexeme, number, -⟩ := extjson.double x (by simpa [Bson.isWrapped] using wrapped)
        cases same.symm.trans number
    | string s => cases other
    | array items => cases same.symm.trans (extjson.array items)
    | document fields =>
        obtain ⟨members, object, -⟩ := extjson.document fields
        cases same.symm.trans object
    | boolean b => cases same.symm.trans (extjson.boolean b)
    | null => cases same.symm.trans extjson.null
    | int32 v => cases same.symm.trans (extjson.int32 v)
    | int64 v => cases same.symm.trans (extjson.int64 v)
    | _ => exact wrapped rfl

theorem ne_array {v : Bson} (other : v.isArray = false) (items : List Json) : relaxed v ≠ .array items := by
  intro same
  by_cases wrapped : v.isWrapped = true
  · obtain ⟨members, object⟩ := extjson.wrapped v wrapped
    cases same.symm.trans object
  · cases v with
    | double x =>
        obtain ⟨lexeme, number, -⟩ := extjson.double x (by simpa [Bson.isWrapped] using wrapped)
        cases same.symm.trans number
    | string s => cases same.symm.trans (extjson.string s)
    | array items => cases other
    | document fields =>
        obtain ⟨members, object, -⟩ := extjson.document fields
        cases same.symm.trans object
    | boolean b => cases same.symm.trans (extjson.boolean b)
    | null => cases same.symm.trans extjson.null
    | int32 v => cases same.symm.trans (extjson.int32 v)
    | int64 v => cases same.symm.trans (extjson.int64 v)
    | _ => exact wrapped rfl

theorem wrapped_same {v : Bson} (wrapped : v.isWrapped = true) {value : Json} (same : value.Same (relaxed v)) :
    ∃ members, value = .object members := by
  obtain ⟨members, object⟩ := extjson.wrapped v wrapped
  rw [object] at same
  cases same with
  | @object left _ names each => exact ⟨left, rfl⟩

end RelaxedExtjson

section
variable (decimal : Decimal128 → String) (rfc3339 : Int64 → Option String)

mutual
/-- `into_relaxed_extjson`. -/
def relaxedExtjson : Bson → Json
  | .double x =>
      if x.isFinite then .number x.display
      else .object [("$numberDouble", .string (if x.isNan then "NaN" else if x.negative then "-Infinity" else "Infinity"))]
  | .string s => .string s
  | .array items => .array (relaxedItems items)
  | .document fields => .object (relaxedFields fields)
  | .boolean b => .bool b
  | .null => .null
  | .regularExpression pattern options =>
      .object [("$regularExpression", .object [("pattern", .string pattern), ("options", .string options)])]
  | .javaScriptCode code => .object [("$code", .string code)]
  | .javaScriptCodeWithScope code scope =>
      .object [("$code", .string code), ("$scope", .object (relaxedFields scope))]
  | .int32 v => .number (toString v.toInt)
  | .int64 v => .number (toString v.toInt)
  | .timestamp time increment =>
      .object [("$timestamp", .object [("t", .number (toString time.toNat)), ("i", .number (toString increment.toNat))])]
  | .binary subtype bytes =>
      .object [("$binary", .object [("base64", .string (Base64Min.encode bytes)), ("subType", .string (hex [subtype]))])]
  | .objectId id => .object [("$oid", .string id.toHex)]
  | .dateTime millis =>
      .object [("$date", match rfc3339 millis with
        | some text => .string text
        | none => .object [("$numberLong", .string (toString millis.toInt))])]
  | .symbol s => .object [("$symbol", .string s)]
  | .decimal128 d => .object [("$numberDecimal", .string (decimal d))]
  | .undefined => .object [("$undefined", .bool true)]
  | .maxKey => .object [("$maxKey", .number "1")]
  | .minKey => .object [("$minKey", .number "1")]
  | .dbPointer collection id =>
      .object [("$dbPointer", .object [("$ref", .string collection), ("$id", .object [("$oid", .string id.toHex)])])]
def relaxedItems : List Bson → List Json
  | [] => []
  | value :: rest => relaxedExtjson value :: relaxedItems rest
def relaxedFields : List (String × Bson) → List (String × Json)
  | [] => []
  | (key, value) :: rest => (key, relaxedExtjson value) :: relaxedFields rest
end

theorem relaxedItems_eq (items : List Bson) : relaxedItems decimal rfc3339 items = items.map (relaxedExtjson decimal rfc3339) := by
  induction items with
  | nil => rfl
  | cons item rest ih => rw [relaxedItems, ih, List.map_cons]

theorem relaxedFields_eq (fields : Fields) :
    relaxedFields decimal rfc3339 fields = fields.map fun entry => (entry.1, relaxedExtjson decimal rfc3339 entry.2) := by
  induction fields with
  | nil => rfl
  | cons entry rest ih => rw [relaxedFields, ih, List.map_cons]

mutual
theorem relaxed_valid (value : Bson) : (relaxedExtjson decimal rfc3339 value).numbersValid = true := by
  cases value with
  | double x =>
      simp only [relaxedExtjson]
      split_ifs with finite
      · exact F64.display_isNumber finite
      · rfl
      · rfl
      · rfl
  | array items => exact relaxedItems_valid items
  | document fields => exact relaxedFields_valid fields
  | javaScriptCodeWithScope code scope =>
      simp [relaxedExtjson, Json.numbersValid, Json.membersValid, relaxedFields_valid scope]
  | int32 v => exact Json.isNumber_int v.toInt
  | int64 v => exact Json.isNumber_int v.toInt
  | timestamp time increment =>
      simp only [relaxedExtjson, Json.numbersValid, Json.membersValid, Json.isNumber_nat, Bool.and_self]
  | dateTime millis =>
      simp only [relaxedExtjson]
      cases rfc3339 millis <;> rfl
  | _ => rfl
theorem relaxedItems_valid (items : List Bson) : Json.itemsValid (relaxedItems decimal rfc3339 items) = true := by
  cases items with
  | nil => rfl
  | cons item rest =>
      simp only [relaxedItems, Json.itemsValid, Bool.and_eq_true]
      exact ⟨relaxed_valid item, relaxedItems_valid rest⟩
theorem relaxedFields_valid (fields : List (String × Bson)) :
    Json.membersValid (relaxedFields decimal rfc3339 fields) = true := by
  cases fields with
  | nil => rfl
  | cons entry rest =>
      rcases entry with ⟨key, value⟩
      simp only [relaxedFields, Json.membersValid, Bool.and_eq_true]
      exact ⟨relaxed_valid value, relaxedFields_valid rest⟩
end

def bsonText : BsonText :=
  ⟨decimal, rfc3339, fun value => String.ofList (relaxedExtjson decimal rfc3339 value).compact⟩

theorem bsonText_extjson : RelaxedExtjson (bsonText decimal rfc3339) (relaxedExtjson decimal rfc3339) where
  reads v := Json.parse_compact (relaxed_valid decimal rfc3339 v)
  null := rfl
  boolean _ := rfl
  int32 _ := rfl
  int64 _ := rfl
  double x finite := by
    simp only [relaxedExtjson, if_pos finite]
    exact ⟨_, rfl, rfl⟩
  string _ := rfl
  array items := by rw [relaxedExtjson, relaxedItems_eq]
  document fields := by
    refine ⟨_, rfl, fun name => ?_⟩
    rw [relaxedFields_eq]
    exact SortedMap.lookup_map (relaxedExtjson decimal rfc3339) fields name
  wrapped v wrapped := by
    cases v with
    | double x =>
        have infinite : ¬x.isFinite = true := by simpa [Bson.isWrapped] using wrapped
        simp only [relaxedExtjson, if_neg infinite]
        exact ⟨_, rfl⟩
    | _ => first | exact ⟨_, rfl⟩ | cases wrapped

end

end Auger
