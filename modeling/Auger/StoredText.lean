import Auger.Store
import Auger.General.JsonText
import Auger.General.JsonNumber

set_option autoImplicit false

/-! The JSON form of a stored catalog, as its derived serializers write it. -/

namespace Auger

open General

def Json.ofNat (n : Nat) : Json := .number (toString n)

def Json.ofInt (v : Int) : Json := .number (toString v)

/-- A variant without data of the internally tagged type. -/
def taggedUnit (k : String) : Json := .object [("k", .string k)]

def metadataJson (metadata : List (String × String)) : Json :=
  .object (metadata.map fun entry => (entry.1, .string entry.2))

def fieldJson (name : String) (ty : Json) (nullable : Bool) (metadata : List (String × String)) : Json :=
  .object [("name", .string name), ("ty", ty), ("nullable", .bool nullable), ("metadata", metadataJson metadata)]

mutual
def StoredType.toJson : StoredType → Json
  | .boolean => taggedUnit "boolean"
  | .int32 => taggedUnit "int32"
  | .int64 => taggedUnit "int64"
  | .float64 => taggedUnit "float64"
  | .utf8 => taggedUnit "utf8"
  | .binary => taggedUnit "binary"
  | .decimal precision scale =>
      .object [("k", .string "decimal"), ("precision", Json.ofNat precision), ("scale", Json.ofInt scale)]
  | .timestampMs tz =>
      .object [("k", .string "timestamp_ms"), ("tz", match tz with | some tz => .string tz | none => .null)]
  | .struct fields => .object [("k", .string "struct"), ("fields", .array (StoredField.allToJson fields))]
  | .list item =>
      .object [("k", .string "list"), ("item", fieldJson item.name item.ty.toJson item.nullable item.metadata)]
def StoredField.allToJson : List (StoredFieldOf StoredType) → List Json
  | [] => []
  | field :: rest =>
      fieldJson field.name field.ty.toJson field.nullable field.metadata :: StoredField.allToJson rest
end

def CollectionStats.toJson (stats : CollectionStats) : Json :=
  .object [("doc_count", Json.ofNat stats.docCount), ("avg_doc_size", Json.ofNat stats.avgDocSize),
    ("total_size", Json.ofNat stats.totalSize), ("indexed_paths", .array (stats.indexedPaths.map .string))]

def StoredTable.toJson (table : StoredTable) : Json :=
  .object [("fields", .array (StoredField.allToJson table.fields)), ("stats", table.stats.toJson),
    ("inferred_at", Json.ofNat table.inferredAt)]

def StoredCatalog.toJson (catalog : StoredCatalog) : Json :=
  .object [("version", Json.ofNat catalog.version),
    ("tables", .object (catalog.tables.entries.map fun entry => (entry.1, entry.2.toJson)))]

/-- The text `serde_json::to_string_pretty` writes. -/
def StoredCatalog.text (catalog : StoredCatalog) : String := String.ofList (Json.pretty 0 catalog.toJson)

theorem repr_injective {n m : Nat} (same : n.repr = m.repr) : n = m := by
  have digits : Nat.toDigits 10 n = Nat.toDigits 10 m := by
    rw [← Nat.toList_repr, ← Nat.toList_repr, same]
  calc
    n = Nat.ofDigitChars 10 (Nat.toDigits 10 n) 0 := Nat.ofDigitChars_ten_toDigits.symm
    _ = m := by rw [digits, Nat.ofDigitChars_ten_toDigits]

theorem ofNat_injective {n m : Nat} (same : Json.ofNat n = Json.ofNat m) : n = m := by
  simp only [Json.ofNat, Json.number.injEq, Nat.toString_eq_repr] at same
  exact repr_injective same

theorem repr_ne_minus (n m : Nat) : n.repr ≠ "-" ++ m.repr := by
  intro same
  have chars : Nat.toDigits 10 n = '-' :: Nat.toDigits 10 m := by
    rw [← Nat.toList_repr, same, String.toList_append, Nat.toList_repr]
    rfl
  have digit := Json.toDigits_digits n '-' (by rw [chars]; simp)
  cases digit

theorem ofInt_injective {v w : Int} (same : Json.ofInt v = Json.ofInt w) : v = w := by
  simp only [Json.ofInt, Json.number.injEq, Int.toString_eq_repr, Int.repr_eq_if] at same
  split_ifs at same with first second third
  · have naturals := repr_injective same
    omega
  · exact absurd same (repr_ne_minus _ _)
  · exact absurd same.symm (repr_ne_minus _ _)
  · have naturals := repr_injective (String.append_right_inj "-" |>.mp same)
    omega

theorem metadataJson_injective {left right : List (String × String)}
    (same : metadataJson left = metadataJson right) : left = right := by
  simp only [metadataJson, Json.object.injEq] at same
  refine List.map_injective_iff.mpr (fun a b equal => ?_) same
  simp only [Prod.mk.injEq, Json.string.injEq] at equal
  exact Prod.ext equal.1 equal.2

theorem fieldJson_inj {name name' : String} {ty ty' : Json} {nullable nullable' : Bool}
    {metadata metadata' : List (String × String)}
    (same : fieldJson name ty nullable metadata = fieldJson name' ty' nullable' metadata') :
    name = name' ∧ ty = ty' ∧ nullable = nullable' ∧ metadata = metadata' := by
  simp only [fieldJson, Json.object.injEq, List.cons.injEq, Prod.mk.injEq, Json.string.injEq,
    Json.bool.injEq, true_and, and_true] at same
  exact ⟨same.1, same.2.1, same.2.2.1, metadataJson_injective same.2.2.2⟩

mutual
theorem StoredType.toJson_injective (left right : StoredType) (same : left.toJson = right.toJson) :
    left = right := by
  cases left <;> cases right <;>
    simp only [StoredType.toJson, taggedUnit, Json.object.injEq, List.cons.injEq, Prod.mk.injEq,
      Json.string.injEq, String.reduceEq, false_and, and_false, and_true, true_and, reduceCtorEq] at same
  case decimal.decimal precision scale precision' scale' =>
    rw [ofNat_injective same.1, ofInt_injective same.2]
  case timestampMs.timestampMs tz tz' =>
    cases tz <;> cases tz' <;> simp_all
  case struct.struct fields fields' =>
    simp only [Json.array.injEq] at same
    rw [StoredField.allToJson_injective fields fields' same]
  case list.list item item' =>
    rcases item with ⟨name, ty, nullable, metadata⟩
    rcases item' with ⟨name', ty', nullable', metadata'⟩
    obtain ⟨rfl, types, rfl, rfl⟩ := fieldJson_inj same
    rw [StoredType.toJson_injective ty ty' types]
  all_goals rfl
termination_by structural left
theorem StoredField.allToJson_injective (left right : List (StoredFieldOf StoredType))
    (same : StoredField.allToJson left = StoredField.allToJson right) : left = right := by
  cases left with
  | nil =>
      cases right with
      | nil => rfl
      | cons field' rest' => cases same
  | cons field rest =>
      cases right with
      | nil => cases same
      | cons field' rest' =>
          rcases field with ⟨name, ty, nullable, metadata⟩
          rcases field' with ⟨name', ty', nullable', metadata'⟩
          simp only [StoredField.allToJson, List.cons.injEq] at same
          obtain ⟨rfl, types, rfl, rfl⟩ := fieldJson_inj same.1
          rw [StoredType.toJson_injective ty ty' types,
            StoredField.allToJson_injective rest rest' same.2]
termination_by structural left
end

theorem CollectionStats.toJson_injective {left right : CollectionStats}
    (same : left.toJson = right.toJson) : left = right := by
  rcases left with ⟨docs, average, total, paths⟩
  rcases right with ⟨docs', average', total', paths'⟩
  simp only [CollectionStats.toJson, Json.object.injEq, List.cons.injEq, Prod.mk.injEq,
    Json.array.injEq, true_and, and_true] at same
  have indexed : paths = paths' :=
    List.map_injective_iff.mpr (fun _ _ equal => Json.string.inj equal) same.2.2.2
  rw [ofNat_injective same.1, ofNat_injective same.2.1, ofNat_injective same.2.2.1, indexed]

theorem StoredTable.toJson_injective {left right : StoredTable} (same : left.toJson = right.toJson) :
    left = right := by
  rcases left with ⟨fields, stats, inferred⟩
  rcases right with ⟨fields', stats', inferred'⟩
  simp only [StoredTable.toJson, Json.object.injEq, List.cons.injEq, Prod.mk.injEq,
    Json.array.injEq, true_and, and_true] at same
  rw [StoredField.allToJson_injective _ _ same.1, CollectionStats.toJson_injective same.2.1,
    ofNat_injective same.2.2]

theorem StoredCatalog.toJson_injective {left right : StoredCatalog} (same : left.toJson = right.toJson) :
    left = right := by
  rcases left with ⟨version, entries, ordered⟩
  rcases right with ⟨version', entries', ordered'⟩
  simp only [StoredCatalog.toJson, Json.object.injEq, List.cons.injEq, Prod.mk.injEq,
    true_and, and_true] at same
  have tables : entries = entries' := by
    refine List.map_injective_iff.mpr (fun a b equal => ?_) same.2
    simp only [Prod.mk.injEq] at equal
    exact Prod.ext equal.1 (StoredTable.toJson_injective equal.2)
  subst tables
  rw [ofNat_injective same.1]

theorem numbersValid_strings (entries : List (String × String)) :
    Json.membersValid (entries.map fun entry => (entry.1, Json.string entry.2)) = true := by
  induction entries with
  | nil => rfl
  | cons entry rest ih => simp [Json.membersValid, Json.numbersValid, ih]

theorem itemsValid_strings (values : List String) : Json.itemsValid (values.map .string) = true := by
  induction values with
  | nil => rfl
  | cons value rest ih => simp [Json.itemsValid, Json.numbersValid, ih]

theorem ofNat_valid (n : Nat) : (Json.ofNat n).numbersValid = true := by
  simp only [Json.ofNat, Json.numbersValid, Json.isNumber_nat]

theorem ofInt_valid (v : Int) : (Json.ofInt v).numbersValid = true := by
  simp only [Json.ofInt, Json.numbersValid, Json.isNumber_int]

theorem fieldJson_valid (name : String) {ty : Json} (nullable : Bool) (metadata : List (String × String))
    (valid : ty.numbersValid = true) : (fieldJson name ty nullable metadata).numbersValid = true := by
  simp [fieldJson, metadataJson, Json.numbersValid, Json.membersValid, valid, numbersValid_strings]

mutual
theorem StoredType.toJson_valid (ty : StoredType) : ty.toJson.numbersValid = true := by
  cases ty with
  | decimal precision scale =>
      simp [StoredType.toJson, Json.numbersValid, Json.membersValid, ofNat_valid, ofInt_valid]
  | timestampMs tz => cases tz <;> simp [StoredType.toJson, Json.numbersValid, Json.membersValid]
  | struct fields =>
      simp [StoredType.toJson, Json.numbersValid, Json.membersValid, StoredField.allToJson_valid fields]
  | list item =>
      rcases item with ⟨name, ty, nullable, metadata⟩
      have inner := fieldJson_valid name nullable metadata (StoredType.toJson_valid ty)
      simp [StoredType.toJson, Json.numbersValid, Json.membersValid, inner]
  | _ => simp [StoredType.toJson, taggedUnit, Json.numbersValid, Json.membersValid]
termination_by structural ty
theorem StoredField.allToJson_valid (fields : List (StoredFieldOf StoredType)) :
    Json.itemsValid (StoredField.allToJson fields) = true := by
  cases fields with
  | nil => rfl
  | cons field rest =>
      rcases field with ⟨name, ty, nullable, metadata⟩
      have inner := fieldJson_valid name nullable metadata (StoredType.toJson_valid ty)
      simp [StoredField.allToJson, Json.itemsValid, inner, StoredField.allToJson_valid rest]
termination_by structural fields
end

theorem StoredTable.toJson_valid (table : StoredTable) : table.toJson.numbersValid = true := by
  simp [StoredTable.toJson, CollectionStats.toJson, Json.numbersValid, Json.membersValid, ofNat_valid,
    itemsValid_strings, StoredField.allToJson_valid]

theorem StoredCatalog.toJson_valid (catalog : StoredCatalog) : catalog.toJson.numbersValid = true := by
  have tables : ∀ entries : List (String × StoredTable),
      Json.membersValid (entries.map fun entry => (entry.1, entry.2.toJson)) = true := by
    intro entries
    induction entries with
    | nil => rfl
    | cons entry rest ih => simp [Json.membersValid, StoredTable.toJson_valid, ih]
  simp [StoredCatalog.toJson, Json.numbersValid, Json.membersValid, ofNat_valid, tables]

theorem StoredCatalog.parse_text (catalog : StoredCatalog) : Json.parse catalog.text = some catalog.toJson :=
  Json.parse_pretty catalog.toJson_valid 0

theorem StoredCatalog.text_injective {left right : StoredCatalog} (same : left.text = right.text) :
    left = right := by
  apply StoredCatalog.toJson_injective
  have parsed := left.parse_text
  rw [same, right.parse_text, Option.some.injEq] at parsed
  exact parsed.symm

end Auger
