import Auger.DecimalText
import Auger.Rendering
import Auger.Restart

set_option autoImplicit false

/-! What every inferred field is good for: its nesting is bounded, the cache can store it,
and its arrays can be built where their bytes can be counted. -/

namespace Auger

open General

mutual
def DataType.columnDepth : DataType → Nat
  | .struct children => 1 + childrenDepth children
  | .list item => 1 + item.dataType.columnDepth
  | _ => 0
def childrenDepth : List (FieldOf DataType) → Nat
  | [] => 0
  | child :: rest => max child.dataType.columnDepth (childrenDepth rest)
end

mutual
theorem arrowType_columnDepth (shape : Shape) (path : String) (depth maxDepth : Nat) :
    (arrowType shape path depth maxDepth).1.columnDepth ≤ maxDepth - depth := by
  cases shape with
  | document children =>
      simp only [arrowType]
      split_ifs with nested
      · have inner := buildFields_columnDepth children path (maxPresent children) (depth + 1) maxDepth
        simp only [DataType.columnDepth]
        omega
      · exact Nat.zero_le _
  | array inner =>
      simp only [arrowType]
      split_ifs with nested
      · have item := arrowType_columnDepth inner path (depth + 1) maxDepth
        simp only [DataType.columnDepth]
        omega
      · exact Nat.zero_le _
  | _ => exact Nat.zero_le _
theorem buildFields_columnDepth (children : List (String × FieldShapeOf Shape)) (path : String)
    (total depth maxDepth : Nat) :
    childrenDepth (buildFields children path total depth maxDepth) ≤ maxDepth - depth := by
  cases children with
  | nil => exact Nat.zero_le _
  | cons entry rest =>
      obtain ⟨key, shape, present, nulls, mixed⟩ := entry
      have first := arrowType_columnDepth shape (path ++ "." ++ key) depth maxDepth
      have later := buildFields_columnDepth rest path total depth maxDepth
      simp only [buildFields, childrenDepth, fieldAround]
      omega
end

theorem buildArray_isOk (text : BsonText) (field : Field) (decodable : field.dataType.decodable = true)
    (values : List (Option Bson)) (light : ListsFit field.dataType values) :
    (∃ array, buildArray text field values = .ok array ∧ array.len = values.length) ↔
      TextFits text field.dataType (BsonTag.of field) values := by
  have built := buildTyped_isOk text field.dataType decodable field.name (BsonTag.of field) values
  constructor
  · rintro ⟨array, done, -⟩
    exact (built.mp ⟨array, done⟩).2
  · intro fits
    obtain ⟨array, done⟩ := built.mpr ⟨light, fits⟩
    exact ⟨array, done, (buildTyped_decoded text _ _ _ _ array done).len⟩

theorem finish_columnDepth {sampler : Sampler} {maxDepth : Nat} {field : Field}
    (inferred : field ∈ sampler.finish maxDepth) : field.dataType.columnDepth ≤ maxDepth := by
  obtain ⟨name, fs, slot, rfl⟩ := mem_finish inferred
  exact arrowType_columnDepth fs.shape name 0 maxDepth

theorem finish_fromArrow {sampler : Sampler} {maxDepth : Nat} {field : Field}
    (inferred : field ∈ sampler.finish maxDepth) : ∃ stored, StoredField.fromArrow field = some stored := by
  obtain ⟨ty, represented⟩ := fromArrow_decodable _ (finish_decodable sampler maxDepth field inferred)
  exact ⟨_, by rw [StoredField.fromArrow, represented, Option.map_some]⟩

/-- An inferred column is no deeper than asked and has a stored form, and where its lists fit
it is built, one slot for each value, exactly when its texts and bytes fit. -/
theorem finish_supported_iff (docs : List Document) (maxDepth : Nat) (field : Field)
    (inferred : field ∈ (Sampler.observeAll docs).finish maxDepth) :
    field.dataType.columnDepth ≤ maxDepth ∧ (∃ stored, StoredField.fromArrow field = some stored) ∧
      ∀ (text : BsonText) (values : List (Option Bson)), ListsFit field.dataType values →
        ((∃ array, buildArray text field values = .ok array ∧ array.len = values.length) ↔
          TextFits text field.dataType (BsonTag.of field) values) := by
  refine ⟨finish_columnDepth inferred, finish_fromArrow inferred, fun text values light => ?_⟩
  exact buildArray_isOk text field (finish_decodable _ maxDepth field inferred) values light

/-- The column of a collection of one document with a text. -/
def bodyField : Field := buildField "body" "body" (observeValue FieldShapeOf.empty (.string "a")) 1 0 4

theorem bodyField_inferred : bodyField ∈ (Sampler.observeAll [alone "body" (.string "a") (by decide)]).finish 4 := by
  have column : (Sampler.observeAll [alone "body" (.string "a") (by decide)]).finish 4 = [bodyField] :=
    finish_alone "body" (.string "a") (by decide) 4
  rw [column]
  exact List.mem_singleton_self _

/-- A struct with a list of texts. -/
def pagedBody : Bson := .document [("pages", .array [.string "a", .null])]

def pagedField : Field := buildField "body" "body" (observeValue FieldShapeOf.empty pagedBody) 1 0 4

theorem finish_supported_iff_body : ∃ array,
    buildArray plainText pagedField [some pagedBody, none, some (.document [("pages", .string "b")])] = .ok array ∧
      array.len = 3 := by
  have inferred : pagedField ∈ (Sampler.observeAll [alone "body" pagedBody (by decide)]).finish 4 := by
    rw [finish_alone "body" pagedBody (by decide) 4]
    exact List.mem_singleton_self _
  refine ((finish_supported_iff _ 4 pagedField inferred).2.2 plainText _ ?_).mpr ?_
  · exact ⟨⟨by decide, trivial⟩, trivial⟩
  · exact ⟨by show List.sum _ < 2 ^ 31; decide, trivial⟩

def letters (n : Nat) : String := String.ofList (List.replicate n 'a')

theorem letters_size (n : Nat) : (letters n).utf8ByteSize = n := by
  induction n with
  | zero => rfl
  | succ n ih =>
      rw [letters, List.replicate_succ, utf8ByteSize_ofList_cons, ← letters, ih, Nat.add_comm]
      rfl

/-- 1024 texts of 2 MiB do not fit one text column. -/
theorem finish_unsupported : ¬∀ (docs : List Document) (maxDepth : Nat) (field : Field),
    field ∈ (Sampler.observeAll docs).finish maxDepth →
      field.dataType.columnDepth ≤ maxDepth ∧ (∃ stored, StoredField.fromArrow field = some stored) ∧
        ∀ (text : BsonText) (values : List (Option Bson)), ListsFit field.dataType values →
          ∃ array, buildArray text field values = .ok array ∧ array.len = values.length := by
  intro holds
  have decodable := finish_decodable _ 4 bodyField bodyField_inferred
  have built := (holds _ 4 bodyField bodyField_inferred).2.2 plainText
    (List.replicate 1024 (some (.string (letters (2 ^ 21))))) trivial
  have fits := (buildArray_isOk plainText bodyField decodable _ trivial).mp built
  have size : renderedBytes plainText (BsonTag.of bodyField) (some (.string (letters (2 ^ 21)))) = 2 ^ 21 :=
    letters_size (2 ^ 21)
  have total : ((List.replicate 1024 (some (.string (letters (2 ^ 21))))).map
      (renderedBytes plainText (BsonTag.of bodyField))).sum < 2 ^ 31 := fits
  rw [List.map_replicate, List.sum_replicate, size] at total
  exact absurd total (by decide)

end Auger
