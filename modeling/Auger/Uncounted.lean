import Auger.UnifyLaws
import Mathlib

set_option autoImplicit false

/-! Shapes and schemas without what the counters say: types, tags, paths and flags at
every nesting level, but no frequencies. -/

namespace Auger

open General

mutual
/-- The shape with all counters at zero. -/
def Shape.uncounted : Shape → Shape
  | .document fields => .document (uncountedFields fields)
  | .array inner => .array inner.uncounted
  | shape => shape
def uncountedFields : List (String × FieldShapeOf Shape) → List (String × FieldShapeOf Shape)
  | [] => []
  | (key, ⟨shape, _, _, mixed⟩) :: rest => (key, ⟨shape.uncounted, 0, 0, mixed⟩) :: uncountedFields rest
end

def FieldShapeOf.uncounted (fs : FieldShape) : FieldShape := ⟨fs.shape.uncounted, 0, 0, fs.mixed⟩

theorem uncountedFields_eq (fields : List (String × FieldShape)) :
    uncountedFields fields = fields.map fun entry => (entry.1, entry.2.uncounted) := by
  induction fields with
  | nil => rfl
  | cons entry rest ih =>
      rw [uncountedFields, List.map_cons, ih]
      rfl

theorem lookup_uncounted (fields : List (String × FieldShape)) (key : String) :
    (uncountedFields fields).lookup key = (fields.lookup key).map FieldShapeOf.uncounted := by
  rw [uncountedFields_eq, SortedMap.lookup_map]

theorem uncountedFields_ext {left right : List (String × FieldShape)} (first : SortedMap.Ordered left)
    (second : SortedMap.Ordered right)
    (agree : ∀ key, (left.lookup key).map FieldShapeOf.uncounted = (right.lookup key).map FieldShapeOf.uncounted) :
    uncountedFields left = uncountedFields right := by
  rw [uncountedFields_eq, uncountedFields_eq]
  apply SortedMap.ext (SortedMap.map_ordered _ first) (SortedMap.map_ordered _ second)
  intro key
  rw [SortedMap.lookup_map, SortedMap.lookup_map, agree key]

def dropFreq (metadata : List (String × String)) : List (String × String) :=
  metadata.filter fun entry => entry.1 != metaFreq

mutual
def DataType.withoutFreq : DataType → DataType
  | .struct fields => .struct (fieldsWithoutFreq fields)
  | .list ⟨name, dataType, nullable, metadata⟩ =>
      .list ⟨name, dataType.withoutFreq, nullable, dropFreq metadata⟩
  | dataType => dataType
def fieldsWithoutFreq : List (FieldOf DataType) → List (FieldOf DataType)
  | [] => []
  | ⟨name, dataType, nullable, metadata⟩ :: rest =>
      ⟨name, dataType.withoutFreq, nullable, dropFreq metadata⟩ :: fieldsWithoutFreq rest
end

/-- The field with no recorded frequency, at any nesting level. -/
def FieldOf.withoutFreq (field : Field) : Field :=
  ⟨field.name, field.dataType.withoutFreq, field.nullable, dropFreq field.metadata⟩

def schemaWithoutFreq (schema : Schema) : Schema := schema.map FieldOf.withoutFreq

theorem dropFreq_fieldMetadata (tag : BsonTag) (path : String) (fs : FieldShape) (parentCount : Nat) :
    dropFreq (fieldMetadata tag path fs parentCount) =
      [(metaBson, tag.asStr), (metaPath, path)] ++ if fs.mixed then [(metaMixed, "true")] else [] := by
  cases mixed : fs.mixed <;> simp [dropFreq, fieldMetadata, mixed, metaBson, metaPath, metaFreq, metaMixed]

theorem fieldAround_withoutFreq (name path : String) {fs fs' : FieldShape} (parentCount parentCount' : Nat)
    {typed typed' : DataType × BsonTag} (mixed : fs.mixed = fs'.mixed)
    (types : typed.1.withoutFreq = typed'.1.withoutFreq) (tags : typed.2 = typed'.2) :
    (fieldAround name path fs parentCount typed).withoutFreq =
      (fieldAround name path fs' parentCount' typed').withoutFreq := by
  simp only [fieldAround, FieldOf.withoutFreq, dropFreq_fieldMetadata, mixed, types, tags]

mutual
theorem arrowType_uncounted (shape : Shape) (path : String) (depth maxDepth : Nat) :
    (arrowType shape.uncounted path depth maxDepth).1.withoutFreq =
        (arrowType shape path depth maxDepth).1.withoutFreq ∧
      (arrowType shape.uncounted path depth maxDepth).2 = (arrowType shape path depth maxDepth).2 := by
  cases shape with
  | document fields =>
      have empty : uncountedFields fields ≠ [] ↔ fields ≠ [] := by
        rw [uncountedFields_eq, ne_eq, List.map_eq_nil_iff]
      rw [Shape.uncounted, arrowType, arrowType]
      by_cases kept : depth < maxDepth ∧ fields ≠ []
      · rw [if_pos ⟨kept.1, empty.mpr kept.2⟩, if_pos kept]
        dsimp only
        rw [DataType.withoutFreq, DataType.withoutFreq,
          buildFields_uncounted fields path _ (maxPresent fields) (depth + 1) maxDepth]
        exact ⟨rfl, rfl⟩
      · rw [if_neg fun both => kept ⟨both.1, empty.mp both.2⟩, if_neg kept]
        exact ⟨rfl, rfl⟩
  | array inner =>
      obtain ⟨types, tags⟩ := arrowType_uncounted inner path (depth + 1) maxDepth
      rw [Shape.uncounted, arrowType, arrowType]
      split_ifs
      · dsimp only
        rw [DataType.withoutFreq, DataType.withoutFreq, types, tags]
        exact ⟨rfl, rfl⟩
      · exact ⟨rfl, rfl⟩
  | _ => exact ⟨rfl, rfl⟩
theorem buildFields_uncounted (fields : List (String × FieldShapeOf Shape)) (path : String)
    (total total' depth maxDepth : Nat) :
    fieldsWithoutFreq (buildFields (uncountedFields fields) path total depth maxDepth) =
      fieldsWithoutFreq (buildFields fields path total' depth maxDepth) := by
  cases fields with
  | nil => rfl
  | cons entry rest =>
      obtain ⟨key, shape, present, nulls, mixed⟩ := entry
      obtain ⟨types, tags⟩ := arrowType_uncounted shape (path ++ "." ++ key) depth maxDepth
      have later := buildFields_uncounted rest path total total' depth maxDepth
      rw [uncountedFields, buildFields, buildFields, fieldAround, fieldAround, fieldsWithoutFreq, fieldsWithoutFreq,
        dropFreq_fieldMetadata, dropFreq_fieldMetadata, later, types, tags]
end

theorem finish_withoutFreq {first second : Sampler} (same : uncountedFields first.root = uncountedFields second.root)
    (maxDepth : Nat) :
    schemaWithoutFreq (first.finish maxDepth) = schemaWithoutFreq (second.finish maxDepth) := by
  have names : first.root.map Prod.fst = second.root.map Prod.fst := by
    have keys : ∀ root : List (String × FieldShape), (uncountedFields root).map Prod.fst = root.map Prod.fst := by
      intro root
      rw [uncountedFields_eq, List.map_map]
      rfl
    rw [← keys, same, keys]
  have slots : ∀ name, (first.root.lookup name).map FieldShapeOf.uncounted =
      (second.root.lookup name).map FieldShapeOf.uncounted := by
    intro name
    rw [← lookup_uncounted, same, lookup_uncounted]
  rw [schemaWithoutFreq, schemaWithoutFreq, Sampler.finish, Sampler.finish, names, List.map_filterMap,
    List.map_filterMap]
  apply List.filterMap_congr
  intro name _
  have slot := slots name
  cases found : first.root.lookup name with
  | none =>
      rw [found] at slot
      simp only [Option.map_eq_none_iff.mp slot.symm, Option.map_none]
  | some fs =>
      rw [found, Option.map_some] at slot
      obtain ⟨fs', found', alike⟩ := Option.map_eq_some_iff.mp slot.symm
      rw [found', Option.map_some, Option.map_some, Option.map_some, Option.map_some, buildField, buildField]
      apply congrArg some
      simp only [FieldShapeOf.uncounted, FieldShapeOf.mk.injEq, true_and] at alike
      obtain ⟨shapes, mixed⟩ := alike
      obtain ⟨types, tags⟩ := arrowType_uncounted fs.shape name 0 maxDepth
      obtain ⟨types', tags'⟩ := arrowType_uncounted fs'.shape name 0 maxDepth
      apply fieldAround_withoutFreq _ _ _ _ mixed.symm
      · rw [← types, ← types', shapes]
      · rw [← tags, ← tags', shapes]

end Auger
