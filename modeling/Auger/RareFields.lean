import Auger.Exactness
import Auger.Provider

set_option autoImplicit false

/-! Fields seen in too few documents: what the setting for them promises, and that the
translator never reads it. -/

namespace Auger

open General

/-- `<` on doubles, which nothing satisfies with a NaN. -/
def F64.below (x y : F64) : Bool :=
  !x.isNan && !y.isNan && decide (x.numberTokens < y.numberTokens)

/-- The recorded frequency of a field is below `rare_field_threshold`. -/
def FieldOf.rare (threshold : F64) (field : Field) : Bool :=
  ((field.metadata.lookup metaFreq).bind F64.parse).any (·.below threshold)

/-- The expressions standing directly in an expression. -/
def Expr.parts : Expr → List Expr
  | .alias expr _ | .cast expr _ => [expr]
  | .binaryExpr left _ right => [left, right]
  | .not inner | .isNull inner | .isNotNull inner | .isTrue inner | .isFalse inner
  | .isNotTrue inner | .isNotFalse inner => [inner]
  | .between expr _ low high => [expr, low, high]
  | .inList expr list _ => expr :: list
  | .like _ expr pattern _ _ | .similarTo _ expr pattern _ => [expr, pattern]
  | .scalarFunction _ args => args
  | .column _ | .literal _ | .other _ => []

/-- One expression stands somewhere in another. -/
inductive Expr.Contains : Expr → Expr → Prop
  | here (expr : Expr) : Contains expr expr
  | inside {whole part inner : Expr} (member : part ∈ whole.parts) (deeper : Contains part inner) :
      Contains whole inner

/-- A filter mentions a field of the schema, at the root or in structs. -/
def MentionsField (schema : Schema) (filter : Expr) (field : Field) : Prop :=
  ∃ column keys, filter.Contains column ∧ Denotes schema column keys field

/-- No filter that mentions a rare field is answered `Exact`. -/
def RareNeverExact (provider : MongoTableProvider) (threshold : F64) : Prop :=
  ∀ (filters : List Expr) (filter : Expr) (answer : TableProviderFilterPushDown),
    (filter, answer) ∈ filters.zip (provider.supportsFiltersPushdown filters) →
    ∀ field, MentionsField provider.schema filter field → field.rare threshold = true → answer ≠ .exact

theorem FieldAt.denoted {docs : List Document} {maxDepth : Nat} {keys : List String} {field : Field}
    (place : FieldAt (inferredSchema docs maxDepth) keys field) :
    ∃ expr, Denotes (inferredSchema docs maxDepth) expr keys field := by
  induction place with
  | root member => exact ⟨_, .root (findField_mem_finish member)⟩
  | @child keys parent field children inner struct member ih =>
      obtain ⟨base, denotes⟩ := ih
      obtain ⟨fs, slot, name, total, depth, rfl⟩ := inner.slot
      have isStruct := struct
      obtain ⟨fields, document, rfl⟩ := arrowType_struct struct
      obtain ⟨key, child, inside, rfl⟩ := mem_buildFields member
      have ordered := slot.wellOrdered
      rw [document] at ordered
      have found : findField key (buildFields fields (dotted keys) (maxPresent fields) (depth + 1) maxDepth) =
          some (fieldAround key (dotted keys ++ "." ++ key) child (maxPresent fields)
            (arrowType child.shape (dotted keys ++ "." ++ key) (depth + 1) maxDepth)) := by
        rw [findField_buildFields, SortedMap.lookup_of_mem ordered.1 inside, Option.map_some]
      exact ⟨_, .child denotes isStruct found⟩

theorem Denotes.place {schema : Schema} {expr : Expr} {keys : List String} {field : Field}
    (denotes : Denotes schema expr keys field) : FieldAt schema keys field := by
  induction denotes with
  | root found =>
      obtain ⟨member, named⟩ := findField_spec found
      exact named ▸ .root member
  | aliased _ _ ih => exact ih
  | child _ struct found ih =>
      obtain ⟨member, named⟩ := findField_spec found
      exact named ▸ .child ih struct member

theorem isNull_answer {docs : List Document} {maxDepth : Nat} {column : Expr} {keys : List String}
    {field : Field} (denotes : Denotes (inferredSchema docs maxDepth) column keys field)
    (provider : MongoTableProvider) (schema : provider.schema = inferredSchema docs maxDepth) :
    provider.supportsFiltersPushdown [.isNull column] = [.exact] := by
  simp only [MongoTableProvider.supportsFiltersPushdown, MongoTableProvider.supportsFilterPushdown, schema,
    denotes.nullTests.1, List.map_cons, List.map_nil, if_true]

/-- For a collection's sample and any threshold, no filter that mentions a rare field is
answered `Exact` if and only if no field, at the root or in structs, is rare. -/
theorem rareNeverExact_iff (docs : List Document) (maxDepth docCount : Nat) (config : Config) (threshold : F64) :
    RareNeverExact ⟨inferredSchema docs maxDepth, docCount, config⟩ threshold ↔
      ∀ keys field, FieldAt (inferredSchema docs maxDepth) keys field → field.rare threshold = false := by
  constructor
  · intro never keys field place
    obtain ⟨column, denotes⟩ := place.denoted
    apply Bool.eq_false_iff.mpr
    intro rare
    have answered := isNull_answer denotes ⟨inferredSchema docs maxDepth, docCount, config⟩ rfl
    have contains : (Expr.isNull column).Contains column :=
      .inside (by simp [Expr.parts]) (.here column)
    exact never [.isNull column] (.isNull column) .exact (by rw [answered]; simp) field
      ⟨column, keys, contains, denotes⟩ rare rfl
  · intro none filters filter answer _ field mentioned rare
    obtain ⟨column, keys, -, denotes⟩ := mentioned
    rw [none keys field denotes.place] at rare
    cases rare

/-- One document in three has a note. -/
def notes : List Document :=
  [⟨[("note", .string "late")], rfl⟩, ⟨[("sent", .boolean true)], rfl⟩, ⟨[("sent", .boolean false)], rfl⟩]

def half : F64 := F64.ofRatio false 1 2

theorem rare_trusted : ¬∀ (docs : List Document) (maxDepth docCount : Nat) (config : Config) (threshold : F64),
    RareNeverExact ⟨inferredSchema docs maxDepth, docCount, config⟩ threshold := by
  intro claimed
  obtain ⟨field, denotes, rare⟩ : ∃ field, Denotes (inferredSchema notes 4) (.column "note") ["note"] field ∧
      field.rare half = true := ⟨_, .root rfl, by decide +kernel⟩
  have answered := isNull_answer denotes ⟨inferredSchema notes 4, 3, ⟨PushdownConfig.default, 1000⟩⟩ rfl
  have contains : (Expr.isNull (.column "note")).Contains (.column "note") :=
    .inside (by simp [Expr.parts]) (.here _)
  exact claimed notes 4 3 ⟨PushdownConfig.default, 1000⟩ half [.isNull (.column "note")] (.isNull (.column "note"))
    .exact (by rw [answered]; simp) field ⟨.column "note", ["note"], contains, denotes⟩ rare rfl

end Auger
