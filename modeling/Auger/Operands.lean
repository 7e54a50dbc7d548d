import Auger.MatchFacts
import Auger.Expr

set_option autoImplicit false

/-! The comparable values: what is stored, what it decodes to and what a pushed
literal becomes, with the server's order and SQL's in step. -/

namespace Auger

open General

/-- A key MongoDB reads as one step of a path. -/
def plainKey (key : String) : Bool := !key.toList.contains '.' && !startsWithDollar key

theorem plainKey_dot {key : String} (plain : plainKey key = true) : '.' ∉ key.toList := by
  simp only [plainKey, Bool.and_eq_true, Bool.not_eq_true'] at plain
  simpa using plain.1

theorem plainKey_dollar {key : String} (plain : plainKey key = true) :
    startsWithDollar key = false := by
  simp only [plainKey, Bool.and_eq_true, Bool.not_eq_true'] at plain
  exact plain.2

/-- The Arrow type of a comparable tag. -/
def BsonTag.plainType : BsonTag → Option DataType
  | .bool => some .boolean
  | .int32 => some .int32
  | .int64 => some .int64
  | .string => some .utf8
  | _ => none

/-- A stored value of a tag beside the cell it decodes to. -/
inductive Stored : BsonTag → Bson → Cell → Prop
  | null {tag : BsonTag} {v : Bson} (absent : v.isNull = true) : Stored tag v .null
  | bool (b : Bool) : Stored .bool (.boolean b) (.boolean b)
  | int32 (v : Int32) : Stored .int32 (.int32 v) (.int v.toInt)
  | int64 (v : Int64) : Stored .int64 (.int64 v) (.int v.toInt)
  | widened (v : Int32) : Stored .int64 (.int32 v) (.int v.toInt)
  | string (s : String) : Stored .string (.string s) (.text s)
  | symbol (s : String) : Stored .string (.symbol s) (.text s)

theorem Stored.isNull {tag : BsonTag} {v : Bson} {cell : Cell} (stored : Stored tag v cell) :
    v.isNull = cell.isNull := by
  cases stored with
  | null absent => rw [absent]; rfl
  | _ => rfl

theorem Stored.isArray {tag : BsonTag} {v : Bson} {cell : Cell} (stored : Stored tag v cell) :
    v.isArray = false := by
  cases stored with
  | null absent => exact Bson.isArray_of_isNull absent
  | _ => rfl

/-- A pushed literal of a tag beside its SQL value. -/
inductive Operand : BsonTag → Bson → Cell → Prop
  | bool (b : Bool) : Operand .bool (.boolean b) (.boolean b)
  | int32 (v : Int32) : Operand .int32 (.int32 v) (.int v.toInt)
  | int64 (v : Int64) : Operand .int64 (.int64 v) (.int v.toInt)
  | string (s : String) : Operand .string (.string s) (.text s)

theorem toI32_toInt64 (v : Int32) : toI32 v.toInt64 = some v := by
  have low := v.le_toInt
  have high := v.toInt_lt
  simp only [toI32, Int32.toInt_toInt64]
  rw [if_pos ⟨by simpa using low, by simpa using high⟩]
  simp

theorem operand_of_literal {tag : BsonTag} {dataType : DataType} {scalar : ScalarValue} {operand : Bson}
    (plain : tag.plainType = some dataType) (own : scalar.dataType = some dataType)
    (emitted : scalarToBson scalar tag = some operand) : Operand tag operand scalar.toCell := by
  cases tag <;> simp only [BsonTag.plainType, reduceCtorEq, Option.some.injEq] at plain <;> subst plain
  case bool =>
    cases scalar <;> simp only [ScalarValue.dataType, reduceCtorEq, Option.some.injEq] at own
    rename_i value
    cases value with
    | none => simp [scalarToBson] at emitted
    | some b =>
        simp only [scalarToBson, Option.some.injEq] at emitted
        subst emitted
        exact .bool b
  case int32 =>
    cases scalar <;> simp only [ScalarValue.dataType, reduceCtorEq, Option.some.injEq] at own
    rename_i value
    cases value with
    | none => simp [scalarToBson] at emitted
    | some v =>
        simp only [scalarToBson, intLiteral, toI32_toInt64, Option.some.injEq] at emitted
        subst emitted
        exact .int32 v
  case int64 =>
    cases scalar <;> simp only [ScalarValue.dataType, reduceCtorEq, Option.some.injEq] at own
    rename_i value
    cases value with
    | none => simp [scalarToBson] at emitted
    | some v =>
        simp only [scalarToBson, intLiteral, Option.some.injEq] at emitted
        subst emitted
        exact .int64 v
  case string =>
    cases scalar <;> simp only [ScalarValue.dataType, reduceCtorEq, Option.some.injEq] at own
    rename_i value
    cases value with
    | none => simp [scalarToBson] at emitted
    | some s =>
        simp only [scalarToBson, reduceCtorEq, if_false, Option.some.injEq] at emitted
        subst emitted
        exact .string s

/-- The server's three tests of a value against an operand are the three
outcomes of SQL's comparison. -/
structure Mirrors (operand : Bson) (literal : Cell) (candidate : Bson) (cell : Cell) : Prop where
  absent : candidate.isNull = (sqlCompare cell literal).isNone
  equal : equalTo operand candidate = (sqlCompare cell literal == some .eq)
  below : belowOperand operand candidate = (sqlCompare cell literal == some .lt)
  above : aboveOperand operand candidate = (sqlCompare cell literal == some .gt)

theorem mirrors_of_order {α : Type} [LinearOrder α] {less : DecidableLT α} (key : α → List ℚ)
    (embeds : ∀ x y, key x < key y ↔ x < y) {operand candidate : Bson} {literal cell : Cell} {a b : α}
    (left : candidate.sortKey = key a) (right : operand.sortKey = key b)
    (class_eq : candidate.matchClass = operand.matchClass) (present : candidate.isNull = false)
    (sql : sqlCompare cell literal = some (cmp a b)) : Mirrors operand literal candidate cell := by
  have same : key a = key b ↔ a = b := by
    constructor
    · intro keys
      rcases lt_trichotomy a b with below | equal | above
      · exact absurd keys ((embeds a b).mpr below).ne
      · exact equal
      · exact absurd keys ((embeds b a).mpr above).ne'
    · exact congrArg key
  have equal : equalTo operand candidate = decide (a = b) := by
    simp only [equalTo, left, right, same]
  have below : belowOperand operand candidate = decide (a < b) := by
    simp only [belowOperand, left, right, embeds, class_eq, true_and]
  have above : aboveOperand operand candidate = decide (b < a) := by
    simp only [aboveOperand, left, right, embeds, class_eq, true_and]
  refine ⟨by rw [sql, present]; rfl, ?_, ?_, ?_⟩
  · rw [equal, sql]
    rcases lt_trichotomy a b with order | order | order
    · simp [cmp, cmpUsing, order, order.ne]
    · simp [cmp, cmpUsing, order]
    · simp [cmp, cmpUsing, order, order.not_gt, order.ne']
  · rw [below, sql]
    rcases lt_trichotomy a b with order | order | order
    · simp [cmp, cmpUsing, order]
    · simp [cmp, cmpUsing, order]
    · simp [cmp, cmpUsing, order, order.not_gt]
  · rw [above, sql]
    rcases lt_trichotomy a b with order | order | order
    · simp [cmp, cmpUsing, order, order.not_gt]
    · simp [cmp, cmpUsing, order]
    · simp [cmp, cmpUsing, order, order.not_gt]

theorem number_embeds (x y : Int) : ([10, 2, (x : ℚ)] : List ℚ) < [10, 2, (y : ℚ)] ↔ x < y := by
  simp [List.cons_lt_cons_iff]

theorem text_embeds (x y : List Nat) : ((15 : ℚ) :: byteTokens x) < 15 :: byteTokens y ↔ x < y := by
  simp [byteTokens_lt]

theorem bool_embeds (x y : Bool) :
    ([40, if x then 1 else 0] : List ℚ) < [40, if y then 1 else 0] ↔ x < y := by
  cases x <;> cases y <;> decide

theorem sortKey_string (s : String) : (Bson.string s).sortKey = 15 :: byteTokens (textBytes s) := by
  simp [Bson.sortKey, Bson.typeClass, Bson.payload, textTokens]

theorem sortKey_symbol (s : String) : (Bson.symbol s).sortKey = 15 :: byteTokens (textBytes s) := by
  simp [Bson.sortKey, Bson.typeClass, Bson.payload, textTokens]

theorem mirrors_null {operand : Bson} {literal : Cell} {candidate : Bson} (absent : candidate.isNull = true)
    (known : operand.isNull = false) : Mirrors operand literal candidate .null := by
  have nullClass := (typeClass_null candidate).mpr absent
  have differ : candidate.typeClass ≠ operand.typeClass := by
    rw [nullClass]
    intro same
    rw [(typeClass_null operand).mp same.symm] at known
    exact Bool.noConfusion known
  refine ⟨absent, ?_, ?_, ?_⟩
  · cases equal : equalTo operand candidate with
    | true => exact absurd (equalTo_class equal) differ
    | false => rfl
  · simp [belowOperand, matchClass_eq_iff, differ, sqlCompare]
  · simp [aboveOperand, matchClass_eq_iff, differ, sqlCompare]

theorem Stored.mirrors {tag : BsonTag} {candidate operand : Bson} {cell literal : Cell}
    (stored : Stored tag candidate cell) (pushed : Operand tag operand literal) :
    Mirrors operand literal candidate cell := by
  cases stored with
  | null absent =>
      refine mirrors_null absent ?_
      cases pushed <;> rfl
  | bool b =>
      cases pushed
      exact mirrors_of_order _ bool_embeds (by simp [Bson.sortKey, Bson.typeClass, Bson.payload])
        (by simp [Bson.sortKey, Bson.typeClass, Bson.payload]) rfl rfl rfl
  | int32 v =>
      cases pushed
      exact mirrors_of_order _ number_embeds (by simp [Bson.sortKey, Bson.typeClass, Bson.payload])
        (by simp [Bson.sortKey, Bson.typeClass, Bson.payload]) rfl rfl rfl
  | int64 v =>
      cases pushed
      exact mirrors_of_order _ number_embeds (by simp [Bson.sortKey, Bson.typeClass, Bson.payload])
        (by simp [Bson.sortKey, Bson.typeClass, Bson.payload]) rfl rfl rfl
  | widened v =>
      cases pushed
      exact mirrors_of_order _ number_embeds (by simp [Bson.sortKey, Bson.typeClass, Bson.payload])
        (by simp [Bson.sortKey, Bson.typeClass, Bson.payload]) rfl rfl rfl
  | string s =>
      cases pushed
      exact mirrors_of_order _ text_embeds (sortKey_string s) (sortKey_string _) rfl rfl rfl
  | symbol s =>
      cases pushed
      exact mirrors_of_order _ text_embeds (sortKey_symbol s) (sortKey_string _) rfl rfl rfl

end Auger
