import Auger.Exactness
import Auger.FilterTests
import Auger.Rounding

set_option autoImplicit false

/-! Stored integers in columns widened to doubles: the server compares the integer, SQL
the double it is decoded to. -/

namespace Auger

open General

/-- An integral literal; the double it is compared as is the integer rounded. -/
inductive WholeLiteral
  | int8 (v : Int8)
  | int16 (v : Int16)
  | int32 (v : Int32)
  | int64 (v : Int64)
  | uint8 (v : UInt8)
  | uint16 (v : UInt16)
  | uint32 (v : UInt32)
  | uint64 (v : UInt64)
  | float32 (v : F32) (x : Int) (whole : v.toF64 = F64.ofInt x)
  | float64 (x : Int)

namespace WholeLiteral

def toScalar : WholeLiteral → ScalarValue
  | .int8 v => .int8 (some v)
  | .int16 v => .int16 (some v)
  | .int32 v => .int32 (some v)
  | .int64 v => .int64 (some v)
  | .uint8 v => .uint8 (some v)
  | .uint16 v => .uint16 (some v)
  | .uint32 v => .uint32 (some v)
  | .uint64 v => .uint64 (some v)
  | .float32 v _ _ => .float32 (some v)
  | .float64 x => .float64 (some (F64.ofInt x))

def toExpr (literal : WholeLiteral) : Expr := .literal literal.toScalar

def value : WholeLiteral → Int
  | .int8 v => v.toInt
  | .int16 v => v.toInt
  | .int32 v => v.toInt
  | .int64 v => v.toInt
  | .uint8 v => v.toNat
  | .uint16 v => v.toNat
  | .uint32 v => v.toNat
  | .uint64 v => v.toNat
  | .float32 _ x _ => x
  | .float64 x => x

def coerced (literal : WholeLiteral) : Expr := .literal (.float64 (some (F64.ofInt literal.value)))

/-- A stored integer is rounded to the literal without being it. -/
def Merged (v : Int) (literal : WholeLiteral) : Prop :=
  F64.ofInt v = F64.ofInt literal.value ∧ v ≠ literal.value

instance (v : Int) (literal : WholeLiteral) : Decidable (literal.Merged v) :=
  inferInstanceAs (Decidable (_ ∧ _))

theorem pushed_integer {v : Int64} {x : Int} {operand : Bson} (same : v.toInt = x)
    (emitted : some (intLiteral v .double) = some operand) : operand = .double (F64.ofInt x) := by
  rw [← Option.some.inj emitted, intLiteral, same]

theorem toInt_ofNat_small {n : Nat} (small : n < 2 ^ 32) : (Int64.ofNat n).toInt = n :=
  Int64.toInt_ofNat_of_lt (by omega)

theorem pushed {literal : WholeLiteral} {operand : Bson}
    (emitted : scalarToBson literal.toScalar .double = some operand) :
    operand = .double (F64.ofInt literal.value) := by
  cases literal with
  | int8 v => exact pushed_integer (Int8.toInt_toInt64 v) emitted
  | int16 v => exact pushed_integer (Int16.toInt_toInt64 v) emitted
  | int32 v => exact pushed_integer (Int32.toInt_toInt64 v) emitted
  | int64 v => exact pushed_integer rfl emitted
  | uint8 v => exact pushed_integer (toInt_ofNat_small (v.toNat_lt.trans (by decide))) emitted
  | uint16 v => exact pushed_integer (toInt_ofNat_small (v.toNat_lt.trans (by decide))) emitted
  | uint32 v => exact pushed_integer (toInt_ofNat_small v.toNat_lt) emitted
  | uint64 v =>
      simp only [toScalar, scalarToBson, Option.map_eq_some_iff] at emitted
      obtain ⟨w, fits, pushed⟩ := emitted
      unfold u64ToI64 at fits
      split_ifs at fits with small
      subst pushed
      rw [← Option.some.inj fits, intLiteral, value, Int64.toInt_ofNat_of_lt small]
  | float32 v x whole =>
      simp only [toScalar, scalarToBson, whole, Option.some.injEq] at emitted
      exact emitted.symm
  | float64 x => exact (Option.some.inj emitted).symm

end WholeLiteral

abbrev WholePredicate := LiteralTest WholeLiteral

namespace WholePredicate

/-- Rounding a stored integer keeps the answer of the predicate. -/
def Kept (v : Int) : WholePredicate → Prop
  | .compare op _ literal =>
      literal.Merged v → if v < literal.value then op = .ltEq ∨ op = .gt else op = .gtEq ∨ op = .lt
  | .compareFlipped op _ literal =>
      literal.Merged v → if v < literal.value then op = .gtEq ∨ op = .lt else op = .ltEq ∨ op = .gt
  | .between _ low high =>
      (low.Merged v ∧ v < low.value) ∨ (high.Merged v ∧ high.value < v) → high.value < low.value
  | .inList _ literal others =>
      (∃ item ∈ literal :: others, item.Merged v) → ∃ item ∈ literal :: others, item.value = v

def key (literal : WholeLiteral) : Int := (F64.ofInt literal.value).totalKey

theorem order_key (v : Int) (literal : WholeLiteral) :
    order (F64.ofInt v).totalKey (key literal) = if literal.Merged v then .eq else order v literal.value := by
  rw [order, key, F64.cmp_totalKey_ofInt]
  by_cases merged : literal.Merged v
  · rw [if_pos merged, if_pos merged.1]
  · rw [if_neg merged]
    by_cases rounded : F64.ofInt v = F64.ofInt literal.value
    · have same : v = literal.value := by
        by_contra differ
        exact merged ⟨rounded, differ⟩
      rw [if_pos rounded, order, cmp_eq_eq_iff _ _ |>.mpr same]
    · rw [if_neg rounded, order]

theorem comparison_kept {op : Operator} (comparison : op.isComparison = true) (literal : WholeLiteral) (v : Int) :
    ((comparisonTest op literal.value).holds (some v) = true ↔
        (comparisonTest op (key literal)).holds (some (F64.ofInt v).totalKey) = true) ↔
      (literal.Merged v → if v < literal.value then op = .ltEq ∨ op = .gt else op = .gtEq ∨ op = .lt) := by
  rw [comparisonTest_holds comparison, comparisonTest_holds comparison, Option.map_some, Option.map_some,
    order_key]
  by_cases merged : literal.Merged v
  · rw [if_pos merged]
    rcases lt_or_gt_of_ne merged.2 with below | above
    · rw [order, (cmp_eq_lt_iff _ _).mpr below, if_pos below]
      cases op <;> first
        | (cases comparison; done)
        | simp [Operator.holds, merged]
    · rw [order, (cmp_eq_gt_iff _ _).mpr above, if_neg above.not_gt]
      cases op <;> first
        | (cases comparison; done)
        | simp [Operator.holds, merged]
  · simp [merged]

theorem merged_iff (v : Int) (literal : WholeLiteral) :
    literal.Merged v ↔ (F64.ofInt v).totalKey = key literal ∧ v ≠ literal.value :=
  and_congr_left fun _ => ⟨fun same => congrArg F64.totalKey same, F64.totalKey_inj⟩

theorem key_lt_key {first second : WholeLiteral} (left : F64.Representable first.value)
    (right : F64.Representable second.value) (below : first.value < second.value) : key first < key second := by
  apply lt_of_le_of_ne (F64.totalKey_ofInt_mono below.le)
  intro same
  have value := left.exact.2
  rw [F64.totalKey_inj same, right.exact.2] at value
  exact below.ne' (by exact_mod_cast value)

/-- The keys of a range and of a value between whose ends the order is kept. -/
structure Keyed (v low high shown lower upper : Int) : Prop where
  beneathLow : v ≤ low → shown ≤ lower
  aboveLow : low ≤ v → lower ≤ shown
  beneathHigh : v ≤ high → shown ≤ upper
  aboveHigh : high ≤ v → upper ≤ shown
  ascending : low < high → lower < upper
  descending : high < low → upper < lower

theorem Keyed.within_iff {v low high shown lower upper : Int} (keyed : Keyed v low high shown lower upper) :
    ((low ≤ v ∧ v ≤ high) ↔ (lower ≤ shown ∧ shown ≤ upper)) ↔
      (((shown = lower ∧ v ≠ low) ∧ v < low) ∨ ((shown = upper ∧ v ≠ high) ∧ high < v) → high < low) := by
  obtain ⟨beneathLow, aboveLow, beneathHigh, aboveHigh, ascending, descending⟩ := keyed
  omega

theorem keyed {low high : WholeLiteral} (left : F64.Representable low.value)
    (right : F64.Representable high.value) (v : Int) :
    Keyed v low.value high.value (F64.ofInt v).totalKey (key low) (key high) where
  beneathLow := F64.totalKey_ofInt_mono
  aboveLow := F64.totalKey_ofInt_mono
  beneathHigh := F64.totalKey_ofInt_mono
  aboveHigh := F64.totalKey_ofInt_mono
  ascending := key_lt_key left right
  descending := key_lt_key right left

theorem same_answers (negated : Bool) {first second : Prop} :
    (((negated = false ↔ first) ↔ (negated = false ↔ second)) ↔ (first ↔ second)) := by
  cases negated <;> simp [not_iff_not]

theorem between_kept (negated : Bool) {low high : WholeLiteral} (left : F64.Representable low.value)
    (right : F64.Representable high.value) (v : Int) :
    (((LiteralTest.between negated low high).test WholeLiteral.value).holds (some v) = true ↔
        ((LiteralTest.between negated low high).test key).holds (some (F64.ofInt v).totalKey) = true) ↔
      ((low.Merged v ∧ v < low.value) ∨ (high.Merged v ∧ high.value < v) → high.value < low.value) := by
  rw [LiteralTest.between_holds, LiteralTest.between_holds, merged_iff, merged_iff]
  apply Iff.trans _ (keyed left right v).within_iff
  exact same_answers negated

theorem key_eq_iff (v : Int) (literal : WholeLiteral) :
    key literal = (F64.ofInt v).totalKey ↔ literal.Merged v ∨ literal.value = v := by
  rw [merged_iff]
  constructor
  · intro keys
    by_cases same : literal.value = v
    · exact .inr same
    · exact .inl ⟨keys.symm, Ne.symm same⟩
  · rintro (⟨keys, -⟩ | same)
    · exact keys.symm
    · rw [key, same]

/-- A list of doubles finds a rounded integer that is none of its integers. -/
theorem inList_kept (negated : Bool) (literal : WholeLiteral) (others : List WholeLiteral) (v : Int) :
    (((LiteralTest.inList negated literal others).test WholeLiteral.value).holds (some v) = true ↔
        ((LiteralTest.inList negated literal others).test key).holds (some (F64.ofInt v).totalKey) = true) ↔
      ((∃ item ∈ literal :: others, item.Merged v) → ∃ item ∈ literal :: others, item.value = v) := by
  have rounded : (∃ item ∈ literal :: others, key item = (F64.ofInt v).totalKey) ↔
      (∃ item ∈ literal :: others, item.Merged v) ∨ ∃ item ∈ literal :: others, item.value = v := by
    rw [← exists_or]
    apply exists_congr
    intro item
    rw [key_eq_iff, and_or_left]
  rw [LiteralTest.inList_holds, LiteralTest.inList_holds, rounded]
  exact (same_answers negated).trans (Iff.comm.trans or_iff_right_iff_imp)

theorem kept_iff {predicate : WholePredicate}
    (representable : ∀ literal ∈ predicate.literals, F64.Representable literal.value) (v : Int) :
    ((predicate.test WholeLiteral.value).holds (some v) = true ↔
        (predicate.test key).holds (some (F64.ofInt v).totalKey) = true) ↔
      predicate.Kept v := by
  cases predicate with
  | compare op comparison literal => exact comparison_kept comparison literal v
  | compareFlipped op comparison literal =>
      have below : (flip op = .ltEq ∨ flip op = .gt) ↔ (op = .gtEq ∨ op = .lt) := by cases op <;> simp [flip]
      have above : (flip op = .gtEq ∨ flip op = .lt) ↔ (op = .ltEq ∨ op = .gt) := by cases op <;> simp [flip]
      rw [Kept, ← below, ← above]
      exact comparison_kept (flip_comparison comparison) literal v
  | between negated low high =>
      exact between_kept negated (representable low (by simp [LiteralTest.literals]))
        (representable high (by simp [LiteralTest.literals])) v
  | inList negated literal others => exact inList_kept negated literal others v

end WholePredicate

/-- The integer a stored 32-bit or 64-bit value is. -/
def Bson.storedInteger : Bson → Option Int
  | .int32 v => some v.toInt
  | .int64 v => some v.toInt
  | _ => none

/-- An integer as the server orders numbers. -/
def numberPlace (x : Int) : List ℚ := [2, (x : ℚ)]

theorem numberPlace_strictMono : StrictMono numberPlace := by
  intro a b below
  simpa [numberPlace, List.cons_lt_cons_iff] using below

theorem storedInteger_standing {stored : Bson} {v : Int} (integer : stored.storedInteger = some v) :
    stored.standingIn (some (Bson.int64 0).matchClass) = .place (numberPlace v) := by
  cases stored <;> simp only [Bson.storedInteger, reduceCtorEq, Option.some.injEq] at integer <;>
    simp [Bson.standingIn, Bson.isNull, Bson.matchClass, Bson.isNaN, Bson.typeClass, Bson.payload, numberPlace, integer]

theorem double_place {x : Int} (representable : F64.Representable x) :
    OfClass (Bson.int64 0).matchClass (.double (F64.ofInt x)) ∧ (Bson.double (F64.ofInt x)).payload = numberPlace x := by
  obtain ⟨finite, value⟩ := representable.exact
  have ordinary : (F64.ofInt x).exponentField ≠ 2047 := by simpa [F64.isFinite] using finite
  have number : (F64.ofInt x).isNan = false := by simp [F64.isNan, ordinary]
  have sameClass : (Bson.double (F64.ofInt x)).matchClass = (Bson.int64 0).matchClass :=
    matchClass_eq_iff.mpr ⟨rfl, number⟩
  refine ⟨⟨rfl, sameClass⟩, ?_⟩
  rw [Bson.payload, F64.numberTokens, if_neg (by rw [number]; exact Bool.false_ne_true),
    if_neg (by simp [F64.isInfinite, ordinary]), value, numberPlace]

section
variable {docs : List Document} {maxDepth : Nat} {column : Expr} {keys : List String} {field : Field}
  (denotes : Denotes (inferredSchema docs maxDepth) column keys field) (typed : field.dataType = .float64)

include denotes typed

theorem Denotes.double_tag : BsonTag.of field = .double := by
  obtain ⟨fs, slot, name, total, depth, rfl⟩ := denotes.slot
  rw [tag_fieldAround]
  change (arrowType fs.shape (dotted keys) depth maxDepth).1 = .float64 at typed
  cases shape : fs.shape with
  | double => rfl
  | document fields =>
      rw [shape, arrowType] at typed
      split_ifs at typed
  | array inner =>
      rw [shape, arrowType] at typed
      split_ifs at typed
  | _ =>
      rw [shape] at typed
      simp [arrowType] at typed

variable (regex : RegexEngine) {predicate : WholePredicate} {t : Translated} {doc : Fields} {stored : Bson} {v : Int}
  (representable : ∀ literal ∈ predicate.literals, F64.Representable literal.value)
  (translated : translate (inferredSchema docs maxDepth) (predicate.toExpr WholeLiteral.toExpr column) = some t)
  (integer : stored.storedInteger = some v) (path : startsWithDollar (dotted keys) = false)
  (reached : reachPath doc (dotted keys) = [stored])

include representable translated integer path reached

theorem wholePredicate_accepts :
    accepts regex t.filter doc = (predicate.test WholeLiteral.value).holds (some v) := by
  obtain ⟨c, resolved, resolves⟩ := denotes.resolve
  have tagged : c.tag = .double := resolves.tag.trans (denotes.double_tag typed)
  have pushed : ∀ literal ∈ predicate.literals, ∀ operand, literalOf literal.toExpr c = some operand →
      OfClass (Bson.int64 0).matchClass operand ∧ operand.payload = numberPlace literal.value := by
    intro literal member operand emitted
    rw [WholeLiteral.toExpr, literalOf, tagged] at emitted
    rw [WholeLiteral.pushed emitted]
    exact double_place (representable literal member)
  have standing : standingAtPath (some (Bson.int64 0).matchClass) c.path doc = [.place (numberPlace v)] := by
    rw [standingAtPath, resolves.path, path, if_neg Bool.false_ne_true, reached, List.map_singleton,
      storedInteger_standing integer]
  have faithful : Faithful [.place (numberPlace v)] (some (numberPlace v)) := by simp [Faithful]
  calc accepts regex t.filter doc
      = (predicate.test fun literal => numberPlace literal.value).found
          (standingAtPath (some (Bson.int64 0).matchClass) c.path doc) :=
        literalTest_accepts regex resolved (fun _ => rfl) pushed translated doc
    _ = (predicate.test fun literal => numberPlace literal.value).holds (some (numberPlace v)) := by
        rw [standing, OrderTest.found_of_faithful faithful]
    _ = ((predicate.test WholeLiteral.value).map numberPlace).holds ((some v).map numberPlace) := by
        rw [LiteralTest.test_map]
        rfl
    _ = (predicate.test WholeLiteral.value).holds (some v) :=
        OrderTest.holds_map numberPlace_strictMono _ _

end

theorem wholePredicate_truth (text : BsonText) {external : Expr → Row → Cell} {row : Row} {column : Expr}
    {field : Field} (typed : field.dataType = .float64) {stored : Bson} {v : Int}
    (integer : stored.storedInteger = some v)
    (shown : column.eval external row = decodeField text field (some stored)) (predicate : WholePredicate) :
    (predicate.toExpr WholeLiteral.coerced column).truth external row = some true ↔
      (predicate.test WholePredicate.key).holds (some (F64.ofInt v).totalKey) = true := by
  apply literalTest_truth
  intro literal
  have decoded : decodeField text field (some stored) = .float (F64.ofInt v) := by
    rw [decodeField, typed, decodeTyped]
    cases stored <;> simp only [Bson.storedInteger, reduceCtorEq, Option.some.injEq] at integer <;>
      simp [asF64, Cell.ofOption, integer]
  rw [shown, decoded]
  rfl

/-- On a column of doubles, the filter pushed for a predicate over representable
integral literals accepts a document with one stored integer at the path as SQL
answers for the decoded double if and only if rounding the integer keeps the answer. -/
theorem widened_kept_iff (regex : RegexEngine) (text : BsonText) (external : Expr → Row → Cell)
    (docs : List Document) (maxDepth : Nat) (column : Expr) (keys : List String) (field : Field)
    (denotes : Denotes (inferredSchema docs maxDepth) column keys field) (typed : field.dataType = .float64)
    (predicate : WholePredicate) (representable : ∀ literal ∈ predicate.literals, F64.Representable literal.value)
    (t : Translated)
    (translated : translate (inferredSchema docs maxDepth) (predicate.toExpr WholeLiteral.toExpr column) = some t)
    (doc : Fields) (stored : Bson) (v : Int) (integer : stored.storedInteger = some v)
    (path : startsWithDollar (dotted keys) = false) (reached : reachPath doc (dotted keys) = [stored]) (row : Row)
    (shown : column.eval external row = decodeField text field (some stored)) :
    (accepts regex t.filter doc = true ↔
        (predicate.toExpr WholeLiteral.coerced column).truth external row = some true) ↔
      predicate.Kept v := by
  rw [wholePredicate_accepts denotes typed regex representable translated integer path reached,
    wholePredicate_truth text typed integer shown]
  exact WholePredicate.kept_iff representable v

def counts : List Document :=
  [⟨[("count", .int64 9007199254740993)], rfl⟩, ⟨[("count", .double ⟨0x3fe0000000000000⟩)], rfl⟩,
    ⟨[("count", .int32 7)], rfl⟩]

def countsSchema : Schema := inferredSchema counts 4

theorem count_column : ∃ field, Denotes countsSchema (.column "count") ["count"] field ∧
    field.dataType = .float64 ∧ fieldIsMixed field = false :=
  ⟨_, .root rfl, rfl, by decide⟩

/-- The double just below the stored integer. -/
def evenCount : WholeLiteral := .float64 9007199254740992

theorem evenCount_representable : F64.Representable evenCount.value :=
  ⟨⟨0x4340000000000000⟩, by decide, F64.toRat_eq_iff.mpr (by decide +kernel)⟩

def evenPredicate (op : Operator) (comparison : op.isComparison = true) : WholePredicate :=
  .compare op comparison evenCount

theorem evenPredicate_representable (op : Operator) (comparison : op.isComparison = true) :
    ∀ literal ∈ (evenPredicate op comparison).literals, F64.Representable literal.value := by
  intro literal member
  rw [evenPredicate, LiteralTest.literals, List.mem_singleton] at member
  rw [member]
  exact evenCount_representable

theorem count_reached : reachPath counts[0].fields (dotted ["count"]) = [.int64 9007199254740993] := by
  have parts : pathParts (dotted ["count"]) = ["count"] := by decide +kernel
  rw [reachPath, parts]
  rfl

theorem count_shown {field : Field} (denotes : Denotes countsSchema (.column "count") ["count"] field) :
    (Expr.column "count").eval noExternal (decodeRow plainText countsSchema counts[0]) =
      decodeField plainText field (some (.int64 9007199254740993)) := by
  rw [countsSchema, inferredSchema, denotes.eval plainText noExternal]
  rfl

theorem widened_merges : ¬∀ (regex : RegexEngine) (text : BsonText) (external : Expr → Row → Cell)
    (docs : List Document) (maxDepth : Nat) (column : Expr) (keys : List String) (field : Field),
    Denotes (inferredSchema docs maxDepth) column keys field → field.dataType = .float64 →
    fieldIsMixed field = false → ∀ (predicate : WholePredicate),
    (∀ literal ∈ predicate.literals, F64.Representable literal.value) → ∀ (t : Translated),
    translate (inferredSchema docs maxDepth) (predicate.toExpr WholeLiteral.toExpr column) = some t →
    t.exact = true → ∀ (doc : Document), doc ∈ docs → ∀ (stored : Bson) (v : Int), stored.storedInteger = some v →
    startsWithDollar (dotted keys) = false → reachPath doc.fields (dotted keys) = [stored] →
    (column.eval external (decodeRow text (inferredSchema docs maxDepth) doc) =
      decodeField text field (some stored)) →
    (accepts regex t.filter doc.fields = true ↔
      (predicate.toExpr WholeLiteral.coerced column).truth external
        (decodeRow text (inferredSchema docs maxDepth) doc) = some true) := by
  intro claimed
  obtain ⟨field, denotes, typed, unmixed⟩ := count_column
  have pushed : (translate countsSchema ((evenPredicate .eq rfl).toExpr WholeLiteral.toExpr (.column "count"))).map
      Translated.exact = some true := by decide +kernel
  obtain ⟨t, translated, exact⟩ := Option.map_eq_some_iff.mp pushed
  have representable := evenPredicate_representable .eq rfl
  have same := claimed noRegex plainText noExternal counts 4 (.column "count") ["count"] field denotes typed
    unmixed (evenPredicate .eq rfl) representable t translated exact counts[0] (List.getElem_mem _) _ _ rfl
    (by decide) count_reached (count_shown denotes)
  rw [wholePredicate_accepts denotes typed noRegex representable translated rfl (by decide) count_reached] at same
  have answer := wholePredicate_truth plainText typed rfl (count_shown denotes) (evenPredicate .eq rfl)
  have rounded : ((evenPredicate .eq rfl).test WholePredicate.key).holds
      (some (F64.ofInt (9007199254740993 : Int64).toInt).totalKey) = true := by decide +kernel
  have missed : ((evenPredicate .eq rfl).test WholeLiteral.value).holds
      (some (9007199254740993 : Int64).toInt) = false := by decide +kernel
  rw [same.mpr (answer.mpr rounded)] at missed
  cases missed

theorem widened_kept_iff_counts :
    ∃ t, translate countsSchema
        ((evenPredicate .gtEq rfl).toExpr WholeLiteral.toExpr (.column "count")) = some t ∧
      (accepts noRegex t.filter counts[0].fields = true ↔
        ((evenPredicate .gtEq rfl).toExpr WholeLiteral.coerced (.column "count")).truth noExternal
          (decodeRow plainText countsSchema counts[0]) = some true) := by
  obtain ⟨field, denotes, typed, -⟩ := count_column
  have pushed : (translate countsSchema ((evenPredicate .gtEq rfl).toExpr WholeLiteral.toExpr (.column "count"))).map
      Translated.exact = some true := by decide +kernel
  obtain ⟨t, translated, -⟩ := Option.map_eq_some_iff.mp pushed
  have kept : (evenPredicate .gtEq rfl).Kept (9007199254740993 : Int64).toInt := by
    intro _
    rw [if_neg (by decide)]
    exact .inl rfl
  exact ⟨t, translated, (widened_kept_iff noRegex plainText noExternal counts 4 (.column "count") ["count"] field
    denotes typed (evenPredicate .gtEq rfl) (evenPredicate_representable .gtEq rfl) t translated counts[0].fields _ _
    rfl (by decide) count_reached _ (count_shown denotes)).mpr kept⟩

end Auger
