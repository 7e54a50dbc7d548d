import Auger.Operands

set_option autoImplicit false

/-! A single predicate over an unflagged scalar column: its `$match` accepts exactly
the documents SQL keeps. -/

namespace Auger

open General

abbrev inferredSchema (docs : List Document) (maxDepth : Nat) : Schema :=
  (Sampler.observeAll docs).finish maxDepth

/-- An unflagged column of a comparable tag. -/
structure PlainColumn (schema : Schema) (expr : Expr) (keys : List String) (field : Field) : Prop where
  denotes : Denotes schema expr keys field
  unmixed : fieldIsMixed field = false
  tagged : (BsonTag.of field).plainType.isSome = true

/-- A literal of the field's own Arrow type. -/
def OwnLiteral (field : Field) (expr : Expr) : Prop :=
  ∃ scalar, expr = .literal scalar ∧ scalar.dataType = some field.dataType

def Operator.isComparison : Operator → Bool
  | .eq | .notEq | .lt | .ltEq | .gt | .gtEq => true
  | _ => false

/-- The single predicates whose pushdown is exact. -/
inductive ExactLeaf (schema : Schema) : Expr → Prop
  | compare {left right : Expr} {keys : List String} {field : Field} (op : Operator)
      (comparison : op.isComparison = true) (column : PlainColumn schema left keys field)
      (own : OwnLiteral field right) : ExactLeaf schema (.binaryExpr left op right)
  | compareFlipped {left right : Expr} {keys : List String} {field : Field} (op : Operator)
      (comparison : op.isComparison = true) (column : PlainColumn schema right keys field)
      (own : OwnLiteral field left) : ExactLeaf schema (.binaryExpr left op right)
  | between {expr low high : Expr} {keys : List String} {field : Field} (negated : Bool)
      (column : PlainColumn schema expr keys field) (lowOwn : OwnLiteral field low)
      (highOwn : OwnLiteral field high) : ExactLeaf schema (.between expr negated low high)
  | inList {expr : Expr} {list : List Expr} {keys : List String} {field : Field} (negated : Bool)
      (column : PlainColumn schema expr keys field) (nonempty : list ≠ [])
      (own : ∀ item ∈ list, OwnLiteral field item) : ExactLeaf schema (.inList expr list negated)
  | isNull {expr : Expr} {keys : List String} {field : Field}
      (column : PlainColumn schema expr keys field) : ExactLeaf schema (.isNull expr)
  | isNotNull {expr : Expr} {keys : List String} {field : Field}
      (column : PlainColumn schema expr keys field) : ExactLeaf schema (.isNotNull expr)
  | isTrue {expr : Expr} {keys : List String} {field : Field}
      (column : PlainColumn schema expr keys field) : ExactLeaf schema (.isTrue expr)
  | isFalse {expr : Expr} {keys : List String} {field : Field}
      (column : PlainColumn schema expr keys field) : ExactLeaf schema (.isFalse expr)
  | isNotTrue {expr : Expr} {keys : List String} {field : Field}
      (column : PlainColumn schema expr keys field) : ExactLeaf schema (.isNotTrue expr)
  | isNotFalse {expr : Expr} {keys : List String} {field : Field}
      (column : PlainColumn schema expr keys field) : ExactLeaf schema (.isNotFalse expr)
  | bare {expr : Expr} {keys : List String} {field : Field}
      (column : PlainColumn schema expr keys field) : ExactLeaf schema expr

theorem Bson.isNull_iff {v : Bson} : v.isNull = true ↔ v = .null ∨ v = .undefined := by
  cases v <;> simp [Bson.isNull]

theorem decodeTyped_null (text : BsonText) (dataType : DataType) (tag : BsonTag) {v : Bson}
    (null : v.isNull = true) : decodeTyped text dataType tag (some v) = .null := by
  rcases Bson.isNull_iff.mp null with rfl | rfl
  all_goals
    cases dataType with
    | timestamp unit timezone => cases unit <;> simp [decodeTyped, asMillis, Cell.ofOption]
    | _ =>
        simp [decodeTyped, asI64, asF64, asDecimal, isNull, Bson.isNull, isDocument, listItems,
          Cell.ofOption]

theorem plainType_arrowType {shape : Shape} {path : String} {depth maxDepth : Nat}
    (tagged : (arrowType shape path depth maxDepth).2.plainType.isSome = true) :
    (arrowType shape path depth maxDepth).2.plainType = some (arrowType shape path depth maxDepth).1 ∧
      (∀ fields, shape ≠ .document fields) ∧ ∀ inner, shape ≠ .array inner := by
  cases shape with
  | document fields =>
      simp only [arrowType] at tagged
      split_ifs at tagged <;> cases tagged
  | array inner =>
      simp only [arrowType] at tagged
      split_ifs at tagged <;> cases tagged
  | _ => first | (cases tagged; done) | simp [arrowType, BsonTag.plainType]

/-- What a value admitted by the shape of a comparable tag decodes to. -/
theorem stored_of_admits (text : BsonText) {shape : Shape} {path : String} {depth maxDepth : Nat}
    (tagged : (arrowType shape path depth maxDepth).2.plainType.isSome = true) {v : Bson}
    (admitted : shape.admits false v = true) :
    Stored (arrowType shape path depth maxDepth).2 v
      (decodeTyped text (arrowType shape path depth maxDepth).1
        (arrowType shape path depth maxDepth).2 (some v)) := by
  cases shape with
  | bool =>
      cases v <;> try cases admitted
      simp only [arrowType, decodeTyped]
      exact .bool _
  | int32 =>
      cases v <;> try cases admitted
      simp only [arrowType, decodeTyped, asI64, Option.bind_some, toI32_toInt64, Cell.ofOption]
      exact .int32 _
  | int64 =>
      cases v <;> try cases admitted
      · simp only [arrowType, decodeTyped, asI64, Cell.ofOption, Int32.toInt_toInt64]
        exact .widened _
      · simp only [arrowType, decodeTyped, asI64, Cell.ofOption]
        exact .int64 _
  | utf8 =>
      cases v <;> try cases admitted
      · simp only [arrowType, decodeTyped, isNull, Bson.isNull, Option.bind_some, renderText]
        exact .string _
      · simp only [arrowType, decodeTyped, isNull, Bson.isNull, Option.bind_some, renderText]
        exact .symbol _
  | document fields => exact absurd rfl ((plainType_arrowType tagged).2.1 fields)
  | array inner => exact absurd rfl ((plainType_arrowType tagged).2.2 inner)
  | _ => cases tagged

theorem explains_scalar {shape : Shape} {mixed : Bool} {values : List Bson}
    (notDocument : ∀ fields, shape ≠ .document fields) (notArray : ∀ inner, shape ≠ .array inner)
    (explained : Explains shape mixed values) :
    ∀ v ∈ values, v.isNull = true ∨ shape.admits mixed v = true :=
  (explains_scalar_iff (Shape.scalar_of_not notDocument notArray)).mp explained

section
variable {docs : List Document} {maxDepth : Nat} (text : BsonText) (external : Expr → Row → Cell)

theorem PlainColumn.plainType {expr : Expr} {keys : List String} {field : Field}
    (column : PlainColumn (inferredSchema docs maxDepth) expr keys field) :
    (BsonTag.of field).plainType = some field.dataType := by
  obtain ⟨fs, slot, name, total, depth, rfl⟩ := column.denotes.slot
  have tagged := column.tagged
  rw [tag_fieldAround] at tagged ⊢
  exact (plainType_arrowType tagged).1

/-- On a sampled document the server reaches one value for a column, and the
column evaluates to what that value decodes to. -/
theorem PlainColumn.stored {expr : Expr} {keys : List String} {field : Field}
    (column : PlainColumn (inferredSchema docs maxDepth) expr keys field)
    (plain : ∀ doc ∈ docs, doc.keysAll plainKey = true) {doc : Document} (member : doc ∈ docs) :
    ∃ candidate, reachPath doc.fields (dotted keys) = [candidate] ∧
      Stored (BsonTag.of field) candidate
        (expr.eval external (decodeRow text (inferredSchema docs maxDepth) doc)) := by
  obtain ⟨fs, slot, behind⟩ := column.denotes.slot
  have dotless : ∀ key ∈ keys, '.' ∉ key.toList := fun key inside =>
    plainKey_dot ((slot.keysAll plain).1 key inside)
  rw [column.denotes.eval text external doc, readAt_plain doc dotless,
    reachPath_slot slot dotless member]
  obtain ⟨name, total, depth, rfl⟩ := behind
  have tagged := column.tagged
  have unmixed := column.unmixed
  rw [tag_fieldAround] at tagged
  rw [mixed_fieldAround] at unmixed
  obtain ⟨-, notDocument, notArray⟩ := plainType_arrowType tagged
  have each := explains_scalar notDocument notArray slot.explains
  rw [unmixed] at each
  simp only [decodeField, tag_fieldAround]
  cases found : valueAt doc keys with
  | none =>
      refine ⟨.null, rfl, ?_⟩
      rw [decodeTyped_none]
      exact .null rfl
  | some v =>
      rcases each v (mem_valuesUnder member found) with null | admitted
      · refine ⟨v, candidates_scalar (Bson.isArray_of_isNull null), ?_⟩
        rw [decodeTyped_null text _ _ null]
        exact .null null
      · have stored := stored_of_admits text tagged admitted
        exact ⟨v, candidates_scalar stored.isArray, stored⟩

theorem PlainColumn.dollar {expr : Expr} {keys : List String} {field : Field}
    (column : PlainColumn (inferredSchema docs maxDepth) expr keys field)
    (plain : ∀ doc ∈ docs, doc.keysAll plainKey = true) : startsWithDollar (dotted keys) = false := by
  obtain ⟨fs, slot, -⟩ := column.denotes.slot
  exact startsWithDollar_dotted fun key inside => plainKey_dollar ((slot.keysAll plain).1 key inside)

end

theorem Denotes.nullTests {docs : List Document} {maxDepth : Nat} {expr : Expr} {keys : List String}
    {field : Field} (denotes : Denotes (inferredSchema docs maxDepth) expr keys field) :
    translate (inferredSchema docs maxDepth) (.isNull expr) = some ⟨[(dotted keys, .null)], true⟩ ∧
      translate (inferredSchema docs maxDepth) (.isNotNull expr) =
        some ⟨[(dotted keys, .document [("$ne", .null)])], true⟩ := by
  obtain ⟨column, resolved, resolves⟩ := denotes.resolve
  constructor <;>
    simp only [translate, resolved, resolves.path, Option.bind_eq_bind, Option.bind_some]

/-- A pushed comparison accepts a value exactly when SQL's comparison is TRUE. -/
theorem Mirrors.comparison {operand candidate : Bson} {literal cell : Cell}
    (mirrors : Mirrors operand literal candidate cell) {op : Operator} {mongoOp : String}
    (named : mongoOperator op = some mongoOp) :
    (comparisonAccepts mongoOp operand [candidate] = true ∧
        (op = .notEq → candidate.isNull = false)) ↔
      sqlTest op cell literal = some true := by
  have absent := mirrors.absent
  have equal := mirrors.equal
  have below := mirrors.below
  have above := mirrors.above
  simp only [sqlTest]
  generalize sqlCompare cell literal = order at *
  cases op <;> simp only [mongoOperator, reduceCtorEq, Option.some.injEq] at named <;> subst named <;>
    rcases order with _ | _ | _ | _ <;>
    simp_all [comparisonAccepts, Operator.holds]

theorem sqlCompare_swap (a b : Cell) : sqlCompare b a = (sqlCompare a b).map Ordering.swap := by
  cases a <;> cases b <;> simp only [sqlCompare, Option.map_none, Option.map_some, cmp_swap]
  rename_i x s y t
  by_cases same : s = t
  · simp [same, cmp_swap]
  · simp [same, Ne.symm same]

theorem holds_flip {op : Operator} (order : Ordering) :
    (flip op).holds order.swap = op.holds order := by
  cases op <;> cases order <;> rfl

theorem sqlTest_flip (op : Operator) (a b : Cell) : sqlTest (flip op) b a = sqlTest op a b := by
  unfold sqlTest
  rw [sqlCompare_swap a b]
  cases sqlCompare a b with
  | none => rfl
  | some order => simp [holds_flip]

theorem flip_comparison {op : Operator} (comparison : op.isComparison = true) :
    (flip op).isComparison = true := by
  cases op <;> first | rfl | cases comparison

theorem sqlTest_gtEq_false (a b : Cell) :
    sqlTest .gtEq a b = some false ↔ sqlTest .lt a b = some true := by
  unfold sqlTest
  rcases sqlCompare a b with _ | _ | _ | _ <;> simp [Operator.holds]

theorem sqlTest_ltEq_false (a b : Cell) :
    sqlTest .ltEq a b = some false ↔ sqlTest .gt a b = some true := by
  unfold sqlTest
  rcases sqlCompare a b with _ | _ | _ | _ <;> simp [Operator.holds]

theorem between_true (cell low high : Cell) (negated : Bool) :
    (if negated then Kleene.neg (Kleene.conj (sqlTest .gtEq cell low) (sqlTest .ltEq cell high))
      else Kleene.conj (sqlTest .gtEq cell low) (sqlTest .ltEq cell high)) = some true ↔
    if negated then sqlTest .lt cell low = some true ∨ sqlTest .gt cell high = some true
      else sqlTest .gtEq cell low = some true ∧ sqlTest .ltEq cell high = some true := by
  cases negated
  · simp
  · simp [sqlTest_gtEq_false, sqlTest_ltEq_false]

section
variable {docs : List Document} {maxDepth : Nat}

theorem PlainColumn.operand {expr item : Expr} {keys : List String} {field : Field} {column : ColumnRef}
    {operand : Bson} (plainColumn : PlainColumn (inferredSchema docs maxDepth) expr keys field)
    (resolves : Resolves keys field column) (own : OwnLiteral field item)
    (emitted : literalOf item column = some operand) (external : Expr → Row → Cell) (row : Row) :
    Operand (BsonTag.of field) operand (item.eval external row) := by
  obtain ⟨scalar, rfl, sameType⟩ := own
  simp only [literalOf, resolves.tag] at emitted
  simpa only [Expr.eval] using operand_of_literal plainColumn.plainType sameType emitted

end

theorem mapM_forall₂ {α β : Type} {f : α → Option β} {list : List α} {values : List β}
    (mapped : list.mapM f = some values) : List.Forall₂ (fun a b => f a = some b) list values := by
  induction list generalizing values with
  | nil =>
      simp only [List.mapM_nil, Option.pure_def, Option.some.injEq] at mapped
      subst mapped
      exact .nil
  | cons a rest ih =>
      simp only [List.mapM_cons, Option.pure_def, Option.bind_eq_bind, Option.bind_eq_some_iff,
        Option.some.injEq] at mapped
      obtain ⟨b, here, later, there, rfl⟩ := mapped
      exact .cons here (ih there)

theorem evalEquals_any {external : Expr → Row → Cell} {row : Row} {cell : Cell} {candidate : Bson}
    {list : List Expr} {values : List Bson}
    (each : List.Forall₂ (fun item operand => Mirrors operand (item.eval external row) candidate cell)
      list values) :
    (Kleene.disjList (evalEquals external row cell list) = some true ↔
        values.any (equalTo · candidate) = true) ∧
      (list ≠ [] → (Kleene.disjList (evalEquals external row cell list) = some false ↔
        values.any (equalTo · candidate) = false ∧ candidate.isNull = false)) := by
  induction each with
  | nil => simp [evalEquals]
  | @cons item operand rest operands mirrors later ih =>
      have equal := mirrors.equal
      have absent := mirrors.absent
      simp only [evalEquals, Kleene.disjList_cons, Kleene.disj_true, Kleene.disj_false, List.any_cons,
        sqlTest, equal, absent, ih.1]
      refine ⟨?_, fun _ => ?_⟩
      · rcases sqlCompare cell (item.eval external row) with _ | _ | _ | _ <;> simp [Operator.holds]
      · by_cases single : rest = []
        · subst single
          cases later
          rcases sqlCompare cell (item.eval external row) with _ | _ | _ | _ <;>
            simp [Operator.holds, evalEquals]
        · rw [ih.2 single, absent]
          rcases sqlCompare cell (item.eval external row) with _ | _ | _ | _ <;> simp [Operator.holds]

section
variable {docs : List Document} {maxDepth : Nat} (text : BsonText) (external : Expr → Row → Cell)
  {regex : RegexEngine} {doc : Document}
  (plain : ∀ doc ∈ docs, doc.keysAll plainKey = true) (member : doc ∈ docs)

include plain member

theorem comparison_exact {left right : Expr} {keys : List String} {field : Field} {op : Operator}
    {t : Translated} (column : PlainColumn (inferredSchema docs maxDepth) left keys field)
    (own : OwnLiteral field right)
    (translated : translateComparison (inferredSchema docs maxDepth) left op right = some t) :
    accepts regex t.filter doc.fields = true ↔
      sqlTest op (left.eval external (decodeRow text (inferredSchema docs maxDepth) doc))
        (right.eval external (decodeRow text (inferredSchema docs maxDepth) doc)) = some true := by
  obtain ⟨resolved, found, resolves⟩ := column.denotes.resolve
  obtain ⟨candidate, reached, stored⟩ := column.stored text external plain member
  have dollar := column.dollar plain
  simp only [translateComparison, found, Option.bind_eq_bind, Option.bind_some,
    Option.bind_eq_some_iff, Option.some.injEq] at translated
  obtain ⟨operand, emitted, mongoOp, named, rfl⟩ := translated
  have pushed := column.operand resolves own emitted external
    (decodeRow text (inferredSchema docs maxDepth) doc)
  rw [← (stored.mirrors pushed).comparison named, resolves.path]
  have comparison : mongoOp ∈ ["$eq", "$ne", "$lt", "$lte", "$gt", "$gte"] := by
    cases op <;> simp only [mongoOperator, reduceCtorEq, Option.some.injEq] at named <;>
      subst named <;> simp
  by_cases negated : op = .notEq
  · simp only [if_pos negated, accepts_excludeNull regex dollar, reached,
      accepts_comparison regex dollar comparison]
    simp [negated]
  · simp only [if_neg negated, reached, accepts_comparison regex dollar comparison]
    simp [negated]

theorem between_exact {expr low high : Expr} {keys : List String} {field : Field} {negated : Bool}
    {t : Translated} (column : PlainColumn (inferredSchema docs maxDepth) expr keys field)
    (lowOwn : OwnLiteral field low) (highOwn : OwnLiteral field high)
    (translated : translate (inferredSchema docs maxDepth) (.between expr negated low high) = some t) :
    accepts regex t.filter doc.fields = true ↔
      (Expr.between expr negated low high).truth external
        (decodeRow text (inferredSchema docs maxDepth) doc) = some true := by
  obtain ⟨resolved, found, resolves⟩ := column.denotes.resolve
  obtain ⟨candidate, reached, stored⟩ := column.stored text external plain member
  have dollar := column.dollar plain
  simp only [translate, found, Option.bind_eq_bind, Option.bind_some,
    Option.bind_eq_some_iff, Option.some.injEq] at translated
  obtain ⟨lo, lowEmitted, hi, highEmitted, rfl⟩ := translated
  have lower := stored.mirrors (column.operand resolves lowOwn lowEmitted external
    (decodeRow text (inferredSchema docs maxDepth) doc))
  have upper := stored.mirrors (column.operand resolves highOwn highEmitted external
    (decodeRow text (inferredSchema docs maxDepth) doc))
  simp only [Expr.truth, Expr.eval, Cell.truth_ofTruth, between_true, resolves.path]
  cases negated with
  | false =>
      have atLeast := lower.comparison (show mongoOperator .gtEq = some "$gte" from rfl)
      have atMost := upper.comparison (show mongoOperator .ltEq = some "$lte" from rfl)
      simp only [reduceCtorEq, false_imp_iff, and_true] at atLeast atMost
      simp [accepts_range regex dollar, reached, atLeast, atMost]
  | true =>
      have lesser := lower.comparison (show mongoOperator .lt = some "$lt" from rfl)
      have greater := upper.comparison (show mongoOperator .gt = some "$gt" from rfl)
      have below : sqlTest .lt (expr.eval external (decodeRow text (inferredSchema docs maxDepth) doc))
          (low.eval external (decodeRow text (inferredSchema docs maxDepth) doc)) = some true →
            candidate.isNull = false := by
        rw [lower.absent, sqlTest]
        cases sqlCompare _ _ <;> simp
      have beyond : sqlTest .gt (expr.eval external (decodeRow text (inferredSchema docs maxDepth) doc))
          (high.eval external (decodeRow text (inferredSchema docs maxDepth) doc)) = some true →
            candidate.isNull = false := by
        rw [upper.absent, sqlTest]
        cases sqlCompare _ _ <;> simp
      simp only [reduceCtorEq, false_imp_iff, and_true] at lesser greater
      simp only [if_true, accepts_excludeNull regex dollar, accepts_or,
        accepts_comparison regex dollar (show "$lt" ∈ _ by simp),
        accepts_comparison regex dollar (show "$gt" ∈ _ by simp), reached, Bool.and_eq_true,
        Bool.or_eq_true, lesser, greater]
      constructor
      · exact fun both => both.1
      · intro outside
        exact ⟨outside, by simp [outside.elim below beyond]⟩

theorem inList_exact {expr : Expr} {list : List Expr} {keys : List String} {field : Field}
    {negated : Bool} {t : Translated}
    (column : PlainColumn (inferredSchema docs maxDepth) expr keys field) (nonempty : list ≠ [])
    (own : ∀ item ∈ list, OwnLiteral field item)
    (translated : translate (inferredSchema docs maxDepth) (.inList expr list negated) = some t) :
    accepts regex t.filter doc.fields = true ↔
      (Expr.inList expr list negated).truth external
        (decodeRow text (inferredSchema docs maxDepth) doc) = some true := by
  obtain ⟨resolved, found, resolves⟩ := column.denotes.resolve
  obtain ⟨candidate, reached, stored⟩ := column.stored text external plain member
  have dollar := column.dollar plain
  simp only [translate, found, Option.bind_eq_bind, Option.bind_some,
    Option.bind_eq_some_iff, Option.some.injEq] at translated
  obtain ⟨values, emitted, rfl⟩ := translated
  have each : List.Forall₂ (fun item operand =>
      Mirrors operand (item.eval external (decodeRow text (inferredSchema docs maxDepth) doc)) candidate
        (expr.eval external (decodeRow text (inferredSchema docs maxDepth) doc))) list values := by
    refine ((List.forall₂_and_left _ _).mpr ⟨own, mapM_forall₂ emitted⟩).imp fun item operand both => ?_
    exact stored.mirrors (column.operand resolves both.1 both.2 external _)
  obtain ⟨inside, outside⟩ := evalEquals_any each
  simp only [Expr.truth, Expr.eval, Cell.truth_ofTruth, resolves.path]
  cases negated with
  | false => simp [accepts_in regex dollar, reached, inside]
  | true => simp [accepts_excludeNull regex dollar, accepts_nin regex dollar, reached, outside nonempty]

omit plain member in
theorem Stored.boolean {candidate : Bson} {cell : Cell} (stored : Stored .bool candidate cell)
    (want : Bool) : equalTo (.boolean want) candidate = true ↔ cell.truth = some want := by
  rw [(stored.mirrors (.bool want)).equal]
  cases stored with
  | null => simp [sqlCompare, Cell.truth]
  | bool b => cases b <;> cases want <;> decide

theorem PlainColumn.boolean {expr : Expr} {keys : List String} {field : Field} {resolved : ColumnRef}
    (column : PlainColumn (inferredSchema docs maxDepth) expr keys field)
    (resolves : Resolves keys field resolved) (typed : requireBool resolved = some ()) :
    ∃ candidate, reachPath doc.fields (dotted keys) = [candidate] ∧
      Stored .bool candidate
        (expr.eval external (decodeRow text (inferredSchema docs maxDepth) doc)) := by
  obtain ⟨candidate, reached, stored⟩ := column.stored text external plain member
  have plainType := column.plainType
  have boolean : field.dataType = .boolean := by
    rw [← resolves.dataType]
    unfold requireBool at typed
    split_ifs at typed with same
    exact same
  rw [boolean] at plainType
  have tag : BsonTag.of field = .bool := by
    cases tag : BsonTag.of field <;> simp_all [BsonTag.plainType]
  exact ⟨candidate, reached, tag ▸ stored⟩

theorem boolTest_exact {expr : Expr} {keys : List String} {field : Field} {want : Bool}
    {t : Translated} (column : PlainColumn (inferredSchema docs maxDepth) expr keys field)
    (translated : boolTest (inferredSchema docs maxDepth) expr want = some t) :
    accepts regex t.filter doc.fields = true ↔
      expr.truth external (decodeRow text (inferredSchema docs maxDepth) doc) = some want := by
  obtain ⟨resolved, found, resolves⟩ := column.denotes.resolve
  simp only [boolTest, found, Option.bind_eq_bind, Option.bind_some, Option.bind_eq_some_iff,
    Option.some.injEq] at translated
  obtain ⟨⟨⟩, typed, rfl⟩ := translated
  obtain ⟨candidate, reached, stored⟩ :=
    column.boolean text external plain member resolves typed
  rw [Expr.truth, ← stored.boolean want, accepts_at regex (resolves.path ▸ column.dollar plain) _ rfl,
    resolves.path, reached]
  simp [conditionAccepts]

theorem boolComplement_exact {expr : Expr} {keys : List String} {field : Field} {other : Bool}
    {t : Translated} (column : PlainColumn (inferredSchema docs maxDepth) expr keys field)
    (translated : boolComplement (inferredSchema docs maxDepth) expr other = some t) :
    accepts regex t.filter doc.fields = true ↔
      expr.truth external (decodeRow text (inferredSchema docs maxDepth) doc) ≠ some !other := by
  obtain ⟨resolved, found, resolves⟩ := column.denotes.resolve
  simp only [boolComplement, found, Option.bind_eq_bind, Option.bind_some, Option.bind_eq_some_iff,
    Option.some.injEq] at translated
  obtain ⟨⟨⟩, typed, rfl⟩ := translated
  obtain ⟨candidate, reached, stored⟩ :=
    column.boolean text external plain member resolves typed
  have dollar := column.dollar plain
  have value : accepts regex [(dotted keys, .boolean other)] doc.fields = true ↔
      expr.truth external (decodeRow text (inferredSchema docs maxDepth) doc) = some other := by
    rw [Expr.truth, ← stored.boolean other, accepts_at regex dollar _ rfl, reached]
    simp [conditionAccepts]
  have null : accepts regex [(dotted keys, .null)] doc.fields = candidate.isNull := by
    rw [accepts_at regex dollar _ rfl, reached]
    simp [conditionAccepts, equalTo_null]
  rw [resolves.path, accepts_or, Bool.or_eq_true, value, null]
  simp only [Expr.truth]
  generalize expr.eval external (decodeRow text (inferredSchema docs maxDepth) doc) = cell at stored ⊢
  cases stored with
  | null absent => simp [absent, Cell.truth]
  | bool b => cases b <;> cases other <;> simp [Cell.truth, Bson.isNull]

theorem nullTest_exact {expr : Expr} {keys : List String} {field : Field} {resolved : ColumnRef}
    (column : PlainColumn (inferredSchema docs maxDepth) expr keys field)
    (resolves : Resolves keys field resolved) :
    accepts regex [(resolved.path, .null)] doc.fields =
        (expr.eval external (decodeRow text (inferredSchema docs maxDepth) doc)).isNull ∧
      accepts regex [(resolved.path, .document [("$ne", .null)])] doc.fields =
        !(expr.eval external (decodeRow text (inferredSchema docs maxDepth) doc)).isNull := by
  obtain ⟨candidate, reached, stored⟩ := column.stored text external plain member
  have dollar := column.dollar plain
  rw [resolves.path, accepts_at regex dollar _ rfl, accepts_notNull regex dollar, reached,
    ← stored.isNull]
  simp [conditionAccepts, equalTo_null]

omit plain member in
theorem translate_comparison {schema : Schema} {left right : Expr} {op : Operator}
    (comparison : op.isComparison = true) :
    translate schema (.binaryExpr left op right) =
      match isLiteral left, isLiteral right with
      | false, true => translateComparison schema left op right
      | true, false => translateComparison schema right (flip op) left
      | _, _ => none := by
  cases leftIs : isLiteral left <;> cases rightIs : isLiteral right <;> cases op <;> first
    | (simp [Operator.isComparison] at comparison; done)
    | simp only [translate, leftIs, rightIs]

omit plain member in
theorem truth_comparison {left right : Expr} {op : Operator} (comparison : op.isComparison = true)
    (row : Row) :
    (Expr.binaryExpr left op right).truth external row =
      sqlTest op (left.eval external row) (right.eval external row) := by
  cases op <;> first
    | (simp [Operator.isComparison] at comparison; done)
    | simp only [Expr.truth, Expr.eval, Cell.truth_ofTruth]

omit plain member in
theorem OwnLiteral.isLiteral {field : Field} {expr : Expr} (own : OwnLiteral field expr) :
    isLiteral expr = true := by
  obtain ⟨scalar, rfl, -⟩ := own
  rfl

/-- A single predicate over an unflagged scalar column is pushed exactly. -/
theorem ExactLeaf.exact {expr : Expr} {t : Translated}
    (leaf : ExactLeaf (inferredSchema docs maxDepth) expr)
    (translated : translate (inferredSchema docs maxDepth) expr = some t) :
    accepts regex t.filter doc.fields = true ↔
      expr.truth external (decodeRow text (inferredSchema docs maxDepth) doc) = some true := by
  cases leaf with
  | compare op comparison column own =>
      rw [translate_comparison comparison, column.denotes.not_literal, own.isLiteral] at translated
      rw [truth_comparison external comparison]
      exact comparison_exact text external plain member column own translated
  | compareFlipped op comparison column own =>
      rw [translate_comparison comparison, column.denotes.not_literal, own.isLiteral] at translated
      rw [truth_comparison external comparison, ← sqlTest_flip]
      exact comparison_exact text external plain member column own translated
  | between negated column lowOwn highOwn =>
      exact between_exact text external plain member column lowOwn highOwn translated
  | inList negated column nonempty own => exact inList_exact text external plain member column nonempty own translated
  | isNull column =>
      obtain ⟨resolved, found, resolves⟩ := column.denotes.resolve
      simp only [translate, found, Option.bind_eq_bind, Option.bind_some, Option.some.injEq] at translated
      subst translated
      rw [(nullTest_exact text external plain member column resolves).1]
      simp [Expr.truth, Expr.eval, Cell.truth]
  | isNotNull column =>
      obtain ⟨resolved, found, resolves⟩ := column.denotes.resolve
      simp only [translate, found, Option.bind_eq_bind, Option.bind_some, Option.some.injEq] at translated
      subst translated
      rw [(nullTest_exact text external plain member column resolves).2]
      simp [Expr.truth, Expr.eval, Cell.truth]
  | isTrue column =>
      simp only [translate] at translated
      rw [boolTest_exact text external plain member column translated]
      simp [Expr.truth, Expr.eval, Cell.truth]
  | isFalse column =>
      simp only [translate] at translated
      rw [boolTest_exact text external plain member column translated]
      simp [Expr.truth, Expr.eval, Cell.truth]
  | isNotTrue column =>
      simp only [translate] at translated
      rw [boolComplement_exact text external plain member column translated]
      simp [Expr.truth, Expr.eval, Cell.truth]
  | isNotFalse column =>
      simp only [translate] at translated
      rw [boolComplement_exact text external plain member column translated]
      simp [Expr.truth, Expr.eval, Cell.truth]
  | @bare _ keys field column =>
      obtain ⟨denotes, unmixed, tagged⟩ := column
      induction denotes with
      | root found =>
          simp only [translate] at translated
          exact boolTest_exact text external plain member ⟨.root found, unmixed, tagged⟩ translated
      | aliased name inner ih =>
          simp only [translate] at translated
          simpa only [Expr.truth, Expr.eval] using ih translated unmixed tagged
      | child inner struct found ih => simp [translate] at translated

end

end Auger
