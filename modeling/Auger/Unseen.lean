import Auger.Coerced
import Auger.FilterTests

set_option autoImplicit false

/-! Comparisons on plain columns over documents the sample need not hold: the
server compares the stored values, SQL what the decoder kept of one of them. -/

namespace Auger

open General

inductive Literal
  | boolean (value : Bool)
  | int32 (value : Int32)
  | int64 (value : Int64)
  | utf8 (value : String)

namespace Literal

def dataType : Literal → DataType
  | .boolean _ => .boolean
  | .int32 _ => .int32
  | .int64 _ => .int64
  | .utf8 _ => .utf8

def toScalar : Literal → ScalarValue
  | .boolean b => .boolean (some b)
  | .int32 v => .int32 (some v)
  | .int64 v => .int64 (some v)
  | .utf8 s => .utf8 (some s)

def toExpr (literal : Literal) : Expr := .literal literal.toScalar

def toBson : Literal → Bson
  | .boolean b => .boolean b
  | .int32 v => .int32 v
  | .int64 v => .int64 v
  | .utf8 s => .string s

/-- Where the literal stands among the values of its class. -/
def place : Literal → List ℚ
  | .boolean b => [if b then 1 else 0]
  | .int32 v => [2, (v.toInt : ℚ)]
  | .int64 v => [2, (v.toInt : ℚ)]
  | .utf8 s => textTokens s

end Literal

/-- One comparison, range or list over literals, on a column. -/
inductive ColumnPredicate
  | compare (op : Operator) (comparison : op.isComparison = true) (literal : Literal)
  | compareFlipped (op : Operator) (comparison : op.isComparison = true) (literal : Literal)
  | between (negated : Bool) (low high : Literal)
  | inList (negated : Bool) (literal : Literal) (others : List Literal)

namespace ColumnPredicate

def toExpr (column : Expr) : ColumnPredicate → Expr
  | .compare op _ literal => .binaryExpr column op literal.toExpr
  | .compareFlipped op _ literal => .binaryExpr literal.toExpr op column
  | .between negated low high => .between column negated low.toExpr high.toExpr
  | .inList negated literal others => .inList column ((literal :: others).map Literal.toExpr) negated

def literals : ColumnPredicate → List Literal
  | .compare _ _ literal | .compareFlipped _ _ literal => [literal]
  | .between _ low high => [low, high]
  | .inList _ literal others => literal :: others

def test : ColumnPredicate → OrderTest (List ℚ)
  | .compare op _ literal => comparisonTest op literal.place
  | .compareFlipped op _ literal => comparisonTest (flip op) literal.place
  | .between false low high => .within low.place high.place
  | .between true low high => .outside low.place high.place
  | .inList false literal others => .among ((literal :: others).map Literal.place)
  | .inList true literal others => .apart literal.place (others.map Literal.place)

def Own (field : Field) (predicate : ColumnPredicate) : Prop :=
  ∀ literal ∈ predicate.literals, literal.dataType = field.dataType

end ColumnPredicate

/-- The class the literals of a column type compare in. -/
def literalClass : DataType → Option Nat
  | .boolean => some (Bson.boolean false).matchClass
  | .int32 | .int64 => some (Bson.int32 0).matchClass
  | .utf8 => some (Bson.string "").matchClass
  | _ => none

/-- The integer a stored value stands for in a column: itself, an integral double
saturated at 64 bits, or zero or one for a boolean. -/
def Bson.wholeNumber : Bson → Option Int
  | .int32 v => some v.toInt
  | .int64 v => some v.toInt
  | .double x => if x.isFinite && x.isIntegral then some x.toI64.toInt else none
  | .boolean b => some (if b then 1 else 0)
  | _ => none

/-- Where a column of a type keeps a stored value among its literals. -/
def Bson.kept (text : BsonText) (dataType : DataType) (v : Bson) : Option (List ℚ) :=
  if v.isNull then none
  else
    match dataType, v with
    | .boolean, .boolean b => some [if b then 1 else 0]
    | .int32, v =>
        (v.wholeNumber.filter fun n => -2 ^ 31 ≤ n ∧ n < 2 ^ 31).map fun n : Int => [2, (n : ℚ)]
    | .int64, v => v.wholeNumber.map fun n : Int => [2, (n : ℚ)]
    | .utf8, v => (renderText text v .string).map textTokens
    | _, _ => none

/-- The server side of a column on a document. -/
def standingAt (dataType : DataType) (keys : List String) (doc : Document) : List (Standing (List ℚ)) :=
  standingAtPath (literalClass dataType) (dotted keys) doc.fields

/-- The SQL side: the one value the decoder reads. -/
def keptAt (text : BsonText) (dataType : DataType) (keys : List String) (doc : Document) :
    Option (List ℚ) :=
  (readAt doc keys).bind (Bson.kept text dataType)

theorem order_number (x y : Int) : order ([2, (x : ℚ)] : List ℚ) [2, (y : ℚ)] = cmp x y := by
  have increasing : StrictMono fun n : Int => ([2, (n : ℚ)] : List ℚ) := by
    intro a b below
    simpa [List.cons_lt_cons_iff] using below
  exact order_of_strictMono increasing x y

theorem order_boolean (x y : Bool) :
    order ([if x then 1 else 0] : List ℚ) [if y then 1 else 0] = cmp x y := by
  cases x <;> cases y <;> decide

theorem order_text (x y : String) : order (textTokens x) (textTokens y) = cmp (textBytes x) (textBytes y) := by
  have increasing : StrictMono byteTokens := fun a b below => (byteTokens_lt a b).mpr below
  exact order_of_strictMono increasing (textBytes x) (textBytes y)

theorem asI64_wholeNumber (v : Bson) : (asI64 (some v)).map Int64.toInt = v.wholeNumber := by
  cases v with
  | int32 v => simp [asI64, Bson.wholeNumber]
  | double x =>
      simp only [asI64, Bson.wholeNumber]
      split <;> rfl
  | boolean b => cases b <;> rfl
  | _ => rfl

theorem toI32_toInt (v : Int64) :
    (toI32 v).map Int32.toInt = (some v.toInt).filter fun n => -2 ^ 31 ≤ n ∧ n < 2 ^ 31 := by
  unfold toI32
  by_cases fits : -2 ^ 31 ≤ v.toInt ∧ v.toInt < 2 ^ 31
  · have same : v.toInt.bmod (2 ^ 32) = v.toInt := by
      apply Int.bmod_eq_of_le <;> omega
    rw [if_pos fits, Option.filter_some, if_pos (decide_eq_true fits), Option.map_some, Int64.toInt_toInt32, same]
  · rw [if_neg fits, Option.filter_some, if_neg (by simpa using fits)]
    rfl

theorem asI32_wholeNumber (v : Bson) :
    ((asI64 (some v)).bind toI32).map Int32.toInt =
      v.wholeNumber.filter fun n => -2 ^ 31 ≤ n ∧ n < 2 ^ 31 := by
  rw [← asI64_wholeNumber]
  cases asI64 (some v) with
  | none => rfl
  | some m => exact toI32_toInt m

theorem kept_literal (text : BsonText) {literal : Literal} {v : Bson} {place : List ℚ}
    (found : v.kept text literal.dataType = some place) :
    ∃ own : Literal, own.dataType = literal.dataType ∧ own.place = place := by
  unfold Bson.kept at found
  split at found
  · cases found
  · cases literal with
    | boolean b =>
        cases v with
        | boolean kept => exact ⟨.boolean kept, rfl, Option.some.inj found⟩
        | _ => cases found
    | int32 n =>
        simp only [Literal.dataType, ← asI32_wholeNumber, Option.map_map, Option.map_eq_some_iff] at found
        obtain ⟨m, -, rfl⟩ := found
        exact ⟨.int32 m, rfl, rfl⟩
    | int64 n =>
        simp only [Literal.dataType, ← asI64_wholeNumber, Option.map_map, Option.map_eq_some_iff] at found
        obtain ⟨m, -, rfl⟩ := found
        exact ⟨.int64 m, rfl, rfl⟩
    | utf8 s =>
        simp only [Literal.dataType, Option.map_eq_some_iff] at found
        obtain ⟨rendered, -, rfl⟩ := found
        exact ⟨.utf8 rendered, rfl, rfl⟩

theorem Literal.another (literal : Literal) :
    ∃ one other : Literal, one.dataType = literal.dataType ∧ other.dataType = literal.dataType ∧
      one.place ≠ other.place := by
  cases literal with
  | boolean b => exact ⟨.boolean false, .boolean true, rfl, rfl, by decide⟩
  | int32 n => exact ⟨.int32 0, .int32 1, rfl, rfl, by decide⟩
  | int64 n => exact ⟨.int64 0, .int64 1, rfl, rfl, by decide⟩
  | utf8 s => exact ⟨.utf8 "", .utf8 "a", rfl, rfl, by decide⟩

theorem sqlCompare_kept (text : BsonText) (literal : Literal) (tag : BsonTag) (v : Bson) :
    sqlCompare (decodeTyped text literal.dataType tag (some v)) literal.toScalar.toCell =
      (v.kept text literal.dataType).map (order · literal.place) := by
  cases null : v.isNull with
  | true =>
      have nothing : v.kept text literal.dataType = none := by
        unfold Bson.kept
        exact if_pos null
      rw [decodeTyped_null text _ _ null, nothing]
      rfl
  | false =>
      cases literal with
      | boolean b =>
          simp only [Literal.dataType, Literal.toScalar, ScalarValue.toCell, Cell.ofOption, decodeTyped,
            Bson.kept, null, Literal.place]
          cases v <;> first
            | rfl
            | simp only [sqlCompare, Bool.false_eq_true, if_false, Option.map_some, order_boolean]
      | int32 n =>
          have whole := asI32_wholeNumber v
          simp only [Literal.dataType, Literal.toScalar, ScalarValue.toCell, Cell.ofOption, decodeTyped,
            Bson.kept, null, Literal.place, Bool.false_eq_true, if_false, ← whole]
          cases (asI64 (some v)).bind toI32 with
          | none => rfl
          | some m => simp only [sqlCompare, Option.map_some, order_number]
      | int64 n =>
          simp only [Literal.dataType, Literal.toScalar, ScalarValue.toCell, Cell.ofOption, decodeTyped,
            Bson.kept, null, Literal.place, Bool.false_eq_true, if_false, ← asI64_wholeNumber]
          cases asI64 (some v) with
          | none => rfl
          | some m => simp only [sqlCompare, Option.map_some, order_number]
      | utf8 s =>
          simp only [Literal.dataType, Literal.toScalar, ScalarValue.toCell, Cell.ofOption, decodeTyped,
            Bson.kept, isNull, null, Literal.place, Bool.false_eq_true, if_false, Option.bind_some,
            renderText, sqlCompare, Option.map_some, order_text]

section
variable {docs : List Document} {maxDepth : Nat} (text : BsonText) (external : Expr → Row → Cell)

theorem sqlTest_kept {expr : Expr} {keys : List String} {field : Field}
    (denotes : Denotes (inferredSchema docs maxDepth) expr keys field) (doc : Document)
    {literal : Literal} (own : literal.dataType = field.dataType) (op : Operator) :
    sqlTest op (expr.eval external (decodeRow text (inferredSchema docs maxDepth) doc))
        (literal.toExpr.eval external (decodeRow text (inferredSchema docs maxDepth) doc)) =
      (keptAt text field.dataType keys doc).map fun place => op.holds (order place literal.place) := by
  rw [denotes.eval text external doc, sqlTest, keptAt, Literal.toExpr, Expr.eval, decodeField, ← own]
  cases readAt doc keys with
  | none =>
      rw [decodeTyped_none]
      rfl
  | some v =>
      rw [sqlCompare_kept, Option.bind_some, Option.map_map]
      rfl

end

section
variable {docs : List Document} {maxDepth : Nat}

theorem Literal.pushed (literal : Literal) {tag : BsonTag} (typed : tag.plainType = some literal.dataType) :
    scalarToBson literal.toScalar tag = some literal.toBson := by
  cases literal <;> cases tag <;> first
    | (cases typed; done)
    | rfl
    | simp only [Literal.toScalar, scalarToBson, intLiteral, toI32_toInt64, Literal.toBson]

theorem PlainColumn.literal {expr : Expr} {keys : List String} {field : Field} {resolved : ColumnRef}
    (column : PlainColumn (inferredSchema docs maxDepth) expr keys field)
    (resolves : Resolves keys field resolved) {literal : Literal}
    (own : literal.dataType = field.dataType) :
    literalOf literal.toExpr resolved = some literal.toBson := by
  have plainType := column.plainType
  rw [← resolves.tag, ← own] at plainType
  exact literal.pushed plainType

theorem PlainColumn.literals {expr : Expr} {keys : List String} {field : Field} {resolved : ColumnRef}
    (column : PlainColumn (inferredSchema docs maxDepth) expr keys field)
    (resolves : Resolves keys field resolved) (literals : List Literal)
    (own : ∀ literal ∈ literals, literal.dataType = field.dataType) :
    (literals.map Literal.toExpr).mapM (fun item => literalOf item resolved) =
      some (literals.map Literal.toBson) := by
  induction literals with
  | nil => rfl
  | cons literal rest ih =>
      have others := ih fun other member => own other (List.mem_cons_of_mem _ member)
      rw [List.map_cons, List.mapM_cons, column.literal resolves (own literal (by simp)), others]
      rfl

theorem Literal.ofClass (literal : Literal) {dataType : DataType} (own : literal.dataType = dataType) :
    ∃ kind, literalClass dataType = some kind ∧ OfClass kind literal.toBson := by
  rw [← own]
  cases literal <;> exact ⟨_, rfl, rfl, rfl⟩

theorem Literal.payload_eq (literal : Literal) : literal.toBson.payload = literal.place := by
  cases literal <;> simp [Literal.toBson, Literal.place, Bson.payload]

section
variable {expr : Expr} {keys : List String} {field : Field}
  (column : PlainColumn (inferredSchema docs maxDepth) expr keys field) (regex : RegexEngine) (doc : Document)

include column

theorem PlainColumn.comparison_accepts {op : Operator} {literal : Literal} {t : Translated}
    (own : literal.dataType = field.dataType)
    (translated : translateComparison (inferredSchema docs maxDepth) expr op literal.toExpr = some t) :
    accepts regex t.filter doc.fields =
      (comparisonTest op literal.place).found (standingAt field.dataType keys doc) := by
  obtain ⟨resolved, found, resolves⟩ := column.denotes.resolve
  simp only [translateComparison, found, column.literal resolves own, Option.bind_eq_bind, Option.bind_some,
    Option.bind_eq_some_iff, Option.some.injEq] at translated
  obtain ⟨mongoOp, named, rfl⟩ := translated
  obtain ⟨kind, known, ofClass⟩ := literal.ofClass own
  rw [standingAt, known, ← literal.payload_eq, ← resolves.path]
  exact comparisonFilter_accepts regex resolved.path doc.fields named ofClass

theorem PlainColumn.predicate_accepts {predicate : ColumnPredicate} {t : Translated}
    (own : predicate.Own field)
    (translated : translate (inferredSchema docs maxDepth) (predicate.toExpr expr) = some t) :
    accepts regex t.filter doc.fields = predicate.test.found (standingAt field.dataType keys doc) := by
  cases predicate with
  | compare op comparison literal =>
      simp only [ColumnPredicate.toExpr] at translated
      rw [translate_comparison comparison, column.denotes.not_literal] at translated
      exact column.comparison_accepts regex doc (own literal (by simp [ColumnPredicate.literals])) translated
  | compareFlipped op comparison literal =>
      simp only [ColumnPredicate.toExpr] at translated
      rw [translate_comparison comparison, column.denotes.not_literal] at translated
      exact column.comparison_accepts regex doc (own literal (by simp [ColumnPredicate.literals])) translated
  | between negated low high =>
      obtain ⟨resolved, found, resolves⟩ := column.denotes.resolve
      have lowOwn := own low (by simp [ColumnPredicate.literals])
      have highOwn := own high (by simp [ColumnPredicate.literals])
      simp only [ColumnPredicate.toExpr, translate, found, column.literal resolves lowOwn,
        column.literal resolves highOwn, Option.bind_eq_bind, Option.bind_some, Option.some.injEq] at translated
      subst translated
      obtain ⟨kind, known, lower⟩ := low.ofClass lowOwn
      obtain ⟨kind', known', upper⟩ := high.ofClass highOwn
      cases Option.some.inj (known.symm.trans known')
      rw [standingAt, known, ← resolves.path, betweenFilter_accepts regex resolved.path doc.fields negated lower upper,
        low.payload_eq, high.payload_eq]
      cases negated <;> rfl
  | inList negated literal others =>
      obtain ⟨resolved, found, resolves⟩ := column.denotes.resolve
      simp only [ColumnPredicate.toExpr, translate, found, column.literals resolves (literal :: others) own,
        Option.bind_eq_bind, Option.bind_some, Option.some.injEq] at translated
      subst translated
      obtain ⟨kind, known, -⟩ := literal.ofClass (own literal (by simp [ColumnPredicate.literals]))
      have same : ∀ item ∈ literal.toBson :: others.map Literal.toBson, OfClass kind item := by
        intro item member
        obtain ⟨l, inside, rfl⟩ := List.mem_map.mp (show item ∈ (literal :: others).map Literal.toBson from member)
        obtain ⟨kind', known', ofClass⟩ := l.ofClass (own l inside)
        cases Option.some.inj (known.symm.trans known')
        exact ofClass
      have places : (others.map Literal.toBson).map Bson.payload = others.map Literal.place := by
        rw [List.map_map]
        exact List.map_congr_left fun l _ => l.payload_eq
      rw [List.map_cons, standingAt, known, ← resolves.path,
        listFilter_accepts regex resolved.path doc.fields negated same, List.map_cons, places, literal.payload_eq]
      cases negated <;> rfl

end

end

theorem disjList_unknown (first : List ℚ) (rest : List (List ℚ)) :
    Kleene.disjList ((first :: rest).map fun _ => (none : Kleene.Truth)) = none := by
  induction rest generalizing first with
  | nil => rfl
  | cons p rest ih => rw [List.map_cons, Kleene.disjList_cons, ih p]; rfl

section
variable {docs : List Document} {maxDepth : Nat} (text : BsonText) (external : Expr → Row → Cell)
  {expr : Expr} {keys : List String} {field : Field}
  (denotes : Denotes (inferredSchema docs maxDepth) expr keys field) (doc : Document)

include denotes

theorem evalEquals_kept {literals : List Literal}
    (own : ∀ literal ∈ literals, literal.dataType = field.dataType) :
    evalEquals external (decodeRow text (inferredSchema docs maxDepth) doc)
        (expr.eval external (decodeRow text (inferredSchema docs maxDepth) doc))
        (literals.map Literal.toExpr) =
      (literals.map Literal.place).map fun place =>
        (keptAt text field.dataType keys doc).map (Relation.eq.relates · place) := by
  induction literals with
  | nil => rfl
  | cons literal rest ih =>
      have here := sqlTest_kept text external denotes doc (own literal (by simp)) .eq
      simp only [List.map_cons, evalEquals, here, ih fun other member => own other (List.mem_cons_of_mem _ member)]
      rfl

theorem predicate_truth {predicate : ColumnPredicate} (own : predicate.Own field) :
    (predicate.toExpr expr).truth external (decodeRow text (inferredSchema docs maxDepth) doc) = some true ↔
      predicate.test.holds (keptAt text field.dataType keys doc) = true := by
  cases predicate with
  | compare op comparison literal =>
      rw [ColumnPredicate.toExpr, truth_comparison external comparison,
        sqlTest_kept text external denotes doc (own literal (by simp [ColumnPredicate.literals])),
        ColumnPredicate.test, comparisonTest_holds comparison]
  | compareFlipped op comparison literal =>
      rw [ColumnPredicate.toExpr, truth_comparison external comparison, ← sqlTest_flip,
        sqlTest_kept text external denotes doc (own literal (by simp [ColumnPredicate.literals])),
        ColumnPredicate.test, comparisonTest_holds (flip_comparison comparison)]
  | between negated low high =>
      have lowOwn := own low (by simp [ColumnPredicate.literals])
      have highOwn := own high (by simp [ColumnPredicate.literals])
      simp only [ColumnPredicate.toExpr, Expr.truth, Expr.eval, Cell.truth_ofTruth]
      rw [between_true, sqlTest_kept text external denotes doc lowOwn,
        sqlTest_kept text external denotes doc lowOwn, sqlTest_kept text external denotes doc highOwn,
        sqlTest_kept text external denotes doc highOwn]
      cases keptAt text field.dataType keys doc with
      | none => cases negated <;> simp [ColumnPredicate.test, OrderTest.holds]
      | some place =>
          cases negated <;>
            simp only [ColumnPredicate.test, OrderTest.holds, Option.map_some, Option.some.injEq, Option.any_some,
              Bool.and_eq_true, Bool.or_eq_true, if_true, Bool.false_eq_true, if_false] <;>
            rfl
  | inList negated literal others =>
      simp only [ColumnPredicate.toExpr, Expr.truth, Expr.eval, Cell.truth_ofTruth]
      have owned : ∀ item ∈ literal :: others, item.dataType = field.dataType := own
      rw [evalEquals_kept text external denotes doc owned]
      cases keptAt text field.dataType keys doc with
      | none =>
          simp only [Option.map_none]
          rw [List.map_cons, disjList_unknown]
          cases negated <;> simp [ColumnPredicate.test, OrderTest.holds, Kleene.neg]
      | some place =>
          simp only [Option.map_some]
          rw [disjList_equalities]
          cases negated <;> simp [ColumnPredicate.test, OrderTest.holds, Kleene.neg]

end

/-- Only coerced slots are flagged, so the structs around a column add no flag. -/
theorem Denotes.resolved_mixed {docs : List Document} {maxDepth : Nat} {expr : Expr} {keys : List String}
    {field : Field} (denotes : Denotes (inferredSchema docs maxDepth) expr keys field) {resolved : ColumnRef}
    (found : resolveColumn (inferredSchema docs maxDepth) expr = some resolved) :
    resolved.mixed = fieldIsMixed field := by
  induction denotes generalizing resolved with
  | root known =>
      simp only [resolveColumn, known, Option.map_some, Option.some.injEq] at found
      rw [← found]
      rfl
  | aliased _ _ ih => exact ih (by simpa only [resolveColumn] using found)
  | @child base keys parent field key children inner struct known ih =>
      obtain ⟨outer, outerFound, resolves⟩ := inner.resolve
      have parentUnmixed : outer.mixed = false := by
        obtain ⟨fs, slot, name, total, depth, rfl⟩ := inner.slot
        obtain ⟨fields, document, -⟩ := arrowType_struct struct
        rw [ih outerFound, mixed_fieldAround]
        apply Bool.eq_false_iff.mpr
        intro flagged
        have coerced := slot.coerced.1 flagged
        rw [document] at coerced
        exact coerced
      simp only [resolveColumn, if_true, outerFound, Option.bind_some, resolveChild, resolves.dataType,
        struct, known, Option.map_some, Option.some.injEq] at found
      rw [← found]
      simp only [parentUnmixed, Bool.or_false]
      rfl

section
variable {docs : List Document} {maxDepth : Nat} {expr : Expr} {keys : List String} {field : Field}
  (column : PlainColumn (inferredSchema docs maxDepth) expr keys field)

include column

theorem PlainColumn.compare_translates {op : Operator} (comparison : op.isComparison = true)
    {literal : Literal} (own : literal.dataType = field.dataType) :
    ∃ t, translate (inferredSchema docs maxDepth)
      ((ColumnPredicate.compare op comparison literal).toExpr expr) = some t ∧ t.exact = true := by
  obtain ⟨resolved, found, resolves⟩ := column.denotes.resolve
  obtain ⟨mongoOp, named⟩ : ∃ mongoOp, mongoOperator op = some mongoOp := by
    cases op <;> first | (cases comparison; done) | exact ⟨_, rfl⟩
  have pushed := column.literal resolves own
  rw [Literal.toExpr] at pushed
  have unmixed : resolved.mixed = false := (column.denotes.resolved_mixed found).trans column.unmixed
  rw [ColumnPredicate.toExpr, translate_comparison comparison, column.denotes.not_literal, Literal.toExpr]
  simp only [isLiteral, translateComparison, found, Option.bind_eq_bind, Option.bind_some, pushed, named,
    unmixed, Bool.not_false]
  exact ⟨_, rfl, rfl⟩

theorem PlainColumn.agreeOver (regex : RegexEngine) (text : BsonText) (external : Expr → Row → Cell)
    (doc : Document)
    (agree : ∀ (predicate : ColumnPredicate) (t : Translated), predicate.Own field →
      translate (inferredSchema docs maxDepth) (predicate.toExpr expr) = some t → t.exact = true →
      (accepts regex t.filter doc.fields = true ↔
        (predicate.toExpr expr).truth external (decodeRow text (inferredSchema docs maxDepth) doc) =
          some true)) :
    OrderTest.AgreeOver (fun place => ∃ literal : Literal, literal.dataType = field.dataType ∧ literal.place = place)
      (standingAt field.dataType keys doc) (keptAt text field.dataType keys doc) := by
  have each : ∀ (op : Operator) (comparison : op.isComparison = true) (literal : Literal),
      literal.dataType = field.dataType →
      (comparisonTest op literal.place).found (standingAt field.dataType keys doc) =
        (comparisonTest op literal.place).holds (keptAt text field.dataType keys doc) := by
    intro op comparison literal own
    have owned : (ColumnPredicate.compare op comparison literal).Own field := by
      intro item member
      rwa [List.mem_singleton.mp member]
    obtain ⟨t, translated, exact⟩ := column.compare_translates comparison own
    have same := agree _ t owned translated exact
    rw [column.predicate_accepts regex doc owned translated,
      predicate_truth text external column.denotes doc owned] at same
    exact Bool.eq_iff_iff.mpr same
  constructor
  · rintro relation place ⟨literal, own, rfl⟩
    cases relation with
    | eq => exact each .eq rfl literal own
    | lt => exact each .lt rfl literal own
    | le => exact each .ltEq rfl literal own
    | gt => exact each .gt rfl literal own
    | ge => exact each .gtEq rfl literal own
  · rintro place ⟨literal, own, rfl⟩
    exact each .notEq rfl literal own

theorem PlainColumn.literalType : ∃ literal : Literal, literal.dataType = field.dataType := by
  have plainType := column.plainType
  cases tag : BsonTag.of field <;>
    simp only [tag, BsonTag.plainType, reduceCtorEq, Option.some.injEq] at plainType
  · exact ⟨.boolean false, plainType⟩
  · exact ⟨.int32 0, plainType⟩
  · exact ⟨.int64 0, plainType⟩
  · exact ⟨.utf8 "", plainType⟩

end

/-- On any document a predicate over a plain column is pushed down exactly if and
only if its test finds, among the values standing at the path, what it finds in the
value kept; and every predicate is if and only if the values standing there are
faithful to the value kept. -/
theorem unseen_agree_iff (regex : RegexEngine) (text : BsonText) (external : Expr → Row → Cell)
    (docs : List Document) (maxDepth : Nat) (expr : Expr) (keys : List String) (field : Field)
    (column : PlainColumn (inferredSchema docs maxDepth) expr keys field) (doc : Document) :
    (∀ (predicate : ColumnPredicate) (t : Translated), predicate.Own field →
      translate (inferredSchema docs maxDepth) (predicate.toExpr expr) = some t → t.exact = true →
      ((accepts regex t.filter doc.fields = true ↔
          (predicate.toExpr expr).truth external (decodeRow text (inferredSchema docs maxDepth) doc) =
            some true) ↔
        predicate.test.found (standingAt field.dataType keys doc) =
          predicate.test.holds (keptAt text field.dataType keys doc))) ∧
    ((∀ (predicate : ColumnPredicate) (t : Translated), predicate.Own field →
      translate (inferredSchema docs maxDepth) (predicate.toExpr expr) = some t → t.exact = true →
      (accepts regex t.filter doc.fields = true ↔
        (predicate.toExpr expr).truth external (decodeRow text (inferredSchema docs maxDepth) doc) =
          some true)) ↔
      Faithful (standingAt field.dataType keys doc) (keptAt text field.dataType keys doc)) := by
  constructor
  · intro predicate t own translated _
    rw [column.predicate_accepts regex doc own translated,
      predicate_truth text external column.denotes doc own, ← Bool.eq_iff_iff]
  constructor
  · intro agree
    obtain ⟨literal, typed⟩ := column.literalType
    obtain ⟨one, other, oneTyped, otherTyped, differ⟩ := literal.another
    refine (column.agreeOver regex text external doc agree).faithful ?_
      ⟨one, oneTyped.trans typed, rfl⟩ ⟨other, otherTyped.trans typed, rfl⟩ differ
    intro place found
    obtain ⟨v, -, kept⟩ := Option.bind_eq_some_iff.mp found
    rw [← typed] at kept ⊢
    exact kept_literal text kept
  · intro faithful predicate t own translated _
    rw [column.predicate_accepts regex doc own translated,
      predicate_truth text external column.denotes doc own,
      OrderTest.found_of_faithful faithful predicate.test]

/-- Stored after the sample was taken: a wide integer where it held narrow ones, and
a boolean. -/
def wideSize : Document := ⟨[("size", .int64 7)], rfl⟩

def flaggedSize : Document := ⟨[("size", .boolean true)], rfl⟩

/-- The boolean decodes to `1`, which the server does not take for the number. -/
theorem unseen_disagree : ¬∀ (regex : RegexEngine) (text : BsonText) (external : Expr → Row → Cell)
    (docs : List Document) (maxDepth : Nat) (expr : Expr) (keys : List String) (field : Field)
    (predicate : ColumnPredicate) (t : Translated) (doc : Document),
    PlainColumn (inferredSchema docs maxDepth) expr keys field → predicate.Own field →
    translate (inferredSchema docs maxDepth) (predicate.toExpr expr) = some t → t.exact = true →
    (accepts regex t.filter doc.fields = true ↔
      (predicate.toExpr expr).truth external (decodeRow text (inferredSchema docs maxDepth) doc) =
        some true) := by
  intro claimed
  obtain ⟨field, column, typed⟩ := size_plain
  have own : (ColumnPredicate.compare .eq rfl (.int32 1)).Own field := by
    intro item member
    rw [List.mem_singleton.mp member, typed]
    rfl
  obtain ⟨t, translated, exact⟩ := column.compare_translates (show Operator.eq.isComparison = true from rfl)
    (own (.int32 1) (List.mem_singleton.mpr rfl))
  have same := claimed noRegex plainText noExternal shipments 4 (.column "size") ["size"] field _ t flaggedSize
    column own translated exact
  rw [column.predicate_accepts noRegex flaggedSize own translated,
    predicate_truth plainText noExternal column.denotes flaggedSize own, typed] at same
  have missed : (ColumnPredicate.compare .eq rfl (.int32 1)).test.found
      (standingAt .int32 ["size"] flaggedSize) = false := by decide +kernel
  have kept : (ColumnPredicate.compare .eq rfl (.int32 1)).test.holds
      (keptAt plainText .int32 ["size"] flaggedSize) = true := by decide +kernel
  rw [missed, kept] at same
  cases same.mpr rfl

theorem unseen_agree_iff_shipments :
    ∃ field, PlainColumn (inferredSchema shipments 4) (.column "size") ["size"] field ∧
      ∀ (predicate : ColumnPredicate) (t : Translated), predicate.Own field →
        translate (inferredSchema shipments 4) (predicate.toExpr (.column "size")) = some t → t.exact = true →
        (accepts noRegex t.filter wideSize.fields = true ↔
          (predicate.toExpr (.column "size")).truth noExternal
            (decodeRow plainText (inferredSchema shipments 4) wideSize) = some true) := by
  obtain ⟨field, column, typed⟩ := size_plain
  have standing : standingAt field.dataType ["size"] wideSize = [.place [2, 7]] := by
    rw [typed]
    decide +kernel
  have kept : keptAt plainText field.dataType ["size"] wideSize = some [2, 7] := by
    rw [typed]
    decide +kernel
  have faithful : Faithful (standingAt field.dataType ["size"] wideSize)
      (keptAt plainText field.dataType ["size"] wideSize) := by
    rw [standing, kept]
    simp [Faithful]
  exact ⟨field, column, (unseen_agree_iff noRegex plainText noExternal shipments 4 (.column "size") ["size"] field
    column wideSize).2.mpr faithful⟩

end Auger
