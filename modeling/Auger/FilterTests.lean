import Auger.Leaves
import Auger.General.OrderTest

set_option autoImplicit false

/-! The filters of comparisons, ranges and lists, as tests of the values standing at
a path: null, of another class than the literals, or at a place of their class. -/

namespace Auger

open General

def Bson.standingIn (kind : Option Nat) (v : Bson) : Standing (List ℚ) :=
  if v.isNull then .null
  else if kind = some v.matchClass then .place v.payload
  else .foreign

/-- Every value the server reaches at a path. A path that looks like an operator
reaches nothing. -/
def standingAtPath (kind : Option Nat) (path : String) (doc : Fields) : List (Standing (List ℚ)) :=
  if startsWithDollar path then [.null]
  else (reachPath doc path).map (Bson.standingIn kind)

/-- `column op literal`, as a test of places. -/
def comparisonTest {α : Type} (op : Operator) (place : α) : OrderTest α :=
  match op with
  | .eq => .compare .eq place
  | .notEq => .apart place []
  | .lt => .compare .lt place
  | .ltEq => .compare .le place
  | .gt => .compare .gt place
  | .gtEq => .compare .ge place
  | _ => .among []

theorem comparisonTest_holds {α : Type} [LinearOrder α] {op : Operator} (comparison : op.isComparison = true)
    (place : α) (kept : Option α) :
    (comparisonTest op place).holds kept = true ↔
      (kept.map fun a => op.holds (order a place)) = some true := by
  cases kept with
  | none => cases op <;> simp [comparisonTest, OrderTest.holds]
  | some a =>
      cases op <;> first
        | (cases comparison; done)
        | (simp only [comparisonTest, OrderTest.holds, Option.any_some, Option.map_some, Option.some.injEq,
             Relation.relates, List.any_cons, List.any_nil, Bool.or_false]
           cases order a place <;> decide)

theorem standingIn_isNull (kind : Option Nat) (v : Bson) : (v.standingIn kind).isNull = v.isNull := by
  unfold Bson.standingIn
  cases null : v.isNull with
  | true => rfl
  | false =>
      simp only [Bool.false_eq_true, if_false]
      split <;> rfl

theorem any_isNull_standingIn (kind : Option Nat) (reached : List Bson) :
    (reached.map (Bson.standingIn kind)).any Standing.isNull = reached.any Bson.isNull := by
  rw [List.any_map]
  exact congrArg reached.any (funext (standingIn_isNull kind))

section
variable {operand : Bson} (present : operand.isNull = false)

include present

theorem standingIn_passes (v : Bson) (test : List ℚ → Bool) :
    (v.standingIn (some operand.matchClass)).passes test =
      (decide (v.matchClass = operand.matchClass) && test v.payload) := by
  have different : v.isNull = true → v.matchClass ≠ operand.matchClass := by
    intro null same
    rw [(matchClass_null v).mpr null] at same
    have absent := (matchClass_null operand).mp same.symm
    rw [present] at absent
    cases absent
  unfold Bson.standingIn
  simp only [Option.some_inj]
  by_cases null : v.isNull = true
  · rw [if_pos null, decide_eq_false (different null)]
    rfl
  · rw [if_neg null]
    by_cases same : v.matchClass = operand.matchClass
    · rw [if_pos same.symm, decide_eq_true same]
      rfl
    · rw [if_neg (Ne.symm same), decide_eq_false same]
      rfl

theorem equalTo_standing (v : Bson) :
    equalTo operand v =
      (v.standingIn (some operand.matchClass)).passes (Relation.eq.relates · operand.payload) := by
  rw [standingIn_passes present, Bool.eq_iff_iff, Bool.and_eq_true, decide_eq_true_iff]
  constructor
  · intro equal
    have keys : v.sortKey = operand.sortKey := by simpa [equalTo] using equal
    exact ⟨equalTo_matchClass equal, by simpa using (List.cons.inj keys).2⟩
  · rintro ⟨same, place⟩
    have payload : v.payload = operand.payload := by simpa using place
    simp [equalTo, Bson.sortKey, (matchClass_eq_iff.mp same).1, payload]

theorem belowOperand_standing (v : Bson) :
    belowOperand operand v =
      (v.standingIn (some operand.matchClass)).passes (Relation.lt.relates · operand.payload) := by
  rw [standingIn_passes present, Bool.eq_iff_iff]
  by_cases same : v.matchClass = operand.matchClass
  · simp [belowOperand, Bson.sortKey, same, (matchClass_eq_iff.mp same).1]
  · simp [belowOperand, same]

theorem aboveOperand_standing (v : Bson) :
    aboveOperand operand v =
      (v.standingIn (some operand.matchClass)).passes (Relation.gt.relates · operand.payload) := by
  rw [standingIn_passes present, Bool.eq_iff_iff]
  by_cases same : v.matchClass = operand.matchClass
  · simp [aboveOperand, Bson.sortKey, same, (matchClass_eq_iff.mp same).1]
  · simp [aboveOperand, same]

omit present in
theorem passes_or (first second : List ℚ → Bool) (s : Standing (List ℚ)) :
    s.passes (fun a => first a || second a) = (s.passes first || s.passes second) := by
  cases s <;> rfl

theorem comparisonAccepts_test {op : Operator} {mongoOp : String} (named : mongoOperator op = some mongoOp)
    (reached : List Bson) :
    (comparisonAccepts mongoOp operand reached && (decide (op ≠ .notEq) || !reached.any Bson.isNull)) =
      (comparisonTest op operand.payload).found
        (reached.map (Bson.standingIn (some operand.matchClass))) := by
  have equal := funext (equalTo_standing present)
  have below := funext (belowOperand_standing present)
  have above := funext (aboveOperand_standing present)
  have null : (fun v => (v.standingIn (some operand.matchClass)).isNull) = Bson.isNull :=
    funext (standingIn_isNull _)
  cases op <;> simp only [mongoOperator, reduceCtorEq, Option.some.injEq] at named <;> subst named <;>
    simp [comparisonAccepts, comparisonTest, OrderTest.found, OrderTest.stands, equal, below, above,
      Relation.le_relates, Relation.ge_relates, passes_or, List.any_map, Function.comp_def, null]

theorem comparisonAccepts_stands {op : Operator} {mongoOp : String} (relation : Relation)
    (named : mongoOperator op = some mongoOp) (reached : List Bson)
    (tested : comparisonTest op operand.payload = .compare relation operand.payload) :
    comparisonAccepts mongoOp operand reached =
      OrderTest.stands (reached.map (Bson.standingIn (some operand.matchClass))) relation operand.payload := by
  have accepted := comparisonAccepts_test present named reached
  rw [tested] at accepted
  have ordered : op ≠ .notEq := by
    rintro rfl
    cases tested
  simpa [ordered, OrderTest.found] using accepted

theorem any_equalTo (reached : List Bson) :
    reached.any (equalTo operand) =
      OrderTest.stands (reached.map (Bson.standingIn (some operand.matchClass))) .eq operand.payload := by
  rw [OrderTest.stands, List.any_map]
  exact congrArg reached.any (funext (equalTo_standing present))

end

def OfClass (kind : Nat) (operand : Bson) : Prop := operand.isNull = false ∧ operand.matchClass = kind

theorem any_operands {kind : Nat} {operands : List Bson} (same : ∀ operand ∈ operands, OfClass kind operand)
    (reached : List Bson) :
    (operands.any fun v => reached.any (equalTo v)) =
      (operands.map Bson.payload).any (OrderTest.stands (reached.map (Bson.standingIn (some kind))) .eq) := by
  induction operands with
  | nil => rfl
  | cons operand rest ih =>
      obtain ⟨present, ofClass⟩ := same operand (by simp)
      have here := any_equalTo present reached
      rw [ofClass] at here
      simp only [List.map_cons, List.any_cons, here,
        ih fun other member => same other (List.mem_cons_of_mem _ member)]

section
variable (regex : RegexEngine) (path : String) (doc : Fields)

theorem comparisonFilter_accepts {op : Operator} {mongoOp : String} (named : mongoOperator op = some mongoOp)
    {kind : Nat} {operand : Bson} (same : OfClass kind operand) :
    accepts regex (if op = .notEq then excludeNull path [(path, .document [(mongoOp, operand)])]
        else [(path, .document [(mongoOp, operand)])]) doc =
      (comparisonTest op operand.payload).found (standingAtPath (some kind) path doc) := by
  obtain ⟨present, rfl⟩ := same
  have comparison : mongoOp ∈ ["$eq", "$ne", "$lt", "$lte", "$gt", "$gte"] := by
    cases op <;> simp only [mongoOperator, reduceCtorEq, Option.some.injEq] at named <;>
      subst named <;> simp
  rw [standingAtPath]
  cases dollar : startsWithDollar path with
  | true =>
      rw [if_pos rfl, OrderTest.found_null]
      split
      · simp [excludeNull, accepts_dollar regex dollar]
      · exact accepts_dollar regex dollar _ _
  | false =>
      rw [if_neg Bool.false_ne_true, ← comparisonAccepts_test present named]
      by_cases negated : op = .notEq
      · simp [negated, accepts_excludeNull regex dollar, accepts_comparison regex dollar comparison]
      · simp [negated, accepts_comparison regex dollar comparison]

theorem betweenFilter_accepts (negated : Bool) {kind : Nat} {low high : Bson} (lower : OfClass kind low)
    (upper : OfClass kind high) :
    accepts regex (if negated then excludeNull path
          [("$or", .array [.document [(path, .document [("$lt", low)])],
            .document [(path, .document [("$gt", high)])]])]
        else [(path, .document [("$gte", low), ("$lte", high)])]) doc =
      OrderTest.found (standingAtPath (some kind) path doc)
        (if negated then .outside low.payload high.payload else .within low.payload high.payload) := by
  rw [standingAtPath]
  cases dollar : startsWithDollar path with
  | true =>
      rw [if_pos rfl, OrderTest.found_null]
      cases negated with
      | false => exact accepts_dollar regex dollar _ _
      | true => simp [excludeNull, accepts_dollar regex dollar]
  | false =>
      have beneath := comparisonAccepts_stands lower.1 .lt (show mongoOperator .lt = some "$lt" from rfl)
      have beyond := comparisonAccepts_stands upper.1 .gt (show mongoOperator .gt = some "$gt" from rfl)
      have atLeast := comparisonAccepts_stands lower.1 .ge (show mongoOperator .gtEq = some "$gte" from rfl)
      have atMost := comparisonAccepts_stands upper.1 .le (show mongoOperator .ltEq = some "$lte" from rfl)
      rw [lower.2] at beneath atLeast
      rw [upper.2] at beyond atMost
      rw [if_neg Bool.false_ne_true]
      cases negated with
      | false =>
          simp only [Bool.false_eq_true, if_false, accepts_range regex dollar, atLeast _ rfl, atMost _ rfl,
            OrderTest.found]
      | true =>
          simp only [if_true, accepts_excludeNull regex dollar, accepts_or,
            accepts_comparison regex dollar (show "$lt" ∈ _ by simp),
            accepts_comparison regex dollar (show "$gt" ∈ _ by simp), beneath _ rfl, beyond _ rfl,
            OrderTest.found, any_isNull_standingIn]

theorem listFilter_accepts (negated : Bool) {kind : Nat} {operand : Bson} {others : List Bson}
    (same : ∀ item ∈ operand :: others, OfClass kind item) :
    accepts regex (if negated then excludeNull path [(path, .document [("$nin", .array (operand :: others))])]
        else [(path, .document [("$in", .array (operand :: others))])]) doc =
      OrderTest.found (standingAtPath (some kind) path doc)
        (if negated then .apart operand.payload (others.map Bson.payload)
          else .among ((operand :: others).map Bson.payload)) := by
  rw [standingAtPath]
  cases dollar : startsWithDollar path with
  | true =>
      rw [if_pos rfl, OrderTest.found_null]
      cases negated with
      | false => exact accepts_dollar regex dollar _ _
      | true => simp [excludeNull, accepts_dollar regex dollar]
  | false =>
      rw [if_neg Bool.false_ne_true]
      have each := any_operands same (reachPath doc path)
      cases negated with
      | false =>
          simp only [Bool.false_eq_true, if_false, accepts_in regex dollar]
          exact each
      | true =>
          simp only [if_true, accepts_excludeNull regex dollar, accepts_nin regex dollar, OrderTest.found,
            any_isNull_standingIn]
          exact congrArg (fun found => !found && !(reachPath doc path).any Bson.isNull) each

end

/-- One comparison, range or list over literals, on a column. -/
inductive LiteralTest (α : Type)
  | compare (op : Operator) (comparison : op.isComparison = true) (literal : α)
  | compareFlipped (op : Operator) (comparison : op.isComparison = true) (literal : α)
  | between (negated : Bool) (low high : α)
  | inList (negated : Bool) (literal : α) (others : List α)

namespace LiteralTest

variable {α : Type}

def literals : LiteralTest α → List α
  | .compare _ _ literal | .compareFlipped _ _ literal => [literal]
  | .between _ low high => [low, high]
  | .inList _ literal others => literal :: others

def toExpr (write : α → Expr) (column : Expr) : LiteralTest α → Expr
  | .compare op _ literal => .binaryExpr column op (write literal)
  | .compareFlipped op _ literal => .binaryExpr (write literal) op column
  | .between negated low high => .between column negated (write low) (write high)
  | .inList negated literal others => .inList column ((literal :: others).map write) negated

def test {β : Type} (place : α → β) : LiteralTest α → OrderTest β
  | .compare op _ literal => comparisonTest op (place literal)
  | .compareFlipped op _ literal => comparisonTest (flip op) (place literal)
  | .between false low high => .within (place low) (place high)
  | .between true low high => .outside (place low) (place high)
  | .inList false literal others => .among ((literal :: others).map place)
  | .inList true literal others => .apart (place literal) (others.map place)

theorem test_map {β γ : Type} (f : β → γ) (place : α → β) (predicate : LiteralTest α) :
    predicate.test (fun a => f (place a)) = (predicate.test place).map f := by
  have comparison : ∀ op literal,
      comparisonTest op (f (place literal)) = (comparisonTest op (place literal)).map f := by
    intro op literal
    cases op <;> rfl
  cases predicate with
  | compare op _ literal => exact comparison op literal
  | compareFlipped op _ literal => exact comparison (flip op) literal
  | between negated low high => cases negated <;> rfl
  | inList negated literal others =>
      cases negated <;> simp [test, OrderTest.map, Function.comp_def]

section
variable {β : Type} [LinearOrder β] (place : α → β) (negated : Bool) (kept : β)

theorem between_holds (low high : α) :
    ((LiteralTest.between negated low high).test place).holds (some kept) = true ↔
      (negated = false ↔ place low ≤ kept ∧ kept ≤ place high) := by
  cases negated with
  | false =>
      simp only [test, OrderTest.holds, Option.any_some, Bool.and_eq_true, Relation.atMost_iff,
        Relation.atLeast_iff, true_iff]
  | true =>
      simp only [test, OrderTest.holds, Option.any_some, Bool.or_eq_true, Relation.lt_relates,
        Relation.gt_relates, Bool.true_eq_false, false_iff, not_and_or, not_le]

theorem inList_holds (literal : α) (others : List α) :
    ((LiteralTest.inList negated literal others).test place).holds (some kept) = true ↔
      (negated = false ↔ ∃ item ∈ literal :: others, place item = kept) := by
  have listed : ((literal :: others).map place).any (Relation.eq.relates kept) = true ↔
      ∃ item ∈ literal :: others, place item = kept := by
    rw [Relation.any_eq_relates, List.mem_map]
  cases negated with
  | false => simp only [test, OrderTest.holds, Option.any_some, listed, true_iff]
  | true =>
      simp only [test, OrderTest.holds, Option.any_some, ← List.map_cons, Bool.not_eq_true', ← Bool.not_eq_true,
        listed, not_true_eq_false, false_iff]

end

end LiteralTest

theorem isLiteral_of_resolved {schema : Schema} {expr : Expr} {c : ColumnRef}
    (resolved : resolveColumn schema expr = some c) : isLiteral expr = false := by
  cases expr with
  | literal value => simp [resolveColumn] at resolved
  | _ => rfl

section
variable (regex : RegexEngine) {schema : Schema} {expr : Expr} {c : ColumnRef}
  (resolved : resolveColumn schema expr = some c) {α : Type} {write : α → Expr} {place : α → List ℚ}
  {kind : Nat}

include resolved

theorem literalComparison_accepts {op : Operator} {literal : α} {t : Translated}
    (pushed : ∀ operand, literalOf (write literal) c = some operand →
      OfClass kind operand ∧ operand.payload = place literal)
    (translated : translateComparison schema expr op (write literal) = some t) (doc : Fields) :
    accepts regex t.filter doc =
      (comparisonTest op (place literal)).found (standingAtPath (some kind) c.path doc) := by
  simp only [translateComparison, resolved, Option.bind_eq_bind, Option.bind_some, Option.bind_eq_some_iff,
    Option.some.injEq] at translated
  obtain ⟨operand, emitted, mongoOp, named, rfl⟩ := translated
  obtain ⟨ofClass, here⟩ := pushed operand emitted
  rw [comparisonFilter_accepts regex c.path doc named ofClass, here]

omit resolved in
theorem pushed_items {literals : List α} {operands : List Bson}
    (pushed : ∀ literal ∈ literals, ∀ operand, literalOf (write literal) c = some operand →
      OfClass kind operand ∧ operand.payload = place literal)
    (emitted : (literals.map write).mapM (fun item => literalOf item c) = some operands) :
    (∀ operand ∈ operands, OfClass kind operand) ∧ operands.map Bson.payload = literals.map place := by
  have each := mapM_forall₂ emitted
  clear emitted
  induction literals generalizing operands with
  | nil =>
      cases each
      simp
  | cons literal rest ih =>
      cases each with
      | cons here later =>
          obtain ⟨ofClass, same⟩ := pushed literal (by simp) _ here
          obtain ⟨others, places⟩ := ih (fun item member => pushed item (List.mem_cons_of_mem _ member)) later
          exact ⟨List.forall_mem_cons.mpr ⟨ofClass, others⟩, by rw [List.map_cons, List.map_cons, same, places]⟩

theorem literalTest_accepts {predicate : LiteralTest α} {t : Translated}
    (literal : ∀ a, isLiteral (write a) = true)
    (pushed : ∀ a ∈ predicate.literals, ∀ operand, literalOf (write a) c = some operand →
      OfClass kind operand ∧ operand.payload = place a)
    (translated : translate schema (predicate.toExpr write expr) = some t) (doc : Fields) :
    accepts regex t.filter doc = (predicate.test place).found (standingAtPath (some kind) c.path doc) := by
  have column := isLiteral_of_resolved resolved
  cases predicate with
  | compare op comparison a =>
      rw [LiteralTest.toExpr, translate_comparison comparison, column, literal a] at translated
      exact literalComparison_accepts regex resolved (pushed a (by simp [LiteralTest.literals])) translated doc
  | compareFlipped op comparison a =>
      rw [LiteralTest.toExpr, translate_comparison comparison, column, literal a] at translated
      exact literalComparison_accepts regex resolved (pushed a (by simp [LiteralTest.literals])) translated doc
  | between negated low high =>
      simp only [LiteralTest.toExpr, translate, resolved, Option.bind_eq_bind, Option.bind_some,
        Option.bind_eq_some_iff, Option.some.injEq] at translated
      obtain ⟨lo, lower, hi, upper, rfl⟩ := translated
      obtain ⟨lowClass, lowPlace⟩ := pushed low (by simp [LiteralTest.literals]) lo lower
      obtain ⟨highClass, highPlace⟩ := pushed high (by simp [LiteralTest.literals]) hi upper
      rw [betweenFilter_accepts regex c.path doc negated lowClass highClass, lowPlace, highPlace]
      cases negated <;> rfl
  | inList negated a others =>
      simp only [LiteralTest.toExpr, translate, resolved, Option.bind_eq_bind, Option.bind_some,
        Option.bind_eq_some_iff, Option.some.injEq] at translated
      obtain ⟨operands, emitted, rfl⟩ := translated
      obtain ⟨same, places⟩ := pushed_items pushed emitted
      cases operands with
      | nil => cases places
      | cons operand rest =>
          rw [listFilter_accepts regex c.path doc negated same]
          rw [LiteralTest.literals, List.map_cons, List.map_cons, List.cons.injEq] at places
          cases negated with
          | false => simp only [Bool.false_eq_true, if_false, LiteralTest.test, List.map_cons, places.1, places.2]
          | true => simp only [if_true, LiteralTest.test, places.1, places.2]

end

theorem disjList_equalities {β : Type} [LinearOrder β] (places : List β) (kept : β) :
    Kleene.disjList (places.map fun place => some (Relation.eq.relates kept place)) =
      some (places.any (Relation.eq.relates kept)) := by
  induction places with
  | nil => rfl
  | cons place rest ih =>
      rw [List.map_cons, Kleene.disjList_cons, ih, List.any_cons]
      cases Relation.eq.relates kept place <;> cases rest.any (Relation.eq.relates kept) <;> rfl

section
variable {external : Expr → Row → Cell} {row : Row} {column : Expr} {α β : Type} [LinearOrder β]
  {write : α → Expr} {place : α → β} {kept : β}
  (compares : ∀ a, sqlCompare (column.eval external row) ((write a).eval external row) =
    some (order kept (place a)))

include compares

theorem sqlTest_literal (op : Operator) (a : α) :
    sqlTest op (column.eval external row) ((write a).eval external row) =
      some (op.holds (order kept (place a))) := by
  rw [sqlTest, compares, Option.map_some]

theorem evalEquals_literals (literals : List α) :
    evalEquals external row (column.eval external row) (literals.map write) =
      (literals.map place).map fun p => some (Relation.eq.relates kept p) := by
  induction literals with
  | nil => rfl
  | cons a rest ih =>
      rw [List.map_cons, evalEquals, ih, sqlTest_literal compares]
      rfl

/-- A predicate is TRUE of a value that compares with every literal exactly when its
test holds. -/
theorem literalTest_truth (predicate : LiteralTest α) :
    (predicate.toExpr write column).truth external row = some true ↔
      (predicate.test place).holds (some kept) = true := by
  have each := sqlTest_literal compares
  cases predicate with
  | compare op comparison a =>
      rw [LiteralTest.toExpr, truth_comparison external comparison, each, LiteralTest.test,
        comparisonTest_holds comparison, Option.map_some]
  | compareFlipped op comparison a =>
      rw [LiteralTest.toExpr, truth_comparison external comparison, ← sqlTest_flip, each, LiteralTest.test,
        comparisonTest_holds (flip_comparison comparison), Option.map_some]
  | between negated low high =>
      simp only [LiteralTest.toExpr, Expr.truth, Expr.eval, Cell.truth_ofTruth]
      rw [between_true, each, each, each, each]
      cases negated with
      | false => simp [LiteralTest.test, OrderTest.holds, Relation.relates, Relation.holds, Operator.holds]
      | true => simp [LiteralTest.test, OrderTest.holds, Relation.relates, Relation.holds, Operator.holds]
  | inList negated a others =>
      simp only [LiteralTest.toExpr, Expr.truth, Expr.eval, Cell.truth_ofTruth]
      rw [evalEquals_literals compares, disjList_equalities]
      cases negated <;> simp [LiteralTest.test, OrderTest.holds, Kleene.neg]

end

end Auger
