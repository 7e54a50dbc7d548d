import Auger.Leaves

set_option autoImplicit false

/-! Compound predicates: what their `$match` accepts, and what SQL keeps. -/

namespace Auger

open General

/-- Nests of `AND`, `OR` and aliases over predicates pushed exactly. -/
inductive NegationFree (schema : Schema) : Expr → Prop
  | leaf {expr : Expr} (leaf : ExactLeaf schema expr) : NegationFree schema expr
  | and {left right : Expr} (first : NegationFree schema left) (second : NegationFree schema right) :
      NegationFree schema (.binaryExpr left .and right)
  | or {left right : Expr} (first : NegationFree schema left) (second : NegationFree schema right) :
      NegationFree schema (.binaryExpr left .or right)
  | aliased {expr : Expr} (name : String) (inner : NegationFree schema expr) :
      NegationFree schema (.alias expr name)

section
variable (external : Expr → Row → Cell) (row : Row)

@[simp] theorem truth_and (left right : Expr) :
    (Expr.binaryExpr left .and right).truth external row =
      Kleene.conj (left.truth external row) (right.truth external row) := by
  simp [Expr.truth, Expr.eval]

@[simp] theorem truth_or (left right : Expr) :
    (Expr.binaryExpr left .or right).truth external row =
      Kleene.disj (left.truth external row) (right.truth external row) := by
  simp [Expr.truth, Expr.eval]

@[simp] theorem truth_not (inner : Expr) :
    (Expr.not inner).truth external row = Kleene.neg (inner.truth external row) := by
  simp [Expr.truth, Expr.eval]

@[simp] theorem truth_alias (inner : Expr) (name : String) :
    (Expr.alias inner name).truth external row = inner.truth external row := by
  simp [Expr.truth, Expr.eval]

end

theorem translate_and_exact {schema : Schema} {left right : Expr} {t : Translated}
    (translated : translate schema (.binaryExpr left .and right) = some t) (exact : t.exact = true) :
    ∃ a b, translate schema left = some a ∧ translate schema right = some b ∧
      a.exact = true ∧ b.exact = true ∧
      t.filter = [("$and", .array [.document a.filter, .document b.filter])] := by
  simp only [translate] at translated
  cases first : translate schema left <;> cases second : translate schema right <;>
    simp only [first, second, reduceCtorEq, Option.some.injEq] at translated <;> subst translated
  · simp [Translated.withExactness] at exact
  · simp [Translated.withExactness] at exact
  · simp only [Bool.and_eq_true] at exact
    exact ⟨_, _, rfl, rfl, exact.1, exact.2, rfl⟩

theorem translate_or {schema : Schema} {left right : Expr} {t : Translated}
    (translated : translate schema (.binaryExpr left .or right) = some t) :
    ∃ a b, translate schema left = some a ∧ translate schema right = some b ∧
      t.exact = (a.exact && b.exact) ∧
      t.filter = [("$or", .array [.document a.filter, .document b.filter])] := by
  simp only [translate, Option.bind_eq_bind, Option.bind_eq_some_iff, Option.some.injEq] at translated
  obtain ⟨a, first, b, second, rfl⟩ := translated
  exact ⟨a, b, first, second, rfl, rfl⟩

theorem NegationFree.exact {docs : List Document} {maxDepth : Nat} (text : BsonText)
    (external : Expr → Row → Cell) {regex : RegexEngine} {doc : Document}
    (plain : ∀ doc ∈ docs, doc.keysAll plainKey = true) (member : doc ∈ docs) {expr : Expr}
    (fragment : NegationFree (inferredSchema docs maxDepth) expr) {t : Translated}
    (translated : translate (inferredSchema docs maxDepth) expr = some t) (exact : t.exact = true) :
    accepts regex t.filter doc.fields = true ↔
      expr.truth external (decodeRow text (inferredSchema docs maxDepth) doc) = some true := by
  induction fragment generalizing t with
  | leaf leaf => exact leaf.exact text external plain member translated
  | and _ _ first second =>
      obtain ⟨a, b, left, right, leftExact, rightExact, filter⟩ := translate_and_exact translated exact
      rw [filter, accepts_and, Bool.and_eq_true, truth_and, Kleene.conj_true,
        first left leftExact, second right rightExact]
  | or _ _ first second =>
      obtain ⟨a, b, left, right, both, filter⟩ := translate_or translated
      rw [exact, eq_comm, Bool.and_eq_true] at both
      rw [filter, accepts_or, Bool.or_eq_true, truth_or, Kleene.disj_true,
        first left both.1, second right both.2]
  | aliased name _ ih =>
      simp only [translate] at translated
      rw [truth_alias]
      exact ih translated exact

/-- A negation-free predicate pushed as exact accepts precisely the sampled
documents on whose decoded row it is TRUE. -/
theorem pushdown_exact (regex : RegexEngine) (text : BsonText) (external : Expr → Row → Cell)
    (docs : List Document) (maxDepth : Nat) (expr : Expr) (t : Translated) (batch : RecordBatch)
    (plain : ∀ doc ∈ docs, doc.keysAll plainKey = true)
    (fragment : NegationFree (inferredSchema docs maxDepth) expr)
    (translated : translate (inferredSchema docs maxDepth) expr = some t) (exact : t.exact = true)
    (decoded : documentsToBatch text (inferredSchema docs maxDepth) docs = .ok batch) (i : Nat)
    (bound : i < docs.length) :
    accepts regex t.filter docs[i].fields = true ↔
      expr.truth external (batch.row i) = some true := by
  rw [documentsToBatch_row text decoded i bound]
  exact fragment.exact text external plain (List.getElem_mem bound) translated exact

/-- Renderings for samples that hold none of the values rendered outside this program. -/
def plainText : BsonText := ⟨fun _ => "", fun _ => none, fun _ => ""⟩

def noRegex : RegexEngine := ⟨fun _ _ _ => false⟩

def noExternal : Expr → Row → Cell := fun _ _ => .null

theorem plainColumn_root {schema : Schema} {name : String} (known : (findField name schema).isSome = true)
    (unmixed : fieldIsMixed ((findField name schema).get known) = false)
    (tagged : (BsonTag.of ((findField name schema).get known)).plainType.isSome = true) :
    PlainColumn schema (.column name) [name] ((findField name schema).get known) :=
  ⟨.root (Option.some_get known).symm, unmixed, tagged⟩

theorem ok_of_isOk {ε α : Type} {x : Except ε α} (ok : x.isOk = true) : ∃ a, x = .ok a := by
  cases x with
  | error e => cases ok
  | ok a => exact ⟨a, rfl⟩

/-- The second shipment has no `late`, the third no `size`. -/
def shipments : List Document :=
  [⟨[("size", .int32 1), ("late", .boolean true), ("name", .string "a")], rfl⟩,
    ⟨[("size", .int32 5)], rfl⟩, ⟨[("late", .boolean false)], rfl⟩]

theorem shipments_plain : ∀ doc ∈ shipments, doc.keysAll plainKey = true := by
  decide

theorem size_plain : ∃ field, PlainColumn (inferredSchema shipments 4) (.column "size") ["size"] field ∧
    field.dataType = .int32 :=
  ⟨_, plainColumn_root (by decide) (by decide) (by decide), by decide⟩

theorem late_plain : ∃ field, PlainColumn (inferredSchema shipments 4) (.column "late") ["late"] field ∧
    field.dataType = .boolean :=
  ⟨_, plainColumn_root (by decide) (by decide) (by decide), by decide⟩

def sizeIs (op : Operator) (n : Int32) : Expr := .binaryExpr (.column "size") op (.literal (.int32 (some n)))

theorem sizeIs_leaf (op : Operator) (comparison : op.isComparison = true) (n : Int32) :
    ExactLeaf (inferredSchema shipments 4) (sizeIs op n) := by
  obtain ⟨field, column, dataType⟩ := size_plain
  exact .compare op comparison column ⟨_, rfl, by rw [dataType]; rfl⟩

theorem late_leaf : ExactLeaf (inferredSchema shipments 4) (.column "late") := by
  obtain ⟨field, column, -⟩ := late_plain
  exact .bare column

def lateOrLarge : Expr := .binaryExpr (sizeIs .gtEq 3) .or (.column "late")

theorem pushdown_exact_shipments :
    ∃ t batch, translate (inferredSchema shipments 4) lateOrLarge = some t ∧
      documentsToBatch plainText (inferredSchema shipments 4) shipments = .ok batch ∧
      (accepts noRegex t.filter shipments[1].fields = true ↔
        lateOrLarge.truth noExternal (batch.row 1) = some true) := by
  have translates : (translate (inferredSchema shipments 4) lateOrLarge).any (·.exact) = true := by
    decide
  obtain ⟨t, translated, exact⟩ := (Option.any_eq_true _ _).mp translates
  obtain ⟨batch, decoded⟩ : ∃ batch, documentsToBatch plainText (inferredSchema shipments 4) shipments =
      .ok batch := ok_of_isOk (by decide)
  exact ⟨t, batch, translated, decoded, pushdown_exact noRegex plainText noExternal shipments 4
    lateOrLarge t batch shipments_plain (.or (.leaf (sizeIs_leaf .gtEq rfl 3)) (.leaf late_leaf))
    translated exact decoded 1 (by decide)⟩

end Auger
