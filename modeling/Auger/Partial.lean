import Auger.LikeTexts
import Auger.Negation

set_option autoImplicit false

/-! Partially translated predicates: which rows a `NOT` loses once conjuncts without a
`$match` form are left out. -/

namespace Auger

open General

/-- A predicate whose leaves are marked: kept ones are pushed, lost ones have no `$match`
form and stay with DataFusion. -/
inductive Marked
  | kept (leaf : Expr)
  | lost (leaf : Expr)
  | and (left right : Marked)
  | or (left right : Marked)
  | not (inner : Marked)
  | aliased (inner : Marked) (name : String)

namespace Marked

def expr : Marked → Expr
  | kept leaf | lost leaf => leaf
  | and left right => .binaryExpr left.expr .and right.expr
  | or left right => .binaryExpr left.expr .or right.expr
  | not inner => .not inner.expr
  | aliased inner name => .alias inner.expr name

/-- Whether anything of a predicate is pushed: a conjunction with either half, a
disjunction or a negation whole or not at all. -/
def pushed : Marked → Bool
  | kept _ => true
  | lost _ => false
  | and left right => left.pushed || right.pushed
  | or left right => left.pushed && right.pushed
  | not inner => inner.pushed && inner.expr.listable
  | aliased inner _ => inner.pushed

section
variable (external : Expr → Row → Cell) (row : Row)

def isTrue (marked : Marked) : Bool := marked.expr.truth external row == some true

def isFalse (marked : Marked) : Bool := marked.expr.truth external row == some false

mutual
/-- The predicate is TRUE on the row, which is rejected all the same. Only a `NOT` starts
this: where its operand is spared, or mentions a column that is NULL. -/
def dropped : Marked → Bool
  | kept _ | lost _ => false
  | and left right =>
      left.isTrue external row && right.isTrue external row && (left.dropped || right.dropped)
  | or left right =>
      (left.isTrue external row || right.isTrue external row) &&
        (!left.isTrue external row || left.dropped) && (!right.isTrue external row || right.dropped) &&
        !left.spared && !right.spared
  | not inner =>
      inner.isFalse external row && inner.pushed && inner.expr.listable &&
        (!inner.expr.columnsKnown external row || inner.spared)
  | aliased inner _ => inner.dropped
/-- The predicate is not TRUE on the row, which is let through all the same. A lost leaf
starts this; under a `NOT` it takes an operand that is dropped, or unknown. -/
def spared : Marked → Bool
  | kept _ => false
  | lost leaf => !(lost leaf).isTrue external row
  | and left right =>
      !(left.isTrue external row && right.isTrue external row) &&
        (left.isTrue external row && !left.dropped || left.spared) &&
        (right.isTrue external row && !right.dropped || right.spared)
  | or left right =>
      !left.isTrue external row && !right.isTrue external row && (left.spared || right.spared)
  | not inner =>
      !inner.isFalse external row &&
        (!(inner.pushed && inner.expr.listable) ||
          inner.expr.columnsKnown external row &&
            (!inner.isTrue external row || inner.dropped) && !inner.spared)
  | aliased inner _ => inner.spared
end

attribute [local simp] expr pushed dropped spared

/-- What is pushed of the predicate lets the row through. -/
def passed (marked : Marked) : Bool :=
  marked.isTrue external row && !marked.dropped external row || marked.spared external row

@[simp] theorem isTrue_and (left right : Marked) :
    (and left right).isTrue external row = (left.isTrue external row && right.isTrue external row) := by
  rw [Bool.eq_iff_iff]
  simp [isTrue, expr]

@[simp] theorem isTrue_or (left right : Marked) :
    (or left right).isTrue external row = (left.isTrue external row || right.isTrue external row) := by
  rw [Bool.eq_iff_iff]
  simp [isTrue, expr]

@[simp] theorem isTrue_not (inner : Marked) : (not inner).isTrue external row = inner.isFalse external row := by
  rw [Bool.eq_iff_iff]
  simp [isTrue, isFalse, expr]

@[simp] theorem isTrue_aliased (inner : Marked) (name : String) :
    (aliased inner name).isTrue external row = inner.isTrue external row := by
  simp [isTrue, expr]

theorem isTrue_of_isFalse {marked : Marked} (holds : marked.isFalse external row = true) :
    marked.isTrue external row = false := by
  simp only [isFalse, isTrue, beq_iff_eq] at holds ⊢
  rw [holds]
  rfl

theorem dropped_isTrue (marked : Marked) (gone : marked.dropped external row = true) :
    marked.isTrue external row = true := by
  induction marked with
  | kept leaf | lost leaf => simp [dropped] at gone
  | and left right =>
      simp only [dropped, Bool.and_eq_true] at gone
      rw [isTrue_and, Bool.and_eq_true]
      exact gone.1
  | or left right =>
      simp only [dropped, Bool.and_eq_true] at gone
      rw [isTrue_or]
      exact gone.1.1.1.1
  | not inner =>
      simp only [dropped, Bool.and_eq_true] at gone
      rw [isTrue_not]
      exact gone.1.1.1
  | aliased inner name ih =>
      rw [isTrue_aliased]
      exact ih (by simpa only [dropped] using gone)

theorem spared_isTrue (marked : Marked) (let_through : marked.spared external row = true) :
    marked.isTrue external row = false := by
  induction marked with
  | kept leaf => simp [spared] at let_through
  | lost leaf => simpa [spared] using let_through
  | and left right =>
      simp only [spared, Bool.and_eq_true, Bool.not_eq_true'] at let_through
      rw [isTrue_and]
      exact let_through.1.1
  | or left right =>
      simp only [spared, Bool.and_eq_true, Bool.not_eq_true'] at let_through
      rw [isTrue_or, let_through.1.1, let_through.1.2]
      rfl
  | not inner =>
      simp only [spared, Bool.and_eq_true, Bool.not_eq_true'] at let_through
      rw [isTrue_not]
      exact let_through.1
  | aliased inner name ih =>
      rw [isTrue_aliased]
      exact ih (by simpa only [spared] using let_through)

theorem passed_eq (marked : Marked) :
    marked.passed external row =
      if marked.isTrue external row then !marked.dropped external row else marked.spared external row := by
  have untrue := spared_isTrue external row marked
  unfold passed
  revert untrue
  cases marked.isTrue external row <;> cases marked.spared external row <;> simp

theorem passed_and (left right : Marked) :
    (and left right).passed external row = (left.passed external row && right.passed external row) := by
  rw [passed_eq, passed_eq, passed_eq, isTrue_and, dropped, spared]
  have first := spared_isTrue external row left
  have second := spared_isTrue external row right
  revert first second
  cases left.isTrue external row <;> cases right.isTrue external row <;>
    cases left.spared external row <;> cases right.spared external row <;> simp

theorem passed_or (left right : Marked) :
    (or left right).passed external row = (left.passed external row || right.passed external row) := by
  rw [passed_eq, passed_eq, passed_eq, isTrue_or, dropped, spared]
  have first := spared_isTrue external row left
  have second := spared_isTrue external row right
  revert first second
  cases left.isTrue external row <;> cases right.isTrue external row <;>
    cases left.spared external row <;> cases right.spared external row <;> simp

theorem passed_not (inner : Marked) :
    (not inner).passed external row =
      (!(inner.pushed && inner.expr.listable) ||
        inner.expr.columnsKnown external row && !inner.passed external row) := by
  rw [passed_eq, passed_eq, isTrue_not, dropped, spared]
  have exclusive := @isTrue_of_isFalse external row inner
  have untrue := spared_isTrue external row inner
  revert exclusive untrue
  cases inner.isFalse external row <;> cases inner.isTrue external row <;>
    cases inner.spared external row <;> simp

theorem passed_aliased (inner : Marked) (name : String) :
    (aliased inner name).passed external row = inner.passed external row := by
  rw [passed, passed, isTrue_aliased, dropped, spared]

theorem passed_unpushed (marked : Marked) (unpushed : marked.pushed = false) : marked.passed external row = true := by
  induction marked with
  | kept leaf => cases unpushed
  | lost leaf =>
      rw [passed_eq, dropped, spared]
      cases (lost leaf).isTrue external row <;> rfl
  | and left right first second =>
      simp only [pushed, Bool.or_eq_false_iff] at unpushed
      rw [passed_and, first unpushed.1, second unpushed.2]
      rfl
  | or left right first second =>
      simp only [pushed, Bool.and_eq_false_iff] at unpushed
      rw [passed_or]
      rcases unpushed with left | right
      · rw [first left, Bool.true_or]
      · rw [second right, Bool.or_true]
  | not inner =>
      simp only [pushed] at unpushed
      rw [passed_not, unpushed]
      rfl
  | aliased inner name ih => rw [passed_aliased, ih (by simpa only [pushed] using unpushed)]

end

/-- Whether a `NOT` stands above a leaf. -/
def negates : Marked → Bool
  | kept _ | lost _ => false
  | and left right | or left right => left.negates || right.negates
  | not _ => true
  | aliased inner _ => inner.negates

/-- Lost conjuncts only widen a predicate without negations. -/
theorem dropped_positive (external : Expr → Row → Cell) (row : Row) {marked : Marked}
    (positive : marked.negates = false) : marked.dropped external row = false := by
  induction marked with
  | kept leaf | lost leaf => rw [dropped]
  | and left right first second =>
      simp only [negates, Bool.or_eq_false_iff] at positive
      rw [dropped, first positive.1, second positive.2, Bool.or_false, Bool.and_false]
  | or left right first second =>
      simp only [negates, Bool.or_eq_false_iff] at positive
      rw [dropped, first positive.1, second positive.2]
      cases left.isTrue external row <;> cases right.isTrue external row <;> simp
  | not inner => cases positive
  | aliased inner name ih => rw [dropped, ih (by simpa only [negates] using positive)]

/-- The marks are right: a kept leaf is a single predicate over an unflagged column that
translates, or a `LIKE` the server reads as SQL does on the sampled values; a lost one
mentions unflagged columns and does not translate. -/
inductive Fits (regex : RegexEngine) (text : BsonText) (external : Expr → Row → Cell) (docs : List Document)
    (maxDepth : Nat) : Marked → Prop
  | kept {leaf : Expr} (exactly : ExactLeaf (inferredSchema docs maxDepth) leaf)
      (translates : (translate (inferredSchema docs maxDepth) leaf).isSome = true) :
      Fits regex text external docs maxDepth (.kept leaf)
  | like {negated : Bool} {column literal : Expr} {escape : Option Char} {keys : List String} {field : Field}
      {pattern : String} (reads : ReadsPcre regex)
      (plainColumn : PlainColumn (inferredSchema docs maxDepth) column keys field) (typed : field.dataType = .utf8)
      (known : patternText literal = some pattern)
      (translates : (translate (inferredSchema docs maxDepth)
        (.like negated column literal escape false)).isSome = true)
      (evaluates : ∀ row, (Expr.like negated column literal escape false).truth external row =
        sqlLike negated pattern escape (column.eval external row))
      (kept : ∀ doc ∈ docs, ValueLikeKept text pattern escape (valueAt doc keys)) :
      Fits regex text external docs maxDepth (.kept (.like negated column literal escape false))
  | lost {leaf : Expr} (columns : PlainColumns (inferredSchema docs maxDepth) leaf)
      (none : translate (inferredSchema docs maxDepth) leaf = none) :
      Fits regex text external docs maxDepth (.lost leaf)
  | and {left right : Marked} (first : Fits regex text external docs maxDepth left)
      (second : Fits regex text external docs maxDepth right) :
      Fits regex text external docs maxDepth (.and left right)
  | or {left right : Marked} (first : Fits regex text external docs maxDepth left)
      (second : Fits regex text external docs maxDepth right) :
      Fits regex text external docs maxDepth (.or left right)
  | not {inner : Marked} (operand : Fits regex text external docs maxDepth inner) :
      Fits regex text external docs maxDepth (.not inner)
  | aliased {inner : Marked} (name : String) (operand : Fits regex text external docs maxDepth inner) :
      Fits regex text external docs maxDepth (.aliased inner name)

end Marked

theorem translate_and {schema : Schema} (left right : Expr) (regex : RegexEngine) (doc : Fields) :
    (translate schema (.binaryExpr left .and right)).map (fun t => accepts regex t.filter doc) =
      match (translate schema left).map (fun t => accepts regex t.filter doc),
        (translate schema right).map (fun t => accepts regex t.filter doc) with
      | some a, some b => some (a && b)
      | some a, none => some a
      | none, b => b := by
  simp only [translate]
  cases translate schema left <;> cases translate schema right <;> simp [Translated.withExactness]

namespace Marked

section
variable {docs : List Document} {maxDepth : Nat} {text : BsonText} {external : Expr → Row → Cell}
  {regex : RegexEngine} {doc : Document}

theorem Fits.columns {marked : Marked} (fits : marked.Fits regex text external docs maxDepth) :
    PlainColumns (inferredSchema docs maxDepth) marked.expr := by
  induction fits with
  | kept exactly _ => exact exactly.columns.2
  | like _ plainColumn =>
      have columns := plainColumn.plainColumns
      simpa only [PlainColumns, Marked.expr, Expr.columns] using columns
  | lost columns _ => exact columns
  | and _ _ first second | or _ _ first second =>
      simp only [Marked.expr, PlainColumns, Expr.columns, List.forall_mem_append]
      exact ⟨first, second⟩
  | not _ ih | aliased _ _ ih => simpa only [Marked.expr, PlainColumns, Expr.columns] using ih

/-- A kept leaf passes where it is TRUE. -/
theorem accepts_kept {leaf : Expr} (translates : (translate (inferredSchema docs maxDepth) leaf).isSome = true)
    (exactly : ∀ t, translate (inferredSchema docs maxDepth) leaf = some t →
      (accepts regex t.filter doc.fields = true ↔
        leaf.truth external (decodeRow text (inferredSchema docs maxDepth) doc) = some true)) :
    (translate (inferredSchema docs maxDepth) leaf).map (fun t => accepts regex t.filter doc.fields) =
      some ((Marked.kept leaf).passed external (decodeRow text (inferredSchema docs maxDepth) doc)) := by
  obtain ⟨t, translated⟩ := Option.isSome_iff_exists.mp translates
  have same := exactly t translated
  rw [translated, Option.map_some, Option.some.injEq, Bool.eq_iff_iff, same, passed_eq, dropped, spared]
  cases truth : (Marked.kept leaf).isTrue external (decodeRow text (inferredSchema docs maxDepth) doc) <;>
    simpa [isTrue, Marked.expr] using truth

/-- What is pushed of a predicate lets a sampled document through exactly when the two
polarities say so; where nothing is pushed, there is no filter. -/
theorem Fits.accepts (plain : ∀ doc ∈ docs, doc.keysAll plainKey = true) (member : doc ∈ docs) {marked : Marked}
    (fits : marked.Fits regex text external docs maxDepth) :
    (translate (inferredSchema docs maxDepth) marked.expr).map (fun t => Auger.accepts regex t.filter doc.fields) =
      if marked.pushed then
        some (marked.passed external (decodeRow text (inferredSchema docs maxDepth) doc))
      else none := by
  induction fits with
  | kept exactly translates =>
      exact accepts_kept translates fun t translated => exactly.exact text external plain member translated
  | like reads plainColumn typed known translates evaluates kept =>
      refine accepts_kept translates fun t translated => ?_
      rw [Marked.expr, evaluates]
      exact plainColumn.like_exact reads text external typed known translated plain member (kept doc member)
  | lost columns none => rw [Marked.expr, none, pushed, if_neg Bool.false_ne_true, Option.map_none]
  | @and left right _ _ first second =>
      have before := passed_unpushed external (decodeRow text (inferredSchema docs maxDepth) doc) left
      have after := passed_unpushed external (decodeRow text (inferredSchema docs maxDepth) doc) right
      rw [Marked.expr, translate_and, first, second, pushed, passed_and]
      cases one : left.pushed <;> cases two : right.pushed <;> simp_all
  | @or left right _ _ first second =>
      have joined : (translate (inferredSchema docs maxDepth) (Marked.or left right).expr).map
          (fun t => Auger.accepts regex t.filter doc.fields) =
          ((translate (inferredSchema docs maxDepth) left.expr).map
            (fun t => Auger.accepts regex t.filter doc.fields)).bind fun a =>
            ((translate (inferredSchema docs maxDepth) right.expr).map
              (fun t => Auger.accepts regex t.filter doc.fields)).map fun b => a || b := by
        simp only [Marked.expr, translate]
        cases translate (inferredSchema docs maxDepth) left.expr <;>
          cases translate (inferredSchema docs maxDepth) right.expr <;> simp
      rw [joined, first, second, pushed, passed_or]
      cases left.pushed <;> cases right.pushed <;> rfl
  | @not inner operand ih =>
      have guards := collectGuards_all text external regex plain member inner.expr operand.columns
      rw [pushed, passed_not]
      simp only [Marked.expr, translate]
      cases collected : collectGuards (inferredSchema docs maxDepth) inner.expr with
      | none =>
          cases listed : inner.expr.listable with
          | true => simp [collected, listed] at guards
          | false => cases translate (inferredSchema docs maxDepth) inner.expr <;> simp
      | some clauses =>
          cases listed : inner.expr.listable with
          | false => simp [collected, listed] at guards
          | true =>
              simp only [collected, listed, Option.map_some, cond_true, Option.some.injEq] at guards
              cases translated : translate (inferredSchema docs maxDepth) inner.expr with
              | none =>
                  rw [translated] at ih
                  cases sent : inner.pushed <;> simp_all
              | some t =>
                  rw [translated] at ih
                  cases sent : inner.pushed with
                  | false => simp [sent] at ih
                  | true =>
                      simp only [sent, if_true, Option.map_some, Option.some.injEq] at ih
                      simp [Auger.accepts, clauseAccepts, allAccept, anyAccepts, allAccept_documents, guards, ih,
                        Bool.and_comm]
  | @aliased inner name _ ih =>
      rw [pushed, passed_aliased, ← ih]
      simp only [Marked.expr, translate]

end

end Marked

/-- A partial translation keeps every row of a sample on which the predicate is TRUE if
and only if none of the sampled rows is dropped. -/
theorem partial_keeps_iff (regex : RegexEngine) (text : BsonText) (external : Expr → Row → Cell)
    (docs : List Document) (maxDepth : Nat) (marked : Marked) (t : Translated) (batch : RecordBatch)
    (plain : ∀ doc ∈ docs, doc.keysAll plainKey = true)
    (fits : marked.Fits regex text external docs maxDepth)
    (translated : translate (inferredSchema docs maxDepth) marked.expr = some t) (_inexact : t.exact = false)
    (decoded : documentsToBatch text (inferredSchema docs maxDepth) docs = .ok batch) :
    (∀ (i : Nat) (bound : i < docs.length), marked.expr.truth external (batch.row i) = some true →
        accepts regex t.filter docs[i].fields = true) ↔
      ∀ i < docs.length, marked.dropped external (batch.row i) = false := by
  refine forall_congr' fun i => forall_congr' fun bound => ?_
  have row := documentsToBatch_row text decoded i bound
  have filter := fits.accepts plain (List.getElem_mem bound)
  rw [translated, Option.map_some, ← row] at filter
  have passes : accepts regex t.filter docs[i].fields = marked.passed external (batch.row i) := by
    cases sent : marked.pushed with
    | false => simp [sent] at filter
    | true => simpa [sent] using filter
  have only := marked.dropped_isTrue external (batch.row i)
  rw [passes, Marked.passed_eq]
  constructor
  · intro keeps
    by_contra gone
    have dropped : marked.dropped external (batch.row i) = true := by simpa using gone
    have holds := only dropped
    have kept := keeps (by simpa [Marked.isTrue] using holds)
    simp [holds, dropped] at kept
  · intro present holds
    have isTrue : marked.isTrue external (batch.row i) = true := by simp [Marked.isTrue, holds]
    rw [isTrue, if_pos rfl, present]
    rfl

def sizeBelowItself : Expr := .binaryExpr (.column "size") .lt (.column "size")

/-- Only `size = 5` is pushed. -/
def neverBelowItself : Marked := .not (.and (.kept (sizeIs .eq 5)) (.lost sizeBelowItself))

theorem neverBelowItself_fits (regex : RegexEngine) (text : BsonText) (external : Expr → Row → Cell) :
    neverBelowItself.Fits regex text external shipments 4 := by
  obtain ⟨field, column, -⟩ := size_plain
  refine .not (.and (.kept (sizeIs_leaf .eq rfl 5) (by decide)) (.lost ?_ ?_))
  · simp only [PlainColumns, sizeBelowItself, Expr.columns, List.forall_mem_append]
    exact ⟨by simpa using ⟨_, _, column⟩, by simpa using ⟨_, _, column⟩⟩
  · exact Option.isNone_iff_eq_none.mp (by decide)

/-- The second shipment has size 5 and no size is below itself, so the predicate is
TRUE there; the server, left with `NOT size = 5`, rejects it. -/
theorem partial_loses_shipment :
    ¬ ∀ (regex : RegexEngine) (text : BsonText) (external : Expr → Row → Cell)
      (docs : List Document) (maxDepth : Nat) (marked : Marked) (t : Translated) (batch : RecordBatch),
      (∀ doc ∈ docs, doc.keysAll plainKey = true) →
      marked.Fits regex text external docs maxDepth →
      translate (inferredSchema docs maxDepth) marked.expr = some t → t.exact = false →
      documentsToBatch text (inferredSchema docs maxDepth) docs = .ok batch →
      ∀ (i : Nat) (bound : i < docs.length), marked.expr.truth external (batch.row i) = some true →
        accepts regex t.filter docs[i].fields = true := by
  intro claim
  have translates : (translate (inferredSchema shipments 4) neverBelowItself.expr).any
      (fun t => !t.exact && !accepts noRegex t.filter shipments[1].fields) = true := by decide +kernel
  obtain ⟨t, translated, both⟩ := (Option.any_eq_true _ _).mp translates
  simp only [Bool.and_eq_true, Bool.not_eq_true'] at both
  obtain ⟨batch, decoded⟩ : ∃ batch, documentsToBatch plainText (inferredSchema shipments 4) shipments =
      .ok batch := ok_of_isOk (by decide)
  have kept := claim noRegex plainText noExternal shipments 4 neverBelowItself t batch shipments_plain
    (neverBelowItself_fits _ _ _) translated both.1 decoded 1 (by decide)
  rw [documentsToBatch_row plainText decoded 1 (by decide), both.2] at kept
  exact Bool.noConfusion (kept (by decide))

/-- The same conjunction under no negation is pushed by half and loses nothing. -/
def atLeastFive : Marked := .and (.kept (sizeIs .gtEq 5)) (.not (.lost sizeBelowItself))

theorem atLeastFive_fits (regex : RegexEngine) (text : BsonText) (external : Expr → Row → Cell) :
    atLeastFive.Fits regex text external shipments 4 := by
  obtain ⟨field, column, -⟩ := size_plain
  refine .and (.kept (sizeIs_leaf .gtEq rfl 5) (by decide)) (.not (.lost ?_ ?_))
  · simp only [PlainColumns, sizeBelowItself, Expr.columns, List.forall_mem_append]
    exact ⟨by simpa using ⟨_, _, column⟩, by simpa using ⟨_, _, column⟩⟩
  · exact Option.isNone_iff_eq_none.mp (by decide)

theorem partial_keeps_iff_shipments :
    ∃ t batch, translate (inferredSchema shipments 4) atLeastFive.expr = some t ∧
      documentsToBatch plainText (inferredSchema shipments 4) shipments = .ok batch ∧
      ∀ (i : Nat) (bound : i < shipments.length), atLeastFive.expr.truth noExternal (batch.row i) = some true →
        accepts noRegex t.filter shipments[i].fields = true := by
  have translates : (translate (inferredSchema shipments 4) atLeastFive.expr).any (!·.exact) = true := by
    decide
  obtain ⟨t, translated, inexact⟩ := (Option.any_eq_true _ _).mp translates
  obtain ⟨batch, decoded⟩ : ∃ batch, documentsToBatch plainText (inferredSchema shipments 4) shipments =
      .ok batch := ok_of_isOk (by decide)
  refine ⟨t, batch, translated, decoded, (partial_keeps_iff noRegex plainText noExternal shipments 4
    atLeastFive t batch shipments_plain (atLeastFive_fits _ _ _) translated (by simpa using inexact) decoded).mpr ?_⟩
  intro i bound
  simp [atLeastFive, Marked.dropped, Marked.pushed]

end Auger
