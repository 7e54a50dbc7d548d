import Auger.Exactness

set_option autoImplicit false

/-! Negation: `$nor` with a guard for every column mentioned, and what that loses. -/

namespace Auger

open General

def Expr.columns : Expr → List Expr
  | .column name => [.column name]
  | .scalarFunction name args => [.scalarFunction name args]
  | .binaryExpr left _ right => left.columns ++ right.columns
  | .not inner | .isNull inner | .isNotNull inner | .isTrue inner | .isFalse inner
  | .isNotTrue inner | .isNotFalse inner => inner.columns
  | .between expr _ low high => expr.columns ++ low.columns ++ high.columns
  | .inList expr _ _ => expr.columns
  | .like _ expr _ _ _ => expr.columns
  | .alias expr _ => expr.columns
  | _ => []

/-- Whether every form in an expression is one whose columns can be listed. -/
def Expr.listable : Expr → Bool
  | .column _ | .scalarFunction _ _ | .literal _ => true
  | .binaryExpr left _ right => left.listable && right.listable
  | .not inner | .isNull inner | .isNotNull inner | .isTrue inner | .isFalse inner
  | .isNotTrue inner | .isNotFalse inner => inner.listable
  | .between expr _ low high => expr.listable && low.listable && high.listable
  | .inList expr _ _ => expr.listable
  | .like _ expr _ _ _ => expr.listable
  | .alias expr _ => expr.listable
  | _ => false

attribute [local simp] Expr.columns Expr.listable

/-- No column an expression mentions is NULL on the row. -/
def Expr.columnsKnown (external : Expr → Row → Cell) (row : Row) (expr : Expr) : Bool :=
  expr.columns.all fun column => !(column.eval external row).isNull

/-- Every column an expression mentions is an unflagged one of a comparable tag. -/
def PlainColumns (schema : Schema) (expr : Expr) : Prop :=
  ∀ column ∈ expr.columns, ∃ keys field, PlainColumn schema column keys field

theorem PlainColumn.columns {schema : Schema} {expr : Expr} {keys : List String} {field : Field}
    (column : PlainColumn schema expr keys field) :
    ∃ inner, expr.columns = [inner] ∧ PlainColumn schema inner keys field ∧
      ∀ external row, inner.eval external row = expr.eval external row := by
  obtain ⟨denotes, unmixed, tagged⟩ := column
  induction denotes with
  | root found => exact ⟨_, by simp only [Expr.columns], ⟨.root found, unmixed, tagged⟩, fun _ _ => rfl⟩
  | aliased name inner ih =>
      obtain ⟨column, only, plain, same⟩ := ih unmixed tagged
      exact ⟨column, by simpa only [Expr.columns], plain, fun external row => by
        simpa only [Expr.eval] using same external row⟩
  | child inner struct found ih =>
      exact ⟨_, by simp only [Expr.columns], ⟨.child inner struct found, unmixed, tagged⟩, fun _ _ => rfl⟩

theorem PlainColumn.listable {schema : Schema} {expr : Expr} {keys : List String} {field : Field}
    (column : PlainColumn schema expr keys field) : expr.listable = true := by
  obtain ⟨denotes, -, -⟩ := column
  induction denotes with
  | root | child => simp only [Expr.listable]
  | aliased _ _ ih => simpa only [Expr.listable] using ih

theorem PlainColumn.plainColumns {schema : Schema} {expr : Expr} {keys : List String} {field : Field}
    (column : PlainColumn schema expr keys field) : PlainColumns schema expr := by
  obtain ⟨inner, only, plain, -⟩ := column.columns
  intro mentioned member
  rw [only, List.mem_singleton] at member
  exact ⟨keys, field, member ▸ plain⟩

theorem PlainColumn.columnsKnown {schema : Schema} {expr : Expr} {keys : List String} {field : Field}
    (column : PlainColumn schema expr keys field) (external : Expr → Row → Cell) (row : Row) :
    expr.columnsKnown external row = !(expr.eval external row).isNull := by
  obtain ⟨inner, only, -, same⟩ := column.columns
  simp [Expr.columnsKnown, only, same]

theorem OwnLiteral.columns {field : Field} {expr : Expr} (own : OwnLiteral field expr) :
    expr.columns = [] ∧ expr.listable = true := by
  obtain ⟨scalar, rfl, -⟩ := own
  exact ⟨by simp only [Expr.columns], by simp only [Expr.listable]⟩

theorem ExactLeaf.columns {schema : Schema} {expr : Expr} (leaf : ExactLeaf schema expr) :
    expr.listable = true ∧ PlainColumns schema expr := by
  cases leaf with
  | compare op comparison column own =>
      simp only [Expr.listable, PlainColumns, Expr.columns, own.columns, column.listable, List.append_nil]
      exact ⟨rfl, column.plainColumns⟩
  | compareFlipped op comparison column own =>
      simp only [Expr.listable, PlainColumns, Expr.columns, own.columns, column.listable, List.nil_append]
      exact ⟨rfl, column.plainColumns⟩
  | between negated column lowOwn highOwn =>
      simp only [Expr.listable, PlainColumns, Expr.columns, lowOwn.columns, highOwn.columns,
        column.listable, List.append_nil]
      exact ⟨rfl, column.plainColumns⟩
  | bare column => exact ⟨column.listable, column.plainColumns⟩
  | inList negated column | isNull column | isNotNull column | isTrue column | isFalse column
  | isNotTrue column | isNotFalse column =>
      simp only [Expr.listable, PlainColumns, Expr.columns]
      exact ⟨column.listable, column.plainColumns⟩

theorem guards_append {test : Fields → Bool} {left right : Option (List Fields)}
    {listed listed' known known' : Bool}
    (first : left.map (fun guards => guards.all test) = bif listed then some known else none)
    (second : right.map (fun guards => guards.all test) = bif listed' then some known' else none) :
    (left.bind fun l => right.bind fun r => some (l ++ r)).map (fun guards => guards.all test) =
      bif listed && listed' then some (known && known') else none := by
  cases left <;> cases right <;> cases listed <;> cases listed' <;> simp_all

theorem forall₂_left {α β : Type} {f : α → Option β} {list : List α} {values : List β}
    (each : List.Forall₂ (fun a b => f a = some b) list values) : ∀ a ∈ list, ∃ b, f a = some b := by
  induction each with
  | nil => simp
  | @cons a b rest later here _ ih => exact List.forall_mem_cons.mpr ⟨⟨b, here⟩, ih⟩

theorem evalEquals_known {external : Expr → Row → Cell} {row : Row} {cell : Cell} {list : List Expr}
    (known : ∀ item ∈ list, sqlTest .eq cell (item.eval external row) ≠ none) :
    Kleene.disjList (evalEquals external row cell list) ≠ none := by
  induction list with
  | nil => simp [evalEquals]
  | cons item rest ih =>
      rw [List.forall_mem_cons] at known
      rw [evalEquals, Kleene.disjList_cons]
      exact Kleene.disj_known known.1 (ih known.2)

section
variable {docs : List Document} {maxDepth : Nat} (text : BsonText) (external : Expr → Row → Cell)
  (regex : RegexEngine) {doc : Document}
  (plain : ∀ doc ∈ docs, doc.keysAll plainKey = true) (member : doc ∈ docs)

include plain member

theorem columnGuard {expr : Expr} {keys : List String} {field : Field}
    (column : PlainColumn (inferredSchema docs maxDepth) expr keys field) :
    (collectGuards.guard (inferredSchema docs maxDepth) expr).map
        (fun guards => guards.all (accepts regex · doc.fields)) =
      some !(expr.eval external (decodeRow text (inferredSchema docs maxDepth) doc)).isNull := by
  obtain ⟨resolved, found, resolves⟩ := column.denotes.resolve
  have guard : accepts regex [(resolved.path, .document [("$ne", .null)])] doc.fields = _ :=
    (nullTest_exact text external plain member column resolves).2
  simp only [collectGuards.guard, found, Option.map_some, List.all_cons, List.all_nil, Bool.and_true,
    guard]

/-- The guards collected from an expression accept a document exactly when no
column it mentions is NULL there. -/
theorem collectGuards_all : (expr : Expr) → PlainColumns (inferredSchema docs maxDepth) expr →
    (collectGuards (inferredSchema docs maxDepth) expr).map
        (fun guards => guards.all (accepts regex · doc.fields)) =
      bif expr.listable then
        some (expr.columnsKnown external (decodeRow text (inferredSchema docs maxDepth) doc))
      else none
  | .column name, columns => by
      obtain ⟨keys, field, column⟩ := columns (.column name) (by simp [Expr.columns])
      simp only [collectGuards, Expr.listable, cond_true, Expr.columnsKnown, Expr.columns, List.all_cons,
        List.all_nil, Bool.and_true]
      exact columnGuard text external regex plain member column
  | .scalarFunction name args, columns => by
      obtain ⟨keys, field, column⟩ := columns (.scalarFunction name args) (by simp [Expr.columns])
      simp only [collectGuards, Expr.listable, cond_true, Expr.columnsKnown, Expr.columns, List.all_cons,
        List.all_nil, Bool.and_true]
      exact columnGuard text external regex plain member column
  | .literal value, _ => by
      simp [collectGuards, Expr.listable, Expr.columnsKnown, Expr.columns]
  | .binaryExpr left op right, columns => by
      simp only [PlainColumns, Expr.columns, List.forall_mem_append] at columns
      have first := collectGuards_all left columns.1
      have second := collectGuards_all right columns.2
      simp only [collectGuards, Expr.listable, Expr.columnsKnown, Expr.columns, List.all_append,
        Option.bind_eq_bind]
      exact guards_append first second
  | .between expr negated low high, columns => by
      simp only [PlainColumns, Expr.columns, List.forall_mem_append] at columns
      have first := collectGuards_all expr columns.1.1
      have second := collectGuards_all low columns.1.2
      have third := collectGuards_all high columns.2
      have both := guards_append (guards_append first second) third
      simpa only [collectGuards, Expr.listable, Expr.columnsKnown, Expr.columns, List.all_append,
        Option.bind_eq_bind, Option.bind_assoc, Option.bind_some] using both
  | .not inner, columns | .isNull inner, columns | .isNotNull inner, columns
  | .isTrue inner, columns | .isFalse inner, columns | .isNotTrue inner, columns
  | .isNotFalse inner, columns | .inList inner _ _, columns | .like _ inner _ _ _, columns
  | .alias inner _, columns => by
      simp only [PlainColumns, Expr.columns] at columns
      simpa only [collectGuards, Expr.listable, Expr.columnsKnown, Expr.columns] using
        collectGuards_all inner columns
  | .similarTo _ _ _ _, _ | .cast _ _, _ | .other _, _ => by
      simp [collectGuards, Expr.listable]

/-- A pushed `NOT` accepts what its operand's filter rejects, among the documents
where no column is NULL. -/
theorem not_accepts {inner : Expr} {t : Translated}
    (columns : PlainColumns (inferredSchema docs maxDepth) inner)
    (translated : translate (inferredSchema docs maxDepth) (.not inner) = some t) :
    ∃ u, translate (inferredSchema docs maxDepth) inner = some u ∧ t.exact = u.exact ∧
      accepts regex t.filter doc.fields = (!accepts regex u.filter doc.fields &&
        inner.columnsKnown external (decodeRow text (inferredSchema docs maxDepth) doc)) := by
  have all := collectGuards_all text external regex plain member inner columns
  simp only [translate, Option.bind_eq_bind, Option.bind_eq_some_iff, Option.some.injEq] at translated
  obtain ⟨u, operand, guards, collected, rfl⟩ := translated
  refine ⟨u, operand, rfl, ?_⟩
  rw [collected] at all
  cases listed : inner.listable with
  | false => simp [listed] at all
  | true =>
      simp only [listed, Option.map_some, cond_true, Option.some.injEq] at all
      simp [accepts, clauseAccepts, allAccept, anyAccepts, allAccept_documents, all]

/-- A comparison with a pushed literal is known where its column is. -/
theorem comparison_known (op : Operator) {left right : Expr} {keys : List String} {field : Field}
    {resolved : ColumnRef} {operand : Bson}
    (column : PlainColumn (inferredSchema docs maxDepth) left keys field)
    (resolves : Resolves keys field resolved) (own : OwnLiteral field right)
    (emitted : literalOf right resolved = some operand)
    (known : left.columnsKnown external (decodeRow text (inferredSchema docs maxDepth) doc) = true) :
    sqlTest op (left.eval external (decodeRow text (inferredSchema docs maxDepth) doc))
      (right.eval external (decodeRow text (inferredSchema docs maxDepth) doc)) ≠ none := by
  obtain ⟨candidate, reached, stored⟩ := column.stored text external plain member
  have mirrors := stored.mirrors (column.operand resolves own emitted external
    (decodeRow text (inferredSchema docs maxDepth) doc))
  rw [column.columnsKnown] at known
  have absent := mirrors.absent
  rw [stored.isNull] at absent
  rw [absent] at known
  simp only [sqlTest, ne_eq, Option.map_eq_none_iff]
  intro nothing
  rw [nothing] at known
  cases known

theorem boolean_known {expr : Expr} {keys : List String} {field : Field} {resolved : ColumnRef}
    (column : PlainColumn (inferredSchema docs maxDepth) expr keys field)
    (resolves : Resolves keys field resolved) (typed : requireBool resolved = some ())
    (known : expr.columnsKnown external (decodeRow text (inferredSchema docs maxDepth) doc) = true) :
    expr.truth external (decodeRow text (inferredSchema docs maxDepth) doc) ≠ none := by
  obtain ⟨candidate, reached, stored⟩ := column.boolean text external plain member resolves typed
  rw [column.columnsKnown] at known
  simp only [Expr.truth]
  generalize expr.eval external (decodeRow text (inferredSchema docs maxDepth) doc) = cell at stored known ⊢
  cases stored with
  | null => cases known
  | bool b => simp [Cell.truth]

theorem ExactLeaf.known {expr : Expr} {t : Translated}
    (leaf : ExactLeaf (inferredSchema docs maxDepth) expr)
    (translated : translate (inferredSchema docs maxDepth) expr = some t)
    (known : expr.columnsKnown external (decodeRow text (inferredSchema docs maxDepth) doc) = true) :
    expr.truth external (decodeRow text (inferredSchema docs maxDepth) doc) ≠ none := by
  cases leaf with
  | compare op comparison column own =>
      obtain ⟨resolved, found, resolves⟩ := column.denotes.resolve
      rw [translate_comparison comparison, column.denotes.not_literal, own.isLiteral] at translated
      simp only [translateComparison, found, Option.bind_eq_bind, Option.bind_some,
        Option.bind_eq_some_iff] at translated
      obtain ⟨operand, emitted, -⟩ := translated
      simp only [Expr.columnsKnown, Expr.columns, own.columns, List.append_nil] at known
      rw [truth_comparison external comparison]
      exact comparison_known text external plain member _ column resolves own emitted known
  | compareFlipped op comparison column own =>
      obtain ⟨resolved, found, resolves⟩ := column.denotes.resolve
      rw [translate_comparison comparison, column.denotes.not_literal, own.isLiteral] at translated
      simp only [translateComparison, found, Option.bind_eq_bind, Option.bind_some,
        Option.bind_eq_some_iff] at translated
      obtain ⟨operand, emitted, -⟩ := translated
      simp only [Expr.columnsKnown, Expr.columns, own.columns, List.nil_append] at known
      rw [truth_comparison external comparison, ← sqlTest_flip]
      exact comparison_known text external plain member _ column resolves own emitted known
  | between negated column lowOwn highOwn =>
      obtain ⟨resolved, found, resolves⟩ := column.denotes.resolve
      simp only [translate, found, Option.bind_eq_bind, Option.bind_some,
        Option.bind_eq_some_iff] at translated
      obtain ⟨lo, lowEmitted, hi, highEmitted, -⟩ := translated
      simp only [Expr.columnsKnown, Expr.columns, lowOwn.columns, highOwn.columns, List.append_nil] at known
      have inside := Kleene.conj_known
        (comparison_known text external plain member .gtEq column resolves lowOwn lowEmitted known)
        (comparison_known text external plain member .ltEq column resolves highOwn highEmitted known)
      simp only [Expr.truth, Expr.eval, Cell.truth_ofTruth]
      cases negated with
      | false => exact inside
      | true => simpa using inside
  | inList negated column nonempty own =>
      obtain ⟨resolved, found, resolves⟩ := column.denotes.resolve
      simp only [translate, found, Option.bind_eq_bind, Option.bind_some,
        Option.bind_eq_some_iff] at translated
      obtain ⟨values, emitted, -⟩ := translated
      simp only [Expr.columnsKnown, Expr.columns] at known
      have found := evalEquals_known fun item inside => by
        obtain ⟨operand, itemEmitted⟩ := forall₂_left (mapM_forall₂ emitted) item inside
        exact comparison_known text external plain member .eq column resolves (own item inside)
          itemEmitted known
      simp only [Expr.truth, Expr.eval, Cell.truth_ofTruth]
      cases negated with
      | false => exact found
      | true => simpa using found
  | isNull column | isNotNull column | isTrue column | isFalse column | isNotTrue column
  | isNotFalse column => simp [Expr.truth, Expr.eval, Cell.truth]
  | @bare _ keys field column =>
      obtain ⟨denotes, unmixed, tagged⟩ := column
      induction denotes with
      | @root name field found =>
          have column : PlainColumn (inferredSchema docs maxDepth) (.column name) [name] field :=
            ⟨.root found, unmixed, tagged⟩
          obtain ⟨resolved, known', resolves⟩ := column.denotes.resolve
          simp only [translate, boolTest, known', Option.bind_eq_bind, Option.bind_some,
            Option.bind_eq_some_iff] at translated
          obtain ⟨⟨⟩, typed, -⟩ := translated
          exact boolean_known text external plain member column resolves typed known
      | aliased name inner ih =>
          simp only [translate] at translated
          simp only [Expr.columnsKnown, Expr.columns] at known
          simpa only [truth_alias] using ih translated known unmixed tagged
      | child inner struct found ih => simp [translate] at translated

omit plain member in
theorem NegationFree.columns {expr : Expr} {schema : Schema} (fragment : NegationFree schema expr) :
    PlainColumns schema expr := by
  induction fragment with
  | leaf leaf => exact leaf.columns.2
  | and _ _ first second | or _ _ first second =>
      simp only [PlainColumns, Expr.columns, List.forall_mem_append]
      exact ⟨first, second⟩
  | aliased _ _ ih => simpa only [PlainColumns, Expr.columns] using ih

theorem NegationFree.known {expr : Expr} {t : Translated}
    (fragment : NegationFree (inferredSchema docs maxDepth) expr)
    (translated : translate (inferredSchema docs maxDepth) expr = some t) (exact : t.exact = true)
    (known : expr.columnsKnown external (decodeRow text (inferredSchema docs maxDepth) doc) = true) :
    expr.truth external (decodeRow text (inferredSchema docs maxDepth) doc) ≠ none := by
  induction fragment generalizing t with
  | leaf leaf => exact leaf.known text external plain member translated known
  | and _ _ first second =>
      obtain ⟨a, b, left, right, leftExact, rightExact, -⟩ := translate_and_exact translated exact
      simp only [Expr.columnsKnown, Expr.columns, List.all_append, Bool.and_eq_true] at known
      rw [truth_and]
      exact Kleene.conj_known (first left leftExact known.1) (second right rightExact known.2)
  | or _ _ first second =>
      obtain ⟨a, b, left, right, both, -⟩ := translate_or translated
      rw [exact, eq_comm, Bool.and_eq_true] at both
      simp only [Expr.columnsKnown, Expr.columns, List.all_append, Bool.and_eq_true] at known
      rw [truth_or]
      exact Kleene.disj_known (first left both.1 known.1) (second right both.2 known.2)
  | aliased name _ ih =>
      simp only [translate] at translated
      rw [truth_alias]
      exact ih translated exact known

/-- What a pushed `NOT` accepts: the documents on which its operand is FALSE and
no column it mentions is NULL. -/
theorem NegationFree.not_exact {expr : Expr} {t : Translated}
    (fragment : NegationFree (inferredSchema docs maxDepth) expr)
    (translated : translate (inferredSchema docs maxDepth) (.not expr) = some t) (exact : t.exact = true) :
    accepts regex t.filter doc.fields = true ↔
      expr.truth external (decodeRow text (inferredSchema docs maxDepth) doc) = some false ∧
        expr.columnsKnown external (decodeRow text (inferredSchema docs maxDepth) doc) = true := by
  obtain ⟨u, operand, sameExact, filter⟩ :=
    not_accepts text external regex plain member fragment.columns translated
  rw [exact] at sameExact
  have inner : accepts regex u.filter doc.fields = true ↔ _ :=
    fragment.exact text external plain member operand sameExact.symm
  have known := fragment.known text external plain member operand sameExact.symm
  rw [filter, Bool.and_eq_true, Bool.not_eq_true', ← Bool.not_eq_true, inner]
  refine and_congr_left fun columnsKnown => ?_
  have someTruth := known columnsKnown
  generalize expr.truth external (decodeRow text (inferredSchema docs maxDepth) doc) = truth at someTruth
  rcases truth with _ | _ | _ <;> simp_all

end

/-- The pushdown of `NOT e` is exact on a sample if and only if no document of it
makes `e` FALSE while a column `e` mentions is NULL. -/
theorem negation_exact_iff (regex : RegexEngine) (text : BsonText) (external : Expr → Row → Cell)
    (docs : List Document) (maxDepth : Nat) (expr : Expr) (t : Translated) (batch : RecordBatch)
    (plain : ∀ doc ∈ docs, doc.keysAll plainKey = true)
    (fragment : NegationFree (inferredSchema docs maxDepth) expr)
    (translated : translate (inferredSchema docs maxDepth) (.not expr) = some t)
    (exact : t.exact = true)
    (decoded : documentsToBatch text (inferredSchema docs maxDepth) docs = .ok batch) :
    (∀ (i : Nat) (bound : i < docs.length), accepts regex t.filter docs[i].fields = true ↔
        expr.truth external (batch.row i) = some false) ↔
      ∀ (i : Nat) (_ : i < docs.length), expr.truth external (batch.row i) = some false →
        ∀ column ∈ expr.columns, (column.eval external (batch.row i)).isNull = false := by
  refine forall_congr' fun i => forall_congr' fun bound => ?_
  rw [documentsToBatch_row text decoded i bound,
    fragment.not_exact text external regex plain (List.getElem_mem bound) translated exact]
  simp only [Expr.columnsKnown, List.all_eq_true, Bool.not_eq_true']
  exact ⟨fun same no => (same.mpr no).2, fun guarded => ⟨And.left, fun no => ⟨no, guarded no⟩⟩⟩

def bothSet : Expr := .binaryExpr (sizeIs .eq 1) .and (.column "late")

/-- The second shipment has size 5, so `size = 1 AND late` is FALSE there whatever
`late` is; the guard on `late` drops it all the same. -/
theorem negation_loses_shipment :
    ¬ ∀ (regex : RegexEngine) (text : BsonText) (external : Expr → Row → Cell)
      (docs : List Document) (maxDepth : Nat) (expr : Expr) (t : Translated) (batch : RecordBatch),
      (∀ doc ∈ docs, doc.keysAll plainKey = true) →
      NegationFree (inferredSchema docs maxDepth) expr →
      translate (inferredSchema docs maxDepth) (.not expr) = some t → t.exact = true →
      documentsToBatch text (inferredSchema docs maxDepth) docs = .ok batch →
      ∀ (i : Nat) (bound : i < docs.length), accepts regex t.filter docs[i].fields = true ↔
        expr.truth external (batch.row i) = some false := by
  intro claim
  have translates : (translate (inferredSchema shipments 4) (.not bothSet)).any
      (fun t => t.exact && !accepts noRegex t.filter shipments[1].fields) = true := by decide +kernel
  obtain ⟨t, translated, both⟩ := (Option.any_eq_true _ _).mp translates
  simp only [Bool.and_eq_true, Bool.not_eq_true'] at both
  obtain ⟨batch, decoded⟩ : ∃ batch, documentsToBatch plainText (inferredSchema shipments 4) shipments =
      .ok batch := ok_of_isOk (by decide)
  have same := claim noRegex plainText noExternal shipments 4 bothSet t batch shipments_plain
    (.and (.leaf (sizeIs_leaf .eq rfl 1)) (.leaf late_leaf)) translated both.1 decoded 1 (by decide)
  rw [documentsToBatch_row plainText decoded 1 (by decide), both.2] at same
  have isFalse : bothSet.truth noExternal
      (decodeRow plainText (inferredSchema shipments 4) shipments[1]) = some false := by decide
  exact Bool.noConfusion (same.mpr isFalse)

theorem negation_exact_iff_shipments :
    ∃ t batch, translate (inferredSchema shipments 4) (.not (sizeIs .eq 1)) = some t ∧
      documentsToBatch plainText (inferredSchema shipments 4) shipments = .ok batch ∧
      ((∀ (i : Nat) (bound : i < shipments.length), accepts noRegex t.filter shipments[i].fields = true ↔
          (sizeIs .eq 1).truth noExternal (batch.row i) = some false) ↔
        ∀ (i : Nat) (_ : i < shipments.length),
          (sizeIs .eq 1).truth noExternal (batch.row i) = some false →
          ∀ column ∈ (sizeIs .eq 1).columns, (column.eval noExternal (batch.row i)).isNull = false) := by
  have translates : (translate (inferredSchema shipments 4) (.not (sizeIs .eq 1))).any (·.exact) = true := by
    decide
  obtain ⟨t, translated, exact⟩ := (Option.any_eq_true _ _).mp translates
  obtain ⟨batch, decoded⟩ : ∃ batch, documentsToBatch plainText (inferredSchema shipments 4) shipments =
      .ok batch := ok_of_isOk (by decide)
  exact ⟨t, batch, translated, decoded, negation_exact_iff noRegex plainText noExternal shipments 4
    (sizeIs .eq 1) t batch shipments_plain (.leaf (sizeIs_leaf .eq rfl 1)) translated exact decoded⟩

end Auger
