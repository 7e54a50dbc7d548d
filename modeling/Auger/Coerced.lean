import Auger.Exactness

set_option autoImplicit false

/-! Filters on columns coerced to text: what the server finds of a row the SQL
predicate keeps. -/

namespace Auger

open General

namespace Shape

def Coerced : Shape → Prop
  | .utf8 | .json => True
  | .array inner => inner.Coerced
  | _ => False

mutual
/-- Every flag raised inside the shape stands on a coerced slot. -/
def FlagsCoerced : Shape → Prop
  | .document fields => fieldsCoerced fields
  | .array inner => inner.FlagsCoerced
  | _ => True
def fieldsCoerced : List (String × FieldShapeOf Shape) → Prop
  | [] => True
  | (_, fs) :: rest =>
      ((fs.mixed = true → fs.shape.Coerced) ∧ fs.shape.FlagsCoerced) ∧ fieldsCoerced rest
end

end Shape

/-- A slot whose flags, its own included, stand on coerced shapes. -/
def FieldShapeOf.FlagsCoerced (fs : FieldShape) : Prop :=
  (fs.mixed = true → fs.shape.Coerced) ∧ fs.shape.FlagsCoerced

theorem Shape.fieldsCoerced_iff (fields : List (String × FieldShape)) :
    Shape.fieldsCoerced fields ↔ ∀ entry ∈ fields, entry.2.FlagsCoerced := by
  induction fields with
  | nil => simp [Shape.fieldsCoerced]
  | cons entry rest ih =>
      simp only [Shape.fieldsCoerced, ih, List.forall_mem_cons, FieldShapeOf.FlagsCoerced]

theorem Shape.FlagsCoerced.child {fields : List (String × FieldShape)}
    (coerced : Shape.FlagsCoerced (.document fields)) {key : String} {fs : FieldShape}
    (found : fields.lookup key = some fs) : fs.FlagsCoerced :=
  (Shape.fieldsCoerced_iff fields).mp coerced _ (SortedMap.mem_of_lookup found)

theorem Shape.Widens.not_coerced {a b : Shape} (widens : Shape.Widens a b) :
    ¬ a.Coerced ∧ ¬ b.Coerced := by
  cases widens <;> simp [Shape.Coerced]

theorem Unified.coerced {a b c : Shape} {m m' : Bool} (joined : Unified a b m c m')
    (first : a.FlagsCoerced) (second : b.FlagsCoerced) (flag : m = true → a.Coerced ∨ b.Coerced) :
    (m' = true → c.Coerced) ∧ c.FlagsCoerced := by
  induction joined with
  | same a m => exact ⟨fun raised => (flag raised).elim id id, first⟩
  | bottomLeft b m => exact ⟨fun raised => (flag raised).elim False.elim id, second⟩
  | bottomRight a m => exact ⟨fun raised => (flag raised).elim id False.elim, first⟩
  | widenRight m widens =>
      exact ⟨fun raised => (flag raised).elim (fun c => absurd c widens.not_coerced.1) id, second⟩
  | widenLeft m widens =>
      exact ⟨fun raised => (flag raised).elim id fun c => absurd c widens.not_coerced.1, first⟩
  | textRight | textLeft | conflict => exact ⟨fun _ => trivial, trivial⟩
  | arrays _ ih => exact ih first second flag
  | absorbRight _ _ ih => exact ih first second flag
  | absorbLeft _ _ ih => exact ih second first fun raised => (flag raised).symm
  | @documents left right out m joined each ordered entries ih =>
      refine ⟨fun raised => (flag raised).elim False.elim False.elim, ?_⟩
      refine (Shape.fieldsCoerced_iff out).mpr ?_
      rintro ⟨key, fs⟩ member
      have found := SortedMap.lookup_of_mem ordered member
      rw [entries key] at found
      cases hl : left.lookup key with
      | none =>
          rw [hl] at found
          exact second.child found
      | some lv =>
          cases hr : right.lookup key with
          | none =>
              rw [hl, hr] at found
              cases found
              exact first.child hl
          | some rv =>
              rw [hl, hr] at found
              cases found
              have fromLeft := first.child hl
              have fromRight := second.child hr
              refine ih key lv rv hl hr fromLeft.2 fromRight.2 fun raised => ?_
              exact (Bool.or_eq_true_iff.mp raised).imp fromLeft.1 fromRight.1

theorem observeShape_coerced {slot : FieldShape} {isNull : Bool} {shape : Shape}
    (orderedSlot : slot.shape.WellOrdered) (orderedShape : shape.WellOrdered)
    (first : slot.FlagsCoerced) (second : shape.FlagsCoerced) :
    (observeShape slot isNull shape).FlagsCoerced := by
  unfold observeShape
  split
  · exact first
  · exact (unify_spec _ _ _ orderedSlot orderedShape).coerced first.2 second
      fun raised => Or.inl (first.1 raised)

theorem emptySlot_coerced : FieldShapeOf.empty.FlagsCoerced :=
  ⟨fun raised => Bool.noConfusion raised, trivial⟩

mutual
theorem shapeOf_coerced (value : Bson) : (shapeOf value).FlagsCoerced := by
  cases value with
  | document fields =>
      simp only [shapeOf]
      exact shapeOfFields_coerced fields [] trivial
  | array items =>
      simp only [shapeOf]
      exact shapeOfItems_coerced items .unknown false trivial trivial fun raised => Bool.noConfusion raised
  | _ => trivial
theorem shapeOfFields_coerced (entries : List (String × Bson))
    (fields : List (String × FieldShapeOf Shape)) (inner : Shape.fieldsCoerced fields) :
    Shape.fieldsCoerced (shapeOfFields entries fields) := by
  cases entries with
  | nil => exact inner
  | cons entry rest =>
      rcases entry with ⟨key, value⟩
      apply shapeOfFields_coerced rest
      rw [Shape.fieldsCoerced_iff] at inner ⊢
      intro entry member
      rcases SortedMap.mem_insert member with rfl | old
      · have base : FieldShapeOf.empty.shape.WellOrdered := trivial
        exact observeShape_coerced base (shapeOf_wellOrdered value) emptySlot_coerced (shapeOf_coerced value)
      · exact inner entry old
theorem shapeOfItems_coerced (items : List Bson) (elem : Shape) (mixed : Bool)
    (ordered : elem.WellOrdered) (inner : elem.FlagsCoerced) (flag : mixed = true → elem.Coerced) :
    (shapeOfItems items elem mixed).FlagsCoerced := by
  cases items with
  | nil => exact inner
  | cons item rest =>
      have itemOrdered := shapeOf_wellOrdered item
      have step := unify_spec elem (shapeOf item) mixed ordered itemOrdered
      have kept := step.coerced inner (shapeOf_coerced item) fun raised => Or.inl (flag raised)
      exact shapeOfItems_coerced rest _ _ (step.wellOrdered ordered itemOrdered) kept.2 kept.1
end

theorem observeAll_coerced {docs : List Document} {key : String} {fs : FieldShape}
    (found : (Sampler.observeAll docs).root.lookup key = some fs) : fs.FlagsCoerced := by
  refine observeAll_kept (motive := fun _ slot => slot.FlagsCoerced) emptySlot_coerced ?_ found
  intro _ slot value _ ordered coerced
  exact observeShape_coerced ordered (shapeOf_wellOrdered value) coerced (shapeOf_coerced value)

theorem SlotAt.coerced {docs : List Document} {keys : List String} {fs : FieldShape}
    (slot : SlotAt (Sampler.observeAll docs).root keys fs) : fs.FlagsCoerced := by
  induction slot with
  | root found => exact observeAll_coerced found
  | child _ document found ih =>
      have inner := ih.2
      rw [document] at inner
      exact inner.child found

/-- A single comparison, range or list, over string literals. -/
inductive TextPredicate
  | compare (op : Operator) (comparison : op.isComparison = true) (literal : String)
  | compareFlipped (op : Operator) (comparison : op.isComparison = true) (literal : String)
  | between (negated : Bool) (low high : String)
  | inList (negated : Bool) (literals : List String)

def textLiteral (s : String) : Expr := .literal (.utf8 (some s))

def TextPredicate.toExpr (column : Expr) : TextPredicate → Expr
  | .compare op _ literal => .binaryExpr column op (textLiteral literal)
  | .compareFlipped op _ literal => .binaryExpr (textLiteral literal) op column
  | .between negated low high => .between column negated (textLiteral low) (textLiteral high)
  | .inList negated literals => .inList column (literals.map textLiteral) negated

/-- The text a stored string or symbol compares by. -/
def Bson.storedText : Bson → Option String
  | .string s | .symbol s => some s
  | _ => none

/-- A stored string that satisfies `s op literal`; no other value does. -/
def textTest (op : Operator) (literal : String) (v : Bson) : Bool :=
  v.storedText.any fun s => op.holds (cmp (textBytes s) (textBytes literal))

/-- `column op literal` over the values standing at the column's path. -/
def comparisonFound (op : Operator) (literal : String) (standing : List Bson) : Bool :=
  if op = .notEq then !standing.any (textTest .eq literal) && !standing.any Bson.isNull
  else standing.any (textTest op literal)

/-- Whether the values standing at a path hold what the predicate asks for: a
string that satisfies it, or, where it is negated, neither a null nor a string it
excludes. -/
def TextPredicate.found (standing : List Bson) : TextPredicate → Bool
  | .compare op _ literal => comparisonFound op literal standing
  | .compareFlipped op _ literal => comparisonFound (flip op) literal standing
  | .between false low high =>
      standing.any (textTest .gtEq low) && standing.any (textTest .ltEq high)
  | .between true low high =>
      (standing.any (textTest .lt low) || standing.any (textTest .gt high)) && !standing.any Bson.isNull
  | .inList false literals => literals.any fun literal => standing.any (textTest .eq literal)
  | .inList true literals =>
      !(literals.any fun literal => standing.any (textTest .eq literal)) && !standing.any Bson.isNull

theorem text_tests (literal : String) (v : Bson) :
    equalTo (.string literal) v = textTest .eq literal v ∧
      belowOperand (.string literal) v = textTest .lt literal v ∧
      aboveOperand (.string literal) v = textTest .gt literal v := by
  have stored : ∀ s, v.storedText = some s → Stored .string v (.text s) := by
    intro s known
    cases v <;> simp only [Bson.storedText, reduceCtorEq, Option.some.injEq] at known
    · exact known ▸ .string _
    · exact known ▸ .symbol _
  cases known : v.storedText with
  | some s =>
      have mirrors := (stored s known).mirrors (.string literal)
      rw [mirrors.equal, mirrors.below, mirrors.above]
      simp only [textTest, known, Option.any_some, sqlCompare]
      generalize cmp (textBytes s) (textBytes literal) = order
      cases order <;> simp [Operator.holds]
  | none =>
      have differ : v.typeClass ≠ (Bson.string literal).typeClass := by
        cases v <;> first | (simp [Bson.storedText] at known; done) | simp [Bson.typeClass]
      have unequal : equalTo (.string literal) v = false :=
        Bool.eq_false_iff.mpr fun equal => differ (equalTo_class equal)
      simp [textTest, known, unequal, belowOperand, aboveOperand, matchClass_eq_iff, differ]

theorem textTest_ltEq (literal : String) (v : Bson) :
    (textTest .eq literal v || textTest .lt literal v) = textTest .ltEq literal v := by
  unfold textTest
  cases v.storedText with
  | none => rfl
  | some s =>
      simp only [Option.any_some]
      generalize cmp (textBytes s) (textBytes literal) = order
      cases order <;> rfl

theorem textTest_gtEq (literal : String) (v : Bson) :
    (textTest .eq literal v || textTest .gt literal v) = textTest .gtEq literal v := by
  unfold textTest
  cases v.storedText with
  | none => rfl
  | some s =>
      simp only [Option.any_some]
      generalize cmp (textBytes s) (textBytes literal) = order
      cases order <;> rfl

theorem comparisonAccepts_text {op : Operator} {mongoOp : String}
    (named : mongoOperator op = some mongoOp) (literal : String) (standing : List Bson) :
    comparisonAccepts mongoOp (.string literal) standing =
      if op = .notEq then !standing.any (textTest .eq literal) else standing.any (textTest op literal) := by
  have equal : equalTo (.string literal) = textTest .eq literal := funext fun v => (text_tests literal v).1
  have below : belowOperand (.string literal) = textTest .lt literal :=
    funext fun v => (text_tests literal v).2.1
  have above : aboveOperand (.string literal) = textTest .gt literal :=
    funext fun v => (text_tests literal v).2.2
  cases op <;> simp only [mongoOperator, reduceCtorEq, Option.some.injEq] at named <;> subst named <;>
    simp [comparisonAccepts, equal, below, above, textTest_ltEq, textTest_gtEq]

section
variable {docs : List Document} {maxDepth : Nat}

/-- A column inference coerced to text. -/
structure CoercedColumn (schema : Schema) (expr : Expr) (keys : List String) (field : Field) : Prop where
  denotes : Denotes schema expr keys field
  mixed : fieldIsMixed field = true
  utf8 : field.dataType = .utf8

/-- Its literals stay strings: a flagged column is never tagged as object ids. -/
theorem CoercedColumn.literalOf {expr : Expr} {keys : List String} {field : Field} {resolved : ColumnRef}
    (column : CoercedColumn (inferredSchema docs maxDepth) expr keys field)
    (resolves : Resolves keys field resolved) (s : String) :
    Auger.literalOf (textLiteral s) resolved = some (.string s) := by
  obtain ⟨fs, slot, name, total, depth, rfl⟩ := column.denotes.slot
  have coerced := slot.coerced.1 (by simpa using column.mixed)
  have utf8 := column.utf8
  have tag := resolves.tag
  rw [tag_fieldAround] at tag
  have notObjectId : resolved.tag ≠ .objectId := by
    rw [tag]
    cases hs : fs.shape <;> simp_all [Shape.Coerced, arrowType]
    split_ifs <;> simp
  simp [Auger.literalOf, textLiteral, scalarToBson, notObjectId]

theorem CoercedColumn.literalsOf {expr : Expr} {keys : List String} {field : Field} {resolved : ColumnRef}
    (column : CoercedColumn (inferredSchema docs maxDepth) expr keys field)
    (resolves : Resolves keys field resolved) (literals : List String) :
    (literals.map textLiteral).mapM (fun item => Auger.literalOf item resolved) =
      some (literals.map .string) := by
  induction literals with
  | nil => rfl
  | cons literal rest ih =>
      rw [List.map_cons, List.mapM_cons, column.literalOf resolves, ih]
      rfl

theorem comparison_accepts_text {expr : Expr} {keys : List String} {field : Field} {op : Operator}
    {literal : String} {t : Translated}
    (column : CoercedColumn (inferredSchema docs maxDepth) expr keys field)
    (translated : translateComparison (inferredSchema docs maxDepth) expr op (textLiteral literal) = some t)
    (regex : RegexEngine) (doc : Fields) :
    accepts regex t.filter doc =
      (!startsWithDollar (dotted keys) && comparisonFound op literal (reachPath doc (dotted keys))) := by
  obtain ⟨resolved, found, resolves⟩ := column.denotes.resolve
  simp only [translateComparison, found, column.literalOf resolves, Option.bind_eq_bind, Option.bind_some,
    Option.bind_eq_some_iff, Option.some.injEq] at translated
  obtain ⟨mongoOp, named, rfl⟩ := translated
  have comparison : mongoOp ∈ ["$eq", "$ne", "$lt", "$lte", "$gt", "$gte"] := by
    cases op <;> simp only [mongoOperator, reduceCtorEq, Option.some.injEq] at named <;>
      subst named <;> simp
  rw [resolves.path]
  cases dollar : startsWithDollar (dotted keys) with
  | true =>
      by_cases negated : op = .notEq
      · simp only [if_pos negated, excludeNull, accepts_and, accepts_dollar regex dollar]
        rfl
      · simp only [if_neg negated, accepts_dollar regex dollar]
        rfl
  | false =>
      by_cases negated : op = .notEq
      · simp [negated, accepts_excludeNull regex dollar, accepts_comparison regex dollar comparison,
          comparisonAccepts_text named, comparisonFound]
      · simp [negated, accepts_comparison regex dollar comparison, comparisonAccepts_text named,
          comparisonFound]

theorem CoercedColumn.accepts {expr : Expr} {keys : List String} {field : Field} {predicate : TextPredicate}
    {t : Translated} (column : CoercedColumn (inferredSchema docs maxDepth) expr keys field)
    (translated : translate (inferredSchema docs maxDepth) (predicate.toExpr expr) = some t)
    (regex : RegexEngine) (doc : Fields) :
    Auger.accepts regex t.filter doc =
      (!startsWithDollar (dotted keys) && predicate.found (reachPath doc (dotted keys))) := by
  cases predicate with
  | compare op comparison literal =>
      simp only [TextPredicate.toExpr] at translated
      rw [translate_comparison comparison, column.denotes.not_literal] at translated
      exact comparison_accepts_text column translated regex doc
  | compareFlipped op comparison literal =>
      simp only [TextPredicate.toExpr] at translated
      rw [translate_comparison comparison, column.denotes.not_literal] at translated
      exact comparison_accepts_text column translated regex doc
  | between negated low high =>
      obtain ⟨resolved, found, resolves⟩ := column.denotes.resolve
      simp only [TextPredicate.toExpr, translate, found, column.literalOf resolves, Option.bind_eq_bind,
        Option.bind_some, Option.some.injEq] at translated
      subst translated
      rw [resolves.path]
      have lower := comparisonAccepts_text (show mongoOperator .lt = some "$lt" from rfl) low
      have upper := comparisonAccepts_text (show mongoOperator .gt = some "$gt" from rfl) high
      have atLeast := comparisonAccepts_text (show mongoOperator .gtEq = some "$gte" from rfl) low
      have atMost := comparisonAccepts_text (show mongoOperator .ltEq = some "$lte" from rfl) high
      cases dollar : startsWithDollar (dotted keys) <;> cases negated
      · simp [accepts_range regex dollar, atLeast, atMost, TextPredicate.found]
      · simp [accepts_excludeNull regex dollar, accepts_comparison regex dollar (show "$lt" ∈ _ by simp),
          accepts_comparison regex dollar (show "$gt" ∈ _ by simp), lower, upper, TextPredicate.found]
      · simp [accepts_dollar regex dollar]
      · simp [excludeNull, accepts_dollar regex dollar]
  | inList negated literals =>
      obtain ⟨resolved, found, resolves⟩ := column.denotes.resolve
      simp only [TextPredicate.toExpr, translate, found, column.literalsOf resolves, Option.bind_eq_bind,
        Option.bind_some, Option.some.injEq] at translated
      subst translated
      rw [resolves.path]
      have equal : ∀ literal, equalTo (.string literal) = textTest .eq literal :=
        fun literal => funext fun v => (text_tests literal v).1
      cases dollar : startsWithDollar (dotted keys) <;> cases negated
      · simp [accepts_in regex dollar, TextPredicate.found, List.any_map, Function.comp_def, equal]
      · simp [accepts_excludeNull regex dollar, accepts_nin regex dollar, TextPredicate.found,
          List.any_map, Function.comp_def, equal]
      · simp [accepts_dollar regex dollar]
      · simp [excludeNull, accepts_dollar regex dollar]

end

/-- A filter on a coerced column loses no row of a sample if and only if, on every
document whose rendered text satisfies the predicate, the values standing at the
column's path hold what the predicate asks for. -/
theorem coerced_keeps_iff (regex : RegexEngine) (text : BsonText) (external : Expr → Row → Cell)
    (docs : List Document) (maxDepth : Nat) (expr : Expr) (keys : List String) (field : Field)
    (predicate : TextPredicate) (t : Translated)
    (column : CoercedColumn (inferredSchema docs maxDepth) expr keys field)
    (translated : translate (inferredSchema docs maxDepth) (predicate.toExpr expr) = some t) :
    (∀ doc ∈ docs,
        (predicate.toExpr expr).truth external (decodeRow text (inferredSchema docs maxDepth) doc) = some true →
        accepts regex t.filter doc.fields = true) ↔
      ∀ doc ∈ docs,
        (predicate.toExpr expr).truth external (decodeRow text (inferredSchema docs maxDepth) doc) = some true →
        startsWithDollar (dotted keys) = false ∧
          predicate.found (reachPath doc.fields (dotted keys)) = true := by
  refine forall₂_congr fun doc _ => imp_congr_right fun _ => ?_
  rw [column.accepts translated regex doc.fields, Bool.and_eq_true, Bool.not_eq_true']

theorem coercedColumn_root {schema : Schema} {name : String}
    (known : (findField name schema).isSome = true)
    (mixed : fieldIsMixed ((findField name schema).get known) = true)
    (utf8 : ((findField name schema).get known).dataType = .utf8) :
    CoercedColumn schema (.column name) [name] ((findField name schema).get known) :=
  ⟨.root (Option.some_get known).symm, mixed, utf8⟩

/-- A string and a number under one key, so the column is text. -/
def ratings : List Document := [⟨[("v", .string "good")], rfl⟩, ⟨[("v", .int32 1)], rfl⟩]

theorem ratings_coerced : ∃ field, CoercedColumn (inferredSchema ratings 4) (.column "v") ["v"] field :=
  ⟨_, coercedColumn_root (by decide) (by decide) (by decide)⟩

def ratedOne : TextPredicate := .compare .eq rfl "1"

/-- The number renders as the text `1`, which a filter for the string misses. -/
theorem coerced_loses_rating :
    ¬ ∀ (regex : RegexEngine) (text : BsonText) (external : Expr → Row → Cell)
      (docs : List Document) (maxDepth : Nat) (expr : Expr) (keys : List String) (field : Field)
      (predicate : TextPredicate) (t : Translated),
      CoercedColumn (inferredSchema docs maxDepth) expr keys field →
      translate (inferredSchema docs maxDepth) (predicate.toExpr expr) = some t →
      ∀ doc ∈ docs,
        (predicate.toExpr expr).truth external (decodeRow text (inferredSchema docs maxDepth) doc) = some true →
        accepts regex t.filter doc.fields = true := by
  intro claim
  have translates : (translate (inferredSchema ratings 4) (ratedOne.toExpr (.column "v"))).any
      (fun t => !accepts noRegex t.filter ratings[1].fields) = true := by decide +kernel
  obtain ⟨t, translated, rejected⟩ := (Option.any_eq_true _ _).mp translates
  obtain ⟨field, column⟩ := ratings_coerced
  have kept := claim noRegex plainText noExternal ratings 4 (.column "v") ["v"] field ratedOne t column
    translated ratings[1] (by simp [ratings]) (by decide)
  simp [kept] at rejected

def ratedGood : TextPredicate := .compare .eq rfl "good"

theorem coerced_keeps_iff_ratings :
    ∃ t, translate (inferredSchema ratings 4) (ratedGood.toExpr (.column "v")) = some t ∧
      ∀ doc ∈ ratings,
        (ratedGood.toExpr (.column "v")).truth noExternal
          (decodeRow plainText (inferredSchema ratings 4) doc) = some true →
        accepts noRegex t.filter doc.fields = true := by
  obtain ⟨t, translated⟩ := Option.isSome_iff_exists.mp
    (show (translate (inferredSchema ratings 4) (ratedGood.toExpr (.column "v"))).isSome = true by
      decide)
  obtain ⟨field, column⟩ := ratings_coerced
  refine ⟨t, translated, (coerced_keeps_iff noRegex plainText noExternal ratings 4 (.column "v") ["v"] field
    ratedGood t column translated).mpr ?_⟩
  have first : startsWithDollar (dotted ["v"]) = false ∧
      ratedGood.found (reachPath ratings[0].fields (dotted ["v"])) = true := by decide +kernel
  have second : (ratedGood.toExpr (.column "v")).truth noExternal
      (decodeRow plainText (inferredSchema ratings 4) ratings[1]) = some false := by decide +kernel
  intro doc member truth
  rcases List.mem_pair.mp member with rfl | rfl
  · exact first
  · cases second.symm.trans truth

end Auger
