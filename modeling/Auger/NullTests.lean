import Auger.DecimalText
import Auger.NullCells

set_option autoImplicit false

/-! `IS NULL` and `IS NOT NULL` over nested and parsed columns, beside the cells the
decoder makes NULL. -/

namespace Auger

open General

/-- The column types whose cells can be NULL, or hold NULLs, otherwise than the
stored value. -/
def NullTestType : DataType → Prop
  | .list _ | .struct _ | .decimal128 _ _ | .timestamp _ _ => True
  | _ => False

/-- What the server's null test must see of a value, and what the decoder must read. -/
structure NullsSeen (text : BsonText) (field : Field) (keys : List String) (doc : Document) : Prop where
  path : startsWithDollar (dotted keys) = false
  items : ∀ items, valueAt doc keys = some (.array items) → ∀ item ∈ items, item.isNull = false
  numeral : ∀ precision scale, field.dataType = .decimal128 precision scale →
    ∀ v s, valueAt doc keys = some v → decimalTextOf text v = some s → DecimalText.Fits s scale

/-- A stored number that the column's type cannot read. -/
def refusedAs (text : BsonText) : DataType → Option Bson → Bool
  | .decimal128 _ scale, v => decimalRefused text scale v
  | _, _ => false

theorem decimalRefused_iff (text : BsonText) (scale : Int) (v : Bson) :
    decimalRefused text scale (some v) = true ↔
      ∃ s, decimalTextOf text v = some s ∧ ¬DecimalText.Fits s scale := by
  have each : ∀ s, (parseDecimal s scale).isNone = true ↔ ¬DecimalText.Fits s scale := by
    intro s
    rw [← parseDecimal_isSome, Option.isNone_iff_eq_none, Option.not_isSome_iff_eq_none]
  cases v with
  | double x => simp [decimalRefused, decimalTextOf, each]
  | decimal128 d => simp [decimalRefused, decimalTextOf, each]
  | _ => simp [decimalRefused, decimalTextOf]

def holdsNull : Option Bson → Bool
  | some (.array items) => items.any Bson.isNull
  | _ => false

theorem any_isNull_candidates (v : Option Bson) :
    (candidates v).any Bson.isNull = (isNull v || holdsNull v) := by
  cases v with
  | none => rfl
  | some v =>
      cases v with
      | array items => simp [candidates, leafCandidates, holdsNull, isNull, Bson.isNull]
      | _ => simp [candidates, leafCandidates, holdsNull, isNull, Bson.isNull]

theorem holdsNull_iff (v : Option Bson) :
    holdsNull v = false ↔ ∀ items, v = some (.array items) → ∀ item ∈ items, item.isNull = false := by
  cases v with
  | none => simp [holdsNull]
  | some v => cases v <;> simp [holdsNull]

section
variable {docs : List Document} {maxDepth : Nat} {expr : Expr} {keys : List String} {field : Field}
  (denotes : Denotes (inferredSchema docs maxDepth) expr keys field)

include denotes

theorem Denotes.dotless_keys (dotless : ∀ doc ∈ docs, doc.keysAll (fun key => !key.toList.contains '.') = true) :
    ∀ key ∈ keys, '.' ∉ key.toList := by
  intro key member
  obtain ⟨fs, slot, -⟩ := denotes.slot
  simpa using (slot.keysAll dotless).1 key member

theorem Denotes.nullsAgree (text : BsonText) {doc : Document} (member : doc ∈ docs) :
    NullsAgree (NullIfRefused text) field.dataType (valueAt doc keys)
      (decodeField text field (valueAt doc keys)) := by
  obtain ⟨fs, slot, name, total, depth, rfl⟩ := denotes.slot
  rw [decodeField, tag_fieldAround]
  cases found : valueAt doc keys with
  | none =>
      rw [decode_absent text _ _ rfl]
      exact nullsAgree_absent text (refused_cells text) _ rfl
  | some v =>
      exact decoded_agrees text (refused_cells text) fs.shape fs.mixed _ (dotted keys) depth maxDepth
        slot.wellOrdered slot.explains v (mem_valuesUnder member found)

/-- The cell is NULL where nothing or null stands, or a decimal text is refused. -/
theorem Denotes.cell_isNull (text : BsonText) {doc : Document} (member : doc ∈ docs)
    (typed : NullTestType field.dataType) :
    (decodeField text field (valueAt doc keys)).isNull =
      (isNull (valueAt doc keys) || refusedAs text field.dataType (valueAt doc keys)) := by
  have agrees := denotes.nullsAgree text member
  cases type : field.dataType with
  | decimal128 precision scale =>
      rw [type] at agrees
      simp only [NullsAgree, NullIfRefused] at agrees
      exact agrees
  | list item =>
      rw [type] at agrees
      simp only [NullsAgree] at agrees
      simpa [refusedAs] using agrees.1
  | struct children =>
      rw [type] at agrees
      simp only [NullsAgree] at agrees
      simpa [refusedAs] using agrees.1
  | timestamp unit timezone =>
      rw [type] at agrees
      simp only [NullsAgree] at agrees
      simpa [refusedAs] using agrees
  | _ =>
      rw [type] at typed
      cases typed

end

/-- The two tests agree with one cell when one answer is as it is NULL, and the other
the opposite. -/
theorem tests_agree {nullTest notNullTest cell : Bool} (opposite : notNullTest = !nullTest) :
    ((nullTest = true ↔ cell = true) ∧ (notNullTest = true ↔ cell = false)) ↔ nullTest = cell := by
  subst opposite
  cases nullTest <;> cases cell <;> decide

theorem refusedAs_iff (text : BsonText) (dataType : DataType) (v : Option Bson) :
    refusedAs text dataType v = false ↔
      ∀ precision scale, dataType = .decimal128 precision scale →
        ∀ w s, v = some w → decimalTextOf text w = some s → DecimalText.Fits s scale := by
  cases dataType with
  | decimal128 precision scale =>
      have refused := fun w => decimalRefused_iff text scale w
      cases v with
      | none => simp [refusedAs, decimalRefused]
      | some w =>
          rw [refusedAs, ← Bool.not_eq_true, refused]
          simp only [DataType.decimal128.injEq, and_imp, Option.some.injEq, not_exists, not_and, not_not]
          constructor
          · rintro fits _ _ rfl rfl _ s rfl written
            exact fits s written
          · intro fits s written
            exact fits precision scale rfl rfl w s rfl written
  | _ => simp [refusedAs]

theorem refusedAs_scalar (text : BsonText) (dataType : DataType) {v : Option Bson}
    (refused : refusedAs text dataType v = true) : isNull v = false ∧ holdsNull v = false := by
  cases dataType with
  | decimal128 precision scale =>
      rw [refusedAs] at refused
      cases v with
      | none => cases refused
      | some w => cases w <;> first | cases refused | exact ⟨rfl, rfl⟩
  | _ => cases refused

theorem holdsNull_present {v : Option Bson} (holds : holdsNull v = true) : isNull v = false := by
  cases v with
  | none => cases holds
  | some w => cases w <;> first | rfl | cases holds

/-- What the server's test sees is what the decoder makes NULL. -/
theorem nullsSeen_iff (text : BsonText) {field : Field} {keys : List String} {doc : Document}
    (path : startsWithDollar (dotted keys) = false) :
    ((candidates (valueAt doc keys)).any Bson.isNull =
        (isNull (valueAt doc keys) || refusedAs text field.dataType (valueAt doc keys))) ↔
      NullsSeen text field keys doc := by
  have apart : ((isNull (valueAt doc keys) || holdsNull (valueAt doc keys)) =
      (isNull (valueAt doc keys) || refusedAs text field.dataType (valueAt doc keys))) ↔
      holdsNull (valueAt doc keys) = false ∧ refusedAs text field.dataType (valueAt doc keys) = false := by
    have array := @holdsNull_present (valueAt doc keys)
    have number := @refusedAs_scalar text field.dataType (valueAt doc keys)
    revert array number
    cases isNull (valueAt doc keys) <;> cases holdsNull (valueAt doc keys) <;>
      cases refusedAs text field.dataType (valueAt doc keys) <;> decide
  rw [any_isNull_candidates, apart, holdsNull_iff, refusedAs_iff]
  constructor
  · intro both
    exact ⟨path, both.1, both.2⟩
  · intro seen
    exact ⟨seen.items, seen.numeral⟩

/-- For a sampled document and a list, struct, decimal or timestamp column, the exact
filters of `IS NULL` and `IS NOT NULL` accept it as the decoded cell is NULL or not, if
and only if its path is no operator, no array there holds a null and no decimal text
there is refused. -/
theorem nullTests_agree_iff (regex : RegexEngine) (text : BsonText) (external : Expr → Row → Cell)
    (docs : List Document) (maxDepth : Nat) (expr : Expr) (keys : List String) (field : Field)
    (denotes : Denotes (inferredSchema docs maxDepth) expr keys field) (typed : NullTestType field.dataType)
    (dotless : ∀ doc ∈ docs, doc.keysAll (fun key => !key.toList.contains '.') = true)
    (batchDocs : List Document) (batch : RecordBatch)
    (decoded : documentsToBatch text (inferredSchema docs maxDepth) batchDocs = .ok batch) (i : Nat)
    (bound : i < batchDocs.length) (member : batchDocs[i] ∈ docs) :
    ∃ nullTest notNullTest, translate (inferredSchema docs maxDepth) (.isNull expr) = some nullTest ∧
      translate (inferredSchema docs maxDepth) (.isNotNull expr) = some notNullTest ∧
      nullTest.exact = true ∧ notNullTest.exact = true ∧
      (((accepts regex nullTest.filter batchDocs[i].fields = true ↔
            (expr.eval external (batch.row i)).isNull = true) ∧
          (accepts regex notNullTest.filter batchDocs[i].fields = true ↔
            (expr.eval external (batch.row i)).isNull = false)) ↔
        NullsSeen text field keys batchDocs[i]) := by
  obtain ⟨isNull_eq, isNotNull_eq⟩ := denotes.nullTests
  refine ⟨_, _, isNull_eq, isNotNull_eq, rfl, rfl, ?_⟩
  have plain := denotes.dotless_keys dotless
  obtain ⟨fs, slot, -⟩ := denotes.slot
  rw [documentsToBatch_row text decoded i bound, denotes.eval text external, readAt_plain _ plain,
    denotes.cell_isNull text member typed]
  cases dollar : startsWithDollar (dotted keys) with
  | true =>
      have refused : accepts regex [(dotted keys, Bson.null)] batchDocs[i].fields = false := by
        simp [accepts_single, clauseAccepts, dollar]
      rw [refused, accepts_dollar regex dollar]
      constructor
      · intro agree
        exfalso
        revert agree
        cases isNull (valueAt batchDocs[i] keys) ||
          refusedAs text field.dataType (valueAt batchDocs[i] keys) <;> decide
      · intro seen
        rw [seen.path] at dollar
        cases dollar
  | false =>
      have nullTest : accepts regex [(dotted keys, Bson.null)] batchDocs[i].fields =
          (candidates (valueAt batchDocs[i] keys)).any Bson.isNull := by
        have same : equalTo .null = Bson.isNull := funext equalTo_null
        simp only [accepts_at regex dollar .null rfl, reachPath_slot slot plain member, conditionAccepts, same]
      have opposite := accepts_notNull regex dollar batchDocs[i].fields
      rw [reachPath_slot slot plain member] at opposite
      rw [nullTest, opposite, tests_agree rfl, nullsSeen_iff text dollar]

def labelled : List Document := [⟨[("labels", .array [.string "new", .null])], rfl⟩]

def unlabelled : List Document := [⟨[("labels", .array [.string "new", .string "red"])], rfl⟩]

theorem labelled_column : ∃ field, Denotes (inferredSchema labelled 4) (.column "labels") ["labels"] field ∧
    NullTestType field.dataType :=
  ⟨_, .root rfl, trivial⟩

theorem unlabelled_column : ∃ field, Denotes (inferredSchema unlabelled 4) (.column "labels") ["labels"] field ∧
    NullTestType field.dataType :=
  ⟨_, .root rfl, trivial⟩

/-- The document's labels are an array with a null, which the server takes for a null. -/
theorem nullTests_disagree : ¬∀ (regex : RegexEngine) (text : BsonText) (external : Expr → Row → Cell)
    (docs : List Document) (maxDepth : Nat) (expr : Expr) (keys : List String) (field : Field),
    Denotes (inferredSchema docs maxDepth) expr keys field → NullTestType field.dataType →
    (∀ doc ∈ docs, doc.keysAll (fun key => !key.toList.contains '.') = true) →
    ∀ (batch : RecordBatch), documentsToBatch text (inferredSchema docs maxDepth) docs = .ok batch →
    ∀ (i : Nat) (bound : i < docs.length) (t : Translated),
      translate (inferredSchema docs maxDepth) (.isNull expr) = some t → t.exact = true →
      (accepts regex t.filter docs[i].fields = true ↔ (expr.eval external (batch.row i)).isNull = true) := by
  intro claimed
  obtain ⟨field, denotes, typed⟩ := labelled_column
  obtain ⟨batch, decoded⟩ : ∃ batch, documentsToBatch plainText (inferredSchema labelled 4) labelled =
      .ok batch := ok_of_isOk (by decide)
  have same := claimed noRegex plainText noExternal labelled 4 (.column "labels") ["labels"] field denotes typed
    (by decide) batch decoded 0 (by decide) _ denotes.nullTests.1 rfl
  have accepted : accepts noRegex [(dotted ["labels"], Bson.null)] labelled[0].fields = true := by decide +kernel
  have decodes : ((Expr.column "labels").eval noExternal (batch.row 0)).isNull = false := by
    rw [documentsToBatch_row plainText decoded 0 (by decide)]
    decide +kernel
  rw [decodes] at same
  cases same.mp accepted

theorem nullTests_agree_iff_unlabelled :
    ∃ batch nullTest, documentsToBatch plainText (inferredSchema unlabelled 4) unlabelled = .ok batch ∧
      translate (inferredSchema unlabelled 4) (.isNull (.column "labels")) = some nullTest ∧
      (accepts noRegex nullTest.filter unlabelled[0].fields = true ↔
        ((Expr.column "labels").eval noExternal (batch.row 0)).isNull = true) := by
  obtain ⟨field, denotes, typed⟩ := unlabelled_column
  obtain ⟨batch, decoded⟩ : ∃ batch, documentsToBatch plainText (inferredSchema unlabelled 4) unlabelled =
      .ok batch := ok_of_isOk (by decide)
  obtain ⟨nullTest, _, translated, _, _, _, agree⟩ := nullTests_agree_iff noRegex plainText noExternal unlabelled 4
    (.column "labels") ["labels"] field denotes typed (by decide) unlabelled batch decoded 0 (by decide)
    (List.getElem_mem _)
  have stored : valueAt unlabelled[0] ["labels"] = some (.array [.string "new", .string "red"]) := by rfl
  have seen : NullsSeen plainText field ["labels"] unlabelled[0] := by
    refine ⟨by decide, ?_, ?_⟩
    · intro items found item member
      rw [stored] at found
      cases found
      revert item
      decide
    · intro precision scale _ v s found written
      rw [stored] at found
      cases found
      cases written
  exact ⟨batch, nullTest, decoded, translated, (agree.mpr seen).1⟩

end Auger
