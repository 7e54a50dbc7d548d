import Auger.Exactness
import Auger.LikePatterns

set_option autoImplicit false

/-! Pushed `LIKE` predicates on text columns, beside SQL's answer on the texts the
column shows. -/

namespace Auger

open General

/-- SQL's `LIKE`: over the whole text, with the backslash as the escape where none is
given; a cell that is no text has no answer. -/
def sqlLike (negated : Bool) (pattern : String) (escape : Option Char) : Cell → Kleene.Truth
  | .text s => some (negated != Like.matchesWhole (Like.elements (some (escape.getD '\\')) pattern.toList) s.toList)
  | _ => none

/-- The engine reads the patterns of the grammar as PCRE does, under the option that
lets the dot match line feeds. -/
def ReadsPcre (regex : RegexEngine) : Prop :=
  ∀ pattern pieces, Pcre.read pattern.toList = some pieces →
    ∀ subject, regex.isMatch pattern "s" subject = Pcre.search true pieces true subject.toList

/-- The text a column shows for a stored value. -/
def shownText (text : BsonText) (v : Option Bson) : Option String :=
  if isNull v then none else v.bind fun value => renderText text value .string

/-- A stored text that the pattern's regular expression finds. -/
def Sought (pattern : String) (escape : Option Char) (v : Bson) : Prop :=
  ∃ s, v = .string s ∧ Like.FitsLine (Like.elements escape pattern.toList) s.toList

/-- A stored value whose shown text the pattern matches. -/
def Shown (text : BsonText) (pattern : String) (escape : Option Char) (v : Option Bson) : Prop :=
  ∃ s, shownText text v = some s ∧
    Like.matchesWhole (Like.elements (some (escape.getD '\\')) pattern.toList) s.toList = true

/-- At any path, what the server seeks among the values it reaches is what the column
shows of the value it reads. -/
def LikeKept (text : BsonText) (negated : Bool) (pattern : String) (escape : Option Char) (keys : List String)
    (doc : Document) : Prop :=
  if startsWithDollar (dotted keys) then
    shownText text (readAt doc keys) = none ∨ (Shown text pattern escape (readAt doc keys) ↔ negated = true)
  else if negated then
    (∃ v ∈ reachPath doc.fields (dotted keys), v.isNull = true ∨ Sought pattern escape v) ↔
      shownText text (readAt doc keys) = none ∨ Shown text pattern escape (readAt doc keys)
  else
    (∃ v ∈ reachPath doc.fields (dotted keys), Sought pattern escape v) ↔ Shown text pattern escape (readAt doc keys)

/-- Under plain keys: a stored text is matched up to a final line feed as it is matched
whole with the backslash as the default escape, and no other value shows a match. -/
def ValueLikeKept (text : BsonText) (pattern : String) (escape : Option Char) : Option Bson → Prop
  | some (.string s) =>
      Like.FitsLine (Like.elements escape pattern.toList) s.toList ↔
        Like.matchesWhole (Like.elements (some (escape.getD '\\')) pattern.toList) s.toList = true
  | v => ¬Shown text pattern escape v

section
variable {regex : RegexEngine} (reads : ReadsPcre regex) {pattern written : String} {escape : Option Char}
  (returned : likeToRegex pattern escape = some written)

include reads returned

theorem isMatch_likeToRegex (s : String) :
    regex.isMatch written "s" s = true ↔ Like.FitsLine (Like.elements escape pattern.toList) s.toList := by
  obtain ⟨elements, readsPattern, pieces⟩ := likeToRegex_pieces returned
  rw [reads written (anchored elements) pieces, search_anchored, readsPattern.elements_eq]

theorem regexAccepts_likeToRegex (v : Bson) :
    regexAccepts regex written "s" v = true ↔ Sought pattern escape v := by
  cases v with
  | string s => simp [regexAccepts, Sought, isMatch_likeToRegex reads returned]
  | _ => simp [regexAccepts, Sought]

theorem any_regexAccepts (reached : List Bson) :
    reached.any (regexAccepts regex written "s") = true ↔ ∃ v ∈ reached, Sought pattern escape v := by
  rw [List.any_eq_true]
  exact exists_congr fun v => and_congr_right fun _ => regexAccepts_likeToRegex reads returned v

end

/-- The condition written for a pattern. -/
def matcherOf (written : String) : Fields := [("$regex", .string written), ("$options", .string "s")]

section
variable (regex : RegexEngine)

theorem operatorsAccept_matcher (written : String) (reached : List Bson) :
    operatorsAccept regex (matcherOf written) (matcherOf written) reached =
      reached.any (regexAccepts regex written "s") := by
  have options : optionsOf (matcherOf written) = "s" := rfl
  have ends : operatorsAccept regex (matcherOf written) [("$options", .string "s")] reached = true := by
    simp [operatorsAccept, operatorAccepts]
  rw [show matcherOf written = ("$regex", .string written) :: [("$options", .string "s")] from rfl] at options ends ⊢
  rw [operatorsAccept, ends, Bool.and_true]
  simp [operatorAccepts, options, Bson.asText]

variable {path : String} (plain : startsWithDollar path = false) (written : String) (doc : Fields)

include plain

theorem accepts_matcher :
    accepts regex [(path, .document (matcherOf written))] doc =
      (reachPath doc path).any (regexAccepts regex written "s") := by
  have operators : isOperatorDoc (matcherOf written) = true := by simp [isOperatorDoc, matcherOf, startsWithDollar]
  rw [accepts_at regex plain _ rfl, conditionAccepts, if_pos operators, operatorsAccept_matcher]

theorem accepts_notMatcher :
    accepts regex [(path, .document [("$not", .document (matcherOf written))])] doc =
      !(reachPath doc path).any (regexAccepts regex written "s") := by
  have operators : isOperatorDoc [("$not", .document (matcherOf written))] = true := by
    simp [isOperatorDoc, startsWithDollar]
  rw [accepts_at regex plain _ rfl, conditionAccepts, if_pos operators, operatorsAccept, operatorAccepts,
    if_pos rfl, operatorsAccept_matcher, operatorsAccept, Bool.and_true]

end

theorem translate_like {schema : Schema} {negated : Bool} {expr literal : Expr} {escape : Option Char}
    {t : Translated} (translated : translate schema (.like negated expr literal escape false) = some t)
    {pattern : String} (known : patternText literal = some pattern) :
    ∃ c written, resolveColumn schema expr = some c ∧ likeToRegex pattern escape = some written ∧
      t.exact = !c.mixed ∧
      t.filter = if negated then excludeNull c.path [(c.path, .document [("$not", .document (matcherOf written))])]
        else [(c.path, .document (matcherOf written))] := by
  simp only [translate, translateLike, Option.bind_eq_bind, Option.bind_eq_some_iff] at translated
  obtain ⟨c, resolved, translated⟩ := translated
  by_cases typed : c.dataType = .utf8 ∨ c.dataType = .largeUtf8
  · rw [if_pos typed] at translated
    simp only [known, Option.bind_some, Option.bind_eq_some_iff, Option.some.injEq] at translated
    obtain ⟨written, returned, rfl⟩ := translated
    exact ⟨c, written, resolved, returned, rfl, rfl⟩
  · rw [if_neg typed] at translated
    cases translated

theorem accepts_like {regex : RegexEngine} (reads : ReadsPcre regex) {pattern written : String}
    {escape : Option Char} (returned : likeToRegex pattern escape = some written) (negated : Bool) {path : String}
    (plain : startsWithDollar path = false) (doc : Fields) :
    accepts regex (if negated then excludeNull path [(path, .document [("$not", .document (matcherOf written))])]
        else [(path, .document (matcherOf written))]) doc = true ↔
      if negated then ¬∃ v ∈ reachPath doc path, v.isNull = true ∨ Sought pattern escape v
      else ∃ v ∈ reachPath doc path, Sought pattern escape v := by
  have sought := any_regexAccepts reads returned (reachPath doc path)
  cases negated with
  | false =>
      simp only [Bool.false_eq_true, if_false]
      rw [accepts_matcher regex plain, sought]
  | true =>
      simp only [if_true]
      rw [accepts_excludeNull regex plain, accepts_notMatcher regex plain, Bool.and_eq_true,
        Bool.not_eq_true', Bool.not_eq_true', ← Bool.not_eq_true, ← Bool.not_eq_true, sought, List.any_eq_true]
      simp only [and_or_left, exists_or, not_or]
      exact and_comm

theorem decodeField_utf8 (text : BsonText) {field : Field} (typed : field.dataType = .utf8) (v : Option Bson) :
    decodeField text field v = Cell.ofOption .text (shownText text v) := by
  rw [decodeField, typed, decodeTyped]
  rfl

theorem sqlLike_shown (text : BsonText) (negated : Bool) (pattern : String) (escape : Option Char)
    (v : Option Bson) :
    sqlLike negated pattern escape (Cell.ofOption .text (shownText text v)) = some true ↔
      if negated then ¬(shownText text v = none ∨ Shown text pattern escape v) else Shown text pattern escape v := by
  cases shown : shownText text v with
  | none => cases negated <;> simp [sqlLike, Shown, shown, Cell.ofOption]
  | some s => cases negated <;> simp [sqlLike, Shown, shown, Cell.ofOption]

theorem likeKept_iff {regex : RegexEngine} (reads : ReadsPcre regex) (text : BsonText) {pattern written : String}
    {escape : Option Char} (returned : likeToRegex pattern escape = some written) (negated : Bool)
    (keys : List String) (doc : Document) :
    (accepts regex (if negated then
            excludeNull (dotted keys) [(dotted keys, .document [("$not", .document (matcherOf written))])]
          else [(dotted keys, .document (matcherOf written))]) doc.fields = true ↔
        sqlLike negated pattern escape (Cell.ofOption .text (shownText text (readAt doc keys))) = some true) ↔
      LikeKept text negated pattern escape keys doc := by
  rw [sqlLike_shown, LikeKept]
  cases dollar : startsWithDollar (dotted keys) with
  | true =>
      have refused : accepts regex (if negated then
            excludeNull (dotted keys) [(dotted keys, .document [("$not", .document (matcherOf written))])]
          else [(dotted keys, .document (matcherOf written))]) doc.fields = false := by
        cases negated <;> simp [excludeNull, accepts_dollar regex dollar]
      have absent : shownText text (readAt doc keys) = none → ¬Shown text pattern escape (readAt doc keys) := by
        rintro none ⟨s, shown, -⟩
        rw [none] at shown
        cases shown
      rw [refused, if_pos rfl]
      cases negated with
      | false =>
          simp only [Bool.false_eq_true, if_false, false_iff, iff_false]
          tauto
      | true =>
          simp only [if_true, Bool.false_eq_true, false_iff, not_not, iff_true]
  | false =>
      rw [accepts_like reads returned negated dollar, if_neg Bool.false_ne_true]
      cases negated with
      | false => simp
      | true => simp only [if_true, not_iff_not]

theorem Denotes.noArray {docs : List Document} {maxDepth : Nat} {expr : Expr} {keys : List String} {field : Field}
    (denotes : Denotes (inferredSchema docs maxDepth) expr keys field)
    (tagged : BsonTag.of field = .string ∨ BsonTag.of field = .objectId) (unmixed : fieldIsMixed field = false)
    {doc : Document} (member : doc ∈ docs) : ∀ v, valueAt doc keys = some v → v.isArray = false := by
  intro v found
  obtain ⟨fs, slot, name, total, depth, rfl⟩ := denotes.slot
  rw [tag_fieldAround] at tagged
  rw [mixed_fieldAround] at unmixed
  have explained := slot.explains
  rw [unmixed] at explained
  have inside := mem_valuesUnder member found
  cases shape : fs.shape with
  | utf8 | objectId =>
      have scalar : fs.shape.Scalar := by rw [shape]; trivial
      have plain : fs.shape.Plain := by rw [shape]; trivial
      rcases (explains_scalar_iff scalar).mp explained v inside with null | admitted
      · exact Bson.isArray_of_isNull null
      · exact plain.not_array admitted
  | document fields =>
      rw [shape, arrowType] at tagged
      split_ifs at tagged <;> simp at tagged
  | array inner =>
      rw [shape, arrowType] at tagged
      split_ifs at tagged <;> simp at tagged
  | _ =>
      rw [shape] at tagged
      simp [arrowType] at tagged

theorem shownText_eq_none (text : BsonText) (w : Bson) : shownText text (some w) = none ↔ w.isNull = true := by
  cases w <;> first | exact iff_of_true rfl rfl | exact iff_of_false nofun nofun

/-- Where one value is reached and read, the two conditions are one. -/
theorem likeKept_value (text : BsonText) (negated : Bool) (pattern : String) (escape : Option Char)
    {keys : List String} {doc : Document} (plain : startsWithDollar (dotted keys) = false) {v : Option Bson}
    (reached : reachPath doc.fields (dotted keys) = candidates v) (read : readAt doc keys = v)
    (noArray : ∀ w, v = some w → w.isArray = false) :
    LikeKept text negated pattern escape keys doc ↔ ValueLikeKept text pattern escape v := by
  rw [LikeKept, plain, if_neg Bool.false_ne_true, reached, read]
  cases v with
  | none => cases negated <;> simp [candidates, Sought, Bson.isNull, ValueLikeKept, shownText, isNull, Shown]
  | some w =>
      rw [candidates_scalar (noArray w rfl)]
      by_cases string : ∃ s, w = .string s
      · obtain ⟨s, rfl⟩ := string
        cases negated <;> simp [Sought, Bson.isNull, ValueLikeKept, shownText, isNull, Shown, renderText]
      · have unsought : ¬Sought pattern escape w := by
          rintro ⟨s, same, -⟩
          exact string ⟨s, same⟩
        have kept : ValueLikeKept text pattern escape (some w) ↔ ¬Shown text pattern escape (some w) := by
          cases w <;> first | exact Iff.rfl | exact absurd ⟨_, rfl⟩ string
        have visible : Shown text pattern escape (some w) → ¬w.isNull = true := by
          rintro ⟨s, shows, _⟩ null
          rw [(shownText_eq_none text w).mpr null] at shows
          cases shows
        rw [kept]
        cases negated with
        | false => simp [unsought]
        | true =>
            simp only [if_true, List.mem_singleton, exists_eq_left, unsought, or_false, shownText_eq_none]
            tauto

theorem PlainColumn.like_exact {regex : RegexEngine} (reads : ReadsPcre regex) (text : BsonText)
    (external : Expr → Row → Cell) {docs : List Document} {maxDepth : Nat} {expr : Expr} {keys : List String}
    {field : Field} (column : PlainColumn (inferredSchema docs maxDepth) expr keys field)
    (typed : field.dataType = .utf8) {negated : Bool} {literal : Expr} {pattern : String}
    (known : patternText literal = some pattern) {escape : Option Char} {t : Translated}
    (translated : translate (inferredSchema docs maxDepth) (.like negated expr literal escape false) = some t)
    (plain : ∀ doc ∈ docs, doc.keysAll plainKey = true) {doc : Document} (member : doc ∈ docs)
    (kept : ValueLikeKept text pattern escape (valueAt doc keys)) :
    accepts regex t.filter doc.fields = true ↔
      sqlLike negated pattern escape
        (expr.eval external (decodeRow text (inferredSchema docs maxDepth) doc)) = some true := by
  obtain ⟨c, written, resolved, returned, -, filter⟩ := translate_like translated known
  obtain ⟨found, sameColumn, resolves⟩ := column.denotes.resolve
  rw [inferredSchema, sameColumn, Option.some.injEq] at resolved
  subst resolved
  have tagged : BsonTag.of field = .string := by
    have same := column.plainType
    rw [typed] at same
    cases tag : BsonTag.of field <;> simp [tag, BsonTag.plainType] at same ⊢
  obtain ⟨fs, slot, -⟩ := column.denotes.slot
  have dotless : ∀ key ∈ keys, '.' ∉ key.toList := fun key inside =>
    plainKey_dot ((slot.keysAll plain).1 key inside)
  rw [filter, resolves.path, column.denotes.eval text external, decodeField_utf8 text typed]
  apply (likeKept_iff reads text returned negated keys doc).mpr
  exact (likeKept_value text negated pattern escape (column.dollar plain) (reachPath_slot slot dotless member)
    (readAt_plain doc dotless) (column.denotes.noArray (.inl tagged) column.unmixed member)).mpr kept

/-- An exact `LIKE` on an unmixed text column of the sample accepts a sampled document
as it is TRUE of the text decoded there if and only if the server seeks what the column
shows; under keys without dots and leading dollars, if and only if the stored text is
matched up to a final line feed as it is matched whole, and no id or symbol shows a match. -/
theorem likePushdown_iff (regex : RegexEngine) (reads : ReadsPcre regex) (text : BsonText)
    (external : Expr → Row → Cell) (docs : List Document) (maxDepth : Nat) (expr : Expr) (keys : List String)
    (field : Field) (denotes : Denotes (inferredSchema docs maxDepth) expr keys field)
    (typed : field.dataType = .utf8) (tagged : BsonTag.of field = .string ∨ BsonTag.of field = .objectId)
    (negated : Bool) (literal : Expr) (pattern : String) (known : patternText literal = some pattern)
    (escape : Option Char) (t : Translated)
    (translated : translate (inferredSchema docs maxDepth) (.like negated expr literal escape false) = some t)
    (exact : t.exact = true) (batchDocs : List Document) (batch : RecordBatch)
    (decoded : documentsToBatch text (inferredSchema docs maxDepth) batchDocs = .ok batch) (i : Nat)
    (bound : i < batchDocs.length) (member : batchDocs[i] ∈ docs) :
    ((accepts regex t.filter batchDocs[i].fields = true ↔
          sqlLike negated pattern escape (expr.eval external (batch.row i)) = some true) ↔
        LikeKept text negated pattern escape keys batchDocs[i]) ∧
      ((∀ key ∈ keys, plainKey key = true) →
        ((accepts regex t.filter batchDocs[i].fields = true ↔
            sqlLike negated pattern escape (expr.eval external (batch.row i)) = some true) ↔
          ValueLikeKept text pattern escape (valueAt batchDocs[i] keys))) := by
  obtain ⟨c, written, resolved, returned, exact_eq, filter_eq⟩ := translate_like translated known
  obtain ⟨column, sameColumn, resolves⟩ := denotes.resolve
  rw [inferredSchema, sameColumn, Option.some.injEq] at resolved
  subst resolved
  have unmixed : fieldIsMixed field = false := by
    rw [exact, eq_comm, Bool.not_eq_true'] at exact_eq
    rw [← Bool.not_eq_true]
    intro flagged
    rw [resolves.mixed flagged] at exact_eq
    cases exact_eq
  have kept := likeKept_iff reads text returned negated keys batchDocs[i]
  rw [filter_eq, resolves.path, documentsToBatch_row text decoded i bound, denotes.eval text external,
    decodeField_utf8 text typed]
  refine ⟨kept, fun plain => kept.trans ?_⟩
  obtain ⟨fs, slot, -⟩ := denotes.slot
  have dotless : ∀ key ∈ keys, '.' ∉ key.toList := fun key inside => plainKey_dot (plain key inside)
  exact likeKept_value text negated pattern escape
    (startsWithDollar_dotted fun key inside => plainKey_dollar (plain key inside))
    (reachPath_slot slot dotless member) (readAt_plain _ dotless) (denotes.noArray tagged unmixed member)

def pcreEngine : RegexEngine :=
  ⟨fun pattern options subject =>
    match Pcre.read pattern.toList with
    | some pieces => Pcre.search (options.toList.contains 's') pieces true subject.toList
    | none => false⟩

theorem pcreEngine_reads : ReadsPcre pcreEngine := by
  intro pattern pieces read subject
  simp [pcreEngine, read]

/-- A line that ends in a line feed. -/
def lines : List Document := [⟨[("line", .string "ok\n")], rfl⟩]

def linesSchema : Schema := inferredSchema lines 4

theorem line_column : ∃ field, Denotes linesSchema (.column "line") ["line"] field ∧ field.dataType = .utf8 ∧
    BsonTag.of field = .string :=
  ⟨_, .root rfl, rfl, by rfl⟩

def lineLike (pattern : String) : Expr :=
  .like false (.column "line") (.literal (.utf8 (some pattern))) none false

theorem lines_decode : ∃ batch, documentsToBatch plainText linesSchema lines = .ok batch :=
  ok_of_isOk (by decide)

/-- The line without its line feed is found, but the line with it is not the pattern. -/
theorem likePushdown_overfinds : ¬∀ (regex : RegexEngine), ReadsPcre regex → ∀ (text : BsonText)
    (external : Expr → Row → Cell) (docs : List Document) (maxDepth : Nat) (expr : Expr) (keys : List String)
    (field : Field), Denotes (inferredSchema docs maxDepth) expr keys field → field.dataType = .utf8 →
    (BsonTag.of field = .string ∨ BsonTag.of field = .objectId) →
    ∀ (negated : Bool) (literal : Expr) (pattern : String), patternText literal = some pattern →
    ∀ (escape : Option Char) (t : Translated),
    translate (inferredSchema docs maxDepth) (.like negated expr literal escape false) = some t → t.exact = true →
    ∀ (batch : RecordBatch), documentsToBatch text (inferredSchema docs maxDepth) docs = .ok batch →
    ∀ (i : Nat) (bound : i < docs.length),
      (accepts regex t.filter docs[i].fields = true ↔
        sqlLike negated pattern escape (expr.eval external (batch.row i)) = some true) := by
  intro claimed
  obtain ⟨field, denotes, typed, tagged⟩ := line_column
  obtain ⟨batch, decoded⟩ := lines_decode
  have found : (translate linesSchema (lineLike "ok")).map
      (fun t => (t.exact, accepts pcreEngine t.filter lines[0].fields)) = some (true, true) := by decide +kernel
  obtain ⟨t, translated, facts⟩ := Option.map_eq_some_iff.mp found
  rw [Prod.mk.injEq] at facts
  have same := claimed pcreEngine pcreEngine_reads plainText noExternal lines 4 (.column "line") ["line"] field
    denotes typed (.inl tagged) false _ "ok" rfl none t translated facts.1 batch decoded 0 (by decide)
  have missed : sqlLike false "ok" none ((Expr.column "line").eval noExternal
      (decodeRow plainText linesSchema lines[0])) = some false := by decide +kernel
  rw [documentsToBatch_row plainText decoded 0 (by decide), facts.2] at same
  have answer := same.mp rfl
  rw [missed] at answer
  cases answer

theorem likePushdown_iff_lines :
    ∃ batch t, documentsToBatch plainText linesSchema lines = .ok batch ∧
      translate linesSchema (lineLike "o%") = some t ∧
      (accepts pcreEngine t.filter lines[0].fields = true ↔
        sqlLike false "o%" none ((Expr.column "line").eval noExternal (batch.row 0)) = some true) := by
  obtain ⟨field, denotes, typed, tagged⟩ := line_column
  obtain ⟨batch, decoded⟩ := lines_decode
  have pushed : (translate linesSchema (lineLike "o%")).map Translated.exact = some true := by decide +kernel
  obtain ⟨t, translated, exact⟩ := Option.map_eq_some_iff.mp pushed
  have kept : ValueLikeKept plainText "o%" none (valueAt lines[0] ["line"]) := by
    have stored : valueAt lines[0] ["line"] = some (.string "ok\n") := by rfl
    have whole : Like.matchesWhole (Like.elements (some '\\') "o%".toList) "ok\n".toList = true := by decide +kernel
    have unescaped : Like.elements none "o%".toList = Like.elements (some '\\') "o%".toList := by decide +kernel
    rw [stored]
    exact ⟨fun _ => whole, fun _ => .inl (unescaped ▸ whole)⟩
  exact ⟨batch, t, decoded, translated, ((likePushdown_iff pcreEngine pcreEngine_reads plainText noExternal lines 4
    (.column "line") ["line"] field denotes typed (.inl tagged) false _ "o%" rfl none t translated exact lines batch
    decoded 0 (by decide) (List.getElem_mem _)).2 (by decide)).mpr kept⟩

end Auger
