import Auger.Projection
import Auger.Promise

set_option autoImplicit false

/-! The documents a scan can send: which operators, which paths, and what stands
under them. -/

namespace Auger

open General

def Bson.isPlain : Bson → Bool
  | .null | .string _ | .boolean _ | .int32 _ | .int64 _ | .double _ | .dateTime _ | .objectId _ => true
  | _ => false

/-- An operator and what may stand under it; `operand` are the values compared with. -/
inductive OperatorOf (operand : Bson → Prop) : String → Bson → Prop
  | compare {op : String} {value : Bson} (known : op ∈ ["$eq", "$ne", "$lt", "$lte", "$gt", "$gte"])
      (plain : operand value) : OperatorOf operand op value
  | oneOf {op : String} {values : List Bson} (known : op ∈ ["$in", "$nin"]) (plain : ∀ value ∈ values, operand value) :
      OperatorOf operand op (.array values)
  | regex (pattern : String) : OperatorOf operand "$regex" (.string pattern)
  | options {letters : String} (known : letters ∈ ["s", "is"]) : OperatorOf operand "$options" (.string letters)
  | not {inner : Fields} (each : ∀ entry ∈ inner, OperatorOf operand entry.1 entry.2) :
      OperatorOf operand "$not" (.document inner)

/-- A `$match` document over some paths. -/
inductive MatchDoc (path : String → Prop) (operand : Bson → Prop) : Fields → Prop
  | value {name : String} {value : Bson} (known : path name) (plain : value.isPlain = true) :
      MatchDoc path operand [(name, value)]
  | operators {name : String} {ops : Fields} (known : path name)
      (each : ∀ entry ∈ ops, OperatorOf operand entry.1 entry.2) : MatchDoc path operand [(name, .document ops)]
  | connective {op : String} {clauses : List Fields} (known : op ∈ ["$and", "$or", "$nor"])
      (each : ∀ clause ∈ clauses, MatchDoc path operand clause) :
      MatchDoc path operand [(op, .array (clauses.map .document))]

/-- The stages a scan is made of. -/
inductive ReadStage (path : String → Prop) (operand : Bson → Prop) (columns : List String) : Fields → Prop
  | filter {filter : Fields} (shape : MatchDoc path operand filter) :
      ReadStage path operand columns [("$match", .document filter)]
  | limit {n : Int64} (least : 0 ≤ n) : ReadStage path operand columns [("$limit", .int64 n)]
  | project {spec : Fields} (each : ∀ entry ∈ spec,
        entry.1 ∈ columns ∧ entry.2 = .int32 1 ∨ entry.1 = "_id" ∧ entry.2 = .int32 0) :
      ReadStage path operand columns [("$project", .document spec)]

def Expr.paths (schema : Schema) : Expr → List String
  | .binaryExpr left _ right => left.paths schema ++ right.paths schema
  | .not inner | .isNull inner | .isNotNull inner | .isTrue inner | .isFalse inner
  | .isNotTrue inner | .isNotFalse inner => inner.paths schema
  | .between expr _ low high => expr.paths schema ++ low.paths schema ++ high.paths schema
  | .inList expr _ _ => expr.paths schema
  | .like _ expr _ _ _ => expr.paths schema
  | .alias expr _ => expr.paths schema
  | leaf => ((resolveColumn schema leaf).map ColumnRef.path).toList

attribute [local simp] Expr.paths

section
variable {path : String → Prop} {operand : Bson → Prop}

theorem OperatorOf.mono {weaker : Bson → Prop} {op : String} {value : Bson} (shape : OperatorOf operand op value)
    (implied : ∀ value, operand value → weaker value) : OperatorOf weaker op value := by
  induction shape with
  | compare known plain => exact .compare known (implied _ plain)
  | oneOf known plain => exact .oneOf known fun value inside => implied _ (plain value inside)
  | regex pattern => exact .regex pattern
  | options known => exact .options known
  | not _ ih => exact .not ih

theorem MatchDoc.mono {weaker : String → Prop} {wider : Bson → Prop} {filter : Fields}
    (shape : MatchDoc path operand filter) (implied : ∀ name, path name → weaker name)
    (within : ∀ value, operand value → wider value := by exact fun _ plain => plain) :
    MatchDoc weaker wider filter := by
  induction shape with
  | value known plain => exact .value (implied _ known) plain
  | operators known each => exact .operators (implied _ known) fun entry inside => (each entry inside).mono within
  | connective known _ ih => exact .connective known ih

theorem MatchDoc.pair {left right : Fields} {op : String} (known : op ∈ ["$and", "$or", "$nor"])
    (first : MatchDoc path operand left) (second : MatchDoc path operand right) :
    MatchDoc path operand [(op, .array [.document left, .document right])] := by
  have clauses : ∀ clause ∈ [left, right], MatchDoc path operand clause := by
    simpa using ⟨first, second⟩
  exact .connective known clauses

theorem MatchDoc.comparison {name op : String} {value : Bson} (known : path name)
    (comparison : op ∈ ["$eq", "$ne", "$lt", "$lte", "$gt", "$gte"]) (plain : operand value) :
    MatchDoc path operand [(name, .document [(op, value)])] :=
  .operators known (by simpa using OperatorOf.compare comparison plain)

theorem MatchDoc.excludeNull {name : String} {inner : Fields} (known : path name) (null : operand .null)
    (shape : MatchDoc path operand inner) : MatchDoc path operand (excludeNull name inner) :=
  .pair (by simp) shape (.comparison known (by simp) null)

end

theorem resolveColumn_path {schema : Schema} {c : ColumnRef} :
    (expr : Expr) → resolveColumn schema expr = some c → c.path ∈ expr.paths schema
  | .alias inner _, resolved => by
      simp only [resolveColumn] at resolved
      exact resolveColumn_path inner resolved
  | .column _, resolved | .cast _ _, resolved | .scalarFunction _ _, resolved => by simp [Expr.paths, resolved]
  | .literal _, resolved | .binaryExpr _ _ _, resolved | .not _, resolved | .isNull _, resolved
  | .isNotNull _, resolved | .isTrue _, resolved | .isFalse _, resolved | .isNotTrue _, resolved
  | .isNotFalse _, resolved | .between _ _ _ _, resolved | .inList _ _ _, resolved | .like _ _ _ _ _, resolved
  | .similarTo _ _ _ _, resolved | .other _, resolved => by simp [resolveColumn] at resolved

theorem intLiteral_plain (v : Int64) (tag : BsonTag) : (intLiteral v tag).isPlain = true := by
  cases tag with
  | int32 =>
      simp only [intLiteral]
      split <;> rfl
  | _ => rfl

theorem map_plain {α : Type} {wrap : α → Bson} (plain : ∀ a, (wrap a).isPlain = true) {x : Option α} {value : Bson}
    (emitted : x.map wrap = some value) : value.isPlain = true := by
  obtain ⟨a, -, rfl⟩ := Option.map_eq_some_iff.mp emitted
  exact plain a

theorem scalarToBson_plain {scalar : ScalarValue} {tag : BsonTag} {value : Bson}
    (emitted : scalarToBson scalar tag = some value) : value.isPlain = true := by
  unfold scalarToBson at emitted
  split at emitted
  -- Texts, with or without an ObjectId in them.
  case h_1 | h_2 =>
    split at emitted
    · exact map_plain (fun _ => rfl) emitted
    · cases emitted
      rfl
  all_goals first
    | exact map_plain (fun _ => rfl) emitted
    | exact map_plain (fun v => intLiteral_plain v tag) emitted
    | (cases emitted <;> first | rfl | exact intLiteral_plain _ tag)

/-- A filter over the columns of an expression, whose operands hold no document. -/
abbrev PlainMatch (schema : Schema) (expr : Expr) (filter : Fields) : Prop :=
  MatchDoc (· ∈ expr.paths schema) (fun value => value.isPlain = true) filter

theorem literalOf_plain {expr : Expr} {c : ColumnRef} {value : Bson} (emitted : literalOf expr c = some value) :
    value.isPlain = true := by
  cases expr with
  | literal scalar => exact scalarToBson_plain emitted
  | _ => cases emitted

section
variable {schema : Schema}

theorem boolTest_shape {expr : Expr} {want : Bool} {t : Translated} (translated : boolTest schema expr want = some t) :
    PlainMatch schema expr t.filter := by
  obtain ⟨c, resolved, rest⟩ := Option.bind_eq_some_iff.mp translated
  obtain ⟨-, -, built⟩ := Option.bind_eq_some_iff.mp rest
  cases built
  exact .value (resolveColumn_path expr resolved) rfl

theorem boolComplement_shape {expr : Expr} {other : Bool} {t : Translated}
    (translated : boolComplement schema expr other = some t) :
    PlainMatch schema expr t.filter := by
  obtain ⟨c, resolved, rest⟩ := Option.bind_eq_some_iff.mp translated
  obtain ⟨-, -, built⟩ := Option.bind_eq_some_iff.mp rest
  cases built
  have known := resolveColumn_path expr resolved
  exact .pair (by simp) (.value known rfl) (.value known rfl)

theorem translateLike_shape {negated : Bool} {expr pattern : Expr} {escape : Option Char} {insensitive : Bool}
    {t : Translated} (translated : translateLike schema negated expr pattern escape insensitive = some t) :
    PlainMatch schema expr t.filter := by
  obtain ⟨c, resolved, rest⟩ := Option.bind_eq_some_iff.mp translated
  have known := resolveColumn_path expr resolved
  split at rest
  case isFalse => cases rest
  obtain ⟨text, -, rest⟩ := Option.bind_eq_some_iff.mp rest
  obtain ⟨written, -, built⟩ := Option.bind_eq_some_iff.mp rest
  obtain rfl := Option.some.inj built
  have matcher : ∀ entry ∈ [("$regex", Bson.string written),
      ("$options", .string (if insensitive then "is" else "s"))],
      OperatorOf (fun value => value.isPlain = true) entry.1 entry.2 := by
    simp only [List.forall_mem_cons, List.not_mem_nil, false_implies, implies_true, and_true]
    exact ⟨.regex written, .options (by cases insensitive <;> simp)⟩
  cases negated with
  | true => exact .excludeNull known rfl (.operators known (by simpa using OperatorOf.not matcher))
  | false => exact .operators known matcher

theorem translateComparison_shape {column literal : Expr} {op : Operator} {t : Translated}
    (translated : translateComparison schema column op literal = some t) :
    PlainMatch schema column t.filter := by
  obtain ⟨c, resolved, rest⟩ := Option.bind_eq_some_iff.mp translated
  obtain ⟨value, emitted, rest⟩ := Option.bind_eq_some_iff.mp rest
  obtain ⟨mongoOp, named, built⟩ := Option.bind_eq_some_iff.mp rest
  cases built
  have known := resolveColumn_path column resolved
  have comparison : mongoOp ∈ ["$eq", "$ne", "$lt", "$lte", "$gt", "$gte"] := by
    cases op <;> cases named <;> simp
  have base : PlainMatch schema column [(c.path, .document [(mongoOp, value)])] :=
    .comparison known comparison (literalOf_plain emitted)
  show PlainMatch schema column (if op = .notEq then _ else _)
  split_ifs
  · exact .excludeNull known rfl base
  · exact base

theorem guard_shape {expr : Expr} {guards : List Fields} (collected : collectGuards.guard schema expr = some guards) :
    ∀ clause ∈ guards, PlainMatch schema expr clause := by
  obtain ⟨c, resolved, rfl⟩ := Option.map_eq_some_iff.mp collected
  simp only [List.forall_mem_cons, List.not_mem_nil, false_implies, implies_true, and_true]
  exact .comparison (resolveColumn_path expr resolved) (by simp) rfl

theorem collectGuards_shape : (expr : Expr) → ∀ guards, collectGuards schema expr = some guards →
    ∀ clause ∈ guards, PlainMatch schema expr clause
  | .column name, guards, collected | .scalarFunction name args, guards, collected => by
      simp only [collectGuards] at collected
      exact guard_shape collected
  | .literal value, guards, collected => by
      simp only [collectGuards, Option.some.injEq] at collected
      simp [← collected]
  | .binaryExpr left op right, guards, collected => by
      simp only [collectGuards] at collected
      obtain ⟨first, one, rest⟩ := Option.bind_eq_some_iff.mp collected
      obtain ⟨second, two, built⟩ := Option.bind_eq_some_iff.mp rest
      obtain rfl := Option.some.inj built
      intro clause inside
      rcases List.mem_append.mp inside with here | there
      · exact (collectGuards_shape left first one clause here).mono fun _ known => by simp [Expr.paths, known]
      · exact (collectGuards_shape right second two clause there).mono fun _ known => by simp [Expr.paths, known]
  | .between expr negated low high, guards, collected => by
      simp only [collectGuards] at collected
      obtain ⟨first, one, rest⟩ := Option.bind_eq_some_iff.mp collected
      obtain ⟨second, two, rest⟩ := Option.bind_eq_some_iff.mp rest
      obtain ⟨third, three, built⟩ := Option.bind_eq_some_iff.mp rest
      obtain rfl := Option.some.inj built
      intro clause inside
      rcases List.mem_append.mp inside with early | late
      · rcases List.mem_append.mp early with here | there
        · exact (collectGuards_shape expr first one clause here).mono fun _ known => by simp [Expr.paths, known]
        · exact (collectGuards_shape low second two clause there).mono fun _ known => by simp [Expr.paths, known]
      · exact (collectGuards_shape high third three clause late).mono fun _ known => by simp [Expr.paths, known]
  | .not inner, guards, collected | .isNull inner, guards, collected | .isNotNull inner, guards, collected
  | .isTrue inner, guards, collected | .isFalse inner, guards, collected | .isNotTrue inner, guards, collected
  | .isNotFalse inner, guards, collected | .inList inner _ _, guards, collected
  | .like _ inner _ _ _, guards, collected | .alias inner _, guards, collected => by
      simp only [collectGuards] at collected
      simpa only [PlainMatch, Expr.paths] using collectGuards_shape inner guards collected
  | .similarTo _ _ _ _, guards, collected | .cast _ _, guards, collected | .other _, guards, collected => by
      simp [collectGuards] at collected

theorem comparison_shape {left right : Expr} {op : Operator} {t : Translated}
    (translated : (match isLiteral left, isLiteral right with
      | false, true => translateComparison schema left op right
      | true, false => translateComparison schema right (flip op) left
      | _, _ => none) = some t) : PlainMatch schema (.binaryExpr left op right) t.filter := by
  split at translated
  · exact (translateComparison_shape translated).mono fun _ known => by simp [Expr.paths, known]
  · exact (translateComparison_shape translated).mono fun _ known => by simp [Expr.paths, known]
  · cases translated

theorem between_shape {expr low high : Expr} {negated : Bool} {t : Translated}
    (translated : translate schema (.between expr negated low high) = some t) :
    PlainMatch schema (.between expr negated low high) t.filter := by
  simp only [translate] at translated
  obtain ⟨c, resolved, rest⟩ := Option.bind_eq_some_iff.mp translated
  obtain ⟨lo, least, rest⟩ := Option.bind_eq_some_iff.mp rest
  obtain ⟨hi, most, built⟩ := Option.bind_eq_some_iff.mp rest
  obtain rfl := Option.some.inj built
  have known : c.path ∈ (Expr.between expr negated low high).paths schema := by
    simp [Expr.paths, resolveColumn_path expr resolved]
  have least := literalOf_plain least
  have most := literalOf_plain most
  cases negated with
  | true =>
      exact .excludeNull known rfl
        (.pair (by simp) (.comparison known (by simp) least) (.comparison known (by simp) most))
  | false =>
      refine .operators known ?_
      simp only [List.forall_mem_cons, List.not_mem_nil, false_implies, implies_true, and_true]
      exact ⟨.compare (by simp) least, .compare (by simp) most⟩

theorem inList_shape {expr : Expr} {list : List Expr} {negated : Bool} {t : Translated}
    (translated : translate schema (.inList expr list negated) = some t) :
    PlainMatch schema (.inList expr list negated) t.filter := by
  simp only [translate] at translated
  obtain ⟨c, resolved, rest⟩ := Option.bind_eq_some_iff.mp translated
  obtain ⟨values, emitted, built⟩ := Option.bind_eq_some_iff.mp rest
  obtain rfl := Option.some.inj built
  have known : c.path ∈ (Expr.inList expr list negated).paths schema := by
    simp [Expr.paths, resolveColumn_path expr resolved]
  have plain : ∀ value ∈ values, value.isPlain = true := by
    intro value inside
    obtain ⟨position, bound, rfl⟩ := List.getElem_of_mem inside
    have pairs := mapM_forall₂ emitted
    exact literalOf_plain (pairs.get (pairs.length_eq ▸ bound) bound)
  have set : ∀ op ∈ ["$in", "$nin"], PlainMatch schema (.inList expr list negated)
      [(c.path, .document [(op, .array values)])] :=
    fun op inside => .operators known (by simpa using OperatorOf.oneOf inside plain)
  cases negated with
  | true => exact .excludeNull known rfl (set "$nin" (by simp))
  | false => exact set "$in" (by simp)

theorem translate_shape : (expr : Expr) → ∀ t, translate schema expr = some t → PlainMatch schema expr t.filter
  | .binaryExpr left .and right, t, translated => by
      have first := translate_shape left
      have second := translate_shape right
      simp only [translate] at translated
      cases one : translate schema left <;> cases two : translate schema right <;>
        simp only [one, two, reduceCtorEq, Option.some.injEq] at translated <;> subst translated
      · exact (second _ two).mono fun _ known => by simp [Expr.paths, known]
      · exact (first _ one).mono fun _ known => by simp [Expr.paths, known]
      · exact .pair (by simp) ((first _ one).mono fun _ known => by simp [Expr.paths, known])
          ((second _ two).mono fun _ known => by simp [Expr.paths, known])
  | .binaryExpr left .or right, t, translated => by
      have first := translate_shape left
      have second := translate_shape right
      simp only [translate] at translated
      obtain ⟨a, one, rest⟩ := Option.bind_eq_some_iff.mp translated
      obtain ⟨b, two, built⟩ := Option.bind_eq_some_iff.mp rest
      obtain rfl := Option.some.inj built
      exact .pair (by simp) ((first _ one).mono fun _ known => by simp [Expr.paths, known])
        ((second _ two).mono fun _ known => by simp [Expr.paths, known])
  | .binaryExpr left .eq right, t, translated | .binaryExpr left .notEq right, t, translated
  | .binaryExpr left .lt right, t, translated | .binaryExpr left .ltEq right, t, translated
  | .binaryExpr left .gt right, t, translated | .binaryExpr left .gtEq right, t, translated
  | .binaryExpr left (.other _) right, t, translated => by
      simp only [translate] at translated
      exact comparison_shape translated
  | .not inner, t, translated => by
      simp only [translate] at translated
      obtain ⟨a, one, rest⟩ := Option.bind_eq_some_iff.mp translated
      obtain ⟨guards, collected, built⟩ := Option.bind_eq_some_iff.mp rest
      obtain rfl := Option.some.inj built
      have operand : PlainMatch schema (.not inner) [("$nor", .array [.document a.filter])] := by
        have clauses : ∀ clause ∈ [a.filter], PlainMatch schema (.not inner) clause := by
          simpa [PlainMatch, Expr.paths] using translate_shape inner a one
        exact .connective (by simp) clauses
      have clauses : ∀ clause ∈ [("$nor", .array [.document a.filter])] :: guards,
          PlainMatch schema (.not inner) clause := by
        refine List.forall_mem_cons.mpr ⟨operand, fun clause inside => ?_⟩
        simpa only [PlainMatch, Expr.paths] using collectGuards_shape inner guards collected clause inside
      exact .connective (by simp) clauses
  | .isNull inner, t, translated => by
      simp only [translate] at translated
      obtain ⟨c, resolved, built⟩ := Option.bind_eq_some_iff.mp translated
      obtain rfl := Option.some.inj built
      exact .value (by simpa only [Expr.paths] using resolveColumn_path inner resolved) rfl
  | .isNotNull inner, t, translated => by
      simp only [translate] at translated
      obtain ⟨c, resolved, built⟩ := Option.bind_eq_some_iff.mp translated
      obtain rfl := Option.some.inj built
      exact .comparison (by simpa only [Expr.paths] using resolveColumn_path inner resolved) (by simp) rfl
  | .isTrue inner, t, translated | .isFalse inner, t, translated => by
      simp only [translate] at translated
      simpa only [PlainMatch, Expr.paths] using boolTest_shape translated
  | .isNotTrue inner, t, translated | .isNotFalse inner, t, translated => by
      simp only [translate] at translated
      simpa only [PlainMatch, Expr.paths] using boolComplement_shape translated
  | .between expr negated low high, t, translated => between_shape translated
  | .inList expr list negated, t, translated => inList_shape translated
  | .like negated expr pattern escape insensitive, t, translated => by
      simp only [translate] at translated
      simpa only [PlainMatch, Expr.paths] using translateLike_shape translated
  | .column name, t, translated => by
      simp only [translate] at translated
      exact boolTest_shape translated
  | .alias inner name, t, translated => by
      simp only [translate] at translated
      simpa only [PlainMatch, Expr.paths] using translate_shape inner t translated
  | .literal _, t, translated | .similarTo _ _ _ _, t, translated | .cast _ _, t, translated
  | .scalarFunction _ _, t, translated | .other _, t, translated => by
      simp [translate] at translated

end

theorem combine_shape {path : String → Prop} {operand : Bson → Prop} {translated : List Translated}
    (each : ∀ t ∈ translated, MatchDoc path operand t.filter) {filter : Fields}
    (combined : combine translated = some filter) : MatchDoc path operand filter := by
  match translated, combined with
  | [t], combined =>
      cases combined
      exact each t (List.mem_singleton_self t)
  | t :: u :: rest, combined =>
      cases combined
      have clauses : ∀ clause ∈ (t :: u :: rest).map Translated.filter, MatchDoc path operand clause :=
        List.forall_mem_map.mpr each
      have whole : MatchDoc path operand
          [("$and", .array (((t :: u :: rest).map Translated.filter).map .document))] := .connective (by simp) clauses
      rwa [List.map_map] at whole

theorem idRange_shape {path : String → Prop} {operand : Bson → Prop} (id : path "_id") {lo hi : Option Bson}
    (low : ∀ value, lo = some value → operand value) (high : ∀ value, hi = some value → operand value)
    {filter : Fields} (range : idRange lo hi = some filter) : MatchDoc path operand filter := by
  rcases lo with _ | lo <;> rcases hi with _ | hi
  · cases range
  · cases range
    exact .comparison id (by simp) (high hi rfl)
  · cases range
    exact .comparison id (by simp) (low lo rfl)
  · cases range
    have both : ∀ entry ∈ [("$gte", lo), ("$lt", hi)], OperatorOf operand entry.1 entry.2 := by
      simp only [List.forall_mem_cons, List.not_mem_nil, false_implies, implies_true, and_true]
      exact ⟨.compare (by simp) (low lo rfl), .compare (by simp) (high hi rfl)⟩
    exact .operators id both

theorem boundsBetween_ids {previous : Option Bson} {cuts : List Bson} {bound : Option Fields}
    (inside : bound ∈ boundsBetween previous cuts) :
    ∃ lo hi, bound = idRange lo hi ∧ (∀ value, lo = some value → previous = some value ∨ value ∈ cuts) ∧
      ∀ value, hi = some value → value ∈ cuts := by
  induction cuts generalizing previous with
  | nil =>
      rw [boundsBetween, List.mem_singleton] at inside
      exact ⟨previous, none, inside, fun _ => .inl, fun _ none => by cases none⟩
  | cons cut rest ih =>
      rw [boundsBetween, List.mem_cons] at inside
      rcases inside with rfl | later
      · exact ⟨previous, some cut, rfl, fun _ => .inl, fun value same => by simp [Option.some.inj same]⟩
      · obtain ⟨lo, hi, rfl, low, high⟩ := ih later
        refine ⟨lo, hi, rfl, fun value same => .inr ?_, fun value same => List.mem_cons_of_mem _ (high value same)⟩
        rcases low value same with here | later
        · simp [Option.some.inj here]
        · exact List.mem_cons_of_mem _ later

theorem partitionBounds_ids {ids : List Bson} {n : Nat} {filter : Fields}
    (inside : some filter ∈ partitionBounds ids n) :
    ∃ lo hi, idRange lo hi = some filter ∧ (∀ value, lo = some value → value ∈ ids) ∧
      ∀ value, hi = some value → value ∈ ids := by
  by_cases whole : n ≤ 1 ∨ ids.length < 2
  · rw [partitionBounds, if_pos whole, List.mem_singleton] at inside
    cases inside
  · rw [partitionBounds_ranges (by omega) (by omega), ← boundsBetween_ranges] at inside
    obtain ⟨lo, hi, range, low, high⟩ := boundsBetween_ids inside
    have drawn : ∀ value ∈ CutPoints.dropRepeats Bson.eq (quantiles ids n), value ∈ ids :=
      fun value cut => quantiles_mem ((CutPoints.dropRepeats_sublist _).subset cut)
    exact ⟨lo, hi, range.symm, fun value same => drawn value ((low value same).resolve_left (Option.some_ne_none _).symm),
      fun value same => drawn value (high value same)⟩

theorem projectionDoc_entries {paths : List String} {entry : String × Bson} (inside : entry ∈ projectionDoc paths) :
    entry.1 ∈ paths ∧ entry.2 = .int32 1 ∨ entry.1 = "_id" ∧ entry.2 = .int32 0 := by
  have included : ∀ {entry}, entry ∈ (keptPaths paths).foldl
      (fun projection path => Fields.insert path (.int32 1) projection) [] →
      entry.1 ∈ paths ∧ entry.2 = .int32 1 := by
    intro entry inside
    rcases mem_included inside with ⟨path, kept, rfl⟩ | nothing
    · exact ⟨(mem_keptPaths.mp kept).1, rfl⟩
    · cases nothing
  rw [projectionDoc_eq] at inside
  simp only at inside
  split_ifs at inside
  · exact .inl (included inside)
  · rcases Fields.mem_insert inside with rfl | earlier
    · exact .inr ⟨rfl, rfl⟩
    · exact .inl (included earlier)

structure ScanPlan (schema : Schema) (filters : List Expr) (sampleIds : Nat → Option (List Bson))
    (plan : MongoPlan) : Prop where
  unsorted : plan.sort = []
  unskipped : plan.skip = none
  filter : ∃ translated : List Translated, plan.filter = combine translated ∧
    ∀ t ∈ translated, ∃ filter ∈ filters, translate schema filter = some t
  partition : plan.partition = none ∨ ∃ n ids, sampleIds n = some ids ∧ plan.partition ∈ partitionBounds ids n
  columns : ∀ path ∈ plan.projection, path ∈ schema.map fieldPath

theorem scan_plan {provider : MongoTableProvider} {available : Option Nat} {sampleIds : Nat → Option (List Bson)}
    {projection : Option (List Nat)} {filters : List Expr} {limit : Option Nat} {exec : MongoExec}
    (scanned : provider.scan available sampleIds projection filters limit = .ok exec) {plan : MongoPlan}
    (planned : plan ∈ exec.plans) : ScanPlan provider.schema filters sampleIds plan := by
  unfold MongoTableProvider.scan at scanned
  obtain ⟨fields, projected, built⟩ := bind_ok scanned
  obtain rfl := Except.ok.inj built
  obtain ⟨partition, among, rfl⟩ := List.mem_map.mp planned
  refine ⟨rfl, rfl, ⟨_, rfl, ?_⟩, ?_, ?_⟩
  · intro t inside
    split_ifs at inside
    · obtain ⟨filter, listed, translated⟩ := List.mem_filterMap.mp inside
      exact ⟨filter, listed, translated⟩
    · cases inside
  · generalize (if limit.isSome then 1 else provider.config.effectiveParallelism available provider.docCount) = n
      at among
    split at among
    · split at among
      · rename_i ids sampled
        exact .inr ⟨n, ids, sampled, among⟩
      · exact .inl (List.mem_singleton.mp among)
    · exact .inl (List.mem_singleton.mp among)
  · intro path inside
    change path ∈ (if projection.isSome then fields.map fieldPath else []) at inside
    split_ifs at inside
    · obtain ⟨field, column, rfl⟩ := List.mem_map.mp inside
      exact List.mem_map_of_mem ((projectSchema_picked projected).1 field column)
    · cases inside

/-- The `_id`, and the columns the filters mention. -/
def Mentioned (schema : Schema) (filters : List Expr) (name : String) : Prop :=
  name = "_id" ∨ ∃ filter ∈ filters, name ∈ filter.paths schema

/-- A value without documents in it, or an id the server has sent itself. -/
def Sendable (sampleIds : Nat → Option (List Bson)) (value : Bson) : Prop :=
  value.isPlain = true ∨ ∃ n ids, sampleIds n = some ids ∧ value ∈ ids

section
variable {schema : Schema} {filters : List Expr} {sampleIds : Nat → Option (List Bson)} {plan : MongoPlan}

theorem ScanPlan.filter_shape (parts : ScanPlan schema filters sampleIds plan) {filter : Fields}
    (pushed : plan.filter = some filter) : MatchDoc (Mentioned schema filters) (Sendable sampleIds) filter := by
  obtain ⟨translated, combined, each⟩ := parts.filter
  refine combine_shape (fun t inside => ?_) (combined.symm.trans pushed)
  obtain ⟨filter, listed, same⟩ := each t inside
  exact (translate_shape filter t same).mono (fun name known => .inr ⟨filter, listed, known⟩)
    fun value plain => .inl plain

theorem ScanPlan.partition_shape (parts : ScanPlan schema filters sampleIds plan) {range : Fields}
    (bounded : plan.partition = some range) : MatchDoc (Mentioned schema filters) (Sendable sampleIds) range := by
  rcases parts.partition with none | ⟨n, ids, sampled, among⟩
  · rw [bounded] at none
    cases none
  · rw [bounded] at among
    obtain ⟨lo, hi, same, low, high⟩ := partitionBounds_ids among
    exact idRange_shape (.inl rfl) (fun value inside => .inr ⟨n, ids, sampled, low value inside⟩)
      (fun value inside => .inr ⟨n, ids, sampled, high value inside⟩) same

theorem ScanPlan.match_shape (parts : ScanPlan schema filters sampleIds plan) {stage : Fields}
    (whole : plan.matchStage = some stage) : MatchDoc (Mentioned schema filters) (Sendable sampleIds) stage := by
  unfold MongoPlan.matchStage at whole
  split at whole
  case h_1 => cases whole
  case h_2 filter pushed _ =>
    cases whole
    exact parts.filter_shape pushed
  case h_3 range _ bounded =>
    cases whole
    exact parts.partition_shape bounded
  case h_4 filter range pushed bounded =>
    cases whole
    exact .pair (by simp) (parts.filter_shape pushed) (parts.partition_shape bounded)

end

/-- Whatever the query, a scan only filters, limits and projects. Its filters name the
`_id` and the columns the query mentions, under fixed operators; a literal of the query
stands as a value without structure, never as a key. -/
theorem scan_sends_reads (provider : MongoTableProvider) (available : Option Nat)
    (sampleIds : Nat → Option (List Bson)) (projection : Option (List Nat)) (filters : List Expr) (limit : Option Nat)
    (exec : MongoExec) (scanned : provider.scan available sampleIds projection filters limit = .ok exec) :
    ∀ plan ∈ exec.plans, ∀ stage ∈ plan.toPipeline,
      ReadStage (Mentioned provider.schema filters) (Sendable sampleIds) (provider.schema.map fieldPath) stage := by
  intro plan planned stage sent
  have parts := scan_plan scanned planned
  rw [MongoPlan.toPipeline, parts.unsorted, parts.unskipped] at sent
  simp only [List.isEmpty_nil, if_true, Option.filter_none, Option.toList_none, List.map_nil, List.append_nil,
    List.mem_append] at sent
  rcases sent with (filtered | limited) | projected
  · obtain ⟨whole, inside, rfl⟩ := List.mem_map.mp filtered
    exact .filter (parts.match_shape (Option.mem_toList.mp inside))
  · obtain ⟨n, inside, rfl⟩ := List.mem_map.mp limited
    have kept := Option.filter_eq_some_iff.mp (Option.mem_toList.mp inside)
    exact .limit (of_decide_eq_true kept.2)
  · split_ifs at projected
    · cases projected
    · rw [List.mem_singleton] at projected
      subst projected
      refine .project fun entry inside => ?_
      exact (projectionDoc_entries inside).imp_left (And.imp_left (parts.columns _))

section
variable {path : String → Prop} {operand : Bson → Prop} (regex : RegexEngine) {doc other : Fields}

theorem anyAccepts_documents (clauses : List Fields) (doc : Fields) :
    anyAccepts regex (clauses.map .document) doc = clauses.any (accepts regex · doc) := by
  induction clauses with
  | nil => simp [anyAccepts]
  | cons clause rest ih => simp [anyAccepts, ih]

theorem MatchDoc.reads {filter : Fields} (shape : MatchDoc path operand filter)
    (agree : ∀ name, path name → reachPath doc name = reachPath other name) :
    accepts regex filter doc = accepts regex filter other := by
  induction shape with
  | @value name value known plain =>
      rw [accepts_single, accepts_single]
      cases value <;> first
        | (simp only [clauseAccepts, agree name known]; done)
        | cases plain
  | @operators name ops known _ => simp only [accepts_single, clauseAccepts, agree name known]
  | @connective op clauses known _ ih =>
      have all : allAccept regex (clauses.map .document) doc = allAccept regex (clauses.map .document) other := by
        rw [allAccept_documents, allAccept_documents, Bool.eq_iff_iff, List.all_eq_true, List.all_eq_true]
        exact forall₂_congr fun clause inside => by rw [ih clause inside]
      have some_of : anyAccepts regex (clauses.map .document) doc = anyAccepts regex (clauses.map .document) other := by
        rw [anyAccepts_documents, anyAccepts_documents, Bool.eq_iff_iff, List.any_eq_true, List.any_eq_true]
        exact exists_congr fun clause => and_congr_right fun inside => by rw [ih clause inside]
      simp only [List.mem_cons, List.not_mem_nil, or_false] at known
      rcases known with rfl | rfl | rfl <;> simp [accepts_single, clauseAccepts, all, some_of]

end

/-- Fields the query does not mention have no say in what a scan finds: documents that
agree at the mentioned columns and the `_id` are both found or both passed over. -/
theorem scan_reads_mentioned (provider : MongoTableProvider) (available : Option Nat)
    (sampleIds : Nat → Option (List Bson)) (projection : Option (List Nat)) (filters : List Expr) (limit : Option Nat)
    (exec : MongoExec) (regex : RegexEngine) (doc other : Document)
    (scanned : provider.scan available sampleIds projection filters limit = .ok exec)
    (agree : ∀ name, Mentioned provider.schema filters name →
      reachPath doc.fields name = reachPath other.fields name) :
    ∀ plan ∈ exec.plans, plan.passes regex doc = plan.passes regex other := by
  intro plan planned
  have parts := scan_plan scanned planned
  rw [passes_matchStage]
  cases whole : plan.matchStage with
  | none => rfl
  | some stage => exact (parts.match_shape whole).reads regex agree

/-- `{size: 7}` with and without a field nobody asks for. -/
def crateOfSeven : Document := ⟨[("size", .int32 7)], rfl⟩
def labelledCrateOfSeven : Document := ⟨[("size", .int32 7), ("$where", .string "sleep(1000)")], rfl⟩

theorem scan_sends_reads_shipments :
    ∃ exec, shipmentsScan PushdownConfig.default [sizeIs .eq 1] (some 2) = .ok exec ∧
      ∀ plan ∈ exec.plans, ∀ stage ∈ plan.toPipeline,
        ReadStage (Mentioned (inferredSchema shipments 4) [sizeIs .eq 1]) (Sendable fun _ => none)
          ((inferredSchema shipments 4).map fieldPath) stage := by
  obtain ⟨exec, scanned⟩ := ok_of_isOk (x := shipmentsScan PushdownConfig.default [sizeIs .eq 1] (some 2)) (by decide)
  exact ⟨exec, scanned, scan_sends_reads (shipmentsTable PushdownConfig.default) none (fun _ => none) none
    [sizeIs .eq 1] (some 2) exec scanned⟩

theorem scan_reads_mentioned_shipments :
    ∃ exec, shipmentsScan PushdownConfig.default [sizeIs .eq 1] none = .ok exec ∧
      ∀ plan ∈ exec.plans, plan.passes noRegex crateOfSeven = plan.passes noRegex labelledCrateOfSeven := by
  obtain ⟨exec, scanned⟩ := ok_of_isOk (x := shipmentsScan PushdownConfig.default [sizeIs .eq 1] none) (by decide)
  refine ⟨exec, scanned, scan_reads_mentioned (shipmentsTable PushdownConfig.default) none (fun _ => none) none
    [sizeIs .eq 1] none exec noRegex crateOfSeven labelledCrateOfSeven scanned ?_⟩
  have paths : (sizeIs .eq 1).paths (inferredSchema shipments 4) = ["size"] := by decide
  rintro name (rfl | ⟨filter, only, known⟩)
  · rfl
  · obtain rfl := List.mem_singleton.mp only
    rw [show (shipmentsTable PushdownConfig.default).schema = inferredSchema shipments 4 from rfl, paths] at known
    obtain rfl := List.mem_singleton.mp known
    rfl

end Auger
