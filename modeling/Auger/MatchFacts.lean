import Auger.Columns
import Auger.MongoServer

set_option autoImplicit false

/-! How `$match` reads a column: the values it reaches along a chain of keys, and
the operators on them. -/

namespace Auger

theorem byteTokens_lt (left right : List Nat) : byteTokens left < byteTokens right ↔ left < right := by
  induction left generalizing right with
  | nil =>
      cases right with
      | nil => simp [byteTokens]
      | cons b rest =>
          have positive : (0 : ℚ) < ((b + 1 : Nat) : ℚ) := by exact_mod_cast Nat.succ_pos _
          simp only [byteTokens, List.cons_lt_cons_iff, List.nil_lt_cons, iff_true]
          exact Or.inl positive
  | cons a rest ih =>
      cases right with
      | nil =>
          have positive : (0 : ℚ) < ((a + 1 : Nat) : ℚ) := by exact_mod_cast Nat.succ_pos _
          simp only [byteTokens, List.cons_lt_cons_iff, List.not_lt_nil, iff_false, and_false, or_false]
          exact positive.not_gt
      | cons b rest' =>
          simp only [byteTokens, List.cons_lt_cons_iff, ih, Nat.cast_lt, Nat.cast_inj,
            Nat.add_lt_add_iff_right, Nat.add_right_cancel_iff]

theorem typeClass_null (v : Bson) : v.typeClass = Bson.null.typeClass ↔ v.isNull = true := by
  cases v <;> simp [Bson.typeClass, Bson.isNull]

theorem equalTo_class {operand candidate : Bson} (equal : equalTo operand candidate = true) :
    candidate.typeClass = operand.typeClass := by
  have keys : candidate.sortKey = operand.sortKey := by simpa [equalTo] using equal
  simpa [Bson.sortKey] using (List.cons.inj keys).1

theorem matchClass_eq_iff {a b : Bson} :
    a.matchClass = b.matchClass ↔ a.typeClass = b.typeClass ∧ a.isNaN = b.isNaN := by
  unfold Bson.matchClass
  cases a.isNaN <;> cases b.isNaN <;>
    simp only [Bool.false_eq_true, if_true, if_false, reduceCtorEq, and_true, and_false, iff_false] <;> omega

theorem matchClass_null (v : Bson) : v.matchClass = Bson.null.matchClass ↔ v.isNull = true := by
  rw [matchClass_eq_iff, typeClass_null, and_iff_left_iff_imp]
  cases v <;> simp [Bson.isNull, Bson.isNaN]

theorem numberTokens_double {x : F64} (number : x.isNan = false) : [0] < x.numberTokens := by
  unfold F64.numberTokens
  split_ifs <;> simp_all [List.cons_lt_cons_iff]

theorem numberTokens_decimal {d : Decimal128} (number : d ≠ .nan) : [0] < d.numberTokens := by
  cases d with
  | nan => exact absurd rfl number
  | infinity negative => cases negative <;> simp [Decimal128.numberTokens, List.cons_lt_cons_iff]
  | finite negative coefficient exponent => simp [Decimal128.numberTokens, List.cons_lt_cons_iff]

/-- NaN comes before every other number. -/
theorem beyond_isNaN {v : Bson} (number : v.typeClass = 10) (other : v.isNaN = false) :
    [10, 0] < v.sortKey := by
  have payload : [0] < v.payload := by
    cases v <;> simp only [Bson.typeClass, reduceCtorEq, Nat.reduceEqDiff] at number
    case double x => exact numberTokens_double other
    case decimal128 d =>
      refine numberTokens_decimal fun nan => ?_
      rw [nan] at other
      cases other
    all_goals simp [Bson.payload, List.cons_lt_cons_iff]
  rw [Bson.sortKey, number]
  exact List.cons_lt_cons_iff.mpr (.inr ⟨by norm_num, payload⟩)

theorem sortKey_isNaN {v : Bson} (nan : v.isNaN = true) : v.sortKey = [10, 0] := by
  cases v <;> simp only [Bson.isNaN, reduceCtorEq] at nan
  case double x => simp [Bson.sortKey, Bson.typeClass, Bson.payload, F64.numberTokens, nan]
  case decimal128 d =>
    cases d <;> simp only [reduceCtorEq] at nan
    simp [Bson.sortKey, Bson.typeClass, Bson.payload, Decimal128.numberTokens]

theorem typeClass_isNaN {v : Bson} (nan : v.isNaN = true) : v.typeClass = 10 := by
  cases v <;> first | rfl | cases nan

theorem sortKey_class {a b : Bson} (order : a.sortKey ≤ b.sortKey) : a.typeClass ≤ b.typeClass := by
  by_contra later
  have earlier : ((b.typeClass : Nat) : ℚ) < ((a.typeClass : Nat) : ℚ) := by
    exact_mod_cast not_le.mp later
  have before : b.sortKey < a.sortKey := by
    simp only [Bson.sortKey, List.cons_lt_cons_iff]
    exact .inl earlier
  exact absurd order (not_le.mpr before)

theorem sortKey_matchClass {a b : Bson} (order : a.sortKey ≤ b.sortKey) : a.matchClass ≤ b.matchClass := by
  have classes := sortKey_class order
  unfold Bson.matchClass
  cases second : b.isNaN with
  | false =>
      simp only [Bool.false_eq_true, if_false]
      split_ifs <;> omega
  | true =>
      rw [sortKey_isNaN second] at order
      rw [typeClass_isNaN second] at classes ⊢
      cases first : a.isNaN with
      | true => simp only [if_true]; omega
      | false =>
          have differ : a.typeClass ≠ 10 := fun number => absurd order (not_le.mpr (beyond_isNaN number first))
          simp only [Bool.false_eq_true, if_true, if_false]
          omega

theorem equalTo_matchClass {operand candidate : Bson} (equal : equalTo operand candidate = true) :
    candidate.matchClass = operand.matchClass := by
  have keys : candidate.sortKey = operand.sortKey := by simpa [equalTo] using equal
  exact le_antisymm (sortKey_matchClass keys.le) (sortKey_matchClass keys.ge)

theorem equalTo_null (candidate : Bson) : equalTo .null candidate = candidate.isNull := by
  cases candidate <;> simp [equalTo, Bson.sortKey, Bson.typeClass, Bson.payload, Bson.isNull]

/-- What `$match` tests where one value, or none, stands. -/
def candidates : Option Bson → List Bson
  | some v => leafCandidates v
  | none => [.null]

theorem candidates_scalar {v : Bson} (scalar : v.isArray = false) : candidates (some v) = [v] := by
  cases v <;> first | rfl | cases scalar

theorem foldl_childSlot_none (keys : List String) :
    keys.foldl (fun v key => childSlot key v) none = none := by
  induction keys with
  | nil => rfl
  | cons key rest ih => exact ih

theorem reach_chain (keys : List String) (v : Bson)
    (scalar : ∀ before key after, keys = before ++ key :: after → ∀ u,
      before.foldl (fun v key => childSlot key v) (some v) = some u → u.isArray = false) :
    reach keys v = candidates (keys.foldl (fun v key => childSlot key v) (some v)) := by
  induction keys generalizing v with
  | nil => simp [reach, candidates]
  | cons key rest ih =>
      have here := scalar [] key rest rfl v rfl
      rw [List.foldl_cons]
      cases v with
      | document fields =>
          simp only [reach, childSlot_document]
          cases found : fields.lookup key with
          | none =>
              simp only [foldl_childSlot_none]
              rfl
          | some next =>
              refine ih next fun before k after split u inside => ?_
              refine scalar (key :: before) k after (by rw [split]; rfl) u ?_
              simpa only [List.foldl_cons, childSlot_document, found] using inside
      | array items => simp [Bson.isArray] at here
      | _ =>
          simp only [reach]
          rw [show childSlot key (some _) = none from rfl, foldl_childSlot_none]
          rfl

theorem SlotAt.before {docs : List Document} {keys : List String} {fs : FieldShape}
    (slot : SlotAt (Sampler.observeAll docs).root keys fs) {doc : Document} (member : doc ∈ docs) :
    ∀ before key after, keys = before ++ key :: after → ∀ u,
      valueAt doc before = some u → u.isArray = false := by
  induction slot with
  | @root key fs found =>
      intro before k after split u inside
      cases before with
      | nil =>
          cases inside
          rfl
      | cons first rest => simp at split
  | @child keys fs child fields key inner document found ih =>
      intro before k after split u inside
      rcases List.eq_nil_or_concat after with rfl | ⟨init, last, rfl⟩
      · obtain ⟨same, -⟩ := List.append_inj' split rfl
        subst same
        have explained := inner.explains
        rw [document] at explained
        simp only [Explains] at explained
        rcases explained.1 u (mem_valuesUnder member inside) with null | ⟨fields, rfl⟩
        · exact Bson.isArray_of_isNull null
        · rfl
      · rw [List.concat_eq_append, ← List.cons_append, ← List.append_assoc] at split
        obtain ⟨shorter, -⟩ := List.append_inj' split rfl
        exact ih before k init shorter u inside

theorem reachPath_slot {docs : List Document} {keys : List String} {fs : FieldShape}
    (slot : SlotAt (Sampler.observeAll docs).root keys fs) (plain : ∀ key ∈ keys, '.' ∉ key.toList)
    {doc : Document} (member : doc ∈ docs) :
    reachPath doc.fields (dotted keys) = candidates (valueAt doc keys) := by
  rw [reachPath, pathParts_dotted slot.nonempty plain]
  exact reach_chain keys (.document doc.fields) (slot.before member)

theorem startsWithDollar_dotted {keys : List String} (plain : ∀ key ∈ keys, startsWithDollar key = false) :
    startsWithDollar (dotted keys) = false := by
  induction keys using List.reverseRecOn with
  | nil => rfl
  | append_singleton keys key ih =>
      by_cases single : keys = []
      · subst single
        exact plain key (by simp)
      · have before := ih fun k inside => plain k (List.mem_append_left _ inside)
        rw [dotted_snoc single]
        unfold startsWithDollar at before ⊢
        rw [String.toList_append, String.toList_append]
        cases chars : (dotted keys).toList with
        | nil => simp
        | cons c rest => simpa [chars] using before

section
variable (regex : RegexEngine)

theorem accepts_single (key : String) (condition : Bson) (doc : Fields) :
    accepts regex [(key, condition)] doc = clauseAccepts regex key condition doc := by
  simp [accepts]

theorem allAccept_documents (filters : List Fields) (doc : Fields) :
    allAccept regex (filters.map .document) doc = filters.all (accepts regex · doc) := by
  induction filters with
  | nil => simp [allAccept]
  | cons filter rest ih => simp [allAccept, ih]

@[simp] theorem accepts_and (left right doc : Fields) :
    accepts regex [("$and", .array [.document left, .document right])] doc =
      (accepts regex left doc && accepts regex right doc) := by
  simp [accepts, clauseAccepts, allAccept]

@[simp] theorem accepts_or (left right doc : Fields) :
    accepts regex [("$or", .array [.document left, .document right])] doc =
      (accepts regex left doc || accepts regex right doc) := by
  simp [accepts, clauseAccepts, anyAccepts]

/-- A condition at a path that looks like an operator accepts nothing. -/
theorem accepts_dollar {path : String} (dollar : startsWithDollar path = true) (ops doc : Fields) :
    accepts regex [(path, .document ops)] doc = false := by
  simp [accepts_single, clauseAccepts, dollar]

theorem accepts_at {path : String} (plain : startsWithDollar path = false) (condition : Bson)
    (scalar : condition.isArray = false) (doc : Fields) :
    accepts regex [(path, condition)] doc =
      conditionAccepts regex condition (reachPath doc path) := by
  rw [accepts_single]
  cases condition <;> first | (simp [clauseAccepts, plain]; done) | cases scalar

theorem operatorAccepts_comparison {op : String} (comparison : op ∈ ["$eq", "$ne", "$lt", "$lte", "$gt", "$gte"])
    (ops : Fields) (operand : Bson) (reached : List Bson) :
    operatorAccepts regex op ops operand reached = comparisonAccepts op operand reached := by
  have others : op ≠ "$in" ∧ op ≠ "$nin" ∧ op ≠ "$not" ∧ op ≠ "$regex" ∧ op ≠ "$options" := by
    simp only [List.mem_cons, List.not_mem_nil, or_false] at comparison
    rcases comparison with rfl | rfl | rfl | rfl | rfl | rfl <;> decide
  obtain ⟨notIn, notNin, notNot, notRegex, notOptions⟩ := others
  cases operand <;> simp [operatorAccepts, notIn, notNin, notNot, notRegex, notOptions]

theorem accepts_comparison {path op : String} (plain : startsWithDollar path = false)
    (comparison : op ∈ ["$eq", "$ne", "$lt", "$lte", "$gt", "$gte"]) (operand : Bson) (doc : Fields) :
    accepts regex [(path, .document [(op, operand)])] doc =
      comparisonAccepts op operand (reachPath doc path) := by
  have dollar : startsWithDollar op = true := by
    simp only [List.mem_cons, List.not_mem_nil, or_false] at comparison
    rcases comparison with rfl | rfl | rfl | rfl | rfl | rfl <;> decide
  rw [accepts_at regex plain _ rfl]
  simp [conditionAccepts, isOperatorDoc, dollar, operatorsAccept,
    operatorAccepts_comparison regex comparison]

theorem accepts_pair {path first second : String} (plain : startsWithDollar path = false)
    (one : first ∈ ["$eq", "$ne", "$lt", "$lte", "$gt", "$gte"])
    (two : second ∈ ["$eq", "$ne", "$lt", "$lte", "$gt", "$gte"]) (left right : Bson) (doc : Fields) :
    accepts regex [(path, .document [(first, left), (second, right)])] doc =
      (comparisonAccepts first left (reachPath doc path) &&
        comparisonAccepts second right (reachPath doc path)) := by
  have dollar : startsWithDollar first = true := by
    simp only [List.mem_cons, List.not_mem_nil, or_false] at one
    rcases one with rfl | rfl | rfl | rfl | rfl | rfl <;> decide
  rw [accepts_at regex plain _ rfl]
  simp [conditionAccepts, isOperatorDoc, dollar, operatorsAccept, operatorAccepts_comparison regex one,
    operatorAccepts_comparison regex two]

theorem accepts_range {path : String} (plain : startsWithDollar path = false) (low high : Bson)
    (doc : Fields) :
    accepts regex [(path, .document [("$gte", low), ("$lte", high)])] doc =
      (comparisonAccepts "$gte" low (reachPath doc path) &&
        comparisonAccepts "$lte" high (reachPath doc path)) :=
  accepts_pair regex plain (by simp) (by simp) low high doc

theorem accepts_in {path : String} (plain : startsWithDollar path = false) (values : List Bson)
    (doc : Fields) :
    accepts regex [(path, .document [("$in", .array values)])] doc =
      values.any fun v => (reachPath doc path).any (equalTo v) := by
  have dollar : startsWithDollar "$in" = true := by decide
  rw [accepts_at regex plain _ rfl]
  simp [conditionAccepts, isOperatorDoc, dollar, operatorsAccept, operatorAccepts]

theorem accepts_nin {path : String} (plain : startsWithDollar path = false) (values : List Bson)
    (doc : Fields) :
    accepts regex [(path, .document [("$nin", .array values)])] doc =
      !values.any fun v => (reachPath doc path).any (equalTo v) := by
  have dollar : startsWithDollar "$nin" = true := by decide
  rw [accepts_at regex plain _ rfl]
  simp [conditionAccepts, isOperatorDoc, dollar, operatorsAccept, operatorAccepts]

theorem accepts_notNull {path : String} (plain : startsWithDollar path = false) (doc : Fields) :
    accepts regex [(path, .document [("$ne", .null)])] doc =
      !(reachPath doc path).any Bson.isNull := by
  rw [accepts_comparison regex plain (by simp)]
  have same : equalTo .null = Bson.isNull := funext equalTo_null
  simp [comparisonAccepts, same]

theorem accepts_excludeNull {path : String} (plain : startsWithDollar path = false) (inner doc : Fields) :
    accepts regex (excludeNull path inner) doc =
      (accepts regex inner doc && !(reachPath doc path).any Bson.isNull) := by
  rw [excludeNull, accepts_and, accepts_notNull regex plain]

end

end Auger
