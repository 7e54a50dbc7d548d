import Auger.Exactness
import Auger.FilterTests

set_option autoImplicit false

/-! Time literals against stored dates: a date is a whole millisecond, a literal any
instant its unit can spell, and the pushed literal is the millisecond it lies in. -/

namespace Auger

open General

/-- A literal that denotes an instant. -/
inductive TimeLiteral
  | second (value : Int64) (timezone : Option String)
  | millisecond (value : Int64) (timezone : Option String)
  | microsecond (value : Int64) (timezone : Option String)
  | nanosecond (value : Int64) (timezone : Option String)
  | date32 (days : Int32)
  | date64 (millis : Int64)

namespace TimeLiteral

def toScalar : TimeLiteral → ScalarValue
  | .second v timezone => .timestampSecond (some v) timezone
  | .millisecond v timezone => .timestampMillisecond (some v) timezone
  | .microsecond v timezone => .timestampMicrosecond (some v) timezone
  | .nanosecond v timezone => .timestampNanosecond (some v) timezone
  | .date32 days => .date32 (some days)
  | .date64 millis => .date64 (some millis)

def toExpr (literal : TimeLiteral) : Expr := .literal literal.toScalar

def nanos : TimeLiteral → Int
  | .second v _ => v.toInt * 1000000000
  | .millisecond v _ => v.toInt * 1000000
  | .microsecond v _ => v.toInt * 1000
  | .nanosecond v _ => v.toInt
  | .date32 days => days.toInt * 86400 * 1000000000
  | .date64 millis => millis.toInt * 1000000

def millis (literal : TimeLiteral) : Int := literal.nanos / 1000000

/-- The instant lies inside a millisecond, after its start. -/
def Inside (literal : TimeLiteral) (date : Int) : Prop :=
  literal.millis = date ∧ literal.nanos ≠ date * 1000000

instance (literal : TimeLiteral) (date : Int) : Decidable (literal.Inside date) :=
  inferInstanceAs (Decidable (_ ∧ _))

end TimeLiteral

abbrev TimePredicate := LiteralTest TimeLiteral

namespace TimePredicate

def holdsAt (predicate : TimePredicate) (instant : Int) : Bool :=
  (predicate.test TimeLiteral.nanos).holds (some instant)

/-- Taking the literals down to whole milliseconds keeps the answer on a date. -/
def Kept (date : Int) : TimePredicate → Prop
  | .compare op _ literal => literal.Inside date → op = .ltEq ∨ op = .gt
  | .compareFlipped op _ literal => literal.Inside date → op = .gtEq ∨ op = .lt
  | .between _ low high => low.Inside date → high.millis < date
  | .inList _ literal others =>
      (∃ item ∈ literal :: others, item.Inside date) → ∃ item ∈ literal :: others, item.nanos = date * 1000000

end TimePredicate

theorem checkedMul64_toInt {a b : Int} {m : Int64} (fits : checkedMul64 a b = some m) : m.toInt = a * b := by
  unfold checkedMul64 at fits
  split_ifs at fits with inside
  rw [← Option.some.inj fits]
  exact Int64.toInt_ofInt_of_le inside.1 inside.2

theorem divEuclid_toInt (v : Int64) {divisor : Int} (positive : 0 < divisor) :
    (divEuclid v divisor).toInt = v.toInt / divisor := by
  have low := v.le_toInt
  have high := v.toInt_lt
  have beneath : -2 ^ 63 ≤ v.toInt / divisor := by
    apply Int.le_ediv_of_mul_le positive
    calc -2 ^ 63 * divisor
        ≤ -2 ^ 63 * 1 := Int.mul_le_mul_of_nonpos_left (by decide) (by omega)
      _ ≤ v.toInt := by omega
  have above : v.toInt / divisor < 2 ^ 63 := by
    apply Int.ediv_lt_of_lt_mul positive
    calc v.toInt
        < 2 ^ 63 * 1 := by omega
      _ ≤ 2 ^ 63 * divisor := Int.mul_le_mul_of_nonneg_left (by omega) (by decide)
  exact Int64.toInt_ofInt_of_le beneath above

theorem TimeLiteral.pushed {literal : TimeLiteral} {operand : Bson}
    (emitted : scalarToBson literal.toScalar .dateTime = some operand) :
    OfClass (Bson.dateTime 0).matchClass operand ∧ operand.payload = [(literal.millis : ℚ)] := by
  have date : ∀ m : Int64, m.toInt = literal.millis → operand = .dateTime m →
      OfClass (Bson.dateTime 0).matchClass operand ∧ operand.payload = [(literal.millis : ℚ)] := by
    intro m known same
    rw [same, ← known]
    exact ⟨⟨rfl, rfl⟩, by rw [Bson.payload]⟩
  cases literal with
  | second v timezone =>
      obtain ⟨m, fits, same⟩ := Option.map_eq_some_iff.mp emitted
      apply date m _ same.symm
      rw [checkedMul64_toInt fits, TimeLiteral.millis, TimeLiteral.nanos]
      omega
  | millisecond v timezone =>
      apply date v _ (Option.some.inj emitted).symm
      rw [TimeLiteral.millis, TimeLiteral.nanos]
      omega
  | microsecond v timezone =>
      apply date _ _ (Option.some.inj emitted).symm
      rw [divEuclid_toInt v (by decide), TimeLiteral.millis, TimeLiteral.nanos]
      omega
  | nanosecond v timezone =>
      apply date _ _ (Option.some.inj emitted).symm
      rw [divEuclid_toInt v (by decide), TimeLiteral.millis, TimeLiteral.nanos]
  | date32 days =>
      obtain ⟨m, fits, same⟩ := Option.map_eq_some_iff.mp emitted
      apply date m _ same.symm
      rw [checkedMul64_toInt fits, TimeLiteral.millis, TimeLiteral.nanos]
      omega
  | date64 millis =>
      apply date millis _ (Option.some.inj emitted).symm
      rw [TimeLiteral.millis, TimeLiteral.nanos]
      omega

theorem TimeLiteral.order_nanos (literal : TimeLiteral) (date : Int) :
    order (date * 1000000) literal.nanos =
      if literal.Inside date then .lt else order date literal.millis := by
  have floor : literal.millis = literal.nanos / 1000000 := rfl
  by_cases inside : literal.Inside date
  · rw [if_pos inside, order, cmp_eq_lt_iff]
    obtain ⟨same, differ⟩ := inside
    omega
  · rw [if_neg inside]
    rw [TimeLiteral.Inside, not_and_not_right] at inside
    rcases lt_trichotomy date literal.millis with below | equal | above
    · rw [order, order, (cmp_eq_lt_iff _ _).mpr below, cmp_eq_lt_iff]
      omega
    · rw [order, order, (cmp_eq_eq_iff _ _).mpr equal, cmp_eq_eq_iff]
      exact (inside equal.symm).symm
    · rw [order, order, (cmp_eq_gt_iff _ _).mpr above, cmp_eq_gt_iff]
      omega

theorem TimeLiteral.inside_equal {literal : TimeLiteral} {date : Int} (inside : literal.Inside date) :
    order date literal.millis = .eq := by
  rw [order, cmp_eq_eq_iff]
  exact inside.1.symm

namespace TimePredicate

/-- A comparison with an instant keeps its answer on the millisecond unless the date
is the instant's own millisecond and the relation tells less from equal. -/
theorem comparison_kept {op : Operator} (comparison : op.isComparison = true) (literal : TimeLiteral)
    (date : Int) :
    ((comparisonTest op literal.millis).holds (some date) = true ↔
        (comparisonTest op literal.nanos).holds (some (date * 1000000)) = true) ↔
      (literal.Inside date → op = .ltEq ∨ op = .gt) := by
  rw [comparisonTest_holds comparison, comparisonTest_holds comparison, Option.map_some, Option.map_some,
    TimeLiteral.order_nanos]
  by_cases inside : literal.Inside date
  · rw [if_pos inside, TimeLiteral.inside_equal inside]
    cases op <;> first
      | (cases comparison; done)
      | simp [Operator.holds, inside]
  · simp [inside]

theorem between_kept (negated : Bool) (low high : TimeLiteral) (date : Int) :
    (((LiteralTest.between negated low high).test TimeLiteral.millis).holds (some date) = true ↔
        ((LiteralTest.between negated low high).test TimeLiteral.nanos).holds (some (date * 1000000)) = true) ↔
      (low.Inside date → high.millis < date) := by
  have lower : low.millis = low.nanos / 1000000 := rfl
  have upper : high.millis = high.nanos / 1000000 := rfl
  unfold TimeLiteral.Inside
  cases negated with
  | false =>
      simp only [LiteralTest.test, OrderTest.holds, Option.any_some, Bool.and_eq_true, Relation.atMost_iff,
        Relation.atLeast_iff]
      omega
  | true =>
      simp only [LiteralTest.test, OrderTest.holds, Option.any_some, Bool.or_eq_true, Relation.lt_relates,
        Relation.gt_relates]
      omega

/-- A list over milliseconds finds a date that it does not find over instants. -/
theorem inList_kept (negated : Bool) (literal : TimeLiteral) (others : List TimeLiteral) (date : Int) :
    (((LiteralTest.inList negated literal others).test TimeLiteral.millis).holds (some date) = true ↔
        ((LiteralTest.inList negated literal others).test TimeLiteral.nanos).holds
          (some (date * 1000000)) = true) ↔
      ((∃ item ∈ literal :: others, item.Inside date) →
        ∃ item ∈ literal :: others, item.nanos = date * 1000000) := by
  have floor : ∀ item : TimeLiteral, item.millis = item.nanos / 1000000 := fun item => rfl
  have exact : ((literal :: others).map TimeLiteral.nanos).any (Relation.eq.relates (date * 1000000)) = true ↔
      ∃ item ∈ literal :: others, item.nanos = date * 1000000 := by
    rw [Relation.any_eq_relates, List.mem_map]
  have taken : ((literal :: others).map TimeLiteral.millis).any (Relation.eq.relates date) = true ↔
      (∃ item ∈ literal :: others, item.Inside date) ∨
        ∃ item ∈ literal :: others, item.nanos = date * 1000000 := by
    calc ((literal :: others).map TimeLiteral.millis).any (Relation.eq.relates date) = true
        ↔ ∃ item ∈ literal :: others, item.millis = date := by rw [Relation.any_eq_relates, List.mem_map]
      _ ↔ ∃ item ∈ literal :: others, item.Inside date ∨ item.nanos = date * 1000000 := by
          apply exists_congr
          intro item
          apply and_congr_right
          intro _
          rw [TimeLiteral.Inside, floor item]
          omega
      _ ↔ _ := by simp only [and_or_left, exists_or]
  generalize (∃ item ∈ literal :: others, item.Inside date) = inside at taken ⊢
  generalize (∃ item ∈ literal :: others, item.nanos = date * 1000000) = named at exact taken ⊢
  cases negated with
  | false =>
      simp only [LiteralTest.test, OrderTest.holds, Option.any_some, taken, exact]
      tauto
  | true =>
      simp only [LiteralTest.test, OrderTest.holds, Option.any_some, ← List.map_cons, Bool.not_eq_true', ← Bool.not_eq_true,
        taken, exact]
      tauto

theorem kept_iff (predicate : TimePredicate) (date : Int) :
    ((predicate.test TimeLiteral.millis).holds (some date) = true ↔ predicate.holdsAt (date * 1000000) = true) ↔
      predicate.Kept date := by
  cases predicate with
  | compare op comparison literal => exact comparison_kept comparison literal date
  | compareFlipped op comparison literal =>
      have flipped : (flip op).isComparison = true := by cases op <;> first | rfl | cases comparison
      have named : (flip op = .ltEq ∨ flip op = .gt) ↔ (op = .gtEq ∨ op = .lt) := by cases op <;> simp [flip]
      rw [Kept, ← named]
      exact comparison_kept flipped literal date
  | between negated low high => exact between_kept negated low high date
  | inList negated literal others => exact inList_kept negated literal others date

end TimePredicate

def datePlace (n : Int) : List ℚ := [(n : ℚ)]

theorem datePlace_strictMono : StrictMono datePlace := by
  intro a b below
  simpa [datePlace, List.cons_lt_cons_iff] using below

section
variable (regex : RegexEngine) {schema : Schema} {column : Expr} {c : ColumnRef} {predicate : TimePredicate}
  {t : Translated} {doc : Fields} {date : Int64}
  (resolved : resolveColumn schema column = some c) (tagged : c.tag = .dateTime)
  (translated : translate schema (predicate.toExpr TimeLiteral.toExpr column) = some t)
  (path : startsWithDollar c.path = false) (stored : reachPath doc c.path = [.dateTime date])

include resolved tagged translated path stored

theorem timePredicate_accepts :
    accepts regex t.filter doc = (predicate.test TimeLiteral.millis).holds (some date.toInt) := by
  have pushed : ∀ literal ∈ predicate.literals, ∀ operand, literalOf literal.toExpr c = some operand →
      OfClass (Bson.dateTime 0).matchClass operand ∧ operand.payload = datePlace literal.millis := by
    intro literal _ operand emitted
    rw [TimeLiteral.toExpr, literalOf, tagged] at emitted
    exact TimeLiteral.pushed emitted
  have standing : standingAtPath (some (Bson.dateTime 0).matchClass) c.path doc = [.place (datePlace date.toInt)] := by
    rw [standingAtPath, path, if_neg Bool.false_ne_true, stored]
    simp [Bson.standingIn, Bson.isNull, Bson.matchClass, Bson.isNaN, Bson.typeClass, Bson.payload, datePlace]
  have faithful : Faithful [.place (datePlace date.toInt)] (some (datePlace date.toInt)) := by
    simp [Faithful]
  calc accepts regex t.filter doc
      = (predicate.test fun literal => datePlace literal.millis).found
          (standingAtPath (some (Bson.dateTime 0).matchClass) c.path doc) :=
        literalTest_accepts regex resolved (fun _ => rfl) pushed translated doc
    _ = (predicate.test fun literal => datePlace literal.millis).holds (some (datePlace date.toInt)) := by
        rw [standing, OrderTest.found_of_faithful faithful]
    _ = ((predicate.test TimeLiteral.millis).map datePlace).holds ((some date.toInt).map datePlace) := by
        rw [LiteralTest.test_map]
        rfl
    _ = (predicate.test TimeLiteral.millis).holds (some date.toInt) :=
        OrderTest.holds_map datePlace_strictMono _ _

end

/-- On a date-tagged column, a document with one date at the path is accepted as the
exact instants compare if and only if taking the literals down to whole milliseconds
keeps the answer. -/
theorem instants_kept_iff (regex : RegexEngine) (schema : Schema) (column : Expr) (c : ColumnRef)
    (predicate : TimePredicate) (t : Translated) (doc : Fields) (date : Int64)
    (resolved : resolveColumn schema column = some c) (tagged : c.tag = .dateTime)
    (translated : translate schema (predicate.toExpr TimeLiteral.toExpr column) = some t)
    (path : startsWithDollar c.path = false) (stored : reachPath doc c.path = [.dateTime date]) :
    (accepts regex t.filter doc = true ↔ predicate.holdsAt (date.toInt * 1000000) = true) ↔
      TimePredicate.Kept date.toInt predicate := by
  rw [timePredicate_accepts regex resolved tagged translated path stored]
  exact TimePredicate.kept_iff predicate date.toInt

def sentMessages : List Document := [⟨[("sentAt", .dateTime 0)], rfl⟩]

def sentSchema : Schema := inferredSchema sentMessages 4

theorem sentAt_resolved : ∃ c, resolveColumn sentSchema (.column "sentAt") = some c ∧ c.tag = .dateTime ∧
    c.path = "sentAt" ∧ c.mixed = false := by
  have known : (resolveColumn sentSchema (.column "sentAt")).map (fun c => (c.tag, c.path, c.mixed)) =
      some (.dateTime, "sentAt", false) := by decide +kernel
  obtain ⟨c, resolved, facts⟩ := Option.map_eq_some_iff.mp known
  simp only [Prod.mk.injEq] at facts
  exact ⟨c, resolved, facts.1, facts.2.1, facts.2.2⟩

theorem sentAt_stored : reachPath [("sentAt", .dateTime 0)] "sentAt" = [.dateTime 0] := by
  have parts : pathParts "sentAt" = ["sentAt"] := by decide +kernel
  rw [reachPath, parts]
  rfl

def justAfter : TimeLiteral := .nanosecond 1 none

theorem justAfter_translates {op : Operator} (comparison : op.isComparison = true) :
    ∃ t, translate sentSchema
        (LiteralTest.toExpr TimeLiteral.toExpr (.column "sentAt") (.compare op comparison justAfter)) = some t ∧
      t.exact = true := by
  obtain ⟨c, resolved, tagged, path, unmixed⟩ := sentAt_resolved
  have emitted : literalOf justAfter.toExpr c = some (.dateTime (divEuclid 1 1000000)) := by
    rw [TimeLiteral.toExpr, literalOf, tagged]
    rfl
  obtain ⟨mongoOp, named⟩ : ∃ mongoOp, mongoOperator op = some mongoOp := by
    cases op <;> first | (cases comparison; done) | exact ⟨_, rfl⟩
  rw [LiteralTest.toExpr, translate_comparison comparison, isLiteral_of_resolved resolved]
  change ∃ t, translateComparison sentSchema (.column "sentAt") op justAfter.toExpr = some t ∧ _
  simp only [translateComparison, resolved, emitted, named, unmixed, Option.bind_eq_bind, Option.bind_some,
    Bool.not_false]
  exact ⟨_, rfl, rfl⟩

/-- The stored epoch equals the instant one nanosecond later. -/
theorem instant_missed : ¬∀ (regex : RegexEngine) (schema : Schema) (column : Expr) (c : ColumnRef)
    (predicate : TimePredicate) (t : Translated) (doc : Fields) (date : Int64),
    resolveColumn schema column = some c → c.tag = .dateTime → c.mixed = false →
    translate schema (predicate.toExpr TimeLiteral.toExpr column) = some t → t.exact = true →
    startsWithDollar c.path = false → reachPath doc c.path = [.dateTime date] →
    (accepts regex t.filter doc = true ↔ predicate.holdsAt (date.toInt * 1000000) = true) := by
  intro claimed
  obtain ⟨c, resolved, tagged, path, unmixed⟩ := sentAt_resolved
  obtain ⟨t, translated, exact⟩ := justAfter_translates (show Operator.eq.isComparison = true from rfl)
  have same := claimed noRegex sentSchema (.column "sentAt") c (.compare .eq rfl justAfter) t
    [("sentAt", .dateTime 0)] 0 resolved tagged unmixed translated exact (by rw [path]; decide)
    (by rw [path]; exact sentAt_stored)
  have accepted : accepts noRegex t.filter [("sentAt", .dateTime 0)] = true := by
    rw [timePredicate_accepts noRegex resolved tagged translated (by rw [path]; decide)
      (by rw [path]; exact sentAt_stored)]
    decide
  have differs : TimePredicate.holdsAt (.compare .eq rfl justAfter) ((0 : Int64).toInt * 1000000) = false := by
    decide
  rw [differs] at same
  cases same.mp accepted

theorem instants_kept_iff_sent :
    ∃ t, translate sentSchema
        (LiteralTest.toExpr TimeLiteral.toExpr (.column "sentAt") (.compare .ltEq rfl justAfter)) = some t ∧
      (accepts noRegex t.filter [("sentAt", .dateTime 0)] = true ↔
        TimePredicate.holdsAt (.compare .ltEq rfl justAfter) ((0 : Int64).toInt * 1000000) = true) := by
  obtain ⟨c, resolved, tagged, path, unmixed⟩ := sentAt_resolved
  obtain ⟨t, translated, exact⟩ := justAfter_translates (show Operator.ltEq.isComparison = true from rfl)
  exact ⟨t, translated, (instants_kept_iff noRegex sentSchema (.column "sentAt") c (.compare .ltEq rfl justAfter) t
    [("sentAt", .dateTime 0)] 0 resolved tagged translated (by rw [path]; decide)
    (by rw [path]; exact sentAt_stored)).mpr fun _ => .inl rfl⟩

end Auger
