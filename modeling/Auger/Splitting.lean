import Auger.Statements
import Auger.General.Splitting
import Auger.General.SqlText

set_option autoImplicit false

/-! Where `split_statements` cuts, and where SQL ends a statement. -/

namespace Auger

open General

/-- The two flags of `split_statements`, of which one at most is up. -/
def quoteSplitter : Splitter isRustWhitespace ';' Quote where
  start := .none
  next := Quote.next
  live q := q == .none
  live_start := rfl
  next_live q outside := by
    cases q with
    | none => rfl
    | _ => cases outside
  next_blank c space := by
    have single : c ≠ '\'' := by
      rintro rfl
      exact absurd space (by decide)
    have double : c ≠ '"' := by
      rintro rfl
      exact absurd space (by decide)
    simp [Quote.next, single, double]

/-- SQL's own: a semicolon outside quotes and comments ends a statement. -/
def sqlSplitter (rules : CommentRules) : Splitter isRustWhitespace ';' SqlContext where
  start := .outside .none
  next := SqlContext.next rules
  live := SqlContext.isOutside
  live_start := rfl
  next_live context outside := by
    cases context with
    | outside last => rfl
    | _ => cases outside
  next_blank c space := by
    have other : ∀ d : Char, isRustWhitespace d = false → c ≠ d := by
      rintro d solid rfl
      rw [space] at solid
      cases solid
    simp [SqlContext.next, other '\'' (by decide), other '"' (by decide), other '-' (by decide), other '/' (by decide),
      other '*' (by decide)]

/-- The statements of a text: what stands between the semicolons SQL sees, trimmed,
where it is more than white space. -/
def sqlStatements (rules : CommentRules) (sql : Text) : List Text :=
  (sqlSplitter rules).split [] (.outside .none) sql

theorem pushStatement_eq (current : Text) (later : List Text) :
    pushStatement current later = Splitter.keep isRustWhitespace current later := rfl

theorem splitLoop_eq (current : Text) (q : Quote) (t : Text) :
    splitLoop current (q == .single) (q == .double) t = quoteSplitter.split current q t := by
  induction size : t.length using Nat.strong_induction_on generalizing current q t with
  | _ n ih =>
    cases t with
    | nil => rw [splitLoop, Splitter.split, pushStatement_eq]
    | cons c rest =>
        have step : ∀ current q, splitLoop current (q == .single) (q == .double) rest =
            quoteSplitter.split current q rest :=
          fun current q => ih rest.length (by rw [← size]; simp) current q rest rfl
        have copied : c ≠ ';' → quoteSplitter.split current q (c :: rest) =
            quoteSplitter.split (current ++ [c]) (q.next c) rest := by
          intro other
          rw [Splitter.split, if_neg fun both => other both.1]
          rfl
        rw [splitLoop]
        by_cases single : c = '\''
        · subst single
          rw [copied (by decide)]
          cases q with
          | none => exact step _ .single
          | double => exact step _ .double
          | single =>
              rw [if_pos (by decide)]
              by_cases doubled : rest.head? = some '\''
              · obtain ⟨more, rfl⟩ : ∃ more, rest = '\'' :: more := ⟨rest.tail, List.eq_cons_of_mem_head? doubled⟩
                rw [if_pos ⟨by decide, doubled⟩, Splitter.split, if_neg fun both => absurd both.1 (by decide),
                  List.append_assoc]
                exact ih more.length (by rw [← size, List.length_cons, List.length_cons]; omega) _ .single more rfl
              · rw [if_neg fun both => doubled both.2]
                exact step _ .none
        · rw [if_neg fun both => single both.1]
          by_cases double : c = '"'
          · subst double
            rw [copied (by decide)]
            cases q with
            | none => exact step _ .double
            | double => exact step _ .none
            | single => exact step _ .single
          · have same : q.next c = q := by cases q <;> simp [Quote.next, single, double]
            rw [if_neg fun both => double both.1]
            by_cases cut : c = ';'
            · subst cut
              rw [Splitter.split]
              cases q with
              | none =>
                  rw [if_pos (by decide), if_pos ⟨rfl, rfl⟩]
                  exact congrArg _ (step [] .none)
              | double => exact step _ .double
              | single => exact step _ .single
            · rw [copied cut, if_neg fun both => cut both.1, same]
              exact step _ q

theorem splitStatements_eq (sql : Text) : splitStatements sql = quoteSplitter.split [] .none sql :=
  splitLoop_eq [] .none sql

theorem quote_after (q : Quote) (t : Text) : quoteSplitter.after q t = q.read t := rfl

theorem context_after (rules : CommentRules) (context : SqlContext) (t : Text) :
    (sqlSplitter rules).after context t = context.read rules t := rfl

/-- The split is SQL's exactly when at every semicolon the quotes before it, those in
comments among them, leave one open where SQL stands in quotes or in a comment. -/
theorem splitStatements_iff (rules : CommentRules) (sql : Text) :
    splitStatements sql = sqlStatements rules sql ↔
      ∀ before behind, sql = before ++ ';' :: behind →
        (Quote.none.read before = .none ↔ ((SqlContext.outside .none).read rules before).isOutside = true) := by
  rw [splitStatements_eq, sqlStatements, Splitter.split_eq_iff _ _ (by decide)]
  refine forall_congr' fun before => forall_congr' fun behind => imp_congr_right fun _ => ?_
  rw [quote_after, context_after, Bool.eq_iff_iff]
  exact iff_congr beq_iff_eq Iff.rfl

/-- An apostrophe in a comment, and a semicolon in a literal behind it. -/
def remarked : Text := "/* don't */ SELECT 'a;b'".toList

/-- The semicolon inside the literal truncates the query, whatever the comment rules. -/
theorem apostrophe_in_comment : ¬∃ rules, ∀ sql, splitStatements sql = sqlStatements rules sql := by
  rintro ⟨rules, equal⟩
  have code : splitStatements remarked = ["/* don't */ SELECT 'a".toList, "b'".toList] := by
    rw [splitStatements_eq]
    decide
  have whole : sqlStatements rules remarked = [remarked] := rfl
  have same := (code.symm.trans (equal remarked)).trans whole
  exact absurd (congrArg List.length same) (by decide)

/-- The comments of a text hold neither quotes nor semicolons. -/
def PlainComments (rules : CommentRules) (sql : Text) : Prop :=
  ∀ before c behind, sql = before ++ c :: behind →
    ((SqlContext.outside .none).read rules before).inComment = true → c ∉ ['\'', '"', ';']

theorem PlainComments.quote {rules : CommentRules} {before behind : Text}
    (plain : PlainComments rules (before ++ behind)) :
    ((SqlContext.outside .none).read rules before).quote = Quote.none.read before := by
  apply SqlContext.read_quote
  intro u c v split comment
  have here := plain u c (v ++ behind) (by rw [split, List.append_assoc, List.cons_append]) comment
  simp only [List.mem_cons, not_or] at here
  exact ⟨here.1, here.2.1⟩

/-- A text whose comments hold neither quotes nor semicolons is split where SQL ends
its statements. -/
theorem splitStatements_plain {rules : CommentRules} {sql : Text} (plain : PlainComments rules sql) :
    splitStatements sql = sqlStatements rules sql := by
  rw [splitStatements_eq, sqlStatements, Splitter.split_eq_iff _ _ (by decide)]
  intro before behind shape
  have quote := PlainComments.quote (shape ▸ plain)
  have uncommented : ((SqlContext.outside .none).read rules before).inComment = false := by
    apply Bool.eq_false_iff.mpr
    intro comment
    exact plain before ';' behind shape comment (by decide)
  rw [quote_after, context_after, Bool.eq_iff_iff]
  exact beq_iff_eq.trans (by rw [← quote]; exact ((SqlContext.isOutside_iff _).trans (and_iff_left uncommented)).symm)

theorem splitStatements_filler {lead : Text} (filler : Splitter.Filler isRustWhitespace ';' lead) (sql : Text) :
    splitStatements (lead ++ sql) = splitStatements sql := by
  rw [splitStatements_eq, splitStatements_eq]
  exact quoteSplitter.split_filler filler sql

/-- Splitting undoes joining statements by semicolons, with white space around them and
any number of them more, and a statement it returns is split into itself. -/
theorem splitStatements_joined :
    (∀ (lead : Text) (entries : List (Text × Text)), Splitter.Filler isRustWhitespace ';' lead →
      (∀ entry ∈ entries, quoteSplitter.Whole entry.1) →
      (∀ entry ∈ entries, Splitter.Filler isRustWhitespace ';' entry.2) →
      (∀ entry ∈ entries.dropLast, ';' ∈ entry.2) →
      splitStatements (lead ++ entries.flatMap fun entry => entry.1 ++ entry.2) = entries.map Prod.fst) ∧
    ∀ sql, ∀ statement ∈ splitStatements sql, splitStatements statement = [statement] := by
  constructor
  · intro lead entries leads whole fillers ends
    rw [splitStatements_filler leads, splitStatements_eq]
    exact quoteSplitter.split_joined whole fillers ends
  · intro sql statement inside
    rw [splitStatements_eq] at inside ⊢
    exact quoteSplitter.split_pieces (show quoteSplitter.Quiet quoteSplitter.start [] from trivial) rfl statement inside

/-- Two statements, the second with a quoted quote and a quoted semicolon. -/
theorem splitStatements_joined_two :
    splitStatements (" ;\n".toList ++ [("SET a = 1".toList, " ; ;\n".toList),
        ("SELECT 'it''s; fine'".toList, ";".toList)].flatMap fun entry => entry.1 ++ entry.2) =
      ["SET a = 1".toList, "SELECT 'it''s; fine'".toList] := by
  apply splitStatements_joined.1
  · decide
  · simp only [List.forall_mem_cons, List.not_mem_nil, false_implies, implies_true, and_true]
    constructor <;> constructor <;> decide
  · decide
  · decide

end Auger
