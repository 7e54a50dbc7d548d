import Auger.Qualifying
import Auger.General.Deletion

set_option autoImplicit false

/-! Which qualifiers `strip_pg_catalog_prefix` takes out of a text. -/

namespace Auger

open General Text

theorem qualifier_word {m later : Text} (length : m.length = 11)
    (begins : qualifier.isPrefixOf (lower (m ++ later)) = true) :
    ∃ name, m = name ++ ['.'] ∧ ∀ a ∈ name, identChar a = true := by
  obtain ⟨name, split, word⟩ := qualifier_split begins
  rw [← length, List.drop_left, ← List.singleton_append, ← List.append_assoc] at split
  exact ⟨name, List.append_cancel_right split, word⟩

theorem qualifier_spaced {first second : Text → Text → Bool}
    (one : ∀ read behind, first read behind = true → qualifier.isPrefixOf (lower behind) = true)
    (two : ∀ read behind, second read behind = true → qualifier.isPrefixOf (lower behind) = true) :
    Spaced 10 first second := by
  intro read behind place
  have begins : qualifier.isPrefixOf (lower behind) = true := place.elim (one read behind) (two read behind)
  have length : (behind.take 11).length = 11 := by
    have taken := congrArg List.length (lower_qualifier begins)
    rwa [lower, List.length_map, qualifier_length] at taken
  refine ⟨behind.take 11, behind.drop 11, (List.take_append_drop 11 behind).symm, length, ?_⟩
  intro u v split before solid
  cases behind with
  | nil => cases length
  | cons c rest =>
      cases u with
      | nil => exact absurd rfl before
      | cons a u =>
          cases v with
          | nil => exact absurd rfl solid
          | cons d v =>
              have inside : d ∈ rest.take 10 := by
                rw [List.take_succ_cons, List.cons_append] at split
                rw [(List.cons.inj split).2]
                simp
              have other : ¬qualifier.isPrefixOf (lower (d :: v ++ (c :: rest).drop 11)) = true :=
                fun here => ((qualifier_inner begins).1 d inside).1 (qualifier_head here)
              constructor
              · exact Bool.eq_false_iff.mpr fun here => other (one _ _ here)
              · exact Bool.eq_false_iff.mpr fun here => other (two _ _ here)

section
variable {isAlphanumeric : Char → Bool}

theorem strip_eq (read t : Text) :
    stripPgCatalogPrefix isAlphanumeric t =
      deleteAt 10 (fun _ behind => callQualifier isAlphanumeric behind) read t := by
  induction size : t.length using Nat.strong_induction_on generalizing read t with
  | _ n ih =>
    cases t with
    | nil => rw [stripPgCatalogPrefix, deleteAt]
    | cons c rest =>
        rw [List.length_cons] at size
        rw [strip_cons, deleteAt, ih (rest.drop 10).length (by rw [List.length_drop]; omega) _ _ rfl,
          ih rest.length (by omega) _ _ rfl]

theorem callQualifier_begins {t : Text} (call : callQualifier isAlphanumeric t = true) :
    qualifier.isPrefixOf (lower t) = true :=
  (Bool.and_eq_true_iff.mp call).1

variable (ascii : AgreesOnAscii isAlphanumeric)

include ascii

theorem strip_visible : Visible 10 fun _ behind => callQualifier isAlphanumeric behind := by
  intro read m later length call
  obtain ⟨begins, called⟩ := Bool.and_eq_true_iff.mp call
  obtain ⟨name, rfl, word⟩ := qualifier_word length begins
  have after : List.drop 11 (name ++ ['.'] ++ later) = later := List.drop_left' length
  rw [after] at called
  rw [← strip_eq]
  rintro ⟨z, dotted⟩
  rw [List.append_assoc, List.singleton_append] at dotted
  exact call_not_dotted ascii called word dotted.symm

/-- The text is stripped at the places of a test exactly when the look-ahead agrees with
the test wherever the qualifier stands. -/
theorem strip_deletes_iff {test : Text → Text → Bool}
    (places : ∀ read behind, test read behind = true → qualifier.isPrefixOf (lower behind) = true)
    (visible : Visible 10 test) (sql : Text) :
    stripPgCatalogPrefix isAlphanumeric sql = deleteAt 10 test [] sql ↔
      ∀ before behind, sql = before ++ behind → qualifier.isPrefixOf (lower behind) = true →
        isCall isAlphanumeric (lower (behind.drop 11)) = test before behind := by
  have spaced : Spaced 10 (fun _ behind => callQualifier isAlphanumeric behind) test :=
    qualifier_spaced (fun _ _ here => callQualifier_begins here) places
  rw [strip_eq [], deleteAt_eq_iff spaced (strip_visible ascii) visible]
  refine forall_congr' fun before => forall_congr' fun behind => imp_congr_right fun _ => ?_
  change callQualifier isAlphanumeric behind = test before behind ↔ _
  rw [callQualifier]
  constructor
  · intro same begins
    rw [← same, begins, Bool.true_and]
  · intro same
    cases begins : qualifier.isPrefixOf (lower behind) with
    | true => rw [same begins, Bool.true_and]
    | false =>
        rw [Bool.false_and]
        refine (Bool.eq_false_iff.mpr fun here => ?_).symm
        rw [places before behind here] at begins
        cases begins

def opensCall (t : Text) : Bool := (trimStart t).head? == some '('

omit ascii in
theorem opensCall_lower (t : Text) : opensCall (lower t) = opensCall t := by
  have spaces : isRustWhitespace ∘ Char.toLower = isRustWhitespace := funext isRustWhitespace_toLower
  rw [opensCall, opensCall, trimStart, trimStart, lower, List.dropWhile_map, spaces, List.head?_map]
  cases List.head? (List.dropWhile isRustWhitespace t) with
  | none => rfl
  | some c =>
      rw [Option.map_some, Bool.eq_iff_iff, beq_iff_eq, beq_iff_eq, Option.some_inj, Option.some_inj]
      constructor
      · exact fun lowered => eq_of_toLower lowered (by decide)
      · rintro rfl
        rfl

theorem isCall_lower {t : Text} (small : ∀ c ∈ t, c.toNat < 128) :
    isCall isAlphanumeric (lower t) = opensCall (t.dropWhile identChar) := by
  have letters : ∀ c ∈ t, ((fun c => isAlphanumeric c || c == '_') ∘ Char.toLower) c = identChar c := by
    intro c inside
    have lowered : c.toLower.toNat < 128 := by
      have bound := small c inside
      rw [toNat_toLower]
      split_ifs <;> omega
    rw [Function.comp_apply, ascii c.toLower lowered, ← identChar_toLower c]
    rfl
  rw [isCall, lower, List.dropWhile_map, dropWhile_congr letters]
  exact opensCall_lower _

theorem isCall_word {name : Text} (word : ∀ a ∈ name, identChar a = true) (z : Text) :
    isCall isAlphanumeric (name ++ '(' :: z) = true := by
  have stops : (isAlphanumeric '(' || '(' == '_') = false := by
    rw [ascii '(' (by decide)]
    decide
  rw [isCall, List.dropWhile_append_of_pos fun a member => unicode_of_identChar ascii (word a member),
    List.dropWhile_cons_of_neg (by rw [stops]; exact Bool.false_ne_true), trimStart,
    List.dropWhile_cons_of_neg (by decide)]
  rfl

end

section
-- How comments are read, and SQL's letters.
variable (rules : CommentRules) (isLetter : Char → Bool)

/-- What follows the quote that closes an identifier; a doubled quote is part of it. -/
def closeQuoted : Text → Option Text
  | [] => none
  | '"' :: '"' :: rest => closeQuoted rest
  | '"' :: rest => some rest
  | _ :: rest => closeQuoted rest

/-- A function's name, quoted or not, and an open parenthesis. -/
def callsFunction : Text → Bool
  | [] => false
  | c :: rest =>
      if c = '"' then (closeQuoted rest).any opensCall
      else (isLetter c || c == '_') && opensCall (rest.dropWhile (sqlIdentChar isLetter))

/-- An identifier can begin behind the text: outside string literals and quoted
identifiers, and not inside a longer one. -/
def identifierBegins (read : Text) : Bool :=
  ((SqlContext.outside .none).read rules read).quote == .none && read.getLast?.all fun c => !sqlIdentChar isLetter c

/-- The identifier `pg_catalog` and its dot stand here before a function's name. -/
def functionQualifier (read behind : Text) : Bool :=
  qualifier.isPrefixOf (lower behind) &&
    (identifierBegins rules isLetter read && callsFunction isLetter (behind.drop 11))

/-- The text without the qualifiers of functions. -/
def withoutFunctionQualifiers (sql : Text) : Text := deleteAt 10 (functionQualifier rules isLetter) [] sql

variable {rules isLetter}

theorem functionQualifier_begins {read behind : Text} (here : functionQualifier rules isLetter read behind = true) :
    qualifier.isPrefixOf (lower behind) = true :=
  (Bool.and_eq_true_iff.mp here).1

variable (letters : ∀ c : Char, c.toNat < 128 → isLetter c = c.isAlpha)

include letters

theorem sqlIdentChar_of_identChar {c : Char} (word : identChar c = true) : sqlIdentChar isLetter c = true := by
  have small : c.toNat < 128 := by
    rw [identChar_iff] at word
    omega
  rw [identChar, Char.isAlphanum] at word
  rw [sqlIdentChar, letters c small, word, Bool.true_or]

theorem not_sqlIdentChar {c : Char} (small : c.toNat < 128) (word : identChar c = false) (dollar : c ≠ '$') :
    sqlIdentChar isLetter c = false := by
  rw [identChar, Char.isAlphanum] at word
  rw [sqlIdentChar, letters c small, word, Bool.false_or, beq_eq_false_iff_ne]
  exact dollar

theorem not_dotted {name rest m z : Text} (inside : ∀ c ∈ name, sqlIdentChar isLetter c = true)
    (stop : ∀ e ∈ rest.head?, sqlIdentChar isLetter e = false ∧ e ≠ '.') (word : ∀ a ∈ m, identChar a = true) :
    name ++ rest ≠ m ++ '.' :: z := by
  have dot : sqlIdentChar isLetter '.' = false := not_sqlIdentChar letters (by decide) (by decide) (by decide)
  intro same
  rcases List.append_eq_append_iff.mp same with ⟨middle, rfl, behind⟩ | ⟨middle, rfl, behind⟩
  · cases middle with
    | nil => exact (stop '.' (by rw [behind]; rfl)).2 rfl
    | cons e middle =>
        have last := stop e (by rw [behind]; rfl)
        rw [sqlIdentChar_of_identChar letters (word e (by simp))] at last
        cases last.1
  · cases middle with
    | nil => exact (stop '.' (by rw [List.nil_append] at behind; rw [← behind]; rfl)).2 rfl
    | cons e middle =>
        rw [List.cons_append, List.cons.injEq] at behind
        have letter := inside e (by simp)
        rw [← behind.1, dot] at letter
        cases letter

theorem callsFunction_name {t : Text} (call : callsFunction isLetter t = true) :
    ∃ name rest, t = name ++ rest ∧ (∀ c ∈ name, sqlIdentChar isLetter c = true) ∧
      ∀ e ∈ rest.head?, sqlIdentChar isLetter e = false ∧ e ≠ '.' := by
  cases t with
  | nil => cases call
  | cons c rest =>
      rw [callsFunction] at call
      by_cases quote : c = '"'
      · subst quote
        refine ⟨[], '"' :: rest, rfl, by simp, ?_⟩
        intro e first
        cases first
        exact ⟨not_sqlIdentChar letters (by decide) (by decide) (by decide), by decide⟩
      · rw [if_neg quote, Bool.and_eq_true, Bool.or_eq_true] at call
        obtain ⟨start, opened⟩ := call
        refine ⟨c :: rest.takeWhile (sqlIdentChar isLetter), rest.dropWhile (sqlIdentChar isLetter), ?_, ?_, ?_⟩
        · rw [List.cons_append, List.takeWhile_append_dropWhile]
        · intro d member
          rcases List.mem_cons.mp member with rfl | later
          · rw [sqlIdentChar]
            rcases start with letter | underscore
            · simp [letter]
            · simp [underscore]
          · exact List.mem_takeWhile_imp later
        · intro e first
          have other := List.head?_dropWhile_not (sqlIdentChar isLetter) rest
          rw [Option.mem_def.mp first] at other
          refine ⟨other, ?_⟩
          rintro rfl
          obtain ⟨z, shape⟩ := List.head?_eq_some_iff.mp first
          rw [shape, opensCall, trimStart, List.dropWhile_cons_of_neg (by decide)] at opened
          cases opened

theorem functionQualifier_visible : Visible 10 (functionQualifier rules isLetter) := by
  intro read m later length here
  obtain ⟨word, shape, letter⟩ := qualifier_word length (functionQualifier_begins here)
  have call := (Bool.and_eq_true_iff.mp (Bool.and_eq_true_iff.mp here).2).2
  have after : List.drop 11 (m ++ later) = later := List.drop_left' length
  rw [after] at call
  obtain ⟨name, rest, rfl, inside, stop⟩ := callsFunction_name letters call
  -- The name is copied: the qualifier's own dot would have to stand in it or behind it.
  have copied : deleteAt 10 (functionQualifier rules isLetter) (read ++ m) (name ++ rest) =
      name ++ deleteAt 10 (functionQualifier rules isLetter) (read ++ m ++ name) rest := by
    apply deleteAt_copy
    intro u v split solid
    refine Bool.eq_false_iff.mpr fun found => ?_
    obtain ⟨dotted, same, letters'⟩ := qualifier_split (functionQualifier_begins found)
    refine not_dotted letters (fun c member => inside c ?_) stop letters' same
    rw [split]
    exact List.mem_append_right u member
  have first : (deleteAt 10 (functionQualifier rules isLetter) (read ++ m ++ name) rest).head? = rest.head? := by
    cases rest with
    | nil => rw [deleteAt]
    | cons e rest =>
        have plain : functionQualifier rules isLetter (read ++ m ++ name) (e :: rest) = false := by
          refine Bool.eq_false_iff.mpr fun found => ?_
          have other := (stop e rfl).1
          rw [sqlIdentChar_of_identChar letters] at other
          · cases other
          · rw [← identChar_toLower, qualifier_head (functionQualifier_begins found)]
            decide
        rw [deleteAt, plain, if_neg Bool.false_ne_true]
        rfl
  rw [← first] at stop
  rw [copied]
  rintro ⟨z, same⟩
  rw [shape, List.append_assoc, List.singleton_append, ← shape] at same
  exact not_dotted letters inside stop letter same.symm

theorem strip_without_iff {isAlphanumeric : Char → Bool} (ascii : AgreesOnAscii isAlphanumeric)
    (rules : CommentRules) (sql : Text) :
    stripPgCatalogPrefix isAlphanumeric sql = withoutFunctionQualifiers rules isLetter sql ↔
      ∀ before behind, sql = before ++ behind → qualifier.isPrefixOf (lower behind) = true →
        isCall isAlphanumeric (lower (behind.drop 11)) = functionQualifier rules isLetter before behind :=
  strip_deletes_iff ascii (fun _ _ => functionQualifier_begins) (functionQualifier_visible letters) sql

/-- A text in ASCII without quotes and dollar signs. -/
def PlainSql (t : Text) : Prop := ∀ c ∈ t, c.toNat < 128 ∧ c ∉ ['\'', '"', '$']

omit letters in
theorem PlainSql.unquoted {t : Text} (plain : PlainSql t) : ∀ c ∈ t, c ≠ '\'' ∧ c ≠ '"' := by
  intro c inside
  have other := (plain c inside).2
  simp only [List.mem_cons, not_or] at other
  exact ⟨other.1, other.2.1⟩

theorem PlainSql.sqlIdentChar {t : Text} (plain : PlainSql t) {c : Char} (inside : c ∈ t) :
    sqlIdentChar isLetter c = identChar c := by
  obtain ⟨small, other⟩ := plain c inside
  simp only [List.mem_cons, not_or] at other
  simp [Auger.sqlIdentChar, identChar, Char.isAlphanum, letters c small, other.2.2.1]

theorem PlainSql.identifierBegins {read : Text} (plain : PlainSql read)
    (free : ∀ c ∈ read.getLast?, identChar c = false) : identifierBegins rules isLetter read = true := by
  have unquoted : ((SqlContext.outside .none).read rules read).quote = .none := by
    rw [SqlContext.read_quote]
    · exact Quote.read_plain _ plain.unquoted
    · intro u d v split _
      exact plain.unquoted d (by rw [split]; simp)
  rw [Auger.identifierBegins, unquoted, beq_self_eq_true, Bool.true_and, Option.all_eq_true]
  intro d last
  rw [plain.sqlIdentChar letters (List.mem_of_getLast? last), free d last]
  rfl

/-- In plain text a name and a call are what the look-ahead takes for one. -/
theorem PlainSql.callsFunction {isAlphanumeric : Char → Bool} (ascii : AgreesOnAscii isAlphanumeric) {t : Text}
    (plain : PlainSql t) (named : ∃ c ∈ t.head?, identStart c = true) :
    isCall isAlphanumeric (lower t) = callsFunction isLetter t := by
  obtain ⟨c, first, start⟩ := named
  obtain ⟨later, rfl⟩ := List.head?_eq_some_iff.mp first
  have small : ∀ d ∈ c :: later, d.toNat < 128 := fun d inside => (plain d inside).1
  have quote : c ≠ '"' := (plain.unquoted c (by simp)).2
  have opens : (isLetter c || c == '_') = true := by
    rw [letters c (small c (by simp))]
    exact start
  rw [Auger.callsFunction, if_neg quote, opens, Bool.true_and, isCall_lower ascii small,
    List.dropWhile_cons_of_pos (identChar_of_identStart start),
    dropWhile_congr fun d inside => plain.sqlIdentChar letters (List.mem_cons_of_mem c inside)]

/-- In plain text exactly the qualifiers of functions are stripped, where each qualifier is an
identifier of its own and a name follows it. -/
theorem strip_plain {isAlphanumeric : Char → Bool} (ascii : AgreesOnAscii isAlphanumeric) {sql : Text}
    (plain : PlainSql sql)
    (words : ∀ before behind, sql = before ++ behind → qualifier.isPrefixOf (lower behind) = true →
      (∀ c ∈ before.getLast?, identChar c = false) ∧ ∃ c ∈ (behind.drop 11).head?, identStart c = true) :
    stripPgCatalogPrefix isAlphanumeric sql = withoutFunctionQualifiers rules isLetter sql := by
  rw [strip_without_iff letters ascii]
  rintro before behind rfl begins
  obtain ⟨free, named⟩ := words before behind rfl begins
  have one : PlainSql before := fun d inside => plain d (List.mem_append_left _ inside)
  have other : PlainSql (behind.drop 11) := fun d inside => plain d (List.mem_append_right _ (List.mem_of_mem_drop inside))
  rw [functionQualifier, begins, one.identifierBegins letters free, Bool.true_and, Bool.true_and,
    other.callsFunction letters ascii named]

end

/-- Exactly the qualifiers of functions are stripped when, wherever the qualifier stands,
the look-ahead finds a call exactly at an identifier of its own before a function's name. -/
theorem strip_functions_iff {isAlphanumeric isLetter : Char → Bool} (ascii : AgreesOnAscii isAlphanumeric)
    (letters : ∀ c : Char, c.toNat < 128 → isLetter c = c.isAlpha) (rules : CommentRules) (sql : Text) :
    stripPgCatalogPrefix isAlphanumeric sql = withoutFunctionQualifiers rules isLetter sql ↔
      ∀ before behind, sql = before ++ behind → qualifier.isPrefixOf (lower behind) = true →
        isCall isAlphanumeric (lower (behind.drop 11)) =
          (identifierBegins rules isLetter before && callsFunction isLetter (behind.drop 11)) := by
  rw [strip_without_iff letters ascii]
  refine forall_congr' fun before => forall_congr' fun behind => imp_congr_right fun _ => ?_
  refine imp_congr_right fun begins => ?_
  rw [functionQualifier, begins, Bool.true_and]

/-- Comments nest and end with the line. -/
def plainRules : CommentRules := ⟨true, (· == '\n')⟩

theorem strip_functions_iff_version :
    stripPgCatalogPrefix Char.isAlphanum "SELECT pg_catalog.version()".toList =
      withoutFunctionQualifiers plainRules Char.isAlpha "SELECT pg_catalog.version()".toList := by
  apply (strip_functions_iff (fun _ _ => rfl) (fun _ _ => rfl) plainRules _).mpr
  have each : ∀ n ≤ "SELECT pg_catalog.version()".toList.length,
      qualifier.isPrefixOf (lower ("SELECT pg_catalog.version()".toList.drop n)) = true →
        isCall Char.isAlphanum (lower (("SELECT pg_catalog.version()".toList.drop n).drop 11)) =
          (identifierBegins plainRules Char.isAlpha ("SELECT pg_catalog.version()".toList.take n) &&
            callsFunction Char.isAlpha (("SELECT pg_catalog.version()".toList.drop n).drop 11)) := by
    decide +kernel
  intro before behind split begins
  have here := each before.length (by rw [split]; simp)
  rw [split, List.drop_left, List.take_left] at here
  exact here begins

/-- A string literal with a function's qualified name in it. -/
def literalCall : Text := "SELECT 'pg_catalog.version()'".toList

/-- Whatever counts as a letter and however comments are read, the literal is altered. -/
theorem strips_literal :
    ¬∃ isAlphanumeric isLetter rules, AgreesOnAscii isAlphanumeric ∧
      (∀ c : Char, c.toNat < 128 → isLetter c = c.isAlpha) ∧
      ∀ sql, stripPgCatalogPrefix isAlphanumeric sql = withoutFunctionQualifiers rules isLetter sql := by
  rintro ⟨isAlphanumeric, isLetter, rules, ascii, letters, same⟩
  have here := (strip_without_iff letters ascii rules literalCall).mp (same literalCall) "SELECT '".toList
    "pg_catalog.version()'".toList rfl rfl
  have word : ∀ a ∈ "version".toList, identChar a = true := List.all_eq_true.mp rfl
  have called : isCall isAlphanumeric (lower ("pg_catalog.version()'".toList.drop 11)) = true :=
    isCall_word ascii word ")'".toList
  have quoted : identifierBegins rules isLetter "SELECT '".toList = false := rfl
  rw [called, functionQualifier, quoted, Bool.false_and, Bool.and_false] at here
  cases here

end Auger
