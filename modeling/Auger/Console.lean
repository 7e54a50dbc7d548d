import Auger.Gateway
import Mathlib

set_option autoImplicit false

/-! The query console of the HTTP front end, and the text it runs for a statement, beside
the text the wire front end runs for it. -/

namespace Auger

open Text

structure QueryRequest where
  sql : Text
  /-- Rows to return before truncating. -/
  limit : Option Nat

/-- The fields of `ServerConfig` the console reads. -/
structure ServerConfig where
  httpQuery : Bool
  statementTimeoutSecs : Nat

structure ApiError where
  status : Nat
  message : String
  deriving DecidableEq, Repr

def defaultRows : Nat := 1000
def maxRows : Nat := 10000
def fallbackTimeoutSecs : Nat := 30

/-- What the console asks of the session: the statement, the rows it keeps of the answer,
whether the engine is told of them, and the seconds it waits. -/
structure ConsoleQuery where
  sql : Text
  cap : Nat
  bounded : Bool
  timeout : Nat
  deriving DecidableEq, Repr

def stripSemicolon (t : Text) : Option Text := if t.getLast? = some ';' then some t.dropLast else none

/-- A statement without surrounding whitespace and a trailing semicolon. -/
def bareStatement (sql : Text) : Text := trim ((stripSemicolon (trim sql)).getD (trim sql))

def readOnlyHeads : List String := ["SELECT", "WITH", "EXPLAIN", "SHOW", "DESCRIBE", "DESC"]

/-- The checks of `query`, up to what it hands to the session. -/
def query (config : ServerConfig) (req : QueryRequest) : Except ApiError ConsoleQuery :=
  if config.httpQuery = false then
    .error ⟨403, "query console is disabled; set server.http_query = true to enable it"⟩
  else
    let sql := bareStatement req.sql
    if sql = [] then .error ⟨400, "empty query"⟩
    else if ';' ∈ sql then .error ⟨400, "one statement at a time"⟩
    else
      let head := String.ofList (upper (firstWord sql))
      if head ∈ readOnlyHeads then
        .ok
          { sql
            cap := max 1 (min (req.limit.getD defaultRows) maxRows)
            bounded := decide (head ∈ ["SELECT", "WITH"])
            timeout := if config.statementTimeoutSecs = 0 then fallbackTimeoutSecs else config.statementTimeoutSecs }
      else .error ⟨400, "only read-only statements are allowed here (got `" ++ head ++ "`)"⟩

theorem trimStart_of_first {t : Text} (first : ∀ c, t.head? = some c → isRustWhitespace c = false) :
    trimStart t = t := by
  cases t with
  | nil => rfl
  | cons c rest => rw [trimStart, List.dropWhile_cons_of_neg (by simp [first c rfl])]

theorem trim_of_ends {t : Text} (first : ∀ c, t.head? = some c → isRustWhitespace c = false)
    (last : ∀ c, t.getLast? = some c → isRustWhitespace c = false) : trim t = t := by
  rw [trim_eq, trimStart_of_first first, List.rdropWhile_eq_self_iff]
  intro some
  rw [Bool.not_eq_true]
  exact last _ (List.getLast?_eq_some_getLast some)

theorem trim_first {t : Text} {c : Char} (first : (trim t).head? = some c) : isRustWhitespace c = false := by
  have inside : trim t <+: trimStart t := List.rdropWhile_prefix _ _
  have solid := List.head?_dropWhile_not isRustWhitespace t
  cases kept : trim t with
  | nil =>
      rw [kept] at first
      cases first
  | cons d more =>
      rw [kept] at first inside
      obtain ⟨tail, split⟩ := inside
      rw [show t.dropWhile isRustWhitespace = d :: (more ++ tail) from split.symm] at solid
      rw [← Option.some.inj first]
      simpa using solid

theorem trim_last {t : Text} {c : Char} (last : (trim t).getLast? = some c) : isRustWhitespace c = false := by
  have some : trim t ≠ [] := by
    intro none
    rw [none] at last
    cases last
  have solid := List.rdropWhile_last_not isRustWhitespace (trimStart t) some
  rw [List.getLast?_eq_some_getLast some, Option.some.injEq] at last
  rw [← last]
  exact Bool.not_eq_true _ |>.mp solid

theorem mem_trim {t : Text} {c : Char} (member : c ∈ t) (solid : isRustWhitespace c = false) : c ∈ trim t := by
  have keeps : ∀ u : Text, c ∈ u → c ∈ trimStart u := by
    intro u inside
    have split := List.takeWhile_append_dropWhile (p := isRustWhitespace) (l := u)
    rw [← split] at inside
    obtain dropped | kept := List.mem_append.mp inside
    · rw [List.mem_takeWhile_imp dropped] at solid
      cases solid
    · exact kept
  have started := keeps t member
  have split : (trimStart t).rdropWhile isRustWhitespace ++ (trimStart t).rtakeWhile isRustWhitespace = trimStart t :=
    List.rdropWhile_append_rtakeWhile
  rw [← split] at started
  obtain kept | dropped := List.mem_append.mp started
  · exact kept
  · rw [List.mem_rtakeWhile_imp dropped] at solid
    cases solid

theorem trimSemicolons_of_last {t : Text} (last : t.getLast? ≠ some ';') : trimSemicolons t = t := by
  rw [trimSemicolons, List.rdropWhile_eq_self_iff]
  intro solid same
  exact last (by rw [List.getLast?_eq_some_getLast solid, beq_iff_eq.mp same])

theorem bareStatement_of_ends {t : Text} (first : ∀ c, t.head? = some c → isRustWhitespace c = false)
    (last : ∀ c, t.getLast? = some c → isRustWhitespace c = false) (noSemicolon : t.getLast? ≠ some ';') :
    bareStatement t = t := by
  rw [bareStatement, trim_of_ends first last, stripSemicolon, if_neg noSemicolon, Option.getD_none,
    trim_of_ends first last]

/-- For a statement without a semicolon inside both front ends trim the same. -/
theorem trimmed_of_bare {sql : Text} (single : ';' ∉ bareStatement sql) :
    trim (trimSemicolons (trim sql)) = bareStatement sql := by
  rw [bareStatement] at single ⊢
  rw [stripSemicolon] at single ⊢
  split_ifs at single ⊢ with ends
  · rw [Option.getD_some] at single ⊢
    have split : trim sql = (trim sql).dropLast ++ [';'] := (List.dropLast_append_getLast? _ ends).symm
    have noSecond : (trim sql).dropLast.getLast? ≠ some ';' :=
      fun second => single (mem_trim (List.mem_of_getLast? second) (by decide))
    calc trim (trimSemicolons (trim sql))
        = trim (trimSemicolons ((trim sql).dropLast ++ [';'])) := by rw [← split]
      _ = trim (trimSemicolons (trim sql).dropLast) := by
          rw [trimSemicolons, List.rdropWhile_concat_pos _ _ _ (by decide), ← trimSemicolons]
      _ = trim (trim sql).dropLast := by rw [trimSemicolons_of_last noSecond]
  · rw [Option.getD_none, trimSemicolons_of_last ends]

theorem bareStatement_bare {sql : Text} (single : ';' ∉ bareStatement sql) :
    bareStatement (bareStatement sql) = bareStatement sql := by
  refine bareStatement_of_ends (fun c first => trim_first first) (fun c last => trim_last last) ?_
  exact fun last => single (List.mem_of_getLast? last)

theorem trim_inside {t : Text} (first : ∀ c, t.head? = some c → isRustWhitespace c = false) : trim t <+: t := by
  rw [trim_eq, trimStart_of_first first]
  exact List.rdropWhile_prefix _ _

theorem bareStatement_inside {t : Text} (first : ∀ c, t.head? = some c → isRustWhitespace c = false) :
    bareStatement t <+: t := by
  have inside : (stripSemicolon (trim t)).getD (trim t) <+: trim t := by
    rw [stripSemicolon]
    split_ifs
    · exact List.dropLast_prefix _
    · exact List.prefix_rfl
  refine (trim_inside fun c head => ?_).trans (inside.trans (trim_inside first))
  obtain ⟨tail, split⟩ := inside
  cases kept : (stripSemicolon (trim t)).getD (trim t) with
  | nil =>
      rw [kept] at head
      cases head
  | cons d more =>
      rw [kept] at head split
      rw [← Option.some.inj head]
      exact trim_first (by rw [← split]; rfl)

theorem isRustWhitespace_toUpper (c : Char) : isRustWhitespace c.toUpper = isRustWhitespace c := by
  rw [← isRustWhitespace_toLower, Char.toLower_toUpper_eq_toLower, isRustWhitespace_toLower]

theorem firstWord_upper (t : Text) : firstWord (upper t) = upper (firstWord t) := by
  have spaces : (isRustWhitespace ∘ Char.toUpper) = isRustWhitespace := funext isRustWhitespace_toUpper
  have letters : ((fun c => !isRustWhitespace c) ∘ Char.toUpper) = fun c => !isRustWhitespace c :=
    funext fun c => congrArg not (isRustWhitespace_toUpper c)
  rw [firstWord, firstWord, upper, upper, trimStart, trimStart, List.dropWhile_map, spaces, List.takeWhile_map,
    letters]

theorem upper_lower (t : Text) : upper (lower t) = upper t := by
  rw [upper, lower, List.map_map]
  exact congrArg (List.map · t) (funext Char.toUpper_toLower_eq_toUpper)

theorem upper_begins {p : Text} {t : Text} (begins : p <+: lower t) : upper p <+: upper t := by
  rw [← upper_lower t]
  exact begins.map Char.toUpper

section
variable {isAlphanumeric : Char → Bool}

theorem contains_of_qualifier {t : Text} (called : callQualifier isAlphanumeric t = true) :
    (upper t).contains "PG_CATALOG." := by
  have begins := List.isPrefixOf_iff_prefix.mp (Bool.and_eq_true_iff.mp called).1
  have raised := upper_begins begins
  rw [show upper qualifier = "PG_CATALOG.".toList by decide] at raised
  exact raised.isInfix

theorem relation_begins {prev : Char} {inQuote : Bool} {t : Text} (bare : bareRelation prev inQuote t = true) :
    "pg_".toList <+: lower t := by
  cases t with
  | nil => cases bare
  | cons c rest =>
      rw [bareRelation, Bool.and_eq_true, isRelation, List.any_eq_true] at bare
      obtain ⟨-, name, relation, same⟩ := bare
      have named : pgCatalogRelations.all (fun r => "pg_".toList.isPrefixOf r.toList) = true := rfl
      have begins := List.isPrefixOf_iff_prefix.mp (List.all_eq_true.mp named name relation)
      rw [← beq_iff_eq.mp same] at begins
      have inside : c :: rest.takeWhile identChar <+: c :: rest :=
        List.cons_prefix_cons.mpr ⟨rfl, List.takeWhile_prefix identChar⟩
      exact begins.trans (inside.map Char.toLower)

theorem contains_of_relation {prev : Char} {inQuote : Bool} {t : Text}
    (bare : bareRelation prev inQuote t = true) : (upper t).contains "PG_" :=
  (upper_begins (relation_begins bare)).isInfix

theorem contains_tail {needle : String} {c : Char} {rest : Text} (inside : (upper rest).contains needle) :
    (upper (c :: rest)).contains needle :=
  inside.trans (List.suffix_cons _ _).isInfix

theorem contains_pg {t : Text} (inside : (upper t).contains "PG_CATALOG.") : (upper t).contains "PG_" := by
  have begins : "PG_".toList <+: "PG_CATALOG.".toList := List.isPrefixOf_iff_prefix.mp rfl
  exact begins.isInfix.trans inside

theorem strip_absent {t : Text} (absent : ¬(upper t).contains "PG_CATALOG.") :
    stripPgCatalogPrefix isAlphanumeric t = t := by
  induction t with
  | nil => rw [stripPgCatalogPrefix]
  | cons c rest ih =>
      have plain : ¬callQualifier isAlphanumeric (c :: rest) = true :=
        fun called => absent (contains_of_qualifier called)
      rw [strip_cons, if_neg plain, ih fun inside => absent (contains_tail inside)]

theorem settledFrom_absent {t : Text} (absent : ¬(upper t).contains "PG_") (prev : Char) (inQuote : Bool) :
    settledFrom isAlphanumeric prev inQuote t = true := by
  induction t generalizing prev inQuote with
  | nil => rfl
  | cons c rest ih =>
      have noRelation : bareRelation prev inQuote (c :: rest) = false :=
        Bool.eq_false_iff.mpr fun bare => absent (contains_of_relation bare)
      have noCall : callQualifier isAlphanumeric (c :: rest) = false :=
        Bool.eq_false_iff.mpr fun called => absent (contains_pg (contains_of_qualifier called))
      rw [settledFrom, placeSettled, noRelation, noCall, ih fun inside => absent (contains_tail inside)]
      rfl

theorem rewriteCatalog_fix_iff (ascii : AgreesOnAscii isAlphanumeric) (t : Text) :
    rewriteCatalog isAlphanumeric t = t ↔ settled isAlphanumeric t = true := by
  have stripped : (if (upper t).contains "PG_CATALOG." then stripPgCatalogPrefix isAlphanumeric t else t) =
      stripPgCatalogPrefix isAlphanumeric t := by
    split_ifs with qualified
    · rfl
    · exact (strip_absent qualified).symm
  rw [rewriteCatalog, stripped, qualifyBarePgCatalog, settled, rewrites_fix_iff ascii]

theorem qualifyLoop_last (prev : Char) (inQuote : Bool) (t : Text) :
    (qualifyLoop prev inQuote t).getLast? = t.getLast? := by
  induction t generalizing prev inQuote with
  | nil => rw [qualifyLoop]
  | cons c rest ih =>
      rw [qualifyLoop_cons, List.getLast?_append_cons, List.getLast?_cons, List.getLast?_cons, ih]

theorem strip_last (t : Text) : (stripPgCatalogPrefix isAlphanumeric t).getLast? = t.getLast? := by
  induction size : t.length using Nat.strong_induction_on generalizing t with
  | _ n ih =>
    cases t with
    | nil => rw [stripPgCatalogPrefix]
    | cons c rest =>
        rw [List.length_cons] at size
        rw [strip_cons]
        split_ifs with called
        · have call := (Bool.and_eq_true_iff.mp called).2
          rw [List.drop_succ_cons] at call
          have longer : 10 < rest.length := by
            by_contra short
            rw [List.drop_eq_nil_of_le (by omega)] at call
            cases call
          rw [ih _ (by rw [List.length_drop]; omega) (rest.drop 10) rfl, ← List.drop_succ_cons (a := c),
            List.getLast?_drop, if_neg (by rw [List.length_cons]; omega)]
        · rw [List.getLast?_cons, List.getLast?_cons, ih rest.length (by omega) rest rfl]

theorem rewriteCatalog_first (isAlphanumeric : Char → Bool) {c : Char} (other : c.toLower ≠ 'p') (rest : Text) :
    ∃ later, rewriteCatalog isAlphanumeric (c :: rest) = c :: later := by
  have plain : ∀ more, bareRelation ' ' false (c :: more) = false := by
    intro more
    apply Bool.eq_false_iff.mpr
    intro bare
    obtain ⟨tail, split⟩ := relation_begins bare
    exact other (List.cons.inj split).1.symm
  rw [rewriteCatalog, qualifyBarePgCatalog]
  split_ifs with qualified
  · rw [strip_cons, not_qualifier_of_head other, if_neg Bool.false_ne_true, qualifyLoop_cons, plain,
      if_neg Bool.false_ne_true]
    exact ⟨_, rfl⟩
  · rw [qualifyLoop_cons, plain, if_neg Bool.false_ne_true]
    exact ⟨_, rfl⟩

theorem rewriteCatalog_last (isAlphanumeric : Char → Bool) (t : Text) :
    (rewriteCatalog isAlphanumeric t).getLast? = t.getLast? := by
  rw [rewriteCatalog, qualifyBarePgCatalog, qualifyLoop_last]
  split_ifs
  · exact strip_last t
  · rfl

end

theorem query_accepts {config : ServerConfig} {req : QueryRequest} {q : ConsoleQuery}
    (accepted : query config req = .ok q) :
    q.sql = bareStatement req.sql ∧ bareStatement req.sql ≠ [] ∧ ';' ∉ bareStatement req.sql ∧
      String.ofList (upper (firstWord (bareStatement req.sql))) ∈ readOnlyHeads := by
  rw [query] at accepted
  dsimp only at accepted
  split_ifs at accepted with disabled empty several head
  all_goals
    rw [← Except.ok.inj accepted]
    exact ⟨rfl, empty, several, head⟩

section
variable {isAlphanumeric : Char → Bool}

theorem handedText_show (isAlphanumeric : Char → Bool) {sql t : Text}
    (trimmed : trim (trimSemicolons (trim sql)) = t) (shown : String.ofList (firstWord (upper t)) = "SHOW") :
    ∃ later, handedText isAlphanumeric sql = some ("SELECT '".toList ++ later) := by
  have solid : t ≠ [] := by
    rintro rfl
    exact absurd shown (by decide)
  obtain ⟨later, selects⟩ := rewriteShow_selects t
  rw [handedText, intercept]
  dsimp only
  rw [trimmed, if_neg solid, shown, show sessionTags.lookup "SHOW" = none by decide]
  dsimp only
  rw [if_pos rfl, selects]
  exact ⟨later, rfl⟩

theorem handedText_read (isAlphanumeric : Char → Bool) {sql t : Text}
    (trimmed : trim (trimSemicolons (trim sql)) = t) (solid : t ≠ [])
    (read : String.ofList (firstWord (upper t)) ∈ readOnlyHeads)
    (noShow : String.ofList (firstWord (upper t)) ≠ "SHOW") :
    handedText isAlphanumeric sql =
      if (upper t).contains "PG_" ∧ rewriteCatalog isAlphanumeric t ≠ t then
        some (rewriteCatalog isAlphanumeric t)
      else some sql := by
  have untagged : ∀ head ∈ readOnlyHeads, sessionTags.lookup head = none ∧ head ∉ mutations := by decide
  obtain ⟨noTag, noMutation⟩ := untagged _ read
  rw [handedText, intercept]
  dsimp only
  rw [trimmed, if_neg solid, noTag]
  dsimp only
  rw [if_neg noShow, if_neg noMutation]
  by_cases catalog : (upper t).contains "PG_"
  · by_cases changed : rewriteCatalog isAlphanumeric t ≠ t
    · rw [if_pos catalog, if_pos changed, if_pos ⟨catalog, changed⟩]
    · rw [if_pos catalog, if_neg changed, if_neg fun both => changed both.2]
  · rw [if_neg catalog, if_neg fun both => catalog both.1]

theorem select_ne_show {t later : Text} (first : ∀ c, t.head? = some c → isRustWhitespace c = false)
    (shown : String.ofList (upper (firstWord t)) = "SHOW") :
    bareStatement ("SELECT '".toList ++ later) ≠ t := by
  intro same
  have selected : t <+: 'S' :: 'E' :: ("LECT '".toList ++ later) := by
    rw [← same]
    exact bareStatement_inside fun c head => by rw [← Option.some.inj head]; decide
  have begins : firstWord t <+: t := by
    rw [firstWord, trimStart_of_first first]
    exact List.takeWhile_prefix _
  have letters : upper (firstWord t) = ['S', 'H', 'O', 'W'] := by
    rw [← String.toList_ofList (l := upper (firstWord t)), shown]
    rfl
  have raised : upper (firstWord t) <+: upper ('S' :: 'E' :: ("LECT '".toList ++ later)) :=
    (begins.trans selected).map Char.toUpper
  obtain ⟨tail, split⟩ := raised
  rw [letters] at split
  have second := (List.cons.inj (List.cons.inj split).2).1
  exact absurd second (by decide)

/-- A reading statement does not begin with the catalog's letter. -/
theorem read_first {t : Text} (first : ∀ c, t.head? = some c → isRustWhitespace c = false) (solid : t ≠ [])
    (read : String.ofList (upper (firstWord t)) ∈ readOnlyHeads) :
    ∃ c rest, t = c :: rest ∧ c.toLower ≠ 'p' := by
  obtain ⟨c, rest, rfl⟩ := List.exists_cons_of_ne_nil solid
  refine ⟨c, rest, rfl, fun letter => ?_⟩
  have raised : c.toUpper = 'P' := by
    rw [← Char.toUpper_toLower_eq_toUpper, letter]
    rfl
  have word : upper (firstWord (c :: rest)) = 'P' :: upper (rest.takeWhile fun d => !isRustWhitespace d) := by
    rw [firstWord, trimStart_of_first first, List.takeWhile_cons_of_pos (by simp [first c rfl]), upper, List.map_cons,
      raised]
    rfl
  have others : readOnlyHeads.all (fun head => head.toList.head? != some 'P') = true := rfl
  have other := List.all_eq_true.mp others _ read
  rw [String.toList_ofList, word] at other
  exact absurd rfl (bne_iff_ne.mp other)

/-- The console and the wire front end run the same statement exactly when it is no
`SHOW` and the catalog rewrites have nothing to do. -/
theorem query_hands_iff (ascii : AgreesOnAscii isAlphanumeric) {config : ServerConfig} {req : QueryRequest}
    {q : ConsoleQuery} (accepted : query config req = .ok q) :
    (∃ text, handedText isAlphanumeric req.sql = some text ∧ bareStatement text = bareStatement q.sql) ↔
      String.ofList (upper (firstWord (bareStatement req.sql))) ≠ "SHOW" ∧
        settled isAlphanumeric (bareStatement req.sql) = true := by
  obtain ⟨same, solid, single, head⟩ := query_accepts accepted
  have trimmed := trimmed_of_bare single
  have bare := bareStatement_bare single
  have first : ∀ c, (bareStatement req.sql).head? = some c → isRustWhitespace c = false := fun c => trim_first
  have last : ∀ c, (bareStatement req.sql).getLast? = some c → isRustWhitespace c = false := fun c => trim_last
  rw [same, bare]
  obtain ⟨t, named⟩ : ∃ t, bareStatement req.sql = t := ⟨_, rfl⟩
  rw [named] at solid single head trimmed first last ⊢
  by_cases shown : String.ofList (upper (firstWord t)) = "SHOW"
  · obtain ⟨later, handed⟩ := handedText_show isAlphanumeric trimmed
      (by rw [firstWord_upper, shown])
    constructor
    · rintro ⟨text, given, agrees⟩
      rw [handed, Option.some.injEq] at given
      rw [← given] at agrees
      exact absurd agrees (select_ne_show first shown)
    · rintro ⟨noShow, -⟩
      exact absurd shown noShow
  · have handed := handedText_read isAlphanumeric trimmed solid
      (by rw [firstWord_upper]; exact head) (by rw [firstWord_upper]; exact shown)
    rw [and_iff_right shown, ← rewriteCatalog_fix_iff ascii]
    constructor
    · rintro ⟨text, given, agrees⟩
      by_contra changed
      have catalog : (upper t).contains "PG_" := by
        by_contra absent
        exact changed ((rewriteCatalog_fix_iff ascii t).mpr (settledFrom_absent absent ' ' false))
      rw [handed, if_pos ⟨catalog, changed⟩, Option.some.injEq] at given
      -- The rewritten statement is bare too, so that trimming does not hide the change.
      have bareText : bareStatement text = text := by
        obtain ⟨c, rest, rfl, other⟩ := read_first first solid head
        obtain ⟨later, kept⟩ := rewriteCatalog_first isAlphanumeric other rest
        have ends := rewriteCatalog_last isAlphanumeric (c :: rest)
        rw [given] at kept ends
        refine bareStatement_of_ends (fun d start => ?_) (fun d stop => ?_) fun stop => ?_
        · rw [kept] at start
          exact first d start
        · rw [ends] at stop
          exact last d stop
        · rw [ends] at stop
          exact single (List.mem_of_getLast? stop)
      exact changed (given.trans (bareText.symm.trans agrees))
    · intro fixed
      rw [handed, if_neg fun both => both.2 fixed]
      exact ⟨req.sql, rfl, named⟩

end

theorem query_hands_iff_select :
    (∃ text, handedText Char.isAlphanum "select version() ;".toList = some text ∧
      bareStatement text = bareStatement "select version()".toList) ↔
      String.ofList (upper (firstWord (bareStatement "select version() ;".toList))) ≠ "SHOW" ∧
        settled Char.isAlphanum (bareStatement "select version() ;".toList) = true := by
  have accepted : query ⟨true, 0⟩ ⟨"select version() ;".toList, none⟩ =
      .ok ⟨"select version()".toList, 1000, true, 30⟩ := rfl
  exact query_hands_iff (fun _ _ => rfl) accepted

/-- The console hands a `SHOW` to the session as it stands; a client of the wire protocol
is answered with a constant. -/
theorem show_hands :
    query ⟨true, 0⟩ ⟨"SHOW timezone".toList, none⟩ = .ok ⟨"SHOW timezone".toList, 1000, false, 30⟩ ∧
      ¬∃ text, handedText Char.isAlphanum "SHOW timezone".toList = some text ∧
        bareStatement text = bareStatement "SHOW timezone".toList := by
  refine ⟨rfl, ?_⟩
  rintro ⟨text, handed, same⟩
  have answer : handedText Char.isAlphanum "SHOW timezone".toList =
      some "SELECT 'UTC' AS \"TimeZone\"".toList := by decide
  rw [answer, Option.some.injEq] at handed
  rw [← handed] at same
  exact absurd same (by decide)

end Auger
