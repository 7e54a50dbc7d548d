import Auger.Gateway
import Auger.General.Insertion
import Auger.General.SqlText

set_option autoImplicit false

/-! What `qualify_bare_pg_catalog` puts into a text, and where. -/

namespace Auger

open General Text

/-- The flag of the scan behind a text: it counts single quotes. -/
def quoteFlag (read : Text) : Bool := decide (read.count '\'' % 2 = 1)

/-- The scan puts the qualifier between the two texts. -/
def qualifiedAt (read behind : Text) : Bool := bareRelation (read.getLastD ' ') (quoteFlag read) behind

theorem quoteFlag_snoc (read : Text) (c : Char) : quoteFlag (read ++ [c]) = nextQuote (quoteFlag read) c := by
  rw [quoteFlag, List.count_append, nextQuote, quoteFlag]
  by_cases quote : c = '\''
  · subst quote
    have parity : (read.count '\'' + 1) % 2 = 1 ↔ ¬read.count '\'' % 2 = 1 := by omega
    rw [if_pos rfl, show ['\''].count '\'' = 1 from rfl, decide_eq_decide.mpr parity, decide_not]
  · rw [if_neg quote, List.count_singleton, if_neg (by simpa using quote), Nat.add_zero]

theorem qualifyLoop_eq (read t : Text) :
    qualifyLoop (read.getLastD ' ') (quoteFlag read) t = insertAt qualifier qualifiedAt read t := by
  induction t generalizing read with
  | nil => rw [qualifyLoop, insertAt]
  | cons c rest ih =>
      have later := ih (read ++ [c])
      rw [List.getLastD_concat, quoteFlag_snoc] at later
      rw [qualifyLoop_cons, later, insertAt]
      rfl

theorem qualify_eq (sql : Text) : qualifyBarePgCatalog sql = insertAt qualifier qualifiedAt [] sql :=
  qualifyLoop_eq [] sql

theorem qualifiedAt_apart : Apart qualifier fun read behind => qualifiedAt read behind = true := by
  intro read behind here
  constructor
  · rintro ⟨before, rfl⟩
    have glued : attached ((before ++ qualifier).getLastD ' ') = true := by
      rw [show qualifier = "pg_catalog".toList ++ ['.'] by decide, ← List.append_assoc, List.getLastD_concat]
      decide
    rw [qualifiedAt, bareRelation_attached glued] at here
    cases here
  · intro begins
    have lowered : qualifier.isPrefixOf (lower behind) = true := by
      rw [List.isPrefixOf_iff_prefix, show qualifier = lower qualifier by decide]
      exact begins.map Char.toLower
    rw [qualifiedAt, prefix_not_relation lowered] at here
    cases here

/-- A relation's name is an ASCII word here, behind an even number of single quotes and
neither behind a dot nor inside a word. -/
def NamedAt (read behind : Text) : Prop :=
  read.count '\'' % 2 = 0 ∧ attached (read.getLastD ' ') = false ∧ isRelation (behind.takeWhile identChar) = true

theorem isRelation_start {ident : Text} (relation : isRelation ident = true) :
    ∃ c rest, ident = c :: rest ∧ identStart c = true := by
  obtain ⟨r, known, same⟩ := List.any_eq_true.mp relation
  rw [beq_iff_eq] at same
  have first : ∀ r ∈ pgCatalogRelations, r.toList.head? = some 'p' := by decide
  cases ident with
  | nil =>
      have none := first r known
      rw [← same] at none
      cases none
  | cons c rest =>
      refine ⟨c, rest, rfl, ?_⟩
      have letter := first r known
      rw [← same, lower, List.map_cons, List.head?_cons, Option.some.injEq] at letter
      have code := congrArg Char.toNat letter
      rw [toNat_toLower] at code
      rw [identStart, Bool.or_eq_true]
      left
      rw [isAlpha_iff]
      change (if 65 ≤ c.toNat ∧ c.toNat ≤ 90 then c.toNat + 32 else c.toNat) = 112 at code
      split_ifs at code <;> omega

theorem qualifiedAt_iff (read behind : Text) : qualifiedAt read behind = true ↔ NamedAt read behind := by
  have even : quoteFlag read = false ↔ read.count '\'' % 2 = 0 := by
    rw [quoteFlag, decide_eq_false_iff_not]
    omega
  rw [NamedAt, qualifiedAt, ← even]
  cases behind with
  | nil => simp [bareRelation, isRelation, pgCatalogRelations, lower]
  | cons c rest =>
      constructor
      · intro bare
        have word : identChar c = true := (bareRelation_opens bare).2
        simp only [bareRelation, Bool.and_eq_true, Bool.not_eq_true'] at bare
        rw [List.takeWhile_cons_of_pos word]
        exact ⟨bare.1.1.1, bare.1.2, bare.2⟩
      · rintro ⟨flag, free, relation⟩
        obtain ⟨d, more, shape, start⟩ := isRelation_start relation
        cases word : identChar c with
        | false =>
            rw [List.takeWhile_cons_of_neg (by simp [word])] at shape
            cases shape
        | true =>
            rw [List.takeWhile_cons_of_pos word] at shape relation
            obtain ⟨rfl, -⟩ := List.cons.inj shape
            rw [bareRelation, flag, free, start, relation]
            rfl

/-- The text is qualified by allowed insertions exactly when every place with a
relation's name is allowed. -/
theorem qualify_inserted_iff {allowed : Text → Text → Prop} (sql : Text) :
    Inserted qualifier allowed [] sql (qualifyBarePgCatalog sql) ↔
      ∀ before behind, sql = before ++ behind → NamedAt before behind → allowed before behind := by
  have fresh : 'p' ∉ "g_catalog.".toList := by decide
  have apart : Apart ('p' :: "g_catalog.".toList) fun read behind => qualifiedAt read behind = true := qualifiedAt_apart
  have places : Inserted qualifier allowed [] sql (insertAt qualifier qualifiedAt [] sql) ↔ _ :=
    inserted_insertAt_iff fresh apart
  rw [qualify_eq]
  refine places.trans (forall_congr' fun before => forall_congr' fun behind => imp_congr_right fun _ => ?_)
  rw [List.nil_append, qualifiedAt_iff]
  constructor
  · intro here named
    refine here ?_ named
    rintro rfl
    obtain ⟨c, rest, shape, -⟩ := isRelation_start named.2.2
    cases shape
  · exact fun here _ => here

section
-- How comments are read, and SQL's letters, those outside ASCII among them.
variable (rules : CommentRules) (isLetter : Char → Bool)

def sqlIdentChar (c : Char) : Bool := isLetter c || c.isDigit || c == '_' || c == '$'

/-- Outside string literals and quoted identifiers, a whole identifier stands here and
is the name of a relation. -/
structure StandsAlone (read behind : Text) : Prop where
  unquoted : ((SqlContext.outside .none).read rules read).quote = .none
  begins : ∀ c, read.getLast? = some c → sqlIdentChar isLetter c = false
  whole : isRelation (behind.takeWhile (sqlIdentChar isLetter)) = true

/-- Only whole identifiers outside quotes are qualified exactly when each relation's name
that the scan takes for a bare one is such an identifier. -/
theorem qualify_alone_iff (sql : Text) :
    Inserted qualifier (StandsAlone rules isLetter) [] sql (qualifyBarePgCatalog sql) ↔
      ∀ before behind, sql = before ++ behind → NamedAt before behind → StandsAlone rules isLetter before behind :=
  qualify_inserted_iff sql

/-- A quoted identifier with a relation's name. -/
def quotedRelation : Text := "SELECT \"pg_type\" FROM t".toList

/-- A literal behind a comment with an apostrophe in it. -/
def remarkedRelation : Text := "/* it's */ SELECT 'pg_type'".toList

/-- Whatever counts as a letter and however comments are read, the name is qualified inside
its quotes. -/
theorem qualifies_quoted :
    (¬∃ rules isLetter, Inserted qualifier (StandsAlone rules isLetter) [] quotedRelation
      (qualifyBarePgCatalog quotedRelation)) ∧
    ¬∃ rules isLetter, Inserted qualifier (StandsAlone rules isLetter) [] remarkedRelation
      (qualifyBarePgCatalog remarkedRelation) := by
  have apart : ∀ {before behind : Text}, NamedAt before behind →
      (∀ rules, ((SqlContext.outside .none).read rules before).quote ≠ .none) →
      ¬∃ rules isLetter, Inserted qualifier (StandsAlone rules isLetter) [] (before ++ behind)
        (qualifyBarePgCatalog (before ++ behind)) := by
    rintro before behind named quoted ⟨rules, isLetter, alone⟩
    exact quoted rules ((qualify_inserted_iff _).mp alone before behind rfl named).unquoted
  constructor
  · have named : NamedAt "SELECT \"".toList "pg_type\" FROM t".toList := ⟨by decide, by decide, by decide⟩
    exact apart named fun rules => show Quote.double ≠ .none by decide
  · have named : NamedAt "/* it's */ SELECT '".toList "pg_type'".toList := ⟨by decide, by decide, by decide⟩
    exact apart named fun rules => show Quote.single ≠ .none by decide

theorem takeWhile_congr {p q : Char → Bool} {t : Text} (same : ∀ c ∈ t, p c = q c) : t.takeWhile p = t.takeWhile q := by
  induction t with
  | nil => rfl
  | cons c rest ih =>
      rw [List.takeWhile_cons, List.takeWhile_cons, same c (by simp),
        ih fun d inside => same d (List.mem_cons_of_mem _ inside)]

theorem dropWhile_congr {p q : Char → Bool} {t : Text} (same : ∀ c ∈ t, p c = q c) : t.dropWhile p = t.dropWhile q := by
  induction t with
  | nil => rfl
  | cons c rest ih =>
      rw [List.dropWhile_cons, List.dropWhile_cons, same c (by simp),
        ih fun d inside => same d (List.mem_cons_of_mem _ inside)]

theorem read_singles {t : Text} (plain : '"' ∉ t) :
    Quote.none.read t = if t.count '\'' % 2 = 1 then .single else .none := by
  induction t using List.reverseRecOn with
  | nil => rfl
  | append_singleton t c ih =>
      have flag := quoteFlag_snoc t c
      have before := ih fun inside => plain (List.mem_append_left _ inside)
      have other : c ≠ '"' := by
        rintro rfl
        exact plain (by simp)
      rw [quoteFlag, quoteFlag] at flag
      rw [Quote.read_append, before]
      by_cases odd : t.count '\'' % 2 = 1 <;> by_cases quote : c = '\'' <;>
        simp [odd, quote, nextQuote, other, Quote.read, Quote.next] at flag ⊢ <;> simp [flag]

/-- A text in ASCII without double quotes and dollar signs, and without apostrophes in its
comments, is qualified at whole identifiers outside quotes only. -/
theorem qualify_plain (ascii : ∀ c : Char, c.toNat < 128 → isLetter c = c.isAlpha) {sql : Text}
    (plain : ∀ c ∈ sql, c.toNat < 128 ∧ c ≠ '"' ∧ c ≠ '$')
    (remarks : ∀ before c behind, sql = before ++ c :: behind →
      ((SqlContext.outside .none).read rules before).inComment = true → c ≠ '\'') :
    Inserted qualifier (StandsAlone rules isLetter) [] sql (qualifyBarePgCatalog sql) := by
  have same : ∀ c ∈ sql, sqlIdentChar isLetter c = identChar c := by
    intro c inside
    obtain ⟨small, -, dollar⟩ := plain c inside
    simp [sqlIdentChar, identChar, Char.isAlphanum, ascii c small, dollar]
  rw [qualify_inserted_iff]
  rintro before behind rfl ⟨even, free, relation⟩
  have noDouble : '"' ∉ before := fun inside => (plain '"' (List.mem_append_left _ inside)).2.1 rfl
  have context : ((SqlContext.outside .none).read rules before).quote = Quote.none.read before := by
    apply SqlContext.read_quote
    intro u c v split comment
    refine ⟨remarks u c (v ++ behind) (by rw [split, List.append_assoc, List.cons_append]) comment, ?_⟩
    rintro rfl
    exact noDouble (by rw [split]; simp)
  refine ⟨?_, ?_, ?_⟩
  · rw [context, read_singles noDouble, if_neg (by omega)]
  · intro c last
    have inside : c ∈ before := List.mem_of_getLast? last
    rw [same c (List.mem_append_left _ inside)]
    rw [List.getLastD_eq_getLast?, last, Option.getD_some] at free
    exact (Bool.or_eq_false_iff.mp free).2
  · rw [takeWhile_congr fun c inside => same c (List.mem_append_right _ inside)]
    exact relation

end

theorem qualifyLoop_qualified {prev : Char} (c : Char) (later : Text) :
    qualifyLoop prev false (qualifier ++ c :: later) = qualifier ++ c :: qualifyLoop c (nextQuote false c) later := by
  have begins : qualifier.isPrefixOf (lower (qualifier ++ c :: later)) = true := by
    rw [lower, List.map_append, show qualifier.map Char.toLower = qualifier by decide, List.isPrefixOf_iff_prefix]
    exact List.prefix_append _ _
  have first := prefix_not_relation begins prev false
  have letters : qualifier ++ c :: later = 'p' :: ("g_catalog".toList ++ '.' :: c :: later) := rfl
  have word : ∀ a ∈ "g_catalog".toList, identChar a = true := List.all_eq_true.mp rfl
  rw [letters] at first ⊢
  rw [qualifyLoop_cons, first, if_neg Bool.false_ne_true, List.nil_append, nextQuote, if_neg (by decide),
    qualifyLoop_attached (by decide), List.takeWhile_append_of_pos word, List.dropWhile_append_of_pos word,
    List.takeWhile_cons_of_neg (by decide), List.dropWhile_cons_of_neg (by decide), List.append_nil,
    qualifyLoop_cons, bareRelation_attached (by decide), if_neg Bool.false_ne_true, List.nil_append,
    qualifyLoop_cons, bareRelation_attached (by decide), if_neg Bool.false_ne_true, List.nil_append,
    show nextQuote false '.' = false by decide]
  rfl

theorem qualifyLoop_again (prev : Char) (inQuote : Bool) (t : Text) :
    qualifyLoop prev inQuote (qualifyLoop prev inQuote t) = qualifyLoop prev inQuote t := by
  induction t generalizing prev inQuote with
  | nil => simp [qualifyLoop]
  | cons c rest ih =>
      rw [qualifyLoop_cons]
      cases bare : bareRelation prev inQuote (c :: rest) with
      | true =>
          rw [if_pos rfl, (bareRelation_opens bare).1, qualifyLoop_qualified, ih]
      | false =>
          have still : bareRelation prev inQuote (c :: qualifyLoop c (nextQuote inQuote c) rest) = false := by
            rw [← bare]
            exact bareRelation_congr fun word => takeWhile_qualifyLoop (attached_of_identChar word) _ rest
          rw [if_neg Bool.false_ne_true, List.nil_append, qualifyLoop_cons, still, if_neg Bool.false_ne_true,
            List.nil_append, ih]

theorem qualify_again (sql : Text) : qualifyBarePgCatalog (qualifyBarePgCatalog sql) = qualifyBarePgCatalog sql :=
  qualifyLoop_again ' ' false sql

end Auger
