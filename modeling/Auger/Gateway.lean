import Auger.CatalogNames
import Auger.General.Schedule

set_option autoImplicit false

/-! The wire front end: the messages of all clients, run as statements of one shared
session, and the statements that reach the engine. -/

namespace Auger

open General Text

structure ErrorInfo where
  severity : String
  code : String
  message : String
  deriving DecidableEq, Repr

/-- How the engine fails a statement: when it plans it, or when it runs it. -/
inductive SqlFailure
  | planning (message : String)
  | execution (message : String)

/-- The engine's session, shared by all connections; the rows of an answer are left out. -/
structure SessionContext (σ : Type) where
  sql : σ → Text → σ × Except SqlFailure Unit

def planningError (message : String) : ErrorInfo :=
  { severity := "ERROR"
    code :=
      if Text.contains message.toList "table" ∧ Text.contains message.toList "not found" then "42P01" else "42601"
    message }

def executionError (message : String) : ErrorInfo := ⟨"ERROR", "58000", message⟩

def parametersRefused : ErrorInfo :=
  ⟨"ERROR", "0A000", "bound parameters are not supported yet; send the statement with literals"⟩

inductive Response
  | execution (tag : String)
  | query
  | emptyQuery
  deriving DecidableEq, Repr

/-- One statement of a client: what the engine was handed for it, and the answer. -/
structure Call where
  statement : Text
  handed : Option Text
  answer : Except ErrorInfo Response

inductive Message
  | simple (query : Text)
  | extended (statement : Text) (parameters : Nat)

section
variable (isAlphanumeric : Char → Bool)

/-- The text `run` hands to the engine. -/
def handedText (sql : Text) : Option Text :=
  match intercept isAlphanumeric sql with
  | some (.tag _) => none
  | some (.rewritten rewritten) => some rewritten
  | none => some sql

variable {σ : Type} (ctx : SessionContext σ)

def execute (session : σ) (statement text : Text) : σ × Call :=
  let (session', outcome) := ctx.sql session text
  (session', ⟨statement, some text,
    match outcome with
    | .ok () => .ok .query
    | .error (.planning message) => .error (planningError message)
    | .error (.execution message) => .error (executionError message)⟩)

def run (session : σ) (sql : Text) : σ × Call :=
  match intercept isAlphanumeric sql with
  | some (.tag tag) => (session, ⟨sql, none, .ok (.execution tag)⟩)
  | some (.rewritten rewritten) => execute ctx session sql rewritten
  | none => execute ctx session sql sql

/-- The statements of a payload one after the other, up to the first error. -/
def runAll (session : σ) : List Text → σ × List Call × Except ErrorInfo (List Response)
  | [] => (session, [], .ok [])
  | statement :: rest =>
      let (session', call) := run isAlphanumeric ctx session statement
      match call.answer with
      | .error e => (session', [call], .error e)
      | .ok response =>
          let (last, calls, answer) := runAll session' rest
          (last, call :: calls, answer.map (response :: ·))

/-- `do_query` of the simple and of the extended protocol. -/
def doQuery (session : σ) : Message → σ × List Call × Except ErrorInfo (List Response)
  | .simple query =>
      let (last, calls, answer) := runAll isAlphanumeric ctx session (splitStatements query)
      (last, calls, answer.map fun responses => if responses = [] then [.emptyQuery] else responses)
  | .extended statement parameters =>
      if 0 < parameters then (session, [], .error parametersRefused)
      else
        let (last, call) := run isAlphanumeric ctx session statement
        (last, [call], call.answer.map ([·]))

/-- The shared session, and all statements run so far, of whatever client. -/
structure Server (σ : Type) where
  session : σ
  calls : List Call

def Server.start (session : σ) : Server σ := ⟨session, []⟩

def Server.step (server : Server σ) (sent : Nat × Message) : Server σ :=
  let (session, calls, _) := doQuery isAlphanumeric ctx server.session sent.2
  ⟨session, server.calls ++ calls⟩

end

def leadingWord (t : Text) : Text := (trimStart t).takeWhile identChar

def LeadsWith (words : List String) (t : Text) : Prop := String.ofList (upper (leadingWord t)) ∈ words

instance (words : List String) (t : Text) : Decidable (LeadsWith words t) := inferInstanceAs (Decidable (_ ∈ _))

/-- What the engine skips before a keyword stands here: an empty statement or a comment. -/
def SkipsAhead (t : Text) : Prop := ∃ c ∈ [';', '-', '/'], (trimStart t).head? = some c

instance (t : Text) : Decidable (SkipsAhead t) := inferInstanceAs (Decidable (∃ _ ∈ _, _))

/-- No mutation reaches the engine, and each is answered with an error. -/
def ReadOnly (calls : List Call) : Prop :=
  ∀ call ∈ calls, (∀ text, call.handed = some text → ¬LeadsWith mutations text) ∧
    (LeadsWith mutations call.statement → ∃ e, call.answer = .error e)

section
variable (isAlphanumeric : Char → Bool)

/-- Once the catalog qualifier of a call is taken out of its first word, the statement
leads with one of the words. -/
def QualifiesTo (words : List String) (sql : Text) : Prop :=
  ∃ before after, trim (trimSemicolons (trim sql)) = before ++ after ∧ (∀ c ∈ before, identChar c = true) ∧
    callQualifier isAlphanumeric after = true ∧
    String.ofList (upper (before ++ (after.drop 11).takeWhile identChar)) ∈ words

/-- The statements of a message that are run unless one before them fails. -/
def Message.statements : Message → List Text
  | .simple query => splitStatements query
  | .extended statement parameters => if 0 < parameters then [] else [statement]

/-- No statement of the message leads with one of the words, or comes to. -/
def Message.Avoids (words : List String) (message : Message) : Prop :=
  ∀ statement ∈ message.statements,
    ¬LeadsWith words statement ∧ ¬QualifiesTo isAlphanumeric words statement

end

theorem isRustWhitespace_iff (c : Char) :
    isRustWhitespace c = true ↔ (9 ≤ c.toNat ∧ c.toNat ≤ 13) ∨ (0x2000 ≤ c.toNat ∧ c.toNat ≤ 0x200A) ∨
      c.toNat ∈ [0x20, 0x85, 0xA0, 0x1680, 0x2028, 0x2029, 0x202F, 0x205F, 0x3000] := by
  simp only [isRustWhitespace, Bool.or_eq_true, Bool.and_eq_true, decide_eq_true_eq, beq_iff_eq, List.mem_cons,
    List.not_mem_nil, or_false]
  omega

theorem trim_eq (t : Text) : trim t = (trimStart t).rdropWhile isRustWhitespace := rfl

theorem identChar_of_isRustWhitespace {c : Char} (space : isRustWhitespace c = true) : identChar c = false := by
  apply Bool.eq_false_iff.mpr
  intro ident
  rw [identChar_iff] at ident
  rw [isRustWhitespace_iff] at space
  simp only [List.mem_cons, List.not_mem_nil, or_false] at space
  omega

theorem toLower_of_isRustWhitespace {c : Char} (space : isRustWhitespace c = true) : c.toLower = c := by
  apply Char.toNat_inj.mp
  rw [toNat_toLower, if_neg]
  intro letter
  rw [isRustWhitespace_iff] at space
  simp only [List.mem_cons, List.not_mem_nil, or_false] at space
  omega

theorem leadingWord_space {c : Char} (space : isRustWhitespace c = true) (t : Text) :
    leadingWord (c :: t) = leadingWord t := by
  rw [leadingWord, leadingWord, trimStart, trimStart, List.dropWhile_cons_of_pos space]

theorem leadingWord_here {c : Char} (space : isRustWhitespace c = false) (t : Text) :
    leadingWord (c :: t) = (c :: t).takeWhile identChar := by
  rw [leadingWord, trimStart, List.dropWhile_cons_of_neg (by simp [space])]

theorem skipsAhead_space {c : Char} (space : isRustWhitespace c = true) (t : Text) :
    SkipsAhead (c :: t) ↔ SkipsAhead t := by
  rw [SkipsAhead, SkipsAhead, trimStart, trimStart, List.dropWhile_cons_of_pos space]

theorem skipsAhead_here {c : Char} (space : isRustWhitespace c = false) (t : Text) :
    SkipsAhead (c :: t) ↔ c ∈ [';', '-', '/'] := by
  rw [SkipsAhead, trimStart, List.dropWhile_cons_of_neg (by simp [space])]
  simp

theorem not_skipsAhead {t : Text} {c : Char} (first : (trimStart t).head? = some c) (other : c ∉ [';', '-', '/']) :
    ¬SkipsAhead t := by
  rintro ⟨d, skipped, found⟩
  rw [first, Option.some.injEq] at found
  exact other (found ▸ skipped)

theorem takeWhile_append_none {v w : Text} (none : ∀ c ∈ w, identChar c = false) :
    (v ++ w).takeWhile identChar = v.takeWhile identChar := by
  induction v with
  | nil =>
      cases w with
      | nil => rfl
      | cons c w => rw [List.nil_append, List.takeWhile_cons_of_neg (by simp [none c]), List.takeWhile_nil]
  | cons c v ih =>
      rw [List.cons_append]
      cases ident : identChar c with
      | false => rw [List.takeWhile_cons_of_neg (by simp [ident]), List.takeWhile_cons_of_neg (by simp [ident])]
      | true => rw [List.takeWhile_cons_of_pos ident, List.takeWhile_cons_of_pos ident, ih]

theorem leadingWord_append {v w : Text} (none : ∀ c ∈ w, identChar c = false) :
    leadingWord (v ++ w) = leadingWord v := by
  induction v with
  | nil =>
      rw [List.nil_append, leadingWord]
      have dropped : ∀ c ∈ trimStart w, identChar c = false :=
        fun c member => none c ((List.dropWhile_sublist _).subset member)
      have all := takeWhile_append_none (v := []) dropped
      rw [List.nil_append] at all
      rw [all]
      rfl
  | cons c v ih =>
      rw [List.cons_append]
      cases space : isRustWhitespace c with
      | true => rw [leadingWord_space space, leadingWord_space space, ih]
      | false =>
          rw [leadingWord_here space, leadingWord_here space, ← List.cons_append, takeWhile_append_none none]

theorem leadingWord_rdropWhile {p : Char → Bool} (other : ∀ c, p c = true → identChar c = false) (t : Text) :
    leadingWord (t.rdropWhile p) = leadingWord t := by
  have split : t.rdropWhile p ++ t.rtakeWhile p = t := List.rdropWhile_append_rtakeWhile
  calc leadingWord (t.rdropWhile p)
      = leadingWord (t.rdropWhile p ++ t.rtakeWhile p) :=
        (leadingWord_append fun c member => other c (List.mem_rtakeWhile_imp member)).symm
    _ = leadingWord t := by rw [split]

theorem leadingWord_trim (t : Text) : leadingWord (trim t) = leadingWord t := by
  rw [trim_eq, leadingWord_rdropWhile fun _ => identChar_of_isRustWhitespace, leadingWord, leadingWord,
    trimStart, trimStart, List.dropWhile_idempotent]

theorem leadingWord_trimmed (sql : Text) :
    leadingWord (trim (trimSemicolons (trim sql))) = leadingWord sql := by
  have semicolon : ∀ c : Char, (c == ';') = true → identChar c = false := by
    intro c same
    rw [beq_iff_eq.mp same]
    decide
  rw [leadingWord_trim, trimSemicolons, leadingWord_rdropWhile semicolon, leadingWord_trim]

theorem takeWhile_qualifyLoop {prev : Char} (glued : attached prev = true) (inQuote : Bool) (t : Text) :
    (qualifyLoop prev inQuote t).takeWhile identChar = t.takeWhile identChar := by
  induction t generalizing prev inQuote with
  | nil => rw [qualifyLoop]
  | cons c rest ih =>
      rw [qualifyLoop_cons, bareRelation_attached glued, if_neg Bool.false_ne_true, List.nil_append]
      cases ident : identChar c with
      | false => rw [List.takeWhile_cons_of_neg (by simp [ident]), List.takeWhile_cons_of_neg (by simp [ident])]
      | true =>
          rw [List.takeWhile_cons_of_pos ident, List.takeWhile_cons_of_pos ident, ih (attached_of_identChar ident)]

theorem leadingWord_qualifier (t : Text) : leadingWord (qualifier ++ t) = "pg_catalog".toList := by
  have letters : qualifier ++ t = 'p' :: ("g_catalog.".toList ++ t) := rfl
  rw [letters, leadingWord_here (by decide), ← letters, show qualifier = "pg_catalog".toList ++ ['.'] by decide,
    List.append_assoc, List.takeWhile_append_of_pos catalog_ident]
  simp [identChar]

theorem qualifyLoop_begins {prev : Char} (free : attached prev = false) (t : Text) :
    (leadingWord (qualifyLoop prev false t) = leadingWord t ∨
      isRelation (leadingWord t) = true ∧ leadingWord (qualifyLoop prev false t) = "pg_catalog".toList) ∧
      (SkipsAhead (qualifyLoop prev false t) → SkipsAhead t) := by
  induction t generalizing prev with
  | nil =>
      rw [qualifyLoop]
      exact ⟨.inl rfl, id⟩
  | cons c rest ih =>
      rw [qualifyLoop_cons]
      cases space : isRustWhitespace c with
      | true =>
          have noIdent := identChar_of_isRustWhitespace space
          have plain : bareRelation prev false (c :: rest) = false := by
            apply Bool.eq_false_iff.mpr
            intro bare
            rw [(bareRelation_opens bare).2] at noIdent
            cases noIdent
          have unquoted : nextQuote false c = false := by
            rw [nextQuote, if_neg]
            rintro rfl
            exact absurd space (by decide)
          have freeNext : attached c = false := by
            have noDot : c ≠ '.' := by
              rintro rfl
              exact absurd space (by decide)
            simp [attached, noIdent, noDot]
          rw [plain, if_neg Bool.false_ne_true, List.nil_append, leadingWord_space space, leadingWord_space space,
            skipsAhead_space space, skipsAhead_space space, unquoted]
          exact ih freeNext
      | false =>
          cases bare : bareRelation prev false (c :: rest) with
          | true =>
              have named : isRelation (leadingWord (c :: rest)) = true := by
                rw [leadingWord_here space, List.takeWhile_cons_of_pos (bareRelation_opens bare).2]
                exact (Bool.and_eq_true_iff.mp bare).2
              rw [if_pos rfl, leadingWord_qualifier, show qualifier = 'p' :: "g_catalog.".toList by decide,
                List.cons_append, skipsAhead_here (by decide)]
              exact ⟨.inr ⟨named, rfl⟩, fun skips => absurd skips (by decide)⟩
          | false =>
              rw [if_neg Bool.false_ne_true, List.nil_append, leadingWord_here space, leadingWord_here space,
                skipsAhead_here space, skipsAhead_here space]
              refine ⟨.inl ?_, id⟩
              cases ident : identChar c with
              | false =>
                  rw [List.takeWhile_cons_of_neg (by simp [ident]), List.takeWhile_cons_of_neg (by simp [ident])]
              | true =>
                  rw [List.takeWhile_cons_of_pos ident, List.takeWhile_cons_of_pos ident,
                    takeWhile_qualifyLoop (attached_of_identChar ident)]

theorem isRustWhitespace_toLower (c : Char) : isRustWhitespace c.toLower = isRustWhitespace c := by
  rw [Bool.eq_iff_iff, isRustWhitespace_iff, isRustWhitespace_iff, toNat_toLower]
  simp only [List.mem_cons, List.not_mem_nil, or_false]
  split_ifs <;> omega

section
variable {isAlphanumeric : Char → Bool}

theorem leadingWord_parenthesis (isAlphanumeric : Char → Bool) {t : Text}
    (opens : (trimStart (lower t)).head? = some '(') :
    leadingWord (stripPgCatalogPrefix isAlphanumeric t) = [] ∧
      (trimStart (stripPgCatalogPrefix isAlphanumeric t)).head? = some '(' := by
  induction t with
  | nil => cases opens
  | cons c rest ih =>
      have other : c.toLower ≠ 'p' → stripPgCatalogPrefix isAlphanumeric (c :: rest) =
          c :: stripPgCatalogPrefix isAlphanumeric rest := by
        intro other
        rw [strip_cons, not_qualifier_of_head other, if_neg Bool.false_ne_true]
      rw [lower, List.map_cons, trimStart] at opens
      cases space : isRustWhitespace c with
      | true =>
          rw [List.dropWhile_cons_of_pos (by rw [isRustWhitespace_toLower, space])] at opens
          have copied := other (by
            rw [toLower_of_isRustWhitespace space]
            rintro rfl
            exact absurd space (by decide))
          rw [copied, leadingWord_space space, trimStart, List.dropWhile_cons_of_pos space]
          exact ih opens
      | false =>
          rw [List.dropWhile_cons_of_neg (by rw [isRustWhitespace_toLower, space]; decide), List.head?_cons] at opens
          have here : c = '(' := eq_of_toLower (Option.some.inj opens) (by decide)
          subst here
          rw [other (by decide), leadingWord_here space, trimStart, List.dropWhile_cons_of_neg (by decide),
            List.takeWhile_cons_of_neg (by decide)]
          exact ⟨rfl, rfl⟩

theorem isCall_here {c : Char} (outside : (isAlphanumeric c || c == '_') = false) (rest : Text) :
    isCall isAlphanumeric (c :: rest) = ((trimStart (c :: rest)).head? == some '(') := by
  rw [isCall, List.dropWhile_cons_of_neg (p := fun d => isAlphanumeric d || d == '_') (by rw [outside]; decide)]

variable (ascii : AgreesOnAscii isAlphanumeric)

include ascii

/-- Stripping keeps the identifier a text begins with, or takes a call's qualifier out
of it. -/
theorem takeWhile_strip (t : Text) :
    (stripPgCatalogPrefix isAlphanumeric t).takeWhile identChar = t.takeWhile identChar ∨
      ∃ before after, t = before ++ after ∧ (∀ c ∈ before, identChar c = true) ∧
        callQualifier isAlphanumeric after = true ∧
        (stripPgCatalogPrefix isAlphanumeric t).takeWhile identChar =
          before ++ (after.drop 11).takeWhile identChar := by
  induction t with
  | nil => exact .inl (by rw [stripPgCatalogPrefix])
  | cons c rest ih =>
      cases called : callQualifier isAlphanumeric (c :: rest) with
      | true =>
          right
          refine ⟨[], c :: rest, rfl, by simp, called, ?_⟩
          rw [strip_cons, called, if_pos rfl, ← List.drop_succ_cons (a := c), List.nil_append]
          exact call_ident ascii (Bool.and_eq_true_iff.mp called).2
      | false =>
          rw [strip_cons, called, if_neg Bool.false_ne_true]
          cases ident : identChar c with
          | false =>
              left
              rw [List.takeWhile_cons_of_neg (by simp [ident]), List.takeWhile_cons_of_neg (by simp [ident])]
          | true =>
              rw [List.takeWhile_cons_of_pos ident, List.takeWhile_cons_of_pos ident]
              obtain same | ⟨before, after, split, idents, qualified, word⟩ := ih
              · exact .inl (by rw [same])
              · right
                refine ⟨c :: before, after, by rw [split, List.cons_append], ?_, qualified,
                  by rw [word, List.cons_append]⟩
                intro d member
                obtain rfl | later := List.mem_cons.mp member
                · exact ident
                · exact idents d later

/-- What no identifier begins with and no parenthesis opens. -/
theorem not_skipped {d : Char} (begins : (isAlphanumeric d.toLower || d.toLower == '_') = true ∨ d = '(') :
    d ∉ [';', '-', '/'] := by
  intro skipped
  simp only [List.mem_cons, List.not_mem_nil, or_false] at skipped
  obtain rfl | rfl | rfl := skipped
  all_goals
    obtain inside | same := begins
    · rw [ascii _ (by decide)] at inside
      exact absurd inside (by decide)
    · exact absurd same (by decide)

variable (space : ∀ c, isRustWhitespace c = true → isAlphanumeric c = false)

include space

theorem stripped_call {t : Text} (call : isCall isAlphanumeric (lower t) = true) :
    leadingWord (stripPgCatalogPrefix isAlphanumeric t) = t.takeWhile identChar ∧
      ∀ d, (trimStart (stripPgCatalogPrefix isAlphanumeric t)).head? = some d →
        (isAlphanumeric d.toLower || d.toLower == '_') = true ∨ d = '(' := by
  cases t with
  | nil => cases call
  | cons c rest =>
      cases blank : isRustWhitespace c with
      | true =>
          have noIdent := identChar_of_isRustWhitespace blank
          have outside : (isAlphanumeric c || c == '_') = false := by
            rw [space c blank, Bool.false_or, beq_eq_false_iff_ne]
            rintro rfl
            exact absurd noIdent (by decide)
          have opens : (trimStart (lower (c :: rest))).head? = some '(' := by
            rw [lower, List.map_cons, toLower_of_isRustWhitespace blank, isCall_here outside, beq_iff_eq] at call
            rwa [lower, List.map_cons, toLower_of_isRustWhitespace blank]
          obtain ⟨none, first⟩ := leadingWord_parenthesis isAlphanumeric opens
          rw [none, List.takeWhile_cons_of_neg (by simp [noIdent])]
          refine ⟨rfl, fun d found => .inr ?_⟩
          rw [first] at found
          exact (Option.some.inj found).symm
      | false =>
          rw [(call_cons ascii call).1, leadingWord_here blank, ← (call_cons ascii call).1, call_ident ascii call,
            (call_cons ascii call).1, trimStart, List.dropWhile_cons_of_neg (by simp [blank])]
          refine ⟨rfl, fun d found => ?_⟩
          rw [← Option.some.inj found]
          cases inside : isAlphanumeric c.toLower || c.toLower == '_' with
          | true => exact .inl rfl
          | false =>
              rw [lower, List.map_cons, isCall_here inside, trimStart,
                List.dropWhile_cons_of_neg (by rw [isRustWhitespace_toLower, blank]; decide), List.head?_cons,
                beq_iff_eq] at call
              exact .inr (eq_of_toLower (Option.some.inj call) (by decide))

theorem strip_begins {c : Char} (here : isRustWhitespace c = false) (rest : Text) :
    (leadingWord (stripPgCatalogPrefix isAlphanumeric (c :: rest)) = leadingWord (c :: rest) ∨
      ∃ before after, c :: rest = before ++ after ∧ (∀ d ∈ before, identChar d = true) ∧
        callQualifier isAlphanumeric after = true ∧
        leadingWord (stripPgCatalogPrefix isAlphanumeric (c :: rest)) =
          before ++ (after.drop 11).takeWhile identChar) ∧
      (SkipsAhead (stripPgCatalogPrefix isAlphanumeric (c :: rest)) → SkipsAhead (c :: rest)) := by
  cases called : callQualifier isAlphanumeric (c :: rest) with
  | true =>
      obtain ⟨word, first⟩ := stripped_call ascii space (Bool.and_eq_true_iff.mp called).2
      have stripped : stripPgCatalogPrefix isAlphanumeric (c :: rest) =
          stripPgCatalogPrefix isAlphanumeric ((c :: rest).drop 11) := by
        rw [strip_cons, called, if_pos rfl, List.drop_succ_cons]
      rw [stripped]
      constructor
      · exact .inr ⟨[], c :: rest, rfl, by simp, called, by rw [word, List.nil_append]⟩
      · rintro ⟨d, skipped, found⟩
        exact absurd skipped (not_skipped ascii (first d found))
  | false =>
      have copied : stripPgCatalogPrefix isAlphanumeric (c :: rest) =
          c :: stripPgCatalogPrefix isAlphanumeric rest := by
        rw [strip_cons, called, if_neg Bool.false_ne_true]
      have word := takeWhile_strip ascii (c :: rest)
      rw [copied] at word ⊢
      rw [leadingWord_here here, leadingWord_here here, skipsAhead_here here, skipsAhead_here here]
      exact ⟨word, id⟩

end

theorem trimmed_head {sql : Text} {c : Char} {rest : Text}
    (trimmed : trim (trimSemicolons (trim sql)) = c :: rest) :
    isRustWhitespace c = false ∧ ∃ later, trimStart sql = c :: later := by
  have inside : trimSemicolons (trim sql) <+: trimStart sql :=
    (List.rdropWhile_prefix _ _).trans (List.rdropWhile_prefix _ _)
  have outer : trim (trimSemicolons (trim sql)) <+: trimStart (trimSemicolons (trim sql)) :=
    List.rdropWhile_prefix _ _
  cases kept : trimSemicolons (trim sql) with
  | nil =>
      rw [kept] at trimmed
      cases trimmed
  | cons d more =>
      rw [kept] at trimmed inside outer
      rw [trimmed] at outer
      obtain ⟨tail, split⟩ := inside
      rw [List.cons_append] at split
      have solid : isRustWhitespace d = false := by
        have head := List.head?_dropWhile_not isRustWhitespace sql
        rw [show sql.dropWhile isRustWhitespace = d :: (more ++ tail) from split.symm] at head
        simpa using head
      rw [trimStart, List.dropWhile_cons_of_neg (by simp [solid])] at outer
      obtain ⟨same, -⟩ := List.cons_prefix_cons.mp outer
      rw [same]
      exact ⟨solid, _, split.symm⟩

theorem rewriteShow_selects (sql : Text) : ∃ later, rewriteShow sql = .rewritten ("SELECT '".toList ++ later) := by
  rw [rewriteShow]
  dsimp only
  rw [List.append_assoc, List.append_assoc, List.append_assoc]
  exact ⟨_, rfl⟩

section
variable {isAlphanumeric : Char → Bool}

/-- What is handed to the engine for a statement: itself, a constant, or itself with its
catalog names rewritten. -/
theorem handedText_cases {sql text : Text} (handed : handedText isAlphanumeric sql = some text) :
    text = sql ∨ (∃ later, text = "SELECT '".toList ++ later) ∨
      trim (trimSemicolons (trim sql)) ≠ [] ∧
        text = rewriteCatalog isAlphanumeric (trim (trimSemicolons (trim sql))) := by
  rw [handedText, intercept] at handed
  dsimp only at handed
  by_cases blank : trim (trimSemicolons (trim sql)) = []
  · rw [if_pos blank] at handed
    cases handed
  rw [if_neg blank] at handed
  cases tagged : sessionTags.lookup (String.ofList (firstWord (upper (trim (trimSemicolons (trim sql)))))) with
  | some tag =>
      rw [tagged] at handed
      cases handed
  | none =>
      rw [tagged] at handed
      dsimp only at handed
      by_cases shown : String.ofList (firstWord (upper (trim (trimSemicolons (trim sql))))) = "SHOW"
      · obtain ⟨later, selects⟩ := rewriteShow_selects (trim (trimSemicolons (trim sql)))
        rw [if_pos shown, selects] at handed
        exact .inr (.inl ⟨later, (Option.some.inj handed).symm⟩)
      rw [if_neg shown] at handed
      split_ifs at handed with mutation catalog changed
      · exact .inl (Option.some.inj handed).symm
      · exact .inr (.inr ⟨blank, (Option.some.inj handed).symm⟩)
      · exact .inl (Option.some.inj handed).symm
      · exact .inl (Option.some.inj handed).symm

variable (ascii : AgreesOnAscii isAlphanumeric)
variable (space : ∀ c, isRustWhitespace c = true → isAlphanumeric c = false)

include ascii space

/-- What the rewritten catalog names of a statement make of its beginning. -/
theorem rewriteCatalog_begins {t : Text} {c : Char} {rest : Text} (shape : t = c :: rest)
    (here : isRustWhitespace c = false) :
    (leadingWord (rewriteCatalog isAlphanumeric t) = leadingWord t ∨
      leadingWord (rewriteCatalog isAlphanumeric t) = "pg_catalog".toList ∨
      ∃ before after, t = before ++ after ∧ (∀ d ∈ before, identChar d = true) ∧
        callQualifier isAlphanumeric after = true ∧
        leadingWord (rewriteCatalog isAlphanumeric t) = before ++ (after.drop 11).takeWhile identChar) ∧
      (SkipsAhead (rewriteCatalog isAlphanumeric t) → SkipsAhead t) := by
  rw [rewriteCatalog, qualifyBarePgCatalog]
  have free : attached ' ' = false := by decide
  split_ifs with qualified
  · obtain ⟨word, skips⟩ := qualifyLoop_begins free (stripPgCatalogPrefix isAlphanumeric t)
    rw [shape] at word skips ⊢
    obtain ⟨strippedWord, strippedSkips⟩ := strip_begins ascii space here rest
    refine ⟨?_, fun later => strippedSkips (skips later)⟩
    obtain kept | ⟨-, put⟩ := word
    · rw [kept]
      obtain same | moved := strippedWord
      · exact .inl same
      · exact .inr (.inr moved)
    · exact .inr (.inl put)
  · obtain ⟨word, skips⟩ := qualifyLoop_begins free t
    obtain kept | ⟨-, put⟩ := word
    · exact ⟨.inl kept, skips⟩
    · exact ⟨.inr (.inl put), skips⟩

/-- A text handed to the engine leads with a word only where its statement does, or
comes to. -/
theorem handed_leads {words : List String} (select : "SELECT" ∉ words) (catalog : "PG_CATALOG" ∉ words)
    {sql text : Text} (handed : handedText isAlphanumeric sql = some text) (leads : LeadsWith words text) :
    LeadsWith words sql ∨ QualifiesTo isAlphanumeric words sql := by
  obtain rfl | ⟨later, rfl⟩ | ⟨solid, rfl⟩ := handedText_cases handed
  · exact .inl leads
  · exact absurd leads select
  · obtain ⟨c, rest, shape⟩ := List.exists_cons_of_ne_nil solid
    obtain ⟨here, -⟩ := trimmed_head shape
    rw [LeadsWith] at leads
    obtain same | put | ⟨before, after, split, idents, called, word⟩ :=
      (rewriteCatalog_begins ascii space shape here).1
    · rw [same, leadingWord_trimmed] at leads
      exact .inl leads
    · rw [put] at leads
      exact absurd leads catalog
    · rw [word] at leads
      exact .inr ⟨before, after, split, idents, called, leads⟩

theorem handed_skips {sql text : Text} (handed : handedText isAlphanumeric sql = some text)
    (skips : SkipsAhead text) : SkipsAhead sql := by
  obtain rfl | ⟨later, rfl⟩ | ⟨solid, rfl⟩ := handedText_cases handed
  · exact skips
  · rw [show "SELECT '".toList ++ later = 'S' :: ("ELECT '".toList ++ later) from rfl,
      skipsAhead_here (by decide)] at skips
    exact absurd skips (by decide)
  · obtain ⟨c, rest, shape⟩ := List.exists_cons_of_ne_nil solid
    obtain ⟨here, later, start⟩ := trimmed_head shape
    have trimmedSkips := (rewriteCatalog_begins ascii space shape here).2 skips
    rw [shape, skipsAhead_here here] at trimmedSkips
    exact ⟨c, trimmedSkips, by rw [start, List.head?_cons]⟩

end

section
variable {isAlphanumeric : Char → Bool} {σ : Type} {ctx : SessionContext σ}

theorem run_handed (isAlphanumeric : Char → Bool) (ctx : SessionContext σ) (session : σ) (sql : Text) :
    (run isAlphanumeric ctx session sql).2.statement = sql ∧
      (run isAlphanumeric ctx session sql).2.handed = handedText isAlphanumeric sql := by
  rw [run, handedText]
  cases intercept isAlphanumeric sql with
  | none => exact ⟨rfl, rfl⟩
  | some intercepted => cases intercepted <;> exact ⟨rfl, rfl⟩

theorem run_session {inv : σ → Prop} {sql : Text}
    (keeps : ∀ session text, handedText isAlphanumeric sql = some text → inv session →
      inv (ctx.sql session text).1)
    {session : σ} (before : inv session) : inv (run isAlphanumeric ctx session sql).1 := by
  rw [handedText] at keeps
  rw [run]
  cases intercepted : intercept isAlphanumeric sql with
  | none => exact keeps session sql (by rw [intercepted]) before
  | some intercepted' =>
      cases intercepted' with
      | tag tag => exact before
      | rewritten text => exact keeps session text (by rw [intercepted]) before

theorem runAll_calls (session : σ) (statements : List Text) :
    ∀ call ∈ (runAll isAlphanumeric ctx session statements).2.1,
      call.statement ∈ statements ∧ call.handed = handedText isAlphanumeric call.statement := by
  induction statements generalizing session with
  | nil =>
      intro call member
      cases member
  | cons statement rest ih =>
      obtain ⟨same, handed⟩ := run_handed isAlphanumeric ctx session statement
      have first : (run isAlphanumeric ctx session statement).2.statement ∈ statement :: rest ∧
          (run isAlphanumeric ctx session statement).2.handed =
            handedText isAlphanumeric (run isAlphanumeric ctx session statement).2.statement := by
        rw [same, handed]
        exact ⟨List.mem_cons_self, rfl⟩
      rw [runAll]
      dsimp only
      intro call member
      cases answered : (run isAlphanumeric ctx session statement).2.answer with
      | error e =>
          rw [answered] at member
          rw [List.mem_singleton.mp member]
          exact first
      | ok response =>
          rw [answered] at member
          obtain rfl | later := List.mem_cons.mp member
          · exact first
          · obtain ⟨inside, handedLater⟩ := ih _ call later
            exact ⟨List.mem_cons_of_mem _ inside, handedLater⟩

theorem runAll_session {inv : σ → Prop} {statements : List Text}
    (keeps : ∀ sql ∈ statements, ∀ session text, handedText isAlphanumeric sql = some text → inv session →
      inv (ctx.sql session text).1)
    {session : σ} (before : inv session) : inv (runAll isAlphanumeric ctx session statements).1 := by
  induction statements generalizing session with
  | nil => exact before
  | cons statement rest ih =>
      have first := run_session (keeps statement List.mem_cons_self) before
      rw [runAll]
      dsimp only
      cases answered : (run isAlphanumeric ctx session statement).2.answer with
      | error e => exact first
      | ok response => exact ih (fun sql member => keeps sql (List.mem_cons_of_mem _ member)) first

theorem doQuery_calls (session : σ) (message : Message) :
    ∀ call ∈ (doQuery isAlphanumeric ctx session message).2.1,
      call.statement ∈ message.statements ∧ call.handed = handedText isAlphanumeric call.statement := by
  cases message with
  | simple query => exact runAll_calls session (splitStatements query)
  | extended statement parameters =>
      rw [doQuery, Message.statements]
      intro call member
      by_cases bound : 0 < parameters
      · rw [if_pos bound] at member
        cases member
      · rw [if_neg bound] at member ⊢
        obtain ⟨same, handed⟩ := run_handed isAlphanumeric ctx session statement
        rw [List.mem_singleton.mp member, same, handed]
        exact ⟨List.mem_singleton_self _, rfl⟩

theorem doQuery_session {inv : σ → Prop} {message : Message}
    (keeps : ∀ sql ∈ message.statements, ∀ session text, handedText isAlphanumeric sql = some text →
      inv session → inv (ctx.sql session text).1)
    {session : σ} (before : inv session) : inv (doQuery isAlphanumeric ctx session message).1 := by
  cases message with
  | simple query => exact runAll_session keeps before
  | extended statement parameters =>
      rw [doQuery]
      rw [Message.statements] at keeps
      split_ifs with bound
      · exact before
      · rw [if_neg bound] at keeps
        exact run_session (keeps statement (List.mem_singleton_self _)) before

end

end Auger
