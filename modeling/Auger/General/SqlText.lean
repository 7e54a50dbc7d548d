import Mathlib.Data.List.Basic

set_option autoImplicit false

/-! Where a character of an SQL text stands: in quotes, in a comment, or outside both. -/

namespace Auger.General

/-- The open quote. A doubled quote closes and opens again. -/
inductive Quote
  | none | single | double
  deriving DecidableEq, Repr

namespace Quote

def next (q : Quote) (c : Char) : Quote :=
  match q with
  | .none => if c = '\'' then .single else if c = '"' then .double else .none
  | .single => if c = '\'' then .none else .single
  | .double => if c = '"' then .none else .double

def read (q : Quote) (t : List Char) : Quote := t.foldl next q

theorem read_append (q : Quote) (t later : List Char) : q.read (t ++ later) = (q.read t).read later :=
  List.foldl_append

theorem read_plain (q : Quote) {t : List Char} (plain : ∀ c ∈ t, c ≠ '\'' ∧ c ≠ '"') : q.read t = q := by
  induction t with
  | nil => rfl
  | cons c t ih =>
      have here := plain c (by simp)
      have same : q.next c = q := by cases q <;> simp [next, here]
      rw [read, List.foldl_cons, same]
      exact ih fun d inside => plain d (List.mem_cons_of_mem _ inside)

end Quote

/-- What differs between dialects: whether block comments nest, and what ends a line. -/
structure CommentRules where
  nested : Bool
  endsLine : Char → Bool

/-- The last character, where it may be half of a comment mark. -/
inductive Mark
  | none | dash | slash | star
  deriving DecidableEq, Repr

inductive SqlContext
  | outside (last : Mark)
  | quoted (identifier : Bool)
  | lineComment
  /-- With the number of comments around the innermost. -/
  | blockComment (depth : Nat) (last : Mark)
  deriving DecidableEq, Repr

namespace SqlContext

def isOutside : SqlContext → Bool
  | .outside _ => true
  | _ => false

def inComment : SqlContext → Bool
  | .lineComment | .blockComment _ _ => true
  | _ => false

variable (rules : CommentRules)

def next (context : SqlContext) (c : Char) : SqlContext :=
  match context with
  | .outside last =>
      if c = '\'' then .quoted false
      else if c = '"' then .quoted true
      else if c = '-' then if last = .dash then .lineComment else .outside .dash
      else if c = '/' then .outside .slash
      else if c = '*' ∧ last = .slash then .blockComment 0 .none
      else .outside .none
  | .quoted false => if c = '\'' then .outside .none else .quoted false
  | .quoted true => if c = '"' then .outside .none else .quoted true
  | .lineComment => if rules.endsLine c then .outside .none else .lineComment
  | .blockComment depth last =>
      if c = '*' then
        if last = .slash ∧ rules.nested then .blockComment (depth + 1) .none else .blockComment depth .star
      else if c = '/' then
        match last, depth with
        | .star, 0 => .outside .none
        | .star, depth + 1 => .blockComment depth .none
        | _, _ => .blockComment depth .slash
      else .blockComment depth .none

def read (context : SqlContext) (t : List Char) : SqlContext := t.foldl (next rules) context

def quote : SqlContext → Quote
  | .quoted false => .single
  | .quoted true => .double
  | _ => .none

theorem next_quote {context : SqlContext} {c : Char}
    (plain : context.inComment = true → c ≠ '\'' ∧ c ≠ '"') : (context.next rules c).quote = context.quote.next c := by
  cases context with
  | outside last =>
      by_cases single : c = '\''
      · simp [next, quote, Quote.next, single]
      · by_cases double : c = '"'
        · simp [next, quote, Quote.next, double]
        · simp only [next, quote, Quote.next, if_neg single, if_neg double]
          split_ifs <;> rfl
  | quoted identifier =>
      cases identifier <;> simp only [next, quote, Quote.next] <;> split_ifs <;> rfl
  | lineComment =>
      obtain ⟨single, double⟩ := plain rfl
      simp only [next, quote, Quote.next, if_neg single, if_neg double]
      split_ifs <;> rfl
  | blockComment depth last =>
      obtain ⟨single, double⟩ := plain rfl
      simp only [next, Quote.next, quote, if_neg single, if_neg double]
      split_ifs
      · rfl
      · rfl
      · cases last <;> cases depth <;> rfl
      · rfl

theorem read_quote {context : SqlContext} {t : List Char}
    (plain : ∀ before c behind, t = before ++ c :: behind → (context.read rules before).inComment = true →
      c ≠ '\'' ∧ c ≠ '"') : (context.read rules t).quote = context.quote.read t := by
  induction t generalizing context with
  | nil => rfl
  | cons c t ih =>
      have first : (context.next rules c).quote = context.quote.next c := next_quote rules (plain [] c t rfl)
      have later := ih fun before d behind split => plain (c :: before) d behind (by rw [split, List.cons_append])
      rw [first] at later
      exact later

theorem isOutside_iff (context : SqlContext) :
    context.isOutside = true ↔ context.quote = .none ∧ context.inComment = false := by
  cases context with
  | quoted identifier => cases identifier <;> simp [isOutside, quote]
  | _ => simp [isOutside, quote, inComment]

end SqlContext

end Auger.General
