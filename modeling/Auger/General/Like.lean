import Mathlib.Data.List.Basic

set_option autoImplicit false

/-! SQL `LIKE` patterns: their elements, and the texts they match. -/

namespace Auger.General.Like

inductive Element
  /-- An unescaped `%`. -/
  | anySequence
  /-- An unescaped `_`. -/
  | anyCharacter
  | literal (c : Char)
  deriving DecidableEq

def plain (c : Char) : Element :=
  if c = '%' then .anySequence else if c = '_' then .anyCharacter else .literal c

/-- A pattern and its elements: an escape character makes a literal of the character
after it, and every other character stands for itself. -/
inductive Reads (escape : Option Char) : List Char → List Element → Prop
  | nil : Reads escape [] []
  | escaped {e c : Char} {rest : List Char} {elements : List Element} (isEscape : escape = some e)
      (later : Reads escape rest elements) : Reads escape (e :: c :: rest) (.literal c :: elements)
  | plain {c : Char} {rest : List Char} {elements : List Element} (notEscape : escape ≠ some c)
      (later : Reads escape rest elements) : Reads escape (c :: rest) (plain c :: elements)

/-- The pattern ends in an escape character that escapes nothing. -/
def EndsUnpaired (escape : Option Char) (pattern : List Char) : Prop :=
  ∃ before e elements, escape = some e ∧ pattern = before ++ [e] ∧ Reads escape before elements

theorem Reads.paired {escape : Option Char} {pattern : List Char} {elements : List Element}
    (reads : Reads escape pattern elements) : ¬EndsUnpaired escape pattern := by
  rintro ⟨before, e, others, isEscape, rfl, readsBefore⟩
  induction readsBefore generalizing elements with
  | nil =>
      cases reads with
      | plain notEscape => exact notEscape isEscape
  | escaped same _ ih =>
      rw [List.cons_append, List.cons_append] at reads
      cases reads with
      | escaped _ later => exact ih later
      | plain notEscape => exact notEscape same
  | plain notEscape _ ih =>
      rw [List.cons_append] at reads
      generalize tail : _ ++ [e] = text at reads
      cases reads with
      | escaped same => exact notEscape same
      | plain _ later => exact ih (tail ▸ later)

/-- The elements of a pattern, an escape character at its end standing for itself. -/
def elements (escape : Option Char) : List Char → List Element
  | [] => []
  | [c] => if some c = escape then [.literal c] else [plain c]
  | c :: d :: rest =>
      if some c = escape then .literal d :: elements escape rest else plain c :: elements escape (d :: rest)

theorem Reads.elements_eq {escape : Option Char} {pattern : List Char} {read : List Element}
    (reads : Reads escape pattern read) : elements escape pattern = read := by
  induction reads with
  | nil => rfl
  | escaped isEscape _ ih => rw [elements, if_pos isEscape.symm, ih]
  | @plain c rest _ notEscape _ ih =>
      have unescaped : some c ≠ escape := fun same => notEscape same.symm
      cases rest with
      | nil => rw [elements, if_neg unescaped, ← ih, elements]
      | cons d rest => rw [elements, if_neg unescaped, ih]

def matchesWhole : List Element → List Char → Bool
  | [], text => text.isEmpty
  | .anySequence :: elements, text => text.tails.any (matchesWhole elements)
  | .anyCharacter :: elements, text =>
      match text with
      | [] => false
      | _ :: rest => matchesWhole elements rest
  | .literal d :: elements, text =>
      match text with
      | [] => false
      | c :: rest => c == d && matchesWhole elements rest

theorem matchesWhole_anySequence_nil (elements : List Element) :
    matchesWhole (.anySequence :: elements) [] = matchesWhole elements [] := by
  simp [matchesWhole]

theorem matchesWhole_anySequence_cons (elements : List Element) (c : Char) (text : List Char) :
    matchesWhole (.anySequence :: elements) (c :: text) =
      (matchesWhole elements (c :: text) || matchesWhole (.anySequence :: elements) text) := by
  simp [matchesWhole]

/-- The elements match the text, or all of it before a final line feed. -/
def FitsLine (elements : List Element) (text : List Char) : Prop :=
  matchesWhole elements text = true ∨ ∃ line, text = line ++ ['\n'] ∧ matchesWhole elements line = true

theorem fitsLine_empty (text : List Char) : FitsLine [] text ↔ text = [] ∨ text = ['\n'] := by
  simp [FitsLine, matchesWhole]

theorem cons_eq_line (c : Char) (text line : List Char) :
    c :: text = line ++ ['\n'] ↔
      (line = [] ∧ c = '\n' ∧ text = []) ∨ ∃ later, line = c :: later ∧ text = later ++ ['\n'] := by
  cases line with
  | nil => simp
  | cons d line =>
      rw [List.cons_append, List.cons.injEq]
      constructor
      · rintro ⟨rfl, rest⟩
        exact .inr ⟨line, rfl, rest⟩
      · rintro (⟨absent, -⟩ | ⟨later, same, rest⟩)
        · cases absent
        · rw [List.cons.injEq] at same
          exact ⟨same.1.symm, same.2 ▸ rest⟩

theorem fitsLine_cons {element : Element} {elements : List Element} {c : Char} {takes : Bool}
    (empty : matchesWhole (element :: elements) [] = false)
    (step : ∀ text, matchesWhole (element :: elements) (c :: text) = (takes && matchesWhole elements text))
    (text : List Char) :
    FitsLine (element :: elements) (c :: text) ↔ takes = true ∧ FitsLine elements text := by
  have line : (∃ line, c :: text = line ++ ['\n'] ∧ matchesWhole (element :: elements) line = true) ↔
      takes = true ∧ ∃ line, text = line ++ ['\n'] ∧ matchesWhole elements line = true := by
    constructor
    · rintro ⟨line, written, found⟩
      rcases (cons_eq_line c text line).mp written with ⟨rfl, -, -⟩ | ⟨later, rfl, rest⟩
      · rw [empty] at found
        cases found
      · rw [step, Bool.and_eq_true] at found
        exact ⟨found.1, later, rest, found.2⟩
    · rintro ⟨taken, later, rfl, found⟩
      exact ⟨c :: later, rfl, by rw [step, taken, found]; rfl⟩
  rw [FitsLine, line, step, Bool.and_eq_true, FitsLine, and_or_left]

theorem fitsLine_none {element : Element} {elements : List Element}
    (empty : matchesWhole (element :: elements) [] = false) : ¬FitsLine (element :: elements) [] := by
  simp [FitsLine, empty]

theorem fitsLine_anySequence (elements : List Element) (c : Char) (text : List Char) :
    FitsLine (.anySequence :: elements) (c :: text) ↔
      FitsLine elements (c :: text) ∨ FitsLine (.anySequence :: elements) text := by
  have step : ∀ d rest, matchesWhole (.anySequence :: elements) (d :: rest) = true ↔
      matchesWhole elements (d :: rest) = true ∨ matchesWhole (.anySequence :: elements) rest = true := by
    intro d rest
    rw [matchesWhole_anySequence_cons, Bool.or_eq_true]
  constructor
  · rintro (found | ⟨line, written, found⟩)
    · rcases (step c text).mp found with here | later
      · exact .inl (.inl here)
      · exact .inr (.inl later)
    · rcases (cons_eq_line c text line).mp written with ⟨rfl, -, -⟩ | ⟨later, rfl, rest⟩
      · exact .inl (.inr ⟨[], written, by rwa [matchesWhole_anySequence_nil] at found⟩)
      · rcases (step c later).mp found with here | further
        · exact .inl (.inr ⟨c :: later, written, here⟩)
        · exact .inr (.inr ⟨later, rest, further⟩)
  · rintro ((found | ⟨line, written, found⟩) | (found | ⟨line, rfl, found⟩))
    · exact .inl ((step c text).mpr (.inl found))
    · refine .inr ⟨line, written, ?_⟩
      cases line with
      | nil => rwa [matchesWhole_anySequence_nil]
      | cons d line => exact (step d line).mpr (.inl found)
    · exact .inl ((step c text).mpr (.inr found))
    · exact .inr ⟨c :: line, rfl, (step c line).mpr (.inr found)⟩

end Auger.General.Like
