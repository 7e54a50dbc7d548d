import Mathlib.Data.List.Basic

set_option autoImplicit false

/-! A fragment of PCRE's grammar without extended mode: literals, escaped characters,
the dot, the two anchors and the star. Groups, classes, alternatives, the other
quantifiers and lettered escapes are refused, so that a pattern read is read as PCRE
reads it. -/

namespace Auger.General.Pcre

/-- What one character of the subject is matched by. -/
inductive Single
  | char (c : Char)
  | any
  deriving DecidableEq

inductive Piece
  /-- `^`: the start of the subject. -/
  | start
  /-- `$`: the end of the subject, or the place before a final line feed. -/
  | finish
  | one (single : Single)
  | star (single : Single)
  deriving DecidableEq

inductive Token
  | start | finish | single (s : Single) | star
  deriving DecidableEq

/-- An unescaped character outside classes. -/
def token (c : Char) : Option Token :=
  if c = '^' then some .start
  else if c = '$' then some .finish
  else if c = '.' then some (.single .any)
  else if c = '*' then some .star
  else if c ∈ ['\\', '+', '?', '(', ')', '[', '{', '|'] then none
  else some (.single (.char c))

/-- A backslash takes the meaning of the next character away unless that is a letter
or a digit. -/
def tokenize : List Char → Option (List Token)
  | [] => some []
  | '\\' :: c :: rest =>
      if c.isAlphanum then none else (tokenize rest).map (.single (.char c) :: ·)
  | c :: rest => (token c).bind fun t => (tokenize rest).map (t :: ·)

/-- A star repeats the single before it. -/
def pieces : List Token → Option (List Piece)
  | [] => some []
  | .start :: rest => (pieces rest).map (.start :: ·)
  | .finish :: rest => (pieces rest).map (.finish :: ·)
  | .single s :: .star :: rest => (pieces rest).map (.star s :: ·)
  | .single s :: rest => (pieces rest).map (.one s :: ·)
  | .star :: _ => none

def read (pattern : List Char) : Option (List Piece) := (tokenize pattern).bind pieces

theorem tokenize_escaped {c : Char} (symbol : c.isAlphanum = false) (rest : List Char) :
    tokenize ('\\' :: c :: rest) = (tokenize rest).map (.single (.char c) :: ·) := by
  rw [tokenize, if_neg (by simp [symbol])]

theorem tokenize_cons {c : Char} (plain : c ≠ '\\') (rest : List Char) :
    tokenize (c :: rest) = (token c).bind fun t => (tokenize rest).map (t :: ·) := by
  rw [tokenize]
  rintro d more rfl
  exact absurd rfl plain

/-- The tokens a piece is written with. -/
def Piece.tokens : Piece → List Token
  | .start => [.start]
  | .finish => [.finish]
  | .one s => [.single s]
  | .star s => [.single s, .star]

theorem pieces_tokens (written : List Piece) : pieces (written.flatMap Piece.tokens) = some written := by
  induction written with
  | nil => rfl
  | cons piece rest ih =>
      rw [List.flatMap_cons]
      cases piece with
      | start => simp [Piece.tokens, pieces, ih]
      | finish => simp [Piece.tokens, pieces, ih]
      | star s => simp [Piece.tokens, pieces, ih]
      | one s =>
          have separate : pieces (.single s :: rest.flatMap Piece.tokens) =
              (pieces (rest.flatMap Piece.tokens)).map (.one s :: ·) := by
            cases rest with
            | nil => rfl
            | cons next rest => cases next <;> rfl
          simp [Piece.tokens, separate, ih]

def Single.consumes (dotAll : Bool) : Single → Char → Bool
  | .char d, c => c == d
  | .any, c => dotAll || c != '\n'

/-- Any number of characters the single consumes, and then what follows. -/
def Single.repeated (dotAll : Bool) (s : Single) (follows : Bool → List Char → Bool) : Bool → List Char → Bool
  | atStart, [] => follows atStart []
  | atStart, c :: after =>
      follows atStart (c :: after) || (s.consumes dotAll c && s.repeated dotAll follows false after)

/-- Whether the pieces match from a place on; `atStart` says that nothing stands before it. -/
def matchesFrom (dotAll : Bool) : List Piece → Bool → List Char → Bool
  | [], _, _ => true
  | .start :: rest, atStart, after => atStart && matchesFrom dotAll rest atStart after
  | .finish :: rest, atStart, after => (after == [] || after == ['\n']) && matchesFrom dotAll rest atStart after
  | .one s :: rest, _, after =>
      match after with
      | [] => false
      | c :: after => s.consumes dotAll c && matchesFrom dotAll rest false after
  | .star s :: rest, atStart, after => s.repeated dotAll (matchesFrom dotAll rest) atStart after

def search (dotAll : Bool) (written : List Piece) : Bool → List Char → Bool
  | atStart, [] => matchesFrom dotAll written atStart []
  | atStart, c :: after => matchesFrom dotAll written atStart (c :: after) || search dotAll written false after

end Auger.General.Pcre
