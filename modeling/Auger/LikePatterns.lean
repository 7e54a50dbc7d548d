import Auger.General.Like
import Auger.General.Pcre
import Auger.Pushdown

set_option autoImplicit false

/-! The regular expressions written for `LIKE` patterns, read back by PCRE's grammar. -/

namespace Auger

open General

/-- How PCRE reads what is written for one element of a pattern. -/
def piece : Like.Element → Pcre.Piece
  | .anySequence => .star .any
  | .anyCharacter => .one .any
  | .literal c => .one (.char c)

/-- The start, one piece for each element in order, and the end. -/
def anchored (elements : List Like.Element) : List Pcre.Piece :=
  .start :: elements.map piece ++ [.finish]

theorem tokenize_pushEscaped (c : Char) (rest : List Char) :
    Pcre.tokenize (pushEscaped c ++ rest) = (Pcre.tokenize rest).map (.single (.char c) :: ·) := by
  have listed : ".^$*+?()[]{}|\\/".toList =
      ['.', '^', '$', '*', '+', '?', '(', ')', '[', ']', '{', '}', '|', '\\', '/'] := rfl
  rw [pushEscaped, listed]
  split_ifs with special
  · have symbol : c.isAlphanum = false := by
      simp only [List.mem_cons, List.not_mem_nil, or_false] at special
      rcases special with rfl | rfl | rfl | rfl | rfl | rfl | rfl | rfl | rfl | rfl | rfl | rfl | rfl | rfl | rfl <;> rfl
    exact Pcre.tokenize_escaped symbol rest
  · simp only [List.mem_cons, List.not_mem_nil, or_false, not_or] at special
    have literal : Pcre.token c = some (.single (.char c)) := by simp [Pcre.token, special]
    rw [List.singleton_append, Pcre.tokenize_cons (by simp [special]), literal]
    rfl

theorem tokenize_plain (c : Char) (rest : List Char) :
    Pcre.tokenize ((if c = '%' then ".*".toList else if c = '_' then ['.'] else pushEscaped c) ++ rest) =
      (Pcre.tokenize rest).map ((piece (Like.plain c)).tokens ++ ·) := by
  rw [Like.plain]
  split_ifs
  · have sequence : ".*".toList ++ rest = '.' :: '*' :: rest := rfl
    rw [sequence, Pcre.tokenize_cons (by decide), Pcre.tokenize_cons (by decide)]
    cases Pcre.tokenize rest <;> rfl
  · rw [List.singleton_append, Pcre.tokenize_cons (by decide)]
    cases Pcre.tokenize rest <;> rfl
  · exact tokenize_pushEscaped c rest

def written (elements : List Like.Element) : List Pcre.Token :=
  (elements.map piece).flatMap Pcre.Piece.tokens

theorem likeBody_escaped {escape : Option Char} {c : Char} (isEscape : some c = escape) (next : Char)
    (rest : List Char) :
    likeBody escape (c :: next :: rest) = (likeBody escape rest).map (pushEscaped next ++ ·) := by
  simp [likeBody, isEscape]

theorem likeBody_plain {escape : Option Char} {c : Char} (notEscape : some c ≠ escape) (rest : List Char) :
    likeBody escape (c :: rest) = (likeBody escape rest).map
      ((if c = '%' then ".*".toList else if c = '_' then ['.'] else pushEscaped c) ++ ·) := by
  rw [likeBody.eq_def]
  exact if_neg notEscape

theorem likeBody_reads {escape : Option Char} {pattern body : List Char}
    (returned : likeBody escape pattern = some body) :
    ∃ elements, Like.Reads escape pattern elements ∧ ∀ rest,
      Pcre.tokenize (body ++ rest) = (Pcre.tokenize rest).map (written elements ++ ·) := by
  induction pattern using likeBody.induct escape generalizing body with
  | case1 =>
      cases returned
      refine ⟨[], .nil, fun rest => ?_⟩
      rw [List.nil_append]
      cases Pcre.tokenize rest <;> rfl
  | case2 c isEscape => simp [likeBody, isEscape] at returned
  | case3 c isEscape next rest ih =>
      rw [likeBody_escaped isEscape, Option.map_eq_some_iff] at returned
      obtain ⟨later, returnedLater, rfl⟩ := returned
      obtain ⟨elements, reads, tokens⟩ := ih returnedLater
      refine ⟨.literal next :: elements, .escaped isEscape.symm reads, fun after => ?_⟩
      rw [List.append_assoc, tokenize_pushEscaped, tokens]
      cases Pcre.tokenize after <;> rfl
  | case4 c rest notEscape ih =>
      rw [likeBody_plain notEscape, Option.map_eq_some_iff] at returned
      obtain ⟨later, returnedLater, rfl⟩ := returned
      obtain ⟨elements, reads, tokens⟩ := ih returnedLater
      refine ⟨Like.plain c :: elements, .plain (fun isEscape => notEscape isEscape.symm) reads, fun after => ?_⟩
      rw [List.append_assoc, tokenize_plain, tokens]
      cases Pcre.tokenize after with
      | none => rfl
      | some _ => simp [written, List.append_assoc]

theorem likeBody_none {escape : Option Char} {pattern : List Char} (gaveUp : likeBody escape pattern = none) :
    Like.EndsUnpaired escape pattern := by
  induction pattern using likeBody.induct escape with
  | case1 => simp [likeBody] at gaveUp
  | case2 c isEscape => exact ⟨[], c, [], isEscape.symm, rfl, .nil⟩
  | case3 c isEscape next rest ih =>
      rw [likeBody_escaped isEscape, Option.map_eq_none_iff] at gaveUp
      obtain ⟨before, e, elements, same, rfl, reads⟩ := ih gaveUp
      exact ⟨c :: next :: before, e, _, same, rfl, .escaped isEscape.symm reads⟩
  | case4 c rest notEscape ih =>
      rw [likeBody_plain notEscape, Option.map_eq_none_iff] at gaveUp
      obtain ⟨before, e, elements, same, rfl, reads⟩ := ih gaveUp
      exact ⟨c :: before, e, _, same, rfl, .plain (fun isEscape => notEscape isEscape.symm) reads⟩

theorem matchesFrom_pieces (elements : List Like.Element) (atStart : Bool) (text : List Char) :
    Pcre.matchesFrom true (elements.map piece ++ [.finish]) atStart text = true ↔ Like.FitsLine elements text := by
  induction elements generalizing atStart text with
  | nil =>
      rw [Like.fitsLine_empty]
      simp [Pcre.matchesFrom]
  | cons element elements ih =>
      rw [List.map_cons, List.cons_append]
      cases element with
      | literal d =>
          cases text with
          | nil =>
              rw [iff_false_right (Like.fitsLine_none rfl)]
              simp [piece, Pcre.matchesFrom]
          | cons c text =>
              rw [Like.fitsLine_cons rfl (fun _ => rfl) text, piece, Pcre.matchesFrom, Bool.and_eq_true, ih]
              rfl
      | anyCharacter =>
          cases text with
          | nil =>
              rw [iff_false_right (Like.fitsLine_none rfl)]
              simp [piece, Pcre.matchesFrom]
          | cons c text =>
              have step : ∀ rest, Like.matchesWhole (.anyCharacter :: elements) (c :: rest) =
                  (true && Like.matchesWhole elements rest) := fun _ => rfl
              rw [Like.fitsLine_cons rfl step text, piece, Pcre.matchesFrom, Bool.and_eq_true, ih]
              simp [Pcre.Single.consumes]
      | anySequence =>
          rw [piece]
          induction text generalizing atStart with
          | nil =>
              have ended : Like.FitsLine (.anySequence :: elements) [] ↔ Like.FitsLine elements [] := by
                simp [Like.FitsLine, Like.matchesWhole_anySequence_nil]
              rw [Pcre.matchesFrom, Pcre.Single.repeated, ended, ih]
          | cons c text later =>
              have rest := later false
              rw [Pcre.matchesFrom] at rest
              rw [Like.fitsLine_anySequence, Pcre.matchesFrom, Pcre.Single.repeated, Bool.or_eq_true,
                Bool.and_eq_true, ih, rest]
              simp [Pcre.Single.consumes]

/-- The start anchor holds nowhere but at the start. -/
theorem search_later (pieces : List Pcre.Piece) (text : List Char) :
    Pcre.search true (.start :: pieces) false text = false := by
  induction text with
  | nil => rfl
  | cons c text ih => rw [Pcre.search, ih, Pcre.matchesFrom, Bool.false_and, Bool.false_or]

/-- An anchored pattern is found in the texts its elements match up to a final line feed. -/
theorem search_anchored (elements : List Like.Element) (text : List Char) :
    Pcre.search true (anchored elements) true text = true ↔ Like.FitsLine elements text := by
  rw [anchored, List.cons_append, ← matchesFrom_pieces elements true text]
  cases text with
  | nil => rw [Pcre.search, Pcre.matchesFrom, Bool.true_and]
  | cons c text => rw [Pcre.search, search_later, Pcre.matchesFrom, Bool.true_and, Bool.or_false]

/-- The regular expression of a pattern reads back as the start, one piece for each
element in order, and the end. -/
theorem likeToRegex_pieces {pattern regex : String} {escape : Option Char}
    (returned : likeToRegex pattern escape = some regex) :
    ∃ elements, Like.Reads escape pattern.toList elements ∧
      Pcre.read regex.toList = some (anchored elements) := by
  rw [likeToRegex, Option.map_eq_some_iff] at returned
  obtain ⟨body, returnedBody, rfl⟩ := returned
  obtain ⟨elements, reads, tokens⟩ := likeBody_reads returnedBody
  refine ⟨elements, reads, ?_⟩
  have tokenized : Pcre.tokenize ('^' :: body ++ ['$']) =
      some ((anchored elements).flatMap Pcre.Piece.tokens) := by
    have ended : Pcre.tokenize ['$'] = some [.finish] := by
      rw [Pcre.tokenize_cons (by decide)]
      rfl
    rw [List.cons_append, Pcre.tokenize_cons (by decide), tokens, ended]
    simp [Pcre.token, written, anchored, Pcre.Piece.tokens]
  rw [String.toList_ofList, Pcre.read, tokenized, Option.bind_some, Pcre.pieces_tokens]

theorem likeToRegex_none_iff (pattern : String) (escape : Option Char) :
    likeToRegex pattern escape = none ↔ Like.EndsUnpaired escape pattern.toList := by
  constructor
  · intro gaveUp
    rw [likeToRegex, Option.map_eq_none_iff] at gaveUp
    exact likeBody_none gaveUp
  · intro unpaired
    cases returned : likeToRegex pattern escape with
    | none => rfl
    | some regex =>
        obtain ⟨elements, reads, -⟩ := likeToRegex_pieces returned
        exact absurd unpaired reads.paired

/-- No pattern writes itself into its regular expression: it reads back element by
element, and is refused exactly when its last escape character escapes nothing. -/
theorem likeToRegex_injectionFree (pattern : String) (escape : Option Char) :
    (∀ regex, likeToRegex pattern escape = some regex →
      ∃ elements, Like.Reads escape pattern.toList elements ∧
        Pcre.read regex.toList = some (anchored elements)) ∧
      (likeToRegex pattern escape = none ↔ Like.EndsUnpaired escape pattern.toList) :=
  ⟨fun _ returned => likeToRegex_pieces returned, likeToRegex_none_iff pattern escape⟩

end Auger
