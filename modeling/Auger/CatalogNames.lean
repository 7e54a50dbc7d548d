import Auger.Statements
import Mathlib

set_option autoImplicit false

/-! When the catalog rewrites leave a statement as it is. -/

namespace Auger

open Text

theorem toNat_toLower (c : Char) :
    c.toLower.toNat = if 65 ≤ c.toNat ∧ c.toNat ≤ 90 then c.toNat + 32 else c.toNat := by
  unfold Char.toLower
  by_cases letter : c.val ≥ 'A'.val ∧ c.val ≤ 'Z'.val
  · have low : 65 ≤ c.toNat := UInt32.le_iff_toNat_le.mp letter.1
    have high : c.toNat ≤ 90 := UInt32.le_iff_toNat_le.mp letter.2
    rw [dif_pos letter, if_pos ⟨low, high⟩]
    change (c.val + ('a'.val - 'A'.val)).toNat = c.val.toNat + 32
    rw [UInt32.toNat_add, show ('a'.val - 'A'.val).toNat = 32 from rfl]
    change c.val.toNat ≤ 90 at high
    omega
  · have other : ¬(65 ≤ c.toNat ∧ c.toNat ≤ 90) := by
      intro inside
      exact letter ⟨UInt32.le_iff_toNat_le.mpr inside.1, UInt32.le_iff_toNat_le.mpr inside.2⟩
    rw [dif_neg letter, if_neg other]

theorem isAlpha_iff (c : Char) : c.isAlpha = true ↔ (65 ≤ c.toNat ∧ c.toNat ≤ 90) ∨ (97 ≤ c.toNat ∧ c.toNat ≤ 122) := by
  simp only [Char.isAlpha, Char.isUpper, Char.isLower, Bool.or_eq_true, Bool.and_eq_true, decide_eq_true_eq,
    ge_iff_le, UInt32.le_iff_toNat_le]
  exact Iff.rfl

theorem identChar_iff (c : Char) :
    identChar c = true ↔ (65 ≤ c.toNat ∧ c.toNat ≤ 90) ∨ (97 ≤ c.toNat ∧ c.toNat ≤ 122) ∨
      (48 ≤ c.toNat ∧ c.toNat ≤ 57) ∨ c.toNat = 95 := by
  have underscore : c = '_' ↔ c.toNat = 95 := Char.toNat_inj.symm
  have digit : c.isDigit = true ↔ 48 ≤ c.toNat ∧ c.toNat ≤ 57 := by
    simp only [Char.isDigit, Bool.and_eq_true, decide_eq_true_eq, ge_iff_le, UInt32.le_iff_toNat_le]
    exact Iff.rfl
  rw [identChar, Char.isAlphanum, Bool.or_eq_true, Bool.or_eq_true, isAlpha_iff, digit, beq_iff_eq, underscore]
  omega

theorem identChar_toLower (c : Char) : identChar c.toLower = identChar c := by
  rw [Bool.eq_iff_iff, identChar_iff, identChar_iff, toNat_toLower]
  split_ifs <;> omega

theorem eq_of_toLower {c d : Char} (same : c.toLower = d) (noLetter : ¬(97 ≤ d.toNat ∧ d.toNat ≤ 122)) : c = d := by
  have code := congrArg Char.toNat same
  rw [toNat_toLower] at code
  apply Char.toNat_inj.mp
  split_ifs at code <;> omega

def nextQuote (inQuote : Bool) (c : Char) : Bool := if c = '\'' then !inQuote else inQuote

/-- A bare catalog relation stands here. -/
def bareRelation (prev : Char) (inQuote : Bool) : Text → Bool
  | [] => false
  | c :: rest => !inQuote && identStart c && !attached prev && isRelation (c :: rest.takeWhile identChar)

theorem attached_of_identChar {c : Char} (ident : identChar c = true) : attached c = true := by
  simp [attached, ident]

theorem identChar_noQuote {c : Char} (ident : identChar c = true) : c ≠ '\'' := by
  rintro rfl
  exact absurd ident (by decide)

theorem identChar_of_identStart {c : Char} (start : identStart c = true) : identChar c = true := by
  simp only [identStart, identChar, Char.isAlphanum, Bool.or_eq_true] at start ⊢
  tauto

theorem qualifyLoop_attached {prev : Char} (glued : attached prev = true) (t : Text) :
    qualifyLoop prev false t = t.takeWhile identChar ++
      qualifyLoop ((t.takeWhile identChar).getLastD prev) false (t.dropWhile identChar) := by
  induction t generalizing prev with
  | nil => rfl
  | cons d rest ih =>
      cases ident : identChar d with
      | false => simp [ident]
      | true =>
          have step : qualifyLoop prev false (d :: rest) = d :: qualifyLoop d false rest := by
            rw [qualifyLoop, if_neg Bool.false_ne_true, if_neg (identChar_noQuote ident), glued, Bool.not_true,
              Bool.and_false, if_neg Bool.false_ne_true]
          rw [step, ih (attached_of_identChar ident), List.takeWhile_cons_of_pos ident,
            List.dropWhile_cons_of_pos ident, List.getLastD_cons]
          rfl

theorem qualifyLoop_cons (prev : Char) (inQuote : Bool) (c : Char) (rest : Text) :
    qualifyLoop prev inQuote (c :: rest) =
      (if bareRelation prev inQuote (c :: rest) then qualifier else []) ++
        c :: qualifyLoop c (nextQuote inQuote c) rest := by
  rw [qualifyLoop]
  cases inQuote with
  | true =>
      have closes : (c != '\'') = nextQuote true c := by
        by_cases quote : c = '\'' <;> simp [nextQuote, quote]
      simp [bareRelation, closes]
  | false =>
      by_cases quote : c = '\''
      · subst quote
        simp [bareRelation, nextQuote, identStart]
      · cases opens : identStart c && !attached prev with
        | false =>
            have plain : bareRelation prev false (c :: rest) = false := by
              rw [bareRelation, Bool.not_false, Bool.true_and, opens, Bool.false_and]
            simp [plain, nextQuote, quote]
        | true =>
            have ident := identChar_of_identStart (Bool.and_eq_true_iff.mp opens).1
            have relation : bareRelation prev false (c :: rest) = isRelation (c :: rest.takeWhile identChar) := by
              rw [bareRelation, Bool.not_false, Bool.true_and, opens, Bool.true_and]
            rw [if_neg Bool.false_ne_true, if_neg quote, if_pos rfl, relation, nextQuote, if_neg quote,
              qualifyLoop_attached (attached_of_identChar ident) rest]
            dsimp only
            rw [List.getLastD_cons, List.append_assoc, List.cons_append]

section
variable (isAlphanumeric : Char → Bool)

/-- A catalog qualifier stands here, and a call behind it. -/
def callQualifier (t : Text) : Bool :=
  qualifier.isPrefixOf (lower t) && isCall isAlphanumeric (lower (t.drop 11))

theorem qualifier_length : qualifier.length = 11 := by decide

theorem lower_qualifier {t : Text} (begins : qualifier.isPrefixOf (lower t) = true) :
    lower (t.take 11) = qualifier := by
  rw [List.isPrefixOf_iff_prefix, List.prefix_iff_eq_take, qualifier_length] at begins
  rw [lower, List.map_take]
  exact begins.symm

theorem qualifier_head {c : Char} {rest : Text} (begins : qualifier.isPrefixOf (lower (c :: rest)) = true) :
    c.toLower = 'p' := by
  have taken := lower_qualifier begins
  rw [List.take_succ_cons, lower, List.map_cons] at taken
  exact (List.cons.inj taken).1

theorem strip_copies {m : Text} (other : ∀ d ∈ m, d.toLower ≠ 'p') (t : Text) :
    stripPgCatalogPrefix isAlphanumeric (m ++ t) = m ++ stripPgCatalogPrefix isAlphanumeric t := by
  induction m with
  | nil => rfl
  | cons d rest ih =>
      have plain : ¬qualifier.isPrefixOf (lower (d :: (rest ++ t))) = true :=
        fun begins => other d (by simp) (qualifier_head begins)
      rw [List.cons_append, stripPgCatalogPrefix, if_neg plain, ih fun e member => other e (by simp [member])]
      rfl

theorem qualifier_tail {c : Char} {rest : Text} (begins : qualifier.isPrefixOf (lower (c :: rest)) = true) :
    lower (rest.take 10) = "g_catalog.".toList := by
  have taken := lower_qualifier begins
  rw [List.take_succ_cons, lower, List.map_cons] at taken
  exact (List.cons.inj taken).2

theorem strip_cons (c : Char) (rest : Text) :
    stripPgCatalogPrefix isAlphanumeric (c :: rest) =
      if callQualifier isAlphanumeric (c :: rest) then stripPgCatalogPrefix isAlphanumeric (rest.drop 10)
      else c :: stripPgCatalogPrefix isAlphanumeric rest := by
  rw [stripPgCatalogPrefix, callQualifier, List.drop_succ_cons]
  by_cases begins : qualifier.isPrefixOf (lower (c :: rest)) = true
  · rw [if_pos begins, begins, Bool.true_and]
    dsimp only
    split_ifs with call
    · rfl
    · have other : ∀ d ∈ rest.take 10, d.toLower ≠ 'p' := by
        intro d member same
        have inside : d.toLower ∈ lower (rest.take 10) := List.mem_map_of_mem member
        rw [qualifier_tail begins, same] at inside
        revert inside
        decide
      have copied := strip_copies isAlphanumeric other (rest.drop 10)
      rw [List.take_append_drop] at copied
      rw [copied]
      rfl
  · rw [if_neg begins, Bool.not_eq_true _ |>.mp begins, Bool.false_and, if_neg Bool.false_ne_true]

/-- The classes agree with ASCII's letters and digits. -/
def AgreesOnAscii : Prop := ∀ c : Char, c.toNat < 128 → isAlphanumeric c = c.isAlphanum

variable {isAlphanumeric} (ascii : AgreesOnAscii isAlphanumeric)

include ascii

theorem unicode_of_identChar {c : Char} (ident : identChar c = true) : (isAlphanumeric c || c == '_') = true := by
  have small : c.toNat < 128 := by
    rw [identChar_iff] at ident
    omega
  rwa [ascii c small]

theorem dot_ends : (isAlphanumeric '.' || '.' == '_') = false := by
  rw [ascii '.' (by decide)]
  decide

theorem not_call_of_dot {m : Text} (ident : ∀ a ∈ m, identChar a = true) (z : Text) :
    isCall isAlphanumeric (m ++ '.' :: z) = false := by
  rw [isCall, List.dropWhile_append_of_pos fun a member => unicode_of_identChar ascii (ident a member),
    List.dropWhile_cons_of_neg (by rw [dot_ends ascii]; decide), trimStart,
    List.dropWhile_cons_of_neg (by decide)]
  rfl

omit ascii in
theorem catalog_ident : ∀ a ∈ "pg_catalog".toList, identChar a = true := by
  have all : "pg_catalog".toList.all identChar = true := rfl
  exact List.all_eq_true.mp all

theorem not_qualifier_of_call {t : Text} (call : isCall isAlphanumeric (lower t) = true) :
    callQualifier isAlphanumeric t = false := by
  rw [callQualifier, Bool.and_eq_false_iff]
  left
  apply Bool.eq_false_iff.mpr
  intro begins
  obtain ⟨z, split⟩ := List.isPrefixOf_iff_prefix.mp begins
  have letters : qualifier = "pg_catalog".toList ++ ['.'] := by decide
  rw [← split, letters, List.append_assoc, List.singleton_append, not_call_of_dot ascii catalog_ident] at call
  cases call

/-- Before a call every character is copied, up to the end of its identifier. -/
theorem call_cons {d : Char} {rest : Text} (call : isCall isAlphanumeric (lower (d :: rest)) = true) :
    stripPgCatalogPrefix isAlphanumeric (d :: rest) = d :: stripPgCatalogPrefix isAlphanumeric rest ∧
      (identChar d = true → isCall isAlphanumeric (lower rest) = true) := by
  constructor
  · rw [strip_cons, not_qualifier_of_call ascii call, if_neg Bool.false_ne_true]
  · intro ident
    have inside := unicode_of_identChar ascii (show identChar d.toLower = true by rw [identChar_toLower, ident])
    simp only [isCall, lower, List.map_cons, List.dropWhile_cons, inside, if_true] at call
    exact call

theorem call_ident {t : Text} (call : isCall isAlphanumeric (lower t) = true) :
    (stripPgCatalogPrefix isAlphanumeric t).takeWhile identChar = t.takeWhile identChar := by
  induction t with
  | nil => rw [stripPgCatalogPrefix]
  | cons d rest ih =>
      obtain ⟨copied, later⟩ := call_cons ascii call
      rw [copied]
      cases ident : identChar d with
      | false => rw [List.takeWhile_cons_of_neg (by simp [ident]), List.takeWhile_cons_of_neg (by simp [ident])]
      | true => rw [List.takeWhile_cons_of_pos ident, List.takeWhile_cons_of_pos ident, ih (later ident)]

theorem call_not_dotted {t m z : Text} (call : isCall isAlphanumeric (lower t) = true)
    (ident : ∀ a ∈ m, identChar a = true) (stripped : stripPgCatalogPrefix isAlphanumeric t = m ++ '.' :: z) :
    False := by
  induction m generalizing t with
  | nil =>
      cases t with
      | nil =>
          rw [stripPgCatalogPrefix] at stripped
          cases stripped
      | cons d rest =>
          rw [(call_cons ascii call).1, List.nil_append, List.cons.injEq] at stripped
          have dot := not_call_of_dot ascii (m := []) (by simp) (lower rest)
          rw [stripped.1, lower, List.map_cons] at call
          change isCall isAlphanumeric ('.' :: lower rest) = true at call
          rw [List.nil_append, call] at dot
          cases dot
  | cons a m ih =>
      cases t with
      | nil =>
          rw [stripPgCatalogPrefix] at stripped
          cases stripped
      | cons d rest =>
          obtain ⟨copied, later⟩ := call_cons ascii call
          rw [copied, List.cons_append, List.cons.injEq] at stripped
          exact ih (later (by rw [stripped.1]; exact ident a (by simp))) (fun b member => ident b (by simp [member]))
            stripped.2

omit ascii

/-- No bare relation stands here, and the qualifier of a call only where it is written
in lower case before a relation that would be bare without it. -/
def placeSettled (isAlphanumeric : Char → Bool) (prev : Char) (inQuote : Bool) (t : Text) : Bool :=
  !bareRelation prev inQuote t &&
    (!callQualifier isAlphanumeric t ||
      (t.take 11 == qualifier && bareRelation prev inQuote (t.drop 11)))

def settledFrom (isAlphanumeric : Char → Bool) (prev : Char) (inQuote : Bool) : Text → Bool
  | [] => true
  | c :: rest =>
      placeSettled isAlphanumeric prev inQuote (c :: rest) &&
        settledFrom isAlphanumeric c (nextQuote inQuote c) rest

def settled (isAlphanumeric : Char → Bool) (t : Text) : Bool := settledFrom isAlphanumeric ' ' false t

theorem bareRelation_attached {prev : Char} (glued : attached prev = true) (inQuote : Bool) (t : Text) :
    bareRelation prev inQuote t = false := by
  cases t with
  | nil => rfl
  | cons c rest => simp [bareRelation, glued]

theorem bareRelation_congr {prev : Char} {inQuote : Bool} {c : Char} {rest other : Text}
    (same : identChar c = true → rest.takeWhile identChar = other.takeWhile identChar) :
    bareRelation prev inQuote (c :: rest) = bareRelation prev inQuote (c :: other) := by
  cases start : identStart c with
  | false => simp [bareRelation, start]
  | true => rw [bareRelation, bareRelation, same (identChar_of_identStart start)]

theorem bareRelation_opens {prev : Char} {inQuote : Bool} {c : Char} {rest : Text}
    (bare : bareRelation prev inQuote (c :: rest) = true) : inQuote = false ∧ identChar c = true := by
  simp only [bareRelation, Bool.and_eq_true, Bool.not_eq_true'] at bare
  exact ⟨bare.1.1.1, identChar_of_identStart bare.1.1.2⟩

theorem catalog_word {t : Text} (begins : qualifier.isPrefixOf (lower t) = true) :
    lower (t.takeWhile identChar) = "pg_catalog".toList := by
  have lowered : lower (t.takeWhile identChar) = (lower t).takeWhile identChar := by
    rw [lower, lower, List.takeWhile_map]
    exact congrArg (fun p => List.map Char.toLower (List.takeWhile p t)) (funext fun d => (identChar_toLower d).symm)
  obtain ⟨z, split⟩ := List.isPrefixOf_iff_prefix.mp begins
  rw [lowered, ← split, show qualifier = "pg_catalog".toList ++ ['.'] by decide, List.append_assoc,
    List.takeWhile_append_of_pos catalog_ident]
  simp [identChar]

theorem prefix_not_relation {t : Text} (begins : qualifier.isPrefixOf (lower t) = true) (prev : Char)
    (inQuote : Bool) : bareRelation prev inQuote t = false := by
  cases t with
  | nil => rfl
  | cons c rest =>
      have letter : identChar c = true := by
        rw [← identChar_toLower, qualifier_head begins]
        decide
      have relation : isRelation (c :: rest.takeWhile identChar) = false := by
        rw [← List.takeWhile_cons_of_pos letter, isRelation, catalog_word begins]
        decide
      rw [bareRelation, relation, Bool.and_false]

theorem dotted_of_qualifyLoop {prev : Char} {inQuote : Bool} {t m z : Text} (ident : ∀ a ∈ m, identChar a = true)
    (plain : bareRelation prev inQuote t = false) (written : qualifyLoop prev inQuote t = m ++ '.' :: z) :
    ∃ z', t = m ++ '.' :: z' := by
  induction m generalizing prev inQuote t with
  | nil =>
      cases t with
      | nil =>
          rw [qualifyLoop] at written
          cases written
      | cons c rest =>
          rw [qualifyLoop_cons, plain, if_neg Bool.false_ne_true, List.nil_append, List.nil_append,
            List.cons.injEq] at written
          exact ⟨rest, by rw [written.1, List.nil_append]⟩
  | cons a m ih =>
      cases t with
      | nil =>
          rw [qualifyLoop] at written
          cases written
      | cons c rest =>
          rw [qualifyLoop_cons, plain, if_neg Bool.false_ne_true, List.nil_append, List.cons_append,
            List.cons.injEq] at written
          obtain ⟨rfl, later⟩ := written
          have glued := attached_of_identChar (ident c (by simp))
          obtain ⟨z', same⟩ := ih (fun b member => ident b (by simp [member]))
            (bareRelation_attached glued _ rest) later
          exact ⟨z', by rw [same, List.cons_append]⟩

theorem settledFrom_cons (prev : Char) (inQuote : Bool) (c : Char) (rest : Text) :
    settledFrom isAlphanumeric prev inQuote (c :: rest) = true ↔
      placeSettled isAlphanumeric prev inQuote (c :: rest) = true ∧
        settledFrom isAlphanumeric c (nextQuote inQuote c) rest = true := by
  rw [settledFrom, Bool.and_eq_true]

theorem not_qualifier_of_head {c : Char} {rest : Text} (other : c.toLower ≠ 'p') :
    callQualifier isAlphanumeric (c :: rest) = false := by
  rw [callQualifier, Bool.and_eq_false_iff]
  exact .inl (Bool.eq_false_iff.mpr fun begins => other (qualifier_head begins))

theorem settledFrom_inner {prev : Char} {inQuote : Bool} (glued : attached prev = true) {m : Text}
    (inner : ∀ d ∈ m, d.toLower ≠ 'p' ∧ d ≠ '\'' ∧ attached d = true) (t : Text) :
    settledFrom isAlphanumeric prev inQuote (m ++ t) =
      settledFrom isAlphanumeric (m.getLastD prev) inQuote t := by
  induction m generalizing prev with
  | nil => rfl
  | cons d m ih =>
      obtain ⟨other, noQuote, gluedNext⟩ := inner d (by simp)
      have settledHere : placeSettled isAlphanumeric prev inQuote (d :: (m ++ t)) = true := by
        rw [placeSettled, bareRelation_attached glued, not_qualifier_of_head other]
        rfl
      rw [List.cons_append, settledFrom, settledHere, Bool.true_and, nextQuote, if_neg noQuote,
        ih gluedNext fun e member => inner e (by simp [member]), List.getLastD_cons]

theorem settled_ident {prev : Char} (glued : attached prev = true) {t : Text}
    (settled : settledFrom isAlphanumeric prev false t = true) :
    (stripPgCatalogPrefix isAlphanumeric t).takeWhile identChar = t.takeWhile identChar := by
  induction t generalizing prev with
  | nil => rw [stripPgCatalogPrefix]
  | cons d rest ih =>
      obtain ⟨here, later⟩ := (settledFrom_cons prev false d rest).mp settled
      have noCall : callQualifier isAlphanumeric (d :: rest) = false := by
        rw [placeSettled, bareRelation_attached glued, bareRelation_attached glued, Bool.and_false,
          Bool.or_false, Bool.and_eq_true] at here
        exact (Bool.not_eq_true' _).mp here.2
      rw [strip_cons, noCall, if_neg Bool.false_ne_true]
      cases ident : identChar d with
      | false => rw [List.takeWhile_cons_of_neg (by simp [ident]), List.takeWhile_cons_of_neg (by simp [ident])]
      | true =>
          rw [nextQuote, if_neg (identChar_noQuote ident)] at later
          rw [List.takeWhile_cons_of_pos ident, List.takeWhile_cons_of_pos ident,
            ih (attached_of_identChar ident) later]

theorem qualifier_inner {c : Char} {rest : Text} (begins : qualifier.isPrefixOf (lower (c :: rest)) = true) :
    (∀ d ∈ rest.take 10, d.toLower ≠ 'p' ∧ d ≠ '\'' ∧ attached d = true) ∧ (rest.take 10).getLastD c = '.' := by
  have tail := qualifier_tail begins
  have each : ∀ d ∈ rest.take 10, d.toLower ∈ "g_catalog.".toList := by
    intro d member
    rw [← tail]
    exact List.mem_map_of_mem member
  have letters : "g_catalog.".toList.all (fun e => e != 'p' && e != '\'' && (e == '.' || identChar e)) = true := rfl
  constructor
  · intro d member
    have known := List.all_eq_true.mp letters d.toLower (each d member)
    simp only [Bool.and_eq_true, bne_iff_ne, ne_eq, Bool.or_eq_true, beq_iff_eq] at known
    refine ⟨known.1.1, ?_, ?_⟩
    · rintro rfl
      exact known.1.2 rfl
    · rcases known.2 with dot | ident
      · rw [eq_of_toLower dot (by decide)]
        rfl
      · exact attached_of_identChar (by rwa [identChar_toLower] at ident)
  · have nonempty : rest.take 10 ≠ [] := by
      intro empty
      rw [empty] at tail
      cases tail
    have last : ((rest.take 10).getLast nonempty).toLower = '.' := by
      have mapped := List.getLast_map (f := Char.toLower) (l := rest.take 10) (by simpa [lower] using nonempty)
      rw [← mapped]
      simp only [show (rest.take 10).map Char.toLower = "g_catalog.".toList from tail]
      rfl
    rw [List.getLastD_eq_getLast?, List.getLast?_eq_some_getLast nonempty, Option.getD_some]
    exact eq_of_toLower last (by decide)

variable (ascii : AgreesOnAscii isAlphanumeric)

include ascii

omit ascii in
theorem qualifier_split {t : Text} (begins : qualifier.isPrefixOf (lower t) = true) :
    ∃ m, t = m ++ '.' :: t.drop 11 ∧ ∀ a ∈ m, identChar a = true := by
  have taken := lower_qualifier begins
  rw [lower, show qualifier = "pg_catalog".toList ++ ['.'] by decide, List.map_eq_append_iff] at taken
  obtain ⟨m, dot, split, name, ends⟩ := taken
  obtain ⟨e, rfl, lowered⟩ := List.map_eq_singleton_iff.mp ends
  refine ⟨m, ?_, ?_⟩
  · rw [eq_of_toLower lowered (by decide)] at split
    calc t = t.take 11 ++ t.drop 11 := (List.take_append_drop 11 t).symm
      _ = m ++ '.' :: t.drop 11 := by rw [split, List.append_assoc, List.singleton_append]
  · intro a member
    rw [← identChar_toLower]
    exact catalog_ident a.toLower (by rw [← name]; exact List.mem_map_of_mem member)

omit ascii in
/-- A text cannot be itself behind an inserted qualifier. -/
theorem insertion_moves {c : Char} {rest : Text} {prev : Char} {inQuote : Bool}
    (bare : bareRelation prev inQuote (c :: stripPgCatalogPrefix isAlphanumeric rest) = true) (later : Text) :
    qualifier ++ c :: later ≠ c :: rest := by
  intro fixed
  have begins : qualifier.isPrefixOf (lower (c :: rest)) = true := by
    rw [← fixed, lower, List.map_append, show qualifier.map Char.toLower = qualifier by decide,
      List.isPrefixOf_iff_prefix]
    exact List.prefix_append _ _
  have stripped : qualifier.isPrefixOf (lower (c :: stripPgCatalogPrefix isAlphanumeric rest)) = true := by
    have copied := strip_copies isAlphanumeric (fun d member => ((qualifier_inner begins).1 d member).1) (rest.drop 10)
    rw [List.take_append_drop] at copied
    have taken := lower_qualifier begins
    rw [List.take_succ_cons] at taken
    rw [copied, ← List.cons_append, lower, List.map_append, show (c :: rest.take 10).map Char.toLower = qualifier
      from taken, List.isPrefixOf_iff_prefix]
    exact List.prefix_append _ _
  rw [prefix_not_relation stripped] at bare
  cases bare

/-- At a call's qualifier the rewrites leave the text as it is exactly when what they
take away they put back. -/
theorem call_fix_iff {c d : Char} {rest more : Text} {prev : Char} {inQuote : Bool}
    (begins : qualifier.isPrefixOf (lower (c :: rest)) = true) (behind : rest.drop 10 = d :: more)
    (call : isCall isAlphanumeric (lower (d :: more)) = true)
    (later : qualifyLoop d (nextQuote inQuote d) (stripPgCatalogPrefix isAlphanumeric more) = more ↔
      settledFrom isAlphanumeric d (nextQuote inQuote d) more = true) :
    qualifyLoop prev inQuote (stripPgCatalogPrefix isAlphanumeric (d :: more)) = c :: rest ↔
      ((c :: rest).take 11 = qualifier ∧ bareRelation prev inQuote (d :: more) = true) ∧
        settledFrom isAlphanumeric c (nextQuote inQuote c) rest = true := by
  have letter : identChar c = true := by
    rw [← identChar_toLower, qualifier_head begins]
    decide
  have rejoined : (c :: rest).take 11 ++ d :: more = c :: rest := by
    rw [← behind, ← List.drop_succ_cons (a := c), List.take_append_drop]
  have continued : settledFrom isAlphanumeric c (nextQuote inQuote c) rest =
      settledFrom isAlphanumeric d (nextQuote inQuote d) more := by
    obtain ⟨inner, last⟩ := qualifier_inner begins
    have placed : placeSettled isAlphanumeric '.' inQuote (d :: more) = true := by
      rw [placeSettled, bareRelation_attached rfl, not_qualifier_of_call ascii call]
      rfl
    calc settledFrom isAlphanumeric c (nextQuote inQuote c) rest
        = settledFrom isAlphanumeric c inQuote (rest.take 10 ++ d :: more) := by
          rw [nextQuote, if_neg (identChar_noQuote letter), ← behind, List.take_append_drop]
      _ = settledFrom isAlphanumeric '.' inQuote (d :: more) := by
          rw [settledFrom_inner (attached_of_identChar letter) inner, last]
      _ = settledFrom isAlphanumeric d (nextQuote inQuote d) more := by
          rw [settledFrom, placed, Bool.true_and]
  have same : bareRelation prev inQuote (d :: stripPgCatalogPrefix isAlphanumeric more) =
      bareRelation prev inQuote (d :: more) :=
    bareRelation_congr fun ident => call_ident ascii ((call_cons ascii call).2 ident)
  rw [continued, (call_cons ascii call).1]
  cases bare : bareRelation prev inQuote (d :: more) with
  | true =>
      have length : qualifier.length = ((c :: rest).take 11).length := by
        rw [← lower_qualifier begins, lower, List.length_map]
      rw [qualifyLoop_cons, same, bare, if_pos rfl, ← later]
      constructor
      · intro fixed
        rw [← rejoined] at fixed
        obtain ⟨taken, tail⟩ := List.append_inj fixed length
        exact ⟨⟨taken.symm, rfl⟩, (List.cons.inj tail).2⟩
      · rintro ⟨⟨taken, -⟩, fixed⟩
        rw [fixed, ← taken, rejoined]
  | false =>
      rw [iff_false_right (by simp)]
      intro fixed
      obtain ⟨m, split, ident⟩ := qualifier_split begins
      rw [split] at fixed
      obtain ⟨z, dotted⟩ := dotted_of_qualifyLoop ident (same.trans bare) fixed
      rw [← (call_cons ascii call).1] at dotted
      exact call_not_dotted ascii call ident dotted

/-- Both rewrites leave a text as it is exactly when all its places are settled. -/
theorem rewrites_fix_iff (t : Text) (prev : Char) (inQuote : Bool) :
    qualifyLoop prev inQuote (stripPgCatalogPrefix isAlphanumeric t) = t ↔
      settledFrom isAlphanumeric prev inQuote t = true := by
  induction size : t.length using Nat.strong_induction_on generalizing t prev inQuote with
  | _ n ih =>
    cases t with
    | nil =>
        rw [stripPgCatalogPrefix, qualifyLoop, settledFrom]
        simp
    | cons c rest =>
        rw [List.length_cons] at size
        rw [strip_cons, settledFrom_cons, placeSettled]
        cases called : callQualifier isAlphanumeric (c :: rest) with
        | true =>
            obtain ⟨begins, call⟩ := Bool.and_eq_true_iff.mp called
            rw [List.drop_succ_cons] at call
            rw [if_pos rfl, List.drop_succ_cons, prefix_not_relation begins, Bool.not_false, Bool.true_and,
              Bool.not_true, Bool.false_or, Bool.and_eq_true, beq_iff_eq]
            cases behind : rest.drop 10 with
            | nil =>
                rw [behind] at call
                cases call
            | cons d more =>
                rw [behind] at call
                have shorter : more.length < n := by
                  have dropped := congrArg List.length behind
                  rw [List.length_drop, List.length_cons] at dropped
                  omega
                exact call_fix_iff ascii begins behind call (ih more.length shorter more d (nextQuote inQuote d) rfl)
        | false =>
            have later := ih rest.length (by omega) rest c (nextQuote inQuote c) rfl
            rw [if_neg Bool.false_ne_true, qualifyLoop_cons, Bool.not_false, Bool.true_or, Bool.and_true,
              Bool.not_eq_true']
            have same : settledFrom isAlphanumeric c (nextQuote inQuote c) rest = true →
                bareRelation prev inQuote (c :: stripPgCatalogPrefix isAlphanumeric rest) =
                  bareRelation prev inQuote (c :: rest) := by
              intro settled
              cases inQuote with
              | true => simp [bareRelation]
              | false =>
                  apply bareRelation_congr
                  intro ident
                  rw [nextQuote, if_neg (identChar_noQuote ident)] at settled
                  exact settled_ident (attached_of_identChar ident) settled
            cases bare : bareRelation prev inQuote (c :: stripPgCatalogPrefix isAlphanumeric rest) with
            | true =>
                rw [if_pos rfl]
                constructor
                · intro fixed
                  exact absurd fixed (insertion_moves bare _)
                · rintro ⟨noRelation, settled⟩
                  rw [← same settled, bare] at noRelation
                  cases noRelation
            | false =>
                rw [if_neg Bool.false_ne_true, List.nil_append, List.cons.injEq, later]
                constructor
                · rintro ⟨-, settled⟩
                  exact ⟨(same settled).symm.trans bare, settled⟩
                · intro both
                  exact ⟨rfl, both.2⟩

end

end Auger
