import Auger.Qualifying
import Auger.General.Utf8

set_option autoImplicit false

/-! `qualify_bare_pg_catalog` over the bytes of a text. -/

namespace Auger

open General Text

def isAsciiAlphabetic (b : UInt8) : Bool := (65 ≤ b && b ≤ 90) || (97 ≤ b && b ≤ 122)

def isAsciiAlphanumeric (b : UInt8) : Bool := isAsciiAlphabetic b || (48 ≤ b && b ≤ 57)

def identStartByte (b : UInt8) : Bool := isAsciiAlphabetic b || b == 95

def identByte (b : UInt8) : Bool := isAsciiAlphanumeric b || b == 95

def attachedByte (prev : UInt8) : Bool := prev == 46 || isAsciiAlphanumeric prev || prev == 95

def lowerByte (b : UInt8) : UInt8 := if 65 ≤ b && b ≤ 90 then b + 32 else b

/-- `eq_ignore_ascii_case` with one of the relations. -/
def isRelationBytes (ident : List UInt8) : Bool :=
  pgCatalogRelations.any fun r => (utf8 r.toList).map lowerByte == ident.map lowerByte

/-- The scan over what follows a position; `none` is the panic of slicing a text inside
a character. -/
def scanBytes (prev : UInt8) (inQuote : Bool) : List UInt8 → Option (List UInt8)
  | [] => some []
  | c :: rest =>
      if inQuote then (scanBytes c (c != 39) rest).map (c :: ·)
      else if c = 39 then (scanBytes c true rest).map (c :: ·)
      else if identStartByte c && !attachedByte prev then
        let ident := c :: rest.takeWhile identByte
        if onBoundary (c :: rest) && onBoundary (rest.dropWhile identByte) then
          (scanBytes (ident.getLastD c) false (rest.dropWhile identByte)).map fun out =>
            (if isRelationBytes ident then utf8 qualifier else []) ++ ident ++ out
        else none
      else (scanBytes c false rest).map (c :: ·)
termination_by bytes => bytes.length
decreasing_by
  all_goals simp only [List.length_cons]
  all_goals first
    | omega
    | exact Nat.lt_succ_of_le (List.dropWhile_sublist _).length_le

/-- The function on texts: what the scan writes, or the text where that is not UTF-8. -/
def qualifyBytes (sql : Text) : Option Text :=
  (scanBytes 32 false (utf8 sql)).map fun out => (fromUtf8 out).getD sql

section
variable {c : Char} (small : c.toNat < 128)

include small

theorem toNat_byte : (UInt8.ofNat c.toNat).toNat = c.toNat := by
  rw [UInt8.toNat_ofNat']
  omega

theorem isAsciiAlphabetic_byte : isAsciiAlphabetic (UInt8.ofNat c.toNat) = c.isAlpha := by
  rw [Bool.eq_iff_iff, isAlpha_iff]
  simp only [isAsciiAlphabetic, Bool.or_eq_true, Bool.and_eq_true, decide_eq_true_eq, UInt8.le_iff_toNat_le,
    toNat_byte small, UInt8.reduceToNat]

theorem identByte_byte : identByte (UInt8.ofNat c.toNat) = identChar c := by
  rw [Bool.eq_iff_iff, identChar_iff]
  simp only [identByte, isAsciiAlphanumeric, isAsciiAlphabetic, Bool.or_eq_true, Bool.and_eq_true, decide_eq_true_eq,
    UInt8.le_iff_toNat_le, toNat_byte small, UInt8.reduceToNat, beq_iff_eq, ← UInt8.toNat_inj]
  omega

theorem identStartByte_byte : identStartByte (UInt8.ofNat c.toNat) = identStart c := by
  have underscore : (UInt8.ofNat c.toNat == 95) = (c == '_') := by
    rw [Bool.eq_iff_iff, beq_iff_eq, beq_iff_eq, ← UInt8.toNat_inj, toNat_byte small, ← Char.toNat_inj]
    rfl
  rw [identStartByte, identStart, isAsciiAlphabetic_byte small, underscore]

theorem attachedByte_byte : attachedByte (UInt8.ofNat c.toNat) = attached c := by
  have dot : (UInt8.ofNat c.toNat == 46) = (c == '.') := by
    rw [Bool.eq_iff_iff, beq_iff_eq, beq_iff_eq, ← UInt8.toNat_inj, toNat_byte small, ← Char.toNat_inj]
    rfl
  rw [attachedByte, attached, ← identByte_byte small, dot, identByte, Bool.or_assoc]

theorem quote_byte : UInt8.ofNat c.toNat = 39 ↔ c = '\'' := by
  rw [← UInt8.toNat_inj, toNat_byte small, ← Char.toNat_inj]
  rfl

theorem lowerByte_byte : lowerByte (UInt8.ofNat c.toNat) = UInt8.ofNat c.toLower.toNat := by
  have letter : (decide (65 ≤ UInt8.ofNat c.toNat) && decide (UInt8.ofNat c.toNat ≤ 90)) = true ↔
      65 ≤ c.toNat ∧ c.toNat ≤ 90 := by
    simp only [Bool.and_eq_true, decide_eq_true_eq, UInt8.le_iff_toNat_le, toNat_byte small, UInt8.reduceToNat]
  rw [lowerByte, toNat_toLower]
  by_cases upper : 65 ≤ c.toNat ∧ c.toNat ≤ 90
  · rw [if_pos (letter.mpr upper), if_pos upper, UInt8.ofNat_add]
    rfl
  · rw [if_neg fun yes => upper (letter.mp yes), if_neg upper]

end

theorem identByte_high {b : UInt8} (large : 128 ≤ b.toNat) :
    identByte b = false ∧ identStartByte b = false ∧ attachedByte b = false ∧ b ≠ 39 := by
  have other : ∀ n : UInt8, n.toNat < 128 → (b == n) = false := by
    intro n small
    rw [beq_eq_false_iff_ne]
    rintro rfl
    omega
  have letter : isAsciiAlphabetic b = false := by
    simp only [isAsciiAlphabetic, Bool.or_eq_false_iff, Bool.and_eq_false_iff, decide_eq_false_iff_not,
      UInt8.le_iff_toNat_le, UInt8.reduceToNat]
    omega
  have digit : isAsciiAlphanumeric b = false := by
    simp only [isAsciiAlphanumeric, letter, Bool.false_or, Bool.and_eq_false_iff, decide_eq_false_iff_not,
      UInt8.le_iff_toNat_le, UInt8.reduceToNat]
    omega
  have quote : b ≠ 39 := by
    rintro rfl
    exact absurd large (by decide)
  refine ⟨?_, ?_, ?_, quote⟩
  · rw [identByte, digit, other 95 (by decide), Bool.or_false]
  · rw [identStartByte, letter, other 95 (by decide), Bool.or_false]
  · rw [attachedByte, digit, other 46 (by decide), other 95 (by decide), Bool.or_false, Bool.or_false]

theorem identChar_high {c : Char} (large : 128 ≤ c.toNat) :
    identChar c = false ∧ identStart c = false ∧ attached c = false ∧ c ≠ '\'' := by
  have ident : identChar c = false := by
    rw [Bool.eq_false_iff]
    intro word
    rw [identChar_iff] at word
    omega
  have start : identStart c = false := by
    rw [Bool.eq_false_iff]
    intro begins
    rw [identChar_of_identStart begins] at ident
    cases ident
  have dot : (c == '.') = false := by
    rw [beq_eq_false_iff_ne]
    rintro rfl
    exact absurd large (by decide)
  have quote : c ≠ '\'' := by
    rintro rfl
    exact absurd large (by decide)
  exact ⟨ident, start, by rw [attached, dot, ident, Bool.or_false], quote⟩

theorem takeWhile_utf8 (t : Text) :
    (utf8 t).takeWhile identByte = utf8 (t.takeWhile identChar) ∧
      (utf8 t).dropWhile identByte = utf8 (t.dropWhile identChar) := by
  induction t with
  | nil => exact ⟨rfl, rfl⟩
  | cons c rest ih =>
      by_cases small : c.toNat < 128
      · rw [utf8_ascii small, List.takeWhile_cons, List.dropWhile_cons, identByte_byte small, List.takeWhile_cons,
          List.dropWhile_cons]
        cases identChar c with
        | false =>
            refine ⟨rfl, ?_⟩
            rw [if_neg Bool.false_ne_true, if_neg Bool.false_ne_true, utf8_ascii small]
        | true => simp only [if_true, ih, utf8_ascii small, true_and]
      · have large : 128 ≤ c.toNat := by omega
        obtain ⟨b, more, shape⟩ := List.exists_cons_of_ne_nil (String.utf8EncodeChar_ne_nil (c := c))
        have high := utf8EncodeChar_high large b (by simp [shape])
        have bytes : utf8 (c :: rest) = b :: (more ++ utf8 rest) := by rw [utf8_cons, shape, List.cons_append]
        rw [List.takeWhile_cons_of_neg (p := identChar) (by simp [identChar_high large]),
          List.dropWhile_cons_of_neg (p := identChar) (by simp [identChar_high large]), bytes,
          List.takeWhile_cons_of_neg (by simp [identByte_high high]),
          List.dropWhile_cons_of_neg (by simp [identByte_high high])]
        exact ⟨rfl, rfl⟩

theorem utf8_inj {t other : Text} : utf8 t = utf8 other ↔ t = other := by
  constructor
  · intro same
    have decoded := congrArg fromUtf8 same
    rw [fromUtf8_utf8, fromUtf8_utf8] at decoded
    exact Option.some.inj decoded
  · intro same
    rw [same]

theorem small_of_identChar {c : Char} (word : identChar c = true) : c.toNat < 128 := by
  rw [identChar_iff] at word
  omega

theorem lowerByte_utf8 {t : Text} (small : ∀ c ∈ t, c.toNat < 128) : (utf8 t).map lowerByte = utf8 (lower t) := by
  induction t with
  | nil => rfl
  | cons c rest ih =>
      have here := small c (by simp)
      have lowered : c.toLower.toNat < 128 := by
        rw [toNat_toLower]
        split_ifs <;> omega
      rw [utf8_ascii here, List.map_cons, lowerByte_byte here, ih fun d inside => small d (List.mem_cons_of_mem _ inside)]
      exact (utf8_ascii lowered (lower rest)).symm

theorem isRelationBytes_utf8 {ident : Text} (word : ∀ c ∈ ident, identChar c = true) :
    isRelationBytes (utf8 ident) = isRelation ident := by
  have names : pgCatalogRelations.all (fun r => r.toList.all identChar && lower r.toList == r.toList) = true := rfl
  rw [Bool.eq_iff_iff, isRelationBytes, isRelation, List.any_eq_true, List.any_eq_true]
  refine exists_congr fun r => and_congr_right fun inside => ?_
  have known := List.all_eq_true.mp names r inside
  rw [Bool.and_eq_true, beq_iff_eq] at known
  rw [beq_iff_eq, beq_iff_eq, lowerByte_utf8 fun c member => small_of_identChar (List.all_eq_true.mp known.1 c member),
    known.2, lowerByte_utf8 fun c member => small_of_identChar (word c member), utf8_inj]
  exact eq_comm

theorem attachedByte_of_identByte {b : UInt8} (word : identByte b = true) : attachedByte b = true := by
  rw [attachedByte, Bool.or_assoc, ← identByte, word, Bool.or_true]

theorem attached_last {c : Char} {rest : Text} (word : identChar c = true) :
    attached ((c :: rest.takeWhile identChar).getLastD c) = true ∧
      attachedByte ((utf8 (c :: rest.takeWhile identChar)).getLastD (UInt8.ofNat c.toNat)) = true := by
  have small := small_of_identChar word
  constructor
  · rw [List.getLastD_cons]
    rcases List.mem_cons.mp (List.getLastD_mem_cons (l := rest.takeWhile identChar) (a := c)) with same | inside
    · rw [same]
      exact attached_of_identChar word
    · exact attached_of_identChar (List.mem_takeWhile_imp inside)
  · rw [utf8_ascii small, List.getLastD_cons, ← (takeWhile_utf8 rest).1]
    rcases List.mem_cons.mp (List.getLastD_mem_cons (l := (utf8 rest).takeWhile identByte)
      (a := UInt8.ofNat c.toNat)) with same | inside
    · rw [same]
      exact attachedByte_of_identByte (by rw [identByte_byte small, word])
    · exact attachedByte_of_identByte (List.mem_takeWhile_imp inside)

theorem scanBytes_high {bytes : List UInt8} (high : ∀ b ∈ bytes, 128 ≤ b.toNat) (prev : UInt8) (inQuote : Bool)
    (rest : List UInt8) :
    scanBytes prev inQuote (bytes ++ rest) =
      (scanBytes (bytes.getLastD prev) inQuote rest).map (bytes ++ ·) := by
  induction bytes generalizing prev with
  | nil => simp
  | cons b more ih =>
      obtain ⟨-, start, -, quote⟩ := identByte_high (high b (by simp))
      have step : scanBytes prev inQuote (b :: (more ++ rest)) = (scanBytes b inQuote (more ++ rest)).map (b :: ·) := by
        rw [scanBytes]
        cases inQuote with
        | true =>
            have open_ : (b != 39) = true := by simpa using quote
            rw [if_pos rfl, open_]
        | false =>
            rw [if_neg Bool.false_ne_true, if_neg quote, start, Bool.false_and, if_neg Bool.false_ne_true]
      rw [List.cons_append, step, ih fun d inside => high d (List.mem_cons_of_mem _ inside), List.getLastD_cons,
        Option.map_map]
      rfl

/-- The scan of a text's bytes writes the bytes of the qualified text. -/
theorem scanBytes_utf8 {prev : UInt8} {before : Char} (same : attachedByte prev = attached before) (inQuote : Bool)
    (t : Text) : scanBytes prev inQuote (utf8 t) = some (utf8 (qualifyLoop before inQuote t)) := by
  induction size : t.length using Nat.strong_induction_on generalizing prev before inQuote t with
  | _ n ih =>
    cases t with
    | nil => rw [utf8_nil, scanBytes, qualifyLoop, utf8_nil]
    | cons c rest =>
        have shorter : rest.length < n := by
          rw [← size]
          exact Nat.lt_succ_self _
        by_cases small : c.toNat < 128
        · have copied : ∀ flag, (scanBytes (UInt8.ofNat c.toNat) flag (utf8 rest)).map (UInt8.ofNat c.toNat :: ·) =
              some (utf8 (c :: qualifyLoop c flag rest)) := by
            intro flag
            rw [ih rest.length shorter (attachedByte_byte small) flag rest rfl, Option.map_some, utf8_ascii small]
          rw [utf8_ascii small, scanBytes, qualifyLoop]
          cases inQuote with
          | true =>
              have closes : (UInt8.ofNat c.toNat != 39) = (c != '\'') := by
                rw [Bool.eq_iff_iff, bne_iff_ne, bne_iff_ne, ne_eq, ne_eq, quote_byte small]
              rw [if_pos rfl, if_pos rfl, closes, copied]
          | false =>
              rw [if_neg Bool.false_ne_true, if_neg Bool.false_ne_true]
              by_cases quote : c = '\''
              · rw [if_pos ((quote_byte small).mpr quote), if_pos quote, copied]
              · rw [if_neg fun byte => quote ((quote_byte small).mp byte), if_neg quote, identStartByte_byte small, same]
                by_cases opens : (identStart c && !attached before) = true
                · have word := identChar_of_identStart (Bool.and_eq_true_iff.mp opens).1
                  obtain ⟨taken, dropped⟩ := takeWhile_utf8 rest
                  have last := @attached_last c rest word
                  have later := ih (rest.dropWhile identChar).length
                    (lt_of_le_of_lt (List.dropWhile_sublist _).length_le shorter) (last.2.trans last.1.symm) false
                    (rest.dropWhile identChar) rfl
                  have words : ∀ d ∈ c :: rest.takeWhile identChar, identChar d = true := by
                    intro d inside
                    rcases List.mem_cons.mp inside with here | behind
                    · rw [here]
                      exact word
                    · exact List.mem_takeWhile_imp behind
                  rw [if_pos opens, if_pos opens]
                  dsimp only
                  rw [taken, dropped, ← utf8_ascii small, ← utf8_ascii small, onBoundary_utf8, onBoundary_utf8, later,
                    isRelationBytes_utf8 words, Bool.and_true, if_pos rfl, Option.map_some, utf8_append, utf8_append]
                  cases isRelation (c :: rest.takeWhile identChar) <;> rfl
                · rw [if_neg opens, if_neg opens, copied]
        · have large : 128 ≤ c.toNat := by omega
          obtain ⟨-, start, free, quote⟩ := identChar_high large
          obtain ⟨b, more, shape⟩ := List.exists_cons_of_ne_nil (String.utf8EncodeChar_ne_nil (c := c))
          have high := utf8EncodeChar_high large
          have plain : bareRelation before inQuote (c :: rest) = false := by
            rw [bareRelation, start, Bool.and_false, Bool.false_and, Bool.false_and]
          have last : attachedByte ((String.utf8EncodeChar c).getLastD prev) = attached c := by
            rw [free, shape, List.getLastD_cons]
            apply (identByte_high (high _ _)).2.2.1
            rw [shape]
            exact List.getLastD_mem_cons
          rw [utf8_cons, scanBytes_high high, ih rest.length shorter last inQuote rest rfl, qualifyLoop_cons, plain,
            if_neg Bool.false_ne_true, List.nil_append, nextQuote, if_neg quote, Option.map_some, utf8_cons]

/-- No slice is taken inside a character and the scan writes UTF-8; what it writes is the
text with qualifiers put in, and is left as it is by a second scan. -/
theorem qualify_inserts (sql : Text) :
    ∃ out, (∃ bytes, scanBytes 32 false (utf8 sql) = some bytes ∧ fromUtf8 bytes = some out) ∧
      qualifyBytes sql = some out ∧ Inserted qualifier (fun _ _ => True) [] sql out ∧ qualifyBytes out = some out := by
  have scan : ∀ t, scanBytes 32 false (utf8 t) = some (utf8 (qualifyBarePgCatalog t)) :=
    fun t => scanBytes_utf8 rfl false t
  have whole : ∀ t, qualifyBytes t = some (qualifyBarePgCatalog t) := by
    intro t
    rw [qualifyBytes, scan, Option.map_some, fromUtf8_utf8, Option.getD_some]
  refine ⟨qualifyBarePgCatalog sql, ⟨_, scan sql, fromUtf8_utf8 _⟩, whole sql, ?_, ?_⟩
  · exact (qualify_inserted_iff sql).mpr fun _ _ _ _ => trivial
  · rw [whole, qualify_again]

end Auger
