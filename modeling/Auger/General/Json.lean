import Mathlib.Data.List.TakeWhile
import Mathlib.Data.String.Basic

set_option autoImplicit false

/-! JSON texts: the grammar of RFC 8259, and a parser that accepts all of it. -/

namespace Auger.General

/-- A JSON value; a number is kept as its text. -/
inductive Json
  | null
  | bool (value : Bool)
  | number (lexeme : String)
  | string (value : String)
  | array (items : List Json)
  | object (members : List (String × Json))

namespace Json

def isSpace (c : Char) : Bool := c == ' ' || c == '\t' || c == '\n' || c == '\r'

def Spaces (text : List Char) : Prop := ∀ c ∈ text, isSpace c = true

def exponentPart : List Char → Bool
  | [] => true
  | c :: rest =>
      let digits := match rest with
        | '+' :: digits | '-' :: digits => digits
        | digits => digits
      (c == 'e' || c == 'E') && !digits.isEmpty && digits.all Char.isDigit

def fractionPart : List Char → Bool
  | '.' :: rest => !(rest.takeWhile Char.isDigit).isEmpty && exponentPart (rest.dropWhile Char.isDigit)
  | rest => exponentPart rest

def wholePart (digits : List Char) : Bool :=
  digits == ['0'] || (!digits.isEmpty && digits.head? != some '0')

def isNumber (text : List Char) : Bool :=
  let unsigned := match text with
    | '-' :: rest => rest
    | rest => rest
  wholePart (unsigned.takeWhile Char.isDigit) && fractionPart (unsigned.dropWhile Char.isDigit)

def hexValue (c : Char) : Option Nat :=
  if '0' ≤ c ∧ c ≤ '9' then some (c.toNat - '0'.toNat)
  else if 'a' ≤ c ∧ c ≤ 'f' then some (c.toNat - 'a'.toNat + 10)
  else if 'A' ≤ c ∧ c ≤ 'F' then some (c.toNat - 'A'.toNat + 10)
  else none

def codeUnit (a b c d : Char) : Option Nat := do
  some (((← hexValue a) * 16 + (← hexValue b)) * 256 + (← hexValue c) * 16 + (← hexValue d))

def shortEscape (c : Char) : Option Char :=
  if c = '"' ∨ c = '\\' ∨ c = '/' then some c
  else if c = 'b' then some '\x08'
  else if c = 'f' then some '\x0c'
  else if c = 'n' then some '\n'
  else if c = 'r' then some '\r'
  else if c = 't' then some '\t'
  else none

def isUnescaped (c : Char) : Bool := 0x20 ≤ c.toNat && c != '"' && c != '\\'

inductive CharText : Char → List Char → Prop
  | plain {c : Char} (unescaped : isUnescaped c = true) : CharText c [c]
  | short {c letter : Char} (known : shortEscape letter = some c) : CharText c ['\\', letter]
  | unicode {a b c d : Char} {unit : Nat} (digits : codeUnit a b c d = some unit)
      (scalar : unit < 0xD800 ∨ 0xE000 ≤ unit) : CharText (Char.ofNat unit) ['\\', 'u', a, b, c, d]
  | pair {a b c d e f g h : Char} {high low : Nat} (first : codeUnit a b c d = some high)
      (second : codeUnit e f g h = some low) (isHigh : 0xD800 ≤ high ∧ high < 0xDC00)
      (isLow : 0xDC00 ≤ low ∧ low < 0xE000) :
      CharText (Char.ofNat (0x10000 + (high - 0xD800) * 0x400 + (low - 0xDC00)))
        ['\\', 'u', a, b, c, d, '\\', 'u', e, f, g, h]

inductive CharsText : List Char → List Char → Prop
  | nil : CharsText [] []
  | cons {c : Char} {rest piece more : List Char} (first : CharText c piece) (later : CharsText rest more) :
      CharsText (c :: rest) (piece ++ more)

def StringText (value : String) (text : List Char) : Prop :=
  ∃ body, CharsText value.toList body ∧ text = '"' :: (body ++ ['"'])

mutual
/-- The texts of a value, without white space around them. -/
def IsText : Json → List Char → Prop
  | .null, text => text = "null".toList
  | .bool value, text => text = (if value then "true" else "false").toList
  | .number lexeme, text => text = lexeme.toList ∧ isNumber text = true
  | .string value, text => StringText value text
  | .array items, text => ∃ body, ItemsText items body ∧ text = '[' :: (body ++ [']'])
  | .object members, text => ∃ body, MembersText members body ∧ text = '{' :: (body ++ ['}'])
def ItemsText : List Json → List Char → Prop
  | [], body => Spaces body
  | item :: rest, body =>
      ∃ before text after tail, Spaces before ∧ IsText item text ∧ Spaces after ∧
        body = before ++ (text ++ (after ++ tail)) ∧
        (rest = [] ∧ tail = [] ∨ rest ≠ [] ∧ ∃ more, ItemsText rest more ∧ tail = ',' :: more)
def MembersText : List (String × Json) → List Char → Prop
  | [], body => Spaces body
  | (name, value) :: rest, body =>
      ∃ before quoted pad gap text after tail, Spaces before ∧ StringText name quoted ∧ Spaces pad ∧
        Spaces gap ∧ IsText value text ∧ Spaces after ∧
        body = before ++ (quoted ++ (pad ++ ':' :: (gap ++ (text ++ (after ++ tail))))) ∧
        (rest = [] ∧ tail = [] ∨ rest ≠ [] ∧ ∃ more, MembersText rest more ∧ tail = ',' :: more)
end

def skipSpace (text : List Char) : List Char := text.dropWhile isSpace

def isNumberChar (c : Char) : Bool :=
  c.isDigit || c == '-' || c == '+' || c == '.' || c == 'e' || c == 'E'

/-- The characters of a string up to its closing quotation mark, and what follows it. -/
def parseChars : List Char → Option (List Char × List Char)
  | [] => none
  | '"' :: rest => some ([], rest)
  | '\\' :: 'u' :: a :: b :: c :: d :: rest =>
      match codeUnit a b c d with
      | none => none
      | some unit =>
          if unit < 0xD800 ∨ 0xE000 ≤ unit then
            (parseChars rest).map fun (chars, rest) => (Char.ofNat unit :: chars, rest)
          else if unit < 0xDC00 then
            match rest with
            | '\\' :: 'u' :: e :: f :: g :: h :: rest =>
                match codeUnit e f g h with
                | none => none
                | some low =>
                    if 0xDC00 ≤ low ∧ low < 0xE000 then
                      (parseChars rest).map fun (chars, rest) =>
                        (Char.ofNat (0x10000 + (unit - 0xD800) * 0x400 + (low - 0xDC00)) :: chars, rest)
                    else none
            | _ => none
          else none
  | '\\' :: letter :: rest =>
      match shortEscape letter with
      | none => none
      | some c => (parseChars rest).map fun (chars, rest) => (c :: chars, rest)
  | c :: rest =>
      if isUnescaped c then (parseChars rest).map fun (chars, rest) => (c :: chars, rest) else none

def parseString : List Char → Option (String × List Char)
  | '"' :: rest => (parseChars rest).map fun (chars, rest) => (String.ofList chars, rest)
  | _ => none

def parseLiteral (text : List Char) : Option (Json × List Char) :=
  if "null".toList.isPrefixOf text then some (.null, text.drop 4)
  else if "true".toList.isPrefixOf text then some (.bool true, text.drop 4)
  else if "false".toList.isPrefixOf text then some (.bool false, text.drop 5)
  else none

def parseNumber (text : List Char) : Option (Json × List Char) :=
  let lexeme := text.takeWhile isNumberChar
  if isNumber lexeme then some (.number (String.ofList lexeme), text.dropWhile isNumberChar) else none

mutual
def parseValue : Nat → List Char → Option (Json × List Char)
  | 0, _ => none
  | _ + 1, [] => none
  | fuel + 1, c :: rest =>
      if c = '"' then (parseString (c :: rest)).map fun (value, rest) => (.string value, rest)
      else if c = '[' then
        if (skipSpace rest).head? = some ']' then some (.array [], (skipSpace rest).drop 1)
        else (parseItems fuel rest).map fun (items, rest) => (.array items, rest)
      else if c = '{' then
        if (skipSpace rest).head? = some '}' then some (.object [], (skipSpace rest).drop 1)
        else (parseMembers fuel rest).map fun (members, rest) => (.object members, rest)
      else if isNumberChar c then parseNumber (c :: rest)
      else parseLiteral (c :: rest)
def parseItems : Nat → List Char → Option (List Json × List Char)
  | 0, _ => none
  | fuel + 1, text =>
      (parseValue fuel (skipSpace text)).bind fun (item, rest) =>
        match skipSpace rest with
        | ',' :: rest => (parseItems fuel rest).map fun (items, rest) => (item :: items, rest)
        | ']' :: rest => some ([item], rest)
        | _ => none
def parseMembers : Nat → List Char → Option (List (String × Json) × List Char)
  | 0, _ => none
  | fuel + 1, text =>
      (parseString (skipSpace text)).bind fun (name, rest) =>
        match skipSpace rest with
        | ':' :: rest =>
            (parseValue fuel (skipSpace rest)).bind fun (value, rest) =>
              match skipSpace rest with
              | ',' :: rest =>
                  (parseMembers fuel rest).map fun (members, rest) => ((name, value) :: members, rest)
              | '}' :: rest => some ([(name, value)], rest)
              | _ => none
        | _ => none
end

/-- The value a whole text denotes; white space may stand around it. -/
def parse (text : String) : Option Json :=
  (parseValue (text.toList.length + 1) (skipSpace text.toList)).bind fun (value, rest) =>
    if (skipSpace rest).isEmpty then some value else none

theorem skipSpace_append {spaces : List Char} (blank : Spaces spaces) (rest : List Char) :
    skipSpace (spaces ++ rest) = skipSpace rest := by
  induction spaces with
  | nil => rfl
  | cons c more ih =>
      have here : isSpace c = true := blank c (by simp)
      have later := ih fun d inside => blank d (List.mem_cons_of_mem _ inside)
      rw [List.cons_append, skipSpace, List.dropWhile_cons_of_pos here]
      exact later

theorem skipSpace_solid {c : Char} (solid : isSpace c = false) (rest : List Char) :
    skipSpace (c :: rest) = c :: rest := by
  rw [skipSpace, List.dropWhile_cons_of_neg (by simp [solid])]

theorem parseChars_piece {c : Char} {piece : List Char} (written : CharText c piece) (rest : List Char) :
    parseChars (piece ++ rest) = (parseChars rest).map fun (chars, rest) => (c :: chars, rest) := by
  cases written with
  | plain unescaped =>
      have quote : c ≠ '"' := by
        rintro rfl
        cases unescaped
      have backslash : c ≠ '\\' := by
        rintro rfl
        cases unescaped
      rw [List.singleton_append, parseChars.eq_def]
      split <;> simp_all
  | @short _ letter known =>
      have plain : letter ≠ 'u' := by
        rintro rfl
        cases known
      rw [List.cons_append, List.singleton_append]
      simp [parseChars, known, plain]
  | unicode digits scalar => simp [parseChars, digits, scalar]
  | @pair _ _ _ _ _ _ _ _ high low first second isHigh isLow =>
      have notScalar : ¬(high < 0xD800 ∨ 0xE000 ≤ high) := by omega
      simp [parseChars, first, second, notScalar, isHigh.2, isLow]

theorem parseChars_text {chars body : List Char} (written : CharsText chars body) (rest : List Char) :
    parseChars (body ++ '"' :: rest) = some (chars, rest) := by
  induction written with
  | nil => rfl
  | cons first later ih => rw [List.append_assoc, parseChars_piece first, ih, Option.map_some]

theorem parseString_text {value : String} {text : List Char} (written : StringText value text)
    (rest : List Char) : parseString (text ++ rest) = some (value, rest) := by
  obtain ⟨body, chars, rfl⟩ := written
  rw [List.cons_append, List.append_assoc, List.singleton_append, parseString, parseChars_text chars,
    Option.map_some]
  exact congrArg some (Prod.ext String.ofList_toList rfl)

theorem isNumberChar_digit {c : Char} (digit : c.isDigit = true) : isNumberChar c = true := by
  simp [isNumberChar, digit]

theorem mem_span {p : Char → Bool} {text : List Char} {c : Char} (inside : c ∈ text) :
    p c = true ∨ c ∈ text.dropWhile p := by
  rw [← List.takeWhile_append_dropWhile (p := p) (l := text), List.mem_append] at inside
  exact inside.imp_left List.mem_takeWhile_imp

theorem exponentPart_chars {text : List Char} (valid : exponentPart text = true) :
    ∀ c ∈ text, isNumberChar c = true := by
  cases text with
  | nil => simp
  | cons e rest =>
      simp only [exponentPart, Bool.and_eq_true, List.all_eq_true] at valid
      obtain ⟨⟨letter, -⟩, digits⟩ := valid
      intro c inside
      rcases List.mem_cons.mp inside with rfl | later
      · rcases Bool.or_eq_true_iff.mp letter with same | same <;> simp [isNumberChar, same]
      · split at digits
        · rcases List.mem_cons.mp later with rfl | digit
          · rfl
          · exact isNumberChar_digit (digits c digit)
        · rcases List.mem_cons.mp later with rfl | digit
          · rfl
          · exact isNumberChar_digit (digits c digit)
        · exact isNumberChar_digit (digits c later)

theorem fractionPart_chars {text : List Char} (valid : fractionPart text = true) :
    ∀ c ∈ text, isNumberChar c = true := by
  intro c inside
  unfold fractionPart at valid
  split at valid
  · rcases List.mem_cons.mp inside with rfl | later
    · rfl
    · rcases mem_span later with digit | exponent
      · exact isNumberChar_digit digit
      · exact exponentPart_chars (Bool.and_eq_true_iff.mp valid).2 c exponent
  · exact exponentPart_chars valid c inside

theorem isNumber_chars {text : List Char} (valid : isNumber text = true) :
    ∀ c ∈ text, isNumberChar c = true := by
  have unsigned : ∀ body : List Char, fractionPart (body.dropWhile Char.isDigit) = true →
      ∀ c ∈ body, isNumberChar c = true := by
    intro body rest c inside
    rcases mem_span inside with digit | fraction
    · exact isNumberChar_digit digit
    · exact fractionPart_chars rest c fraction
  intro c inside
  simp only [isNumber, Bool.and_eq_true] at valid
  split at valid
  · rcases List.mem_cons.mp inside with rfl | later
    · rfl
    · exact unsigned _ valid.2 c later
  · exact unsigned _ valid.2 c inside

theorem isNumber_head {text : List Char} (valid : isNumber text = true) :
    ∃ c rest, text = c :: rest ∧ (c = '-' ∨ c.isDigit = true) := by
  cases text with
  | nil => cases valid
  | cons c rest =>
      refine ⟨c, rest, rfl, ?_⟩
      by_contra neither
      rw [not_or] at neither
      have stops : (c :: rest).takeWhile Char.isDigit = [] := List.takeWhile_cons_of_neg neither.2
      have plain : isNumber (c :: rest) = (wholePart ((c :: rest).takeWhile Char.isDigit) &&
          fractionPart ((c :: rest).dropWhile Char.isDigit)) := by
        rw [isNumber]
        intro more same
        exact absurd (List.cons.inj same).1 neither.1
      rw [plain, stops] at valid
      cases valid

/-- What follows a value cannot be part of a number. -/
def Bounded (rest : List Char) : Prop := ∀ c more, rest = c :: more → isNumberChar c = false

theorem parseNumber_text {lexeme : String} (valid : isNumber lexeme.toList = true) {rest : List Char}
    (bounded : Bounded rest) : parseNumber (lexeme.toList ++ rest) = some (.number lexeme, rest) := by
  have inside := isNumber_chars valid
  have taken : (lexeme.toList ++ rest).takeWhile isNumberChar = lexeme.toList := by
    rw [List.takeWhile_append_of_pos inside]
    cases rest with
    | nil => simp
    | cons c more => simp [bounded c more rfl]
  have left : (lexeme.toList ++ rest).dropWhile isNumberChar = rest := by
    rw [List.dropWhile_append_of_pos inside]
    cases rest with
    | nil => rfl
    | cons c more => simp [bounded c more rfl]
  rw [parseNumber, taken, if_pos valid, left, String.ofList_toList]

theorem isText_head {value : Json} {text : List Char} (written : IsText value text) :
    ∃ c rest, text = c :: rest ∧ isSpace c = false ∧ c ≠ ']' := by
  cases value with
  | null =>
      simp only [IsText] at written
      exact ⟨'n', _, written, rfl, by decide⟩
  | bool b =>
      cases b <;> simp only [IsText] at written
      · exact ⟨'f', _, written, rfl, by decide⟩
      · exact ⟨'t', _, written, rfl, by decide⟩
  | number lexeme =>
      simp only [IsText] at written
      obtain ⟨c, rest, same, sign | digit⟩ := isNumber_head written.2
      · subst sign
        exact ⟨'-', rest, same, rfl, by decide⟩
      · refine ⟨c, rest, same, ?_, ?_⟩
        · by_contra space
          simp only [isSpace, Bool.not_eq_false, Bool.or_eq_true, beq_iff_eq] at space
          rcases space with ((rfl | rfl) | rfl) | rfl <;> cases digit
        · rintro rfl
          cases digit
  | string s =>
      simp only [IsText, StringText] at written
      obtain ⟨body, -, same⟩ := written
      exact ⟨'"', _, same, rfl, by decide⟩
  | array items =>
      simp only [IsText] at written
      obtain ⟨body, -, same⟩ := written
      exact ⟨'[', _, same, rfl, by decide⟩
  | object members =>
      simp only [IsText] at written
      obtain ⟨body, -, same⟩ := written
      exact ⟨'{', _, same, rfl, by decide⟩

theorem bounded_spaces {spaces rest : List Char} (blank : Spaces spaces) (bounded : Bounded rest) :
    Bounded (spaces ++ rest) := by
  cases spaces with
  | nil => exact bounded
  | cons c more =>
      rintro d tail same
      obtain rfl := (List.cons.inj same).1
      have space := blank c (by simp)
      simp only [isSpace, Bool.or_eq_true, beq_iff_eq] at space
      rcases space with ((rfl | rfl) | rfl) | rfl <;> rfl

theorem bounded_cons {c : Char} (stops : isNumberChar c = false) (rest : List Char) : Bounded (c :: rest) := by
  rintro d tail same
  obtain rfl := (List.cons.inj same).1
  exact stops

theorem skipSpace_text {value : Json} {text : List Char} (written : IsText value text) {spaces : List Char}
    (blank : Spaces spaces) (rest : List Char) : skipSpace (spaces ++ (text ++ rest)) = text ++ rest := by
  obtain ⟨c, more, rfl, solid, -⟩ := isText_head written
  rw [skipSpace_append blank, List.cons_append, skipSpace_solid solid]

theorem tail_bounded {close : Char} (stops : isNumberChar close = false) {tail : List Char}
    (ends : tail = [] ∨ ∃ more, tail = ',' :: more) (rest : List Char) : Bounded (tail ++ close :: rest) := by
  rcases ends with rfl | ⟨more, rfl⟩
  · exact bounded_cons stops rest
  · exact bounded_cons rfl _

mutual
theorem parseValue_text (value : Json) {text : List Char} (written : IsText value text) {rest : List Char}
    (bounded : Bounded rest) {fuel : Nat} (enough : text.length < fuel) :
    parseValue fuel (text ++ rest) = some (value, rest) := by
  obtain ⟨fuel, rfl⟩ : ∃ n, fuel = n + 1 := ⟨fuel - 1, by omega⟩
  cases value with
  | null =>
      simp only [IsText] at written
      subst written
      simp [parseValue, isNumberChar, parseLiteral]
  | bool b =>
      simp only [IsText] at written
      subst written
      cases b <;> simp [parseValue, isNumberChar, parseLiteral]
  | number lexeme =>
      simp only [IsText] at written
      obtain ⟨rfl, valid⟩ := written
      obtain ⟨c, more, same, head⟩ := isNumber_head valid
      have parsed := parseNumber_text valid bounded
      rw [same, List.cons_append] at parsed ⊢
      have number : isNumberChar c = true := isNumber_chars valid c (by rw [same]; simp)
      have others : c ≠ '"' ∧ c ≠ '[' ∧ c ≠ '{' := by
        refine ⟨?_, ?_, ?_⟩ <;> rintro rfl <;> cases number
      simp [parseValue, others, number, parsed]
  | string s =>
      simp only [IsText] at written
      have parsed := parseString_text written rest
      obtain ⟨body, -, rfl⟩ := written
      rw [List.cons_append] at parsed ⊢
      rw [parseValue, if_pos rfl, parsed, Option.map_some]
  | array items =>
      simp only [IsText] at written
      obtain ⟨body, inside, rfl⟩ := written
      simp only [List.length_cons, List.length_append, List.length_nil] at enough
      rw [List.cons_append, List.append_assoc, List.singleton_append, parseValue, if_neg (by decide), if_pos rfl]
      cases items with
      | nil =>
          simp only [ItemsText] at inside
          rw [skipSpace_append inside, skipSpace_solid rfl]
          rfl
      | cons item others =>
          have more : (skipSpace (body ++ ']' :: rest)).head? ≠ some ']' := by
            simp only [ItemsText] at inside
            obtain ⟨before, text, after, tail, blank, textual, -, rfl, -⟩ := inside
            rw [List.append_assoc, List.append_assoc, skipSpace_text textual blank]
            obtain ⟨c, left, rfl, -, opens⟩ := isText_head textual
            simpa using opens
          rw [if_neg more, parseItems_text (item :: others) (by simp) inside rest (by omega), Option.map_some]
  | object members =>
      simp only [IsText] at written
      obtain ⟨body, inside, rfl⟩ := written
      simp only [List.length_cons, List.length_append, List.length_nil] at enough
      rw [List.cons_append, List.append_assoc, List.singleton_append, parseValue, if_neg (by decide),
        if_neg (by decide), if_pos rfl]
      cases members with
      | nil =>
          simp only [MembersText] at inside
          rw [skipSpace_append inside, skipSpace_solid rfl]
          rfl
      | cons member others =>
          have more : (skipSpace (body ++ '}' :: rest)).head? ≠ some '}' := by
            rcases member with ⟨name, value⟩
            simp only [MembersText] at inside
            obtain ⟨before, quoted, pad, gap, text, after, tail, blank, ⟨chars, -, rfl⟩, -, -, -, -, rfl, -⟩ := inside
            rw [List.append_assoc, List.append_assoc, skipSpace_append blank, List.cons_append,
              skipSpace_solid rfl]
            simp
          rw [if_neg more, parseMembers_text (member :: others) (by simp) inside rest (by omega), Option.map_some]
termination_by structural value
theorem parseItems_text (items : List Json) (present : items ≠ []) {body : List Char}
    (written : ItemsText items body) (rest : List Char) {fuel : Nat} (enough : body.length + 1 < fuel) :
    parseItems fuel (body ++ ']' :: rest) = some (items, rest) := by
  obtain ⟨fuel, rfl⟩ : ∃ n, fuel = n + 1 := ⟨fuel - 1, by omega⟩
  cases items with
  | nil => exact absurd rfl present
  | cons item others =>
      simp only [ItemsText] at written
      obtain ⟨before, text, after, tail, blank, textual, blank', rfl, ends⟩ := written
      obtain ⟨c, left, same, -, -⟩ := isText_head textual
      have positive : 0 < text.length := by rw [same]; simp
      simp only [List.length_append] at enough
      have stops : Bounded (after ++ (tail ++ ']' :: rest)) := by
        refine bounded_spaces blank' ?_
        rcases ends with ⟨-, rfl⟩ | ⟨-, more, -, rfl⟩
        · exact tail_bounded rfl (.inl rfl) rest
        · exact tail_bounded rfl (.inr ⟨more, rfl⟩) rest
      have first : parseValue fuel (text ++ (after ++ (tail ++ ']' :: rest))) = some (item, after ++ (tail ++ ']' :: rest)) :=
        parseValue_text item textual stops (by omega)
      simp only [List.append_assoc]
      rw [parseItems, skipSpace_text textual blank, first, Option.bind_some]
      simp only [skipSpace_append blank']
      rcases ends with ⟨rfl, rfl⟩ | ⟨nonempty, more, later, rfl⟩
      · rw [List.nil_append, skipSpace_solid rfl]
        rfl
      · simp only [List.length_cons] at enough
        have siblings : parseItems fuel (more ++ ']' :: rest) = some (others, rest) :=
          parseItems_text others nonempty later rest (by omega)
        rw [List.cons_append, skipSpace_solid rfl]
        simp only [siblings, Option.map_some]
termination_by structural items
theorem parseMembers_text (members : List (String × Json)) (present : members ≠ []) {body : List Char}
    (written : MembersText members body) (rest : List Char) {fuel : Nat} (enough : body.length + 1 < fuel) :
    parseMembers fuel (body ++ '}' :: rest) = some (members, rest) := by
  obtain ⟨fuel, rfl⟩ : ∃ n, fuel = n + 1 := ⟨fuel - 1, by omega⟩
  cases members with
  | nil => exact absurd rfl present
  | cons member others =>
      rcases member with ⟨name, value⟩
      simp only [MembersText] at written
      obtain ⟨before, quoted, pad, gap, text, after, tail, blank, named, blankPad, blankGap, textual, blank',
        rfl, ends⟩ := written
      have opened := named
      obtain ⟨chars, -, quotedEq⟩ := opened
      simp only [List.length_append, List.length_cons] at enough
      have stops : Bounded (after ++ (tail ++ '}' :: rest)) := by
        refine bounded_spaces blank' ?_
        rcases ends with ⟨-, rfl⟩ | ⟨-, more, -, rfl⟩
        · exact tail_bounded rfl (.inl rfl) rest
        · exact tail_bounded rfl (.inr ⟨more, rfl⟩) rest
      have first : parseValue fuel (text ++ (after ++ (tail ++ '}' :: rest))) = some (value, after ++ (tail ++ '}' :: rest)) :=
        parseValue_text value textual stops (by omega)
      have key := parseString_text named (pad ++ ':' :: (gap ++ (text ++ (after ++ (tail ++ '}' :: rest)))))
      have start : skipSpace (before ++ (quoted ++ (pad ++ ':' :: (gap ++ (text ++ (after ++ (tail ++ '}' :: rest))))))) =
          quoted ++ (pad ++ ':' :: (gap ++ (text ++ (after ++ (tail ++ '}' :: rest))))) := by
        rw [skipSpace_append blank, quotedEq, List.cons_append, skipSpace_solid rfl]
      simp only [List.append_assoc, List.cons_append]
      rw [parseMembers, start, key, Option.bind_some]
      simp only [skipSpace_append blankPad, skipSpace_solid (show isSpace ':' = false from rfl),
        skipSpace_text textual blankGap, first, Option.bind_some, skipSpace_append blank']
      rcases ends with ⟨rfl, rfl⟩ | ⟨nonempty, more, later, rfl⟩
      · rw [List.nil_append, skipSpace_solid rfl]
        rfl
      · simp only [List.length_cons] at enough
        have siblings : parseMembers fuel (more ++ '}' :: rest) = some (others, rest) :=
          parseMembers_text others nonempty later rest (by omega)
        rw [List.cons_append, skipSpace_solid rfl]
        simp only [siblings, Option.map_some]
termination_by structural members
end

/-- The parser reads each text of the grammar as the value it denotes. -/
theorem parse_text {value : Json} {text : String} (written : IsText value text.toList) :
    parse text = some value := by
  have nothing : Bounded [] := fun c more same => by cases same
  have parsed := parseValue_text value written nothing (Nat.lt_succ_self _)
  rw [List.append_nil] at parsed
  have start : skipSpace text.toList = text.toList := by
    obtain ⟨c, rest, same, solid, -⟩ := isText_head written
    rw [same, skipSpace_solid solid]
  rw [parse, start, parsed]
  rfl

end Json

end Auger.General
