import Auger.General.Json
import Mathlib.Data.List.Forall2

set_option autoImplicit false

/-! Writing JSON texts. -/

namespace Auger.General.Json

/-- A string, each character written by `piece`. -/
def quote (piece : Char → List Char) (value : String) : List Char :=
  '"' :: (value.toList.flatMap piece ++ ['"'])

theorem quote_text {piece : Char → List Char} (faithful : ∀ c, CharText c (piece c)) (value : String) :
    StringText value (quote piece value) := by
  refine ⟨_, ?_, rfl⟩
  induction value.toList with
  | nil => exact .nil
  | cons c rest ih => exact .cons (faithful c) ih

def hexDigit (n : Nat) : Char := "0123456789abcdef".toList.getD n '0'

def unicodeEscape (n : Nat) : List Char :=
  ['\\', 'u', hexDigit (n / 4096 % 16), hexDigit (n / 256 % 16), hexDigit (n / 16 % 16), hexDigit (n % 16)]

theorem hexValue_hexDigit : ∀ n < 16, hexValue (hexDigit n) = some n := by
  decide

theorem unicodeEscape_text {c : Char} (control : c.toNat < 0x20) : CharText c (unicodeEscape c.toNat) := by
  have digits : codeUnit (hexDigit (c.toNat / 4096 % 16)) (hexDigit (c.toNat / 256 % 16))
      (hexDigit (c.toNat / 16 % 16)) (hexDigit (c.toNat % 16)) = some c.toNat := by
    have third : c.toNat / 16 % 16 < 16 := Nat.mod_lt _ (by decide)
    have fourth : c.toNat % 16 < 16 := Nat.mod_lt _ (by decide)
    have first : c.toNat / 4096 % 16 = 0 := by omega
    have second : c.toNat / 256 % 16 = 0 := by omega
    rw [first, second, codeUnit, hexValue_hexDigit 0 (by decide), hexValue_hexDigit _ third,
      hexValue_hexDigit _ fourth]
    simp only [Option.bind_eq_bind, Option.bind_some, Option.some.injEq]
    omega
  have text := CharText.unicode digits (.inl (by omega))
  rwa [Char.ofNat_toNat] at text

def joined : List (List Char) → List Char
  | [] => []
  | [part] => part
  | part :: rest => part ++ ',' :: joined rest

theorem joined_cons (part : List Char) {rest : List (List Char)} (more : rest ≠ []) :
    joined (part :: rest) = part ++ ',' :: joined rest := by
  cases rest with
  | nil => exact absurd rfl more
  | cons next others => rfl

theorem spaces_nil : Spaces [] := fun c inside => by cases inside

theorem itemsText_joined {items : List Json} {parts : List (List Char)}
    (each : List.Forall₂ IsText items parts) : ItemsText items (joined parts) := by
  induction each with
  | nil => exact spaces_nil
  | @cons item part items parts first later ih =>
      simp only [ItemsText]
      cases later with
      | nil => exact ⟨[], part, [], [], spaces_nil, first, spaces_nil, by simp [joined], .inl ⟨rfl, rfl⟩⟩
      | cons second others =>
          refine ⟨[], part, [], _, spaces_nil, first, spaces_nil, ?_, .inr ⟨by simp, _, ih, rfl⟩⟩
          rw [joined_cons part (by simp), List.nil_append, List.nil_append]

theorem isText_array {items : List Json} {parts : List (List Char)} (each : List.Forall₂ IsText items parts) :
    IsText (.array items) ('[' :: (joined parts ++ [']'])) := by
  simp only [IsText]
  exact ⟨_, itemsText_joined each, rfl⟩

def MemberText (member : String × Json) (part : List Char) : Prop :=
  ∃ quoted text, StringText member.1 quoted ∧ IsText member.2 text ∧ part = quoted ++ ':' :: text

theorem membersText_joined {members : List (String × Json)} {parts : List (List Char)}
    (each : List.Forall₂ MemberText members parts) : MembersText members (joined parts) := by
  induction each with
  | nil => exact spaces_nil
  | @cons member part members parts first later ih =>
      rcases member with ⟨name, value⟩
      obtain ⟨quoted, text, named, textual, rfl⟩ := first
      simp only [MembersText]
      cases later with
      | nil =>
          exact ⟨[], quoted, [], [], text, [], [], spaces_nil, named, spaces_nil, spaces_nil, textual, spaces_nil,
            by simp [joined], .inl ⟨rfl, rfl⟩⟩
      | cons second others =>
          refine ⟨[], quoted, [], [], text, [], _, spaces_nil, named, spaces_nil, spaces_nil, textual, spaces_nil,
            ?_, .inr ⟨by simp, _, ih, rfl⟩⟩
          rw [joined_cons _ (by simp)]
          simp

theorem isText_object {members : List (String × Json)} {parts : List (List Char)}
    (each : List.Forall₂ MemberText members parts) :
    IsText (.object members) ('{' :: (joined parts ++ ['}'])) := by
  simp only [IsText]
  exact ⟨_, membersText_joined each, rfl⟩

/-- The escapes of an indenting writer: short ones where there are any. -/
def escapeShort (c : Char) : List Char :=
  if c = '"' then ['\\', '"']
  else if c = '\\' then ['\\', '\\']
  else if c = '\n' then ['\\', 'n']
  else if c = '\r' then ['\\', 'r']
  else if c = '\t' then ['\\', 't']
  else if c = '\x08' then ['\\', 'b']
  else if c = '\x0c' then ['\\', 'f']
  else if c.toNat < 0x20 then unicodeEscape c.toNat
  else [c]

theorem escapeShort_text (c : Char) : CharText c (escapeShort c) := by
  unfold escapeShort
  split_ifs with isQuote isBackslash isNewline isReturn isTab isBackspace isFeed control
  · subst isQuote
    exact .short rfl
  · subst isBackslash
    exact .short rfl
  · subst isNewline
    exact .short rfl
  · subst isReturn
    exact .short rfl
  · subst isTab
    exact .short rfl
  · subst isBackspace
    exact .short rfl
  · subst isFeed
    exact .short rfl
  · exact unicodeEscape_text control
  · refine .plain ?_
    simp [isUnescaped, isQuote, isBackslash, Nat.not_lt.mp control]

def indent (level : Nat) : List Char := '\n' :: List.replicate (2 * level) ' '

mutual
/-- `to_string_pretty`: one item or member a line, two spaces a level. -/
def pretty (level : Nat) : Json → List Char
  | .null => "null".toList
  | .bool value => (if value then "true" else "false").toList
  | .number lexeme => lexeme.toList
  | .string value => quote escapeShort value
  | .array items => if items.isEmpty then ['[', ']'] else '[' :: (prettyItems level items ++ [']'])
  | .object members => if members.isEmpty then ['{', '}'] else '{' :: (prettyMembers level members ++ ['}'])
def prettyItems (level : Nat) : List Json → List Char
  | [] => []
  | item :: rest =>
      indent (level + 1) ++ (pretty (level + 1) item ++
        if rest.isEmpty then indent level else ',' :: prettyItems level rest)
def prettyMembers (level : Nat) : List (String × Json) → List Char
  | [] => []
  | (name, value) :: rest =>
      indent (level + 1) ++ (quote escapeShort name ++ ':' :: ' ' :: (pretty (level + 1) value ++
        if rest.isEmpty then indent level else ',' :: prettyMembers level rest))
end

mutual
/-- Every number is one. -/
def numbersValid : Json → Bool
  | .number lexeme => isNumber lexeme.toList
  | .array items => itemsValid items
  | .object members => membersValid members
  | _ => true
def itemsValid : List Json → Bool
  | [] => true
  | item :: rest => item.numbersValid && itemsValid rest
def membersValid : List (String × Json) → Bool
  | [] => true
  | (_, value) :: rest => value.numbersValid && membersValid rest
end

theorem spaces_indent (level : Nat) : Spaces (indent level) := by
  intro c inside
  rcases List.mem_cons.mp inside with rfl | space
  · rfl
  · rw [List.eq_of_mem_replicate space]
    rfl

mutual
theorem pretty_isText (value : Json) (level : Nat) (valid : value.numbersValid = true) :
    IsText value (pretty level value) := by
  cases value with
  | null => simp [IsText, pretty]
  | bool b => simp [IsText, pretty]
  | number lexeme =>
      simp only [numbersValid] at valid
      simp [IsText, pretty, valid]
  | string s =>
      simp only [IsText, pretty]
      exact quote_text escapeShort_text s
  | array items =>
      simp only [numbersValid] at valid
      cases items with
      | nil =>
          simp only [IsText, pretty]
          exact ⟨[], spaces_nil, rfl⟩
      | cons item rest =>
          simp only [IsText, pretty]
          exact ⟨_, prettyItems_text (item :: rest) level (by simp) valid, rfl⟩
  | object members =>
      simp only [numbersValid] at valid
      cases members with
      | nil =>
          simp only [IsText, pretty]
          exact ⟨[], spaces_nil, rfl⟩
      | cons member rest =>
          simp only [IsText, pretty]
          exact ⟨_, prettyMembers_text (member :: rest) level (by simp) valid, rfl⟩
termination_by structural value
theorem prettyItems_text (items : List Json) (level : Nat) (present : items ≠ [])
    (valid : itemsValid items = true) : ItemsText items (prettyItems level items) := by
  cases items with
  | nil => exact absurd rfl present
  | cons item rest =>
      simp only [itemsValid, Bool.and_eq_true] at valid
      have first := pretty_isText item (level + 1) valid.1
      simp only [ItemsText, prettyItems]
      cases rest with
      | nil =>
          exact ⟨indent (level + 1), _, indent level, [], spaces_indent _, first, spaces_indent _, by simp, .inl ⟨rfl, rfl⟩⟩
      | cons next others =>
          have later := prettyItems_text (next :: others) level (by simp) valid.2
          exact ⟨_, _, [], _, spaces_indent _, first, spaces_nil, rfl, .inr ⟨by simp, _, later, rfl⟩⟩
termination_by structural items
theorem prettyMembers_text (members : List (String × Json)) (level : Nat) (present : members ≠ [])
    (valid : membersValid members = true) : MembersText members (prettyMembers level members) := by
  cases members with
  | nil => exact absurd rfl present
  | cons member rest =>
      rcases member with ⟨name, value⟩
      simp only [membersValid, Bool.and_eq_true] at valid
      have first := pretty_isText value (level + 1) valid.1
      have named := quote_text escapeShort_text name
      have gap : Spaces [' '] := by
        intro c inside
        obtain rfl := List.mem_singleton.mp inside
        rfl
      simp only [MembersText, prettyMembers]
      cases rest with
      | nil =>
          exact ⟨indent (level + 1), _, [], [' '], _, indent level, [], spaces_indent _, named, spaces_nil, gap, first,
            spaces_indent _, by simp, .inl ⟨rfl, rfl⟩⟩
      | cons next others =>
          have later := prettyMembers_text (next :: others) level (by simp) valid.2
          exact ⟨_, _, [], [' '], _, [], _, spaces_indent _, named, spaces_nil, gap, first, spaces_nil, rfl,
            .inr ⟨by simp, _, later, rfl⟩⟩
termination_by structural members
end

theorem parse_pretty {value : Json} (valid : value.numbersValid = true) (level : Nat) :
    parse (String.ofList (pretty level value)) = some value := by
  refine parse_text ?_
  rw [String.toList_ofList]
  exact pretty_isText value level valid

mutual
/-- How many arrays and objects stand one inside another. -/
def depth : Json → Nat
  | .array items => 1 + itemsDepth items
  | .object members => 1 + membersDepth members
  | _ => 0
def itemsDepth : List Json → Nat
  | [] => 0
  | item :: rest => max item.depth (itemsDepth rest)
def membersDepth : List (String × Json) → Nat
  | [] => 0
  | (_, value) :: rest => max value.depth (membersDepth rest)
end

theorem itemsDepth_le {items : List Json} {n : Nat} : itemsDepth items ≤ n ↔ ∀ item ∈ items, item.depth ≤ n := by
  induction items with
  | nil => simp [itemsDepth]
  | cons item rest ih => simp only [itemsDepth, max_le_iff, ih, List.forall_mem_cons]

theorem membersDepth_le {members : List (String × Json)} {n : Nat} :
    membersDepth members ≤ n ↔ ∀ member ∈ members, member.2.depth ≤ n := by
  induction members with
  | nil => simp [membersDepth]
  | cons member rest ih =>
      rcases member with ⟨name, value⟩
      simp only [membersDepth, max_le_iff, ih, List.forall_mem_cons]

end Auger.General.Json
