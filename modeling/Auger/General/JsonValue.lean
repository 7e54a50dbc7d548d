import Auger.General.JsonText
import Auger.General.JsonNumber
import Mathlib.Algebra.Field.Rat

set_option autoImplicit false

/-! What JSON texts denote: numbers by their value, objects whatever their order. -/

namespace Auger.General.Json

def digitsValue (digits : List Char) : Nat := Nat.ofDigitChars 10 digits 0

def exponentValue : List Char → Int
  | [] => 0
  | _ :: '-' :: digits => -(digitsValue digits : Int)
  | _ :: '+' :: digits => digitsValue digits
  | _ :: digits => digitsValue digits

def splitFraction : List Char → List Char × List Char
  | '.' :: rest => (rest.takeWhile Char.isDigit, rest.dropWhile Char.isDigit)
  | rest => ([], rest)

def unsignedValue (text : List Char) : ℚ :=
  let (fraction, exponent) := splitFraction (text.dropWhile Char.isDigit)
  digitsValue (text.takeWhile Char.isDigit ++ fraction) * 10 ^ (exponentValue exponent - fraction.length)

def numberValue : List Char → ℚ
  | '-' :: text => -unsignedValue text
  | text => unsignedValue text

theorem unsignedValue_digits (n : Nat) : unsignedValue (Nat.toDigits 10 n) = n := by
  have taken : (Nat.toDigits 10 n).takeWhile Char.isDigit = Nat.toDigits 10 n :=
    List.takeWhile_eq_self_iff.mpr (toDigits_digits n)
  have left : (Nat.toDigits 10 n).dropWhile Char.isDigit = [] :=
    List.dropWhile_eq_nil_iff.mpr (toDigits_digits n)
  simp [unsignedValue, taken, left, splitFraction, exponentValue, digitsValue]

theorem numberValue_digits (n : Nat) : numberValue (Nat.toDigits 10 n) = n := by
  rw [← unsignedValue_digits n]
  unfold numberValue
  split
  case h_1 text shape =>
    have digit := toDigits_digits n '-' (by rw [shape]; exact List.mem_cons_self)
    cases digit
  case h_2 => rfl

theorem numberValue_int (v : Int) : numberValue (toString v).toList = v := by
  rw [Int.toString_eq_repr, Int.repr_eq_if]
  split_ifs with positive
  · rw [Nat.toList_repr, numberValue_digits]
    exact_mod_cast Int.toNat_of_nonneg positive
  · have size : ((-v).toNat : Int) = -v := Int.toNat_of_nonneg (by omega)
    rw [String.toList_append, Nat.toList_repr]
    change -unsignedValue (Nat.toDigits 10 (-v).toNat) = v
    rw [unsignedValue_digits, neg_eq_iff_eq_neg]
    exact_mod_cast size

/-- The two denote one value: numbers are compared as numbers, members by name. -/
inductive Same : Json → Json → Prop
  | null : Same .null .null
  | bool (value : Bool) : Same (.bool value) (.bool value)
  | number {left right : String} (value : numberValue left.toList = numberValue right.toList) :
      Same (.number left) (.number right)
  | string (value : String) : Same (.string value) (.string value)
  | array {left right : List Json} (length : left.length = right.length)
      (each : ∀ (i : Nat) x y, left[i]? = some x → right[i]? = some y → Same x y) : Same (.array left) (.array right)
  | object {left right : List (String × Json)}
      (names : ∀ name, left.lookup name = none ↔ right.lookup name = none)
      (each : ∀ name x y, left.lookup name = some x → right.lookup name = some y → Same x y) :
      Same (.object left) (.object right)

theorem Same.numbers {left right : String} (same : Same (.number left) (.number right)) :
    numberValue left.toList = numberValue right.toList := by
  cases same with
  | number value => exact value

mutual
/-- `to_string`: no space between the tokens. -/
def compact : Json → List Char
  | .null => "null".toList
  | .bool value => (if value then "true" else "false").toList
  | .number lexeme => lexeme.toList
  | .string value => quote escapeShort value
  | .array items => '[' :: (joined (compactItems items) ++ [']'])
  | .object members => '{' :: (joined (compactMembers members) ++ ['}'])
def compactItems : List Json → List (List Char)
  | [] => []
  | item :: rest => item.compact :: compactItems rest
def compactMembers : List (String × Json) → List (List Char)
  | [] => []
  | (name, value) :: rest => (quote escapeShort name ++ ':' :: value.compact) :: compactMembers rest
end

mutual
theorem compact_isText (value : Json) (valid : value.numbersValid = true) : IsText value value.compact := by
  cases value with
  | null => simp [IsText, compact]
  | bool b => simp [IsText, compact]
  | number lexeme =>
      simp only [numbersValid] at valid
      simp [IsText, compact, valid]
  | string s =>
      simp only [IsText, compact]
      exact quote_text escapeShort_text s
  | array items =>
      simp only [numbersValid] at valid
      simp only [compact]
      exact isText_array (compactItems_text items valid)
  | object members =>
      simp only [numbersValid] at valid
      simp only [compact]
      exact isText_object (compactMembers_text members valid)
theorem compactItems_text (items : List Json) (valid : itemsValid items = true) :
    List.Forall₂ IsText items (compactItems items) := by
  cases items with
  | nil => exact .nil
  | cons item rest =>
      simp only [itemsValid, Bool.and_eq_true] at valid
      exact .cons (compact_isText item valid.1) (compactItems_text rest valid.2)
theorem compactMembers_text (members : List (String × Json)) (valid : membersValid members = true) :
    List.Forall₂ MemberText members (compactMembers members) := by
  cases members with
  | nil => exact .nil
  | cons member rest =>
      rcases member with ⟨name, value⟩
      simp only [membersValid, Bool.and_eq_true] at valid
      exact .cons ⟨_, _, quote_text escapeShort_text name, compact_isText value valid.1, rfl⟩
        (compactMembers_text rest valid.2)
end

theorem parse_compact {value : Json} (valid : value.numbersValid = true) :
    parse (String.ofList value.compact) = some value := by
  apply parse_text
  rw [String.toList_ofList]
  exact compact_isText value valid

end Auger.General.Json
