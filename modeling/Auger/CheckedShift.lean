import Auger.DecimalValues

set_option autoImplicit false

/-! `parse_decimal` as a checked build runs it, where overflow of its exponent arithmetic panics. -/

namespace Auger

open General DecimalText

def InI32 (v : Int) : Prop := -2 ^ 31 ≤ v ∧ v < 2 ^ 31

instance (v : Int) : Decidable (InI32 v) := inferInstanceAs (Decidable (_ ∧ _))

/-- An `i32` result, or the panic. -/
def checkedI32 (v : Int) (panic : String) : Except String Int32 :=
  if InI32 v then .ok (Int32.ofInt v) else .error panic

/-- The end of `parse_decimal`, after the digits were read: the shift and its application. -/
def moveChecked (scale : Int8) (exponent : Int32) (fracPart : List Char) (value : Int) :
    Except String (Option Int) := do
  let sum ← checkedI32 (scale.toInt + exponent.toInt) "attempt to add with overflow"
  let shift ← checkedI32 (sum.toInt - (Int32.ofNat fracPart.length).toInt) "attempt to subtract with overflow"
  if 0 ≤ shift.toInt then
    .ok (((toU32 shift).bind checkedPow10).bind fun factor => inI128 (value * factor))
  else do
    let opposite ← checkedI32 (-shift.toInt) "attempt to negate with overflow"
    .ok (((toU32 opposite).bind checkedPow10).map fun factor => value.tdiv factor)

/-- `parse_decimal` with checked arithmetic. -/
def parseDecimalChecked (source : String) (scale : Int8) : Except String (Option Int) :=
  let text := trim source.toList
  if text.isEmpty || F64.asciiLower text == "nan".toList then .ok none
  else
    let mantissa := text.takeWhile fun c => c != 'e' && c != 'E'
    let exponent := match text.dropWhile fun c => c != 'e' && c != 'E' with
      | [] => some 0
      | _ :: rest => parseI32 rest
    match exponent with
    | none => .ok none
    | some exponent =>
      let (negative, digits) := F64.splitSign mantissa
      if F64.asciiLower digits == "infinity".toList || F64.asciiLower digits == "inf".toList then .ok none
      else
        let intPart := digits.takeWhile (· != '.')
        let fracPart := (digits.dropWhile (· != '.')).drop 1
        if !intPart.all Char.isDigit || !fracPart.all Char.isDigit then .ok none
        else
          match accumulateDigits (intPart ++ fracPart) 0 with
          | none => .ok none
          | some value =>
            (moveChecked scale exponent fracPart value).map fun moved =>
              moved.map fun v => if negative then -v else v

/-- A text whose digits and exponent were read, so that its point is moved. -/
structure Moves (source : String) (e : Int32) : Prop where
  written : body source ≠ []
  digits : ∀ c ∈ whole source ++ fraction source, c.isDigit = true
  small : coefficient source < 2 ^ 127
  read : exponent source = some e

/-- The sum, the difference or its negation leaves the range of an `i32`. -/
def ShiftOverflows (source : String) (scale : Int8) (e : Int32) : Prop :=
  2 ^ 31 ≤ scale.toInt + e.toInt ∨ scale.toInt + e.toInt - (fraction source).length ≤ -2 ^ 31

theorem checkedI32_ok {v : Int} (inside : InI32 v) (panic : String) :
    checkedI32 v panic = .ok (Int32.ofInt v) := if_pos inside

theorem toInt_inI32 {v : Int} (inside : InI32 v) : (Int32.ofInt v).toInt = v := by
  rw [Int32.toInt_ofInt]
  exact wrapI32_near inside.1 inside.2

theorem moveChecked_ok {source : String} {scale : Int8} {e : Int32} (short : (fraction source).length < 2 ^ 31)
    (fits : ¬ShiftOverflows source scale e) (value : Int) :
    moveChecked scale e (fraction source) value =
      .ok (shifted (Int32.ofInt scale.toInt + e - Int32.ofNat (fraction source).length) value) := by
  obtain ⟨below, above⟩ := not_or.mp fits
  have sum : InI32 (scale.toInt + e.toInt) := ⟨by omega, by omega⟩
  have len : (Int32.ofNat (fraction source).length).toInt = (fraction source).length := Int32.toInt_ofNat_of_lt short
  have difference : InI32 (scale.toInt + e.toInt - (fraction source).length) := ⟨by omega, by omega⟩
  have same : Int32.ofInt scale.toInt + e - Int32.ofNat (fraction source).length =
      Int32.ofInt (scale.toInt + e.toInt - (fraction source).length) := by
    rw [Int32.ofInt_sub, Int32.ofInt_add, Int32.ofInt_toInt, Int32.ofInt_eq_ofNat]
  simp only [moveChecked, checkedI32_ok sum, bind, Except.bind, toInt_inI32 sum, len, checkedI32_ok difference,
    toInt_inI32 difference, same, shifted]
  split_ifs with right
  · rfl
  · have opposite : InI32 (-(scale.toInt + e.toInt - (fraction source).length)) := ⟨by omega, by omega⟩
    rw [checkedI32_ok opposite, Int32.ofInt_neg]

theorem checkedI32_panics {v : Int} (outside : ¬InI32 v) (panic : String) :
    checkedI32 v panic = .error panic := if_neg outside

theorem moveChecked_panics {source : String} {scale : Int8} {e : Int32} (short : (fraction source).length < 2 ^ 31)
    (overflows : ShiftOverflows source scale e) (value : Int) :
    ∃ panic, moveChecked scale e (fraction source) value = .error panic := by
  have len : (Int32.ofNat (fraction source).length).toInt = (fraction source).length := Int32.toInt_ofNat_of_lt short
  rw [ShiftOverflows] at overflows
  by_cases sum : InI32 (scale.toInt + e.toInt)
  · have low : scale.toInt + e.toInt - (fraction source).length ≤ -2 ^ 31 := by
      apply overflows.resolve_left
      have above := sum.2
      omega
    by_cases difference : InI32 (scale.toInt + e.toInt - (fraction source).length)
    · have least : scale.toInt + e.toInt - (fraction source).length = -2 ^ 31 := le_antisymm low difference.1
      rw [least] at difference
      have negative : ¬(0 : Int) ≤ -2 ^ 31 := by decide
      have opposite : ¬InI32 (-(-2 ^ 31)) := by decide
      refine ⟨"attempt to negate with overflow", ?_⟩
      simp only [moveChecked, checkedI32_ok sum, bind, Except.bind, toInt_inI32 sum, len, least,
        checkedI32_ok difference, toInt_inI32 difference, if_neg negative, checkedI32_panics opposite]
    · refine ⟨"attempt to subtract with overflow", ?_⟩
      simp only [moveChecked, checkedI32_ok sum, bind, Except.bind, toInt_inI32 sum, len,
        checkedI32_panics difference]
  · refine ⟨"attempt to add with overflow", ?_⟩
    simp only [moveChecked, checkedI32_panics sum, bind, Except.bind]

theorem parseDecimalChecked_parts (source : String) (scale : Int8) :
    parseDecimalChecked source scale =
      if (body source).isEmpty || F64.asciiLower (body source) == "nan".toList then .ok none
      else match exponent source with
        | none => .ok none
        | some e =>
          if F64.asciiLower (unsigned source) == "infinity".toList || F64.asciiLower (unsigned source) == "inf".toList then
            .ok none
          else if !(whole source).all Char.isDigit || !(fraction source).all Char.isDigit then .ok none
          else match accumulateDigits (whole source ++ fraction source) 0 with
            | none => .ok none
            | some value => (moveChecked scale e (fraction source) value).map fun moved =>
                moved.map fun v => if (F64.splitSign (mantissa source)).1 then -v else v := by
  rfl

theorem accumulated {source : String} (digits : ∀ c ∈ whole source ++ fraction source, c.isDigit = true) :
    accumulateDigits (whole source ++ fraction source) 0 = inI128 (coefficient source : Nat) :=
  accumulateDigits_eq digits (show 0 < 2 ^ 127 by decide)

section
variable {source : String} {e : Int32} (moves : Moves source e) (scale : Int8)
include moves

theorem Moves.conditions :
    ¬((body source).isEmpty || F64.asciiLower (body source) == "nan".toList) = true ∧
    ¬(F64.asciiLower (unsigned source) == "infinity".toList ||
      F64.asciiLower (unsigned source) == "inf".toList) = true ∧
    ¬(!(whole source).all Char.isDigit || !(fraction source).all Char.isDigit) = true ∧
    accumulateDigits (whole source ++ fraction source) 0 = some (coefficient source : Int) := by
  refine ⟨?_, ?_, ?_, ?_⟩
  · simp only [Bool.or_eq_true, List.isEmpty_iff, beq_iff_eq, not_or]
    exact ⟨moves.written, fun word => not_nan word moves.digits⟩
  · simp only [Bool.or_eq_true, beq_iff_eq]
    exact fun word => not_infinite word moves.digits
  · have parts := List.forall_mem_append.mp moves.digits
    simp [List.all_eq_true.mpr parts.1, List.all_eq_true.mpr parts.2]
  · rw [accumulated moves.digits, inI128_nat, if_pos moves.small]

theorem Moves.parsed : parseDecimal source scale.toInt =
    (shifted (Int32.ofInt scale.toInt + e - Int32.ofNat (fraction source).length) (coefficient source)).map fun v =>
      if (F64.splitSign (mantissa source)).1 then -v else v := by
  obtain ⟨named, word, digits, value⟩ := moves.conditions
  rw [parseDecimal_parts, if_neg named, moves.read, Option.bind_some, scaledNumeral, if_neg word, if_neg digits, value,
    Option.bind_some]

theorem Moves.checked : parseDecimalChecked source scale =
    (moveChecked scale e (fraction source) (coefficient source)).map fun moved =>
      moved.map fun v => if (F64.splitSign (mantissa source)).1 then -v else v := by
  obtain ⟨named, word, digits, value⟩ := moves.conditions
  rw [parseDecimalChecked_parts, if_neg named, moves.read]
  simp only [if_neg word, if_neg digits, value]

end

theorem unmoved {source : String} (still : ∀ e, ¬Moves source e) (scale : Int8) :
    parseDecimalChecked source scale = .ok none ∧ parseDecimal source scale.toInt = none := by
  constructor
  · rw [parseDecimalChecked_parts]
    by_cases named : ((body source).isEmpty || F64.asciiLower (body source) == "nan".toList) = true
    · rw [if_pos named]
    · rw [if_neg named]
      simp only [Bool.or_eq_true, List.isEmpty_iff, beq_iff_eq, not_or] at named
      cases read : exponent source with
      | none => rfl
      | some e =>
          by_cases word : (F64.asciiLower (unsigned source) == "infinity".toList ||
              F64.asciiLower (unsigned source) == "inf".toList) = true
          · simp only [if_pos word]
          · by_cases other : (!(whole source).all Char.isDigit || !(fraction source).all Char.isDigit) = true
            · simp only [if_neg word, if_pos other]
            · have digits : ∀ c ∈ whole source ++ fraction source, c.isDigit = true := by
                simpa [or_imp, forall_and] using other
              have large : ¬coefficient source < 2 ^ 127 := fun small => still e ⟨named.1, digits, small, read⟩
              simp only [if_neg word, if_neg other, accumulated digits, inI128_nat, if_neg large]
  · apply Option.not_isSome_iff_eq_none.mp
    intro some
    have fits := (parseDecimal_isSome source scale.toInt).mp some
    obtain ⟨e, read, -⟩ := fits.moved
    exact still e ⟨fits.written, fits.digits, fits.small, read⟩

theorem length_le_bytes (text : List Char) : text.length ≤ (String.ofList text).utf8ByteSize := by
  induction text with
  | nil => exact Nat.zero_le _
  | cons c rest ih =>
      have wide := Char.utf8Size_pos c
      rw [utf8ByteSize_ofList_cons, List.length_cons]
      omega

theorem fraction_length (source : String) : (fraction source).length ≤ source.utf8ByteSize := by
  have trimmed : (body source).length ≤ source.toList.length := by
    rw [body, trim, List.length_reverse]
    calc
      _ ≤ (source.toList.dropWhile isRustWhitespace).reverse.length := (List.dropWhile_sublist _).length_le
      _ = (source.toList.dropWhile isRustWhitespace).length := List.length_reverse
      _ ≤ _ := (List.dropWhile_sublist _).length_le
  have split : (unsigned source).length ≤ (mantissa source).length := by
    obtain ⟨sign, same⟩ := splitSign_writes (mantissa source)
    rw [unsigned, ← congrArg List.length same, List.length_append]
    exact Nat.le_add_left _ _
  calc
    (fraction source).length ≤ ((unsigned source).dropWhile (· != '.')).length := (List.drop_sublist _ _).length_le
    _ ≤ (unsigned source).length := (List.dropWhile_sublist _).length_le
    _ ≤ (mantissa source).length := split
    _ ≤ (body source).length := (List.takeWhile_sublist _).length_le
    _ ≤ source.toList.length := trimmed
    _ ≤ source.utf8ByteSize := by
        rw [← String.ofList_toList (s := source), String.toList_ofList]
        exact length_le_bytes source.toList

/-- A text of at most `2 ^ 31 - 1` bytes is read without a panic, as the wrapping build reads it,
unless it gets as far as the shift and the shift overflows. -/
theorem parseDecimalChecked_iff (source : String) (scale : Int8) (short : source.utf8ByteSize ≤ 2 ^ 31 - 1) :
    parseDecimalChecked source scale = .ok (parseDecimal source scale.toInt) ↔
      ¬∃ e, Moves source e ∧ ShiftOverflows source scale e := by
  have length := fraction_length source
  have small : (fraction source).length < 2 ^ 31 := by omega
  by_cases moving : ∃ e, Moves source e
  · obtain ⟨e, moves⟩ := moving
    have only : (∃ other, Moves source other ∧ ShiftOverflows source scale other) ↔ ShiftOverflows source scale e := by
      constructor
      · rintro ⟨other, again, overflows⟩
        have same := again.read
        rw [moves.read] at same
        cases same
        exact overflows
      · exact fun overflows => ⟨e, moves, overflows⟩
    rw [only, moves.checked, moves.parsed]
    by_cases overflows : ShiftOverflows source scale e
    · obtain ⟨panic, panics⟩ := moveChecked_panics small overflows (coefficient source)
      rw [panics]
      exact iff_of_false (fun same => by cases same) (not_not.mpr overflows)
    · rw [moveChecked_ok small overflows]
      exact iff_of_true rfl overflows
  · have still : ∀ e, ¬Moves source e := fun e moves => moving ⟨e, moves⟩
    obtain ⟨checked, parsed⟩ := unmoved still scale
    rw [checked, parsed]
    exact iff_of_true rfl fun ⟨e, moves, _⟩ => still e moves

theorem parseDecimalChecked_iff_price : parseDecimalChecked "-12.345e1" 10 = .ok (parseDecimal "-12.345e1" 10) := by
  refine (parseDecimalChecked_iff "-12.345e1" 10 (by decide)).mpr ?_
  rintro ⟨e, moves, overflows⟩
  have read : exponent "-12.345e1" = some 1 := by decide
  rw [moves.read] at read
  rw [Option.some.inj read, ShiftOverflows] at overflows
  revert overflows
  decide

theorem parseDecimalChecked_panics : ¬∀ (source : String) (scale : Int8), source.utf8ByteSize ≤ 2 ^ 31 - 1 →
    parseDecimalChecked source scale = .ok (parseDecimal source scale.toInt) := by
  intro holds
  have same := holds "1e2147483647" 10 (by decide)
  have panics : parseDecimalChecked "1e2147483647" 10 = .error "attempt to add with overflow" := by rfl
  rw [panics] at same
  cases same

end Auger
