import Auger.Convert
import Mathlib

set_option autoImplicit false

/-! The texts a decimal column can hold: a numeral whose digits, before and after the
point is moved, stay inside an `i128`. -/

namespace Auger

namespace DecimalText

variable (source : String)

def body : List Char := trim source.toList

def mantissa : List Char := (body source).takeWhile fun c => c != 'e' && c != 'E'

def exponent : Option Int32 :=
  match (body source).dropWhile fun c => c != 'e' && c != 'E' with
  | [] => some 0
  | _ :: rest => parseI32 rest

def unsigned : List Char := (F64.splitSign (mantissa source)).2

def whole : List Char := (unsigned source).takeWhile (· != '.')

def fraction : List Char := ((unsigned source).dropWhile (· != '.')).drop 1

/-- The number its digits spell without the point. -/
def coefficient : Nat := F64.digitValue (whole source ++ fraction source)

/-- How far the point moves to the right, in wrapping arithmetic. -/
def shift (scale : Int) (exponent : Int32) : Int :=
  (Int32.ofInt scale + exponent - Int32.ofNat (fraction source).length).toInt

/-- A numeral: some text, digits on both sides of the point, an exponent in range, a
coefficient that fits and a point that moves at most 38 places and keeps it fitting. -/
structure Fits (scale : Int) : Prop where
  written : body source ≠ []
  digits : ∀ c ∈ whole source ++ fraction source, c.isDigit = true
  small : coefficient source < 2 ^ 127
  moved : ∃ e, exponent source = some e ∧ -38 ≤ shift source scale e ∧ shift source scale e ≤ 38 ∧
    coefficient source * 10 ^ (shift source scale e).toNat < 2 ^ 127

end DecimalText

theorem utf8ByteSize_ofList_cons (c : Char) (rest : List Char) :
    (String.ofList (c :: rest)).utf8ByteSize = c.utf8Size + (String.ofList rest).utf8ByteSize := by
  have first : String.ofList (c :: rest) = String.singleton c ++ String.ofList rest := by
    rw [← List.singleton_append, String.ofList_append]
    rfl
  rw [first, String.utf8ByteSize_append, String.utf8ByteSize_singleton]

/-- The number spelled by digits that follow those already read. -/
def spelledFrom (read : Nat) (digits : List Char) : Nat :=
  digits.foldl (fun value c => value * 10 + (c.toNat - '0'.toNat)) read

theorem spelledFrom_cons (read : Nat) (c : Char) (rest : List Char) :
    spelledFrom read (c :: rest) = spelledFrom (read * 10 + (c.toNat - '0'.toNat)) rest := by
  simp only [spelledFrom, List.foldl_cons]

theorem le_spelledFrom (read : Nat) (digits : List Char) : read ≤ spelledFrom read digits := by
  induction digits generalizing read with
  | nil => exact le_refl read
  | cons c rest ih =>
      have step : read ≤ read * 10 + (c.toNat - '0'.toNat) := by omega
      rw [spelledFrom_cons]
      exact le_trans step (ih _)

theorem inI128_nat (n : Nat) : inI128 (n : Int) = if n < 2 ^ 127 then some (n : Int) else none := by
  unfold inI128
  by_cases fits : n < 2 ^ 127
  · rw [if_pos fits, if_pos (by omega)]
  · rw [if_neg fits, if_neg (by omega)]

theorem accumulateDigits_eq {digits : List Char} (all : ∀ c ∈ digits, c.isDigit = true) {read : Nat}
    (fits : read < 2 ^ 127) : accumulateDigits digits (read : Int) = inI128 (spelledFrom read digits : Nat) := by
  induction digits generalizing read with
  | nil => rw [accumulateDigits, spelledFrom, List.foldl_nil, inI128_nat, if_pos fits]
  | cons c rest ih =>
      have digit : 48 ≤ c.toNat := by
        have inside := all c (by simp)
        simp only [Char.isDigit, Bool.and_eq_true, decide_eq_true_eq] at inside
        exact inside.1
      have zero : '0'.toNat = 48 := rfl
      have tens : ((read : Int) * 10) = ((read * 10 : Nat) : Int) := by omega
      have next : ((read * 10 : Nat) : Int) + ((c.toNat : Int) - '0'.toNat) =
          ((read * 10 + (c.toNat - '0'.toNat) : Nat) : Int) := by omega
      have grows := le_spelledFrom (read * 10 + (c.toNat - '0'.toNat)) rest
      have later : read * 10 + (c.toNat - '0'.toNat) < 2 ^ 127 →
          accumulateDigits rest ((read * 10 + (c.toNat - '0'.toNat) : Nat) : Int) =
            inI128 (spelledFrom (read * 10 + (c.toNat - '0'.toNat)) rest : Nat) :=
        fun small => ih (fun d member => all d (List.mem_cons_of_mem _ member)) small
      rw [accumulateDigits, tens, inI128_nat (read * 10), spelledFrom_cons]
      by_cases step : read * 10 + (c.toNat - '0'.toNat) < 2 ^ 127
      · rw [if_pos (by omega), Option.bind_some, next, inI128_nat, if_pos step, Option.bind_some, later step]
      · rw [inI128_nat (spelledFrom _ rest), if_neg (fun small => step (lt_of_le_of_lt grows small))]
        split_ifs
        · rw [Option.bind_some, next, inI128_nat, if_neg step, Option.bind_none]
        · rfl

theorem toInt_neg_i32 (v : Int32) : (-v).toInt = if v.toInt = -2 ^ 31 then -2 ^ 31 else -v.toInt := by
  have low := v.le_toInt
  have high := v.toInt_lt
  rw [Int32.toInt_neg]
  split_ifs with least
  · rw [least]
    decide
  · apply Int.bmod_eq_of_le <;> omega

theorem divisor_isSome {v : Int32} (negative : v.toInt < 0) :
    ((toU32 (-v)).bind checkedPow10).isSome = decide (-38 ≤ v.toInt) := by
  rw [toU32, toInt_neg_i32]
  by_cases least : v.toInt = -2 ^ 31
  · rw [if_pos least, if_neg (by decide), Option.bind_none, least]
    rfl
  · rw [if_neg least, if_pos (by omega), Option.bind_some, checkedPow10]
    by_cases near : -38 ≤ v.toInt
    · rw [if_pos (by omega), decide_eq_true near]
      rfl
    · rw [if_neg (by omega), decide_eq_false near]
      rfl

theorem factor_isSome {v : Int32} (n : Nat) (nonneg : 0 ≤ v.toInt) :
    (((toU32 v).bind checkedPow10).bind fun factor => inI128 ((n : Int) * factor)).isSome =
      decide (v.toInt ≤ 38 ∧ n * 10 ^ v.toInt.toNat < 2 ^ 127) := by
  rw [toU32, if_pos nonneg, Option.bind_some, checkedPow10]
  by_cases near : v.toInt ≤ 38
  · have product : (n : Int) * 10 ^ v.toInt.toNat = ((n * 10 ^ v.toInt.toNat : Nat) : Int) := by push_cast; rfl
    rw [if_pos (by omega), Option.bind_some, product, inI128_nat]
    simp only [near, true_and]
    split_ifs with fits
    · rw [decide_eq_true fits]
      rfl
    · rw [decide_eq_false fits]
      rfl
  · rw [if_neg (by omega), decide_eq_false fun both => near both.1]
    rfl

theorem asciiLower_head {text rest : List Char} {c : Char} (lowered : F64.asciiLower text = c :: rest) :
    ∃ d tail, text = d :: tail ∧ (d = c ∨ d.toNat + 32 = c.toNat) := by
  cases text with
  | nil => cases lowered
  | cons d tail =>
      simp only [F64.asciiLower, List.map_cons, List.cons.injEq] at lowered
      refine ⟨d, tail, rfl, ?_⟩
      have head := lowered.1
      split_ifs at head with upper
      · right
        have bound : d.toNat ≤ 90 := upper.2
        have valid : (d.toNat + 32).isValidChar := by
          left
          omega
        rw [← head, Char.toNat_ofNat, if_pos valid]
      · exact .inl head

namespace DecimalText

theorem not_digits {source : String} {d : Char} {tail : List Char} (starts : unsigned source = d :: tail)
    (letter : 58 ≤ d.toNat) : ¬∀ c ∈ whole source ++ fraction source, c.isDigit = true := by
  intro digits
  have notPoint : d ≠ '.' := by
    rintro rfl
    exact absurd letter (by decide)
  have inside : d ∈ whole source ++ fraction source := by
    rw [whole, starts, List.takeWhile_cons_of_pos (by simpa using notPoint)]
    simp
  have digit := digits d inside
  simp only [Char.isDigit, Bool.and_eq_true, decide_eq_true_eq] at digit
  have bound : d.toNat ≤ 57 := digit.2
  omega

theorem not_infinite {source : String} (word : F64.asciiLower (unsigned source) = "infinity".toList ∨
    F64.asciiLower (unsigned source) = "inf".toList) : ¬∀ c ∈ whole source ++ fraction source, c.isDigit = true := by
  obtain ⟨rest, lowered⟩ : ∃ rest, F64.asciiLower (unsigned source) = 'i' :: rest := by
    rcases word with word | word
    · exact ⟨_, word⟩
    · exact ⟨_, word⟩
  obtain ⟨d, tail, starts, case⟩ := asciiLower_head lowered
  apply not_digits starts
  have code : 'i'.toNat = 105 := rfl
  rcases case with rfl | lower
  · decide
  · omega

theorem not_nan {source : String} (word : F64.asciiLower (body source) = "nan".toList) :
    ¬∀ c ∈ whole source ++ fraction source, c.isDigit = true := by
  have lowered : F64.asciiLower (body source) = 'n' :: ['a', 'n'] := word
  obtain ⟨d, tail, starts, case⟩ := asciiLower_head lowered
  have code : 'n'.toNat = 110 := rfl
  have letter : d.toNat = 110 ∨ d.toNat = 78 := by
    rcases case with rfl | lower
    · exact .inl rfl
    · omega
  have other : ∀ c : Char, c.toNat ≠ 110 → c.toNat ≠ 78 → d ≠ c := by
    rintro c one two rfl
    omega
  have kept : (d != 'e' && d != 'E') = true := by
    simp [other 'e' (by decide) (by decide), other 'E' (by decide) (by decide)]
  have first : mantissa source = d :: tail.takeWhile fun c => c != 'e' && c != 'E' := by
    rw [mantissa, starts, List.takeWhile_cons, if_pos kept]
  have unsigned_eq : unsigned source = d :: tail.takeWhile fun c => c != 'e' && c != 'E' := by
    rw [unsigned, first]
    unfold F64.splitSign
    split
    · rename_i same
      exact absurd (List.cons.inj same).1 (other '-' (by decide) (by decide))
    · rename_i same
      exact absurd (List.cons.inj same).1 (other '+' (by decide) (by decide))
    · rfl
  exact not_digits unsigned_eq (by omega)

end DecimalText

/-- The coefficient once the point has moved. -/
def shifted (shift : Int32) (value : Int) : Option Int :=
  if 0 ≤ shift.toInt then ((toU32 shift).bind checkedPow10).bind fun factor => inI128 (value * factor)
  else ((toU32 (-shift)).bind checkedPow10).map fun factor => value.tdiv factor

theorem shifted_isSome (shift : Int32) (n : Nat) (small : n < 2 ^ 127) :
    (shifted shift n).isSome = true ↔
      -38 ≤ shift.toInt ∧ shift.toInt ≤ 38 ∧ n * 10 ^ shift.toInt.toNat < 2 ^ 127 := by
  rw [shifted]
  split_ifs with nonneg
  · rw [factor_isSome n nonneg, decide_eq_true_iff]
    constructor
    · intro both
      exact ⟨by omega, both⟩
    · exact fun all => all.2
  · have still : shift.toInt.toNat = 0 := by omega
    rw [Option.isSome_map, divisor_isSome (by omega), decide_eq_true_iff, still, Nat.pow_zero, Nat.mul_one]
    constructor
    · intro near
      exact ⟨near, by omega, small⟩
    · exact fun all => all.1

section
open DecimalText

/-- The digits of a numeral, read and moved. -/
def scaledNumeral (source : String) (scale : Int) (e : Int32) : Option Int :=
  if F64.asciiLower (unsigned source) == "infinity".toList || F64.asciiLower (unsigned source) == "inf".toList then
    none
  else if !(whole source).all Char.isDigit || !(fraction source).all Char.isDigit then none
  else (accumulateDigits (whole source ++ fraction source) 0).bind fun value =>
    (shifted (Int32.ofInt scale + e - Int32.ofNat (fraction source).length) value).map fun v =>
      if (F64.splitSign (mantissa source)).1 then -v else v

theorem parseDecimal_parts (source : String) (scale : Int) :
    parseDecimal source scale =
      if (body source).isEmpty || F64.asciiLower (body source) == "nan".toList then none
      else (exponent source).bind (scaledNumeral source scale) := by
  have move : ∀ (shift : Int32) (value : Int) (sign : Int → Int),
      (if 0 ≤ shift.toInt then ((toU32 shift).bind fun a => checkedPow10 a).bind fun factor =>
          (inI128 (value * factor)).bind fun v => some (sign v)
        else ((toU32 (-shift)).bind fun a => checkedPow10 a).bind fun factor =>
          (some (value.tdiv factor)).bind fun v => some (sign v)) = (shifted shift value).map sign := by
    intro shift value sign
    rw [shifted]
    split_ifs
    · cases (toU32 shift).bind checkedPow10 with
      | none => rfl
      | some factor =>
          rw [Option.bind_some, Option.bind_some]
          cases inI128 (value * factor) <;> rfl
    · cases (toU32 (-shift)).bind checkedPow10 <;> rfl
  have numeral : scaledNumeral source scale = fun e => scaledNumeral source scale e := rfl
  rw [numeral]
  unfold parseDecimal exponent scaledNumeral
  simp only [← body.eq_1, ← mantissa.eq_1, ← unsigned.eq_1, ← whole.eq_1, ← fraction.eq_1, Option.bind_eq_bind,
    move]
  by_cases refused : ((body source).isEmpty || F64.asciiLower (body source) == "nan".toList) = true
  · rw [if_pos refused, if_pos refused]
  · rw [if_neg refused, if_neg refused]
    cases (body source).dropWhile fun c => c != 'e' && c != 'E' <;> rfl

/-- The part of `Fits` that depends on the exponent read. -/
def MovedBy (source : String) (scale : Int) (e : Int32) : Prop :=
  -38 ≤ shift source scale e ∧ shift source scale e ≤ 38 ∧
    coefficient source * 10 ^ (shift source scale e).toNat < 2 ^ 127

theorem scaledNumeral_isSome {source : String} {scale : Int} {e : Int32}
    (digits : ∀ c ∈ whole source ++ fraction source, c.isDigit = true)
    (word : ¬(F64.asciiLower (unsigned source) == "infinity".toList ||
      F64.asciiLower (unsigned source) == "inf".toList) = true) :
    (scaledNumeral source scale e).isSome = true ↔ coefficient source < 2 ^ 127 ∧ MovedBy source scale e := by
  have all : ¬(!(whole source).all Char.isDigit || !(fraction source).all Char.isDigit) = true := by
    have parts := List.forall_mem_append.mp digits
    simp [List.all_eq_true.mpr parts.1, List.all_eq_true.mpr parts.2]
  have read := accumulateDigits_eq digits (show 0 < 2 ^ 127 by decide)
  rw [scaledNumeral, if_neg word, if_neg all]
  have spelled : spelledFrom 0 (whole source ++ fraction source) = coefficient source := rfl
  rw [spelled, inI128_nat] at read
  rw [show (0 : Int) = ((0 : Nat) : Int) from rfl, read]
  by_cases small : coefficient source < 2 ^ 127
  · rw [if_pos small, Option.bind_some, Option.isSome_map, shifted_isSome _ _ small]
    exact ⟨fun moved => ⟨small, moved⟩, fun both => both.2⟩
  · rw [if_neg small, Option.bind_none]
    exact ⟨fun read => Bool.noConfusion read, fun both => absurd both.1 small⟩

end

theorem parseDecimal_isSome (source : String) (scale : Int) :
    (parseDecimal source scale).isSome = true ↔ DecimalText.Fits source scale := by
  rw [parseDecimal_parts]
  constructor
  · intro read
    split_ifs at read with refused
    · cases read
    · simp only [Bool.or_eq_true, List.isEmpty_iff, beq_iff_eq, not_or] at refused
      obtain ⟨v, parsed⟩ := Option.isSome_iff_exists.mp read
      obtain ⟨e, exponent, value⟩ := Option.bind_eq_some_iff.mp parsed
      have present : (scaledNumeral source scale e).isSome = true := by rw [value]; rfl
      have word : ¬(F64.asciiLower (DecimalText.unsigned source) == "infinity".toList ||
          F64.asciiLower (DecimalText.unsigned source) == "inf".toList) = true := by
        intro word
        rw [scaledNumeral, if_pos word] at value
        cases value
      have each : ∀ c ∈ DecimalText.whole source ++ DecimalText.fraction source, c.isDigit = true := by
        have digits : ¬(!(DecimalText.whole source).all Char.isDigit ||
            !(DecimalText.fraction source).all Char.isDigit) = true := by
          intro digits
          rw [scaledNumeral, if_neg word, if_pos digits] at value
          cases value
        simpa [or_imp, forall_and] using digits
      obtain ⟨small, moved⟩ := (scaledNumeral_isSome each word).mp present
      exact ⟨refused.1, each, small, e, exponent, moved⟩
  · intro fits
    obtain ⟨e, exponent, moved⟩ := fits.moved
    have notNan : ¬((DecimalText.body source).isEmpty ||
        F64.asciiLower (DecimalText.body source) == "nan".toList) = true := by
      simp only [Bool.or_eq_true, List.isEmpty_iff, beq_iff_eq, not_or]
      exact ⟨fits.written, fun word => DecimalText.not_nan word fits.digits⟩
    have notInfinite : ¬(F64.asciiLower (DecimalText.unsigned source) == "infinity".toList ||
        F64.asciiLower (DecimalText.unsigned source) == "inf".toList) = true := by
      simp only [Bool.or_eq_true, beq_iff_eq]
      exact fun word => DecimalText.not_infinite word fits.digits
    rw [if_neg notNan, exponent, Option.bind_some]
    exact (scaledNumeral_isSome fits.digits notInfinite).mpr ⟨fits.small, moved⟩

end Auger
