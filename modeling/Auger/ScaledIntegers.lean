import Auger.DecimalValues
import Auger.General.JsonNumber

set_option autoImplicit false

/-! Integers in a decimal column, scaled as they are or read from their text. -/

namespace Auger

open General DecimalText

/-- The literal an integer is written as. -/
def integerLiteral (v : Int) : Numeral where
  val :=
    { sign := if v < 0 then .minus else .absent
      whole := ⟨Nat.toDigits 10 v.natAbs, Json.toDigits_digits v.natAbs⟩
      fraction := none
      power := none }
  property := List.append_ne_nil_of_left_ne_nil Nat.toDigits_ne_nil _

theorem integerLiteral_text (v : Int) : toString v = String.ofList (integerLiteral v).1.text := by
  apply String.toList_injective
  rw [String.toList_ofList, Int.toString_eq_repr, Int.repr_eq_if]
  by_cases negative : v < 0
  · have size : (-v).toNat = v.natAbs := by omega
    rw [if_neg (not_le.mpr negative), size, String.toList_append, Nat.toList_repr]
    simp [integerLiteral, Layout.text, Layout.pointText, Layout.powerText, negative, Sign.text]
  · have size : v.toNat = v.natAbs := by omega
    rw [if_pos (not_lt.mp negative), size, Nat.toList_repr]
    simp [integerLiteral, Layout.text, Layout.pointText, Layout.powerText, negative, Sign.text]

theorem integerLiteral_coefficient (v : Int) : (integerLiteral v).1.coefficient = v.natAbs := by
  have digits : (integerLiteral v).1.whole.1 ++ (integerLiteral v).1.places = Nat.toDigits 10 v.natAbs :=
    List.append_nil _
  rw [Layout.coefficient, digits, spelled]
  calc
    _ = Nat.ofDigitChars 10 (Nat.toDigits 10 v.natAbs) 0 := by
      rw [Nat.ofDigitChars_eq_foldl]
      simp only [Nat.mul_comm]
    _ = v.natAbs := Nat.ofDigitChars_ten_toDigits

theorem integerLiteral_sign (v : Int) (n : Nat) :
    (integerLiteral v).1.sign.apply ((v.natAbs * n : Nat) : Int) = v * n := by
  by_cases negative : v < 0
  · have size : (v.natAbs : Int) = -v := by omega
    simp only [integerLiteral, if_pos negative, Sign.apply, Nat.cast_mul, size, neg_mul, neg_neg]
  · have size : (v.natAbs : Int) = v := by omega
    simp only [integerLiteral, if_neg negative, Sign.apply, Nat.cast_mul, size]

theorem least_outside (v : Int64) (scale : Int) : ¬(v.toInt = -2 ^ 127 ∧ scale = 0) := by
  have bound := v.le_toInt
  omega

section
variable {scale : Int} (low : 0 ≤ scale) (high : scale ≤ 38)
include low high

/-- The digits are multiplied by the power of ten and keep their sign, inside the
magnitudes an `i128` has on both sides of zero. -/
theorem parseDecimal_toString (v : Int) :
    parseDecimal (toString v) scale =
      if (v * 10 ^ scale.toNat).natAbs < 2 ^ 127 then some (v * 10 ^ scale.toNat) else none := by
  have still : distance (integerLiteral v).1 scale = scale := by
    rw [distance]
    exact (sub_zero _).trans (add_zero _)
  have near : wrapI32 scale = scale := wrapI32_near (by omega) (by omega)
  have grown : (v * 10 ^ scale.toNat).natAbs = v.natAbs * 10 ^ scale.toNat := by
    rw [Int.natAbs_mul, Int.natAbs_pow]
    rfl
  have accepts : Accepts v.natAbs scale ↔ v.natAbs * 10 ^ scale.toNat < 2 ^ 127 := by
    have wide : v.natAbs ≤ v.natAbs * 10 ^ scale.toNat := Nat.le_mul_of_pos_right _ (Nat.pow_pos (by decide))
    rw [Accepts, near]
    constructor
    · exact fun accepted => accepted.2.2.2
    · exact fun fits => ⟨lt_of_le_of_lt wide fits, by omega, high, fits⟩
  have signed := integerLiteral_sign v (10 ^ scale.toNat)
  have plain : (integerLiteral v).1.exponent = 0 := rfl
  rw [integerLiteral_text, parseDecimal_numeral _ _ (body_layout _) (by rw [plain]; decide), integerLiteral_coefficient, still, near,
    movePoint_right low, signed, grown]
  simp only [accepts, Nat.cast_pow, Nat.cast_ofNat]

theorem scaleInt_product (v : Int) : scaleInt v scale = inI128 (v * 10 ^ scale.toNat) := by
  have same : max scale 0 = scale := max_eq_left low
  rw [scaleInt, same, checkedPow10, if_pos (by omega), Option.bind_some]

/-- Only the least `i128` has no magnitude that fits, and no other integer is scaled to it. -/
theorem scaled_least_iff (v : Int) : v * 10 ^ scale.toNat = -2 ^ 127 ↔ v = -2 ^ 127 ∧ scale = 0 := by
  constructor
  · intro least
    cases places : scale.toNat with
    | zero =>
        rw [places, pow_zero, mul_one] at least
        exact ⟨least, by omega⟩
    | succ n =>
        rw [places, pow_succ, ← mul_assoc] at least
        omega
  · rintro ⟨rfl, rfl⟩
    rfl

theorem scaleInt_parseDecimal_iff (v : Int) :
    scaleInt v scale = parseDecimal (toString v) scale ↔ ¬(v = -2 ^ 127 ∧ scale = 0) := by
  rw [scaleInt_product low high, parseDecimal_toString low high, ← scaled_least_iff low high, inI128]
  generalize v * 10 ^ scale.toNat = product
  by_cases least : product = -2 ^ 127
  · rw [if_pos (by omega), if_neg (by omega)]
    exact iff_of_false (fun same => by cases same) (not_not.mpr least)
  · apply iff_of_true _ least
    by_cases fits : product.natAbs < 2 ^ 127
    · rw [if_pos (by omega), if_pos fits]
    · rw [if_neg (by omega), if_neg fits]

end

/-- A 64-bit integer is scaled as its text is read, also where neither fits. -/
theorem scaleInt_eq_parseDecimal (v : Int64) (scale : Int) (low : 0 ≤ scale) (high : scale ≤ 38) :
    scaleInt v.toInt scale = parseDecimal (toString v.toInt) scale := by
  apply (scaleInt_parseDecimal_iff low high v.toInt).mpr
  exact least_outside v scale

/-- The least 64-bit integer at a scale where it does not fit. -/
theorem scaleInt_eq_parseDecimal_least :
    scaleInt (Int64.ofInt (-2 ^ 63)).toInt 38 = parseDecimal (toString (Int64.ofInt (-2 ^ 63)).toInt) 38 ∧
      scaleInt (Int64.ofInt (-2 ^ 63)).toInt 38 = none :=
  ⟨scaleInt_eq_parseDecimal _ 38 (by decide) (by decide), by decide⟩

end Auger
