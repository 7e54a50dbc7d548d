import Auger.WireForms

set_option autoImplicit false

/-! The number a decimal cell hands to the encoder, in the encoder's own decimal or as text. -/

namespace Auger

open General

/-- The number a value handed to the encoder denotes. -/
inductive Handed.Denotes : Handed → ℚ → Prop
  | numeric (mantissa : Int) (scale : Nat) : Denotes (.numeric mantissa scale) (decimalValue scale mantissa)
  | text (negative : Bool) {whole fraction : List Char} (isNumeral : IsNumeral whole fraction) :
      Denotes (.text (String.ofList (numeral negative whole fraction))) (numeralValue negative whole fraction)

def InI128 (v : Int) : Prop := -2 ^ 127 ≤ v ∧ v < 2 ^ 127

/-- `value_as_string` writes the whole number of a cell. -/
def DecimalExact (format : Formatters) (precision : Nat) (scale : Int8) (raw : Int) : Prop :=
  ∃ whole fraction, IsNumeral whole fraction ∧
    format.decimal precision scale.toInt raw = String.ofList (numeral (raw < 0) whole fraction) ∧
    numeralValue (raw < 0) whole fraction = decimalValue scale.toInt raw

theorem denotes_numeric_iff {mantissa : Int} {scale : Nat} {value : ℚ} :
    (Handed.numeric mantissa scale).Denotes value ↔ decimalValue scale mantissa = value := by
  constructor
  · intro denotes
    cases denotes with
    | numeric => rfl
  · rintro rfl
    exact .numeric mantissa scale

theorem DecimalExact.denotes {format : Formatters} {precision : Nat} {scale : Int8} {raw : Int}
    (exact : DecimalExact format precision scale raw) :
    (Handed.text (format.decimal precision scale.toInt raw)).Denotes (decimalValue scale.toInt raw) := by
  obtain ⟨whole, fraction, isNumeral, written, value⟩ := exact
  rw [written, ← value]
  exact .text _ isNumeral

theorem DecimalsInPrecision.exact {format : Formatters} (decimals : DecimalsInPrecision format) {precision : Nat}
    {scale : Int8} {raw : Int} (valid : (OutputType.decimal128 precision scale.toInt).Valid)
    (within : raw.natAbs < 10 ^ precision) : DecimalExact format precision scale raw := by
  obtain ⟨whole, fraction, isNumeral, written, exact_iff⟩ := decimals precision scale.toInt raw valid
  exact ⟨whole, fraction, isNumeral, written, exact_iff.mpr within⟩

theorem clamped_iff (scale raw : Int) : decimalValue scale.toNat raw = decimalValue scale raw ↔ 0 ≤ scale ∨ raw = 0 := by
  rcases lt_or_ge scale 0 with negative | nonneg
  · rw [decimalValue_negative negative]
    exact ⟨.inr, fun kept => kept.resolve_left (not_le.mpr negative)⟩
  · exact iff_of_true (decimalValue_nonneg nonneg) (.inl nonneg)

section
variable (format : OutputFormatters) (precision : Nat) (scale : Int8) {values : List (Option Int)} {row : Nat} {raw : Int}
  (held : values[row]?.join = some raw)
include held

theorem encodeValue_fits (fits : fitsDecimal raw scale.toInt.toNat = true) :
    encodeValue format (.decimal128 precision scale.toInt values) row = .numeric raw scale.toInt.toNat := by
  rw [encodeValue, held, Handed.ofOption, if_pos fits]

theorem encodeValue_wide (wide : ¬fitsDecimal raw scale.toInt.toNat = true) :
    encodeValue format (.decimal128 precision scale.toInt values) row =
      .text (format.decimal precision scale.toInt raw) := by
  rw [encodeValue, held, Handed.ofOption, if_neg wide]

theorem outputToJson_exact (exact : DecimalExact format.toFormatters precision scale raw) :
    (Handed.text (String.ofList (outputToJson format (.decimal128 precision scale.toInt values) row))).Denotes
      (decimalValue scale.toInt raw) := by
  rw [outputToJson, held, orNull, String.ofList_toList]
  exact exact.denotes

end

/-- The number handed over is the cell's exactly when its scale is not negative, when it is
zero, or when its digits do not fit 96 bits and go out as text. -/
theorem decimal_exact_iff (format : OutputFormatters) (precision : Nat) (scale : Int8) (values : List (Option Int))
    (row : Nat) (raw : Int) (held : values[row]?.join = some raw)
    (exact : DecimalExact format.toFormatters precision scale raw) :
    (encodeValue format (.decimal128 precision scale.toInt values) row).Denotes (decimalValue scale.toInt raw) ↔
      0 ≤ scale.toInt ∨ raw = 0 ∨ 2 ^ 96 ≤ raw.natAbs := by
  by_cases fits : fitsDecimal raw scale.toInt.toNat = true
  · have narrow : raw.natAbs < 2 ^ 96 := of_decide_eq_true (Bool.and_eq_true_iff.mp fits).1
    rw [encodeValue_fits format precision scale held fits, denotes_numeric_iff, clamped_iff]
    simp only [not_le.mpr narrow, or_false]
  · rw [encodeValue_wide format precision scale held fits]
    apply iff_of_true exact.denotes
    by_cases nonneg : 0 ≤ scale.toInt
    · exact .inl nonneg
    · have still : scale.toInt.toNat = 0 := by omega
      simp only [fitsDecimal, still, Nat.zero_le, decide_true, Bool.and_true, decide_eq_true_eq, not_lt] at fits
      exact .inr (.inr fits)

/-- `123.45`, as a price is stored. -/
theorem decimal_exact_iff_price :
    (encodeValue plainFormatters (.decimal128 38 (2 : Int8).toInt [some 12345]) 0).Denotes
      (decimalValue (2 : Int8).toInt 12345) := by
  have exact : DecimalExact plainFormatters.toFormatters 38 2 12345 :=
    (arrow_decimalsInPrecision _).exact ⟨by decide, by decide, by decide, by decide⟩ (by decide)
  exact (decimal_exact_iff plainFormatters 38 2 [some 12345] 0 12345 rfl exact).mpr (.inl (by decide))

/-- Five hundreds, of scale `-2`, go out as five. -/
theorem decimal_clamped : ¬∀ (format : OutputFormatters) (precision : Nat) (scale : Int8) (values : List (Option Int))
    (row : Nat) (raw : Int), values[row]?.join = some raw → InI128 raw →
    DecimalExact format.toFormatters precision scale raw →
      (encodeValue format (.decimal128 precision scale.toInt values) row).Denotes (decimalValue scale.toInt raw) := by
  intro all
  have exact : DecimalExact plainFormatters.toFormatters 5 (-2) 5 :=
    (arrow_decimalsInPrecision _).exact ⟨by decide, by decide, by decide, by decide⟩ (by decide)
  have denotes := all plainFormatters 5 (-2) [some 5] 0 5 rfl ⟨by decide, by decide⟩ exact
  rw [encodeValue_fits plainFormatters 5 (-2) rfl (by decide), denotes_numeric_iff, clamped_iff] at denotes
  exact absurd denotes (by decide)

end Auger
