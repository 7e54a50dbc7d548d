import Auger.DecimalValues
import Auger.NullCells

set_option autoImplicit false

/-! The cells of a decimal column against the precision it declares. -/

namespace Auger

open General DecimalText

/-- The text a decimal column reads a value from, where it reads one from text. -/
def decimalSource (text : BsonText) : Bson → Option String
  | .decimal128 d => some (text.decimal d)
  | .double v => some v.display
  | .string s => some s
  | _ => none

/-- A text that is read, and whose digits moved to the column's scale need more than
the column's 38 digits. -/
def WideText (source : String) : Prop :=
  Fits source decimalScale ∧ ∃ e, exponent source = some e ∧ 0 ≤ shift source decimalScale e ∧
    10 ^ decimalPrecision ≤ coefficient source * 10 ^ (shift source decimalScale e).toNat

def Wide (text : BsonText) (value : Bson) : Prop :=
  ∃ source, decimalSource text value = some source ∧ WideText source

theorem natAbs_parsed {source : String} {v : Int} (read : parseDecimal source decimalScale = some v) :
    ∃ e, exponent source = some e ∧ coefficient source < 2 ^ 127 ∧
      v.natAbs = movePoint (coefficient source) (shift source decimalScale e) := by
  have fits := (parseDecimal_isSome source decimalScale).mp (Option.isSome_iff_exists.mpr ⟨v, read⟩)
  obtain ⟨e, exponent_read, -⟩ := fits.moved
  obtain ⟨layout, written⟩ := exists_layout fits.digits exponent_read
  rw [parseDecimal_layout written exponent_read] at read
  split_ifs at read
  refine ⟨e, exponent_read, fits.small, ?_⟩
  rw [← Option.some.inj read, Sign.natAbs_apply, coefficient_layout written]

theorem wide_movePoint {c : Nat} (small : c < 2 ^ 127) (places : Int) :
    10 ^ decimalPrecision ≤ movePoint c places ↔ 0 ≤ places ∧ 10 ^ decimalPrecision ≤ c * 10 ^ places.toNat := by
  by_cases right : 0 ≤ places
  · rw [movePoint_right right]
    exact (and_iff_right right).symm
  · have tenth : movePoint c places ≤ c / 10 := by
      rw [movePoint_left (by omega)]
      apply Nat.div_le_div_left _ (by decide)
      calc
        10 = 10 ^ 1 := (Nat.pow_one 10).symm
        _ ≤ 10 ^ (-places).toNat := Nat.pow_le_pow_right (by decide) (by omega)
    apply iff_of_false
    · rw [decimalPrecision]
      omega
    · exact fun both => right both.1

theorem parsed_fits_iff (source : String) :
    (∀ v, parseDecimal source decimalScale = some v → v.natAbs < 10 ^ decimalPrecision) ↔ ¬WideText source := by
  constructor
  · rintro fit ⟨fits, e, exponent_read, right, wide⟩
    obtain ⟨v, read⟩ := Option.isSome_iff_exists.mp ((parseDecimal_isSome source decimalScale).mpr fits)
    obtain ⟨other, again, small, magnitude⟩ := natAbs_parsed read
    rw [exponent_read] at again
    cases again
    have bound := fit v read
    rw [magnitude] at bound
    exact absurd ((wide_movePoint small _).mpr ⟨right, wide⟩) (not_le.mpr bound)
  · intro narrow v read
    obtain ⟨e, exponent_read, small, magnitude⟩ := natAbs_parsed read
    have fits := (parseDecimal_isSome source decimalScale).mp (Option.isSome_iff_exists.mpr ⟨v, read⟩)
    rw [magnitude]
    apply not_le.mp
    intro wide
    obtain ⟨right, digits⟩ := (wide_movePoint small _).mp wide
    exact narrow ⟨fits, e, exponent_read, right, digits⟩

theorem scaled_fits {v : Int} (low : -2 ^ 63 ≤ v) (high : v < 2 ^ 63) :
    ∀ scaled, scaleInt v decimalScale = some scaled → scaled.natAbs < 10 ^ decimalPrecision := by
  intro scaled read
  rw [scaleInt_fits v low high] at read
  rw [← Option.some.inj read, decimalPrecision]
  omega

theorem asDecimal_fits_iff (text : BsonText) (value : Bson) :
    (∀ v, asDecimal text decimalScale (some value) = some v → v.natAbs < 10 ^ decimalPrecision) ↔
      ¬Wide text value := by
  have fromText : ∀ source, decimalSource text value = some source →
      asDecimal text decimalScale (some value) = parseDecimal source decimalScale →
      ((∀ v, asDecimal text decimalScale (some value) = some v → v.natAbs < 10 ^ decimalPrecision) ↔
        ¬Wide text value) := by
    intro source found same
    have wide : Wide text value ↔ WideText source := by
      simp only [Wide, found, Option.some.injEq, exists_eq_left']
    rw [same, wide]
    exact parsed_fits_iff source
  cases value with
  | decimal128 d => exact fromText _ rfl rfl
  | double v => exact fromText _ rfl rfl
  | string s => exact fromText _ rfl rfl
  | int32 v =>
      have low := v.le_toInt
      have high := v.toInt_lt
      exact iff_of_true (scaled_fits (by omega) (by omega)) fun ⟨_, found, _⟩ => by cases found
  | int64 v => exact iff_of_true (scaled_fits v.le_toInt v.toInt_lt) fun ⟨_, found, _⟩ => by cases found
  | _ => exact iff_of_true (fun _ read => by cases read) fun ⟨_, found, _⟩ => by cases found

/-- A decimal read from a value, and every cell of a column of them, fits the declared
precision exactly when no value's text is too wide. -/
theorem decimals_fit_iff (text : BsonText) :
    (∀ value, (∀ v, asDecimal text decimalScale (some value) = some v → v.natAbs < 10 ^ decimalPrecision) ↔
      ¬Wide text value) ∧
    ∀ (field : Field), field.dataType = .decimal128 decimalPrecision decimalScale →
      ∀ (values : List (Option Bson)) (array : ArrayData), buildArray text field values = .ok array →
        ((∀ i < values.length, ∀ v, array.cell i = .decimal v decimalScale → v.natAbs < 10 ^ decimalPrecision) ↔
          ∀ value, some value ∈ values → ¬Wide text value) := by
  refine ⟨asDecimal_fits_iff text, ?_⟩
  intro field column values array built
  have decoded := buildTyped_decoded text _ _ _ _ array built
  rw [column] at decoded
  have cell : ∀ i (inside : i < values.length), array.cell i =
      Cell.ofOption (.decimal · decimalScale) (asDecimal text decimalScale values[i]) := by
    intro i inside
    rw [decoded.cell i inside, decodeTyped]
  constructor
  · intro fit value member
    obtain ⟨i, inside, here⟩ := List.getElem_of_mem member
    apply (asDecimal_fits_iff text value).mp
    intro v read
    apply fit i inside v
    rw [cell i inside, here, read]
    rfl
  · intro narrow i inside v held
    rw [cell i inside] at held
    cases slot : values[i] with
    | none =>
        rw [slot] at held
        cases held
    | some value =>
        rw [slot] at held
        have member : some value ∈ values := slot ▸ List.getElem_mem inside
        cases read : asDecimal text decimalScale (some value) with
        | none =>
            rw [read] at held
            cases held
        | some scaled =>
            rw [read, Cell.ofOption, Cell.decimal.injEq] at held
            rw [← held.1]
            exact (asDecimal_fits_iff text value).mpr (narrow value member) scaled read

/-- A column of amounts. -/
def amountField : Field := ⟨"amount", .decimal128 38 10, true, [("bson", "decimal")]⟩

theorem halves_narrow : ¬WideText "12.5" := by
  rintro ⟨-, e, read, -, wide⟩
  have none : exponent "12.5" = some 0 := by decide
  rw [none] at read
  cases read
  revert wide
  decide

theorem decimals_fit_iff_amount : (125000000000 : Int).natAbs < 10 ^ decimalPrecision := by
  have narrow : ∀ value, some value ∈ [some (Bson.string "12.5"), none, some (Bson.int32 5)] → ¬Wide plainText value := by
    rintro value member ⟨source, found, wide⟩
    simp only [List.mem_cons, Option.some.injEq, reduceCtorEq, List.not_mem_nil, false_or, or_false] at member
    rcases member with rfl | rfl
    · cases found
      exact halves_narrow wide
    · cases found
  exact ((decimals_fit_iff plainText).2 amountField rfl [some (.string "12.5"), none, some (.int32 5)] _ rfl).mpr
    narrow 0 (by decide) _ rfl

theorem decimals_overflow : ¬∀ (text : BsonText) (value : Bson) (v : Int),
    asDecimal text decimalScale (some value) = some v → v.natAbs < 10 ^ decimalPrecision := by
  intro holds
  have read : asDecimal plainText decimalScale (some (.string "15000000000000000000000000000")) =
      some (15 * 10 ^ 37) := by decide
  have bound := holds plainText _ _ read
  revert bound
  decide

end Auger
