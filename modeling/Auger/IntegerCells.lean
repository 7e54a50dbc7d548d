import Auger.Drift
import Auger.Rounding

set_option autoImplicit false

/-! The cells of an integer column against the numbers their values hold. -/

namespace Auger

open F64

namespace F64

def whole (d : F64) : Int := if d.negative then -((d.magnitude / one : Nat) : Int) else (d.magnitude / one : Nat)

theorem toRat_eq (d : F64) : d.toRat = (d.units : ℚ) / (one : Nat) := Rat.mkRat_eq_div _ _

theorem le_toRat_iff {d : F64} {x : Int} : (x : ℚ) ≤ d.toRat ↔ x * one ≤ d.units := by
  have positive : (0 : ℚ) < ((one : Nat) : ℚ) := Nat.cast_pos.mpr one_pos
  rw [toRat_eq, le_div_iff₀ positive]
  exact_mod_cast Iff.rfl

theorem toRat_lt_iff {d : F64} {x : Int} : d.toRat < (x : ℚ) ↔ d.units < x * one := by
  rw [← not_le, le_toRat_iff, not_le]

theorem toRat_integral {d : F64} (integral : d.isIntegral = true) : d.toRat = (d.whole : ℚ) := by
  have divides : one ∣ d.magnitude := Nat.dvd_of_mod_eq_zero (beq_iff_eq.mp integral)
  rw [toRat_eq_iff, whole, units]
  have magnitude : (d.magnitude : Int) = ((d.magnitude / one : Nat) : Int) * one := by
    exact_mod_cast (Nat.div_mul_cancel divides).symm
  split_ifs
  · rw [Int.neg_mul, ← magnitude]
  · exact magnitude

theorem toInt_toI64 {d : F64} (finite : d.isFinite = true) :
    d.toI64.toInt = if d.whole < -2 ^ 63 then -2 ^ 63 else if 2 ^ 63 - 1 < d.whole then 2 ^ 63 - 1 else d.whole := by
  have number : d.isNan = false := by
    have field : ¬d.exponentField = 2047 := by simpa [isFinite] using finite
    simp [isNan, field]
  have bounded : d.isInfinite = false := by
    have field : ¬d.exponentField = 2047 := by simpa [isFinite] using finite
    simp [isInfinite, field]
  have least : Int64.minValue.toInt = -2 ^ 63 := rfl
  have greatest : Int64.maxValue.toInt = 2 ^ 63 - 1 := rfl
  have cast : d.toI64 = if d.whole < -2 ^ 63 then Int64.minValue
      else if 2 ^ 63 - 1 < d.whole then Int64.maxValue else Int64.ofInt d.whole := by
    rw [← least, ← greatest, toI64, number, bounded]
    rfl
  rw [cast]
  split_ifs with low high
  · exact least
  · exact greatest
  · exact Int64.toInt_ofInt_of_le (by omega) (by omega)

/-- A multiple of a power of two that is much larger than its factor. -/
theorem pow_dvd_of_large {factor k n : Nat} (small : factor < 2 ^ 53) (large : 2 ^ (63 + n) ≤ factor * 2 ^ k) :
    2 ^ n ∣ factor * 2 ^ k := by
  have below : factor * 2 ^ k < 2 ^ (53 + k) := by
    rw [Nat.pow_add]
    exact Nat.mul_lt_mul_of_pos_right small (Nat.pow_pos (by decide))
  have exponents : 63 + n < 53 + k := (Nat.pow_lt_pow_iff_right (by decide)).mp (lt_of_le_of_lt large below)
  exact Dvd.dvd.mul_left (Nat.pow_dvd_pow 2 (by omega)) _

theorem integral_of_large {d : F64} (large : 2 ^ 63 * one ≤ d.magnitude) : d.isIntegral = true := by
  have field : d.fractionField < 2 ^ 52 := Nat.mod_lt _ (by decide)
  have divides : one ∣ d.magnitude := by
    unfold magnitude at large ⊢
    split_ifs at large ⊢ with subnormal
    · have room : 2 ^ 63 ≤ 2 ^ 63 * one := Nat.le_mul_of_pos_right _ one_pos
      omega
    · have small : 2 ^ 52 + d.fractionField < 2 ^ 53 := by omega
      obtain ⟨n, power⟩ : ∃ n, one = 2 ^ n := ⟨1074, one.eq_1⟩
      rw [power, ← Nat.pow_add] at large
      rw [power]
      exact pow_dvd_of_large small large
  exact beq_iff_eq.mpr (Nat.mod_eq_zero_of_dvd divides)

end F64

/-- The number a value holds, where an integer column reads one. -/
def Bson.number : Bson → Option ℚ
  | .int32 v => some v.toInt
  | .int64 v => some v.toInt
  | .boolean b => some (if b then 1 else 0)
  | .double d => if d.isFinite then some d.toRat else none
  | _ => none

/-- A finite double that no `i64` holds. -/
def Outside : Bson → Prop
  | .double d => d.isFinite = true ∧ (((2 ^ 63 : Int) : ℚ) ≤ d.toRat ∨ d.toRat < ((-2 ^ 63 : Int) : ℚ))
  | _ => False

/-- A cell of a column of the integers from `-bound` up to `bound` holds no number but the one
stored, and is NULL where that is no such integer. -/
def CellExact (bound : Int) (slot : Option Bson) (cell : Cell) : Prop :=
  (∀ i : Int, cell = .int i → slot.bind Bson.number = some (i : ℚ)) ∧
    ((¬∃ i : Int, -bound ≤ i ∧ i < bound ∧ slot.bind Bson.number = some (i : ℚ)) → cell = .null)

theorem asI64_double {d : F64} {i : Int64} (read : asI64 (some (.double d)) = some i) :
    d.isFinite = true ∧ d.isIntegral = true ∧ i = d.toI64 := by
  simp only [asI64] at read
  split_ifs at read with whole
  rw [Bool.and_eq_true] at whole
  exact ⟨whole.1, whole.2, (Option.some.inj read).symm⟩

theorem asI64_number {value : Bson} {i : Int64} (read : asI64 (some value) = some i) (inside : ¬Outside value) :
    value.number = some (i.toInt : ℚ) := by
  cases value with
  | int32 v =>
      rw [← Option.some.inj read, Int32.toInt_toInt64]
      rfl
  | int64 v =>
      rw [← Option.some.inj read]
      rfl
  | boolean b =>
      rw [← Option.some.inj read]
      cases b <;> rfl
  | double d =>
      obtain ⟨finite, integral, rfl⟩ := asI64_double read
      have number := toRat_integral integral
      rw [Outside, number, Int.cast_le, Int.cast_lt, not_and_or, not_or] at inside
      obtain ⟨below, above⟩ := inside.resolve_left (not_not.mpr finite)
      rw [Bson.number, if_pos finite, number, toInt_toI64 finite, if_neg above, if_neg (by omega)]
  | _ => cases read

/-- Outside of it the cast stops at an end of the range, which is another number. -/
theorem asI64_outside {value : Bson} (outside : Outside value) :
    ∃ i, asI64 (some value) = some i ∧ (i.toInt = 2 ^ 63 - 1 ∨ i.toInt = -2 ^ 63) ∧
      value.number ≠ some (i.toInt : ℚ) := by
  cases value with
  | double d =>
      obtain ⟨finite, far⟩ := outside
      have integral : d.isIntegral = true := by
        apply integral_of_large
        have positive : (0 : Int) < one := by exact_mod_cast one_pos
        rw [le_toRat_iff, toRat_lt_iff] at far
        rw [← natAbs_units]
        omega
      have number := toRat_integral integral
      rw [number, Int.cast_le, Int.cast_lt] at far
      refine ⟨d.toI64, ?_, ?_, ?_⟩
      · simp [asI64, finite, integral]
      · rw [toInt_toI64 finite]
        split_ifs <;> omega
      · rw [Bson.number, if_pos finite, number, toInt_toI64 finite, Ne, Option.some.injEq, Int.cast_inj]
        split_ifs <;> omega
  | _ => exact outside.elim

theorem toI32_eq {v : Int64} {i : Int32} (narrowed : toI32 v = some i) : i.toInt = v.toInt := by
  rw [toI32] at narrowed
  split_ifs at narrowed with fits
  rw [← Option.some.inj narrowed, Int64.toInt_toInt32]
  apply Int.bmod_eq_of_le <;> omega

/-- The ends of an `i64` are outside of an `i32`. -/
theorem toI32_end {v : Int64} (last : v.toInt = 2 ^ 63 - 1 ∨ v.toInt = -2 ^ 63) : toI32 v = none := by
  rw [toI32, if_neg (by omega)]

theorem cellExact_of_read {bound : Int} {slot : Option Bson} {read : Option Int}
    (kept : ∀ i, read = some i → -bound ≤ i ∧ i < bound ∧ slot.bind Bson.number = some (i : ℚ)) :
    CellExact bound slot (Cell.ofOption .int read) := by
  cases read with
  | none => exact ⟨fun i held => (by cases held), fun _ => rfl⟩
  | some value =>
      have stored := kept value rfl
      refine ⟨?_, fun absent => absurd ⟨value, stored⟩ absent⟩
      intro i held
      cases held
      exact stored.2.2

theorem int32_exact (slot : Option Bson) :
    CellExact (2 ^ 31) slot (Cell.ofOption (fun v : Int32 => .int v.toInt) ((asI64 slot).bind toI32)) := by
  have same : Cell.ofOption (fun v : Int32 => .int v.toInt) ((asI64 slot).bind toI32) =
      Cell.ofOption .int (((asI64 slot).bind toI32).map Int32.toInt) := by
    cases (asI64 slot).bind toI32 <;> rfl
  rw [same]
  apply cellExact_of_read
  intro i read
  obtain ⟨narrow, narrowed, rfl⟩ := Option.map_eq_some_iff.mp read
  obtain ⟨wide, widened, fits⟩ := Option.bind_eq_some_iff.mp narrowed
  refine ⟨narrow.le_toInt, narrow.toInt_lt, ?_⟩
  cases slot with
  | none => cases widened
  | some value =>
      rw [toI32_eq fits]
      apply asI64_number widened
      intro outside
      obtain ⟨last, again, ends, -⟩ := asI64_outside outside
      rw [widened] at again
      rw [Option.some.inj again, toI32_end ends] at fits
      cases fits

theorem int64_exact_iff (slot : Option Bson) :
    CellExact (2 ^ 63) slot (Cell.ofOption (fun v : Int64 => .int v.toInt) (asI64 slot)) ↔
      ∀ value, slot = some value → ¬Outside value := by
  have same : Cell.ofOption (fun v : Int64 => .int v.toInt) (asI64 slot) =
      Cell.ofOption .int ((asI64 slot).map Int64.toInt) := by
    cases asI64 slot <;> rfl
  constructor
  · rintro accurate value rfl outside
    obtain ⟨last, read, -, other⟩ := asI64_outside outside
    rw [read] at accurate
    exact other (accurate.1 last.toInt rfl)
  · intro inside
    rw [same]
    apply cellExact_of_read
    intro i read
    obtain ⟨wide, widened, rfl⟩ := Option.map_eq_some_iff.mp read
    refine ⟨wide.le_toInt, wide.toInt_lt, ?_⟩
    cases slot with
    | none => cases widened
    | some value => exact asI64_number widened (inside value rfl)

/-- Every cell of an `Int32` column is exact; those of an `Int64` column are exactly when no
value is a double outside of its range. -/
theorem integers_exact_iff (text : BsonText) (values : List (Option Bson)) (array : ArrayData) (field : Field) :
    (field.dataType = .int32 → buildArray text field values = .ok array →
      ∀ i (inside : i < values.length), CellExact (2 ^ 31) values[i] (array.cell i)) ∧
    (field.dataType = .int64 → buildArray text field values = .ok array →
      ((∀ i (inside : i < values.length), CellExact (2 ^ 63) values[i] (array.cell i)) ↔
        ∀ value, some value ∈ values → ¬Outside value)) := by
  constructor
  · intro column built i inside
    have decoded := buildTyped_decoded text _ _ _ _ array built
    rw [column] at decoded
    rw [decoded.cell i inside, decodeTyped]
    exact int32_exact values[i]
  · intro column built
    have decoded := buildTyped_decoded text _ _ _ _ array built
    rw [column] at decoded
    have cell : ∀ i (inside : i < values.length), CellExact (2 ^ 63) values[i] (array.cell i) ↔
        ∀ value, values[i] = some value → ¬Outside value := by
      intro i inside
      rw [decoded.cell i inside, decodeTyped]
      exact int64_exact_iff values[i]
    constructor
    · intro accurate value member
      obtain ⟨i, inside, here⟩ := List.getElem_of_mem member
      exact (cell i inside).mp (accurate i inside) value here
    · intro narrow i inside
      rw [cell i inside]
      intro value here
      exact narrow value (here ▸ List.getElem_mem inside)

def countField : Field := ⟨"count", .int64, true, []⟩

def seven : F64 := ⟨0x401c000000000000⟩

theorem seven_inside : ¬Outside (.double seven) := by
  rintro ⟨-, high | low⟩
  · rw [le_toRat_iff] at high
    revert high
    decide +kernel
  · rw [toRat_lt_iff] at low
    revert low
    decide +kernel

theorem integers_exact_iff_count : CellExact (2 ^ 63) (some (.double seven)) (.int 7) := by
  have built : buildArray plainText countField [some (.double seven), some (.boolean true)] =
      .ok (.int64 [some 7, some 1]) := by
    have read : asI64 (some (.double seven)) = some 7 := by decide +kernel
    show Except.ok (ArrayData.int64 [asI64 (some (.double seven)), some 1]) = _
    rw [read]
  have inside : ∀ value, some value ∈ [some (Bson.double seven), some (Bson.boolean true)] → ¬Outside value := by
    intro value member
    simp only [List.mem_cons, Option.some.injEq, List.not_mem_nil, or_false] at member
    rcases member with rfl | rfl
    · exact seven_inside
    · exact fun outside => outside
  exact (((integers_exact_iff plainText _ _ countField).2 rfl built).mpr inside) 0 (by decide)

def pastEnd : F64 := ⟨0x43e0000000000000⟩

theorem pastEnd_outside : Outside (.double pastEnd) := by
  have normal : pastEnd.exponentField ≠ 0 := by decide
  have exponent : pastEnd.exponentField - 1 = 1074 + 11 := by decide
  have fraction : pastEnd.fractionField = 0 := by decide
  have positive : ¬pastEnd.negative = true := by decide
  have powers : ∀ n : Nat, 2 ^ 63 * 2 ^ n = 2 ^ 52 * 2 ^ (n + 11) := fun n => by ring
  have magnitude : pastEnd.magnitude = 2 ^ 63 * one := by
    rw [F64.magnitude, if_neg normal, fraction, exponent, Nat.add_zero, one]
    exact (powers 1074).symm
  refine ⟨by decide, .inl ?_⟩
  rw [le_toRat_iff, units, if_neg positive, magnitude]
  exact_mod_cast le_refl (2 ^ 63 * one)

theorem integers_saturate : ¬∀ (text : BsonText) (values : List (Option Bson)) (array : ArrayData) (field : Field),
    (field.dataType = .int64 → buildArray text field values = .ok array →
      ∀ i (inside : i < values.length), CellExact (2 ^ 63) values[i] (array.cell i)) := by
  intro holds
  obtain ⟨last, read, -, other⟩ := asI64_outside pastEnd_outside
  have accurate := holds plainText [some (.double pastEnd)] (.int64 [asI64 (some (.double pastEnd))]) countField rfl rfl
    0 (by decide)
  rw [read] at accurate
  exact other (accurate.1 last.toInt rfl)

end Auger
