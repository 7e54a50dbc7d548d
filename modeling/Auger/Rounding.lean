import Auger.F64
import Mathlib

set_option autoImplicit false

/-! Integers rounded to doubles: rounding keeps the order, and leaves alone the
integers that are doubles. -/

namespace Auger.F64

theorem div_le_roundHalfEven (num den : Nat) : num / den ≤ roundHalfEven num den := by
  unfold roundHalfEven
  dsimp only
  split_ifs <;> omega

theorem roundHalfEven_le (num den : Nat) : roundHalfEven num den ≤ num / den + 1 := by
  unfold roundHalfEven
  dsimp only
  split_ifs <;> omega

theorem roundHalfEven_mono {num num' : Nat} (le : num ≤ num') (den : Nat) :
    roundHalfEven num den ≤ roundHalfEven num' den := by
  rcases (Nat.div_le_div_right (c := den) le).lt_or_eq with below | same
  · calc roundHalfEven num den
        ≤ num / den + 1 := roundHalfEven_le num den
      _ ≤ num' / den := below
      _ ≤ roundHalfEven num' den := div_le_roundHalfEven num' den
  · have rest : num % den ≤ num' % den := by
      have first := Nat.div_add_mod num den
      have second := Nat.div_add_mod num' den
      rw [same] at first
      omega
    unfold roundHalfEven
    dsimp only
    rw [same]
    split_ifs <;> omega

theorem roundHalfEven_mul (whole : Nat) {den : Nat} (positive : 0 < den) :
    roundHalfEven (whole * den) den = whole := by
  simp [roundHalfEven, Nat.mul_div_cancel _ positive, positive]

def shiftOf (units : Nat) : Nat := Nat.log2 units - 52

/-- The bits of the nearest double to so many units, the exponent unbounded. -/
def unboundedBits (units : Nat) : Nat :=
  shiftOf units * 2 ^ 52 + roundHalfEven units (2 ^ shiftOf units)

theorem roundBits_one (num : Nat) : roundBits num 1 = min (unboundedBits (num * 2 ^ 1074)) (2047 * 2 ^ 52) := by
  simp only [roundBits, unboundedBits, shiftOf, Nat.div_one, Nat.one_mul]

theorem shiftOf_mono {units units' : Nat} (le : units ≤ units') : shiftOf units ≤ shiftOf units' := by
  unfold shiftOf
  rw [Nat.log2_eq_log_two, Nat.log2_eq_log_two]
  have logs := Nat.log_mono_right (b := 2) le
  omega

/-- Below the next power of two, the mantissa has at most 53 bits, or rounds up to the
least one with 54. -/
theorem mantissa_le (units : Nat) : roundHalfEven units (2 ^ shiftOf units) ≤ 2 ^ 53 := by
  have bounded : units < 2 ^ shiftOf units * 2 ^ 53 := by
    rw [← pow_add]
    calc units
        < 2 ^ (Nat.log2 units + 1) := Nat.lt_log2_self
      _ ≤ 2 ^ (shiftOf units + 53) := Nat.pow_le_pow_right (by decide) (by unfold shiftOf; omega)
  have whole := Nat.div_lt_of_lt_mul bounded
  exact (roundHalfEven_le units _).trans whole

theorem le_mantissa {units : Nat} (shifted : 0 < shiftOf units) :
    2 ^ 52 ≤ roundHalfEven units (2 ^ shiftOf units) := by
  have positive : units ≠ 0 := by
    rintro rfl
    simp [shiftOf] at shifted
  have whole : 2 ^ 52 ≤ units / 2 ^ shiftOf units := by
    rw [Nat.le_div_iff_mul_le (Nat.two_pow_pos _), ← pow_add]
    have exponent : 52 + shiftOf units = Nat.log2 units := by
      unfold shiftOf at shifted ⊢
      omega
    rw [exponent]
    exact Nat.log2_self_le positive
  exact whole.trans (div_le_roundHalfEven units _)

theorem unboundedBits_mono {units units' : Nat} (le : units ≤ units') :
    unboundedBits units ≤ unboundedBits units' := by
  unfold unboundedBits
  rcases (shiftOf_mono le).lt_or_eq with shifted | same
  · have low := mantissa_le units
    have high := le_mantissa (Nat.zero_lt_of_lt shifted)
    omega
  · rw [same]
    exact Nat.add_le_add_left (roundHalfEven_mono le _) _

theorem roundBits_mono {num num' : Nat} (le : num ≤ num') : roundBits num 1 ≤ roundBits num' 1 := by
  rw [roundBits_one, roundBits_one]
  exact min_le_min_right _ (unboundedBits_mono (Nat.mul_le_mul_right _ le))

theorem roundBits_lt (num : Nat) : roundBits num 1 < 2 ^ 63 := by
  rw [roundBits_one]
  exact lt_of_le_of_lt (min_le_right _ _) (by decide)

theorem unboundedBits_magnitude (x : F64) :
    unboundedBits x.magnitude = x.exponentField * 2 ^ 52 + x.fractionField := by
  have small : x.fractionField < 2 ^ 52 := Nat.mod_lt _ (by decide)
  unfold magnitude
  by_cases subnormal : x.exponentField = 0
  · have unshifted : shiftOf x.fractionField = 0 := by
      unfold shiftOf
      by_cases zero : x.fractionField = 0
      · rw [zero]
        rfl
      · have log := (Nat.log2_lt zero).mpr small
        omega
    rw [if_pos subnormal, subnormal, unboundedBits, unshifted]
    have whole := roundHalfEven_mul x.fractionField Nat.one_pos
    simpa using whole
  · have shift : shiftOf ((2 ^ 52 + x.fractionField) * 2 ^ (x.exponentField - 1)) = x.exponentField - 1 := by
      have log : Nat.log2 ((2 ^ 52 + x.fractionField) * 2 ^ (x.exponentField - 1)) =
          52 + (x.exponentField - 1) := by
        rw [Nat.log2_eq_iff (by positivity)]
        constructor
        · rw [pow_add]
          exact Nat.mul_le_mul_right _ (Nat.le_add_right _ _)
        · rw [add_right_comm, pow_add]
          exact Nat.mul_lt_mul_of_pos_right (by omega) (Nat.two_pow_pos _)
      rw [shiftOf, log]
      omega
    rw [if_neg subnormal, unboundedBits, shift, roundHalfEven_mul _ (Nat.two_pow_pos _)]
    omega

theorem negative_iff (x : F64) : x.negative = decide (2 ^ 63 ≤ x.bits.toNat) := by
  rw [negative, BitVec.msb_eq_decide]

theorem toNat_ofInt (v : Int) :
    (ofInt v).bits.toNat = (if v < 0 then 2 ^ 63 else 0) + roundBits v.natAbs 1 := by
  have small := roundBits_lt v.natAbs
  simp only [ofInt, ofRatio, BitVec.toNat_ofNat, decide_eq_true_eq]
  split_ifs <;> omega

theorem totalKey_ofInt (v : Int) :
    (ofInt v).totalKey =
      if v < 0 then -(roundBits v.natAbs 1 : Int) - 1 else (roundBits v.natAbs 1 : Int) := by
  have small := roundBits_lt v.natAbs
  simp only [totalKey, negative_iff, toNat_ofInt, decide_eq_true_eq]
  split_ifs <;> omega

theorem totalKey_ofInt_mono {v w : Int} (le : v ≤ w) : (ofInt v).totalKey ≤ (ofInt w).totalKey := by
  rw [totalKey_ofInt, totalKey_ofInt]
  split_ifs with first second
  · have bits := roundBits_mono (show w.natAbs ≤ v.natAbs by omega)
    omega
  · omega
  · omega
  · have bits := roundBits_mono (show v.natAbs ≤ w.natAbs by omega)
    omega

theorem totalKey_inj {x y : F64} (same : x.totalKey = y.totalKey) : x = y := by
  have bits : x.bits.toNat = y.bits.toNat := by
    have left := x.bits.isLt
    have right := y.bits.isLt
    simp only [totalKey, negative_iff, decide_eq_true_eq] at same
    split_ifs at same <;> omega
  cases x
  cases y
  exact congrArg F64.mk (BitVec.eq_of_toNat_eq bits)

/-- The integer is the value of some finite double. -/
def Representable (x : Int) : Prop := ∃ d : F64, d.isFinite = true ∧ d.toRat = (x : ℚ)

def one : Nat := 2 ^ 1074

theorem one_pos : 0 < one := by
  rw [one]
  exact Nat.pow_pos Nat.two_pos

theorem toRat_eq_iff {d : F64} {x : Int} : d.toRat = (x : ℚ) ↔ d.units = x * one := by
  have positive : ((one : Nat) : ℚ) ≠ 0 := Nat.cast_ne_zero.mpr one_pos.ne'
  have ratio : d.toRat = (d.units : ℚ) / (one : Nat) := Rat.mkRat_eq_div _ _
  rw [ratio, div_eq_iff positive]
  exact_mod_cast Iff.rfl

theorem natAbs_units (d : F64) : d.units.natAbs = d.magnitude := by
  unfold units
  split_ifs <;> omega

theorem negative_of_units {d : F64} (present : d.units ≠ 0) : d.negative = decide (d.units < 0) := by
  unfold units at present ⊢
  cases d.negative with
  | false => simp
  | true =>
      simp at present ⊢
      omega

theorem eq_ofInt {d : F64} {x : Int} (finite : d.isFinite = true) (same : d.toRat = (x : ℚ)) (nonzero : x ≠ 0) :
    d = ofInt x := by
  have units := toRat_eq_iff.mp same
  have positive : (0 : Int) < one := by exact_mod_cast one_pos
  have magnitude : d.magnitude = x.natAbs * one := by
    rw [← natAbs_units, units, Int.natAbs_mul, Int.natAbs_natCast]
  have sign : d.negative = decide (x < 0) := by
    rw [negative_of_units (by rw [units]; exact mul_ne_zero nonzero positive.ne'), units]
    apply decide_eq_decide.mpr
    constructor
    · intro below
      by_contra above
      exact absurd below (mul_nonneg (not_lt.mp above) positive.le).not_gt
    · intro below
      exact mul_neg_of_neg_of_pos below positive
  have bits : roundBits x.natAbs 1 = d.exponentField * 2 ^ 52 + d.fractionField := by
    have finiteField : d.exponentField < 2047 := by
      have different : d.exponentField ≠ 2047 := by simpa [isFinite] using finite
      have small : d.exponentField < 2 ^ 11 := Nat.mod_lt _ (by decide)
      omega
    have small : d.fractionField < 2 ^ 52 := Nat.mod_lt _ (by decide)
    rw [roundBits_one, show x.natAbs * 2 ^ 1074 = d.magnitude from magnitude.symm, unboundedBits_magnitude]
    omega
  have whole : d.bits.toNat = (ofInt x).bits.toNat := by
    have size := d.bits.isLt
    rw [toNat_ofInt, bits, exponentField, fractionField]
    rw [negative_iff, decide_eq_decide] at sign
    split_ifs with below
    · have top := sign.mpr below
      omega
    · have top := fun high => below (sign.mp high)
      omega
  cases d
  exact congrArg F64.mk (BitVec.eq_of_toNat_eq whole)

theorem Representable.exact {x : Int} (representable : Representable x) :
    (ofInt x).isFinite = true ∧ (ofInt x).toRat = (x : ℚ) := by
  obtain ⟨d, finite, same⟩ := representable
  by_cases zero : x = 0
  · subst zero
    have bits : ofInt 0 = ⟨0⟩ := by
      have rounded : roundBits 0 1 = 0 := by
        rw [roundBits_one, Nat.zero_mul]
        rfl
      rw [ofInt, ofRatio, Int.natAbs_zero, rounded]
      rfl
    have units : (⟨0⟩ : F64).units = 0 := by rfl
    rw [bits]
    exact ⟨by rfl, toRat_eq_iff.mpr (by rw [units, zero_mul])⟩
  · rw [← eq_ofInt finite same zero]
    exact ⟨finite, same⟩

/-- Rounded, two integers stand as they did, or became equal. -/
theorem cmp_totalKey_ofInt (v x : Int) :
    cmp (ofInt v).totalKey (ofInt x).totalKey = if ofInt v = ofInt x then .eq else cmp v x := by
  by_cases merged : ofInt v = ofInt x
  · rw [if_pos merged, merged, cmp_self_eq_eq]
  · have apart : (ofInt v).totalKey ≠ (ofInt x).totalKey := fun same => merged (totalKey_inj same)
    rw [if_neg merged]
    rcases lt_trichotomy v x with below | same | above
    · rw [(cmp_eq_lt_iff _ _).mpr below, cmp_eq_lt_iff]
      exact lt_of_le_of_ne (totalKey_ofInt_mono below.le) apart
    · exact absurd (congrArg ofInt same) merged
    · rw [(cmp_eq_gt_iff _ _).mpr above, cmp_eq_gt_iff]
      exact lt_of_le_of_ne (totalKey_ofInt_mono above.le) apart.symm

end Auger.F64
