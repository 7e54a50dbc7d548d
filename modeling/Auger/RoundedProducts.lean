import Auger.IntegerCells

set_option autoImplicit false

/-! Products of doubles: rounding keeps the order of ratios, and an exact integer times a
share is cut to one of the two integers around the product. -/

namespace Auger

namespace F64

def lt (x y : F64) : Bool := !x.isNan && !y.isNan && decide (x.units < y.units)

def clamp (x lower upper : F64) : F64 :=
  let raised := if x.lt lower then lower else x
  if upper.lt raised then upper else raised

/-- The product, rounded to nearest, ties to even. -/
def mul (x y : F64) : F64 :=
  if x.isNan || y.isNan then nan
  else if x.isInfinite || y.isInfinite then
    if x.magnitude = 0 ∨ y.magnitude = 0 then nan else infinity (x.negative != y.negative)
  else ofRatio (x.negative != y.negative) (x.magnitude * y.magnitude) (one * one)

/-- The bits of the nearest double to `units / den` units, the exponent unbounded. -/
def ratioBits (units den : Nat) : Nat :=
  shiftOf (units / den) * 2 ^ 52 + roundHalfEven units (den * 2 ^ shiftOf (units / den))

theorem roundBits_eq (num den : Nat) : roundBits num den = min (ratioBits (num * one) den) (2047 * 2 ^ 52) := rfl

theorem ratio_mantissa_le (units den : Nat) :
    roundHalfEven units (den * 2 ^ shiftOf (units / den)) ≤ 2 ^ 53 := by
  have bounded : units / den < 2 ^ shiftOf (units / den) * 2 ^ 53 := by
    rw [← pow_add]
    calc units / den
        < 2 ^ (Nat.log2 (units / den) + 1) := Nat.lt_log2_self
      _ ≤ 2 ^ (shiftOf (units / den) + 53) := Nat.pow_le_pow_right (by decide) (by unfold shiftOf; omega)
  have whole : units / (den * 2 ^ shiftOf (units / den)) < 2 ^ 53 := by
    rw [← Nat.div_div_eq_div_mul]
    exact Nat.div_lt_of_lt_mul bounded
  exact (roundHalfEven_le units _).trans whole

theorem le_ratio_mantissa {units den : Nat} (shifted : 0 < shiftOf (units / den)) :
    2 ^ 52 ≤ roundHalfEven units (den * 2 ^ shiftOf (units / den)) := by
  have present : units / den ≠ 0 := by
    intro zero
    rw [zero] at shifted
    exact absurd shifted (by decide)
  have whole : 2 ^ 52 ≤ units / (den * 2 ^ shiftOf (units / den)) := by
    rw [← Nat.div_div_eq_div_mul, Nat.le_div_iff_mul_le (Nat.two_pow_pos _), ← pow_add]
    have exponent : 52 + shiftOf (units / den) = Nat.log2 (units / den) := by
      unfold shiftOf at shifted ⊢
      omega
    rw [exponent]
    exact Nat.log2_self_le present
  exact whole.trans (div_le_roundHalfEven units _)

theorem ratioBits_mono {units units' : Nat} (den : Nat) (le : units ≤ units') :
    ratioBits units den ≤ ratioBits units' den := by
  unfold ratioBits
  rcases (shiftOf_mono (Nat.div_le_div_right (c := den) le)).lt_or_eq with shifted | same
  · have low := ratio_mantissa_le units den
    have high := le_ratio_mantissa (Nat.zero_lt_of_lt shifted)
    omega
  · rw [same]
    exact Nat.add_le_add_left (roundHalfEven_mono le _) _

theorem roundHalfEven_scaled (num den : Nat) {factor : Nat} (positive : 0 < factor) :
    roundHalfEven (factor * num) (factor * den) = roundHalfEven num den := by
  have twice : 2 * (factor * (num % den)) = factor * (2 * (num % den)) := Nat.mul_left_comm 2 factor _
  simp only [roundHalfEven, Nat.mul_div_mul_left _ _ positive, Nat.mul_mod_mul_left, twice,
    Nat.mul_lt_mul_left positive]

theorem ratioBits_whole (units : Nat) {den : Nat} (positive : 0 < den) :
    ratioBits (den * units) den = unboundedBits units := by
  rw [ratioBits, unboundedBits, Nat.mul_div_cancel_left _ positive, roundHalfEven_scaled _ _ positive]

/-- The bits below the sign, which order the magnitudes. -/
def lowBits (x : F64) : Nat := x.bits.toNat % 2 ^ 63

theorem unboundedBits_lowBits (x : F64) : unboundedBits x.magnitude = x.lowBits := by
  have size := x.bits.isLt
  rw [unboundedBits_magnitude, lowBits, exponentField, fractionField]
  omega

theorem finite_iff (x : F64) : x.isFinite = true ↔ x.lowBits < 2047 * 2 ^ 52 := by
  have size := x.bits.isLt
  rw [isFinite, bne_iff_ne, lowBits, exponentField]
  omega

theorem magnitude_le {x y : F64} (bits : x.lowBits ≤ y.lowBits) : x.magnitude ≤ y.magnitude := by
  by_contra above
  have other := unboundedBits_mono (not_le.mp above).le
  rw [unboundedBits_lowBits, unboundedBits_lowBits] at other
  have same : x.lowBits = y.lowBits := le_antisymm bits other
  have exponents : x.exponentField = y.exponentField := by
    rw [lowBits, lowBits] at same
    rw [exponentField, exponentField]
    omega
  have fractions : x.fractionField = y.fractionField := by
    rw [lowBits, lowBits] at same
    rw [fractionField, fractionField]
    omega
  exact above (by rw [magnitude, magnitude, exponents, fractions])

theorem ofRatio_negative (negative : Bool) (num den : Nat) : (ofRatio negative num den).negative = negative := by
  have small : roundBits num den < 2 ^ 63 := (min_le_right _ _).trans_lt (by decide)
  rw [negative_iff, ofRatio, BitVec.toNat_ofNat]
  cases negative with
  | false => simpa using by omega
  | true => simpa using by omega

theorem ofRatio_lowBits (negative : Bool) (num den : Nat) : (ofRatio negative num den).lowBits = roundBits num den := by
  have small : roundBits num den < 2 ^ 63 := (min_le_right _ _).trans_lt (by decide)
  rw [lowBits, ofRatio, BitVec.toNat_ofNat]
  cases negative with
  | false => simpa using by omega
  | true => simpa using by omega

theorem ofRatio_le {num den : Nat} (positive : 0 < den) {y : F64} (finite : y.isFinite = true)
    (le : num * one ≤ den * y.magnitude) (negative : Bool) :
    (ofRatio negative num den).isFinite = true ∧ (ofRatio negative num den).magnitude ≤ y.magnitude := by
  have bits : (ofRatio negative num den).lowBits ≤ y.lowBits := by
    rw [ofRatio_lowBits, roundBits_eq, ← unboundedBits_lowBits, ← ratioBits_whole _ positive]
    exact (min_le_left _ _).trans (ratioBits_mono den le)
  rw [finite_iff] at finite ⊢
  exact ⟨bits.trans_lt finite, magnitude_le bits⟩

theorem le_ofRatio {num den : Nat} (positive : 0 < den) {y : F64} (finite : y.isFinite = true)
    (le : den * y.magnitude ≤ num * one) (negative : Bool) :
    y.magnitude ≤ (ofRatio negative num den).magnitude := by
  apply magnitude_le
  rw [finite_iff] at finite
  rw [ofRatio_lowBits, roundBits_eq]
  apply le_min _ finite.le
  rw [← unboundedBits_lowBits, ← ratioBits_whole _ positive]
  exact ratioBits_mono den le

theorem ofInt_eq (n : Nat) : ofInt n = ofRatio false n 1 := by
  rw [ofInt, Int.natAbs_natCast, decide_eq_false (by omega)]

theorem magnitude_of_lowBits {x : F64} {shift mantissa : Nat} (bits : x.lowBits = shift * 2 ^ 52 + mantissa)
    (top : 2 ^ 52 ≤ mantissa) (small : mantissa < 2 ^ 53) : x.magnitude = mantissa * 2 ^ shift := by
  have exponent : x.exponentField = shift + 1 := by
    rw [lowBits] at bits
    rw [exponentField]
    omega
  have fraction : 2 ^ 52 + x.fractionField = mantissa := by
    rw [lowBits] at bits
    rw [fractionField]
    omega
  rw [magnitude, if_neg (by omega), fraction, exponent, Nat.add_sub_cancel]

theorem ofInt_shifted {n : Nat} (positive : 0 < n) (small : n < 2 ^ 53) :
    (ofInt n).lowBits = (Nat.log2 n + 1022) * 2 ^ 52 + n * 2 ^ (52 - Nat.log2 n) ∧
      2 ^ 52 ≤ n * 2 ^ (52 - Nat.log2 n) ∧ n * 2 ^ (52 - Nat.log2 n) < 2 ^ 53 := by
  have log : Nat.log2 n < 53 := (Nat.log2_lt positive.ne').mpr small
  have split : n * one = n * 2 ^ (52 - Nat.log2 n) * 2 ^ (Nat.log2 n + 1022) := by
    have exponents : 52 - Nat.log2 n + (Nat.log2 n + 1022) = 1074 := by omega
    rw [Nat.mul_assoc, ← pow_add, exponents, one]
  have shift : shiftOf (n * one) = Nat.log2 n + 1022 := by
    have bits : Nat.log2 (n * one) = Nat.log2 n + 1074 := by
      have scaled (k : Nat) : 2 ^ (k + 1074) = 2 ^ k * one := pow_add 2 k 1074
      rw [Nat.log2_eq_iff (Nat.mul_pos positive one_pos).ne', add_right_comm, scaled, scaled]
      exact ⟨Nat.mul_le_mul_right one (Nat.log2_self_le positive.ne'),
        Nat.mul_lt_mul_of_pos_right Nat.lt_log2_self one_pos⟩
    rw [shiftOf, bits]
    omega
  have low : 2 ^ 52 ≤ n * 2 ^ (52 - Nat.log2 n) := by
    have exponents : Nat.log2 n + (52 - Nat.log2 n) = 52 := by omega
    calc 2 ^ 52
        = 2 ^ Nat.log2 n * 2 ^ (52 - Nat.log2 n) := by rw [← pow_add, exponents]
      _ ≤ n * 2 ^ (52 - Nat.log2 n) := Nat.mul_le_mul_right _ (Nat.log2_self_le positive.ne')
  have high : n * 2 ^ (52 - Nat.log2 n) < 2 ^ 53 := by
    have exponents : Nat.log2 n + 1 + (52 - Nat.log2 n) = 53 := by omega
    calc n * 2 ^ (52 - Nat.log2 n)
        < 2 ^ (Nat.log2 n + 1) * 2 ^ (52 - Nat.log2 n) :=
          Nat.mul_lt_mul_of_pos_right Nat.lt_log2_self (Nat.two_pow_pos _)
      _ = 2 ^ 53 := by rw [← pow_add, exponents]
  have rounded : unboundedBits (n * one) = (Nat.log2 n + 1022) * 2 ^ 52 + n * 2 ^ (52 - Nat.log2 n) := by
    rw [unboundedBits, shift]
    conv_lhs => rw [split]
    rw [roundHalfEven_mul _ (Nat.two_pow_pos _)]
  refine ⟨?_, low, high⟩
  have whole := ratioBits_whole (n * one) Nat.one_pos
  rw [Nat.one_mul] at whole
  rw [ofInt_eq, ofRatio_lowBits, roundBits_eq, whole, rounded, min_eq_left (by omega)]

theorem ofInt_exact {n : Nat} (small : n ≤ 2 ^ 53) :
    (ofInt n).isFinite = true ∧ (ofInt n).magnitude = n * one := by
  obtain rfl | positive := Nat.eq_zero_or_pos n
  · exact ⟨by decide +kernel, by decide +kernel⟩
  · obtain rfl | below := small.eq_or_lt
    · exact ⟨by decide +kernel, by decide +kernel⟩
    · obtain ⟨bits, low, high⟩ := ofInt_shifted positive below
      have log : Nat.log2 n < 53 := (Nat.log2_lt positive.ne').mpr below
      constructor
      · rw [finite_iff, bits]
        omega
      · have exponents : 52 - Nat.log2 n + (Nat.log2 n + 1022) = 1074 := by omega
        rw [magnitude_of_lowBits bits low high, Nat.mul_assoc, ← pow_add, exponents, one]

theorem ofInt_finite {n : Nat} (small : n < 2 ^ 63) : (ofInt n).isFinite = true := by
  have largest : roundBits (2 ^ 63) 1 < 2047 * 2 ^ 52 := by decide +kernel
  rw [finite_iff, ofInt_eq, ofRatio_lowBits]
  exact (roundBits_mono small.le).trans_lt largest

theorem units_zero : (ofInt 0).units = 0 := by decide +kernel

theorem units_one : (ofInt 1).units = one := by decide +kernel

theorem lt_eq {x y : F64} (first : x.isNan = false) (second : y.isNan = false) :
    x.lt y = decide (x.units < y.units) := by
  rw [lt, first, second]
  rfl

theorem one_lt_pow {k : Nat} (larger : 1074 < k) : one < 2 ^ k := by
  rw [one]
  exact pow_lt_pow_right₀ Nat.one_lt_two larger

theorem one_lt_magnitude {x : F64} (infinite : ¬x.isFinite = true) : one < x.magnitude := by
  have exponent : x.exponentField = 2047 := by simpa [isFinite] using infinite
  have least : one < 2 ^ (2047 - 1) := one_lt_pow (by decide)
  rw [magnitude, if_neg (by omega), exponent]
  calc one
      < 2 ^ (2047 - 1) := least
    _ ≤ (2 ^ 52 + x.fractionField) * 2 ^ (2047 - 1) := Nat.le_mul_of_pos_left _ (by omega)

theorem clamp_unit {x : F64} (number : x.isNan = false) :
    (x.clamp (ofInt 0) (ofInt 1)).isFinite = true ∧
      (x.clamp (ofInt 0) (ofInt 1)).units = max 0 (min x.units one) := by
  have zero : (ofInt 0).isNan = false := by decide +kernel
  have unit : (ofInt 1).isNan = false := by decide +kernel
  have positive : (0 : Int) < one := by exact_mod_cast one_pos
  rw [clamp, lt_eq number zero, units_zero]
  by_cases below : x.units < 0
  · simp only [below, decide_true, if_true]
    rw [lt_eq unit zero, units_zero, units_one, 
      if_neg fun less => absurd (of_decide_eq_true less) positive.le.not_gt, units_zero]
    exact ⟨by decide +kernel, by omega⟩
  · simp only [below, decide_false, Bool.false_eq_true, if_false]
    rw [lt_eq unit number, units_one]
    by_cases above : (one : Int) < x.units
    · simp only [above, decide_true, if_true]
      rw [units_one]
      exact ⟨by decide +kernel, by omega⟩
    · simp only [above, decide_false, Bool.false_eq_true, if_false]
      refine ⟨?_, by omega⟩
      by_contra infinite
      have outside := one_lt_magnitude infinite
      have size := natAbs_units x
      omega

theorem mul_unit {n : Nat} {share : F64} (small : n < 2 ^ 63) (finite : share.isFinite = true) :
    (ofInt n).mul share = ofRatio share.negative ((ofInt n).magnitude * share.magnitude) (one * one) := by
  have number {x : F64} (held : x.isFinite = true) : x.isNan = false ∧ x.isInfinite = false := by
    have field : ¬x.exponentField = 2047 := by simpa [isFinite] using held
    simp [isNan, isInfinite, field]
  have left := number (ofInt_finite small)
  have right := number finite
  have sign : (ofInt n).negative = false := by rw [ofInt_eq, ofRatio_negative]
  rw [mul, left.1, right.1, left.2, right.2, sign]
  cases share.negative <;> rfl

theorem mul_unit_whole {n : Nat} {share : F64} (small : n < 2 ^ 63) (finite : share.isFinite = true)
    (lower : 0 ≤ share.units) (upper : share.units ≤ one) :
    ((ofInt n).mul share).isFinite = true ∧
      ((ofInt n).mul share).whole = (((ofInt n).mul share).magnitude / one : Nat) := by
  have positive : 0 < one * one := Nat.mul_pos one_pos one_pos
  have within : share.magnitude ≤ one := by
    have size := natAbs_units share
    omega
  have bounded : (ofInt n).magnitude * share.magnitude * one ≤ one * one * (ofInt n).magnitude := by
    calc (ofInt n).magnitude * share.magnitude * one
        ≤ (ofInt n).magnitude * one * one := Nat.mul_le_mul_right _ (Nat.mul_le_mul_left _ within)
      _ = one * one * (ofInt n).magnitude := by ring
  rw [mul_unit small finite]
  refine ⟨(ofRatio_le positive (ofInt_finite small) bounded _).1, ?_⟩
  rw [whole, ofRatio_negative]
  cases sign : share.negative with
  | false => rfl
  | true =>
      -- only the negative zero is neither below zero nor without a sign
      have zero : share.magnitude = 0 := by
        rw [units, sign, if_pos rfl] at lower
        omega
      have empty : (ofRatio true 0 (one * one)).magnitude = 0 := by
        obtain ⟨nothing, exactly⟩ := ofInt_exact (Nat.zero_le (2 ^ 53))
        have least : 0 * one ≤ one * one * (ofInt (0 : Nat)).magnitude := by
          rw [Nat.zero_mul]
          exact Nat.zero_le _
        have above := (ofRatio_le positive nothing least true).2
        rw [exactly, Nat.zero_mul] at above
        exact Nat.le_zero.mp above
      rw [zero, Nat.mul_zero, empty, Nat.zero_div]
      rfl

/-- The product of an exact integer and a share is cut to one of the two integers around it. -/
theorem mul_unit_parts {n : Nat} {share : F64} (small : n ≤ 2 ^ 53) (finite : share.isFinite = true)
    (within : share.magnitude ≤ one) :
    n * share.magnitude < (((ofInt n).mul share).magnitude / one + 1) * one ∧
      ((ofInt n).mul share).magnitude / one * one < n * share.magnitude + one := by
  have positive : 0 < one * one := Nat.mul_pos one_pos one_pos
  have most : n * share.magnitude ≤ n * one := Nat.mul_le_mul_left n within
  have product : (ofInt n).magnitude * share.magnitude * one = one * one * (n * share.magnitude) := by
    rw [(ofInt_exact small).2]
    ring
  rw [mul_unit (small.trans_lt (by decide)) finite]
  constructor
  · have floor : n * share.magnitude / one ≤ n := Nat.div_le_of_le_mul (by rwa [Nat.mul_comm one n])
    obtain ⟨finiteFloor, exactly⟩ := ofInt_exact (floor.trans small)
    have le : one * one * (ofInt ((n * share.magnitude / one : Nat) : Int)).magnitude ≤
        (ofInt n).magnitude * share.magnitude * one := by
      rw [exactly, product]
      exact Nat.mul_le_mul_left _ (Nat.div_mul_le_self _ _)
    have below := le_ofRatio positive finiteFloor le share.negative
    rw [exactly] at below
    have parts := (Nat.le_div_iff_mul_le one_pos).mpr below
    calc n * share.magnitude
        < (n * share.magnitude / one + 1) * one := Nat.lt_mul_of_div_lt (Nat.lt_succ_self _) one_pos
      _ ≤ _ := Nat.mul_le_mul_right _ (Nat.add_le_add_right parts 1)
  · have ceiling : (n * share.magnitude + (one - 1)) / one ≤ n := by
      rw [Nat.div_le_iff_le_mul_add_pred one_pos, Nat.mul_comm one n]
      omega
    obtain ⟨finiteCeiling, exactly⟩ := ofInt_exact (ceiling.trans small)
    have covers : n * share.magnitude ≤ (n * share.magnitude + (one - 1)) / one * one := by
      have parts := Nat.div_add_mod (n * share.magnitude + (one - 1)) one
      have rest := Nat.mod_lt (n * share.magnitude + (one - 1)) one_pos
      rw [Nat.mul_comm one] at parts
      omega
    have le : (ofInt n).magnitude * share.magnitude * one ≤
        one * one * (ofInt (((n * share.magnitude + (one - 1)) / one : Nat) : Int)).magnitude := by
      rw [exactly, product]
      exact Nat.mul_le_mul_left _ covers
    have above := (ofRatio_le positive finiteCeiling le share.negative).2
    rw [exactly] at above
    have last := one_pos
    calc _
        ≤ (ofRatio share.negative ((ofInt n).magnitude * share.magnitude) (one * one)).magnitude :=
          Nat.div_mul_le_self _ _
      _ ≤ (n * share.magnitude + (one - 1)) / one * one := above
      _ ≤ n * share.magnitude + (one - 1) := Nat.div_mul_le_self _ _
      _ < n * share.magnitude + one := by omega

end F64

end Auger
