import Mathlib

set_option autoImplicit false

/-! Decimal literals: how they are written, the rational they denote, and that rational
truncated to a number of places. -/

namespace Auger.General

inductive Sign
  | absent | plus | minus
  deriving DecidableEq, Repr

namespace Sign

def text : Sign → List Char
  | .absent => []
  | .plus => ['+']
  | .minus => ['-']

def apply {α : Type} [Neg α] : Sign → α → α
  | .minus, v => -v
  | _, v => v

theorem apply_injective (sign : Sign) {v w : Int} (same : sign.apply v = sign.apply w) : v = w := by
  cases sign with
  | minus => exact neg_injective same
  | _ => exact same

theorem apply_mul (sign : Sign) (q r : ℚ) : sign.apply q * r = sign.apply (q * r) := by
  cases sign with
  | minus => exact neg_mul q r
  | _ => rfl

theorem natAbs_apply (sign : Sign) (n : Nat) : (sign.apply (n : Int)).natAbs = n := by
  cases sign with
  | minus => exact (Int.natAbs_neg _).trans (Int.natAbs_natCast n)
  | _ => exact Int.natAbs_natCast n

end Sign

abbrev Digits := { text : List Char // ∀ c ∈ text, c.isDigit = true }

def spelled (digits : List Char) : Nat := digits.foldl (fun value c => value * 10 + (c.toNat - '0'.toNat)) 0

/-- The exponent of a literal: a mark, a sign and some digits. -/
structure Power where
  mark : Char
  marks : mark = 'e' ∨ mark = 'E'
  sign : Sign
  digits : Digits
  written : digits.1 ≠ []

namespace Power

def text (power : Power) : List Char := power.mark :: (power.sign.text ++ power.digits.1)

def value (power : Power) : Int := power.sign.apply (spelled power.digits.1 : Int)

end Power

/-- The shape of a literal, which need not have a digit before its exponent. -/
structure Layout where
  sign : Sign
  whole : Digits
  /-- The digits after the point, where there is one. -/
  fraction : Option Digits
  power : Option Power

namespace Layout

variable (layout : Layout)

def places : List Char := (layout.fraction.map Subtype.val).getD []

def pointText : List Char := (layout.fraction.map fun digits => '.' :: digits.1).getD []

def powerText : List Char := (layout.power.map Power.text).getD []

def text : List Char := layout.sign.text ++ (layout.whole.1 ++ layout.pointText) ++ layout.powerText

def coefficient : Nat := spelled (layout.whole.1 ++ layout.places)

def exponent : Int := (layout.power.map Power.value).getD 0

def value : ℚ := layout.sign.apply ((layout.coefficient : ℚ) * 10 ^ (layout.exponent - layout.places.length))

/-- At least one digit before the exponent. -/
def Written : Prop := layout.whole.1 ++ layout.places ≠ []

end Layout

/-- A decimal literal. -/
abbrev Numeral := { layout : Layout // layout.Written }

/-- The integer next to a rational on the side of zero. -/
def towardZero (q : ℚ) : Int := if 0 ≤ q then ⌊q⌋ else ⌈q⌉

theorem towardZero_neg (q : ℚ) : towardZero (-q) = -towardZero q := by
  unfold towardZero
  rcases lt_trichotomy q 0 with below | zero | above
  · rw [if_pos (by linarith), if_neg (not_le.mpr below), Int.floor_neg]
  · simp [zero]
  · rw [if_neg (by linarith), if_pos above.le, Int.ceil_neg]

theorem towardZero_apply (sign : Sign) (q : ℚ) : towardZero (sign.apply q) = sign.apply (towardZero q) := by
  cases sign with
  | minus => exact towardZero_neg q
  | _ => rfl

/-- A coefficient with its point moved to the right, or to the left where `places` is negative. -/
def movePoint (coefficient : Nat) (places : Int) : Nat := coefficient * 10 ^ places.toNat / 10 ^ (-places).toNat

theorem movePoint_right {places : Int} (right : 0 ≤ places) (coefficient : Nat) :
    movePoint coefficient places = coefficient * 10 ^ places.toNat := by
  have still : (-places).toNat = 0 := by omega
  rw [movePoint, still, Nat.pow_zero, Nat.div_one]

theorem movePoint_left {places : Int} (left : places ≤ 0) (coefficient : Nat) :
    movePoint coefficient places = coefficient / 10 ^ (-places).toNat := by
  have still : places.toNat = 0 := by omega
  rw [movePoint, still, Nat.pow_zero, Nat.mul_one]

theorem movePoint_le {places : Int} (left : places ≤ 0) (coefficient : Nat) :
    movePoint coefficient places ≤ coefficient := by
  rw [movePoint_left left]
  exact Nat.div_le_self _ _

theorem movePoint_eq_zero {places : Int} (coefficient : Nat) :
    movePoint coefficient places = 0 ↔ coefficient < 10 ^ (-places).toNat := by
  rcases le_total 0 places with right | left
  · have still : (-places).toNat = 0 := by omega
    rw [movePoint_right right, still, Nat.pow_zero, Nat.lt_one_iff, Nat.mul_eq_zero]
    exact or_iff_left (Nat.pos_iff_ne_zero.mp (Nat.pow_pos (by decide)))
  · rw [movePoint_left left, Nat.div_eq_zero_iff]
    exact or_iff_right (Nat.pos_iff_ne_zero.mp (Nat.pow_pos (by decide)))

theorem towardZero_movePoint (coefficient : Nat) (places : Int) :
    towardZero ((coefficient : ℚ) * 10 ^ places) = movePoint coefficient places := by
  have nonneg : (0 : ℚ) ≤ (coefficient : ℚ) * 10 ^ places := by positivity
  rw [towardZero, if_pos nonneg]
  rcases le_total 0 places with right | left
  · obtain ⟨n, rfl⟩ := Int.eq_ofNat_of_zero_le right
    rw [movePoint_right right, zpow_natCast, Int.toNat_natCast]
    have whole : (coefficient : ℚ) * 10 ^ n = ((coefficient * 10 ^ n : Nat) : ℚ) := by push_cast; rfl
    rw [whole, Int.floor_natCast]
  · obtain ⟨n, same⟩ := Int.eq_ofNat_of_zero_le (Int.neg_nonneg_of_nonpos left)
    have places_eq : places = -(n : Int) := by omega
    subst places_eq
    rw [movePoint_left left, neg_neg, Int.toNat_natCast, zpow_neg, zpow_natCast, ← div_eq_mul_inv]
    have quotient : (coefficient : ℚ) / 10 ^ n = (coefficient : ℚ) / ((10 ^ n : Nat) : ℚ) := by push_cast; rfl
    rw [quotient, Rat.floor_natCast_div_natCast]
    exact (Int.natCast_div _ _).symm

theorem Layout.truncated (layout : Layout) (scale : Int) :
    towardZero (layout.value * 10 ^ scale) =
      layout.sign.apply (movePoint layout.coefficient (scale + layout.exponent - layout.places.length) : Int) := by
  have ten : (10 : ℚ) ≠ 0 := by norm_num
  have together : (layout.coefficient : ℚ) * 10 ^ (layout.exponent - layout.places.length) * 10 ^ scale =
      layout.coefficient * 10 ^ (scale + layout.exponent - layout.places.length) := by
    rw [mul_assoc, ← zpow_add₀ ten]
    congr 2
    ring
  rw [Layout.value, Sign.apply_mul, together, towardZero_apply, towardZero_movePoint]

end Auger.General
