import Mathlib.Data.Rat.Defs
import Mathlib.Algebra.Order.Ring.Rat

set_option autoImplicit false

namespace Auger

/-- An IEEE 754 binary64 value, by its bit pattern. -/
structure F64 where
  bits : BitVec 64
  deriving DecidableEq, Repr

namespace F64

def negative (x : F64) : Bool := x.bits.msb

def exponentField (x : F64) : Nat := x.bits.toNat / 2 ^ 52 % 2 ^ 11

def fractionField (x : F64) : Nat := x.bits.toNat % 2 ^ 52

def isNan (x : F64) : Bool := x.exponentField == 2047 && x.fractionField != 0

def isInfinite (x : F64) : Bool := x.exponentField == 2047 && x.fractionField == 0

def isFinite (x : F64) : Bool := x.exponentField != 2047

/-- Every finite double is a whole number of units of `2 ^ -1074`. -/
def magnitude (x : F64) : Nat :=
  if x.exponentField = 0 then x.fractionField
  else (2 ^ 52 + x.fractionField) * 2 ^ (x.exponentField - 1)

def units (x : F64) : Int := if x.negative then -(x.magnitude : Int) else x.magnitude

def toRat (x : F64) : ℚ := mkRat x.units (2 ^ 1074)

def isIntegral (x : F64) : Bool := x.magnitude % 2 ^ 1074 == 0

/-- The `as i64` cast: truncation toward zero, saturating at the ends, NaN to zero. -/
def toI64 (x : F64) : Int64 :=
  if x.isNan then 0
  else if x.isInfinite then (if x.negative then Int64.minValue else Int64.maxValue)
  else
    let whole : Int := (x.magnitude / 2 ^ 1074 : Nat)
    let signed := if x.negative then -whole else whole
    if signed < Int64.minValue.toInt then Int64.minValue
    else if Int64.maxValue.toInt < signed then Int64.maxValue
    else Int64.ofInt signed

/-- `num / den` rounded to an integer, ties to even. -/
def roundHalfEven (num den : Nat) : Nat :=
  let q := num / den
  let twice := 2 * (num % den)
  if twice < den then q
  else if den < twice then q + 1
  else if q % 2 = 0 then q else q + 1

/-- The bit pattern (sign bit clear) of the double nearest to `num / den`. -/
def roundBits (num den : Nat) : Nat :=
  let scaled := num * 2 ^ 1074
  let shift := Nat.log2 (scaled / den) - 52
  let mantissa := roundHalfEven scaled (den * 2 ^ shift)
  min (shift * 2 ^ 52 + mantissa) (2047 * 2 ^ 52)

def ofRatio (negative : Bool) (num den : Nat) : F64 :=
  ⟨BitVec.ofNat 64 ((if negative then 2 ^ 63 else 0) + roundBits num den)⟩

/-- An integer as a double (`v as f64`), rounded to nearest, ties to even. -/
def ofInt (v : Int) : F64 := ofRatio (v < 0) v.natAbs 1

def nan : F64 := ⟨0x7ff8000000000000⟩

def infinity (negative : Bool) : F64 := if negative then ⟨0xfff0000000000000⟩ else ⟨0x7ff0000000000000⟩

/-- The key of `total_cmp`: negatives below positives, larger magnitudes outward. -/
def totalKey (x : F64) : Int :=
  let magnitudeBits : Int := (x.bits.toNat % 2 ^ 63 : Nat)
  if x.negative then -magnitudeBits - 1 else magnitudeBits

-- Shortest decimal text, as the standard library displays a double.
def decimalDigits (n : Nat) : List Char := Nat.toDigits 10 n

/-- The exponent `k` with `10 ^ k ≤ magnitude / 2 ^ 1074 < 10 ^ (k + 1)`, found
for values below one by multiplying by ten until the value reaches one. -/
def decimalExponent (magnitude : Nat) : Int :=
  if 2 ^ 1074 ≤ magnitude then ((decimalDigits (magnitude / 2 ^ 1074)).length - 1 : Nat)
  else climb 400 magnitude 0
where
  climb : Nat → Nat → Nat → Int
    | 0, _, steps => -(steps : Int)
    | fuel + 1, value, steps =>
      if 2 ^ 1074 ≤ value then -(steps : Int) else climb fuel (value * 10) (steps + 1)

/-- The value `digits * 10 ^ scale` as a ratio. -/
def decimalRatio (digits : Nat) (scale : Int) : Nat × Nat :=
  if 0 ≤ scale then (digits * 10 ^ scale.toNat, 1) else (digits, 10 ^ (-scale).toNat)

/-- The closest `precision`-digit decimal that rounds back to the same double. -/
def shortestAt (magnitude bits precision : Nat) : Option (Nat × Int) :=
  let scale := decimalExponent magnitude - ((precision : Int) - 1)
  let (unitNum, unitDen) := decimalRatio 1 scale
  let num := magnitude * unitDen
  let den := 2 ^ 1074 * unitNum
  let below := num / den
  let roundTrips (digits : Nat) : Bool :=
    let (n, d) := decimalRatio digits scale
    roundBits n d == bits
  let nearest := roundHalfEven num den
  let other := if nearest = below then below + 1 else below
  if roundTrips nearest then some (nearest, scale)
  else if roundTrips other then some (other, scale)
  else none

/-- Seventeen digits always suffice. -/
def shortest (magnitude bits : Nat) : Nat × Int :=
  ((List.range' 1 17).findSome? (shortestAt magnitude bits)).getD (0, 0)

/-- Plain positional text of `digits * 10 ^ scale`, without an exponent. -/
def positional (digits : Nat) (scale : Int) : List Char :=
  let text := decimalDigits digits
  if 0 ≤ scale then text ++ List.replicate scale.toNat '0'
  else
    let places := (-scale).toNat
    let padded := List.replicate (places + 1 - text.length) '0' ++ text
    let whole := padded.take (padded.length - places)
    let fraction := ((padded.drop (padded.length - places)).reverse.dropWhile (· == '0')).reverse
    if fraction.isEmpty then whole else whole ++ '.' :: fraction

/-- `Display` for `f64`. -/
def display (x : F64) : String :=
  if x.isNan then "NaN"
  else
    let sign := if x.negative then "-" else ""
    if x.isInfinite then sign ++ "inf"
    else if x.magnitude = 0 then sign ++ "0"
    else
      let (digits, scale) := shortest x.magnitude (x.bits.toNat % 2 ^ 63)
      sign ++ String.ofList (positional digits scale)

/-- `format!("{x:.6}")` on a finite non-negative double: exact value, half to even. -/
def fixed6 (x : F64) : String :=
  let micro := roundHalfEven (x.magnitude * 10 ^ 6) (2 ^ 1074)
  let fraction := decimalDigits (micro % 10 ^ 6)
  String.ofList (decimalDigits (micro / 10 ^ 6) ++ '.' ::
    (List.replicate (6 - fraction.length) '0' ++ fraction))

-- Decimal text to double, as `str::parse::<f64>` reads it.
def digitValue (digits : List Char) : Nat :=
  digits.foldl (fun value c => value * 10 + (c.toNat - '0'.toNat)) 0

def asciiLower (text : List Char) : List Char :=
  text.map fun c => if 'A' ≤ c ∧ c ≤ 'Z' then Char.ofNat (c.toNat + 32) else c

def splitSign : List Char → Bool × List Char
  | '-' :: rest => (true, rest)
  | '+' :: rest => (false, rest)
  | text => (false, text)

def parseExponent (text : List Char) : Option Int :=
  let (negative, digits) := splitSign text
  if digits.isEmpty || !digits.all Char.isDigit then none
  else some (if negative then -(digitValue digits : Int) else digitValue digits)

def parse (text : String) : Option F64 :=
  let (negative, body) := splitSign text.toList
  let lowered := asciiLower body
  if lowered = "inf".toList ∨ lowered = "infinity".toList then some (infinity negative)
  else if lowered = "nan".toList then some nan
  else
    let mantissa := lowered.takeWhile (· != 'e')
    let whole := mantissa.takeWhile (· != '.')
    let fraction := (mantissa.dropWhile (· != '.')).drop 1
    let exponent := match lowered.dropWhile (· != 'e') with
      | [] => some 0
      | _ :: rest => parseExponent rest
    if (whole.isEmpty && fraction.isEmpty) || !(whole ++ fraction).all Char.isDigit then none
    else exponent.map fun e =>
      let (num, den) := decimalRatio (digitValue (whole ++ fraction)) (e - fraction.length)
      ofRatio negative num den

end F64

end Auger
