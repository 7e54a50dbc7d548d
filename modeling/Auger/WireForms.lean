import Auger.Wire
import Auger.General.JsonValue

set_option autoImplicit false

/-! What PostgreSQL reads from the wire, and which values it reads as themselves. -/

namespace Auger

open General

inductive Datum
  | bool (value : Bool)
  | integer (value : Int)
  /-- Floats of 16 and 32 bits. -/
  | half (bits : BitVec 16)
  | single (bits : BitVec 32)
  | double (value : F64)
  | nan
  | number (value : ℚ)
  | bytes (value : List UInt8)
  /-- Days since the epoch. -/
  | day (days : Int)
  /-- Nanoseconds since the epoch. -/
  | instant (nanos : Int)

/-- Every NaN is one. -/
def Datum.ofF64 (x : F64) : Datum := if x.isNan then .nan else .double x

def TimeUnit.nanos : TimeUnit → Int
  | .second => 1000000000
  | .millisecond => 1000000
  | .microsecond => 1000
  | .nanosecond => 1

def decimalValue (scale raw : Int) : ℚ := raw * 10 ^ (-scale)

def OutputArray.datum : OutputArray → Nat → Option Datum
  | .boolean values, row => values[row]?.join.map .bool
  | .int8 values, row => values[row]?.join.map fun v => .integer v.toInt
  | .int16 values, row => values[row]?.join.map fun v => .integer v.toInt
  | .int32 values, row => values[row]?.join.map fun v => .integer v.toInt
  | .int64 values, row => values[row]?.join.map fun v => .integer v.toInt
  | .uint8 values, row => values[row]?.join.map fun v => .integer v.toNat
  | .uint16 values, row => values[row]?.join.map fun v => .integer v.toNat
  | .uint32 values, row => values[row]?.join.map fun v => .integer v.toNat
  | .uint64 values, row => values[row]?.join.map fun v => .integer v.toNat
  | .float16 values, row => values[row]?.join.map .half
  | .float32 values, row => values[row]?.join.map .single
  | .float64 values, row => values[row]?.join.map Datum.ofF64
  | .decimal128 _ scale values, row => values[row]?.join.map fun raw => .number (decimalValue scale raw)
  | .decimal256 _ scale values, row => values[row]?.join.map fun raw => .number (decimalValue scale raw)
  | .binary values, row => values[row]?.join.map .bytes
  | .largeBinary values, row => values[row]?.join.map .bytes
  | .binaryView values, row => values[row]?.join.map .bytes
  | .date32 values, row => values[row]?.join.map fun v => .day v.toInt
  | .date64 values, row => values[row]?.join.map fun v => .day (v.toInt / 86400000)
  | .timestamp unit _ values, row => values[row]?.join.map fun v => .instant (v.toInt * unit.nanos)
  | _, _ => none

/-- A decimal numeral: a sign, digits, and digits after a point. -/
def numeral (negative : Bool) (whole fraction : List Char) : List Char :=
  (if negative then ['-'] else []) ++ whole ++ if fraction.isEmpty then [] else '.' :: fraction

def numeralValue (negative : Bool) (whole fraction : List Char) : ℚ :=
  (if negative then -1 else 1) * Json.digitsValue (whole ++ fraction) / 10 ^ fraction.length

/-- Some digits, and no more than a numeric column holds on either side of the point. -/
structure IsNumeral (whole fraction : List Char) : Prop where
  digits : ∀ c ∈ whole ++ fraction, c.isDigit = true
  present : whole ++ fraction ≠ []
  short : whole.length + fraction.length ≤ 1000

/-- The client's side as the encoder, chrono and PostgreSQL document it: the encoder's text
of a value, and what PostgreSQL reads. -/
structure Wire where
  textForm : PgType → Handed → String
  literal : PgType → String → Option Datum

/-- 0001-01-01 to 9999-12-31: the years written with four digits and no sign. -/
def InYears (millis : Int64) : Prop := -62135596800000 ≤ millis.toInt ∧ millis.toInt ≤ 253402300799999

def PgType.isTimestamp : PgType → Bool
  | .timestamp | .timestamptz => true
  | _ => false

structure Documented (format : Formatters) (wire : Wire) : Prop where
  text : ∀ type s, wire.textForm type (.text s) = s
  bool : ∀ b, wire.literal .bool (wire.textForm .bool (.bool b)) = some (.bool b)
  int4 : ∀ v, wire.literal .int4 (wire.textForm .int4 (.int4 v)) = some (.integer v.toInt)
  int8 : ∀ v, wire.literal .int8 (wire.textForm .int8 (.int8 v)) = some (.integer v.toInt)
  float8 : ∀ x, wire.literal .float8 (wire.textForm .float8 (.float8 x)) = some (Datum.ofF64 x)
  bytea : ∀ bytes, wire.literal .bytea (wire.textForm .bytea (.bytea bytes)) = some (.bytes bytes)
  numeric : ∀ mantissa scale, fitsDecimal mantissa scale = true →
    wire.literal .numeric (wire.textForm .numeric (.numeric mantissa scale)) = some (.number (decimalValue scale mantissa))
  numerals : ∀ negative whole fraction, IsNumeral whole fraction →
    wire.literal .numeric (String.ofList (numeral negative whole fraction)) =
      some (.number (numeralValue negative whole fraction))
  /-- chrono knows these years, and writes them as PostgreSQL reads them. -/
  inYears : ∀ type millis, PgType.isTimestamp type = true → InYears millis → (format.rfc3339 millis).isSome = true ∧
    wire.literal type (wire.textForm type (.dateTime millis)) = some (.instant (millis.toInt * 1000000))
  /-- chrono signs all other years, or writes the year zero; PostgreSQL reads neither. -/
  otherYears : ∀ type millis, PgType.isTimestamp type = true → ¬InYears millis →
    wire.literal type (wire.textForm type (.dateTime millis)) ≠ some (.instant (millis.toInt * 1000000))
  /-- A number of milliseconds is no timestamp. -/
  epoch : ∀ type millis, PgType.isTimestamp type = true → ¬InYears millis →
    wire.literal type (toString millis.toInt) ≠ some (.instant (millis.toInt * 1000000))

/-- Arrow writes a decimal with the digits of its precision, and no more. -/
def DecimalsInPrecision (format : Formatters) : Prop :=
  ∀ precision scale raw, (OutputType.decimal128 precision scale).Valid →
    ∃ whole fraction, IsNumeral whole fraction ∧
      format.decimal precision scale raw = String.ofList (numeral (raw < 0) whole fraction) ∧
      (numeralValue (raw < 0) whole fraction = decimalValue scale raw ↔ raw.natAbs < 10 ^ precision)

/-- The value handed over is not of the JSON arm, and its text form is a literal of
the declared type for the value in the slot. -/
def Matches (wire : Wire) (declared : PgType) (column : OutputArray) (row : Nat) (handed : Handed) : Prop :=
  (∀ s, handed ≠ .json s) ∧
    ∃ datum, column.datum row = some datum ∧ wire.literal declared (wire.textForm declared handed) = some datum

/-- The decimals that keep their value: in the encoder's own decimal where the scale is
not negative, and otherwise in the digits of the precision. -/
def decimalCarried (precision : Nat) (scale raw : Int) : Prop :=
  if fitsDecimal raw scale.toNat then 0 ≤ scale ∨ raw = 0 else raw.natAbs < 10 ^ precision

/-- The slots whose value arrives in its declared type. -/
def OutputArray.Carried : OutputArray → Nat → Prop
  | .boolean _, _ | .int32 _, _ | .int64 _, _ | .float64 _, _ | .binary _, _ => True
  | .timestamp .millisecond _ values, row => ∀ millis, values[row]?.join = some millis → InYears millis
  | .decimal128 precision scale values, row => ∀ raw, values[row]?.join = some raw → decimalCarried precision scale raw
  | _, _ => False

section
variable {format : OutputFormatters} {wire : Wire}

theorem matches_arm {declared : PgType} {column : OutputArray} {row : Nat} {handed : Handed} {datum : Datum}
    (encoded : encodeValue format column row = handed) (arm : ∀ s, handed ≠ .json s)
    (held : column.datum row = some datum) :
    Matches wire declared column row (encodeValue format column row) ↔
      wire.literal declared (wire.textForm declared handed) = some datum := by
  rw [Matches, encoded, held]
  constructor
  · rintro ⟨-, other, same, read⟩
    rw [same, read]
  · exact fun read => ⟨arm, _, rfl, read⟩

theorem json_matches_nothing {declared : PgType} {column : OutputArray} {row : Nat} {s : String}
    (handed : encodeValue format column row = .json s) : ¬Matches wire declared column row (encodeValue format column row) :=
  fun matched => matched.1 s handed

theorem decimalValue_nonneg {scale raw : Int} (nonneg : 0 ≤ scale) :
    decimalValue scale.toNat raw = decimalValue scale raw := by
  rw [Int.toNat_of_nonneg nonneg]

theorem decimalValue_negative {scale raw : Int} (negative : scale < 0) :
    decimalValue scale.toNat raw = decimalValue scale raw ↔ raw = 0 := by
  have zero : scale.toNat = 0 := by omega
  obtain ⟨n, rfl⟩ : ∃ n : Nat, scale = -(n + 1 : Int) := ⟨(-scale - 1).toNat, by omega⟩
  rw [zero]
  simp only [decimalValue, Nat.cast_zero, neg_zero, zpow_zero, mul_one, neg_neg]
  constructor
  · intro same
    by_contra nonzero
    have raw_ne : (raw : ℚ) ≠ 0 := Int.cast_ne_zero.mpr nonzero
    have one : (10 : ℚ) ^ ((n : Int) + 1) = 1 := by
      apply mul_left_cancel₀ raw_ne
      rw [← same, mul_one]
    have large : (1 : ℚ) < 10 ^ ((n : Int) + 1) := one_lt_zpow₀ (by norm_num) (by omega)
    exact absurd one large.ne'
  · rintro rfl
    simp

theorem decimal_matches_iff (documented : Documented format.toFormatters wire)
    (decimals : DecimalsInPrecision format.toFormatters) {precision : Nat} {scale : Int} {values : List (Option Int)}
    {row : Nat} {raw : Int} (valid : (OutputType.decimal128 precision scale).Valid) (found : values[row]?.join = some raw) :
    Matches wire .numeric (.decimal128 precision scale values) row
        (encodeValue format (.decimal128 precision scale values) row) ↔ decimalCarried precision scale raw := by
  have datum : (OutputArray.decimal128 precision scale values).datum row = some (.number (decimalValue scale raw)) := by
    simp only [OutputArray.datum, found, Option.map_some]
  by_cases fits : fitsDecimal raw scale.toNat = true
  · have encoded : encodeValue format (.decimal128 precision scale values) row = .numeric raw scale.toNat := by
      simp only [encodeValue, found, Handed.ofOption, if_pos fits]
    rw [matches_arm encoded (by simp) datum, documented.numeric raw _ fits, decimalCarried, if_pos fits,
      Option.some.injEq, Datum.number.injEq]
    rcases lt_or_ge scale 0 with negative | nonneg
    · rw [decimalValue_negative negative]
      exact ⟨.inr, fun kept => kept.resolve_left (not_le.mpr negative)⟩
    · exact iff_of_true (decimalValue_nonneg nonneg) (.inl nonneg)
  · have encoded : encodeValue format (.decimal128 precision scale values) row =
        .text (format.decimal precision scale raw) := by
      simp only [encodeValue, found, Handed.ofOption, if_neg fits]
    obtain ⟨whole, fraction, isNumeral, written, exact_iff⟩ := decimals precision scale raw valid
    rw [matches_arm encoded (by simp) datum, documented.text, written, documented.numerals _ _ _ isNumeral,
      decimalCarried, if_neg fits, Option.some.injEq, Datum.number.injEq, exact_iff]

theorem timestamp_matches_iff (documented : Documented format.toFormatters wire) {declared : PgType}
    (stamp : declared.isTimestamp = true) {timezone : Option String} {values : List (Option Int64)} {row : Nat}
    {millis : Int64} (found : values[row]?.join = some millis) :
    Matches wire declared (.timestamp .millisecond timezone values) row
        (encodeValue format (.timestamp .millisecond timezone values) row) ↔ InYears millis := by
  have datum : (OutputArray.timestamp .millisecond timezone values).datum row =
      some (.instant (millis.toInt * 1000000)) := by
    simp only [OutputArray.datum, found, Option.map_some, TimeUnit.nanos]
  by_cases known : (format.rfc3339 millis).isSome = true
  · have encoded : encodeValue format (.timestamp .millisecond timezone values) row = .dateTime millis := by
      simp only [encodeValue, found, Handed.ofOption, if_pos known]
    rw [matches_arm encoded (by simp) datum]
    constructor
    · intro read
      by_contra outside
      exact documented.otherYears declared millis stamp outside read
    · exact fun inside => (documented.inYears declared millis stamp inside).2
  · have encoded : encodeValue format (.timestamp .millisecond timezone values) row = .text (toString millis.toInt) := by
      simp only [encodeValue, found, Handed.ofOption, if_neg known]
    rw [matches_arm encoded (by simp) datum, documented.text]
    constructor
    · intro read
      by_contra outside
      exact documented.epoch declared millis stamp outside read
    · exact fun inside => absurd (documented.inYears declared millis stamp inside).1 known

theorem fallback_matches_nothing {declared : PgType} {column : OutputArray} {row : Nat} (present : column.isNull row = false)
    (last : encodeValue format column row =
      if column.isNull row then .null else .json (String.ofList (outputToJson format column row))) :
    ¬Matches wire declared column row (encodeValue format column row) := by
  rw [present, if_neg Bool.false_ne_true] at last
  exact json_matches_nothing last

theorem matches_iff_carried (documented : Documented format.toFormatters wire)
    (decimals : DecimalsInPrecision format.toFormatters) {column : OutputArray} (valid : column.dataType.Valid)
    {row : Nat} (present : column.isNull row = false) (declared : pgTypeOf column.dataType ≠ .text) :
    Matches wire (pgTypeOf column.dataType) column row (encodeValue format column row) ↔ column.Carried row := by
  have held : ∀ {α : Type} {slot : Option α}, slot.isNone = false → ∃ value, slot = some value :=
    fun known => Option.isSome_iff_exists.mp (by simpa using known)
  cases column with
  | boolean values =>
      obtain ⟨value, found⟩ := held present
      have encoded : encodeValue format (.boolean values) row = .bool value := by
        simp only [encodeValue, found, Handed.ofOption]
      have datum : (OutputArray.boolean values).datum row = some (.bool value) := by
        simp only [OutputArray.datum, found, Option.map_some]
      exact iff_of_true ((matches_arm encoded (by simp) datum).mpr (documented.bool value)) trivial
  | int32 values =>
      obtain ⟨value, found⟩ := held present
      have encoded : encodeValue format (.int32 values) row = .int4 value := by
        simp only [encodeValue, found, Handed.ofOption]
      have datum : (OutputArray.int32 values).datum row = some (.integer value.toInt) := by
        simp only [OutputArray.datum, found, Option.map_some]
      exact iff_of_true ((matches_arm encoded (by simp) datum).mpr (documented.int4 value)) trivial
  | int64 values =>
      obtain ⟨value, found⟩ := held present
      have encoded : encodeValue format (.int64 values) row = .int8 value := by
        simp only [encodeValue, found, Handed.ofOption]
      have datum : (OutputArray.int64 values).datum row = some (.integer value.toInt) := by
        simp only [OutputArray.datum, found, Option.map_some]
      exact iff_of_true ((matches_arm encoded (by simp) datum).mpr (documented.int8 value)) trivial
  | float64 values =>
      obtain ⟨value, found⟩ := held present
      have encoded : encodeValue format (.float64 values) row = .float8 value := by
        simp only [encodeValue, found, Handed.ofOption]
      have datum : (OutputArray.float64 values).datum row = some (Datum.ofF64 value) := by
        simp only [OutputArray.datum, found, Option.map_some]
      exact iff_of_true ((matches_arm encoded (by simp) datum).mpr (documented.float8 value)) trivial
  | binary values =>
      obtain ⟨value, found⟩ := held present
      have encoded : encodeValue format (.binary values) row = .bytea value := by
        simp only [encodeValue, found, Handed.ofOption]
      have datum : (OutputArray.binary values).datum row = some (.bytes value) := by
        simp only [OutputArray.datum, found, Option.map_some]
      exact iff_of_true ((matches_arm encoded (by simp) datum).mpr (documented.bytea value)) trivial
  | decimal128 precision scale values =>
      obtain ⟨raw, found⟩ := held present
      simp only [OutputArray.Carried, found, Option.some.injEq, forall_eq']
      exact decimal_matches_iff documented decimals valid found
  | timestamp unit timezone values =>
      cases unit with
      | millisecond =>
          obtain ⟨millis, found⟩ := held present
          have stamp : (pgTypeOf (.timestamp .millisecond timezone)).isTimestamp = true := by
            cases timezone <;> rfl
          simp only [OutputArray.Carried, found, Option.some.injEq, forall_eq']
          exact timestamp_matches_iff documented stamp found
      | _ =>
          refine iff_of_false (fallback_matches_nothing present ?_) ?_
          · simp only [encodeValue]
          · simp only [OutputArray.Carried, not_false_eq_true]
  | utf8 | utf8View | largeUtf8 | struct | list | other => exact absurd rfl declared
  | _ =>
      refine iff_of_false (fallback_matches_nothing present ?_) ?_
      · simp only [encodeValue]
      · simp only [OutputArray.Carried, not_false_eq_true]

theorem encodeBatch_at {batch : OutputBatch} {formatFor : Nat → FieldFormat} {j row : Nat} {info : FieldInfo}
    {column : OutputArray} {handed : Handed} (infoAt : (fieldInfos batch.schema formatFor)[j]? = some info)
    (columnAt : batch.columns[j]? = some column)
    (rowAt : (encodeBatch format batch)[row]?.bind (·[j]?) = some handed) :
    info.pgType = pgTypeOf column.dataType ∧ column.dataType.Valid ∧ handed = encodeValue format column row := by
  obtain ⟨values, inside, valueAt⟩ := Option.bind_eq_some_iff.mp rowAt
  have rowValues : values = batch.columns.map fun column => encodeValue format column row := by
    simp only [encodeBatch, List.getElem?_map, Option.map_eq_some_iff] at inside
    obtain ⟨index, ranged, rfl⟩ := inside
    obtain ⟨bound, same⟩ := List.getElem?_eq_some_iff.mp ranged
    rw [List.getElem_range] at same
    rw [same]
  rw [rowValues, List.getElem?_map, columnAt, Option.map_some, Option.some.injEq] at valueAt
  have types : (batch.schema.map Prod.snd)[j]? = some column.dataType := by
    rw [← batch.types, List.getElem?_map, columnAt, Option.map_some]
  rw [List.getElem?_map, Option.map_eq_some_iff] at types
  obtain ⟨field, fieldAt, same⟩ := types
  have declared : info = ⟨field.1, pgTypeOf field.2, formatFor j⟩ := by
    simpa [fieldInfos, List.getElem?_zipIdx, fieldAt] using infoAt.symm
  rw [declared, ← same]
  exact ⟨rfl, batch.valid field (List.mem_of_getElem? fieldAt), valueAt.symm⟩

end

theorem digitsValue_append (left right : List Char) :
    Json.digitsValue (left ++ right) = Json.digitsValue left * 10 ^ right.length + Json.digitsValue right := by
  simp only [Json.digitsValue, Nat.ofDigitChars_append]
  rw [Nat.ofDigitChars_eq_ofDigitChars_zero, Nat.mul_comm]

theorem digitsValue_zeros (n : Nat) : Json.digitsValue (List.replicate n '0') = 0 := by
  rw [Json.digitsValue, Nat.ofDigitChars_replicate_zero, Nat.mul_zero]

/-- The first digits are the number exactly when there are no more of them. -/
theorem digitsValue_take {n precision : Nat} (positive : 0 < precision) :
    Json.digitsValue ((Nat.toDigits 10 n).take precision) = n ↔ n < 10 ^ precision := by
  have whole : Json.digitsValue (Nat.toDigits 10 n) = n := Nat.ofDigitChars_ten_toDigits
  rw [← Nat.length_toDigits_le_iff (by decide) positive]
  constructor
  · intro same
    by_contra long
    have split := digitsValue_append ((Nat.toDigits 10 n).take precision) ((Nat.toDigits 10 n).drop precision)
    rw [List.take_append_drop, whole, same, List.length_drop] at split
    obtain ⟨k, more⟩ : ∃ k, (Nat.toDigits 10 n).length - precision = k + 1 := ⟨_, (Nat.sub_one_add_one (by omega)).symm⟩
    have tenfold : n * 10 ≤ n * 10 ^ (k + 1) := Nat.mul_le_mul_left n (by
      rw [Nat.pow_succ]
      exact Nat.le_mul_of_pos_left 10 (Nat.pos_of_ne_zero (by simp)))
    rw [more] at split
    have zero : n = 0 := by omega
    rw [zero, Nat.toDigits_zero, List.length_singleton] at long
    omega
  · intro short
    rw [List.take_of_length_le short, whole]

theorem isNumeral_of {whole fraction : List Char} (digits : ∀ c ∈ whole ++ fraction, c.isDigit = true)
    (present : whole ++ fraction ≠ []) (short : (whole ++ fraction).length ≤ 1000) : IsNumeral whole fraction :=
  ⟨digits, present, by rwa [List.length_append] at short⟩

/-- A numeral of `n` at the scale is the decimal exactly when `n` is its magnitude. -/
theorem numeralValue_iff {scale raw : Int} {whole fraction : List Char} {n : Nat}
    (value : (Json.digitsValue (whole ++ fraction) : ℚ) / 10 ^ fraction.length = n * 10 ^ (-scale)) :
    numeralValue (raw < 0) whole fraction = decimalValue scale raw ↔ n = raw.natAbs := by
  have power : (10 : ℚ) ^ (-scale) ≠ 0 := zpow_ne_zero _ (by norm_num)
  have sign : (if raw < 0 then -1 else 1 : ℚ) ≠ 0 := by split_ifs <;> norm_num
  have magnitude : (raw : ℚ) = (if raw < 0 then -1 else 1) * (raw.natAbs : ℚ) := by
    have cast : ((raw.natAbs : Int) : ℚ) = (raw.natAbs : ℚ) := rfl
    split_ifs with negative
    · have size : (raw.natAbs : Int) = -raw := by omega
      rw [← cast, size]
      simp
    · have size : (raw.natAbs : Int) = raw := by omega
      rw [← cast, size, one_mul]
  have left : numeralValue (raw < 0) whole fraction = (if raw < 0 then -1 else 1) * (n * 10 ^ (-scale)) := by
    simp only [numeralValue, decide_eq_true_eq, mul_div_assoc, value]
  rw [left, decimalValue, magnitude, mul_assoc]
  constructor
  · intro same
    exact_mod_cast mul_right_cancel₀ power (mul_left_cancel₀ sign same)
  · rintro rfl
    rfl

theorem numeral_whole (negative : Bool) (whole : List Char) :
    numeral negative whole [] = (if negative then ['-'] else []) ++ whole := by
  simp [numeral]

theorem numeral_point (negative : Bool) (whole : List Char) {fraction : List Char} (present : fraction ≠ []) :
    numeral negative whole fraction = (if negative then ['-'] else []) ++ (whole ++ '.' :: fraction) := by
  simp [numeral, present]

theorem ten_zpow_up {scale : Int} (negative : scale < 0) : (10 : ℚ) ^ (-scale) = 10 ^ scale.natAbs := by
  have same : -scale = (scale.natAbs : Int) := by omega
  rw [same, zpow_natCast]

theorem ten_zpow_down {scale : Int} (above : 0 < scale) : (10 : ℚ) ^ (-scale) = ((10 : ℚ) ^ scale.toNat)⁻¹ := by
  have same : scale = (scale.toNat : Int) := by omega
  rw [zpow_neg, same, zpow_natCast, Int.toNat_natCast]

theorem zeros_digits {n : Nat} {c : Char} (inside : c ∈ List.replicate n '0') : c.isDigit = true := by
  rw [List.eq_of_mem_replicate inside]
  rfl

/-- A text of the decimal with at most `precision` of its digits. -/
def InPrecision (precision : Nat) (scale raw : Int) (text : String) : Prop :=
  ∃ whole fraction, IsNumeral whole fraction ∧ text = String.ofList (numeral (raw < 0) whole fraction) ∧
    (numeralValue (raw < 0) whole fraction = decimalValue scale raw ↔ raw.natAbs < 10 ^ precision)

/-- What arrow writes behind the sign: some of the digits, with zeros or a point. -/
def unsignedText (precision : Nat) (scale : Int) (digits : List Char) : List Char :=
  if scale = 0 then digits.take precision
  else if scale < 0 then digits.take precision ++ List.replicate scale.natAbs '0'
  else if scale.toNat < digits.length then
    (digits.take precision).take ((digits.take precision).length - scale.toNat) ++
      '.' :: (digits.take precision).drop ((digits.take precision).length - scale.toNat)
  else '0' :: '.' :: (List.replicate (scale.toNat - digits.length) '0' ++ digits)

theorem valueAsString_unsigned (precision : Nat) (scale raw : Int) :
    valueAsString precision scale raw =
      String.ofList ((if raw < 0 then ['-'] else []) ++ unsignedText precision scale (Nat.toDigits 10 raw.natAbs)) := by
  have sign : (if raw < 0 then "-" else "") = String.ofList (if raw < 0 then ['-'] else []) := by
    split_ifs <;> rfl
  rw [String.ofList_append, ← sign]
  rfl

section
variable {precision : Nat} (positive : 0 < precision) (small : precision ≤ 500) {scale : Int} (raw : Int)

theorem shown_digits {n : Nat} : ∀ c ∈ (Nat.toDigits 10 n).take precision, c.isDigit = true :=
  fun c inside => Json.toDigits_digits n c (List.mem_of_mem_take inside)

theorem shown_length (n : Nat) : ((Nat.toDigits 10 n).take precision).length ≤ precision := by
  rw [List.length_take]
  exact min_le_left _ _

include positive

theorem shown_some (n : Nat) : (Nat.toDigits 10 n).take precision ≠ [] := by
  have nonempty : 0 < (Nat.toDigits 10 n).length := List.length_pos_of_ne_nil Nat.toDigits_ne_nil
  apply List.ne_nil_of_length_pos
  rw [List.length_take]
  omega

include small

theorem unscaled_inPrecision : InPrecision precision 0 raw (valueAsString precision 0 raw) := by
  have length := @shown_length precision raw.natAbs
  refine ⟨(Nat.toDigits 10 raw.natAbs).take precision, [], isNumeral_of ?_ ?_ ?_, ?_, ?_⟩
  · rw [List.append_nil]
    exact shown_digits
  · rw [List.append_nil]
    exact shown_some positive raw.natAbs
  · rw [List.append_nil]
    omega
  · rw [valueAsString_unsigned, unsignedText, if_pos rfl, numeral_whole]
    simp
  · rw [← digitsValue_take positive]
    apply numeralValue_iff
    simp

theorem raised_inPrecision (negative : scale < 0) (low : -128 ≤ scale) :
    InPrecision precision scale raw (valueAsString precision scale raw) := by
  have length := @shown_length precision raw.natAbs
  refine ⟨(Nat.toDigits 10 raw.natAbs).take precision ++ List.replicate scale.natAbs '0', [], isNumeral_of ?_ ?_ ?_,
    ?_, ?_⟩
  · intro c inside
    rw [List.append_nil] at inside
    rcases List.mem_append.mp inside with digit | padding
    · exact shown_digits c digit
    · exact zeros_digits padding
  · rw [List.append_nil]
    exact List.append_ne_nil_of_left_ne_nil (shown_some positive raw.natAbs) _
  · rw [List.append_nil, List.length_append, List.length_replicate]
    omega
  · rw [valueAsString_unsigned, unsignedText, if_neg negative.ne, if_pos negative, numeral_whole]
    simp
  · rw [← digitsValue_take positive]
    apply numeralValue_iff
    rw [ten_zpow_up negative, List.append_nil, digitsValue_append, digitsValue_zeros, List.length_replicate,
      List.length_nil]
    simp

theorem cut_inPrecision (above : 0 < scale) (high : scale ≤ precision)
    (cut : scale.toNat < (Nat.toDigits 10 raw.natAbs).length) :
    InPrecision precision scale raw (valueAsString precision scale raw) := by
  have length := @shown_length precision raw.natAbs
  have enough : scale.toNat ≤ ((Nat.toDigits 10 raw.natAbs).take precision).length := by
    rw [List.length_take]
    omega
  have unsigned := valueAsString_unsigned precision scale raw
  rw [unsignedText, if_neg above.ne', if_neg above.not_gt, if_pos cut] at unsigned
  have digits := @shown_digits precision raw.natAbs
  have present := shown_some positive raw.natAbs
  have exact_iff := @digitsValue_take raw.natAbs precision positive
  generalize (Nat.toDigits 10 raw.natAbs).take precision = shown at *
  have places : (shown.drop (shown.length - scale.toNat)).length = scale.toNat := by
    rw [List.length_drop]
    omega
  have fraction : shown.drop (shown.length - scale.toNat) ≠ [] := by
    apply List.ne_nil_of_length_pos
    omega
  refine ⟨shown.take (shown.length - scale.toNat), shown.drop (shown.length - scale.toNat), isNumeral_of ?_ ?_ ?_, ?_, ?_⟩
  · rw [List.take_append_drop]
    exact digits
  · rw [List.take_append_drop]
    exact present
  · rw [List.take_append_drop]
    omega
  · rw [unsigned, numeral_point _ _ fraction]
    simp
  · rw [← exact_iff]
    apply numeralValue_iff
    rw [List.take_append_drop, places, ten_zpow_down above, div_eq_mul_inv]

theorem padded_inPrecision (above : 0 < scale) (high : scale ≤ precision)
    (short : ¬scale.toNat < (Nat.toDigits 10 raw.natAbs).length) :
    InPrecision precision scale raw (valueAsString precision scale raw) := by
  have unsigned := valueAsString_unsigned precision scale raw
  rw [unsignedText, if_neg above.ne', if_neg above.not_gt, if_neg short] at unsigned
  have digits := Json.toDigits_digits raw.natAbs
  have present : Nat.toDigits 10 raw.natAbs ≠ [] := Nat.toDigits_ne_nil
  have every : Json.digitsValue (Nat.toDigits 10 raw.natAbs) = raw.natAbs := Nat.ofDigitChars_ten_toDigits
  have within : (Nat.toDigits 10 raw.natAbs).length ≤ precision ↔ raw.natAbs < 10 ^ precision :=
    Nat.length_toDigits_le_iff (by decide) positive
  generalize Nat.toDigits 10 raw.natAbs = all at *
  have fraction : List.replicate (scale.toNat - all.length) '0' ++ all ≠ [] :=
    List.append_ne_nil_of_right_ne_nil _ present
  have places : (List.replicate (scale.toNat - all.length) '0' ++ all).length = scale.toNat := by
    rw [List.length_append, List.length_replicate]
    omega
  have zero_value : Json.digitsValue ['0'] = 0 := rfl
  refine ⟨['0'], List.replicate (scale.toNat - all.length) '0' ++ all, isNumeral_of ?_ (by simp) ?_, ?_, ?_⟩
  · intro c inside
    rcases List.mem_append.mp inside with leading | rest
    · rw [List.mem_singleton.mp leading]
      rfl
    · rcases List.mem_append.mp rest with padding | digit
      · exact zeros_digits padding
      · exact digits c digit
  · rw [List.length_append, places, List.length_singleton]
    omega
  · rw [unsigned, numeral_point _ _ fraction]
    simp
  · refine iff_of_true ((numeralValue_iff ?_).mpr rfl) (within.mp (by omega))
    rw [places, ten_zpow_down above, digitsValue_append, digitsValue_append, zero_value, digitsValue_zeros, every,
      div_eq_mul_inv]
    simp

theorem valueAsString_inPrecision (low : -128 ≤ scale) (high : scale ≤ precision) :
    InPrecision precision scale raw (valueAsString precision scale raw) := by
  rcases lt_trichotomy scale 0 with negative | rfl | above
  · exact raised_inPrecision positive small raw negative low
  · exact unscaled_inPrecision positive small raw
  · by_cases cut : scale.toNat < (Nat.toDigits 10 raw.natAbs).length
    · exact cut_inPrecision positive small raw above high cut
    · exact padded_inPrecision positive small raw above high cut

end

theorem arrow_decimalsInPrecision (rfc3339 : Int64 → Option String) : DecimalsInPrecision (arrowFormatters rfc3339) := by
  intro precision scale raw valid
  obtain ⟨positive, small, low, high⟩ := valid
  exact valueAsString_inPrecision positive (small.trans (by decide)) raw low high

def readInteger (text : List Char) : Int := (Json.numberValue text).num

/-- Integers and decimals as PostgreSQL writes them; floats by their bits, bytes by
their characters and instants by a marked number stand in for the other forms. -/
def plainWire : Wire where
  textForm _ handed := match handed with
    | .null => ""
    | .bool b => if b then "t" else "f"
    | .int4 v => toString v.toInt
    | .int8 v => toString v.toInt
    | .float8 x => toString (x.bits.toNat : Int)
    | .text s => s
    | .bytea bytes => String.ofList (bytes.map fun b => Char.ofNat b.toNat)
    | .dateTime millis =>
        if -62135596800000 ≤ millis.toInt ∧ millis.toInt ≤ 253402300799999 then "@" ++ toString millis.toInt else ""
    | .numeric mantissa scale => valueAsString 38 scale mantissa
    | .json s => s
  literal type text := match type with
    | .bool => if text = "t" then some (.bool true) else if text = "f" then some (.bool false) else none
    | .int4 | .int8 => some (.integer (readInteger text.toList))
    | .float8 => some (Datum.ofF64 ⟨BitVec.ofNat 64 (readInteger text.toList).toNat⟩)
    | .numeric => some (.number (Json.numberValue text.toList))
    | .bytea => some (.bytes (text.toList.map fun c => UInt8.ofNat c.toNat))
    | .timestamp | .timestamptz => match text.toList with
        | '@' :: rest => some (.instant (readInteger rest * 1000000))
        | _ => none
    | _ => none

theorem readInteger_int (v : Int) : readInteger (toString v).toList = v := by
  rw [readInteger, Json.numberValue_int]
  rfl

theorem numberValue_unsigned {text : List Char} (unsigned : text.head? ≠ some '-') :
    Json.numberValue text = Json.unsignedValue text := by
  unfold Json.numberValue
  split
  case h_1 rest => simp at unsigned
  case h_2 => rfl

theorem numberValue_numeral (negative : Bool) {whole fraction : List Char} (isNumeral : IsNumeral whole fraction) :
    Json.numberValue (numeral negative whole fraction) = numeralValue negative whole fraction := by
  obtain ⟨digits, present, -⟩ := isNumeral
  have wholeDigits : ∀ c ∈ whole, c.isDigit = true := fun c inside => digits c (List.mem_append_left _ inside)
  have fractionDigits : ∀ c ∈ fraction, c.isDigit = true := fun c inside => digits c (List.mem_append_right _ inside)
  have taken : fraction.takeWhile Char.isDigit = fraction := List.takeWhile_eq_self_iff.mpr fractionDigits
  have left : fraction.dropWhile Char.isDigit = [] := List.dropWhile_eq_nil_iff.mpr fractionDigits
  have value : Json.unsignedValue (whole ++ if fraction.isEmpty then [] else '.' :: fraction) =
      Json.digitsValue (whole ++ fraction) / 10 ^ fraction.length := by
    have split : Json.splitFraction ((whole ++ if fraction.isEmpty then [] else '.' :: fraction).dropWhile Char.isDigit) =
        (fraction, []) := by
      rw [List.dropWhile_append_of_pos wholeDigits]
      cases fraction with
      | nil => rfl
      | cons c rest => simp [Json.splitFraction, taken, left]
    have before : (whole ++ if fraction.isEmpty then [] else '.' :: fraction).takeWhile Char.isDigit = whole := by
      rw [List.takeWhile_append_of_pos wholeDigits]
      cases fraction <;> simp
    simp only [Json.unsignedValue, split, before, Json.exponentValue, zero_sub, zpow_neg, zpow_natCast, div_eq_mul_inv]
  cases negative with
  | true =>
      simp only [numeral, if_true, List.cons_append, List.nil_append, Json.numberValue, value, numeralValue]
      ring
  | false =>
      have unsigned : (whole ++ if fraction.isEmpty then [] else '.' :: fraction).head? ≠ some '-' := by
        cases whole with
        | nil => cases fraction <;> simp
        | cons c rest =>
            have digit := wholeDigits c List.mem_cons_self
            intro minus
            rw [List.cons_append, List.head?_cons, Option.some.injEq] at minus
            rw [minus] at digit
            cases digit
      simp only [numeral, Bool.false_eq_true, if_false, List.nil_append, numberValue_unsigned unsigned, value, numeralValue,
        one_mul]

theorem toString_int_head (v : Int) (rest : List Char) : (toString v).toList ≠ '@' :: rest := by
  intro same
  rw [Int.toString_eq_repr, Int.repr_eq_if] at same
  split_ifs at same with nonneg
  · rw [Nat.toList_repr] at same
    have digit := Json.toDigits_digits v.toNat '@' (by rw [same]; exact List.mem_cons_self)
    cases digit
  · rw [String.toList_append] at same
    cases same

theorem plainWire_documented : Documented (arrowFormatters fun _ => some "") plainWire where
  text _ _ := rfl
  bool b := by cases b <;> rfl
  int4 v := congrArg (some ∘ Datum.integer) (readInteger_int v.toInt)
  int8 v := congrArg (some ∘ Datum.integer) (readInteger_int v.toInt)
  float8 x := by
    simp only [plainWire, readInteger_int, Int.toNat_natCast, BitVec.ofNat_toNat, BitVec.setWidth_eq]
  bytea bytes := by
    have back : ∀ b : UInt8, UInt8.ofNat (Char.ofNat b.toNat).toNat = b := by
      intro b
      have small := b.toNat_lt
      rw [Char.toNat_ofNat, if_pos (.inl (by omega)), UInt8.ofNat_toNat]
    simp only [plainWire, String.toList_ofList, List.map_map, Function.comp_def, back, List.map_id']
  numeric mantissa scale fits := by
    simp only [fitsDecimal, Bool.and_eq_true, decide_eq_true_eq] at fits
    obtain ⟨whole, fraction, isNumeral, written, exact_iff⟩ := arrow_decimalsInPrecision (fun _ => none) 38 scale mantissa
      ⟨by omega, by omega, by omega, by omega⟩
    have text : valueAsString 38 scale mantissa = String.ofList (numeral (mantissa < 0) whole fraction) := written
    have bound : mantissa.natAbs < 10 ^ 38 := fits.1.trans (by norm_num)
    simp only [plainWire, text, String.toList_ofList, numberValue_numeral _ isNumeral, exact_iff.mpr bound]
  numerals negative whole fraction isNumeral := by
    simp only [plainWire, String.toList_ofList, numberValue_numeral negative isNumeral]
  inYears type millis stamp inside := by
    refine ⟨rfl, ?_⟩
    cases type <;> first | cases stamp; done | skip
    all_goals
      simp only [plainWire, if_pos (show _ ∧ _ from inside), String.toList_append]
      exact congrArg (fun v => some (Datum.instant (v * 1000000))) (readInteger_int millis.toInt)
  otherYears type millis stamp outside := by
    cases type <;> first | cases stamp; done | skip
    all_goals simp [plainWire, if_neg (show ¬(_ ∧ _) from outside)]
  epoch type millis stamp outside := by
    have head := toString_int_head millis.toInt
    cases type <;> first | cases stamp; done | skip
    all_goals
      simp only [plainWire]
      exact nofun

/-- Below a declared type other than text, a value arrives as itself exactly in the
columns and slots that have an arm made for them. -/
theorem wire_matches_iff (format : OutputFormatters) (wire : Wire) (documented : Documented format.toFormatters wire)
    (decimals : DecimalsInPrecision format.toFormatters) (batch : OutputBatch) (formatFor : Nat → FieldFormat)
    (j row : Nat) (info : FieldInfo) (column : OutputArray) (handed : Handed)
    (infoAt : (fieldInfos batch.schema formatFor)[j]? = some info) (columnAt : batch.columns[j]? = some column)
    (rowAt : (encodeBatch format batch)[row]?.bind (·[j]?) = some handed) (present : column.isNull row = false)
    (declared : info.pgType ≠ .text) : Matches wire info.pgType column row handed ↔ column.Carried row := by
  obtain ⟨same, valid, rfl⟩ := encodeBatch_at infoAt columnAt rowAt
  rw [same] at declared ⊢
  exact matches_iff_carried documented decimals valid present declared

def prices : OutputBatch where
  schema := [("price", .decimal128 38 10)]
  columns := [.decimal128 38 10 [some 12500000000, none]]
  numRows := 2
  types := rfl
  valid := by simp [OutputType.Valid]

def plainFormatters : OutputFormatters := ⟨arrowFormatters fun _ => some "", fun _ _ => "Array"⟩

/-- The first price. -/
theorem wire_matches_iff_prices :
    Matches plainWire .numeric (.decimal128 38 10 [some 12500000000, none]) 0 (.numeric 12500000000 10) := by
  refine (wire_matches_iff plainFormatters plainWire plainWire_documented (arrow_decimalsInPrecision _) prices
    (fun _ => .text) 0 0 ⟨"price", .numeric, .text⟩ _ _ rfl rfl rfl rfl (by decide)).mpr ?_
  intro raw found
  cases found
  exact .inl (by decide)

def shorts : OutputBatch where
  schema := [("rank", .int16)]
  columns := [.int16 [some 5]]
  numRows := 1
  types := rfl
  valid := by simp [OutputType.Valid]

/-- A 16-bit integer is declared `int2` and goes out as the text of the whole array. -/
theorem wire_mismatch : ¬∀ (format : OutputFormatters) (wire : Wire), Documented format.toFormatters wire →
    DecimalsInPrecision format.toFormatters → ∀ (batch : OutputBatch) (formatFor : Nat → FieldFormat) (j row : Nat)
    (info : FieldInfo) (column : OutputArray) (handed : Handed),
    (fieldInfos batch.schema formatFor)[j]? = some info → batch.columns[j]? = some column →
    (encodeBatch format batch)[row]?.bind (·[j]?) = some handed → column.isNull row = false → info.pgType ≠ .text →
    Matches wire info.pgType column row handed := by
  intro all
  have matched := all plainFormatters plainWire plainWire_documented (arrow_decimalsInPrecision _) shorts (fun _ => .text)
    0 0 ⟨"rank", .int2, .text⟩ _ _ rfl rfl rfl rfl (by decide)
  exact fallback_matches_nothing rfl rfl matched

end Auger
