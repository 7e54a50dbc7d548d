import Auger.Columns
import Auger.General.JsonText
import Auger.General.JsonNumber

set_option autoImplicit false

/-! The JSON text of Arrow values, as result rows carry composite columns. -/

namespace Auger

open General

/-- The formatters of the arrow and chrono crates that encoding calls. -/
structure Formatters where
  /-- `Decimal128Array::value_as_string`, for a precision and a scale. -/
  decimal : Nat → Int → Int → String
  /-- `from_timestamp_millis` and `to_rfc3339`; `none` outside chrono's range. -/
  rfc3339 : Int64 → Option String

def escapeJson (c : Char) : List Char :=
  if c = '"' then ['\\', '"']
  else if c = '\\' then ['\\', '\\']
  else if c = '\n' then ['\\', 'n']
  else if c = '\r' then ['\\', 'r']
  else if c = '\t' then ['\\', 't']
  else if c.toNat < 0x20 then Json.unicodeEscape c.toNat
  else [c]

def quoteJson (s : String) : List Char := Json.quote escapeJson s

def hex (bytes : List UInt8) : String :=
  String.ofList (bytes.flatMap fun b => [Json.hexDigit (b.toNat / 16), Json.hexDigit (b.toNat % 16)])

def orNull {α : Type} (write : α → List Char) : Option α → List Char
  | some value => write value
  | none => "null".toList

section
variable (format : Formatters)

mutual
/-- Render one Arrow value as JSON. -/
def valueToJson : ArrayData → Nat → List Char
  | .boolean values, row => orNull (fun b => (if b then "true" else "false").toList) values[row]?.join
  | .int32 values, row => orNull (fun v => (toString v.toInt).toList) values[row]?.join
  | .int64 values, row => orNull (fun v => (toString v.toInt).toList) values[row]?.join
  -- JSON has no NaN or Infinity.
  | .float64 values, row => orNull (fun v => if v.isFinite then v.display.toList else "null".toList) values[row]?.join
  | .utf8 values, row => orNull quoteJson values[row]?.join
  | .timestampMillisecond _ values, row =>
      orNull (fun millis => match format.rfc3339 millis with
        | some text => quoteJson text
        | none => (toString millis.toInt).toList) values[row]?.join
  | .decimal128 precision scale values, row =>
      orNull (fun v => (format.decimal precision scale v).toList) values[row]?.join
  | .binary values, row => orNull (fun bytes => quoteJson (hex bytes)) values[row]?.join
  | .struct fields children validity, row =>
      if validity[row]?.getD false then '{' :: (Json.joined (structParts fields children row) ++ ['}'])
      else "null".toList
  | .list _ offsets child validity, row =>
      if validity[row]?.getD false then
        let start := offsets[row]?.getD 0
        '[' :: (Json.joined ((List.range (offsets[row + 1]?.getD 0 - start)).map fun j =>
          valueToJson child (start + j)) ++ [']'])
      else "null".toList
def structParts : List Field → List ArrayData → Nat → List (List Char)
  | field :: fields, child :: children, row =>
      (quoteJson field.name ++ ':' :: valueToJson child row) :: structParts fields children row
  | _, _, _ => []
end

mutual
/-- The JSON value a cell stands for. -/
def Cell.toJson : Cell → Json
  | .null => .null
  | .boolean b => .bool b
  | .int v => .number (toString v)
  | .float v => if v.isFinite then .number v.display else .null
  | .text s => .string s
  | .bytes bytes => .string (hex bytes)
  | .timestamp millis =>
      match format.rfc3339 (Int64.ofInt millis) with
      | some text => .string text
      | none => .number (toString millis)
  | .decimal unscaled scale => .number (format.decimal decimalPrecision scale unscaled)
  | .struct fields => .object (fieldsToJson fields)
  | .list items => .array (itemsToJson items)
def fieldsToJson : List (String × Cell) → List (String × Json)
  | [] => []
  | (name, cell) :: rest => (name, cell.toJson) :: fieldsToJson rest
def itemsToJson : List Cell → List Json
  | [] => []
  | cell :: rest => cell.toJson :: itemsToJson rest
end

end

mutual
/-- The types of inferred columns. -/
def DataType.inferred : DataType → Bool
  | .timestamp .millisecond _ => true
  | .timestamp _ _ | .largeUtf8 | .other _ => false
  | .decimal128 precision scale => precision == decimalPrecision && scale == decimalScale
  | .struct children => childrenInferred children
  | .list item => item.dataType.inferred
  | _ => true
def childrenInferred : List (FieldOf DataType) → Bool
  | [] => true
  | child :: rest => child.dataType.inferred && childrenInferred rest
end

mutual
theorem arrowType_inferred (shape : Shape) (path : String) (depth maxDepth : Nat) :
    (arrowType shape path depth maxDepth).1.inferred = true := by
  cases shape with
  | document children =>
      simp only [arrowType]
      split_ifs
      · exact buildFields_inferred children path _ _ _
      · rfl
  | array inner =>
      simp only [arrowType]
      split_ifs
      · exact arrowType_inferred inner path (depth + 1) maxDepth
      · rfl
  | _ => rfl
theorem buildFields_inferred (children : List (String × FieldShapeOf Shape)) (path : String)
    (total depth maxDepth : Nat) : childrenInferred (buildFields children path total depth maxDepth) = true := by
  cases children with
  | nil => rfl
  | cons entry rest =>
      rcases entry with ⟨key, shape, present, nulls, mixed⟩
      simp only [buildFields, childrenInferred, fieldAround, Bool.and_eq_true]
      exact ⟨arrowType_inferred shape _ depth maxDepth, buildFields_inferred rest path total depth maxDepth⟩
end

namespace ArrayData

mutual
def WellFormed : ArrayData → Prop
  | .struct fields children validity =>
      newStruct fields children validity = .ok (.struct fields children validity) ∧ allWellFormed children
  | .list item offsets child validity =>
      newList item offsets child validity = .ok (.list item offsets child validity) ∧ WellFormed child
  | _ => True
def allWellFormed : List ArrayData → Prop
  | [] => True
  | child :: rest => WellFormed child ∧ allWellFormed rest
end

end ArrayData

theorem escapeJson_text (c : Char) : Json.CharText c (escapeJson c) := by
  unfold escapeJson
  split_ifs with isQuote isBackslash isNewline isReturn isTab control
  · subst isQuote
    exact .short rfl
  · subst isBackslash
    exact .short rfl
  · subst isNewline
    exact .short rfl
  · subst isReturn
    exact .short rfl
  · subst isTab
    exact .short rfl
  · exact Json.unicodeEscape_text control
  · refine .plain ?_
    simp [Json.isUnescaped, isQuote, isBackslash, Nat.not_lt.mp control]

theorem quoteJson_text (s : String) : Json.StringText s (quoteJson s) := Json.quote_text escapeJson_text s

namespace F64

theorem positional_isUnsigned {digits : Nat} {scale : Int} (exact : 0 < digits ∨ scale ≤ 0) :
    Json.isUnsigned (positional digits scale) = true := by
  have padding : ∀ places, List.replicate (places + 1 - (decimalDigits digits).length) '0' ++ decimalDigits digits =
      Json.padded digits places := fun _ => rfl
  simp only [positional, padding]
  split_ifs with whole cut
  · -- Zeros after the digits; the digits of zero stand alone.
    refine Json.isUnsigned_whole ?_ ?_
    · intro c inside
      rcases List.mem_append.mp inside with digit | zero
      · exact Json.toDigits_digits digits c digit
      · rw [List.eq_of_mem_replicate zero]
        rfl
    · rcases exact with positive | small
      · have present : decimalDigits digits ≠ [] := Nat.toDigits_ne_nil
        apply Json.wholePart_of_head
        · rw [List.head?_append_of_ne_nil _ present]
          exact Json.toDigits_head positive
        · exact List.append_ne_nil_of_left_ne_nil present _
      · have nothing : scale.toNat = 0 := by omega
        rw [nothing, List.replicate_zero, List.append_nil]
        exact Json.wholePart_toDigits digits
  · have places : 0 < (-scale).toNat := by omega
    refine Json.isUnsigned_whole (fun c inside => ?_) (Json.wholePart_padded digits places)
    exact Json.padded_digits digits _ c (List.mem_of_mem_take inside)
  · have places : 0 < (-scale).toNat := by omega
    refine Json.isUnsigned_fraction (fun c inside => ?_) (Json.wholePart_padded digits places) (fun c inside => ?_) ?_
    · exact Json.padded_digits digits _ c (List.mem_of_mem_take inside)
    · have kept := (List.dropWhile_suffix _).subset (List.mem_reverse.mp inside)
      exact Json.padded_digits digits _ c (List.mem_of_mem_drop (List.mem_reverse.mp kept))
    · simpa using cut

theorem roundBits_zero (den : Nat) : roundBits 0 den = 0 := by
  simp only [roundBits, roundHalfEven, Nat.zero_mul, Nat.zero_div, Nat.zero_mod, Nat.mul_zero]
  split_ifs with up down
  · simp
  · exact absurd down (Nat.not_lt_zero _)
  · simp

theorem decimalRatio_zero (scale : Int) : (decimalRatio 0 scale).1 = 0 := by
  unfold decimalRatio
  split_ifs
  · exact Nat.zero_mul _
  · rfl

theorem shortestAt_roundTrips {magnitude bits precision digits : Nat} {scale : Int}
    (chosen : shortestAt magnitude bits precision = some (digits, scale)) :
    roundBits (decimalRatio digits scale).1 (decimalRatio digits scale).2 = bits := by
  unfold shortestAt at chosen
  extract_lets place roundTrips at chosen
  split at chosen
  extract_lets num den below nearest other at chosen
  clear_value nearest other place
  split_ifs at chosen with first second
  · cases chosen
    exact beq_iff_eq.mp first
  · cases chosen
    exact beq_iff_eq.mp second

theorem shortest_exact {magnitude bits : Nat} (nonzero : bits ≠ 0) :
    0 < (shortest magnitude bits).1 ∨ (shortest magnitude bits).2 ≤ 0 := by
  unfold shortest
  cases found : (List.range' 1 17).findSome? (shortestAt magnitude bits) with
  | none => exact .inr le_rfl
  | some pair =>
      rcases pair with ⟨digits, scale⟩
      obtain ⟨precision, -, chosen⟩ := List.exists_of_findSome?_eq_some found
      refine .inl (Nat.pos_of_ne_zero fun zero => ?_)
      change digits = 0 at zero
      subst zero
      have back := shortestAt_roundTrips chosen
      rw [decimalRatio_zero, roundBits_zero] at back
      exact nonzero back.symm

theorem bits_ne_zero {x : F64} (nonzero : x.magnitude ≠ 0) : x.bits.toNat % 2 ^ 63 ≠ 0 := by
  intro zero
  have exponent : x.exponentField = 0 := by
    simp only [exponentField]
    omega
  have fraction : x.fractionField = 0 := by
    simp only [fractionField]
    omega
  exact nonzero (by rw [magnitude, if_pos exponent, fraction])

theorem display_isNumber {x : F64} (finite : x.isFinite = true) : Json.isNumber x.display.toList = true := by
  have field : (x.exponentField == 2047) = false := by simpa [isFinite] using finite
  have nan : ¬x.isNan = true := by simp [isNan, field]
  have infinite : ¬x.isInfinite = true := by simp [isInfinite, field]
  unfold display
  rw [if_neg nan]
  extract_lets sign
  have signed : ∀ text : String, Json.isUnsigned text.toList = true → Json.isNumber (sign ++ text).toList = true := by
    intro text valid
    rw [String.toList_append]
    by_cases negative : x.negative = true
    · rw [show sign = "-" from if_pos negative]
      exact valid
    · rw [show sign = "" from if_neg negative]
      exact Json.isNumber_unsigned valid
  rw [if_neg infinite]
  by_cases zero : x.magnitude = 0
  · rw [if_pos zero]
    exact signed "0" rfl
  · have positive := @shortest_exact x.magnitude _ (bits_ne_zero zero)
    rw [if_neg zero]
    generalize shortest x.magnitude (x.bits.toNat % 2 ^ 63) = pair at positive ⊢
    rcases pair with ⟨digits, scale⟩
    refine signed _ ?_
    rw [String.toList_ofList]
    exact positional_isUnsigned positive

end F64

section
variable (format : Formatters)

/-- What is relied on of arrow: a decimal of the inferred type is written as a number. -/
def DecimalsAreNumbers : Prop :=
  ∀ value, Json.isNumber (format.decimal decimalPrecision decimalScale value).toList = true

variable {format}

theorem null_isText : Json.IsText .null "null".toList := rfl

theorem number_isText {lexeme : String} (valid : Json.isNumber lexeme.toList = true) :
    Json.IsText (.number lexeme) lexeme.toList := ⟨rfl, valid⟩

theorem orNull_isText {α : Type} {write : α → List Char} {wrap : α → Cell}
    (each : ∀ value, Json.IsText ((wrap value).toJson format) (write value)) (slot : Option α) :
    Json.IsText ((Cell.ofOption wrap slot).toJson format) (orNull write slot) := by
  cases slot with
  | none => exact null_isText
  | some value => exact each value

theorem itemsToJson_eq (cells : List Cell) : itemsToJson format cells = cells.map (Cell.toJson format) := by
  induction cells with
  | nil => rfl
  | cons cell rest ih => rw [itemsToJson, ih, List.map_cons]

theorem newStruct_types {fields : List Field} {children : List ArrayData} {validity : List Bool}
    (accepted : ArrayData.newStruct fields children validity = .ok (.struct fields children validity)) :
    List.Forall₂ (fun field child => field.dataType = child.dataType) fields children := by
  simp only [ArrayData.newStruct] at accepted
  split_ifs at accepted with lengths types
  refine List.forall₂_iff_zip.mpr ⟨not_not.mp lengths, ?_⟩
  intro field child inside
  simp only [List.any_eq_true, not_exists, not_and, decide_eq_true_eq, ne_eq, not_not] at types
  exact types (field, child) inside

theorem newList_type {item : Field} {offsets : List Nat} {child : ArrayData} {validity : List Bool}
    (accepted : ArrayData.newList item offsets child validity = .ok (.list item offsets child validity)) :
    item.dataType = child.dataType := by
  simp only [ArrayData.newList] at accepted
  split_ifs at accepted with short slots nulls types
  exact not_not.mp types

mutual
theorem valueToJson_isText (decimals : DecimalsAreNumbers format) (array : ArrayData) (formed : array.WellFormed)
    (inferred : array.dataType.inferred = true) (row : Nat) :
    Json.IsText ((array.cell row).toJson format) (valueToJson format array row) := by
  cases array with
  | boolean values =>
      simp only [ArrayData.cell, valueToJson]
      refine orNull_isText (fun b => ?_) _
      simp only [Cell.toJson, Json.IsText]
  | int32 values =>
      simp only [ArrayData.cell, valueToJson]
      refine orNull_isText (fun v => ?_) _
      exact number_isText (Json.isNumber_int v.toInt)
  | int64 values =>
      simp only [ArrayData.cell, valueToJson]
      refine orNull_isText (fun v => ?_) _
      exact number_isText (Json.isNumber_int v.toInt)
  | float64 values =>
      simp only [ArrayData.cell, valueToJson]
      refine orNull_isText (fun v => ?_) _
      simp only [Cell.toJson]
      split_ifs with finite
      · exact number_isText (F64.display_isNumber finite)
      · exact null_isText
  | utf8 values =>
      simp only [ArrayData.cell, valueToJson]
      refine orNull_isText (fun s => ?_) _
      exact quoteJson_text s
  | binary values =>
      simp only [ArrayData.cell, valueToJson]
      refine orNull_isText (fun bytes => ?_) _
      exact quoteJson_text (hex bytes)
  | timestampMillisecond timezone values =>
      simp only [ArrayData.cell, valueToJson]
      refine orNull_isText (fun millis => ?_) _
      simp only [Cell.toJson, Int64.ofInt_toInt]
      cases format.rfc3339 millis with
      | some text => exact quoteJson_text text
      | none => exact number_isText (Json.isNumber_int millis.toInt)
  | decimal128 precision scale values =>
      simp only [ArrayData.dataType, DataType.inferred, Bool.and_eq_true, beq_iff_eq] at inferred
      simp only [ArrayData.cell, valueToJson, inferred]
      refine orNull_isText (fun v => ?_) _
      exact number_isText (decimals v)
  | struct fields children validity =>
      simp only [ArrayData.cell, valueToJson]
      split_ifs
      · simp only [Cell.toJson]
        exact Json.isText_object (structParts_text decimals fields children formed.2 (newStruct_types formed.1) inferred row)
      · exact null_isText
  | list item offsets child validity =>
      have items : child.dataType.inferred = true := newList_type formed.1 ▸ inferred
      simp only [ArrayData.cell, valueToJson]
      split_ifs
      · simp only [Cell.toJson, itemsToJson_eq, List.map_map]
        refine Json.isText_array ?_
        rw [List.forall₂_map_left_iff, List.forall₂_map_right_iff, List.forall₂_same]
        exact fun j _ => valueToJson_isText decimals child formed.2 items _
      · exact null_isText
theorem structParts_text (decimals : DecimalsAreNumbers format) (fields : List Field) (children : List ArrayData)
    (formed : ArrayData.allWellFormed children)
    (types : List.Forall₂ (fun field child => field.dataType = child.dataType) fields children)
    (inferred : childrenInferred fields = true) (row : Nat) :
    List.Forall₂ Json.MemberText (fieldsToJson format (structCells fields children row))
      (structParts format fields children row) := by
  cases children with
  | nil =>
      cases types
      simp only [structCells, structParts, fieldsToJson]
      exact .nil
  | cons child children =>
      cases types with
      | @cons field _ fields _ here later =>
          simp only [childrenInferred, Bool.and_eq_true] at inferred
          have value := valueToJson_isText decimals child formed.1 (here ▸ inferred.1) row
          have others := structParts_text decimals fields children formed.2 later inferred.2 row
          simp only [structCells, structParts, fieldsToJson]
          exact .cons ⟨_, _, quoteJson_text field.name, value, rfl⟩ others
end

end

/-- `value_as_string`: at most `precision` digits, the point `scale` digits from the end. -/
def valueAsString (precision : Nat) (scale value : Int) : String :=
  let digits := Nat.toDigits 10 value.natAbs
  let shown := digits.take precision
  let sign := if value < 0 then "-" else ""
  let unsigned :=
    if scale = 0 then shown
    else if scale < 0 then shown ++ List.replicate scale.natAbs '0'
    else if scale.toNat < digits.length then
      shown.take (shown.length - scale.toNat) ++ '.' :: shown.drop (shown.length - scale.toNat)
    else '0' :: '.' :: (List.replicate (scale.toNat - digits.length) '0' ++ digits)
  sign ++ String.ofList unsigned

def arrowFormatters (rfc3339 : Int64 → Option String) : Formatters := ⟨valueAsString, rfc3339⟩

theorem arrow_decimalsAreNumbers (rfc3339 : Int64 → Option String) : DecimalsAreNumbers (arrowFormatters rfc3339) := by
  intro value
  simp only [arrowFormatters, valueAsString]
  have signed : ∀ text, Json.isUnsigned text = true →
      Json.isNumber ((if value < 0 then "-" else "") ++ String.ofList text).toList = true := by
    intro text valid
    rw [String.toList_append, String.toList_ofList]
    split_ifs
    · exact valid
    · exact Json.isNumber_unsigned valid
  apply signed
  have scale : decimalScale.toNat = 10 := rfl
  rw [if_neg (by decide), if_neg (by decide), scale]
  have inside := Json.toDigits_digits value.natAbs
  generalize shape : Nat.toDigits 10 value.natAbs = digits at inside ⊢
  by_cases long : 10 < digits.length
  · have kept : 10 < min decimalPrecision digits.length := lt_min (by decide) long
    have shown : (digits.take decimalPrecision).length = min decimalPrecision digits.length := List.length_take
    have positive : 0 < value.natAbs := by
      rcases Nat.eq_zero_or_pos value.natAbs with zero | above
      · rw [zero] at shape
        subst shape
        exact absurd long (by decide)
      · exact above
    have head : digits.head? ≠ some '0' := shape ▸ Json.toDigits_head positive
    have present : digits ≠ [] := List.ne_nil_of_length_pos (by omega)
    rw [if_pos long]
    refine Json.isUnsigned_fraction (fun c digit => ?_) ?_ (fun c digit => ?_) ?_
    · exact inside c (List.mem_of_mem_take (List.mem_of_mem_take digit))
    · rw [List.take_take]
      exact Json.wholePart_take head present (lt_min (by omega) (by decide))
    · exact inside c (List.mem_of_mem_take (List.mem_of_mem_drop digit))
    · apply List.ne_nil_of_length_pos
      rw [List.length_drop]
      omega
  · rw [if_neg long]
    have present : digits ≠ [] := by
      rw [← shape]
      exact Nat.toDigits_ne_nil
    refine @Json.isUnsigned_fraction ['0'] _ (by simp) rfl (fun c padded => ?_) ?_
    · rcases List.mem_append.mp padded with zero | digit
      · rw [List.eq_of_mem_replicate zero]
        rfl
      · exact inside c digit
    · exact List.append_ne_nil_of_right_ne_nil _ present

mutual
/-- A struct cell holds exactly the fields of its type, in order, at every level. -/
def Cell.Named : DataType → Cell → Prop
  | .struct children, .struct cells => childrenNamed children cells
  | .list item, .list cells => itemsNamed item.dataType cells
  | _, _ => True
def childrenNamed : List (FieldOf DataType) → List (String × Cell) → Prop
  | [], [] => True
  | child :: rest, (name, cell) :: cells => child.name = name ∧ Cell.Named child.dataType cell ∧ childrenNamed rest cells
  | _, _ => False
def itemsNamed : DataType → List Cell → Prop
  | _, [] => True
  | dataType, cell :: cells => Cell.Named dataType cell ∧ itemsNamed dataType cells
end

theorem itemsNamed_iff {dataType : DataType} {cells : List Cell} :
    itemsNamed dataType cells ↔ ∀ cell ∈ cells, cell.Named dataType := by
  induction cells with
  | nil => simp [itemsNamed]
  | cons cell rest ih => simp only [itemsNamed, ih, List.forall_mem_cons]

theorem named_null (dataType : DataType) : Cell.Named dataType .null := by
  cases dataType <;> simp only [Cell.Named]

mutual
theorem cell_named (array : ArrayData) (formed : array.WellFormed) (row : Nat) :
    (array.cell row).Named array.dataType := by
  cases array with
  | struct fields children validity =>
      simp only [ArrayData.cell, ArrayData.dataType]
      split_ifs
      · simp only [Cell.Named]
        exact structCells_named fields children formed.2 (newStruct_types formed.1) row
      · exact named_null _
  | list item offsets child validity =>
      simp only [ArrayData.cell, ArrayData.dataType]
      split_ifs
      · simp only [Cell.Named, itemsNamed_iff, newList_type formed.1]
        intro cell inside
        obtain ⟨j, -, rfl⟩ := List.mem_map.mp inside
        exact cell_named child formed.2 _
      · exact named_null _
  | _ => simp only [ArrayData.dataType, Cell.Named]
theorem structCells_named (fields : List Field) (children : List ArrayData)
    (formed : ArrayData.allWellFormed children)
    (types : List.Forall₂ (fun field child => field.dataType = child.dataType) fields children) (row : Nat) :
    childrenNamed fields (structCells fields children row) := by
  cases children with
  | nil =>
      cases types
      simp only [structCells, childrenNamed]
  | cons child children =>
      cases types with
      | @cons field _ fields _ here later =>
          simp only [structCells, childrenNamed, true_and]
          exact ⟨here ▸ cell_named child formed.1 row, structCells_named fields children formed.2 later row⟩
end

mutual
theorem buildTyped_wellFormed (text : BsonText) (dataType : DataType) (name : String) (tag : BsonTag)
    (values : List (Option Bson)) (array : ArrayData) (built : buildTyped text dataType name tag values = .ok array) :
    array.WellFormed := by
  cases dataType with
  | struct children =>
      simp only [buildTyped] at built
      obtain ⟨arrays, inner, built⟩ := bind_ok built
      split_ifs at built
      have same := built
      simp only [ArrayData.newStruct] at same
      split_ifs at same
      cases same
      exact ⟨built, buildChildren_wellFormed text children values arrays inner⟩
  | list item =>
      simp only [buildTyped] at built
      obtain ⟨offsets, laid, built⟩ := bind_ok built
      obtain ⟨child, inner, built⟩ := bind_ok built
      have same := built
      simp only [ArrayData.newList] at same
      split_ifs at same
      cases same
      exact ⟨built, buildTyped_wellFormed text item.dataType _ _ _ child inner⟩
  | decimal128 precision scale =>
      simp only [buildTyped, ArrayData.withPrecisionAndScale] at built
      split_ifs at built
      cases built
      trivial
  | timestamp unit timezone =>
      cases unit <;> cases built
      trivial
  | utf8 | binary =>
      simp only [buildTyped, ArrayData.fromTexts, ArrayData.fromBytes] at built
      split_ifs at built
      cases built
      trivial
  | largeUtf8 => cases built
  | other display => cases built
  | _ =>
      cases built
      trivial
theorem buildChildren_wellFormed (text : BsonText) (children : List (FieldOf DataType)) (values : List (Option Bson))
    (arrays : List ArrayData) (built : buildChildren text children values = .ok arrays) :
    ArrayData.allWellFormed arrays := by
  cases children with
  | nil =>
      cases built
      trivial
  | cons child rest =>
      simp only [buildChildren] at built
      obtain ⟨array, first, built⟩ := bind_ok built
      obtain ⟨others, later, built⟩ := bind_ok built
      cases built
      exact ⟨buildTyped_wellFormed text child.dataType _ _ _ array first,
        buildChildren_wellFormed text rest values others later⟩
end

theorem finish_inferred {sampler : Sampler} {maxDepth : Nat} {field : Field}
    (member : field ∈ sampler.finish maxDepth) : field.dataType.inferred = true := by
  obtain ⟨name, fs, slot, rfl⟩ := mem_finish member
  exact arrowType_inferred fs.shape name 0 maxDepth

/-- The text of a value is one JSON value, and is read back as what the cell holds. -/
theorem composite_json_reads_back (format : Formatters) (decimals : DecimalsAreNumbers format) (array : ArrayData)
    (formed : array.WellFormed) (inferred : array.dataType.inferred = true) (row : Nat) :
    Json.IsText ((array.cell row).toJson format) (valueToJson format array row) ∧
      Json.parse (String.ofList (valueToJson format array row)) = some ((array.cell row).toJson format) ∧
      (array.cell row).Named array.dataType := by
  have written := valueToJson_isText decimals array formed inferred row
  refine ⟨written, Json.parse_text ?_, cell_named array formed row⟩
  rwa [String.toList_ofList]

/-- A struct with a quoted text and a list with a null. -/
theorem composite_json_reads_back_struct :
    let item : Field := ⟨"item", .int32, true, []⟩
    let array : ArrayData := .struct [⟨"s", .utf8, true, []⟩, ⟨"x\ny", .list item, true, []⟩]
      [.utf8 [some "a\"b"], .list item [0, 2] (.int32 [some 7, none]) [true]] [true]
    Json.parse (String.ofList (valueToJson (arrowFormatters fun _ => none) array 0)) =
      some (.object [("s", .string "a\"b"), ("x\ny", .array [.number "7", .null])]) :=
  (composite_json_reads_back (arrowFormatters fun _ => none) (arrow_decimalsAreNumbers _)
    (.struct [⟨"s", .utf8, true, []⟩, ⟨"x\ny", .list ⟨"item", .int32, true, []⟩, true, []⟩]
      [.utf8 [some "a\"b"], .list ⟨"item", .int32, true, []⟩ [0, 2] (.int32 [some 7, none]) [true]] [true])
    ⟨rfl, trivial, ⟨rfl, trivial⟩, trivial⟩ rfl 0).2.1

theorem inferred_column_isText (text : BsonText) {format : Formatters} (decimals : DecimalsAreNumbers format)
    {sampler : Sampler} {maxDepth : Nat} {field : Field} (member : field ∈ sampler.finish maxDepth)
    {values : List (Option Bson)} {array : ArrayData} (built : buildArray text field values = .ok array) (row : Nat) :
    Json.IsText ((array.cell row).toJson format) (valueToJson format array row) := by
  apply valueToJson_isText decimals array (buildTyped_wellFormed text _ _ _ _ array built)
  rw [(buildTyped_decoded text _ _ _ _ array built).dataType]
  exact finish_inferred member

end Auger
