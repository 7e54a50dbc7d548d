import Auger.DecimalValues

set_option autoImplicit false

/-! Which cells of a decoded sample are NULL, level by level. -/

namespace Auger

open General DecimalText

/-- The text a decimal column reads a stored number from. -/
def decimalTextOf (text : BsonText) : Bson → Option String
  | .double x => some x.display
  | .decimal128 d => some (text.decimal d)
  | _ => none

/-- The values of a decimal column that are parsed from their text, where the
text is refused. -/
def decimalRefused (text : BsonText) (scale : Int) : Option Bson → Bool
  | some (.double x) => (parseDecimal x.display scale).isNone
  | some (.decimal128 d) => (parseDecimal (text.decimal d) scale).isNone
  | _ => false

/-- The text spells no number whose digits at the scale fit an `i128`: NaN, the infinities
and numbers that are too wide. -/
def SpellsNoDecimal (source : String) (scale : Int) : Prop :=
  ∀ numeral : Numeral, body source = numeral.1.text → 2 ^ 127 ≤ (towardZero (numeral.1.value * 10 ^ scale)).natAbs

/-- The text is beyond the parser's own arithmetic: digits without a number among them, an
exponent that is no `i32`, or a number that would fit but spells a coefficient that does
not, or moves its point more than 38 places. -/
def Overstrains (source : String) (scale : Int) : Prop :=
  Digitless (body source) scale ∨ ∃ numeral : Numeral, body source = numeral.1.text ∧
    ((-2 ^ 31 ≤ numeral.1.exponent ∧ numeral.1.exponent < 2 ^ 31) →
      (towardZero (numeral.1.value * 10 ^ scale)).natAbs < 2 ^ 127 ∧
        (2 ^ 127 ≤ numeral.1.coefficient ∨ distance numeral.1 scale < -38 ∨ 38 < distance numeral.1 scale))

theorem parseDecimal_isNone_iff {source : String} {scale : Int8} (high : scale.toInt ≤ 38)
    (plain : ¬Overstrains source scale.toInt) :
    (parseDecimal source scale.toInt).isNone = true ↔ SpellsNoDecimal source scale.toInt := by
  rw [Overstrains, not_or, not_exists] at plain
  have each : ∀ numeral : Numeral, body source = numeral.1.text →
      ((parseDecimal source scale.toInt).isNone = true ↔
        2 ^ 127 ≤ (towardZero (numeral.1.value * 10 ^ scale.toInt)).natAbs) := by
    intro numeral written
    have near := plain.2 numeral
    rw [not_and, Classical.not_imp] at near
    obtain ⟨range, within⟩ := near written
    rw [not_and, not_or, not_or] at within
    have bounded : distance numeral.1 scale.toInt < 2 ^ 31 + 38 := by
      rw [distance]
      omega
    rw [parseDecimal_numeral numeral scale.toInt written range]
    rw [natAbs_truncated] at within ⊢
    by_cases large : 2 ^ 127 ≤ movePoint numeral.1.coefficient (distance numeral.1 scale.toInt)
    · rw [if_neg (not_accepts_large bounded large)]
      exact iff_of_true rfl large
    · obtain ⟨small, low, most⟩ := within (not_le.mp large)
      have still : wrapI32 (distance numeral.1 scale.toInt) = distance numeral.1 scale.toInt :=
        wrapI32_near (by omega) (by omega)
      have kept : Kept numeral.1.coefficient (distance numeral.1 scale.toInt) :=
        ⟨not_le.mp small, by omega, by omega, .inl still⟩
      rw [if_pos (kept.accepts bounded (not_le.mp large)).1]
      exact iff_of_false Bool.false_ne_true large
  by_cases spelled : ∃ numeral : Numeral, body source = numeral.1.text
  · obtain ⟨numeral, written⟩ := spelled
    constructor
    · exact fun refused other same => (each other same).mp refused
    · exact fun none_fits => (each numeral written).mpr (none_fits numeral written)
  · have foreign : NotNumeral (body source) := fun numeral written => spelled ⟨numeral, written⟩
    refine iff_of_true ?_ fun numeral written => absurd written (foreign numeral)
    rw [Option.isNone_iff_eq_none, ← Option.not_isSome_iff_eq_none]
    exact fun read => plain.1 (digitless_of_read foreign read)

section
variable (text : BsonText) (decimal : Int → Option Bson → Cell → Prop)

mutual
/-- A cell is NULL exactly where its value is missing or null, and so on for the children
of a struct and the items of a list; of the cells of decimal columns `decimal` holds. -/
def NullsAgree : DataType → Option Bson → Cell → Prop
  | .decimal128 _ scale, v, cell => decimal scale v cell
  | .struct children, v, cell => cell.isNull = isNull v ∧ ChildrenAgree children v cell
  | .list item, v, cell =>
      cell.isNull = isNull v ∧ ∀ items, listItems v = some items →
        ∃ cells, cell = .list cells ∧
          List.Forall₂ (fun x c => NullsAgree item.dataType (some x) c) items cells
  | _, v, cell => cell.isNull = isNull v
def ChildrenAgree : List (FieldOf DataType) → Option Bson → Cell → Prop
  | [], _, _ => True
  | child :: rest, v, cell =>
      NullsAgree child.dataType (childSlot child.name v) (cell.getField child.name) ∧
        ChildrenAgree rest v cell
end

/-- What holds of the cells of a decimal column: where a value is absent, and of whatever a
decimal shape admits. -/
structure DecimalCells : Prop where
  absent : ∀ scale v, isNull v = true → decimal scale v .null
  present : ∀ precision tag mixed v, Shape.decimal.admits mixed v = true →
    decimal decimalScale (some v) (decodeTyped text (.decimal128 precision decimalScale) tag (some v))

/-- The cell is NULL where the text is refused. -/
def NullIfRefused (scale : Int) (v : Option Bson) (cell : Cell) : Prop :=
  cell.isNull = (isNull v || decimalRefused text scale v)

/-- Where the parser can work with the text, the cell is NULL exactly when it spells no
number that fits. -/
def NullIfNoDecimal (scale : Int) (v : Option Bson) (cell : Cell) : Prop :=
  (∀ value source, v = some value → decimalTextOf text value = some source → ¬Overstrains source scale) →
    (cell.isNull = true ↔ isNull v = true ∨
      ∃ value source, v = some value ∧ decimalTextOf text value = some source ∧ SpellsNoDecimal source scale)

variable {decimal}

theorem childrenAgree_iff (children : List Field) (v : Option Bson) (cell : Cell) :
    ChildrenAgree decimal children v cell ↔
      ∀ child ∈ children,
        NullsAgree decimal child.dataType (childSlot child.name v) (cell.getField child.name) := by
  induction children with
  | nil => simp [ChildrenAgree]
  | cons child rest ih => simp only [ChildrenAgree, ih, List.forall_mem_cons]

theorem listItems_absent {v : Option Bson} (absent : isNull v = true) : listItems v = none := by
  cases v with
  | none => rfl
  | some value => cases value <;> first | rfl | cases absent

theorem childSlot_absent {v : Option Bson} (absent : isNull v = true) (key : String) :
    childSlot key v = none := by
  cases v with
  | none => rfl
  | some value => cases value <;> first | rfl | cases absent

theorem decode_absent (dataType : DataType) (tag : BsonTag) {v : Option Bson} (absent : isNull v = true) :
    decodeTyped text dataType tag v = .null := by
  cases v with
  | none => exact decodeTyped_none text dataType tag
  | some value => exact decodeTyped_null text dataType tag absent

mutual
theorem nullsAgree_absent (decimals : DecimalCells text decimal) (dataType : DataType) {v : Option Bson}
    (absent : isNull v = true) : NullsAgree decimal dataType v .null := by
  cases dataType with
  | struct children =>
      simp only [NullsAgree]
      exact ⟨absent.symm, childrenAgree_absent decimals children absent⟩
  | list item =>
      simp only [NullsAgree]
      refine ⟨absent.symm, ?_⟩
      intro items found
      rw [listItems_absent absent] at found
      cases found
  | decimal128 precision scale =>
      simp only [NullsAgree]
      exact decimals.absent scale v absent
  | _ => simp [NullsAgree, absent, Cell.isNull]
theorem childrenAgree_absent (decimals : DecimalCells text decimal) (children : List (FieldOf DataType))
    {v : Option Bson} (absent : isNull v = true) : ChildrenAgree decimal children v .null := by
  cases children with
  | nil => trivial
  | cons child rest =>
      simp only [ChildrenAgree, childSlot_absent absent]
      exact ⟨nullsAgree_absent decimals child.dataType rfl, childrenAgree_absent decimals rest absent⟩
end

theorem scaleInt_fits (v : Int) (low : -2 ^ 63 ≤ v) (high : v < 2 ^ 63) :
    scaleInt v decimalScale = some (v * 10 ^ 10) := by
  have factor : checkedPow10 (max decimalScale 0).toNat = some (10 ^ 10) := by decide
  have fits : -2 ^ 127 ≤ v * 10 ^ 10 ∧ v * 10 ^ 10 < 2 ^ 127 := by omega
  rw [scaleInt, factor, Option.bind_some, inI128, if_pos fits]

theorem checkedMul64_seconds (time : UInt32) : (checkedMul64 time.toNat 1000).isSome = true := by
  have bound := time.toNat_lt
  have fits : -2 ^ 63 ≤ (time.toNat : Int) * 1000 ∧ (time.toNat : Int) * 1000 < 2 ^ 63 := by omega
  rw [checkedMul64, if_pos fits]
  rfl

theorem utf8_agrees (tag : BsonTag) (v : Option Bson) :
    NullsAgree decimal .utf8 v (decodeTyped text .utf8 tag v) := by
  simp only [NullsAgree, decodeTyped]
  cases v with
  | none => rfl
  | some value => cases absent : value.isNull <;> simp [isNull, absent, renderText, Cell.ofOption, Cell.isNull]

theorem decimal_refused (precision : Nat) (tag : BsonTag) {mixed : Bool} {v : Bson}
    (admitted : Shape.decimal.admits mixed v = true) :
    NullIfRefused text decimalScale (some v)
      (decodeTyped text (.decimal128 precision decimalScale) tag (some v)) := by
  simp only [NullIfRefused, decodeTyped]
  cases v with
  | int32 n =>
      have low := n.le_toInt
      have high := n.toInt_lt
      rw [asDecimal, scaleInt_fits n.toInt (by omega) (by omega)]
      rfl
  | int64 n =>
      rw [asDecimal, scaleInt_fits n.toInt n.le_toInt n.toInt_lt]
      rfl
  | double x =>
      simp only [asDecimal, decimalRefused]
      cases parseDecimal x.display decimalScale <;> rfl
  | decimal128 d =>
      simp only [asDecimal, decimalRefused]
      cases parseDecimal (text.decimal d) decimalScale <;> rfl
  | _ => cases admitted

theorem refused_cells : DecimalCells text (NullIfRefused text) where
  absent scale v absent := by rw [NullIfRefused, absent]; rfl
  present precision tag _ _ admitted := decimal_refused text precision tag admitted

theorem noDecimal_cells : DecimalCells text (NullIfNoDecimal text) where
  absent scale v absent _ := iff_of_true rfl (.inl absent)
  present precision tag mixed v admitted := by
    intro plain
    have ten : ((10 : Int8).toInt) = decimalScale := rfl
    have read := fun source => @parseDecimal_isNone_iff source 10 (by decide)
    rw [ten] at read
    have cell : _ = (isNull (some v) || decimalRefused text decimalScale (some v)) :=
      decimal_refused text precision tag admitted
    rw [cell, Bool.or_eq_true]
    refine or_congr_right ?_
    cases v with
    | double x => simpa [decimalRefused, decimalTextOf] using read x.display (plain _ _ rfl rfl)
    | decimal128 d => simpa [decimalRefused, decimalTextOf] using read (text.decimal d) (plain _ _ rfl rfl)
    | _ => simp [decimalRefused, decimalTextOf]

theorem date_agrees (timezone : Option String) (tag : BsonTag) {mixed : Bool} {v : Bson}
    (admitted : Shape.dateTime.admits mixed v = true) :
    NullsAgree decimal (.timestamp .millisecond timezone) (some v)
      (decodeTyped text (.timestamp .millisecond timezone) tag (some v)) := by
  simp only [NullsAgree, decodeTyped]
  cases v with
  | dateTime millis => rfl
  | timestamp time increment =>
      have fits := checkedMul64_seconds time
      simp only [asMillis]
      cases millis : checkedMul64 time.toNat 1000 with
      | none =>
          rw [millis] at fits
          cases fits
      | some value => rfl
  | _ => cases admitted

/-- What a scalar shape admits decodes to a value, refused decimals apart. -/
theorem admitted_agrees (decimals : DecimalCells text decimal) {shape : Shape} {mixed : Bool} (path : String) (depth maxDepth : Nat) {v : Bson}
    (admitted : shape.admits mixed v = true) :
    NullsAgree decimal (arrowType shape path depth maxDepth).1 (some v)
      (decodeTyped text (arrowType shape path depth maxDepth).1
        (arrowType shape path depth maxDepth).2 (some v)) := by
  cases shape with
  | utf8 | objectId | json => exact utf8_agrees text _ _
  | decimal => exact decimals.present _ _ _ _ admitted
  | dateTime => exact date_agrees text _ _ admitted
  | bsonTimestamp =>
      cases v with
      | timestamp time increment => exact @date_agrees text decimal _ _ mixed _ rfl
      | _ => cases admitted
  | int32 =>
      cases v with
      | int32 n =>
          simp only [arrowType, NullsAgree, decodeTyped, asI64, Option.bind_some, toI32_toInt64]
          rfl
      | _ => cases admitted
  | bool | int64 | double | binary => cases v <;> first | (cases admitted; done) | rfl
  | _ => cases admitted

theorem struct_agrees (decimals : DecimalCells text decimal) {fields : List (String × FieldShape)} {inner : Fields} (path : String)
    (total depth maxDepth : Nat) (tag : BsonTag) (ordered : SortedMap.Ordered fields)
    (each : ∀ key fs, (key, fs) ∈ fields → ∀ v, inner.lookup key = some v →
      NullsAgree decimal (arrowType fs.shape (path ++ "." ++ key) depth maxDepth).1 (some v)
        (decodeTyped text (arrowType fs.shape (path ++ "." ++ key) depth maxDepth).1
          (arrowType fs.shape (path ++ "." ++ key) depth maxDepth).2 (some v))) :
    NullsAgree decimal (.struct (buildFields fields path total depth maxDepth)) (some (.document inner))
      (decodeTyped text (.struct (buildFields fields path total depth maxDepth)) tag
        (some (.document inner))) := by
  simp only [NullsAgree, decodeTyped, isDocument, if_true]
  refine ⟨rfl, (childrenAgree_iff _ _ _).mpr ?_⟩
  intro child member
  obtain ⟨key, fs, inside, rfl⟩ := mem_buildFields member
  have named : findField key (buildFields fields path total depth maxDepth) = some
      (fieldAround key (path ++ "." ++ key) fs total
        (arrowType fs.shape (path ++ "." ++ key) depth maxDepth)) := by
    rw [findField_buildFields, SortedMap.lookup_of_mem ordered inside, Option.map_some]
  have cell : (Cell.struct (decodeChildren text (buildFields fields path total depth maxDepth)
      (some (.document inner)))).getField key =
        decodeTyped text (arrowType fs.shape (path ++ "." ++ key) depth maxDepth).1
          (arrowType fs.shape (path ++ "." ++ key) depth maxDepth).2 (inner.lookup key) := by
    rw [Cell.getField, lookup_decodeChildren, named, Option.map_some, Option.getD_some, decodeField,
      tag_fieldAround, childSlot_document]
    rfl
  simp only [fieldAround, childSlot_document, cell]
  cases found : inner.lookup key with
  | none =>
      rw [decode_absent text _ _ rfl]
      exact nullsAgree_absent text decimals _ rfl
  | some v => exact each key fs inside v found

mutual
theorem decoded_agrees (decimals : DecimalCells text decimal) (shape : Shape) (mixed : Bool) (values : List Bson) (path : String)
    (depth maxDepth : Nat) (ordered : shape.WellOrdered) (explained : Explains shape mixed values) :
    ∀ v ∈ values, NullsAgree decimal (arrowType shape path depth maxDepth).1 (some v)
      (decodeTyped text (arrowType shape path depth maxDepth).1
        (arrowType shape path depth maxDepth).2 (some v)) := by
  intro v member
  by_cases absent : v.isNull = true
  · rw [decode_absent text _ _ (v := some v) absent]
    exact nullsAgree_absent text decimals _ absent
  cases shape with
  | document fields =>
      simp only [Explains] at explained
      rcases explained.1 v member with null | ⟨inner, rfl⟩
      · exact absurd null absent
      · simp only [arrowType]
        split_ifs
        · apply struct_agrees text decimals _ _ _ _ _ ordered.1
          intro key fs inside w found
          exact entries_agree decimals fields values path (depth + 1) maxDepth ordered.2 explained.2.2 key fs inside
            w (mem_childValues.mpr ⟨inner, member, found⟩)
        · exact utf8_agrees text _ _
  | array inner =>
      simp only [Explains] at explained
      simp only [arrowType]
      split_ifs
      · have itemTag : ∀ item : DataType × BsonTag,
            BsonTag.of ⟨"item", item.1, true, [(metaBson, item.2.asStr)]⟩ = item.2 := by
          simp [BsonTag.of]
        simp only [NullsAgree, decodeTyped, itemTag]
        cases found : listItems (some v) with
        | none =>
            exfalso
            apply absent
            cases v <;> first | rfl | cases found
        | some items =>
            refine ⟨by simpa [Cell.isNull, isNull] using absent, ?_⟩
            intro items' same
            cases same
            refine ⟨_, rfl, ?_⟩
            rw [List.forall₂_map_right_iff, List.forall₂_same]
            intro x inside
            apply decoded_agrees decimals inner true (elements values) path (depth + 1) maxDepth ordered explained.2
            exact List.mem_flatMap.mpr ⟨v, member, by rw [found]; exact inside⟩
      · exact utf8_agrees text _ _
  | _ =>
      rcases explained v member with null | admitted
      · exact absurd null absent
      · exact admitted_agrees text decimals path depth maxDepth admitted
termination_by structural shape
theorem entries_agree (decimals : DecimalCells text decimal) (fields : List (String × FieldShapeOf Shape)) (values : List Bson)
    (path : String) (depth maxDepth : Nat) (ordered : Shape.fieldsWellOrdered fields)
    (explained : fieldsExplain fields values) :
    ∀ key fs, (key, fs) ∈ fields → ∀ v ∈ childValues key values,
      NullsAgree decimal (arrowType fs.shape (path ++ "." ++ key) depth maxDepth).1 (some v)
        (decodeTyped text (arrowType fs.shape (path ++ "." ++ key) depth maxDepth).1
          (arrowType fs.shape (path ++ "." ++ key) depth maxDepth).2 (some v)) := by
  intro key fs member
  cases fields with
  | nil => cases member
  | cons entry rest =>
      rcases entry with ⟨key', shape, present, nulls, mixed⟩
      simp only [Shape.fieldsWellOrdered] at ordered
      simp only [fieldsExplain] at explained
      rcases List.mem_cons.mp member with same | later
      · cases same
        exact decoded_agrees decimals shape mixed _ _ depth maxDepth ordered.1 explained.1
      · exact entries_agree decimals rest values path depth maxDepth ordered.2 explained.2 key fs later
termination_by structural fields
end

end

/-- A cell of a decoded sample is NULL exactly where the document holds nothing
or null, at every level; in a decimal column also where its text spells no number that
fits. -/
theorem sampled_nulls_agree (text : BsonText) (docs : List Document) (maxDepth : Nat) (batch : RecordBatch)
    (decoded : documentsToBatch text (inferredSchema docs maxDepth) docs = .ok batch) (i : Nat)
    (bound : i < docs.length) (field : Field) (member : field ∈ inferredSchema docs maxDepth)
    (plain : '.' ∉ field.name.toList) :
    ∃ cell, (batch.row i).lookup field.name = some cell ∧
      NullsAgree (NullIfNoDecimal text) field.dataType (docs[i].get field.name) cell := by
  rw [documentsToBatch_row text decoded i bound, lookup_decodeRow, findField_mem_finish member]
  refine ⟨_, rfl, ?_⟩
  obtain ⟨name, fs, slot, rfl⟩ := mem_finish member
  have path : fieldPath (buildField name name fs (Sampler.observeAll docs).docsSeen 0 maxDepth) = name :=
    path_fieldAround _ _ _ _ _
  have read : lookupPath docs[i] name = docs[i].get name := lookupPath_plain _ plain
  show NullsAgree (NullIfNoDecimal text) _ (docs[i].get name) (decodeField text _ (lookupPath docs[i] (fieldPath _)))
  rw [path, read, decodeField, buildField, tag_fieldAround]
  simp only [fieldAround]
  cases found : docs[i].get name with
  | none =>
      rw [decode_absent text _ _ rfl]
      exact nullsAgree_absent text (noDecimal_cells text) _ rfl
  | some v =>
      apply decoded_agrees text (noDecimal_cells text) fs.shape fs.mixed (valuesAt name docs) name 0 maxDepth
        (observeAll_wellOrdered slot) (observeAll_explains slot)
      exact List.mem_filterMap.mpr ⟨docs[i], List.getElem_mem bound, found⟩

/-- At the root alone: a cell is NULL exactly where the document has no such key
or holds null there. -/
def NullMeansAbsent (text : BsonText) (docs : List Document) (maxDepth : Nat) : Prop :=
  ∀ batch, documentsToBatch text (inferredSchema docs maxDepth) docs = .ok batch →
    ∀ (i : Nat) (bound : i < docs.length), ∀ field ∈ inferredSchema docs maxDepth,
      ∃ cell, (batch.row i).lookup field.name = some cell ∧
        (cell.isNull = true ↔ isNull (docs[i].get field.name) = true)

/-- A decimal, a NaN and an integer: the column is a decimal one. -/
def readings : List Document :=
  [⟨[("x", .decimal128 (.finite false 1 0))], rfl⟩, ⟨[("x", .double .nan)], rfl⟩, ⟨[("x", .int32 5)], rfl⟩]

def readingText : BsonText := ⟨fun _ => "1", fun _ => none, fun _ => ""⟩

/-- A root key that reads like a path. -/
def dottedKey : List Document := [⟨[("a.b", .int32 1)], rfl⟩]

theorem NullMeansAbsent.refuted {text : BsonText} {docs : List Document} {maxDepth : Nat} (name : String)
    {i : Nat} (bound : i < docs.length)
    (decoded : (documentsToBatch text (inferredSchema docs maxDepth) docs).isOk = true)
    (known : (findField name (inferredSchema docs maxDepth)).isSome = true)
    (present : isNull (docs[i].get name) = false)
    (null : ((decodeRow text (inferredSchema docs maxDepth) docs[i]).lookup name).any Cell.isNull = true) :
    ¬NullMeansAbsent text docs maxDepth := by
  intro claimed
  obtain ⟨batch, ok⟩ := ok_of_isOk decoded
  obtain ⟨field, found⟩ := Option.isSome_iff_exists.mp known
  obtain ⟨member, rfl⟩ := findField_spec found
  obtain ⟨cell, read, agrees⟩ := claimed batch ok i bound field member
  rw [documentsToBatch_row text ok i bound] at read
  rw [read] at null
  have absent := agrees.mp null
  rw [present] at absent
  cases absent

theorem nulls_hide_values :
    ¬NullMeansAbsent readingText readings 4 ∧ ¬NullMeansAbsent plainText dottedKey 4 := by
  constructor
  · exact NullMeansAbsent.refuted "x" (show 1 < readings.length by decide) (by decide) (by decide)
      (by decide) (by decide)
  · exact NullMeansAbsent.refuted "a.b" (show 0 < dottedKey.length by decide) (by decide) (by decide)
      (by decide) (by decide)

theorem not_overstrained_nan : ¬Overstrains "NaN" decimalScale := by
  have foreign : ∀ layout : Layout, body "NaN" ≠ layout.text := not_laid_out "NaN" (c := 'N') (by decide) rfl
  rintro (⟨layout, written, -⟩ | ⟨numeral, written, -⟩)
  · exact foreign layout written
  · exact foreign numeral.1 written

theorem sampled_nulls_agree_readings :
    ∃ batch nan five, documentsToBatch readingText (inferredSchema readings 4) readings = .ok batch ∧
      (batch.row 1).lookup "x" = some nan ∧ nan.isNull = true ∧
      (batch.row 2).lookup "x" = some five ∧ five.isNull = false := by
  obtain ⟨batch, decoded⟩ : ∃ batch, documentsToBatch readingText (inferredSchema readings 4) readings =
      .ok batch := ok_of_isOk (by decide)
  obtain ⟨field, found, typed⟩ : ∃ field, findField "x" (inferredSchema readings 4) = some field ∧
      field.dataType = .decimal128 38 decimalScale := ⟨_, rfl, rfl⟩
  obtain ⟨known, named⟩ := findField_spec found
  have agree := fun i bound => sampled_nulls_agree readingText readings 4 batch decoded i bound field known
    (by rw [named]; decide)
  rw [typed, named] at agree
  obtain ⟨nan, foundNan, agreesNan⟩ := agree 1 (by decide)
  obtain ⟨five, foundFive, agreesFive⟩ := agree 2 (by decide)
  refine ⟨batch, nan, five, decoded, foundNan, ?_, foundFive, ?_⟩
  · have plain : ∀ value source, readings[1].get "x" = some value → decimalTextOf readingText value = some source →
        ¬Overstrains source decimalScale := by
      intro value source stored written
      cases stored
      cases written
      exact not_overstrained_nan
    refine (agreesNan plain).mpr (.inr ⟨.double .nan, "NaN", rfl, rfl, ?_⟩)
    intro numeral written
    exact absurd written (not_laid_out "NaN" (c := 'N') (by decide) rfl numeral.1)
  · have whole : ∀ value source, readings[2].get "x" = some value → decimalTextOf readingText value ≠ some source := by
      intro value source stored written
      cases stored
      cases written
    rw [← Bool.not_eq_true, agreesFive fun value source stored written => absurd written (whole value source stored)]
    rintro (absent | ⟨value, source, stored, written, -⟩)
    · cases absent
    · exact whole value source stored written

end Auger
