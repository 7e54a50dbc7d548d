import Auger.Convert
import Auger.General.Offsets

set_option autoImplicit false

/-! The decoder, slot by slot: what one value becomes in a column of a type,
and that the arrays hold exactly that. -/

namespace Auger

open General

def childSlot (name : String) : Option Bson → Option Bson
  | some (.document fields) => fields.lookup name
  | _ => none

@[simp] theorem childSlot_none (name : String) : childSlot name none = none := rfl

@[simp] theorem childSlot_document (name : String) (fields : Fields) :
    childSlot name (some (.document fields)) = fields.lookup name := rfl

theorem childSlots_eq (name : String) (values : List (Option Bson)) :
    childSlots name values = values.map (childSlot name) := by
  unfold childSlots
  apply List.map_congr_left
  intro v _
  rcases v with _ | v
  · rfl
  · cases v <;> rfl

section
variable (text : BsonText)

mutual
/-- The value one slot holds after decoding. -/
def decodeTyped : DataType → BsonTag → Option Bson → Cell
  | .boolean, _, v => match v with
      | some (.boolean b) => .boolean b
      | _ => .null
  | .int32, _, v => Cell.ofOption (fun v => .int v.toInt) ((asI64 v).bind toI32)
  | .int64, _, v => Cell.ofOption (fun v => .int v.toInt) (asI64 v)
  | .float64, _, v => Cell.ofOption .float (asF64 text v)
  | .utf8, tag, v =>
      Cell.ofOption .text (if isNull v then none else v.bind fun value => renderText text value tag)
  | .binary, _, v => match v with
      | some (.binary _ bytes) => .bytes bytes
      | _ => .null
  | .timestamp .millisecond _, _, v => Cell.ofOption (fun v => .timestamp v.toInt) (asMillis v)
  | .decimal128 _ scale, _, v => Cell.ofOption (.decimal · scale) (asDecimal text scale v)
  | .struct children, _, v =>
      if isDocument v then .struct (decodeChildren children v) else .null
  | .list item, _, v => match listItems v with
      | some items => .list (items.map fun x => decodeTyped item.dataType (BsonTag.of item) (some x))
      | none => .null
  | _, _, _ => .null
def decodeChildren : List (FieldOf DataType) → Option Bson → List (String × Cell)
  | [], _ => []
  | child :: rest, v =>
      (child.name, decodeTyped child.dataType (BsonTag.of child) (childSlot child.name v)) ::
        decodeChildren rest v
end

def decodeField (field : Field) (v : Option Bson) : Cell :=
  decodeTyped text field.dataType (BsonTag.of field) v

def slotItems (values : List (Option Bson)) : List (List Bson) :=
  values.map fun v => (listItems v).getD []

theorem flatItems_eq (values : List (Option Bson)) :
    flatItems values = (slotItems values).flatten.map some := by
  simp [flatItems, slotItems, List.flatMap_def, List.map_flatten, Function.comp_def]

theorem listOffsets_ok {values : List (Option Bson)} {start : Nat} {offsets : List Nat}
    (built : listOffsets values start = .ok offsets) :
    offsets.length = values.length ∧
      ∀ i, i < values.length → offsets[i]? = some (start + Offsets.offset (slotItems values) (i + 1)) := by
  induction values generalizing start offsets with
  | nil =>
      simp only [listOffsets, Except.ok.injEq] at built
      subst built
      simp
  | cons value rest ih =>
      simp only [listOffsets] at built
      split_ifs at built with fits
      cases tail : listOffsets rest (start + ((listItems value).getD []).length) with
      | error e => simp [tail, Except.map] at built
      | ok later =>
          simp only [tail, Except.map, Except.ok.injEq] at built
          subst built
          obtain ⟨sameLength, ends⟩ := ih tail
          refine ⟨by simp [sameLength], ?_⟩
          intro i bound
          cases i with
          | zero => simp [slotItems]
          | succ i =>
              rw [List.getElem?_cons_succ, ends i (by simpa using bound)]
              simp [slotItems, Nat.add_assoc]

theorem listOffsets_start {values : List (Option Bson)} {offsets : List Nat}
    (built : listOffsets values 0 = .ok offsets) (i : Nat) (bound : i ≤ values.length) :
    (0 :: offsets)[i]? = some (Offsets.offset (slotItems values) i) := by
  cases i with
  | zero => simp
  | succ i =>
      rw [List.getElem?_cons_succ, (listOffsets_ok built).2 i (by omega), Nat.zero_add]

theorem bind_ok {ε α β : Type} {x : Except ε α} {f : α → Except ε β} {b : β}
    (done : (x >>= f) = .ok b) : ∃ a, x = .ok a ∧ f a = .ok b := by
  cases x with
  | error e => simp [bind, Except.bind] at done
  | ok a => exact ⟨a, rfl, done⟩

/-- What a built array holds: as many slots as values, each decoded. -/
structure Decoded (dataType : DataType) (tag : BsonTag) (values : List (Option Bson))
    (array : ArrayData) : Prop where
  len : array.len = values.length
  cell : ∀ i (h : i < values.length), array.cell i = decodeTyped text dataType tag values[i]
  validity : array.validity = values.map fun v => !(decodeTyped text dataType tag v).isNull
  dataType : array.dataType = dataType

theorem Cell.isNull_ofOption {α : Type} (wrap : α → Cell) (v : Option α)
    (known : ∀ a, (wrap a).isNull = false) : (Cell.ofOption wrap v).isNull = v.isNone := by
  cases v with
  | none => rfl
  | some a => exact known a

theorem decoded_scalar {α : Type} (dataType : DataType) (tag : BsonTag)
    (values : List (Option Bson)) (coerce : Option Bson → Option α) (wrap : α → Cell)
    (array : ArrayData) (decode : ∀ v, decodeTyped text dataType tag v = Cell.ofOption wrap (coerce v))
    (known : ∀ a, (wrap a).isNull = false)
    (len : array.len = (values.map coerce).length)
    (cell : ∀ i, array.cell i = Cell.ofOption wrap (values.map coerce)[i]?.join)
    (validity : array.validity = (values.map coerce).map Option.isSome)
    (sameType : array.dataType = dataType) : Decoded text dataType tag values array where
  len := by simpa using len
  cell := by
    intro i h
    rw [cell, decode]
    simp [List.getElem?_eq_getElem h]
  validity := by
    rw [validity, List.map_map]
    apply List.map_congr_left
    intro v _
    simp only [Function.comp_apply, decode, Cell.isNull_ofOption wrap (coerce v) known]
    cases coerce v <;> rfl
  dataType := sameType

theorem decoded_struct {children : List Field} (tag : BsonTag) {values : List (Option Bson)} {arrays : List ArrayData}
    (cells : ∀ i (h : i < values.length), structCells children arrays i = decodeChildren text children values[i]) :
    Decoded text (.struct children) tag values (.struct children arrays (values.map isDocument)) := by
  refine ⟨by simp [ArrayData.len], ?_, ?_, rfl⟩
  · intro i h
    simp only [ArrayData.cell, decodeTyped, List.getElem?_map, List.getElem?_eq_getElem h,
      Option.map_some, Option.getD_some, cells i h]
  · simp only [ArrayData.validity, decodeTyped]
    apply List.map_congr_left
    intro v _
    cases isDocument v <;> rfl

theorem decoded_list {item : Field} (tag : BsonTag) {values : List (Option Bson)} {offsets : List Nat}
    (laid : listOffsets values 0 = .ok offsets) {child : ArrayData}
    (items : Decoded text item.dataType (BsonTag.of item) (flatItems values) child) :
    Decoded text (.list item) tag values
      (.list item (0 :: offsets) child (values.map fun v => (listItems v).isSome)) := by
  refine ⟨by simp [ArrayData.len], ?_, ?_, rfl⟩
  · intro i h
    have whole := Offsets.map_slice (slotItems values) i (by simpa [slotItems] using h) child.cell
      (fun x => decodeTyped text item.dataType (BsonTag.of item) (some x)) (by
        intro k bound
        have inFlat : k < (flatItems values).length := by rwa [flatItems_eq, List.length_map]
        rw [items.cell k inFlat]
        simp only [flatItems_eq, List.getElem_map])
    simp only [ArrayData.cell, List.getElem?_map, List.getElem?_eq_getElem h, Option.map_some,
      Option.getD_some, listOffsets_start laid i h.le, listOffsets_start laid (i + 1) h, whole]
    simp only [decodeTyped, slotItems, List.getElem_map]
    cases listItems values[i] <;> rfl
  · simp only [ArrayData.validity, decodeTyped]
    apply List.map_congr_left
    intro v _
    cases listItems v <;> rfl

mutual
theorem buildTyped_decoded (dataType : DataType) (name : String) (tag : BsonTag)
    (values : List (Option Bson)) (array : ArrayData)
    (built : buildTyped text dataType name tag values = .ok array) :
    Decoded text dataType tag values array := by
  cases dataType with
  | boolean =>
      simp only [buildTyped, Except.ok.injEq] at built
      subst built
      refine decoded_scalar text .boolean tag values _ .boolean _ ?_ (fun _ => rfl) rfl
        (fun _ => by simp only [ArrayData.cell]) rfl rfl
      rintro (_ | v)
      · rfl
      · cases v <;> rfl
  | int32 =>
      simp only [buildTyped, Except.ok.injEq] at built
      subst built
      exact decoded_scalar text .int32 tag values _ (fun v => .int v.toInt) _ (fun _ => by simp only [decodeTyped])
        (fun _ => rfl) rfl (fun _ => by simp only [ArrayData.cell]) rfl rfl
  | int64 =>
      simp only [buildTyped, Except.ok.injEq] at built
      subst built
      exact decoded_scalar text .int64 tag values _ (fun v => .int v.toInt) _ (fun _ => by simp only [decodeTyped])
        (fun _ => rfl) rfl (fun _ => by simp only [ArrayData.cell]) rfl rfl
  | float64 =>
      simp only [buildTyped, Except.ok.injEq] at built
      subst built
      exact decoded_scalar text .float64 tag values _ .float _ (fun _ => by simp only [decodeTyped])
        (fun _ => rfl) rfl (fun _ => by simp only [ArrayData.cell]) rfl rfl
  | utf8 =>
      simp only [buildTyped, ArrayData.fromTexts] at built
      split_ifs at built
      simp only [Except.ok.injEq] at built
      subst built
      exact decoded_scalar text .utf8 tag values _ .text _ (fun _ => by simp only [decodeTyped])
        (fun _ => rfl) rfl (fun _ => by simp only [ArrayData.cell]) rfl rfl
  | binary =>
      simp only [buildTyped, ArrayData.fromBytes] at built
      split_ifs at built
      simp only [Except.ok.injEq] at built
      subst built
      refine decoded_scalar text .binary tag values _ .bytes _ ?_ (fun _ => rfl) rfl
        (fun _ => by simp only [ArrayData.cell]) rfl rfl
      rintro (_ | v)
      · rfl
      · cases v <;> rfl
  | timestamp unit timezone =>
      cases unit with
      | millisecond =>
          simp only [buildTyped, Except.ok.injEq] at built
          subst built
          exact decoded_scalar text (.timestamp .millisecond timezone) tag values _
            (fun v => .timestamp v.toInt) _ (fun _ => by simp only [decodeTyped]) (fun _ => rfl) rfl
            (fun _ => by simp only [ArrayData.cell]) rfl rfl
      | _ => simp [buildTyped] at built
  | decimal128 precision scale =>
      simp only [buildTyped, ArrayData.withPrecisionAndScale] at built
      split_ifs at built
      simp only [Except.ok.injEq] at built
      subst built
      exact decoded_scalar text (.decimal128 precision scale) tag values _ (.decimal · scale) _
        (fun _ => by simp only [decodeTyped]) (fun _ => rfl) rfl
        (fun _ => by simp only [ArrayData.cell]) rfl rfl
  | struct children =>
      simp only [buildTyped] at built
      obtain ⟨arrays, inner, built⟩ := bind_ok built
      split_ifs at built
      simp only [ArrayData.newStruct] at built
      split_ifs at built
      simp only [Except.ok.injEq] at built
      subst built
      exact decoded_struct text tag (buildChildren_cells children values arrays inner)
  | list item =>
      simp only [buildTyped] at built
      obtain ⟨offsets, laid, built⟩ := bind_ok built
      obtain ⟨child, inner, built⟩ := bind_ok built
      simp only [ArrayData.newList] at built
      split_ifs at built
      simp only [Except.ok.injEq] at built
      subst built
      apply decoded_list text tag laid
      exact buildTyped_decoded item.dataType item.name (BsonTag.of item) (flatItems values) child inner
  | largeUtf8 => simp [buildTyped] at built
  | other display => simp [buildTyped] at built
theorem buildChildren_cells (children : List (FieldOf DataType)) (values : List (Option Bson))
    (arrays : List ArrayData) (built : buildChildren text children values = .ok arrays) (i : Nat)
    (h : i < values.length) :
    structCells children arrays i = decodeChildren text children values[i] := by
  cases children with
  | nil =>
      simp only [buildChildren, Except.ok.injEq] at built
      subst built
      simp [structCells, decodeChildren]
  | cons child rest =>
      simp only [buildChildren] at built
      obtain ⟨array, first, built⟩ := bind_ok built
      obtain ⟨others, later, built⟩ := bind_ok built
      simp only [Except.ok.injEq] at built
      subst built
      have here := buildTyped_decoded child.dataType child.name (BsonTag.of child)
        (childSlots child.name values) array first
      have slot := here.cell i (by simpa [childSlots_eq] using h)
      simp only [childSlots_eq, List.getElem_map] at slot
      simp only [structCells, decodeChildren, slot, buildChildren_cells rest values others later i h]
end

def decodeRow (schema : Schema) (doc : Document) : Row :=
  schema.map fun field => (field.name, decodeField text field (lookupPath doc (fieldPath field)))

theorem buildColumns_cells (schema : Schema) (docs : List Document) (columns : List ArrayData)
    (built : buildColumns text schema docs = .ok columns) (i : Nat) (h : i < docs.length) :
    structCells schema columns i = decodeRow text schema docs[i] := by
  induction schema generalizing columns with
  | nil =>
      simp only [buildColumns, Except.ok.injEq] at built
      subst built
      rfl
  | cons field rest ih =>
      simp only [buildColumns] at built
      obtain ⟨column, first, built⟩ := bind_ok built
      obtain ⟨others, later, built⟩ := bind_ok built
      simp only [Except.ok.injEq] at built
      subst built
      have slot := (buildTyped_decoded text _ _ _ _ column first).cell i (by simpa using h)
      simp only [List.getElem_map] at slot
      simp only [structCells, slot, ih others later, decodeRow, List.map_cons, decodeField]

/-- Row `i` of a batch is document `i`, decoded. -/
theorem documentsToBatch_row {schema : Schema} {docs : List Document} {batch : RecordBatch}
    (decoded : documentsToBatch text schema docs = .ok batch) (i : Nat) (h : i < docs.length) :
    batch.row i = decodeRow text schema docs[i] := by
  unfold documentsToBatch at decoded
  obtain ⟨columns, built, decoded⟩ := bind_ok decoded
  simp only [RecordBatch.tryNew] at decoded
  split_ifs at decoded
  simp only [Except.ok.injEq] at decoded
  subst decoded
  exact buildColumns_cells text schema docs columns built i h

end

end Auger
