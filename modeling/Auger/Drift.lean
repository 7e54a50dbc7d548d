import Auger.Exactness

set_option autoImplicit false

/-! Decoding documents the schema was not inferred from: when a batch can be
built at all. -/

namespace Auger

open General

mutual
/-- Types whose arrays can always be assembled: every part has a decoder, nothing
below the root is non-nullable and no struct is empty. -/
def DataType.decodable : DataType → Bool
  | .timestamp .millisecond _ => true
  | .timestamp _ _ | .largeUtf8 | .other _ => false
  | .decimal128 precision scale =>
      !decide (precision = 0 ∨ 38 < precision ∨ 38 < scale ∨ (precision : Int) < scale)
  | .struct children => !children.isEmpty && childrenDecodable children
  | .list item => item.nullable && item.dataType.decodable
  | _ => true
def childrenDecodable : List (FieldOf DataType) → Bool
  | [] => true
  | child :: rest => child.nullable && child.dataType.decodable && childrenDecodable rest
end

theorem childrenDecodable_iff (children : List Field) :
    childrenDecodable children = true ↔
      ∀ child ∈ children, child.nullable = true ∧ child.dataType.decodable = true := by
  induction children with
  | nil => simp [childrenDecodable]
  | cons child rest ih => simp only [childrenDecodable, Bool.and_eq_true, ih, List.forall_mem_cons]

mutual
/-- Every list column, at every level, receives fewer items than an `i32` counts. -/
def ListsFit : DataType → List (Option Bson) → Prop
  | .struct children, values => ChildrenFit children values
  | .list item, values =>
      (flatItems values).length < 2 ^ 31 ∧ ListsFit item.dataType (flatItems values)
  | _, _ => True
def ChildrenFit : List (FieldOf DataType) → List (Option Bson) → Prop
  | [], _ => True
  | child :: rest, values =>
      ListsFit child.dataType (childSlots child.name values) ∧ ChildrenFit rest values
end

section
variable (text : BsonText)

/-- The bytes a slot adds to a text column. -/
def renderedBytes (tag : BsonTag) (v : Option Bson) : Nat :=
  ((if isNull v then none else v.bind fun value => renderText text value tag).getD "").utf8ByteSize

/-- The bytes a slot adds to a binary column. -/
def binaryBytes : Option Bson → Nat
  | some (.binary _ bytes) => bytes.length
  | _ => 0

mutual
/-- The text and the bytes of every column, at every level, stay below `2 ^ 31` bytes. -/
def TextFits : DataType → BsonTag → List (Option Bson) → Prop
  | .utf8, tag, values => (values.map (renderedBytes text tag)).sum < 2 ^ 31
  | .binary, _, values => (values.map binaryBytes).sum < 2 ^ 31
  | .struct children, _, values => ChildrenTextFits children values
  | .list item, _, values => TextFits item.dataType (BsonTag.of item) (flatItems values)
  | _, _, _ => True
def ChildrenTextFits : List (FieldOf DataType) → List (Option Bson) → Prop
  | [], _ => True
  | child :: rest, values =>
      TextFits child.dataType (BsonTag.of child) (childSlots child.name values) ∧ ChildrenTextFits rest values
end

end

/-- Whether a column of a type holds a value for a slot, rather than NULL. -/
def holdsValue (text : BsonText) : DataType → Option Bson → Bool
  | .boolean, v => match v with
      | some (.boolean _) => true
      | _ => false
  | .int32, v => ((asI64 v).bind toI32).isSome
  | .int64, v => (asI64 v).isSome
  | .float64, v => (asF64 text v).isSome
  | .binary, v => match v with
      | some (.binary _ _) => true
      | _ => false
  | .timestamp _ _, v => (asMillis v).isSome
  | .decimal128 _ scale, v => (asDecimal text scale v).isSome
  | .struct _, v => isDocument v
  | _, v => !isNull v

section
variable (text : BsonText)

theorem childPath_ne_id (path key : String) : (path ++ "." ++ key != "_id") = true := by
  rw [bne_iff_ne]
  intro same
  have dot : '.' ∈ (path ++ "." ++ key).toList := by simp [String.toList_append]
  rw [same] at dot
  revert dot
  decide

mutual
theorem arrowType_decodable (shape : Shape) (path : String) (depth maxDepth : Nat) :
    (arrowType shape path depth maxDepth).1.decodable = true := by
  cases shape with
  | document children =>
      simp only [arrowType]
      split_ifs with nested
      · simp only [DataType.decodable, Bool.and_eq_true]
        refine ⟨?_, buildFields_decodable children path _ _ _⟩
        cases children with
        | nil => exact absurd rfl nested.2
        | cons entry rest => rfl
      · rfl
  | array inner =>
      simp only [arrowType]
      split_ifs
      · simp only [DataType.decodable, Bool.true_and]
        exact arrowType_decodable inner path (depth + 1) maxDepth
      · rfl
  | _ => rfl
theorem buildFields_decodable (children : List (String × FieldShapeOf Shape)) (path : String)
    (total depth maxDepth : Nat) :
    childrenDecodable (buildFields children path total depth maxDepth) = true := by
  cases children with
  | nil => rfl
  | cons entry rest =>
      rcases entry with ⟨key, shape, present, nulls, mixed⟩
      simp only [buildFields, childrenDecodable, fieldAround, childPath_ne_id, Bool.true_and,
        Bool.and_eq_true]
      exact ⟨arrowType_decodable shape _ depth maxDepth, buildFields_decodable rest path total depth maxDepth⟩
end

theorem decodeTyped_isNull {dataType : DataType} (decodable : dataType.decodable = true) (tag : BsonTag)
    (v : Option Bson) : (decodeTyped text dataType tag v).isNull = !holdsValue text dataType v := by
  cases dataType with
  | boolean => rcases v with _ | v <;> [rfl; cases v <;> rfl]
  | binary => rcases v with _ | v <;> [rfl; cases v <;> rfl]
  | int32 =>
      simp only [decodeTyped, holdsValue]
      cases (asI64 v).bind toI32 <;> rfl
  | int64 =>
      simp only [decodeTyped, holdsValue]
      cases asI64 v <;> rfl
  | float64 =>
      simp only [decodeTyped, holdsValue]
      cases asF64 text v <;> rfl
  | utf8 =>
      simp only [decodeTyped, holdsValue]
      rcases v with _ | v
      · rfl
      · cases absent : v.isNull <;> simp [isNull, absent, renderText, Cell.ofOption, Cell.isNull]
  | timestamp unit timezone =>
      cases unit with
      | millisecond =>
          simp only [decodeTyped, holdsValue]
          cases asMillis v <;> rfl
      | _ => cases decodable
  | decimal128 precision scale =>
      simp only [decodeTyped, holdsValue]
      cases asDecimal text scale v <;> rfl
  | struct children =>
      simp only [decodeTyped, holdsValue]
      cases isDocument v <;> rfl
  | list item =>
      simp only [decodeTyped, holdsValue]
      rcases v with _ | v
      · rfl
      · cases v <;> rfl
  | _ => cases decodable

theorem listOffsets_isOk (values : List (Option Bson)) (start : Nat) (room : start < 2 ^ 31) :
    (∃ offsets, listOffsets values start = .ok offsets) ↔ start + (flatItems values).length < 2 ^ 31 := by
  induction values generalizing start with
  | nil => simpa [listOffsets, flatItems] using room
  | cons value rest ih =>
      have total : (flatItems (value :: rest)).length =
          ((listItems value).getD []).length + (flatItems rest).length := by
        simp [flatItems]
      simp only [listOffsets, total]
      split_ifs with fits
      · rw [← Nat.add_assoc, ← ih _ fits]
        constructor
        · rintro ⟨offsets, built⟩
          cases tail : listOffsets rest (start + ((listItems value).getD []).length) with
          | error e => simp [tail, Except.map] at built
          | ok later => exact ⟨later, rfl⟩
        · rintro ⟨later, built⟩
          exact ⟨_, by rw [built]; rfl⟩
      · constructor
        · rintro ⟨offsets, built⟩
          cases built
        · intro fitting
          omega

/-- Arrays that fit their fields, each with a slot for each of `n` values. -/
abbrev Fitting (n : Nat) : List Field → List ArrayData → Prop :=
  List.Forall₂ fun field array => array.dataType = field.dataType ∧ array.len = n

theorem Fitting.checks {n : Nat} {fields : List Field} {arrays : List ArrayData}
    (fitting : Fitting n fields arrays) :
    fields.length = arrays.length ∧
      (fields.zip arrays).any (fun (f, a) => f.dataType ≠ a.dataType) = false ∧
      arrays.any (fun a => a.len ≠ n) = false := by
  induction fitting with
  | nil => exact ⟨rfl, rfl, rfl⟩
  | cons head _ ih =>
      refine ⟨by simp [ih.1], ?_, ?_⟩
      · simpa [head.1] using ih.2.1
      · simpa [head.2] using ih.2.2

theorem buildChildren_fitting (children : List Field) (values : List (Option Bson))
    (arrays : List ArrayData) (built : buildChildren text children values = .ok arrays) :
    Fitting values.length children arrays := by
  induction children generalizing arrays with
  | nil =>
      simp only [buildChildren, Except.ok.injEq] at built
      subst built
      exact .nil
  | cons child rest ih =>
      simp only [buildChildren] at built
      obtain ⟨array, first, built⟩ := bind_ok built
      obtain ⟨others, later, built⟩ := bind_ok built
      cases built
      have here := buildTyped_decoded text _ _ _ _ array first
      exact .cons ⟨here.dataType, by simpa [childSlots] using here.len⟩ (ih others later)

theorem newStruct_ok {children : List Field} {arrays : List ArrayData} {validity : List Bool}
    (fitting : Fitting validity.length children arrays)
    (nullable : ∀ child ∈ children, child.nullable = true) :
    ArrayData.newStruct children arrays validity = .ok (.struct children arrays validity) := by
  obtain ⟨sameLength, sameTypes, lengths⟩ := fitting.checks
  have masked : (children.zip arrays).any
      (fun (f, a) => !f.nullable && ArrayData.unmaskedNull validity a.validity) = false := by
    rw [List.any_eq_false]
    rintro ⟨f, a⟩ member
    simp [nullable f (List.of_mem_zip member).1]
  rw [ArrayData.newStruct, if_neg (not_not.mpr sameLength), sameTypes, lengths, masked]
  simp

theorem listOffsets_last {values : List (Option Bson)} {offsets : List Nat}
    (laid : listOffsets values 0 = .ok offsets) : (0 :: offsets).getLastD 0 = (flatItems values).length := by
  have slots : (slotItems values).length = values.length := by simp [slotItems]
  have last := listOffsets_start laid values.length le_rfl
  rw [← slots, Offsets.offset_length, slots, ← (listOffsets_ok laid).1] at last
  rw [List.getLastD_eq_getLast?, List.getLast?_eq_getElem?, List.length_cons, Nat.add_sub_cancel, last,
    flatItems_eq, List.length_map, Option.getD_some]

theorem newList_ok {item : Field} {offsets : List Nat} {child : ArrayData} (nullable : item.nullable = true)
    (sameType : child.dataType = item.dataType) (validity : List Bool)
    (whole : child.len = offsets.getLastD 0) (slots : offsets.length = validity.length + 1) :
    ArrayData.newList item offsets child validity = .ok (.list item offsets child validity) := by
  simp [ArrayData.newList, nullable, sameType, whole, slots]

theorem fromTexts_isOk (values : List (Option String)) :
    (∃ array, ArrayData.fromTexts values = .ok array) ↔
      (values.map fun v => (v.getD "").utf8ByteSize).sum < 2 ^ 31 := by
  unfold ArrayData.fromTexts
  split_ifs with fits
  · exact iff_of_true ⟨_, rfl⟩ fits
  · exact iff_of_false (by rintro ⟨array, built⟩; cases built) fits

theorem fromBytes_isOk (values : List (Option (List UInt8))) :
    (∃ array, ArrayData.fromBytes values = .ok array) ↔
      (values.map fun v => (v.getD []).length).sum < 2 ^ 31 := by
  unfold ArrayData.fromBytes
  split_ifs with fits
  · exact iff_of_true ⟨_, rfl⟩ fits
  · exact iff_of_false (by rintro ⟨array, built⟩; cases built) fits

mutual
/-- A decodable column is built exactly when its lists, texts and bytes fit. -/
theorem buildTyped_isOk (dataType : DataType) (decodable : dataType.decodable = true) (name : String)
    (tag : BsonTag) (values : List (Option Bson)) :
    (∃ array, buildTyped text dataType name tag values = .ok array) ↔
      ListsFit dataType values ∧ TextFits text dataType tag values := by
  cases dataType with
  | utf8 =>
      simp only [buildTyped, ListsFit, TextFits, true_and, fromTexts_isOk, List.map_map]
      exact Iff.rfl
  | binary =>
      simp only [buildTyped, ListsFit, TextFits, true_and, fromBytes_isOk, List.map_map]
      apply iff_of_eq
      apply congrArg fun bytes : List Nat => bytes.sum < 2 ^ 31
      apply List.map_congr_left
      intro v _
      rcases v with _ | v
      · rfl
      · cases v <;> rfl
  | struct children =>
      simp only [DataType.decodable, Bool.and_eq_true] at decodable
      simp only [buildTyped, ListsFit, TextFits, ← buildChildren_isOk children decodable.2 values]
      constructor
      · rintro ⟨array, built⟩
        obtain ⟨arrays, inner, -⟩ := bind_ok built
        exact ⟨arrays, inner⟩
      · rintro ⟨arrays, inner⟩
        have nonempty : children.isEmpty = false := by simpa using decodable.1
        have fitting := buildChildren_fitting text children values arrays inner
        rw [← List.length_map isDocument] at fitting
        have built := newStruct_ok fitting fun child member =>
          ((childrenDecodable_iff children).mp decodable.2 child member).1
        exact ⟨_, by simpa [inner, bind, Except.bind, nonempty] using built⟩
  | list item =>
      simp only [DataType.decodable, Bool.and_eq_true] at decodable
      have offsetsFit := listOffsets_isOk values 0 (by norm_num)
      rw [Nat.zero_add] at offsetsFit
      simp only [buildTyped, ListsFit, TextFits, ← offsetsFit, and_assoc,
        ← buildTyped_isOk item.dataType decodable.2 item.name (BsonTag.of item) (flatItems values)]
      constructor
      · rintro ⟨array, built⟩
        obtain ⟨offsets, laid, built⟩ := bind_ok built
        obtain ⟨child, inner, -⟩ := bind_ok built
        exact ⟨⟨offsets, laid⟩, child, inner⟩
      · rintro ⟨⟨offsets, laid⟩, child, inner⟩
        have items := buildTyped_decoded text _ _ _ _ child inner
        have built := newList_ok decodable.1 items.dataType (values.map fun v => (listItems v).isSome)
          (by rw [items.len, listOffsets_last laid])
          (by rw [List.length_cons, List.length_map, (listOffsets_ok laid).1])
        exact ⟨_, by rw [laid, inner]; exact built⟩
  | timestamp unit timezone =>
      cases unit with
      | millisecond => simp [buildTyped, ListsFit, TextFits]
      | _ => cases decodable
  | decimal128 precision scale =>
      simp only [DataType.decodable, Bool.not_eq_true', decide_eq_false_iff_not] at decodable
      simp [buildTyped, ArrayData.withPrecisionAndScale, decodable, ListsFit, TextFits]
  | largeUtf8 | other => cases decodable
  | _ => simp [buildTyped, ListsFit, TextFits]
termination_by structural dataType
theorem buildChildren_isOk (children : List (FieldOf DataType)) (decodable : childrenDecodable children = true)
    (values : List (Option Bson)) :
    (∃ arrays, buildChildren text children values = .ok arrays) ↔
      ChildrenFit children values ∧ ChildrenTextFits text children values := by
  cases children with
  | nil => simp [buildChildren, ChildrenFit, ChildrenTextFits]
  | cons child rest =>
      rcases child with ⟨name, dataType, nullable, metadata⟩
      simp only [childrenDecodable, Bool.and_eq_true] at decodable
      simp only [buildChildren, ChildrenFit, ChildrenTextFits]
      rw [and_and_and_comm, ← buildChildren_isOk rest decodable.2 values, ← buildTyped_isOk dataType decodable.1.2 name
        (BsonTag.of ⟨name, dataType, nullable, metadata⟩) (childSlots name values)]
      constructor
      · rintro ⟨arrays, built⟩
        obtain ⟨array, first, built⟩ := bind_ok built
        obtain ⟨others, later, -⟩ := bind_ok built
        exact ⟨⟨array, first⟩, others, later⟩
      · rintro ⟨⟨array, first⟩, others, later⟩
        exact ⟨array :: others, by rw [first, later]; rfl⟩
termination_by structural children
end

theorem flatItems_sublist {part values : List (Option Bson)} (within : part.Sublist values) :
    (flatItems part).Sublist (flatItems values) := by
  rw [flatItems_eq, flatItems_eq, slotItems, slotItems]
  exact ((within.map _).flatten).map _

theorem childSlots_sublist (name : String) {part values : List (Option Bson)} (within : part.Sublist values) :
    (childSlots name part).Sublist (childSlots name values) := by
  rw [childSlots_eq, childSlots_eq]
  exact within.map _

mutual
theorem ListsFit.part {dataType : DataType} {part values : List (Option Bson)} (within : part.Sublist values)
    (fit : ListsFit dataType values) : ListsFit dataType part := by
  cases dataType with
  | struct children =>
      simp only [ListsFit] at fit ⊢
      exact ChildrenFit.part within fit
  | list item =>
      simp only [ListsFit] at fit ⊢
      exact ⟨(flatItems_sublist within).length_le.trans_lt fit.1, ListsFit.part (flatItems_sublist within) fit.2⟩
  | _ => simp only [ListsFit]
theorem ChildrenFit.part {children : List (FieldOf DataType)} {part values : List (Option Bson)}
    (within : part.Sublist values) (fit : ChildrenFit children values) : ChildrenFit children part := by
  cases children with
  | nil => trivial
  | cons child rest =>
      simp only [ChildrenFit] at fit ⊢
      exact ⟨ListsFit.part (childSlots_sublist child.name within) fit.1, ChildrenFit.part within fit.2⟩
end

mutual
theorem TextFits.part {dataType : DataType} {tag : BsonTag} {part values : List (Option Bson)}
    (within : part.Sublist values) (fit : TextFits text dataType tag values) : TextFits text dataType tag part := by
  cases dataType with
  | utf8 | binary =>
      simp only [TextFits] at fit ⊢
      exact ((within.map _).sum_le_sum fun _ _ => Nat.zero_le _).trans_lt fit
  | struct children =>
      simp only [TextFits] at fit ⊢
      exact ChildrenTextFits.part within fit
  | list item =>
      simp only [TextFits] at fit ⊢
      exact TextFits.part (flatItems_sublist within) fit
  | _ => simp only [TextFits]
theorem ChildrenTextFits.part {children : List (FieldOf DataType)} {part values : List (Option Bson)}
    (within : part.Sublist values) (fit : ChildrenTextFits text children values) :
    ChildrenTextFits text children part := by
  cases children with
  | nil => trivial
  | cons child rest =>
      simp only [ChildrenTextFits] at fit ⊢
      exact ⟨TextFits.part (childSlots_sublist child.name within) fit.1, ChildrenTextFits.part within fit.2⟩
end

def columnSlots (field : Field) (docs : List Document) : List (Option Bson) :=
  docs.map fun doc => lookupPath doc (fieldPath field)

theorem buildColumns_isOk (schema : Schema) (decodable : ∀ field ∈ schema, field.dataType.decodable = true)
    (docs : List Document) :
    (∃ columns, buildColumns text schema docs = .ok columns) ↔
      ∀ field ∈ schema, ListsFit field.dataType (columnSlots field docs) ∧
        TextFits text field.dataType (BsonTag.of field) (columnSlots field docs) := by
  induction schema with
  | nil => simp [buildColumns]
  | cons field rest ih =>
      rw [List.forall_mem_cons] at decodable
      rw [List.forall_mem_cons, ← ih decodable.2,
        ← buildTyped_isOk text field.dataType decodable.1 field.name (BsonTag.of field) (columnSlots field docs)]
      simp only [buildColumns]
      constructor
      · rintro ⟨columns, built⟩
        obtain ⟨column, first, built⟩ := bind_ok built
        obtain ⟨others, later, -⟩ := bind_ok built
        exact ⟨⟨column, first⟩, others, later⟩
      · rintro ⟨⟨column, first⟩, others, later⟩
        exact ⟨column :: others, by rw [buildArray, columnSlots] at *; rw [first, later]; rfl⟩

theorem buildColumns_decoded (schema : Schema) (docs : List Document) (columns : List ArrayData)
    (built : buildColumns text schema docs = .ok columns) :
    List.Forall₂ (fun field column =>
      Decoded text field.dataType (BsonTag.of field) (columnSlots field docs) column) schema columns := by
  induction schema generalizing columns with
  | nil =>
      simp only [buildColumns, Except.ok.injEq] at built
      subst built
      exact .nil
  | cons field rest ih =>
      simp only [buildColumns] at built
      obtain ⟨column, first, built⟩ := bind_ok built
      obtain ⟨others, later, built⟩ := bind_ok built
      cases built
      exact .cons (buildTyped_decoded text _ _ _ _ column first) (ih others later)

/-- Columns that fit their fields make a batch unless a non-nullable one has a NULL. -/
theorem tryNew_isOk {schema : Schema} {columns : List ArrayData} {n : Nat}
    (fitting : Fitting n schema columns) :
    (∃ batch, RecordBatch.tryNew schema columns n = .ok batch ∧ batch.numRows = n) ↔
      (schema.zip columns).any (fun (f, a) => !f.nullable && a.hasNulls) = false := by
  obtain ⟨sameLength, sameTypes, lengths⟩ := fitting.checks
  rw [RecordBatch.tryNew, if_neg (not_not.mpr sameLength), sameTypes, lengths]
  cases nulls : (schema.zip columns).any (fun (f, a) => !f.nullable && a.hasNulls) with
  | true => simp
  | false => simp

theorem nulls_checked {schema : Schema} {docs : List Document} {columns : List ArrayData}
    (decodable : ∀ field ∈ schema, field.dataType.decodable = true)
    (decoded : List.Forall₂ (fun field column =>
      Decoded text field.dataType (BsonTag.of field) (columnSlots field docs) column) schema columns) :
    (schema.zip columns).any (fun (f, a) => !f.nullable && a.hasNulls) = false ↔
      ∀ field ∈ schema, field.nullable = true ∨
        ∀ v ∈ columnSlots field docs, holdsValue text field.dataType v = true := by
  induction decoded with
  | nil => simp
  | @cons field column rest columns head _ ih =>
      rw [List.forall_mem_cons] at decodable
      have holds : column.hasNulls = false ↔
          ∀ v ∈ columnSlots field docs, holdsValue text field.dataType v = true := by
        simp [ArrayData.hasNulls, head.validity, decodeTyped_isNull text decodable.1]
      rw [List.forall_mem_cons, ← ih decodable.2, ← holds, List.zip_cons_cons, List.any_cons,
        Bool.or_eq_false_iff]
      apply and_congr_left
      intro _
      cases nullable : field.nullable <;> simp [nullable]

/-- A batch is built exactly when every column's lists, texts and bytes fit and every required
value is there. -/
theorem documentsToBatch_isOk {schema : Schema} (decodable : ∀ field ∈ schema, field.dataType.decodable = true)
    (docs : List Document) :
    (∃ batch, documentsToBatch text schema docs = .ok batch ∧ batch.numRows = docs.length) ↔
      (∀ field ∈ schema, field.nullable = true ∨
          ∀ v ∈ columnSlots field docs, holdsValue text field.dataType v = true) ∧
        ∀ field ∈ schema, ListsFit field.dataType (columnSlots field docs) ∧
          TextFits text field.dataType (BsonTag.of field) (columnSlots field docs) := by
  rw [← buildColumns_isOk text _ decodable docs, documentsToBatch]
  constructor
  · rintro ⟨batch, built, rows⟩
    obtain ⟨columns, assembled, built⟩ := bind_ok built
    have decoded := buildColumns_decoded text _ docs columns assembled
    have fitting : Fitting docs.length schema columns :=
      decoded.imp fun field column holds => ⟨holds.dataType, by simpa [columnSlots] using holds.len⟩
    exact ⟨(nulls_checked text decodable decoded).mp ((tryNew_isOk fitting).mp ⟨batch, built, rows⟩),
      columns, assembled⟩
  · rintro ⟨held, columns, assembled⟩
    have decoded := buildColumns_decoded text _ docs columns assembled
    have fitting : Fitting docs.length schema columns :=
      decoded.imp fun field column holds => ⟨holds.dataType, by simpa [columnSlots] using holds.len⟩
    obtain ⟨batch, built, rows⟩ := (tryNew_isOk fitting).mpr ((nulls_checked text decodable decoded).mpr held)
    exact ⟨batch, by rw [assembled]; exact built, rows⟩

theorem documentsToBatch_columns {schema : Schema} {docs : List Document} {batch : RecordBatch}
    (decoded : documentsToBatch text schema docs = .ok batch) :
    ∃ columns, buildColumns text schema docs = .ok columns ∧ batch = ⟨schema, columns, docs.length⟩ := by
  obtain ⟨columns, built, decoded⟩ := bind_ok decoded
  simp only [RecordBatch.tryNew] at decoded
  split_ifs at decoded
  exact ⟨columns, built, (Except.ok.inj decoded).symm⟩

end

theorem nonnullable_id {sampler : Sampler} {maxDepth : Nat} {field : Field}
    (member : field ∈ sampler.finish maxDepth) (required : field.nullable = false) :
    findField "_id" (sampler.finish maxDepth) = some field := by
  have found := findField_mem_finish member
  obtain ⟨name, fs, slot, rfl⟩ := mem_finish member
  have root : name = "_id" := by simpa [buildField, fieldAround] using required
  subst root
  exact found

theorem finish_decodable (sampler : Sampler) (maxDepth : Nat) :
    ∀ field ∈ sampler.finish maxDepth, field.dataType.decodable = true := by
  intro field member
  obtain ⟨name, fs, slot, rfl⟩ := mem_finish member
  exact arrowType_decodable fs.shape name 0 maxDepth

theorem id_column {sampler : Sampler} {maxDepth : Nat} {field : Field}
    (found : findField "_id" (sampler.finish maxDepth) = some field) :
    field.nullable = false ∧ ∀ doc, lookupPath doc (fieldPath field) = doc.get "_id" := by
  obtain ⟨fs, slot, rfl⟩ := findField_finish found
  refine ⟨rfl, ?_⟩
  intro doc
  have path : fieldPath (buildField "_id" "_id" fs sampler.docsSeen 0 maxDepth) = "_id" :=
    path_fieldAround _ _ _ _ _
  rw [path]
  exact lookupPath_plain doc (by decide)

mutual
/-- The array elements inside a value, at every level. -/
def Bson.arrayElements : Bson → Nat
  | .array items => items.length + itemElements items
  | .document fields => fieldElements fields
  | _ => 0
def itemElements : List Bson → Nat
  | [] => 0
  | value :: rest => value.arrayElements + itemElements rest
def fieldElements : List (String × Bson) → Nat
  | [] => 0
  | (_, value) :: rest => value.arrayElements + fieldElements rest
end

/-- The elements inside the values of a column, each value counting as one more. -/
def slotWeight : List (Option Bson) → Nat
  | [] => 0
  | some value :: rest => value.arrayElements + 1 + slotWeight rest
  | none :: rest => slotWeight rest

theorem slotWeight_items (items : List Bson) (rest : List (Option Bson)) :
    slotWeight (items.map some ++ rest) = items.length + itemElements items + slotWeight rest := by
  induction items with
  | nil => simp [itemElements]
  | cons item later ih =>
      simp only [List.map_cons, List.cons_append, slotWeight, ih, itemElements, List.length_cons]
      omega

theorem slotWeight_flatItems (values : List (Option Bson)) :
    slotWeight (flatItems values) ≤ slotWeight values := by
  induction values with
  | nil => exact le_rfl
  | cons value rest ih =>
      have split : flatItems (value :: rest) = ((listItems value).getD []).map some ++ flatItems rest := by
        simp [flatItems]
      rw [split, slotWeight_items]
      cases value with
      | none => simpa [listItems, itemElements, slotWeight] using ih
      | some v =>
          cases v with
          | array items =>
              simp only [listItems, Option.getD_some, slotWeight, Bson.arrayElements]
              omega
          | null | undefined =>
              simp only [listItems, Bson.isNull, if_true, Option.getD_none, List.length_nil, itemElements,
                slotWeight]
              omega
          | _ =>
              simp only [listItems, Bson.isNull, Bool.false_eq_true, if_false, Option.getD_some,
                List.length_singleton, itemElements, slotWeight]
              omega

theorem length_le_slotWeight (values : List (Option Bson)) :
    (flatItems values).length ≤ slotWeight (flatItems values) := by
  rw [flatItems_eq, List.length_map, ← List.append_nil (List.map some _), slotWeight_items]
  omega

theorem arrayElements_lookup {fields : Fields} {key : String} {value : Bson}
    (found : fields.lookup key = some value) : value.arrayElements ≤ fieldElements fields := by
  induction fields with
  | nil => cases found
  | cons entry rest ih =>
      rcases entry with ⟨k, v⟩
      simp only [fieldElements]
      by_cases same : key = k
      · subst same
        rw [List.lookup_cons_self, Option.some.injEq] at found
        subst found
        omega
      · have differ : (key == k) = false := by simpa using same
        rw [List.lookup_cons, differ] at found
        have later := ih found
        omega

theorem slotWeight_childSlots (name : String) (values : List (Option Bson)) :
    slotWeight (childSlots name values) ≤ slotWeight values := by
  rw [childSlots_eq]
  induction values with
  | nil => exact le_rfl
  | cons value rest ih =>
      rw [List.map_cons]
      cases slot : childSlot name value with
      | none => cases value <;> simp only [slotWeight] <;> omega
      | some v =>
          rcases value with _ | value
          · cases slot
          · cases value <;> try cases slot
            rename_i fields
            have inner := arrayElements_lookup slot
            simp only [slotWeight, Bson.arrayElements]
            omega

mutual
theorem listsFit_of_weight (dataType : DataType) (values : List (Option Bson))
    (light : slotWeight values < 2 ^ 31) : ListsFit dataType values := by
  cases dataType with
  | struct children => exact childrenFit_of_weight children values light
  | list item =>
      have flat := slotWeight_flatItems values
      have length := length_le_slotWeight values
      exact ⟨by omega, listsFit_of_weight item.dataType (flatItems values) (by omega)⟩
  | _ => trivial
termination_by structural dataType
theorem childrenFit_of_weight (children : List (FieldOf DataType)) (values : List (Option Bson))
    (light : slotWeight values < 2 ^ 31) : ChildrenFit children values := by
  cases children with
  | nil => trivial
  | cons child rest =>
      rcases child with ⟨name, dataType, nullable, metadata⟩
      have lighter := slotWeight_childSlots name values
      exact ⟨listsFit_of_weight dataType (childSlots name values) (by omega),
        childrenFit_of_weight rest values light⟩
termination_by structural children
end

theorem arrayElements_lookupRest {current value : Bson} {parts : List String}
    (found : lookupRest current parts = some value) : value.arrayElements ≤ current.arrayElements := by
  induction parts generalizing current with
  | nil =>
      cases current <;> cases found <;> exact le_rfl
  | cons part parts ih =>
      cases current <;> try cases found
      rename_i fields
      rw [lookupRest, Option.bind_eq_some_iff] at found
      obtain ⟨next, stored, found⟩ := found
      calc value.arrayElements ≤ next.arrayElements := ih found
        _ ≤ fieldElements fields := arrayElements_lookup stored

theorem arrayElements_lookupPath {doc : Document} {path : String} {value : Bson}
    (found : lookupPath doc path = some value) : value.arrayElements ≤ fieldElements doc.fields := by
  unfold lookupPath at found
  split at found
  · cases found
  · rw [Option.bind_eq_some_iff] at found
    obtain ⟨current, stored, found⟩ := found
    calc value.arrayElements ≤ current.arrayElements := arrayElements_lookupRest found
      _ ≤ fieldElements doc.fields := arrayElements_lookup stored

theorem slotWeight_columnSlots (field : Field) (docs : List Document) :
    slotWeight (columnSlots field docs) ≤
      (docs.map fun doc => fieldElements doc.fields).sum + docs.length := by
  induction docs with
  | nil => exact le_rfl
  | cons doc rest ih =>
      simp only [columnSlots, List.map_cons, List.sum_cons, List.length_cons] at ih ⊢
      cases found : lookupPath doc (fieldPath field) with
      | none =>
          simp only [slotWeight]
          omega
      | some value =>
          have inner := arrayElements_lookupPath found
          simp only [slotWeight]
          omega

/-- Every list column fits when the documents and their array elements together
number fewer than an `i32` counts. -/
theorem listsFit_of_few (docs : List Document)
    (few : (docs.map fun doc => fieldElements doc.fields).sum + docs.length < 2 ^ 31) (field : Field) :
    ListsFit field.dataType (columnSlots field docs) := by
  apply listsFit_of_weight
  calc slotWeight (columnSlots field docs) ≤ _ := slotWeight_columnSlots field docs
    _ < 2 ^ 31 := few

/-- A batch of any documents can be built along an inferred schema exactly when
every `_id` becomes a value of the `_id` column and the lists, texts and bytes of every
column fit. -/
theorem batch_isOk_iff (text : BsonText) (sample docs : List Document) (maxDepth : Nat) :
    (∃ batch, documentsToBatch text (inferredSchema sample maxDepth) docs = .ok batch ∧
        batch.numRows = docs.length) ↔
      (∀ field, findField "_id" (inferredSchema sample maxDepth) = some field →
          ∀ doc ∈ docs, holdsValue text field.dataType (doc.get "_id") = true) ∧
        ∀ field ∈ inferredSchema sample maxDepth, ListsFit field.dataType (columnSlots field docs) ∧
          TextFits text field.dataType (BsonTag.of field) (columnSlots field docs) := by
  have ids : (∀ field, findField "_id" (inferredSchema sample maxDepth) = some field →
        ∀ doc ∈ docs, holdsValue text field.dataType (doc.get "_id") = true) ↔
      ∀ field ∈ inferredSchema sample maxDepth, field.nullable = true ∨
        ∀ v ∈ columnSlots field docs, holdsValue text field.dataType v = true := by
    constructor
    · intro held field member
      cases nullable : field.nullable with
      | true => exact .inl rfl
      | false =>
          right
          intro v inside
          have found := nonnullable_id member nullable
          obtain ⟨doc, stored, rfl⟩ := List.mem_map.mp inside
          rw [(id_column found).2]
          exact held field found doc stored
    · intro held field found doc stored
      rcases held field (findField_spec found).1 with nullable | all
      · rw [(id_column found).1] at nullable
        cases nullable
      · rw [← (id_column found).2 doc]
        exact all _ (List.mem_map.mpr ⟨doc, stored, rfl⟩)
  rw [ids, documentsToBatch_isOk text (finish_decodable _ maxDepth)]

def numbered : List Document := [⟨[("_id", .int32 7)], rfl⟩]

def named : List Document := [⟨[("_id", .string "seven")], rfl⟩]

theorem batch_aborts_on_drift : ¬∀ (text : BsonText) (sample docs : List Document) (maxDepth : Nat),
    (∀ doc ∈ docs, (doc.get "_id").isSome = true) →
      (docs.map fun doc => fieldElements doc.fields).sum < 2 ^ 31 →
      ∃ batch, documentsToBatch text (inferredSchema sample maxDepth) docs = .ok batch ∧
        batch.numRows = docs.length := by
  intro claimed
  obtain ⟨batch, built, -⟩ := claimed plainText numbered named 4 (by decide) (by decide)
  have failed : (documentsToBatch plainText (inferredSchema numbered 4) named).isOk = false := by decide
  rw [built] at failed
  cases failed

end Auger
