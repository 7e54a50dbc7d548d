import Auger.Drift

set_option autoImplicit false

/-! The stream of batches a scan yields, and that cutting it into batches does
not change what it holds. -/

namespace Auger

open General

namespace ArrayData

mutual
def append : ArrayData → ArrayData → ArrayData
  | .boolean xs, .boolean ys => .boolean (xs ++ ys)
  | .int32 xs, .int32 ys => .int32 (xs ++ ys)
  | .int64 xs, .int64 ys => .int64 (xs ++ ys)
  | .float64 xs, .float64 ys => .float64 (xs ++ ys)
  | .utf8 xs, .utf8 ys => .utf8 (xs ++ ys)
  | .binary xs, .binary ys => .binary (xs ++ ys)
  | .timestampMillisecond timezone xs, .timestampMillisecond _ ys => .timestampMillisecond timezone (xs ++ ys)
  | .decimal128 precision scale xs, .decimal128 _ _ ys => .decimal128 precision scale (xs ++ ys)
  | .struct fields xs validity, .struct _ ys validity' => .struct fields (appendAll xs ys) (validity ++ validity')
  | .list item offsets child validity, .list _ offsets' child' validity' =>
      -- The second array's items start where the first one's end.
      .list item (offsets ++ offsets'.tail.map (offsets.getLastD 0 + ·)) (append child child') (validity ++ validity')
  | left, _ => left
def appendAll : List ArrayData → List ArrayData → List ArrayData
  | x :: xs, y :: ys => append x y :: appendAll xs ys
  | _, _ => []
end

/-- `concat` of two arrays, which refuses arrays of different types. -/
def concat (left right : ArrayData) : Option ArrayData :=
  if left.dataType = right.dataType then some (left.append right) else none

mutual
/-- `new_empty_array`; `none` for a type no array here has. -/
def newEmpty : DataType → Option ArrayData
  | .boolean => some (.boolean [])
  | .int32 => some (.int32 [])
  | .int64 => some (.int64 [])
  | .float64 => some (.float64 [])
  | .utf8 => some (.utf8 [])
  | .binary => some (.binary [])
  | .timestamp .millisecond timezone => some (.timestampMillisecond timezone [])
  | .decimal128 precision scale => some (.decimal128 precision scale [])
  | .struct fields => (newEmptyAll fields).map fun children => .struct fields children []
  | .list item => (newEmpty item.dataType).map fun child => .list item [0] child []
  | _ => none
def newEmptyAll : List (FieldOf DataType) → Option (List ArrayData)
  | [] => some []
  | field :: rest =>
      match newEmpty field.dataType, newEmptyAll rest with
      | some array, some arrays => some (array :: arrays)
      | _, _ => none
end

end ArrayData

namespace RecordBatch

def concat (left right : RecordBatch) : Option RecordBatch :=
  if left.columns.map ArrayData.dataType = right.columns.map ArrayData.dataType then
    some ⟨left.schema, ArrayData.appendAll left.columns right.columns, left.numRows + right.numRows⟩
  else none

/-- `concat_batches`: no batches make an empty one. -/
def concatAll (schema : Schema) : List RecordBatch → Option RecordBatch
  | [] => (ArrayData.newEmptyAll schema).map fun columns => ⟨schema, columns, 0⟩
  | batch :: rest => (concatAll schema rest).bind batch.concat

end RecordBatch

namespace MongoExec

def fill : Nat → List Document → List Document → List Document × List Document
  | 0, docs, cursor => (docs, cursor)
  | _ + 1, docs, [] => (docs, [])
  | room + 1, docs, doc :: cursor => fill room (docs ++ [doc]) cursor

theorem fill_eq (room : Nat) (docs cursor : List Document) :
    fill room docs cursor = (docs ++ cursor.take room, cursor.drop room) := by
  induction room generalizing docs cursor with
  | zero => simp [fill]
  | succ room ih =>
      cases cursor with
      | nil => simp [fill]
      | cons doc rest => simp [fill, ih]

theorem fill_shorter {room : Nat} {cursor : List Document} (present : ¬(fill room [] cursor).1.isEmpty = true) :
    (fill room [] cursor).2.length < cursor.length := by
  rw [fill_eq, List.nil_append, List.isEmpty_iff, List.take_eq_nil_iff, not_or] at present
  have positive := List.length_pos_of_ne_nil present.2
  rw [fill_eq, List.length_drop]
  omega

def execute (text : BsonText) (schema : Schema) (batchSize : Nat) (cursor : List Document) :
    List (Except DataFusionError RecordBatch) :=
  let filled := fill (max batchSize 1) [] cursor
  if filled.1.isEmpty then []
  else
    match documentsToBatch text schema filled.1 with
    | .error e => [.error e]
    | .ok batch => .ok batch :: execute text schema batchSize filled.2
termination_by cursor.length
decreasing_by exact fill_shorter (by assumption)

end MongoExec

theorem listOffsets_shift {values : List (Option Bson)} {start base : Nat} {offsets shifted : List Nat}
    (built : listOffsets values start = .ok offsets) (later : listOffsets values (base + start) = .ok shifted) :
    shifted = offsets.map (base + ·) := by
  induction values generalizing start offsets shifted with
  | nil =>
      cases built
      cases later
      rfl
  | cons value rest ih =>
      simp only [listOffsets] at built later
      split_ifs at built with fits
      split_ifs at later with fits'
      cases tail : listOffsets rest (start + ((listItems value).getD []).length) with
      | error e => simp [tail, Except.map] at built
      | ok one =>
          cases moved : listOffsets rest (base + start + ((listItems value).getD []).length) with
          | error e => simp [moved, Except.map] at later
          | ok other =>
              simp only [tail, moved, Except.map, Except.ok.injEq] at built later
              subst built
              subst later
              rw [Nat.add_assoc] at moved
              rw [List.map_cons, ih tail moved, Nat.add_assoc]

theorem listOffsets_append {first second : List (Option Bson)} {start : Nat} {left right whole : List Nat}
    (built : listOffsets first start = .ok left) (later : listOffsets second 0 = .ok right)
    (all : listOffsets (first ++ second) start = .ok whole) :
    whole = left ++ right.map (start + (flatItems first).length + ·) := by
  induction first generalizing start left whole with
  | nil =>
      cases built
      exact listOffsets_shift later all
  | cons value rest ih =>
      simp only [List.cons_append, listOffsets] at built all
      split_ifs at built with fits
      rw [if_pos fits] at all
      cases tail : listOffsets rest (start + ((listItems value).getD []).length) with
      | error e => simp [tail, Except.map] at built
      | ok one =>
          cases long : listOffsets (rest ++ second) (start + ((listItems value).getD []).length) with
          | error e => simp [long, Except.map] at all
          | ok both =>
              simp only [tail, long, Except.map, Except.ok.injEq] at built all
              subst built
              subst all
              have total : (flatItems (value :: rest)).length =
                  ((listItems value).getD []).length + (flatItems rest).length := by
                simp [flatItems]
              rw [ih tail long, total, List.cons_append, ← Nat.add_assoc]

theorem flatItems_append (first second : List (Option Bson)) :
    flatItems (first ++ second) = flatItems first ++ flatItems second := by
  simp [flatItems]

theorem childSlots_append (name : String) (first second : List (Option Bson)) :
    childSlots name (first ++ second) = childSlots name first ++ childSlots name second := by
  simp [childSlots_eq]

section
variable (text : BsonText)

mutual
/-- The array of a concatenation is the concatenation of the arrays. -/
theorem buildTyped_append (dataType : DataType) (name : String) (tag : BsonTag) (first second : List (Option Bson))
    (left right whole : ArrayData) (one : buildTyped text dataType name tag first = .ok left)
    (two : buildTyped text dataType name tag second = .ok right)
    (all : buildTyped text dataType name tag (first ++ second) = .ok whole) : left.append right = whole := by
  cases dataType with
  | struct children =>
      simp only [buildTyped] at one two all
      obtain ⟨arrays, inner, one⟩ := bind_ok one
      obtain ⟨arrays', inner', two⟩ := bind_ok two
      obtain ⟨arrays'', inner'', all⟩ := bind_ok all
      have parts := buildChildren_append children first second arrays arrays' arrays'' inner inner' inner''
      split_ifs at one two all
      simp only [ArrayData.newStruct] at one two all
      split_ifs at one two all
      cases one
      cases two
      cases all
      simp only [ArrayData.append, parts, List.map_append]
  | list item =>
      simp only [buildTyped] at one two all
      obtain ⟨offsets, laid, one⟩ := bind_ok one
      obtain ⟨child, inner, one⟩ := bind_ok one
      obtain ⟨offsets', laid', two⟩ := bind_ok two
      obtain ⟨child', inner', two⟩ := bind_ok two
      obtain ⟨offsets'', laid'', all⟩ := bind_ok all
      obtain ⟨child'', inner'', all⟩ := bind_ok all
      rw [flatItems_append] at inner''
      have items := buildTyped_append item.dataType item.name (BsonTag.of item) (flatItems first) (flatItems second)
        child child' child'' inner inner' inner''
      have ends := listOffsets_append laid laid' laid''
      simp only [ArrayData.newList] at one two all
      split_ifs at one two all
      cases one
      cases two
      cases all
      simp only [ArrayData.append, items, ends, List.map_append, listOffsets_last laid, List.tail_cons,
        List.cons_append, Nat.zero_add]
  | timestamp unit timezone =>
      cases unit with
      | millisecond =>
          cases one
          cases two
          cases all
          simp only [ArrayData.append, List.map_append]
      | _ => cases one
  | decimal128 precision scale =>
      simp only [buildTyped, ArrayData.withPrecisionAndScale] at one two all
      split_ifs at one two all
      cases one
      cases two
      cases all
      simp only [ArrayData.append, List.map_append]
  | utf8 | binary =>
      simp only [buildTyped, ArrayData.fromTexts, ArrayData.fromBytes] at one two all
      split_ifs at one two all
      cases one
      cases two
      cases all
      simp only [ArrayData.append, List.map_append]
  | largeUtf8 => cases one
  | other display => cases one
  | _ =>
      cases one
      cases two
      cases all
      simp only [ArrayData.append, List.map_append]
theorem buildChildren_append (children : List (FieldOf DataType)) (first second : List (Option Bson))
    (left right whole : List ArrayData) (one : buildChildren text children first = .ok left)
    (two : buildChildren text children second = .ok right)
    (all : buildChildren text children (first ++ second) = .ok whole) :
    ArrayData.appendAll left right = whole := by
  cases children with
  | nil =>
      cases one
      cases two
      cases all
      rfl
  | cons child rest =>
      simp only [buildChildren] at one two all
      obtain ⟨array, here, one⟩ := bind_ok one
      obtain ⟨others, later, one⟩ := bind_ok one
      obtain ⟨array', here', two⟩ := bind_ok two
      obtain ⟨others', later', two⟩ := bind_ok two
      obtain ⟨array'', here'', all⟩ := bind_ok all
      obtain ⟨others'', later'', all⟩ := bind_ok all
      cases one
      cases two
      cases all
      rw [childSlots_append] at here''
      have head := buildTyped_append child.dataType child.name (BsonTag.of child) (childSlots child.name first)
        (childSlots child.name second) array array' array'' here here' here''
      have tail := buildChildren_append rest first second others others' others'' later later' later''
      simp only [ArrayData.appendAll, head, tail]
end

theorem buildColumns_types {schema : Schema} {docs : List Document} {columns : List ArrayData}
    (built : buildColumns text schema docs = .ok columns) :
    columns.map ArrayData.dataType = schema.map FieldOf.dataType := by
  have decoded := buildColumns_decoded text schema docs columns built
  clear built
  induction decoded with
  | nil => rfl
  | cons head _ ih => rw [List.map_cons, List.map_cons, head.dataType, ih]

theorem buildColumns_append (schema : Schema) (first second : List Document) (left right whole : List ArrayData)
    (one : buildColumns text schema first = .ok left) (two : buildColumns text schema second = .ok right)
    (all : buildColumns text schema (first ++ second) = .ok whole) : ArrayData.appendAll left right = whole := by
  induction schema generalizing left right whole with
  | nil =>
      cases one
      cases two
      cases all
      rfl
  | cons field rest ih =>
      simp only [buildColumns] at one two all
      obtain ⟨column, here, one⟩ := bind_ok one
      obtain ⟨others, later, one⟩ := bind_ok one
      obtain ⟨column', here', two⟩ := bind_ok two
      obtain ⟨others', later', two⟩ := bind_ok two
      obtain ⟨column'', here'', all⟩ := bind_ok all
      obtain ⟨others'', later'', all⟩ := bind_ok all
      cases one
      cases two
      cases all
      rw [List.map_append] at here''
      have head := buildTyped_append text _ _ _ _ _ column column' column'' here here' here''
      simp only [ArrayData.appendAll, head, ih others others' others'' later later' later'']

theorem documentsToBatch_append {schema : Schema} (decodable : ∀ field ∈ schema, field.dataType.decodable = true)
    {first second : List Document} {whole : RecordBatch}
    (decoded : documentsToBatch text schema (first ++ second) = .ok whole) :
    ∃ left right, documentsToBatch text schema first = .ok left ∧ documentsToBatch text schema second = .ok right ∧
      left.concat right = some whole := by
  obtain ⟨columns, built, rfl⟩ := documentsToBatch_columns text decoded
  have conditions := (documentsToBatch_isOk text decodable (first ++ second)).mp ⟨_, decoded, rfl⟩
  have slots : ∀ field : Field, columnSlots field (first ++ second) = columnSlots field first ++ columnSlots field second :=
    fun field => List.map_append
  have part : ∀ docs, (∀ field : Field, (columnSlots field docs).Sublist (columnSlots field (first ++ second))) →
      ∃ batch, documentsToBatch text schema docs = .ok batch ∧ batch.numRows = docs.length := by
    intro docs within
    refine (documentsToBatch_isOk text decodable docs).mpr ⟨fun field member => ?_, fun field member => ?_⟩
    · exact (conditions.1 field member).imp_right fun held v stored => held v ((within field).subset stored)
    · exact (conditions.2 field member).imp (ListsFit.part (within field)) (TextFits.part text (within field))
  obtain ⟨left, one, -⟩ := part first fun field => slots field ▸ List.sublist_append_left _ _
  obtain ⟨right, two, -⟩ := part second fun field => slots field ▸ List.sublist_append_right _ _
  refine ⟨left, right, one, two, ?_⟩
  obtain ⟨columns', built', rfl⟩ := documentsToBatch_columns text one
  obtain ⟨columns'', built'', rfl⟩ := documentsToBatch_columns text two
  have types := (buildColumns_types text built').trans (buildColumns_types text built'').symm
  rw [RecordBatch.concat, if_pos types, buildColumns_append text schema first second _ _ _ built' built'' built,
    List.length_append]

mutual
theorem buildTyped_nil (dataType : DataType) (name : String) (tag : BsonTag) (array : ArrayData)
    (built : buildTyped text dataType name tag [] = .ok array) : ArrayData.newEmpty dataType = some array := by
  cases dataType with
  | struct children =>
      simp only [buildTyped] at built
      obtain ⟨arrays, inner, built⟩ := bind_ok built
      have parts := buildChildren_nil children arrays inner
      split_ifs at built
      simp only [ArrayData.newStruct] at built
      split_ifs at built
      cases built
      simp only [ArrayData.newEmpty, parts, Option.map_some, List.map_nil]
  | list item =>
      simp only [buildTyped] at built
      obtain ⟨offsets, laid, built⟩ := bind_ok built
      obtain ⟨child, inner, built⟩ := bind_ok built
      have items := buildTyped_nil item.dataType item.name (BsonTag.of item) child inner
      cases laid
      simp only [ArrayData.newList] at built
      split_ifs at built
      cases built
      simp only [ArrayData.newEmpty, items, Option.map_some, List.map_nil]
  | timestamp unit timezone =>
      cases unit with
      | millisecond =>
          cases built
          rfl
      | _ => cases built
  | decimal128 precision scale =>
      simp only [buildTyped, ArrayData.withPrecisionAndScale] at built
      split_ifs at built
      cases built
      rfl
  | utf8 | binary =>
      simp only [buildTyped, ArrayData.fromTexts, ArrayData.fromBytes] at built
      split_ifs at built
      cases built
      rfl
  | largeUtf8 => cases built
  | other display => cases built
  | _ =>
      cases built
      rfl
theorem buildChildren_nil (children : List (FieldOf DataType)) (arrays : List ArrayData)
    (built : buildChildren text children [] = .ok arrays) : ArrayData.newEmptyAll children = some arrays := by
  cases children with
  | nil =>
      cases built
      rfl
  | cons child rest =>
      simp only [buildChildren] at built
      obtain ⟨array, here, built⟩ := bind_ok built
      obtain ⟨others, later, built⟩ := bind_ok built
      cases built
      have head := buildTyped_nil child.dataType child.name (BsonTag.of child) array here
      have tail := buildChildren_nil rest others later
      simp only [ArrayData.newEmptyAll, head, tail]
end

theorem buildColumns_nil (schema : Schema) (columns : List ArrayData)
    (built : buildColumns text schema [] = .ok columns) : ArrayData.newEmptyAll schema = some columns := by
  induction schema generalizing columns with
  | nil =>
      cases built
      rfl
  | cons field rest ih =>
      simp only [buildColumns] at built
      obtain ⟨column, here, built⟩ := bind_ok built
      obtain ⟨others, later, built⟩ := bind_ok built
      cases built
      have head := buildTyped_nil text _ _ _ column here
      simp only [ArrayData.newEmptyAll, head, ih others later]

/-- The items are batches of one to `batchSize` rows, zero counted as one, and
put together they are `whole`. -/
def CutInto (schema : Schema) (batchSize : Nat) (whole : RecordBatch)
    (items : List (Except DataFusionError RecordBatch)) : Prop :=
  ∃ batches, items = batches.map Except.ok ∧
    (∀ batch ∈ batches, 0 < batch.numRows ∧ batch.numRows ≤ max batchSize 1) ∧
      RecordBatch.concatAll schema batches = some whole

theorem execute_nil (schema : Schema) (batchSize : Nat) : MongoExec.execute text schema batchSize [] = [] := by
  rw [MongoExec.execute]
  simp [MongoExec.fill_eq]

theorem execute_step (schema : Schema) (batchSize : Nat) {cursor : List Document} (present : cursor ≠ []) :
    MongoExec.execute text schema batchSize cursor =
      match documentsToBatch text schema (cursor.take (max batchSize 1)) with
      | .error e => [.error e]
      | .ok batch => .ok batch :: MongoExec.execute text schema batchSize (cursor.drop (max batchSize 1)) := by
  have filled : ¬(cursor.take (max batchSize 1)).isEmpty = true := by
    simp only [List.isEmpty_iff, List.take_eq_nil_iff, present, or_false]
    omega
  rw [MongoExec.execute]
  simp only [MongoExec.fill_eq, List.nil_append, filled]
  rfl

theorem execute_cons {schema : Schema} (batchSize : Nat) {cursor : List Document} (present : cursor ≠ [])
    {batch : RecordBatch} (decoded : documentsToBatch text schema (cursor.take (max batchSize 1)) = .ok batch) :
    MongoExec.execute text schema batchSize cursor =
      .ok batch :: MongoExec.execute text schema batchSize (cursor.drop (max batchSize 1)) := by
  rw [execute_step text schema batchSize present, decoded]

theorem execute_cut {schema : Schema} (decodable : ∀ field ∈ schema, field.dataType.decodable = true)
    (batchSize : Nat) (cursor : List Document) {whole : RecordBatch}
    (decoded : documentsToBatch text schema cursor = .ok whole) :
    CutInto schema batchSize whole (MongoExec.execute text schema batchSize cursor) := by
  -- Every batch takes at least one document, so the rest of the cursor is shorter.
  induction length : cursor.length using Nat.strongRecOn generalizing cursor whole with
  | ind n ih =>
      by_cases present : cursor = []
      · subst present
        obtain ⟨columns, built, rfl⟩ := documentsToBatch_columns text decoded
        refine ⟨[], execute_nil text schema batchSize, by simp, ?_⟩
        rw [RecordBatch.concatAll, buildColumns_nil text schema columns built, Option.map_some, List.length_nil]
      · have positive := List.length_pos_of_ne_nil present
        rw [← List.take_append_drop (max batchSize 1) cursor] at decoded
        obtain ⟨left, right, one, two, joined⟩ := documentsToBatch_append text decodable decoded
        have shorter : (cursor.drop (max batchSize 1)).length < n := by
          rw [List.length_drop]
          omega
        obtain ⟨batches, items, sizes, total⟩ := ih _ shorter _ two rfl
        obtain ⟨columns, -, rows⟩ := documentsToBatch_columns text one
        refine ⟨left :: batches, ?_, ?_, ?_⟩
        · rw [execute_cons text batchSize present one, items, List.map_cons]
        · rw [List.forall_mem_cons]
          refine ⟨?_, sizes⟩
          simp only [rows, List.length_take]
          omega
        · rw [RecordBatch.concatAll, total, Option.bind_some, joined]

end

/-- Whatever the batch size, the stream of a scan yields the batch of the whole
cursor, cut into non-empty batches of at most that size. -/
theorem batch_size_irrelevant (text : BsonText) (sample : List Document) (maxDepth batchSize : Nat)
    (cursor : List Document) {whole : RecordBatch}
    (decoded : documentsToBatch text (inferredSchema sample maxDepth) cursor = .ok whole) :
    CutInto (inferredSchema sample maxDepth) batchSize whole
      (MongoExec.execute text (inferredSchema sample maxDepth) batchSize cursor) :=
  execute_cut text (finish_decodable _ maxDepth) batchSize cursor decoded

/-- Three documents, the last without the list. -/
def tagged : List Document :=
  [⟨[("_id", .int32 1), ("tags", .array [.string "a", .string "b"])], rfl⟩,
    ⟨[("_id", .int32 2), ("tags", .string "c")], rfl⟩, ⟨[("_id", .int32 3)], rfl⟩]

theorem batch_size_irrelevant_tagged :
    ∃ whole, documentsToBatch plainText (inferredSchema tagged 4) tagged = .ok whole ∧
      CutInto (inferredSchema tagged 4) 2 whole
        (MongoExec.execute plainText (inferredSchema tagged 4) 2 tagged) :=
  ⟨_, rfl, batch_size_irrelevant plainText tagged 4 2 tagged rfl⟩

end Auger
