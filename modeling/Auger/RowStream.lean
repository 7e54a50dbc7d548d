import Auger.Gateway
import Auger.Query
import Auger.Wire

set_option autoImplicit false

/-! The rows a client is sent for a scan: each row says what its own document says, and a
statement timeout ends the answer between two batches. -/

namespace Auger

open General

section
variable (format : OutputFormatters)

mutual
/-- The JSON text of a cell in a column of this type. -/
def cellJson : DataType → Cell → List Char
  | .boolean, .boolean b => (if b then "true" else "false").toList
  | .int32, .int v => (toString v).toList
  | .int64, .int v => (toString v).toList
  | .float64, .float v => if v.isFinite then v.display.toList else "null".toList
  | .utf8, .text s => quoteJson s
  | .binary, .bytes bytes => quoteJson (hex bytes)
  | .timestamp _ _, .timestamp millis =>
      match format.rfc3339 (Int64.ofInt millis) with
      | some text => quoteJson text
      | none => (toString millis).toList
  | .decimal128 precision scale, .decimal unscaled _ => (format.decimal precision scale unscaled).toList
  | .struct fields, .struct cells => '{' :: (Json.joined (cellParts fields cells) ++ ['}'])
  | .list item, .list cells => '[' :: (Json.joined (cells.map fun cell => cellJson item.dataType cell) ++ [']'])
  | _, _ => "null".toList
def cellParts : List (FieldOf DataType) → List (String × Cell) → List (List Char)
  | field :: fields, entry :: cells =>
      (quoteJson field.name ++ ':' :: cellJson field.dataType entry.2) :: cellParts fields cells
  | _, _ => []
end

/-- The value the encoder is handed for a cell in a column of this type. -/
def handedCell : DataType → Cell → Handed
  | .boolean, .boolean b => .bool b
  | .int32, .int v => .int4 (Int32.ofInt v)
  | .int64, .int v => .int8 (Int64.ofInt v)
  | .float64, .float v => .float8 v
  | .utf8, .text s => .text s
  | .binary, .bytes bytes => .bytea bytes
  | .timestamp _ _, .timestamp millis =>
      if (format.rfc3339 (Int64.ofInt millis)).isSome then .dateTime (Int64.ofInt millis)
      else .text (toString millis)
  | .decimal128 precision scale, .decimal unscaled _ =>
      if fitsDecimal unscaled scale.toNat then .numeric unscaled scale.toNat
      else .text (format.decimal precision scale unscaled)
  | .struct fields, .struct cells => .json (String.ofList (cellJson format (.struct fields) (.struct cells)))
  | .list item, .list cells => .json (String.ofList (cellJson format (.list item) (.list cells)))
  | _, _ => .null

theorem cellJson_null (dataType : DataType) : cellJson format dataType .null = "null".toList := by
  cases dataType <;> simp only [cellJson]

theorem handedCell_null (dataType : DataType) : handedCell format dataType .null = .null := by
  cases dataType <;> simp only [handedCell]

theorem orNull_cell {α : Type} {write : α → List Char} {wrap : α → Cell} {dataType : DataType}
    (said : ∀ value, write value = cellJson format dataType (wrap value)) (slot : Option α) :
    orNull write slot = cellJson format dataType (Cell.ofOption wrap slot) := by
  cases slot with
  | none => exact (cellJson_null format dataType).symm
  | some value => exact said value

theorem ofOption_cell {α : Type} {hand : α → Handed} {wrap : α → Cell} {dataType : DataType}
    (said : ∀ value, hand value = handedCell format dataType (wrap value)) (slot : Option α) :
    Handed.ofOption hand slot = handedCell format dataType (Cell.ofOption wrap slot) := by
  cases slot with
  | none => exact (handedCell_null format dataType).symm
  | some value => exact said value

mutual
theorem valueToJson_cell (array : ArrayData) (formed : array.WellFormed) (row : Nat) :
    valueToJson format.toFormatters array row = cellJson format array.dataType (array.cell row) := by
  cases array <;> simp only [valueToJson, ArrayData.dataType, ArrayData.cell]
  case struct fields children validity =>
    split_ifs
    · rw [cellJson, structParts_cells fields children formed.2 (newStruct_types formed.1)]
    · rw [cellJson_null]
  case list item offsets child validity =>
    split_ifs
    · rw [cellJson, List.map_map]
      simp only [Function.comp_def, newList_type formed.1, valueToJson_cell child formed.2]
    · rw [cellJson_null]
  case timestampMillisecond timezone values =>
    refine orNull_cell format (fun millis => ?_) _
    cases read : format.rfc3339 millis <;> simp only [cellJson, Int64.ofInt_toInt, read]
  all_goals exact orNull_cell format (fun _ => by rw [cellJson]) _
theorem structParts_cells (fields : List Field) (children : List ArrayData)
    (formed : ArrayData.allWellFormed children)
    (types : List.Forall₂ (fun field child => field.dataType = child.dataType) fields children) {row : Nat} :
    structParts format.toFormatters fields children row =
      cellParts format fields (structCells fields children row) := by
  cases children with
  | nil =>
      cases types
      rfl
  | cons child children =>
      cases types with
      | @cons field _ fields _ here later =>
          simp only [structParts, structCells, cellParts, here]
          rw [valueToJson_cell child formed.1, structParts_cells fields children formed.2 later]
end

theorem encodeValue_cell (array : ArrayData) (formed : array.WellFormed) (row : Nat) :
    encodeValue format array.output row = handedCell format array.dataType (array.cell row) := by
  have text := (outputToJson_output format array row).trans (valueToJson_cell format array formed row)
  cases array <;> simp only [ArrayData.output, encodeValue, ArrayData.dataType, ArrayData.cell] at text ⊢
  case struct fields children validity | list item offsets child validity =>
    cases here : validity[row]?.getD false with
    | true =>
        rw [here, if_pos rfl] at text
        rw [OutputArray.isNull, here, Bool.not_true, if_neg Bool.false_ne_true, if_pos rfl, text, handedCell]
    | false => rw [OutputArray.isNull, here, Bool.not_false, if_pos rfl, if_neg Bool.false_ne_true, handedCell_null]
  case timestampMillisecond timezone values =>
    exact ofOption_cell format (fun millis => by rw [handedCell, Int64.ofInt_toInt]) _
  case int32 values => exact ofOption_cell format (fun v => by rw [handedCell, Int32.ofInt_toInt]) _
  case int64 values => exact ofOption_cell format (fun v => by rw [handedCell, Int64.ofInt_toInt]) _
  all_goals exact ofOption_cell format (fun _ => by rw [handedCell]) _

end

/-- `encode_batch`; `encodeRow` is the wire encoder, which may refuse a value of a row. -/
def encodeRows {ω : Type} (format : OutputFormatters) (encodeRow : List Handed → Except ErrorInfo ω)
    (batch : OutputBatch) : Except ErrorInfo (List ω) :=
  (encodeBatch format batch).mapM encodeRow

/-- A result of the engine's stream, and when it is there, in nanoseconds. -/
structure Arrival (β : Type) where
  item : Except DataFusionError β
  now : Nat

/-- `57014`: query_canceled. -/
def statementTimeout : ErrorInfo := ⟨"ERROR", "57014", "canceled: statement timeout exceeded"⟩

section
variable {β ρ : Type} (display : DataFusionError → String) (encode : β → Except ErrorInfo (List ρ))

/-- The rows one result becomes, or the error in their place. -/
def Arrival.answer (deadline : Option Nat) (arrival : Arrival β) : List (Except ErrorInfo ρ) :=
  if deadline.any fun last => decide (last < arrival.now) then [.error statementTimeout]
  else
    match arrival.item with
    | .ok batch =>
        match encode batch with
        | .ok rows => rows.map .ok
        | .error e => [.error e]
    | .error e => [.error (executionError (display e))]

/-- The instant from which a statement is too late; a timeout of zero is none. -/
def deadlineOf (timeoutSecs started : Nat) : Option Nat :=
  if 0 < timeoutSecs then some (started + timeoutSecs * 10 ^ 9) else none

/-- `to_row_stream`, for a statement started at `started`. -/
def toRowStream (timeoutSecs started : Nat) (arrivals : List (Arrival β)) : List (Except ErrorInfo ρ) :=
  arrivals.flatMap (Arrival.answer display encode (deadlineOf timeoutSecs started))

/-- What a client has read when the stream ends or fails. -/
def clientReads : List (Except ErrorInfo ρ) → List ρ × Option ErrorInfo
  | [] => ([], none)
  | .ok row :: rest => (row :: (clientReads rest).1, (clientReads rest).2)
  | .error e :: _ => ([], some e)

/-- Whether a result is there in time. -/
def Arrival.inTime (timeoutSecs started : Nat) (arrival : Arrival β) : Bool :=
  timeoutSecs == 0 || decide (arrival.now ≤ started + timeoutSecs * 10 ^ 9)

/-- Why a result is not answered with rows: it is late, an error, or cannot be encoded. -/
def Arrival.refusal (timeoutSecs started : Nat) (arrival : Arrival β) : Option ErrorInfo :=
  if arrival.inTime timeoutSecs started then
    match arrival.item with
    | .ok batch =>
        match encode batch with
        | .ok _ => none
        | .error e => some e
    | .error e => some (executionError (display e))
  else some statementTimeout

theorem inTime_iff (timeoutSecs started : Nat) (arrival : Arrival β) :
    arrival.inTime timeoutSecs started =
      !(deadlineOf timeoutSecs started).any fun last => decide (last < arrival.now) := by
  rw [Arrival.inTime, deadlineOf]
  split_ifs with limited
  · have positive : (timeoutSecs == 0) = false := beq_eq_false_iff_ne.mpr limited.ne'
    rw [positive, Bool.false_or, Option.any_some, ← decide_not]
    exact decide_eq_decide.mpr not_lt.symm
  · simp [Nat.eq_zero_of_not_pos limited]

theorem refusal_late {timeoutSecs started : Nat} {arrival : Arrival β}
    (late : arrival.inTime timeoutSecs started = false) :
    arrival.refusal display encode timeoutSecs started = some statementTimeout := by
  rw [Arrival.refusal, late, if_neg Bool.false_ne_true]

theorem answer_refused {timeoutSecs started : Nat} {arrival : Arrival β} {e : ErrorInfo}
    (refused : arrival.refusal display encode timeoutSecs started = some e) :
    arrival.answer display encode (deadlineOf timeoutSecs started) = [.error e] := by
  rw [Arrival.refusal, inTime_iff] at refused
  rw [Arrival.answer]
  cases late : (deadlineOf timeoutSecs started).any fun last => decide (last < arrival.now) with
  | true =>
      rw [late, Bool.not_true, if_neg Bool.false_ne_true, Option.some.injEq] at refused
      rw [if_pos rfl, refused]
  | false =>
      rw [late, Bool.not_false, if_pos rfl] at refused
      rw [if_neg Bool.false_ne_true]
      cases item : arrival.item with
      | error failed =>
          simp only [item, Option.some.injEq] at refused ⊢
          rw [refused]
      | ok batch =>
          cases encoded : encode batch <;> simp only [item, encoded, Option.some.injEq, reduceCtorEq] at refused ⊢
          rw [refused]

theorem answer_served {timeoutSecs started : Nat} {arrival : Arrival β}
    (served : arrival.refusal display encode timeoutSecs started = none) :
    ∃ batch rows, arrival.item = .ok batch ∧ encode batch = .ok rows ∧
      arrival.answer display encode (deadlineOf timeoutSecs started) = rows.map .ok := by
  rw [Arrival.refusal, inTime_iff] at served
  rw [Arrival.answer]
  cases late : (deadlineOf timeoutSecs started).any fun last => decide (last < arrival.now) with
  | true =>
      rw [late, Bool.not_true, if_neg Bool.false_ne_true] at served
      cases served
  | false =>
      rw [late, Bool.not_false, if_pos rfl] at served
      rw [if_neg Bool.false_ne_true]
      cases item : arrival.item with
      | error failed => simp [item] at served
      | ok batch =>
          cases encoded : encode batch with
          | error e => simp [item, encoded] at served
          | ok rows => exact ⟨batch, rows, rfl, encoded, by simp only [encoded]⟩

theorem clientReads_rows (rows : List ρ) (rest : List (Except ErrorInfo ρ)) :
    clientReads (rows.map .ok ++ rest) = (rows ++ (clientReads rest).1, (clientReads rest).2) := by
  induction rows with
  | nil => rfl
  | cons row rows ih => rw [List.map_cons, List.cons_append, clientReads, ih, List.cons_append]

theorem toRowStream_late {timeoutSecs started : Nat} {arrivals : List (Arrival β)}
    (late : ∀ arrival ∈ arrivals, arrival.inTime timeoutSecs started = false) :
    toRowStream display encode timeoutSecs started arrivals =
      List.replicate arrivals.length (.error statementTimeout) := by
  induction arrivals with
  | nil => rfl
  | cons arrival arrivals ih =>
      have later := ih fun other member => late other (List.mem_cons_of_mem _ member)
      have first := answer_refused display encode (refusal_late display encode (late arrival List.mem_cons_self))
      rw [toRowStream] at later ⊢
      rw [List.flatMap_cons, later, first, List.length_cons, List.replicate_succ, List.singleton_append]

/-- How many results are answered with rows before the first that is not. -/
def servedCount (timeoutSecs started : Nat) (arrivals : List (Arrival β)) : Nat :=
  (arrivals.takeWhile fun arrival => (arrival.refusal display encode timeoutSecs started).isNone).length

theorem servedCount_cons (timeoutSecs started : Nat) (arrival : Arrival β) (later : List (Arrival β)) :
    servedCount display encode timeoutSecs started (arrival :: later) =
      if (arrival.refusal display encode timeoutSecs started).isNone then
        servedCount display encode timeoutSecs started later + 1
      else 0 := by
  rw [servedCount, List.takeWhile_cons]
  split_ifs <;> rfl

theorem clientReads_refused (timeoutSecs started : Nat) (arrivals : List (Arrival β)) :
    clientReads (toRowStream display encode timeoutSecs started
        (arrivals.drop (servedCount display encode timeoutSecs started arrivals))) =
      ([], arrivals[servedCount display encode timeoutSecs started arrivals]?.bind
        (Arrival.refusal display encode timeoutSecs started)) := by
  induction arrivals with
  | nil => rfl
  | cons arrival later ih =>
      rw [servedCount_cons]
      cases refused : arrival.refusal display encode timeoutSecs started with
      | none =>
          rw [Option.isNone_none, if_pos rfl, List.drop_succ_cons, List.getElem?_cons_succ]
          exact ih
      | some e =>
          rw [Option.isNone_some, if_neg Bool.false_ne_true, List.drop_zero, toRowStream, List.flatMap_cons,
            answer_refused display encode refused, List.getElem?_cons_zero, Option.bind_some, refused]
          rfl

end

section
variable (format : OutputFormatters)

/-- The rows a batch of a scan is sent as. -/
def RecordBatch.wireRows (batch : RecordBatch) : List (List Handed) :=
  (List.range batch.numRows).map fun row => batch.columns.map fun column => encodeValue format column.output row

/-- They are what `encodeBatch` makes of a result batch with the same columns. -/
theorem encodeBatch_wireRows {out : OutputBatch} {batch : RecordBatch}
    (columns : out.columns = batch.columns.map ArrayData.output) (rows : out.numRows = batch.numRows) :
    encodeBatch format out = batch.wireRows format := by
  rw [encodeBatch, RecordBatch.wireRows, columns, rows]
  simp only [List.map_map, Function.comp_def]

variable (text : BsonText)

/-- The row a document is sent as. -/
def wireRow (schema : Schema) (doc : Document) : List Handed :=
  schema.map fun field => handedCell format field.dataType (decodeField text field (lookupPath doc (fieldPath field)))

theorem wireRow_columns {schema : Schema} {docs : List Document} {columns : List ArrayData}
    (built : buildColumns text schema docs = .ok columns) {i : Nat} (here : i < docs.length) :
    columns.map (fun column => encodeValue format column.output i) = wireRow format text schema docs[i] := by
  induction schema generalizing columns with
  | nil =>
      cases built
      rfl
  | cons field rest ih =>
      simp only [buildColumns] at built
      obtain ⟨column, first, built⟩ := bind_ok built
      obtain ⟨others, later, built⟩ := bind_ok built
      cases built
      have formed := buildTyped_wellFormed text _ _ _ _ column first
      have decoded := buildTyped_decoded text _ _ _ _ column first
      have slot := decoded.cell i (by simpa using here)
      rw [List.getElem_map] at slot
      rw [List.map_cons, ih later, encodeValue_cell format column formed, decoded.dataType, slot]
      rfl

theorem wireRows_decoded {schema : Schema} {docs : List Document} {batch : RecordBatch}
    (decoded : documentsToBatch text schema docs = .ok batch) :
    batch.wireRows format = docs.map (wireRow format text schema) := by
  obtain ⟨columns, built, rfl⟩ := documentsToBatch_columns text decoded
  apply List.ext_getElem
  · simp [RecordBatch.wireRows]
  · intro i bound inside
    have here : i < docs.length := by simpa using inside
    simpa [RecordBatch.wireRows] using wireRow_columns format text built here

/-- The engine passes a result of the scan on as it is. -/
inductive PassedOn : Except DataFusionError RecordBatch → Except DataFusionError OutputBatch → Prop
  | batch {batch : RecordBatch} {out : OutputBatch} (columns : out.columns = batch.columns.map ArrayData.output)
      (rows : out.numRows = batch.numRows) : PassedOn (.ok batch) (.ok out)
  | error (e : DataFusionError) : PassedOn (.error e) (.error e)

/-- Results of a scan, each no earlier than the one before it. -/
structure ScanArrives (schema : Schema) (batchSize : Nat) (cursor : List Document)
    (arrivals : List (Arrival OutputBatch)) : Prop where
  items : List.Forall₂ PassedOn (MongoExec.execute text schema batchSize cursor) (arrivals.map Arrival.item)
  ordered : arrivals.Pairwise fun first later => first.now ≤ later.now

theorem refused_error {display : DataFusionError → String} {ρ : Type} {encode : OutputBatch → Except ErrorInfo (List ρ)}
    {timeoutSecs started : Nat} {arrival : Arrival OutputBatch} {failed : DataFusionError}
    (passed : PassedOn (.error failed) arrival.item) :
    (arrival.refusal display encode timeoutSecs started).isNone = false := by
  cases served : arrival.refusal display encode timeoutSecs started with
  | some e => rfl
  | none =>
      obtain ⟨batch, rows, found, -⟩ := answer_served display encode served
      rw [found] at passed
      cases passed

theorem late_later {β : Type} {timeoutSecs started : Nat} {arrival later : Arrival β}
    (after : arrival.now ≤ later.now) (late : arrival.inTime timeoutSecs started = false) :
    later.inTime timeoutSecs started = false := by
  rw [Arrival.inTime, Bool.or_eq_false_iff, decide_eq_false_iff_not] at late ⊢
  exact ⟨late.1, by omega⟩

theorem mapM_ok_forall₂ {α β ε : Type} {f : α → Except ε β} {list : List α} {images : List β}
    (mapped : list.mapM f = .ok images) : List.Forall₂ (fun a b => f a = .ok b) list images := by
  induction list generalizing images with
  | nil =>
      cases mapped
      exact .nil
  | cons a rest ih =>
      rw [List.mapM_cons] at mapped
      obtain ⟨b, first, mapped⟩ := bind_ok mapped
      obtain ⟨others, later, mapped⟩ := bind_ok mapped
      cases mapped
      exact .cons first (ih later)

variable {ω : Type} (encodeRow : List Handed → Except ErrorInfo ω) (display : DataFusionError → String)

/-- The stream of a scan: the rows of the batches served, each of its own document, and
what becomes of the other results. -/
theorem toRowStream_scan (schema : Schema) (batchSize timeoutSecs started : Nat) {cursor : List Document}
    {arrivals : List (Arrival OutputBatch)} (arrives : ScanArrives text schema batchSize cursor arrivals) :
    let served := servedCount display (encodeRows format encodeRow) timeoutSecs started arrivals
    ∃ rows, List.Forall₂ (fun doc row => encodeRow (wireRow format text schema doc) = .ok row)
        (cursor.take (max batchSize 1 * served)) rows ∧
      toRowStream display (encodeRows format encodeRow) timeoutSecs started arrivals =
        rows.map .ok ++ toRowStream display (encodeRows format encodeRow) timeoutSecs started (arrivals.drop served) ∧
      (served = arrivals.length → cursor.length ≤ max batchSize 1 * served) := by
  -- Every batch takes at least one document, so the rest of the cursor is shorter.
  induction length : cursor.length using Nat.strongRecOn generalizing cursor arrivals with
  | ind n ih =>
      obtain ⟨items, ordered⟩ := arrives
      by_cases present : cursor = []
      · subst present
        rw [execute_nil, List.forall₂_nil_left_iff, List.map_eq_nil_iff] at items
        subst items
        exact ⟨[], by rw [List.take_nil]; exact .nil, rfl, fun _ => by rw [← length]; exact Nat.zero_le _⟩
      · have positive := List.length_pos_of_ne_nil present
        have shorter : (cursor.drop (max batchSize 1)).length < n := by
          rw [List.length_drop]
          omega
        rw [execute_step text schema batchSize present] at items
        cases decoded : documentsToBatch text schema (cursor.take (max batchSize 1)) with
        | error failed =>
            rw [decoded, List.forall₂_cons_left_iff] at items
            obtain ⟨item, rest, passed, -, shape⟩ := items
            obtain ⟨arrival, later, rfl, rfl, -⟩ := List.map_eq_cons_iff.mp shape
            simp only [servedCount_cons, refused_error passed, Bool.false_eq_true, if_false]
            exact ⟨[], .nil, rfl, fun none_left => by cases none_left⟩
        | ok batch =>
            rw [decoded, List.forall₂_cons_left_iff] at items
            obtain ⟨item, rest, passed, following, shape⟩ := items
            obtain ⟨arrival, later, rfl, rfl, rfl⟩ := List.map_eq_cons_iff.mp shape
            obtain ⟨-, laterOrdered⟩ := List.pairwise_cons.mp ordered
            cases served : arrival.refusal display (encodeRows format encodeRow) timeoutSecs started with
            | some e =>
                simp only [servedCount_cons, served, Option.isNone_some, Bool.false_eq_true, if_false]
                exact ⟨[], .nil, rfl, fun none_left => by cases none_left⟩
            | none =>
                obtain ⟨out, here, found, encoded, answered⟩ := answer_served display _ served
                rw [found] at passed
                cases passed with
                | batch columns count =>
                    obtain ⟨rows, own, stream, long⟩ := ih _ shorter ⟨following, laterOrdered⟩ rfl
                    rw [encodeRows, encodeBatch_wireRows format columns count, wireRows_decoded format text decoded]
                      at encoded
                    have first := mapM_ok_forall₂ encoded
                    rw [List.forall₂_map_left_iff] at first
                    simp only [servedCount_cons, served, Option.isNone_none, if_true]
                    refine ⟨here ++ rows, ?_, ?_, fun all => ?_⟩
                    · rw [Nat.mul_add_one, Nat.add_comm (max batchSize 1 * _), List.take_add]
                      exact List.rel_append first own
                    · rw [toRowStream, List.flatMap_cons, answered, List.map_append, List.append_assoc,
                        List.drop_succ_cons]
                      exact congrArg _ stream
                    · have rest := long (Nat.succ.inj all)
                      rw [List.length_drop] at rest
                      rw [Nat.mul_add_one]
                      omega

/-- What a client reads of a scan are the rows of the first documents of the cursor, in their
order, up to the first batch that is late, does not decode or cannot be encoded, and then its
error; where there is no such batch no row is missing. Behind a late batch the stream holds
only timeout errors, and without a timeout no batch is late. -/
theorem row_stream_answers (schema : Schema) (batchSize timeoutSecs started : Nat) (cursor : List Document)
    {arrivals : List (Arrival OutputBatch)} (arrives : ScanArrives text schema batchSize cursor arrivals) :
    let served := servedCount display (encodeRows format encodeRow) timeoutSecs started arrivals
    let sent := cursor.take (max batchSize 1 * served)
    let stream := toRowStream display (encodeRows format encodeRow) timeoutSecs started arrivals
    ∃ rows, List.Forall₂ (fun doc row => encodeRow (wireRow format text schema doc) = .ok row) sent rows ∧
      clientReads stream =
        (rows, arrivals[served]?.bind (Arrival.refusal display (encodeRows format encodeRow) timeoutSecs started)) ∧
      (served = arrivals.length → sent = cursor) ∧
      ((∀ arrival ∈ arrivals[served]?, arrival.inTime timeoutSecs started = false) →
        stream = rows.map .ok ++ List.replicate (arrivals.length - served) (.error statementTimeout)) ∧
      (timeoutSecs = 0 → ∀ arrival ∈ arrivals, arrival.inTime timeoutSecs started = true) := by
  intro served sent stream
  obtain ⟨rows, own, shape, long⟩ :=
    toRowStream_scan format text encodeRow display schema batchSize timeoutSecs started arrives
  refine ⟨rows, own, ?_, ?_, ?_, ?_⟩
  · have behind := clientReads_refused display (encodeRows format encodeRow) timeoutSecs started arrivals
    rw [show stream = _ from shape, clientReads_rows, behind, List.append_nil]
  · exact fun all => List.take_of_length_le (long all)
  · intro late
    have behind : ∀ arrival ∈ arrivals.drop served, arrival.inTime timeoutSecs started = false := by
      intro arrival member
      have inside : served < arrivals.length := by
        by_contra beyond
        rw [List.drop_of_length_le (not_lt.mp beyond)] at member
        cases member
      have first := late _ (List.getElem?_eq_getElem inside)
      rw [List.drop_eq_getElem_cons inside, List.mem_cons] at member
      rcases member with rfl | member
      · exact first
      · have ordered := arrives.ordered.sublist (List.drop_sublist served arrivals)
        rw [List.drop_eq_getElem_cons inside] at ordered
        exact late_later ((List.pairwise_cons.mp ordered).1 arrival member) first
    rw [show stream = _ from shape, toRowStream_late display _ behind, List.length_drop]
  · intro unlimited arrival _
    rw [Arrival.inTime, unlimited]
    rfl

end

def plainFormat : OutputFormatters := ⟨arrowFormatters fun _ => none, fun _ _ => ""⟩

/-- Three documents, the last with a text for an `_id`, which no column of numbers takes. -/
def strayId : List Document :=
  [⟨[("_id", .int32 4)], rfl⟩, ⟨[("_id", .int32 5)], rfl⟩, ⟨[("_id", .string "stray")], rfl⟩]

/-- In batches of two the first two documents are sent, and the batch that fails ends the answer. -/
theorem row_stream_answers_stray : ∃ arrivals : List (Arrival OutputBatch),
    ScanArrives plainText (inferredSchema (strayId.take 2) 4) 2 strayId arrivals ∧
      clientReads (toRowStream (fun _ => "no batch") (encodeRows plainFormat .ok) 5 0 arrivals) =
        ((strayId.take 2).map (wireRow plainFormat plainText (inferredSchema (strayId.take 2) 4)),
          some (executionError "no batch")) := by
  let out : OutputBatch := ⟨[("_id", .int32)], [.int32 [some 4, some 5]], 2, rfl, by simp [OutputType.Valid]⟩
  have first : documentsToBatch plainText (inferredSchema (strayId.take 2) 4) (strayId.take (max 2 1)) =
      .ok ⟨inferredSchema (strayId.take 2) 4, [.int32 [some 4, some 5]], 2⟩ := rfl
  obtain ⟨e, second⟩ : ∃ e, documentsToBatch plainText (inferredSchema (strayId.take 2) 4)
      ((strayId.drop (max 2 1)).take (max 2 1)) = .error e := ⟨_, rfl⟩
  have items : MongoExec.execute plainText (inferredSchema (strayId.take 2) 4) 2 strayId =
      [.ok ⟨inferredSchema (strayId.take 2) 4, [.int32 [some 4, some 5]], 2⟩, .error e] := by
    have present : strayId ≠ [] := List.cons_ne_nil _ _
    have more : strayId.drop (max 2 1) ≠ [] := List.cons_ne_nil _ _
    simp only [execute_step plainText _ 2 present, first, execute_step plainText _ 2 more, second]
  have arrives : ScanArrives plainText (inferredSchema (strayId.take 2) 4) 2 strayId
      [⟨.ok out, 5⟩, ⟨.error e, 3 * 10 ^ 9⟩] := by
    refine ⟨?_, by simp⟩
    rw [items]
    exact .cons (.batch rfl rfl) (.cons (.error e) .nil)
  obtain ⟨rows, own, reads, -⟩ := row_stream_answers plainFormat plainText .ok (fun _ => "no batch")
    (inferredSchema (strayId.take 2) 4) 2 5 0 strayId arrives
  have served : servedCount (fun _ => "no batch") (encodeRows plainFormat .ok) 5 0
      ([⟨.ok out, 5⟩, ⟨.error e, 3 * 10 ^ 9⟩] : List (Arrival OutputBatch)) = 1 := rfl
  rw [served] at own reads
  simp only [Except.ok.injEq] at own
  refine ⟨_, arrives, reads.trans (Prod.ext ?_ rfl)⟩
  rw [← List.forall₂_eq_eq_eq, List.forall₂_map_right_iff]
  exact own.flip.imp fun _ _ => Eq.symm

end Auger
