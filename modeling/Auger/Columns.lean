import Auger.Decode
import Auger.Pushdown
import Auger.SamplerFacts

set_option autoImplicit false

/-! Columns of an inferred schema: the slot behind a field, the values standing
there, and what an expression naming it evaluates to. -/

namespace Auger

open General

section
variable (name path : String) (fs : FieldShape) (total : Nat) (typed : DataType × BsonTag)

@[simp] theorem tag_fieldAround : BsonTag.of (fieldAround name path fs total typed) = typed.2 := by
  simp [BsonTag.of, fieldAround, fieldMetadata]

@[simp] theorem path_fieldAround : fieldPath (fieldAround name path fs total typed) = path := by
  have differ : (metaPath == metaBson) = false := by decide
  simp [fieldPath, fieldAround, fieldMetadata, List.lookup_cons, differ]

@[simp] theorem mixed_fieldAround : fieldIsMixed (fieldAround name path fs total typed) = fs.mixed := by
  have bson : (metaMixed == metaBson) = false := by decide
  have path : (metaMixed == metaPath) = false := by decide
  have freq : (metaMixed == metaFreq) = false := by decide
  cases flag : fs.mixed <;>
    simp [fieldIsMixed, fieldAround, fieldMetadata, List.lookup_cons, bson, path, freq, flag]

end

def dotted : List String → String
  | [] => ""
  | first :: rest => rest.foldl (fun path key => path ++ "." ++ key) first

theorem dotted_snoc {keys : List String} (nonempty : keys ≠ []) (key : String) :
    dotted (keys ++ [key]) = dotted keys ++ "." ++ key := by
  cases keys with
  | nil => exact absurd rfl nonempty
  | cons first rest => simp [dotted]

theorem splitDots_ne_nil (cs : List Char) : splitDots cs ≠ [] := by
  induction cs with
  | nil => simp [splitDots]
  | cons c rest ih =>
      simp only [splitDots]
      split_ifs
      · simp
      · split <;> simp

theorem splitDots_append (left right : List Char) :
    splitDots (left ++ '.' :: right) = splitDots left ++ splitDots right := by
  induction left with
  | nil => simp [splitDots]
  | cons c rest ih =>
      simp only [List.cons_append, splitDots, ih]
      split_ifs with dot
      · rfl
      · cases pieces : splitDots rest with
        | nil => exact absurd pieces (splitDots_ne_nil rest)
        | cons piece later => rfl

theorem splitDots_plain {cs : List Char} (plain : '.' ∉ cs) : splitDots cs = [cs] := by
  induction cs with
  | nil => rfl
  | cons c rest ih =>
      simp only [List.mem_cons, not_or] at plain
      simp only [splitDots, ih plain.2, if_neg (Ne.symm plain.1)]

theorem pathParts_join (left right : String) :
    pathParts (left ++ "." ++ right) = pathParts left ++ pathParts right := by
  have chars : (left ++ "." ++ right).toList = left.toList ++ '.' :: right.toList := by
    simp [String.toList_append]
  rw [pathParts, chars, splitDots_append, List.map_append]
  rfl

theorem pathParts_plain {key : String} (plain : '.' ∉ key.toList) : pathParts key = [key] := by
  simp [pathParts, splitDots_plain plain]

theorem pathParts_dotted {keys : List String} (nonempty : keys ≠ [])
    (plain : ∀ key ∈ keys, '.' ∉ key.toList) : pathParts (dotted keys) = keys := by
  induction keys using List.reverseRecOn with
  | nil => exact absurd rfl nonempty
  | append_singleton keys key ih =>
      have last := pathParts_plain (plain key (by simp))
      by_cases single : keys = []
      · subst single
        exact last
      · rw [dotted_snoc single, pathParts_join, last,
          ih single fun k member => plain k (List.mem_append_left _ member)]

def valueAt (doc : Document) (keys : List String) : Option Bson :=
  keys.foldl (fun v key => childSlot key v) (some (.document doc.fields))

/-- The value the decoder reads for a chain of keys: the first one is looked up
as a path. -/
def readAt (doc : Document) : List String → Option Bson
  | [] => some (.document doc.fields)
  | first :: rest => rest.foldl (fun v key => childSlot key v) (lookupPath doc first)

theorem valueAt_snoc (doc : Document) (keys : List String) (key : String) :
    valueAt doc (keys ++ [key]) = childSlot key (valueAt doc keys) := by
  simp [valueAt]

theorem readAt_snoc (doc : Document) {keys : List String} (nonempty : keys ≠ []) (key : String) :
    readAt doc (keys ++ [key]) = childSlot key (readAt doc keys) := by
  cases keys with
  | nil => exact absurd rfl nonempty
  | cons first rest => simp [readAt]

theorem lookupPath_plain (doc : Document) {key : String} (plain : '.' ∉ key.toList) :
    lookupPath doc key = doc.get key := by
  cases found : doc.get key <;> simp [lookupPath, pathParts_plain plain, found, lookupRest]

theorem readAt_plain (doc : Document) {keys : List String}
    (plain : ∀ key ∈ keys, '.' ∉ key.toList) : readAt doc keys = valueAt doc keys := by
  cases keys with
  | nil => rfl
  | cons first rest =>
      rw [readAt, lookupPath_plain doc (plain first (by simp))]
      rfl

def valuesUnder (keys : List String) (docs : List Document) : List Bson :=
  docs.filterMap (valueAt · keys)

theorem childValues_valuesUnder (key : String) (keys : List String) (docs : List Document) :
    childValues key (valuesUnder keys docs) = valuesUnder (keys ++ [key]) docs := by
  simp only [childValues, valuesUnder, List.filterMap_filterMap]
  apply List.filterMap_congr
  intro doc _
  rw [valueAt_snoc]
  rcases valueAt doc keys with _ | v
  · rfl
  · cases v <;> rfl

theorem mem_valuesUnder {keys : List String} {docs : List Document} {doc : Document} {v : Bson}
    (member : doc ∈ docs) (found : valueAt doc keys = some v) : v ∈ valuesUnder keys docs :=
  List.mem_filterMap.mpr ⟨doc, member, found⟩

inductive SlotAt (root : List (String × FieldShape)) : List String → FieldShape → Prop
  | root {key : String} {fs : FieldShape} (found : root.lookup key = some fs) : SlotAt root [key] fs
  | child {keys : List String} {fs child : FieldShape} {fields : List (String × FieldShape)}
      {key : String} (inner : SlotAt root keys fs) (document : fs.shape = .document fields)
      (found : fields.lookup key = some child) : SlotAt root (keys ++ [key]) child

theorem SlotAt.nonempty {root : List (String × FieldShape)} {keys : List String} {fs : FieldShape}
    (slot : SlotAt root keys fs) : keys ≠ [] := by
  cases slot <;> simp

theorem SlotAt.wellOrdered {docs : List Document} {keys : List String} {fs : FieldShape}
    (slot : SlotAt (Sampler.observeAll docs).root keys fs) : fs.shape.WellOrdered := by
  induction slot with
  | root found => exact observeAll_wellOrdered found
  | child _ document found ih =>
      rw [document] at ih
      exact ih.child found

theorem SlotAt.explains {docs : List Document} {keys : List String} {fs : FieldShape}
    (slot : SlotAt (Sampler.observeAll docs).root keys fs) :
    Explains fs.shape fs.mixed (valuesUnder keys docs) := by
  induction slot with
  | root found => exact observeAll_explains found
  | child _ document found ih =>
      rw [document] at ih
      rw [← childValues_valuesUnder]
      exact ih.child found

theorem SlotAt.keysAll {docs : List Document} {test : String → Bool}
    (all : ∀ doc ∈ docs, doc.keysAll test = true) {keys : List String} {fs : FieldShape}
    (slot : SlotAt (Sampler.observeAll docs).root keys fs) :
    (∀ key ∈ keys, test key = true) ∧ fs.shape.keysAll test = true := by
  induction slot with
  | root found =>
      have own := observeAll_keysAll all found
      exact ⟨by simpa using own.1, own.2⟩
  | child _ document found ih =>
      rw [document] at ih
      have own := Shape.keysAll_lookup ih.2 found
      refine ⟨fun key member => ?_, own.2⟩
      rcases List.mem_append.mp member with before | last
      · exact ih.1 key before
      · rw [List.mem_singleton.mp last]
        exact own.1

theorem findField_spec {name : String} {fields : List Field} {field : Field}
    (found : findField name fields = some field) : field ∈ fields ∧ field.name = name := by
  unfold findField at found
  exact ⟨List.mem_of_find?_eq_some found, by simpa using List.find?_some found⟩

theorem mem_finish {sampler : Sampler} {maxDepth : Nat} {field : Field}
    (member : field ∈ sampler.finish maxDepth) :
    ∃ name fs, sampler.root.lookup name = some fs ∧
      field = buildField name name fs sampler.docsSeen 0 maxDepth := by
  simp only [Sampler.finish, List.mem_filterMap, Option.map_eq_some_iff] at member
  obtain ⟨name, _, fs, found, rfl⟩ := member
  exact ⟨name, fs, found, rfl⟩

theorem findField_finish {sampler : Sampler} {maxDepth : Nat} {name : String} {field : Field}
    (found : findField name (sampler.finish maxDepth) = some field) :
    ∃ fs, sampler.root.lookup name = some fs ∧
      field = buildField name name fs sampler.docsSeen 0 maxDepth := by
  obtain ⟨member, named⟩ := findField_spec found
  obtain ⟨name', fs, slot, rfl⟩ := mem_finish member
  cases named
  exact ⟨fs, slot, rfl⟩

theorem findField_mem_finish {sampler : Sampler} {maxDepth : Nat} {field : Field}
    (member : field ∈ sampler.finish maxDepth) :
    findField field.name (sampler.finish maxDepth) = some field := by
  obtain ⟨name, fs, slot, rfl⟩ := mem_finish member
  cases found : findField name (sampler.finish maxDepth) with
  | none =>
      have missing := List.find?_eq_none.mp found _ member
      simp [buildField, fieldAround] at missing
  | some other =>
      obtain ⟨fs', slot', rfl⟩ := findField_finish found
      rw [slot] at slot'
      cases slot'
      exact found

theorem findField_buildFields (children : List (String × FieldShape)) (path : String)
    (total depth maxDepth : Nat) (key : String) :
    findField key (buildFields children path total depth maxDepth) =
      (children.lookup key).map fun fs =>
        fieldAround key (path ++ "." ++ key) fs total
          (arrowType fs.shape (path ++ "." ++ key) depth maxDepth) := by
  induction children with
  | nil => simp [buildFields, findField]
  | cons entry rest ih =>
      rcases entry with ⟨k, fs⟩
      by_cases same : key = k
      · subst same
        simp [buildFields, findField, fieldAround]
      · have differ : (key == k) = false := by simpa using same
        have other : (k == key) = false := by simpa using Ne.symm same
        simp only [buildFields, findField, List.find?_cons, fieldAround, other, List.lookup_cons, differ]
        simpa [findField, fieldAround] using ih

theorem arrowType_struct {shape : Shape} {path : String} {depth maxDepth : Nat} {children : List Field}
    (struct : (arrowType shape path depth maxDepth).1 = .struct children) :
    ∃ fields, shape = .document fields ∧
      children = buildFields fields path (maxPresent fields) (depth + 1) maxDepth := by
  cases shape with
  | document fields =>
      simp only [arrowType] at struct
      split_ifs at struct
      exact ⟨fields, rfl, (DataType.struct.inj struct).symm⟩
  | array inner =>
      simp only [arrowType] at struct
      split_ifs at struct
  | _ => simp [arrowType] at struct

/-- The field an expression names, and the keys leading to it. -/
inductive Denotes (schema : Schema) : Expr → List String → Field → Prop
  | root {name : String} {field : Field} (found : findField name schema = some field) :
      Denotes schema (.column name) [name] field
  | aliased {expr : Expr} {keys : List String} {field : Field} (name : String)
      (inner : Denotes schema expr keys field) : Denotes schema (.alias expr name) keys field
  | child {base : Expr} {keys : List String} {parent field : Field} {key : String}
      {children : List Field} (inner : Denotes schema base keys parent)
      (struct : parent.dataType = .struct children) (found : findField key children = some field) :
      Denotes schema (.scalarFunction "get_field" [base, .literal (.utf8 (some key))])
        (keys ++ [key]) field

/-- The field of a slot at some depth. -/
def FieldOfSlot (maxDepth : Nat) (keys : List String) (fs : FieldShape) (field : Field) : Prop :=
  ∃ name total depth,
    field = fieldAround name (dotted keys) fs total (arrowType fs.shape (dotted keys) depth maxDepth)

theorem Denotes.slot {sampler : Sampler} {maxDepth : Nat} {expr : Expr} {keys : List String}
    {field : Field} (denotes : Denotes (sampler.finish maxDepth) expr keys field) :
    ∃ fs, SlotAt sampler.root keys fs ∧ FieldOfSlot maxDepth keys fs field := by
  induction denotes with
  | @root name field found =>
      obtain ⟨fs, slot, rfl⟩ := findField_finish found
      exact ⟨fs, .root slot, name, sampler.docsSeen, 0, rfl⟩
  | aliased _ _ ih => exact ih
  | @child base keys parent field key children inner struct found ih =>
      obtain ⟨fs, slot, name, total, depth, rfl⟩ := ih
      obtain ⟨fields, document, rfl⟩ := arrowType_struct struct
      rw [findField_buildFields, Option.map_eq_some_iff] at found
      obtain ⟨child, lookup, rfl⟩ := found
      refine ⟨child, slot.child document lookup, key, maxPresent fields, depth + 1, ?_⟩
      rw [dotted_snoc slot.nonempty]

theorem Denotes.nonempty {schema : Schema} {expr : Expr} {keys : List String} {field : Field}
    (denotes : Denotes schema expr keys field) : keys ≠ [] := by
  induction denotes with
  | root | child => simp
  | aliased _ _ ih => exact ih

theorem Denotes.not_literal {schema : Schema} {expr : Expr} {keys : List String} {field : Field}
    (denotes : Denotes schema expr keys field) : isLiteral expr = false := by
  cases denotes <;> rfl

theorem join_ne (left right : String) : left ++ "." ++ right ≠ right := by
  intro equal
  have lengths := congrArg (fun s => s.toList.length) equal
  simp [String.toList_append] at lengths
  omega

/-- What the translator knows of a resolved column; its flag covers the flags of
the structs around it. -/
structure Resolves (keys : List String) (field : Field) (column : ColumnRef) : Prop where
  path : column.path = dotted keys
  tag : column.tag = BsonTag.of field
  dataType : column.dataType = field.dataType
  mixed : fieldIsMixed field = true → column.mixed = true

theorem Denotes.resolve {sampler : Sampler} {maxDepth : Nat} {expr : Expr} {keys : List String}
    {field : Field} (denotes : Denotes (sampler.finish maxDepth) expr keys field) :
    ∃ column, resolveColumn (sampler.finish maxDepth) expr = some column ∧
      Resolves keys field column := by
  induction denotes with
  | @root name field found =>
      obtain ⟨fs, slot, rfl⟩ := findField_finish found
      have own : fieldPath (buildField name name fs sampler.docsSeen 0 maxDepth) = name :=
        path_fieldAround _ _ _ _ _
      simp only [resolveColumn, found, Option.map_some]
      exact ⟨_, rfl, own, rfl, rfl, id⟩
  | aliased _ _ ih => simpa only [resolveColumn] using ih
  | @child base keys parent field key children inner struct found ih =>
      obtain ⟨fs, slot, name, total, depth, rfl⟩ := inner.slot
      obtain ⟨column, resolved, outer⟩ := ih
      obtain ⟨fields, document, rfl⟩ := arrowType_struct struct
      have child := found
      rw [findField_buildFields, Option.map_eq_some_iff] at child
      obtain ⟨fs', lookup, rfl⟩ := child
      have own := path_fieldAround key (dotted keys ++ "." ++ key) fs' (maxPresent fields)
        (arrowType fs'.shape (dotted keys ++ "." ++ key) (depth + 1) maxDepth)
      simp only [resolveColumn, if_true, resolved, Option.bind_some, resolveChild, outer.dataType,
        struct, found, Option.map_some]
      refine ⟨_, rfl, ?_, rfl, rfl, ?_⟩
      · rw [dotted_snoc slot.nonempty]
        simp only [columnRefOf, own]
        split
        · rename_i same
          exact absurd same (join_ne _ _)
        · rfl
      · intro flagged
        simp [columnRefOf, flagged]

inductive FieldAt (schema : Schema) : List String → Field → Prop
  | root {field : Field} (member : field ∈ schema) : FieldAt schema [field.name] field
  | child {keys : List String} {parent field : Field} {children : List Field}
      (inner : FieldAt schema keys parent) (struct : parent.dataType = .struct children)
      (member : field ∈ children) : FieldAt schema (keys ++ [field.name]) field

theorem mem_buildFields {children : List (String × FieldShape)} {path : String}
    {total depth maxDepth : Nat} {field : Field}
    (member : field ∈ buildFields children path total depth maxDepth) :
    ∃ key fs, (key, fs) ∈ children ∧
      field = fieldAround key (path ++ "." ++ key) fs total
        (arrowType fs.shape (path ++ "." ++ key) depth maxDepth) := by
  induction children with
  | nil => simp [buildFields] at member
  | cons entry rest ih =>
      rcases entry with ⟨k, fs⟩
      simp only [buildFields, List.mem_cons] at member
      rcases member with rfl | later
      · exact ⟨k, fs, by simp, rfl⟩
      · obtain ⟨key, fs', inside, rfl⟩ := ih later
        exact ⟨key, fs', List.mem_cons_of_mem _ inside, rfl⟩

theorem FieldAt.slot {docs : List Document} {maxDepth : Nat} {keys : List String} {field : Field}
    (place : FieldAt ((Sampler.observeAll docs).finish maxDepth) keys field) :
    ∃ fs, SlotAt (Sampler.observeAll docs).root keys fs ∧ FieldOfSlot maxDepth keys fs field := by
  induction place with
  | root member =>
      obtain ⟨name, fs, slot, rfl⟩ := mem_finish member
      exact ⟨fs, .root slot, name, (Sampler.observeAll docs).docsSeen, 0, rfl⟩
  | child _ struct member ih =>
      obtain ⟨fs, slot, name, total, depth, rfl⟩ := ih
      obtain ⟨fields, document, rfl⟩ := arrowType_struct struct
      obtain ⟨key, fs', inside, rfl⟩ := mem_buildFields member
      have ordered := slot.wellOrdered
      rw [document] at ordered
      have lookup := SortedMap.lookup_of_mem ordered.1 inside
      refine ⟨fs', slot.child document lookup, key, maxPresent fields, depth + 1, ?_⟩
      rw [dotted_snoc slot.nonempty]
      rfl

theorem lookup_decodeRow (text : BsonText) (schema : Schema) (doc : Document) (name : String) :
    (decodeRow text schema doc).lookup name =
      (findField name schema).map fun field =>
        decodeField text field (lookupPath doc (fieldPath field)) := by
  induction schema with
  | nil => rfl
  | cons field rest ih =>
      by_cases same : name = field.name
      · subst same
        simp [decodeRow, findField]
      · have differ : (name == field.name) = false := by simpa using same
        have other : (field.name == name) = false := by simpa using Ne.symm same
        simp only [decodeRow, findField, List.map_cons, List.lookup_cons, differ, List.find?_cons, other]
        exact ih

theorem lookup_decodeChildren (text : BsonText) (children : List Field) (v : Option Bson)
    (key : String) :
    (decodeChildren text children v).lookup key =
      (findField key children).map fun child => decodeField text child (childSlot key v) := by
  induction children with
  | nil => simp [decodeChildren, findField]
  | cons child rest ih =>
      by_cases same : key = child.name
      · subst same
        simp [decodeChildren, findField, decodeField]
      · have differ : (key == child.name) = false := by simpa using same
        have other : (child.name == key) = false := by simpa using Ne.symm same
        simp only [decodeChildren, findField, List.lookup_cons, differ, List.find?_cons, other]
        exact ih

theorem decodeTyped_none (text : BsonText) (dataType : DataType) (tag : BsonTag) :
    decodeTyped text dataType tag none = .null := by
  cases dataType with
  | timestamp unit timezone =>
      cases unit <;> simp [decodeTyped, asMillis, Cell.ofOption]
  | _ =>
      simp [decodeTyped, asI64, asF64, asDecimal, isNull, isDocument, listItems, Cell.ofOption]

/-- A column expression evaluates to the decoded value under its keys. -/
theorem Denotes.eval {sampler : Sampler} {maxDepth : Nat} {expr : Expr} {keys : List String}
    {field : Field} (denotes : Denotes (sampler.finish maxDepth) expr keys field) (text : BsonText)
    (external : Expr → Row → Cell) (doc : Document) :
    expr.eval external (decodeRow text (sampler.finish maxDepth) doc) =
      decodeField text field (readAt doc keys) := by
  induction denotes with
  | @root name field found =>
      obtain ⟨fs, slot, rfl⟩ := findField_finish found
      simp only [Expr.eval, lookup_decodeRow, found, Option.map_some, Option.getD_some]
      have own : fieldPath (buildField name name fs sampler.docsSeen 0 maxDepth) = name :=
        path_fieldAround _ _ _ _ _
      rw [own]
      rfl
  | aliased _ _ ih => simpa only [Expr.eval] using ih
  | @child base keys parent field key children inner struct found ih =>
      simp only [Expr.eval, if_true, ih]
      rw [readAt_snoc doc inner.nonempty]
      simp only [decodeField, struct, decodeTyped]
      cases whole : isDocument (readAt doc keys) with
      | true =>
          simp only [if_true, Cell.getField, lookup_decodeChildren, found, Option.map_some,
            Option.getD_some, decodeField]
      | false =>
          have missing : childSlot key (readAt doc keys) = none := by
            unfold childSlot
            split
            · rename_i fields equal
              simp [equal, isDocument] at whole
            · rfl
          simp [missing, decodeTyped_none, Cell.getField]

end Auger
