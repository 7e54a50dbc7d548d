import Auger.Drift
import Auger.Extjson

set_option autoImplicit false

/-! The two renderings of a document: the JSON text of its struct cell, and the
relaxed extended JSON of a json column. -/

namespace Auger

open General

mutual
def Shape.nesting : Shape → Nat
  | .document children => 1 + childrenNesting children
  | .array inner => 1 + inner.nesting
  | _ => 0
def childrenNesting : List (String × FieldShapeOf Shape) → Nat
  | [] => 0
  | (_, fs) :: rest => max fs.shape.nesting (childrenNesting rest)
end

theorem nesting_le_of_mem {children : List (String × FieldShape)} {entry : String × FieldShape}
    (member : entry ∈ children) : entry.2.shape.nesting ≤ childrenNesting children := by
  induction children with
  | nil => cases member
  | cons head rest ih =>
      simp only [childrenNesting]
      rcases List.mem_cons.mp member with rfl | later
      · exact le_max_left _ _
      · exact (ih later).trans (le_max_right _ _)

section
variable (text : BsonText) (format : Formatters)

theorem decodeTyped_tag (dataType : DataType) (tag other : BsonTag) (v : Option Bson) :
    decodeTyped text dataType tag v = decodeTyped text dataType other v := by
  cases dataType with
  | timestamp unit timezone => cases unit <;> simp only [decodeTyped]
  | _ => simp only [decodeTyped, renderText]

/-- The JSON value a stored value has in a column of a shape. -/
def columnJson (shape : Shape) (path : String) (depth maxDepth : Nat) (v : Bson) : Json :=
  (decodeTyped text (arrowType shape path depth maxDepth).1 .json (some v)).toJson format

theorem lookup_fieldsToJson (cells : List (String × Cell)) (key : String) :
    (fieldsToJson format cells).lookup key = (cells.lookup key).map (Cell.toJson format) := by
  induction cells with
  | nil => rfl
  | cons entry rest ih =>
      rcases entry with ⟨name, cell⟩
      by_cases same : key = name
      · subst same
        simp [fieldsToJson]
      · have differ : (key == name) = false := by simpa using same
        simp only [fieldsToJson, List.lookup_cons, differ, ih]

variable (path : String) {depth maxDepth : Nat}

theorem columnJson_null (shape : Shape) : columnJson text format shape path depth maxDepth .null = .null := by
  rw [columnJson, decodeTyped_null text _ _ rfl]
  rfl

theorem columnJson_text (shape : Shape) (depth maxDepth : Nat)
    (textual : (arrowType shape path depth maxDepth).1 = .utf8) {v : Bson}
    (known : v.isNull = false) :
    ∃ s, columnJson text format shape path depth maxDepth v = .string s := by
  have rendered : ∀ v : Bson, ∃ s, renderText text v .json = some s := fun v => ⟨_, rfl⟩
  obtain ⟨s, found⟩ := rendered v
  refine ⟨s, ?_⟩
  simp only [columnJson, textual, decodeTyped, isNull, known, Option.bind_some, found, Cell.ofOption, Cell.toJson,
    Bool.false_eq_true, if_false]

theorem columnJson_list {inner : Shape} (room : depth < maxDepth) {v : Bson} {items : List Bson}
    (listed : listItems (some v) = some items) :
    columnJson text format (.array inner) path depth maxDepth v =
      .array (items.map (columnJson text format inner path (depth + 1) maxDepth)) := by
  simp only [columnJson, arrowType, if_pos room, decodeTyped, listed, Cell.toJson, itemsToJson_eq, List.map_map]
  congr 2
  funext v
  exact congrArg (Cell.toJson format) (decodeTyped_tag text _ _ _ _)

theorem columnJson_struct {children : List (String × FieldShape)} (room : depth < maxDepth ∧ children ≠ [])
    (fields : Fields) :
    ∃ members, columnJson text format (.document children) path depth maxDepth (.document fields) =
        .object members ∧
      (∀ key, members.lookup key = none ↔ children.lookup key = none) ∧
      ∀ key fs, children.lookup key = some fs → members.lookup key =
        some (match fields.lookup key with
          | some v => columnJson text format fs.shape (path ++ "." ++ key) (depth + 1) maxDepth v
          | none => .null) := by
  simp only [columnJson, arrowType, if_pos room, decodeTyped, isDocument, if_true, Cell.toJson]
  refine ⟨_, rfl, ?_, ?_⟩
  · intro key
    rw [lookup_fieldsToJson, lookup_decodeChildren, findField_buildFields]
    simp only [Option.map_eq_none_iff]
  · intro key fs found
    rw [lookup_fieldsToJson, lookup_decodeChildren, findField_buildFields, found]
    simp only [Option.map_some, decodeField, childSlot_document, fieldAround]
    cases fields.lookup key with
    | none => simp only [decodeTyped_none, Cell.toJson]
    | some v => exact congrArg (some ∘ Cell.toJson format) (decodeTyped_tag text _ _ _ _)

end

theorem document_of_object (text : BsonText) (format : Formatters) {dataType : DataType} {tag : BsonTag} {v : Bson}
    {members : List (String × Json)} (object : (decodeTyped text dataType tag (some v)).toJson format = .object members) :
    isDocument (some v) = true := by
  have scalar : ∀ {α : Type} {wrap : α → Cell} {slot : Option α},
      (∀ a, (wrap a).toJson format ≠ .object members) → (Cell.ofOption wrap slot).toJson format ≠ .object members := by
    intro α wrap slot never
    cases slot with
    | none => simp [Cell.ofOption, Cell.toJson]
    | some a => exact never a
  cases dataType with
  | boolean => cases v <;> simp [decodeTyped, Cell.toJson] at object
  | binary => cases v <;> simp [decodeTyped, Cell.toJson] at object
  | int32 => exact absurd object (scalar (by simp [Cell.toJson]))
  | int64 => exact absurd object (scalar (by simp [Cell.toJson]))
  | float64 =>
      refine absurd object (scalar fun x => ?_)
      simp only [Cell.toJson]
      split_ifs <;> simp
  | utf8 => exact absurd object (scalar (by simp [Cell.toJson]))
  | decimal128 precision scale => exact absurd object (scalar (by simp [Cell.toJson]))
  | timestamp unit timezone =>
      cases unit with
      | millisecond =>
          refine absurd object (scalar fun millis => ?_)
          simp only [Cell.toJson]
          split <;> simp
      | _ => simp [decodeTyped, Cell.toJson] at object
  | struct children =>
      simp only [decodeTyped] at object
      split_ifs at object with document
      · exact document
      · simp [Cell.toJson] at object
  | list item =>
      simp only [decodeTyped] at object
      split at object <;> simp [Cell.toJson] at object
  | largeUtf8 => simp [decodeTyped, Cell.toJson] at object
  | other display => simp [decodeTyped, Cell.toJson] at object

theorem same_rounded (format : Formatters) (v : Int) :
    ((Cell.float (F64.ofInt v)).toJson format).Same (.number (toString v)) ↔ ShownExactly v := by
  simp only [Cell.toJson]
  split_ifs with finite
  · constructor
    · exact fun same => ⟨finite, same.numbers.trans (Json.numberValue_int v)⟩
    · exact fun shown => .number (shown.2.trans (Json.numberValue_int v).symm)
  · constructor
    · exact fun same => nomatch same
    · exact fun shown => absurd shown.1 finite

section
variable {text : BsonText} {format : Formatters} {relaxed : Bson → Json} (extjson : RelaxedExtjson text relaxed)
include extjson

theorem same_null {shape : Shape} {path : String} {depth maxDepth : Nat} :
    (columnJson text format shape path depth maxDepth .null).Same (relaxed .null) := by
  rw [columnJson_null, extjson.null]
  exact .null

theorem same_int32 {shape : Shape} {path : String} {depth maxDepth : Nat} {v : Int32}
    (cell : decodeTyped text (arrowType shape path depth maxDepth).1 .json (some (.int32 v)) = .int v.toInt) :
    (columnJson text format shape path depth maxDepth (.int32 v)).Same (relaxed (.int32 v)) := by
  rw [extjson.int32, columnJson, cell, Cell.toJson]
  exact .number rfl

theorem same_int64 {shape : Shape} {path : String} {depth maxDepth : Nat} {v : Int64}
    (cell : decodeTyped text (arrowType shape path depth maxDepth).1 .json (some (.int64 v)) = .int v.toInt) :
    (columnJson text format shape path depth maxDepth (.int64 v)).Same (relaxed (.int64 v)) := by
  rw [extjson.int64, columnJson, cell, Cell.toJson]
  exact .number rfl

/-- A struct cell renders as the document does where the two have the same names and each
child's cell renders as its value does. -/
theorem same_document {children : List (String × FieldShape)} {path : String} {depth maxDepth : Nat} {fields : Fields}
    (room : depth < maxDepth) (present : fields ≠ [])
    (named : ∀ key, children.lookup key = none ↔ fields.lookup key = none)
    (each : ∀ key fs u, children.lookup key = some fs → fields.lookup key = some u →
      (columnJson text format fs.shape (path ++ "." ++ key) (depth + 1) maxDepth u).Same (relaxed u)) :
    (columnJson text format (.document children) path depth maxDepth (.document fields)).Same
      (relaxed (.document fields)) := by
  have nonempty : children ≠ [] := by
    rintro rfl
    obtain ⟨⟨key, u⟩, others, rfl⟩ := List.exists_cons_of_ne_nil present
    have absent := (named key).mp rfl
    simp at absent
  obtain ⟨members, rendered, sameNames, values⟩ := columnJson_struct text format path ⟨room, nonempty⟩ fields
  obtain ⟨others, object, lookups⟩ := extjson.document fields
  rw [rendered, object]
  constructor
  · intro key
    rw [sameNames, lookups, Option.map_eq_none_iff, named]
  · intro key x y here there
    rw [lookups, Option.map_eq_some_iff] at there
    obtain ⟨u, found, rfl⟩ := there
    have known : children.lookup key ≠ none := by simp [named key, found]
    obtain ⟨fs, slot⟩ := Option.ne_none_iff_exists'.mp known
    rw [values key fs slot, found] at here
    cases here
    exact each key fs u slot found

theorem same_array {inner : Shape} {path : String} {depth maxDepth : Nat} {items : List Bson} (room : depth < maxDepth)
    (each : ∀ u ∈ items, (columnJson text format inner path (depth + 1) maxDepth u).Same (relaxed u)) :
    (columnJson text format (.array inner) path depth maxDepth (.array items)).Same (relaxed (.array items)) := by
  have listed : listItems (some (.array items)) = some items := rfl
  rw [extjson.array, columnJson_list text format path room listed]
  constructor
  · simp only [List.length_map]
  · intro i x y here there
    rw [List.getElem?_map, Option.map_eq_some_iff] at here there
    obtain ⟨u, found, rfl⟩ := here
    obtain ⟨w, found', rfl⟩ := there
    obtain rfl := Option.some.inj (found.symm.trans found')
    exact each u (List.mem_of_getElem? found)

theorem same_float {path : String} {depth maxDepth : Nat} {v : Bson} (kind : OfKind .float v) :
    (columnJson text format .double path depth maxDepth v).Same (relaxed v) := by
  cases kind with
  | null => exact same_null extjson
  | @double x finite =>
      obtain ⟨lexeme, number, value⟩ := extjson.double x finite
      rw [number, columnJson]
      simp only [arrowType, decodeTyped, asF64, Cell.ofOption, Cell.toJson, finite, if_true]
      exact .number value.symm
  | widened shown =>
      rw [extjson.int32, columnJson]
      simp only [arrowType, decodeTyped, asF64, Cell.ofOption]
      exact (same_rounded format _).mpr shown
  | rounded shown =>
      rw [extjson.int64, columnJson]
      simp only [arrowType, decodeTyped, asF64, Cell.ofOption]
      exact (same_rounded format _).mpr shown

omit extjson in
theorem ofKind_children {names : List (String × JsonKind)} {values : List Bson}
    (kinds : ∀ v ∈ values, OfKind (.document names) v) {key : String} {kind : JsonKind}
    (named : names.lookup key = some kind) : ∀ w ∈ childValues key values, OfKind kind w := by
  intro w inside
  obtain ⟨fields, holder, held⟩ := mem_childValues.mp inside
  cases kinds _ holder with
  | document _ _ each => exact each key w kind held named

omit extjson in
theorem ofKind_elements {item : JsonKind} {values : List Bson} (kinds : ∀ v ∈ values, OfKind (.array item) v) :
    ∀ w ∈ elements values, OfKind item w := by
  intro w inside
  rcases mem_elements.mp inside with ⟨items, holder, held⟩ | ⟨lone, known, scalar⟩
  · cases kinds _ holder with
    | array each => exact each w held
  · cases kinds w lone with
    | null => cases known
    | array => cases scalar

theorem Fits.same {shape : Shape} {kind : JsonKind} (fits : Fits shape kind) :
    ∀ {mixed : Bool} {values : List Bson} {path : String} {depth maxDepth : Nat} {v : Bson},
      Explains shape mixed values → (∀ u ∈ values, OfKind kind u) → depth + shape.nesting ≤ maxDepth → v ∈ values →
      (columnJson text format shape path depth maxDepth v).Same (relaxed v) := by
  induction fits with
  | unknown kind =>
      intro mixed values path depth maxDepth v explained kinds room member
      have null := explains_unknown.mp explained v member
      cases kinds v member with
      | null => exact same_null extjson
      | _ => cases null
  | bool =>
      intro mixed values path depth maxDepth v explained kinds room member
      cases kinds v member with
      | null => exact same_null extjson
      | boolean b =>
          rw [extjson.boolean, columnJson]
          simp only [arrowType, decodeTyped, Cell.toJson]
          exact .bool b
  | int32 =>
      intro mixed values path depth maxDepth v explained kinds room member
      simp only [Explains] at explained
      cases kinds v member with
      | null => exact same_null extjson
      | int32 v =>
          exact same_int32 extjson
            (by simp only [arrowType, decodeTyped, asI64, Option.bind_some, toI32_toInt64, Cell.ofOption])
      | int64 v => cases (explained _ member).resolve_left (by simp [Bson.isNull])
  | widened =>
      intro mixed values path depth maxDepth v explained kinds room member
      simp only [Explains] at explained
      cases kinds v member with
      | null => exact same_null extjson
      | widened =>
          exact same_int32 extjson
            (by simp only [arrowType, decodeTyped, asI64, Option.bind_some, toI32_toInt64, Cell.ofOption])
      | rounded => cases (explained _ member).resolve_left (by simp [Bson.isNull])
      | double => cases (explained _ member).resolve_left (by simp [Bson.isNull])
  | int64 =>
      intro mixed values path depth maxDepth v explained kinds room member
      cases kinds v member with
      | null => exact same_null extjson
      | int32 v =>
          exact same_int32 extjson (by simp only [arrowType, decodeTyped, asI64, Cell.ofOption, Int32.toInt_toInt64])
      | int64 v => exact same_int64 extjson (by simp only [arrowType, decodeTyped, asI64, Cell.ofOption])
  | rounded =>
      intro mixed values path depth maxDepth v explained kinds room member
      simp only [Explains] at explained
      cases kinds v member with
      | null => exact same_null extjson
      | widened =>
          exact same_int32 extjson (by simp only [arrowType, decodeTyped, asI64, Cell.ofOption, Int32.toInt_toInt64])
      | rounded => exact same_int64 extjson (by simp only [arrowType, decodeTyped, asI64, Cell.ofOption])
      | double => cases (explained _ member).resolve_left (by simp [Bson.isNull])
  | double =>
      intro mixed values path depth maxDepth v explained kinds room member
      exact same_float extjson (kinds v member)
  | utf8 =>
      intro mixed values path depth maxDepth v explained kinds room member
      cases kinds v member with
      | null => exact same_null extjson
      | string s =>
          rw [extjson.string, columnJson]
          simp only [arrowType, decodeTyped, isNull, Bson.isNull, Option.bind_some, renderText, Cell.ofOption, Cell.toJson,
            Bool.false_eq_true, if_false]
          exact .string s
  | @document children names keys each ih =>
      intro mixed values path depth maxDepth v explained kinds room member
      cases kinds v member with
      | null => exact same_null extjson
      | @document _ fields present stored inner =>
          have named : ∀ key, children.lookup key = none ↔ fields.lookup key = none :=
            fun key => (keys key).trans (stored key).symm
          simp only [Shape.nesting] at room
          apply same_document extjson (by omega) present named
          intro key fs u slot found
          have known : names.lookup key ≠ none := by
            intro absent
            rw [(keys key).mpr absent] at slot
            cases slot
          obtain ⟨kind, kindAt⟩ := Option.ne_none_iff_exists'.mp known
          have deep := nesting_le_of_mem (SortedMap.mem_of_lookup slot)
          exact ih key fs kind slot kindAt (explained.child slot) (ofKind_children kinds kindAt)
            (by simp only at deep; omega) (mem_childValues.mpr ⟨fields, member, found⟩)
  | @array inner item fits ih =>
      intro mixed values path depth maxDepth v explained kinds room member
      cases kinds v member with
      | null => exact same_null extjson
      | @array _ items each =>
          simp only [Shape.nesting] at room
          simp only [Explains] at explained
          apply same_array extjson (by omega)
          intro u held
          exact ih explained.2 (ofKind_elements kinds) (by omega) (mem_elements.mpr (.inl ⟨items, member, held⟩))

omit extjson

mutual
/-- The kind of the values behind a shape, where they have one. -/
def kindOf : Shape → JsonKind
  | .int32 | .int64 => .integer
  | .double => .float
  | .utf8 => .string
  | .document children => .document (kindsOf children)
  | .array inner => .array (kindOf inner)
  | _ => .boolean
def kindsOf : List (String × FieldShapeOf Shape) → List (String × JsonKind)
  | [] => []
  | (key, fs) :: rest => (key, kindOf fs.shape) :: kindsOf rest
end

theorem kindsOf_eq (children : List (String × FieldShape)) :
    kindsOf children = children.map fun entry => (entry.1, kindOf entry.2.shape) := by
  induction children with
  | nil => rfl
  | cons entry rest ih => rw [kindsOf, ih, List.map_cons]

theorem lookup_kindsOf (children : List (String × FieldShape)) (key : String) :
    (kindsOf children).lookup key = (children.lookup key).map fun fs => kindOf fs.shape := by
  rw [kindsOf_eq]
  exact SortedMap.lookup_map (fun fs : FieldShape => kindOf fs.shape) children key

/-- All values at a place rendered alike are of the kind of its shape. -/
def Recovers (text : BsonText) (format : Formatters) (relaxed : Bson → Json) (shape : Shape) : Prop :=
  ∀ (mixed : Bool) (values : List Bson) (path : String) (depth maxDepth : Nat),
    Explains shape mixed values → Caused shape values → depth + shape.nesting ≤ maxDepth →
    (∀ v ∈ values, (columnJson text format shape path depth maxDepth v).Same (relaxed v)) →
    ∀ v ∈ values, OfKind (kindOf shape) v

include extjson

/-- A wrapped value is rendered alike in no column. -/
theorem wrapped_differs {shape : Shape} {path : String} {depth maxDepth : Nat} {v : Bson} (wrapped : v.isWrapped = true) :
    ¬(columnJson text format shape path depth maxDepth v).Same (relaxed v) := by
  intro same
  obtain ⟨members, object⟩ := extjson.wrapped_same wrapped same
  have document := document_of_object text format object
  cases v <;> first | (cases document; done) | cases wrapped

theorem scalar_recovers {shape : Shape} (plain : ∀ v : Bson, v.isNull = false → v.isWrapped = false →
      shape.admits true v = true → ∀ {path : String} {depth maxDepth : Nat},
      (columnJson text format shape path depth maxDepth v).Same (relaxed v) → OfKind (kindOf shape) v)
    (notDocument : ∀ children, shape ≠ .document children) (notArray : ∀ inner, shape ≠ .array inner) :
    Recovers text format relaxed shape := by
  intro mixed values path depth maxDepth explained caused room alike v member
  cases wrapped : v.isWrapped with
  | true => exact absurd (alike v member) (wrapped_differs extjson wrapped)
  | false =>
      cases known : v.isNull with
      | true =>
          cases v <;> first | exact .null _ | (cases known; done) | cases wrapped
      | false =>
          have admitted := (explains_scalar notDocument notArray explained v member).resolve_left (by simp [known])
          exact plain v known wrapped (Shape.admits_mono admitted (fun _ => rfl)) (alike v member)

/-- A shape behind which some value is wrapped in JSON is never rendered alike. -/
theorem recovers_of_wrapped {shape : Shape} (some_wrapped : ∀ {mixed : Bool} {values : List Bson},
      Explains shape mixed values → Caused shape values → ∃ v ∈ values, v.isWrapped = true) :
    Recovers text format relaxed shape := by
  intro mixed values path depth maxDepth explained caused room alike
  obtain ⟨v, member, wrapped⟩ := some_wrapped explained caused
  exact absurd (alike v member) (wrapped_differs extjson wrapped)

theorem json_recovers : Recovers text format relaxed .json := by
  intro mixed values path depth maxDepth explained caused room alike
  simp only [Caused] at caused
  obtain ⟨v, member, known, other⟩ := caused
  have same := alike v member
  obtain ⟨s, rendered⟩ := columnJson_text text format path .json depth maxDepth rfl known
  rw [rendered] at same
  generalize stored : relaxed v = value at same
  cases same with
  | string => exact absurd stored (extjson.ne_string other s)

theorem childless_differs {path : String} {depth maxDepth : Nat} {fields : Fields} :
    ¬(columnJson text format (.document []) path depth maxDepth (.document fields)).Same (relaxed (.document fields)) := by
  intro same
  have known : Bson.isNull (.document fields) = false := rfl
  obtain ⟨s, rendered⟩ := columnJson_text text format path (.document []) depth maxDepth (by simp [arrowType]) known
  rw [rendered] at same
  generalize stored : relaxed (.document fields) = value at same
  cases same with
  | string => exact extjson.ne_string rfl s stored

theorem document_alike {children : List (String × FieldShape)} {path : String} {depth maxDepth : Nat}
    (deep : depth < maxDepth) (nonempty : children ≠ []) {fields : Fields}
    (same : (columnJson text format (.document children) path depth maxDepth (.document fields)).Same
      (relaxed (.document fields))) :
    (∀ key, children.lookup key = none ↔ fields.lookup key = none) ∧
      ∀ key fs v, children.lookup key = some fs → fields.lookup key = some v →
        (columnJson text format fs.shape (path ++ "." ++ key) (depth + 1) maxDepth v).Same (relaxed v) := by
  obtain ⟨members, rendered, sameNames, values⟩ := columnJson_struct text format path ⟨deep, nonempty⟩ fields
  obtain ⟨others, object, lookups⟩ := extjson.document fields
  rw [rendered, object] at same
  cases same with
  | object names agree =>
      constructor
      · intro key
        rw [← sameNames, names, lookups, Option.map_eq_none_iff]
      · intro key fs v slot found
        have here := values key fs slot
        rw [found] at here
        exact agree key _ _ here (by rw [lookups, found, Option.map_some])

theorem document_recovers {children : List (String × FieldShape)}
    (each : ∀ entry ∈ children, Recovers text format relaxed entry.2.shape) :
    Recovers text format relaxed (.document children) := by
  intro mixed values path depth maxDepth explained caused room alike
  have documents := explained
  simp only [Explains] at documents
  simp only [Shape.nesting] at room
  have deep : depth < maxDepth := by omega
  have nonempty : children ≠ [] := by
    rintro rfl
    have present := caused
    simp only [Caused] at present
    obtain ⟨⟨fields, member⟩, -⟩ := present
    exact childless_differs extjson (alike _ member)
  have inside := fun fields (member : .document fields ∈ values) => document_alike extjson deep nonempty (alike _ member)
  intro v member
  rcases documents.1 v member with null | ⟨fields, rfl⟩
  · rcases Bson.isNull_iff.mp null with rfl | rfl
    · exact .null _
    · exact absurd (alike _ member) (wrapped_differs extjson rfl)
  · obtain ⟨named, _⟩ := inside fields member
    refine .document ?_ ?_ ?_
    · rintro rfl
      obtain ⟨⟨key, fs⟩, rest, rfl⟩ := List.exists_cons_of_ne_nil nonempty
      have absent := (named key).mpr rfl
      simp at absent
    · intro key
      rw [lookup_kindsOf, Option.map_eq_none_iff, named]
    · intro key u kind found kindAt
      rw [lookup_kindsOf, Option.map_eq_some_iff] at kindAt
      obtain ⟨fs, slot, rfl⟩ := kindAt
      have child := SortedMap.mem_of_lookup slot
      have deeper : fs.shape.nesting ≤ childrenNesting children := nesting_le_of_mem child
      refine each (key, fs) child fs.mixed (childValues key values) (path ++ "." ++ key) (depth + 1) maxDepth
        (explained.child slot) (caused.child slot) (show depth + 1 + fs.shape.nesting ≤ maxDepth by omega) ?_ u
        (mem_childValues.mpr ⟨fields, member, found⟩)
      intro w held
      obtain ⟨others, holder, stored⟩ := mem_childValues.mp held
      exact (inside others holder).2 key fs w slot stored

/-- A lone value stands in a list of its own, which is no value's rendering. -/
theorem listed_alike {inner : Shape} {path : String} {depth maxDepth : Nat} (deep : depth < maxDepth) {v : Bson}
    (same : (columnJson text format (.array inner) path depth maxDepth v).Same (relaxed v)) :
    v = .null ∨ ∃ items, v = .array items ∧
      ∀ u ∈ items, (columnJson text format inner path (depth + 1) maxDepth u).Same (relaxed u) := by
  cases isArray : v.isArray with
  | true =>
      cases v <;> try cases isArray
      rename_i items
      have listed : listItems (some (.array items)) = some items := rfl
      refine .inr ⟨items, rfl, ?_⟩
      rw [extjson.array, columnJson_list text format path deep listed] at same
      cases same with
      | array length agree =>
          intro u held
          obtain ⟨i, found⟩ := List.getElem?_of_mem held
          exact agree i _ _ (by rw [List.getElem?_map, found, Option.map_some])
            (by rw [List.getElem?_map, found, Option.map_some])
  | false =>
      cases known : v.isNull with
      | true =>
          rcases Bson.isNull_iff.mp known with rfl | rfl
          · exact .inl rfl
          · exact absurd same (wrapped_differs extjson rfl)
      | false =>
          have listed : listItems (some v) = some [v] := by
            cases v <;> first | rfl | (cases isArray; done) | cases known
          rw [columnJson_list text format path deep listed] at same
          generalize stored : relaxed v = value at same
          cases same with
          | array => exact absurd stored (extjson.ne_array isArray _)

theorem array_recovers {inner : Shape} (items_recover : Recovers text format relaxed inner) :
    Recovers text format relaxed (.array inner) := by
  intro mixed values path depth maxDepth explained caused room alike
  simp only [Shape.nesting] at room
  simp only [Explains] at explained
  simp only [Caused] at caused
  have arrays := fun v member => listed_alike extjson (by omega : depth < maxDepth) (alike v member)
  have items : ∀ u ∈ elements values, OfKind (kindOf inner) u := by
    refine items_recover true (elements values) path (depth + 1) maxDepth explained.2 caused.2 (by omega) ?_
    intro u held
    rcases mem_elements.mp held with ⟨items, member, within⟩ | ⟨member, known, scalar⟩
    · rcases arrays _ member with null | ⟨others, same, each⟩
      · cases null
      · cases same
        exact each u within
    · rcases arrays u member with rfl | ⟨others, rfl, -⟩
      · cases known
      · cases scalar
  intro v member
  rcases arrays v member with rfl | ⟨held, rfl, -⟩
  · exact .null _
  · exact .array fun u within => items u (mem_elements.mpr (.inl ⟨held, member, within⟩))

omit extjson

mutual
theorem recovers (extjson : RelaxedExtjson text relaxed) (shape : Shape) : Recovers text format relaxed shape := by
  cases shape with
  | unknown =>
      apply scalar_recovers extjson
      · intro v known wrapped admitted
        cases admitted
      · simp
      · simp
  | bool =>
      apply scalar_recovers extjson
      · intro v known wrapped admitted path depth maxDepth same
        cases v <;> try cases admitted
        exact .boolean _
      · simp
      · simp
  | int32 =>
      apply scalar_recovers extjson
      · intro v known wrapped admitted path depth maxDepth same
        cases v <;> try cases admitted
        exact .int32 _
      · simp
      · simp
  | int64 =>
      apply scalar_recovers extjson
      · intro v known wrapped admitted path depth maxDepth same
        cases v <;> try cases admitted
        · exact .int32 _
        · exact .int64 _
      · simp
      · simp
  | double =>
      apply scalar_recovers extjson
      · intro v known wrapped admitted path depth maxDepth same
        cases v <;> try cases admitted
        · exact .double (by simpa [Bson.isWrapped] using wrapped)
        · rw [extjson.int32, columnJson] at same
          simp only [arrowType, decodeTyped, asF64, Cell.ofOption] at same
          exact .widened ((same_rounded format _).mp same)
        · rw [extjson.int64, columnJson] at same
          simp only [arrowType, decodeTyped, asF64, Cell.ofOption] at same
          exact .rounded ((same_rounded format _).mp same)
      · simp
      · simp
  | utf8 =>
      apply scalar_recovers extjson
      · intro v known wrapped admitted path depth maxDepth same
        cases v <;> try cases admitted
        · exact .string _
        · cases wrapped
        · cases wrapped
      · simp
      · simp
  | decimal =>
      apply recovers_of_wrapped extjson
      intro mixed values explained caused
      simp only [Caused] at caused
      obtain ⟨d, member⟩ := caused
      exact ⟨_, member, rfl⟩
  | json => exact json_recovers extjson
  | document children => exact document_recovers extjson (children_recover extjson children)
  | array inner => exact array_recovers extjson (recovers extjson inner)
  | _ =>
      apply recovers_of_wrapped extjson
      intro mixed values explained caused
      simp only [Caused] at caused
      simp only [Explains] at explained
      obtain ⟨v, member, known, other⟩ := caused
      have admitted := (explained v member).resolve_left (by simp [known])
      refine ⟨v, member, ?_⟩
      cases v <;> first | rfl | cases admitted
theorem children_recover (extjson : RelaxedExtjson text relaxed) (children : List (String × FieldShapeOf Shape)) :
    ∀ entry ∈ children, Recovers text format relaxed entry.2.shape := by
  cases children with
  | nil => simp
  | cons head rest =>
      rcases head with ⟨key, fs⟩
      intro entry member
      rcases List.mem_cons.mp member with rfl | later
      · exact recovers extjson fs.shape
      · exact children_recover extjson rest entry later
end

end

def alone (name : String) (value : Bson) (distinct : value.distinctKeys = true) : Document :=
  ⟨[(name, value)], by simp [fieldsDistinct, distinct]⟩

theorem finish_alone (name : String) (value : Bson) (distinct : value.distinctKeys = true) (maxDepth : Nat) :
    (Sampler.observeAll [alone name value distinct]).finish maxDepth =
      [buildField name name (observeValue FieldShapeOf.empty value) 1 0 maxDepth] := by
  have root : (Sampler.observeAll [alone name value distinct]).root = [(name, observeValue FieldShapeOf.empty value)] := rfl
  have seen : (Sampler.observeAll [alone name value distinct]).docsSeen = 1 := rfl
  simp [Sampler.finish, root, seen]

/-- The texts of a row's value and of the value stored in a json column denote one JSON value. -/
def RendersAlike (format : Formatters) (text : BsonText) (array : ArrayData) (row : Nat) (value : Bson) : Prop :=
  ∃ rendered structured stored, renderText text value .json = some rendered ∧
    Json.parse (String.ofList (valueToJson format array row)) = some structured ∧
    Json.parse rendered = some stored ∧ structured.Same stored

section
variable {text : BsonText} {format : Formatters} {relaxed : Bson → Json} {name : String} {fields : Fields}
  {maxDepth : Nat} {array : ArrayData}

theorem buildArray_alone (light : (Bson.document fields).arrayElements + 1 < 2 ^ 31) :
    (∃ array, buildArray text (buildField name name (observeValue FieldShapeOf.empty (.document fields)) 1 0 maxDepth)
        [some (.document fields)] = .ok array) ↔
      TextFits text (arrowType (observeValue FieldShapeOf.empty (.document fields)).shape name 0 maxDepth).1
        (BsonTag.of (buildField name name (observeValue FieldShapeOf.empty (.document fields)) 1 0 maxDepth))
        [some (.document fields)] := by
  have fits : ListsFit (arrowType (observeValue FieldShapeOf.empty (.document fields)).shape name 0 maxDepth).1
      [some (.document fields)] := by
    apply listsFit_of_weight
    simpa [slotWeight] using light
  exact (buildTyped_isOk text _ (arrowType_decodable _ name 0 maxDepth) name _ _).trans (and_iff_right fits)

theorem alike_iff (decimals : DecimalsAreNumbers format) (extjson : RelaxedExtjson text relaxed)
    (distinct : fieldsDistinct fields = true) (enough : (shapeOf (.document fields)).nesting ≤ maxDepth)
    (built : buildArray text (buildField name name (observeValue FieldShapeOf.empty (.document fields)) 1 0 maxDepth)
      [some (.document fields)] = .ok array) :
    RendersAlike format text array 0 (.document fields) ↔ Uniform (.document fields) := by
  have slot : (observeValue FieldShapeOf.empty (.document fields)).shape = shapeOf (.document fields) :=
    observeShape_empty (.document fields)
  have decoded := buildTyped_decoded text _ _ _ _ array built
  have cell : (array.cell 0).toJson format =
      columnJson text format (shapeOf (.document fields)) name 0 maxDepth (.document fields) := by
    rw [decoded.cell 0 (by simp), columnJson, ← slot]
    exact congrArg (Cell.toJson format) (decodeTyped_tag text _ _ _ _)
  have inferred : array.dataType.inferred = true := by
    rw [decoded.dataType]
    exact arrowType_inferred _ name 0 maxDepth
  have written := valueToJson_isText decimals array (buildTyped_wellFormed text _ _ _ _ array built) inferred 0
  have structured : Json.parse (String.ofList (valueToJson format array 0)) = some ((array.cell 0).toJson format) := by
    apply Json.parse_text
    rwa [String.toList_ofList]
  have own : (Bson.document fields).distinctKeys = true := distinct
  have explained := explains_shapeOf (.document fields) own
  have caused := caused_shapeOf (.document fields) own
  have denoted : RendersAlike format text array 0 (.document fields) ↔
      (columnJson text format (shapeOf (.document fields)) name 0 maxDepth (.document fields)).Same
        (relaxed (.document fields)) := by
    rw [← cell]
    constructor
    · rintro ⟨rendered, left, right, render, first, second, same⟩
      cases render
      cases first.symm.trans structured
      cases second.symm.trans (extjson.reads (.document fields))
      exact same
    · exact fun same => ⟨_, _, _, rfl, structured, extjson.reads (.document fields), same⟩
  rw [denoted]
  constructor
  · intro same
    have all : Recovers text format relaxed (shapeOf (.document fields)) := recovers extjson _
    refine ⟨_, all false _ name 0 maxDepth explained caused (by omega) ?_ _ (List.mem_singleton.mpr rfl)⟩
    intro v member
    rwa [List.mem_singleton.mp member]
  · rintro ⟨kind, ofKind⟩
    refine (ofKind.fits own).same extjson explained ?_ (by omega) (List.mem_singleton.mpr rfl)
    intro v member
    rwa [List.mem_singleton.mp member]

end

/-- A document is rendered alike exactly when it is uniform. -/
theorem renderings_agree_iff (format : Formatters) (decimals : DecimalsAreNumbers format) (text : BsonText)
    (relaxed : Bson → Json) (extjson : RelaxedExtjson text relaxed) (name : String) (fields : Fields)
    (distinct : fieldsDistinct fields = true) (maxDepth : Nat)
    (enough : (shapeOf (.document fields)).nesting ≤ maxDepth) :
    ∃ field, (Sampler.observeAll [alone name (.document fields) distinct]).finish maxDepth = [field] ∧
      ((Bson.document fields).arrayElements + 1 < 2 ^ 31 →
        ((∃ array, buildArray text field [some (.document fields)] = .ok array) ↔
          TextFits text field.dataType (BsonTag.of field) [some (.document fields)])) ∧
      ∀ array, buildArray text field [some (.document fields)] = .ok array →
        (RendersAlike format text array 0 (.document fields) ↔ Uniform (.document fields)) :=
  ⟨_, finish_alone name (.document fields) distinct maxDepth, buildArray_alone,
    fun _ built => alike_iff decimals extjson distinct enough built⟩

/-- A number, a text and a null in a list. -/
theorem renderings_agree_iff_nested :
    ∃ field array, (Sampler.observeAll [alone "v" (.document [("n", .int32 7), ("xs", .array [.string "a", .null])])
        rfl]).finish 4 = [field] ∧
      buildArray (bsonText (fun _ => "0") fun _ => none) field
        [some (.document [("n", .int32 7), ("xs", .array [.string "a", .null])])] = .ok array ∧
      RendersAlike (arrowFormatters fun _ => none) (bsonText (fun _ => "0") fun _ => none) array 0
        (.document [("n", .int32 7), ("xs", .array [.string "a", .null])]) := by
  obtain ⟨field, schema, builds, alike⟩ := renderings_agree_iff (arrowFormatters fun _ => none)
    (arrow_decimalsAreNumbers _) (bsonText (fun _ => "0") fun _ => none) _ (bsonText_extjson _ _) "v"
    [("n", .int32 7), ("xs", .array [.string "a", .null])] rfl 4 (by decide)
  have inferred := (finish_alone "v" (.document [("n", .int32 7), ("xs", .array [.string "a", .null])]) rfl 4).symm.trans schema
  obtain rfl := List.singleton_inj.mp inferred
  obtain ⟨array, built⟩ := (builds (by decide)).mpr
    ⟨trivial, by show List.sum _ < 2 ^ 31; decide, trivial⟩
  refine ⟨_, array, schema, built, (alike array built).mpr ⟨.document [("n", .integer), ("xs", .array .string)], ?_⟩⟩
  refine .document (by simp) (fun key => by simp) fun key v kind stored kindAt => ?_
  by_cases number : key = "n"
  · subst number
    cases stored
    cases kindAt
    exact .int32 7
  · by_cases list : key = "xs"
    · subst list
      cases stored
      cases kindAt
      refine .array fun item inside => ?_
      rcases List.mem_pair.mp inside with rfl | rfl
      · exact .string "a"
      · exact .null _
    · have first : (key == "n") = false := by simpa using number
      have second : (key == "xs") = false := by simpa using list
      rw [List.lookup_cons, first, List.lookup_cons, second] at stored
      cases stored

/-- An object id is its hexadecimal text in the struct and an object in the json column. -/
theorem renderings_differ : ¬∀ (format : Formatters) (text : BsonText) (relaxed : Bson → Json) (fields : Fields)
    (distinct : fieldsDistinct fields = true) (maxDepth : Nat), DecimalsAreNumbers format →
    RelaxedExtjson text relaxed → fields ≠ [] → (shapeOf (.document fields)).nesting ≤ maxDepth →
    ∀ field ∈ (Sampler.observeAll [alone "v" (.document fields) distinct]).finish maxDepth, ∀ array,
      buildArray text field [some (.document fields)] = .ok array →
        RendersAlike format text array 0 (.document fields) := by
  intro alike
  have extjson := bsonText_extjson (fun _ => "0") fun _ => none
  have decimals := arrow_decimalsAreNumbers fun _ => none
  have distinct : fieldsDistinct [("id", .objectId ⟨0⟩)] = true := rfl
  obtain ⟨array, built⟩ : ∃ array, buildArray (bsonText (fun _ => "0") fun _ => none)
      (buildField "v" "v" (observeValue FieldShapeOf.empty (.document [("id", .objectId ⟨0⟩)])) 1 0 4)
      [some (.document [("id", .objectId ⟨0⟩)])] = .ok array :=
    (buildArray_alone (by decide)).mpr ⟨by show List.sum _ < 2 ^ 31; decide, trivial⟩
  have schema := finish_alone "v" (.document [("id", .objectId ⟨0⟩)]) distinct 4
  have same := alike _ _ _ [("id", .objectId ⟨0⟩)] distinct 4 decimals extjson (by simp) (by decide) _
    (schema ▸ List.mem_singleton.mpr rfl) array built
  obtain ⟨kind, ofKind⟩ := (alike_iff decimals extjson distinct (by decide) built).mp same
  cases ofKind with
  | @document kinds _ present keys each =>
      have known : kinds.lookup "id" ≠ none := fun absent => by simpa using (keys "id").mpr absent
      obtain ⟨kind, kindAt⟩ := Option.ne_none_iff_exists'.mp known
      cases each "id" _ kind rfl kindAt

end Auger
