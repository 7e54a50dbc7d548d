import Auger.SamplerFacts
import Auger.General.JsonValue

set_option autoImplicit false

/-! Values of one kind at every place, and the shapes inferred from them. -/

namespace Auger

open General

/-- The kinds of values JSON keeps apart, with integers apart from doubles. -/
inductive JsonKind
  | boolean | integer | float | string
  | document (fields : List (String × JsonKind))
  | array (item : JsonKind)

/-- The double nearest to an integer is displayed as that integer. -/
def ShownExactly (v : Int) : Prop :=
  (F64.ofInt v).isFinite = true ∧ Json.numberValue (F64.ofInt v).display.toList = v

/-- A value of one kind: the items of an array are of one kind, documents at one
place hold the same keys, and none is empty. Null is of every kind. -/
inductive OfKind : JsonKind → Bson → Prop
  | null (kind : JsonKind) : OfKind kind .null
  | boolean (b : Bool) : OfKind .boolean (.boolean b)
  | int32 (v : Int32) : OfKind .integer (.int32 v)
  | int64 (v : Int64) : OfKind .integer (.int64 v)
  | double {x : F64} (finite : x.isFinite = true) : OfKind .float (.double x)
  | widened {v : Int32} (shown : ShownExactly v.toInt) : OfKind .float (.int32 v)
  | rounded {v : Int64} (shown : ShownExactly v.toInt) : OfKind .float (.int64 v)
  | string (s : String) : OfKind .string (.string s)
  | document {kinds : List (String × JsonKind)} {fields : Fields} (present : fields ≠ [])
      (keys : ∀ key, fields.lookup key = none ↔ kinds.lookup key = none)
      (each : ∀ key v kind, fields.lookup key = some v → kinds.lookup key = some kind → OfKind kind v) :
      OfKind (.document kinds) (.document fields)
  | array {item : JsonKind} {items : List Bson} (each : ∀ v ∈ items, OfKind item v) :
      OfKind (.array item) (.array items)

/-- Every place in the value holds one kind of values. -/
def Uniform (value : Bson) : Prop := ∃ kind, OfKind kind value

/-- A shape inferred from values of one kind. -/
inductive Fits : Shape → JsonKind → Prop
  | unknown (kind : JsonKind) : Fits .unknown kind
  | bool : Fits .bool .boolean
  | int32 : Fits .int32 .integer
  | int64 : Fits .int64 .integer
  | double : Fits .double .float
  | widened : Fits .int32 .float
  | rounded : Fits .int64 .float
  | utf8 : Fits .utf8 .string
  | document {children : List (String × FieldShape)} {kinds : List (String × JsonKind)}
      (keys : ∀ key, children.lookup key = none ↔ kinds.lookup key = none)
      (each : ∀ key fs kind, children.lookup key = some fs → kinds.lookup key = some kind → Fits fs.shape kind) :
      Fits (.document children) (.document kinds)
  | array {inner : Shape} {item : JsonKind} (fits : Fits inner item) : Fits (.array inner) (.array item)

theorem Fits.no_conflict {a b : Shape} {kind : JsonKind} (first : Fits a kind) (second : Fits b kind)
    (clash : Shape.Conflict a b) : False := by
  have differ := clash.differ
  have widens := clash.not_widens
  have known := clash.left_known
  have known' := clash.right_known
  cases first with
  | unknown => exact known rfl
  | document =>
      cases second with
      | unknown => exact known' rfl
      | document => exact clash.not_documents _ _ ⟨rfl, rfl⟩
  | array =>
      cases second with
      | unknown => exact known' rfl
      | array => rcases clash.json_or_plain with json | json | plain <;> [cases json; cases json; exact plain.1]
  | _ =>
      cases second <;> first
        | exact known' rfl
        | exact differ rfl
        | exact widens.1 (by constructor)
        | exact widens.2 (by constructor)

theorem Fits.plain_array {shape : Shape} (plain : shape.Plain) {item : JsonKind} : ¬Fits shape (.array item) := by
  intro fits
  cases fits <;> exact plain

theorem Unified.fits {a b c : Shape} {m m' : Bool} (joined : Unified a b m c m') :
    ∀ {kind : JsonKind}, Fits a kind → Fits b kind → Fits c kind := by
  induction joined with
  | same => exact fun first _ => first
  | bottomLeft => exact fun _ second => second
  | bottomRight => exact fun first _ => first
  | widenRight => exact fun _ second => second
  | widenLeft => exact fun first _ => first
  | textRight => exact fun first _ => nomatch first
  | textLeft => exact fun _ second => nomatch second
  | arrays _ ih =>
      intro kind first second
      cases first with
      | array inner =>
          cases second with
          | array other => exact .array (ih inner other)
  | absorbRight plain _ ih =>
      intro kind first second
      cases first with
      | array inner => exact absurd second (Fits.plain_array plain)
  | absorbLeft plain _ ih =>
      intro kind first second
      cases second with
      | array inner => exact absurd first (Fits.plain_array plain)
  | @documents left right out m joined each ordered entries ih =>
      intro kind first second
      cases first with
      | @document _ kinds keys fits =>
          cases second with
          | document keys' fits' =>
              constructor
              · intro key
                rw [entries key]
                cases hr : right.lookup key with
                | none => simp [(keys key).mpr ((keys' key).mp hr), (keys' key).mp hr, SortedMap.mergedValue]
                | some rv =>
                    have known : kinds.lookup key ≠ none := fun absent => by simp [(keys' key).mpr absent] at hr
                    cases left.lookup key <;> simp [known, SortedMap.mergedValue]
              · intro key fs kind found kindAt
                rw [entries key] at found
                have known : left.lookup key ≠ none := by simp [keys key, kindAt]
                have known' : right.lookup key ≠ none := by simp [keys' key, kindAt]
                obtain ⟨lv, hl⟩ := Option.ne_none_iff_exists'.mp known
                obtain ⟨rv, hr⟩ := Option.ne_none_iff_exists'.mp known'
                rw [hl, hr] at found
                cases found
                exact ih key lv rv hl hr (fits key lv kind hl kindAt) (fits' key rv kind hr kindAt)
  | conflict _ clash => exact fun first second => (first.no_conflict second clash).elim

theorem observeShape_empty (v : Bson) :
    (observeShape FieldShapeOf.empty v.isNull (shapeOf v)).shape = shapeOf v := by
  unfold observeShape
  split_ifs with null
  · cases v <;> first | rfl | cases null
  · simp only [FieldShapeOf.empty, unify_unknown_left]

theorem lookup_shapeOf {fields : Fields} (distinct : fieldsDistinct fields = true) (key : String) :
    (shapeOfFields fields []).lookup key =
      (fields.lookup key).map fun v => observeShape FieldShapeOf.empty v.isNull (shapeOf v) := by
  rw [lookup_shapeOfFields fields distinct]
  cases fields.lookup key <;> rfl

theorem shapeOfItems_fits {items : List Bson} {item : JsonKind} (each : ∀ v ∈ items, Fits (shapeOf v) item)
    {elem : Shape} (ordered : elem.WellOrdered) (fits : Fits elem item) (mixed : Bool) :
    Fits (shapeOfItems items elem mixed) item := by
  induction items generalizing elem mixed with
  | nil => exact fits
  | cons head rest ih =>
      rw [List.forall_mem_cons] at each
      have joined := unify_spec elem (shapeOf head) mixed ordered (shapeOf_wellOrdered head)
      simp only [shapeOfItems]
      exact ih each.2 (joined.wellOrdered ordered (shapeOf_wellOrdered head)) (joined.fits fits each.1) _

theorem itemsDistinct_iff {items : List Bson} :
    itemsDistinct items = true ↔ ∀ v ∈ items, v.distinctKeys = true := by
  induction items with
  | nil => simp [itemsDistinct]
  | cons item rest ih => simp only [itemsDistinct, Bool.and_eq_true, ih, List.forall_mem_cons]

theorem OfKind.fits {kind : JsonKind} {value : Bson} (ofKind : OfKind kind value)
    (distinct : value.distinctKeys = true) : Fits (shapeOf value) kind := by
  induction ofKind with
  | null kind => exact .unknown kind
  | boolean => exact .bool
  | int32 => exact .int32
  | int64 => exact .int64
  | double => exact .double
  | widened => exact .widened
  | rounded => exact .rounded
  | string => exact .utf8
  | @document kinds fields present keys each ih =>
      simp only [Bson.distinctKeys] at distinct
      simp only [shapeOf]
      constructor
      · intro key
        rw [lookup_shapeOf distinct, Option.map_eq_none_iff, keys key]
      · intro key fs kind found kindAt
        rw [lookup_shapeOf distinct, Option.map_eq_some_iff] at found
        obtain ⟨v, stored, rfl⟩ := found
        rw [observeShape_empty]
        exact ih key v kind stored kindAt (fieldsDistinct_mem distinct (SortedMap.mem_of_lookup stored))
  | @array item items each ih =>
      simp only [Bson.distinctKeys, itemsDistinct_iff] at distinct
      simp only [shapeOf]
      refine .array (shapeOfItems_fits (fun v inside => ih v inside (distinct v inside)) ?_ (.unknown item) false)
      trivial

def Bson.isString : Bson → Bool
  | .string _ => true
  | _ => false

mutual
/-- Some value at every place of the shape made it what it is. -/
def Caused : Shape → List Bson → Prop
  | .unknown, _ | .utf8, _ => True
  | .decimal, values => ∃ d, .decimal128 d ∈ values
  | .document children, values => (∃ fields, .document fields ∈ values) ∧ childrenCaused children values
  | .array inner, values => (∃ items, .array items ∈ values) ∧ Caused inner (elements values)
  | _, values => ∃ v ∈ values, v.isNull = false ∧ v.isString = false
def childrenCaused : List (String × FieldShapeOf Shape) → List Bson → Prop
  | [], _ => True
  | (key, fs) :: rest, values => Caused fs.shape (childValues key values) ∧ childrenCaused rest values
end

theorem childrenCaused_iff (children : List (String × FieldShape)) (values : List Bson) :
    childrenCaused children values ↔ ∀ entry ∈ children, Caused entry.2.shape (childValues entry.1 values) := by
  induction children with
  | nil => simp [childrenCaused]
  | cons entry rest ih => simp only [childrenCaused, ih, List.forall_mem_cons]

theorem Caused.child {children : List (String × FieldShape)} {values : List Bson}
    (caused : Caused (.document children) values) {key : String} {fs : FieldShape}
    (found : children.lookup key = some fs) : Caused fs.shape (childValues key values) := by
  simp only [Caused] at caused
  exact (childrenCaused_iff children values).mp caused.2 _ (SortedMap.mem_of_lookup found)

/-- More values, apart from nulls. -/
def Extends (left right : List Bson) : Prop := ∀ v ∈ left, v.isNull = false → v ∈ right

theorem Extends.childValues {left right : List Bson} (extend : Extends left right) (key : String) :
    Extends (childValues key left) (childValues key right) := by
  intro v member _
  obtain ⟨fields, inside, found⟩ := mem_childValues.mp member
  exact mem_childValues.mpr ⟨fields, extend _ inside rfl, found⟩

theorem Extends.elements {left right : List Bson} (extend : Extends left right) :
    Extends (elements left) (elements right) := by
  intro v member _
  rcases mem_elements.mp member with ⟨items, inside, held⟩ | ⟨inside, known, scalar⟩
  · exact mem_elements.mpr (.inl ⟨items, extend _ inside rfl, held⟩)
  · exact mem_elements.mpr (.inr ⟨extend _ inside known, known, scalar⟩)

theorem extends_left (left right : List Bson) : Extends left (left ++ right) :=
  fun _ member _ => List.mem_append_left right member

theorem extends_right (left right : List Bson) : Extends right (left ++ right) :=
  fun _ member _ => List.mem_append_right left member

mutual
theorem Caused.mono (shape : Shape) {left right : List Bson} (extend : Extends left right)
    (caused : Caused shape left) : Caused shape right := by
  cases shape with
  | unknown => trivial
  | utf8 => trivial
  | decimal =>
      simp only [Caused] at caused ⊢
      obtain ⟨d, member⟩ := caused
      exact ⟨d, extend _ member rfl⟩
  | document children =>
      simp only [Caused] at caused ⊢
      obtain ⟨⟨fields, member⟩, inner⟩ := caused
      exact ⟨⟨fields, extend _ member rfl⟩, childrenCaused.mono children extend inner⟩
  | array inner =>
      simp only [Caused] at caused ⊢
      obtain ⟨⟨items, member⟩, within⟩ := caused
      exact ⟨⟨items, extend _ member rfl⟩, Caused.mono inner extend.elements within⟩
  | _ =>
      simp only [Caused] at caused ⊢
      obtain ⟨v, member, known, other⟩ := caused
      exact ⟨v, extend v member known, known, other⟩
theorem childrenCaused.mono (children : List (String × FieldShapeOf Shape)) {left right : List Bson}
    (extend : Extends left right) (caused : childrenCaused children left) : childrenCaused children right := by
  cases children with
  | nil => trivial
  | cons entry rest =>
      rcases entry with ⟨key, fs⟩
      exact ⟨Caused.mono fs.shape (extend.childValues key) caused.1, childrenCaused.mono rest extend caused.2⟩
end

theorem Caused.present {shape : Shape} {values : List Bson} (caused : Caused shape values)
    (known : shape ≠ .unknown) (other : shape ≠ .utf8) : ∃ v ∈ values, v.isNull = false ∧ v.isString = false := by
  cases shape with
  | unknown => exact absurd rfl known
  | utf8 => exact absurd rfl other
  | decimal =>
      simp only [Caused] at caused
      obtain ⟨d, member⟩ := caused
      exact ⟨_, member, rfl, rfl⟩
  | document children =>
      simp only [Caused] at caused
      obtain ⟨⟨fields, member⟩, -⟩ := caused
      exact ⟨_, member, rfl, rfl⟩
  | array inner =>
      simp only [Caused] at caused
      obtain ⟨⟨items, member⟩, -⟩ := caused
      exact ⟨_, member, rfl, rfl⟩
  | _ => simpa only [Caused] using caused

theorem extends_elements {shape : Shape} (plain : shape.Plain) {mixed : Bool} {values : List Bson}
    (explained : Explains shape mixed values) : Extends values (elements values) := by
  intro v member known
  refine mem_elements.mpr (.inr ⟨member, known, ?_⟩)
  cases shape with
  | unknown => exact plain.elim
  | json => exact plain.elim
  | array inner => exact plain.elim
  | document children =>
      simp only [Explains] at explained
      rcases explained.1 v member with null | ⟨inner, rfl⟩
      · exact Bson.isArray_of_isNull null
      · rfl
  | _ =>
      simp only [Explains] at explained
      rcases explained v member with null | admitted
      · exact Bson.isArray_of_isNull null
      · exact plain.not_array admitted

theorem Unified.caused {a b c : Shape} {m m' : Bool} (joined : Unified a b m c m') :
    ∀ {ma mb : Bool} {left right : List Bson}, Explains a ma left → Explains b mb right →
      Caused a left → Caused b right → Caused c (left ++ right) := by
  induction joined with
  | same a m => exact fun _ _ first _ => first.mono a (extends_left _ _)
  | bottomLeft b m => exact fun _ _ _ second => second.mono b (extends_right _ _)
  | bottomRight a m => exact fun _ _ first _ => first.mono a (extends_left _ _)
  | @widenRight a b m widens => exact fun _ _ _ second => second.mono b (extends_right _ _)
  | @widenLeft a b m widens => exact fun _ _ first _ => first.mono a (extends_left _ _)
  | textRight m => exact fun _ _ _ _ => trivial
  | textLeft m => exact fun _ _ _ _ => trivial
  | arrays _ ih =>
      intro ma mb left right explained explained' first second
      simp only [Explains] at explained explained'
      simp only [Caused] at first second ⊢
      obtain ⟨⟨items, member⟩, within⟩ := first
      refine ⟨⟨items, List.mem_append_left right member⟩, ?_⟩
      rw [elements_append]
      exact ih explained.2 explained'.2 within second.2
  | @absorbRight x b j m m' plain _ ih =>
      intro ma mb left right explained explained' first second
      simp only [Explains] at explained
      simp only [Caused] at first ⊢
      obtain ⟨⟨items, member⟩, within⟩ := first
      refine ⟨⟨items, List.mem_append_left right member⟩, ?_⟩
      rw [elements_append]
      exact ih explained.2 (explains_elements plain explained') within (second.mono b (extends_elements plain explained'))
  | @absorbLeft a x j m m' plain _ ih =>
      intro ma mb left right explained explained' first second
      simp only [Explains] at explained'
      simp only [Caused] at second ⊢
      obtain ⟨⟨items, member⟩, within⟩ := second
      refine ⟨⟨items, List.mem_append_right left member⟩, ?_⟩
      rw [elements_append]
      refine Caused.mono j ?_ (ih explained'.2 (explains_elements plain explained) within
        (first.mono a (extends_elements plain explained)))
      intro v member _
      exact List.mem_append.mpr (List.mem_append.mp member).symm
  | @documents leftFields rightFields out m joined each ordered entries ih =>
      intro ma mb left right explained explained' first second
      have child := @Caused.child
      have causes := first
      simp only [Caused] at causes ⊢
      obtain ⟨⟨fields, member⟩, -⟩ := causes
      refine ⟨⟨fields, List.mem_append_left right member⟩, (childrenCaused_iff _ _).mpr ?_⟩
      rintro ⟨key, fs⟩ inside
      have found := SortedMap.lookup_of_mem ordered inside
      rw [entries key] at found
      simp only [childValues_append]
      obtain ⟨hl, hr⟩ | ⟨hl, hr⟩ | ⟨lv, rv, hl, hr, rfl⟩ := SortedMap.mergedValue_cases found
      · exact (second.child hr).mono fs.shape (extends_right _ _)
      · exact (first.child hl).mono _ (extends_left _ _)
      · exact ih key lv rv hl hr (explained.child hl) (explained'.child hr) (first.child hl) (second.child hr)
  | @conflict a b m clash =>
      intro ma mb left right explained explained' first second
      simp only [Caused]
      by_cases text : a = .utf8
      · have other : b ≠ .utf8 := fun same => clash.differ (text.trans same.symm)
        obtain ⟨v, member, facts⟩ := second.present clash.right_known other
        exact ⟨v, List.mem_append_right left member, facts⟩
      · obtain ⟨v, member, facts⟩ := first.present clash.left_known text
        exact ⟨v, List.mem_append_left right member, facts⟩

mutual
theorem caused_shapeOf (value : Bson) (distinct : value.distinctKeys = true) : Caused (shapeOf value) [value] := by
  cases value with
  | document fields =>
      simp only [Bson.distinctKeys] at distinct
      simp only [shapeOf, Caused]
      refine ⟨⟨fields, List.mem_singleton.mpr rfl⟩, (childrenCaused_iff _ _).mpr ?_⟩
      rintro ⟨key, fs⟩ member
      have found := SortedMap.lookup_of_mem (shapeOfFields_ordered fields) member
      rw [lookup_shapeOf distinct, Option.map_eq_some_iff] at found
      obtain ⟨v, stored, rfl⟩ := found
      rw [observeShape_empty, childValues_single, stored]
      exact caused_entries fields (fun entry inside => fieldsDistinct_mem distinct inside) (key, v)
        (SortedMap.mem_of_lookup stored)
  | array items =>
      simp only [Bson.distinctKeys] at distinct
      simp only [shapeOf, Caused]
      refine ⟨⟨items, List.mem_singleton.mpr rfl⟩, ?_⟩
      have whole : elements [.array items] = items := by simp [elements, listItems]
      rw [whole]
      exact caused_items items distinct .unknown false [] trivial (by simp [Explains]) trivial
  | _ => simp [shapeOf, Caused, Bson.isNull, Bson.isString]
theorem caused_entries (entries : List (String × Bson)) (distinct : ∀ entry ∈ entries, entry.2.distinctKeys = true) :
    ∀ entry ∈ entries, Caused (shapeOf entry.2) [entry.2] := by
  cases entries with
  | nil => simp
  | cons head rest =>
      rcases head with ⟨key, value⟩
      intro entry member
      rcases List.mem_cons.mp member with rfl | later
      · exact caused_shapeOf value (distinct _ member)
      · exact caused_entries rest (fun e m => distinct e (List.mem_cons_of_mem _ m)) entry later
theorem caused_items (items : List Bson) (distinct : itemsDistinct items = true) (elem : Shape) (mixed : Bool)
    (seen : List Bson) (ordered : elem.WellOrdered) (explained : Explains elem true seen) (caused : Caused elem seen) :
    Caused (shapeOfItems items elem mixed) (seen ++ items) := by
  cases items with
  | nil => simpa [shapeOfItems] using caused
  | cons item rest =>
      simp only [itemsDistinct, Bool.and_eq_true] at distinct
      have own := explains_shapeOf item distinct.1
      have inner := shapeOf_wellOrdered item
      have step := unify_spec elem (shapeOf item) mixed ordered inner
      simp only [shapeOfItems]
      rw [List.append_cons]
      apply caused_items rest distinct.2
      · exact step.wellOrdered ordered inner
      · simpa using step.explains explained own
      · exact step.caused explained own caused (caused_shapeOf item distinct.1)
end

end Auger
