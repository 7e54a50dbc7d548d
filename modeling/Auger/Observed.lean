import Auger.Unify
import Auger.Convert

set_option autoImplicit false

/-! What a shape says about the values it was inferred from. -/

namespace Auger

open General

def childValues (key : String) (values : List Bson) : List Bson :=
  values.filterMap fun
    | .document fields => fields.lookup key
    | _ => none

/-- The items an array column reads: an array's own, or the lone value itself. -/
def elements (values : List Bson) : List Bson :=
  values.flatMap fun value => (listItems (some value)).getD []

/-- Regexes, code, pointers and the end keys: values with no SQL type of their own. -/
def Bson.isExotic : Bson → Bool
  | .regularExpression _ _ | .javaScriptCode _ | .javaScriptCodeWithScope _ _ | .maxKey
  | .minKey | .dbPointer _ _ => true
  | _ => false

/-- Which non-null values a scalar shape admits, under its field's mixed flag. -/
def Shape.admits : Shape → Bool → Bson → Bool
  | .bool, _, .boolean _ => true
  | .int32, _, .int32 _ => true
  | .int64, _, .int32 _ | .int64, _, .int64 _ => true
  | .double, _, .int32 _ | .double, _, .int64 _ | .double, _, .double _ => true
  | .decimal, _, .int32 _ | .decimal, _, .int64 _ | .decimal, _, .double _
  | .decimal, _, .decimal128 _ => true
  | .utf8, _, .string _ | .utf8, _, .symbol _ => true
  | .utf8, mixed, .objectId _ => mixed
  | .objectId, _, .objectId _ => true
  | .dateTime, _, .dateTime _ | .dateTime, _, .timestamp _ _ => true
  | .bsonTimestamp, _, .timestamp _ _ => true
  | .binary, _, .binary _ _ => true
  | .json, mixed, value => mixed || value.isExotic
  | _, _, _ => false

mutual
/-- `Explains shape mixed values`: the shape accounts for every one of the values. -/
def Explains : Shape → Bool → List Bson → Prop
  | .document fields, _, values =>
      (∀ v ∈ values, v.isNull = true ∨ ∃ inner, v = .document inner) ∧
      (∀ key, childValues key values ≠ [] → fields.lookup key ≠ none) ∧
      fieldsExplain fields values
  | .array inner, _, values =>
      (∃ v ∈ values, v.isArray = true) ∧ Explains inner true (elements values)
  | shape, mixed, values => ∀ v ∈ values, v.isNull = true ∨ shape.admits mixed v = true
def fieldsExplain : List (String × FieldShapeOf Shape) → List Bson → Prop
  | [], _ => True
  | (key, fs) :: rest, values =>
      Explains fs.shape fs.mixed (childValues key values) ∧ fieldsExplain rest values
end

/-- Neither a document nor an array. -/
def Shape.Scalar : Shape → Prop
  | .document _ | .array _ => False
  | _ => True

theorem Shape.scalar_of_not {shape : Shape} (notDocument : ∀ fields, shape ≠ .document fields)
    (notArray : ∀ inner, shape ≠ .array inner) : shape.Scalar := by
  cases shape with
  | document fields => exact absurd rfl (notDocument fields)
  | array inner => exact absurd rfl (notArray inner)
  | _ => trivial

theorem explains_scalar_iff {shape : Shape} (scalar : shape.Scalar) {mixed : Bool} {values : List Bson} :
    Explains shape mixed values ↔ ∀ v ∈ values, v.isNull = true ∨ shape.admits mixed v = true := by
  cases shape <;> first | exact Iff.rfl | exact scalar.elim

theorem fieldsExplain_iff (fields : List (String × FieldShape)) (values : List Bson) :
    fieldsExplain fields values ↔
      ∀ entry ∈ fields, Explains entry.2.shape entry.2.mixed (childValues entry.1 values) := by
  induction fields with
  | nil => simp [fieldsExplain]
  | cons entry rest ih => simp only [fieldsExplain, ih, List.forall_mem_cons]

theorem Explains.child {fields : List (String × FieldShape)} {mixed : Bool} {values : List Bson}
    (explained : Explains (.document fields) mixed values) {key : String} {fs : FieldShape}
    (found : fields.lookup key = some fs) :
    Explains fs.shape fs.mixed (childValues key values) := by
  simp only [Explains] at explained
  exact (fieldsExplain_iff fields values).mp explained.2.2 _ (SortedMap.mem_of_lookup found)

theorem mem_childValues {key : String} {values : List Bson} {v : Bson} :
    v ∈ childValues key values ↔ ∃ fields, .document fields ∈ values ∧ fields.lookup key = some v := by
  simp only [childValues, List.mem_filterMap]
  constructor
  · rintro ⟨u, member, found⟩
    cases u with
    | document fields => exact ⟨fields, member, found⟩
    | _ => cases found
  · rintro ⟨fields, member, found⟩
    exact ⟨_, member, found⟩

theorem listItems_scalar {v : Bson} (known : v.isNull = false) (scalar : v.isArray = false) :
    listItems (some v) = some [v] := by
  cases v <;> first | rfl | (cases known; done) | cases scalar

theorem listItems_null {v : Bson} (null : v.isNull = true) : listItems (some v) = none := by
  cases v <;> first | rfl | cases null

theorem exists_items {v : Bson} (isArray : v.isArray = true) : ∃ items, v = .array items := by
  cases v <;> first | exact ⟨_, rfl⟩ | cases isArray

theorem mem_elements {values : List Bson} {v : Bson} :
    v ∈ elements values ↔ (∃ items, .array items ∈ values ∧ v ∈ items) ∨
      (v ∈ values ∧ v.isNull = false ∧ v.isArray = false) := by
  simp only [elements, List.mem_flatMap]
  constructor
  · rintro ⟨u, member, inside⟩
    cases isArray : u.isArray with
    | true =>
        obtain ⟨items, rfl⟩ := exists_items isArray
        exact Or.inl ⟨items, member, inside⟩
    | false =>
        cases known : u.isNull with
        | true =>
            rw [listItems_null known] at inside
            cases inside
        | false =>
            rw [listItems_scalar known isArray] at inside
            obtain rfl := List.mem_singleton.mp inside
            exact Or.inr ⟨member, known, isArray⟩
  · rintro (⟨items, member, inside⟩ | ⟨member, known, scalar⟩)
    · exact ⟨_, member, by simpa [listItems] using inside⟩
    · refine ⟨v, member, ?_⟩
      rw [listItems_scalar known scalar]
      exact List.mem_singleton_self v

/-- The two lists hold the same non-null values. -/
def SameValues (left right : List Bson) : Prop :=
  ∀ v, v.isNull = false → (v ∈ left ↔ v ∈ right)

theorem SameValues.symm {left right : List Bson} (same : SameValues left right) :
    SameValues right left := fun v known => (same v known).symm

theorem SameValues.childValues {left right : List Bson} (same : SameValues left right)
    (key : String) : SameValues (childValues key left) (childValues key right) := by
  intro v _
  rw [mem_childValues, mem_childValues]
  constructor <;> rintro ⟨fields, member, found⟩
  · exact ⟨fields, (same _ rfl).mp member, found⟩
  · exact ⟨fields, (same _ rfl).mpr member, found⟩

theorem SameValues.elements {left right : List Bson} (same : SameValues left right) :
    SameValues (elements left) (elements right) := by
  intro v _
  rw [mem_elements, mem_elements]
  constructor <;> rintro (⟨items, member, inside⟩ | ⟨member, known, scalar⟩)
  · exact Or.inl ⟨items, (same _ rfl).mp member, inside⟩
  · exact Or.inr ⟨(same v known).mp member, known, scalar⟩
  · exact Or.inl ⟨items, (same _ rfl).mpr member, inside⟩
  · exact Or.inr ⟨(same v known).mpr member, known, scalar⟩

theorem same_values_of_childValues_nil {left right : List Bson} (same : SameValues left right)
    {key : String} (nonempty : childValues key right ≠ []) : childValues key left ≠ [] := by
  obtain ⟨v, member⟩ := List.exists_mem_of_ne_nil _ nonempty
  obtain ⟨fields, inside, found⟩ := mem_childValues.mp member
  apply List.ne_nil_of_mem (a := v)
  exact mem_childValues.mpr ⟨fields, (same _ rfl).mpr inside, found⟩

mutual
theorem Explains.transfer (shape : Shape) (mixed : Bool) {left right : List Bson}
    (same : SameValues left right) (explained : Explains shape mixed left) :
    Explains shape mixed right := by
  by_cases scalar : shape.Scalar
  · rw [explains_scalar_iff scalar] at explained ⊢
    intro v member
    cases known : v.isNull with
    | true => exact Or.inl rfl
    | false => simpa [known] using explained v ((same v known).mpr member)
  cases shape with
  | document fields =>
      simp only [Explains] at explained ⊢
      refine ⟨?_, ?_, fieldsExplain.transfer fields same explained.2.2⟩
      · intro v member
        cases known : v.isNull with
        | true => exact Or.inl rfl
        | false => simpa [known] using explained.1 v ((same v known).mpr member)
      · intro key nonempty
        exact explained.2.1 key (same_values_of_childValues_nil same nonempty)
  | array inner =>
      simp only [Explains] at explained ⊢
      obtain ⟨⟨v, member, isArray⟩, items⟩ := explained
      refine ⟨⟨v, (same v ?_).mp member, isArray⟩, Explains.transfer inner true same.elements items⟩
      obtain ⟨items, rfl⟩ := exists_items isArray
      rfl
  | _ => exact absurd trivial scalar
theorem fieldsExplain.transfer (fields : List (String × FieldShapeOf Shape)) {left right : List Bson}
    (same : SameValues left right) (explained : fieldsExplain fields left) :
    fieldsExplain fields right := by
  cases fields with
  | nil => trivial
  | cons entry rest =>
      rcases entry with ⟨key, fs⟩
      exact ⟨Explains.transfer fs.shape fs.mixed (same.childValues key) explained.1,
        fieldsExplain.transfer rest same explained.2⟩
end

theorem Shape.admits_mono {shape : Shape} {mixed mixed' : Bool} {v : Bson}
    (admitted : shape.admits mixed v = true) (raise : mixed = true → mixed' = true) :
    shape.admits mixed' v = true := by
  cases mixed with
  | true =>
      rw [raise rfl]
      exact admitted
  | false =>
      cases mixed' with
      | false => exact admitted
      | true => cases shape <;> cases v <;> first | exact admitted | rfl

theorem Explains.weaken {shape : Shape} {mixed mixed' : Bool} {values : List Bson}
    (explained : Explains shape mixed values) (raise : mixed = true → mixed' = true) :
    Explains shape mixed' values := by
  by_cases scalar : shape.Scalar
  · rw [explains_scalar_iff scalar] at explained ⊢
    intro v member
    exact (explained v member).imp_right fun admitted => Shape.admits_mono admitted raise
  -- a document or an array looks at its own flags only
  · cases shape <;> first | exact explained | exact absurd trivial scalar

theorem childValues_append (key : String) (left right : List Bson) :
    childValues key (left ++ right) = childValues key left ++ childValues key right :=
  List.filterMap_append

theorem elements_append (left right : List Bson) :
    elements (left ++ right) = elements left ++ elements right :=
  List.flatMap_append

mutual
theorem Explains.append (shape : Shape) (mixed : Bool) {left right : List Bson}
    (first : Explains shape mixed left) (second : Explains shape mixed right) :
    Explains shape mixed (left ++ right) := by
  by_cases scalar : shape.Scalar
  · rw [explains_scalar_iff scalar] at first second ⊢
    intro v member
    exact (List.mem_append.mp member).elim (first v) (second v)
  cases shape with
  | document fields =>
      simp only [Explains] at first second ⊢
      refine ⟨?_, ?_, fieldsExplain.append fields first.2.2 second.2.2⟩
      · intro v member
        exact (List.mem_append.mp member).elim (first.1 v) (second.1 v)
      · intro key nonempty
        rw [childValues_append] at nonempty
        by_cases empty : childValues key left = []
        · exact second.2.1 key (by simpa [empty] using nonempty)
        · exact first.2.1 key empty
  | array inner =>
      simp only [Explains] at first second ⊢
      obtain ⟨⟨v, member, isArray⟩, items⟩ := first
      refine ⟨⟨v, List.mem_append_left right member, isArray⟩, ?_⟩
      rw [elements_append]
      exact Explains.append inner true items second.2
  | _ => exact absurd trivial scalar
theorem fieldsExplain.append (fields : List (String × FieldShapeOf Shape)) {left right : List Bson}
    (first : fieldsExplain fields left) (second : fieldsExplain fields right) :
    fieldsExplain fields (left ++ right) := by
  cases fields with
  | nil => trivial
  | cons entry rest =>
      rcases entry with ⟨key, fs⟩
      refine ⟨?_, fieldsExplain.append rest first.2 second.2⟩
      rw [childValues_append]
      exact Explains.append fs.shape fs.mixed first.1 second.1
end

theorem explains_unknown {mixed : Bool} {values : List Bson} :
    Explains .unknown mixed values ↔ ∀ v ∈ values, v.isNull = true := by
  simp [Explains, Shape.admits]

theorem same_values_nulls_left {nulls values : List Bson} (all : ∀ v ∈ nulls, v.isNull = true) :
    SameValues values (nulls ++ values) := by
  intro v known
  rw [List.mem_append]
  refine ⟨Or.inr, fun member => member.elim (fun inside => ?_) id⟩
  have null := all v inside
  simp [known] at null

theorem same_values_swap (left right : List Bson) : SameValues (left ++ right) (right ++ left) := by
  intro v _
  simp only [List.mem_append, or_comm]

theorem Bson.isArray_of_isNull {v : Bson} (null : v.isNull = true) : v.isArray = false := by
  cases v <;> first | rfl | cases null

theorem Shape.Plain.not_array {shape : Shape} (plain : shape.Plain) {mixed : Bool} {v : Bson}
    (admitted : shape.admits mixed v = true) : v.isArray = false := by
  cases v <;> try rfl
  cases shape <;> first | exact plain.elim | cases admitted

theorem explains_elements {shape : Shape} (plain : shape.Plain) {mixed : Bool} {values : List Bson}
    (explained : Explains shape mixed values) : Explains shape mixed (elements values) := by
  have scalar : ∀ v ∈ values, v.isArray = false := by
    intro v member
    by_cases scalar : shape.Scalar
    · rw [explains_scalar_iff scalar] at explained
      rcases explained v member with null | admitted
      · exact Bson.isArray_of_isNull null
      · exact plain.not_array admitted
    · cases shape with
      | document fields =>
          simp only [Explains] at explained
          rcases explained.1 v member with null | ⟨inner, rfl⟩
          · exact Bson.isArray_of_isNull null
          · rfl
      | array inner => exact plain.elim
      | _ => exact absurd trivial scalar
  refine Explains.transfer shape mixed (show SameValues values _ from ?_) explained
  intro v known
  rw [mem_elements]
  constructor
  · intro member
    exact Or.inr ⟨member, known, scalar v member⟩
  · rintro (⟨items, member, _⟩ | ⟨member, _, _⟩)
    · have impossible := scalar _ member
      simp [Bson.isArray] at impossible
    · exact member

theorem Unified.mixed_mono {a b c : Shape} {m m' : Bool} (joined : Unified a b m c m')
    (raised : m = true) : m' = true := by
  induction joined with
  | arrays _ ih => exact ih raised
  | absorbRight _ _ ih => exact ih raised
  | absorbLeft _ _ ih => exact ih raised
  | textRight | textLeft | conflict => rfl
  | _ => exact raised

theorem Shape.Widens.admits {a b : Shape} (widens : Shape.Widens a b) {mixed : Bool} {v : Bson}
    (admitted : a.admits mixed v = true) : b.admits mixed v = true := by
  cases widens <;> cases v <;> first | rfl | cases admitted

theorem Shape.Widens.scalar {a b : Shape} (widens : Shape.Widens a b) : a.Scalar ∧ b.Scalar := by
  cases widens <;> exact ⟨trivial, trivial⟩

theorem Shape.Widens.explains {a b : Shape} (widens : Shape.Widens a b) {mixed : Bool}
    {values : List Bson} (explained : Explains a mixed values) : Explains b mixed values := by
  rw [explains_scalar_iff widens.scalar.1] at explained
  rw [explains_scalar_iff widens.scalar.2]
  exact fun v member => (explained v member).imp_right widens.admits

theorem flag_left {ma mb m : Bool} (raised : ma = true) : (ma || mb || m) = true := by
  rw [raised, Bool.true_or, Bool.true_or]

theorem flag_right {ma mb m : Bool} (raised : mb = true) : (ma || mb || m) = true := by
  rw [raised, Bool.or_true, Bool.true_or]

theorem explains_ids {mixed flag : Bool} {values : List Bson} (explained : Explains .objectId mixed values)
    (raised : flag = true) : Explains .utf8 flag values := by
  subst raised
  simp only [Explains] at explained ⊢
  intro v member
  refine (explained v member).imp_right fun admitted => ?_
  cases v with
  | objectId _ => rfl
  | _ => cases admitted

theorem explains_more_left {a c : Shape} {mixed flag : Bool} {left right : List Bson}
    (first : Explains (.array a) mixed left) (items : Explains c true (elements left ++ elements right)) :
    Explains (.array c) flag (left ++ right) := by
  simp only [Explains] at first ⊢
  obtain ⟨v, member, isArray⟩ := first.1
  refine ⟨⟨v, List.mem_append_left right member, isArray⟩, ?_⟩
  rwa [elements_append]

theorem explains_more_right {a c : Shape} {mixed flag : Bool} {left right : List Bson}
    (second : Explains (.array a) mixed right) (items : Explains c true (elements left ++ elements right)) :
    Explains (.array c) flag (left ++ right) := by
  simp only [Explains] at second ⊢
  obtain ⟨v, member, isArray⟩ := second.1
  refine ⟨⟨v, List.mem_append_right left member, isArray⟩, ?_⟩
  rwa [elements_append]

theorem explains_inner {a : Shape} {mixed : Bool} {values : List Bson} (explained : Explains (.array a) mixed values) :
    Explains a true (elements values) := by
  simp only [Explains] at explained
  exact explained.2

theorem childValues_unknown {fields : List (String × FieldShape)} {mixed : Bool} {values : List Bson} {key : String}
    (explained : Explains (.document fields) mixed values) (unknown : fields.lookup key = none) :
    childValues key values = [] := by
  simp only [Explains] at explained
  by_contra nonempty
  exact explained.2.1 key nonempty unknown

theorem Unified.explains {a b c : Shape} {m m' : Bool} (joined : Unified a b m c m') :
    ∀ {ma mb : Bool} {left right : List Bson}, Explains a ma left → Explains b mb right →
      Explains c (ma || mb || m') (left ++ right) := by
  induction joined with
  | same a m =>
      intro ma mb left right first second
      exact Explains.append a _ (first.weaken flag_left) (second.weaken flag_right)
  | bottomLeft b m =>
      intro ma mb left right first second
      exact Explains.transfer b _ (same_values_nulls_left (explains_unknown.mp first))
        (second.weaken flag_right)
  | bottomRight a m =>
      intro ma mb left right first second
      refine Explains.transfer a _ (same_values_swap right left) ?_
      exact Explains.transfer a _ (same_values_nulls_left (explains_unknown.mp second))
        (first.weaken flag_left)
  | widenRight m widens =>
      intro ma mb left right first second
      exact Explains.append _ _ ((widens.explains first).weaken flag_left)
        (second.weaken flag_right)
  | widenLeft m widens =>
      intro ma mb left right first second
      exact Explains.append _ _ (first.weaken flag_left)
        ((widens.explains second).weaken flag_right)
  | textRight m =>
      intro ma mb left right first second
      exact Explains.append _ _ (explains_ids first (Bool.or_true _)) (second.weaken flag_right)
  | textLeft m =>
      intro ma mb left right first second
      exact Explains.append _ _ (first.weaken flag_left) (explains_ids second (Bool.or_true _))
  | arrays _ ih =>
      intro ma mb left right first second
      exact explains_more_left first (by simpa using ih (explains_inner first) (explains_inner second))
  | absorbRight plain _ ih =>
      intro ma mb left right first second
      exact explains_more_left first (by simpa using ih (explains_inner first) (explains_elements plain second))
  | absorbLeft plain _ ih =>
      intro ma mb left right first second
      refine explains_more_right second ?_
      refine Explains.transfer _ _ (same_values_swap (elements right) (elements left)) ?_
      simpa using ih (explains_inner second) (explains_elements plain first)
  | @documents leftFields rightFields out m joined each ordered entries ih =>
      intro ma mb left right first second
      have firstKeys := first
      have secondKeys := second
      simp only [Explains] at firstKeys secondKeys ⊢
      refine ⟨?_, ?_, (fieldsExplain_iff _ _).mpr ?_⟩
      · intro v member
        exact (List.mem_append.mp member).elim (firstKeys.1 v) (secondKeys.1 v)
      · intro key nonempty
        rw [childValues_append] at nonempty
        rw [entries key, ne_eq, SortedMap.mergedValue_eq_none]
        by_cases empty : childValues key left = []
        · exact fun both => secondKeys.2.1 key (by simpa [empty] using nonempty) both.2
        · exact fun both => firstKeys.2.1 key empty both.1
      · rintro ⟨key, fs⟩ member
        have found := SortedMap.lookup_of_mem ordered member
        rw [entries key] at found
        simp only [childValues_append]
        obtain ⟨hl, hr⟩ | ⟨hl, hr⟩ | ⟨lv, rv, hl, hr, rfl⟩ := SortedMap.mergedValue_cases found
        · simpa [childValues_unknown first hl] using second.child hr
        · simpa [childValues_unknown second hr] using first.child hl
        · have both := ih key lv rv hl hr (first.child hl) (second.child hr)
          refine both.weaken fun raised => ?_
          rcases Bool.or_eq_true_iff.mp raised with flags | now
          · exact (each key lv rv hl hr).mixed_mono flags
          · exact now
  | conflict m clash =>
      intro ma mb left right first second
      simp [Explains, Shape.admits]

end Auger
