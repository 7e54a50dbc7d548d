import Auger.Columns
import Auger.OrderFree

set_option autoImplicit false

/-! When the order of the sample shows in the schema: the sampler's slots are the values
seen under their keys, joined in the order of the documents, and a schema deep enough tells
two levels apart. -/

namespace Auger

open General

def Seen.ofValue (value : Bson) : Seen := ⟨shapeOf value, false, shapeOf_wellOrdered value⟩

def seenAt (key : String) (docs : List Document) : List Seen := (valuesAt key docs).map Seen.ofValue

theorem observeValue_view (slot : FieldShape) (value : Bson) :
    (observeValue slot value).view = joinViews slot.view (shapeOf value, false) := by
  rw [observeValue, observeShape, joinViews, Bool.or_false]
  split_ifs with null
  · have unknown : shapeOf value = .unknown := by
      cases value <;> first | rfl | cases null
    rw [unknown, unify_unknown_right]
    rfl
  · rfl

theorem slot_view (docs : List Document) (key : String) :
    (((Sampler.observeAll docs).root.lookup key).getD FieldShapeOf.empty).view =
      (Seen.joinAll (seenAt key docs)).view := by
  apply observeAll_rule (motive := fun seen slot => slot.view = (Seen.joinAll (seen.map Seen.ofValue)).view)
  · rfl
  · intro seen slot value _ _ same
    rw [observeValue_view, same, List.map_append, List.map_singleton, Seen.joinAll_snoc]
    rfl

theorem observeAll_view (docs : List Document) (key : String) :
    ((Sampler.observeAll docs).root.lookup key).map FieldShapeOf.view =
      (Seen.joinSome (seenAt key docs)).map Seen.view := by
  have view := slot_view docs key
  rw [Seen.joinSome]
  cases found : (Sampler.observeAll docs).root.lookup key with
  | none =>
      have nothing : seenAt key docs = [] := List.map_eq_nil_iff.mpr (lookup_observeAll_none.mp found)
      rw [if_pos nothing]
      rfl
  | some fs =>
      have something : seenAt key docs ≠ [] := by
        intro nothing
        rw [lookup_observeAll_none.mpr (List.map_eq_nil_iff.mp nothing)] at found
        cases found
      rw [found, Option.getD_some] at view
      rw [if_neg something]
      exact congrArg some view

/-- Documents whose values are order-free finish alike in every order. -/
theorem schema_of_orderFree {docs docs' : List Document} (free : ∀ key, OrderFree (seenAt key docs))
    (perm : docs'.Perm docs) (maxDepth : Nat) :
    schemaWithoutFreq ((Sampler.observeAll docs').finish maxDepth) =
      schemaWithoutFreq ((Sampler.observeAll docs).finish maxDepth) := by
  apply finish_withoutFreq
  apply uncountedFields_ext (observeAll_ordered docs') (observeAll_ordered docs)
  intro key
  have seen : (seenAt key docs').Perm (seenAt key docs) := (perm.filterMap _).map _
  rw [uncounted_of_view (observeAll_view docs' key), uncounted_of_view (observeAll_view docs key)]
  exact Seen.joinSome_perm seen ((free key).joinAll_perm seen)

/-- From some depth down two shapes become the same type. -/
def SameTypes (a b : Shape) : Prop :=
  ∃ path depth, ∀ maxDepth, depth < maxDepth →
    (arrowType a path depth maxDepth).1.withoutFreq = (arrowType b path depth maxDepth).1.withoutFreq

theorem arrowType_array {inner : Shape} {path : String} {depth maxDepth : Nat} (above : depth < maxDepth) :
    (arrowType (.array inner) path depth maxDepth).1.withoutFreq =
      .list ⟨"item", (arrowType inner path (depth + 1) maxDepth).1.withoutFreq, true,
        dropFreq [(metaBson, (arrowType inner path (depth + 1) maxDepth).2.asStr)]⟩ := by
  rw [arrowType, if_pos above]
  rfl

theorem SameTypes.arrays {x y : Shape} (same : SameTypes (.array x) (.array y)) : SameTypes x y := by
  obtain ⟨path, depth, types⟩ := same
  refine ⟨path, depth + 1, fun maxDepth above => ?_⟩
  have outer := types maxDepth (Nat.lt_of_succ_lt above)
  rw [arrowType_array (Nat.lt_of_succ_lt above), arrowType_array (Nat.lt_of_succ_lt above)] at outer
  exact congrArg FieldOf.dataType (DataType.list.inj outer)

theorem SameTypes.json_array {x : Shape} (same : SameTypes .json (.array x)) : False := by
  obtain ⟨path, depth, types⟩ := same
  have outer := types (depth + 1) (Nat.lt_succ_self depth)
  rw [arrowType_array (Nat.lt_succ_self depth)] at outer
  cases outer

theorem SameTypes.symm {a b : Shape} (same : SameTypes a b) : SameTypes b a := by
  obtain ⟨path, depth, types⟩ := same
  exact ⟨path, depth, fun maxDepth above => (types maxDepth above).symm⟩

theorem SameTypes.depth {a b : Shape} (same : SameTypes a b) (first : a.kind = .json) (second : b.kind = .json) :
    a.depth = b.depth := by
  cases a with
  | array x =>
      cases b with
      | array y => exact congrArg Nat.succ (SameTypes.depth (a := x) (b := y) same.arrays first second)
      | json => exact same.symm.json_array.elim
      | _ => cases second
  | json =>
      cases b with
      | array y => exact same.json_array.elim
      | json => rfl
      | _ => cases second
  | _ => cases first

theorem fieldsWithoutFreq_eq (fields : List Field) : fieldsWithoutFreq fields = fields.map FieldOf.withoutFreq := by
  induction fields with
  | nil => rfl
  | cons field rest ih =>
      rw [fieldsWithoutFreq, List.map_cons, ih]
      rfl

theorem findField_withoutFreq (name : String) (fields : List Field) :
    findField name (fields.map FieldOf.withoutFreq) = (findField name fields).map FieldOf.withoutFreq := by
  rw [findField, findField, List.find?_map]
  rfl

theorem SameTypes.child {a b : Shape} (same : SameTypes a b) (level : a.level = b.level) {key : String}
    {fa fb : FieldShape} (first : a.childSlot key = some fa) (second : b.childSlot key = some fb) :
    SameTypes fa.shape fb.shape := by
  cases a with
  | array x =>
      cases b with
      | array y => exact SameTypes.child (a := x) (b := y) same.arrays (Shape.level_array_inj level) first second
      | _ => cases level
  | document fields =>
      cases b with
      | document fields' =>
          obtain ⟨path, depth, types⟩ := same
          refine ⟨path ++ "." ++ key, depth + 1, fun maxDepth above => ?_⟩
          have filled : fields ≠ [] := by
            rintro rfl
            cases first
          have filled' : fields' ≠ [] := by
            rintro rfl
            cases second
          have outer := types maxDepth (Nat.lt_of_succ_lt above)
          rw [arrowType, arrowType, if_pos ⟨Nat.lt_of_succ_lt above, filled⟩,
            if_pos ⟨Nat.lt_of_succ_lt above, filled'⟩] at outer
          have structs := congrArg (findField key) (DataType.struct.inj outer)
          rw [fieldsWithoutFreq_eq, fieldsWithoutFreq_eq, findField_withoutFreq, findField_withoutFreq,
            findField_buildFields, findField_buildFields, show fields.lookup key = some fa from first,
            show fields'.lookup key = some fb from second] at structs
          exact congrArg FieldOf.dataType (Option.some.inj structs)
      | _ => cases level
  | _ => cases first

theorem filterMap_perm_lift {α β : Type} {pick : α → Option β} {items : List α} {picked : List β}
    (perm : picked.Perm (items.filterMap pick)) :
    ∃ items' : List α, items'.Perm items ∧ items'.filterMap pick = picked := by
  induction picked generalizing items with
  | nil => exact ⟨items, .refl items, perm.symm.eq_nil⟩
  | cons b rest ih =>
      obtain ⟨a, member, picks⟩ := List.mem_filterMap.mp (perm.mem_iff.mp List.mem_cons_self)
      obtain ⟨left, right, rfl⟩ := List.append_of_mem member
      have moved : (a :: (left ++ right)).Perm (left ++ a :: right) := List.perm_middle.symm
      have front : (b :: rest).Perm (b :: (left ++ right).filterMap pick) := by
        rw [← List.filterMap_cons_some picks]
        exact perm.trans (moved.filterMap pick).symm
      obtain ⟨items', kept, picks'⟩ := ih front.cons_inv
      refine ⟨a :: items', (kept.cons a).trans moved, ?_⟩
      rw [List.filterMap_cons_some picks, picks']

/-- In every order the values become the same type. -/
def Stable (units : List Seen) : Prop :=
  ∀ units' : List Seen, units'.Perm units → SameTypes (Seen.joinAll units').shape (Seen.joinAll units).shape

theorem Stable.oneLevel {units : List Seen} (stable : Stable units) : Level.OneLevel (units.map Seen.level) := by
  apply Level.oneLevel_of_perm
  intro levels' perm
  by_cases top : Level.totalKind (units.map Seen.level) = ⊤
  · rw [← List.filterMap_eq_map] at perm
    obtain ⟨units', perm', rfl⟩ := filterMap_perm_lift perm
    rw [List.filterMap_eq_map, ← Seen.joinAll_level, ← Seen.joinAll_level]
    have total := Level.totalKind_perm (perm'.map Seen.level)
    have kind := (Level.joinAll_kind (units.map Seen.level)).trans top
    have kind' := (Level.joinAll_kind (units'.map Seen.level)).trans (total.trans top)
    rw [← Seen.joinAll_level] at kind kind'
    exact (stable units' perm').depth kind' kind
  · rw [Level.joinAll_perm_known perm top]

theorem Seen.child_some {key : String} {seen below : Seen} (found : seen.child key = some below) :
    ∃ fs, seen.shape.childSlot key = some fs ∧ fs.shape = below.shape := by
  have views := seen.child_view key
  rw [found, Option.map_some] at views
  obtain ⟨fs, slot, same⟩ := Option.map_eq_some_iff.mp views.symm
  exact ⟨fs, slot, congrArg Prod.fst same⟩

theorem Stable.children {units : List Seen} (stable : Stable units)
    (known : Level.totalKind (units.map Seen.level) ≠ ⊤) (key : String) : Stable (Seen.children key units) := by
  intro below perm
  obtain ⟨units', perm', rfl⟩ := filterMap_perm_lift perm
  have levels := perm'.map Seen.level
  have known' : Level.totalKind (units'.map Seen.level) ≠ ⊤ := by
    rw [Level.totalKind_perm levels]
    exact known
  have level : (Seen.joinAll units').level = (Seen.joinAll units).level := by
    rw [Seen.joinAll_level, Seen.joinAll_level, Level.joinAll_perm_known levels known]
  have child := Seen.child_joinAll known key
  have child' := Seen.child_joinAll known' key
  by_cases empty : Seen.children key units = []
  · rw [empty] at perm
    rw [perm.eq_nil, empty]
    exact ⟨"", 0, fun _ _ => rfl⟩
  · have filled : Seen.children key units' ≠ [] := by
      intro empty'
      rw [show units'.filterMap (Seen.child key) = [] from empty'] at perm
      exact empty perm.symm.eq_nil
    rw [Seen.joinSome, if_neg empty] at child
    rw [Seen.joinSome, if_neg filled] at child'
    obtain ⟨fs, slot, shape⟩ := Seen.child_some child
    obtain ⟨fs', slot', shape'⟩ := Seen.child_some child'
    have same := (stable units' perm').child level slot' slot
    rw [shape, shape'] at same
    exact same

theorem Shape.size_childSlot {key : String} {s : Shape} {fs : FieldShape} (found : s.childSlot key = some fs) :
    fs.shape.size < s.size := by
  cases s with
  | array inner =>
      have smaller := size_childSlot (s := inner) found
      rw [Shape.size]
      omega
  | document fields =>
      have smaller := Shape.size_le_of_lookup found
      rw [Shape.size]
      omega
  | _ => cases found

def Seen.sizes (units : List Seen) : Nat := (units.map fun u => u.shape.size).sum

theorem Seen.sizes_children (key : String) (units : List Seen) :
    sizes (children key units) + units.length ≤ sizes units := by
  induction units with
  | nil => exact le_rfl
  | cons u rest ih =>
      rw [sizes, children] at ih ⊢
      rw [sizes] at ih ⊢
      rw [List.map_cons, List.sum_cons, List.length_cons]
      cases below : u.child key with
      | none =>
          have positive := u.shape.size_pos
          rw [List.filterMap_cons_none below]
          omega
      | some v =>
          obtain ⟨fs, slot, shape⟩ := child_some below
          have smaller := Shape.size_childSlot slot
          rw [List.filterMap_cons_some below, List.map_cons, List.sum_cons, ← shape]
          omega

theorem Stable.orderFree {units : List Seen} (stable : Stable units) : OrderFree units := by
  induction bound : Seen.sizes units using Nat.strong_induction_on generalizing units with
  | _ n ih =>
      by_cases empty : units = []
      · rw [empty]
        exact .none
      · refine .some stable.oneLevel fun known key => ?_
        apply ih (Seen.sizes (Seen.children key units)) _ (stable.children known key) rfl
        have smaller := Seen.sizes_children key units
        have positive := List.length_pos_iff.mpr empty
        omega

theorem buildField_mem_finish {sampler : Sampler} {key : String} {fs : FieldShape}
    (found : sampler.root.lookup key = some fs) (maxDepth : Nat) :
    buildField key key fs sampler.docsSeen 0 maxDepth ∈ sampler.finish maxDepth := by
  apply List.mem_filterMap.mpr
  refine ⟨key, ?_, ?_⟩
  · rw [List.mem_insertionSort]
    exact List.mem_map_of_mem (SortedMap.mem_of_lookup found)
  · rw [found, Option.map_some]

theorem findField_schema {sampler : Sampler} {key : String} {fs : FieldShape}
    (found : sampler.root.lookup key = some fs) (maxDepth : Nat) :
    (findField key (schemaWithoutFreq (sampler.finish maxDepth))).map FieldOf.dataType =
      some (arrowType fs.shape key 0 maxDepth).1.withoutFreq := by
  have member := buildField_mem_finish found maxDepth
  have named : findField key (sampler.finish maxDepth) = some (buildField key key fs sampler.docsSeen 0 maxDepth) :=
    findField_mem_finish member
  rw [schemaWithoutFreq, findField_withoutFreq, named]
  rfl

theorem slot_of_seen {docs : List Document} {key : String} (seen : seenAt key docs ≠ []) :
    ∃ fs, (Sampler.observeAll docs).root.lookup key = some fs ∧
      fs.shape = (Seen.joinAll (seenAt key docs)).shape := by
  have views := observeAll_view docs key
  rw [Seen.joinSome, if_neg seen, Option.map_some] at views
  obtain ⟨fs, found, same⟩ := Option.map_eq_some_iff.mp views
  exact ⟨fs, found, congrArg Prod.fst same⟩

theorem seenAt_eq (key : String) (docs : List Document) :
    seenAt key docs = docs.filterMap fun doc => (doc.get key).map Seen.ofValue :=
  List.map_filterMap

/-- Documents that finish alike in every order hold order-free values under each key. -/
theorem orderFree_of_schema {docs : List Document}
    (alike : ∀ docs' : List Document, docs'.Perm docs → ∀ maxDepth,
      schemaWithoutFreq ((Sampler.observeAll docs').finish maxDepth) =
        schemaWithoutFreq ((Sampler.observeAll docs).finish maxDepth)) (key : String) :
    OrderFree (seenAt key docs) := by
  apply Stable.orderFree
  intro seen perm
  rw [seenAt_eq] at perm
  obtain ⟨docs', perm', rfl⟩ := filterMap_perm_lift perm
  simp only [← seenAt_eq] at perm ⊢
  by_cases empty : seenAt key docs = []
  · rw [empty] at perm
    rw [perm.eq_nil, empty]
    exact ⟨"", 0, fun _ _ => rfl⟩
  · have filled : seenAt key docs' ≠ [] := by
      intro empty'
      rw [empty'] at perm
      exact empty perm.symm.eq_nil
    obtain ⟨fs, found, shape⟩ := slot_of_seen empty
    obtain ⟨fs', found', shape'⟩ := slot_of_seen filled
    refine ⟨key, 0, fun maxDepth _ => ?_⟩
    have types := congrArg (fun schema => (findField key schema).map FieldOf.dataType) (alike docs' perm' maxDepth)
    rw [findField_schema found, findField_schema found', shape, shape'] at types
    exact Option.some.inj types

/-- The schema is the same for every order of the documents, at every depth, exactly when the
values under each key are order-free. -/
theorem schema_order_iff (docs : List Document) :
    (∀ docs' : List Document, docs'.Perm docs → ∀ maxDepth,
      schemaWithoutFreq ((Sampler.observeAll docs').finish maxDepth) =
        schemaWithoutFreq ((Sampler.observeAll docs).finish maxDepth)) ↔
      ∀ key, OrderFree (seenAt key docs) :=
  ⟨orderFree_of_schema, fun free _ perm maxDepth => schema_of_orderFree free perm maxDepth⟩

/-- A bare number, a name and a list of numbers under one key. -/
def lots : List Document :=
  [⟨[("lot", .int32 1)], rfl⟩, ⟨[("lot", .string "first")], rfl⟩, ⟨[("lot", .array [.int32 4])], rfl⟩]

theorem schema_order_differs : ¬ ∀ (docs docs' : List Document), docs'.Perm docs → ∀ maxDepth,
    schemaWithoutFreq ((Sampler.observeAll docs').finish maxDepth) =
      schemaWithoutFreq ((Sampler.observeAll docs).finish maxDepth) := by
  intro alike
  have same := alike lots lots.reverse (List.reverse_perm lots) 1
  have types := congrArg (fun schema => (findField "lot" schema).map FieldOf.dataType) same
  revert types
  decide

end Auger
