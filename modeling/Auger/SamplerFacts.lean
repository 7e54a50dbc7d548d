import Auger.Observed
import Mathlib.Data.List.Induction

set_option autoImplicit false

/-! Every slot of the sampler explains the values observed under its key. -/

namespace Auger

open General

theorem Unified.wellOrdered {a b c : Shape} {m m' : Bool} (joined : Unified a b m c m')
    (first : a.WellOrdered) (second : b.WellOrdered) : c.WellOrdered := by
  induction joined with
  | same | bottomRight => exact first
  | bottomLeft => exact second
  | widenRight _ widens => exact second
  | widenLeft _ widens => exact first
  | textRight | textLeft | conflict => trivial
  | arrays _ ih => exact ih first second
  | absorbRight _ _ ih => exact ih first second
  | absorbLeft _ _ ih => exact ih second first
  | @documents left right out m joined each ordered entries ih =>
      refine ⟨ordered, (Shape.fieldsWellOrdered_iff out).mpr ?_⟩
      rintro ⟨key, fs⟩ member
      have found := SortedMap.lookup_of_mem ordered member
      rw [entries key] at found
      obtain ⟨-, hr⟩ | ⟨hl, -⟩ | ⟨lv, rv, hl, hr, rfl⟩ := SortedMap.mergedValue_cases found
      · exact second.child hr
      · exact first.child hl
      · exact ih key lv rv hl hr (first.child hl) (second.child hr)

@[simp] theorem unify_unknown_left (b : Shape) (m : Bool) : unify .unknown b m = (b, m) := by
  rw [unify_eq]
  unfold unifyStep
  split_ifs with same
  · rw [same]
  · rfl

theorem observeShape_wellOrdered {slot : FieldShape} {isNull : Bool} {shape : Shape}
    (first : slot.shape.WellOrdered) (second : shape.WellOrdered) :
    (observeShape slot isNull shape).shape.WellOrdered := by
  unfold observeShape
  split
  · exact first
  · exact (unify_spec _ _ _ first second).wellOrdered first second

theorem fieldsWellOrdered_insert {key : String} {fs : FieldShape}
    {fields : List (String × FieldShape)} (slot : fs.shape.WellOrdered)
    (fieldsOrdered : Shape.fieldsWellOrdered fields) :
    Shape.fieldsWellOrdered (SortedMap.insert key fs fields) := by
  rw [Shape.fieldsWellOrdered_iff] at fieldsOrdered ⊢
  intro entry member
  rcases SortedMap.mem_insert member with rfl | old
  · exact slot
  · exact fieldsOrdered entry old

mutual
theorem shapeOf_wellOrdered (value : Bson) : (shapeOf value).WellOrdered := by
  cases value with
  | document fields =>
      simp only [shapeOf]
      exact shapeOfFields_wellOrdered fields [] SortedMap.ordered_nil trivial
  | array items =>
      simp only [shapeOf]
      exact shapeOfItems_wellOrdered items .unknown false trivial
  | _ => trivial
theorem shapeOfFields_wellOrdered (entries : List (String × Bson))
    (fields : List (String × FieldShapeOf Shape)) (ordered : SortedMap.Ordered fields)
    (inner : Shape.fieldsWellOrdered fields) :
    SortedMap.Ordered (shapeOfFields entries fields) ∧
      Shape.fieldsWellOrdered (shapeOfFields entries fields) := by
  cases entries with
  | nil => exact ⟨ordered, inner⟩
  | cons entry rest =>
      rcases entry with ⟨key, value⟩
      apply shapeOfFields_wellOrdered rest
      · exact SortedMap.insert_ordered _ _ ordered
      · exact fieldsWellOrdered_insert
          (observeShape_wellOrdered trivial (shapeOf_wellOrdered value)) inner
theorem shapeOfItems_wellOrdered (items : List Bson) (elem : Shape) (mixed : Bool)
    (ordered : elem.WellOrdered) : (shapeOfItems items elem mixed).WellOrdered := by
  cases items with
  | nil => exact ordered
  | cons item rest =>
      apply shapeOfItems_wellOrdered rest
      have inner := shapeOf_wellOrdered item
      exact (unify_spec _ _ _ ordered inner).wellOrdered ordered inner
end

theorem lookup_shapeOfFields (entries : List (String × Bson)) (distinct : fieldsDistinct entries = true)
    (fields : List (String × FieldShape)) (key : String) :
    (shapeOfFields entries fields).lookup key =
      match entries.lookup key with
      | some value => some (observeShape FieldShapeOf.empty value.isNull (shapeOf value))
      | none => fields.lookup key := by
  induction entries generalizing fields with
  | nil => rfl
  | cons entry rest ih =>
      rcases entry with ⟨k, v⟩
      simp only [fieldsDistinct, Bool.and_eq_true, Bool.not_eq_true'] at distinct
      simp only [shapeOfFields]
      rw [ih distinct.2]
      by_cases same : key = k
      · subst same
        have absent : rest.lookup key = none := by
          rw [SortedMap.lookup_eq_none]
          intro other member equal
          have present : rest.any (fun entry => entry.1 == key) = true :=
            List.any_eq_true.mpr ⟨other, member, by simpa using equal⟩
          rw [distinct.1.1] at present
          exact Bool.false_ne_true present
        simp [absent, SortedMap.lookup_insert]
      · have differ : (key == k) = false := by simpa using same
        simp only [List.lookup_cons, differ, SortedMap.lookup_insert, if_neg same]

theorem explains_observeShape {slot : FieldShape} {values : List Bson} {value : Bson}
    (ordered : slot.shape.WellOrdered) (explained : Explains slot.shape slot.mixed values)
    (own : Explains (shapeOf value) false [value]) :
    Explains (observeShape slot value.isNull (shapeOf value)).shape
      (observeShape slot value.isNull (shapeOf value)).mixed (values ++ [value]) := by
  unfold observeShape
  split
  · rename_i null
    refine Explains.transfer _ _ (same_values_swap [value] values) ?_
    refine Explains.transfer _ _ (same_values_nulls_left ?_) explained
    simpa using null
  · have step := unify_spec slot.shape (shapeOf value) slot.mixed ordered (shapeOf_wellOrdered value)
    refine (step.explains explained own).weaken fun raised => ?_
    simp only [Bool.or_false, Bool.or_eq_true] at raised
    exact raised.elim step.mixed_mono id

theorem childValues_single (key : String) (fields : Fields) :
    childValues key [.document fields] = (fields.lookup key).toList := by
  cases h : fields.lookup key <;> simp [childValues, h]

theorem fieldsDistinct_mem {entries : Fields} (distinct : fieldsDistinct entries = true)
    {entry : String × Bson} (member : entry ∈ entries) : entry.2.distinctKeys = true := by
  induction entries with
  | nil => cases member
  | cons head rest ih =>
      rcases head with ⟨k, v⟩
      simp only [fieldsDistinct, Bool.and_eq_true] at distinct
      rcases List.mem_cons.mp member with rfl | later
      · exact distinct.1.2
      · exact ih distinct.2 later

theorem shapeOfFields_ordered (entries : Fields) : SortedMap.Ordered (shapeOfFields entries []) :=
  (shapeOfFields_wellOrdered entries [] SortedMap.ordered_nil trivial).1

mutual
theorem explains_shapeOf (value : Bson) (distinct : value.distinctKeys = true) :
    Explains (shapeOf value) false [value] := by
  cases value with
  | document fields =>
      simp only [Bson.distinctKeys] at distinct
      simp only [shapeOf, Explains]
      refine ⟨fun v member => Or.inr ⟨fields, List.mem_singleton.mp member⟩, ?_,
        (fieldsExplain_iff _ _).mpr ?_⟩
      · intro key nonempty
        rw [childValues_single] at nonempty
        rw [lookup_shapeOfFields fields distinct]
        cases h : fields.lookup key <;> simp_all
      · rintro ⟨key, fs⟩ member
        have found := SortedMap.lookup_of_mem (shapeOfFields_ordered fields) member
        rw [lookup_shapeOfFields fields distinct] at found
        rw [childValues_single]
        cases h : fields.lookup key with
        | none => simp [h] at found
        | some v =>
            simp only [h, Option.some.injEq] at found
            subst found
            have inside := SortedMap.mem_of_lookup h
            have own := explains_entries fields (fun entry inside => fieldsDistinct_mem distinct inside)
              (key, v) inside
            have nothing : Explains FieldShapeOf.empty.shape FieldShapeOf.empty.mixed [] := by
              simp [Explains, FieldShapeOf.empty]
            have ordered : FieldShapeOf.empty.shape.WellOrdered := trivial
            simpa using explains_observeShape ordered nothing own
  | array items =>
      simp only [Bson.distinctKeys] at distinct
      simp only [shapeOf, Explains]
      refine ⟨⟨_, List.mem_singleton.mpr rfl, rfl⟩, ?_⟩
      have whole : elements [.array items] = items := by simp [elements, listItems]
      rw [whole]
      exact explains_items items distinct .unknown false [] trivial (by simp [Explains])
  | _ => simp [shapeOf, Explains, Shape.admits, Bson.isNull, Bson.isExotic]
theorem explains_entries (entries : List (String × Bson))
    (distinct : ∀ entry ∈ entries, entry.2.distinctKeys = true) :
    ∀ entry ∈ entries, Explains (shapeOf entry.2) false [entry.2] := by
  cases entries with
  | nil => simp
  | cons head rest =>
      rcases head with ⟨key, value⟩
      intro entry member
      rcases List.mem_cons.mp member with rfl | later
      · exact explains_shapeOf value (distinct _ member)
      · exact explains_entries rest (fun e m => distinct e (List.mem_cons_of_mem _ m)) entry later
theorem explains_items (items : List Bson) (distinct : itemsDistinct items = true) (elem : Shape)
    (mixed : Bool) (seen : List Bson) (ordered : elem.WellOrdered)
    (explained : Explains elem true seen) :
    Explains (shapeOfItems items elem mixed) true (seen ++ items) := by
  cases items with
  | nil => simpa [shapeOfItems] using explained
  | cons item rest =>
      simp only [itemsDistinct, Bool.and_eq_true] at distinct
      have own := explains_shapeOf item distinct.1
      have inner := shapeOf_wellOrdered item
      have step := unify_spec elem (shapeOf item) mixed ordered inner
      simp only [shapeOfItems]
      rw [List.append_cons]
      apply explains_items rest distinct.2
      · exact step.wellOrdered ordered inner
      · simpa using step.explains explained own
end

/-- The values the documents hold under a root key, in order. -/
def valuesAt (key : String) (docs : List Document) : List Bson := docs.filterMap (·.get key)

theorem valuesAt_append (key : String) (left right : List Document) :
    valuesAt key (left ++ right) = valuesAt key left ++ valuesAt key right :=
  List.filterMap_append

/-- What `observe` does to the slot of one key. -/
def observedSlot (old : Option FieldShape) (value : Option Bson) : Option FieldShape :=
  match value with
  | some v => some (observeValue (old.getD FieldShapeOf.empty) v)
  | none => old

theorem lookup_observeFields (entries : Fields) (distinct : fieldsDistinct entries = true)
    (root : List (String × FieldShape)) (key : String) :
    (entries.foldl (fun root entry => SortedMap.insert entry.1
        (observeValue ((root.lookup entry.1).getD FieldShapeOf.empty) entry.2) root) root).lookup key =
      observedSlot (root.lookup key) (entries.lookup key) := by
  induction entries generalizing root with
  | nil => rfl
  | cons entry rest ih =>
      rcases entry with ⟨k, v⟩
      simp only [fieldsDistinct, Bool.and_eq_true, Bool.not_eq_true'] at distinct
      rw [List.foldl_cons, ih distinct.2]
      by_cases same : key = k
      · subst same
        have absent : rest.lookup key = none := by
          rw [SortedMap.lookup_eq_none]
          intro other member equal
          have present : rest.any (fun entry => entry.1 == key) = true :=
            List.any_eq_true.mpr ⟨other, member, by simpa using equal⟩
          rw [distinct.1.1] at present
          exact Bool.false_ne_true present
        simp [absent, SortedMap.lookup_insert, observedSlot]
      · have differ : (key == k) = false := by simpa using same
        simp only [List.lookup_cons, differ, SortedMap.lookup_insert, if_neg same]

theorem lookup_observe (sampler : Sampler) (doc : Document) (key : String) :
    (sampler.observe doc).root.lookup key = observedSlot (sampler.root.lookup key) (doc.get key) :=
  lookup_observeFields doc.fields doc.distinct sampler.root key

theorem observe_ordered (sampler : Sampler) (doc : Document)
    (ordered : SortedMap.Ordered sampler.root) : SortedMap.Ordered (sampler.observe doc).root := by
  simp only [Sampler.observe]
  generalize sampler.root = root at ordered
  induction doc.fields generalizing root with
  | nil => exact ordered
  | cons entry rest ih => exact ih _ (SortedMap.insert_ordered _ _ ordered)

theorem observeAll_snoc (docs : List Document) (doc : Document) :
    Sampler.observeAll (docs ++ [doc]) = (Sampler.observeAll docs).observe doc := by
  simp [Sampler.observeAll]

theorem observeAll_ordered (docs : List Document) :
    SortedMap.Ordered (Sampler.observeAll docs).root := by
  induction docs using List.reverseRecOn with
  | nil => exact SortedMap.ordered_nil
  | append_singleton docs doc ih =>
      rw [observeAll_snoc]
      exact observe_ordered _ doc ih

theorem lookup_distinct {doc : Document} {key : String} {value : Bson}
    (found : doc.get key = some value) : value.distinctKeys = true :=
  fieldsDistinct_mem doc.distinct (SortedMap.mem_of_lookup found)

theorem valuesAt_snoc (key : String) (docs : List Document) (doc : Document) :
    valuesAt key (docs ++ [doc]) = valuesAt key docs ++ (doc.get key).toList := by
  rw [valuesAt_append]
  cases found : doc.get key <;> simp [valuesAt, found]

theorem slot_wellOrdered (docs : List Document) (key : String) :
    (((Sampler.observeAll docs).root.lookup key).getD FieldShapeOf.empty).shape.WellOrdered := by
  induction docs using List.reverseRecOn with
  | nil => trivial
  | append_singleton docs doc ih =>
      rw [observeAll_snoc, lookup_observe]
      cases doc.get key with
      | none => exact ih
      | some value => exact observeShape_wellOrdered ih (shapeOf_wellOrdered value)

theorem observeAll_wellOrdered {docs : List Document} {key : String} {fs : FieldShape}
    (found : (Sampler.observeAll docs).root.lookup key = some fs) : fs.shape.WellOrdered := by
  have slot := slot_wellOrdered docs key
  rwa [found, Option.getD_some] at slot

theorem lookup_observeAll_none {docs : List Document} {key : String} :
    (Sampler.observeAll docs).root.lookup key = none ↔ valuesAt key docs = [] := by
  induction docs using List.reverseRecOn with
  | nil => exact iff_of_true rfl rfl
  | append_singleton docs doc ih =>
      rw [observeAll_snoc, lookup_observe, valuesAt_snoc]
      cases doc.get key with
      | none => simpa [observedSlot] using ih
      | some value => simp [observedSlot]

section
variable {motive : List Bson → FieldShape → Prop} {docs : List Document} {key : String}
  (start : motive [] FieldShapeOf.empty)
  (step : ∀ seen slot, ∀ value ∈ valuesAt key docs, slot.shape.WellOrdered → motive seen slot →
    motive (seen ++ [value]) (observeValue slot value))

include start step

theorem observeAll_rule :
    motive (valuesAt key docs) (((Sampler.observeAll docs).root.lookup key).getD FieldShapeOf.empty) := by
  induction docs using List.reverseRecOn with
  | nil => exact start
  | append_singleton docs doc ih =>
      rw [valuesAt_snoc] at step ⊢
      have earlier := ih fun seen slot value member => step seen slot value (List.mem_append_left _ member)
      rw [observeAll_snoc, lookup_observe]
      cases found : doc.get key with
      | none =>
          rw [Option.toList_none, List.append_nil]
          exact earlier
      | some value =>
          have now : value ∈ valuesAt key docs ++ (doc.get key).toList := by simp [found]
          exact step _ _ value now (slot_wellOrdered docs key) earlier

theorem observeAll_kept {fs : FieldShape} (found : (Sampler.observeAll docs).root.lookup key = some fs) :
    motive (valuesAt key docs) fs := by
  have slot := observeAll_rule start step
  rwa [found, Option.getD_some] at slot

end

theorem mem_valuesAt {docs : List Document} {key : String} {value : Bson} :
    value ∈ valuesAt key docs ↔ ∃ doc ∈ docs, doc.get key = some value :=
  List.mem_filterMap

/-- A sampler slot explains what the documents hold under its key. -/
theorem observeAll_explains {docs : List Document} {key : String} {fs : FieldShape}
    (found : (Sampler.observeAll docs).root.lookup key = some fs) :
    Explains fs.shape fs.mixed (valuesAt key docs) := by
  refine observeAll_kept (motive := fun seen slot => Explains slot.shape slot.mixed seen) ?_ ?_ found
  · simp [Explains, FieldShapeOf.empty]
  · intro seen slot value member ordered explains
    obtain ⟨doc, _, held⟩ := mem_valuesAt.mp member
    exact explains_observeShape ordered explains (explains_shapeOf value (lookup_distinct held))

mutual
/-- Every key inside a value passes a test. -/
def Bson.keysAll (test : String → Bool) : Bson → Bool
  | .document fields => fieldKeysAll test fields
  | .array items => itemKeysAll test items
  | _ => true
def fieldKeysAll (test : String → Bool) : List (String × Bson) → Bool
  | [] => true
  | (key, value) :: rest => test key && value.keysAll test && fieldKeysAll test rest
def itemKeysAll (test : String → Bool) : List Bson → Bool
  | [] => true
  | value :: rest => value.keysAll test && itemKeysAll test rest
end

/-- Every key of a document, at every level, passes a test. -/
def Document.keysAll (test : String → Bool) (doc : Document) : Bool := fieldKeysAll test doc.fields

mutual
def Shape.keysAll (test : String → Bool) : Shape → Bool
  | .document fields => shapeKeysAll test fields
  | .array inner => inner.keysAll test
  | _ => true
def shapeKeysAll (test : String → Bool) : List (String × FieldShapeOf Shape) → Bool
  | [] => true
  | (key, fs) :: rest => test key && fs.shape.keysAll test && shapeKeysAll test rest
end

section
variable {test : String → Bool}

theorem shapeKeysAll_iff (fields : List (String × FieldShape)) :
    shapeKeysAll test fields = true ↔
      ∀ entry ∈ fields, test entry.1 = true ∧ entry.2.shape.keysAll test = true := by
  induction fields with
  | nil => simp [shapeKeysAll]
  | cons entry rest ih => simp only [shapeKeysAll, Bool.and_eq_true, ih, List.forall_mem_cons]

theorem fieldKeysAll_iff (fields : Fields) :
    fieldKeysAll test fields = true ↔
      ∀ entry ∈ fields, test entry.1 = true ∧ entry.2.keysAll test = true := by
  induction fields with
  | nil => simp [fieldKeysAll]
  | cons entry rest ih => simp only [fieldKeysAll, Bool.and_eq_true, ih, List.forall_mem_cons]

theorem Shape.keysAll_lookup {fields : List (String × FieldShape)}
    (all : Shape.keysAll test (.document fields) = true) {key : String} {fs : FieldShape}
    (found : fields.lookup key = some fs) : test key = true ∧ fs.shape.keysAll test = true :=
  (shapeKeysAll_iff fields).mp all _ (SortedMap.mem_of_lookup found)

theorem Unified.keysAll {a b c : Shape} {m m' : Bool} (joined : Unified a b m c m')
    (first : a.keysAll test = true) (second : b.keysAll test = true) : c.keysAll test = true := by
  induction joined with
  | same | bottomRight => exact first
  | bottomLeft => exact second
  | widenRight _ widens => exact second
  | widenLeft _ widens => exact first
  | textRight | textLeft | conflict => rfl
  | arrays _ ih => exact ih first second
  | absorbRight _ _ ih => exact ih first second
  | absorbLeft _ _ ih => exact ih second first
  | @documents left right out m joined each ordered entries ih =>
      refine (shapeKeysAll_iff out).mpr ?_
      rintro ⟨key, fs⟩ member
      have found := SortedMap.lookup_of_mem ordered member
      rw [entries key] at found
      cases hl : left.lookup key with
      | none =>
          rw [hl] at found
          exact Shape.keysAll_lookup second found
      | some lv =>
          have fromLeft := Shape.keysAll_lookup first hl
          cases hr : right.lookup key with
          | none =>
              rw [hl, hr] at found
              cases found
              exact fromLeft
          | some rv =>
              rw [hl, hr] at found
              cases found
              exact ⟨fromLeft.1, ih key lv rv hl hr fromLeft.2 (Shape.keysAll_lookup second hr).2⟩

theorem observeShape_keysAll {slot : FieldShape} {isNull : Bool} {shape : Shape}
    (orderedSlot : slot.shape.WellOrdered) (orderedShape : shape.WellOrdered)
    (first : slot.shape.keysAll test = true) (second : shape.keysAll test = true) :
    (observeShape slot isNull shape).shape.keysAll test = true := by
  unfold observeShape
  split
  · exact first
  · exact (unify_spec _ _ _ orderedSlot orderedShape).keysAll first second

theorem shapeKeysAll_insert {key : String} {fs : FieldShape} {fields : List (String × FieldShape)}
    (passes : test key = true) (slot : fs.shape.keysAll test = true)
    (rest : shapeKeysAll test fields = true) :
    shapeKeysAll test (SortedMap.insert key fs fields) = true := by
  rw [shapeKeysAll_iff] at rest ⊢
  intro entry member
  rcases SortedMap.mem_insert member with rfl | old
  · exact ⟨passes, slot⟩
  · exact rest entry old

mutual
theorem shapeOf_keysAll (value : Bson) (all : value.keysAll test = true) :
    (shapeOf value).keysAll test = true := by
  cases value with
  | document fields =>
      simp only [shapeOf]
      exact shapeOfFields_keysAll fields all [] rfl
  | array items =>
      simp only [shapeOf]
      exact shapeOfItems_keysAll items all .unknown false trivial rfl
  | _ => rfl
theorem shapeOfFields_keysAll (entries : List (String × Bson))
    (all : fieldKeysAll test entries = true) (fields : List (String × FieldShapeOf Shape))
    (inner : shapeKeysAll test fields = true) :
    shapeKeysAll test (shapeOfFields entries fields) = true := by
  cases entries with
  | nil => exact inner
  | cons entry rest =>
      rcases entry with ⟨key, value⟩
      simp only [fieldKeysAll, Bool.and_eq_true] at all
      refine shapeOfFields_keysAll rest all.2 _ (shapeKeysAll_insert all.1.1 ?_ inner)
      have base : FieldShapeOf.empty.shape.WellOrdered := trivial
      exact observeShape_keysAll base (shapeOf_wellOrdered value) rfl (shapeOf_keysAll value all.1.2)
theorem shapeOfItems_keysAll (items : List Bson) (all : itemKeysAll test items = true)
    (elem : Shape) (mixed : Bool) (ordered : elem.WellOrdered) (inner : elem.keysAll test = true) :
    (shapeOfItems items elem mixed).keysAll test = true := by
  cases items with
  | nil => exact inner
  | cons item rest =>
      simp only [itemKeysAll, Bool.and_eq_true] at all
      have itemOrdered := shapeOf_wellOrdered item
      have step := unify_spec elem (shapeOf item) mixed ordered itemOrdered
      exact shapeOfItems_keysAll rest all.2 _ _ (step.wellOrdered ordered itemOrdered)
        (step.keysAll inner (shapeOf_keysAll item all.1))
end

theorem Document.keysAll_get {doc : Document} (all : doc.keysAll test = true) {key : String}
    {value : Bson} (found : doc.get key = some value) : test key = true ∧ value.keysAll test = true :=
  (fieldKeysAll_iff doc.fields).mp all _ (SortedMap.mem_of_lookup found)

theorem observeAll_keysAll {docs : List Document} (all : ∀ doc ∈ docs, doc.keysAll test = true)
    {key : String} {fs : FieldShape} (found : (Sampler.observeAll docs).root.lookup key = some fs) :
    test key = true ∧ fs.shape.keysAll test = true := by
  have own : ∀ value ∈ valuesAt key docs, test key = true ∧ value.keysAll test = true := by
    intro value member
    obtain ⟨doc, seen, held⟩ := mem_valuesAt.mp member
    exact Document.keysAll_get (all doc seen) held
  constructor
  · obtain ⟨value, member⟩ : ∃ value, value ∈ valuesAt key docs := by
      apply List.exists_mem_of_ne_nil
      intro none
      rw [lookup_observeAll_none.mpr none] at found
      cases found
    exact (own value member).1
  · refine observeAll_kept (motive := fun _ slot => slot.shape.keysAll test = true) rfl ?_ found
    intro _ slot value member ordered kept
    exact observeShape_keysAll ordered (shapeOf_wellOrdered value) kept (shapeOf_keysAll value (own value member).2)

end

end Auger
