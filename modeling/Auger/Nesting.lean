import Auger.UnifyLaws

set_option autoImplicit false

/-! How deep arrays nest in values and in the shapes inferred from them. -/

namespace Auger

open General

mutual
/-- The arrays at the head of a value: an array, in it an array, and so on. -/
def Bson.arrayChain : Bson → Nat
  | .array items => 1 + itemsChain items
  | _ => 0
def itemsChain : List Bson → Nat
  | [] => 0
  | item :: rest => max item.arrayChain (itemsChain rest)
end

mutual
/-- The longest chain of directly nested arrays anywhere in a value. -/
def Bson.arrayNesting : Bson → Nat
  | .array items => max (1 + itemsChain items) (itemsArrayNesting items)
  | .document fields => entriesArrayNesting fields
  | _ => 0
def entriesArrayNesting : List (String × Bson) → Nat
  | [] => 0
  | (_, value) :: rest => max value.arrayNesting (entriesArrayNesting rest)
def itemsArrayNesting : List Bson → Nat
  | [] => 0
  | item :: rest => max item.arrayNesting (itemsArrayNesting rest)
end

def Document.arrayNesting (doc : Document) : Nat := entriesArrayNesting doc.fields

namespace Shape

def arrayChain : Shape → Nat
  | .array inner => 1 + inner.arrayChain
  | _ => 0

mutual
def arrayNesting : Shape → Nat
  | .array inner => max (1 + inner.arrayChain) inner.arrayNesting
  | .document fields => slotsNesting fields
  | _ => 0
def slotsNesting : List (String × FieldShapeOf Shape) → Nat
  | [] => 0
  | (_, fs) :: rest => max fs.shape.arrayNesting (slotsNesting rest)
end

theorem slotsNesting_le_iff (fields : List (String × FieldShape)) (bound : Nat) :
    slotsNesting fields ≤ bound ↔ ∀ entry ∈ fields, entry.2.shape.arrayNesting ≤ bound := by
  induction fields with
  | nil => simp [slotsNesting]
  | cons entry rest ih => rw [slotsNesting, Nat.max_le, ih, List.forall_mem_cons]

theorem nesting_of_lookup {fields : List (String × FieldShape)} {key : String} {fs : FieldShape}
    (found : fields.lookup key = some fs) : fs.shape.arrayNesting ≤ slotsNesting fields :=
  (slotsNesting_le_iff fields _).mp le_rfl _ (SortedMap.mem_of_lookup found)

theorem Plain.chain {shape : Shape} (plain : shape.Plain) : shape.arrayChain = 0 := by
  cases shape with
  | array => exact plain.elim
  | _ => rfl

end Shape

theorem Unified.nesting {a b c : Shape} {m m' : Bool} (joined : Unified a b m c m') :
    c.arrayChain ≤ max a.arrayChain b.arrayChain ∧
      c.arrayNesting ≤ max a.arrayNesting b.arrayNesting := by
  induction joined with
  | same a m => exact ⟨le_max_left _ _, le_max_left _ _⟩
  | bottomLeft b m => exact ⟨le_max_right _ _, le_max_right _ _⟩
  | bottomRight a m => exact ⟨le_max_left _ _, le_max_left _ _⟩
  | widenRight m widens => exact ⟨le_max_right _ _, le_max_right _ _⟩
  | widenLeft m widens => exact ⟨le_max_left _ _, le_max_left _ _⟩
  | textRight m => exact ⟨le_max_right _ _, le_max_right _ _⟩
  | textLeft m => exact ⟨le_max_left _ _, le_max_left _ _⟩
  | arrays inner ih =>
      simp only [Shape.arrayChain, Shape.arrayNesting]
      omega
  | absorbRight plain inner ih =>
      rw [plain.chain] at ih ⊢
      simp only [Shape.arrayChain, Shape.arrayNesting]
      omega
  | absorbLeft plain inner ih =>
      rw [plain.chain] at ih ⊢
      simp only [Shape.arrayChain, Shape.arrayNesting]
      omega
  | conflict m clash => exact ⟨Nat.zero_le _, Nat.zero_le _⟩
  | @documents left right out m joined each ordered entries ih =>
      refine ⟨Nat.zero_le _, (Shape.slotsNesting_le_iff out _).mpr ?_⟩
      rintro ⟨key, fs⟩ member
      have merged := entries key
      rw [SortedMap.lookup_of_mem ordered member] at merged
      cases foundLeft : left.lookup key with
      | none =>
          rw [foundLeft] at merged
          have inside := Shape.nesting_of_lookup merged.symm
          exact le_max_of_le_right inside
      | some lv =>
          have insideLeft := Shape.nesting_of_lookup foundLeft
          cases foundRight : right.lookup key with
          | none =>
              rw [foundLeft, foundRight] at merged
              cases merged
              exact le_max_of_le_left insideLeft
          | some rv =>
              rw [foundLeft, foundRight] at merged
              cases merged
              have insideRight := Shape.nesting_of_lookup foundRight
              exact (ih key lv rv foundLeft foundRight).2.trans (max_le_max insideLeft insideRight)

theorem observeShape_nesting {slot : FieldShape} {isNull : Bool} {shape : Shape} (first : slot.shape.WellOrdered)
    (second : shape.WellOrdered) :
    (observeShape slot isNull shape).shape.arrayNesting ≤ max slot.shape.arrayNesting shape.arrayNesting := by
  rw [observeShape]
  split_ifs
  · exact le_max_left _ _
  · exact (unify_spec slot.shape shape slot.mixed first second).nesting.2

theorem slotsNesting_insert (key : String) (fs : FieldShape) (fields : List (String × FieldShape)) :
    Shape.slotsNesting (SortedMap.insert key fs fields) ≤
      max fs.shape.arrayNesting (Shape.slotsNesting fields) := by
  rw [Shape.slotsNesting_le_iff]
  intro entry member
  obtain rfl | old := SortedMap.mem_insert member
  · exact le_max_left _ _
  · exact le_max_of_le_right ((Shape.slotsNesting_le_iff fields _).mp le_rfl entry old)

mutual
/-- A shape nests arrays no deeper than its value does. -/
theorem shapeOf_nesting (value : Bson) :
    (shapeOf value).arrayChain ≤ value.arrayChain ∧ (shapeOf value).arrayNesting ≤ value.arrayNesting := by
  cases value with
  | document fields =>
      rw [shapeOf, Shape.arrayNesting, Bson.arrayNesting]
      exact ⟨Nat.zero_le _, (shapeOfFields_nesting fields []).trans (max_le (Nat.zero_le _) le_rfl)⟩
  | array items =>
      have inner := shapeOfItems_nesting items .unknown false trivial
      simp only [Shape.arrayChain, Shape.arrayNesting] at inner
      simp only [shapeOf, Shape.arrayChain, Shape.arrayNesting, Bson.arrayChain, Bson.arrayNesting]
      omega
  | _ => exact ⟨Nat.zero_le _, Nat.zero_le _⟩
theorem shapeOfFields_nesting (entries : List (String × Bson)) (fields : List (String × FieldShapeOf Shape)) :
    Shape.slotsNesting (shapeOfFields entries fields) ≤
      max (Shape.slotsNesting fields) (entriesArrayNesting entries) := by
  cases entries with
  | nil => exact le_max_left _ _
  | cons entry rest =>
      obtain ⟨key, value⟩ := entry
      have later := shapeOfFields_nesting rest
        (SortedMap.insert key (observeShape FieldShapeOf.empty value.isNull (shapeOf value)) fields)
      have inserted := slotsNesting_insert key (observeShape FieldShapeOf.empty value.isNull (shapeOf value)) fields
      have slot : (observeShape FieldShapeOf.empty value.isNull (shapeOf value)).shape.arrayNesting ≤
          max 0 (shapeOf value).arrayNesting := observeShape_nesting trivial (shapeOf_wellOrdered value)
      have inner := (shapeOf_nesting value).2
      rw [shapeOfFields, entriesArrayNesting]
      omega
theorem shapeOfItems_nesting (items : List Bson) (elem : Shape) (mixed : Bool) (ordered : elem.WellOrdered) :
    (shapeOfItems items elem mixed).arrayChain ≤ max elem.arrayChain (itemsChain items) ∧
      (shapeOfItems items elem mixed).arrayNesting ≤ max elem.arrayNesting (itemsArrayNesting items) := by
  cases items with
  | nil => exact ⟨le_max_left _ _, le_max_left _ _⟩
  | cons item rest =>
      have inner := shapeOf_nesting item
      have joined := unify_spec elem (shapeOf item) mixed ordered (shapeOf_wellOrdered item)
      have step := joined.nesting
      have later := shapeOfItems_nesting rest (unify elem (shapeOf item) mixed).1
        (unify elem (shapeOf item) mixed).2 (joined.wellOrdered ordered (shapeOf_wellOrdered item))
      rw [shapeOfItems, itemsChain, itemsArrayNesting]
      omega
end

theorem get_nesting {doc : Document} {key : String} {value : Bson} (got : doc.get key = some value) :
    value.arrayNesting ≤ doc.arrayNesting := by
  have within : ∀ entries : Fields, entries.lookup key = some value → value.arrayNesting ≤ entriesArrayNesting entries := by
    intro entries found
    induction entries with
    | nil => cases found
    | cons entry rest ih =>
        obtain ⟨k, v⟩ := entry
        rw [entriesArrayNesting]
        rw [List.lookup_cons] at found
        cases same : key == k with
        | true =>
            rw [same] at found
            cases found
            exact le_max_left _ _
        | false =>
            rw [same] at found
            exact le_max_of_le_right (ih found)
  exact within doc.fields got

def deepestNesting (docs : List Document) : Nat := (docs.map Document.arrayNesting).foldr max 0

theorem le_deepestNesting {docs : List Document} {doc : Document} (member : doc ∈ docs) :
    doc.arrayNesting ≤ deepestNesting docs := by
  induction docs with
  | nil => cases member
  | cons head rest ih =>
      rw [deepestNesting, List.map_cons, List.foldr_cons]
      obtain rfl | later := List.mem_cons.mp member
      · exact le_max_left _ _
      · exact le_max_of_le_right (ih later)

theorem observeAll_slot_nesting {docs : List Document} {bound : Nat} (within : ∀ doc ∈ docs, doc.arrayNesting ≤ bound)
    (key : String) :
    (((Sampler.observeAll docs).root.lookup key).getD FieldShapeOf.empty).shape.arrayNesting ≤ bound := by
  apply observeAll_rule (motive := fun _ slot => slot.shape.arrayNesting ≤ bound)
  · exact Nat.zero_le _
  · intro _ slot value member ordered earlier
    obtain ⟨doc, seen, got⟩ := mem_valuesAt.mp member
    have inner : (shapeOf value).arrayNesting ≤ bound := by
      calc (shapeOf value).arrayNesting ≤ value.arrayNesting := (shapeOf_nesting value).2
        _ ≤ doc.arrayNesting := get_nesting got
        _ ≤ bound := within doc seen
    exact (observeShape_nesting ordered (shapeOf_wellOrdered value)).trans (max_le earlier inner)

/-- Merging never deepens arrays, in one join and over any sample. -/
theorem unify_nesting :
    (∀ (a b : MapShape) (m : Bool),
        (unify a.val b.val m).1.arrayNesting ≤ max a.val.arrayNesting b.val.arrayNesting) ∧
      ∀ docs : List Document, Shape.slotsNesting (Sampler.observeAll docs).root ≤ deepestNesting docs := by
  constructor
  · intro a b m
    exact (unify_spec a.val b.val m a.property b.property).nesting.2
  · intro docs
    rw [Shape.slotsNesting_le_iff]
    rintro ⟨key, fs⟩ member
    have within : ∀ doc ∈ docs, doc.arrayNesting ≤ deepestNesting docs := fun doc seen => le_deepestNesting seen
    have slot := observeAll_slot_nesting within key
    rwa [SortedMap.lookup_of_mem (observeAll_ordered docs) member, Option.getD_some] at slot

end Auger
