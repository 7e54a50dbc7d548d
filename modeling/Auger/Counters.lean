import Auger.Columns
import Auger.UnifyLaws

set_option autoImplicit false

/-! The occurrence counters of nested slots: joining adds them up, except where two
shapes are equal and the join returns one of them as it is. -/

namespace Auger

open General

def FieldShapeOf.child (fs : FieldShape) (key : String) : Option FieldShape :=
  match fs.shape with
  | .document fields => fields.lookup key
  | _ => none

def slotBelow (slot : Option FieldShape) (keys : List String) : Option FieldShape :=
  keys.foldl (fun slot key => slot.bind (·.child key)) slot

def slotAt (root : List (String × FieldShape)) : List String → Option FieldShape
  | [] => none
  | first :: rest => slotBelow (root.lookup first) rest

theorem slotBelow_cons (fs : FieldShape) (key : String) (keys : List String) :
    slotBelow (some fs) (key :: keys) = slotBelow (fs.child key) keys := rfl

@[simp] theorem slotBelow_none (keys : List String) : slotBelow none keys = none := by
  induction keys with
  | nil => rfl
  | cons key keys ih => exact ih

theorem slotBelow_snoc (slot : Option FieldShape) (keys : List String) (key : String) :
    slotBelow slot (keys ++ [key]) = (slotBelow slot keys).bind (·.child key) := by
  simp [slotBelow]

theorem parent_of_slotBelow {slot : Option FieldShape} {keys : List String} {key : String} {fs : FieldShape}
    (reached : slotBelow slot (keys ++ [key]) = some fs) :
    ∃ parent fields, slotBelow slot keys = some parent ∧ parent.shape = .document fields := by
  rw [slotBelow_snoc, Option.bind_eq_some_iff] at reached
  obtain ⟨parent, found, child⟩ := reached
  unfold FieldShapeOf.child at child
  cases shape : parent.shape with
  | document fields => exact ⟨parent, fields, found, shape⟩
  | _ => simp [shape] at child

/-- A shape below which slots stand, or may yet. -/
def Shape.Nestable (shape : Shape) : Prop := shape = .unknown ∨ ∃ fields, shape = .document fields

/-- Along the keys every slot holds documents or nulls only. -/
def Nests : Option FieldShape → List String → Prop
  | none, _ => True
  | some _, [] => True
  | some fs, key :: keys => fs.shape.Nestable ∧ Nests (fs.child key) keys

theorem nests_none (keys : List String) : Nests none keys := by
  cases keys <;> trivial

theorem nests_of_reached {slot : Option FieldShape} {keys : List String} {fs : FieldShape}
    (reached : slotBelow slot keys = some fs) : Nests slot keys := by
  induction keys generalizing slot with
  | nil => cases slot <;> trivial
  | cons key keys ih =>
      cases slot with
      | none => trivial
      | some top =>
          rw [slotBelow_cons] at reached
          refine ⟨?_, ih reached⟩
          cases shape : top.shape with
          | document fields => exact .inr ⟨fields, rfl⟩
          | _ => simp [FieldShapeOf.child, shape] at reached

theorem unify_nestable {a b : Shape} {mixed : Bool} (first : a.WellOrdered) (second : b.WellOrdered)
    (nestable : (unify a b mixed).1.Nestable) : a.Nestable ∧ b.Nestable := by
  have joined := unify_spec a b mixed first second
  generalize (unify a b mixed).1 = c at joined nestable
  generalize (unify a b mixed).2 = mixed' at joined
  cases joined with
  | same => exact ⟨nestable, nestable⟩
  | bottomLeft => exact ⟨.inl rfl, nestable⟩
  | bottomRight => exact ⟨nestable, .inl rfl⟩
  | documents => exact ⟨.inr ⟨_, rfl⟩, .inr ⟨_, rfl⟩⟩
  | widenRight _ widens => cases widens <;> rcases nestable with same | ⟨_, same⟩ <;> cases same
  | widenLeft _ widens => cases widens <;> rcases nestable with same | ⟨_, same⟩ <;> cases same
  | _ => rcases nestable with same | ⟨_, same⟩ <;> cases same

/-- The children of a join: those of either side where the shapes are equal, and the
joined ones otherwise. -/
theorem child_joinSlots {lv rv : FieldShape} (left : lv.shape.Nestable) (right : rv.shape.Nestable)
    (ordered : rv.shape.WellOrdered) (key : String) :
    (joinSlots unify lv rv).child key =
      if lv.shape = rv.shape then lv.child key
      else SortedMap.mergedValue (joinSlots unify) (lv.child key) (rv.child key) := by
  split_ifs with same
  · simp [FieldShapeOf.child, joinSlots, same, unify_self]
  · rcases left with bottom | ⟨fields, document⟩
    · simp [FieldShapeOf.child, joinSlots, bottom, SortedMap.mergedValue]
    · rcases right with bottom | ⟨fields', document'⟩
      · cases found : fields.lookup key <;>
          simp [FieldShapeOf.child, joinSlots, bottom, document, SortedMap.mergedValue, found]
      · rw [document'] at ordered
        have differ : fields ≠ fields' := by
          rintro rfl
          exact same (document.trans document'.symm)
        simp only [FieldShapeOf.child, joinSlots, document, document', unify_documents differ,
          SortedMap.lookup_mergeWith _ _ _ ordered.1]

def counted (counter : FieldShape → Nat) (slot : Option FieldShape) : Nat := (slot.map counter).getD 0

/-- Both sides reach one and the same document shape under the keys. -/
def Blocked (l r : Option FieldShape) (keys : List String) : Prop :=
  ∃ lf rf fields, slotBelow l keys = some lf ∧ slotBelow r keys = some rf ∧
    lf.shape = .document fields ∧ rf.shape = .document fields

/-- A counter that joining adds up. -/
def Additive (counter : FieldShape → Nat) : Prop :=
  ∀ lv rv, counter (joinSlots unify lv rv) = counter lv + counter rv

def SlotOrdered (slot : Option FieldShape) : Prop := ∀ fs, slot = some fs → fs.shape.WellOrdered

theorem SlotOrdered.child {fs : FieldShape} (ordered : SlotOrdered (some fs)) (key : String) :
    SlotOrdered (fs.child key) := by
  intro child found
  have top := ordered fs rfl
  cases shape : fs.shape with
  | document fields =>
      rw [shape] at top
      simp only [FieldShapeOf.child, shape] at found
      exact top.child found
  | _ => simp [FieldShapeOf.child, shape] at found

theorem child_eq_of_shape {lv rv : FieldShape} (same : lv.shape = rv.shape) (key : String) :
    lv.child key = rv.child key := by
  simp [FieldShapeOf.child, same]

/-- Where two slots have one shape, either a document shape stands at the keys on both
sides or nothing stands below. -/
theorem blocked_or_empty {lv rv : FieldShape} (same : lv.shape = rv.shape) (keys : List String) (key : String) :
    Blocked (some lv) (some rv) keys ∨ slotBelow (some rv) (keys ++ [key]) = none := by
  cases reached : slotBelow (some rv) (keys ++ [key]) with
  | none => exact .inr rfl
  | some fs =>
      left
      obtain ⟨parent, fields, found, document⟩ := parent_of_slotBelow reached
      cases keys with
      | nil =>
          cases found
          exact ⟨lv, rv, fields, rfl, rfl, same.trans document, document⟩
      | cons first rest =>
          rw [slotBelow_cons, ← child_eq_of_shape same] at found
          refine ⟨parent, parent, fields, found, ?_, document, document⟩
          rwa [slotBelow_cons, ← child_eq_of_shape same]

/-- What joining two slots does to a counter below them. -/
structure CountedJoin (counter : FieldShape → Nat) (l r : Option FieldShape) (keys : List String)
    (key : String) : Prop where
  nests : Nests l (keys ++ [key])
  blocked : Blocked l r keys →
    counted counter (slotBelow (SortedMap.mergedValue (joinSlots unify) l r) (keys ++ [key])) =
      counted counter (slotBelow l (keys ++ [key]))
  added : ¬Blocked l r keys →
    counted counter (slotBelow (SortedMap.mergedValue (joinSlots unify) l r) (keys ++ [key])) =
      counted counter (slotBelow l (keys ++ [key])) + counted counter (slotBelow r (keys ++ [key]))

theorem countedJoin_none_left (counter : FieldShape → Nat) (r : Option FieldShape) (keys : List String)
    (key : String) : CountedJoin counter none r keys key := by
  have merged : SortedMap.mergedValue (joinSlots unify) none r = r := rfl
  refine ⟨nests_none _, ?_, ?_⟩
  · rintro ⟨lf, rf, fields, reached, -⟩
    rw [slotBelow_none] at reached
    cases reached
  · intro _
    rw [merged, slotBelow_none]
    exact (Nat.zero_add _).symm

theorem countedJoin_none_right {counter : FieldShape → Nat} {lv : FieldShape} {keys : List String}
    {key : String} (nests : Nests (some lv) (keys ++ [key])) : CountedJoin counter (some lv) none keys key := by
  refine ⟨nests, fun _ => rfl, ?_⟩
  intro _
  rw [slotBelow_none]
  rfl

theorem countedJoin_same {counter : FieldShape → Nat} {lv rv : FieldShape} (same : lv.shape = rv.shape)
    {keys : List String} {key : String} (nests : Nests (some lv) (keys ++ [key]))
    (kept : slotBelow (some (joinSlots unify lv rv)) (keys ++ [key]) = slotBelow (some lv) (keys ++ [key])) :
    CountedJoin counter (some lv) (some rv) keys key := by
  have merged : SortedMap.mergedValue (joinSlots unify) (some lv) (some rv) = some (joinSlots unify lv rv) := rfl
  refine ⟨nests, ?_, ?_⟩
  · intro _
    rw [merged, kept]
  · intro open_
    have nothing := (blocked_or_empty same keys key).resolve_left open_
    rw [merged, kept, nothing]
    rfl

theorem counted_merged {counter : FieldShape → Nat} (additive : Additive counter) (l r : Option FieldShape) :
    counted counter (SortedMap.mergedValue (joinSlots unify) l r) = counted counter l + counted counter r := by
  cases l with
  | none => exact (Nat.zero_add _).symm
  | some lv =>
      cases r with
      | none => rfl
      | some rv => exact additive lv rv

/-- Below a join, a counter adds up unless both sides reach one document shape. -/
theorem counted_join {counter : FieldShape → Nat} (additive : Additive counter) (keys : List String)
    (key : String) {l r : Option FieldShape} (left : SlotOrdered l) (right : SlotOrdered r)
    (nests : Nests (SortedMap.mergedValue (joinSlots unify) l r) (keys ++ [key])) :
    CountedJoin counter l r keys key := by
  induction keys generalizing l r with
  | nil =>
      cases l with
      | none => exact countedJoin_none_left counter r [] key
      | some lv =>
          cases r with
          | none => exact countedJoin_none_right nests
          | some rv =>
              obtain ⟨nestable, -⟩ := nests
              obtain ⟨leftNests, rightNests⟩ := unify_nestable (left lv rfl) (right rv rfl) nestable
              have children := child_joinSlots leftNests rightNests (right rv rfl) key
              have below : Nests (some lv) ([] ++ [key]) := by
                refine ⟨leftNests, ?_⟩
                cases lv.child key <;> trivial
              by_cases same : lv.shape = rv.shape
              · rw [if_pos same] at children
                exact countedJoin_same same below children
              · rw [if_neg same] at children
                refine ⟨below, ?_, ?_⟩
                · rintro ⟨lf, rf, fields, reached, reached', document, document'⟩
                  cases reached
                  cases reached'
                  exact absurd (document.trans document'.symm) same
                · intro _
                  calc counted counter ((joinSlots unify lv rv).child key)
                      = counted counter (SortedMap.mergedValue (joinSlots unify) (lv.child key) (rv.child key)) := by
                        rw [children]
                    _ = _ := counted_merged additive _ _
  | cons first rest ih =>
      cases l with
      | none => exact countedJoin_none_left counter r (first :: rest) key
      | some lv =>
          cases r with
          | none => exact countedJoin_none_right nests
          | some rv =>
              obtain ⟨nestable, deeper⟩ := nests
              obtain ⟨leftNests, rightNests⟩ := unify_nestable (left lv rfl) (right rv rfl) nestable
              have children := child_joinSlots leftNests rightNests (right rv rfl) first
              by_cases same : lv.shape = rv.shape
              · rw [if_pos same] at children
                rw [children] at deeper
                refine countedJoin_same same ⟨leftNests, deeper⟩ ?_
                rw [List.cons_append, slotBelow_cons, slotBelow_cons, children]
              · rw [if_neg same] at children
                rw [children] at deeper
                have inner := ih (left.child first) (right.child first) deeper
                have merged : slotBelow (SortedMap.mergedValue (joinSlots unify) (some lv) (some rv))
                    (first :: rest ++ [key]) = slotBelow (SortedMap.mergedValue (joinSlots unify) (lv.child first)
                      (rv.child first)) (rest ++ [key]) := by
                  rw [← children]
                  rfl
                exact ⟨⟨leftNests, inner.nests⟩, fun blocked => merged ▸ inner.blocked blocked,
                  fun free => merged ▸ inner.added free⟩

/-- The slot a single value makes. -/
def freshSlot (v : Bson) : FieldShape := observeShape FieldShapeOf.empty v.isNull (shapeOf v)

theorem freshSlot_shape (v : Bson) : (freshSlot v).shape = if v.isNull then .unknown else shapeOf v := by
  unfold freshSlot observeShape
  cases v.isNull <;> simp [FieldShapeOf.empty]

theorem freshSlot_present (v : Bson) : (freshSlot v).present = 1 := by
  unfold freshSlot observeShape
  cases v.isNull <;> rfl

theorem freshSlot_nulls (v : Bson) : (freshSlot v).nulls = if v.isNull then 1 else 0 := by
  unfold freshSlot observeShape
  cases v.isNull <;> rfl

theorem freshSlot_mixed (v : Bson) : (freshSlot v).mixed = false := by
  unfold freshSlot observeShape
  cases v.isNull <;> simp [FieldShapeOf.empty]

/-- Observing a value is joining with the slot it makes. -/
theorem observeValue_join (slot : FieldShape) (v : Bson) :
    observeValue slot v = joinSlots unify slot (freshSlot v) := by
  rw [joinSlots, freshSlot_shape, freshSlot_present, freshSlot_nulls, freshSlot_mixed, observeValue, observeShape]
  cases v.isNull <;> simp

theorem freshSlot_ordered (v : Bson) : (freshSlot v).shape.WellOrdered :=
  observeShape_wellOrdered trivial (shapeOf_wellOrdered v)

theorem child_freshSlot {v : Bson} (distinct : v.distinctKeys = true) (key : String) :
    (freshSlot v).child key = (childSlot key (some v)).map freshSlot := by
  rw [FieldShapeOf.child, freshSlot_shape]
  cases v with
  | document fields =>
      simp only [Bson.distinctKeys] at distinct
      simp only [Bson.isNull, Bool.false_eq_true, if_false, shapeOf, childSlot_document,
        lookup_shapeOfFields fields distinct]
      cases fields.lookup key <;> rfl
  | _ => simp [Bson.isNull, shapeOf, childSlot]

theorem childSlot_distinct {v : Bson} (distinct : v.distinctKeys = true) {key : String} {w : Bson}
    (found : childSlot key (some v) = some w) : w.distinctKeys = true := by
  cases v with
  | document fields =>
      simp only [Bson.distinctKeys] at distinct
      exact fieldsDistinct_mem distinct (SortedMap.mem_of_lookup found)
  | _ => cases found

theorem slotBelow_freshSlot (keys : List String) (v : Option Bson)
    (distinct : ∀ w, v = some w → w.distinctKeys = true) :
    slotBelow (v.map freshSlot) keys = (keys.foldl (fun v key => childSlot key v) v).map freshSlot := by
  induction keys generalizing v with
  | nil => rfl
  | cons key keys ih =>
      cases v with
      | none =>
          rw [Option.map_none, slotBelow_none, List.foldl_cons, childSlot_none]
          exact (ih none fun w found => by cases found).symm ▸ (by simp)
      | some w =>
          rw [Option.map_some, slotBelow_cons, child_freshSlot (distinct w rfl), List.foldl_cons]
          exact ih _ fun u found => childSlot_distinct (distinct w rfl) found

theorem lookup_observe_join (sampler : Sampler) (doc : Document) (key : String) :
    (sampler.observe doc).root.lookup key =
      SortedMap.mergedValue (joinSlots unify) (sampler.root.lookup key) ((doc.get key).map freshSlot) := by
  rw [lookup_observe]
  cases doc.get key with
  | none => cases sampler.root.lookup key <;> rfl
  | some v =>
      cases sampler.root.lookup key with
      | none => rfl
      | some slot => exact congrArg some (observeValue_join slot v)

/-- The document under the keys has the very shape accumulated there, counters
included, so that the join skips it. -/
def Repeats (seen : List Document) (doc : Document) (keys : List String) : Prop :=
  ∃ fs fields, slotAt (Sampler.observeAll seen).root keys = some fs ∧
    valueAt doc keys = some (.document fields) ∧ fs.shape = shapeOf (.document fields)

theorem valueAt_cons (doc : Document) (first : String) (keys : List String) :
    valueAt doc (first :: keys) = keys.foldl (fun v key => childSlot key v) (doc.get first) := rfl

theorem shapeOf_document (fields : Fields) : shapeOf (.document fields) = .document (shapeOfFields fields []) := by
  simp only [shapeOf]

theorem document_of_freshSlot {v : Bson} {fields : List (String × FieldShape)}
    (document : (freshSlot v).shape = .document fields) : ∃ inner, v = .document inner := by
  rw [freshSlot_shape] at document
  cases v with
  | document inner => exact ⟨inner, rfl⟩
  | _ => simp [Bson.isNull, shapeOf] at document

theorem blocked_iff_repeats (seen : List Document) (doc : Document) (first : String) (keys : List String) :
    Blocked ((Sampler.observeAll seen).root.lookup first) ((doc.get first).map freshSlot) keys ↔
      Repeats seen doc (first :: keys) := by
  have below := slotBelow_freshSlot keys (doc.get first) fun w found => lookup_distinct found
  rw [← valueAt_cons] at below
  unfold Blocked Repeats
  rw [below]
  constructor
  · rintro ⟨lf, rf, fields, reached, made, document, document'⟩
    obtain ⟨v, stands, rfl⟩ := Option.map_eq_some_iff.mp made
    obtain ⟨inner, rfl⟩ := document_of_freshSlot document'
    rw [freshSlot_shape] at document'
    exact ⟨lf, inner, reached, stands, document.trans document'.symm⟩
  · rintro ⟨fs, inner, reached, stands, same⟩
    refine ⟨fs, freshSlot (.document inner), _, reached, by rw [stands]; rfl, ?_, by
      rw [freshSlot_shape]
      exact shapeOf_document inner⟩
    rw [same, shapeOf_document]

/-- A counter beside the values it is meant to count. -/
structure Counts (counter : FieldShape → Nat) (test : Bson → Bool) : Prop where
  additive : Additive counter
  fresh : ∀ v, counter (freshSlot v) = if test v then 1 else 0

theorem counts_present : Counts FieldShapeOf.present fun _ => true :=
  ⟨fun _ _ => rfl, freshSlot_present⟩

theorem counts_nulls : Counts FieldShapeOf.nulls Bson.isNull :=
  ⟨fun _ _ => rfl, freshSlot_nulls⟩

/-- The values under the keys that a counter is meant to count. -/
def trueCount (test : Bson → Bool) (keys : List String) (docs : List Document) : Nat :=
  docs.countP fun doc => (valueAt doc keys).any test

/-- No document with a value that counts repeats the shape accumulated before it. -/
def NoneRepeats (test : Bson → Bool) (keys : List String) (key : String) (docs : List Document) : Prop :=
  ∀ seen doc later, docs = seen ++ doc :: later → (valueAt doc (keys ++ [key])).any test = true →
    ¬Repeats seen doc keys

theorem noneRepeats_snoc {test : Bson → Bool} {keys : List String} {key : String} {docs : List Document}
    {doc : Document} :
    NoneRepeats test keys key (docs ++ [doc]) ↔
      NoneRepeats test keys key docs ∧
        ((valueAt doc (keys ++ [key])).any test = true → ¬Repeats docs doc keys) := by
  constructor
  · intro all
    refine ⟨?_, all docs doc [] rfl⟩
    intro seen other later split
    apply all seen other (later ++ [doc])
    rw [split, List.append_assoc, List.cons_append]
  · rintro ⟨before, last⟩ seen other later split
    rcases List.eq_nil_or_concat later with rfl | ⟨middle, final, rfl⟩
    · obtain ⟨rfl, same⟩ := List.append_inj' split rfl
      cases same
      exact last
    · rw [List.concat_eq_append, ← List.cons_append, ← List.append_assoc] at split
      obtain ⟨rfl, -⟩ := List.append_inj' split rfl
      exact before seen other middle rfl

theorem counted_fresh {counter : FieldShape → Nat} {test : Bson → Bool} (counts : Counts counter test)
    (doc : Document) (first : String) (keys : List String) :
    counted counter (slotBelow ((doc.get first).map freshSlot) keys) =
      if (valueAt doc (first :: keys)).any test then 1 else 0 := by
  rw [slotBelow_freshSlot keys (doc.get first) fun w found => lookup_distinct found, ← valueAt_cons]
  cases valueAt doc (first :: keys) with
  | none => rfl
  | some v => exact counts.fresh v

theorem trueCount_snoc (test : Bson → Bool) (keys : List String) (docs : List Document) (doc : Document) :
    trueCount test keys (docs ++ [doc]) =
      trueCount test keys docs + if (valueAt doc keys).any test then 1 else 0 := by
  simp [trueCount, List.countP_append, List.countP_singleton]

/-- A counter never passes the true count, and meets it exactly when no document that
counts repeats the shape accumulated before it. -/
theorem counted_run {counter : FieldShape → Nat} {test : Bson → Bool} (counts : Counts counter test)
    (first : String) (keys : List String) (key : String) (docs : List Document)
    (nests : Nests ((Sampler.observeAll docs).root.lookup first) (keys ++ [key])) :
    counted counter (slotAt (Sampler.observeAll docs).root (first :: keys ++ [key])) ≤
        trueCount test (first :: keys ++ [key]) docs ∧
      (counted counter (slotAt (Sampler.observeAll docs).root (first :: keys ++ [key])) =
          trueCount test (first :: keys ++ [key]) docs ↔
        NoneRepeats test (first :: keys) key docs) := by
  induction docs using List.reverseRecOn with
  | nil =>
      have empty : slotAt (Sampler.observeAll []).root (first :: keys ++ [key]) = none :=
        slotBelow_none (keys ++ [key])
      rw [empty]
      refine ⟨le_refl 0, fun _ => ?_, fun _ => rfl⟩
      intro seen doc later split
      simp at split
  | append_singleton docs doc ih =>
      rw [observeAll_snoc, lookup_observe_join] at nests
      have left : SlotOrdered ((Sampler.observeAll docs).root.lookup first) :=
        fun fs found => observeAll_wellOrdered found
      have right : SlotOrdered ((doc.get first).map freshSlot) := by
        intro fs found
        obtain ⟨v, -, rfl⟩ := Option.map_eq_some_iff.mp found
        exact freshSlot_ordered v
      have join := counted_join counts.additive keys key left right nests
      obtain ⟨bound, meets⟩ := ih join.nests
      have after : slotAt (Sampler.observeAll (docs ++ [doc])).root (first :: keys ++ [key]) =
          slotBelow (SortedMap.mergedValue (joinSlots unify) ((Sampler.observeAll docs).root.lookup first)
            ((doc.get first).map freshSlot)) (keys ++ [key]) := by
        rw [observeAll_snoc, List.cons_append, slotAt, lookup_observe_join]
      have before : slotAt (Sampler.observeAll docs).root (first :: keys ++ [key]) =
          slotBelow ((Sampler.observeAll docs).root.lookup first) (keys ++ [key]) := rfl
      have fresh : counted counter (slotBelow ((doc.get first).map freshSlot) (keys ++ [key])) =
          if (valueAt doc (first :: keys ++ [key])).any test then 1 else 0 :=
        counted_fresh counts doc first (keys ++ [key])
      rw [after, trueCount_snoc, noneRepeats_snoc, ← meets, before]
      rw [before] at bound
      by_cases blocked : Blocked ((Sampler.observeAll docs).root.lookup first) ((doc.get first).map freshSlot) keys
      · rw [join.blocked blocked]
        have repeats := (blocked_iff_repeats docs doc first keys).mp blocked
        by_cases counting : (valueAt doc (first :: keys ++ [key])).any test = true
        · rw [if_pos counting]
          refine ⟨by omega, fun equal => by omega, fun both => absurd repeats (both.2 counting)⟩
        · rw [if_neg counting]
          exact ⟨bound, fun equal => ⟨equal, fun here => absurd here counting⟩, fun both => both.1⟩
      · have differs : ¬Repeats docs doc (first :: keys) :=
          fun again => blocked ((blocked_iff_repeats docs doc first keys).mpr again)
        rw [join.added blocked, fresh]
        exact ⟨by omega, fun equal => ⟨by omega, fun _ => differs⟩, fun both => by rw [both.1]⟩

/-- The counters of a slot reached through documents are the true counts if and only if
no document that holds the key arrives when its own subdocument has the very shape
accumulated so far. -/
theorem nested_counters_iff (docs : List Document) (first : String) (keys : List String) (key : String)
    (fs : FieldShape) (reached : slotAt (Sampler.observeAll docs).root (first :: keys ++ [key]) = some fs) :
    (fs.present = docs.countP (fun doc => (valueAt doc (first :: keys ++ [key])).isSome) ∧
        fs.nulls = docs.countP (fun doc => (valueAt doc (first :: keys ++ [key])).any Bson.isNull)) ↔
      ∀ seen doc later, docs = seen ++ doc :: later →
        (valueAt doc (first :: keys ++ [key])).isSome = true → ¬Repeats seen doc (first :: keys) := by
  have nests : Nests ((Sampler.observeAll docs).root.lookup first) (keys ++ [key]) := nests_of_reached reached
  have present := (counted_run counts_present first keys key docs nests).2
  have nulls := (counted_run counts_nulls first keys key docs nests).2
  have holding : ∀ v : Option Bson, v.any (fun _ => true) = v.isSome := fun v => by cases v <;> rfl
  rw [reached] at present nulls
  simp only [trueCount, NoneRepeats, holding] at present nulls
  constructor
  · intro exact
    exact present.mp exact.1
  · intro none
    refine ⟨present.mpr none, nulls.mpr ?_⟩
    intro seen doc later split null
    apply none seen doc later split
    cases found : valueAt doc (first :: keys ++ [key]) with
    | none =>
        rw [found] at null
        cases null
    | some v => rfl

/-- Two parcels of one weight, and two of different contents. -/
def twins : List Document :=
  [⟨[("parcel", .document [("grams", .int32 1)])], rfl⟩, ⟨[("parcel", .document [("grams", .int32 1)])], rfl⟩]

def strangers : List Document :=
  [⟨[("parcel", .document [("grams", .int32 2)])], rfl⟩,
    ⟨[("parcel", .document [("grams", .null), ("label", .string "late")])], rfl⟩]

/-- The second twin is skipped. -/
theorem nested_counters_miss : ¬∀ (docs : List Document) (first : String) (keys : List String) (key : String)
    (fs : FieldShape),
    (∀ doc ∈ docs, ∀ v, valueAt doc (first :: keys) = some v → v.isNull = true ∨ ∃ fields, v = .document fields) →
    slotAt (Sampler.observeAll docs).root (first :: keys ++ [key]) = some fs →
    fs.present = docs.countP fun doc => (valueAt doc (first :: keys ++ [key])).isSome := by
  intro claimed
  have known : (slotAt (Sampler.observeAll twins).root ["parcel", "grams"]).map (·.present) = some 1 := by
    decide +kernel
  obtain ⟨fs, reached, once⟩ := Option.map_eq_some_iff.mp known
  have documents : ∀ doc ∈ twins, ∀ v, valueAt doc ["parcel"] = some v →
      v.isNull = true ∨ ∃ fields, v = .document fields := by
    intro doc member v found
    simp only [twins, List.mem_cons, List.not_mem_nil, or_false, or_self] at member
    subst member
    cases found
    exact .inr ⟨_, rfl⟩
  have twice := claimed twins "parcel" [] "grams" fs documents reached
  rw [once] at twice
  exact absurd twice (by decide)

theorem nested_counters_iff_strangers :
    ∃ fs, slotAt (Sampler.observeAll strangers).root ["parcel", "grams"] = some fs ∧
      fs.present = strangers.countP (fun doc => (valueAt doc ["parcel", "grams"]).isSome) ∧
      fs.nulls = strangers.countP (fun doc => (valueAt doc ["parcel", "grams"]).any Bson.isNull) := by
  obtain ⟨fs, reached⟩ := Option.isSome_iff_exists.mp
    (show (slotAt (Sampler.observeAll strangers).root ["parcel", "grams"]).isSome = true by decide +kernel)
  refine ⟨fs, reached, (nested_counters_iff strangers "parcel" [] "grams" fs reached).mpr ?_⟩
  intro seen doc later split _ repeats
  obtain ⟨slot, fields, found, stands, same⟩ := repeats
  have shape : (slotAt (Sampler.observeAll seen).root ["parcel"]).map (·.shape) =
      some (shapeOf (.document fields)) := by
    rw [found, Option.map_some, same]
  cases seen with
  | nil => cases found
  | cons head rest =>
      cases rest with
      | nil =>
          simp only [strangers, List.cons_append, List.nil_append, List.cons.injEq] at split
          obtain ⟨rfl, rfl, -⟩ := split
          cases stands
          revert shape
          decide +kernel
      | cons next rest =>
          have lengths := congrArg List.length split
          simp [strangers] at lengths

end Auger
