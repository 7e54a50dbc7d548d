import Auger.Uncounted

set_option autoImplicit false

/-! An inferred shape covers every value it has seen, and a covered value changes
nothing when it is seen again. -/

namespace Auger

open General

/-- `CoversShape s m t`: joining `t` to `s` under the flag `m` changes neither. -/
inductive CoversShape : Shape → Bool → Shape → Prop
  | unknown (s : Shape) (m : Bool) : CoversShape s m .unknown
  | same (s : Shape) (m : Bool) : CoversShape s m s
  | json (t : Shape) : CoversShape .json true t
  | widens {s t : Shape} (widens : Shape.Widens t s) (m : Bool) : CoversShape s m t
  | text : CoversShape .utf8 true .objectId
  | arrays {x y : Shape} {m : Bool} (inner : CoversShape x m y) : CoversShape (.array x) m (.array y)
  | absorbs {x t : Shape} {m : Bool} (plain : t.Plain) (inner : CoversShape x m t) : CoversShape (.array x) m t
  | documents {upper lower : List (String × FieldShape)} (m : Bool) (slot : String → FieldShape)
      (found : ∀ key fs, lower.lookup key = some fs → upper.lookup key = some (slot key))
      (shapes : ∀ key fs, lower.lookup key = some fs → CoversShape (slot key).shape (slot key).mixed fs.shape)
      (flags : ∀ key fs, lower.lookup key = some fs → fs.mixed = true → (slot key).mixed = true) :
      CoversShape (.document upper) m (.document lower)

theorem CoversShape.mono {s t : Shape} {m m' : Bool} (covers : CoversShape s m t) (later : m = true → m' = true) :
    CoversShape s m' t := by
  induction covers generalizing m' with
  | unknown s m => exact .unknown s m'
  | same s m => exact .same s m'
  | json t =>
      rw [later rfl]
      exact .json t
  | widens widens m => exact .widens widens m'
  | text =>
      rw [later rfl]
      exact .text
  | arrays inner ih => exact .arrays (ih later)
  | absorbs plain inner ih => exact .absorbs plain (ih later)
  | documents m slot found shapes flags ih => exact .documents m' slot found shapes flags

theorem Shape.Widens.trans {a b c : Shape} (first : Shape.Widens a b) (second : Shape.Widens b c) :
    Shape.Widens a c := by
  cases first <;> cases second <;> constructor

theorem CoversShape.plain {s t : Shape} {m : Bool} (covers : CoversShape s m t) (plain : s.Plain) :
    t = .unknown ∨ t.Plain := by
  cases covers with
  | unknown => exact .inl rfl
  | same => exact .inr plain
  | json => exact plain.elim
  | widens widens => cases widens <;> exact .inr trivial
  | text => exact .inr trivial
  | arrays => exact plain.elim
  | absorbs => exact plain.elim
  | documents => exact .inr trivial

theorem CoversShape.trans {s t u : Shape} {m : Bool} (first : CoversShape s m t)
    (second : CoversShape t m u) : CoversShape s m u := by
  induction first generalizing u with
  | unknown s m =>
      cases second with
      | unknown => exact .unknown s m
      | same => exact .unknown s m
      | widens widens => cases widens
  | same s m => exact second
  | json t => exact .json u
  | @widens s t widens m =>
      cases second with
      | unknown => exact .unknown s m
      | same => exact .widens widens m
      | json => cases widens
      | widens widens' => exact .widens (widens'.trans widens) m
      | text => cases widens
      | arrays => cases widens
      | absorbs => cases widens
      | documents => cases widens
  | text =>
      cases second with
      | unknown => exact .unknown .utf8 true
      | same => exact .text
      | widens widens => cases widens
  | @arrays x y m inner ih =>
      cases second with
      | unknown => exact .unknown _ m
      | same => exact .arrays inner
      | widens widens => cases widens
      | arrays inner' => exact .arrays (ih inner')
      | absorbs plain inner' => exact .absorbs plain (ih inner')
  | @absorbs x t m plain inner ih =>
      obtain rfl | plain' := second.plain plain
      · exact .unknown _ m
      · exact .absorbs plain' (ih second)
  | @documents upper lower m slot found shapes flags ih =>
      cases second with
      | unknown => exact .unknown _ m
      | same => exact .documents m slot found shapes flags
      | widens widens => cases widens
      | documents m slot' found' shapes' flags' =>
          refine .documents m slot ?_ ?_ ?_
          · intro key fs inside
            exact found key (slot' key) (found' key fs inside)
          · intro key fs inside
            have between := found' key fs inside
            exact ih key (slot' key) between ((shapes' key fs inside).mono (flags key (slot' key) between))
          · intro key fs inside raised
            exact flags key (slot' key) (found' key fs inside) (flags' key fs inside raised)

theorem CoversShape.ofSlots {upper lower : List (String × FieldShape)} (m : Bool)
    (each : ∀ key fs, lower.lookup key = some fs → ∃ above, upper.lookup key = some above ∧
      CoversShape above.shape above.mixed fs.shape ∧ (fs.mixed = true → above.mixed = true)) :
    CoversShape (.document upper) m (.document lower) := by
  have slots : ∀ key fs, lower.lookup key = some fs →
      upper.lookup key = some ((upper.lookup key).getD FieldShapeOf.empty) ∧
        CoversShape ((upper.lookup key).getD FieldShapeOf.empty).shape
          ((upper.lookup key).getD FieldShapeOf.empty).mixed fs.shape ∧
        (fs.mixed = true → ((upper.lookup key).getD FieldShapeOf.empty).mixed = true) := by
    intro key fs inside
    obtain ⟨above, found, covers, flags⟩ := each key fs inside
    rw [found, Option.getD_some]
    exact ⟨rfl, covers, flags⟩
  exact .documents m (fun key => (upper.lookup key).getD FieldShapeOf.empty)
    (fun key fs inside => (slots key fs inside).1) (fun key fs inside => (slots key fs inside).2.1)
    (fun key fs inside => (slots key fs inside).2.2)

theorem Unified.covers {a b c : Shape} {m m' : Bool} (joined : Unified a b m c m') :
    CoversShape c m' a ∧ CoversShape c m' b := by
  induction joined with
  | same a m => exact ⟨.same a m, .same a m⟩
  | bottomLeft b m => exact ⟨.unknown b m, .same b m⟩
  | bottomRight a m => exact ⟨.same a m, .unknown a m⟩
  | widenRight m widens => exact ⟨.widens widens m, .same _ m⟩
  | widenLeft m widens => exact ⟨.same _ m, .widens widens m⟩
  | textRight m => exact ⟨.text, .same _ true⟩
  | textLeft m => exact ⟨.same _ true, .text⟩
  | arrays inner ih => exact ⟨.arrays ih.1, .arrays ih.2⟩
  | absorbRight plain inner ih => exact ⟨.arrays ih.1, .absorbs plain ih.2⟩
  | absorbLeft plain inner ih => exact ⟨.absorbs plain ih.2, .arrays ih.1⟩
  | conflict m clash => exact ⟨.json _, .json _⟩
  | @documents left right out m joined each ordered entries ih =>
      constructor
      · apply CoversShape.ofSlots
        intro key lv foundLeft
        have merged := entries key
        rw [foundLeft] at merged
        cases foundRight : right.lookup key with
        | none =>
            rw [foundRight] at merged
            exact ⟨lv, merged, .same _ _, id⟩
        | some rv =>
            rw [foundRight] at merged
            refine ⟨joined key, merged, (ih key lv rv foundLeft foundRight).1, fun raised => ?_⟩
            apply (each key lv rv foundLeft foundRight).mixed_mono
            rw [raised, Bool.true_or]
      · apply CoversShape.ofSlots
        intro key rv foundRight
        have merged := entries key
        rw [foundRight] at merged
        cases foundLeft : left.lookup key with
        | none =>
            rw [foundLeft] at merged
            exact ⟨rv, merged, .same _ _, id⟩
        | some lv =>
            rw [foundLeft] at merged
            refine ⟨joined key, merged, (ih key lv rv foundLeft foundRight).2, fun raised => ?_⟩
            apply (each key lv rv foundLeft foundRight).mixed_mono
            rw [raised, Bool.or_true]

theorem unify_json (t : Shape) : unify .json t true = (.json, true) := by
  by_cases same : t = .json
  · rw [same, unify_self]
  · by_cases unknown : t = .unknown
    · rw [unknown, unify_unknown_right]
    · exact unify_json_left same unknown true

/-- Joining what is covered changes no type and no flag. -/
theorem CoversShape.unify_uncounted {s t : Shape} {m : Bool} (covers : CoversShape s m t) (first : s.WellOrdered)
    (second : t.WellOrdered) : (unify s t m).1.uncounted = s.uncounted ∧ (unify s t m).2 = m := by
  induction covers with
  | unknown s m =>
      rw [unify_unknown_right]
      exact ⟨rfl, rfl⟩
  | same s m =>
      rw [unify_self]
      exact ⟨rfl, rfl⟩
  | json t =>
      rw [unify_json]
      exact ⟨rfl, rfl⟩
  | widens widens m =>
      rw [(unify_widens widens m).2]
      exact ⟨rfl, rfl⟩
  | text =>
      rw [(unify_text true).2]
      exact ⟨rfl, rfl⟩
  | arrays inner ih =>
      obtain ⟨shapes, flags⟩ := ih first second
      rw [unify_arrays]
      exact ⟨congrArg Shape.array shapes, flags⟩
  | absorbs plain inner ih =>
      obtain ⟨shapes, flags⟩ := ih first second
      rw [(unify_absorb _ plain _).1]
      exact ⟨congrArg Shape.array shapes, flags⟩
  | @documents upper lower m slot found shapes flags ih =>
      by_cases same : upper = lower
      · rw [same, unify_self]
        exact ⟨rfl, rfl⟩
      · rw [unify_documents same]
        refine ⟨congrArg Shape.document ?_, rfl⟩
        apply uncountedFields_ext (SortedMap.mergeWith_ordered _ _ _ first.1) first.1
        intro key
        rw [SortedMap.lookup_mergeWith _ _ _ second.1]
        cases inside : lower.lookup key with
        | none => cases upper.lookup key <;> rfl
        | some fs =>
            have above := found key fs inside
            have raised : ((slot key).mixed || fs.mixed) = (slot key).mixed := by
              cases lowFlag : fs.mixed with
              | false => exact Bool.or_false _
              | true => rw [flags key fs inside lowFlag, Bool.true_or]
            obtain ⟨kept, keptFlag⟩ := ih key fs inside (first.child above) (second.child inside)
            rw [above, SortedMap.mergedValue, Option.map_some, Option.map_some, joinSlots, raised]
            simp only [FieldShapeOf.uncounted, kept, keptFlag]

theorem CoversShape.observed {slot : FieldShape} {value : Bson} (ordered : slot.shape.WellOrdered)
    (known : value.isNull = false) :
    CoversShape (observeValue slot value).shape (observeValue slot value).mixed (shapeOf value) := by
  have joined := unify_spec slot.shape (shapeOf value) slot.mixed ordered (shapeOf_wellOrdered value)
  rw [observeValue, observeShape, known, if_neg Bool.false_ne_true]
  exact joined.covers.2

theorem CoversShape.kept {slot : FieldShape} {t : Shape} (value : Bson) (ordered : slot.shape.WellOrdered)
    (covers : CoversShape slot.shape slot.mixed t) :
    CoversShape (observeValue slot value).shape (observeValue slot value).mixed t := by
  rw [observeValue, observeShape]
  split_ifs with null
  · exact covers
  · have joined := unify_spec slot.shape (shapeOf value) slot.mixed ordered (shapeOf_wellOrdered value)
    exact joined.covers.1.trans (covers.mono joined.mixed_mono)

theorem CoversShape.observeValue_uncounted {slot : FieldShape} {value : Bson} (ordered : slot.shape.WellOrdered)
    (covers : value.isNull = false → CoversShape slot.shape slot.mixed (shapeOf value)) :
    (observeValue slot value).uncounted = slot.uncounted := by
  rw [observeValue, observeShape]
  split_ifs with null
  · rfl
  · obtain ⟨shapes, flags⟩ :=
      (covers ((Bool.not_eq_true _).mp null)).unify_uncounted ordered (shapeOf_wellOrdered value)
    simp only [FieldShapeOf.uncounted, shapes, flags]

theorem observeAll_covers (docs : List Document) (key : String) :
    ∀ value ∈ valuesAt key docs, ∃ fs, (Sampler.observeAll docs).root.lookup key = some fs ∧
      (value.isNull = false → CoversShape fs.shape fs.mixed (shapeOf value)) := by
  intro value member
  have covers : ∀ v ∈ valuesAt key docs, v.isNull = false →
      CoversShape (((Sampler.observeAll docs).root.lookup key).getD FieldShapeOf.empty).shape
        (((Sampler.observeAll docs).root.lookup key).getD FieldShapeOf.empty).mixed (shapeOf v) := by
    apply observeAll_rule
      (motive := fun seen slot => ∀ v ∈ seen, v.isNull = false → CoversShape slot.shape slot.mixed (shapeOf v))
    · intro v inside
      cases inside
    · intro seen slot v _ ordered earlier w inside known
      obtain before | now := List.mem_append.mp inside
      · exact (earlier w before known).kept v ordered
      · rw [List.mem_singleton.mp now] at known ⊢
        exact CoversShape.observed ordered known
  cases found : (Sampler.observeAll docs).root.lookup key with
  | none =>
      rw [lookup_observeAll_none.mp found] at member
      cases member
  | some fs =>
      rw [found, Option.getD_some] at covers
      exact ⟨fs, rfl, covers value member⟩

/-- Seeing a document again changes no type, no tag and no flag at any nesting level. -/
theorem observe_again {docs : List Document} {doc : Document} (seen : doc ∈ docs) (maxDepth : Nat) :
    schemaWithoutFreq ((Sampler.observeAll (docs ++ [doc])).finish maxDepth) =
      schemaWithoutFreq ((Sampler.observeAll docs).finish maxDepth) := by
  apply finish_withoutFreq
  apply uncountedFields_ext (observeAll_ordered _) (observeAll_ordered docs)
  intro key
  rw [observeAll_snoc, lookup_observe]
  cases got : doc.get key with
  | none => rfl
  | some value =>
      have member : value ∈ valuesAt key docs := List.mem_filterMap.mpr ⟨doc, seen, got⟩
      obtain ⟨fs, found, covers⟩ := observeAll_covers docs key value member
      rw [found, observedSlot, Option.getD_some, Option.map_some, Option.map_some,
        CoversShape.observeValue_uncounted (observeAll_wellOrdered found) covers]

def taggedOrder : Document := ⟨[("owner", .objectId ⟨7⟩), ("tags", .array [.string "new"])], rfl⟩

def bareOrder : Document := ⟨[("owner", .string "depot"), ("tags", .int32 3)], rfl⟩

theorem observe_again_taggedOrder :
    schemaWithoutFreq ((Sampler.observeAll ([taggedOrder, bareOrder] ++ [taggedOrder])).finish 2) =
      schemaWithoutFreq ((Sampler.observeAll [taggedOrder, bareOrder]).finish 2) :=
  observe_again List.mem_cons_self 2

end Auger
