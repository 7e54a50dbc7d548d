import Auger.Kinds
import Auger.Uncounted

set_option autoImplicit false

/-! The values seen in one place, joined in the order they came, and when that order shows
in no type, tag or flag. -/

namespace Auger

open General

/-- The slot under a key, below any arrays. -/
def Shape.childSlot (key : String) : Shape → Option FieldShape
  | .array inner => inner.childSlot key
  | .document fields => fields.lookup key
  | _ => none

theorem Shape.childSlot_wellOrdered {key : String} {s : Shape} {fs : FieldShape} (ordered : s.WellOrdered)
    (found : s.childSlot key = some fs) : fs.shape.WellOrdered := by
  cases s with
  | array inner => exact Shape.childSlot_wellOrdered (s := inner) ordered found
  | document fields => exact WellOrdered.child ordered found
  | _ => cases found

theorem Shape.childSlot_none {s : Shape} (kind : s.kind ≠ .document) (key : String) : s.childSlot key = none := by
  cases s with
  | array inner => exact Shape.childSlot_none (s := inner) kind key
  | document fields => exact absurd rfl kind
  | _ => rfl

/-- What the values seen in one place have come to: a shape and its flag. -/
@[ext]
structure Seen where
  shape : Shape
  mixed : Bool
  ordered : shape.WellOrdered

namespace Seen

def unseen : Seen := ⟨.unknown, false, trivial⟩

def join (a b : Seen) : Seen where
  shape := (unify a.shape b.shape (a.mixed || b.mixed)).1
  mixed := (unify a.shape b.shape (a.mixed || b.mixed)).2
  ordered := (unify_spec a.shape b.shape _ a.ordered b.ordered).wellOrdered a.ordered b.ordered

def joinAll (units : List Seen) : Seen := units.foldl join unseen

def level (seen : Seen) : Level Kind := seen.shape.level

def child (key : String) (seen : Seen) : Option Seen :=
  match found : seen.shape.childSlot key with
  | some fs => some ⟨fs.shape, fs.mixed, Shape.childSlot_wellOrdered seen.ordered found⟩
  | none => none

theorem joinAll_snoc (units : List Seen) (u : Seen) : joinAll (units ++ [u]) = (joinAll units).join u :=
  List.foldl_append

theorem join_level (a b : Seen) : (a.join b).level = a.level.join b.level :=
  (unify_spec a.shape b.shape _ a.ordered b.ordered).level.1

theorem join_mixed (a b : Seen) :
    (a.join b).mixed = false ↔
      a.mixed = false ∧ b.mixed = false ∧ a.level.JoinsSilently Kind.Silent b.level := by
  have raised := (unify_spec a.shape b.shape (a.mixed || b.mixed) a.ordered b.ordered).level.2
  change (a.join b).mixed = true ↔ _ at raised
  rw [← Bool.not_eq_true, raised, not_or, not_not, Bool.not_eq_true, Bool.or_eq_false_iff, and_assoc]
  rfl

theorem joinAll_level (units : List Seen) : (joinAll units).level = Level.joinAll (units.map level) := by
  induction units using List.reverseRecOn with
  | nil => rfl
  | append_singleton units u ih =>
      rw [joinAll_snoc, join_level, ih, List.map_append, List.map_singleton, Level.joinAll_snoc]

theorem silent_joinAll {units : List Seen} (quiet : (joinAll units).mixed = false) :
    ∀ u ∈ units, u.mixed = false ∧ u.level.Silent Kind.Silent (joinAll units).level := by
  induction units using List.reverseRecOn with
  | nil =>
      intro u member
      cases member
  | append_singleton units v ih =>
      intro u member
      rw [joinAll_snoc, join_mixed] at quiet
      obtain ⟨before, flag, rise, rise'⟩ := quiet
      rw [joinAll_snoc, join_level]
      obtain earlier | last := List.mem_append.mp member
      · obtain ⟨flag', silent⟩ := ih before u earlier
        exact ⟨flag', silent.trans Kind.silentKinds rise⟩
      · rw [List.mem_singleton.mp last]
        exact ⟨flag, rise'⟩

theorem joinAll_silent {units : List Seen} {z : Level Kind}
    (silent : ∀ u ∈ units, u.mixed = false ∧ u.level.Silent Kind.Silent z) :
    (joinAll units).mixed = false ∧ (joinAll units).level.Silent Kind.Silent z := by
  induction units using List.reverseRecOn with
  | nil => exact ⟨rfl, Level.Silent.bottom Kind.silentKinds z⟩
  | append_singleton units u ih =>
      obtain ⟨flag, below⟩ := ih fun v member => silent v (List.mem_append_left _ member)
      obtain ⟨flag', below'⟩ := silent u (List.mem_append_right _ List.mem_cons_self)
      obtain ⟨rise, rise', above⟩ := below.join Kind.silentKinds below'
      rw [joinAll_snoc, join_mixed, join_level]
      exact ⟨⟨flag, flag', rise, rise'⟩, above⟩

/-- The flag stays down exactly when all values rise to one level without a trace. -/
theorem joinAll_mixed (units : List Seen) :
    (joinAll units).mixed = false ↔ ∃ z, ∀ u ∈ units, u.mixed = false ∧ u.level.Silent Kind.Silent z :=
  ⟨fun quiet => ⟨_, silent_joinAll quiet⟩, fun ⟨_, silent⟩ => (joinAll_silent silent).1⟩

theorem joinAll_mixed_perm {units units' : List Seen} (perm : units'.Perm units) :
    (joinAll units').mixed = (joinAll units).mixed := by
  rw [Bool.eq_iff_iff, ← not_iff_not, Bool.not_eq_true, Bool.not_eq_true, joinAll_mixed, joinAll_mixed]
  simp only [perm.mem_iff]

def view (seen : Seen) : Shape × Bool := (seen.shape, seen.mixed)

theorem view_injective : Function.Injective view := by
  intro a b same
  exact Seen.ext (congrArg Prod.fst same) (congrArg Prod.snd same)

end Seen

def FieldShapeOf.view (fs : FieldShape) : Shape × Bool := (fs.shape, fs.mixed)

def joinViews (a b : Shape × Bool) : Shape × Bool := unify a.1 b.1 (a.2 || b.2)

theorem childViews_comm {left right : Option FieldShape} (first : ∀ fs, left = some fs → fs.shape.WellOrdered)
    (second : ∀ fs, right = some fs → fs.shape.WellOrdered) :
    SortedMap.mergedValue joinViews (left.map FieldShapeOf.view) (right.map FieldShapeOf.view) =
      SortedMap.mergedValue joinViews (right.map FieldShapeOf.view) (left.map FieldShapeOf.view) := by
  cases left with
  | none => cases right <;> rfl
  | some lv =>
      cases right with
      | none => rfl
      | some rv =>
          have swap := unify_comm ⟨lv.shape, first lv rfl⟩ ⟨rv.shape, second rv rfl⟩ (lv.mixed || rv.mixed)
          simp only [Option.map_some, SortedMap.mergedValue, joinViews, FieldShapeOf.view, swap,
            Bool.or_comm rv.mixed]

theorem childViews_self (slot : Option FieldShape) :
    slot.map FieldShapeOf.view =
      SortedMap.mergedValue joinViews (slot.map FieldShapeOf.view) (slot.map FieldShapeOf.view) := by
  cases slot with
  | none => rfl
  | some fs =>
      simp only [Option.map_some, SortedMap.mergedValue, joinViews, FieldShapeOf.view, Bool.or_self, unify_self]

open Shape in
theorem Unified.childViews {a b c : Shape} {m m' : Bool} (joined : Unified a b m c m') (first : a.WellOrdered)
    (second : b.WellOrdered) (known : c.kind ≠ .json) (key : String) :
    ((unify a b m).1.childSlot key).map FieldShapeOf.view =
      SortedMap.mergedValue joinViews ((a.childSlot key).map FieldShapeOf.view)
        ((b.childSlot key).map FieldShapeOf.view) := by
  induction joined with
  | same a m =>
      rw [unify_self]
      exact childViews_self _
  | bottomLeft b m =>
      rw [unify_unknown_left]
      rfl
  | bottomRight a m =>
      rw [unify_unknown_right]
      cases a.childSlot key <;> rfl
  | widenRight m widens =>
      rw [(unify_widens widens m).1]
      cases widens <;> rfl
  | widenLeft m widens =>
      rw [(unify_widens widens m).2]
      cases widens <;> rfl
  | textRight m =>
      rw [(unify_text m).1]
      rfl
  | textLeft m =>
      rw [(unify_text m).2]
      rfl
  | arrays inner ih =>
      rw [unify_arrays]
      exact ih first second known
  | absorbRight plain inner ih =>
      rw [(unify_absorb _ plain _).1]
      exact ih first second known
  | absorbLeft plain inner ih =>
      rw [(unify_absorb _ plain _).2, childViews_comm]
      · exact ih second first known
      · exact fun fs => childSlot_wellOrdered first
      · exact fun fs => childSlot_wellOrdered second
  | @documents left right out m joined each ordered entries ih =>
      by_cases same : left = right
      · rw [same, unify_self]
        exact childViews_self _
      · rw [unify_documents same]
        change ((SortedMap.mergeWith (joinSlots unify) left right).lookup key).map FieldShapeOf.view = _
        rw [SortedMap.lookup_mergeWith _ _ _ second.1, Shape.childSlot, Shape.childSlot]
        cases left.lookup key <;> cases right.lookup key <;> rfl
  | conflict m clash => exact absurd rfl known

namespace Seen

theorem child_view (key : String) (seen : Seen) :
    (seen.child key).map view = (seen.shape.childSlot key).map FieldShapeOf.view := by
  unfold child
  split
  · rename_i found
    exact (congrArg (Option.map FieldShapeOf.view) found).symm
  · rename_i found
    exact (congrArg (Option.map FieldShapeOf.view) found).symm

theorem child_join {a b : Seen} (known : (a.join b).level.kind ≠ ⊤) (key : String) :
    (a.join b).child key = SortedMap.mergedValue join (a.child key) (b.child key) := by
  apply Option.map_injective view_injective
  have joined := unify_spec a.shape b.shape (a.mixed || b.mixed) a.ordered b.ordered
  rw [child_view]
  refine (joined.childViews a.ordered b.ordered known key).trans ?_
  rw [← child_view, ← child_view]
  cases a.child key <;> cases b.child key <;> rfl

/-- The join of the values there are, if any. -/
def joinSome (units : List Seen) : Option Seen := if units = [] then none else some (joinAll units)

theorem unseen_join (u : Seen) : unseen.join u = u := by
  apply Seen.ext
  · exact congrArg Prod.fst (unify_unknown_left u.shape (false || u.mixed))
  · exact congrArg Prod.snd (unify_unknown_left u.shape (false || u.mixed))

theorem joinSome_snoc (units : List Seen) (u : Seen) :
    joinSome (units ++ [u]) = SortedMap.mergedValue join (joinSome units) (some u) := by
  have some_of : joinSome (units ++ [u]) = some (joinAll (units ++ [u])) :=
    if_neg (List.append_ne_nil_of_right_ne_nil _ (List.cons_ne_nil u []))
  rw [some_of, joinAll_snoc, joinSome]
  split_ifs with empty
  · rw [empty]
    exact congrArg some (unseen_join u)
  · rfl

def children (key : String) (units : List Seen) : List Seen := units.filterMap (child key)

theorem child_joinAll {units : List Seen} (known : Level.totalKind (units.map level) ≠ ⊤) (key : String) :
    (joinAll units).child key = joinSome (children key units) := by
  induction units using List.reverseRecOn with
  | nil => rfl
  | append_singleton units u ih =>
      have whole : ((joinAll units).join u).level.kind ≠ ⊤ := by
        rw [← joinAll_snoc, joinAll_level, Level.joinAll_kind]
        exact known
      have before : Level.totalKind (units.map level) ≠ ⊤ := by
        intro top
        apply known
        rw [List.map_append, List.map_singleton, Level.totalKind_snoc, top, top_sup_eq]
      rw [joinAll_snoc, child_join whole, ih before, children, children, List.filterMap_append]
      cases below : u.child key with
      | none =>
          rw [List.filterMap_cons_none below, List.filterMap_nil, List.append_nil]
          cases joinSome (List.filterMap (child key) units) <;> rfl
      | some v =>
          rw [List.filterMap_cons_some below, List.filterMap_nil, joinSome_snoc]

end Seen

/-- In one place all values meet at one level and, unless that is the top, so do the values
in each place below. -/
inductive OrderFree : List Seen → Prop
  | none : OrderFree []
  | some {units : List Seen} (level : Level.OneLevel (units.map Seen.level))
      (children : Level.totalKind (units.map Seen.level) ≠ ⊤ → ∀ key, OrderFree (Seen.children key units)) :
      OrderFree units

theorem Shape.uncounted_eq {a b : Shape} (first : a.WellOrdered) (second : b.WellOrdered)
    (level : a.level = b.level)
    (slots : ∀ key, (a.childSlot key).map FieldShapeOf.uncounted = (b.childSlot key).map FieldShapeOf.uncounted) :
    a.uncounted = b.uncounted := by
  cases a with
  | array x =>
      cases b with
      | array y =>
          exact congrArg Shape.array (uncounted_eq (a := x) (b := y) first second (level_array_inj level) slots)
      | _ => cases level
  | document fields =>
      cases b with
      | document fields' => exact congrArg Shape.document (uncountedFields_ext first.1 second.1 slots)
      | _ => cases level
  | _ => cases b <;> first | rfl | cases level

/-- What the values come to but for all counters. -/
def Seen.uncounted (seen : Seen) : FieldShape := ⟨seen.shape.uncounted, 0, 0, seen.mixed⟩

theorem uncounted_of_view {slot : Option FieldShape} {seen : Option Seen}
    (same : slot.map FieldShapeOf.view = seen.map Seen.view) :
    slot.map FieldShapeOf.uncounted = seen.map Seen.uncounted := by
  have bare := congrArg (Option.map fun v : Shape × Bool => (⟨v.1.uncounted, 0, 0, v.2⟩ : FieldShape)) same
  rw [Option.map_map, Option.map_map] at bare
  exact bare

theorem childSlot_uncounted {units : List Seen} (known : Level.totalKind (units.map Seen.level) ≠ ⊤) (key : String) :
    ((Seen.joinAll units).shape.childSlot key).map FieldShapeOf.uncounted =
      (Seen.joinSome (Seen.children key units)).map Seen.uncounted := by
  apply uncounted_of_view
  rw [← Seen.child_view, Seen.child_joinAll known]

theorem childSlot_top {units : List Seen} (top : Level.totalKind (units.map Seen.level) = ⊤) (key : String) :
    (Seen.joinAll units).shape.childSlot key = none := by
  apply Shape.childSlot_none
  have kind := (Level.joinAll_kind (units.map Seen.level)).trans top
  rw [← Seen.joinAll_level] at kind
  exact fun document => absurd (document.symm.trans kind) nofun

theorem Seen.joinSome_perm {units units' : List Seen} (perm : units'.Perm units)
    (same : (joinAll units').uncounted = (joinAll units).uncounted) :
    (joinSome units').map uncounted = (joinSome units).map uncounted := by
  rw [joinSome, joinSome]
  by_cases empty : units = []
  · have empty' : units' = [] := by
      rw [empty] at perm
      exact perm.eq_nil
    rw [if_pos empty, if_pos empty']
  · have filled : units' ≠ [] := by
      intro empty'
      rw [empty'] at perm
      exact empty perm.symm.eq_nil
    rw [if_neg empty, if_neg filled, Option.map_some, Option.map_some, same]

/-- Order-free values come to the same in every order. -/
theorem OrderFree.joinAll_perm {units : List Seen} (free : OrderFree units) {units' : List Seen}
    (perm : units'.Perm units) : (Seen.joinAll units').uncounted = (Seen.joinAll units).uncounted := by
  induction free generalizing units' with
  | none => rw [perm.eq_nil]
  | @some units one _ ih =>
      have levels : (Seen.joinAll units').level = (Seen.joinAll units).level := by
        rw [Seen.joinAll_level, Seen.joinAll_level]
        exact Level.joinAll_perm (perm.map Seen.level) one
      have total := Level.totalKind_perm (perm.map Seen.level)
      have shapes : (Seen.joinAll units').shape.uncounted = (Seen.joinAll units).shape.uncounted := by
        apply Shape.uncounted_eq (Seen.ordered _) (Seen.ordered _) levels
        intro key
        by_cases top : Level.totalKind (units.map Seen.level) = ⊤
        · rw [childSlot_top top, childSlot_top (total.trans top)]
        · rw [childSlot_uncounted top, childSlot_uncounted (total ▸ top)]
          have inner : (Seen.children key units').Perm (Seen.children key units) := perm.filterMap _
          exact Seen.joinSome_perm inner (ih top key inner)
      rw [Seen.uncounted, Seen.uncounted, shapes, Seen.joinAll_mixed_perm perm]

end Auger
