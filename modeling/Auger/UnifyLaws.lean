import Auger.SamplerFacts

set_option autoImplicit false

/-! The laws of `unify`: one equation for each way two shapes meet, and commutativity. -/

namespace Auger

open General

/-- A shape whose maps are maps. -/
abbrev MapShape := {shape : Shape // shape.WellOrdered}

theorem unify_self (a : Shape) (m : Bool) : unify a a m = (a, m) := by
  rw [unify_eq]
  unfold unifyStep
  rw [if_pos rfl]

@[simp] theorem unify_unknown_right (a : Shape) (m : Bool) : unify a .unknown m = (a, m) := by
  rw [unify_eq]
  unfold unifyStep
  split_ifs with same
  · rfl
  · cases a <;> rfl

theorem unify_widens {a b : Shape} (widens : Shape.Widens a b) (m : Bool) :
    unify a b m = (b, m) ∧ unify b a m = (b, m) := by
  rw [unify_eq, unify_eq]
  cases widens <;> exact ⟨rfl, rfl⟩

theorem unify_text (m : Bool) :
    unify .objectId .utf8 m = (.utf8, true) ∧ unify .utf8 .objectId m = (.utf8, true) := by
  rw [unify_eq, unify_eq]
  exact ⟨rfl, rfl⟩

theorem unify_arrays (x y : Shape) (m : Bool) :
    unify (.array x) (.array y) m = (.array (unify x y m).1, (unify x y m).2) := by
  by_cases same : x = y
  · rw [same, unify_self, unify_self]
  · have differ : Shape.array x ≠ .array y := fun equal => same (Shape.array.inj equal)
    rw [unify_eq]
    unfold unifyStep
    rw [if_neg differ]

theorem unify_absorb (x : Shape) {b : Shape} (plain : b.Plain) (m : Bool) :
    unify (.array x) b m = (.array (unify x b m).1, (unify x b m).2) ∧
      unify b (.array x) m = (.array (unify x b m).1, (unify x b m).2) := by
  have differ : Shape.array x ≠ b := by
    rintro rfl
    exact plain
  rw [unify_eq (.array x), unify_eq b]
  unfold unifyStep
  rw [if_neg differ, if_neg differ.symm]
  cases b <;> first | exact ⟨rfl, rfl⟩ | exact plain.elim

theorem unify_documents {left right : List (String × FieldShape)} (differ : left ≠ right) (m : Bool) :
    unify (.document left) (.document right) m =
      (.document (SortedMap.mergeWith (joinSlots unify) left right), m) := by
  have apart : Shape.document left ≠ .document right := fun equal => differ (Shape.document.inj equal)
  rw [unify_eq]
  unfold unifyStep
  rw [if_neg apart]

theorem Shape.Conflict.symm {a b : Shape} (clash : Shape.Conflict a b) : Shape.Conflict b a where
  differ := clash.differ.symm
  left_known := clash.right_known
  right_known := clash.left_known
  json_or_plain := by
    have known := clash.json_or_plain
    tauto
  not_widens := clash.not_widens.symm
  not_text := ⟨fun both => clash.not_text.2 both.symm, fun both => clash.not_text.1 both.symm⟩
  not_documents := fun left right both => clash.not_documents right left both.symm

theorem unify_conflict {a b : Shape} (clash : Shape.Conflict a b) (m : Bool) : unify a b m = (.json, true) := by
  rw [unify_eq]
  unfold unifyStep
  rw [if_neg clash.differ]
  have widens := clash.not_widens
  have text := clash.not_text
  have json := clash.json_or_plain
  split
  · exact absurd rfl clash.left_known
  · exact absurd rfl clash.right_known
  · rfl
  · rfl
  · exact absurd .int32_int64 widens.1
  · exact absurd .int32_int64 widens.2
  · exact absurd .int32_double widens.1
  · exact absurd .int32_double widens.2
  · exact absurd .int64_double widens.1
  · exact absurd .int64_double widens.2
  · exact absurd .int32_decimal widens.2
  · exact absurd .int64_decimal widens.2
  · exact absurd .double_decimal widens.2
  · exact absurd .int32_decimal widens.1
  · exact absurd .int64_decimal widens.1
  · exact absurd .double_decimal widens.1
  · exact absurd ⟨rfl, rfl⟩ text.1
  · exact absurd ⟨rfl, rfl⟩ text.2
  · exact absurd .timestamp_dateTime widens.2
  · exact absurd .timestamp_dateTime widens.1
  · simp [Shape.Plain] at json
  · rename_i notJson _
    simp [Shape.Plain] at json
    exact absurd json notJson
  · rename_i notJson _
    simp [Shape.Plain] at json
    exact absurd json notJson
  · exact absurd ⟨rfl, rfl⟩ (clash.not_documents _ _)
  · rfl

theorem unify_json_left {b : Shape} (other : b ≠ .json) (known : b ≠ .unknown) (m : Bool) :
    unify .json b m = (.json, true) :=
  unify_conflict (.ofJson other.symm (by simp) known (.inl rfl)) m

theorem joinSlots_comm {recur : Shape → Shape → Bool → Shape × Bool} {lv rv : FieldShape}
    (swap : recur lv.shape rv.shape (lv.mixed || rv.mixed) = recur rv.shape lv.shape (lv.mixed || rv.mixed)) :
    joinSlots recur lv rv = joinSlots recur rv lv := by
  unfold joinSlots
  rw [swap, Bool.or_comm lv.mixed, Nat.add_comm lv.present, Nat.add_comm lv.nulls]

theorem mergeWith_comm {combine : FieldShape → FieldShape → FieldShape} {left right : List (String × FieldShape)}
    (first : SortedMap.Ordered left) (second : SortedMap.Ordered right)
    (swap : ∀ key lv rv, left.lookup key = some lv → right.lookup key = some rv → combine lv rv = combine rv lv) :
    SortedMap.mergeWith combine left right = SortedMap.mergeWith combine right left := by
  apply SortedMap.ext (SortedMap.mergeWith_ordered _ _ _ first) (SortedMap.mergeWith_ordered _ _ _ second)
  intro key
  rw [SortedMap.lookup_mergeWith _ _ _ second, SortedMap.lookup_mergeWith _ _ _ first]
  cases foundLeft : left.lookup key with
  | none => cases right.lookup key <;> rfl
  | some lv =>
      cases foundRight : right.lookup key with
      | none => rfl
      | some rv => exact congrArg some (swap key lv rv foundLeft foundRight)

theorem Unified.comm {a b c : Shape} {m m' : Bool} (joined : Unified a b m c m') (first : a.WellOrdered)
    (second : b.WellOrdered) : unify a b m = unify b a m := by
  induction joined with
  | same => rfl
  | bottomLeft b m => rw [unify_unknown_left, unify_unknown_right]
  | bottomRight a m => rw [unify_unknown_left, unify_unknown_right]
  | widenRight m widens => rw [(unify_widens widens m).1, (unify_widens widens m).2]
  | widenLeft m widens => rw [(unify_widens widens m).1, (unify_widens widens m).2]
  | textRight m => rw [(unify_text m).1, (unify_text m).2]
  | textLeft m => rw [(unify_text m).1, (unify_text m).2]
  | arrays inner ih => rw [unify_arrays, unify_arrays, ih first second]
  | absorbRight plain inner ih => rw [(unify_absorb _ plain _).1, (unify_absorb _ plain _).2]
  | absorbLeft plain inner ih => rw [(unify_absorb _ plain _).1, (unify_absorb _ plain _).2]
  | @documents left right out m joined each ordered entries ih =>
      by_cases same : left = right
      · rw [same]
      · rw [unify_documents same, unify_documents (Ne.symm same)]
        congr 2
        apply mergeWith_comm first.1 second.1
        intro key lv rv foundLeft foundRight
        apply joinSlots_comm
        exact ih key lv rv foundLeft foundRight (first.child foundLeft) (second.child foundRight)
  | conflict m clash => rw [unify_conflict clash, unify_conflict clash.symm]

/-- `unify` is commutative, in the shape it returns and in the flag it leaves. -/
theorem unify_comm (a b : MapShape) (m : Bool) : unify a.val b.val m = unify b.val a.val m :=
  (unify_spec a.val b.val m a.property b.property).comm a.property b.property

end Auger
