import Auger.Infer

set_option autoImplicit false

/-! What `unify` can do, said once: its equation without fuel, and the
derivation relation every invariant of inference is an induction over. -/

namespace Auger

open General

namespace Shape

theorem size_pos (s : Shape) : 0 < s.size := by
  cases s <;> simp [size]

theorem size_le_of_mem {fields : List (String × FieldShape)} {entry : String × FieldShape}
    (member : entry ∈ fields) : entry.2.shape.size ≤ sizeFields fields := by
  induction fields with
  | nil => cases member
  | cons head rest ih =>
      simp only [sizeFields]
      rcases List.mem_cons.mp member with rfl | later
      · exact Nat.le_add_right _ _
      · exact (ih later).trans (Nat.le_add_left _ _)

theorem size_le_of_lookup {fields : List (String × FieldShape)} {key : String} {fs : FieldShape}
    (found : fields.lookup key = some fs) : fs.shape.size ≤ sizeFields fields :=
  size_le_of_mem (SortedMap.mem_of_lookup found)

end Shape

theorem unifyStep_congr (f g : Shape → Shape → Bool → Shape × Bool) (a b : Shape) (mixed : Bool)
    (agree : ∀ x y m, x.size + y.size < a.size + b.size → f x y m = g x y m) :
    unifyStep f a b mixed = unifyStep g a b mixed := by
  unfold unifyStep
  split_ifs with same
  · rfl
  · split <;> try rfl
    · rename_i x y
      rw [agree x y mixed (by simp only [Shape.size]; omega)]
    · rename_i _ inner _ _ _
      rw [agree inner b mixed (by simp only [Shape.size]; omega)]
    · rename_i _ inner _ _ _
      rw [agree inner a mixed (by simp only [Shape.size]; omega)]
    · rename_i left right
      rw [SortedMap.mergeWith_congr]
      intro key lv rv found member
      have first := Shape.size_le_of_lookup found
      have second := Shape.size_le_of_mem member
      simp only [joinSlots, agree lv.shape rv.shape _ (by simp only [Shape.size] at *; omega)]

theorem unifyFuel_stable (n m : Nat) (a b : Shape) (mixed : Bool)
    (first : a.size + b.size ≤ n) (second : a.size + b.size ≤ m) :
    unifyFuel n a b mixed = unifyFuel m a b mixed := by
  induction n generalizing m a b mixed with
  | zero => have := a.size_pos; omega
  | succ n ih =>
      cases m with
      | zero => have := a.size_pos; omega
      | succ m =>
          simp only [unifyFuel]
          apply unifyStep_congr
          intro x y flag smaller
          exact ih m x y flag (by omega) (by omega)

/-- `unify` satisfies the source's equation: the fuel never runs out. -/
theorem unify_eq (a b : Shape) (mixed : Bool) : unify a b mixed = unifyStep unify a b mixed := by
  have large : 0 < a.size + b.size := by have := a.size_pos; omega
  obtain ⟨n, hn⟩ : ∃ n, a.size + b.size = n + 1 := ⟨a.size + b.size - 1, by omega⟩
  unfold unify
  rw [hn]
  simp only [unifyFuel]
  apply unifyStep_congr
  intro x y flag smaller
  exact unifyFuel_stable n (x.size + y.size) x y flag (by omega) le_rfl

namespace Shape

mutual
/-- Every map inside the shape is ordered by key. -/
def WellOrdered : Shape → Prop
  | .document fields => SortedMap.Ordered fields ∧ fieldsWellOrdered fields
  | .array inner => inner.WellOrdered
  | _ => True
def fieldsWellOrdered : List (String × FieldShapeOf Shape) → Prop
  | [] => True
  | (_, fs) :: rest => fs.shape.WellOrdered ∧ fieldsWellOrdered rest
end

theorem fieldsWellOrdered_iff (fields : List (String × FieldShape)) :
    fieldsWellOrdered fields ↔ ∀ entry ∈ fields, entry.2.shape.WellOrdered := by
  induction fields with
  | nil => simp [fieldsWellOrdered]
  | cons entry rest ih => simp only [fieldsWellOrdered, ih, List.forall_mem_cons]

theorem WellOrdered.child {fields : List (String × FieldShape)} {key : String} {fs : FieldShape}
    (ordered : WellOrdered (.document fields)) (found : fields.lookup key = some fs) :
    fs.shape.WellOrdered :=
  (fieldsWellOrdered_iff fields).mp ordered.2 _ (SortedMap.mem_of_lookup found)

/-- A shape that loses nothing by being widened to another. -/
inductive Widens : Shape → Shape → Prop
  | int32_int64 : Widens .int32 .int64
  | int32_double : Widens .int32 .double
  | int64_double : Widens .int64 .double
  | int32_decimal : Widens .int32 .decimal
  | int64_decimal : Widens .int64 .decimal
  | double_decimal : Widens .double .decimal
  | timestamp_dateTime : Widens .bsonTimestamp .dateTime

/-- Neither bottom, top nor an array: the operands an array absorbs. -/
def Plain : Shape → Prop
  | .unknown | .json | .array _ => False
  | _ => True

theorem plain_of_not {s : Shape} (unknown : s = .unknown → False) (json : s = .json → False)
    (array : ∀ inner, s = .array inner → False) : s.Plain := by
  cases s <;> simp_all [Plain]

/-- Two shapes whose join is the top, with the flag raised. -/
structure Conflict (a b : Shape) : Prop where
  differ : a ≠ b
  left_known : a ≠ .unknown
  right_known : b ≠ .unknown
  json_or_plain : a = .json ∨ b = .json ∨ (a.Plain ∧ b.Plain)
  not_widens : ¬ Widens a b ∧ ¬ Widens b a
  not_text : ¬ (a = .objectId ∧ b = .utf8) ∧ ¬ (a = .utf8 ∧ b = .objectId)
  not_documents : ∀ left right, ¬ (a = .document left ∧ b = .document right)

theorem Conflict.ofJson {a b : Shape} (differ : a ≠ b) (left_known : a ≠ .unknown)
    (right_known : b ≠ .unknown) (json : a = .json ∨ b = .json) : Conflict a b where
  differ := differ
  left_known := left_known
  right_known := right_known
  json_or_plain := json.imp_right Or.inl
  not_widens := by
    constructor <;> intro widens <;> cases widens <;> simp at json
  not_text := by
    constructor <;> rintro ⟨rfl, rfl⟩ <;> simp at json
  not_documents := by
    rintro left right ⟨rfl, rfl⟩
    simp at json

end Shape

open Shape in
/-- `Unified a b m c m'`: joining `a` and `b` under the flag `m` gives `c` and
leaves the flag at `m'`. -/
inductive Unified : Shape → Shape → Bool → Shape → Bool → Prop
  | same (a : Shape) (m : Bool) : Unified a a m a m
  | bottomLeft (b : Shape) (m : Bool) : Unified .unknown b m b m
  | bottomRight (a : Shape) (m : Bool) : Unified a .unknown m a m
  | widenRight {a b : Shape} (m : Bool) (widens : Widens a b) : Unified a b m b m
  | widenLeft {a b : Shape} (m : Bool) (widens : Widens b a) : Unified a b m a m
  | textRight (m : Bool) : Unified .objectId .utf8 m .utf8 true
  | textLeft (m : Bool) : Unified .utf8 .objectId m .utf8 true
  | arrays {x y j : Shape} {m m' : Bool} (inner : Unified x y m j m') :
      Unified (.array x) (.array y) m (.array j) m'
  | absorbRight {x b j : Shape} {m m' : Bool} (plain : b.Plain) (inner : Unified x b m j m') :
      Unified (.array x) b m (.array j) m'
  | absorbLeft {a x j : Shape} {m m' : Bool} (plain : a.Plain) (inner : Unified x a m j m') :
      Unified a (.array x) m (.array j) m'
  | documents {left right out : List (String × FieldShape)} (m : Bool)
      (joined : String → FieldShape)
      (each : ∀ key lv rv, left.lookup key = some lv → right.lookup key = some rv →
        Unified lv.shape rv.shape (lv.mixed || rv.mixed) (joined key).shape (joined key).mixed)
      (ordered : SortedMap.Ordered out)
      (entries : ∀ key, out.lookup key = SortedMap.mergedValue (fun _ _ => joined key)
        (left.lookup key) (right.lookup key)) :
      Unified (.document left) (.document right) m (.document out) m
  | conflict {a b : Shape} (m : Bool) (clash : Conflict a b) : Unified a b m .json true

/-- The slot two documents' slots for a key join to. -/
def joinedAt (left right : List (String × FieldShape)) (key : String) : FieldShape :=
  match left.lookup key, right.lookup key with
  | some l, some r => joinSlots unify l r
  | _, _ => FieldShapeOf.empty

open Shape in
/-- Every call of `unify` is one of the cases of `Unified`. -/
theorem unify_spec (a b : Shape) (mixed : Bool) (first : a.WellOrdered) (second : b.WellOrdered) :
    Unified a b mixed (unify a b mixed).1 (unify a b mixed).2 := by
  obtain ⟨n, bound⟩ : ∃ n, a.size + b.size ≤ n := ⟨_, le_rfl⟩
  induction n generalizing a b mixed with
  | zero => have := a.size_pos; omega
  | succ n ih =>
      rw [unify_eq]
      unfold unifyStep
      split_ifs with same
      · subst same
        exact .same a mixed
      · split
        · exact .bottomLeft _ _
        · exact .bottomRight _ _
        · rename_i known
          exact .conflict _ (Conflict.ofJson same (by simp) known (Or.inl rfl))
        · rename_i known _
          exact .conflict _ (Conflict.ofJson same known (by simp) (Or.inr rfl))
        · exact .widenRight _ .int32_int64
        · exact .widenLeft _ .int32_int64
        · exact .widenRight _ .int32_double
        · exact .widenLeft _ .int32_double
        · exact .widenRight _ .int64_double
        · exact .widenLeft _ .int64_double
        · exact .widenLeft _ .int32_decimal
        · exact .widenLeft _ .int64_decimal
        · exact .widenLeft _ .double_decimal
        · exact .widenRight _ .int32_decimal
        · exact .widenRight _ .int64_decimal
        · exact .widenRight _ .double_decimal
        · exact .textRight _
        · exact .textLeft _
        · exact .widenLeft _ .timestamp_dateTime
        · exact .widenRight _ .timestamp_dateTime
        · rename_i x y
          exact .arrays (ih x y mixed first second (by simp only [size] at bound; omega))
        · rename_i _ x unknown json array
          exact .absorbRight (plain_of_not unknown json array)
            (ih x b mixed first second (by simp only [size] at bound; omega))
        · rename_i _ x unknown json array
          exact .absorbLeft (plain_of_not unknown json array)
            (ih x a mixed second first (by simp only [size] at bound; omega))
        · rename_i left right
          refine .documents mixed (joinedAt left right) ?_
            (SortedMap.mergeWith_ordered _ _ _ first.1) ?_
          · intro key lv rv foundLeft foundRight
            have smallLeft := size_le_of_lookup foundLeft
            have smallRight := size_le_of_lookup foundRight
            simp only [joinedAt, foundLeft, foundRight, joinSlots]
            exact ih lv.shape rv.shape _ (first.child foundLeft) (second.child foundRight)
              (by simp only [size] at bound; omega)
          · intro key
            rw [SortedMap.lookup_mergeWith _ _ _ second.1]
            cases foundLeft : left.lookup key <;> cases foundRight : right.lookup key <;>
              simp [SortedMap.mergedValue, joinedAt, foundLeft, foundRight]
        · rename_i aKnown aJson aArray bKnown bJson bArray h1 h2 h3 h4 h5 h6 h7 h8 h9 h10 h11 h12
            h13 h14 h15 h16 _ documents
          refine .conflict _ ⟨same, aKnown, bKnown, Or.inr (Or.inr ⟨plain_of_not aKnown aJson aArray,
            plain_of_not bKnown bJson bArray⟩), ⟨?_, ?_⟩, ⟨fun h => h13 h.1 h.2, fun h => h14 h.1 h.2⟩,
            fun left right h => documents left right h.1 h.2⟩
          · intro widens
            cases widens <;> simp_all
          · intro widens
            cases widens <;> simp_all

end Auger
