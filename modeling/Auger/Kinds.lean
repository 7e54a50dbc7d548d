import Auger.General.Levels
import Auger.UnifyLaws
import Mathlib.Data.Fintype.Basic

set_option autoImplicit false

/-! A shape as a kind under a number of arrays, and what `unify` does to those two. -/

namespace Auger

open General

/-- What a shape is once its arrays are taken off. -/
inductive Kind
  | unknown | bool | int32 | int64 | double | decimal | utf8 | objectId | dateTime
  | bsonTimestamp | binary | document | json
  deriving DecidableEq, Repr

namespace Kind

instance : Fintype Kind where
  elems := {.unknown, .bool, .int32, .int64, .double, .decimal, .utf8, .objectId, .dateTime, .bsonTimestamp,
    .binary, .document, .json}
  complete := by
    intro kind
    cases kind <;> decide

def sup (a b : Kind) : Kind :=
  if a = b then a else
  match a, b with
  | .unknown, other | other, .unknown => other
  | .int32, .int64 | .int64, .int32 => .int64
  | .int32, .double | .double, .int32 | .int64, .double | .double, .int64 => .double
  | .decimal, .int32 | .decimal, .int64 | .decimal, .double => .decimal
  | .int32, .decimal | .int64, .decimal | .double, .decimal => .decimal
  | .objectId, .utf8 | .utf8, .objectId => .utf8
  | .dateTime, .bsonTimestamp | .bsonTimestamp, .dateTime => .dateTime
  | _, _ => .json

instance : Max Kind := ⟨sup⟩

theorem sup_comm (a b : Kind) : a ⊔ b = b ⊔ a := by
  revert a b
  decide +kernel

theorem sup_assoc (a b c : Kind) : a ⊔ b ⊔ c = a ⊔ (b ⊔ c) := by
  revert a b c
  decide +kernel

theorem sup_idem (a : Kind) : a ⊔ a = a := by
  revert a
  decide

instance : SemilatticeSup Kind := SemilatticeSup.mk' sup_comm sup_assoc sup_idem

theorem le_iff (a b : Kind) : a ≤ b ↔ a ⊔ b = b := Iff.rfl

instance : DecidableRel (fun a b : Kind => a ≤ b) := fun a b => decidable_of_iff _ (le_iff a b).symm

instance : BoundedOrder Kind where
  top := .json
  le_top := by decide
  bot := .unknown
  bot_le := by decide

instance : Nontrivial Kind := ⟨.unknown, .json, by decide⟩

/-- Rising to a kind without raising the flag. -/
def Silent (a b : Kind) : Prop :=
  a ≤ b ∧ ¬ (a = .objectId ∧ b = .utf8) ∧ (b = .json → a = .unknown ∨ a = .json)

instance : DecidableRel Silent := fun _ _ => inferInstanceAs (Decidable (_ ∧ _))

theorem silentKinds : Level.SilentKinds Silent where
  refl := by decide
  trans := by decide +kernel
  bot := by decide
  below_top := by decide
  above_top := by decide
  sup := by decide +kernel

end Kind

namespace Shape

def kind : Shape → Kind
  | .unknown => .unknown
  | .bool => .bool
  | .int32 => .int32
  | .int64 => .int64
  | .double => .double
  | .decimal => .decimal
  | .utf8 => .utf8
  | .objectId => .objectId
  | .dateTime => .dateTime
  | .bsonTimestamp => .bsonTimestamp
  | .binary => .binary
  | .document _ => .document
  | .array inner => inner.kind
  | .json => .json

def depth : Shape → Nat
  | .array inner => inner.depth + 1
  | _ => 0

def level (shape : Shape) : Level Kind := ⟨shape.depth, shape.kind⟩

theorem level_array (inner : Shape) : (Shape.array inner).level = inner.level.deeper := rfl

theorem level_array_inj {x y : Shape} (same : (Shape.array x).level = (Shape.array y).level) : x.level = y.level := by
  have depth := congrArg Level.depth same
  have kind := congrArg Level.kind same
  exact Level.ext (Nat.succ.inj depth) kind

theorem level_unknown : Shape.unknown.level = ⟨0, ⊥⟩ := rfl

theorem level_document (fields : List (String × FieldShape)) :
    (Shape.document fields).level = ⟨0, .document⟩ := rfl

theorem Plain.level {shape : Shape} (plain : shape.Plain) :
    shape.level.depth = 0 ∧ shape.level.kind ≠ ⊥ ∧ shape.level.kind ≠ ⊤ := by
  cases shape <;> first | exact plain.elim | exact ⟨rfl, nofun, nofun⟩

theorem eq_unknown_of_level {shape : Shape} (same : shape.level = ⟨0, ⊥⟩) : shape = .unknown := by
  cases shape <;> first | rfl | cases same

theorem eq_json_of_level {shape : Shape} (same : shape.level = ⟨0, ⊤⟩) : shape = .json := by
  cases shape <;> first | rfl | cases same

theorem Widens.level {a b : Shape} (widens : Widens a b) :
    a.level.join b.level = b.level ∧ a.level.JoinsSilently Kind.Silent b.level := by
  cases widens <;> decide

theorem Conflict.kind {a b : Shape} (clash : Conflict a b) (first : a.Plain) (second : b.Plain) :
    a.level.join b.level = ⟨0, ⊤⟩ := by
  rw [Level.join_known first.level.2.2 second.level.2.2]
  obtain ⟨differ, _, _, _, widens, text, documents⟩ := clash
  cases a <;> cases b <;>
    first
      | rfl
      | exact first.elim
      | exact second.elim
      | exact absurd rfl differ
      | exact absurd ⟨rfl, rfl⟩ (documents _ _)
      | exact absurd ⟨rfl, rfl⟩ text.1
      | exact absurd ⟨rfl, rfl⟩ text.2
      | exact absurd (by constructor) widens.1
      | exact absurd (by constructor) widens.2

theorem Conflict.level {a b : Shape} (clash : Conflict a b) :
    a.level.join b.level = ⟨0, ⊤⟩ ∧ ¬ a.level.JoinsSilently Kind.Silent b.level := by
  have joined : a.level.join b.level = ⟨0, ⊤⟩ := by
    obtain json | json | ⟨first, second⟩ := clash.json_or_plain
    · rw [json]
      exact Level.top_join b.level
    · rw [json, Level.join_comm]
      exact Level.top_join a.level
    · exact clash.kind first second
  refine ⟨joined, fun silent => ?_⟩
  rw [Level.JoinsSilently, joined] at silent
  obtain low | high := silent.1.outermost Kind.silentKinds
  · exact clash.left_known (eq_unknown_of_level low)
  obtain low' | high' := silent.2.outermost Kind.silentKinds
  · exact clash.right_known (eq_unknown_of_level low')
  · exact clash.differ ((eq_json_of_level high).trans (eq_json_of_level high').symm)

end Shape

theorem textLevels : Shape.objectId.level.join Shape.utf8.level = Shape.utf8.level ∧
    ¬ Shape.objectId.level.JoinsSilently Kind.Silent Shape.utf8.level := by
  decide

open Shape in
theorem Unified.level {a b c : Shape} {m m' : Bool} (joined : Unified a b m c m') :
    c.level = a.level.join b.level ∧
      (m' = true ↔ m = true ∨ ¬ a.level.JoinsSilently Kind.Silent b.level) := by
  induction joined with
  | same a m =>
      have silent := Level.joinsSilently_self Kind.silentKinds a.level
      simp only [Level.join_self, silent, not_true, or_false, and_self]
  | bottomLeft b m =>
      have silent := Level.joinsSilently_bottom Kind.silentKinds b.level
      rw [level_unknown, Level.bottom_join]
      simp only [silent, not_true, or_false, and_self]
  | bottomRight a m =>
      have silent := Level.joinsSilently_bottom Kind.silentKinds a.level
      rw [level_unknown, Level.join_comm, Level.JoinsSilently.comm, Level.bottom_join]
      simp only [silent, not_true, or_false, and_self]
  | widenRight m widens =>
      obtain ⟨level, silent⟩ := widens.level
      simp only [level, silent, not_true, or_false, and_self]
  | widenLeft m widens =>
      obtain ⟨level, silent⟩ := widens.level
      rw [Level.join_comm, Level.JoinsSilently.comm]
      simp only [level, silent, not_true, or_false, and_self]
  | textRight m =>
      obtain ⟨level, trace⟩ := textLevels
      simp only [level, trace, not_false_eq_true, or_true, and_self]
  | textLeft m =>
      obtain ⟨level, trace⟩ := textLevels
      rw [Level.join_comm, Level.JoinsSilently.comm]
      simp only [level, trace, not_false_eq_true, or_true, and_self]
  | arrays inner ih =>
      rw [level_array, level_array, level_array, Level.join_deeper, Level.joinsSilently_deeper, ih.1]
      exact ⟨rfl, ih.2⟩
  | absorbRight plain inner ih =>
      obtain ⟨shallow, _, known⟩ := plain.level
      rw [level_array, level_array, Level.join_deeper_left _ shallow known,
        Level.joinsSilently_deeper_left _ shallow known, ih.1]
      exact ⟨rfl, ih.2⟩
  | absorbLeft plain inner ih =>
      obtain ⟨shallow, _, known⟩ := plain.level
      rw [level_array, level_array, Level.join_comm, Level.JoinsSilently.comm,
        Level.join_deeper_left _ shallow known, Level.joinsSilently_deeper_left _ shallow known, ih.1]
      exact ⟨rfl, ih.2⟩
  | @documents left right out m joined each ordered entries ih =>
      have silent := Level.joinsSilently_self Kind.silentKinds (Shape.document out).level
      rw [level_document left, level_document right, ← level_document out, Level.join_self]
      simp only [silent, not_true, or_false, and_self]
  | conflict m clash =>
      obtain ⟨level, trace⟩ := clash.level
      simp only [level, trace, not_false_eq_true, or_true]
      exact ⟨rfl, trivial⟩

end Auger
