import Mathlib.Logic.Basic

set_option autoImplicit false

/-! Three-valued logic: `none` is the unknown truth value. -/

namespace Auger.General.Kleene

abbrev Truth := Option Bool

def conj : Truth → Truth → Truth
  | some false, _ => some false
  | _, some false => some false
  | some true, some true => some true
  | _, _ => none

def disj : Truth → Truth → Truth
  | some true, _ => some true
  | _, some true => some true
  | some false, some false => some false
  | _, _ => none

def neg : Truth → Truth
  | some b => some (!b)
  | none => none

def disjList (values : List Truth) : Truth := values.foldr disj (some false)

@[simp] theorem conj_true (a b : Truth) :
    conj a b = some true ↔ a = some true ∧ b = some true := by
  rcases a with _ | _ | _ <;> rcases b with _ | _ | _ <;> simp [conj]

@[simp] theorem conj_false (a b : Truth) :
    conj a b = some false ↔ a = some false ∨ b = some false := by
  rcases a with _ | _ | _ <;> rcases b with _ | _ | _ <;> simp [conj]

@[simp] theorem disj_true (a b : Truth) :
    disj a b = some true ↔ a = some true ∨ b = some true := by
  rcases a with _ | _ | _ <;> rcases b with _ | _ | _ <;> simp [disj]

@[simp] theorem disj_false (a b : Truth) :
    disj a b = some false ↔ a = some false ∧ b = some false := by
  rcases a with _ | _ | _ <;> rcases b with _ | _ | _ <;> simp [disj]

@[simp] theorem neg_true (a : Truth) : neg a = some true ↔ a = some false := by
  rcases a with _ | _ | _ <;> simp [neg]

@[simp] theorem neg_false (a : Truth) : neg a = some false ↔ a = some true := by
  rcases a with _ | _ | _ <;> simp [neg]

@[simp] theorem neg_none (a : Truth) : neg a = none ↔ a = none := by
  rcases a with _ | _ | _ <;> simp [neg]

@[simp] theorem disjList_nil : disjList [] = some false := rfl

@[simp] theorem disjList_cons (head : Truth) (tail : List Truth) :
    disjList (head :: tail) = disj head (disjList tail) := rfl

theorem conj_known {a b : Truth} (left : a ≠ none) (right : b ≠ none) : conj a b ≠ none := by
  rcases a with _ | _ | _ <;> rcases b with _ | _ | _ <;> simp_all [conj]

theorem disj_known {a b : Truth} (left : a ≠ none) (right : b ≠ none) : disj a b ≠ none := by
  rcases a with _ | _ | _ <;> rcases b with _ | _ | _ <;> simp_all [disj]

end Auger.General.Kleene
