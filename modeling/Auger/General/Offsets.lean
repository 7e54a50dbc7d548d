import Mathlib.Algebra.GroupWithZero.Nat
import Mathlib.Algebra.BigOperators.Group.List.Basic

set_option autoImplicit false

/-! Lists laid end to end, and the offsets at which each one starts. -/

namespace Auger.General.Offsets

variable {α β : Type}

def offset (lists : List (List α)) (i : Nat) : Nat := ((lists.take i).map List.length).sum

@[simp] theorem offset_zero (lists : List (List α)) : offset lists 0 = 0 := by
  simp [offset]

@[simp] theorem offset_cons_succ (head : List α) (rest : List (List α)) (i : Nat) :
    offset (head :: rest) (i + 1) = head.length + offset rest i := by
  simp [offset]

theorem offset_succ (lists : List (List α)) (i : Nat) (bound : i < lists.length) :
    offset lists (i + 1) = offset lists i + lists[i].length := by
  induction lists generalizing i with
  | nil => simp at bound
  | cons head rest ih =>
      cases i with
      | zero => simp
      | succ i =>
          rw [offset_cons_succ, offset_cons_succ, ih i (by simpa using bound)]
          simp [Nat.add_assoc]

theorem offset_length (lists : List (List α)) : offset lists lists.length = lists.flatten.length := by
  simp [offset, List.length_flatten]

theorem flatten_getElem (lists : List (List α)) (i j : Nat) (bound : i < lists.length)
    (inside : j < lists[i].length) :
    lists.flatten[offset lists i + j]? = some lists[i][j] := by
  induction lists generalizing i with
  | nil => simp at bound
  | cons head rest ih =>
      cases i with
      | zero =>
          simp only [List.getElem_cons_zero] at inside
          simp [List.getElem?_append_left inside, List.getElem?_eq_getElem inside]
      | succ i =>
          simp only [List.getElem_cons_succ] at inside ⊢
          rw [offset_cons_succ, List.flatten_cons, Nat.add_assoc,
            List.getElem?_append_right (Nat.le_add_right _ _), Nat.add_sub_cancel_left]
          exact ih i (by simpa using bound) inside

theorem map_slice (lists : List (List α)) (i : Nat) (bound : i < lists.length)
    (read : Nat → β) (f : α → β)
    (agree : ∀ k (h : k < lists.flatten.length), read k = f lists.flatten[k]) :
    (List.range (offset lists (i + 1) - offset lists i)).map (fun j => read (offset lists i + j)) =
      lists[i].map f := by
  rw [offset_succ lists i bound, Nat.add_sub_cancel_left]
  apply List.ext_getElem
  · simp
  · intro j first second
    simp only [List.length_map] at second
    simp only [List.getElem_map, List.getElem_range]
    have found := flatten_getElem lists i j bound second
    obtain ⟨inside, equal⟩ := List.getElem?_eq_some_iff.mp found
    rw [agree _ inside, equal]

end Auger.General.Offsets
