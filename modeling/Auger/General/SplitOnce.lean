import Mathlib.Data.List.Infix

set_option autoImplicit false

/-! Splitting a sequence at the first occurrence of a separator. -/

namespace Auger.General

variable {α : Type} [DecidableEq α]

/-- What stands before and behind the first separator. -/
def splitOnce (separator : List α) : List α → Option (List α × List α)
  | [] => if separator = [] then some ([], []) else none
  | a :: rest =>
      if separator.isPrefixOf (a :: rest) then some ([], (a :: rest).drop separator.length)
      else (splitOnce separator rest).map fun parts => (a :: parts.1, parts.2)

theorem splitOnce_join {separator t : List α} {parts : List α × List α} (split : splitOnce separator t = some parts) :
    t = parts.1 ++ separator ++ parts.2 := by
  induction t generalizing parts with
  | nil =>
      simp only [splitOnce, Option.ite_none_right_eq_some, Option.some.injEq] at split
      obtain ⟨empty, rfl⟩ := split
      simp [empty]
  | cons a rest ih =>
      rw [splitOnce] at split
      by_cases here : separator.isPrefixOf (a :: rest) = true
      · rw [if_pos here, Option.some.injEq] at split
        rw [← split, List.nil_append]
        exact (List.prefix_iff_eq_append.mp (List.isPrefixOf_iff_prefix.mp here)).symm
      · rw [if_neg here, Option.map_eq_some_iff] at split
        obtain ⟨inner, found, rfl⟩ := split
        rw [ih found]
        simp

theorem splitOnce_append {separator t : List α} {parts : List α × List α}
    (split : splitOnce separator t = some parts) (later : List α) :
    splitOnce separator (t ++ later) = some (parts.1, parts.2 ++ later) := by
  induction t generalizing parts with
  | nil =>
      simp only [splitOnce, Option.ite_none_right_eq_some, Option.some.injEq] at split
      obtain ⟨rfl, rfl⟩ := split
      cases later <;> simp [splitOnce]
  | cons a rest ih =>
      rw [splitOnce] at split
      rw [List.cons_append, splitOnce]
      by_cases here : separator.isPrefixOf (a :: rest) = true
      · have within := List.isPrefixOf_iff_prefix.mp here
        have still : separator.isPrefixOf (a :: (rest ++ later)) = true :=
          List.isPrefixOf_iff_prefix.mpr (within.trans (List.prefix_append (a :: rest) later))
        rw [if_pos here, Option.some.injEq] at split
        rw [if_pos still, ← split, ← List.cons_append, List.drop_append_of_le_length within.length_le]
      · rw [if_neg here, Option.map_eq_some_iff] at split
        obtain ⟨inner, found, rfl⟩ := split
        have room : separator.length ≤ (a :: rest).length := by
          have length := congrArg List.length (splitOnce_join found)
          simp only [List.length_append] at length
          simp only [List.length_cons]
          omega
        have still : ¬separator.isPrefixOf (a :: (rest ++ later)) = true := by
          intro begins
          apply here
          rw [List.isPrefixOf_iff_prefix, ← List.cons_append] at begins
          exact List.isPrefixOf_iff_prefix.mpr
            (List.prefix_of_prefix_length_le begins (List.prefix_append _ later) room)
        rw [if_neg still, ih found, Option.map_some]

theorem splitOnce_behind {separator t : List α} (absent : splitOnce separator t = none)
    (borderless : ∀ n < separator.length, 0 < n → ¬separator.drop n <+: separator) (later : List α) :
    splitOnce separator (t ++ separator ++ later) = some (t, later) := by
  induction t with
  | nil =>
      have solid : separator ≠ [] := by
        rintro rfl
        simp [splitOnce] at absent
      obtain ⟨a, rest, rfl⟩ := List.exists_cons_of_ne_nil solid
      rw [List.nil_append, List.cons_append, splitOnce, if_pos, ← List.cons_append, List.drop_left]
      rw [List.isPrefixOf_iff_prefix, ← List.cons_append]
      exact List.prefix_append ..
  | cons a rest ih =>
      rw [splitOnce] at absent
      by_cases here : separator.isPrefixOf (a :: rest) = true
      · rw [if_pos here] at absent
        cases absent
      · rw [if_neg here, Option.map_eq_none_iff] at absent
        have still : ¬separator.isPrefixOf (a :: (rest ++ separator ++ later)) = true := by
          intro begins
          rw [List.isPrefixOf_iff_prefix] at begins
          by_cases room : separator.length ≤ (a :: rest).length
          · apply here
            refine List.isPrefixOf_iff_prefix.mpr (List.prefix_of_prefix_length_le begins ?_ room)
            exact ⟨separator ++ later, by simp⟩
          · apply borderless (a :: rest).length (by omega) (by simp)
            have dropped := begins.drop (a :: rest).length
            rw [show a :: (rest ++ separator ++ later) = (a :: rest) ++ (separator ++ later) by simp,
              List.drop_left] at dropped
            refine List.prefix_of_prefix_length_le dropped (List.prefix_append ..) ?_
            rw [List.length_drop]
            omega
        rw [List.cons_append, List.cons_append, splitOnce, if_neg still, ih absent, Option.map_some]

theorem splitOnce_single_none {a : α} {t : List α} (absent : a ∉ t) : splitOnce [a] t = none := by
  induction t with
  | nil => rfl
  | cons b rest ih =>
      have differ : a ≠ b := fun same => absent (same ▸ List.mem_cons_self ..)
      have later : a ∉ rest := fun inside => absent (List.mem_cons_of_mem _ inside)
      simp [splitOnce, List.isPrefixOf, differ, ih later]

theorem splitOnce_single_skip {a : α} {before : List α} (absent : a ∉ before) (t : List α) :
    splitOnce [a] (before ++ t) = (splitOnce [a] t).map fun parts => (before ++ parts.1, parts.2) := by
  induction before with
  | nil => simp
  | cons b rest ih =>
      have differ : a ≠ b := fun same => absent (same ▸ List.mem_cons_self ..)
      have later : a ∉ rest := fun inside => absent (List.mem_cons_of_mem _ inside)
      simp [splitOnce, List.isPrefixOf, differ, ih later, Function.comp_def]

theorem splitOnce_single_some {a : α} {t : List α} (inside : a ∈ t) : (splitOnce [a] t).isSome := by
  induction t with
  | nil => cases inside
  | cons b rest ih =>
      by_cases same : a = b
      · simp [splitOnce, List.isPrefixOf, same]
      · have later := ih ((List.mem_cons.mp inside).resolve_left same)
        simp [splitOnce, List.isPrefixOf, same, later]

end Auger.General
