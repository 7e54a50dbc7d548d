import Mathlib.Data.List.Sort

set_option autoImplicit false

/-! Orders by several comparisons in turn, and lists arranged in two orders. -/

namespace Auger.General

open Std

variable {α β : Type}

/-- The first comparison that tells the two apart decides. -/
def inTurn : List (α → α → Ordering) → α → α → Ordering
  | [], _, _ => .eq
  | first :: later, x, y => (first x y).then (inTurn later x y)

theorem inTurn_append (first later : List (α → α → Ordering)) (x y : α) :
    inTurn (first ++ later) x y = (inTurn first x y).then (inTurn later x y) := by
  induction first with
  | nil => rfl
  | cons comparison rest ih => rw [List.cons_append, inTurn, inTurn, ih, Ordering.then_assoc]

theorem inTurn_trans {comparisons : List (α → α → Ordering)} (each : ∀ c ∈ comparisons, TransCmp c) :
    TransCmp (inTurn comparisons) := by
  induction comparisons with
  | nil =>
      have same : inTurn ([] : List (α → α → Ordering)) = fun _ _ => .eq := rfl
      rw [same]
      exact { eq_swap := rfl, isLE_trans := fun _ _ => rfl }
  | cons first later ih =>
      have := each first (by simp)
      have := ih fun c member => each c (List.mem_cons_of_mem first member)
      have same : inTurn (first :: later) = compareLex first (inTurn later) := rfl
      rw [same]
      infer_instance

theorem inTurn_tie {comparisons : List (α → α → Ordering)} {x y : α} (tie : inTurn comparisons x y = .eq)
    {c : α → α → Ordering} (member : c ∈ comparisons) : c x y = .eq := by
  induction comparisons with
  | nil => cases member
  | cons first later ih =>
      rw [inTurn, Ordering.then_eq_eq] at tie
      rcases List.mem_cons.mp member with rfl | inside
      · exact tie.1
      · exact ih tie.2 inside

/-- The list is arranged by a comparison. -/
def Arranged (cmp : α → α → Ordering) (s : List α) : Prop := s.Pairwise fun x y => (cmp x y).isLE

section
variable {cmp : α → α → Ordering} [TransCmp cmp]

theorem isLE_iff {x y : α} : (cmp y x).isLE = true ↔ cmp x y ≠ .lt := by
  have swap : cmp y x = (cmp x y).swap := OrientedCmp.eq_swap
  rw [swap]
  cases cmp x y <;> decide

theorem isLE_total (x y : α) : (cmp x y).isLE = true ∨ (cmp y x).isLE = true := by
  rw [isLE_iff (x := x)]
  cases cmp x y <;> simp

theorem isLE_self (x : α) : (cmp x x).isLE = true := by
  have same : cmp x x = .eq := ReflCmp.compare_self
  rw [same]
  rfl

theorem arranged_insert (a : α) {s : List α} (arranged : Arranged cmp s) :
    Arranged cmp (s.orderedInsert (fun x y => (cmp x y).isLE) a) := by
  have : IsTrans α fun x y => (cmp x y).isLE := ⟨fun _ _ _ => TransCmp.isLE_trans⟩
  have : Std.Total fun x y => (cmp x y).isLE := ⟨isLE_total⟩
  exact arranged.orderedInsert a s

theorem map_insert {image : α → β} {a : α} {s : List α}
    (passed : ∀ b ∈ s, cmp b a = .lt → image b = image a) :
    (s.orderedInsert (fun x y => (cmp x y).isLE) a).map image = image a :: s.map image := by
  induction s with
  | nil => rfl
  | cons b rest ih =>
      by_cases order : (cmp a b).isLE = true
      · rw [List.orderedInsert_cons_of_le _ rest order, List.map_cons, List.map_cons]
      · have before : cmp b a = .lt := by
          rw [isLE_iff] at order
          exact not_not.mp order
        have same := passed b (by simp) before
        rw [List.orderedInsert_of_not_le _ rest order, List.map_cons, List.map_cons,
          ih fun c member => passed c (List.mem_cons_of_mem b member), same]

theorem arranged_copies {x y : α} (before : cmp x y = .lt) {n m : Nat} {s : List α}
    (perm : s.Perm (List.replicate n x ++ List.replicate m y)) (arranged : Arranged cmp s) :
    s = List.replicate n x ++ List.replicate m y := by
  have two : ∀ {a}, a ∈ List.replicate n x ++ List.replicate m y → a = x ∨ a = y := by
    intro a member
    rcases List.mem_append.mp member with one | other
    · exact .inl (List.eq_of_mem_replicate one)
    · exact .inr (List.eq_of_mem_replicate other)
  have back : ¬(cmp y x).isLE = true := fun weak => isLE_iff.mp weak before
  apply perm.eq_of_pairwise _ arranged
  · rw [List.pairwise_append, List.pairwise_replicate, List.pairwise_replicate]
    refine ⟨.inr (isLE_self x), .inr (isLE_self y), ?_⟩
    intro a one b other
    rw [List.eq_of_mem_replicate one, List.eq_of_mem_replicate other, before]
    rfl
  · intro a b one other forth backward
    rcases two (perm.mem_iff.mp one) with rfl | rfl <;> rcases two other with rfl | rfl
    · rfl
    · exact absurd backward back
    · exact absurd forth back
    · rfl

/-- An element with at most `n` elements before it, ties and itself included, is among the first `n`. -/
theorem Arranged.mem_take {s : List α} (arranged : Arranged cmp s) {x : α} (member : x ∈ s) {n : Nat}
    (few : s.countP (fun y => (cmp y x).isLE) ≤ n) : x ∈ s.take n := by
  by_contra missing
  have parts := List.take_append_drop n s
  rw [← parts] at arranged member few
  have later := (List.mem_append.mp member).resolve_left missing
  have full : (s.take n).length = n := by
    have rest := List.length_pos_of_mem later
    rw [List.length_drop] at rest
    rw [List.length_take]
    omega
  have before : (s.take n).countP (fun y => (cmp y x).isLE) = (s.take n).length := by
    rw [List.countP_eq_length]
    exact fun y earlier => (List.pairwise_append.mp arranged).2.2 y earlier x later
  have own : 0 < (s.drop n).countP (fun y => (cmp y x).isLE) := List.countP_pos_iff.mpr ⟨x, later, isLE_self x⟩
  rw [List.countP_append] at few
  omega

end

/-- A list arranged one way can be arranged another way behind the same images, where
elements with different images are told apart alike. -/
theorem rearrange {first second : α → α → Ordering} [TransCmp first] [TransCmp second] {image : α → β} {s : List α}
    (arranged : Arranged second s)
    (alike : ∀ x ∈ s, ∀ y ∈ s, image x ≠ image y → first x y = .lt → second x y = .lt) :
    ∃ t, t.Perm s ∧ Arranged first t ∧ t.map image = s.map image := by
  induction s with
  | nil => exact ⟨[], .nil, .nil, rfl⟩
  | cons a s ih =>
      obtain ⟨above, tail⟩ := List.pairwise_cons.mp arranged
      obtain ⟨t, perm, ordered, images⟩ := ih tail fun x one y other =>
        alike x (List.mem_cons_of_mem a one) y (List.mem_cons_of_mem a other)
      refine ⟨t.orderedInsert (fun x y => (first x y).isLE) a, ?_, arranged_insert a ordered, ?_⟩
      · exact (List.perm_orderedInsert _ a t).trans (perm.cons a)
      · rw [map_insert, images, List.map_cons]
        intro b member before
        have inside : b ∈ s := perm.mem_iff.mp member
        by_contra differ
        have strict := alike b (List.mem_cons_of_mem a inside) a (by simp) differ before
        exact isLE_iff.mp (above b inside) strict

end Auger.General
