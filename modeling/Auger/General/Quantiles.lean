import Auger.General.CutPoints
import Mathlib

set_option autoImplicit false

/-! Parts of a list cut at evenly spaced ranks, and how many members fall between the cuts. -/

namespace Auger.General.CutPoints

/-- Where the `i`-th of `m` parts of `n` items starts. -/
def rank (n m i : Nat) : Nat := i * n / m

theorem rank_zero (n m : Nat) : rank n m 0 = 0 := by
  rw [rank, Nat.zero_mul, Nat.zero_div]

theorem rank_all (n : Nat) {m : Nat} (parts : 0 < m) : rank n m m = n := Nat.mul_div_cancel_left n parts

theorem rank_add_le (n m i : Nat) : rank n m i + n / m ≤ rank n m (i + 1) := by
  rw [rank, rank, Nat.add_mul, Nat.one_mul]
  exact Nat.div_add_div_le_add_div

theorem rank_succ_le (n i : Nat) {m : Nat} (parts : 0 < m) :
    rank n m (i + 1) ≤ rank n m i + (n + m - 1) / m := by
  have carry : (i * n + n) / m = i * n / m + n / m + if m ≤ i * n % m + n % m then 1 else 0 := Nat.add_div parts
  have whole : (n + (m - 1)) / m = n / m + (m - 1) / m + if m ≤ n % m + (m - 1) % m then 1 else 0 := Nat.add_div parts
  have less : (m - 1) / m = 0 := Nat.div_eq_of_lt (by omega)
  have rest : (m - 1) % m = m - 1 := Nat.mod_eq_of_lt (by omega)
  have small := Nat.mod_lt (i * n) parts
  rw [less, rest] at whole
  rw [rank, rank, Nat.add_mul, Nat.one_mul, carry, Nat.add_sub_assoc (by omega), whole]
  split_ifs <;> omega

theorem rank_lt {n m : Nat} (parts : 0 < m) (enough : m ≤ n) (i : Nat) : rank n m i < rank n m (i + 1) := by
  have one : 1 ≤ n / m := (Nat.one_le_div_iff parts).mpr enough
  have step := rank_add_le n m i
  omega

theorem rank_mono {n m i j : Nat} (order : i ≤ j) : rank n m i ≤ rank n m j :=
  Nat.div_le_div_right (Nat.mul_le_mul_right n order)

theorem rank_strict {n m : Nat} (parts : 0 < m) (enough : m ≤ n) {i j : Nat} (order : i < j) :
    rank n m i < rank n m j :=
  lt_of_lt_of_le (rank_lt parts enough i) (rank_mono order)

theorem rank_lt_all {n m : Nat} (parts : 0 < m) (enough : m ≤ n) {i : Nat} (inside : i < m) : rank n m i < n := by
  have below := rank_strict parts enough inside
  rwa [rank_all n parts] at below

variable {α : Type}

theorem dropRepeats_eq_iff {same : α → α → Bool} (list : List α) :
    dropRepeats same list = list ↔ list.IsChain fun a b => same a b = false := by
  induction list using List.reverseRecOn with
  | nil => simp [dropRepeats]
  | append_singleton list a ih =>
      have fresh : (list.getLast?.all fun last => !same last a) = true ↔
          ∀ last ∈ list.getLast?, ∀ next ∈ [a].head?, same last next = false := by
        cases list.getLast? <;> simp
      rw [dropRepeats_snoc, List.isChain_append, ← ih, ← fresh, addCut]
      constructor
      · intro whole
        have kept : dropRepeats same list = list := by
          apply (dropRepeats_sublist list).eq_of_length_le
          split_ifs at whole with new
          · exact (congrArg List.length (List.append_cancel_right whole)).ge
          · rw [whole]
            simp
        rw [kept] at whole
        split_ifs at whole with new
        · exact ⟨kept, by simp, new⟩
        · have longer := congrArg List.length whole
          simp at longer
      · rintro ⟨kept, -, new⟩
        rw [kept, if_pos new]

theorem ranges_eq (previous : Option α) (cuts : List α) :
    ranges previous cuts =
      (List.range (cuts.length + 1)).map fun i => ((previous :: cuts.map some)[i]?.join, cuts[i]?) := by
  induction cuts generalizing previous with
  | nil => rfl
  | cons cut rest ih =>
      rw [ranges, ih, List.length_cons, List.range_succ_eq_map (n := rest.length + 1), List.map_cons, List.map_map]
      rfl

section
variable {γ κ : Type} [LinearOrder γ] [LinearOrder κ] {cls : α → γ} {key : α → κ} {xs : List α}

theorem before_rank (increasing : xs.Pairwise fun a b => key a < key b) {q : Nat} (inRank : q < xs.length) :
    ∀ x ∈ xs.take q, key x < key xs[q] := by
  intro x inside
  have split := increasing
  rw [← List.take_append_drop q xs, List.pairwise_append] at split
  have bound : xs[q] ∈ xs.drop q := by
    rw [List.drop_eq_getElem_cons inRank]
    exact List.mem_cons_self ..
  exact split.2.2 x inside xs[q] bound

theorem from_rank (increasing : xs.Pairwise fun a b => key a < key b) {q : Nat} (inRank : q < xs.length) :
    ∀ x ∈ xs.drop q, key xs[q] ≤ key x := by
  intro x inside
  have tail := increasing.sublist (List.drop_sublist q xs)
  rw [List.drop_eq_getElem_cons inRank] at tail inside
  rcases List.mem_cons.mp inside with rfl | later
  · exact le_rfl
  · exact (List.rel_of_pairwise_cons tail later).le

/-- A strictly increasing list has `q - p` members from the one at rank `p` to before the one
at rank `q`; the ends of the list stand for absent bounds. -/
theorem countP_between (increasing : xs.Pairwise fun a b => key a < key b)
    (single : ∀ a ∈ xs, ∀ b ∈ xs, cls a = cls b) {p q : Nat} (order : p ≤ q) (bounded : q ≤ xs.length)
    {low : Option α} (start : low = none ∧ p = 0 ∨ low = xs[p]? ∧ p < xs.length) :
    xs.countP (fun x => inRange cls key x (low, xs[q]?)) = q - p := by
  have later : (xs.drop p).drop (q - p) = xs.drop q := by
    rw [List.drop_drop]
    congr 1
    omega
  have parts : xs = xs.take p ++ ((xs.drop p).take (q - p) ++ xs.drop q) := by
    rw [← later, List.take_append_drop, List.take_append_drop]
  have early : (xs.drop p).take (q - p) ⊆ xs.take q := by
    intro x inside
    rw [← List.take_append_drop p (xs.take q), List.drop_take]
    exact List.mem_append_right _ inside
  have first : ∀ x ∈ xs.take p, ¬inRange cls key x (low, xs[q]?) = true := by
    intro x inside held
    rcases start with ⟨-, rfl⟩ | ⟨rfl, inRank⟩
    · simp at inside
    · have before := before_rank increasing inRank x inside
      simp [inRange, List.getElem?_eq_getElem inRank, atLeast, before.not_ge] at held
  have last : ∀ x ∈ xs.drop q, ¬inRange cls key x (low, xs[q]?) = true := by
    intro x inside held
    have inRank : q < xs.length := by
      by_contra beyond
      rw [List.drop_eq_nil_of_le (not_lt.mp beyond)] at inside
      cases inside
    have after := from_rank increasing inRank x inside
    simp [inRange, List.getElem?_eq_getElem inRank, below, after.not_gt] at held
  have between : ∀ x ∈ (xs.drop p).take (q - p), inRange cls key x (low, xs[q]?) = true := by
    intro x inside
    have member := List.mem_of_mem_drop (List.mem_of_mem_take inside)
    rw [inRange, Bool.and_eq_true]
    constructor
    · rcases start with ⟨rfl, -⟩ | ⟨rfl, inRank⟩
      · rfl
      · have after := from_rank increasing inRank x (List.mem_of_mem_take inside)
        simp [List.getElem?_eq_getElem inRank, atLeast, after, single _ (List.getElem_mem inRank) x member]
    · by_cases inRank : q < xs.length
      · have before := before_rank increasing inRank x (early inside)
        simp [List.getElem?_eq_getElem inRank, below, before, single _ (List.getElem_mem inRank) x member]
      · rw [List.getElem?_eq_none (not_lt.mp inRank)]
        rfl
  calc
    _ = (xs.take p ++ ((xs.drop p).take (q - p) ++ xs.drop q)).countP
        (fun x => inRange cls key x (low, xs[q]?)) := by rw [← parts]
    _ = ((xs.drop p).take (q - p)).length := by
        rw [List.countP_append, List.countP_append, List.countP_eq_zero.mpr first, List.countP_eq_zero.mpr last,
          List.countP_eq_length.mpr between, Nat.zero_add, Nat.add_zero]
    _ = q - p := by
        rw [List.length_take, List.length_drop]
        omega

end

end Auger.General.CutPoints
