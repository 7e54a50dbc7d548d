import Auger.General.Quantiles
import Auger.Partitions

set_option autoImplicit false

/-! How evenly the partitions divide the sample they were cut from. -/

namespace Auger

open General CutPoints

/-- The bound a partition's `$match` puts on `_id` with an operator. -/
def idBound (operator : String) (range : Option Fields) : Option Bson :=
  (range.bind fun fields => fields.lookup "_id").bind fun
    | .document bounds => bounds.lookup operator
    | _ => none

/-- A range contains the ids from its lower bound up to its upper one, in the order they
are sorted by. -/
def contains (range : Option Fields) (id : Bson) : Bool :=
  (idBound "$gte" range).all (fun low => decide (low.sortKey ≤ id.sortKey)) &&
    (idBound "$lt" range).all fun high => decide (id.sortKey < high.sortKey)

/-- `m` ranges end to end with open ends, cut at increasing members of the sample, each with
its share of the sampled ids. -/
structure Balanced (sortedIds : List Bson) (m : Nat) (ranges : List (Option Fields)) : Prop where
  count : ranges.length = m
  contiguous : ∀ i (inside : i + 1 < ranges.length), idBound "$lt" ranges[i] = idBound "$gte" ranges[i + 1]
  openStart : ∀ i (inside : i < ranges.length), idBound "$gte" ranges[i] = none ↔ i = 0
  openEnd : ∀ i (inside : i < ranges.length), idBound "$lt" ranges[i] = none ↔ i + 1 = ranges.length
  increasing : (ranges.filterMap (idBound "$gte")).Pairwise fun a b => a.sortKey < b.sortKey
  sampled : ∀ cut ∈ ranges.filterMap (idBound "$gte"), cut ∈ sortedIds
  share : ∀ range ∈ ranges, 1 ≤ sortedIds.countP (contains range) ∧
    sortedIds.length / m ≤ sortedIds.countP (contains range) ∧
    sortedIds.countP (contains range) ≤ (sortedIds.length + m - 1) / m

/-- No candidate for a cut is equal to the one before it, as Rust compares them. -/
def CutsDiffer (sortedIds : List Bson) (n : Nat) : Prop :=
  (quantiles sortedIds n).IsChain fun a b => a.eq b = false

theorem idBound_low (low high : Option Bson) : idBound "$gte" (idRange low high) = low := by
  cases low <;> cases high <;> rfl

theorem idBound_high (low high : Option Bson) : idBound "$lt" (idRange low high) = high := by
  cases low <;> cases high <;> rfl

theorem contains_inRange (low high : Option Bson) :
    contains (idRange low high) = fun id => inRange (fun _ => ()) Bson.sortKey id (low, high) := by
  funext id
  simp only [contains, idBound_low, idBound_high, inRange, atLeast, below, true_and]

theorem quantiles_ranks (sortedIds : List Bson) {n : Nat} (split : 0 < n) (sampled : 0 < sortedIds.length) :
    (quantiles sortedIds n).length = min n sortedIds.length - 1 ∧
      ∀ i < min n sortedIds.length - 1,
        (quantiles sortedIds n)[i]? = sortedIds[rank sortedIds.length (min n sortedIds.length) (i + 1)]? := by
  have present : ∀ i < min n sortedIds.length - 1,
      rank sortedIds.length (min n sortedIds.length) (i + 1) < sortedIds.length :=
    fun i inside => rank_lt_all (by omega) (by omega) (by omega)
  have whole : quantiles sortedIds n = (List.range (min n sortedIds.length - 1)).map fun i =>
      (sortedIds[rank sortedIds.length (min n sortedIds.length) (i + 1)]?).getD .null := by
    rw [quantiles, List.range'_eq_map_range, List.filterMap_map]
    apply List.filterMap_eq_map_iff_forall_eq_some.mpr
    intro i inside
    have here := present i (List.mem_range.mp inside)
    rw [Function.comp_apply, Nat.add_comm 1 i, ← rank, List.getElem?_eq_getElem here]
    rfl
  constructor
  · rw [whole, List.length_map, List.length_range]
  · intro i inside
    rw [whole, List.getElem?_map, List.getElem?_range inside, Option.map_some,
      List.getElem?_eq_getElem (present i inside)]
    rfl

section
variable {sortedIds : List Bson} {n : Nat}

/-- The cut at the start of the `i`-th of `m` parts; the first part starts and the last ends
without one. -/
def cutAt (sortedIds : List Bson) (m i : Nat) : Option Bson :=
  if i = 0 then none else sortedIds[rank sortedIds.length m i]?

theorem cutAt_succ (m i : Nat) : cutAt sortedIds m (i + 1) = sortedIds[rank sortedIds.length m (i + 1)]? :=
  if_neg (Nat.succ_ne_zero i)

theorem cutAt_eq_none {m i : Nat} (parts : 0 < m) (enough : m ≤ sortedIds.length) (within : i ≤ m) :
    cutAt sortedIds m i = none ↔ i = 0 ∨ i = m := by
  cases i with
  | zero => exact iff_of_true rfl (.inl rfl)
  | succ i =>
      rw [cutAt_succ, List.getElem?_eq_none_iff]
      constructor
      · intro beyond
        by_contra other
        have before : rank sortedIds.length m (i + 1) < sortedIds.length := rank_lt_all parts enough (by omega)
        omega
      · rintro (impossible | last)
        · cases impossible
        · rw [last, rank_all _ parts]

theorem partitionBounds_cuts (split : 2 ≤ n) (sampled : 2 ≤ sortedIds.length) (differ : CutsDiffer sortedIds n) :
    partitionBounds sortedIds n = (List.range (min n sortedIds.length)).map fun i =>
      idRange (cutAt sortedIds (min n sortedIds.length) i) (cutAt sortedIds (min n sortedIds.length) (i + 1)) := by
  obtain ⟨length, ranks⟩ := quantiles_ranks sortedIds (n := n) (by omega) (by omega)
  have parts : min n sortedIds.length - 1 + 1 = min n sortedIds.length := by omega
  rw [partitionBounds_ranges split sampled, (dropRepeats_eq_iff _).mpr differ, ranges_eq, List.map_map, length, parts]
  apply List.map_congr_left
  intro i inside
  have part := List.mem_range.mp inside
  have high : (quantiles sortedIds n)[i]? = cutAt sortedIds (min n sortedIds.length) (i + 1) := by
    by_cases last : i = min n sortedIds.length - 1
    · rw [List.getElem?_eq_none (by omega), eq_comm, cutAt_eq_none (by omega) (by omega) (by omega)]
      exact .inr (by omega)
    · rw [ranks i (by omega), cutAt_succ]
  have low : ((none : Option Bson) :: (quantiles sortedIds n).map some)[i]?.join =
      cutAt sortedIds (min n sortedIds.length) i := by
    cases i with
    | zero => rfl
    | succ j =>
        rw [List.getElem?_cons_succ, List.getElem?_map, cutAt_succ, ← ranks j (by omega)]
        cases (quantiles sortedIds n)[j]? <;> rfl
  rw [Function.comp_apply, low, high]

theorem cutAt_mem {m i : Nat} {cut : Bson} (found : cutAt sortedIds m i = some cut) : cut ∈ sortedIds := by
  unfold cutAt at found
  split_ifs at found
  exact List.mem_of_getElem? found

theorem cutAt_increasing {m : Nat} (parts : 0 < m) (enough : m ≤ sortedIds.length)
    (increasing : sortedIds.Pairwise fun a b => a.sortKey < b.sortKey) :
    ((List.range m).filterMap (cutAt sortedIds m)).Pairwise fun a b => a.sortKey < b.sortKey := by
  rw [List.pairwise_filterMap]
  apply List.pairwise_lt_range.imp
  intro i j before a first b second
  unfold cutAt at first second
  split_ifs at first second
  obtain ⟨inFirst, rfl⟩ := List.getElem?_eq_some_iff.mp first
  obtain ⟨inSecond, rfl⟩ := List.getElem?_eq_some_iff.mp second
  exact List.pairwise_iff_getElem.mp increasing _ _ inFirst inSecond (rank_strict parts enough before)

end

theorem countP_part {sortedIds : List Bson} (increasing : sortedIds.Pairwise fun a b => a.sortKey < b.sortKey)
    {m : Nat} (parts : 0 < m) (enough : m ≤ sortedIds.length) {i : Nat} (inside : i < m) :
    sortedIds.countP (contains (idRange (cutAt sortedIds m i) (cutAt sortedIds m (i + 1)))) =
      rank sortedIds.length m (i + 1) - rank sortedIds.length m i := by
  have bounded : rank sortedIds.length m (i + 1) ≤ sortedIds.length := by
    have last : rank sortedIds.length m (i + 1) ≤ rank sortedIds.length m m := rank_mono inside
    rwa [rank_all _ parts] at last
  have start : cutAt sortedIds m i = none ∧ rank sortedIds.length m i = 0 ∨
      cutAt sortedIds m i = sortedIds[rank sortedIds.length m i]? ∧
        rank sortedIds.length m i < sortedIds.length := by
    cases i with
    | zero => exact .inl ⟨rfl, rank_zero _ _⟩
    | succ i => exact .inr ⟨cutAt_succ m i, rank_lt_all parts enough inside⟩
  have order : rank sortedIds.length m i ≤ rank sortedIds.length m (i + 1) := rank_mono (Nat.le_succ i)
  rw [contains_inRange, cutAt_succ, countP_between increasing (fun _ _ _ _ => rfl) order bounded start]

section
variable {sortedIds : List Bson} {n : Nat} (split : 2 ≤ n) (sampled : 2 ≤ sortedIds.length)
  (increasing : sortedIds.Pairwise fun a b => a.sortKey < b.sortKey)
include split sampled increasing

theorem balanced_of_differ (differ : CutsDiffer sortedIds n) :
    Balanced sortedIds (min n sortedIds.length) (partitionBounds sortedIds n) := by
  have closed := partitionBounds_cuts split sampled differ
  have parts : 0 < min n sortedIds.length := by omega
  have enough : min n sortedIds.length ≤ sortedIds.length := min_le_right _ _
  have size : (partitionBounds sortedIds n).length = min n sortedIds.length := by
    rw [closed, List.length_map, List.length_range]
  have part : ∀ i (inside : i < (partitionBounds sortedIds n).length), (partitionBounds sortedIds n)[i] =
      idRange (cutAt sortedIds (min n sortedIds.length) i) (cutAt sortedIds (min n sortedIds.length) (i + 1)) := by
    intro i inside
    simp only [closed, List.getElem_map, List.getElem_range]
  have lows : (partitionBounds sortedIds n).filterMap (idBound "$gte") =
      (List.range (min n sortedIds.length)).filterMap (cutAt sortedIds (min n sortedIds.length)) := by
    rw [closed, List.filterMap_map]
    apply congrArg fun f => List.filterMap f (List.range (min n sortedIds.length))
    funext i
    exact idBound_low _ _
  refine ⟨size, ?_, ?_, ?_, ?_, ?_, ?_⟩
  · intro i inside
    rw [part i (by omega), part (i + 1) inside, idBound_low, idBound_high]
  · intro i inside
    rw [part i inside, idBound_low, cutAt_eq_none parts enough (by omega)]
    omega
  · intro i inside
    rw [part i inside, idBound_high, cutAt_eq_none parts enough (by omega)]
    omega
  · rw [lows]
    exact cutAt_increasing parts enough increasing
  · intro cut member
    rw [lows] at member
    obtain ⟨i, -, found⟩ := List.mem_filterMap.mp member
    exact cutAt_mem found
  · intro range member
    rw [closed] at member
    obtain ⟨i, inside, rfl⟩ := List.mem_map.mp member
    rw [countP_part increasing parts enough (List.mem_range.mp inside)]
    have least := rank_add_le sortedIds.length (min n sortedIds.length) i
    have most := rank_succ_le sortedIds.length i parts
    have grows := rank_lt parts enough i
    exact ⟨by omega, by omega, by omega⟩

/-- The partitions of a strictly increasing sample are balanced exactly when no candidate for
a cut is equal to the one before it. -/
theorem partitionBounds_balanced_iff :
    Balanced sortedIds (min n sortedIds.length) (partitionBounds sortedIds n) ↔ CutsDiffer sortedIds n := by
  constructor
  · intro balanced
    have count := balanced.count
    have candidates := (quantiles_ranks sortedIds (n := n) (by omega) (by omega)).1
    rw [partitionBounds_ranges split sampled, List.length_map, ranges_eq, List.length_map,
      List.length_range] at count
    apply (dropRepeats_eq_iff _).mp
    apply (dropRepeats_sublist _).eq_of_length
    omega
  · exact balanced_of_differ split sampled increasing

end

/-- Documents as ids: the last two hold the same fields in a different order. -/
def keyedIds : List Bson :=
  [.document [("a", .int32 0)], .document [("a", .int32 1), ("b", .int32 1)],
    .document [("b", .int32 1), ("a", .int32 1)]]

theorem keyedIds_increasing : keyedIds.Pairwise fun a b => a.sortKey < b.sortKey := by
  decide +kernel

theorem keyedIds_single : ∀ a ∈ keyedIds, ∀ b ∈ keyedIds, a.typeClass = b.typeClass := by
  simp [keyedIds, Bson.typeClass]

theorem partitionBounds_merges : ¬∀ (sortedIds : List Bson) (n : Nat), 2 ≤ n → 2 ≤ sortedIds.length →
    (sortedIds.Pairwise fun a b => a.sortKey < b.sortKey) →
    (∀ a ∈ sortedIds, ∀ b ∈ sortedIds, a.typeClass = b.typeClass) →
      Balanced sortedIds (min n sortedIds.length) (partitionBounds sortedIds n) := by
  intro holds
  have balanced := holds keyedIds 3 (by decide) (by decide) keyedIds_increasing keyedIds_single
  have count := balanced.count
  revert count
  decide +kernel

/-- Not a number and two numbers, in two parts. -/
def numberedIds : List Bson := [.double F64.nan, .int32 15, .int32 18]

theorem partitionBounds_balanced_iff_numbers : Balanced numberedIds 2 (partitionBounds numberedIds 2) := by
  have increasing : numberedIds.Pairwise fun a b => a.sortKey < b.sortKey := by decide +kernel
  have differ : CutsDiffer numberedIds 2 := by
    unfold CutsDiffer
    decide +kernel
  exact (partitionBounds_balanced_iff (le_refl 2) (by decide) increasing).mpr differ

end Auger
