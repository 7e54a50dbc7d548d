import Auger.Equality
import Auger.Exactness
import Auger.Pipeline
import Auger.General.CutPoints

set_option autoImplicit false

/-! Which documents are scanned by exactly one partition. -/

namespace Auger

open General

/-- A document as the server stores it: under an `_id`, which is never an array. -/
structure CollectionDoc where
  document : Document
  id : Bson
  stored : document.get "_id" = some id
  notArray : id.isArray = false

/-- The sampled ids standing at the ranks `i * len / n`, for `n` capped at the sample's size. -/
def quantiles (sortedIds : List Bson) (n : Nat) : List Bson :=
  (List.range' 1 (min n sortedIds.length - 1)).filterMap fun i =>
    sortedIds[i * sortedIds.length / min n sortedIds.length]?

/-- A quantile that differs from the one before it. -/
def IsCut (sortedIds : List Bson) (n : Nat) (cut : Bson) : Prop :=
  CutPoints.StartsRun Bson.eq (quantiles sortedIds n) cut

/-- Around every cut of another class stands a cut of the id's own; NaN is a class apart from
the other numbers. -/
def Shielded (isCut : Bson → Prop) (id : Bson) : Prop :=
  ∀ cut, isCut cut →
    (cut.matchClass < id.matchClass →
      ∃ own, isCut own ∧ own.matchClass = id.matchClass ∧ own.sortKey ≤ id.sortKey) ∧
    (id.matchClass < cut.matchClass →
      ∃ own, isCut own ∧ own.matchClass = id.matchClass ∧ id.sortKey < own.sortKey)

/-- An absent bound accepts everything. -/
def boundAccepts (regex : RegexEngine) (doc : Fields) : Option Fields → Bool
  | none => true
  | some bound => accepts regex bound doc

theorem boundsBetween_ranges (previous : Option Bson) (cuts : List Bson) :
    boundsBetween previous cuts =
      (CutPoints.ranges previous cuts).map fun range => idRange range.1 range.2 := by
  induction cuts generalizing previous with
  | nil => rfl
  | cons cut rest ih => rw [boundsBetween, CutPoints.ranges, List.map_cons, ih]

theorem partitionBounds_ranges {sortedIds : List Bson} {n : Nat} (split : 1 < n)
    (sampled : 2 ≤ sortedIds.length) :
    partitionBounds sortedIds n =
      (CutPoints.ranges none (CutPoints.dropRepeats Bson.eq (quantiles sortedIds n))).map fun range =>
        idRange range.1 range.2 := by
  rw [partitionBounds, if_neg (by omega), ← boundsBetween_ranges, CutPoints.dropRepeats, quantiles,
    List.foldl_filterMap]
  apply congrArg (boundsBetween none)
  apply congrArg (fun step => List.foldl step [] (List.range' 1 (min n sortedIds.length - 1)))
  funext kept i
  cases sortedIds[i * sortedIds.length / min n sortedIds.length]? with
  | none => rfl
  | some candidate => rfl

section
variable (regex : RegexEngine)

theorem reachPath_id (doc : CollectionDoc) : reachPath doc.document.fields "_id" = [doc.id] := by
  have parts : pathParts "_id" = ["_id"] := by decide
  have found : doc.document.fields.lookup "_id" = some doc.id := doc.stored
  have scalar : leafCandidates doc.id = [doc.id] := candidates_scalar doc.notArray
  simp [reachPath, parts, reach, found, scalar]

theorem gte_accepts (bound id : Bson) :
    comparisonAccepts "$gte" bound [id] = CutPoints.atLeast Bson.matchClass Bson.sortKey bound id := by
  have accepted : comparisonAccepts "$gte" bound [id] = (equalTo bound id || aboveOperand bound id) := by
    simp [comparisonAccepts]
  rw [accepted, Bool.eq_iff_iff, CutPoints.atLeast, decide_eq_true_iff, Bool.or_eq_true]
  constructor
  · rintro (equal | above)
    · have keys : id.sortKey = bound.sortKey := by simpa [equalTo] using equal
      exact ⟨(equalTo_matchClass equal).symm, keys.ge⟩
    · simp only [aboveOperand, decide_eq_true_iff] at above
      exact ⟨above.1.symm, above.2.le⟩
  · rintro ⟨same, reach⟩
    rcases reach.eq_or_lt with keys | above
    · left
      simp [equalTo, keys]
    · right
      simp only [aboveOperand, decide_eq_true_iff]
      exact ⟨same.symm, above⟩

theorem lt_accepts (bound id : Bson) :
    comparisonAccepts "$lt" bound [id] = CutPoints.below Bson.matchClass Bson.sortKey bound id := by
  have accepted : comparisonAccepts "$lt" bound [id] = belowOperand bound id := by
    simp [comparisonAccepts]
  rw [accepted, Bool.eq_iff_iff]
  simp only [CutPoints.below, belowOperand, decide_eq_true_eq]
  exact and_congr_left fun _ => eq_comm

theorem idRange_accepts (doc : CollectionDoc) (range : Option Bson × Option Bson) :
    boundAccepts regex doc.document.fields (idRange range.1 range.2) =
      CutPoints.inRange Bson.matchClass Bson.sortKey doc.id range := by
  have plain : startsWithDollar "_id" = false := by decide
  rcases range with ⟨_ | low, _ | high⟩
  · rfl
  · show accepts regex [("_id", .document [("$lt", high)])] doc.document.fields = _
    rw [accepts_comparison regex plain (by simp), reachPath_id, lt_accepts]
    rfl
  · show accepts regex [("_id", .document [("$gte", low)])] doc.document.fields = _
    rw [accepts_comparison regex plain (by simp), reachPath_id, gte_accepts]
    simp [CutPoints.inRange]
  · show accepts regex [("_id", .document [("$gte", low), ("$lt", high)])] doc.document.fields = _
    rw [accepts_pair regex plain (by simp) (by simp), reachPath_id, gte_accepts, lt_accepts]
    rfl

end

theorem quantiles_mem {sortedIds : List Bson} {n : Nat} {id : Bson} (member : id ∈ quantiles sortedIds n) :
    id ∈ sortedIds := by
  obtain ⟨i, -, found⟩ := List.mem_filterMap.mp member
  exact List.mem_of_getElem? found

theorem quantiles_sorted {sortedIds : List Bson} {n : Nat}
    (sorted : sortedIds.Pairwise fun a b => a.sortKey ≤ b.sortKey) :
    (quantiles sortedIds n).Pairwise fun a b => a.sortKey ≤ b.sortKey := by
  unfold quantiles
  rw [List.pairwise_filterMap]
  apply (List.pairwise_lt_range' 1).imp
  intro i j before a first b second
  obtain ⟨iBound, rfl⟩ := List.getElem?_eq_some_iff.mp first
  obtain ⟨jBound, rfl⟩ := List.getElem?_eq_some_iff.mp second
  have ranks : i * sortedIds.length / min n sortedIds.length ≤
      j * sortedIds.length / min n sortedIds.length :=
    Nat.div_le_div_right (Nat.mul_le_mul_right _ before.le)
  rcases ranks.eq_or_lt with same | earlier
  · simp only [same]
    exact le_rfl
  · exact List.pairwise_iff_getElem.mp sorted _ _ iBound jBound earlier

theorem quantiles_repeat {collection : List CollectionDoc} {sortedIds : List Bson}
    (sampled : ∀ id ∈ sortedIds, ∃ doc ∈ collection, doc.id = id) (n : Nat) :
    CutPoints.Repeats Bson.eq (quantiles sortedIds n) := by
  have distinct : ∀ id ∈ quantiles sortedIds n, id.distinctKeys = true := by
    intro id member
    obtain ⟨doc, -, rfl⟩ := sampled id (quantiles_mem member)
    exact lookup_distinct doc.stored
  constructor
  · intro a first b second
    exact Bson.eq_symm a b (distinct a first) (distinct b second)
  · intro a _ b _ c _
    exact Bson.eq_trans a b c

/-- Every stored document lies in exactly one partition precisely when the scan
is not split, or around every cut point of another class each id has one of its own. -/
theorem scanned_once_iff (regex : RegexEngine) (collection : List CollectionDoc) (sortedIds : List Bson)
    (n : Nat) (sampled : ∀ id ∈ sortedIds, ∃ doc ∈ collection, doc.id = id)
    (sorted : sortedIds.Pairwise fun a b => a.sortKey ≤ b.sortKey) :
    (∀ doc ∈ collection,
        (partitionBounds sortedIds n).countP (boundAccepts regex doc.document.fields) = 1) ↔
      n ≤ 1 ∨ sortedIds.length < 2 ∨ ∀ doc ∈ collection, Shielded (IsCut sortedIds n) doc.id := by
  by_cases whole : n ≤ 1 ∨ sortedIds.length < 2
  · have single : partitionBounds sortedIds n = [none] := by rw [partitionBounds, if_pos whole]
    rw [single, ← or_assoc]
    exact iff_of_true (fun doc _ => by simp [boundAccepts]) (.inl whole)
  · have split : 1 < n := by omega
    have enough : 2 ≤ sortedIds.length := by omega
    have kept : (CutPoints.dropRepeats Bson.eq (quantiles sortedIds n)).Sublist (quantiles sortedIds n) :=
      CutPoints.dropRepeats_sublist _
    have cutsSorted := (quantiles_sorted (n := n) sorted).sublist kept
    have each : ∀ doc : CollectionDoc,
        (partitionBounds sortedIds n).countP (boundAccepts regex doc.document.fields) = 1 ↔
          Shielded (IsCut sortedIds n) doc.id := by
      intro doc
      rw [partitionBounds_ranges split enough, List.countP_map]
      have tests : (boundAccepts regex doc.document.fields ∘ fun range : Option Bson × Option Bson =>
          idRange range.1 range.2) = CutPoints.inRange Bson.matchClass Bson.sortKey doc.id := by
        funext range
        exact idRange_accepts regex doc range
      rw [tests, CutPoints.countP_ranges (fun a b order => sortKey_matchClass order) cutsSorted]
      simp only [CutPoints.mem_dropRepeats (quantiles_repeat sampled n), Shielded, IsCut]
    simp only [each]
    constructor
    · exact fun shielded => .inr (.inr shielded)
    · rintro (few | few | shielded)
      · omega
      · omega
      · exact shielded

/-- Two numeric ids and a textual one; only the numbers are sampled. -/
def mixedIds : List CollectionDoc :=
  [⟨⟨[("_id", .int32 1)], rfl⟩, .int32 1, rfl, rfl⟩, ⟨⟨[("_id", .int32 2)], rfl⟩, .int32 2, rfl, rfl⟩,
    ⟨⟨[("_id", .string "a")], rfl⟩, .string "a", rfl, rfl⟩]

def sampledNumbers : List Bson := [.int32 1, .int32 2]

theorem sampledNumbers_sampled : ∀ id ∈ sampledNumbers, ∃ doc ∈ mixedIds, doc.id = id := by
  simp [sampledNumbers, mixedIds]

theorem sampledNumbers_sorted : sampledNumbers.Pairwise fun a b => a.sortKey ≤ b.sortKey := by
  have order : (Bson.int32 1).sortKey < (Bson.int32 2).sortKey := by
    simp [Bson.sortKey, Bson.typeClass, Bson.payload, List.cons_lt_cons_iff]
  simp [sampledNumbers, order.le]

theorem textual_id_unscanned : ¬∀ (regex : RegexEngine) (collection : List CollectionDoc)
    (sortedIds : List Bson) (n : Nat), (∀ id ∈ sortedIds, ∃ doc ∈ collection, doc.id = id) →
      (sortedIds.Pairwise fun a b => a.sortKey ≤ b.sortKey) →
      ∀ doc ∈ collection,
        (partitionBounds sortedIds n).countP (boundAccepts regex doc.document.fields) = 1 := by
  intro claimed
  have once := claimed noRegex mixedIds sampledNumbers 2 sampledNumbers_sampled sampledNumbers_sorted
    mixedIds[2] (by simp [mixedIds])
  revert once
  decide +kernel

/-- The numbers alone are each scanned once; a NaN beside them is scanned by no partition. -/
theorem scanned_once_iff_mixedIds :
    (∀ doc ∈ mixedIds.take 2,
        (partitionBounds sampledNumbers 2).countP (boundAccepts noRegex doc.document.fields) = 1) ∧
      ¬∀ doc ∈ ⟨⟨[("_id", .double F64.nan)], rfl⟩, .double F64.nan, rfl, rfl⟩ :: mixedIds.take 2,
        (partitionBounds sampledNumbers 2).countP (boundAccepts noRegex doc.document.fields) = 1 := by
  have stored : ∀ id ∈ sampledNumbers, ∃ doc ∈ mixedIds.take 2, doc.id = id := by
    simp [sampledNumbers, mixedIds]
  have isCut : ∀ cut, IsCut sampledNumbers 2 cut ↔ cut = .int32 2 := by
    intro cut
    have cuts : CutPoints.dropRepeats Bson.eq (quantiles sampledNumbers 2) = [.int32 2] := rfl
    rw [IsCut, ← CutPoints.mem_dropRepeats (quantiles_repeat stored 2), cuts, List.mem_singleton]
  constructor
  · refine (scanned_once_iff noRegex _ sampledNumbers 2 stored sampledNumbers_sorted).mpr (.inr (.inr ?_))
    have alike : ∀ doc ∈ mixedIds.take 2, (Bson.int32 2).matchClass = doc.id.matchClass := by decide +kernel
    intro doc member cut chosen
    rw [(isCut cut).mp chosen, alike doc member]
    exact ⟨fun earlier => absurd earlier (lt_irrefl _), fun later => absurd later (lt_irrefl _)⟩
  · intro once
    rcases (scanned_once_iff noRegex _ sampledNumbers 2
        (fun id member => (stored id member).imp fun doc held => ⟨List.mem_cons_of_mem _ held.1, held.2⟩)
        sampledNumbers_sorted).mp once with few | few | shielded
    · exact absurd few (by decide)
    · exact absurd few (by decide)
    · obtain ⟨own, chosen, same, -⟩ := (shielded _ List.mem_cons_self (.int32 2) ((isCut _).mpr rfl)).2 (by decide)
      rw [(isCut own).mp chosen] at same
      exact absurd same (by decide)

end Auger
