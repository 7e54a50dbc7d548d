import Auger.Projection

set_option autoImplicit false

/-! The paths a `$project` document lists. -/

namespace Auger

/-- The keys a `$project` document maps to 1. -/
def includedPaths (spec : Fields) : List String :=
  spec.filterMap fun entry =>
    match entry.2 with
    | .int32 mark => if mark = 1 then some entry.1 else none
    | _ => none

theorem mem_includedPaths {spec : Fields} {path : String} :
    path ∈ includedPaths spec ↔ (path, .int32 1) ∈ spec := by
  rw [includedPaths, List.mem_filterMap]
  constructor
  · rintro ⟨⟨key, value⟩, inside, read⟩
    cases value
    case int32 mark =>
      simp only [Option.ite_none_right_eq_some, Option.some.injEq] at read
      rw [← read.1, ← read.2]
      exact inside
    all_goals cases read
  · intro inside
    exact ⟨_, inside, rfl⟩

theorem Fields.keys_insert (key : String) (value : Bson) (fields : Fields) :
    (Fields.insert key value fields).map Prod.fst =
      if key ∈ fields.map Prod.fst then fields.map Prod.fst else fields.map Prod.fst ++ [key] := by
  induction fields with
  | nil => rfl
  | cons entry rest ih =>
      simp only [Fields.insert, List.map_cons, List.mem_cons]
      by_cases same : entry.1 = key
      · rw [if_pos same, if_pos (.inl same.symm)]
        rfl
      · rw [if_neg same, List.map_cons, ih]
        by_cases later : key ∈ rest.map Prod.fst
        · rw [if_pos later, if_pos (.inr later)]
        · rw [if_neg later, if_neg (by simp [later, Ne.symm same]), List.cons_append]

theorem Fields.insert_nodup (key : String) (value : Bson) {fields : Fields}
    (distinct : (fields.map Prod.fst).Nodup) : ((Fields.insert key value fields).map Prod.fst).Nodup := by
  rw [Fields.keys_insert]
  split_ifs with inside
  · exact distinct
  · rw [List.nodup_append]
    refine ⟨distinct, List.nodup_singleton key, ?_⟩
    intro old earlier new last same
    rw [List.mem_singleton] at last
    exact inside (by rw [← last, ← same]; exact earlier)

theorem included_nodup (paths : List String) {start : Fields} (distinct : (start.map Prod.fst).Nodup) :
    ((paths.foldl (fun projection path => Fields.insert path (.int32 1) projection) start).map Prod.fst).Nodup := by
  induction paths generalizing start with
  | nil => exact distinct
  | cons path rest ih => exact ih (Fields.insert_nodup path _ distinct)

theorem projectionDoc_nodup (paths : List String) : ((projectionDoc paths).map Prod.fst).Nodup := by
  have included := @included_nodup (keptPaths paths) [] List.nodup_nil
  rw [projectionDoc_eq]
  simp only
  split_ifs
  · exact included
  · exact Fields.insert_nodup "_id" _ included

theorem includedPaths_sublist (spec : Fields) : (includedPaths spec).Sublist (spec.map Prod.fst) := by
  rw [includedPaths, ← List.filterMap_eq_map]
  induction spec with
  | nil => exact .slnil
  | cons entry rest ih =>
      rcases entry with ⟨key, value⟩
      rw [List.filterMap_cons, List.filterMap_cons]
      cases value
      case int32 mark =>
        by_cases one : mark = 1
        · simpa [one] using ih
        · simpa [one] using ih.cons key
      all_goals exact ih.cons key

/-- Of two paths that a third runs through, one runs through the other. -/
theorem PathBelow.comparable {first second path : String} (one : PathBelow first path)
    (two : PathBelow second path) : first = second ∨ PathBelow first second ∨ PathBelow second first := by
  obtain ⟨rest, rfl⟩ := one
  obtain ⟨more, same⟩ := two
  have chars := congrArg String.toList same
  simp only [String.toList_append, List.append_assoc] at chars
  have below : ∀ {a b : String} {tail : List Char}, b.toList = a.toList ++ '.' :: tail → PathBelow a b := by
    intro a b tail split
    refine ⟨String.ofList tail, ?_⟩
    rw [← String.toList_inj, split]
    simp [String.toList_append]
  rcases List.append_eq_append_iff.mp chars with ⟨middle, longer, tail⟩ | ⟨middle, longer, tail⟩
  all_goals
    cases middle with
    | nil =>
        rw [List.append_nil] at longer
        first
        | exact .inl (String.toList_inj.mp longer.symm)
        | exact .inl (String.toList_inj.mp longer)
    | cons c middle =>
        have dot : c = '.' := by
          have head := congrArg List.head? tail
          simpa using head.symm
        subst dot
        first
        | exact .inr (.inl (below longer))
        | exact .inr (.inr (below longer))

theorem mem_included_iff {paths : List String} {path : String} :
    path ∈ includedPaths (projectionDoc paths) ↔ path ∈ keptPaths paths := by
  rw [mem_includedPaths]
  constructor
  · rw [projectionDoc_eq]
    simp only
    intro inside
    have included : (path, Bson.int32 1) ∈
        (keptPaths paths).foldl (fun projection path => Fields.insert path (.int32 1) projection) [] := by
      split_ifs at inside
      · exact inside
      · rcases Fields.mem_insert inside with marked | earlier
        · cases marked
        · exact earlier
    rcases mem_included included with ⟨other, kept, same⟩ | nothing
    · cases same
      exact kept
    · cases nothing
  · exact projectionDoc_lists

theorem id_below_iff {path : String} : "_id.".toList.isPrefixOf path.toList = true ↔ PathBelow "_id" path := by
  refine ⟨fun begins => ?_, id_below⟩
  obtain ⟨tail, same⟩ := List.isPrefixOf_iff_prefix.mp begins
  refine ⟨String.ofList tail, ?_⟩
  rw [← String.toList_inj, ← same]
  simp [String.toList_append]

theorem suppresses_kept_iff (paths : List String) :
    ("_id", .int32 0) ∈ projectionDoc paths ↔ ¬∃ kept ∈ keptPaths paths, kept = "_id" ∨ PathBelow "_id" kept := by
  have wants : ((keptPaths paths).any fun path => path == "_id" || "_id.".toList.isPrefixOf path.toList) = true ↔
      ∃ kept ∈ keptPaths paths, kept = "_id" ∨ PathBelow "_id" kept := by
    simp only [List.any_eq_true, Bool.or_eq_true, beq_iff_eq, id_below_iff]
  rw [← wants, projectionDoc_eq]
  simp only
  split_ifs with wanted
  · simp only [not_true, iff_false, wanted]
    intro inside
    rcases mem_included inside with ⟨path, -, same⟩ | nothing
    · cases same
    · cases nothing
  · simp only [wanted, Fields.mem_insert_self]
    exact iff_of_true trivial (by simp)

theorem suppresses_iff (paths : List String) :
    ("_id", .int32 0) ∈ projectionDoc paths ↔ ∀ path ∈ paths, path ≠ "_id" ∧ ¬PathBelow "_id" path := by
  rw [suppresses_kept_iff]
  constructor
  · intro unwanted path requested
    have reaches : ¬(path = "_id" ∨ PathBelow "_id" path) := by
      intro asks
      apply unwanted
      obtain ⟨kept, inside, above⟩ := kept_above requested
      refine ⟨kept, inside, ?_⟩
      rcases above with rfl | above
      · exact asks
      · rcases asks with rfl | below
        · exact absurd above not_below_id
        · rcases above.comparable below with same | inner | outer
          · exact .inl same
          · exact absurd inner not_below_id
          · exact .inr outer
    exact not_or.mp reaches
  · rintro none ⟨kept, inside, asks⟩
    exact not_or.mpr (none kept (mem_keptPaths.mp inside).1) asks

/-- The paths a `$project` document marks 1 are distinct requested ones, none running
through another, every requested path is one of them or runs through one, and `_id`
is left out exactly when nothing of it is requested. -/
theorem projectionDoc_covers (paths : List String) :
    (includedPaths (projectionDoc paths)).Nodup ∧
    (∀ first ∈ includedPaths (projectionDoc paths), ∀ second ∈ includedPaths (projectionDoc paths),
      ¬PathBelow first second) ∧
    (∀ path ∈ includedPaths (projectionDoc paths), path ∈ paths) ∧
    (∀ path ∈ paths, ∃ kept ∈ includedPaths (projectionDoc paths), kept = path ∨ PathBelow kept path) ∧
    (("_id", .int32 0) ∈ projectionDoc paths ↔ ∀ path ∈ paths, path ≠ "_id" ∧ ¬PathBelow "_id" path) := by
  refine ⟨(projectionDoc_nodup paths).sublist (includedPaths_sublist _), ?_, ?_, ?_, suppresses_iff paths⟩
  · intro first one second two
    exact keptPaths_apart (mem_included_iff.mp one) (mem_included_iff.mp two)
  · intro path included
    exact (mem_keptPaths.mp (mem_included_iff.mp included)).1
  · intro path requested
    obtain ⟨kept, inside, above⟩ := kept_above requested
    exact ⟨kept, mem_included_iff.mpr inside, above⟩

end Auger
