import Auger.ProjectionPaths
import Auger.General.SortKeys

set_option autoImplicit false

/-! What a plan asks for, and when the server answers its pipeline with it. -/

namespace Auger

open General

/-- A `$sort` document with keys in their order. -/
def sortStage (keys : List (String × SortDir)) : Fields := keys.map fun entry => (entry.1, .int32 entry.2.asI32)

/-- The direction a path is listed with last. -/
def lastDirection (sort : List (String × SortDir)) (path : String) : SortDir := (sort.reverse.lookup path).getD .asc

/-- Each path once: where it is listed first, with the direction it is listed with last. -/
def settledKeys (sort : List (String × SortDir)) : List (String × SortDir) :=
  (sort.map Prod.fst).eraseDups.map fun path => (path, lastDirection sort path)

theorem eraseDups_concat (paths : List String) (path : String) :
    (paths ++ [path]).eraseDups = if path ∈ paths then paths.eraseDups else paths.eraseDups ++ [path] := by
  rw [List.eraseDups_append, List.removeAll, List.filter_singleton]
  split_ifs with listed
  · simp [listed]
  · simp [listed, List.eraseDups_cons]

theorem eraseDups_nodup (paths : List String) : paths.eraseDups.Nodup := by
  induction paths using List.reverseRecOn with
  | nil => exact List.nodup_nil
  | append_singleton paths path ih =>
      rw [eraseDups_concat]
      split_ifs with listed
      · exact ih
      · rw [List.nodup_append]
        refine ⟨ih, List.nodup_singleton path, ?_⟩
        rintro old earlier new last rfl
        rw [List.mem_singleton] at last
        exact listed (List.mem_eraseDups.mp (last ▸ earlier))

theorem lastDirection_concat (sort : List (String × SortDir)) (entry : String × SortDir) (path : String) :
    lastDirection (sort ++ [entry]) path = if path = entry.1 then entry.2 else lastDirection sort path := by
  rw [lastDirection, List.reverse_concat, List.lookup_cons, lastDirection]
  by_cases same : path = entry.1
  · simp [same]
  · simp [same, beq_eq_false_iff_ne.mpr same]

theorem settledKeys_nodup (sort : List (String × SortDir)) : ((settledKeys sort).map Prod.fst).Nodup := by
  have paths : (settledKeys sort).map Prod.fst = (sort.map Prod.fst).eraseDups := by
    rw [settledKeys, List.map_map]
    exact List.map_id _
  rw [paths]
  exact eraseDups_nodup _

theorem settledKeys_listed {sort : List (String × SortDir)} {entry : String × SortDir}
    (again : entry.1 ∈ sort.map Prod.fst) :
    settledKeys (sort ++ [entry]) = (sort.map Prod.fst).eraseDups.map fun path =>
      (path, if path = entry.1 then entry.2 else lastDirection sort path) := by
  rw [settledKeys, List.map_append, List.map_singleton, eraseDups_concat, if_pos again]
  apply List.map_congr_left
  intro path _
  rw [lastDirection_concat]

theorem settledKeys_fresh {sort : List (String × SortDir)} {entry : String × SortDir}
    (fresh : entry.1 ∉ sort.map Prod.fst) : settledKeys (sort ++ [entry]) = settledKeys sort ++ [entry] := by
  rw [settledKeys, List.map_append, List.map_singleton, eraseDups_concat, if_neg fresh, List.map_append,
    List.map_singleton, lastDirection_concat, if_pos rfl, settledKeys]
  congr 1
  apply List.map_congr_left
  intro path member
  have other : path ≠ entry.1 := by
    rintro rfl
    exact fresh (List.mem_eraseDups.mp member)
  rw [lastDirection_concat, if_neg other]

theorem Fields.insert_map {paths : List String} (distinct : paths.Nodup) (values : String → Bson) (path : String)
    (value : Bson) :
    Fields.insert path value (paths.map fun other => (other, values other)) =
      if path ∈ paths then paths.map fun other => (other, if other = path then value else values other)
      else paths.map (fun other => (other, values other)) ++ [(path, value)] := by
  induction paths with
  | nil => rfl
  | cons first rest ih =>
      obtain ⟨fresh, later⟩ := List.nodup_cons.mp distinct
      rw [List.map_cons, Fields.insert]
      by_cases same : first = path
      · subst same
        have kept : (rest.map fun other => (other, if other = first then value else values other)) =
            rest.map fun other => (other, values other) := by
          apply List.map_congr_left
          intro other member
          rw [if_neg (by rintro rfl; exact fresh member)]
        rw [if_pos rfl, if_pos (by simp), List.map_cons, if_pos rfl, kept]
      · rw [if_neg same, ih later]
        by_cases listed : path ∈ rest
        · rw [if_pos listed, if_pos (List.mem_cons_of_mem first listed), List.map_cons, if_neg same]
        · rw [if_neg listed, if_neg (by simp [listed, Ne.symm same]), List.cons_append]

theorem sortDoc_eq (sort : List (String × SortDir)) : MongoPlan.sortDoc sort = sortStage (settledKeys sort) := by
  induction sort using List.reverseRecOn with
  | nil => rfl
  | append_singleton sort entry ih =>
      have inserted : MongoPlan.sortDoc (sort ++ [entry]) =
          Fields.insert entry.1 (.int32 entry.2.asI32) (MongoPlan.sortDoc sort) := by
        rw [MongoPlan.sortDoc, List.foldl_append]
        rfl
      have before : sortStage (settledKeys sort) =
          (sort.map Prod.fst).eraseDups.map fun path => (path, .int32 (lastDirection sort path).asI32) := by
        rw [sortStage, settledKeys, List.map_map]
        rfl
      rw [inserted, ih, before, Fields.insert_map (eraseDups_nodup _)]
      by_cases again : entry.1 ∈ sort.map Prod.fst
      · rw [if_pos (List.mem_eraseDups.mpr again), settledKeys_listed again, sortStage, List.map_map]
        apply List.map_congr_left
        intro path _
        rw [Function.comp_apply]
        split_ifs <;> rfl
      · rw [if_neg fun member => again (List.mem_eraseDups.mp member), settledKeys_fresh again, ← before, sortStage,
          sortStage, List.map_append, List.map_singleton]

section
variable {κ : Type} [LinearOrder κ] (key : String → SortDir → Document → κ)

def along (entry : String × SortDir) (x y : Document) : Ordering :=
  match entry.2 with
  | .asc => compare (key entry.1 .asc x) (key entry.1 .asc y)
  | .desc => compare (key entry.1 .desc y) (key entry.1 .desc x)

instance (entry : String × SortDir) : Std.TransCmp (along key entry) := by
  rcases entry with ⟨path, dir⟩
  cases dir with
  | asc => exact inferInstanceAs (Std.TransCmp (compareOn (key path .asc)))
  | desc => exact inferInstanceAs (Std.TransCmp fun x y => compareOn (key path .desc) y x)

def ordering (keys : List (String × SortDir)) : Document → Document → Ordering := inTurn (keys.map (along key))

instance (keys : List (String × SortDir)) : Std.TransCmp (ordering key keys) := by
  apply inTurn_trans
  intro comparison member
  obtain ⟨entry, -, rfl⟩ := List.mem_map.mp member
  infer_instance

/-- What is relied on of `$sort`: it arranges the documents by the keys in their order. -/
def SortsBy (sort : Fields → List Document → List Document) : Prop :=
  ∀ keys : List (String × SortDir), (keys.map Prod.fst).Nodup → ∀ docs,
    (sort (sortStage keys) docs).Perm docs ∧ Arranged (ordering key keys) (sort (sortStage keys) docs)

def readKeys (spec : Fields) : List (String × SortDir) :=
  spec.map fun entry => (entry.1, match entry.2 with
    | .int32 mark => if mark = 1 then .asc else .desc
    | _ => .desc)

theorem readKeys_sortStage (keys : List (String × SortDir)) : readKeys (sortStage keys) = keys := by
  rw [readKeys, sortStage, List.map_map]
  refine Eq.trans (List.map_congr_left ?_) (List.map_id keys)
  rintro ⟨path, dir⟩ _
  cases dir <;> rfl

def stableSort (spec : Fields) (docs : List Document) : List Document :=
  docs.mergeSort fun x y => (ordering key (readKeys spec) x y).isLE

theorem stableSort_sorts : SortsBy key (stableSort key) := by
  intro keys _ docs
  rw [stableSort, readKeys_sortStage]
  refine ⟨List.mergeSort_perm docs _, List.pairwise_mergeSort (fun _ _ _ => Std.TransCmp.isLE_trans) ?_ docs⟩
  intro x y
  rw [Bool.or_eq_true]
  exact isLE_total x y

end

/-- A path and all that run through it. -/
def AtOrBelow (start path : String) : Prop := start = path ∨ PathBelow start path

theorem AtOrBelow.trans {first second third : String} (one : AtOrBelow first second) (two : AtOrBelow second third) :
    AtOrBelow first third := by
  rcases one with rfl | ⟨rest, rfl⟩
  · exact two
  · rcases two with rfl | ⟨more, rfl⟩
    · exact .inr ⟨rest, rfl⟩
    · exact .inr ⟨rest ++ "." ++ more, by simp only [String.append_assoc]⟩

def Asked (paths : List String) (path : String) : Prop := ∃ start ∈ paths, AtOrBelow start path

/-- The paths an inclusion leaves: `_id` too, unless it mentions it or part of it. -/
def Sent (spec : Fields) (path : String) : Prop :=
  Asked (includedPaths spec) path ∨ (AtOrBelow "_id" path ∧ ∀ mentioned ∈ spec.map Prod.fst, ¬AtOrBelow "_id" mentioned)

/-- What is relied on of `$project`: an inclusion cuts documents to the paths it leaves. -/
def ProjectsTo (restrict : (String → Prop) → Document → Document) (project : Fields → Document → Document) : Prop :=
  ∀ spec, Inclusion spec → includedPaths spec ≠ [] → ∀ doc, project spec doc = restrict (Sent spec) doc

theorem projectionDoc_mentions (paths : List String) :
    ∃ mentioned ∈ (projectionDoc paths).map Prod.fst, AtOrBelow "_id" mentioned := by
  by_cases suppressed : ("_id", .int32 0) ∈ projectionDoc paths
  · exact ⟨"_id", List.mem_map_of_mem suppressed, .inl rfl⟩
  · rw [suppresses_kept_iff, not_not] at suppressed
    obtain ⟨kept, inside, wants⟩ := suppressed
    exact ⟨kept, List.mem_map_of_mem (projectionDoc_lists inside), wants.imp_left Eq.symm⟩

theorem sent_projectionDoc (paths : List String) : Sent (projectionDoc paths) = Asked paths := by
  funext path
  apply propext
  constructor
  · rintro (⟨start, included, covers⟩ | ⟨-, unmentioned⟩)
    · exact ⟨start, (mem_keptPaths.mp (mem_included_iff.mp included)).1, covers⟩
    · obtain ⟨mentioned, inside, covers⟩ := projectionDoc_mentions paths
      exact absurd covers (unmentioned mentioned inside)
  · rintro ⟨start, listed, covers⟩
    obtain ⟨kept, inside, above⟩ := kept_above listed
    exact .inl ⟨kept, mem_included_iff.mpr inside, AtOrBelow.trans above covers⟩

/-- A document cut to the paths of a plan, all of it where there are none. -/
def projected (restrict : (String → Prop) → Document → Document) (paths : List String) (doc : Document) : Document :=
  if paths = [] then doc else restrict (Asked paths) doc

theorem delivered_eq {restrict : (String → Prop) → Document → Document} {server : AggregationServer}
    (projects : ProjectsTo restrict server.project) (paths : List String) :
    delivered server paths = projected restrict paths := by
  funext doc
  rw [delivered, projected]
  by_cases all : paths = []
  · rw [if_pos (List.isEmpty_iff.mpr all), if_pos all]
  · rw [if_neg fun none => all (List.isEmpty_iff.mp none), if_neg all, projects _ (projectionDoc_inclusion paths),
      sent_projectionDoc]
    obtain ⟨first, listed⟩ := List.exists_mem_of_ne_nil paths all
    obtain ⟨kept, inside, -⟩ := kept_above listed
    exact List.ne_nil_of_mem (mem_included_iff.mpr inside)

def skipCount (skip : Option Int64) : Nat := (skip.elim 0 fun n => max n.toInt 0).toNat

def cutTo (limit : Option Int64) (docs : List Document) : List Document :=
  match limit with
  | some n => if 0 ≤ n then docs.take n.toInt.toNat else docs
  | none => docs

section
variable {κ : Type} [LinearOrder κ] (key : String → SortDir → Document → κ)
  (restrict : (String → Prop) → Document → Document) (server : AggregationServer)

/-- The passing documents, arranged by the keys as listed, without the skipped ones, cut to
the limit, and projected. -/
def Means (plan : MongoPlan) (docs out : List Document) : Prop :=
  ∃ arranged : List Document, arranged.Perm (docs.filter (plan.passes server.regex)) ∧
    Arranged (ordering key plan.sort) arranged ∧
    (plan.sort = [] → arranged = docs.filter (plan.passes server.regex)) ∧
    out = (cutTo plan.limit (arranged.drop (skipCount plan.skip))).map (projected restrict plan.projection)

/-- However the server arranges documents that tie, it answers the plan's pipeline with what
the plan means. -/
def Answers (plan : MongoPlan) : Prop :=
  ∀ sort, SortsBy key sort → ∀ docs, ∃ out,
    AggregationServer.aggregate { server with sort } plan.toPipeline docs = some out ∧
      Means key restrict server plan docs out

end

section
variable (server : AggregationServer)

theorem aggregate_sort (sort : List (String × SortDir)) (docs : List Document) :
    server.aggregate (if sort.isEmpty then [] else [[("$sort", .document (MongoPlan.sortDoc sort))]]) docs =
      some (if sort.isEmpty then docs else server.sort (sortStage (settledKeys sort)) docs) := by
  cases sort.isEmpty with
  | true => rfl
  | false =>
      rw [sortDoc_eq, if_neg Bool.false_ne_true, if_neg Bool.false_ne_true]
      rfl

theorem aggregate_skip (skip : Option Int64) (docs : List Document) :
    server.aggregate ((skip.filter fun skip => decide (0 < skip)).toList.map
      fun skip => [("$skip", .int64 skip)]) docs = some (docs.drop (skipCount skip)) := by
  cases skip with
  | none => rfl
  | some n =>
      rw [skipCount, Option.elim_some]
      by_cases positive : 0 < n
      · have above : 0 < n.toInt := Int64.lt_iff_toInt_lt.mp positive
        have kept : (some n).filter (fun skip => decide (0 < skip)) = some n := by simp [Option.filter, positive]
        have allowed : 0 ≤ n := Int64.le_iff_toInt_le.mpr above.le
        rw [kept, max_eq_left above.le]
        simp [AggregationServer.aggregate, AggregationServer.runStage, allowed]
      · have below : n.toInt ≤ 0 := by
          rw [Int64.lt_iff_toInt_lt, not_lt] at positive
          exact positive
        have dropped : (some n).filter (fun skip => decide (0 < skip)) = none := by simp [Option.filter, positive]
        rw [dropped, max_eq_right below]
        rfl

theorem aggregate_cut {limit : Option Int64} (nonzero : limit ≠ some 0) (docs : List Document) :
    server.aggregate ((limit.filter fun limit => decide (0 ≤ limit)).toList.map
      fun limit => [("$limit", .int64 limit)]) docs = some (cutTo limit docs) := by
  cases limit with
  | none => rfl
  | some n =>
      rw [cutTo]
      by_cases allowed : 0 ≤ n
      · have positive : 0 < n := by
          have other : n.toInt ≠ 0 := fun zero => nonzero (congrArg some (Int64.toInt_inj.mp zero))
          have least : 0 ≤ n.toInt := Int64.le_iff_toInt_le.mp allowed
          exact Int64.lt_iff_toInt_lt.mpr (lt_of_le_of_ne least (Ne.symm other))
        have kept : (some n).filter (fun limit => decide (0 ≤ limit)) = some n := by simp [Option.filter, allowed]
        rw [kept, if_pos allowed]
        simp [AggregationServer.aggregate, AggregationServer.runStage, positive]
      · have dropped : (some n).filter (fun limit => decide (0 ≤ limit)) = none := by simp [Option.filter, allowed]
        rw [dropped, if_neg allowed]
        rfl

theorem aggregate_pipeline {plan : MongoPlan} (nonzero : plan.limit ≠ some 0) (docs : List Document) :
    server.aggregate plan.toPipeline docs =
      some ((cutTo plan.limit ((if plan.sort.isEmpty then docs.filter (plan.passes server.regex)
        else server.sort (sortStage (settledKeys plan.sort)) (docs.filter (plan.passes server.regex))).drop
          (skipCount plan.skip))).map (delivered server plan.projection)) := by
  rw [MongoPlan.toPipeline, aggregate_append, aggregate_append, aggregate_append, aggregate_append, aggregate_match,
    Option.bind_some, aggregate_sort, Option.bind_some, aggregate_skip, Option.bind_some, aggregate_cut server nonzero,
    Option.bind_some, aggregate_project]

theorem aggregate_zero {plan : MongoPlan} (zero : plan.limit = some 0) (docs : List Document) :
    server.aggregate plan.toPipeline docs = none := by
  have refused : ∀ docs, server.aggregate ((plan.limit.filter fun limit => decide (0 ≤ limit)).toList.map
      fun limit => [("$limit", .int64 limit)]) docs = none := by
    intro docs
    rw [zero]
    rfl
  rw [MongoPlan.toPipeline, aggregate_append, aggregate_append, aggregate_append, aggregate_append, aggregate_match,
    Option.bind_some, aggregate_sort, Option.bind_some, aggregate_skip, Option.bind_some, refused]
  rfl

end

theorem map_cutTo {β : Type} (image : Document → β) (limit : Option Int64) {docs others : List Document}
    (same : docs.map image = others.map image) : (cutTo limit docs).map image = (cutTo limit others).map image := by
  cases limit with
  | none => exact same
  | some n =>
      simp only [cutTo]
      split_ifs
      · rw [List.map_take, List.map_take, same]
      · exact same

theorem head_cutTo {limit : Option Int64} (nonzero : limit ≠ some 0) (doc : Document) (docs : List Document) :
    (cutTo limit (doc :: docs)).head? = some doc := by
  cases limit with
  | none => rfl
  | some n =>
      simp only [cutTo]
      split_ifs with allowed
      · have other : n.toInt ≠ 0 := fun zero => nonzero (congrArg some (Int64.toInt_inj.mp zero))
        have least : 0 ≤ n.toInt := Int64.le_iff_toInt_le.mp allowed
        obtain ⟨m, count⟩ : ∃ m, n.toInt.toNat = m + 1 := Nat.exists_eq_succ_of_ne_zero (by omega)
        rw [count, List.take_succ_cons, List.head?_cons]
      · rfl

theorem drop_copies (n : Nat) (doc : Document) (docs : List Document) :
    (List.replicate (n + 1) doc ++ docs).drop n = doc :: docs := by
  rw [List.replicate_succ', List.append_assoc, List.drop_left' List.length_replicate, List.singleton_append]

section
variable {κ : Type} [LinearOrder κ] {key : String → SortDir → Document → κ}
  {restrict : (String → Prop) → Document → Document} {server : AggregationServer}

theorem answers_of_agree (projects : ProjectsTo restrict server.project) {plan : MongoPlan}
    (nonzero : plan.limit ≠ some 0)
    (agree : ∀ x y, plan.passes server.regex x = true → plan.passes server.regex y = true →
      projected restrict plan.projection x ≠ projected restrict plan.projection y →
      ordering key plan.sort x y = .lt → ordering key (settledKeys plan.sort) x y = .lt) :
    Answers key restrict server plan := by
  intro sort sorts docs
  refine ⟨_, aggregate_pipeline _ nonzero docs, ?_⟩
  have image : delivered { server with sort } plan.projection = projected restrict plan.projection :=
    delivered_eq projects plan.projection
  rw [image]
  by_cases unsorted : plan.sort = []
  · refine ⟨docs.filter (plan.passes server.regex), .refl _, ?_, fun _ => rfl, ?_⟩
    · rw [unsorted]
      exact List.pairwise_of_forall fun _ _ => rfl
    · rw [if_pos (List.isEmpty_iff.mpr unsorted)]
  · obtain ⟨perm, arranged⟩ := sorts (settledKeys plan.sort) (settledKeys_nodup plan.sort)
      (docs.filter (plan.passes server.regex))
    have passing : ∀ x ∈ sort (sortStage (settledKeys plan.sort)) (docs.filter (plan.passes server.regex)),
        plan.passes server.regex x = true := by
      intro x member
      exact (List.mem_filter.mp (perm.mem_iff.mp member)).2
    obtain ⟨t, moved, ordered, images⟩ : ∃ t : List Document, t.Perm _ ∧ Arranged (ordering key plan.sort) t ∧
        t.map (projected restrict plan.projection) = _ :=
      rearrange arranged fun x one y other => agree x y (passing x one) (passing y other)
    refine ⟨t, moved.trans perm, ordered, fun none => absurd none unsorted, ?_⟩
    rw [if_neg fun none => unsorted (List.isEmpty_iff.mp none)]
    apply map_cutTo
    rw [List.map_drop, List.map_drop, images]

theorem limit_of_answers {plan : MongoPlan} (answers : Answers key restrict server plan) : plan.limit ≠ some 0 := by
  intro zero
  obtain ⟨out, answered, -⟩ := answers (stableSort key) (stableSort_sorts key) []
  rw [aggregate_zero _ zero] at answered
  cases answered

/-- An answered plan's settled keys tell apart what the listed ones do: else copies of the
two documents, enough of them to leave both behind the skipped ones, come in a wrong order. -/
theorem agree_of_answers (projects : ProjectsTo restrict server.project) {plan : MongoPlan}
    (answers : Answers key restrict server plan) {x y : Document} (one : plan.passes server.regex x = true)
    (other : plan.passes server.regex y = true)
    (differ : projected restrict plan.projection x ≠ projected restrict plan.projection y)
    (listed : ordering key plan.sort x y = .lt) : ordering key (settledKeys plan.sort) x y = .lt := by
  by_contra wrong
  have nonzero := limit_of_answers answers
  have sorted : plan.sort.isEmpty = false := by
    rw [List.isEmpty_eq_false_iff]
    intro none
    rw [none] at listed
    cases listed
  obtain ⟨n, skips⟩ : ∃ n, skipCount plan.skip = n := ⟨_, rfl⟩
  obtain ⟨docs, copies⟩ : ∃ docs, docs = List.replicate (n + 1) y ++ List.replicate (n + 1) x := ⟨_, rfl⟩
  have passing : docs.filter (plan.passes server.regex) = docs := by
    rw [copies, List.filter_eq_self]
    intro doc member
    rcases List.mem_append.mp member with copy | copy
    · rw [List.eq_of_mem_replicate copy, other]
    · rw [List.eq_of_mem_replicate copy, one]
  have kept : stableSort key (sortStage (settledKeys plan.sort)) docs = docs := by
    rw [stableSort, readKeys_sortStage]
    apply List.mergeSort_of_pairwise
    rw [copies, List.pairwise_append, List.pairwise_replicate, List.pairwise_replicate]
    refine ⟨.inr (isLE_self y), .inr (isLE_self x), ?_⟩
    intro a copy b copy'
    rw [List.eq_of_mem_replicate copy, List.eq_of_mem_replicate copy']
    exact isLE_iff.mpr wrong
  obtain ⟨out, answered, t, perm, arranged, -, rfl⟩ := answers (stableSort key) (stableSort_sorts key) docs
  have image : delivered { server with sort := stableSort key } plan.projection =
      projected restrict plan.projection := delivered_eq projects plan.projection
  rw [passing, copies] at perm
  have right : t = List.replicate (n + 1) x ++ List.replicate (n + 1) y :=
    arranged_copies listed (perm.trans List.perm_append_comm) arranged
  rw [aggregate_pipeline _ nonzero, sorted, if_neg Bool.false_ne_true, passing, image] at answered
  dsimp only at answered
  rw [kept, copies, right, skips, drop_copies, drop_copies, Option.some_inj] at answered
  have heads := congrArg List.head? answered
  rw [List.head?_map, List.head?_map, head_cutTo nonzero, head_cutTo nonzero] at heads
  exact differ (Option.some.inj heads).symm

theorem ordering_concat (keys : List (String × SortDir)) (entry : String × SortDir) (x y : Document) :
    ordering key (keys ++ [entry]) x y = (ordering key keys x y).then (along key entry x y) := by
  rw [ordering, List.map_append, inTurn_append, List.map_singleton, inTurn, inTurn, Ordering.then_eq]
  rfl

theorem lastDirection_mem {sort : List (String × SortDir)}
    (consistent : ∀ one ∈ sort, ∀ other ∈ sort, one.1 = other.1 → one.2 = other.2) {entry : String × SortDir}
    (listed : entry ∈ sort) : lastDirection sort entry.1 = entry.2 := by
  induction sort using List.reverseRecOn with
  | nil => cases listed
  | append_singleton sort last ih =>
      rw [lastDirection_concat]
      split_ifs with same
      · exact consistent last (by simp) entry listed same.symm
      · apply ih
        · exact fun one inside other outside =>
            consistent one (List.mem_append_left _ inside) other (List.mem_append_left _ outside)
        · rcases List.mem_append.mp listed with inside | here
          · exact inside
          · exact absurd (congrArg Prod.fst (List.mem_singleton.mp here)) same

theorem ordering_settled {sort : List (String × SortDir)}
    (consistent : ∀ one ∈ sort, ∀ other ∈ sort, one.1 = other.1 → one.2 = other.2) (x y : Document) :
    ordering key (settledKeys sort) x y = ordering key sort x y := by
  induction sort using List.reverseRecOn with
  | nil => rfl
  | append_singleton sort entry ih =>
      have earlier : ∀ one ∈ sort, ∀ other ∈ sort, one.1 = other.1 → one.2 = other.2 := fun one inside other outside =>
        consistent one (List.mem_append_left _ inside) other (List.mem_append_left _ outside)
      have before := ih earlier
      rw [ordering_concat]
      by_cases again : entry.1 ∈ sort.map Prod.fst
      · obtain ⟨first, inside, path⟩ := List.mem_map.mp again
        have same : first = entry :=
          Prod.ext path (consistent first (List.mem_append_left _ inside) entry (by simp) path)
        rw [same] at inside
        have kept : settledKeys (sort ++ [entry]) = settledKeys sort := by
          rw [settledKeys_listed again, settledKeys]
          apply List.map_congr_left
          intro path _
          split_ifs with here
          · rw [here, lastDirection_mem earlier inside]
          · rfl
        rw [kept, before]
        -- A key listed before ties wherever the keys before it do.
        cases decided : ordering key sort x y with
        | lt => rfl
        | gt => rfl
        | eq => exact (inTurn_tie decided (List.mem_map_of_mem inside)).symm
      · rw [settledKeys_fresh again, ordering_concat, before]

/-- With a limit other than zero and one direction for each path the pipeline is answered. -/
theorem answers_of_consistent (projects : ProjectsTo restrict server.project) {plan : MongoPlan}
    (nonzero : plan.limit ≠ some 0)
    (consistent : ∀ one ∈ plan.sort, ∀ other ∈ plan.sort, one.1 = other.1 → one.2 = other.2) :
    Answers key restrict server plan := by
  apply answers_of_agree projects nonzero
  intro x y _ _ _ listed
  rw [ordering_settled consistent, listed]

end

/-- The server answers a plan's pipeline with what the plan means exactly when the limit is
not zero and, of the documents that pass and are delivered differently, the settled keys
put first which the listed keys put first. -/
theorem pipeline_means_iff {κ : Type} [LinearOrder κ] {key : String → SortDir → Document → κ}
    {restrict : (String → Prop) → Document → Document} {server : AggregationServer}
    (projects : ProjectsTo restrict server.project) (plan : MongoPlan) :
    Answers key restrict server plan ↔
      plan.limit ≠ some 0 ∧
        ∀ x y, plan.passes server.regex x = true → plan.passes server.regex y = true →
          projected restrict plan.projection x ≠ projected restrict plan.projection y →
          ordering key plan.sort x y = .lt → ordering key (settledKeys plan.sort) x y = .lt := by
  constructor
  · intro answers
    exact ⟨limit_of_answers answers, fun _ _ one other => agree_of_answers projects answers one other⟩
  · rintro ⟨nonzero, agree⟩
    exact answers_of_agree projects nonzero agree

/-- A path's value as the server sorts it, in documents without arrays. -/
def valueKey (path : String) (_ : SortDir) (doc : Document) : List ℚ := ((lookupPath doc path).getD .null).sortKey

def wholeServer : AggregationServer := ⟨noRegex, fun _ docs => docs, fun _ doc => doc⟩

theorem wholeServer_projects : ProjectsTo (fun _ doc => doc) wholeServer.project := fun _ _ _ _ => rfl

def sortedPlan : MongoPlan := ⟨none, none, [], [("a", .asc)], some 1, some 2⟩

theorem pipeline_means_iff_sorted : Answers valueKey (fun _ doc => doc) wholeServer sortedPlan := by
  refine (pipeline_means_iff wholeServer_projects sortedPlan).mpr ⟨by decide, ?_⟩
  intro x y _ _ _ listed
  have once : ∀ one ∈ sortedPlan.sort, ∀ other ∈ sortedPlan.sort, one.1 = other.1 → one.2 = other.2 := by decide
  rwa [ordering_settled once]

def zeroLimit : MongoPlan := ⟨none, none, [], [], none, some 0⟩

def pathTwice : MongoPlan := ⟨none, none, [], [("a", .asc), ("b", .asc), ("a", .desc)], none, none⟩

def storedOne : Document := ⟨[("a", .int32 1)], rfl⟩
def storedTwo : Document := ⟨[("a", .int32 2)], rfl⟩

theorem storedOne_lower (dir : SortDir) : valueKey "a" dir storedOne < valueKey "a" dir storedTwo := by
  have one : valueKey "a" dir storedOne = (Bson.int32 1).sortKey := rfl
  have two : valueKey "a" dir storedTwo = (Bson.int32 2).sortKey := rfl
  rw [one, two]
  simp [Bson.sortKey, Bson.payload, Bson.typeClass, List.cons_lt_cons_iff]

/-- Neither plan is answered: the server refuses the first, and sorts the other backwards. -/
theorem plans_unanswered :
    ¬Answers valueKey (fun _ doc => doc) wholeServer zeroLimit ∧
      ¬Answers valueKey (fun _ doc => doc) wholeServer pathTwice := by
  constructor
  · intro answers
    exact limit_of_answers answers rfl
  · intro answers
    have listed : ordering valueKey pathTwice.sort storedOne storedTwo = .lt := by
      rw [ordering, pathTwice, List.map_cons, inTurn, along, compare_lt_iff_lt.mpr (storedOne_lower .asc)]
      rfl
    have differ : projected (fun _ doc => doc) pathTwice.projection storedOne ≠
        projected (fun _ doc => doc) pathTwice.projection storedTwo := by
      intro same
      have values := congrArg (fun doc : Document => valueKey "a" .asc doc) same
      exact absurd values (storedOne_lower .asc).ne
    have settled := agree_of_answers wholeServer_projects answers rfl rfl differ listed
    have keys : settledKeys pathTwice.sort = [("a", .desc), ("b", .asc)] := rfl
    rw [keys, ordering, List.map_cons, inTurn, along, compare_gt_iff_gt.mpr (storedOne_lower .desc)] at settled
    cases settled

end Auger
