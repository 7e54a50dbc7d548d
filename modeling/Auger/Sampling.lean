import Auger.PlanMeaning
import Auger.Reobserved
import Auger.RoundedProducts
import Auger.SampleOrder

set_option autoImplicit false

/-! Sampling a collection: how the budget is divided between the newest documents and
random ones, and what the inferred schema is certain to have seen. -/

namespace Auger

open General

structure CatalogConfig where
  sampleSize : Int64
  recentBias : F64
  maxDepth : Nat

namespace CatalogConfig

def total (cfg : CatalogConfig) : Int64 := max cfg.sampleSize 1

/-- The documents asked for from the end of the `_id` order. -/
def recent (cfg : CatalogConfig) : Int64 :=
  ((F64.ofInt cfg.total.toInt).mul (cfg.recentBias.clamp (F64.ofInt 0) (F64.ofInt 1))).toI64

/-- The documents asked for at random. -/
def random (cfg : CatalogConfig) : Int64 := max (cfg.total - cfg.recent) 0

/-- The share of the newest documents, as the exact product. -/
def share (cfg : CatalogConfig) : ℚ := cfg.total.toInt * max 0 (min cfg.recentBias.toRat 1)

end CatalogConfig

section
variable (cfg : CatalogConfig)

theorem toInt_max (a b : Int64) : (max a b).toInt = max a.toInt b.toInt := by
  have choice : max a b = if a ≤ b then b else a := rfl
  rw [choice]
  split_ifs with le
  · exact (max_eq_right (Int64.le_iff_toInt_le.mp le)).symm
  · exact (max_eq_left (le_of_not_ge fun above => le (Int64.le_iff_toInt_le.mpr above))).symm

theorem total_toInt : cfg.total.toInt = max cfg.sampleSize.toInt 1 := toInt_max _ _

theorem total_nat : ∃ n : Nat, cfg.total.toInt = n ∧ 0 < n ∧ n < 2 ^ 63 := by
  have least := total_toInt cfg
  have greatest := cfg.total.toInt_le
  have limit : Int64.maxValue.toInt = 2 ^ 63 - 1 := rfl
  exact ⟨cfg.total.toInt.toNat, by omega, by omega, by omega⟩

theorem recent_nan (nan : cfg.recentBias.isNan = true) : cfg.recent = 0 := by
  have clamped : cfg.recentBias.clamp (F64.ofInt 0) (F64.ofInt 1) = cfg.recentBias := by
    simp [F64.clamp, F64.lt, nan]
  rw [CatalogConfig.recent, clamped, F64.mul, nan, Bool.or_true, if_pos rfl]
  rfl

/-- What the product of a budget and a share leaves after the cast. -/
theorem recent_number {n : Nat} (total : cfg.total.toInt = n) (small : n < 2 ^ 63)
    (number : cfg.recentBias.isNan = false) :
    ∃ parts share : Nat, share ≤ F64.one ∧ (share : Int) = max 0 (min cfg.recentBias.units F64.one) ∧
      cfg.recent.toInt = min (parts : Int) (2 ^ 63 - 1) ∧
      (n ≤ 2 ^ 53 → n * share < (parts + 1) * F64.one ∧ parts * F64.one < n * share + F64.one) := by
  obtain ⟨finite, units⟩ := F64.clamp_unit number
  have positive : (0 : Int) < F64.one := by exact_mod_cast F64.one_pos
  have size := F64.natAbs_units (cfg.recentBias.clamp (F64.ofInt 0) (F64.ofInt 1))
  have within : (cfg.recentBias.clamp (F64.ofInt 0) (F64.ofInt 1)).magnitude ≤ F64.one := by omega
  obtain ⟨product, whole⟩ := F64.mul_unit_whole small finite (by omega) (by omega)
  refine ⟨_, _, within, by omega, ?_, fun exact => F64.mul_unit_parts exact finite within⟩
  have saturated (parts : Nat) : (if (parts : Int) < -2 ^ 63 then -2 ^ 63
      else if 2 ^ 63 - 1 < (parts : Int) then 2 ^ 63 - 1 else (parts : Int)) = min (parts : Int) (2 ^ 63 - 1) := by
    split_ifs <;> omega
  rw [CatalogConfig.recent, total, F64.toInt_toI64 product, whole, saturated]

theorem recent_nonneg : 0 ≤ cfg.recent.toInt := by
  cases number : cfg.recentBias.isNan with
  | true =>
      rw [recent_nan cfg number]
      rfl
  | false =>
      obtain ⟨n, total, _, small⟩ := total_nat cfg
      obtain ⟨parts, share, _, _, recent, _⟩ := recent_number cfg total small number
      omega

theorem random_toInt : cfg.random.toInt = max (cfg.total.toInt - cfg.recent.toInt) 0 := by
  have first := recent_nonneg cfg
  have second := total_toInt cfg
  have largest := cfg.total.toInt_le
  have most := cfg.recent.toInt_le
  have limit : Int64.maxValue.toInt = 2 ^ 63 - 1 := rfl
  have difference : (cfg.total - cfg.recent).toInt = cfg.total.toInt - cfg.recent.toInt := by
    rw [Int64.toInt_sub]
    exact Int.bmod_eq_of_le (by omega) (by omega)
  rw [CatalogConfig.random, toInt_max, difference]
  rfl

theorem share_eq {share : Nat} (units : (share : Int) = max 0 (min cfg.recentBias.units F64.one)) :
    cfg.share = cfg.total.toInt * ((share : ℚ) / (F64.one : Nat)) := by
  have positive : (0 : ℚ) < ((F64.one : Nat) : ℚ) := Nat.cast_pos.mpr F64.one_pos
  have parts : ((share : Nat) : ℚ) = max 0 (min (cfg.recentBias.units : ℚ) (F64.one : Nat)) := by
    exact_mod_cast congrArg (Int.cast (R := ℚ)) units
  rw [CatalogConfig.share, F64.toRat_eq, parts, ← max_div_div_right positive.le, ← min_div_div_right positive.le,
    zero_div, div_self positive.ne']

theorem recent_share {n : Nat} (total : cfg.total.toInt = n) (small : n ≤ 2 ^ 53)
    (number : cfg.recentBias.isNan = false) :
    ⌊cfg.share⌋ ≤ cfg.recent.toInt ∧ cfg.recent.toInt ≤ ⌈cfg.share⌉ ∧ cfg.recent.toInt ≤ n := by
  obtain ⟨parts, share, within, units, recent, around⟩ := recent_number cfg total (by omega) number
  obtain ⟨above, below⟩ := around small
  have positive : (0 : ℚ) < ((F64.one : Nat) : ℚ) := Nat.cast_pos.mpr F64.one_pos
  have most : parts ≤ n := by
    by_contra excess
    have larger : (n + 1) * F64.one ≤ parts * F64.one := Nat.mul_le_mul_right _ (by omega)
    have product : n * share ≤ n * F64.one := Nat.mul_le_mul_left n within
    rw [Nat.add_mul, Nat.one_mul] at larger
    omega
  have cut : cfg.recent.toInt = parts := by omega
  have exactly : cfg.share = ((n * share : Nat) : ℚ) / (F64.one : Nat) := by
    rw [share_eq cfg units, total]
    push_cast
    ring
  rw [cut, exactly]
  refine ⟨?_, ?_, by omega⟩
  · rw [← Int.lt_add_one_iff, Int.floor_lt, div_lt_iff₀ positive]
    exact_mod_cast above
  · rw [← Int.sub_one_lt_iff, Int.lt_ceil, lt_div_iff₀ positive, Int.cast_sub, Int.cast_one, sub_mul, one_mul,
      sub_lt_iff_lt_add]
    exact_mod_cast below

/-- Both counts are sound requests, together they spend the budget, and the newest documents get
the configured share of it. -/
theorem sample_budget :
    0 ≤ cfg.recent.toInt ∧ 0 ≤ cfg.random.toInt ∧ cfg.total.toInt ≤ cfg.recent.toInt + cfg.random.toInt ∧
      (cfg.sampleSize.toInt ≤ 2 ^ 53 →
        cfg.recent.toInt + cfg.random.toInt = max cfg.sampleSize.toInt 1 ∧
        (cfg.recentBias.isNan = true → cfg.recent = 0) ∧
        (cfg.recentBias.isNan = false → ⌊cfg.share⌋ ≤ cfg.recent.toInt ∧ cfg.recent.toInt ≤ ⌈cfg.share⌉)) := by
  have first := recent_nonneg cfg
  have second := random_toInt cfg
  have size := total_toInt cfg
  refine ⟨first, by omega, by omega, fun modest => ?_⟩
  obtain ⟨n, total, -, -⟩ := total_nat cfg
  refine ⟨?_, recent_nan cfg, fun number => ?_⟩
  · cases number : cfg.recentBias.isNan with
    | true =>
        have none : cfg.recent.toInt = 0 := by rw [recent_nan cfg number]; rfl
        omega
    | false =>
        have within := (recent_share cfg total (by omega) number).2.2
        omega
  · obtain ⟨lower, upper, -⟩ := recent_share cfg total (by omega) number
    exact ⟨lower, upper⟩

end

/-- The settings a gateway starts with. -/
def CatalogConfig.default : CatalogConfig := ⟨1000, F64.ofRatio false 1 4, 4⟩

theorem sample_budget_default :
    CatalogConfig.default.recent.toInt + CatalogConfig.default.random.toInt = 1000 ∧
      ⌊CatalogConfig.default.share⌋ ≤ CatalogConfig.default.recent.toInt := by
  obtain ⟨sum, -, share⟩ := (sample_budget CatalogConfig.default).2.2.2 (by decide)
  exact ⟨sum, (share (by decide +kernel)).1⟩

/-- What an aggregation hands over before its cursor ends or fails. -/
structure Drained where
  docs : List Document
  failed : Bool

/-- `drain_into`: a document is observed as it comes, also when the cursor fails after it. -/
def drainInto (answer : Drained) (sampler : Sampler) : Sampler := answer.docs.foldl Sampler.observe sampler

def recencyPipeline (recent : Int64) : List Fields :=
  [[("$sort", .document [("_id", .int32 (-1))])], [("$limit", .int64 recent)]]

def samplePipeline (random : Int64) : List Fields := [[("$sample", .document [("size", .int64 random)])]]

/-- The document an empty collection is described by. -/
def placeholder (fresh : ObjectId) : Document := ⟨[("_id", .objectId fresh)], rfl⟩

/-- `infer_schema`; `none` is an error. -/
def inferSchema (aggregate : List Fields → Drained) (fresh : ObjectId) (cfg : CatalogConfig) : Option Schema :=
  let recency := if 0 < cfg.recent then aggregate (recencyPipeline cfg.recent) else ⟨[], false⟩
  if recency.failed then none
  else
    let sampler := drainInto recency Sampler.new
    -- a failure of the second pass is only logged
    let sampler := if 0 < cfg.random then drainInto (aggregate (samplePipeline cfg.random)) sampler else sampler
    if sampler.root.isEmpty then some ((Sampler.new.observe (placeholder fresh)).finish cfg.maxDepth)
    else some (sampler.finish cfg.maxDepth)

section
variable (aggregate : List Fields → Drained) (fresh : ObjectId) (cfg : CatalogConfig)

def newestHanded : List Document := if 0 < cfg.recent then (aggregate (recencyPipeline cfg.recent)).docs else []

def handed : List Document :=
  newestHanded aggregate cfg ++ if 0 < cfg.random then (aggregate (samplePipeline cfg.random)).docs else []

/-- The error of the first pass. -/
def RecencyFails : Prop := 0 < cfg.recent ∧ (aggregate (recencyPipeline cfg.recent)).failed = true

instance : Decidable (RecencyFails aggregate cfg) := instDecidableAnd

theorem inferSchema_eq : inferSchema aggregate fresh cfg =
    if RecencyFails aggregate cfg then none
    else if (Sampler.observeAll (handed aggregate cfg)).root.isEmpty then
      some ((Sampler.observeAll [placeholder fresh]).finish cfg.maxDepth)
    else some ((Sampler.observeAll (handed aggregate cfg)).finish cfg.maxDepth) := by
  have sampler : Sampler.observeAll (handed aggregate cfg) =
      if 0 < cfg.random then drainInto (aggregate (samplePipeline cfg.random))
        (drainInto (if 0 < cfg.recent then aggregate (recencyPipeline cfg.recent) else ⟨[], false⟩) Sampler.new)
      else drainInto (if 0 < cfg.recent then aggregate (recencyPipeline cfg.recent) else ⟨[], false⟩) Sampler.new := by
    rw [handed, newestHanded, Sampler.observeAll, List.foldl_append]
    split_ifs <;> rfl
  rw [sampler]
  by_cases asked : 0 < cfg.recent
  · simp only [inferSchema, RecencyFails, asked, if_true, true_and]
    rfl
  · simp only [inferSchema, RecencyFails, asked, if_false, false_and, Bool.false_eq_true]
    rfl

end

instance : Std.Total nameOrder := ⟨fun a b => by
  have order := le_total a b
  unfold nameOrder
  tauto⟩

instance : IsTrans String nameOrder := ⟨fun a b c first second => by
  unfold nameOrder at first second ⊢
  rcases first with ⟨left, middle, below⟩ | same
  · rcases second with ⟨_, right, above⟩ | same
    · exact .inl ⟨left, right, below.trans above⟩
    · exact absurd same middle
  · exact .inr same⟩

theorem id_first {names : List String} (member : "_id" ∈ names) :
    ∃ rest, names.insertionSort nameOrder = "_id" :: rest := by
  have sorted := List.pairwise_insertionSort nameOrder names
  have inside : "_id" ∈ names.insertionSort nameOrder := (List.mem_insertionSort nameOrder).mpr member
  cases found : names.insertionSort nameOrder with
  | nil =>
      rw [found] at inside
      cases inside
  | cons first rest =>
      rw [found] at inside sorted
      obtain same | later := List.mem_cons.mp inside
      · exact ⟨rest, by rw [same]⟩
      · obtain ⟨_, other, _⟩ | same := (List.pairwise_cons.mp sorted).1 "_id" later
        · exact absurd rfl other
        · exact ⟨rest, by rw [same]⟩

theorem finish_id {docs : List Document} {doc : Document} (member : doc ∈ docs) (identified : (doc.get "_id").isSome)
    (maxDepth : Nat) : ∃ id, ((Sampler.observeAll docs).finish maxDepth).head? = some id ∧ id.name = "_id" ∧
      id.nullable = false := by
  obtain ⟨value, held⟩ := Option.isSome_iff_exists.mp identified
  obtain ⟨fs, found, -⟩ := observeAll_covers docs "_id" value (mem_valuesAt.mpr ⟨doc, member, held⟩)
  obtain ⟨rest, names⟩ := id_first (List.mem_map_of_mem (f := Prod.fst) (SortedMap.mem_of_lookup found))
  refine ⟨buildField "_id" "_id" fs (Sampler.observeAll docs).docsSeen 0 maxDepth, ?_, rfl, rfl⟩
  rw [Sampler.finish, names, List.filterMap_cons, found]
  rfl

theorem mem_columns {docs : List Document} {maxDepth : Nat} {name : String} :
    (∃ field ∈ (Sampler.observeAll docs).finish maxDepth, field.name = name) ↔
      ∃ doc ∈ docs, (doc.get name).isSome := by
  constructor
  · rintro ⟨field, member, rfl⟩
    obtain ⟨key, fs, found, rfl⟩ := mem_finish member
    have seen : valuesAt key docs ≠ [] := fun none => by
      rw [lookup_observeAll_none.mpr none] at found
      cases found
    obtain ⟨value, inside⟩ := List.exists_mem_of_ne_nil _ seen
    obtain ⟨doc, present, held⟩ := mem_valuesAt.mp inside
    exact ⟨doc, present, Option.isSome_iff_exists.mpr ⟨value, held⟩⟩
  · rintro ⟨doc, present, identified⟩
    obtain ⟨value, held⟩ := Option.isSome_iff_exists.mp identified
    obtain ⟨fs, found, -⟩ := observeAll_covers docs name value (mem_valuesAt.mpr ⟨doc, present, held⟩)
    exact ⟨_, buildField_mem_finish found maxDepth, rfl⟩

/-- Documents already seen change no type, no tag and no flag, however many of them come again. -/
theorem uncounted_again {docs again : List Document} (seen : ∀ doc ∈ again, doc ∈ docs) :
    uncountedFields (Sampler.observeAll (docs ++ again)).root = uncountedFields (Sampler.observeAll docs).root := by
  induction again using List.reverseRecOn with
  | nil => rw [List.append_nil]
  | append_singleton again doc ih =>
      rw [← ih fun other member => seen other (List.mem_append_left _ member), ← List.append_assoc]
      apply uncountedFields_ext (observeAll_ordered _) (observeAll_ordered _)
      intro key
      rw [observeAll_snoc, lookup_observe]
      cases got : doc.get key with
      | none => rfl
      | some value =>
          have before : doc ∈ docs ++ again := List.mem_append_left _ (seen doc (by simp))
          obtain ⟨fs, found, covers⟩ :=
            observeAll_covers (docs ++ again) key value (mem_valuesAt.mpr ⟨doc, before, got⟩)
          rw [found, observedSlot, Option.getD_some, Option.map_some, Option.map_some,
            CoversShape.observeValue_uncounted (observeAll_wellOrdered found) covers]

theorem observed_root {docs : List Document} {doc : Document} (member : doc ∈ docs)
    (identified : (doc.get "_id").isSome) : ¬(Sampler.observeAll docs).root.isEmpty = true := by
  obtain ⟨value, held⟩ := Option.isSome_iff_exists.mp identified
  obtain ⟨fs, found, -⟩ := observeAll_covers docs "_id" value (mem_valuesAt.mpr ⟨doc, member, held⟩)
  intro empty
  rw [List.isEmpty_iff.mp empty] at found
  cases found

theorem placeholder_keys {fresh : ObjectId} {name : String} (held : ((placeholder fresh).get name).isSome) :
    name = "_id" := by
  by_contra other
  have apart : (name == "_id") = false := beq_eq_false_iff_ne.mpr other
  have none : (placeholder fresh).get name = none := by simp [placeholder, Document.get, List.lookup, apart]
  rw [none] at held
  cases held

section
variable {κ : Type} [LinearOrder κ] (key : String → SortDir → Document → κ)

/-- At most so many documents come at or after this one in the order of `_id`. -/
def AmongNewest (docs : List Document) (doc : Document) (count : Int64) : Prop :=
  docs.countP (fun other => decide (key "_id" .desc doc ≤ key "_id" .desc other)) ≤ count.toInt.toNat

/-- How a server answers the passes: the first from the documents it holds then, the second from
those it holds `later`. Every stored document has an `_id`. -/
structure AnsweredBy (server : AggregationServer) (docs later : List Document) (aggregate : List Fields → Drained) :
    Prop where
  newest : ∀ recent, 0 < recent → (aggregate (recencyPipeline recent)).failed = false →
    server.aggregate (recencyPipeline recent) docs = some (aggregate (recencyPipeline recent)).docs
  drawn : ∀ random, ∀ doc ∈ (aggregate (samplePipeline random)).docs, doc ∈ later
  identified : ∀ doc ∈ docs ++ later, (doc.get "_id").isSome

variable {key} {server : AggregationServer} {docs later : List Document} {aggregate : List Fields → Drained}

theorem newest_first (entry : String × SortDir) (x y : Document) :
    (ordering key [entry] x y).isLE = (along key entry x y).isLE := by
  rw [ordering, List.map_singleton, inTurn, inTurn, Ordering.then_eq]

/-- The first pass hands over the newest documents, and nothing that is not stored. -/
theorem newest_handed (sorts : SortsBy key server.sort) (answered : AnsweredBy server docs later aggregate)
    {cfg : CatalogConfig} (fine : ¬RecencyFails aggregate cfg) :
    (∀ doc ∈ newestHanded aggregate cfg, doc ∈ docs) ∧
      ∀ doc ∈ docs, AmongNewest key docs doc cfg.recent → doc ∈ newestHanded aggregate cfg := by
  by_cases asked : 0 < cfg.recent
  · have ended : (aggregate (recencyPipeline cfg.recent)).failed = false :=
      (Bool.not_eq_true _).mp fun failed => fine ⟨asked, failed⟩
    obtain ⟨perm, arranged⟩ := sorts [("_id", .desc)] (by simp) docs
    have sorted : (server.sort (sortStage [("_id", .desc)]) docs).take cfg.recent.toInt.toNat =
        newestHanded aggregate cfg := by
      have answer := answered.newest cfg.recent asked ended
      have stages : server.aggregate (recencyPipeline cfg.recent) docs =
          some ((server.sort (sortStage [("_id", .desc)]) docs).take cfg.recent.toInt.toNat) := by
        simp [AggregationServer.aggregate, recencyPipeline, AggregationServer.runStage, asked]
        rfl
      rw [newestHanded, if_pos asked]
      exact Option.some.inj (stages.symm.trans answer)
    rw [← sorted]
    refine ⟨fun doc member => perm.mem_iff.mp (List.mem_of_mem_take member), fun doc member few => ?_⟩
    apply arranged.mem_take (perm.mem_iff.mpr member)
    rw [perm.countP_eq]
    have same : (fun other => (ordering key [("_id", .desc)] other doc).isLE) =
        fun other => decide (key "_id" .desc doc ≤ key "_id" .desc other) := by
      funext other
      rw [newest_first, along, Bool.eq_iff_iff, decide_eq_true_iff]
      exact Ordering.isLE_iff_ne_gt.trans compare_le_iff_le
    rw [same]
    exact few
  · rw [newestHanded, if_neg asked]
    refine ⟨?_, fun doc member few => ?_⟩
    · intro doc member
      cases member
    have own : 0 < docs.countP (fun other => decide (key "_id" .desc doc ≤ key "_id" .desc other)) :=
      List.countP_pos_iff.mpr ⟨doc, member, decide_eq_true le_rfl⟩
    have empty : cfg.recent.toInt ≤ 0 := by
      rw [Int64.lt_iff_toInt_lt] at asked
      exact not_lt.mp asked
    rw [AmongNewest] at few
    omega

theorem handed_stored (sorts : SortsBy key server.sort) (answered : AnsweredBy server docs later aggregate)
    {cfg : CatalogConfig} (fine : ¬RecencyFails aggregate cfg) :
    ∀ doc ∈ handed aggregate cfg, doc ∈ docs ++ later := by
  intro doc member
  rw [handed] at member
  obtain first | second := List.mem_append.mp member
  · exact List.mem_append_left _ ((newest_handed sorts answered fine).1 doc first)
  · split_ifs at second
    · exact List.mem_append_right _ (answered.drawn _ doc second)
    · cases second

/-- An inference fails only with its first pass; otherwise its schema begins with `_id`, has only
stored fields for columns, and has taken in the newest documents: each of their fields is a
column, and no number of them seen again would change a type, a tag or a flag at any level. -/
theorem infer_schema_knows (sorts : SortsBy key server.sort) (answered : AnsweredBy server docs later aggregate)
    (fresh : ObjectId) (cfg : CatalogConfig) :
    (inferSchema aggregate fresh cfg = none ↔ RecencyFails aggregate cfg) ∧
      ∀ schema, inferSchema aggregate fresh cfg = some schema →
        (∃ id, schema.head? = some id ∧ id.name = "_id" ∧ id.nullable = false) ∧
        (∀ field ∈ schema, field.name = "_id" ∨ ∃ doc ∈ docs ++ later, (doc.get field.name).isSome) ∧
        ∀ newest : List Document, (∀ doc ∈ newest, doc ∈ docs ∧ AmongNewest key docs doc cfg.recent) →
          (∀ doc ∈ newest, ∀ name, (doc.get name).isSome → ∃ field ∈ schema, field.name = name) ∧
          (newest ≠ [] →
            schemaWithoutFreq ((Sampler.observeAll (handed aggregate cfg ++ newest)).finish cfg.maxDepth) =
              schemaWithoutFreq schema) := by
  by_cases failed : RecencyFails aggregate cfg
  · rw [inferSchema_eq, if_pos failed]
    exact ⟨iff_of_true rfl failed, fun schema none => by cases none⟩
  · have stored := handed_stored sorts answered failed
    have known : ∀ doc ∈ docs, AmongNewest key docs doc cfg.recent → doc ∈ handed aggregate cfg := fun doc inside few =>
      List.mem_append_left _ ((newest_handed sorts answered failed).2 doc inside few)
    rw [inferSchema_eq, if_neg failed]
    by_cases empty : (Sampler.observeAll (handed aggregate cfg)).root.isEmpty = true
    · rw [if_pos empty]
      refine ⟨iff_of_false (Option.some_ne_none _) failed, ?_⟩
      intro schema inferred
      obtain rfl := Option.some.inj inferred
      have id : ((placeholder fresh).get "_id").isSome := rfl
      refine ⟨finish_id (List.mem_singleton_self _) id cfg.maxDepth, ?_, ?_⟩
      · intro field member
        obtain ⟨doc, placed, held⟩ := mem_columns.mp ⟨field, member, rfl⟩
        rw [List.mem_singleton.mp placed] at held
        exact .inl (placeholder_keys held)
      · intro newest among
        have nothing : newest = [] := by
          apply List.eq_nil_iff_forall_not_mem.mpr
          intro doc member
          obtain ⟨inside, few⟩ := among doc member
          exact observed_root (known doc inside few) (answered.identified doc (List.mem_append_left _ inside)) empty
        rw [nothing]
        exact ⟨fun doc member => absurd member List.not_mem_nil, fun some => absurd rfl some⟩
    · rw [if_neg empty]
      refine ⟨iff_of_false (Option.some_ne_none _) failed, ?_⟩
      intro schema inferred
      obtain rfl := Option.some.inj inferred
      refine ⟨?_, ?_, ?_⟩
      · obtain ⟨doc, member⟩ : ∃ doc, doc ∈ handed aggregate cfg := by
          apply List.exists_mem_of_ne_nil
          intro none
          rw [none] at empty
          exact empty rfl
        exact finish_id member (answered.identified doc (stored doc member)) cfg.maxDepth
      · intro field member
        obtain ⟨doc, seen, held⟩ := mem_columns.mp ⟨field, member, rfl⟩
        exact .inr ⟨doc, stored doc seen, held⟩
      · intro newest among
        have seen : ∀ doc ∈ newest, doc ∈ handed aggregate cfg := fun doc member =>
          known doc (among doc member).1 (among doc member).2
        refine ⟨fun doc member name held => mem_columns.mpr ⟨doc, seen doc member, held⟩, fun _ => ?_⟩
        exact finish_withoutFreq (uncounted_again seen) cfg.maxDepth

end

def numberKey (path : String) (_ : SortDir) (doc : Document) : Int :=
  match doc.get path with
  | some (.int32 v) => v.toInt
  | _ => 0

def numberServer : AggregationServer := ⟨noRegex, stableSort numberKey, fun _ doc => doc⟩

def firstOrder : Document := ⟨[("_id", .int32 1), ("total", .int32 30)], rfl⟩

/-- The only order with a discount. -/
def lastOrder : Document := ⟨[("_id", .int32 2), ("discount", .int32 5)], rfl⟩

/-- The random pass draws the first order, whatever is asked for. -/
def drawsFirst (stages : List Fields) : Drained :=
  match numberServer.aggregate stages [firstOrder, lastOrder] with
  | some out => ⟨out, false⟩
  | none => ⟨[firstOrder], false⟩

theorem drawsFirst_ends (stages : List Fields) : (drawsFirst stages).failed = false := by
  unfold drawsFirst
  split <;> rfl

theorem drawsFirst_answers :
    AnsweredBy numberServer [firstOrder, lastOrder] [firstOrder, lastOrder] drawsFirst := by
  refine ⟨?_, ?_, ?_⟩
  · intro recent positive _
    have stages : numberServer.aggregate (recencyPipeline recent) [firstOrder, lastOrder] =
        some ((numberServer.sort [("_id", .int32 (-1))] [firstOrder, lastOrder]).take recent.toInt.toNat) := by
      simp [AggregationServer.aggregate, recencyPipeline, AggregationServer.runStage, positive]
    rw [drawsFirst, stages]
  · intro random doc member
    have drawn : (drawsFirst (samplePipeline random)).docs = [firstOrder] := rfl
    rw [drawn, List.mem_singleton] at member
    rw [member]
    exact List.mem_cons_self
  · decide

def halfNewest : CatalogConfig := ⟨2, F64.ofRatio false 1 2, 4⟩

/-- The newer order's field is a column, although the random pass misses it. -/
theorem infer_schema_knows_orders : ∃ schema, inferSchema drawsFirst ⟨7⟩ halfNewest = some schema ∧
    ∃ field ∈ schema, field.name = "discount" := by
  obtain ⟨fails, knows⟩ := infer_schema_knows (stableSort_sorts numberKey) drawsFirst_answers ⟨7⟩ halfNewest
  have fine : inferSchema drawsFirst ⟨7⟩ halfNewest ≠ none := fun none =>
    absurd (fails.mp none).2 (Bool.eq_false_iff.mp (drawsFirst_ends _))
  obtain ⟨schema, inferred⟩ := Option.ne_none_iff_exists'.mp fine
  have known := knows schema inferred
  have among : AmongNewest numberKey [firstOrder, lastOrder] lastOrder halfNewest.recent := by
    unfold AmongNewest
    decide +kernel
  have newest : ∀ doc ∈ [lastOrder],
      doc ∈ [firstOrder, lastOrder] ∧ AmongNewest numberKey [firstOrder, lastOrder] doc halfNewest.recent := by
    intro doc member
    rw [List.mem_singleton.mp member]
    exact ⟨by simp, among⟩
  exact ⟨schema, inferred, (known.2.2 [lastOrder] newest).1 lastOrder List.mem_cons_self "discount" rfl⟩

end Auger
