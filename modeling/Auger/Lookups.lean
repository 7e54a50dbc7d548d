import Auger.Store
import Auger.SamplerFacts
import Auger.General.Schedule

set_option autoImplicit false

/-! Concurrent lookups of tables: any interleaving of their steps over one
shared catalog. -/

namespace Auger

open General

inductive LookupPhase
  /-- Before the check that the collection, or its database, is listed. -/
  | listing
  /-- Before `get_fresh`. -/
  | looking
  /-- After a miss, awaiting `infer_schema` and the statistics. -/
  | inferring
  /-- Before `put`. -/
  | inferred (schema : Schema) (stats : CollectionStats)
  | returned (table : CachedTable)
  /-- Not listed, or the inference failed. -/
  | refused

namespace LookupPhase

def finished : LookupPhase → Bool
  | .returned _ | .refused => true
  | _ => false

/-- Between a miss and the end of the lookup. -/
def inFlight : LookupPhase → Bool
  | .inferring | .inferred _ _ => true
  | _ => false

end LookupPhase

structure Lookups (ι : Type) where
  tables : KeyMap CachedTable
  now : Nat
  phase : ι → LookupPhase

inductive LookupEvent (ι : Type)
  | tick (seconds : Nat)
  | list (i : ι) (listed : Bool)
  | getFresh (i : ι)
  | infer (i : ι) (outcome : Option (Schema × CollectionStats))
  | put (i : ι)

section
variable {ι : Type} [DecidableEq ι] (keyOf : ι → String) (ttl : Nat)

namespace Lookups

def moveTo (world : Lookups ι) (i : ι) (phase : LookupPhase) : Lookups ι :=
  { world with phase := Function.update world.phase i phase }

@[simp] theorem moveTo_self (world : Lookups ι) (i : ι) (phase : LookupPhase) :
    (world.moveTo i phase).phase i = phase := Function.update_self ..

theorem moveTo_other (world : Lookups ι) {i j : ι} (differ : j ≠ i) (phase : LookupPhase) :
    (world.moveTo i phase).phase j = world.phase j := Function.update_of_ne differ ..

/-- `MongoSchema::table` and the table endpoint without refresh, a step at a
time. An event that is not a lookup's next step changes nothing. -/
def step (world : Lookups ι) : LookupEvent ι → Lookups ι
  | .tick seconds => { world with now := world.now + seconds }
  | .list i listed =>
      match world.phase i with
      | .listing => world.moveTo i (if listed then .looking else .refused)
      | _ => world
  | .getFresh i =>
      match world.phase i with
      | .looking =>
          world.moveTo i (match CatalogStore.getFresh world.tables (keyOf i) ttl world.now with
            | some cached => .returned cached
            | none => .inferring)
      | _ => world
  | .infer i outcome =>
      match world.phase i with
      | .inferring =>
          world.moveTo i (match outcome with
            | some (schema, stats) => .inferred schema stats
            | none => .refused)
      | _ => world
  | .put i =>
      match world.phase i with
      | .inferred schema stats =>
          let entry : CachedTable := ⟨schema, stats, world.now⟩
          { world with tables := world.tables.insert (keyOf i) entry }.moveTo i (.returned entry)
      | _ => world

def run (world : Lookups ι) (events : List (LookupEvent ι)) : Lookups ι :=
  Schedule.run (step keyOf ttl) world events

end Lookups

/-- A lookup that puts over a fresh entry of its table inferred that entry's schema. -/
def PutAgrees (key : String) (world : Lookups ι) (event : LookupEvent ι) : Prop :=
  ∀ i schema stats, event = .put i → keyOf i = key → world.phase i = .inferred schema stats →
    ∀ entry, CatalogStore.getFresh world.tables key ttl world.now = some entry → entry.schema = schema

theorem step_cases (world : Lookups ι) (event : LookupEvent ι) :
    (∃ seconds, Lookups.step keyOf ttl world event = { world with now := world.now + seconds }) ∨
    (∃ i phase, (world.phase i).finished = false ∧
      (∀ table, phase = .returned table →
        CatalogStore.getFresh world.tables (keyOf i) ttl world.now = some table) ∧
      (phase = .inferring → CatalogStore.getFresh world.tables (keyOf i) ttl world.now = none) ∧
      (phase.inFlight = true → (world.phase i).inFlight = true ∨ phase = .inferring) ∧
      Lookups.step keyOf ttl world event = world.moveTo i phase) ∨
    (∃ i schema stats, event = .put i ∧ world.phase i = .inferred schema stats ∧
      Lookups.step keyOf ttl world event =
        { world with tables := world.tables.insert (keyOf i) ⟨schema, stats, world.now⟩ }.moveTo i
          (.returned ⟨schema, stats, world.now⟩)) := by
  cases event with
  | tick seconds => exact .inl ⟨seconds, rfl⟩
  | list i listed =>
      cases phase : world.phase i <;> simp only [Lookups.step, phase]
      case listing =>
        refine .inr (.inl ⟨i, _, by rw [phase]; rfl, ?_, ?_, ?_, rfl⟩) <;> cases listed <;> simp [LookupPhase.inFlight]
      all_goals exact .inl ⟨0, rfl⟩
  | getFresh i =>
      cases phase : world.phase i <;> simp only [Lookups.step, phase]
      case looking =>
        refine .inr (.inl ⟨i, _, by rw [phase]; rfl, ?_, ?_, ?_, rfl⟩) <;>
          cases CatalogStore.getFresh world.tables (keyOf i) ttl world.now <;> simp [LookupPhase.inFlight]
      all_goals exact .inl ⟨0, rfl⟩
  | infer i outcome =>
      cases phase : world.phase i <;> simp only [Lookups.step, phase]
      case inferring =>
        refine .inr (.inl ⟨i, _, by rw [phase]; rfl, ?_, ?_, ?_, rfl⟩) <;>
          rcases outcome with _ | ⟨schema, stats⟩ <;> simp [LookupPhase.inFlight, phase]
      all_goals exact .inl ⟨0, rfl⟩
  | put i =>
      cases phase : world.phase i <;> simp only [Lookups.step, phase]
      case inferred schema stats => exact .inr (.inr ⟨i, schema, stats, rfl, phase, rfl⟩)
      all_goals exact .inl ⟨0, rfl⟩

theorem step_now (world : Lookups ι) (event : LookupEvent ι) :
    world.now ≤ (Lookups.step keyOf ttl world event).now := by
  rcases step_cases keyOf ttl world event with ⟨seconds, same⟩ | ⟨i, phase, -, -, -, -, same⟩ |
    ⟨i, schema, stats, -, -, same⟩ <;> rw [same]
  · exact Nat.le_add_right _ _
  · exact le_refl _
  · exact le_refl _

theorem run_now (world : Lookups ι) (events : List (LookupEvent ι)) :
    world.now ≤ (Lookups.run keyOf ttl world events).now :=
  Schedule.run_keeps (fun later => world.now ≤ later.now)
    (fun later event before => before.trans (step_now keyOf ttl later event)) events (le_refl _)

theorem step_finished (world : Lookups ι) (event : LookupEvent ι) {j : ι}
    (finished : (world.phase j).finished = true) :
    (Lookups.step keyOf ttl world event).phase j = world.phase j := by
  rcases step_cases keyOf ttl world event with ⟨seconds, same⟩ | ⟨i, phase, running, -, -, -, same⟩ |
    ⟨i, schema, stats, -, running, same⟩ <;> rw [same]
  · have differ : j ≠ i := by
      rintro rfl
      rw [running] at finished
      cases finished
    exact Lookups.moveTo_other world differ _
  · have differ : j ≠ i := by
      rintro rfl
      rw [running] at finished
      cases finished
    exact Lookups.moveTo_other _ differ _

theorem run_finished (world : Lookups ι) (events : List (LookupEvent ι)) {j : ι}
    (finished : (world.phase j).finished = true) :
    (Lookups.run keyOf ttl world events).phase j = world.phase j :=
  Schedule.run_keeps (fun later => later.phase j = world.phase j)
    (fun later event same => (step_finished keyOf ttl later event (by rw [same]; exact finished)).trans same)
    events rfl

/-- Since a put of `schema` at time `since`, in the state `origin`, every table
returned under the key has that schema. -/
structure Settled (key : String) (schema : Schema) (since : Nat) (origin world : Lookups ι) : Prop where
  later : since ≤ world.now
  stored : ∃ entry, world.tables.get key = some entry ∧ entry.schema = schema ∧ since ≤ entry.inferredAt
  ended : ∀ j, (origin.phase j).finished = true → world.phase j = origin.phase j
  agreed : ∀ j table, keyOf j = key → (origin.phase j).finished = false →
    world.phase j = .returned table → table.schema = schema

variable {keyOf} {ttl} {key : String} {schema : Schema} {since : Nat} {origin world : Lookups ι}

omit [DecidableEq ι] in
theorem Settled.fresh (settled : Settled keyOf key schema since origin world)
    (window : ttl = 0 ∨ world.now ≤ since + ttl) :
    ∃ entry, CatalogStore.getFresh world.tables key ttl world.now = some entry ∧ entry.schema = schema := by
  obtain ⟨entry, found, same, recent⟩ := settled.stored
  refine ⟨entry, ?_, same⟩
  rw [CatalogStore.getFresh, found, Option.bind_some]
  rcases window with never | inside
  · rw [if_pos never]
  · have young : world.now - entry.inferredAt ≤ ttl := by omega
    rw [if_pos young, ite_self]

theorem Settled.step (settled : Settled keyOf key schema since origin world)
    (window : ttl = 0 ∨ world.now ≤ since + ttl) {event : LookupEvent ι}
    (agrees : PutAgrees keyOf ttl key world event) :
    Settled keyOf key schema since origin (Lookups.step keyOf ttl world event) := by
  obtain ⟨entry, fresh, same⟩ := settled.fresh window
  have later := settled.later.trans (step_now keyOf ttl world event)
  have ended : ∀ j, (origin.phase j).finished = true →
      (Lookups.step keyOf ttl world event).phase j = origin.phase j := by
    intro j finished
    have before := settled.ended j finished
    rw [step_finished keyOf ttl world event (by rw [before]; exact finished), before]
  refine ⟨later, ?_, ended, ?_⟩
  · rcases step_cases keyOf ttl world event with ⟨seconds, moved⟩ | ⟨i, phase, -, -, -, -, moved⟩ |
      ⟨i, schema', stats, put, inferred, moved⟩ <;> rw [moved]
    · exact settled.stored
    · exact settled.stored
    · by_cases own : keyOf i = key
      · refine ⟨⟨schema', stats, world.now⟩, ?_, ?_, settled.later⟩
        · rw [Lookups.moveTo, KeyMap.get_insert, if_pos own.symm]
        · exact (agrees i schema' stats put own inferred entry fresh).symm.trans same
      · rw [Lookups.moveTo, KeyMap.get_insert, if_neg (Ne.symm own)]
        exact settled.stored
  · intro j table own running returned
    rcases step_cases keyOf ttl world event with ⟨seconds, moved⟩ | ⟨i, phase, -, hit, -, -, moved⟩ |
      ⟨i, schema', stats, put, inferred, moved⟩ <;> rw [moved] at returned
    · exact settled.agreed j table own running returned
    · by_cases mine : j = i
      · subst mine
        rw [Lookups.moveTo_self] at returned
        have served := hit table returned
        rw [own, fresh, Option.some.injEq] at served
        rw [← served, same]
      · rw [Lookups.moveTo_other _ mine] at returned
        exact settled.agreed j table own running returned
    · by_cases mine : j = i
      · subst mine
        rw [Lookups.moveTo_self, LookupPhase.returned.injEq] at returned
        subst returned
        exact (agrees j schema' stats put own inferred entry fresh).symm.trans same
      · rw [Lookups.moveTo_other _ mine] at returned
        exact settled.agreed j table own running returned

theorem Settled.disagree (settled : Settled keyOf key schema since origin world)
    (window : ttl = 0 ∨ world.now ≤ since + ttl) {event : LookupEvent ι}
    (differs : ¬PutAgrees keyOf ttl key world event) :
    ∃ j table, keyOf j = key ∧ (origin.phase j).finished = false ∧
      (Lookups.step keyOf ttl world event).phase j = .returned table ∧ table.schema ≠ schema := by
  obtain ⟨entry, fresh, same⟩ := settled.fresh window
  simp only [PutAgrees, not_forall] at differs
  obtain ⟨j, schema', stats, put, own, inferred, found, served, differ⟩ := differs
  refine ⟨j, ⟨schema', stats, world.now⟩, own, ?_, ?_, ?_⟩
  · by_contra ended
    have still := settled.ended j (by simpa using ended)
    rw [inferred] at still
    rw [← still] at ended
    exact ended rfl
  · subst put
    simp [Lookups.step, inferred]
  · rw [fresh, Option.some.injEq] at served
    subst served
    exact fun equal => differ (same.trans equal.symm)

/-- The lookups that end within the interval agree exactly when the puts do. -/
theorem Settled.run_iff (settled : Settled keyOf key schema since origin world)
    (events : List (LookupEvent ι))
    (window : ttl = 0 ∨ (Lookups.run keyOf ttl world events).now ≤ since + ttl) :
    (∀ j table, keyOf j = key → (origin.phase j).finished = false →
        (Lookups.run keyOf ttl world events).phase j = .returned table → table.schema = schema) ↔
      Schedule.Guarded (Lookups.step keyOf ttl) (PutAgrees keyOf ttl key) world events := by
  induction events generalizing world with
  | nil =>
      constructor
      · exact fun _ => trivial
      · exact fun _ => settled.agreed
  | cons event rest ih =>
      have early : ttl = 0 ∨ world.now ≤ since + ttl :=
        window.imp_right fun inside => (run_now keyOf ttl world (event :: rest)).trans inside
      by_cases agrees : PutAgrees keyOf ttl key world event
      · rw [Schedule.Guarded, and_iff_right agrees, ← ih (settled.step early agrees) window]
        rfl
      · obtain ⟨j, table, own, running, returned, differ⟩ := settled.disagree early agrees
        constructor
        · intro all
          have still := run_finished keyOf ttl (Lookups.step keyOf ttl world event) rest (j := j)
            (by rw [returned]; rfl)
          exact absurd (all j table own running (still.trans returned)) differ
        · exact fun guarded => absurd guarded.1 agrees

theorem settled_put {i : ι} {stats : CollectionStats} (ready : world.phase i = .inferred schema stats) :
    Settled keyOf (keyOf i) schema world.now world (Lookups.step keyOf ttl world (.put i)) := by
  have put : Lookups.step keyOf ttl world (.put i) =
      { world with tables := world.tables.insert (keyOf i) ⟨schema, stats, world.now⟩ }.moveTo i
        (.returned ⟨schema, stats, world.now⟩) := by
    simp only [Lookups.step, ready]
  refine ⟨step_now keyOf ttl world (.put i), ?_, fun j finished => step_finished keyOf ttl world _ finished, ?_⟩
  · refine ⟨⟨schema, stats, world.now⟩, ?_, rfl, le_refl _⟩
    rw [put, Lookups.moveTo, KeyMap.get_insert, if_pos rfl]
  · intro j table own running returned
    rw [put] at returned
    by_cases mine : j = i
    · subst mine
      rw [Lookups.moveTo_self, LookupPhase.returned.injEq] at returned
      rw [← returned]
    · rw [Lookups.moveTo_other _ mine] at returned
      change world.phase j = .returned table at returned
      rw [returned] at running
      cases running

/-- After a put, and within the refresh interval, every lookup that returns a
table of that collection returns the schema that was put, exactly when the
lookups that put over it inferred that schema too. -/
theorem schema_frozen_iff (world : Lookups ι) (i : ι) (schema : Schema) (stats : CollectionStats)
    (after : List (LookupEvent ι)) (ready : world.phase i = .inferred schema stats)
    (window : ttl = 0 ∨
      (Lookups.run keyOf ttl (Lookups.step keyOf ttl world (.put i)) after).now ≤ world.now + ttl) :
    (∀ j table, keyOf j = keyOf i → (world.phase j).finished = false →
        (Lookups.run keyOf ttl (Lookups.step keyOf ttl world (.put i)) after).phase j = .returned table →
        table.schema = schema) ↔
      Schedule.Guarded (Lookups.step keyOf ttl) (PutAgrees keyOf ttl (keyOf i))
        (Lookups.step keyOf ttl world (.put i)) after :=
  (settled_put ready).run_iff after window

/-- Nobody else of the collection is between a miss and its put. -/
def Alone (keyOf : ι → String) (key : String) (world : Lookups ι) : Prop :=
  ∀ j, keyOf j = key → (world.phase j).inFlight = false

/-- While the entry is fresh no lookup misses, so none puts. -/
theorem Settled.alone_step (settled : Settled keyOf key schema since origin world)
    (window : ttl = 0 ∨ world.now ≤ since + ttl) (alone : Alone keyOf key world) (event : LookupEvent ι) :
    PutAgrees keyOf ttl key world event ∧ Alone keyOf key (Lookups.step keyOf ttl world event) := by
  obtain ⟨entry, fresh, -⟩ := settled.fresh window
  constructor
  · intro i schema' stats put own inferred
    have quiet := alone i own
    rw [inferred] at quiet
    cases quiet
  · intro j own
    rcases step_cases keyOf ttl world event with ⟨seconds, moved⟩ | ⟨i, phase, -, -, missed, flying, moved⟩ |
      ⟨i, schema', stats, -, -, moved⟩ <;> rw [moved]
    · exact alone j own
    · by_cases mine : j = i
      · subst mine
        rw [Lookups.moveTo_self]
        by_contra raised
        rcases flying (by simpa using raised) with before | missing
        · rw [alone j own] at before
          cases before
        · have absent := missed missing
          rw [own, fresh] at absent
          cases absent
      · rw [Lookups.moveTo_other _ mine]
        exact alone j own
    · by_cases mine : j = i
      · subst mine
        rw [Lookups.moveTo_self]
        rfl
      · rw [Lookups.moveTo_other _ mine]
        exact alone j own

theorem single_flight_agrees (settled : Settled keyOf key schema since origin world)
    (alone : Alone keyOf key world) (events : List (LookupEvent ι))
    (window : ttl = 0 ∨ (Lookups.run keyOf ttl world events).now ≤ since + ttl) :
    Schedule.Guarded (Lookups.step keyOf ttl) (PutAgrees keyOf ttl key) world events := by
  induction events generalizing world with
  | nil => trivial
  | cons event rest ih =>
      have early : ttl = 0 ∨ world.now ≤ since + ttl :=
        window.imp_right fun inside => (run_now keyOf ttl world (event :: rest)).trans inside
      obtain ⟨agrees, quiet⟩ := settled.alone_step early alone event
      exact ⟨agrees, ih (settled.step early agrees) quiet window⟩

end

/-- Whatever the interleaving, all lookups that return within the interval after
a put return one schema. -/
def StaysFrozen {ι : Type} [DecidableEq ι] (keyOf : ι → String) (ttl : Nat) : Prop :=
  ∀ (start : Lookups ι) (before : List (LookupEvent ι)) (i : ι) (schema : Schema) (stats : CollectionStats)
    (after : List (LookupEvent ι)), (∀ j, start.phase j = .listing) →
    (Lookups.run keyOf ttl start before).phase i = .inferred schema stats →
    (ttl = 0 ∨ (Lookups.run keyOf ttl start (before ++ .put i :: after)).now ≤
      (Lookups.run keyOf ttl start before).now + ttl) →
    ∀ j table, keyOf j = keyOf i → ((Lookups.run keyOf ttl start before).phase j).finished = false →
      (Lookups.run keyOf ttl start (before ++ .put i :: after)).phase j = .returned table →
      table.schema = schema

def emptyCatalog : Lookups Bool := ⟨KeyMap.empty, 0, fun _ => .listing⟩

def ordersKey : Bool → String := fun _ => "shop.orders"

def noStats : CollectionStats := ⟨0, 0, 0, []⟩

/-- The schemas two samples of one collection give. -/
def numbersSampled : Schema := (Sampler.observeAll [⟨[("total", .int32 1)], rfl⟩]).finish 4
def textsSampled : Schema := (Sampler.observeAll [⟨[("total", .string "a")], rfl⟩]).finish 4

/-- Both lookups miss before either puts. -/
def bothMiss (first second : Schema) : List (LookupEvent Bool) :=
  [.list true true, .list false true, .getFresh true, .getFresh false,
    .infer true (some (first, noStats)), .infer false (some (second, noStats))]

theorem bothMiss_ready (first second : Schema) :
    (Lookups.run ordersKey 3600 emptyCatalog (bothMiss first second)).phase true = .inferred first noStats ∧
      (Lookups.run ordersKey 3600 emptyCatalog (bothMiss first second)).phase false = .inferred second noStats ∧
      (Lookups.run ordersKey 3600 emptyCatalog (bothMiss first second)).now = 0 :=
  ⟨rfl, rfl, rfl⟩

/-- The second put changes the type of `total` within the interval. -/
theorem schema_thaws : ¬∀ (keyOf : Bool → String) (ttl : Nat), StaysFrozen keyOf ttl := by
  intro frozen
  have same : textsSampled = numbersSampled :=
    frozen ordersKey 3600 emptyCatalog (bothMiss numbersSampled textsSampled) true numbersSampled noStats
      [.put false] (fun _ => rfl) rfl (.inr (by decide)) false ⟨textsSampled, noStats, 0⟩ rfl rfl rfl
  have types : textsSampled.map FieldOf.dataType ≠ numbersSampled.map FieldOf.dataType := by decide
  exact types (congrArg (List.map FieldOf.dataType) same)

/-- Two lookups that overlap and infer alike. -/
theorem schema_frozen_iff_orders :
    ∃ table, (Lookups.run ordersKey 3600 emptyCatalog
        (bothMiss numbersSampled numbersSampled ++ [.put true, .put false])).phase false = .returned table ∧
      table.schema = numbersSampled := by
  obtain ⟨first, second, clock⟩ := bothMiss_ready numbersSampled numbersSampled
  have frozen := @schema_frozen_iff Bool _ ordersKey 3600
    (Lookups.run ordersKey 3600 emptyCatalog (bothMiss numbersSampled numbersSampled)) true numbersSampled noStats
    [.put false] first (.inr (by decide))
  refine ⟨⟨numbersSampled, noStats, 0⟩, rfl, ?_⟩
  refine frozen.mpr ⟨?_, trivial⟩ false ⟨numbersSampled, noStats, 0⟩ rfl rfl rfl
  intro i schema stats put own inferred entry fresh
  cases put
  have mine : schema = numbersSampled := (LookupPhase.inferred.inj inferred).1.symm
  have served : entry = ⟨numbersSampled, noStats, 0⟩ := (Option.some.inj fresh).symm
  rw [mine, served]

end Auger
