import Auger.CatalogMap
import Auger.Lookups

set_option autoImplicit false

/-! The collection listings shared by all lookups: which collections SQL lists and
resolves while listings are refreshed. -/

namespace Auger

open General

structure MongoConfig where
  excludeCollections : List String

/-- `prefix*` matches by prefix; anything else must match exactly. -/
def matchesPrefix (pattern name : String) : Bool :=
  match pattern.toList.getLast? with
  | some '*' => pattern.toList.dropLast.isPrefixOf name.toList
  | _ => pattern == name

example : matchesPrefix "tmp_*" "tmp_import" = true ∧ matchesPrefix "order" "orders" = false := by decide

namespace MongoConfig

/-- Neither one of the server's own collections nor an excluded one. -/
def exposes (cfg : MongoConfig) (name : String) : Bool :=
  !"system.".toList.isPrefixOf name.toList && !cfg.excludeCollections.any fun pattern => matchesPrefix pattern name

def collections (cfg : MongoConfig) (answer : Option (List String)) : Option (List String) :=
  answer.map fun names =>
    (names.filter fun name => !"system.".toList.isPrefixOf name.toList).filter fun name =>
      !cfg.excludeCollections.any fun pattern => matchesPrefix pattern name

theorem mem_collections {cfg : MongoConfig} {answer : Option (List String)} {names : List String}
    (listed : cfg.collections answer = some names) {name : String} (inside : name ∈ names) :
    cfg.exposes name = true := by
  obtain ⟨raw, -, rfl⟩ := Option.map_eq_some_iff.mp listed
  simp only [List.mem_filter] at inside
  rw [exposes, inside.1.2, inside.2]
  rfl

/-- `MongoCatalog::new`: one listing for every database that could be listed. -/
def startListings (cfg : MongoConfig) (databases : List String) (answers : String → Option (List String)) :
    KeyMap (List String) :=
  databases.foldl (fun listings db =>
    match cfg.collections (answers db) with
    | some names => listings.insert db names
    | none => listings) KeyMap.empty

end MongoConfig

inductive LookupSource
  /-- `MongoSchema::table`. -/
  | sql
  /-- The table endpoint of the console. -/
  | http (refresh : Bool)
  deriving DecidableEq, Repr

structure LookupRequest where
  source : LookupSource
  database : String
  name : String

def LookupRequest.key (request : LookupRequest) : String := CatalogStore.key request.database request.name

/-- The listings, the lookups that await one, and the lookups themselves. -/
structure Serving (ι : Type) where
  listings : KeyMap (List String)
  awaiting : ι → Bool
  lookups : Lookups ι

inductive ServingEvent (ι : Type)
  /-- A lookup checks its collection, or its database. -/
  | check (i : ι)
  /-- The listing a lookup awaits arrives, or its request has failed. -/
  | reply (i : ι) (answer : Option (List String))
  /-- Any later step of a lookup, or time passing. -/
  | lookup (event : LookupEvent ι)

/-- Past the check that the collection, or its database, is known. -/
def LookupPhase.letThrough : LookupPhase → Bool
  | .listing | .refused => false
  | _ => true

section
variable {ι : Type} [DecidableEq ι] (cfg : MongoConfig) (databases : List String) (request : ι → LookupRequest)
  (ttl : Nat)

namespace Serving

/-- `cached_names`: the listing, or the tables known before there is one. -/
def cachedNames (world : Serving ι) (db : String) : List String :=
  match world.listings.get db with
  | some names => names
  | none => CatalogStore.knownTables world.lookups.tables.keys db

def lookup (world : Serving ι) (event : LookupEvent ι) : Serving ι :=
  { world with lookups := world.lookups.step (fun i => (request i).key) ttl event }

def step (world : Serving ι) : ServingEvent ι → Serving ι
  | .check i =>
      match world.lookups.phase i, (request i).source with
      | .listing, .sql =>
          if world.awaiting i then world
          else if (request i).name ∈ world.cachedNames (request i).database then
            world.lookup request ttl (.list i true)
          else { world with awaiting := Function.update world.awaiting i true }
      | .listing, .http refresh =>
          if (request i).database ∈ databases then
            if refresh then { world with lookups := world.lookups.moveTo i .inferring }
            else world.lookup request ttl (.list i true)
          else world.lookup request ttl (.list i false)
      | _, _ => world
  | .reply i answer =>
      if world.awaiting i then
        let settled := { world with awaiting := Function.update world.awaiting i false }
        match cfg.collections answer with
        | some names =>
            { settled with listings := world.listings.insert (request i).database names }.lookup request ttl
              (.list i (decide ((request i).name ∈ names)))
        | none =>
            settled.lookup request ttl (.list i (decide ((request i).name ∈ world.cachedNames (request i).database)))
      else world
  | .lookup (.list _ _) => world
  | .lookup event => world.lookup request ttl event

def run (world : Serving ι) (events : List (ServingEvent ι)) : Serving ι :=
  Schedule.run (step cfg databases request ttl) world events

/-- A gateway that has just started on the tables its store has read. -/
def start (answers : String → Option (List String)) (tables : KeyMap CachedTable) (now : Nat) : Serving ι :=
  ⟨cfg.startListings databases answers, fun _ => false, ⟨tables, now, fun _ => .listing⟩⟩

end Serving

variable {cfg databases request ttl}

theorem letThrough_moveTo {world : Lookups ι} {i j : ι} {phase : LookupPhase}
    (through : ((world.moveTo i phase).phase j).letThrough = true) :
    (world.phase j).letThrough = true ∨ j = i ∧ phase.letThrough = true := by
  by_cases same : j = i
  · subst same
    rw [Lookups.moveTo_self] at through
    exact .inr ⟨rfl, through⟩
  · rw [Lookups.moveTo_other world same] at through
    exact .inl through

theorem letThrough_step {keyOf : ι → String} {world : Lookups ι} {event : LookupEvent ι} {j : ι}
    (through : ((Lookups.step keyOf ttl world event).phase j).letThrough = true) :
    (world.phase j).letThrough = true ∨ event = .list j true := by
  have moved : ∀ {i : ι} {phase : LookupPhase} {lookups : Lookups ι}, lookups.phase = world.phase →
      (world.phase i).letThrough = true → ((lookups.moveTo i phase).phase j).letThrough = true →
      (world.phase j).letThrough = true := by
    intro i phase lookups same before after
    rcases letThrough_moveTo after with old | ⟨rfl, -⟩
    · rwa [same] at old
    · exact before
  cases event with
  | tick seconds => exact .inl through
  | list i listed =>
      cases phase : world.phase i <;> simp only [Lookups.step, phase] at through
      case listing =>
        rcases letThrough_moveTo through with old | ⟨rfl, passed⟩
        · exact .inl old
        · cases listed with
          | true => exact .inr rfl
          | false => cases passed
      all_goals exact .inl through
  | getFresh i | infer i outcome | put i =>
      left
      cases phase : world.phase i <;> simp only [Lookups.step, phase] at through
      all_goals first
        | exact through
        | exact moved rfl (by rw [phase]; rfl) through

theorem tables_step (keyOf : ι → String) (world : Lookups ι) (event : LookupEvent ι) :
    (Lookups.step keyOf ttl world event).tables = world.tables ∨
      ∃ i entry, (world.phase i).letThrough = true ∧
        (Lookups.step keyOf ttl world event).tables = world.tables.insert (keyOf i) entry := by
  rcases step_cases keyOf ttl world event with ⟨seconds, same⟩ | ⟨i, phase, -, -, -, -, same⟩ |
    ⟨i, schema, stats, -, phase, same⟩ <;> rw [same]
  · exact .inl rfl
  · exact .inl rfl
  · exact .inr ⟨i, _, by rw [phase]; rfl, rfl⟩

/-- Every table the store knows of a database may be exposed. -/
def Clean (cfg : MongoConfig) (tables : KeyMap CachedTable) (db : String) : Prop :=
  ∀ name, (tables.get (CatalogStore.key db name)).isSome = true → cfg.exposes name = true

/-- The console asks for exposed collections of a database only. -/
def AsksClean (cfg : MongoConfig) (request : ι → LookupRequest) (db : String) : Prop :=
  ∀ i refresh, (request i).source = .http refresh → (request i).database = db → cfg.exposes (request i).name = true

/-- Lookups that SQL has let through, and all it would list, are exposed. -/
structure Exposing (cfg : MongoConfig) (databases : List String) (request : ι → LookupRequest) (db : String)
    (world : Serving ι) : Prop where
  lists : ∀ d names, world.listings.get d = some names → ∀ name ∈ names, cfg.exposes name = true
  gate : ∀ i, (world.lookups.phase i).letThrough = true → (request i).database ∈ databases ∧
    ((request i).source = .sql → (request i).database = db → cfg.exposes (request i).name = true)
  waits : ∀ i, world.awaiting i = true → (request i).source = .sql
  source : (world.listings.get db).isSome = true ∨
    Clean cfg world.lookups.tables db ∧ AsksClean cfg request db

omit [DecidableEq ι] in
theorem Exposing.cached {db : String} {world : Serving ι} (exposing : Exposing cfg databases request db world) :
    ∀ name ∈ world.cachedNames db, cfg.exposes name = true := by
  intro name inside
  rw [Serving.cachedNames] at inside
  cases listed : world.listings.get db with
  | some names =>
      rw [listed] at inside
      exact exposing.lists db names listed name inside
  | none =>
      rw [listed] at inside
      rcases exposing.source with some_listing | ⟨clean, -⟩
      · rw [listed] at some_listing
        cases some_listing
      · exact clean name (KeyMap.mem_keys.mp (mem_knownTables.mp inside))

omit [DecidableEq ι] in
/-- Lookups that move on, where each one let through newly may be. -/
theorem Exposing.moved {db : String} (plain : ∀ d ∈ databases, '.' ∉ d.toList) (own : db ∈ databases)
    {world : Serving ι} (exposing : Exposing cfg databases request db world) {lookups : Lookups ι}
    {awaiting : ι → Bool} (waits : ∀ j, awaiting j = true → (request j).source = .sql)
    (phases : ∀ j, (lookups.phase j).letThrough = true → (world.lookups.phase j).letThrough = true ∨
      (request j).database ∈ databases ∧
        ((request j).source = .sql → (request j).database = db → cfg.exposes (request j).name = true))
    (tables : lookups.tables = world.lookups.tables ∨
      ∃ i entry, (world.lookups.phase i).letThrough = true ∧
        lookups.tables = world.lookups.tables.insert (request i).key entry) :
    Exposing cfg databases request db ⟨world.listings, awaiting, lookups⟩ := by
  refine ⟨exposing.lists, fun j through => (phases j through).elim (exposing.gate j) id, waits, ?_⟩
  refine exposing.source.imp_right fun ⟨clean, asks⟩ => ⟨fun name known => ?_, asks⟩
  rcases tables with same | ⟨i, entry, through, same⟩
  · rw [same] at known
    exact clean name known
  · rw [same, KeyMap.get_insert] at known
    split_ifs at known with key
    · -- The table put is one of this database, and its lookup was let through.
      obtain ⟨inside, sql⟩ := exposing.gate i through
      have pair := (@key_inj ⟨db, plain db own⟩ ⟨(request i).database, plain _ inside⟩ name (request i).name).mp key
      obtain ⟨database, collection⟩ := Prod.mk.inj pair
      cases source : (request i).source with
      | sql =>
          rw [collection]
          exact sql source database.symm
      | http refresh =>
          rw [collection]
          exact asks i refresh source database.symm
    · exact clean name known

theorem Exposing.lookup {db : String} (plain : ∀ d ∈ databases, '.' ∉ d.toList) (own : db ∈ databases)
    {world : Serving ι} (exposing : Exposing cfg databases request db world) (event : LookupEvent ι)
    (allowed : ∀ j, event = .list j true → (request j).database ∈ databases ∧
      ((request j).source = .sql → (request j).database = db → cfg.exposes (request j).name = true)) :
    Exposing cfg databases request db (world.lookup request ttl event) :=
  exposing.moved plain own exposing.waits
    (fun j through => (letThrough_step through).imp_right (allowed j))
    (tables_step (fun i => (request i).key) world.lookups event)

omit [DecidableEq ι] in
theorem Exposing.listed {db : String} {world : Serving ι} (exposing : Exposing cfg databases request db world)
    {answer : Option (List String)} {names : List String} (filtered : cfg.collections answer = some names)
    (d : String) : Exposing cfg databases request db { world with listings := world.listings.insert d names } := by
  refine ⟨?_, exposing.gate, exposing.waits, exposing.source.imp_left fun some_listing => ?_⟩
  · intro other listed found
    rw [KeyMap.get_insert] at found
    split_ifs at found
    · cases found
      exact fun name inside => MongoConfig.mem_collections filtered inside
    · exact exposing.lists other listed found
  · rw [KeyMap.get_insert]
    split_ifs
    · rfl
    · exact some_listing

/-- Every step of the gateway keeps the collections of a database exposed. -/
theorem exposing_step {db : String} (plain : ∀ d ∈ databases, '.' ∉ d.toList) (own : db ∈ databases)
    (schemas : ∀ i, (request i).source = .sql → (request i).database ∈ databases)
    {world : Serving ι} (exposing : Exposing cfg databases request db world) (event : ServingEvent ι) :
    Exposing cfg databases request db (world.step cfg databases request ttl event) := by
  cases event with
  | check i =>
      simp only [Serving.step]
      cases phase : world.lookups.phase i with
      | listing =>
          cases source : (request i).source with
          | sql =>
              simp only []
              split_ifs with waits inside
              · exact exposing
              · refine exposing.lookup plain own _ fun j same => ?_
                cases same
                refine ⟨schemas i source, fun _ database => ?_⟩
                rw [database] at inside
                exact exposing.cached _ inside
              · refine exposing.moved plain own (fun j waiting => ?_) (fun j through => .inl through) (.inl rfl)
                by_cases mine : j = i
                · rw [mine, source]
                · rw [Function.update_of_ne mine] at waiting
                  exact exposing.waits j waiting
          | http refresh =>
              simp only []
              split_ifs with known anew
              · refine exposing.moved plain own exposing.waits (fun j through => ?_) (.inl rfl)
                refine (letThrough_moveTo through).imp_right fun ⟨mine, _⟩ => ?_
                rw [mine, source]
                exact ⟨known, nofun⟩
              · refine exposing.lookup plain own _ fun j same => ?_
                cases same
                rw [source]
                exact ⟨known, nofun⟩
              · exact exposing.lookup plain own _ fun j same => by cases same
      | _ => exact exposing
  | reply i answer =>
      simp only [Serving.step]
      split_ifs with waiting
      · have asked := exposing.waits i waiting
        have settled : Exposing cfg databases request db
            { world with awaiting := Function.update world.awaiting i false } := by
          refine exposing.moved plain own (fun j waits => ?_) (fun j through => .inl through) (.inl rfl)
          by_cases mine : j = i
          · rw [mine, asked]
          · rw [Function.update_of_ne mine] at waits
            exact exposing.waits j waits
        cases filtered : cfg.collections answer with
        | some names =>
            refine (settled.listed filtered (request i).database).lookup plain own _ fun j same => ?_
            obtain ⟨rfl, inside⟩ := LookupEvent.list.inj same
            exact ⟨schemas i asked, fun _ _ => MongoConfig.mem_collections filtered (of_decide_eq_true inside)⟩
        | none =>
            refine settled.lookup plain own _ fun j same => ?_
            obtain ⟨rfl, inside⟩ := LookupEvent.list.inj same
            refine ⟨schemas i asked, fun _ database => ?_⟩
            rw [database] at inside
            exact exposing.cached _ (of_decide_eq_true inside)
      · exact exposing
  | lookup event =>
      cases event with
      | list i listed => exact exposing
      | _ => exact exposing.lookup plain own _ fun j same => by cases same

theorem startListings_spec (cfg : MongoConfig) (databases : List String) (answers : String → Option (List String)) :
    (∀ d names, (cfg.startListings databases answers).get d = some names → ∀ name ∈ names,
        cfg.exposes name = true) ∧
      ∀ db ∈ databases, (answers db).isSome = true → ((cfg.startListings databases answers).get db).isSome = true := by
  induction databases using List.reverseRecOn with
  | nil => exact ⟨nofun, nofun⟩
  | append_singleton databases last ih =>
      have unfolded : cfg.startListings (databases ++ [last]) answers =
          match cfg.collections (answers last) with
          | some names => (cfg.startListings databases answers).insert last names
          | none => cfg.startListings databases answers := by
        simp only [MongoConfig.startListings, List.foldl_append, List.foldl_cons, List.foldl_nil]
      rw [unfolded]
      cases filtered : cfg.collections (answers last) with
      | none =>
          refine ⟨ih.1, fun db inside answered => ?_⟩
          rcases List.mem_append.mp inside with earlier | only
          · exact ih.2 db earlier answered
          · rw [List.mem_singleton.mp only] at answered
            rw [MongoConfig.collections, Option.map_eq_none_iff] at filtered
            rw [filtered] at answered
            cases answered
      | some names =>
          constructor
          · intro d listed found
            rw [KeyMap.get_insert] at found
            split_ifs at found
            · cases found
              exact fun name inside => MongoConfig.mem_collections filtered inside
            · exact ih.1 d listed found
          · intro db inside answered
            rw [KeyMap.get_insert]
            split_ifs with same
            · rfl
            · rcases List.mem_append.mp inside with earlier | only
              · exact ih.2 db earlier answered
              · exact absurd (List.mem_singleton.mp only) same

omit [DecidableEq ι] in
theorem start_exposing {db : String} (own : db ∈ databases) (answers : String → Option (List String))
    (tables : KeyMap CachedTable) (now : Nat)
    (source : (answers db).isSome = true ∨ Clean cfg tables db ∧ AsksClean cfg request db) :
    Exposing cfg databases request db (Serving.start cfg databases answers tables now) := by
  obtain ⟨lists, listed⟩ := startListings_spec cfg databases answers
  exact ⟨lists, nofun, nofun, source.imp_left (listed db own)⟩

/-- A SQL lookup is let through without a request to the server exactly when its
collection is listed. -/
theorem check_listed (world : Serving ι) {i : ι} (sql : (request i).source = .sql)
    (asking : world.lookups.phase i = .listing) (free : world.awaiting i = false) :
    ((world.step cfg databases request ttl (.check i)).lookups.phase i).letThrough = true ↔
      (request i).name ∈ world.cachedNames (request i).database := by
  by_cases inside : (request i).name ∈ world.cachedNames (request i).database
  · simp [Serving.step, asking, sql, free, inside, Serving.lookup, Lookups.step, LookupPhase.letThrough]
  · simp [Serving.step, asking, sql, free, inside, LookupPhase.letThrough]

/-- However lookups interleave and whenever listings arrive or fail, SQL neither lists
nor resolves an excluded collection, provided that the database was listed at startup
or that nothing excluded is in the store or asked for through the console. What it
lists is what it resolves without asking the server. -/
theorem excluded_never_served (cfg : MongoConfig) (databases : List String) (request : ι → LookupRequest) (ttl : Nat)
    (answers : String → Option (List String)) (tables : KeyMap CachedTable) (now : Nat)
    (events : List (ServingEvent ι)) (db : String) (own : db ∈ databases)
    (plain : ∀ d ∈ databases, '.' ∉ d.toList)
    (schemas : ∀ i, (request i).source = .sql → (request i).database ∈ databases)
    (source : (answers db).isSome = true ∨ Clean cfg tables db ∧ AsksClean cfg request db) :
    let world := (Serving.start cfg databases answers tables now).run cfg databases request ttl events
    (∀ name ∈ world.cachedNames db, cfg.exposes name = true) ∧
      ∀ i, (request i).source = .sql → (request i).database = db →
        ((world.lookups.phase i).letThrough = true → cfg.exposes (request i).name = true) ∧
        (world.lookups.phase i = .listing → world.awaiting i = false →
          (((world.step cfg databases request ttl (.check i)).lookups.phase i).letThrough = true ↔
            (request i).name ∈ world.cachedNames db)) := by
  have exposing : Exposing cfg databases request db
      ((Serving.start cfg databases answers tables now).run cfg databases request ttl events) :=
    Schedule.run_keeps (Exposing cfg databases request db)
      (fun _ event before => exposing_step plain own schemas before event) events
      (start_exposing own answers tables now source)
  refine ⟨exposing.cached, fun i sql same => ⟨fun through => (exposing.gate i through).2 sql same, ?_⟩⟩
  intro asking free
  rw [← same]
  exact check_listed _ sql asking free

/-- What a step with listings is for the lookups alone. -/
def Serving.events (cfg : MongoConfig) (databases : List String) (request : ι → LookupRequest) (world : Serving ι) :
    ServingEvent ι → List (LookupEvent ι)
  | .check i =>
      match (request i).source with
      | .sql =>
          if world.awaiting i then []
          else if (request i).name ∈ world.cachedNames (request i).database then [.list i true]
          else []
      | .http _ => [.list i (decide ((request i).database ∈ databases))]
  | .reply i answer =>
      if world.awaiting i then
        [.list i (decide ((request i).name ∈
          (cfg.collections answer).getD (world.cachedNames (request i).database)))]
      else []
  | .lookup (.list _ _) => []
  | .lookup event => [event]

theorem list_elsewhere (keyOf : ι → String) (ttl : Nat) {world : Lookups ι} {i : ι}
    (later : world.phase i ≠ .listing) (listed : Bool) : Lookups.step keyOf ttl world (.list i listed) = world := by
  cases phase : world.phase i with
  | listing => exact absurd phase later
  | _ => simp only [Lookups.step, phase]

theorem refines_step (cached : ∀ i, (request i).source ≠ .http true) (world : Serving ι) (event : ServingEvent ι) :
    (world.step cfg databases request ttl event).lookups =
      Schedule.run (Lookups.step (fun i => (request i).key) ttl) world.lookups
        (world.events cfg databases request event) := by
  cases event with
  | check i =>
      by_cases asking : world.lookups.phase i = .listing
      · cases source : (request i).source with
        | sql =>
            simp only [Serving.step, Serving.events, asking, source]
            split_ifs <;> rfl
        | http refresh =>
            cases refresh with
            | true => exact absurd source (cached i)
            | false =>
                simp only [Serving.step, Serving.events, asking, source]
                by_cases known : (request i).database ∈ databases <;> simp [known, Serving.lookup]
      · have still : (world.step cfg databases request ttl (.check i)).lookups = world.lookups := by
          cases phase : world.lookups.phase i with
          | listing => exact absurd phase asking
          | _ => simp only [Serving.step, phase]
        have skipped := list_elsewhere (fun i => (request i).key) ttl asking
        rw [still]
        simp only [Serving.events]
        split
        · split_ifs
          · rfl
          · exact (skipped true).symm
          · rfl
        · exact (skipped _).symm
  | reply i answer =>
      simp only [Serving.step, Serving.events]
      split_ifs
      · cases cfg.collections answer <;> rfl
      · rfl
  | lookup event => cases event <;> rfl

/-- Without forced refreshes, lookups under shared listings are the lookups of the
store alone, in which each check's outcome is given. -/
theorem serving_refines (cfg : MongoConfig) (databases : List String) (request : ι → LookupRequest) (ttl : Nat)
    (cached : ∀ i, (request i).source ≠ .http true) (world : Serving ι) (events : List (ServingEvent ι)) :
    (world.run cfg databases request ttl events).lookups =
      Lookups.run (fun i => (request i).key) ttl world.lookups
        (Schedule.trace (Serving.step cfg databases request ttl) (Serving.events cfg databases request) world events) :=
  Schedule.run_refines Serving.lookups (fun (_ : Serving ι) _ (_ : True) (_ : True) => trivial)
    (fun world event _ _ => refines_step cached world event) trivial
    (Schedule.guarded_of_forall fun _ _ _ => trivial)

/-- While listings are refreshed all around it, a table put by the only lookup in
flight keeps its schema: every lookup that ends within the interval returns it. -/
theorem served_schema_frozen (cfg : MongoConfig) (databases : List String) (request : ι → LookupRequest) (ttl : Nat)
    (cached : ∀ i, (request i).source ≠ .http true) (world : Serving ι) (i : ι) (schema : Schema)
    (stats : CollectionStats) (after : List (ServingEvent ι))
    (ready : world.lookups.phase i = .inferred schema stats)
    (alone : ∀ j, j ≠ i → (request j).key = (request i).key → (world.lookups.phase j).inFlight = false)
    (window : ttl = 0 ∨ ((world.step cfg databases request ttl (.lookup (.put i))).run cfg databases request ttl
      after).lookups.now ≤ world.lookups.now + ttl) :
    ∀ j table, (request j).key = (request i).key → (world.lookups.phase j).finished = false →
      ((world.step cfg databases request ttl (.lookup (.put i))).run cfg databases request ttl after).lookups.phase j =
        .returned table → table.schema = schema := by
  have put : (world.step cfg databases request ttl (.lookup (.put i))).lookups =
      Lookups.step (fun i => (request i).key) ttl world.lookups (.put i) := rfl
  have settled : Settled (fun i => (request i).key) (request i).key schema world.lookups.now world.lookups
      (Lookups.step (fun i => (request i).key) ttl world.lookups (.put i)) := settled_put ready
  have quiet : Alone (fun i => (request i).key) (request i).key
      (Lookups.step (fun i => (request i).key) ttl world.lookups (.put i)) := by
    intro j own
    by_cases mine : j = i
    · subst mine
      simp only [Lookups.step, ready, Lookups.moveTo_self]
      rfl
    · have still : (Lookups.step (fun i => (request i).key) ttl world.lookups (.put i)).phase j =
          world.lookups.phase j := by
        simp only [Lookups.step, ready]
        exact Lookups.moveTo_other _ mine _
      rw [still]
      exact alone j mine own
  rw [serving_refines cfg databases request ttl cached, put] at window ⊢
  exact (settled.run_iff _ window).mpr (single_flight_agrees settled quiet _ window)

end

def noTemporary : MongoConfig := ⟨["tmp_*"]⟩

/-- SQL asks for a temporary collection, the console for one of the server's own. -/
def twoRequests : Bool → LookupRequest
  | true => ⟨.sql, "shop", "tmp_import"⟩
  | false => ⟨.http false, "shop", "system.users"⟩

/-- The console puts its table, and the listing fails for the query. -/
def failedListing : List (ServingEvent Bool) :=
  [.check false, .check true, .lookup (.getFresh false), .lookup (.infer false (some (numbersSampled, noStats))),
    .lookup (.put false), .reply true none]

theorem excluded_never_served_shop :
    let world := (Serving.start noTemporary ["shop"] (fun _ => some ["orders", "tmp_import"]) KeyMap.empty 0).run
      noTemporary ["shop"] twoRequests 3600 failedListing
    (∀ name ∈ world.cachedNames "shop", noTemporary.exposes name = true) ∧
      ∀ i, (twoRequests i).source = .sql → (twoRequests i).database = "shop" →
        ((world.lookups.phase i).letThrough = true → noTemporary.exposes (twoRequests i).name = true) ∧
        (world.lookups.phase i = .listing → world.awaiting i = false →
          (((world.step noTemporary ["shop"] twoRequests 3600 (.check i)).lookups.phase i).letThrough = true ↔
            (twoRequests i).name ∈ world.cachedNames "shop")) :=
  excluded_never_served noTemporary ["shop"] twoRequests 3600 (fun _ => some ["orders", "tmp_import"]) KeyMap.empty 0
    failedListing "shop" (by simp) (by decide) (by decide) (.inl rfl)

/-- SQL and the console ask for one collection. -/
def sameTable : Bool → LookupRequest
  | true => ⟨.sql, "shop", "orders"⟩
  | false => ⟨.http false, "shop", "orders"⟩

/-- SQL awaits a listing while the console's lookup gets to its inference. -/
def consoleFirst : List (ServingEvent Bool) :=
  [.check true, .check false, .lookup (.getFresh false), .lookup (.infer false (some (numbersSampled, noStats)))]

/-- A minute after the console's put the listing arrives, and SQL gets the console's schema. -/
theorem served_schema_frozen_shop :
    let world := (Serving.start noTemporary ["shop"] (fun _ => some ["users"]) KeyMap.empty 0).run noTemporary ["shop"]
      sameTable 3600 consoleFirst
    ∃ table, ((world.step noTemporary ["shop"] sameTable 3600 (.lookup (.put false))).run noTemporary ["shop"] sameTable
        3600 [.lookup (.tick 60), .reply true (some ["orders"]), .lookup (.getFresh true)]).lookups.phase true =
          .returned table ∧ table.schema = numbersSampled := by
  intro world
  have alone : ∀ j, j ≠ false → (sameTable j).key = (sameTable false).key → (world.lookups.phase j).inFlight = false := by
    intro j differ _
    cases j with
    | false => exact absurd rfl differ
    | true => rfl
  refine ⟨_, rfl, ?_⟩
  exact served_schema_frozen noTemporary ["shop"] sameTable 3600 (by decide) world false numbersSampled noStats
    [.lookup (.tick 60), .reply true (some ["orders"]), .lookup (.getFresh true)] rfl alone (.inr (by decide)) true _ rfl
    rfl rfl

end Auger
