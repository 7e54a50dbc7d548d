import Auger.General.KeyMap
import Mathlib.Data.List.Nodup

set_option autoImplicit false

/-! The schemas of the SQL catalog: one for each database found at startup, and those
registered on top. -/

namespace Auger

open General

/-- What a schema's name resolves to; `τ` are the other providers there are. -/
inductive SchemaProvider (τ : Type)
  | mongoSchema (database : String)
  | other (provider : τ)
  deriving DecidableEq, Repr

structure MongoCatalog (τ : Type) where
  databases : List String
  /-- Non-Mongo schemas registered on top, keyed by name. -/
  extra : KeyMap (SchemaProvider τ)

section
variable {τ : Type}

namespace MongoCatalog

def new (databases : List String) : MongoCatalog τ := ⟨databases, KeyMap.empty⟩

/-- All schemas; `visited` are the registered names as the hash map visits them. -/
def schemaNames (catalog : MongoCatalog τ) (visited : List String) : List String := catalog.databases ++ visited

/-- Registered schemas win over databases. -/
def schema (catalog : MongoCatalog τ) (name : String) : Option (SchemaProvider τ) :=
  match catalog.extra.get name with
  | some found => some found
  | none => if name ∈ catalog.databases then some (.mongoSchema name) else none

def registerSchema (catalog : MongoCatalog τ) (call : String × SchemaProvider τ) : MongoCatalog τ :=
  { catalog with extra := catalog.extra.insert call.1 call.2 }

def registerAll (catalog : MongoCatalog τ) (calls : List (String × SchemaProvider τ)) : MongoCatalog τ :=
  calls.foldl registerSchema catalog

/-- The registrations of `build_session`, each of a fresh memory schema. -/
def buildSession (catalog : MongoCatalog τ) (memory : String → τ) : MongoCatalog τ :=
  catalog.registerAll (["pg_catalog", "public"].map fun name => (name, .other (memory name)))

/-- What is listed is what resolves, once, and databases resolve to themselves. -/
structure Agrees (catalog : MongoCatalog τ) (visited : List String) : Prop where
  once : (catalog.schemaNames visited).Nodup
  resolves : ∀ name, (catalog.schema name).isSome ↔ name ∈ catalog.schemaNames visited
  reached : ∀ db ∈ catalog.databases, db ≠ "pg_catalog" → catalog.schema db = some (.mongoSchema db)

end MongoCatalog

@[simp] theorem registerAll_databases (catalog : MongoCatalog τ) (calls : List (String × SchemaProvider τ)) :
    (catalog.registerAll calls).databases = catalog.databases := by
  induction calls generalizing catalog with
  | nil => rfl
  | cons call rest ih => exact ih (catalog.registerSchema call)

theorem mem_registered {catalog : MongoCatalog τ} {calls : List (String × SchemaProvider τ)} {name : String} :
    name ∈ (catalog.registerAll calls).extra.keys ↔ name ∈ catalog.extra.keys ∨ ∃ call ∈ calls, call.1 = name := by
  induction calls generalizing catalog with
  | nil => simp [MongoCatalog.registerAll]
  | cons call rest ih =>
      have here : name ∈ (catalog.registerSchema call).extra.keys ↔ name ∈ catalog.extra.keys ∨ call.1 = name := by
        rw [KeyMap.mem_keys, KeyMap.mem_keys, MongoCatalog.registerSchema, KeyMap.get_insert]
        by_cases same : name = call.1
        · simp [same]
        · simp [same, Ne.symm same]
      have step := @ih (catalog.registerSchema call)
      rw [here] at step
      rw [MongoCatalog.registerAll, List.foldl_cons]
      refine step.trans ?_
      simp only [List.mem_cons, exists_eq_or_imp]
      exact or_assoc

variable {catalog : MongoCatalog τ} {visited : List String} (visits : visited.Perm catalog.extra.keys)

include visits

theorem schema_isSome (name : String) : (catalog.schema name).isSome ↔ name ∈ catalog.schemaNames visited := by
  have known : name ∈ visited ↔ (catalog.extra.get name).isSome := visits.mem_iff.trans KeyMap.mem_keys
  rw [MongoCatalog.schemaNames, List.mem_append, known, MongoCatalog.schema]
  cases catalog.extra.get name with
  | some found => simp
  | none => by_cases database : name ∈ catalog.databases <;> simp [database]

theorem agrees_iff :
    catalog.Agrees visited ↔ catalog.databases.Nodup ∧ ∀ name ∈ catalog.extra.keys, name ∉ catalog.databases := by
  have distinct : visited.Nodup := visits.symm.nodup catalog.extra.keys_nodup
  have listed : (catalog.schemaNames visited).Nodup ↔
      catalog.databases.Nodup ∧ ∀ name ∈ catalog.extra.keys, name ∉ catalog.databases := by
    rw [MongoCatalog.schemaNames, List.nodup_append]
    refine and_congr_right fun _ => (and_iff_right distinct).trans ?_
    constructor
    · intro apart name registered database
      exact apart name database name (visits.mem_iff.mpr registered) rfl
    · intro apart name database other registered same
      exact apart other (visits.mem_iff.mp registered) (same ▸ database)
  constructor
  · intro agrees
    exact listed.mp agrees.once
  · intro apart
    refine ⟨listed.mpr apart, schema_isSome visits, ?_⟩
    intro db database _
    have unregistered : catalog.extra.get db = none := by
      rw [← Option.not_isSome_iff_eq_none, ← KeyMap.mem_keys]
      exact fun registered => apart.2 db registered database
    rw [MongoCatalog.schema, unregistered]
    exact if_pos database

end

section
variable {τ : Type}

theorem registered_apart (databases : List String) (calls : List (String × SchemaProvider τ)) :
    (∀ name ∈ ((MongoCatalog.new databases).registerAll calls).extra.keys, name ∉ databases) ↔
      ∀ call ∈ calls, call.1 ∉ databases := by
  constructor
  · intro apart call inside
    exact apart call.1 (mem_registered.mpr (.inr ⟨call, inside, rfl⟩))
  · intro apart name registered
    rcases mem_registered.mp registered with early | ⟨call, inside, rfl⟩
    · cases early
    · exact apart call inside

/-- Listing and resolving agree after a sequence of registrations exactly when the
databases are distinct and none of them has a registered name. -/
theorem schemas_agree_iff (databases : List String) (calls : List (String × SchemaProvider τ)) (visited : List String)
    (visits : visited.Perm ((MongoCatalog.new databases).registerAll calls).extra.keys) :
    ((MongoCatalog.new databases).registerAll calls).Agrees visited ↔
      databases.Nodup ∧ ∀ call ∈ calls, call.1 ∉ databases := by
  rw [agrees_iff visits, registerAll_databases]
  exact and_congr_right fun _ => registered_apart databases calls

theorem schemas_agree_iff_shop :
    ((MongoCatalog.new ["shop", "admin_data"]).registerAll [("public", .other ()), ("views", .other ()),
        ("public", .other ())]).Agrees ["views", "public"] :=
  (schemas_agree_iff _ _ _ (List.Perm.swap "public" "views" [])).mpr ⟨by decide, by simp⟩

/-- A database called `public` is listed twice after `build_session`, and hidden. -/
theorem public_hidden :
    ¬∀ (databases : List String) (calls : List (String × SchemaProvider Unit)) (visited : List String),
      databases.Nodup → visited.Perm ((MongoCatalog.new databases).registerAll calls).extra.keys →
      ((MongoCatalog.new databases).registerAll calls).Agrees visited := by
  intro agree
  have session := agree ["public"] [("pg_catalog", .other ()), ("public", .other ())] ["pg_catalog", "public"]
    (List.nodup_singleton _) (List.Perm.refl _)
  have found := session.reached "public" (List.mem_singleton_self _) (by decide)
  cases found

/-- `build_session` leaves listing and resolving in agreement exactly when no database
has one of its two names. -/
theorem buildSession_agrees_iff (databases : List String) (memory : String → τ) (visited : List String)
    (visits : visited.Perm ((MongoCatalog.new databases).buildSession memory).extra.keys) :
    ((MongoCatalog.new databases).buildSession memory).Agrees visited ↔
      databases.Nodup ∧ "pg_catalog" ∉ databases ∧ "public" ∉ databases := by
  rw [agrees_iff visits, MongoCatalog.buildSession, registerAll_databases]
  refine and_congr_right fun _ => (registered_apart databases _).trans ?_
  simp

end

end Auger
