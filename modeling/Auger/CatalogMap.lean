import Auger.Restart

set_option autoImplicit false

/-! The catalog store as a map from a database and a collection to a table. -/

namespace Auger

open General

/-- What is left of a text behind a given beginning. -/
def stripPrefix (start text : String) : Option String :=
  if start.toList.isPrefixOf text.toList then some (String.ofList (text.toList.drop start.toList.length)) else none

theorem stripPrefix_eq_some {start text rest : String} : stripPrefix start text = some rest ↔ text = start ++ rest := by
  rw [stripPrefix, Option.ite_none_right_eq_some, List.isPrefixOf_iff_prefix, Option.some.injEq]
  constructor
  · rintro ⟨⟨tail, same⟩, rfl⟩
    rw [← same, List.drop_left, ← String.toList_inj, String.toList_append, String.toList_ofList, same]
  · rintro rfl
    rw [String.toList_append, List.drop_left, String.ofList_toList]
    exact ⟨List.prefix_append .., rfl⟩

namespace CatalogStore

def get (store : CatalogStore) (key : String) : Option CachedTable := store.tables.get key

/-- The collections of a database; `visited` are the keys as the hash map visits them. -/
def knownTables (visited : List String) (db : String) : List String :=
  visited.filterMap (stripPrefix (db ++ "."))

end CatalogStore

/-- A database's name; a server allows no dot in it. -/
structure DatabaseName where
  name : String
  plain : '.' ∉ name.toList

/-- A put of a collection's table under its key. -/
structure CatalogPut where
  db : DatabaseName
  collection : String
  table : CachedTable

namespace CatalogPut

def key (put : CatalogPut) : String := CatalogStore.key put.db.name put.collection

def names (put : CatalogPut) : String × String := (put.db.name, put.collection)

def runAll (file : Option String) (puts : List CatalogPut) : CatalogStore :=
  puts.foldl (fun store put => store.put (put.key, put.table)) ⟨KeyMap.empty, file⟩

def last (puts : List CatalogPut) (names : String × String) : Option CachedTable :=
  (puts.reverse.find? fun put => put.names = names).map CatalogPut.table

end CatalogPut

theorem key_inj {db other : DatabaseName} {collection name : String} :
    CatalogStore.key db.name collection = CatalogStore.key other.name name ↔
      (db.name, collection) = (other.name, name) := by
  have before : ∀ (db : DatabaseName) (collection : String),
      (CatalogStore.key db.name collection).toList.takeWhile (· != '.') = db.name.toList := by
    intro db collection
    rw [CatalogStore.key, String.toList_append, String.toList_append, List.append_assoc,
      List.takeWhile_append_of_pos]
    · simp
    · intro c inside
      have other : c ≠ '.' := fun dot => db.plain (dot ▸ inside)
      simpa using other
  constructor
  · intro same
    have name : db.name = other.name := by
      rw [← String.toList_inj, ← before db collection, same, before]
    have chars := congrArg String.toList same
    simp only [CatalogStore.key, name, String.toList_append, List.append_cancel_left_eq] at chars
    rw [name, String.toList_inj.mp chars]
  · intro same
    obtain ⟨first, second⟩ := Prod.mk.inj same
    rw [first, second]

theorem runAll_snoc (file : Option String) (puts : List CatalogPut) (put : CatalogPut) :
    CatalogPut.runAll file (puts ++ [put]) = (CatalogPut.runAll file puts).put (put.key, put.table) := by
  rw [CatalogPut.runAll, List.foldl_append]
  rfl

theorem last_snoc (puts : List CatalogPut) (put : CatalogPut) (names : String × String) :
    CatalogPut.last (puts ++ [put]) names =
      if put.names = names then some put.table else CatalogPut.last puts names := by
  rw [CatalogPut.last, CatalogPut.last, List.reverse_append, List.reverse_singleton, List.singleton_append,
    List.find?_cons]
  by_cases same : put.names = names <;> simp [same]

theorem get_put (store : CatalogStore) (put : CatalogPut) (db : DatabaseName) (collection : String) :
    (store.put (put.key, put.table)).get (CatalogStore.key db.name collection) =
      if put.names = (db.name, collection) then some put.table
      else store.get (CatalogStore.key db.name collection) := by
  have keys : CatalogStore.key db.name collection = put.key ↔ put.names = (db.name, collection) := by
    rw [eq_comm, CatalogPut.key, key_inj]
    exact Iff.rfl
  rw [CatalogStore.get, CatalogStore.put, CatalogStore.persist, KeyMap.get_insert]
  simp only [keys]
  rfl

theorem get_runAll (file : Option String) (puts : List CatalogPut) (db : DatabaseName) (collection : String) :
    (CatalogPut.runAll file puts).get (CatalogStore.key db.name collection) =
      CatalogPut.last puts (db.name, collection) := by
  induction puts using List.reverseRecOn with
  | nil => rfl
  | append_singleton puts put ih =>
      rw [runAll_snoc, get_put, last_snoc, ih]

theorem last_isSome (puts : List CatalogPut) (names : String × String) :
    (CatalogPut.last puts names).isSome ↔ ∃ put ∈ puts, put.names = names := by
  simp [CatalogPut.last]

theorem mem_knownTables {visited : List String} {db collection : String} :
    collection ∈ CatalogStore.knownTables visited db ↔ CatalogStore.key db collection ∈ visited := by
  rw [CatalogStore.knownTables, List.mem_filterMap]
  constructor
  · rintro ⟨key, inside, stripped⟩
    rw [CatalogStore.key, ← stripPrefix_eq_some.mp stripped]
    exact inside
  · intro inside
    exact ⟨_, inside, stripPrefix_eq_some.mpr rfl⟩

theorem knownTables_nodup {visited : List String} (distinct : visited.Nodup) (db : String) :
    (CatalogStore.knownTables visited db).Nodup := by
  apply distinct.filterMap
  intro key other collection first second
  rw [stripPrefix_eq_some.mp first, stripPrefix_eq_some.mp second]

/-- After any puts the store holds for each pair the table put last, and lists for each
database the collections put under it, each once. -/
theorem catalog_map (file : Option String) (puts : List CatalogPut) (visited : List String)
    (visits : visited.Perm (CatalogPut.runAll file puts).tables.keys) (db : DatabaseName) :
    (∀ collection, (CatalogPut.runAll file puts).get (CatalogStore.key db.name collection) =
      CatalogPut.last puts (db.name, collection)) ∧
    (CatalogStore.knownTables visited db.name).Nodup ∧
    ∀ collection, collection ∈ CatalogStore.knownTables visited db.name ↔
      ∃ put ∈ puts, put.names = (db.name, collection) := by
  refine ⟨get_runAll file puts db, knownTables_nodup ?_ _, ?_⟩
  · exact visits.symm.nodup (KeyMap.keys_nodup _)
  · intro collection
    calc collection ∈ CatalogStore.knownTables visited db.name
        ↔ CatalogStore.key db.name collection ∈ (CatalogPut.runAll file puts).tables.keys := by
          rw [mem_knownTables, visits.mem_iff]
      _ ↔ ((CatalogPut.runAll file puts).get (CatalogStore.key db.name collection)).isSome := KeyMap.mem_keys
      _ ↔ ∃ put ∈ puts, put.names = (db.name, collection) := by rw [get_runAll, last_isSome]

def shop : DatabaseName := ⟨"shop", by decide⟩

/-- Two databases, a collection with a dot, and a table put twice. -/
def shopPuts : List CatalogPut :=
  let table (inferredAt : Nat) : CachedTable := ⟨[], ⟨0, 0, 0, []⟩, inferredAt⟩
  [⟨shop, "orders", table 1⟩, ⟨⟨"orders", by decide⟩, "shop.orders", table 2⟩, ⟨shop, "orders.old", table 3⟩,
    ⟨shop, "orders", table 4⟩]

theorem catalog_map_shop :
    (∀ collection, (CatalogPut.runAll none shopPuts).get (CatalogStore.key "shop" collection) =
      CatalogPut.last shopPuts ("shop", collection)) ∧
    (CatalogStore.knownTables (CatalogPut.runAll none shopPuts).tables.keys "shop").Nodup ∧
    ∀ collection, collection ∈ CatalogStore.knownTables (CatalogPut.runAll none shopPuts).tables.keys "shop" ↔
      ∃ put ∈ shopPuts, put.names = ("shop", collection) :=
  catalog_map none shopPuts _ (List.Perm.refl _) shop

end Auger
