import Auger.General.SortedMap
import Mathlib.Data.String.Basic

set_option autoImplicit false

/-! Finite maps from texts: entries in key order, each key once. -/

namespace Auger.General

structure KeyMap (α : Type) where
  entries : List (String × α)
  ordered : SortedMap.Ordered entries

namespace KeyMap

variable {α β : Type}

def empty : KeyMap α := ⟨[], SortedMap.ordered_nil⟩

def get (map : KeyMap α) (key : String) : Option α := map.entries.lookup key

def insert (map : KeyMap α) (key : String) (value : α) : KeyMap α :=
  ⟨SortedMap.insert key value map.entries, SortedMap.insert_ordered key value map.ordered⟩

theorem get_insert (map : KeyMap α) (key query : String) (value : α) :
    (map.insert key value).get query = if query = key then some value else map.get query :=
  SortedMap.lookup_insert key query value map.entries

def keys (map : KeyMap α) : List String := map.entries.map Prod.fst

theorem mem_keys {map : KeyMap α} {key : String} : key ∈ map.keys ↔ (map.get key).isSome := by
  rw [keys, List.mem_map, get, Option.isSome_iff_exists]
  constructor
  · rintro ⟨entry, inside, rfl⟩
    exact ⟨entry.2, SortedMap.lookup_of_mem map.ordered inside⟩
  · rintro ⟨value, found⟩
    exact ⟨(key, value), SortedMap.mem_of_lookup found, rfl⟩

theorem keys_nodup (map : KeyMap α) : map.keys.Nodup := by
  rw [keys, List.Nodup, List.pairwise_map]
  exact map.ordered.imp fun before => before.ne

theorem filterMap_ordered (f : α → Option β) {entries : List (String × α)}
    (ordered : SortedMap.Ordered entries) :
    SortedMap.Ordered (entries.filterMap fun entry => (f entry.2).map (entry.1, ·)) := by
  refine List.Pairwise.filterMap _ (fun a b before a' from_a b' from_b => ?_) ordered
  obtain ⟨x, -, rfl⟩ := Option.map_eq_some_iff.mp from_a
  obtain ⟨y, -, rfl⟩ := Option.map_eq_some_iff.mp from_b
  exact before

def filterMap (f : α → Option β) (map : KeyMap α) : KeyMap β :=
  ⟨map.entries.filterMap fun entry => (f entry.2).map (entry.1, ·), filterMap_ordered f map.ordered⟩

theorem get_filterMap (f : α → Option β) (map : KeyMap α) (key : String) :
    (map.filterMap f).get key = (map.get key).bind f := by
  rcases map with ⟨entries, ordered⟩
  simp only [get, filterMap]
  induction entries with
  | nil => rfl
  | cons entry rest ih =>
      rcases entry with ⟨k, value⟩
      have below : rest.lookup k = none := by
        refine SortedMap.lookup_eq_none.mpr fun other inside same => ?_
        exact absurd (SortedMap.head_lt ordered other inside) (by rw [same]; exact lt_irrefl _)
      have later := ih (SortedMap.ordered_tail ordered)
      rw [List.filterMap_cons, List.lookup_cons]
      by_cases same : key = k
      · subst same
        rw [below] at later
        cases kept : f value with
        | none => simpa [kept] using later
        | some y => simp [kept]
      · have differ : (key == k) = false := by simpa using same
        cases kept : f value with
        | none => simpa [kept, differ] using later
        | some y => simpa [kept, List.lookup_cons, differ] using later

theorem ext {left right : KeyMap α} (same : ∀ key, left.get key = right.get key) : left = right := by
  rcases left with ⟨left, first⟩
  rcases right with ⟨right, second⟩
  have entries : left = right := SortedMap.ext first second same
  subst entries
  rfl

end KeyMap

end Auger.General
