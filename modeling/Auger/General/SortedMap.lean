import Mathlib.Order.Lattice
import Mathlib.Data.List.Basic
import Mathlib.Data.List.Pairwise

set_option autoImplicit false

/-! Association lists kept strictly increasing in their keys. -/

namespace Auger.General.SortedMap

variable {κ α β : Type} [LinearOrder κ]

def insert (key : κ) (value : α) : List (κ × α) → List (κ × α)
  | [] => [(key, value)]
  | (k, v) :: rest =>
    if key < k then (key, value) :: (k, v) :: rest
    else if key = k then (key, value) :: rest
    else (k, v) :: insert key value rest

/-- Fold `right` into `left`, combining the values of a shared key. A map visits
no key twice, so `left` holds at each visit what it held at the start. -/
def mergeWith (combine : α → α → α) (left right : List (κ × α)) : List (κ × α) :=
  right.foldl (fun acc entry =>
    insert entry.1 (match left.lookup entry.1 with
      | some old => combine old entry.2
      | none => entry.2) acc) left

def Ordered (entries : List (κ × α)) : Prop := entries.Pairwise (fun a b => a.1 < b.1)

theorem ordered_nil : Ordered ([] : List (κ × α)) := List.Pairwise.nil

theorem ordered_tail {entry : κ × α} {rest : List (κ × α)}
    (ordered : Ordered (entry :: rest)) : Ordered rest :=
  (List.pairwise_cons.mp ordered).2

theorem head_lt {entry : κ × α} {rest : List (κ × α)} (ordered : Ordered (entry :: rest)) :
    ∀ other ∈ rest, entry.1 < other.1 :=
  (List.pairwise_cons.mp ordered).1

theorem mem_of_lookup {entries : List (κ × α)} {key : κ} {value : α}
    (found : entries.lookup key = some value) : (key, value) ∈ entries := by
  induction entries with
  | nil => simp at found
  | cons entry rest ih =>
      rcases entry with ⟨k, v⟩
      by_cases same : key = k
      · subst same
        simp only [List.lookup_cons_self, Option.some.injEq] at found
        simp [found]
      · have differ : (key == k) = false := by simpa using same
        simp only [List.lookup_cons, differ] at found
        exact List.mem_cons_of_mem _ (ih found)

theorem lookup_eq_none {entries : List (κ × α)} {key : κ} :
    entries.lookup key = none ↔ ∀ entry ∈ entries, entry.1 ≠ key := by
  induction entries with
  | nil => simp
  | cons entry rest ih =>
      rcases entry with ⟨k, v⟩
      by_cases same : key = k
      · subst same
        simp
      · have differ : (key == k) = false := by simpa using same
        simp only [List.lookup_cons, differ, ih, List.forall_mem_cons]
        exact ⟨fun rest => ⟨Ne.symm same, rest⟩, fun both => both.2⟩

theorem lookup_of_mem {entries : List (κ × α)} (ordered : Ordered entries) {key : κ} {value : α}
    (member : (key, value) ∈ entries) : entries.lookup key = some value := by
  induction entries with
  | nil => simp at member
  | cons entry rest ih =>
      rcases entry with ⟨k, v⟩
      rcases List.mem_cons.mp member with here | later
      · cases here
        simp
      · have below : k < key := head_lt ordered _ later
        have differ : (key == k) = false := by simpa using below.ne'
        simp only [List.lookup_cons, differ]
        exact ih (ordered_tail ordered) later

theorem lookup_insert (key query : κ) (value : α) (entries : List (κ × α)) :
    (insert key value entries).lookup query =
      if query = key then some value else entries.lookup query := by
  induction entries with
  | nil =>
      by_cases same : query = key
      · simp [insert, same]
      · have differ : (query == key) = false := by simpa using same
        simp [insert, same, List.lookup_cons, differ]
  | cons entry rest ih =>
      rcases entry with ⟨k, v⟩
      by_cases same : query = key
      · subst same
        simp only [insert, if_true]
        split_ifs with below equal
        · simp
        · simp
        · have differ : (query == k) = false := by simpa using equal
          simp only [List.lookup_cons, differ, ih, if_true]
      · have differ : (query == key) = false := by simpa using same
        simp only [insert, if_neg same]
        split_ifs with below equal
        · simp only [List.lookup_cons, differ]
        · subst equal
          simp only [List.lookup_cons, differ]
        · simp only [List.lookup_cons, ih, if_neg same]

theorem mem_insert {key : κ} {value : α} {entries : List (κ × α)} {entry : κ × α}
    (member : entry ∈ insert key value entries) : entry = (key, value) ∨ entry ∈ entries := by
  induction entries with
  | nil => simpa [insert] using member
  | cons head rest ih =>
      rcases head with ⟨k, v⟩
      simp only [insert] at member
      split_ifs at member with below equal
      · simpa using member
      · rcases List.mem_cons.mp member with here | later
        · exact Or.inl here
        · exact Or.inr (List.mem_cons_of_mem _ later)
      · rcases List.mem_cons.mp member with here | later
        · exact Or.inr (by simp [here])
        · exact (ih later).imp_right (List.mem_cons_of_mem _)

theorem insert_ordered (key : κ) (value : α) {entries : List (κ × α)}
    (ordered : Ordered entries) : Ordered (insert key value entries) := by
  induction entries with
  | nil => simp [insert, Ordered]
  | cons entry rest ih =>
      rcases entry with ⟨k, v⟩
      have tail := ordered_tail ordered
      have above := head_lt ordered
      simp only [insert]
      split_ifs with below equal
      · refine List.pairwise_cons.mpr ⟨?_, ordered⟩
        intro other member
        rcases List.mem_cons.mp member with rfl | later
        · exact below
        · exact below.trans (above other later)
      · subst equal
        exact List.pairwise_cons.mpr ⟨above, tail⟩
      · refine List.pairwise_cons.mpr ⟨?_, ih tail⟩
        intro other member
        rcases mem_insert member with rfl | old
        · exact lt_of_le_of_ne (not_lt.mp below) (Ne.symm equal)
        · exact above other old

theorem foldl_insert_ordered (value : κ × α → α) (start entries : List (κ × α))
    (ordered : Ordered start) :
    Ordered (entries.foldl (fun acc entry => insert entry.1 (value entry) acc) start) := by
  induction entries generalizing start with
  | nil => exact ordered
  | cons entry rest ih => exact ih _ (insert_ordered _ _ ordered)

theorem lookup_foldl_insert (value : κ × α → α) (start entries : List (κ × α))
    (ordered : Ordered entries) (key : κ) :
    (entries.foldl (fun acc entry => insert entry.1 (value entry) acc) start).lookup key =
      match entries.lookup key with
      | some found => some (value (key, found))
      | none => start.lookup key := by
  induction entries generalizing start with
  | nil => rfl
  | cons entry rest ih =>
      rcases entry with ⟨k, v⟩
      rw [List.foldl_cons, ih _ (ordered_tail ordered)]
      by_cases same : key = k
      · subst same
        have absent : rest.lookup key = none :=
          lookup_eq_none.mpr (fun other member => (head_lt ordered other member).ne')
        simp [absent, lookup_insert]
      · have differ : (key == k) = false := by simpa using same
        simp only [List.lookup_cons, differ, lookup_insert, if_neg same]

theorem mergeWith_ordered (combine : α → α → α) (left right : List (κ × α))
    (ordered : Ordered left) : Ordered (mergeWith combine left right) :=
  foldl_insert_ordered _ left right ordered

def mergedValue (combine : α → α → α) : Option α → Option α → Option α
  | some l, some r => some (combine l r)
  | some l, none => some l
  | none, r => r

theorem mergedValue_eq_none {combine : α → α → α} {left right : Option α} :
    mergedValue combine left right = none ↔ left = none ∧ right = none := by
  cases left <;> cases right <;> simp [mergedValue]

theorem mergedValue_cases {combine : α → α → α} {left right : Option α} {merged : α}
    (found : mergedValue combine left right = some merged) :
    (left = none ∧ right = some merged) ∨ (left = some merged ∧ right = none) ∨
      ∃ l r, left = some l ∧ right = some r ∧ merged = combine l r := by
  cases left with
  | none => exact .inl ⟨rfl, found⟩
  | some l =>
      cases right with
      | none => exact .inr (.inl ⟨found, rfl⟩)
      | some r => exact .inr (.inr ⟨l, r, rfl, rfl, (Option.some.inj found).symm⟩)

theorem lookup_mergeWith (combine : α → α → α) (left right : List (κ × α))
    (ordered : Ordered right) (key : κ) :
    (mergeWith combine left right).lookup key =
      mergedValue combine (left.lookup key) (right.lookup key) := by
  unfold mergeWith
  rw [lookup_foldl_insert (fun entry => match left.lookup entry.1 with
    | some old => combine old entry.2
    | none => entry.2) left right ordered key]
  cases hr : right.lookup key <;> cases hl : left.lookup key <;> simp [mergedValue, hl]

theorem mergeWith_congr {f g : α → α → α} {left right : List (κ × α)}
    (agree : ∀ key l r, left.lookup key = some l → (key, r) ∈ right → f l r = g l r) :
    mergeWith f left right = mergeWith g left right := by
  apply List.foldl_ext
  intro acc entry member
  cases h : left.lookup entry.1 with
  | none => rfl
  | some old => simp only [agree entry.1 old entry.2 h member]

theorem ext {left right : List (κ × α)} (first : Ordered left) (second : Ordered right)
    (agree : ∀ key, left.lookup key = right.lookup key) : left = right := by
  induction left generalizing right with
  | nil =>
      cases right with
      | nil => rfl
      | cons entry rest =>
          rcases entry with ⟨k, v⟩
          have found := agree k
          simp at found
  | cons entry rest ih =>
      rcases entry with ⟨k, v⟩
      cases right with
      | nil =>
          have found := agree k
          simp at found
      | cons other tail =>
          rcases other with ⟨k', v'⟩
          have here : (k, v) ∈ (k', v') :: tail := by
            apply mem_of_lookup
            rw [← agree k]
            simp
          have there : (k', v') ∈ (k, v) :: rest := by
            apply mem_of_lookup
            rw [agree k']
            simp
          have heads : (k, v) = (k', v') := by
            rcases List.mem_cons.mp here with same | later
            · exact same
            · rcases List.mem_cons.mp there with same | later'
              · exact same.symm
              · exact absurd (head_lt second _ later) (head_lt first _ later').not_gt
          cases heads
          congr 1
          apply ih (ordered_tail first) (ordered_tail second)
          intro key
          by_cases same : key = k
          · subst same
            rw [lookup_eq_none.mpr fun o m => (head_lt first o m).ne',
              lookup_eq_none.mpr fun o m => (head_lt second o m).ne']
          · have differ : (key == k) = false := by simpa using same
            simpa only [List.lookup_cons, differ] using agree key

theorem lookup_map (f : α → β) (entries : List (κ × α)) (key : κ) :
    (entries.map (fun entry => (entry.1, f entry.2))).lookup key =
      (entries.lookup key).map f := by
  induction entries with
  | nil => rfl
  | cons entry rest ih =>
      rcases entry with ⟨k, v⟩
      by_cases same : key = k
      · simp [same]
      · have differ : (key == k) = false := by simpa using same
        simp [List.lookup_cons, differ, ih]

theorem map_ordered (f : α → β) {entries : List (κ × α)} (ordered : Ordered entries) :
    Ordered (entries.map (fun entry => (entry.1, f entry.2))) :=
  List.Pairwise.map _ (fun _ _ below => below) ordered

end Auger.General.SortedMap
