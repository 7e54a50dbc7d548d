import Mathlib.Order.Lattice
import Mathlib.Data.List.Basic
import Mathlib.Data.List.Count
import Mathlib.Data.List.Induction
import Mathlib.Data.List.Pairwise
import Mathlib.Data.List.Perm.Basic

set_option autoImplicit false

/-! Cut points taken from a sorted list, and the half-open ranges between them,
where a range only sees values of its bounds' own class. -/

namespace Auger.General.CutPoints

variable {α : Type}

/-- Append a candidate unless it repeats the last one kept. -/
def addCut (same : α → α → Bool) (kept : List α) (candidate : α) : List α :=
  if kept.getLast?.all (fun last => !same last candidate) then kept ++ [candidate] else kept

def dropRepeats (same : α → α → Bool) (list : List α) : List α := list.foldl (addCut same) []

def StartsRun (same : α → α → Bool) (list : List α) (c : α) : Prop :=
  ∃ before after, list = before ++ c :: after ∧
    ∀ previous, before.getLast? = some previous → same previous c = false

/-- Repetition among the members of a list is symmetric and transitive. -/
structure Repeats (same : α → α → Bool) (list : List α) : Prop where
  symm : ∀ a ∈ list, ∀ b ∈ list, same a b = true → same b a = true
  trans : ∀ a ∈ list, ∀ b ∈ list, ∀ c ∈ list, same a b = true → same b c = true → same a c = true

section
variable {same : α → α → Bool}

@[simp] theorem dropRepeats_snoc (list : List α) (a : α) :
    dropRepeats same (list ++ [a]) = addCut same (dropRepeats same list) a := by
  simp [dropRepeats]

theorem Repeats.init {list : List α} {a : α} (repeats : Repeats same (list ++ [a])) :
    Repeats same list where
  symm := fun b first c second =>
    repeats.symm b (List.mem_append_left _ first) c (List.mem_append_left _ second)
  trans := fun b first c second d third =>
    repeats.trans b (List.mem_append_left _ first) c (List.mem_append_left _ second) d
      (List.mem_append_left _ third)

theorem addCut_sublist (kept : List α) (a : α) : (addCut same kept a).Sublist (kept ++ [a]) := by
  unfold addCut
  split
  · exact List.Sublist.refl _
  · exact List.sublist_append_left _ _

theorem dropRepeats_sublist (list : List α) : (dropRepeats same list).Sublist list := by
  induction list using List.reverseRecOn with
  | nil => exact List.Sublist.refl _
  | append_singleton list a ih =>
      rw [dropRepeats_snoc]
      exact (addCut_sublist _ a).trans (ih.append (List.Sublist.refl _))

theorem dropRepeats_last {list : List α} (repeats : Repeats same list) {last : α}
    (ends : list.getLast? = some last) :
    ∃ kept, (dropRepeats same list).getLast? = some kept ∧ (kept = last ∨ same kept last = true) := by
  induction list using List.reverseRecOn generalizing last with
  | nil => cases ends
  | append_singleton list a ih =>
      rw [List.getLast?_concat, Option.some.injEq] at ends
      subst ends
      rw [dropRepeats_snoc, addCut]
      split_ifs with fresh
      · exact ⟨a, by simp, .inl rfl⟩
      · cases before : (dropRepeats same list).getLast? with
        | none =>
            rw [before] at fresh
            exact absurd rfl fresh
        | some kept =>
            rw [before] at fresh
            exact ⟨kept, rfl, .inr (by simpa using fresh)⟩

theorem startsRun_snoc {list : List α} {a c : α} :
    StartsRun same (list ++ [a]) c ↔
      StartsRun same list c ∨
        (c = a ∧ ∀ previous, list.getLast? = some previous → same previous a = false) := by
  constructor
  · rintro ⟨before, after, whole, fresh⟩
    rcases List.eq_nil_or_concat after with rfl | ⟨rest, last, rfl⟩
    · obtain ⟨rfl, tail⟩ := List.append_inj' whole rfl
      cases tail
      exact .inr ⟨rfl, fresh⟩
    · left
      rw [List.concat_eq_append, ← List.cons_append, ← List.append_assoc] at whole
      obtain ⟨rfl, -⟩ := List.append_inj' whole rfl
      exact ⟨before, rest, rfl, fresh⟩
  · rintro (⟨before, after, rfl, fresh⟩ | ⟨rfl, fresh⟩)
    · exact ⟨before, after ++ [a], by simp, fresh⟩
    · exact ⟨list, [], rfl, fresh⟩

/-- Comparing with the last one kept keeps the first of each run. -/
theorem mem_dropRepeats {list : List α} (repeats : Repeats same list) {c : α} :
    c ∈ dropRepeats same list ↔ StartsRun same list c := by
  induction list using List.reverseRecOn with
  | nil => simp [dropRepeats, StartsRun]
  | append_singleton list a ih =>
      have inner := repeats.init
      have fresh : (dropRepeats same list).getLast?.all (fun last => !same last a) = true ↔
          ∀ previous, list.getLast? = some previous → same previous a = false := by
        cases ends : list.getLast? with
        | none =>
            rw [List.getLast?_eq_none_iff.mp ends]
            simp [dropRepeats]
        | some last =>
            obtain ⟨kept, held, near⟩ := dropRepeats_last inner ends
            have inside : kept ∈ list ++ [a] := List.mem_append_left _
              ((dropRepeats_sublist list).subset (List.mem_of_getLast? held))
            have lastInside : last ∈ list ++ [a] := List.mem_append_left _ (List.mem_of_getLast? ends)
            have own : a ∈ list ++ [a] := by simp
            have agree : same kept a = same last a := by
              rcases near with rfl | near
              · rfl
              · apply Bool.eq_iff_iff.mpr
                constructor
                · intro first
                  exact repeats.trans last lastInside kept inside a own
                    (repeats.symm kept inside last lastInside near) first
                · intro second
                  exact repeats.trans kept inside last lastInside a own near second
            simp [held, agree]
      rw [dropRepeats_snoc, startsRun_snoc, ← ih inner, addCut, ← fresh]
      split_ifs with new
      · simp [new]
      · simp [new]

end

/-- The ranges between neighbouring cuts; an absent bound is open. -/
def ranges : Option α → List α → List (Option α × Option α)
  | previous, [] => [(previous, none)]
  | previous, cut :: cuts => (previous, some cut) :: ranges (some cut) cuts

section
variable {γ κ : Type} [LinearOrder γ] [LinearOrder κ] (cls : α → γ) (key : α → κ)

/-- A bound only accepts values of its own class. -/
def atLeast (bound x : α) : Bool := decide (cls bound = cls x ∧ key bound ≤ key x)

def below (bound x : α) : Bool := decide (cls bound = cls x ∧ key x < key bound)

def inRange (x : α) (range : Option α × Option α) : Bool :=
  range.1.all (fun low => atLeast cls key low x) && range.2.all fun high => below cls key high x

variable {cls key}

theorem countP_beyond {x cut : α} {cuts : List α} (beyond : ∀ c ∈ cut :: cuts, key x < key c) :
    (ranges (some cut) cuts).countP (inRange cls key x) = 0 := by
  induction cuts generalizing cut with
  | nil =>
      have here := beyond cut (by simp)
      simp [ranges, inRange, atLeast, here.not_ge]
  | cons next rest ih =>
      have here := beyond cut (by simp)
      have later := ih fun c member => beyond c (List.mem_cons_of_mem _ member)
      simp [ranges, inRange, atLeast, here.not_ge, later]

theorem first_lowest {cut : α} {cuts : List α} (sorted : (cut :: cuts).Pairwise fun a b => key a ≤ key b) :
    ∀ c ∈ cut :: cuts, key cut ≤ key c := by
  intro c member
  rcases List.mem_cons.mp member with rfl | later
  · exact le_rfl
  · exact List.rel_of_pairwise_cons sorted later

omit [LinearOrder γ] in
theorem shielded_cons {x cut : α} {cuts : List α} (reached : key cut ≤ key x) :
    (∃ own ∈ cut :: cuts, cls own = cls x ∧ key x < key own) ↔ ∃ own ∈ cuts, cls own = cls x ∧ key x < key own := by
  constructor
  · rintro ⟨own, member, same, above⟩
    rcases List.mem_cons.mp member with rfl | tail
    · exact absurd reached above.not_ge
    · exact ⟨own, tail, same, above⟩
  · rintro ⟨own, member, same, above⟩
    exact ⟨own, List.mem_cons_of_mem _ member, same, above⟩

variable (mono : ∀ a b : α, key a ≤ key b → cls a ≤ cls b)
include mono

/-- The lowest cut is of the value's class when it lies above the value and, should its
class be later, a cut of the value's class lies above as well. -/
theorem lowest_own {x cut : α} {cuts : List α} (lowest : ∀ c ∈ cut :: cuts, key cut ≤ key c)
    (beyond : key x < key cut)
    (shielded : cls x < cls cut → ∃ own ∈ cut :: cuts, cls own = cls x ∧ key x < key own) : cls cut = cls x := by
  apply le_antisymm
  · by_contra later
    obtain ⟨own, member, same, -⟩ := shielded (not_le.mp later)
    exact later (same ▸ mono cut own (lowest own member))
  · exact mono x cut beyond.le

theorem shielded_tail {x cut : α} {cuts : List α} (reached : key cut ≤ key x) :
    (∀ c ∈ cut :: cuts, cls x < cls c → ∃ own ∈ cut :: cuts, cls own = cls x ∧ key x < key own) ↔
      ∀ c ∈ cuts, cls x < cls c → ∃ own ∈ cuts, cls own = cls x ∧ key x < key own := by
  simp only [shielded_cons reached]
  constructor
  · exact fun high c member => high c (List.mem_cons_of_mem _ member)
  · intro high c member later
    rcases List.mem_cons.mp member with rfl | tail
    · exact absurd (mono _ _ reached) later.not_ge
    · exact high c tail later

/-- From a cut at or below the value on: one range accepts it exactly when a cut
of its class is at or below it, and one lies above it if any cut of a later class does. -/
theorem countP_from {x cut : α} {cuts : List α} (sorted : (cut :: cuts).Pairwise fun a b => key a ≤ key b)
    (reached : key cut ≤ key x) :
    (ranges (some cut) cuts).countP (inRange cls key x) = 1 ↔
      (cls cut = cls x ∨ ∃ own ∈ cuts, cls own = cls x ∧ key own ≤ key x) ∧
        ∀ c ∈ cuts, cls x < cls c → ∃ own ∈ cuts, cls own = cls x ∧ key x < key own := by
  induction cuts generalizing cut with
  | nil => simp [ranges, inRange, atLeast, reached, List.countP_cons]
  | cons next rest ih =>
      rw [List.pairwise_cons] at sorted
      have step := sorted.1 next (by simp)
      have lowest := first_lowest sorted.2
      rcases lt_or_ge (key x) (key next) with beyond | inside
      · -- The value lies in the first range or in none.
        have past : ∀ c ∈ next :: rest, key x < key c := fun c member => beyond.trans_le (lowest c member)
        have nothing : (ranges (some next) rest).countP (inRange cls key x) = 0 := countP_beyond past
        have first : (ranges (some cut) (next :: rest)).countP (inRange cls key x) = 1 ↔
            cls cut = cls x ∧ cls next = cls x := by
          simp [ranges, List.countP_cons, nothing, inRange, atLeast, below, reached, beyond]
        rw [first]
        constructor
        · rintro ⟨low, high⟩
          exact ⟨.inl low, fun _ _ _ => ⟨next, by simp, high, beyond⟩⟩
        · rintro ⟨low, high⟩
          refine ⟨?_, lowest_own mono lowest beyond (high next (by simp))⟩
          rcases low with same | ⟨own, member, -, inside⟩
          · exact same
          · exact absurd inside (past own member).not_ge
      · -- The first range ends at or below the value.
        have first : inRange cls key x (some cut, some next) = false := by
          simp [inRange, below, inside.not_gt]
        rw [ranges, List.countP_cons, first]
        simp only [Bool.false_eq_true, if_false, Nat.add_zero]
        rw [ih sorted.2 inside, shielded_tail mono inside]
        refine and_congr_left fun _ => ?_
        constructor
        · rintro (same | ⟨own, member, same, reach⟩)
          · exact .inr ⟨next, by simp, same, inside⟩
          · exact .inr ⟨own, List.mem_cons_of_mem _ member, same, reach⟩
        · rintro (same | ⟨own, member, same, reach⟩)
          · exact .inl (le_antisymm (mono _ _ inside) (same ▸ mono _ _ step))
          · rcases List.mem_cons.mp member with rfl | tail
            · exact .inl same
            · exact .inr ⟨own, tail, same, reach⟩

/-- One range accepts a value exactly when, around every cut of another class,
a cut of its own class shields it. -/
theorem countP_ranges {x : α} {cuts : List α} (sorted : cuts.Pairwise fun a b => key a ≤ key b) :
    (ranges none cuts).countP (inRange cls key x) = 1 ↔
      ∀ c ∈ cuts,
        (cls c < cls x → ∃ own ∈ cuts, cls own = cls x ∧ key own ≤ key x) ∧
          (cls x < cls c → ∃ own ∈ cuts, cls own = cls x ∧ key x < key own) := by
  cases cuts with
  | nil => simp [ranges, inRange]
  | cons cut rest =>
      have lowest := first_lowest sorted
      rcases lt_or_ge (key x) (key cut) with beyond | inside
      · have past : ∀ c ∈ cut :: rest, key x < key c := fun c member => beyond.trans_le (lowest c member)
        have nothing : (ranges (some cut) rest).countP (inRange cls key x) = 0 := countP_beyond past
        have first : (ranges none (cut :: rest)).countP (inRange cls key x) = 1 ↔ cls cut = cls x := by
          simp [ranges, List.countP_cons, nothing, inRange, below, beyond]
        rw [first]
        constructor
        · intro same c member
          constructor
          · intro earlier
            exact absurd (mono _ _ (past c member).le) earlier.not_ge
          · intro _
            exact ⟨cut, by simp, same, beyond⟩
        · exact fun shielded => lowest_own mono lowest beyond (shielded cut (by simp)).2
      · have first : inRange cls key x (none, some cut) = false := by
          simp [inRange, below, inside.not_gt]
        rw [ranges, List.countP_cons, first]
        simp only [Bool.false_eq_true, if_false, Nat.add_zero]
        rw [countP_from mono sorted inside, ← shielded_tail mono inside]
        constructor
        · rintro ⟨low, high⟩ c member
          refine ⟨fun _ => ?_, high c member⟩
          rcases low with same | ⟨own, held, same, reach⟩
          · exact ⟨cut, by simp, same, inside⟩
          · exact ⟨own, List.mem_cons_of_mem _ held, same, reach⟩
        · intro shielded
          refine ⟨?_, fun c member => (shielded c member).2⟩
          rcases (mono _ _ inside).lt_or_eq with earlier | same
          · obtain ⟨own, member, same, reach⟩ := (shielded cut (by simp)).1 earlier
            rcases List.mem_cons.mp member with rfl | tail
            · exact .inl same
            · exact .inr ⟨own, tail, same, reach⟩
          · exact .inl same

end

/-- When exactly one test accepts each item, collecting test by test loses and
repeats nothing. -/
theorem flatMap_filter_perm {β : Type} (tests : List β) (accept : β → α → Bool) (keep : α → Bool)
    {items : List α} (once : ∀ a ∈ items, tests.countP (accept · a) = 1) :
    (tests.flatMap fun test => items.filter fun a => keep a && accept test a).Perm (items.filter keep) := by
  induction items with
  | nil => simp
  | cons a rest ih =>
      have later := ih fun b member => once b (List.mem_cons_of_mem _ member)
      have single : ∀ tests : List β,
          (tests.flatMap fun test => [a].filter fun a => keep a && accept test a) =
            List.replicate (if keep a then tests.countP (accept · a) else 0) a := by
        intro tests
        induction tests with
        | nil => simp
        | cons test others ihTests =>
            rw [List.flatMap_cons, ihTests, List.countP_cons]
            cases kept : keep a <;> cases accepted : accept test a <;>
              simp [kept, accepted, List.replicate_succ]
      have own : (tests.flatMap fun test => [a].filter fun a => keep a && accept test a) =
          [a].filter keep := by
        rw [single, once a (by simp)]
        cases kept : keep a <;> simp [kept]
      have split : ∀ p : α → Bool, (a :: rest).filter p = [a].filter p ++ rest.filter p := by
        intro p
        rw [← List.filter_append, List.singleton_append]
      rw [split keep, ← own]
      simp only [split]
      exact (List.flatMap_append_perm tests _ _).symm.trans (later.append_left _)

end Auger.General.CutPoints
