import Mathlib

set_option autoImplicit false

/-! Tests of an ordered value against literals, asked twice: of one value a reader
keeps, and of all the values a store finds at a place. -/

namespace Auger.General

/-- A stored value as a test sees it: nothing, a value of another kind, or one
that compares with the literals. -/
inductive Standing (α : Type)
  | null
  | foreign
  | place (value : α)
  deriving DecidableEq

inductive Relation
  | eq | lt | le | gt | ge

def Relation.holds : Relation → Ordering → Bool
  | .eq, order => order == .eq
  | .lt, order => order == .lt
  | .le, order => order != .gt
  | .gt, order => order == .gt
  | .ge, order => order != .lt

attribute [local simp] Relation.holds

/-- The order of two values, by the one linear order at hand. -/
def order {α : Type} [LinearOrder α] (a b : α) : Ordering := cmp a b

theorem order_of_strictMono {α β : Type} [LinearOrder α] [LinearOrder β] {f : α → β}
    (increasing : StrictMono f) {less : DecidableLT α} (a b : α) : order (f a) (f b) = cmp a b := by
  rw [Subsingleton.elim less LinearOrder.toDecidableLT]
  exact increasing.cmp_map_eq a b

namespace Relation

variable {α : Type} [LinearOrder α]

def relates (relation : Relation) (a b : α) : Bool := relation.holds (order a b)

@[simp] theorem eq_relates (a b : α) : Relation.eq.relates a b = true ↔ a = b := by
  simp [relates, holds, order]

@[simp] theorem lt_relates (a b : α) : Relation.lt.relates a b = true ↔ a < b := by
  simp [relates, holds, order]

@[simp] theorem gt_relates (a b : α) : Relation.gt.relates a b = true ↔ b < a := by
  simp [relates, holds, order]

theorem le_relates (a b : α) : Relation.le.relates a b = (Relation.eq.relates a b || Relation.lt.relates a b) := by
  cases between : order a b <;> simp [relates, holds, between]

theorem ge_relates (a b : α) : Relation.ge.relates a b = (Relation.eq.relates a b || Relation.gt.relates a b) := by
  cases between : order a b <;> simp [relates, holds, between]

theorem atMost_iff (a b : α) : Relation.le.relates a b = true ↔ a ≤ b := by
  rw [le_relates, Bool.or_eq_true, eq_relates, lt_relates, le_iff_eq_or_lt]

theorem atLeast_iff (a b : α) : Relation.ge.relates a b = true ↔ b ≤ a := by
  rw [ge_relates, Bool.or_eq_true, eq_relates, gt_relates, le_iff_eq_or_lt, eq_comm]

theorem any_eq_relates (literals : List α) (a : α) :
    literals.any (Relation.eq.relates a) = true ↔ a ∈ literals := by
  rw [List.any_eq_true]
  constructor
  · rintro ⟨b, member, equal⟩
    rwa [(eq_relates a b).mp equal]
  · intro member
    exact ⟨a, member, (eq_relates a a).mpr rfl⟩

end Relation

inductive OrderTest (α : Type)
  | compare (relation : Relation) (literal : α)
  | within (low high : α)
  | outside (low high : α)
  | among (literals : List α)
  /-- None of one or more literals. -/
  | apart (literal : α) (others : List α)

namespace Standing

variable {α : Type}

/-- A comparable value that passes. -/
def passes (test : α → Bool) : Standing α → Bool
  | .place a => test a
  | _ => false

def isNull : Standing α → Bool
  | .null => true
  | _ => false

theorem any_passes {test : α → Bool} {standing : List (Standing α)} :
    standing.any (passes test) = true ↔ ∃ a, .place a ∈ standing ∧ test a = true := by
  rw [List.any_eq_true]
  constructor
  · rintro ⟨s, member, passed⟩
    cases s with
    | place a => exact ⟨a, member, passed⟩
    | null => cases passed
    | foreign => cases passed
  · rintro ⟨a, member, passed⟩
    exact ⟨.place a, member, passed⟩

theorem any_isNull {standing : List (Standing α)} :
    standing.any isNull = true ↔ .null ∈ standing := by
  rw [List.any_eq_true]
  constructor
  · rintro ⟨s, member, isNull⟩
    cases s with
    | null => exact member
    | place a => cases isNull
    | foreign => cases isNull
  · intro member
    exact ⟨.null, member, rfl⟩

end Standing

/-- Every test gives one answer on what stands and on what is kept: either nothing
comparable stands beside a null and nothing is kept, or all that is comparable is
the kept value and no null stands beside it. -/
def Faithful {α : Type} (standing : List (Standing α)) : Option α → Prop
  | none => .null ∈ standing ∧ ∀ a, .place a ∉ standing
  | some kept => .null ∉ standing ∧ .place kept ∈ standing ∧ ∀ a, .place a ∈ standing → a = kept

namespace OrderTest

variable {α : Type} [LinearOrder α]

/-- The answer on the one value kept; nothing kept passes no test. -/
def holds (kept : Option α) : OrderTest α → Bool
  | .compare relation literal => kept.any (relation.relates · literal)
  | .within low high => kept.any fun a => Relation.ge.relates a low && Relation.le.relates a high
  | .outside low high => kept.any fun a => Relation.lt.relates a low || Relation.gt.relates a high
  | .among literals => kept.any fun a => literals.any (Relation.eq.relates a)
  | .apart literal others => kept.any fun a => !(literal :: others).any (Relation.eq.relates a)

/-- Some comparable value stands in a relation to the literal. -/
def stands (standing : List (Standing α)) (relation : Relation) (literal : α) : Bool :=
  standing.any (Standing.passes (relation.relates · literal))

/-- The answer on the values standing at a place: each end of a range may be met by
another value, and an exclusion also excludes nulls. -/
def found (standing : List (Standing α)) : OrderTest α → Bool
  | .compare relation literal => stands standing relation literal
  | .within low high => stands standing .ge low && stands standing .le high
  | .outside low high =>
      (stands standing .lt low || stands standing .gt high) && !standing.any Standing.isNull
  | .among literals => literals.any (stands standing .eq)
  | .apart literal others =>
      !(literal :: others).any (stands standing .eq) && !standing.any Standing.isNull

theorem stands_iff {standing : List (Standing α)} {relation : Relation} {literal : α} :
    stands standing relation literal = true ↔ ∃ a, .place a ∈ standing ∧ relation.relates a literal = true :=
  Standing.any_passes

theorem found_null (test : OrderTest α) : test.found [.null] = false := by
  cases test with
  | among literals => simp [found, stands, Standing.passes]
  | _ => simp [found, stands, Standing.passes, Standing.isNull]

def map {β : Type} (f : α → β) : OrderTest α → OrderTest β
  | .compare relation literal => .compare relation (f literal)
  | .within low high => .within (f low) (f high)
  | .outside low high => .outside (f low) (f high)
  | .among literals => .among (literals.map f)
  | .apart literal others => .apart (f literal) (others.map f)

theorem relates_map {β : Type} [LinearOrder β] {f : α → β} (increasing : StrictMono f) (relation : Relation)
    (a b : α) : relation.relates (f a) (f b) = relation.relates a b := by
  rw [Relation.relates, order_of_strictMono increasing]
  rfl

theorem holds_map {β : Type} [LinearOrder β] {f : α → β} (increasing : StrictMono f) (test : OrderTest α)
    (kept : Option α) : (test.map f).holds (kept.map f) = test.holds kept := by
  have each := relates_map increasing
  cases kept with
  | none => cases test <;> rfl
  | some a => cases test <;> simp [map, holds, each, List.any_map, Function.comp_def]

theorem stands_none {standing : List (Standing α)} (nothing : ∀ a, .place a ∉ standing)
    (relation : Relation) (literal : α) : stands standing relation literal = false := by
  apply Bool.eq_false_iff.mpr
  intro passed
  obtain ⟨a, member, -⟩ := stands_iff.mp passed
  exact nothing a member

theorem stands_some {standing : List (Standing α)} {kept : α} (present : .place kept ∈ standing)
    (only : ∀ a, .place a ∈ standing → a = kept) (relation : Relation) (literal : α) :
    stands standing relation literal = relation.relates kept literal := by
  apply Bool.eq_iff_iff.mpr
  rw [stands_iff]
  constructor
  · rintro ⟨a, member, passed⟩
    exact only a member ▸ passed
  · intro passed
    exact ⟨kept, present, passed⟩

theorem found_of_faithful {standing : List (Standing α)} {kept : Option α}
    (faithful : Faithful standing kept) (test : OrderTest α) : test.found standing = test.holds kept := by
  cases kept with
  | none =>
      have null := Standing.any_isNull.mpr faithful.1
      have nothing := stands_none faithful.2
      cases test <;> simp [found, holds, nothing, null]
  | some kept =>
      have noNull : standing.any Standing.isNull = false :=
        Bool.eq_false_iff.mpr fun null => faithful.1 (Standing.any_isNull.mp null)
      have each := stands_some faithful.2.1 faithful.2.2
      have eachEqual := funext (each .eq)
      cases test <;> simp [found, holds, each, eachEqual, noNull]

/-- The comparisons with each of some literals agree. -/
structure AgreeOver (literals : α → Prop) (standing : List (Standing α)) (kept : Option α) : Prop where
  compare : ∀ relation a, literals a →
    found standing (.compare relation a) = holds kept (.compare relation a)
  apart : ∀ a, literals a → found standing (.apart a []) = holds kept (.apart a [])

namespace AgreeOver

variable {literals : α → Prop} {standing : List (Standing α)} {kept : Option α}

theorem apart_iff (agree : AgreeOver literals standing kept) {a : α} (literal : literals a) :
    (.place a ∉ standing ∧ .null ∉ standing) ↔ ∃ b, kept = some b ∧ b ≠ a := by
  calc (.place a ∉ standing ∧ .null ∉ standing)
      ↔ found standing (.apart a []) = true := by
        have literalStands : stands standing .eq a = true ↔ .place a ∈ standing := by simp [stands_iff]
        rw [← Standing.any_isNull, ← literalStands]
        simp [found]
    _ ↔ holds kept (.apart a []) = true := by rw [agree.apart a literal]
    _ ↔ ∃ b, kept = some b ∧ b ≠ a := by
        simp [holds, Option.any_eq_true, ← Bool.not_eq_true]

theorem compare_iff (agree : AgreeOver literals standing kept) {a : α} (literal : literals a)
    (relation : Relation) :
    (∃ b, .place b ∈ standing ∧ relation.relates b a = true) ↔
      ∃ b, kept = some b ∧ relation.relates b a = true := by
  calc (∃ b, .place b ∈ standing ∧ relation.relates b a = true)
      ↔ found standing (.compare relation a) = true := stands_iff.symm
    _ ↔ holds kept (.compare relation a) = true := by rw [agree.compare relation a literal]
    _ ↔ ∃ b, kept = some b ∧ relation.relates b a = true := Option.any_eq_true _ _

/-- Whatever stands compares with a literal in one way or another. -/
theorem nothing_stands (agree : AgreeOver literals standing none) {a : α} (literal : literals a) (b : α) :
    .place b ∉ standing := by
  intro member
  have apart : ∀ relation : Relation, relation.relates b a = false := by
    intro relation
    apply Bool.eq_false_iff.mpr
    intro passed
    obtain ⟨c, kept, -⟩ := (agree.compare_iff literal relation).mp ⟨b, member, passed⟩
    cases kept
  have below := apart .le
  have above := apart .gt
  cases between : order b a <;> simp [Relation.relates, Relation.holds, between] at below above

theorem kept_stands {a : α} (agree : AgreeOver literals standing (some a)) (literal : literals a) :
    .place a ∈ standing ∧ ∀ b, .place b ∈ standing → b = a := by
  constructor
  · obtain ⟨b, stands, equal⟩ := (agree.compare_iff literal .eq).mpr ⟨a, rfl, by simp⟩
    have same : b = a := by simpa using equal
    exact same ▸ stands
  · intro b member
    rcases lt_trichotomy b a with below | equal | above
    · have found := (agree.compare_iff literal .lt).mp ⟨b, member, by simpa using below⟩
      simp at found
    · exact equal
    · have found := (agree.compare_iff literal .gt).mp ⟨b, member, by simpa using above⟩
      simp at found

theorem faithful (agree : AgreeOver literals standing kept) (inside : ∀ a, kept = some a → literals a)
    {l m : α} (one : literals l) (other : literals m) (differ : l ≠ m) : Faithful standing kept := by
  cases kept with
  | none =>
      have nothing := agree.nothing_stands one
      have null := agree.apart_iff one
      simp only [nothing, not_false_iff, true_and] at null
      exact ⟨by simpa using null, nothing⟩
  | some a =>
      obtain ⟨stands, only⟩ := agree.kept_stands (inside a rfl)
      obtain ⟨b, literal, apart⟩ : ∃ b, literals b ∧ a ≠ b := by
        by_cases here : a = l
        · exact ⟨m, other, here ▸ differ⟩
        · exact ⟨l, one, here⟩
      exact ⟨((agree.apart_iff literal).mpr ⟨a, rfl, apart⟩).2, stands, only⟩

end AgreeOver

end OrderTest

end Auger.General
