import Auger.Store
import Auger.General.Schedule

set_option autoImplicit false

/-! Concurrent puts: which of them the catalog file ends up with. -/

namespace Auger

open General

/-- Where one `put` stands. -/
inductive PutPhase
  | waiting
  /-- After the insertion into the shared map. -/
  | inserted
  /-- `persist` has copied the map and let go of its lock. -/
  | copied (snapshot : StoredCatalog)
  /-- The copy stands in the temporary file. -/
  | written
  | finished

/-- The snapshot is still to be taken or to be written. -/
def PutPhase.beforeWrite : PutPhase → Bool
  | .waiting | .inserted | .copied _ => true
  | _ => false

structure Puts (ι : Type) where
  tables : KeyMap CachedTable
  /-- The catalogs the files hold; `none` when absent or unreadable. -/
  tmp : Option StoredCatalog
  file : Option StoredCatalog
  phase : ι → PutPhase

/-- Every entry that can be stored is stored. -/
def Covers (stored : Option StoredCatalog) (tables : KeyMap CachedTable) : Prop :=
  ∀ key table, (CatalogStore.snapshot tables).tables.get key = some table →
    ∃ catalog, stored = some catalog ∧ catalog.tables.get key = some table

theorem covers_snapshot (tables : KeyMap CachedTable) : Covers (some (CatalogStore.snapshot tables)) tables :=
  fun _ _ found => ⟨_, rfl, found⟩

section
variable {ι : Type} [DecidableEq ι] (request : ι → String × CachedTable)

namespace Puts

def start (tmp file : Option StoredCatalog) : Puts ι :=
  { tables := match file with
      | some stored => CatalogStore.load KeyMap.empty stored
      | none => KeyMap.empty
    tmp, file
    phase := fun _ => .waiting }

def moveTo (world : Puts ι) (i : ι) (phase : PutPhase) : Puts ι :=
  { world with phase := Function.update world.phase i phase }

@[simp] theorem moveTo_self (world : Puts ι) (i : ι) (phase : PutPhase) :
    (world.moveTo i phase).phase i = phase := Function.update_self ..

theorem moveTo_other (world : Puts ι) {i j : ι} (differ : j ≠ i) (phase : PutPhase) :
    (world.moveTo i phase).phase j = world.phase j := Function.update_of_ne differ ..

def step (world : Puts ι) (i : ι) : Puts ι :=
  match world.phase i with
  | .waiting =>
      { world with tables := world.tables.insert (request i).1 (request i).2 }.moveTo i .inserted
  | .inserted => world.moveTo i (.copied (CatalogStore.snapshot world.tables))
  | .copied snapshot => { world with tmp := some snapshot }.moveTo i .written
  | .written =>
      -- The rename fails when another put has renamed the temporary file away.
      match world.tmp with
      | some catalog => { world with file := some catalog, tmp := none }.moveTo i .finished
      | none => world.moveTo i .finished
  | .finished => world

def run (world : Puts ι) (schedule : List ι) : Puts ι := Schedule.run (step request) world schedule

/-- Some put has still to write its snapshot. -/
def Pending (world : Puts ι) : Prop := ∃ j, (world.phase j).beforeWrite = true

open Classical in
/-- The catalog the file holds once the renames that are due have been made. -/
noncomputable def eventualFile (world : Puts ι) : Option StoredCatalog :=
  if (∃ j, world.phase j = .written) ∧ world.tmp.isSome then world.tmp else world.file

end Puts

/-- A put that writes a snapshot lacking an entry of the map is not the last to write. -/
def StaleWriteRepaired (world : Puts ι) (i : ι) : Prop :=
  ∀ snapshot, world.phase i = .copied snapshot → ¬Covers (some snapshot) world.tables →
    ∃ j, j ≠ i ∧ (world.phase j).beforeWrite = true

variable {request} {world : Puts ι}

theorem step_settled (request : ι → String × CachedTable) (written : ¬world.Pending) (i : ι) :
    (world.step request i).tables = world.tables ∧ ¬(world.step request i).Pending ∧
      (world.step request i).eventualFile = world.eventualFile := by
  have phases : ∀ j, (world.phase j).beforeWrite = false := by
    intro j
    by_contra before
    exact written ⟨j, by simpa using before⟩
  have quiet : ∀ other : Puts ι, other.phase = world.phase → ¬(other.moveTo i .finished).Pending := by
    rintro other same ⟨j, before⟩
    by_cases mine : j = i
    · subst mine
      rw [Puts.moveTo_self] at before
      cases before
    · rw [Puts.moveTo_other _ mine, same, phases j] at before
      cases before
  have here := phases i
  cases phase : world.phase i with
  | waiting =>
      rw [phase] at here
      cases here
  | inserted =>
      rw [phase] at here
      cases here
  | copied snapshot =>
      rw [phase] at here
      cases here
  | written =>
      have due : ∃ j, world.phase j = .written := ⟨i, phase⟩
      cases stored : world.tmp with
      | some catalog =>
          simp only [Puts.step, phase, stored]
          refine ⟨rfl, quiet _ rfl, ?_⟩
          simp [Puts.eventualFile, Puts.moveTo, due, stored]
      | none =>
          simp only [Puts.step, phase, stored]
          refine ⟨rfl, quiet _ rfl, ?_⟩
          simp [Puts.eventualFile, Puts.moveTo, stored]
  | finished =>
      simp only [Puts.step, phase]
      exact ⟨trivial, written, trivial⟩

theorem step_last (pending : world.Pending) {i : ι} (last : ¬(world.step request i).Pending) :
    ∃ snapshot, world.phase i = .copied snapshot ∧ (∀ j, j ≠ i → (world.phase j).beforeWrite = false) ∧
      (world.step request i).tables = world.tables ∧
      (world.step request i).eventualFile = some snapshot := by
  have moved : ∀ j, j ≠ i → (world.step request i).phase j = world.phase j := by
    intro j differ
    cases phase : world.phase i <;> simp only [Puts.step, phase]
    case written => cases world.tmp <;> exact Puts.moveTo_other _ differ _
    all_goals exact Puts.moveTo_other _ differ _
  have others : ∀ j, j ≠ i → (world.phase j).beforeWrite = false := by
    intro j differ
    by_contra before
    exact last ⟨j, by rw [moved j differ]; simpa using before⟩
  have mine : (world.phase i).beforeWrite = true := by
    obtain ⟨j, before⟩ := pending
    by_cases same : j = i
    · rw [← same]
      exact before
    · rw [others j same] at before
      cases before
  cases phase : world.phase i with
  | waiting => exact absurd ⟨i, by simp [Puts.step, phase, PutPhase.beforeWrite]⟩ last
  | inserted => exact absurd ⟨i, by simp [Puts.step, phase, PutPhase.beforeWrite]⟩ last
  | copied snapshot =>
      refine ⟨snapshot, rfl, others, by simp [Puts.step, phase, Puts.moveTo], ?_⟩
      have due : ∃ j, (world.step request i).phase j = .written := ⟨i, by simp [Puts.step, phase]⟩
      have stored : (world.step request i).tmp = some snapshot := by simp [Puts.step, phase, Puts.moveTo]
      rw [Puts.eventualFile, if_pos ⟨due, by rw [stored]; rfl⟩, stored]
  | written =>
      rw [phase] at mine
      cases mine
  | finished =>
      rw [phase] at mine
      cases mine

/-- A step keeps the promise exactly when it repairs the stale snapshot it writes. -/
theorem step_covers_iff (i : ι) :
    (¬(world.step request i).Pending →
        Covers (world.step request i).eventualFile (world.step request i).tables) ↔
      StaleWriteRepaired world i ∧ (¬world.Pending → Covers world.eventualFile world.tables) := by
  by_cases pending : world.Pending
  · simp only [pending, not_true_eq_false, false_implies, and_true]
    by_cases last : (world.step request i).Pending
    · simp only [last, not_true_eq_false, false_implies, true_iff]
      intro snapshot phase _
      obtain ⟨j, before⟩ := last
      have differ : j ≠ i := by
        rintro rfl
        simp [Puts.step, phase, PutPhase.beforeWrite] at before
      refine ⟨j, differ, ?_⟩
      simpa only [Puts.step, phase, Puts.moveTo_other _ differ] using before
    · obtain ⟨snapshot, phase, others, tables, eventual⟩ := step_last pending last
      simp only [last, not_false_eq_true, true_implies, tables, eventual]
      constructor
      · intro covers other same stale
        rw [phase, PutPhase.copied.injEq] at same
        subst same
        exact absurd covers stale
      · intro repaired
        by_contra stale
        obtain ⟨j, differ, before⟩ := repaired snapshot phase stale
        rw [others j differ] at before
        cases before
  · obtain ⟨tables, still, eventual⟩ := step_settled request pending i
    simp only [pending, still, not_false_eq_true, true_implies, tables, eventual]
    constructor
    · intro covers
      refine ⟨fun snapshot phase _ => absurd ⟨i, ?_⟩ pending, covers⟩
      rw [phase]
      rfl
    · exact And.right

theorem run_covers_iff (schedule : List ι) (complete : ∀ i, (world.run request schedule).phase i = .finished) :
    Covers (world.run request schedule).file (world.run request schedule).tables ↔
      Schedule.Guarded (Puts.step request) StaleWriteRepaired world schedule ∧
        (¬world.Pending → Covers world.eventualFile world.tables) := by
  induction schedule generalizing world with
  | nil =>
      have done : ¬world.Pending := by
        rintro ⟨j, before⟩
        rw [show world.phase j = .finished from complete j] at before
        cases before
      have none_due : ¬∃ j, world.phase j = .written := by
        rintro ⟨j, due⟩
        rw [show world.phase j = .finished from complete j] at due
        cases due
      have eventual : world.eventualFile = world.file := if_neg fun both => none_due both.1
      simp [Puts.run, Schedule.Guarded, done, eventual]
  | cons i rest ih =>
      calc
        Covers (world.run request (i :: rest)).file (world.run request (i :: rest)).tables ↔
            Schedule.Guarded (Puts.step request) StaleWriteRepaired (world.step request i) rest ∧
              (¬(world.step request i).Pending →
                Covers (world.step request i).eventualFile (world.step request i).tables) := ih complete
        _ ↔ Schedule.Guarded (Puts.step request) StaleWriteRepaired world (i :: rest) ∧
              (¬world.Pending → Covers world.eventualFile world.tables) := by
          rw [step_covers_iff, Schedule.Guarded]
          tauto

omit [DecidableEq ι] in
theorem start_covers (tmp file : Option StoredCatalog) :
    Covers (Puts.start (ι := ι) tmp file).eventualFile (Puts.start (ι := ι) tmp file).tables := by
  have eventual : (Puts.start (ι := ι) tmp file).eventualFile = file := by
    refine if_neg fun both => ?_
    obtain ⟨⟨j, due⟩, -⟩ := both
    cases due
  rw [eventual]
  intro key table found
  rw [get_snapshot] at found
  cases file with
  | none => cases found
  | some catalog =>
      refine ⟨catalog, rfl, ?_⟩
      by_cases current : catalog.version = catalogVersion
      · have loaded := get_load current KeyMap.empty key
        rw [Puts.start, loaded] at found
        cases stored : catalog.tables.get key with
        | none =>
            rw [stored] at found
            cases found
        | some held =>
            rw [stored] at found
            exact (stored_cached held).symm.trans found
      · rw [Puts.start, CatalogStore.load, if_neg current] at found
        cases found

/-- When all puts have finished, the catalog file holds every entry of the map
exactly when no put that wrote an outdated snapshot was the last to write. -/
theorem no_update_lost_iff (request : ι → String × CachedTable) (tmp file : Option StoredCatalog)
    (schedule : List ι)
    (complete : ∀ i, (Puts.run request (Puts.start tmp file) schedule).phase i = .finished) :
    Covers (Puts.run request (Puts.start tmp file) schedule).file
        (Puts.run request (Puts.start tmp file) schedule).tables ↔
      Schedule.Guarded (Puts.step request) StaleWriteRepaired (Puts.start tmp file) schedule := by
  rw [run_covers_iff schedule complete]
  exact and_iff_left fun _ => start_covers tmp file

end

/-- Tables without columns, enough to tell the keys apart. -/
def twoTables : Bool → String × CachedTable
  | true => ("shop.orders", ⟨[], ⟨0, 0, 0, []⟩, 0⟩)
  | false => ("shop.users", ⟨[], ⟨0, 0, 0, []⟩, 0⟩)

/-- The first put copies the map, and writes only after the second has finished. -/
def overtaken : List Bool := [true, true, false, false, false, false, true, true]

theorem update_lost : ¬∀ (request : Bool → String × CachedTable) (tmp file : Option StoredCatalog)
    (schedule : List Bool), (∀ i, (Puts.run request (Puts.start tmp file) schedule).phase i = .finished) →
      Covers (Puts.run request (Puts.start tmp file) schedule).file
        (Puts.run request (Puts.start tmp file) schedule).tables := by
  intro holds
  have held := holds twoTables none none overtaken (by intro i; cases i <;> rfl)
  obtain ⟨catalog, stored, found⟩ := held "shop.users" ⟨[], ⟨0, 0, 0, []⟩, 0⟩ rfl
  cases stored
  cases found

/-- One put after the other. -/
theorem no_update_lost_iff_serial :
    Covers (Puts.run twoTables (Puts.start none none) [true, true, true, true, false, false, false, false]).file
      (Puts.run twoTables (Puts.start none none) [true, true, true, true, false, false, false, false]).tables := by
  have exact := no_update_lost_iff twoTables none none [true, true, true, true, false, false, false, false]
    (by intro i; cases i <;> rfl)
  refine exact.mpr ⟨?_, ?_, ?_, ?_, ?_, ?_, ?_, ?_, trivial⟩ <;> intro snapshot phase stale
  · cases phase
  · cases phase
  · exact ⟨false, by decide, rfl⟩
  · cases phase
  · cases phase
  · cases phase
  · cases phase
    exact absurd (covers_snapshot _) stale
  · cases phase

end Auger
