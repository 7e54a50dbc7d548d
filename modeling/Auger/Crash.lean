import Auger.CatalogFile
import Auger.Restart

set_option autoImplicit false

/-! A process that is killed and started again, and whose writes may fail: which puts the
catalog file keeps. -/

namespace Auger

open General

/-- `fs::read_to_string`; `none` when the bytes are not UTF-8. -/
def readToString (bytes : List UInt8) : Option String := String.fromUTF8? ⟨bytes.toArray⟩

theorem readToString_text (text : String) : readToString text.toUTF8.data.toList = some text := by
  simp only [readToString, Array.toArray_toList, String.fromUTF8?, String.toUTF8_eq_toByteArray,
    dif_pos text.isValidUTF8]
  rfl

section
variable (fromStr : String → Option StoredCatalog)

def recovered (files : Files CatalogPath UInt8) : KeyMap CachedTable :=
  (CatalogStore.new fromStr ((files.read .catalog).bind readToString)).tables

/-- A process that makes one put at a time. -/
structure Process where
  world : Writers Unit
  /-- The last put. -/
  request : String × CachedTable
  /-- Its file could not be opened, written or renamed. -/
  failed : Bool
  returned : Bool

inductive ProcessEvent
  /-- A put is made, unless the last one has not returned. -/
  | put (entry : String × CachedTable)
  /-- The put goes on by one step, which writes up to `chunk + 1` bytes. -/
  | work (chunk : Nat)
  /-- Opening, writing or renaming fails: `persist` logs it and is over. -/
  | fail
  /-- The put returns when `persist` is over. -/
  | answer
  /-- The process is killed and another one started. -/
  | crash

inductive CatalogEvent
  | put (entry : String × CachedTable)
  /-- The catalog file has been replaced. -/
  | saved
  /-- A put that did not fail returns. -/
  | returned (entry : String × CachedTable)
  | crashed

namespace Process

def render (_ : Unit) (catalog : StoredCatalog) : List UInt8 := catalog.bytes

def opened (files : Files CatalogPath UInt8) (request : String × CachedTable) : Process :=
  ⟨⟨recovered fromStr files, files, fun _ => .finished⟩, request, false, true⟩

def step (process : Process) : ProcessEvent → Process
  | .put entry =>
      match process.world.phase (), process.returned with
      | .finished, true =>
          ⟨(process.world.moveTo () .waiting).step (fun _ => entry) render ((), 0), entry, false, false⟩
      | _, _ => process
  | .work chunk => { process with world := process.world.step (fun _ => process.request) render ((), chunk) }
  | .fail =>
      match process.world.phase () with
      | .serialized _ | .writing _ _ _ => { process with world := process.world.moveTo () .finished, failed := true }
      | _ => process
  | .answer =>
      match process.world.phase () with
      | .finished => { process with returned := true }
      | _ => process
  | .crash => opened fromStr process.world.files process.request

def tells (process : Process) : ProcessEvent → List CatalogEvent
  | .put entry =>
      match process.world.phase (), process.returned with
      | .finished, true => [.put entry]
      | _, _ => []
  | .work _ =>
      match process.world.phase () with
      | .writing _ text done => if done < text.length then [] else [.saved]
      | _ => []
  | .fail => []
  | .answer =>
      match process.world.phase () with
      | .finished => if process.returned || process.failed then [] else [.returned process.request]
      | _ => []
  | .crash => [.crashed]

def run (process : Process) (events : List ProcessEvent) : Process := Schedule.run (step fromStr) process events

def story (process : Process) (events : List ProcessEvent) : List CatalogEvent :=
  Schedule.trace (step fromStr) tells process events

end Process

/-- The puts as a list each: those made, those the catalog file holds, those only the
process holds, and those that returned without a failure. -/
structure Journal where
  made : List (String × CachedTable)
  kept : List (String × CachedTable)
  pending : List (String × CachedTable)
  returned : List (String × CachedTable)

namespace Journal

def empty : Journal := ⟨[], [], [], []⟩

/-- Saving keeps whatever the process holds, and a crash takes it away. -/
def step (journal : Journal) : CatalogEvent → Journal
  | .put entry => { journal with made := journal.made ++ [entry], pending := journal.pending ++ [entry] }
  | .saved => { journal with kept := journal.kept ++ journal.pending, pending := [] }
  | .returned entry => { journal with returned := journal.returned ++ [entry] }
  | .crashed => { journal with pending := [] }

def run (story : List CatalogEvent) : Journal := Schedule.run step empty story

end Journal

/-- Tables a restart can read back. -/
def Keepable (limit : Nat) (table : CachedTable) : Prop := Storable table.schema ∧ NestingFits limit table.schema

def AllKeepable (limit : Nat) (tables : KeyMap CachedTable) : Prop :=
  ∀ key table, tables.get key = some table → Keepable limit table

def putInto (tables : KeyMap CachedTable) (entry : String × CachedTable) : KeyMap CachedTable :=
  tables.insert entry.1 entry.2

/-- Where the put in progress stands, and what the temporary file holds of it. -/
def Underway (world : Writers Unit) : WritePhase → Prop
  | .waiting => False
  | .inserted => True
  | .serialized text => text = (CatalogStore.snapshot world.tables).bytes
  | .writing file text done =>
      text = (CatalogStore.snapshot world.tables).bytes ∧ world.files.names .temporary = some file ∧
        world.files.content file = text.take done ∧ done ≤ text.length
  | .finished => True

/-- The process stands where the journal says, `base` being what the first process read. -/
structure Tracks (limit : Nat) (base : KeyMap CachedTable) (process : Process) (journal : Journal) : Prop where
  readable : AllKeepable limit (recovered fromStr process.world.files)
  keepable : AllKeepable limit process.world.tables
  underway : Underway process.world (process.world.phase ())
  file : recovered fromStr process.world.files = journal.kept.foldl putInto base
  memory : process.world.tables = journal.pending.foldl putInto (recovered fromStr process.world.files)
  /-- The put on the way is the last one not yet saved. -/
  busy : process.world.phase () ≠ .finished → ∃ earlier, journal.pending = earlier ++ [process.request]
  idle : process.world.phase () = .finished → process.failed = false → journal.pending = []
  order : (journal.kept ++ journal.pending).Sublist journal.made
  returned : journal.returned.Sublist journal.kept
  due : process.world.phase () = .finished → process.failed = false → process.returned = false →
    (journal.returned ++ [process.request]).Sublist journal.kept

end

section
variable {fromStr : String → Option StoredCatalog} {limit : Nat}

theorem recovered_congr {files others : Files CatalogPath UInt8} (same : others.read .catalog = files.read .catalog) :
    recovered fromStr others = recovered fromStr files := by
  rw [recovered, same, recovered]

theorem recovered_snapshot (serde : ReadsBack limit fromStr) {tables : KeyMap CachedTable}
    (keepable : AllKeepable limit tables) {files : Files CatalogPath UInt8}
    (held : files.read .catalog = some (CatalogStore.snapshot tables).bytes) : recovered fromStr files = tables := by
  have shallow : (CatalogStore.snapshot tables).toJson.depth ≤ limit := by
    rw [catalogJson_depth_le serde.room]
    intro entry inside
    exact (keepable entry.1 _ (mem_snapshot inside)).2
  apply KeyMap.ext
  intro key
  simp only [recovered, CatalogStore.new, held, Option.bind_some, StoredCatalog.bytes, readToString_text,
    serde.accepts _ shallow]
  rw [get_load rfl, get_snapshot]
  cases found : tables.get key with
  | none => rfl
  | some table =>
      obtain ⟨fields, all⟩ := (keepable key table found).1
      have stored : table.stored = some ⟨fields, table.stats, table.inferredAt⟩ := by
        rw [CachedTable.stored, all, Option.map_some]
      rw [Option.bind_some, stored, Option.map_some, cached_stored stored]
      rfl

theorem AllKeepable.put {tables : KeyMap CachedTable} (keepable : AllKeepable limit tables)
    {entry : String × CachedTable} (kept : Keepable limit entry.2) : AllKeepable limit (putInto tables entry) := by
  intro key table found
  rw [putInto, KeyMap.get_insert] at found
  split_ifs at found
  · cases found
    exact kept
  · exact keepable key table found

theorem phase_moved (world : Writers Unit) (phase : WritePhase) : (world.moveTo () phase).phase () = phase := rfl

/-- The puts a process is asked for can be read back. -/
def ProcessEvent.Fits (limit : Nat) : ProcessEvent → Prop
  | .put entry => Keepable limit entry.2
  | _ => True

variable {base : KeyMap CachedTable} {process : Process} {journal : Journal}

theorem moved_tracks (tracks : Tracks fromStr limit base process journal) (busy : process.world.phase () ≠ .finished)
    {files : Files CatalogPath UInt8} (same : files.read .catalog = process.world.files.read .catalog)
    {phase : WritePhase} (going : phase ≠ .finished)
    (underway : Underway (Writers.moveTo { process.world with files } () phase) phase) :
    Tracks fromStr limit base { process with world := Writers.moveTo { process.world with files } () phase }
      journal where
  readable := by
    show AllKeepable limit (recovered fromStr files)
    rw [recovered_congr same]
    exact tracks.readable
  keepable := tracks.keepable
  underway := by
    rw [phase_moved]
    exact underway
  file := (recovered_congr same).trans tracks.file
  memory := tracks.memory.trans (by rw [← recovered_congr same]; rfl)
  busy _ := tracks.busy busy
  idle done := absurd done going
  order := tracks.order
  returned := tracks.returned
  due done := absurd done going

theorem put_tracks (tracks : Tracks fromStr limit base process journal) {entry : String × CachedTable}
    (kept : Keepable limit entry.2) :
    Tracks fromStr limit base
      ⟨(process.world.moveTo () .waiting).step (fun _ => entry) Process.render ((), 0), entry, false, false⟩
      (journal.step (.put entry)) := by
  have now : (process.world.moveTo () .waiting).step (fun _ => entry) Process.render ((), 0) =
      Writers.moveTo { process.world with tables := putInto process.world.tables entry } () .inserted := by
    simp [Writers.step, Writers.moveTo, putInto]
  rw [now]
  constructor
  · exact tracks.readable
  · exact tracks.keepable.put kept
  · trivial
  · exact tracks.file
  · show putInto process.world.tables entry = (journal.pending ++ [entry]).foldl putInto _
    rw [List.foldl_append, tracks.memory]
    rfl
  · exact fun _ => ⟨journal.pending, rfl⟩
  · exact fun done => by cases done
  · show (journal.kept ++ (journal.pending ++ [entry])).Sublist (journal.made ++ [entry])
    rw [← List.append_assoc]
    exact tracks.order.append (List.Sublist.refl _)
  · exact tracks.returned
  · exact fun done => by cases done

theorem rename_tracks (serde : ReadsBack limit fromStr) (tracks : Tracks fromStr limit base process journal)
    {file done : Nat} {text : List UInt8} (phase : process.world.phase () = .writing file text done)
    (complete : text.length ≤ done) {files : Files CatalogPath UInt8}
    (renamed : process.world.files.rename .temporary .catalog = some files) :
    Tracks fromStr limit base { process with world := Writers.moveTo { process.world with files } () .finished }
      (journal.step .saved) := by
  obtain ⟨earlier, last⟩ := tracks.busy (by simp [phase])
  have underway := tracks.underway
  rw [phase] at underway
  obtain ⟨rfl, named, content, -⟩ := underway
  have held : files.read .catalog = some (CatalogStore.snapshot process.world.tables).bytes := by
    rw [(Files.rename_some (by decide) renamed).1, Files.read_some named, content, List.take_of_length_le complete]
  have read : recovered fromStr files = process.world.tables := recovered_snapshot serde tracks.keepable held
  constructor
  · show AllKeepable limit (recovered fromStr files)
    rw [read]
    exact tracks.keepable
  · exact tracks.keepable
  · trivial
  · show recovered fromStr files = (journal.kept ++ journal.pending).foldl putInto base
    rw [read, List.foldl_append, ← tracks.file, tracks.memory]
  · exact read.symm
  · exact fun busy => absurd rfl busy
  · exact fun _ _ => rfl
  · show ((journal.kept ++ journal.pending) ++ []).Sublist journal.made
    rw [List.append_nil]
    exact tracks.order
  · exact tracks.returned.trans (List.sublist_append_left ..)
  · intro _ _ _
    show (journal.returned ++ [process.request]).Sublist (journal.kept ++ journal.pending)
    rw [last, ← List.append_assoc]
    exact (tracks.returned.trans (List.sublist_append_left ..)).append (List.Sublist.refl _)

theorem write_tracks (tracks : Tracks fromStr limit base process journal) {file done : Nat} {text : List UInt8}
    (phase : process.world.phase () = .writing file text done) (chunk : Nat) :
    Tracks fromStr limit base
      { process with
        world := Writers.moveTo
          { process.world with files := process.world.files.writeAt 0 file done ((text.drop done).take chunk) } ()
          (.writing file text (done + ((text.drop done).take chunk).length)) } journal := by
  have underway := tracks.underway
  rw [phase] at underway
  obtain ⟨copied, named, content, bound⟩ := underway
  have frame : (process.world.files.writeAt 0 file done ((text.drop done).take chunk)).read .catalog =
      process.world.files.read .catalog := by
    refine Files.read_setContent (fun other => ?_) _
    cases process.world.files.distinct .catalog .temporary file other named
  refine moved_tracks tracks (by simp [phase]) frame (by simp) ⟨copied, named, ?_, ?_⟩
  · have long : (text.take done).length = done := by
      rw [List.length_take]
      omega
    have appended := Files.overlay_end 0 (text.take done) ((text.drop done).take chunk)
    rw [long] at appended
    calc
      _ = Files.overlay 0 (text.take done) done ((text.drop done).take chunk) := by
        rw [← content]
        exact Files.writeAt_content ..
      _ = text.take done ++ (text.drop done).take chunk := appended
      _ = text.take (done + ((text.drop done).take chunk).length) := by
        rw [List.take_add]
        simp
  · rw [List.length_take, List.length_drop]
    omega

/-- The put gives up, with whatever the temporary file holds by then. -/
theorem fail_tracks (tracks : Tracks fromStr limit base process journal) :
    Tracks fromStr limit base { process with world := process.world.moveTo () .finished, failed := true }
      journal where
  readable := tracks.readable
  keepable := tracks.keepable
  underway := trivial
  file := tracks.file
  memory := tracks.memory
  busy still := absurd rfl still
  idle _ sound := by cases sound
  order := tracks.order
  returned := tracks.returned
  due _ sound := by cases sound

theorem answer_tracks (tracks : Tracks fromStr limit base process journal)
    (through : process.world.phase () = .finished) :
    Tracks fromStr limit base { process with returned := true }
      (Schedule.run Journal.step journal
        (if process.returned || process.failed then [] else [.returned process.request])) := by
  have silent : Tracks fromStr limit base { process with returned := true } journal :=
    { tracks with
      busy := fun still => absurd through still
      due := fun _ _ late => by cases late }
  split_ifs with quiet
  · exact silent
  · rw [Bool.or_eq_true, not_or, Bool.not_eq_true, Bool.not_eq_true] at quiet
    exact { silent with returned := tracks.due through quiet.2 quiet.1, due := fun _ _ late => by cases late }

theorem crash_tracks (tracks : Tracks fromStr limit base process journal) :
    Tracks fromStr limit base (Process.opened fromStr process.world.files process.request)
      (journal.step .crashed) where
  readable := tracks.readable
  keepable := tracks.readable
  underway := trivial
  file := tracks.file
  memory := rfl
  busy still := absurd rfl still
  idle _ _ := rfl
  order := by
    show (journal.kept ++ []).Sublist journal.made
    rw [List.append_nil]
    exact (List.sublist_append_left ..).trans tracks.order
  returned := tracks.returned
  due _ _ late := by cases late

theorem process_tracks (serde : ReadsBack limit fromStr) (tracks : Tracks fromStr limit base process journal)
    {event : ProcessEvent} (fits : event.Fits limit) :
    Tracks fromStr limit base (process.step fromStr event)
      (Schedule.run Journal.step journal (process.tells event)) := by
  cases event with
  | crash => exact crash_tracks tracks
  | put entry =>
      cases phase : process.world.phase () with
      | finished =>
          cases answered : process.returned with
          | false =>
              simp only [Process.step, Process.tells, phase, answered]
              exact tracks
          | true =>
              simp only [Process.step, Process.tells, phase, answered]
              exact put_tracks tracks fits
      | _ =>
          simp only [Process.step, Process.tells, phase]
          exact tracks
  | fail =>
      simp only [Process.step, Process.tells, Schedule.run_nil]
      split
      · exact fail_tracks tracks
      · exact fail_tracks tracks
      · exact tracks
  | answer =>
      cases phase : process.world.phase () with
      | finished =>
          simp only [Process.step, Process.tells, phase]
          exact answer_tracks tracks phase
      | _ =>
          simp only [Process.step, Process.tells, phase]
          exact tracks
  | work chunk =>
      cases phase : process.world.phase () with
      | waiting =>
          have never := tracks.underway
          rw [phase] at never
          exact never.elim
      | inserted =>
          simp only [Process.step, Writers.step, Process.tells, phase]
          exact moved_tracks tracks (by simp [phase]) rfl (by simp) rfl
      | serialized text =>
          have copied := tracks.underway
          rw [phase] at copied
          obtain ⟨named, empty, frame⟩ := Files.openTruncated_spec process.world.files .temporary
          simp only [Process.step, Writers.step, Process.tells, phase]
          exact moved_tracks tracks (by simp [phase]) (frame .catalog (by decide)) (by simp)
            ⟨copied, named, empty, Nat.zero_le _⟩
      | writing file text done =>
          simp only [Process.step, Writers.step, Process.tells, phase]
          split_ifs with short
          · exact write_tracks tracks phase (chunk + 1)
          · cases renamed : process.world.files.rename .temporary .catalog with
            | some files => exact rename_tracks serde tracks phase (by omega) renamed
            | none =>
                -- The only writer finds the file it has opened.
                have underway := tracks.underway
                rw [phase] at underway
                rw [Files.rename_none, underway.2.1] at renamed
                cases renamed
      | finished =>
          simp only [Process.step, Writers.step, Process.tells, phase]
          exact tracks

theorem Tracks.work (serde : ReadsBack limit fromStr) (tracks : Tracks fromStr limit base process journal) (chunk : Nat) :
    Tracks fromStr limit base (process.step fromStr (.work chunk))
      (Schedule.run Journal.step journal (process.tells (.work chunk))) :=
  process_tracks serde tracks (show (ProcessEvent.work chunk).Fits limit from trivial)

end

def orders : String × CachedTable := (deepPut 3).entry 4

def users : String × CachedTable := ("shop.users", orders.2)

end Auger
