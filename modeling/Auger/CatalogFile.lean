import Auger.Persist
import Auger.StoredText
import Auger.General.Files

set_option autoImplicit false

/-! Concurrent puts writing one temporary file: what the catalog file holds in
every state on the way. -/

namespace Auger

open General

/-- `path` and `path.with_extension("json.tmp")`. -/
inductive CatalogPath
  | catalog | temporary
  deriving DecidableEq

/-- Where one `put` stands, its write taken apart. -/
inductive WritePhase
  | waiting
  | inserted
  /-- The map is copied and the copy serialized. -/
  | serialized (text : List UInt8)
  /-- The temporary file is open as `file`, and `done` bytes are written. -/
  | writing (file : Nat) (text : List UInt8) (done : Nat)
  | finished

structure Writers (ι : Type) where
  tables : KeyMap CachedTable
  files : Files CatalogPath UInt8
  phase : ι → WritePhase

section
variable {ι : Type} [DecidableEq ι] (request : ι → String × CachedTable)
  (render : ι → StoredCatalog → List UInt8)

namespace Writers

def moveTo (world : Writers ι) (i : ι) (phase : WritePhase) : Writers ι :=
  { world with phase := Function.update world.phase i phase }

/-- The next step of one put; a write call takes up to `chunk + 1` bytes. -/
def step (world : Writers ι) (action : ι × Nat) : Writers ι :=
  let (i, chunk) := action
  match world.phase i with
  | .waiting => { world with tables := world.tables.insert (request i).1 (request i).2 }.moveTo i .inserted
  | .inserted => world.moveTo i (.serialized (render i (CatalogStore.snapshot world.tables)))
  | .serialized text =>
      let (files, file) := world.files.openTruncated .temporary
      { world with files }.moveTo i (.writing file text 0)
  | .writing file text done =>
      if done < text.length then
        let bytes := (text.drop done).take (chunk + 1)
        { world with files := world.files.writeAt 0 file done bytes }.moveTo i
          (.writing file text (done + bytes.length))
      else
        -- The rename fails when another put has renamed the temporary file away.
        match world.files.rename .temporary .catalog with
        | some files => { world with files }.moveTo i .finished
        | none => world.moveTo i .finished
  | .finished => world

def run (world : Writers ι) (schedule : List (ι × Nat)) : Writers ι :=
  Schedule.run (step request render) world schedule

def start (tables : KeyMap CachedTable) (files : Files CatalogPath UInt8) : Writers ι :=
  ⟨tables, files, fun _ => .waiting⟩

/-- Put `i` has opened the temporary file and not written all of its text. -/
def MidWrite (world : Writers ι) (i : ι) : Prop :=
  ∃ file text done, world.phase i = .writing file text done ∧ done < text.length

/-- The next step of put `i` opens or renames the temporary file. -/
def TouchesTemporary (world : Writers ι) (i : ι) : Prop :=
  (∃ text, world.phase i = .serialized text) ∨
    ∃ file text done, world.phase i = .writing file text done ∧ text.length ≤ done

end Writers

/-- No put opens or renames the temporary file while another is writing it. -/
def UndisturbedWrite (world : Writers ι) (action : ι × Nat) : Prop :=
  world.TouchesTemporary action.1 → ∀ j, j ≠ action.1 → ¬world.MidWrite j

/-- What holds at every moment of undisturbed writes; `known` are the texts of
the snapshots taken, `startup` is the file found at the start. -/
structure Sound (known : List UInt8 → Prop) (startup : Option (List UInt8)) (world : Writers ι) : Prop where
  copies : ∀ i text, world.phase i = .serialized text → known text
  texts : ∀ i file text done, world.phase i = .writing file text done → known text
  alone : ∀ i j, world.MidWrite i → world.MidWrite j → i = j
  partly : ∀ i file text done, world.phase i = .writing file text done → done < text.length →
    world.files.names .temporary = some file ∧ world.files.content file = text.take done
  whole : (∀ i, ¬world.MidWrite i) → (∃ i file text done, world.phase i = .writing file text done) →
    ∀ bytes, world.files.read .temporary = some bytes → known bytes
  catalog : world.files.read .catalog = startup ∨
    ∃ bytes, world.files.read .catalog = some bytes ∧ known bytes

variable {request render} {known : List UInt8 → Prop} {startup : Option (List UInt8)} {world : Writers ι}

theorem Writers.phase_moveTo {i j : ι} {phase found : WritePhase} (moved : (world.moveTo i phase).phase j = found) :
    j = i ∧ phase = found ∨ j ≠ i ∧ world.phase j = found := by
  by_cases same : j = i
  · subst same
    exact .inl ⟨rfl, (Function.update_self ..).symm.trans moved⟩
  · exact .inr ⟨same, (Function.update_of_ne same ..).symm.trans moved⟩

theorem Writers.midWrite_moveTo {i j : ι} {phase : WritePhase} (mid : (world.moveTo i phase).MidWrite j) :
    (j = i ∧ ∃ file text done, phase = .writing file text done ∧ done < text.length) ∨
      (j ≠ i ∧ world.MidWrite j) := by
  obtain ⟨file, text, done, moved, short⟩ := mid
  rcases Writers.phase_moveTo moved with ⟨same, rfl⟩ | ⟨differ, old⟩
  · exact .inl ⟨same, file, text, done, rfl, short⟩
  · exact .inr ⟨differ, file, text, done, old, short⟩

theorem Sound.before_open (sound : Sound known startup world) (tables : KeyMap CachedTable) {i : ι}
    {phase : WritePhase} (idle : ∀ file text done, world.phase i ≠ .writing file text done)
    (still : ∀ file text done, phase ≠ .writing file text done)
    (copied : ∀ text, phase = .serialized text → known text) :
    Sound known startup ({ world with tables }.moveTo i phase) := by
  have moved : ∀ {j file text done}, ({ world with tables }.moveTo i phase).phase j = .writing file text done →
      world.phase j = .writing file text done := by
    intro j file text done found
    rcases Writers.phase_moveTo found with ⟨-, now⟩ | ⟨-, old⟩
    · exact absurd now (still file text done)
    · exact old
  have mid : ∀ j, ({ world with tables }.moveTo i phase).MidWrite j ↔ world.MidWrite j := by
    intro j
    constructor
    · rintro ⟨file, text, done, found, short⟩
      exact ⟨file, text, done, moved found, short⟩
    · rintro ⟨file, text, done, found, short⟩
      have differ : j ≠ i := by
        rintro rfl
        exact idle file text done found
      exact ⟨file, text, done, (Function.update_of_ne differ ..).trans found, short⟩
  constructor
  · intro j text found
    rcases Writers.phase_moveTo found with ⟨-, now⟩ | ⟨-, old⟩
    · exact copied text now
    · exact sound.copies j text old
  · intro j file text done found
    exact sound.texts j file text done (moved found)
  · intro j k first second
    exact sound.alone j k ((mid j).mp first) ((mid k).mp second)
  · intro j file text done found
    exact sound.partly j file text done (moved found)
  · rintro none_mid ⟨j, file, text, done, found⟩
    exact sound.whole (fun k writing => none_mid k ((mid k).mpr writing)) ⟨j, file, text, done, moved found⟩
  · exact sound.catalog

theorem Sound.after_open (sound : Sound known startup world) {i : ι} {text : List UInt8}
    (phase : world.phase i = .serialized text) (quiet : ∀ j, ¬world.MidWrite j) :
    Sound known startup ({ world with files := (world.files.openTruncated .temporary).1 }.moveTo i
      (.writing (world.files.openTruncated .temporary).2 text 0)) := by
  obtain ⟨named, empty, frame⟩ := Files.openTruncated_spec world.files .temporary
  constructor
  · intro j other found
    rcases Writers.phase_moveTo found with ⟨-, now⟩ | ⟨-, old⟩
    · cases now
    · exact sound.copies j other old
  · intro j file other done found
    rcases Writers.phase_moveTo found with ⟨-, now⟩ | ⟨-, old⟩
    · cases now
      exact sound.copies i text phase
    · exact sound.texts j file other done old
  · intro j k first second
    rcases Writers.midWrite_moveTo first with ⟨one, -⟩ | ⟨-, old⟩
    · rcases Writers.midWrite_moveTo second with ⟨two, -⟩ | ⟨-, old⟩
      · rw [one, two]
      · exact absurd old (quiet k)
    · exact absurd old (quiet j)
  · intro j file other done found short
    rcases Writers.phase_moveTo found with ⟨-, now⟩ | ⟨-, old⟩
    · cases now
      exact ⟨named, empty⟩
    · exact absurd ⟨file, other, done, old, short⟩ (quiet j)
  · intro none_mid _ bytes held
    -- Nobody is mid-write only when the text opened for is empty.
    have nothing : text = [] := by
      by_contra some_text
      exact none_mid i ⟨_, text, 0, Function.update_self .., List.length_pos_of_ne_nil some_text⟩
    have read := Files.read_some named
    rw [empty] at read
    have same : bytes = text := by
      rw [nothing]
      exact Option.some.inj (held.symm.trans read)
    rw [same]
    exact sound.copies i text phase
  · have unchanged := frame .catalog (by decide)
    rcases sound.catalog with old | ⟨bytes, held, complete⟩
    · exact .inl (unchanged.trans old)
    · exact .inr ⟨bytes, unchanged.trans held, complete⟩

theorem Sound.after_write (sound : Sound known startup world) {i : ι} {file done : Nat} {text : List UInt8}
    (phase : world.phase i = .writing file text done) (short : done < text.length) (chunk : Nat) :
    Sound known startup ({ world with files := world.files.writeAt 0 file done ((text.drop done).take chunk) }.moveTo i
      (.writing file text (done + ((text.drop done).take chunk).length))) := by
  obtain ⟨named, held⟩ := sound.partly i file text done phase short
  have mine : ∀ j, world.MidWrite j → j = i := fun j writing => sound.alone j i writing ⟨file, text, done, phase, short⟩
  have long : (text.take done).length = done := by
    rw [List.length_take]
    omega
  have written : (world.files.writeAt 0 file done ((text.drop done).take chunk)).content file =
      text.take (done + ((text.drop done).take chunk).length) := by
    have appended := Files.overlay_end 0 (text.take done) ((text.drop done).take chunk)
    rw [long] at appended
    calc
      _ = Files.overlay 0 (text.take done) done ((text.drop done).take chunk) := by
        rw [Files.writeAt_content, held]
      _ = text.take done ++ (text.drop done).take chunk := appended
      _ = text.take (done + ((text.drop done).take chunk).length) := by
        rw [List.take_add]
        simp
  have frame : (world.files.writeAt 0 file done ((text.drop done).take chunk)).read .catalog =
      world.files.read .catalog := by
    refine Files.read_setContent (fun other => ?_) _
    cases world.files.distinct .catalog .temporary file other named
  constructor
  · intro j other found
    rcases Writers.phase_moveTo found with ⟨-, now⟩ | ⟨-, old⟩
    · cases now
    · exact sound.copies j other old
  · intro j file' other done' found
    rcases Writers.phase_moveTo found with ⟨-, now⟩ | ⟨-, old⟩
    · cases now
      exact sound.texts i file text done phase
    · exact sound.texts j file' other done' old
  · intro j k first second
    rcases Writers.midWrite_moveTo first with ⟨one, -⟩ | ⟨differ, old⟩
    · rcases Writers.midWrite_moveTo second with ⟨two, -⟩ | ⟨differ, old⟩
      · rw [one, two]
      · exact absurd (mine k old) differ
    · exact absurd (mine j old) differ
  · intro j file' other done' found still
    rcases Writers.phase_moveTo found with ⟨-, now⟩ | ⟨differ, old⟩
    · cases now
      exact ⟨named, written⟩
    · exact absurd (mine j ⟨file', other, done', old, still⟩) differ
  · intro none_mid _ bytes read
    have complete : text.length ≤ done + ((text.drop done).take chunk).length := by
      by_contra more
      exact none_mid i ⟨file, text, _, Function.update_self .., by omega⟩
    have same : bytes = text := by
      rw [List.take_of_length_le complete] at written
      have stored : (world.files.writeAt 0 file done ((text.drop done).take chunk)).read .temporary =
          some ((world.files.writeAt 0 file done ((text.drop done).take chunk)).content file) := Files.read_some named
      rw [written] at stored
      exact Option.some.inj (read.symm.trans stored)
    rw [same]
    exact sound.texts i file text done phase
  · rcases sound.catalog with old | ⟨bytes, kept, complete⟩
    · exact .inl (frame.trans old)
    · exact .inr ⟨bytes, frame.trans kept, complete⟩

/-- A put that has renamed, or has failed to. -/
theorem Sound.after_rename (sound : Sound known startup world) {i : ι} {file done : Nat} {text : List UInt8}
    (phase : world.phase i = .writing file text done) (quiet : ∀ j, ¬world.MidWrite j)
    (files : Files CatalogPath UInt8)
    (moved : files = world.files ∨ world.files.rename .temporary .catalog = some files) :
    Sound known startup ({ world with files }.moveTo i .finished) := by
  have idle : ∀ j, ¬({ world with files }.moveTo i .finished).MidWrite j := by
    intro j mid
    rcases Writers.midWrite_moveTo mid with ⟨-, _, _, _, now, -⟩ | ⟨-, old⟩
    · cases now
    · exact quiet j old
  constructor
  · intro j other found
    rcases Writers.phase_moveTo found with ⟨-, now⟩ | ⟨-, old⟩
    · cases now
    · exact sound.copies j other old
  · intro j file' other done' found
    rcases Writers.phase_moveTo found with ⟨-, now⟩ | ⟨-, old⟩
    · cases now
    · exact sound.texts j file' other done' old
  · intro j k first
    exact absurd first (idle j)
  · intro j file' other done' found short
    exact absurd ⟨file', other, done', found, short⟩ (idle j)
  · intro _ _ bytes held
    rcases moved with rfl | renamed
    · exact sound.whole quiet ⟨i, file, text, done, phase⟩ bytes held
    · have gone := (Files.rename_some (by decide) renamed).2
      have none_left : files.read .temporary = none := by rw [Files.read, gone, Option.map_none]
      cases held.symm.trans none_left
  · rcases moved with rfl | renamed
    · exact sound.catalog
    · have read := (Files.rename_some (by decide) renamed).1
      cases held : world.files.read .temporary with
      | none =>
          rw [Files.read, Option.map_eq_none_iff, ← Files.rename_none .catalog] at held
          cases held.symm.trans renamed
      | some bytes =>
          exact .inr ⟨bytes, read.trans held, sound.whole quiet ⟨i, file, text, done, phase⟩ bytes held⟩

/-- One undisturbed step. -/
theorem sound_step (sound : Sound known startup world)
    (taken : ∀ i, known (render i (CatalogStore.snapshot world.tables))) {action : ι × Nat}
    (undisturbed : UndisturbedWrite world action) :
    Sound known startup (world.step request render action) := by
  rcases action with ⟨i, chunk⟩
  cases phase : world.phase i with
  | waiting =>
      simp only [Writers.step, phase]
      exact sound.before_open _ (by simp [phase]) (by simp) (by simp)
  | inserted =>
      simp only [Writers.step, phase]
      refine sound.before_open _ (by simp [phase]) (by simp) ?_
      rintro text same
      cases same
      exact taken i
  | serialized text =>
      simp only [Writers.step, phase]
      refine sound.after_open phase fun j mid => ?_
      by_cases same : j = i
      · obtain ⟨_, _, _, writing, -⟩ := mid
        rw [same, phase] at writing
        cases writing
      · exact undisturbed (.inl ⟨text, phase⟩) j same mid
  | writing file text done =>
      simp only [Writers.step, phase]
      split_ifs with short
      · exact sound.after_write phase short (chunk + 1)
      · have quiet : ∀ j, ¬world.MidWrite j := by
          intro j mid
          by_cases same : j = i
          · obtain ⟨_, _, _, writing, left⟩ := mid
            rw [same, phase] at writing
            cases writing
            exact short left
          · exact undisturbed (.inr ⟨file, text, done, phase, by omega⟩) j same mid
        cases renamed : world.files.rename .temporary .catalog with
        | none => exact sound.after_rename phase quiet world.files (.inl rfl)
        | some files => exact sound.after_rename phase quiet files (.inr renamed)
  | finished =>
      simp only [Writers.step, phase]
      exact sound

omit [DecidableEq ι] in
theorem start_sound (tables : KeyMap CachedTable) (files : Files CatalogPath UInt8) :
    Sound known (files.read .catalog) (Writers.start (ι := ι) tables files) := by
  constructor
  · intro i text copied
    cases copied
  · intro i file text done writing
    cases writing
  · rintro i j ⟨_, _, _, writing, -⟩
    cases writing
  · intro i file text done writing
    cases writing
  · rintro - ⟨_, _, _, _, writing⟩
    cases writing
  · exact .inl rfl

/-- At every moment of a schedule the catalog file is absent, the one found at the
start, or the text of one state of the map. -/
def NeverTruncated (request : ι → String × CachedTable) (render : ι → StoredCatalog → List UInt8)
    (tables : KeyMap CachedTable) (files : Files CatalogPath UInt8) (schedule : List (ι × Nat)) : Prop :=
  ∀ before, before <+: schedule →
    let content := (Writers.run request render (Writers.start tables files) before).files.read .catalog
    content = none ∨ content = files.read .catalog ∨
      ∃ i world, Schedule.Visited (Writers.step request render) (Writers.start tables files) before world ∧
        content = some (render i (CatalogStore.snapshot world.tables))

theorem never_truncated (request : ι → String × CachedTable) (render : ι → StoredCatalog → List UInt8)
    (tables : KeyMap CachedTable) (files : Files CatalogPath UInt8) (schedule : List (ι × Nat))
    (undisturbed : Schedule.Guarded (Writers.step request render) UndisturbedWrite (Writers.start tables files)
      schedule) :
    NeverTruncated request render tables files schedule := by
  rintro before ⟨rest, rfl⟩
  let known (text : List UInt8) : Prop :=
    ∃ i world, Schedule.Visited (Writers.step request render) (Writers.start tables files) before world ∧
      text = render i (CatalogStore.snapshot world.tables)
  have taken : ∀ world, Schedule.Visited (Writers.step request render) (Writers.start tables files) before world →
      ∀ i, known (render i (CatalogStore.snapshot world.tables)) :=
    fun world visited i => ⟨i, world, visited, rfl⟩
  have keeps : ∀ world action, Sound known (files.read .catalog) world →
      (∀ i, known (render i (CatalogStore.snapshot world.tables))) ∧ UndisturbedWrite world action →
        Sound known (files.read .catalog) (world.step request render action) :=
    fun world action sound allowed => sound_step sound allowed.1 allowed.2
  have sound : Sound known (files.read .catalog) (Writers.run request render (Writers.start tables files) before) :=
    Schedule.run_invariant keeps (start_sound tables files) (Schedule.guarded_of_visited undisturbed.append.1 taken)
  rcases sound.catalog with old | ⟨bytes, held, i, world, visited, rfl⟩
  · exact .inr (.inl old)
  · exact .inr (.inr ⟨i, world, visited, held⟩)

end

def StoredCatalog.bytes (catalog : StoredCatalog) : List UInt8 := catalog.text.toUTF8.data.toList

theorem StoredCatalog.bytes_ne_nil (catalog : StoredCatalog) : catalog.bytes ≠ [] := by
  intro nothing
  have empty : catalog.text.toUTF8 = ByteArray.empty := ByteArray.ext (Array.toList_eq_nil_iff.mp nothing)
  have text : catalog.text = "" := String.toByteArray_inj.mp empty
  have parsed := catalog.parse_text
  rw [text] at parsed
  cases parsed

def noFiles : Files CatalogPath UInt8 where
  names := fun _ => none
  content := fun _ => []
  next := 0
  below := by
    intro name file found
    cases found
  distinct := by
    intro name other file found
    cases found

theorem step_phase_other {request : Bool → String × CachedTable} {render : Bool → StoredCatalog → List UInt8}
    (world : Writers Bool) (action : Bool × Nat) {j : Bool} (differ : j ≠ action.1) :
    (world.step request render action).phase j = world.phase j := by
  rcases action with ⟨i, chunk⟩
  cases phase : world.phase i <;> simp only [Writers.step, phase]
  case writing file text done =>
    split_ifs
    · exact Function.update_of_ne differ ..
    · cases world.files.rename .temporary .catalog <;> exact Function.update_of_ne differ ..
  all_goals exact Function.update_of_ne differ ..

theorem run_to_open (request : Bool → String × CachedTable) (render : Bool → StoredCatalog → List UInt8)
    (world : Writers Bool) (i : Bool) (waiting : world.phase i = .waiting) :
    Writers.run request render world [(i, 0), (i, 0), (i, 0)] =
      Writers.moveTo ⟨world.tables.insert (request i).1 (request i).2, (world.files.openTruncated .temporary).1,
          world.phase⟩ i
        (.writing (world.files.openTruncated .temporary).2
          (render i (CatalogStore.snapshot (world.tables.insert (request i).1 (request i).2))) 0) := by
  simp [Writers.run, Writers.step, Writers.moveTo, waiting]

theorem step_write_all (request : Bool → String × CachedTable) (render : Bool → StoredCatalog → List UInt8)
    {world : Writers Bool} {i : Bool} {file : Nat} {text : List UInt8}
    (phase : world.phase i = .writing file text 0) (present : text ≠ []) {chunk : Nat} (enough : text.length ≤ chunk) :
    (world.step request render (i, chunk)).phase i = .writing file text text.length := by
  have all : text.take (chunk + 1) = text := List.take_of_length_le (Nat.le_succ_of_le enough)
  simp [Writers.step, Writers.moveTo, phase, List.length_pos_of_ne_nil present, all]

/-- A put renames the temporary file whatever it holds. -/
theorem step_rename (request : Bool → String × CachedTable) (render : Bool → StoredCatalog → List UInt8)
    {world : Writers Bool} {i : Bool} {file done : Nat} {text bytes : List UInt8}
    (phase : world.phase i = .writing file text done) (complete : text.length ≤ done) (chunk : Nat)
    (held : world.files.read .temporary = some bytes) :
    (world.step request render (i, chunk)).files.read .catalog = some bytes := by
  have not_short : ¬done < text.length := by omega
  simp only [Writers.step, phase, not_short, if_false]
  cases renamed : world.files.rename .temporary .catalog with
  | none =>
      rw [Files.read, (Files.rename_none _).mp renamed] at held
      cases held
  | some files => exact (Files.rename_some (by decide) renamed).1.trans held

/-- The first put writes its text at once, and renames after the second has opened. -/
def reopened (length : Nat) : List (Bool × Nat) :=
  [(true, 0), (true, 0), (true, 0), (true, length), (false, 0), (false, 0), (false, 0), (true, 0)]

theorem reopened_empties (request : Bool → String × CachedTable) (render : Bool → StoredCatalog → List UInt8)
    (tables : KeyMap CachedTable) (files : Files CatalogPath UInt8) (length : Nat)
    (enough : (render true (CatalogStore.snapshot (tables.insert (request true).1 (request true).2))).length ≤ length)
    (present : render true (CatalogStore.snapshot (tables.insert (request true).1 (request true).2)) ≠ []) :
    (Writers.run request render (Writers.start tables files) (reopened length)).files.read .catalog = some [] := by
  let first := Writers.run request render (Writers.start tables files) [(true, 0), (true, 0), (true, 0)]
  let written := first.step request render (true, length)
  let second := Writers.run request render written [(false, 0), (false, 0), (false, 0)]
  have opened := run_to_open request render (Writers.start tables files) true rfl
  let text := render true (CatalogStore.snapshot (tables.insert (request true).1 (request true).2))
  have phase : written.phase true = .writing (files.openTruncated .temporary).2 text text.length := by
    have opened_phase : first.phase true = .writing (files.openTruncated .temporary).2 text 0 := by
      rw [show first = _ from opened]
      rfl
    exact step_write_all request render opened_phase present enough
  have waiting : written.phase false = .waiting := by
    rw [step_phase_other first (true, length) (by decide : false ≠ true), show first = _ from opened]
    rfl
  have reopened := run_to_open request render written false waiting
  obtain ⟨named, empty, -⟩ := Files.openTruncated_spec written.files .temporary
  have held : second.files.read .temporary = some [] := by
    rw [show second = _ from reopened]
    exact (Files.read_some named).trans (congrArg some empty)
  have still : second.phase true = .writing (files.openTruncated .temporary).2 text text.length := by
    rw [show second = _ from reopened]
    exact phase
  exact step_rename request render still le_rfl 0 held

theorem catalog_truncated : ¬∀ (request : Bool → String × CachedTable) (tables : KeyMap CachedTable)
    (files : Files CatalogPath UInt8) (schedule : List (Bool × Nat)),
      NeverTruncated request (fun _ => StoredCatalog.bytes) tables files schedule := by
  intro holds
  let text := (CatalogStore.snapshot (KeyMap.empty.insert (twoTables true).1 (twoTables true).2)).bytes
  have emptied := reopened_empties twoTables (fun _ => StoredCatalog.bytes) KeyMap.empty noFiles text.length le_rfl
    (StoredCatalog.bytes_ne_nil _)
  have held := holds twoTables KeyMap.empty noFiles (reopened text.length) _ List.prefix_rfl
  simp only [emptied] at held
  rcases held with absent | old | ⟨i, world, -, same⟩
  · cases absent
  · cases old
  · exact StoredCatalog.bytes_ne_nil _ (Option.some.inj same).symm

section
variable {request : Bool → String × CachedTable} {render : Bool → StoredCatalog → List UInt8}
  {world : Writers Bool} {i : Bool}

theorem undisturbed_other {chunk : Nat}
    (idle : ∀ file text done, world.phase (!i) = .writing file text done → text.length ≤ done) :
    UndisturbedWrite world (i, chunk) := by
  rintro - j differ ⟨file, text, done, writing, short⟩
  obtain rfl : j = !i := Bool.eq_not_of_ne differ
  have complete := idle file text done writing
  omega

end

/-- Both puts insert before either copies; the second copies while the first has its file
open, and opens it again before the first renames. -/
def overlapping (length : Nat) : List (Bool × Nat) :=
  [(true, 0), (false, 0), (true, 0), (true, 0), (false, 0), (true, length), (false, 0), (false, length), (true, 0),
    (false, 0)]

theorem overlapping_undisturbed (request : Bool → String × CachedTable) (render : Bool → StoredCatalog → List UInt8)
    (tables : KeyMap CachedTable) (files : Files CatalogPath UInt8) (length : Nat)
    (texts : ∀ i catalog, render i catalog ≠ [])
    (enough : ∀ i, (render i (CatalogStore.snapshot ((tables.insert (request true).1 (request true).2).insert
      (request false).1 (request false).2))).length ≤ length) :
    Schedule.Guarded (Writers.step request render) UndisturbedWrite (Writers.start tables files)
      (overlapping length) := by
  let both := (tables.insert (request true).1 (request true).2).insert (request false).1 (request false).2
  let first := render true (CatalogStore.snapshot both)
  let second := render false (CatalogStore.snapshot both)
  let opened := Writers.run request render (Writers.start tables files)
    [(true, 0), (false, 0), (true, 0), (true, 0), (false, 0)]
  have phases : opened.phase true = .writing (files.openTruncated .temporary).2 first 0 ∧
      opened.phase false = .serialized second := by
    simp [opened, Writers.run, Writers.start, Writers.step, Writers.moveTo, first, second, both]
  let written := opened.step request render (true, length)
  have one : written.phase true = .writing (files.openTruncated .temporary).2 first first.length :=
    step_write_all request render phases.1 (texts true _) (enough true)
  have waiting : written.phase false = .serialized second :=
    (step_phase_other opened (true, length) Bool.false_ne_true).trans phases.2
  let reopened := written.step request render (false, 0)
  have still : reopened.phase true = .writing (files.openTruncated .temporary).2 first first.length :=
    (step_phase_other written (false, 0) Bool.false_ne_true.symm).trans one
  have begun : reopened.phase false = .writing (written.files.openTruncated .temporary).2 second 0 := by
    simp [reopened, Writers.step, Writers.moveTo, waiting]
  let rewritten := reopened.step request render (false, length)
  have two : rewritten.phase false = .writing (written.files.openTruncated .temporary).2 second second.length :=
    step_write_all request render begun (texts false _) (enough false)
  have ready : rewritten.phase true = .writing (files.openTruncated .temporary).2 first first.length :=
    (step_phase_other reopened (false, length) Bool.false_ne_true.symm).trans still
  have done : (rewritten.step request render (true, 0)).phase true = .finished := by
    simp only [Writers.step, ready, lt_irrefl, if_false]
    split <;> simp [Writers.moveTo]
  refine ⟨?_, ?_, ?_, ?_, ?_, undisturbed_other ?_, undisturbed_other ?_, undisturbed_other ?_, undisturbed_other ?_,
    undisturbed_other ?_, trivial⟩
  · exact undisturbed_other (by simp [Writers.start])
  · exact undisturbed_other (by simp [Writers.start, Writers.step, Writers.moveTo])
  · exact undisturbed_other (by simp [Writers.start, Writers.step, Writers.moveTo])
  · exact undisturbed_other (by simp [Writers.start, Writers.step, Writers.moveTo])
  · -- The second put copies the map while the first has its file open.
    rintro (⟨text, copied⟩ | ⟨file, text, done, writing, -⟩)
    · simp [Writers.start, Writers.step, Writers.moveTo] at copied
    · simp [Writers.start, Writers.step, Writers.moveTo] at writing
  · intro file text done writing
    cases phases.2.symm.trans writing
  · intro file text done writing
    cases one.symm.trans writing
    exact le_rfl
  · intro file text done writing
    cases still.symm.trans writing
    exact le_rfl
  · intro file text done writing
    cases two.symm.trans writing
    exact le_rfl
  · intro file text done' writing
    cases done.symm.trans writing

theorem never_truncated_overlapping :
    let tables := (KeyMap.empty.insert (twoTables true).1 (twoTables true).2).insert
      (twoTables false).1 (twoTables false).2
    NeverTruncated twoTables (fun _ => StoredCatalog.bytes) KeyMap.empty noFiles
      (overlapping (CatalogStore.snapshot tables).bytes.length) :=
  never_truncated twoTables (fun _ => StoredCatalog.bytes) KeyMap.empty noFiles _
    (overlapping_undisturbed twoTables (fun _ => StoredCatalog.bytes) KeyMap.empty noFiles _
      (fun _ => StoredCatalog.bytes_ne_nil) fun _ => le_rfl)

end Auger
