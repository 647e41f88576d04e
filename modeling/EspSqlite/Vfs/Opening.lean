import EspSqlite.Vfs.Resolution

/-! # What opening a database does to the files

`esp8266_Open` with any flags, over backends whose modes of opening mean what
they allow. -/

namespace EspSqlite.Vfs

variable {sd : FileStore OpenFlags} {spiffs : FileStore (List Char)}
  (sdModes : sd.OpenModes sdAccess) (spiffsModes : spiffs.OpenModes fopenAccess)

def World.place (world : World sd spiffs) (path : List Char) : Option (Place sd) :=
  if path.take 3 = ['/', 'S', 'D'] then
    (sdIdx path).bind fun digit =>
      (world.sdFats digit).map fun volume => .sdFat volume (path.drop 5)
  else
    some (.spiffs (path.drop 6))

def FileRef : Type := sdModes.FileId ⊕ spiffsModes.FileId

def World.content (world : World sd spiffs) : FileRef sdModes spiffsModes → Option ByteFile :=
  Sum.elim (sdModes.contents world.sdState) (spiffsModes.contents world.spiffsState)

def World.fileRef (world : World sd spiffs) : Place sd → FileRef sdModes spiffsModes
  | .sdFat volume path => .inl (sdModes.fileId volume path)
  | .spiffs path => .inr (spiffsModes.fileId world.spiffsVolume path)

def World.contentAt (world : World sd spiffs) (path : List Char) : Option ByteFile :=
  (world.place path).bind fun place =>
    world.content sdModes spiffsModes (world.fileRef sdModes spiffsModes place)

/-- Whether the backend opens a file at a place, and the contents it leaves, before
SPIFFS closes the file that the file object holds. -/
def World.opening (world : World sd spiffs) (mode : List Char) :
    Option (Place sd) → Bool × (FileRef sdModes spiffsModes → Option ByteFile)
  | none => (false, world.content sdModes spiffsModes)
  | some (.sdFat volume path) =>
      let opened := sd.openFile world.sdState volume path (sdfatMode mode)
      (opened.1.isSome,
        Sum.elim (sdModes.contents opened.2) (spiffsModes.contents world.spiffsState))
  | some (.spiffs path) =>
      let opened := spiffs.openFile world.spiffsState world.spiffsVolume path mode
      (opened.1.isSome,
        Sum.elim (sdModes.contents world.sdState) (spiffsModes.contents opened.2))

def World.released (world : World sd spiffs) (mode : List Char) :
    Option (Place sd) → FileRef sdModes spiffsModes → Option ByteFile
  | none => world.content sdModes spiffsModes
  | some (.sdFat volume path) =>
      (world.opening sdModes spiffsModes mode (some (.sdFat volume path))).2
  | some (.spiffs path) =>
      Sum.elim (sdModes.contents world.sdState)
        (spiffsModes.contents (spiffs.release
          (spiffs.openFile world.spiffsState world.spiffsVolume path mode).2
          (world.filep.bind world.spiffsFiles)))

/-- Closing the file that the file object still holds changes no file that is there,
after SPIFFS opened a place. -/
def World.Settled (world : World sd spiffs) (mode : List Char) : Option (Place sd) → Prop
  | none => True
  | some (.sdFat _ _) => True
  | some (.spiffs path) =>
      ∀ held, world.filep.bind world.spiffsFiles = some held →
        ∀ id content, spiffsModes.contents world.spiffsState id = some content →
          spiffsModes.contents (spiffs.close
            (spiffs.openFile world.spiffsState world.spiffsVolume path mode).2 held) id =
            some content

/-- The digit of an SD path is one of a mounted volume, and for other paths a
file object is registered. -/
def World.Ready (world : World sd spiffs) (path : List Char) : Prop :=
  if path.take 3 = ['/', 'S', 'D'] then
    ∀ digit, sdIdx path = some digit → world.sdFats digit ≠ none
  else
    world.filep ≠ none

/-- The call has a meaning and changes no file that is there. It makes a file
only if it may create one, and does not open a missing one if it may not. Where it
fails the file structure has no methods. -/
def OpensCleanly (world : World sd spiffs) (allocates : Bool) (path : Option (List Char))
    (file : Esp8266File) (flags : Nat) : Prop :=
  ∃ code opened after, esp8266Open world allocates path file flags = some (code, opened, after) ∧
    (∀ ref content, world.content sdModes spiffsModes ref = some content →
      after.content sdModes spiffsModes ref = some content) ∧
    ((∃ ref, world.content sdModes spiffsModes ref = none ∧
      after.content sdModes spiffsModes ref ≠ none) → flags &&& sqliteOpenCreate ≠ 0) ∧
    (∀ name, path = some name → world.contentAt sdModes spiffsModes name = none →
      flags &&& sqliteOpenCreate = 0 → flags &&& sqliteOpenMainJournal = 0 → code ≠ sqliteOk) ∧
    (code ≠ sqliteOk → opened.pMethods = none)

/-- Every byte that is read of the path lies in it. -/
def Addressable (path : List Char) : Prop :=
  if path.take 3 = ['/', 'S', 'D'] then ∀ digit, sdIdx path = some digit → 5 ≤ path.length
  else 6 ≤ path.length

/-- The flags for which `esp8266_Open` calls `esp8266_Access`. -/
def Checks (flags : Nat) : Prop :=
  flags &&& sqliteOpenReadwrite ≠ 0 ∨ flags &&& sqliteOpenMainJournal ≠ 0

instance (flags : Nat) : Decidable (Checks flags) := inferInstanceAs (Decidable (_ ∨ _))

def World.modeFor (world : World sd spiffs) (path : List Char) (flags : Nat) : List Char :=
  if Checks flags then
    if (world.contentAt sdModes spiffsModes path).isSome then modeReadplus else modeWriteplus
  else
    modeReadonly

/-- Without a path the structure has no methods already. A path can be addressed
and, where it is checked, fits in `vfs_stat`. A missing file that may not be
created is not made by the backend either. Unless it is a journal that is opened, the
file object holds no file whose close changes another. -/
def SafeToOpen (world : World sd spiffs) (path : Option (List Char)) (file : Esp8266File)
    (flags : Nat) : Prop :=
  match path with
  | none => file.pMethods = none
  | some path =>
      Addressable path ∧ (Checks flags → path.length ≤ fsObjNameLen) ∧
        (flags &&& sqliteOpenReadwrite ≠ 0 → flags &&& sqliteOpenCreate = 0 →
          flags &&& sqliteOpenMainJournal = 0 → world.contentAt sdModes spiffsModes path = none →
          world.opening sdModes spiffsModes modeWriteplus (world.place path) =
            (false, world.content sdModes spiffsModes)) ∧
        (flags &&& sqliteOpenMainJournal = 0 →
          world.Settled spiffsModes (world.modeFor sdModes spiffsModes path flags)
            (world.place path))

/-! ## Opening by mode -/

variable (world : World sd spiffs)

/-- A mode that neither empties nor creates a file on either backend. -/
def Preserves (mode : List Char) : Prop :=
  ((sdAccess (sdfatMode mode)).trunc = false ∧ (sdAccess (sdfatMode mode)).creat = false) ∧
    (fopenAccess mode).trunc = false ∧ (fopenAccess mode).creat = false

theorem preserves_readonly : Preserves modeReadonly := by
  unfold Preserves
  decide

theorem preserves_readplus : Preserves modeReadplus := by
  unfold Preserves
  decide

/-- Opening changes no other file. -/
theorem opening_other (mode : List Char) (place : Place sd) {ref : FileRef sdModes spiffsModes}
    (other : ref ≠ world.fileRef sdModes spiffsModes place) :
    (world.opening sdModes spiffsModes mode (some place)).2 ref =
      world.content sdModes spiffsModes ref := by
  cases place with
  | sdFat volume path =>
      cases ref with
      | inl id =>
          exact sdModes.open_other _ _ _ _ _ fun same => other (congrArg Sum.inl same)
      | inr id => rfl
  | spiffs path =>
      cases ref with
      | inl id => rfl
      | inr id =>
          exact spiffsModes.open_other _ _ _ _ _ fun same => other (congrArg Sum.inr same)

theorem opening_preserves {mode : List Char} (preserves : Preserves mode)
    (place : Option (Place sd)) :
    (world.opening sdModes spiffsModes mode place).2 = world.content sdModes spiffsModes := by
  rcases preserves with ⟨⟨sdKeeps, sdRefuses⟩, spiffsKeeps, spiffsRefuses⟩
  cases place with
  | none => rfl
  | some place =>
      funext ref
      by_cases other : ref ≠ world.fileRef sdModes spiffsModes place
      · exact opening_other sdModes spiffsModes world mode place other
      · obtain rfl := not_not.mp other
        cases place with
        | sdFat volume path =>
            cases held : sdModes.contents world.sdState (sdModes.fileId volume path) with
            | none =>
                exact (sdModes.open_missing _ _ _ _ sdRefuses held).2.trans held.symm
            | some content =>
                exact (sdModes.open_kept _ _ _ _ _ sdKeeps held).trans held.symm
        | spiffs path =>
            cases held : spiffsModes.contents world.spiffsState
                (spiffsModes.fileId world.spiffsVolume path) with
            | none =>
                exact (spiffsModes.open_missing _ _ _ _ spiffsRefuses held).2.trans held.symm
            | some content =>
                exact (spiffsModes.open_kept _ _ _ _ _ spiffsKeeps held).trans held.symm

theorem opening_missing {mode path : List Char} (preserves : Preserves mode)
    (missing : world.contentAt sdModes spiffsModes path = none) :
    (world.opening sdModes spiffsModes mode (world.place path)).1 = false := by
  rcases preserves with ⟨⟨_, sdRefuses⟩, _, spiffsRefuses⟩
  rw [World.contentAt] at missing
  cases leads : world.place path with
  | none => rfl
  | some place =>
      rw [leads, Option.bind_some] at missing
      cases place with
      | sdFat volume path =>
          exact Option.isSome_eq_false_iff.mpr
            (Option.isNone_iff_eq_none.mpr (sdModes.open_missing _ _ _ _ sdRefuses missing).1)
      | spiffs path =>
          exact Option.isSome_eq_false_iff.mpr
            (Option.isNone_iff_eq_none.mpr
              (spiffsModes.open_missing _ _ _ _ spiffsRefuses missing).1)

theorem opening_new {path : List Char} (mode : List Char)
    (missing : world.contentAt sdModes spiffsModes path = none)
    {ref : FileRef sdModes spiffsModes} {content : ByteFile}
    (held : world.content sdModes spiffsModes ref = some content) :
    (world.opening sdModes spiffsModes mode (world.place path)).2 ref = some content := by
  rw [World.contentAt] at missing
  cases leads : world.place path with
  | none => exact held
  | some place =>
      rw [leads, Option.bind_some] at missing
      rw [opening_other, held]
      intro same
      rw [same, missing] at held
      cases held

theorem released_isSome (mode : List Char) (place : Option (Place sd))
    (ref : FileRef sdModes spiffsModes) :
    (world.released sdModes spiffsModes mode place ref).isSome =
      ((world.opening sdModes spiffsModes mode place).2 ref).isSome := by
  cases place with
  | none => rfl
  | some place =>
      cases place with
      | sdFat volume path => rfl
      | spiffs path =>
          cases ref with
          | inl id => rfl
          | inr id =>
              rw [World.released]
              cases world.filep.bind world.spiffsFiles with
              | none => rfl
              | some held => exact spiffsModes.close_isSome _ held id

/-- A release harms no file exactly where the file that is closed is settled. -/
theorem settled_iff {mode : List Char} {place : Option (Place sd)}
    (keeps : ∀ ref content, world.content sdModes spiffsModes ref = some content →
      (world.opening sdModes spiffsModes mode place).2 ref = some content) :
    world.Settled spiffsModes mode place ↔
      ∀ ref content, world.content sdModes spiffsModes ref = some content →
        world.released sdModes spiffsModes mode place ref = some content := by
  cases place with
  | none => exact ⟨fun _ _ _ held => held, fun _ => trivial⟩
  | some place =>
      cases place with
      | sdFat volume path => exact ⟨fun _ => keeps, fun _ => trivial⟩
      | spiffs path =>
          rw [World.Settled, World.released]
          constructor
          · intro settled ref content isThere
            cases ref with
            | inl id => exact isThere
            | inr id =>
                cases isHeld : world.filep.bind world.spiffsFiles with
                | none => exact keeps (.inr id) content isThere
                | some held => exact settled held isHeld id content isThere
          · intro kept held isHeld id content isThere
            have same := kept (.inr id) content isThere
            rwa [isHeld] at same

/-! ## Dispatch -/

variable {world} {path : List Char}

theorem addressable_of_leads {place : Option (Place sd)} (leads : Leads world path place) :
    Addressable path := by
  rw [Addressable]
  cases leads with
  | nowhere onSd noDigit =>
      rw [if_pos (isSd_eq_true_iff.mp onSd), noDigit]
      intro digit isDigit
      cases isDigit
  | sdFat onSd isDigit mounted skipped =>
      rw [if_pos (isSd_eq_true_iff.mp onSd)]
      exact fun _ _ => long_of_skip skipped
  | spiffs notSd skipped =>
      rw [if_neg (prefix_ne_of_isSd notSd)]
      exact long_of_skip skipped

theorem leads_place (ready : world.Ready path) (addressable : Addressable path) :
    Leads world path (world.place path) := by
  rw [World.Ready] at ready
  rw [Addressable] at addressable
  rw [World.place]
  by_cases onSd : path.take 3 = ['/', 'S', 'D']
  · rw [if_pos onSd] at ready addressable ⊢
    have compared := isSd_eq_true_iff.mpr onSd
    cases isDigit : sdIdx path with
    | none => exact .nowhere compared isDigit
    | some digit =>
        rcases Option.ne_none_iff_exists'.mp (ready digit isDigit) with ⟨volume, mounted⟩
        rw [Option.bind_some, mounted]
        exact .sdFat compared isDigit mounted (skip_eq (addressable digit isDigit))
  · rw [if_neg onSd] at addressable ⊢
    refine .spiffs ?_ (skip_eq addressable)
    rw [isSd_eq (by omega), beq_eq_false_iff_ne.mpr onSd]

theorem existsPlace_eq (world : World sd spiffs) (path : List Char) :
    world.existsPlace (world.place path) = (world.contentAt sdModes spiffsModes path).isSome := by
  rw [World.contentAt]
  cases world.place path with
  | none => rfl
  | some place =>
      cases place with
      | sdFat volume path => exact sdModes.fileExists_eq _ _ _
      | spiffs path => exact spiffsModes.fileExists_eq _ _ _

theorem openPlace_opening (mode : List Char) {place : Option (Place sd)}
    (registered : ∀ rest, place = some (.spiffs rest) → world.filep ≠ none) :
    ∃ opened after, world.openPlace mode place = some (opened, after) ∧
      opened.isSome = (world.opening sdModes spiffsModes mode place).1 ∧
      after.content sdModes spiffsModes = world.released sdModes spiffsModes mode place := by
  cases place with
  | none => exact ⟨none, world, rfl, rfl, rfl⟩
  | some place =>
      cases place with
      | sdFat volume path =>
          rw [World.openPlace, World.released, World.opening]
          rcases sd.openFile world.sdState volume path (sdfatMode mode) with ⟨_ | file, state⟩
          · exact ⟨none, _, rfl, rfl, rfl⟩
          · exact ⟨some _, _, rfl, rfl, rfl⟩
      | spiffs path =>
          rcases Option.ne_none_iff_exists'.mp (registered path rfl) with ⟨filep, isFilep⟩
          rw [World.openPlace, isFilep, Option.map_some]
          refine ⟨_, _, rfl, Option.isSome_map, ?_⟩
          rw [World.released, isFilep]
          rfl

theorem vfsOpen_place (ready : world.Ready path) (addressable : Addressable path)
    (mode : List Char) :
    ∃ opened after, vfsOpen world path mode = some (opened, after) ∧
      opened.isSome = (world.opening sdModes spiffsModes mode (world.place path)).1 ∧
      after.content sdModes spiffsModes =
        world.released sdModes spiffsModes mode (world.place path) := by
  rw [vfsOpen_eq, (leads_place ready addressable).eq, Option.bind_some]
  apply openPlace_opening
  intro rest isSpiffs
  rw [World.place] at isSpiffs
  rw [World.Ready] at ready
  by_cases onSd : path.take 3 = ['/', 'S', 'D']
  · simp only [if_pos onSd, Option.bind_eq_some_iff, Option.map_eq_some_iff] at isSpiffs
    rcases isSpiffs with ⟨digit, _, volume, _, differs⟩
    cases differs
  · rwa [if_neg onSd] at ready

/-! ## The mode -/

variable {flags : Nat}

theorem openMode_checks (world : World sd spiffs) (path : List Char) (flags : Nat) :
    openMode world path flags =
      if Checks flags then
        (esp8266Access world path).map fun result =>
          if result then modeReadplus else modeWriteplus
      else some modeReadonly :=
  rfl

theorem openMode_modeFor (ready : world.Ready path) (addressable : Addressable path)
    (short : Checks flags → path.length ≤ fsObjNameLen) :
    openMode world path flags = some (world.modeFor sdModes spiffsModes path flags) := by
  rw [openMode_checks, World.modeFor]
  by_cases checks : Checks flags
  · rw [if_pos checks, if_pos checks, esp8266Access, vfsStat_eq, if_pos (short checks),
      (leads_place ready addressable).eq, Option.map_some, existsPlace_eq sdModes spiffsModes]
    cases (world.contentAt sdModes spiffsModes path).isSome <;> rfl
  · rw [if_neg checks, if_neg checks]

theorem addressable_of_openMode {mode : List Char} (checks : Checks flags)
    (chosen : openMode world path flags = some mode) :
    Addressable path ∧ path.length ≤ fsObjNameLen := by
  rw [openMode_checks, if_pos checks, Option.map_eq_some_iff] at chosen
  rcases chosen with ⟨present, checked, _⟩
  rw [esp8266Access, Option.map_eq_some_iff] at checked
  rcases checked with ⟨stat, answered, _⟩
  rw [vfsStat_eq] at answered
  split at answered
  · rename_i short
    rcases Option.map_eq_some_iff.mp answered with ⟨place, led, _⟩
    exact ⟨addressable_of_leads (leads_of_eq led), short⟩
  · cases answered

theorem modeFor_cases (world : World sd spiffs) (path : List Char) (flags : Nat) :
    Preserves (world.modeFor sdModes spiffsModes path flags) ∨
      Checks flags ∧ world.contentAt sdModes spiffsModes path = none ∧
        world.modeFor sdModes spiffsModes path flags = modeWriteplus := by
  rw [World.modeFor]
  by_cases checks : Checks flags
  · rw [if_pos checks]
    cases content : world.contentAt sdModes spiffsModes path with
    | none => exact Or.inr ⟨checks, rfl, rfl⟩
    | some present => exact Or.inl preserves_readplus
  · rw [if_neg checks]
    exact Or.inl preserves_readonly

theorem opening_modeFor (world : World sd spiffs) (path : List Char) (flags : Nat)
    {ref : FileRef sdModes spiffsModes} {content : ByteFile}
    (held : world.content sdModes spiffsModes ref = some content) :
    (world.opening sdModes spiffsModes (world.modeFor sdModes spiffsModes path flags)
      (world.place path)).2 ref = some content := by
  rcases modeFor_cases sdModes spiffsModes world path flags with preserves | ⟨_, missing, _⟩
  · rw [opening_preserves sdModes spiffsModes world preserves, held]
  · exact opening_new sdModes spiffsModes world _ missing held

theorem opening_of_safe {file : Esp8266File}
    (safe : SafeToOpen sdModes spiffsModes world (some path) file flags)
    (notJournal : flags &&& sqliteOpenMainJournal = 0)
    (cannotCreate : flags &&& sqliteOpenCreate = 0) :
    (world.opening sdModes spiffsModes (world.modeFor sdModes spiffsModes path flags)
        (world.place path)).2 = world.content sdModes spiffsModes ∧
      (world.contentAt sdModes spiffsModes path = none →
        (world.opening sdModes spiffsModes (world.modeFor sdModes spiffsModes path flags)
          (world.place path)).1 = false) := by
  rcases safe with ⟨_, _, refuses, _⟩
  rcases modeFor_cases sdModes spiffsModes world path flags with
    preserves | ⟨checks, missing, isNew⟩
  · exact ⟨opening_preserves sdModes spiffsModes world preserves (world.place path),
      opening_missing sdModes spiffsModes world preserves⟩
  · have readwrite := checks.resolve_right (not_not.mpr notJournal)
    have refused := refuses readwrite cannotCreate notJournal missing
    rw [isNew, refused]
    exact ⟨rfl, fun _ => rfl⟩

/-! ## The calls -/

variable (allocates : Bool) (file : Esp8266File)

theorem esp8266Open_journal {mode : List Char}
    (chosen : openMode world path flags = some mode)
    (journal : flags &&& sqliteOpenMainJournal ≠ 0) :
    ∃ code opened, esp8266Open world allocates (some path) file flags =
        some (code, opened, world) ∧ (code ≠ sqliteOk → opened.pMethods = none) := by
  simp only [esp8266Open, chosen, Option.bind_some, journal, ne_eq, not_false_eq_true, if_true]
  cases allocates with
  | true => exact ⟨_, _, rfl, fun failed => absurd rfl failed⟩
  | false => exact ⟨_, _, rfl, fun _ => rfl⟩

theorem esp8266Open_file (ready : world.Ready path) (addressable : Addressable path)
    (short : Checks flags → path.length ≤ fsObjNameLen)
    (notJournal : flags &&& sqliteOpenMainJournal = 0) :
    ∃ code opened after, esp8266Open world allocates (some path) file flags =
        some (code, opened, after) ∧
      (code = sqliteOk ↔ (world.opening sdModes spiffsModes
        (world.modeFor sdModes spiffsModes path flags) (world.place path)).1 = true) ∧
      (code ≠ sqliteOk → opened.pMethods = none) ∧
      after.content sdModes spiffsModes = world.released sdModes spiffsModes
        (world.modeFor sdModes spiffsModes path flags) (world.place path) := by
  rcases vfsOpen_place sdModes spiffsModes ready addressable
    (world.modeFor sdModes spiffsModes path flags) with ⟨fd, after, called, isSome, isReleased⟩
  rw [← isSome, ← isReleased]
  simp only [esp8266Open, openMode_modeFor sdModes spiffsModes ready addressable short,
    Option.bind_some, notJournal, ne_eq, not_true_eq_false, if_false, called, Option.map_some]
  cases fd with
  | none =>
      have refused : sqliteCantopen = sqliteOk ↔ (none : Option VfsFile).isSome = true := by
        decide
      exact ⟨_, _, _, rfl, refused, fun _ => rfl, rfl⟩
  | some fd =>
      have accepted : sqliteOk = sqliteOk ↔ (some fd).isSome = true := iff_of_true rfl rfl
      exact ⟨_, _, _, rfl, accepted, fun failed => absurd rfl failed, rfl⟩

variable {allocates file}

theorem addressable_of_esp8266Open {result : Nat × Esp8266File × World sd spiffs}
    (called : esp8266Open world allocates (some path) file flags = some result) :
    Addressable path ∧ (Checks flags → path.length ≤ fsObjNameLen) := by
  rw [esp8266Open, Option.bind_eq_some_iff] at called
  rcases called with ⟨mode, chosen, called⟩
  by_cases checks : Checks flags
  · rcases addressable_of_openMode checks chosen with ⟨addressable, short⟩
    exact ⟨addressable, fun _ => short⟩
  · have notJournal : ¬flags &&& sqliteOpenMainJournal ≠ 0 := fun journal => checks (Or.inr journal)
    rw [if_neg notJournal, Option.map_eq_some_iff] at called
    rcases called with ⟨opened, opens, _⟩
    rw [vfsOpen_eq, Option.bind_eq_some_iff] at opens
    rcases opens with ⟨place, led, _⟩
    exact ⟨addressable_of_leads (leads_of_eq led), fun checked => absurd checked checks⟩

/-! ## Clean opens -/

theorem opensCleanly_of_unchanged {path : Option (List Char)} {code : Nat} {opened : Esp8266File}
    (called : esp8266Open world allocates path file flags = some (code, opened, world))
    (refuses : ∀ name, path = some name → flags &&& sqliteOpenMainJournal = 0 → code ≠ sqliteOk)
    (cleared : code ≠ sqliteOk → opened.pMethods = none) :
    OpensCleanly sdModes spiffsModes world allocates path file flags := by
  refine ⟨code, opened, world, called, fun _ _ held => held, ?_, ?_, cleared⟩
  · rintro ⟨ref, missing, made⟩
    exact absurd missing made
  · intro name isPath _ _ notJournal
    exact refuses name isPath notJournal

theorem opensCleanly_none_iff (world : World sd spiffs) (allocates : Bool) (file : Esp8266File)
    (flags : Nat) :
    OpensCleanly sdModes spiffsModes world allocates none file flags ↔ file.pMethods = none := by
  constructor
  · intro opensCleanly
    rcases opensCleanly with ⟨code, opened, after, called, _, _, _, cleared⟩
    cases called
    exact cleared (by decide)
  · intro noMethods
    apply opensCleanly_of_unchanged sdModes spiffsModes rfl
    · intro name isPath
      cases isPath
    · exact fun _ => noMethods

theorem opensCleanly_of_safe (ready : world.Ready path)
    (safe : SafeToOpen sdModes spiffsModes world (some path) file flags) :
    OpensCleanly sdModes spiffsModes world allocates (some path) file flags := by
  have ⟨addressable, short, _⟩ := safe
  by_cases notJournal : flags &&& sqliteOpenMainJournal = 0
  · rcases esp8266Open_file sdModes spiffsModes allocates file ready addressable short notJournal
      with ⟨code, opened, after, called, isOk, cleared, isReleased⟩
    have keeps := (settled_iff sdModes spiffsModes world fun _ _ held =>
      opening_modeFor sdModes spiffsModes world path flags held).mp (safe.2.2.2 notJournal)
    have unmade := fun cannotCreate : flags &&& sqliteOpenCreate = 0 =>
      opening_of_safe sdModes spiffsModes safe notJournal cannotCreate
    refine ⟨code, opened, after, called, ?_, ?_, ?_, cleared⟩
    · intro ref content held
      rw [isReleased]
      exact keeps ref content held
    · rintro ⟨ref, missing, made⟩ cannotCreate
      apply made
      rw [isReleased, ← Option.isNone_iff_eq_none, ← Option.isSome_eq_false_iff,
        released_isSome, (unmade cannotCreate).1, missing]
      rfl
    · intro name isPath missing cannotCreate _ accepted
      cases isPath
      rw [(unmade cannotCreate).2 missing] at isOk
      exact absurd (isOk.mp accepted) (by decide)
  · rcases esp8266Open_journal allocates file
      (openMode_modeFor sdModes spiffsModes ready addressable short) notJournal with
      ⟨code, opened, called, cleared⟩
    exact opensCleanly_of_unchanged sdModes spiffsModes called
      (fun _ _ isNotJournal => absurd isNotJournal notJournal) cleared

theorem safe_of_opensCleanly (ready : world.Ready path)
    (opensCleanly : OpensCleanly sdModes spiffsModes world allocates (some path) file flags) :
    SafeToOpen sdModes spiffsModes world (some path) file flags := by
  rcases opensCleanly with ⟨code, opened, after, called, kept, made, refused, _⟩
  rcases addressable_of_esp8266Open called with ⟨addressable, short⟩
  have opening := fun notJournal : flags &&& sqliteOpenMainJournal = 0 =>
    esp8266Open_file sdModes spiffsModes allocates file ready addressable short notJournal
  refine ⟨addressable, short, ?_, ?_⟩
  · intro readwrite cannotCreate notJournal missing
    rcases opening notJournal with ⟨code', opened', after', called', isOk, _, isReleased⟩
    rw [called] at called'
    cases called'
    have checks : Checks flags := Or.inl readwrite
    have isNew : world.modeFor sdModes spiffsModes path flags = modeWriteplus := by
      rw [World.modeFor, if_pos checks, missing]
      rfl
    rw [isNew] at isOk isReleased
    apply Prod.ext
    · apply Bool.eq_false_iff.mpr
      intro isOpen
      exact refused path rfl missing cannotCreate notJournal (isOk.mpr isOpen)
    · funext ref
      cases held : world.content sdModes spiffsModes ref with
      | none =>
          refine Eq.trans ?_ held.symm
          by_contra appeared
          refine made ⟨ref, held, ?_⟩ cannotCreate
          rw [isReleased, ← Option.isSome_iff_ne_none, released_isSome]
          exact Option.isSome_iff_ne_none.mpr appeared
      | some content =>
          exact (opening_new sdModes spiffsModes world _ missing held).trans held.symm
  · intro notJournal
    rcases opening notJournal with ⟨code', opened', after', called', _, _, isReleased⟩
    rw [called] at called'
    cases called'
    rw [isReleased] at kept
    exact (settled_iff sdModes spiffsModes world fun _ _ held =>
      opening_modeFor sdModes spiffsModes world path flags held).mpr kept

/-- `esp8266_Open` harms no file and fails cleanly exactly where it is safe. It
makes a missing file also where it may not create one, closes a file that was left in
the file object, and without a path leaves the methods of the structure. -/
theorem opensCleanly_iff {path : Option (List Char)}
    (ready : ∀ name, path = some name → world.Ready name) (allocates : Bool)
    (file : Esp8266File) (flags : Nat) :
    OpensCleanly sdModes spiffsModes world allocates path file flags ↔
      SafeToOpen sdModes spiffsModes world path file flags := by
  cases path with
  | none => exact opensCleanly_none_iff sdModes spiffsModes world allocates file flags
  | some path =>
      exact ⟨safe_of_opensCleanly sdModes spiffsModes (ready path rfl),
        opensCleanly_of_safe sdModes spiffsModes (ready path rfl)⟩

/-- A database that may be created. -/
theorem opensCleanly_iff_create :
    OpensCleanly (memoryStoreOpenModes sdAccess) (memoryStoreOpenModes fopenAccess)
      (memoryWorld fun _ => none) true (some "/SD0/x".toList) ⟨none, none, none, []⟩
      (sqliteOpenReadwrite ||| sqliteOpenCreate) := by
  have ready : ∀ name, some "/SD0/x".toList = some name →
      (memoryWorld fun _ => none).Ready name := by
    rintro _ ⟨⟩ digit isDigit
    obtain rfl : digit = 0 := by
      have isZero : sdIdx "/SD0/x".toList = some 0 := by decide
      rw [isZero] at isDigit
      exact (Option.some.inj isDigit).symm
    simp [memoryWorld]
  apply (opensCleanly_iff _ _ ready _ _ _).mpr
  refine ⟨?_, fun _ => by decide, ?_, fun _ => trivial⟩
  · intro digit _
    decide
  · intro _ cannotCreate
    exact absurd cannotCreate (by decide)

/-- A missing file is made and opened although it may not be created, and without
a path a structure keeps the methods of the file it was used for. -/
theorem not_opensCleanly_readwrite :
    ¬OpensCleanly (memoryStoreOpenModes sdAccess) (memoryStoreOpenModes fopenAccess)
        (memoryWorld fun _ => none) true (some "/SD0/x".toList) ⟨none, none, none, []⟩
        sqliteOpenReadwrite ∧
      ¬OpensCleanly (memoryStoreOpenModes sdAccess) (memoryStoreOpenModes fopenAccess)
        (memoryWorld fun _ => none) true none ⟨some .io, none, none, []⟩
        sqliteOpenReadwrite := by
  constructor
  · intro opensCleanly
    rcases opensCleanly with ⟨code, opened, after, called, _, _, refused, _⟩
    have isOk : (esp8266Open (memoryWorld fun _ => none) true (some "/SD0/x".toList)
        ⟨none, none, none, []⟩ sqliteOpenReadwrite).map Prod.fst = some sqliteOk := by
      decide +kernel
    rw [called, Option.map_some, Option.some.injEq] at isOk
    exact refused "/SD0/x".toList rfl rfl (by decide) (by decide) isOk
  · intro opensCleanly
    rcases opensCleanly with ⟨code, opened, after, called, _, _, _, cleared⟩
    cases called
    cases cleared (by decide)

end EspSqlite.Vfs
