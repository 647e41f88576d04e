import EspSqlite.Foundation.ByteStore
import EspSqlite.Foundation.HeapList

/-! # The two backends and their dispatch

`sdfat_fns.cpp`, `spiffs_fns.cpp` and `vfs.cpp`, over any SdFat and SPIFFS
libraries. A path is the list of its characters before the terminator. A NULL
object and a byte after the terminator have no defined meaning. -/

namespace EspSqlite.Vfs

def vfsResOk : Int := 0

def vfsResErr : Int := -1

def fsObjNameLen : Nat := 50

/-- The flags of `open` in SdFat: `O_READ`, `O_WRITE`, `O_CREAT`, `O_TRUNC` and
`O_AT_END`. -/
structure OpenFlags where
  read : Bool
  write : Bool
  creat : Bool
  trunc : Bool
  atEnd : Bool
  deriving DecidableEq, Repr

def sdAccess (flags : OpenFlags) : Access := ⟨flags.read, flags.write, flags.creat, flags.trunc⟩

def fopenAccess (mode : List Char) : Access :=
  ⟨mode.contains 'r' || mode.contains '+', !mode.contains 'r' || mode.contains '+',
    !mode.contains 'r', mode.contains 'w'⟩

/-- `fs_type` of a `vfs_file`. -/
inductive FsType
  | spiffs
  | fatfs
  deriving DecidableEq, Repr

/-- `vfs_file`, with the address of its file object. -/
structure VfsFile where
  fsType : FsType
  fileObj : Nat
  deriving DecidableEq

variable {sd : FileStore OpenFlags} {spiffs : FileStore (List Char)}

/-- The global variables, the file objects in memory and the state of the
libraries. A SPIFFS file object that is not open is `none`. -/
structure World (sd : FileStore OpenFlags) (spiffs : FileStore (List Char)) where
  sdFats : Nat → Option sd.Volume
  sdFiles : Nat → Option sd.File
  sdState : sd.State
  mallocs : Nat
  spiffsVolume : spiffs.Volume
  spiffsFiles : Nat → Option spiffs.File
  spiffsState : spiffs.State
  filep : Option Nat

def skip (name : List Char) (count : Nat) : Option (List Char) :=
  if count ≤ name.length then some (name.drop count) else none

/-! ## SdFat -/

def sdIdx (name : List Char) : Option Nat :=
  match name[3]? with
  | some digit => if '0' ≤ digit ∧ digit ≤ '9' then some (digit.toNat - '0'.toNat) else none
  | none => none

/-- `vfs_vol`, with its volume object. -/
structure VfsVol (sd : FileStore OpenFlags) where
  fsType : FsType
  volObj : sd.Volume
  num : Int

/-- `sdfat_mount`. `sdFat` is the object of `new SdFat()`, and `begins` what its
`begin(num)` returns. -/
def sdfatMount (world : World sd spiffs) (name : List Char) (num : Int) (sdFat : sd.Volume)
    (begins : Bool) : Option (VfsVol sd) × World sd spiffs :=
  match sdIdx name with
  | none => (none, world)
  | some idx =>
      (if begins then some ⟨.fatfs, sdFat, num⟩ else none,
        { world with sdFats := Function.update world.sdFats idx (some sdFat) })

/-- `imode` of `sdfat_open`. -/
def sdfatMode (mode : List Char) : OpenFlags :=
  let imode : OpenFlags := ⟨false, false, false, false, false⟩
  let imode :=
    if mode.contains 'r' then
      let imode := { imode with read := true }
      if mode.contains '+' then { imode with write := true } else imode
    else imode
  let imode :=
    if mode.contains 'w' then
      let imode := { imode with write := true }
      if mode.contains '+' then { imode with creat := true } else { imode with trunc := true }
    else imode
  if mode.contains 'a' then { imode with atEnd := true, creat := true } else imode

def sdfatOpen (world : World sd spiffs) (name mode : List Char) :
    Option (Option VfsFile × World sd spiffs) :=
  match sdIdx name with
  | none => some (none, world)
  | some idx =>
      (world.sdFats idx).bind fun volume =>
        (skip name 5).map fun path =>
          match sd.openFile world.sdState volume path (sdfatMode mode) with
          | (none, state) => (none, { world with sdState := state })
          | (some file, state) =>
              (some ⟨.fatfs, world.mallocs⟩,
                { world with
                  sdState := state
                  sdFiles := Function.update world.sdFiles world.mallocs (some file)
                  mallocs := world.mallocs + 1 })

def sdfatRemove (world : World sd spiffs) (name : List Char) : Option (Int × World sd spiffs) :=
  match sdIdx name with
  | none => some (vfsResErr, world)
  | some idx =>
      (world.sdFats idx).bind fun volume =>
        (skip name 5).map fun path =>
          match sd.removeFile world.sdState volume path with
          | (removed, state) =>
              (if removed then vfsResOk else vfsResErr, { world with sdState := state })

def sdfatExists (world : World sd spiffs) (name : List Char) : Option Int :=
  match sdIdx name with
  | none => some vfsResErr
  | some idx =>
      (world.sdFats idx).bind fun volume =>
        (skip name 5).map fun path =>
          if sd.fileExists world.sdState volume path then vfsResOk else vfsResErr

/-- `sdfat_close`, which also frees the file object. -/
def sdfatClose (world : World sd spiffs) (fd : VfsFile) : Option (Int × World sd spiffs) :=
  (world.sdFiles fd.fileObj).map fun file =>
    (vfsResOk, { world with
      sdState := sd.close world.sdState file
      sdFiles := Function.update world.sdFiles fd.fileObj none })

def sdfatRead (world : World sd spiffs) (fd : VfsFile) (ptr : Nat → UInt8) (len : Nat) :
    Option (Int × (Nat → UInt8) × World sd spiffs) :=
  (world.sdFiles fd.fileObj).map fun file =>
    match sd.read world.sdState file ptr len with
    | (ret, ptr, file) =>
        (if ret < 0 then vfsResErr else ret, ptr,
          { world with sdFiles := Function.update world.sdFiles fd.fileObj (some file) })

def sdfatWrite (world : World sd spiffs) (fd : VfsFile) (ptr : Nat → UInt8) (len : Nat) :
    Option (Int × World sd spiffs) :=
  (world.sdFiles fd.fileObj).map fun file =>
    match sd.write world.sdState file ptr len with
    | (ret, file, state) =>
        (if ret < 0 then vfsResErr else ret,
          { world with
            sdFiles := Function.update world.sdFiles fd.fileObj (some file)
            sdState := state })

/-- The cases of `switch (whence)`, of which none ends in a `break`. -/
def seekCases : Whence → List Whence
  | .set => [.set, .cur, .fromEnd]
  | .cur => [.cur, .fromEnd]
  | .fromEnd => [.fromEnd]

def seekFirst (sd : FileStore OpenFlags) (state : sd.State) (off : Int) :
    List Whence → sd.File → Int × sd.File
  | [], file => (vfsResErr, file)
  | whence :: rest, file =>
      match sd.seek state file whence off with
      | (true, file) => (off, file)
      | (false, file) => seekFirst sd state off rest file

def sdfatLseek (world : World sd spiffs) (fd : VfsFile) (off : Int) (whence : Whence) :
    Option (Int × World sd spiffs) :=
  (world.sdFiles fd.fileObj).map fun file =>
    match seekFirst sd world.sdState off (seekCases whence) file with
    | (ret, file) =>
        (ret, { world with sdFiles := Function.update world.sdFiles fd.fileObj (some file) })

def sdfatFlush (world : World sd spiffs) (fd : VfsFile) : Option (Int × World sd spiffs) :=
  (world.sdFiles fd.fileObj).map fun file =>
    match sd.flush world.sdState file with
    | (file, state) =>
        (vfsResOk, { world with
          sdFiles := Function.update world.sdFiles fd.fileObj (some file)
          sdState := state })

def sdfatSize (world : World sd spiffs) (fd : VfsFile) : Option Nat :=
  (world.sdFiles fd.fileObj).map (sd.fileSize world.sdState)

/-! ## SPIFFS -/

def setSpiffsFileObj (world : World sd spiffs) (inFilep : Option Nat) : World sd spiffs :=
  { world with filep := inFilep }

/-- `spiffs_open`. The assignment to `*filep` closes the file that the object still
holds, once the other is opened. -/
def spiffsOpen (world : World sd spiffs) (name mode : List Char) :
    Option (Option VfsFile × World sd spiffs) :=
  world.filep.bind fun filep =>
    (skip name 6).map fun path =>
      let opened := spiffs.openFile world.spiffsState world.spiffsVolume path mode
      (opened.1.map fun _ => ⟨.spiffs, filep⟩,
        { world with
          spiffsState := spiffs.release opened.2 (world.spiffsFiles filep)
          spiffsFiles := Function.update world.spiffsFiles filep opened.1 })

def spiffsRemove (world : World sd spiffs) (name : List Char) : Option (Int × World sd spiffs) :=
  (skip name 6).map fun path =>
    match spiffs.removeFile world.spiffsState world.spiffsVolume path with
    | (removed, state) =>
        (if removed then vfsResOk else vfsResErr, { world with spiffsState := state })

def spiffsExists (world : World sd spiffs) (name : List Char) : Option Int :=
  (skip name 6).map fun path =>
    if spiffs.fileExists world.spiffsState world.spiffsVolume path then vfsResOk else vfsResErr

/-- `spiffs_close`, which frees the descriptor alone and leaves the file open. -/
def spiffsClose (world : World sd spiffs) (_ : VfsFile) : Option (Int × World sd spiffs) :=
  some (vfsResOk, world)

def spiffsRead (world : World sd spiffs) (fd : VfsFile) (ptr : Nat → UInt8) (len : Nat) :
    Option (Int × (Nat → UInt8) × World sd spiffs) :=
  (world.spiffsFiles fd.fileObj).map fun file =>
    match spiffs.read world.spiffsState file ptr len with
    | (ret, ptr, file) =>
        (if ret = 0 then vfsResErr else ret, ptr,
          { world with spiffsFiles := Function.update world.spiffsFiles fd.fileObj (some file) })

def spiffsWrite (world : World sd spiffs) (fd : VfsFile) (ptr : Nat → UInt8) (len : Nat) :
    Option (Int × World sd spiffs) :=
  (world.spiffsFiles fd.fileObj).map fun file =>
    match spiffs.write world.spiffsState file ptr len with
    | (ret, file, state) =>
        (if ret = 0 then vfsResErr else ret,
          { world with
            spiffsFiles := Function.update world.spiffsFiles fd.fileObj (some file)
            spiffsState := state })

def spiffsLseek (world : World sd spiffs) (fd : VfsFile) (off : Int) (whence : Whence) :
    Option (Int × World sd spiffs) :=
  (world.spiffsFiles fd.fileObj).map fun file =>
    match spiffs.seek world.spiffsState file whence off with
    | (moved, file) =>
        (if moved then off else vfsResErr,
          { world with spiffsFiles := Function.update world.spiffsFiles fd.fileObj (some file) })

def spiffsFlush (world : World sd spiffs) (fd : VfsFile) : Option (Int × World sd spiffs) :=
  (world.spiffsFiles fd.fileObj).map fun file =>
    match spiffs.flush world.spiffsState file with
    | (file, state) =>
        (vfsResOk, { world with
          spiffsFiles := Function.update world.spiffsFiles fd.fileObj (some file)
          spiffsState := state })

def spiffsSize (world : World sd spiffs) (fd : VfsFile) : Option Nat :=
  (world.spiffsFiles fd.fileObj).map (spiffs.fileSize world.spiffsState)

/-! ## Dispatch -/

def isSd (name : List Char) : Option Bool :=
  if 3 ≤ name.length + 1 then some (name.take 3 == ['/', 'S', 'D']) else none

def vfsMount (world : World sd spiffs) (name : List Char) (num : Int) (sdFat : sd.Volume)
    (begins : Bool) : Option (Option (VfsVol sd) × World sd spiffs) :=
  (isSd name).map fun onSd =>
    if onSd then sdfatMount world name num sdFat begins else (none, world)

def vfsOpen (world : World sd spiffs) (name mode : List Char) :
    Option (Option VfsFile × World sd spiffs) :=
  (isSd name).bind fun onSd =>
    if onSd then sdfatOpen world name mode else spiffsOpen world name mode

def vfsSetSpiffsFileObj (world : World sd spiffs) (inFilep : Option Nat) : World sd spiffs :=
  setSpiffsFileObj world inFilep

/-- `vfs_stat`: the value returned and `buf->name`. -/
def vfsStat (world : World sd spiffs) (name : List Char) : Option (Int × List Char) :=
  if name.length ≤ fsObjNameLen then
    (isSd name).bind fun onSd =>
      (if onSd then sdfatExists world name else spiffsExists world name).map fun rc => (rc, name)
  else
    none

def vfsRemove (world : World sd spiffs) (name : List Char) : Option (Int × World sd spiffs) :=
  (isSd name).bind fun onSd =>
    if onSd then sdfatRemove world name else spiffsRemove world name

def vfsClose (world : World sd spiffs) (fd : VfsFile) : Option (Int × World sd spiffs) :=
  match fd.fsType with
  | .fatfs => sdfatClose world fd
  | .spiffs => spiffsClose world fd

def vfsRead (world : World sd spiffs) (fd : VfsFile) (ptr : Nat → UInt8) (len : Nat) :
    Option (Int × (Nat → UInt8) × World sd spiffs) :=
  match fd.fsType with
  | .fatfs => sdfatRead world fd ptr len
  | .spiffs => spiffsRead world fd ptr len

def vfsWrite (world : World sd spiffs) (fd : VfsFile) (ptr : Nat → UInt8) (len : Nat) :
    Option (Int × World sd spiffs) :=
  match fd.fsType with
  | .fatfs => sdfatWrite world fd ptr len
  | .spiffs => spiffsWrite world fd ptr len

def vfsLseek (world : World sd spiffs) (fd : VfsFile) (off : Int) (whence : Whence) :
    Option (Int × World sd spiffs) :=
  match fd.fsType with
  | .fatfs => sdfatLseek world fd off whence
  | .spiffs => spiffsLseek world fd off whence

def vfsFlush (world : World sd spiffs) (fd : VfsFile) : Option (Int × World sd spiffs) :=
  match fd.fsType with
  | .fatfs => sdfatFlush world fd
  | .spiffs => spiffsFlush world fd

def vfsSize (world : World sd spiffs) (fd : VfsFile) : Option Nat :=
  match fd.fsType with
  | .fatfs => sdfatSize world fd
  | .spiffs => spiffsSize world fd

/-! ## Where a path leads -/

inductive Place (sd : FileStore OpenFlags)
  | sdFat (volume : sd.Volume) (path : List Char)
  | spiffs (path : List Char)

/-- Where a path leads. On the card it leads nowhere without a digit. -/
def World.leadsTo (world : World sd spiffs) (name : List Char) : Option (Option (Place sd)) :=
  (isSd name).bind fun onSd =>
    if onSd then
      match sdIdx name with
      | none => some none
      | some idx =>
          (world.sdFats idx).bind fun volume =>
            (skip name 5).map fun path => some (.sdFat volume path)
    else
      (skip name 6).map fun path => some (.spiffs path)

inductive Leads (world : World sd spiffs) (name : List Char) : Option (Place sd) → Prop
  | nowhere (onSd : isSd name = some true) (noDigit : sdIdx name = none) : Leads world name none
  | sdFat {digit : Nat} {volume : sd.Volume} {path : List Char} (onSd : isSd name = some true)
      (isDigit : sdIdx name = some digit) (mounted : world.sdFats digit = some volume)
      (skipped : skip name 5 = some path) : Leads world name (some (.sdFat volume path))
  | spiffs {path : List Char} (notSd : isSd name = some false)
      (skipped : skip name 6 = some path) : Leads world name (some (.spiffs path))

theorem Leads.eq {world : World sd spiffs} {name : List Char} {place : Option (Place sd)}
    (leads : Leads world name place) : world.leadsTo name = some place := by
  rw [World.leadsTo]
  cases leads with
  | nowhere onSd noDigit => simp only [onSd, noDigit, Option.bind_some, if_true]
  | sdFat onSd isDigit mounted skipped =>
      simp only [onSd, isDigit, mounted, skipped, Option.bind_some, if_true, Option.map_some]
  | spiffs notSd skipped =>
      simp only [notSd, skipped, Option.bind_some, Bool.false_eq_true, if_false, Option.map_some]

theorem leads_of_eq {world : World sd spiffs} {name : List Char} {place : Option (Place sd)}
    (led : world.leadsTo name = some place) : Leads world name place := by
  rw [World.leadsTo, Option.bind_eq_some_iff] at led
  rcases led with ⟨onSd, isOnSd, led⟩
  cases onSd with
  | true =>
      rw [if_pos rfl] at led
      cases isDigit : sdIdx name with
      | none =>
          rw [isDigit, Option.some.injEq] at led
          subst led
          exact .nowhere isOnSd isDigit
      | some digit =>
          simp only [isDigit, Option.bind_eq_some_iff, Option.map_eq_some_iff] at led
          rcases led with ⟨volume, mounted, path, skipped, rfl⟩
          exact .sdFat isOnSd isDigit mounted skipped
  | false =>
      rw [if_neg Bool.false_ne_true, Option.map_eq_some_iff] at led
      rcases led with ⟨path, skipped, rfl⟩
      exact .spiffs isOnSd skipped

def World.openPlace (world : World sd spiffs) (mode : List Char) :
    Option (Place sd) → Option (Option VfsFile × World sd spiffs)
  | none => some (none, world)
  | some (.sdFat volume path) =>
      match sd.openFile world.sdState volume path (sdfatMode mode) with
      | (none, state) => some (none, { world with sdState := state })
      | (some file, state) =>
          some (some ⟨.fatfs, world.mallocs⟩,
            { world with
              sdState := state
              sdFiles := Function.update world.sdFiles world.mallocs (some file)
              mallocs := world.mallocs + 1 })
  | some (.spiffs path) =>
      world.filep.map fun filep =>
        let opened := spiffs.openFile world.spiffsState world.spiffsVolume path mode
        (opened.1.map fun _ => ⟨.spiffs, filep⟩,
          { world with
            spiffsState := spiffs.release opened.2 (world.spiffsFiles filep)
            spiffsFiles := Function.update world.spiffsFiles filep opened.1 })

def World.existsPlace (world : World sd spiffs) : Option (Place sd) → Bool
  | none => false
  | some (.sdFat volume path) => sd.fileExists world.sdState volume path
  | some (.spiffs path) => spiffs.fileExists world.spiffsState world.spiffsVolume path

def World.removePlace (world : World sd spiffs) : Option (Place sd) → Bool × World sd spiffs
  | none => (false, world)
  | some (.sdFat volume path) =>
      let removed := sd.removeFile world.sdState volume path
      (removed.1, { world with sdState := removed.2 })
  | some (.spiffs path) =>
      let removed := spiffs.removeFile world.spiffsState world.spiffsVolume path
      (removed.1, { world with spiffsState := removed.2 })

theorem vfsOpen_eq (world : World sd spiffs) (name mode : List Char) :
    vfsOpen world name mode = (world.leadsTo name).bind (world.openPlace mode) := by
  rw [vfsOpen, World.leadsTo]
  cases isSd name with
  | none => rfl
  | some onSd =>
      cases onSd with
      | true =>
          simp only [Option.bind_some, if_true, sdfatOpen]
          cases sdIdx name with
          | none => rfl
          | some idx =>
              simp only [Option.bind_assoc, Option.bind_map]
              congr 1
              funext volume
              cases skip name 5 with
              | none => rfl
              | some path =>
                  simp only [Option.map_some, Option.bind_some, Function.comp_def,
                    World.openPlace]
                  rcases sd.openFile world.sdState volume path (sdfatMode mode) with
                    ⟨_ | file, state⟩ <;> rfl
      | false =>
          simp only [Option.bind_some, Bool.false_eq_true, if_false, spiffsOpen]
          cases skip name 6 with
          | none => simp only [Option.map_none, Option.bind_fun_none, Option.bind_none]
          | some path =>
              simp only [Option.map_some, Option.bind_some, World.openPlace]
              cases world.filep with
              | none => rfl
              | some filep => rfl

theorem vfsStat_eq (world : World sd spiffs) (name : List Char) :
    vfsStat world name =
      if name.length ≤ fsObjNameLen then
        (world.leadsTo name).map fun place =>
          (if world.existsPlace place then vfsResOk else vfsResErr, name)
      else none := by
  rw [vfsStat, World.leadsTo]
  by_cases fits : name.length ≤ fsObjNameLen
  · rw [if_pos fits, if_pos fits, Option.map_bind]
    congr 1
    funext onSd
    cases onSd with
    | true =>
        simp only [Function.comp_apply, if_true, sdfatExists]
        cases sdIdx name with
        | none => rfl
        | some idx =>
            simp only [Option.map_bind]
            congr 1
            funext volume
            cases skip name 5 <;> rfl
    | false =>
        simp only [Function.comp_apply, Bool.false_eq_true, if_false, spiffsExists, Option.map_map]
        rfl
  · rw [if_neg fits, if_neg fits]

theorem vfsRemove_eq (world : World sd spiffs) (name : List Char) :
    vfsRemove world name =
      (world.leadsTo name).map fun place =>
        (if (world.removePlace place).1 then vfsResOk else vfsResErr,
          (world.removePlace place).2) := by
  rw [vfsRemove, World.leadsTo, Option.map_bind]
  congr 1
  funext onSd
  cases onSd with
  | true =>
      simp only [Function.comp_apply, if_true, sdfatRemove]
      cases sdIdx name with
      | none => rfl
      | some idx =>
          simp only [Option.map_bind]
          congr 1
          funext volume
          cases skip name 5 <;> rfl
  | false =>
      simp only [Function.comp_apply, Bool.false_eq_true, if_false, spiffsRemove, Option.map_map]
      rfl

/-! ## Seeking, reading and writing on each backend -/

section Calls

variable {world : World sd spiffs} {fd : VfsFile}

theorem vfsLseek_sd (onSd : fd.fsType = .fatfs) {file : sd.File}
    (found : world.sdFiles fd.fileObj = some file) (off : Int) (whence : Whence) :
    ∃ sought, vfsLseek world fd off whence =
        some ((seekFirst sd world.sdState off (seekCases whence) file).1, sought) ∧
      sought.sdFiles fd.fileObj =
        some (seekFirst sd world.sdState off (seekCases whence) file).2 ∧
      sought.sdState = world.sdState := by
  refine ⟨{ world with
    sdFiles := Function.update world.sdFiles fd.fileObj
      (some (seekFirst sd world.sdState off (seekCases whence) file).2) }, ?_,
    Function.update_self _ _ _, rfl⟩
  simp only [vfsLseek, onSd, sdfatLseek, found, Option.map_some]

theorem vfsLseek_spiffs (onSpiffs : fd.fsType = .spiffs) {file : spiffs.File}
    (found : world.spiffsFiles fd.fileObj = some file) (off : Int) (whence : Whence) :
    ∃ sought, vfsLseek world fd off whence =
        some (if (spiffs.seek world.spiffsState file whence off).1 then off else vfsResErr,
          sought) ∧
      sought.spiffsFiles fd.fileObj = some (spiffs.seek world.spiffsState file whence off).2 ∧
      sought.spiffsState = world.spiffsState := by
  refine ⟨{ world with
    spiffsFiles := Function.update world.spiffsFiles fd.fileObj
      (some (spiffs.seek world.spiffsState file whence off).2) }, ?_,
    Function.update_self _ _ _, rfl⟩
  simp only [vfsLseek, onSpiffs, spiffsLseek, found, Option.map_some]

theorem vfsRead_sd (onSd : fd.fsType = .fatfs) {file : sd.File}
    (found : world.sdFiles fd.fileObj = some file) (ptr : Nat → UInt8) (len : Nat) :
    ∃ after, vfsRead world fd ptr len =
        some (if (sd.read world.sdState file ptr len).1 < 0 then vfsResErr
            else (sd.read world.sdState file ptr len).1,
          (sd.read world.sdState file ptr len).2.1, after) ∧
      after.sdFiles fd.fileObj = some (sd.read world.sdState file ptr len).2.2 ∧
      after.sdState = world.sdState := by
  refine ⟨{ world with
    sdFiles := Function.update world.sdFiles fd.fileObj
      (some (sd.read world.sdState file ptr len).2.2) },
    ?_, Function.update_self _ _ _, rfl⟩
  simp only [vfsRead, onSd, sdfatRead, found, Option.map_some]

theorem vfsRead_spiffs (onSpiffs : fd.fsType = .spiffs) {file : spiffs.File}
    (found : world.spiffsFiles fd.fileObj = some file) (ptr : Nat → UInt8) (len : Nat) :
    ∃ after, vfsRead world fd ptr len =
        some (if (spiffs.read world.spiffsState file ptr len).1 = 0 then vfsResErr
            else (spiffs.read world.spiffsState file ptr len).1,
          (spiffs.read world.spiffsState file ptr len).2.1, after) ∧
      after.spiffsFiles fd.fileObj = some (spiffs.read world.spiffsState file ptr len).2.2 ∧
      after.spiffsState = world.spiffsState := by
  refine ⟨{ world with
    spiffsFiles := Function.update world.spiffsFiles fd.fileObj
      (some (spiffs.read world.spiffsState file ptr len).2.2) }, ?_,
    Function.update_self _ _ _, rfl⟩
  simp only [vfsRead, onSpiffs, spiffsRead, found, Option.map_some]

theorem vfsWrite_sd (onSd : fd.fsType = .fatfs) {file : sd.File}
    (found : world.sdFiles fd.fileObj = some file) (ptr : Nat → UInt8) (len : Nat) :
    ∃ after, vfsWrite world fd ptr len =
        some (if (sd.write world.sdState file ptr len).1 < 0 then vfsResErr
            else (sd.write world.sdState file ptr len).1, after) ∧
      after.sdFiles fd.fileObj = some (sd.write world.sdState file ptr len).2.1 ∧
      after.sdState = (sd.write world.sdState file ptr len).2.2 := by
  refine ⟨{ world with
    sdFiles := Function.update world.sdFiles fd.fileObj
      (some (sd.write world.sdState file ptr len).2.1)
    sdState := (sd.write world.sdState file ptr len).2.2 }, ?_,
    Function.update_self _ _ _, rfl⟩
  simp only [vfsWrite, onSd, sdfatWrite, found, Option.map_some]

theorem vfsWrite_spiffs (onSpiffs : fd.fsType = .spiffs) {file : spiffs.File}
    (found : world.spiffsFiles fd.fileObj = some file) (ptr : Nat → UInt8) (len : Nat) :
    ∃ after, vfsWrite world fd ptr len =
        some (if (spiffs.write world.spiffsState file ptr len).1 = 0 then vfsResErr
            else (spiffs.write world.spiffsState file ptr len).1, after) ∧
      after.spiffsFiles fd.fileObj = some (spiffs.write world.spiffsState file ptr len).2.1 ∧
      after.spiffsState = (spiffs.write world.spiffsState file ptr len).2.2 := by
  refine ⟨{ world with
    spiffsFiles := Function.update world.spiffsFiles fd.fileObj
      (some (spiffs.write world.spiffsState file ptr len).2.1)
    spiffsState := (spiffs.write world.spiffsState file ptr len).2.2 }, ?_,
    Function.update_self _ _ _, rfl⟩
  simp only [vfsWrite, onSpiffs, spiffsWrite, found, Option.map_some]

end Calls

end EspSqlite.Vfs
