import EspSqlite.Vfs.Database

/-! # Reading a database file back

Over backends whose files are arrays of bytes, what a database file returns
after it was opened for reading and writing. -/

namespace EspSqlite.Vfs

variable {sd : FileStore OpenFlags} {spiffs : FileStore (List Char)}
  (sdArrays : sd.ByteArrays sdAccess) (spiffsArrays : spiffs.ByteArrays fopenAccess)

def World.handle (world : World sd spiffs) (fd : VfsFile) : Option Handle :=
  match fd.fsType with
  | .fatfs => (world.sdFiles fd.fileObj).map (sdArrays.handle world.sdState)
  | .spiffs => (world.spiffsFiles fd.fileObj).map (spiffsArrays.handle world.spiffsState)

def World.fileAt (world : World sd spiffs) (name : List Char) : Option ByteFile :=
  (isSd name).bind fun onSd =>
    if onSd then
      (sdIdx name).bind fun idx =>
        (world.sdFats idx).bind fun volume =>
          (skip name 5).bind fun path => sdArrays.contents world.sdState volume path
    else
      (skip name 6).bind fun path =>
        spiffsArrays.contents world.spiffsState world.spiffsVolume path

/-! ## The file system layer -/

section Layer

variable {world : World sd spiffs} {fd : VfsFile} {handle : Handle}

theorem vfsLseek_set (held : world.handle sdArrays spiffsArrays fd = some handle) {position : Nat}
    (inside : position ≤ handle.file.size) :
    ∃ world', vfsLseek world fd position .set = some (↑position, world') ∧
      world'.handle sdArrays spiffsArrays fd = some { handle with position := position } := by
  rw [World.handle] at held
  cases fsType : fd.fsType with
  | fatfs =>
      simp only [fsType, Option.map_eq_some_iff] at held
      rcases held with ⟨file, found, rfl⟩
      rcases sdArrays.seek_ok world.sdState file .set position (Int.natCast_nonneg position)
        (by simpa [Handle.target] using inside) with ⟨file', moved, seen⟩
      rcases vfsLseek_sd fsType found position .set with ⟨sought, seeks, placed, sameState⟩
      have first : seekFirst sd world.sdState position (seekCases .set) file =
          (↑position, file') := by
        simp only [seekCases, seekFirst, moved]
      rw [first] at seeks placed
      refine ⟨sought, seeks, ?_⟩
      simp only [World.handle, fsType, placed, sameState, Option.map_some, seen]
      rfl
  | spiffs =>
      simp only [fsType, Option.map_eq_some_iff] at held
      rcases held with ⟨file, found, rfl⟩
      rcases spiffsArrays.seek_ok world.spiffsState file .set position (Int.natCast_nonneg position)
        (by simpa [Handle.target] using inside) with ⟨file', moved, seen⟩
      rcases vfsLseek_spiffs fsType found position .set with ⟨sought, seeks, placed, sameState⟩
      rw [moved] at seeks placed
      refine ⟨sought, seeks, ?_⟩
      simp only [World.handle, fsType, placed, sameState, Option.map_some, seen]
      rfl

theorem vfsRead_inside (held : world.handle sdArrays spiffsArrays fd = some handle)
    (readable : handle.readable = true) (ptr : Nat → UInt8) {len : Nat} (nonempty : 0 < len)
    (inside : handle.position + len ≤ handle.file.size) :
    ∃ world', vfsRead world fd ptr len =
        some (↑len, handle.file.read handle.position len ptr, world') ∧
      world'.handle sdArrays spiffsArrays fd =
        some { handle with position := handle.position + len } := by
  rw [World.handle] at held
  have all : min len (handle.file.size - handle.position) = len := by omega
  cases fsType : fd.fsType with
  | fatfs =>
      simp only [fsType, Option.map_eq_some_iff] at held
      rcases held with ⟨file, found, rfl⟩
      rcases sdArrays.read_ok world.sdState file ptr len readable with ⟨file', result, seen⟩
      rcases vfsRead_sd fsType found ptr len with ⟨after, isRead, placed, sameState⟩
      have notNegative : ¬(len : Int) < 0 := by omega
      rw [all] at result seen
      rw [result, if_neg notNegative] at isRead
      rw [result] at placed
      refine ⟨after, isRead, ?_⟩
      simp only [World.handle, fsType, placed, sameState, Option.map_some, seen]
  | spiffs =>
      simp only [fsType, Option.map_eq_some_iff] at held
      rcases held with ⟨file, found, rfl⟩
      rcases spiffsArrays.read_ok world.spiffsState file ptr len readable with ⟨file', result, seen⟩
      rcases vfsRead_spiffs fsType found ptr len with ⟨after, isRead, placed, sameState⟩
      have notZero : ¬(len : Int) = 0 := by omega
      rw [all] at result seen
      rw [result, if_neg notZero] at isRead
      rw [result] at placed
      refine ⟨after, isRead, ?_⟩
      simp only [World.handle, fsType, placed, sameState, Option.map_some, seen]

theorem vfsRead_refused (held : world.handle sdArrays spiffsArrays fd = some handle)
    (refused : handle.readable = false) (ptr : Nat → UInt8) (len : Nat) :
    (vfsRead world fd ptr len).map Prod.fst = some vfsResErr := by
  rw [World.handle] at held
  cases fsType : fd.fsType with
  | fatfs =>
      simp only [fsType, Option.map_eq_some_iff] at held
      rcases held with ⟨file, found, rfl⟩
      rcases vfsRead_sd fsType found ptr len with ⟨after, isRead, _⟩
      rw [isRead, Option.map_some, sdArrays.read_refused world.sdState file ptr len refused]
      rfl
  | spiffs =>
      simp only [fsType, Option.map_eq_some_iff] at held
      rcases held with ⟨file, found, rfl⟩
      rcases vfsRead_spiffs fsType found ptr len with ⟨after, isRead, _⟩
      rw [isRead, Option.map_some, spiffsArrays.read_refused world.spiffsState file ptr len refused]
      rfl

theorem vfsWrite_all (held : world.handle sdArrays spiffsArrays fd = some handle)
    (writable : handle.writable = true) (ptr : Nat → UInt8) {len : Nat} (nonempty : 0 < len) :
    ∃ world', vfsWrite world fd ptr len = some (↑len, world') ∧
      world'.handle sdArrays spiffsArrays fd = some { handle with
        file := handle.file.write handle.position len ptr
        position := handle.position + len } := by
  rw [World.handle] at held
  cases fsType : fd.fsType with
  | fatfs =>
      simp only [fsType, Option.map_eq_some_iff] at held
      rcases held with ⟨file, found, rfl⟩
      rcases sdArrays.write_ok world.sdState file ptr len writable with
        ⟨file', state', result, seen⟩
      rcases vfsWrite_sd fsType found ptr len with ⟨after, isWritten, placed, isState⟩
      have notNegative : ¬(len : Int) < 0 := by omega
      rw [result, if_neg notNegative] at isWritten
      rw [result] at placed isState
      refine ⟨after, isWritten, ?_⟩
      simp only [World.handle, fsType, placed, isState, Option.map_some, seen]
  | spiffs =>
      simp only [fsType, Option.map_eq_some_iff] at held
      rcases held with ⟨file, found, rfl⟩
      rcases spiffsArrays.write_ok world.spiffsState file ptr len writable with
        ⟨file', state', result, seen⟩
      rcases vfsWrite_spiffs fsType found ptr len with ⟨after, isWritten, placed, isState⟩
      have notZero : ¬(len : Int) = 0 := by omega
      rw [result, if_neg notZero] at isWritten
      rw [result] at placed isState
      refine ⟨after, isWritten, ?_⟩
      simp only [World.handle, fsType, placed, isState, Option.map_some, seen]

end Layer

/-! ## The file methods -/

section Methods

variable {world : World sd spiffs} {file : Esp8266File} {fd : VfsFile} {handle : Handle}

theorem toSizeT_natCast {value : Nat} (small : value < 2 ^ 31) : toSizeT value = value := by
  rw [toSizeT]
  omega

theorem esp8266Read_masked (isOpen : file.fd = some fd)
    (held : world.handle sdArrays spiffsArrays fd = some handle)
    (readable : handle.readable = true) (buffer : Nat → UInt8) {amount offset : Nat}
    (nonempty : 0 < amount) (small : amount < 2 ^ 31)
    (inside : (offset &&& 0x7FFFFFFF) + amount ≤ handle.file.size) :
    ∃ world', esp8266Read world file buffer amount offset =
        some (sqliteOk, handle.file.read (offset &&& 0x7FFFFFFF) amount buffer, world') ∧
      world'.handle sdArrays spiffsArrays fd =
        some { handle with position := (offset &&& 0x7FFFFFFF) + amount } := by
  rcases vfsLseek_set sdArrays spiffsArrays held (Nat.le_of_add_right_le inside) with
    ⟨sought, moved, heldSought⟩
  rcases vfsRead_inside sdArrays spiffsArrays heldSought readable buffer nonempty inside with
    ⟨world', result, held'⟩
  refine ⟨world', ?_, held'⟩
  simp only [esp8266Read, isOpen, Option.bind_some, moved, ne_eq, not_true, if_false, result,
    Option.map_some, toSizeT_natCast small, if_true]

theorem esp8266Read_refused (isOpen : file.fd = some fd)
    (held : world.handle sdArrays spiffsArrays fd = some handle)
    (refused : handle.readable = false) (buffer : Nat → UInt8) {amount offset : Nat}
    (small : amount < 2 ^ 31) (inside : (offset &&& 0x7FFFFFFF) ≤ handle.file.size)
    {result : Nat × (Nat → UInt8) × World sd spiffs}
    (returned : esp8266Read world file buffer amount offset = some result) :
    result.1 = sqliteIoerrShortRead := by
  rcases vfsLseek_set sdArrays spiffsArrays held inside with ⟨sought, moved, heldSought⟩
  have negative := vfsRead_refused sdArrays spiffsArrays heldSought refused buffer amount
  simp only [esp8266Read, isOpen, Option.bind_some, moved, ne_eq, not_true, if_false] at returned
  rw [Option.map_eq_some_iff] at negative returned
  rcases negative with ⟨read, isRead, isNegative⟩
  rcases returned with ⟨read', isRead', rfl⟩
  obtain rfl : read = read' := Option.some.inj (isRead.symm.trans isRead')
  have notAmount : ¬toSizeT read.1 = amount := by
    rw [isNegative]
    simp only [toSizeT, vfsResErr]
    omega
  simp only [if_neg notAmount, ge_iff_le, Nat.zero_le, if_true]

theorem esp8266Write_all (isOpen : file.fd = some fd)
    (held : world.handle sdArrays spiffsArrays fd = some handle)
    (writable : handle.writable = true) (buffer : Nat → UInt8) {amount offset : Nat}
    (nonempty : 0 < amount) (inside : offset ≤ handle.file.size)
    (small : offset + amount < 2 ^ 31) :
    ∃ world', esp8266Write world file buffer amount offset = some (sqliteOk, world') ∧
      world'.handle sdArrays spiffsArrays fd = some { handle with
        file := handle.file.write offset amount buffer
        position := offset + amount } := by
  have masked : offset &&& 0x7FFFFFFF = offset := Journal.masked_eq_of_lt (by omega)
  rcases vfsLseek_set sdArrays spiffsArrays held inside with ⟨sought, moved, heldSought⟩
  rcases vfsWrite_all sdArrays spiffsArrays heldSought writable buffer nonempty with
    ⟨world', result, held'⟩
  have small : amount < 2 ^ 31 := by omega
  refine ⟨world', ?_, held'⟩
  simp only [esp8266Write, isOpen, Option.bind_some, masked, moved, ne_eq, not_true, if_false,
    result, Option.map_some, toSizeT_natCast small]

end Methods

/-! ## Opening -/

def World.initial (world : World sd spiffs) (name : List Char) : ByteFile :=
  (world.fileAt sdArrays spiffsArrays name).getD ByteFile.empty

def databaseFlags : Nat := sqliteOpenMainDb ||| sqliteOpenReadwrite ||| sqliteOpenCreate

section Open

variable {world world' : World sd spiffs} {name : List Char}

theorem existsPlace_eq_fileAt {place : Option (Place sd)} (leads : Leads world name place) :
    world.existsPlace place = (world.fileAt sdArrays spiffsArrays name).isSome := by
  rw [World.fileAt]
  cases leads with
  | nowhere onSd noDigit => simp [World.existsPlace, onSd, noDigit]
  | sdFat onSd isDigit mounted skipped =>
      simp [World.existsPlace, onSd, isDigit, mounted, skipped, sdArrays.fileExists_eq]
  | spiffs notSd skipped =>
      simp [World.existsPlace, notSd, skipped, spiffsArrays.fileExists_eq]

theorem openMode_eq {mode : List Char} (chosen : openMode world name databaseFlags = some mode) :
    mode = if (world.fileAt sdArrays spiffsArrays name).isSome then modeReadplus
      else modeWriteplus := by
  have flagged : databaseFlags &&& sqliteOpenReadwrite ≠ 0 ∨
      databaseFlags &&& sqliteOpenMainJournal ≠ 0 := by decide
  rw [openMode, if_pos flagged, esp8266Access, vfsStat_eq] at chosen
  split at chosen
  · simp only [Option.map_map, Option.map_eq_some_iff] at chosen
    rcases chosen with ⟨place, led, rfl⟩
    rw [← existsPlace_eq_fileAt sdArrays spiffsArrays (leads_of_eq led)]
    cases found : world.existsPlace place <;> simp [found, vfsResOk, vfsResErr]
  · cases chosen

theorem vfsOpen_handle {mode : List Char} {fd : VfsFile}
    (isMode : mode = if (world.fileAt sdArrays spiffsArrays name).isSome then modeReadplus
      else modeWriteplus)
    (opened : vfsOpen world name mode = some (some fd, world')) :
    ∃ handle, world'.handle sdArrays spiffsArrays fd = some handle ∧
      handle.file = world.initial sdArrays spiffsArrays name ∧ handle.writable = true ∧
      handle.readable =
        (isSd name != some true || (world.fileAt sdArrays spiffsArrays name).isSome) := by
  rw [World.initial]
  rw [vfsOpen_eq, Option.bind_eq_some_iff] at opened
  rcases opened with ⟨place, led, opened⟩
  cases leads_of_eq led with
  | nowhere onSd noDigit => cases opened
  | @sdFat digit volume path onSd isDigit mounted skipped =>
      have isContents : world.fileAt sdArrays spiffsArrays name =
          sdArrays.contents world.sdState volume path := by
        simp [World.fileAt, onSd, isDigit, mounted, skipped]
      rw [isContents] at isMode ⊢
      rw [World.openPlace] at opened
      rcases result : sd.openFile world.sdState volume path (sdfatMode mode) with
        ⟨_ | file, state⟩
      · rw [result, Option.some.injEq, Prod.mk.injEq] at opened
        cases opened.1
      · rw [result, Option.some.injEq, Prod.mk.injEq, Option.some.injEq] at opened
        rcases opened with ⟨rfl, rfl⟩
        have keeps : (sdArrays.contents world.sdState volume path).isSome = true →
            (sdAccess (sdfatMode mode)).trunc = false := by
          intro present
          rw [isMode, if_pos present]
          rfl
        rcases sdArrays.open_handle result keeps with ⟨isContent, reads, writes⟩
        refine ⟨sdArrays.handle state file, ?_, isContent, ?_, ?_⟩
        · simp only [World.handle, Function.update_self, Option.map_some]
        · rw [writes, isMode]
          cases (sdArrays.contents world.sdState volume path).isSome <;> rfl
        · rw [reads, isMode, onSd]
          cases (sdArrays.contents world.sdState volume path).isSome <;> rfl
  | @spiffs path notSd skipped =>
      have isContents : world.fileAt sdArrays spiffsArrays name =
          spiffsArrays.contents world.spiffsState world.spiffsVolume path := by
        simp [World.fileAt, notSd, skipped]
      rw [isContents] at isMode ⊢
      rw [World.openPlace, Option.map_eq_some_iff] at opened
      rcases opened with ⟨filep, registered, opened⟩
      rcases result : spiffs.openFile world.spiffsState world.spiffsVolume path mode with
        ⟨_ | file, state⟩
      · rw [result, Prod.mk.injEq] at opened
        cases opened.1
      · rw [result, Prod.mk.injEq, Option.map_some, Option.some.injEq] at opened
        rcases opened with ⟨rfl, rfl⟩
        have keeps : (spiffsArrays.contents world.spiffsState world.spiffsVolume path).isSome =
            true → (fopenAccess mode).trunc = false := by
          intro present
          rw [isMode, if_pos present]
          rfl
        rcases spiffsArrays.open_handle result keeps with ⟨isContent, reads, writes⟩
        refine ⟨spiffsArrays.handle state file, ?_, isContent, ?_, ?_⟩
        · simp only [World.handle, Function.update_self, Option.map_some,
            spiffsArrays.release_handle]
        · rw [writes, isMode]
          cases (spiffsArrays.contents world.spiffsState world.spiffsVolume path).isSome <;> rfl
        · rw [reads, isMode, notSd]
          cases (spiffsArrays.contents world.spiffsState world.spiffsVolume path).isSome <;> rfl

theorem esp8266Open_handle {allocates : Bool} {previous file : Esp8266File}
    (opened : esp8266Open world allocates (some name) previous databaseFlags =
      some (sqliteOk, file, world')) :
    ∃ fd handle, file.fd = some fd ∧ world'.handle sdArrays spiffsArrays fd = some handle ∧
      handle.file = world.initial sdArrays spiffsArrays name ∧ handle.writable = true ∧
      handle.readable =
        (isSd name != some true || (world.fileAt sdArrays spiffsArrays name).isSome) := by
  have notJournal : ¬databaseFlags &&& sqliteOpenMainJournal ≠ 0 := by decide
  simp only [esp8266Open, if_neg notJournal, Option.bind_eq_some_iff,
    Option.map_eq_some_iff] at opened
  rcases opened with ⟨mode, chosen, ⟨_ | fd, after⟩, vfsOpened, result⟩
  · rw [Prod.mk.injEq] at result
    cases result.1
  · rw [Prod.mk.injEq, Prod.mk.injEq] at result
    rcases result with ⟨_, rfl, rfl⟩
    rcases vfsOpen_handle sdArrays spiffsArrays (openMode_eq sdArrays spiffsArrays chosen)
      vfsOpened with ⟨handle, held, properties⟩
    exact ⟨fd, handle, rfl, held, properties⟩

end Open

/-! ## Runs of reads and writes -/

inductive DbCall
  | read (buffer : Nat → UInt8) (amount offset : Nat)
  | write (buffer : Nat → UInt8) (amount offset : Nat)

/-- Reads lie inside the file, writes start inside it or at its end. -/
def ValidCalls : (size : Nat) → List DbCall → Prop
  | _, [] => True
  | size, .read _ amount offset :: rest =>
      0 < amount ∧ amount < 2 ^ 31 ∧ offset + amount ≤ size ∧ ValidCalls size rest
  | size, .write _ amount offset :: rest =>
      0 < amount ∧ offset ≤ size ∧ offset + amount < 2 ^ 31 ∧
        ValidCalls (max size (offset + amount)) rest

/-- Every call returns `SQLITE_OK`, and every read the bytes of the file. -/
def CallsReadBack (file : Esp8266File) : World sd spiffs → ByteFile → List DbCall → Prop
  | _, _, [] => True
  | world, content, .read buffer amount offset :: rest =>
      ∃ result world', esp8266Read world file buffer amount offset =
          some (sqliteOk, result, world') ∧
        (∀ index < amount, result index = content.byte (offset + index)) ∧
        CallsReadBack file world' content rest
  | world, content, .write buffer amount offset :: rest =>
      ∃ world', esp8266Write world file buffer amount offset = some (sqliteOk, world') ∧
        CallsReadBack file world' (content.write offset amount buffer) rest

section Runs

variable {file : Esp8266File} {fd : VfsFile}

theorem callsReadBack_of_readable (isOpen : file.fd = some fd) :
    ∀ {calls : List DbCall} {world : World sd spiffs} {handle : Handle},
    world.handle sdArrays spiffsArrays fd = some handle → handle.readable = true →
    handle.writable = true → handle.file.size ≤ 2 ^ 31 → ValidCalls handle.file.size calls →
    CallsReadBack file world handle.file calls
  | [], _, _, _, _, _, _, _ => trivial
  | .read buffer amount offset :: rest, world, handle, held, readable, writable, small, valid => by
      rcases valid with ⟨nonempty, amountSmall, inside, validRest⟩
      have masked : offset &&& 0x7FFFFFFF = offset := Journal.masked_eq_of_lt (by omega)
      rcases esp8266Read_masked sdArrays spiffsArrays isOpen held readable buffer nonempty
        amountSmall (by rwa [masked]) with ⟨world', result, held'⟩
      rw [masked] at result
      have later := callsReadBack_of_readable isOpen held' readable writable small validRest
      exact ⟨_, world', result, fun index inRange => ByteFile.read_inside inRange, later⟩
  | .write buffer amount offset :: rest, world, handle, held, readable, writable, small, valid => by
      rcases valid with ⟨nonempty, inside, bounded, validRest⟩
      rcases esp8266Write_all sdArrays spiffsArrays isOpen held writable buffer nonempty inside
        bounded with ⟨world', result, held'⟩
      have later := callsReadBack_of_readable isOpen held' readable writable
        (Nat.max_le.mpr ⟨small, Nat.le_of_lt bounded⟩) validRest
      exact ⟨world', result, later⟩

theorem readable_of_callsReadBack (isOpen : file.fd = some fd) {world : World sd spiffs}
    {handle : Handle} (held : world.handle sdArrays spiffsArrays fd = some handle)
    (writable : handle.writable = true)
    (readsBack : ∀ calls, ValidCalls handle.file.size calls →
      CallsReadBack file world handle.file calls) : handle.readable = true := by
  by_contra refused
  rw [Bool.not_eq_true] at refused
  have valid : ValidCalls handle.file.size
      [.write (fun _ => 0) 1 0, .read (fun _ => 0) 1 0] :=
    ⟨Nat.one_pos, Nat.zero_le _, by decide, Nat.one_pos, by decide, Nat.le_max_right _ _, trivial⟩
  rcases readsBack _ valid with ⟨world', written, _, _, read, _⟩
  rcases esp8266Write_all sdArrays spiffsArrays isOpen held writable (fun _ => 0) Nat.one_pos
    (Nat.zero_le _) (by decide) with ⟨world'', written', held'⟩
  obtain rfl : world' = world'' := by
    rw [written, Option.some.injEq, Prod.mk.injEq] at written'
    exact written'.2
  have short : sqliteOk = sqliteIoerrShortRead :=
    esp8266Read_refused sdArrays spiffsArrays isOpen held' refused (fun _ => 0) (by decide)
      (Nat.zero_le _) read
  exact absurd short (by decide)

/-- A byte beyond 2 GiB is not read back after a write to its masked offset. -/
theorem size_le_of_callsReadBack (isOpen : file.fd = some fd) {world : World sd spiffs}
    {handle : Handle} (held : world.handle sdArrays spiffsArrays fd = some handle)
    (readable : handle.readable = true) (writable : handle.writable = true)
    (readsBack : ∀ calls, ValidCalls handle.file.size calls →
      CallsReadBack file world handle.file calls) : handle.file.size ≤ 2 ^ 31 := by
  by_contra large
  let other := handle.file.byte (2 ^ 31) + 1
  have valid : ValidCalls handle.file.size
      [.write (fun _ => other) 1 0, .read (fun _ => 0) 1 (2 ^ 31)] :=
    ⟨Nat.one_pos, Nat.zero_le _, by decide, Nat.one_pos, by decide, by omega, trivial⟩
  rcases readsBack _ valid with ⟨world', written, _, _, read, same, _⟩
  rcases esp8266Write_all sdArrays spiffsArrays isOpen held writable (fun _ => other) Nat.one_pos
    (Nat.zero_le _) (by decide) with ⟨world'', written', held'⟩
  obtain rfl : world' = world'' := by
    rw [written, Option.some.injEq, Prod.mk.injEq] at written'
    exact written'.2
  have masked : 2 ^ 31 &&& 0x7FFFFFFF = 0 := by decide
  have inside : (2 ^ 31 &&& 0x7FFFFFFF) + 1 ≤ max handle.file.size (0 + 1) := by
    rw [masked]
    exact Nat.le_max_right _ _
  rcases esp8266Read_masked sdArrays spiffsArrays isOpen held' readable (fun _ => 0)
    Nat.one_pos (by decide) inside with ⟨_, read', _⟩
  rw [read, Option.some.injEq, Prod.mk.injEq, Prod.mk.injEq, masked] at read'
  have stored : (handle.file.write 0 1 fun _ => other).byte (0 + 0) = other :=
    ByteFile.write_inside Nat.one_pos
  have kept : (handle.file.write 0 1 fun _ => other).byte (2 ^ 31 + 0) =
      handle.file.byte (2 ^ 31) :=
    ByteFile.write_outside (by omega)
  have here := same 0 Nat.one_pos
  rw [read'.2.1, ByteFile.read_inside Nat.one_pos, stored, kept] at here
  exact absurd here (by simp [other])

end Runs

/-- A database file that was opened for reading and writing reads back exactly
when it is not a new file on an SD card and is no larger than 2 GiB. -/
theorem callsReadBack_iff_existed {world world' : World sd spiffs} {name : List Char}
    {allocates : Bool} {previous file : Esp8266File}
    (opened : esp8266Open world allocates (some name) previous databaseFlags =
      some (sqliteOk, file, world')) :
    (∀ calls, ValidCalls (world.initial sdArrays spiffsArrays name).size calls →
      CallsReadBack file world' (world.initial sdArrays spiffsArrays name) calls) ↔
      (isSd name = some true → (world.fileAt sdArrays spiffsArrays name).isSome = true) ∧
        (world.initial sdArrays spiffsArrays name).size ≤ 2 ^ 31 := by
  rcases esp8266Open_handle sdArrays spiffsArrays opened with
    ⟨fd, handle, isOpen, held, isInitial, writable, readable⟩
  rw [← isInitial]
  have readable_iff : handle.readable = true ↔
      (isSd name = some true → (world.fileAt sdArrays spiffsArrays name).isSome = true) := by
    rw [readable, Bool.or_eq_true, bne_iff_ne, ne_eq, imp_iff_not_or]
  rw [← readable_iff]
  constructor
  · intro readsBack
    have reads := readable_of_callsReadBack sdArrays spiffsArrays isOpen held writable readsBack
    exact ⟨reads, size_le_of_callsReadBack sdArrays spiffsArrays isOpen held reads writable
      readsBack⟩
  · intro condition calls valid
    rcases condition with ⟨reads, small⟩
    exact callsReadBack_of_readable sdArrays spiffsArrays isOpen held reads writable small valid

def memoryWorld (sdState : List Char → Option ByteFile) :
    World (memoryStore sdAccess) (memoryStore fopenAccess) where
  sdFats idx := if idx = 0 then some () else none
  sdFiles _ := none
  sdState := sdState
  mallocs := 0
  spiffsVolume := ()
  spiffsFiles _ := none
  spiffsState _ := none
  filep := some 0

/-- Three bytes that are on the card already. -/
theorem callsReadBack_iff_existed_sd :
    ∃ file world', esp8266Open (memoryWorld fun _ => some ⟨3, fun _ => 5⟩) true
        (some ['/', 'S', 'D', '0', '/', 'x']) ⟨none, none, none, []⟩ databaseFlags =
        some (sqliteOk, file, world') ∧
      ∀ calls, ValidCalls 3 calls → CallsReadBack file world' ⟨3, fun _ => 5⟩ calls := by
  have isOk : (esp8266Open (memoryWorld fun _ => some ⟨3, fun _ => 5⟩) true
      (some ['/', 'S', 'D', '0', '/', 'x']) ⟨none, none, none, []⟩ databaseFlags).map Prod.fst =
      some sqliteOk := by decide +kernel
  rcases Option.map_eq_some_iff.mp isOk with ⟨⟨_, file, world'⟩, opened, rfl⟩
  exact ⟨file, world', opened, (callsReadBack_iff_existed (memoryStoreArrays sdAccess)
    (memoryStoreArrays fopenAccess) opened).mpr ⟨fun _ => rfl, by decide⟩⟩

/-- A new file on an SD card: the byte that was written cannot be read. -/
theorem not_callsReadBack_new_sd :
    ¬∀ file world', esp8266Open (memoryWorld fun _ => none) true
        (some ['/', 'S', 'D', '0', '/', 'x']) ⟨none, none, none, []⟩ databaseFlags =
        some (sqliteOk, file, world') →
      ∀ calls, ValidCalls 0 calls → CallsReadBack file world' ByteFile.empty calls := by
  intro readsBack
  have isOk : (esp8266Open (memoryWorld fun _ => none) true
      (some ['/', 'S', 'D', '0', '/', 'x']) ⟨none, none, none, []⟩ databaseFlags).map Prod.fst =
      some sqliteOk := by decide +kernel
  have ran : ((esp8266Open (memoryWorld fun _ => none) true
      (some ['/', 'S', 'D', '0', '/', 'x']) ⟨none, none, none, []⟩ databaseFlags).bind fun opened =>
        (esp8266Write opened.2.2 opened.2.1 (fun _ => 1) 1 0).bind fun written =>
          (esp8266Read written.2 opened.2.1 (fun _ => 0) 1 0).map Prod.fst) =
      some sqliteIoerrShortRead := by decide +kernel
  rcases Option.map_eq_some_iff.mp isOk with ⟨⟨_, file, world'⟩, opened, rfl⟩
  rcases readsBack file world' opened
    [.write (fun _ => 1) 1 0, .read (fun _ => 0) 1 0]
    ⟨Nat.one_pos, Nat.le_refl _, by decide, Nat.one_pos, by decide, Nat.le_refl _, trivial⟩ with
    ⟨afterWrite, written, _, _, read, _⟩
  rw [opened, Option.bind_some] at ran
  simp only [written, Option.bind_some, read, Option.map_some, Option.some.injEq] at ran
  exact absurd ran (by decide)

end EspSqlite.Vfs
