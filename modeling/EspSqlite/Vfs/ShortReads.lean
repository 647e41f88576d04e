import EspSqlite.Vfs.ReadErrors

/-! # Short reads of a database file

What `esp8266_Read` leaves in its destination, over backends whose files are
arrays of bytes. -/

namespace EspSqlite.Vfs

variable {sd : FileStore OpenFlags} {spiffs : FileStore (List Char)}

/-- A read that is refused leaves its destination alone. -/
def Quiet {Mode : Type} {store : FileStore Mode} {access : Mode → Access}
    (arrays : store.ByteArrays access) : Prop :=
  ∀ state file target len, (arrays.handle state file).readable = false →
    (store.read state file target len).2.1 = target

def arrived (handle : Handle) (position : Nat) (buffer : Nat → UInt8) (index : Nat) : UInt8 :=
  if handle.readable = true ∧ position + index < handle.file.size then
    handle.file.byte (position + index)
  else
    buffer index

/-- The bytes of the file from an offset on, with zeros past its end. -/
def zeroFilled (file : ByteFile) (offset index : Nat) : UInt8 :=
  if offset + index < file.size then file.byte (offset + index) else 0

/-- A call that returns `SQLITE_IOERR_SHORT_READ` leaves the bytes of the file in
the destination, and zeros past its end. -/
def ShortReadFilled (world : World sd spiffs) (file : Esp8266File) (handle : Handle)
    (buffer : Nat → UInt8) (amount offset : Nat) : Prop :=
  ∃ code result world', esp8266Read world file buffer amount offset =
      some (code, result, world') ∧
    (code = sqliteIoerrShortRead →
      ∀ index < amount, result index = zeroFilled handle.file offset index)

variable (sdArrays : sd.ByteArrays sdAccess) (spiffsArrays : spiffs.ByteArrays fopenAccess)

section Call

variable {world : World sd spiffs} {file : Esp8266File} {fd : VfsFile} {handle : Handle}

theorem vfsLseek_past (held : world.handle sdArrays spiffsArrays fd = some handle)
    {position : Nat} (past : handle.file.size < position) :
    ∃ world', vfsLseek world fd position .set = some (vfsResErr, world') := by
  rw [World.handle] at held
  cases fsType : fd.fsType with
  | fatfs =>
      simp only [fsType, Option.map_eq_some_iff] at held
      rcases held with ⟨opened, found, rfl⟩
      have fails : ∀ (whence : Whence) (file : sd.File),
          sdArrays.handle world.sdState file = sdArrays.handle world.sdState opened →
          ∃ file', sd.seek world.sdState file whence position = (false, file') ∧
            sdArrays.handle world.sdState file' = sdArrays.handle world.sdState opened := by
        intro whence file same
        have beyond : (sdArrays.handle world.sdState file).file.size <
            (sdArrays.handle world.sdState file).target whence position := by
          rw [same]
          cases whence <;> simp only [Handle.target] <;> omega
        rcases sdArrays.seek_fails world.sdState file whence position (by omega) with
          ⟨file', result, kept⟩
        exact ⟨file', result, kept.trans same⟩
      rcases fails .set opened rfl with ⟨first, notSet, same⟩
      rcases fails .cur first same with ⟨second, notCur, same'⟩
      rcases fails .fromEnd second same' with ⟨third, notEnd, _⟩
      rcases vfsLseek_sd fsType found position .set with ⟨sought, seeks, _⟩
      refine ⟨sought, seeks.trans ?_⟩
      simp only [seekCases, seekFirst, notSet, notCur, notEnd]
  | spiffs =>
      simp only [fsType, Option.map_eq_some_iff] at held
      rcases held with ⟨opened, found, rfl⟩
      have beyond : ¬(0 ≤ (spiffsArrays.handle world.spiffsState opened).target .set position ∧
          (spiffsArrays.handle world.spiffsState opened).target .set position ≤
            (spiffsArrays.handle world.spiffsState opened).file.size) := by
        simp only [Handle.target]
        omega
      rcases spiffsArrays.seek_fails world.spiffsState opened .set position beyond with
        ⟨opened', fails, _⟩
      rcases vfsLseek_spiffs fsType found position .set with ⟨sought, seeks, _⟩
      refine ⟨sought, seeks.trans ?_⟩
      simp only [fails, Bool.false_eq_true, if_false]

private theorem read_arrived {handle : Handle} (readable : handle.readable = true)
    (target : Nat → UInt8) {len index : Nat} (inRange : index < len) :
    handle.file.read handle.position (min len (handle.file.size - handle.position)) target index =
      arrived handle handle.position target index := by
  rw [ByteFile.read, memcpy, arrived]
  by_cases inFile : handle.position + index < handle.file.size
  · rw [if_pos (by omega), if_pos ⟨readable, inFile⟩, Nat.sub_zero]
  · rw [if_neg (by omega), if_neg fun both => inFile both.2]

private theorem refused_arrived {handle : Handle} (refused : handle.readable = false)
    (target : Nat → UInt8) (position index : Nat) :
    target index = arrived handle position target index := by
  rw [arrived, if_neg fun both => by simp [refused] at both]

theorem vfsRead_arrived (sdQuiet : Quiet sdArrays) (spiffsQuiet : Quiet spiffsArrays)
    (held : world.handle sdArrays spiffsArrays fd = some handle) (ptr : Nat → UInt8) {len : Nat}
    (small : len < 2 ^ 31) :
    ∃ count result world', vfsRead world fd ptr len = some (count, result, world') ∧
      (0 < len → (toSizeT count = len ↔
        handle.readable = true ∧ handle.position + len ≤ handle.file.size)) ∧
      ∀ index < len, result index = arrived handle handle.position ptr index := by
  have err : toSizeT vfsResErr = 2 ^ 32 - 1 := by decide
  have refusedCount : ¬toSizeT vfsResErr = len := by
    rw [err]
    omega
  have readCount : toSizeT ↑(min len (handle.file.size - handle.position)) =
      min len (handle.file.size - handle.position) := toSizeT_natCast (by omega)
  rw [World.handle] at held
  cases fsType : fd.fsType with
  | fatfs =>
      simp only [fsType, Option.map_eq_some_iff] at held
      rcases held with ⟨opened, found, rfl⟩
      rcases vfsRead_sd fsType found ptr len with ⟨after, isRead, _⟩
      cases readable : (sdArrays.handle world.sdState opened).readable with
      | true =>
          rcases sdArrays.read_ok world.sdState opened ptr len readable with ⟨_, result, _⟩
          rw [result] at isRead
          refine ⟨_, _, after, isRead, fun _ => ?_,
            fun index inRange => read_arrived readable ptr inRange⟩
          rw [if_neg (by simp only; omega), readCount]
          simp only [true_and]
          omega
      | false =>
          have negative := sdArrays.read_refused world.sdState opened ptr len readable
          have quiet := sdQuiet world.sdState opened ptr len readable
          rw [negative, quiet, if_pos (by decide)] at isRead
          refine ⟨_, _, after, isRead, fun _ => ?_,
            fun index _ => refused_arrived readable ptr _ index⟩
          exact iff_of_false refusedCount (by simp)
  | spiffs =>
      simp only [fsType, Option.map_eq_some_iff] at held
      rcases held with ⟨opened, found, rfl⟩
      rcases vfsRead_spiffs fsType found ptr len with ⟨after, isRead, _⟩
      cases readable : (spiffsArrays.handle world.spiffsState opened).readable with
      | true =>
          rcases spiffsArrays.read_ok world.spiffsState opened ptr len readable with ⟨_, result, _⟩
          rw [result] at isRead
          refine ⟨_, _, after, isRead, fun _ => ?_,
            fun index inRange => read_arrived readable ptr inRange⟩
          simp only [true_and]
          split
          · rw [err]
            omega
          · rw [readCount]
            omega
      | false =>
          have negative := spiffsArrays.read_refused world.spiffsState opened ptr len readable
          have quiet := spiffsQuiet world.spiffsState opened ptr len readable
          rw [negative, quiet, if_neg (by decide)] at isRead
          refine ⟨_, _, after, isRead, fun _ => ?_,
            fun index _ => refused_arrived readable ptr _ index⟩
          exact iff_of_false refusedCount (by simp)

theorem esp8266Read_arrived (sdQuiet : Quiet sdArrays) (spiffsQuiet : Quiet spiffsArrays)
    (isOpen : file.fd = some fd)
    (held : world.handle sdArrays spiffsArrays fd = some handle) (buffer : Nat → UInt8)
    {amount offset : Nat} (small : amount < 2 ^ 31) :
    ∃ code result world', esp8266Read world file buffer amount offset =
        some (code, result, world') ∧
      (0 < amount → code = if handle.readable = true ∧
          (offset &&& 0x7FFFFFFF) + amount ≤ handle.file.size then sqliteOk
        else sqliteIoerrShortRead) ∧
      ∀ index < amount, result index = arrived handle (offset &&& 0x7FFFFFFF) buffer index := by
  by_cases inside : (offset &&& 0x7FFFFFFF) ≤ handle.file.size
  · rcases vfsLseek_set sdArrays spiffsArrays held inside with ⟨sought, moved, heldSought⟩
    rcases vfsRead_arrived sdArrays spiffsArrays sdQuiet spiffsQuiet heldSought buffer small with
      ⟨count, result, world', isRead, counts, arrives⟩
    exact ⟨_, result, world', esp8266Read_of_sought isOpen moved isRead,
      fun nonempty => if_congr (counts nonempty) rfl rfl, arrives⟩
  · rcases vfsLseek_past sdArrays spiffsArrays held (Nat.lt_of_not_le inside) with
      ⟨sought, failed⟩
    refine ⟨_, buffer, sought, esp8266Read_of_failed isOpen buffer amount offset failed,
      fun _ => ?_, fun index _ => ?_⟩
    · rw [if_neg fun both => by omega]
    · rw [arrived, if_neg fun both => by omega]

end Call

/-- The bytes that arrive are those of the offset, and where none arrives the
destination held the right ones. -/
theorem arrived_iff {handle : Handle} {position offset amount : Nat} {buffer : Nat → UInt8} :
    (∀ index < amount, arrived handle position buffer index =
        zeroFilled handle.file offset index) ↔
      (∀ index < amount, handle.readable = true → position + index < handle.file.size →
        handle.file.byte (position + index) = zeroFilled handle.file offset index) ∧
      ∀ index < amount, (handle.readable = true → handle.file.size ≤ position + index) →
        buffer index = zeroFilled handle.file offset index := by
  constructor
  · intro same
    refine ⟨fun index inRange readable inFile => ?_, fun index inRange beyond => ?_⟩
    · rw [← same index inRange, arrived, if_pos ⟨readable, inFile⟩]
    · rw [← same index inRange, arrived,
        if_neg fun both => Nat.not_le_of_lt both.2 (beyond both.1)]
  · intro condition index inRange
    rw [arrived]
    split
    · rename_i both
      exact condition.1 index inRange both.1 both.2
    · rename_i neither
      exact condition.2 index inRange fun readable =>
        Nat.le_of_not_lt fun inFile => neither ⟨readable, inFile⟩

/-- A read is filled exactly when all its bytes are in the file at the masked
offset, or those that are there are the bytes of the offset and all others were
right in the destination before the call: zero past the end of the file. -/
theorem shortReadFilled_iff (sdQuiet : Quiet sdArrays) (spiffsQuiet : Quiet spiffsArrays)
    {world : World sd spiffs} {file : Esp8266File} {fd : VfsFile} {handle : Handle}
    (isOpen : file.fd = some fd) (held : world.handle sdArrays spiffsArrays fd = some handle)
    (buffer : Nat → UInt8) {amount offset : Nat} (small : amount < 2 ^ 31) :
    ShortReadFilled world file handle buffer amount offset ↔
      (handle.readable = true ∧ (offset &&& 0x7FFFFFFF) + amount ≤ handle.file.size) ∨
        (∀ index < amount, handle.readable = true →
            (offset &&& 0x7FFFFFFF) + index < handle.file.size →
            handle.file.byte ((offset &&& 0x7FFFFFFF) + index) =
              zeroFilled handle.file offset index) ∧
          ∀ index < amount,
            (handle.readable = true → handle.file.size ≤ (offset &&& 0x7FFFFFFF) + index) →
            buffer index = zeroFilled handle.file offset index := by
  have codes : sqliteIoerrShortRead ≠ sqliteOk := by decide
  rcases esp8266Read_arrived sdArrays spiffsArrays sdQuiet spiffsQuiet isOpen held buffer small
    with ⟨code, result, world', returned, isCode, arrives⟩
  rw [← arrived_iff]
  constructor
  · intro filled
    rcases filled with ⟨code', result', world'', returned', filled⟩
    rw [returned, Option.some.injEq, Prod.mk.injEq, Prod.mk.injEq] at returned'
    rcases returned' with ⟨rfl, rfl, _⟩
    by_cases all : handle.readable = true ∧
        (offset &&& 0x7FFFFFFF) + amount ≤ handle.file.size
    · exact Or.inl all
    · right
      intro index inRange
      rw [← arrives index inRange]
      exact filled ((isCode (Nat.zero_lt_of_lt inRange)).trans (if_neg all)) index inRange
  · intro condition
    refine ⟨code, result, world', returned, fun short index inRange => ?_⟩
    rcases condition with all | right
    · rw [isCode (Nat.zero_lt_of_lt inRange), if_pos all] at short
      exact absurd short.symm codes
    · rw [arrives index inRange, right index inRange]

theorem memoryStore_quiet {Mode : Type} (access : Mode → Access) :
    Quiet (memoryStoreArrays access) := by
  intro state file target len refused
  simp only [memoryStoreArrays] at refused
  simp only [memoryStore, refused, Bool.false_eq_true, if_false]

/-- Two bytes into a destination of zeros, where the file has one left. -/
theorem shortReadFilled_iff_zeros :
    ShortReadFilled (openWorld ⟨3, fun _ => 5⟩ ⟨true, false, false, false⟩) cardFile
      ⟨⟨3, fun _ => 5⟩, 0, true, false⟩ (fun _ => 0) 2 2 := by
  apply (shortReadFilled_iff (memoryStoreArrays sdAccess) (memoryStoreArrays fopenAccess)
    (memoryStore_quiet _) (memoryStore_quiet _) rfl rfl _ (by decide)).mpr
  right
  decide

/-- A byte past the end keeps the value that the destination held. -/
theorem not_shortReadFilled_nines :
    ¬ShortReadFilled (openWorld ⟨3, fun _ => 5⟩ ⟨true, false, false, false⟩) cardFile
      ⟨⟨3, fun _ => 5⟩, 0, true, false⟩ (fun _ => 9) 2 2 := by
  intro filled
  rcases filled with ⟨code, result, world', returned, filled⟩
  have seen : (esp8266Read (openWorld ⟨3, fun _ => 5⟩ ⟨true, false, false, false⟩) cardFile
      (fun _ => 9) 2 2).map (fun read => (read.1, read.2.1 1)) =
      some (sqliteIoerrShortRead, 9) := by
    decide +kernel
  rw [returned, Option.map_some, Option.some.injEq, Prod.mk.injEq] at seen
  have zero := filled seen.1 1 (by decide)
  exact absurd (seen.2.symm.trans zero) (by decide)

end EspSqlite.Vfs
