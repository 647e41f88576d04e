import EspSqlite.Rollback.Atomicity
import EspSqlite.Rollback.Room
import EspSqlite.Vfs.ReadBack

/-! # Transactions over the file systems

The methods of the database file act on a file of bytes, so that transactions with
the journal in memory and the database on a card or in flash are rolled back. -/

namespace EspSqlite.Rollback

open Vfs
open Journal (MemFile)

variable {sd : FileStore OpenFlags} {spiffs : FileStore (List Char)}
  {sdArrays : sd.ByteArrays sdAccess} {spiffsArrays : spiffs.ByteArrays fopenAccess}

def ReportsSizes {Mode : Type} {store : FileStore Mode} {access : Mode → Access}
    (arrays : store.ByteArrays access) : Prop :=
  ∀ state file, store.fileSize state file = (arrays.handle state file).file.size

variable (sdArrays spiffsArrays) in
def HoldsFile (fd : VfsFile) (world : World sd spiffs) (content : ByteFile) : Prop :=
  ∃ handle, world.handle sdArrays spiffsArrays fd = some handle ∧ handle.file = content ∧
    handle.readable = true ∧ handle.writable = true

theorem vfsSize_eq (sdSizes : ReportsSizes sdArrays) (spiffsSizes : ReportsSizes spiffsArrays)
    {world : World sd spiffs} {fd : VfsFile} {handle : Handle}
    (held : world.handle sdArrays spiffsArrays fd = some handle) :
    vfsSize world fd = some handle.file.size := by
  rw [World.handle] at held
  rw [vfsSize]
  cases fsType : fd.fsType with
  | fatfs =>
      simp only [fsType, Option.map_eq_some_iff] at held
      rcases held with ⟨object, found, rfl⟩
      simp only [sdfatSize, found, Option.map_some, sdSizes world.sdState object]
  | spiffs =>
      simp only [fsType, Option.map_eq_some_iff] at held
      rcases held with ⟨object, found, rfl⟩
      simp only [spiffsSize, found, Option.map_some, spiffsSizes world.spiffsState object]

theorem esp8266_databaseFile (sdSizes : ReportsSizes sdArrays)
    (spiffsSizes : ReportsSizes spiffsArrays) {file : Esp8266File} {fd : VfsFile}
    (isOpen : file.fd = some fd) :
    DatabaseFile (esp8266IoMethods file) (HoldsFile sdArrays spiffsArrays fd) where
  plain _ := rfl
  read := by
    rintro world content buffer amount offset ⟨handle, held, rfl, readable, writable⟩ nonempty
      inside small
    have masked : offset &&& 0x7FFFFFFF = offset := Journal.masked_eq_of_lt (by omega)
    rcases esp8266Read_masked sdArrays spiffsArrays isOpen held readable buffer nonempty (by omega)
      (masked.symm ▸ inside) with ⟨world', read, held'⟩
    rw [masked] at read
    exact ⟨world', read, _, held', rfl, readable, writable⟩
  write := by
    rintro world content buffer amount offset ⟨handle, held, rfl, readable, writable⟩ nonempty
      inside small
    rcases esp8266Write_all sdArrays spiffsArrays isOpen held writable buffer nonempty inside small
      with ⟨world', written, held'⟩
    exact ⟨world', written, _, held', rfl, readable, writable⟩
  truncate _ holds := ⟨_, rfl, holds⟩
  size := by
    rintro world content ⟨handle, held, rfl, _⟩
    simp only [esp8266IoMethods, esp8266FileSize, isOpen, Option.bind_some,
      vfsSize_eq sdSizes spiffsSizes held, Option.map_some]

/-! ## A database of two pages -/

def pageWorld : World (memoryStore sdAccess) (memoryStore fopenAccess) :=
  { memoryWorld fun _ => some ⟨1024, fun _ => 5⟩ with
    sdFiles := fun _ => some ⟨[], 0, ⟨true, true, false, false⟩⟩ }

def pageFile : Esp8266File := ⟨none, some ⟨.fatfs, 0⟩, none, []⟩

def pageReader : Pager MemFile (World (memoryStore sdAccess) (memoryStore fopenAccess)) where
  eState := .reader
  noSync := false
  fullSync := true
  doNotSpill := 0
  pageSize := 512
  sectorSize := 4096
  jfd := .opened
  fd := pageWorld
  journalOff := 0
  journalHdr := 0
  nRec := 0
  cksumInit := 0
  dbSize := 2
  dbOrigSize := 2
  dbFileSize := 2
  nReserve := 0
  dbFileVers := fun _ => 0
  pTmpSpace := fun _ => 0
  pInJournal := fun _ => false
  pPCache := fun pgno => if pgno = 1 then some (.fetched fun _ => 5) else none

abbrev HoldsPageFile : World (memoryStore sdAccess) (memoryStore fopenAccess) → ByteFile → Prop :=
  HoldsFile (memoryStoreArrays sdAccess) (memoryStoreArrays fopenAccess) ⟨.fatfs, 0⟩

theorem memoryStore_reportsSizes {Mode : Type} (access : Mode → Access) :
    ReportsSizes (memoryStoreArrays access) := fun _ _ => rfl

theorem pageFile_databaseFile : DatabaseFile (esp8266IoMethods pageFile) HoldsPageFile :=
  esp8266_databaseFile (memoryStore_reportsSizes _) (memoryStore_reportsSizes _) rfl

theorem pageReader_reader : Reader HoldsPageFile ⟨1024, fun _ => 5⟩ pageReader where
  sizes := ⟨⟨9, by decide, by decide, rfl⟩, ⟨12, by decide, by decide, rfl⟩, Nat.le_refl _⟩
  empty := .opened
  contains := ⟨_, rfl, rfl, rfl, rfl⟩
  small := by decide
  fits := Nat.le_refl _
  noBitvec := rfl
  numbered pgno pPg cached := by
    simp only [pageReader, Option.ite_none_right_eq_some] at cached
    rw [cached.1]
    exact ⟨by decide, by decide, by decide⟩
  clean pgno pPg cached := by
    simp only [pageReader, Option.ite_none_right_eq_some, Option.some.injEq] at cached
    rw [← cached.2]
    exact ⟨rfl, rfl⟩
  cached pgno pPg cached _ index _ := by
    simp only [pageReader, Option.ite_none_right_eq_some, Option.some.injEq] at cached
    rw [← cached.2]
    rfl

def pageFetch : Fetch := ⟨[], 1000, fun _ => 0, 7, fun _ _ => 0⟩

/-- The first page is journalled, with the second one that is on its sector, and changed. -/
def pageCalls : List Call := [.write (fun _ => pageFetch) 1, .modify 1 fun _ => 9]

theorem pageReader_calls : ∃ pager, Trace (CallStep (esp8266IoMethods pageFile) HoldsPageFile)
    (sqlite3PagerBegin pageReader) pageCalls pager ∧ pager.eState ≠ .writerLocked ∧
    Unnamed (fun _ _ => 0) pager.jfd := by
  have roomy : Roomy HoldsPageFile ⟨1024, fun _ => 5⟩ pageReader (sqlite3PagerBegin pageReader) 2 :=
    ⟨⟨_, _, pageReader_reader.progress, Nat.le_refl _⟩, by decide⟩
  have plain : ∀ _ : Nat, pageFetch.Plain := fun _ => ⟨rfl, by decide⟩
  have large : (sqlite3PagerBegin pageReader).pageSize <
      (sqlite3PagerBegin pageReader).sectorSize := by decide
  have inside : 1 ≤ (sqlite3PagerBegin pageReader).dbSize := by decide
  rcases exists_writeTrace pageFile_databaseFile plain large roomy rfl inside fun _ => 9 with
    ⟨rc, pager, written, trace, opened⟩
  refine ⟨_, trace, opened, fun size buffer isSize isRead => ?_⟩
  have shown : (((sqlite3PagerWrite (fun _ => pageFetch) 1).run
      (pagerMachine (esp8266IoMethods pageFile)) (sqlite3PagerBegin pageReader)).bind fun result =>
        (memory.xFileSize result.2.jfd).bind fun size =>
          (memory.xRead result.2.jfd (fun _ => 0) 8 (size.2 - 8)).map fun read =>
            isMagic read.2.1) = some false := by
    decide +kernel
  have sized : memory.xFileSize pager.jfd = some (sqliteOk, size) := isSize
  have read : memory.xRead pager.jfd (fun _ => 0) 8 (size - 8) =
      some (sqliteOk, buffer, pager.jfd) := isRead
  simp only [written, Option.bind_some, sized, read, Option.map_some, Option.some.injEq] at shown
  exact shown

/-! ## Transactions -/

/-- After any run of a transaction on a database file on a card or in flash, whose
journal in memory was new, the journal holds pages that the database had, and the
rollback restores all of them in the file and in the cache, where the records read as
they were written. -/
theorem esp8266_rolls_back (sdSizes : ReportsSizes sdArrays)
    (spiffsSizes : ReportsSizes spiffsArrays) {file : Esp8266File} {fd : VfsFile}
    (isOpen : file.fd = some fd) {origin : ByteFile}
    {start pager : Pager MemFile (World sd spiffs)}
    (reader : Reader (HoldsFile sdArrays spiffsArrays fd) origin start) {calls : List Call}
    (trace : Trace (CallStep (esp8266IoMethods file) (HoldsFile sdArrays spiffsArrays fd))
      (sqlite3PagerBegin start) calls pager)
    (opened : pager.eState ≠ .writerLocked) :
    ∃ map segments, Journals origin start pager map segments ∧
      ∀ stack, Unnamed stack pager.jfd →
        CleanFrom start.pageSize map stack (memsetZero pager.pTmpSpace 0 1)
          (places start.pageSize pager.sectorSize 0 segments) →
        Restores (esp8266IoMethods file) (HoldsFile sdArrays spiffsArrays fd) origin
          start.pageSize start.dbSize stack pager :=
  transaction_rolls_back (esp8266_databaseFile sdSizes spiffsSizes isOpen) reader trace opened

theorem esp8266_rolls_back_page :
    ∃ pager, Trace (CallStep (esp8266IoMethods pageFile) HoldsPageFile)
        (sqlite3PagerBegin pageReader) pageCalls pager ∧
      ∃ map segments, Journals ⟨1024, fun _ => 5⟩ pageReader pager map segments ∧
        ∀ stack, Unnamed stack pager.jfd →
          CleanFrom 512 map stack (memsetZero pager.pTmpSpace 0 1)
            (places 512 pager.sectorSize 0 segments) →
          Restores (esp8266IoMethods pageFile) HoldsPageFile ⟨1024, fun _ => 5⟩ 512 2 stack
            pager := by
  rcases pageReader_calls with ⟨pager, trace, opened, _⟩
  exact ⟨pager, trace, esp8266_rolls_back (memoryStore_reportsSizes _)
    (memoryStore_reportsSizes _) rfl pageReader_reader trace opened⟩

end EspSqlite.Rollback
