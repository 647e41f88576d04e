import EspSqlite.Rollback.Replay

/-! # The pages are restored

The playback of a journal restores its pages, where the bytes of missing blocks
find zeros in the page that was read before. -/

namespace EspSqlite.Rollback

open Vfs (sqliteOk)
open Journal (BlockFile MemFile cacheBlockSz)

/-! ## Checksums -/

theorem cksumLoop_congr {left right : Nat → UInt8} (rounds : Nat) :
    ∀ {i cksum : Nat}, (∀ index ≤ i, left index = right index) →
    cksumLoop left rounds i cksum = cksumLoop right rounds i cksum := by
  induction rounds with
  | zero => exact fun _ => rfl
  | succ rounds induction =>
      intro i cksum agree
      rw [cksumLoop, cksumLoop, agree i (Nat.le_refl i)]
      exact induction fun index below => agree index (by omega)

theorem pagerCksum_congr {cksumInit pageSize : Nat} {left right : Nat → UInt8}
    (positive : 0 < pageSize) (agree : ∀ index < pageSize, left index = right index) :
    pagerCksum cksumInit pageSize left = pagerCksum cksumInit pageSize right :=
  cksumLoop_congr _ fun index below => agree index (by omega)

theorem cksumLoop_lt (aData : Nat → UInt8) (rounds : Nat) :
    ∀ {i cksum : Nat}, cksum < 2 ^ 32 → cksumLoop aData rounds i cksum < 2 ^ 32 := by
  induction rounds with
  | zero => exact fun small => small
  | succ rounds induction => exact fun _ => induction (Nat.mod_lt _ (by decide))

theorem pagerCksum_lt {cksumInit : Nat} (small : cksumInit < 2 ^ 32) (pageSize : Nat)
    (aData : Nat → UInt8) : pagerCksum cksumInit pageSize aData < 2 ^ 32 :=
  cksumLoop_lt _ _ small

/-! ## One page -/

/-- The bytes of a record in missing blocks read as zeros, where `before` is in the
temporary page. -/
def Clean (pageSize : Nat) (map : BlockFile) (stack : Nat → Nat → UInt8) (position : Nat)
    (before : Nat → UInt8) : Prop :=
  (∀ index < pageSize, map.byteAt (position + 4 + index) = none → before index = 0) ∧
    ∀ index < 4, map.byteAt (position + 4 + pageSize + index) = none →
      stack (position + 4 + pageSize) index = 0

structure Record.Valid (pageSize dbSize : Nat) (record : Record) : Prop where
  nonzero : record.pgno ≠ 0
  notPending : record.pgno ≠ pagerMjPgno pageSize
  inDatabase : record.pgno ≤ dbSize

section Page

variable {DbFile : Type} {pager : Pager MemFile DbFile} {map : BlockFile} {position : Nat}
  {record : Record} {stack : Nat → Nat → UInt8}

def Pager.pageRead (pager : Pager MemFile DbFile) (map : BlockFile) (position : Nat) :
    Pager MemFile DbFile :=
  { pager with
    pTmpSpace := map.pull (position + 4) pager.pageSize pager.pTmpSpace
    journalOff := position + journalPgSz pager.pageSize }

theorem playbackOnePage_eq (database : IoMethods DbFile) (models : pager.jfd.Models map)
    (atRecord : pager.journalOff = position)
    (held : RecordAt pager.pageSize pager.cksumInit map position record)
    (valid : record.Valid pager.pageSize pager.dbSize) (smallSize : pager.dbSize < 2 ^ 32)
    (bounded : position + journalPgSz pager.pageSize ≤ journalLimit) :
    pagerPlaybackOnePage memory database stack pager =
      if pagerCksum pager.cksumInit pager.pageSize
            (map.pull (position + 4) pager.pageSize pager.pTmpSpace) ≠
          sqlite3Get4byte (map.pull (position + 4 + pager.pageSize) 4
            (stack (position + 4 + pager.pageSize))) then
        some (sqliteDone, pager.pageRead map position)
      else restorePage database (pager.pageRead map position) record.pgno := by
  rw [journalPgSz] at bounded
  have number := memory_readNumber models (stack position) (by omega)
    held.number (Nat.lt_of_le_of_lt valid.inDatabase smallSize) held.present
  have wholePage : position + 4 + pager.pageSize ≤ journalLimit := by omega
  have wholeRecord : position + 4 + pager.pageSize + 4 ≤ journalLimit := by omega
  have content := memory_read models pager.pTmpSpace wholePage
  have sum := memory_read32bits models (stack (position + 4 + pager.pageSize)) wholeRecord
  have sumAt : position + (pager.pageSize + 4 + 1 * 4) - 4 = position + 4 + pager.pageSize := by
    omega
  have illegal : ¬(record.pgno = 0 ∨ record.pgno = pagerMjPgno pager.pageSize) := by
    rw [not_or]
    exact ⟨valid.nonzero, valid.notPending⟩
  have inside : ¬record.pgno > pager.dbSize := Nat.not_lt.mpr valid.inDatabase
  rw [pagerPlaybackOnePage]
  simp only [atRecord, number, onOk_ok, content, if_neg illegal, if_neg inside, sumAt, sum]
  rfl

theorem Clean.reads (clean : Clean pager.pageSize map stack position pager.pTmpSpace)
    (positive : 0 < pager.pageSize)
    (held : RecordAt pager.pageSize pager.cksumInit map position record)
    (small : pager.cksumInit < 2 ^ 32) :
    (∀ index < pager.pageSize,
      map.pull (position + 4) pager.pageSize pager.pTmpSpace index = record.content index) ∧
    pagerCksum pager.cksumInit pager.pageSize
        (map.pull (position + 4) pager.pageSize pager.pTmpSpace) =
      sqlite3Get4byte (map.pull (position + 4 + pager.pageSize) 4
        (stack (position + 4 + pager.pageSize))) := by
  have same : ∀ index < pager.pageSize,
      map.pull (position + 4) pager.pageSize pager.pTmpSpace index = record.content index := by
    intro index inRange
    rw [pull_eq_filled inRange (clean.1 index inRange)]
    exact held.content index inRange
  refine ⟨same, ?_⟩
  rw [pagerCksum_congr positive same, number_of_pull held.cksum (pagerCksum_lt small _ _) clean.2]

/-- The bytes of a checksum lie in one block. -/
theorem missing_together (aligned : position % 4 = 0) {left right : Nat} (inLeft : left < 4)
    (inRight : right < 4) (missing : map.byteAt (position + left) = none) :
    map.byteAt (position + right) = none := by
  have block : (position + left) / cacheBlockSz = (position + right) / cacheBlockSz := by
    simp only [cacheBlockSz]
    omega
  simp only [BlockFile.byteAt, Option.map_eq_none_iff] at missing ⊢
  rwa [← block]

theorem clean_of_reads (aligned : position % 4 = 0) (whole : pager.pageSize % 4 = 0)
    (positive : 0 < pager.pageSize)
    (held : RecordAt pager.pageSize pager.cksumInit map position record)
    (same : ∀ index < pager.pageSize,
      map.pull (position + 4) pager.pageSize pager.pTmpSpace index = record.content index)
    (sum : pagerCksum pager.cksumInit pager.pageSize
        (map.pull (position + 4) pager.pageSize pager.pTmpSpace) =
      sqlite3Get4byte (map.pull (position + 4 + pager.pageSize) 4
        (stack (position + 4 + pager.pageSize))))
    (small : pager.cksumInit < 2 ^ 32) :
    Clean pager.pageSize map stack position pager.pTmpSpace := by
  constructor
  · intro index inRange missing
    have zero : record.content index = 0 := by
      rw [← held.content index inRange, BlockFile.filled, missing]
      rfl
    rw [← zero, ← same index inRange, pull_of_missing missing]
  · intro index inRange missing
    have allMissing : ∀ other < 4, map.byteAt (position + 4 + pager.pageSize + other) = none :=
      fun other inOther => missing_together (by omega) inRange inOther missing
    have zeroBytes : ∀ other < 4, fourBytes (pagerCksum pager.cksumInit pager.pageSize
        record.content) other = 0 := by
      intro other inOther
      rw [← held.cksum other inOther, BlockFile.filled, allMissing other inOther]
      rfl
    have zero : pagerCksum pager.cksumInit pager.pageSize record.content = 0 := by
      by_contra nonzero
      rcases exists_fourBytes_ne_zero (pagerCksum_lt small _ _) nonzero with
        ⟨other, inOther, isNonzero⟩
      exact isNonzero (zeroBytes other inOther)
    rw [pagerCksum_congr positive same, zero] at sum
    rw [← sqlite3Get4byte_eq_zero sum.symm index inRange, pull_of_missing missing]

end Page

/-! ## The database file -/

/-- The methods act on a file of bytes, and do not truncate it: reads inside the
file and writes from inside it succeed. -/
structure DatabaseFile {DbFile : Type} (methods : IoMethods DbFile)
    (Contains : DbFile → ByteFile → Prop) : Prop where
  plain : ∀ state, methods.xDeviceCharacteristics state = 0
  read : ∀ {state file} buffer {amount offset}, Contains state file → 0 < amount →
    offset + amount ≤ file.size → offset + amount < 2 ^ 31 →
    ∃ state', methods.xRead state buffer amount offset =
        some (sqliteOk, file.read offset amount buffer, state') ∧ Contains state' file
  write : ∀ {state file} buffer {amount offset}, Contains state file → 0 < amount →
    offset ≤ file.size → offset + amount < 2 ^ 31 →
    ∃ state', methods.xWrite state buffer amount offset = some (sqliteOk, state') ∧
      Contains state' (file.write offset amount buffer)
  truncate : ∀ {state file} bytes, Contains state file →
    ∃ state', methods.xTruncate state bytes = some (sqliteOk, state') ∧ Contains state' file
  size : ∀ {state file}, Contains state file →
    methods.xFileSize state = some (sqliteOk, file.size)

abbrev PageCache := Nat → Option PgHdr

def Record.restoreFile (pageSize : Nat) (record : Record) (file : ByteFile) : ByteFile :=
  file.write ((record.pgno - 1) * pageSize) pageSize record.content

def Record.restoreCache (pageSize : Nat) (record : Record) (cache : PageCache) : PageCache :=
  fun other =>
    if other = record.pgno then
      (cache other).map fun pPg => { pPg with pData := memcpy pPg.pData 0 record.content pageSize }
    else cache other

def restoreStep (pageSize : Nat) (stored : Nat → Bool) (state : ByteFile × PageCache)
    (place : Nat × Record) : ByteFile × PageCache :=
  (if stored place.1 then place.2.restoreFile pageSize state.1 else state.1,
    place.2.restoreCache pageSize state.2)

theorem memcpy_congr {target left right : Nat → UInt8} {start count : Nat}
    (agree : ∀ index < count, left index = right index) :
    memcpy target start left count = memcpy target start right count := by
  funext index
  rw [memcpy, memcpy]
  split
  · exact agree _ (by omega)
  · rfl

section Restore

variable {DbFile : Type} {database : IoMethods DbFile} {Contains : DbFile → ByteFile → Prop}
  (law : DatabaseFile database Contains) {pager : Pager MemFile DbFile} {map : BlockFile}

def Pager.stores (pager : Pager MemFile DbFile) (position : Nat) : Bool :=
  pager.eState.mayWrite &&
    (pager.noSync || decide (position + journalPgSz pager.pageSize ≤ pager.journalHdr))

def Pager.restored (pager : Pager MemFile DbFile) (fd : DbFile) (dbFileSize nReserve : Nat)
    (dbFileVers : Nat → UInt8) (pPCache : PageCache) : Pager MemFile DbFile :=
  { pager with fd, dbFileSize, nReserve, dbFileVers, pPCache }

include law in
theorem restorePage_restores {position : Nat} {record : Record} {file : ByteFile}
    (contains : Contains pager.fd file) (positive : 0 < pager.pageSize)
    (inFile : (record.pgno - 1) * pager.pageSize + pager.pageSize ≤ file.size)
    (small : file.size < 2 ^ 31)
    (atEnd : pager.journalOff = position + journalPgSz pager.pageSize)
    (same : ∀ index < pager.pageSize, pager.pTmpSpace index = record.content index) :
    ∃ fd dbFileSize nReserve dbFileVers, restorePage database pager record.pgno =
        some (sqliteOk, pager.restored fd dbFileSize nReserve dbFileVers
          (record.restoreCache pager.pageSize pager.pPCache)) ∧
      Contains fd (if pager.stores position then record.restoreFile pager.pageSize file
        else file) := by
  have cache : ∀ other : Pager MemFile DbFile, other.pPCache = pager.pPCache →
      (other.updatePage record.pgno fun pPg =>
        { pPg with pData := memcpy pPg.pData 0 pager.pTmpSpace pager.pageSize }).pPCache =
      record.restoreCache pager.pageSize pager.pPCache := by
    intro other isCache
    funext index
    simp only [Pager.updatePage, isCache, Record.restoreCache, memcpy_congr same]
  let nReserve := if record.pgno = 1 then (pager.pTmpSpace 20).toNat else pager.nReserve
  let dbFileVers := if record.pgno = 1 ∧ (pager.pPCache record.pgno).isSome = true then
    memcpy pager.dbFileVers 0 (fun index => pager.pTmpSpace (24 + index)) 16 else pager.dbFileVers
  rw [restorePage]
  cases stores : pager.stores position with
  | true =>
      have below : (record.pgno - 1) * pager.pageSize + pager.pageSize < 2 ^ 31 := by omega
      rcases law.write pager.pTmpSpace contains positive (by omega) below with
        ⟨fd, written, contains'⟩
      simp only [Pager.stores, ← atEnd] at stores
      refine ⟨fd, if record.pgno > pager.dbFileSize then record.pgno else pager.dbFileSize,
        nReserve, dbFileVers, ?_, ?_⟩
      · simp only [stores, if_true, written, Option.map_some, ← cache pager rfl]
        rfl
      · rw [if_pos rfl, Record.restoreFile, ByteFile.write, ← memcpy_congr same]
        exact contains'
  | false =>
      simp only [Pager.stores, ← atEnd] at stores
      refine ⟨pager.fd, pager.dbFileSize, nReserve, dbFileVers, ?_, ?_⟩
      · simp only [stores, Bool.false_eq_true, if_false, Option.map_some, ← cache pager rfl]
        rfl
      · rwa [if_neg Bool.false_ne_true]

end Restore

/-! ## All records of a journal -/

section Places

variable (pageSize sectorSize : Nat)

def recordPlaces : (position : Nat) → List Record → List (Nat × Record)
  | _, [] => []
  | position, record :: rest =>
      (position, record) :: recordPlaces (position + journalPgSz pageSize) rest

def places : (position : Nat) → List Segment → List (Nat × Record)
  | _, [] => []
  | position, segment :: rest =>
      recordPlaces pageSize (journalHdrOffset sectorSize position + sectorSize) segment.records ++
        places (segmentEnd pageSize sectorSize (journalHdrOffset sectorSize position) segment) rest

/-- Every page is clean, where each is read over the one before it. -/
def CleanFrom (map : BlockFile) (stack : Nat → Nat → UInt8) :
    (before : Nat → UInt8) → List (Nat × Record) → Prop
  | _, [] => True
  | before, place :: rest =>
      Clean pageSize map stack place.1 before ∧ CleanFrom map stack place.2.content rest

def lastPage (before : Nat → UInt8) (list : List (Nat × Record)) : Nat → UInt8 :=
  list.foldl (fun _ place => place.2.content) before

/-- What a journal of `szJ` bytes holds from a position on: headers whose magic is
there if it is looked at, with the records that the playback looks for. -/
def SegmentsAt (dbOrigSize journalHdr szJ : Nat) (map : BlockFile) :
    (position : Nat) → List Segment → Prop
  | position, [] => szJ < journalHdrOffset sectorSize position + sectorSize
  | position, segment :: rest =>
      let header := journalHdrOffset sectorSize position
      segmentEnd pageSize sectorSize header segment ≤ szJ ∧
        HeaderAt pageSize sectorSize dbOrigSize map header (header != journalHdr) segment ∧
        RecordsAt pageSize segment.cksumInit map (header + sectorSize) segment.records ∧
        recordCount pageSize sectorSize journalHdr szJ (header + sectorSize) segment.nRec =
          segment.records.length ∧
        segment.Small ∧
        SegmentsAt dbOrigSize journalHdr szJ map (segmentEnd pageSize sectorSize header segment)
          rest

end Places

section Lists

variable {pageSize : Nat} {map : BlockFile} {stack : Nat → Nat → UInt8}

theorem Clean.congr {position : Nat} {left right : Nat → UInt8}
    (clean : Clean pageSize map stack position left)
    (agree : ∀ index < pageSize, right index = left index) :
    Clean pageSize map stack position right := by
  refine ⟨fun index inRange missing => ?_, clean.2⟩
  rw [agree index inRange]
  exact clean.1 index inRange missing

theorem cleanFrom_append {earlier later : List (Nat × Record)} : ∀ {before : Nat → UInt8},
    CleanFrom pageSize map stack before (earlier ++ later) ↔
      CleanFrom pageSize map stack before earlier ∧
        CleanFrom pageSize map stack (lastPage before earlier) later := by
  induction earlier with
  | nil => exact ⟨fun clean => ⟨trivial, clean⟩, And.right⟩
  | cons place rest induction =>
      intro before
      rw [List.cons_append, CleanFrom, CleanFrom, induction, and_assoc]
      rfl

theorem restoreStep_size {stored : Nat → Bool} {state : ByteFile × PageCache}
    {place : Nat × Record}
    (inFile : (place.2.pgno - 1) * pageSize + pageSize ≤ state.1.size) :
    (restoreStep pageSize stored state place).1.size = state.1.size := by
  rw [restoreStep]
  split
  · exact Nat.max_eq_left inFile
  · rfl

theorem foldl_restoreStep_size {stored : Nat → Bool} {list : List (Nat × Record)} :
    ∀ {state : ByteFile × PageCache},
    (∀ place ∈ list, (place.2.pgno - 1) * pageSize + pageSize ≤ state.1.size) →
    (list.foldl (restoreStep pageSize stored) state).1.size = state.1.size := by
  induction list with
  | nil => exact fun _ => rfl
  | cons place rest induction =>
      intro state inFile
      have size : (restoreStep pageSize stored state place).1.size = state.1.size :=
        restoreStep_size (inFile place List.mem_cons_self)
      rw [List.foldl_cons, induction, size]
      intro other member
      rw [size]
      exact inFile other (List.mem_cons_of_mem place member)

theorem mem_of_mem_recordPlaces {records : List Record} : ∀ {position : Nat}
    {place : Nat × Record}, place ∈ recordPlaces pageSize position records →
    place.2 ∈ records := by
  induction records with
  | nil => exact fun member => absurd member List.not_mem_nil
  | cons record rest induction =>
      intro position place member
      rcases List.mem_cons.mp member with rfl | member
      · exact List.mem_cons_self
      · exact List.mem_cons_of_mem record (induction member)

end Lists

section Playback

variable {DbFile : Type} {database : IoMethods DbFile} {Contains : DbFile → ByteFile → Prop}
  (law : DatabaseFile database Contains) {map : BlockFile} {stack : Nat → Nat → UInt8}

theorem Record.Valid.inFile {pageSize dbSize size : Nat} {record : Record}
    (valid : record.Valid pageSize dbSize) (fits : dbSize * pageSize ≤ size) :
    (record.pgno - 1) * pageSize + pageSize ≤ size := by
  have isNext : record.pgno - 1 + 1 = record.pgno :=
    Nat.sub_add_cancel (Nat.one_le_iff_ne_zero.mpr valid.nonzero)
  calc (record.pgno - 1) * pageSize + pageSize = record.pgno * pageSize := by
        rw [← Nat.succ_mul, Nat.succ_eq_add_one, isNext]
    _ ≤ dbSize * pageSize := Nat.mul_le_mul_right pageSize valid.inDatabase
    _ ≤ size := fits

include law in
theorem playbackRecords_restores (szJ : Nat) {records : List Record} :
    ∀ (pager : Pager MemFile DbFile) (file : ByteFile) {before : Nat → UInt8},
    pager.jfd.Models map → 0 < pager.pageSize → Contains pager.fd file → file.size < 2 ^ 31 →
    pager.dbSize * pager.pageSize ≤ file.size → pager.dbSize < 2 ^ 32 →
    pager.cksumInit < 2 ^ 32 →
    (∀ record ∈ records, record.Valid pager.pageSize pager.dbSize) →
    RecordsAt pager.pageSize pager.cksumInit map pager.journalOff records →
    pager.journalOff + records.length * journalPgSz pager.pageSize ≤ journalLimit →
    CleanFrom pager.pageSize map stack before
      (recordPlaces pager.pageSize pager.journalOff records) →
    (∀ index < pager.pageSize, pager.pTmpSpace index = before index) →
    ∃ fd dbFileSize nReserve dbFileVers pTmpSpace,
      playbackRecords memory database stack szJ records.length pager =
        some (false, sqliteOk, { pager.restored fd dbFileSize nReserve dbFileVers
            ((recordPlaces pager.pageSize pager.journalOff records).foldl
              (restoreStep pager.pageSize pager.stores) (file, pager.pPCache)).2 with
          pTmpSpace
          journalOff := pager.journalOff + records.length * journalPgSz pager.pageSize }) ∧
      Contains fd ((recordPlaces pager.pageSize pager.journalOff records).foldl
        (restoreStep pager.pageSize pager.stores) (file, pager.pPCache)).1 ∧
      ∀ index < pager.pageSize, pTmpSpace index =
        lastPage before (recordPlaces pager.pageSize pager.journalOff records) index := by
  induction records with
  | nil =>
      intro pager file before _ _ contains _ _ _ _ _ _ _ _ agree
      refine ⟨pager.fd, pager.dbFileSize, pager.nReserve, pager.dbFileVers, pager.pTmpSpace, ?_,
        contains, agree⟩
      rw [List.length_nil, Nat.zero_mul]
      rfl
  | cons record rest induction =>
      intro pager file before models positive contains small fits smallSize smallSum valid held
        bounded clean agree
      rw [List.length_cons, Nat.succ_mul] at bounded
      have validHere := valid record List.mem_cons_self
      have cleanHere := clean.1.congr agree
      have reads := cleanHere.reads positive held.1 smallSum
      have page : pagerPlaybackOnePage memory database stack pager = _ :=
        playbackOnePage_eq database models rfl held.1 validHere smallSize (by omega)
      rw [if_neg (not_not.mpr reads.2)] at page
      have readPager : Contains (pager.pageRead map pager.journalOff).fd file := contains
      rcases restorePage_restores law readPager positive (validHere.inFile fits) small rfl
        reads.1 with ⟨fd, dbFileSize, nReserve, dbFileVers, restored, contains'⟩
      have size : (restoreStep pager.pageSize pager.stores (file, pager.pPCache)
          (pager.journalOff, record)).1.size = file.size :=
        restoreStep_size (validHere.inFile fits)
      rcases induction ((pager.pageRead map pager.journalOff).restored fd dbFileSize nReserve
          dbFileVers (record.restoreCache pager.pageSize pager.pPCache))
        (restoreStep pager.pageSize pager.stores (file, pager.pPCache)
          (pager.journalOff, record)).1 models positive contains' (size ▸ small) (size ▸ fits)
        smallSize smallSum (fun other member => valid other (List.mem_cons_of_mem record member))
        held.2 (by simp only [Pager.restored, Pager.pageRead]; omega) clean.2 reads.1 with
        ⟨fd', dbFileSize', nReserve', dbFileVers', pTmpSpace, played, contains'', agree'⟩
      refine ⟨fd', dbFileSize', nReserve', dbFileVers', pTmpSpace, ?_, contains'', agree'⟩
      have total : pager.journalOff + journalPgSz pager.pageSize +
          rest.length * journalPgSz pager.pageSize =
          pager.journalOff + (record :: rest).length * journalPgSz pager.pageSize := by
        rw [List.length_cons, Nat.succ_mul]
        omega
      rw [List.length_cons, playbackRecords, page, restored]
      apply played.trans
      simp only [Pager.restored, Pager.pageRead, total]
      rfl

theorem pagerTruncate_keeps (Kept : DbFile → Prop) (pager : Pager MemFile DbFile) {size : Nat}
    (isSize : database.xFileSize pager.fd = some (sqliteOk, size)) (kept : Kept pager.fd)
    (truncates : ∀ bytes, ∃ fd, database.xTruncate pager.fd bytes = some (sqliteOk, fd) ∧ Kept fd)
    (positive : 0 < pager.pageSize) {nPage : Nat} (fits : nPage * pager.pageSize ≤ size) :
    ∃ fd dbFileSize, pagerTruncate database pager nPage =
        some (sqliteOk, { pager with fd, dbFileSize }) ∧ Kept fd := by
  rw [Nat.mul_comm] at fits
  rw [pagerTruncate]
  cases pager.eState.mayWrite with
  | false => exact ⟨pager.fd, pager.dbFileSize, rfl, kept⟩
  | true =>
      simp only [if_true, isSize, onOk_ok]
      by_cases longer : size > pager.pageSize * nPage
      · rcases truncates (pager.pageSize * nPage : Nat) with ⟨fd, truncated, kept'⟩
        refine ⟨fd, nPage, ?_, kept'⟩
        rw [if_pos longer, truncated]
        rfl
      · have same : size = pager.pageSize * nPage := by omega
        refine ⟨pager.fd, pager.dbFileSize, ?_, kept⟩
        rw [if_neg longer, if_neg (by omega), if_neg (not_not.mpr same)]

theorem SegmentsAt.length_le {pageSize sectorSize dbOrigSize journalHdr szJ : Nat}
    (power : BlockPower sectorSize) {segments : List Segment} : ∀ {position : Nat},
    SegmentsAt pageSize sectorSize dbOrigSize journalHdr szJ map position segments →
    segments ≠ [] → position + segments.length ≤ szJ := by
  induction segments with
  | nil => exact fun _ nonempty => absurd rfl nonempty
  | cons segment rest induction =>
      intro position held _
      have after := (journalHdrOffset_bounds power position).1
      have large := power.ge
      have inside := held.1
      rw [segmentEnd] at inside
      cases rest with
      | nil =>
          rw [List.length_singleton]
          omega
      | cons next others =>
          have below := induction held.2.2.2.2.2 (List.cons_ne_nil next others)
          rw [segmentEnd] at below
          rw [List.length_cons]
          omega

theorem SegmentsAt.length_lt {pageSize sectorSize dbOrigSize journalHdr szJ : Nat}
    (power : BlockPower sectorSize) {segments : List Segment}
    (held : SegmentsAt pageSize sectorSize dbOrigSize journalHdr szJ map 0 segments) :
    segments.length < szJ + 1 := by
  by_cases none : segments = []
  · rw [none]
    exact Nat.succ_pos _
  · have atMost := held.length_le power none
    omega

theorem pagerPlayback_eq {pager : Pager MemFile DbFile} (models : pager.jfd.Models map)
    (bounded : map.size ≤ journalLimit)
    (unnamed : isMagic (map.pull (map.size - 8) 8 (stack (map.size - 8))) = false)
    (char : UInt8 → Int) (access : (Nat → UInt8) → Bool) (mxPathname : Nat) :
    pagerPlayback memory database char access mxPathname stack pager =
      playbackLoop memory database stack map.size (map.size + 1)
        { pager with pTmpSpace := memsetZero pager.pTmpSpace 0 1, journalOff := 0 } := by
  have noName : ¬(memsetZero pager.pTmpSpace 0 1 0 ≠ 0 ∧
      access (memsetZero pager.pTmpSpace 0 1) = false) := by
    rw [memsetZero, memcpy_front (by decide)]
    exact fun name => name.1 rfl
  rw [pagerPlayback, memory_size models, onOk_ok,
    readMasterJournal_absent models bounded char _ _ unnamed, onOk_ok]
  simp only [if_neg noName]

variable (stack) in
theorem playbackLoop_round (Kept : DbFile → Prop) (pager : Pager MemFile DbFile)
    {dbOrigSize szJ position : Nat} {segment : Segment} {rest : List Segment}
    (models : pager.jfd.Models map) (sizes : Sizes pager.pageSize pager.sectorSize)
    (start : pager.journalOff = 0 ∨ 0 < pager.journalOff ∧ pager.dbSize = dbOrigSize)
    (smallSize : dbOrigSize < 2 ^ 32) (bounded : szJ ≤ journalLimit)
    (held : SegmentsAt pager.pageSize pager.sectorSize dbOrigSize pager.journalHdr szJ map
      pager.journalOff (segment :: rest))
    (isHeader : journalHdrOffset pager.sectorSize pager.journalOff = position)
    (kept : Kept pager.fd)
    (truncates : ∃ fd dbFileSize, pagerTruncate database (pager.atSegment position segment)
        dbOrigSize =
          some (sqliteOk, { pager.atSegment position segment with fd, dbFileSize }) ∧ Kept fd)
    (fuel : Nat) :
    ∃ fd dbFileSize, Kept fd ∧ playbackLoop memory database stack szJ (fuel + 1) pager =
      (playbackRecords memory database stack szJ segment.records.length
        { pager.atSegment position segment with fd, dbFileSize, dbSize := dbOrigSize }).bind
          fun (ends, rc, pager) =>
            if ends then some (rc, pager)
            else playbackLoop memory database stack szJ fuel pager := by
  rcases held with ⟨inside, header, _, count, smallFields, _⟩
  rw [isHeader] at inside header count
  rw [segmentEnd] at inside
  have sector := sizes.sector.ge
  have after := (journalHdrOffset_bounds sizes.sector pager.journalOff).1
  rw [isHeader] at after
  have read := readJournalHdr_reads sizes models isHeader (by omega) bounded header smallFields
    smallSize stack
  have truncated : ∃ fd dbFileSize,
      (if (pager.atSegment position segment).journalOff = pager.sectorSize then
        onOk (pagerTruncate database (pager.atSegment position segment) dbOrigSize) Prod.mk
          fun pager => some (sqliteOk, { pager with dbSize := dbOrigSize })
      else some (sqliteOk, pager.atSegment position segment)) =
        some (sqliteOk, { pager.atSegment position segment with
          fd, dbFileSize, dbSize := dbOrigSize }) ∧
      Kept fd := by
    by_cases first : pager.journalOff = 0
    · have atStart : position = 0 := by
        rw [← isHeader, first]
        rfl
      rcases truncates with ⟨fd, dbFileSize, truncated, kept'⟩
      refine ⟨fd, dbFileSize, ?_, kept'⟩
      rw [if_pos (by simp [Pager.atSegment, atStart]), truncated]
      rfl
    · rcases start.resolve_left first with ⟨late, rfl⟩
      refine ⟨pager.fd, pager.dbFileSize, ?_, kept⟩
      rw [if_neg (by simp only [Pager.atSegment]; omega)]
      rfl
  rcases truncated with ⟨fd, dbFileSize, truncated, kept'⟩
  refine ⟨fd, dbFileSize, kept', ?_⟩
  rw [playbackLoop, read]
  simp only [Option.bind_some, if_neg (not_not.mpr rfl)]
  have sameSector : (pager.atSegment position segment).sectorSize = pager.sectorSize := rfl
  rw [sameSector, truncated, onOk_ok]
  exact congrArg (fun rounds => Option.bind (playbackRecords memory database stack szJ rounds _) _)
    count

structure Pager.PlayedBack (pager played : Pager MemFile DbFile) (cache : PageCache) : Prop where
  jfd : played.jfd = pager.jfd
  eState : played.eState = pager.eState
  pageSize : played.pageSize = pager.pageSize
  sectorSize : played.sectorSize = pager.sectorSize
  pInJournal : played.pInJournal = pager.pInJournal
  pPCache : played.pPCache = cache

include law in
theorem playbackLoop_restores {sectorSize dbOrigSize szJ : Nat} {segments : List Segment} :
    ∀ (pager : Pager MemFile DbFile) (file : ByteFile) {before : Nat → UInt8} {fuel : Nat},
    pager.jfd.Models map → pager.sectorSize = sectorSize → Sizes pager.pageSize sectorSize →
    Contains pager.fd file → file.size < 2 ^ 31 →
    pager.journalOff = 0 ∨ 0 < pager.journalOff ∧ pager.dbSize = dbOrigSize →
    dbOrigSize * pager.pageSize ≤ file.size → dbOrigSize < 2 ^ 32 → szJ ≤ journalLimit →
    (∀ segment ∈ segments, ∀ record ∈ segment.records, record.Valid pager.pageSize dbOrigSize) →
    SegmentsAt pager.pageSize sectorSize dbOrigSize pager.journalHdr szJ map pager.journalOff
      segments →
    CleanFrom pager.pageSize map stack before
      (places pager.pageSize sectorSize pager.journalOff segments) →
    (∀ index < pager.pageSize, pager.pTmpSpace index = before index) →
    segments.length < fuel →
    ∃ played, playbackLoop memory database stack szJ fuel pager = some (sqliteOk, played) ∧
      pager.PlayedBack played
        ((places pager.pageSize sectorSize pager.journalOff segments).foldl
          (restoreStep pager.pageSize pager.stores) (file, pager.pPCache)).2 ∧
      Contains played.fd
        ((places pager.pageSize sectorSize pager.journalOff segments).foldl
          (restoreStep pager.pageSize pager.stores) (file, pager.pPCache)).1 := by
  induction segments with
  | nil =>
      rintro pager file before (_ | fuel) models rfl sizes contains _ _ _ _ _ _ held _ _ enough
      · exact absurd enough (Nat.not_lt_zero _)
      · refine ⟨{ pager with journalOff := journalHdrOffset pager.sectorSize pager.journalOff }, ?_,
          ⟨rfl, rfl, rfl, rfl, rfl, rfl⟩, contains⟩
        have ended : journalHdrOffset pager.sectorSize pager.journalOff + pager.sectorSize > szJ :=
          held
        simp only [playbackLoop, readJournalHdr, if_pos ended, Option.bind_some]
        rfl
  | cons segment rest induction =>
      rintro pager file before (_ | fuel) models rfl sizes contains small start fits smallSize
        bounded valid held clean agree enough
      · exact absurd enough (Nat.not_lt_zero _)
      generalize isHeader : journalHdrOffset pager.sectorSize pager.journalOff = position
      have positive := sizes.positive
      have sector := sizes.sector.ge
      rw [places, isHeader, cleanFrom_append] at clean
      have isSize : database.xFileSize (pager.atSegment position segment).fd = _ :=
        law.size contains
      rcases playbackLoop_round stack (Contains · file) pager models sizes start smallSize bounded
        held isHeader contains (pagerTruncate_keeps (Contains · file)
          (pager.atSegment position segment) isSize contains
          (fun bytes => law.truncate bytes contains) positive fits) fuel with
        ⟨fd, dbFileSize, contains', round⟩
      rcases held with ⟨inside, _, records, _, smallFields, later⟩
      rw [isHeader] at inside records later
      rcases playbackRecords_restores law szJ { pager.atSegment position segment with
          fd, dbFileSize, dbSize := dbOrigSize } file models positive contains' small fits smallSize
        smallFields.cksumInit (valid segment List.mem_cons_self) records
        (Nat.le_trans inside bounded) clean.1 agree with
        ⟨fd', dbFileSize', nReserve, dbFileVers, pTmpSpace, played, contains'', agree'⟩
      let restored := (recordPlaces pager.pageSize (position + pager.sectorSize)
        segment.records).foldl (restoreStep pager.pageSize pager.stores) (file, pager.pPCache)
      let next : Pager MemFile DbFile :=
        { ({ pager.atSegment position segment with
            fd, dbFileSize, dbSize := dbOrigSize } : Pager MemFile DbFile).restored fd' dbFileSize'
              nReserve dbFileVers restored.2 with
          pTmpSpace
          journalOff := segmentEnd pager.pageSize pager.sectorSize position segment }
      have size : restored.1.size = file.size := foldl_restoreStep_size fun place member =>
        (valid segment List.mem_cons_self _ (mem_of_mem_recordPlaces member)).inFile fits
      have beyond : 0 < segmentEnd pager.pageSize pager.sectorSize position segment := by
        rw [segmentEnd]
        omega
      rcases induction next restored.1 models rfl sizes contains'' (size ▸ small)
        (Or.inr ⟨beyond, rfl⟩) (size ▸ fits) smallSize bounded
        (fun other member => valid other (List.mem_cons_of_mem segment member)) later clean.2
        agree' (Nat.lt_of_succ_lt_succ enough) with ⟨final, looped, result, contains₃⟩
      rw [places, isHeader, List.foldl_append]
      refine ⟨final, ?_, ⟨result.jfd, result.eState, result.pageSize, result.sectorSize,
        result.pInJournal, result.pPCache⟩, contains₃⟩
      rw [round, played]
      exact looped

end Playback

end EspSqlite.Rollback
