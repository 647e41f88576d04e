import EspSqlite.Rollback.Files

/-! # Writing the rollback journal

The pager of `sqlite3.c` with what it does to the journal in a write transaction:
headers, page records and syncs. The journal file is open, there are no
savepoints, and the contents of local arrays are parameters: `stack offset` is the
memory from the array on that is written to, or read from, the offset. -/

namespace EspSqlite.Rollback

open Vfs

/-- The value of `Pager.eState`. -/
inductive PagerState
  | open
  | reader
  | writerLocked
  | writerCachemod
  | writerDbmod
  | writerFinished
  | error
  deriving DecidableEq, Repr

/-- The test `eState>=PAGER_WRITER_DBMOD || eState==PAGER_OPEN`, where the database
file may be written. -/
def PagerState.mayWrite : PagerState → Bool
  | .open | .writerDbmod | .writerFinished | .error => true
  | .reader | .writerLocked | .writerCachemod => false

/-- `PgHdr`: a page in the cache with its `flags`. -/
structure PgHdr where
  pData : Nat → UInt8
  dirty : Bool
  writeable : Bool
  needSync : Bool
  dontWrite : Bool

def PgHdr.fetched (pData : Nat → UInt8) : PgHdr := ⟨pData, false, false, false, false⟩

def PgHdr.makeDirty (pPg : PgHdr) : PgHdr := { pPg with dirty := true, dontWrite := false }

def PgHdr.makeClean (pPg : PgHdr) : PgHdr :=
  { pPg with dirty := false, needSync := false, writeable := false }

/-- `Pager`, with the states of the files behind `jfd` and `fd`. -/
structure Pager (JournalFile DbFile : Type) where
  eState : PagerState
  noSync : Bool
  fullSync : Bool
  doNotSpill : Nat
  pageSize : Nat
  sectorSize : Nat
  jfd : JournalFile
  fd : DbFile
  journalOff : Nat
  journalHdr : Nat
  nRec : Nat
  cksumInit : Nat
  dbSize : Nat
  dbOrigSize : Nat
  dbFileSize : Nat
  nReserve : Nat
  dbFileVers : Nat → UInt8
  pTmpSpace : Nat → UInt8
  pInJournal : Nat → Bool
  pPCache : Nat → Option PgHdr

def sqliteIocapSafeAppend : Nat := 0x200

def sqliteIocapSequential : Nat := 0x400

def aJournalMagic : Nat → UInt8 := fun index =>
  [0xd9, 0xd5, 0x05, 0xf9, 0x20, 0xa1, 0x63, 0xd7].getD index 0

def isMagic (buffer : Nat → UInt8) : Bool :=
  (List.range 8).all fun index => buffer index == aJournalMagic index

def cksumLoop (aData : Nat → UInt8) : (rounds i cksum : Nat) → Nat
  | 0, _, cksum => cksum
  | rounds + 1, i, cksum => cksumLoop aData rounds (i - 200) ((cksum + (aData i).toNat) % 2 ^ 32)

/-- `pager_cksum`, whose loop runs while `i` is positive. -/
def pagerCksum (cksumInit pageSize : Nat) (aData : Nat → UInt8) : Nat :=
  cksumLoop aData ((pageSize - 1) / 200) (pageSize - 200) cksumInit

def journalPgSz (pageSize : Nat) : Nat := pageSize + 8

def journalHdrOffset (sectorSize journalOff : Nat) : Nat :=
  if journalOff ≠ 0 then ((journalOff - 1) / sectorSize + 1) * sectorSize else 0

section Journal

variable {JournalFile DbFile : Type} (journal : IoMethods JournalFile)
  (database : IoMethods DbFile)

def headerBytes (pager : Pager JournalFile DbFile) (unsynced : Bool) (nHeader : Nat) :
    Nat → UInt8 :=
  let zHeader :=
    if unsynced then sqlite3Put4byte (memcpy pager.pTmpSpace 0 aJournalMagic 8) 8 0xffffffff
    else memsetZero pager.pTmpSpace 0 (8 + 4)
  let zHeader := sqlite3Put4byte zHeader 12 pager.cksumInit
  let zHeader := sqlite3Put4byte zHeader 16 pager.dbOrigSize
  let zHeader := sqlite3Put4byte zHeader 20 pager.sectorSize
  let zHeader := sqlite3Put4byte zHeader 24 pager.pageSize
  memsetZero zHeader 28 (nHeader - 28)

/-- The loop of `writeJournalHdr`. -/
def writeHeaderLoop (nHeader : Nat) :
    (rounds : Nat) → Pager JournalFile DbFile → Option (Nat × Pager JournalFile DbFile)
  | 0, pager => some (sqliteOk, pager)
  | rounds + 1, pager =>
      let moved := fun jfd => { pager with jfd, journalOff := pager.journalOff + nHeader }
      onOk (journal.xWrite pager.jfd pager.pTmpSpace nHeader pager.journalOff)
        (fun rc jfd => (rc, moved jfd)) fun jfd => writeHeaderLoop nHeader rounds (moved jfd)

/-- `writeJournalHdr`. `random` is what `sqlite3_randomness` yields. -/
def writeJournalHdr (random : Nat) (pager : Pager JournalFile DbFile) :
    Option (Nat × Pager JournalFile DbFile) :=
  let nHeader := if pager.pageSize > pager.sectorSize then pager.sectorSize else pager.pageSize
  let start := journalHdrOffset pager.sectorSize pager.journalOff
  let unsynced :=
    pager.noSync || database.xDeviceCharacteristics pager.fd &&& sqliteIocapSafeAppend != 0
  let pager := { pager with journalHdr := start, journalOff := start, cksumInit := random }
  let pager := { pager with pTmpSpace := headerBytes pager unsynced nHeader }
  writeHeaderLoop journal nHeader ((pager.sectorSize + nHeader - 1) / nHeader) pager

/-- `pager_open_journal`, where the journal file is open. -/
def pagerOpenJournal (random : Nat) (pager : Pager JournalFile DbFile) :
    Option (Nat × Pager JournalFile DbFile) :=
  let pager :=
    { pager with pInJournal := fun _ => false, nRec := 0, journalOff := 0, journalHdr := 0 }
  onOk (writeJournalHdr journal database random pager) Prod.mk fun pager =>
    some (sqliteOk, { pager with eState := .writerCachemod })

def Pager.updatePage (pager : Pager JournalFile DbFile) (pgno : Nat) (change : PgHdr → PgHdr) :
    Pager JournalFile DbFile :=
  { pager with
    pPCache := fun other => if other = pgno then (pager.pPCache other).map change
      else pager.pPCache other }

def pagerAddPageToRollbackJournal (stack : Nat → Nat → UInt8) (pager : Pager JournalFile DbFile)
    (pgno : Nat) : Option (Nat × Pager JournalFile DbFile) :=
  (pager.pPCache pgno).bind fun pPg =>
    let iOff := pager.journalOff
    let cksum := pagerCksum pager.cksumInit pager.pageSize pPg.pData
    let cksumOff := iOff + pager.pageSize + 4
    let pager := pager.updatePage pgno fun pPg => { pPg with needSync := true }
    let failed := fun rc jfd => (rc, { pager with jfd })
    onOk (write32bits journal (stack iOff) pager.jfd iOff pgno) failed fun jfd =>
      onOk (journal.xWrite jfd pPg.pData pager.pageSize (iOff + 4)) failed fun jfd =>
        onOk (write32bits journal (stack cksumOff) jfd cksumOff cksum) failed fun jfd =>
          some (sqliteOk, { pager with
            jfd
            journalOff := iOff + (8 + pager.pageSize)
            nRec := pager.nRec + 1
            pInJournal := fun other => if other = pgno then true else pager.pInJournal other })

/-- The part of `pager_write` that adds a page to the journal that is not there. -/
def journalPage (stack : Nat → Nat → UInt8) (pager : Pager JournalFile DbFile) (pgno : Nat) :
    Option (Nat × Pager JournalFile DbFile) :=
  if pager.pInJournal pgno then
    some (sqliteOk, pager)
  else if pgno ≤ pager.dbOrigSize then
    pagerAddPageToRollbackJournal journal stack pager pgno
  else if pager.eState ≠ .writerDbmod then
    some (sqliteOk, pager.updatePage pgno fun pPg => { pPg with needSync := true })
  else
    some (sqliteOk, pager)

/-- The end of `pager_write`. -/
def Pager.madeWriteable (pager : Pager JournalFile DbFile) (pgno : Nat) :
    Pager JournalFile DbFile :=
  { pager.updatePage pgno fun pPg => { pPg with writeable := true } with
    dbSize := if pager.dbSize < pgno then pgno else pager.dbSize }

/-- `pager_write` of a page in the cache. -/
def pagerWrite (random : Nat) (stack : Nat → Nat → UInt8) (pager : Pager JournalFile DbFile)
    (pgno : Nat) : Option (Nat × Pager JournalFile DbFile) :=
  onOk (if pager.eState = .writerLocked then pagerOpenJournal journal database random pager
    else some (sqliteOk, pager)) Prod.mk fun pager =>
      onOk (journalPage journal stack (pager.updatePage pgno PgHdr.makeDirty) pgno) Prod.mk
        fun pager => some (sqliteOk, pager.madeWriteable pgno)

/-- The part of `syncJournal` that stores the number of records in the last header.
`zerobyte` is the memory from the constant of that name on. -/
def storeRecordCount (stack : Nat → Nat → UInt8) (zerobyte : Nat → UInt8)
    (pager : Pager JournalFile DbFile) : Option (Nat × Pager JournalFile DbFile) :=
  let iDc := database.xDeviceCharacteristics pager.fd
  let zHeader := sqlite3Put4byte (memcpy (stack pager.journalHdr) 0 aJournalMagic 8) 8 pager.nRec
  let iNextHdrOffset := journalHdrOffset pager.sectorSize pager.journalOff
  let failed := fun rc jfd => (rc, { pager with jfd })
  (journal.xRead pager.jfd (stack iNextHdrOffset) 8 iNextHdrOffset).bind fun next =>
    (if next.1 = sqliteOk ∧ isMagic next.2.1 = true then
        journal.xWrite next.2.2 (memsetZero zerobyte 0 1) 1 iNextHdrOffset
      else some (next.1, next.2.2)).bind fun cleared =>
        if cleared.1 ≠ sqliteOk ∧ cleared.1 ≠ sqliteIoerrShortRead then
          some (failed cleared.1 cleared.2)
        else
          onOk (if pager.fullSync ∧ iDc &&& sqliteIocapSequential = 0 then
              journal.xSync cleared.2
            else some (sqliteOk, cleared.2)) failed fun jfd =>
              onOk (journal.xWrite jfd zHeader 12 pager.journalHdr) failed fun jfd =>
                some (sqliteOk, { pager with jfd })

/-- The end of `syncJournal`. -/
def synced (pager : Pager JournalFile DbFile) : Pager JournalFile DbFile :=
  { pager with
    pPCache := fun pgno => (pager.pPCache pgno).map fun pPg =>
      if pPg.dirty then { pPg with needSync := false } else pPg
    eState := .writerDbmod }

/-- `syncJournal`, where the database file can be locked. -/
def syncJournal (random : Nat) (stack : Nat → Nat → UInt8) (zerobyte : Nat → UInt8)
    (pager : Pager JournalFile DbFile) (newHdr : Bool) :
    Option (Nat × Pager JournalFile DbFile) :=
  let iDc := database.xDeviceCharacteristics pager.fd
  if pager.noSync then
    some (sqliteOk, synced pager)
  else
    onOk (if iDc &&& sqliteIocapSafeAppend = 0 then
        storeRecordCount journal database stack zerobyte pager
      else some (sqliteOk, pager)) Prod.mk fun pager =>
        onOk (if iDc &&& sqliteIocapSequential = 0 then journal.xSync pager.jfd
          else some (sqliteOk, pager.jfd)) (fun rc jfd => (rc, { pager with jfd })) fun jfd =>
            let pager := { pager with jfd, journalHdr := pager.journalOff }
            if newHdr = true ∧ iDc &&& sqliteIocapSafeAppend = 0 then
              onOk (writeJournalHdr journal database random { pager with nRec := 0 }) Prod.mk
                fun pager => some (sqliteOk, synced pager)
            else
              some (sqliteOk, synced pager)

end Journal

end EspSqlite.Rollback
