import EspSqlite.Rollback.Journal

/-! # Playing the rollback journal back

What `pager_playback` does with the journal of a transaction that the same process
rolls back, up to the journal's end. The journal is not finalized here. -/

namespace EspSqlite.Rollback

open Vfs

def sqliteDone : Nat := 101

def sqliteMaxPageSize : Nat := 65536

def maxSectorSize : Nat := 0x10000

/-- `PAGER_MJ_PGNO`, with `PENDING_BYTE` at 1 GiB. -/
def pagerMjPgno (pageSize : Nat) : Nat := 0x40000000 / pageSize + 1

/-- The number of records that `pager_playback` looks for after a header that says
`nRec` and ends at `journalOff`. -/
def recordCount (pageSize sectorSize journalHdr szJ journalOff nRec : Nat) : Nat :=
  let nRec :=
    if nRec = 0xffffffff then (szJ - sectorSize) / journalPgSz pageSize else nRec
  if nRec = 0 ∧ journalHdr + sectorSize = journalOff then
    (szJ - journalOff) / journalPgSz pageSize
  else nRec

section Playback

variable {JournalFile DbFile : Type} (journal : IoMethods JournalFile)
  (database : IoMethods DbFile)

/-- `readMasterJournal`: the value returned, the buffer at `zMaster` and the file.
`char` is the value of a character. -/
def readMasterJournal (char : UInt8 → Int) (stack : Nat → Nat → UInt8) (pJrnl : JournalFile)
    (zMaster : Nat → UInt8) (nMaster : Nat) :
    Option (Nat × (Nat → UInt8) × JournalFile) :=
  let zMaster := memsetZero zMaster 0 1
  let failed : Nat → Nat × JournalFile → Nat × (Nat → UInt8) × JournalFile :=
    fun rc read => (rc, zMaster, read.2)
  let absent := fun pJrnl : JournalFile => some (sqliteOk, zMaster, pJrnl)
  onOk (journal.xFileSize pJrnl) (fun rc _ => (rc, zMaster, pJrnl)) fun szJ =>
    if szJ < 16 then absent pJrnl
    else
      onOk (read32bits journal (stack (szJ - 16)) pJrnl (szJ - 16)) failed fun (len, pJrnl) =>
        if len ≥ nMaster ∨ len = 0 then absent pJrnl
        else
          onOk (read32bits journal (stack (szJ - 12)) pJrnl (szJ - 12)) failed
            fun (cksum, pJrnl) =>
              onOk (journal.xRead pJrnl (stack (szJ - 8)) 8 (szJ - 8))
                (fun rc read => (rc, zMaster, read.2)) fun (aMagic, pJrnl) =>
                  if !isMagic aMagic then absent pJrnl
                  else
                    onOk (journal.xRead pJrnl zMaster len (szJ - 16 - len)) Prod.mk
                      fun (zMaster, pJrnl) =>
                        let cksum : Int := (List.range len).foldl
                          (fun cksum u => cksum - char (zMaster u)) cksum
                        let len := if cksum % 2 ^ 32 ≠ 0 then 0 else len
                        some (sqliteOk, memsetZero zMaster len 1, pJrnl)

/-- `readJournalHdr`: the value returned, `*pNRec`, `*pDbSize` and the pager. A
header with another page size is left out. -/
def readJournalHdr (stack : Nat → Nat → UInt8) (pager : Pager JournalFile DbFile)
    (journalSize : Nat) : Option (Nat × Nat × Nat × Pager JournalFile DbFile) :=
  let iHdrOff := journalHdrOffset pager.sectorSize pager.journalOff
  let pager := { pager with journalOff := iHdrOff }
  let stop := fun rc jfd => (rc, 0, 0, { pager with jfd })
  let failed : Nat → Nat × JournalFile → Nat × Nat × Nat × Pager JournalFile DbFile :=
    fun rc read => stop rc read.2
  let field := fun offset jfd =>
    read32bits journal (stack (iHdrOff + offset)) jfd (iHdrOff + offset)
  if iHdrOff + pager.sectorSize > journalSize then
    some (stop sqliteDone pager.jfd)
  else
    onOk (if iHdrOff ≠ pager.journalHdr then journal.xRead pager.jfd (stack iHdrOff) 8 iHdrOff
        else some (sqliteOk, aJournalMagic, pager.jfd))
      (fun rc read => stop rc read.2) fun (aMagic, jfd) =>
        if !isMagic aMagic then some (stop sqliteDone jfd)
        else
          onOk (field 8 jfd) failed fun (nRec, jfd) =>
            onOk (field 12 jfd) failed fun (cksumInit, jfd) =>
              let pager := { pager with cksumInit }
              let failed : Nat → Nat × JournalFile → Nat × Nat × Nat × Pager JournalFile DbFile :=
                fun rc read => (rc, 0, 0, { pager with jfd := read.2 })
              onOk (field 16 jfd) failed fun (dbSize, jfd) =>
                let pager := { pager with jfd }
                if iHdrOff = 0 then
                  onOk (field 20 jfd) failed fun (iSectorSize, jfd) =>
                    onOk (field 24 jfd) failed fun (iPageSize, jfd) =>
                      let iPageSize := if iPageSize = 0 then pager.pageSize else iPageSize
                      if iPageSize < 512 ∨ iSectorSize < 32 ∨ iPageSize > sqliteMaxPageSize ∨
                          iSectorSize > maxSectorSize ∨ (iPageSize - 1) &&& iPageSize ≠ 0 ∨
                          (iSectorSize - 1) &&& iSectorSize ≠ 0 then
                        some (sqliteDone, nRec, dbSize, { pager with jfd })
                      else if iPageSize ≠ pager.pageSize then none
                      else
                        some (sqliteOk, nRec, dbSize,
                          { pager with
                            jfd
                            sectorSize := iSectorSize
                            journalOff := iHdrOff + iSectorSize })
                else
                  some (sqliteOk, nRec, dbSize,
                    { pager with journalOff := iHdrOff + pager.sectorSize })

/-- The end of `pager_playback_one_page`, where the page was read to the temporary
page: it is stored in the database file and in the cache. -/
def restorePage (pager : Pager JournalFile DbFile) (pgno : Nat) :
    Option (Nat × Pager JournalFile DbFile) :=
  let aData := pager.pTmpSpace
  let pager := { pager with nReserve := if pgno = 1 then (aData 20).toNat else pager.nReserve }
  let isSynced := pager.noSync || decide (pager.journalOff ≤ pager.journalHdr)
  (if pager.eState.mayWrite && isSynced then
      (database.xWrite pager.fd aData pager.pageSize ((pgno - 1) * pager.pageSize)).map
        fun written => (written.1, { pager with
          fd := written.2
          dbFileSize := if pgno > pager.dbFileSize then pgno else pager.dbFileSize })
    else some (sqliteOk, pager)).map fun stored =>
      let pager := stored.2
      let restored := pager.updatePage pgno fun pPg =>
        { pPg with pData := memcpy pPg.pData 0 aData pager.pageSize }
      (stored.1, { restored with
        dbFileVers := if pgno = 1 ∧ (pager.pPCache pgno).isSome = true then
            memcpy pager.dbFileVers 0 (fun index => aData (24 + index)) 16
          else pager.dbFileVers })

/-- `pager_playback_one_page` for the main journal and no savepoint, at the offset
`journalOff`. -/
def pagerPlaybackOnePage (stack : Nat → Nat → UInt8) (pager : Pager JournalFile DbFile) :
    Option (Nat × Pager JournalFile DbFile) :=
  let start := pager.journalOff
  let stop := start + (pager.pageSize + 4 + 1 * 4)
  let failed : Nat → Nat × JournalFile → Nat × Pager JournalFile DbFile :=
    fun rc read => (rc, { pager with jfd := read.2 })
  onOk (read32bits journal (stack start) pager.jfd start) failed fun (pgno, jfd) =>
    onOk (journal.xRead jfd pager.pTmpSpace pager.pageSize (start + 4))
      (fun rc read => (rc, { pager with jfd := read.2, pTmpSpace := read.1 })) fun (aData, jfd) =>
        let pager := { pager with jfd, pTmpSpace := aData, journalOff := stop }
        if pgno = 0 ∨ pgno = pagerMjPgno pager.pageSize then
          some (sqliteDone, pager)
        else if pgno > pager.dbSize then
          some (sqliteOk, pager)
        else
          onOk (read32bits journal (stack (stop - 4)) pager.jfd (stop - 4))
            (fun rc read => (rc, { pager with jfd := read.2 })) fun (cksum, jfd) =>
              let pager := { pager with jfd }
              if pagerCksum pager.cksumInit pager.pageSize aData ≠ cksum then
                some (sqliteDone, pager)
              else restorePage database pager pgno

/-- The loop of `pager_playback` over the records of one header. The first result
says whether it goes to `end_playback`. -/
def playbackRecords (stack : Nat → Nat → UInt8) (szJ : Nat) :
    (rounds : Nat) → Pager JournalFile DbFile → Option (Bool × Nat × Pager JournalFile DbFile)
  | 0, pager => some (false, sqliteOk, pager)
  | rounds + 1, pager =>
      (pagerPlaybackOnePage journal database stack pager).bind fun (rc, pager) =>
        if rc = sqliteOk then playbackRecords stack szJ rounds pager
        else if rc = sqliteDone then some (false, rc, { pager with journalOff := szJ })
        else if rc = sqliteIoerrShortRead then some (true, sqliteOk, pager)
        else some (true, rc, pager)

def pagerTruncate (pager : Pager JournalFile DbFile) (nPage : Nat) :
    Option (Nat × Pager JournalFile DbFile) :=
  if pager.eState.mayWrite then
    onOk (database.xFileSize pager.fd) (fun rc _ => (rc, pager)) fun currentSize =>
      let newSize := pager.pageSize * nPage
      let zeros := memsetZero pager.pTmpSpace 0 pager.pageSize
      let changed := fun fd => { pager with fd, dbFileSize := nPage }
      if currentSize > newSize then
        onOk (database.xTruncate pager.fd newSize) (fun rc fd => (rc, { pager with fd }))
          fun fd => some (sqliteOk, changed fd)
      else if currentSize + pager.pageSize ≤ newSize then
        onOk (database.xWrite pager.fd zeros pager.pageSize (newSize - pager.pageSize))
          (fun rc fd => (rc, { pager with fd, pTmpSpace := zeros }))
          fun fd => some (sqliteOk, { changed fd with pTmpSpace := zeros })
      else if currentSize ≠ newSize then
        some (sqliteOk, changed pager.fd)
      else
        some (sqliteOk, pager)
  else
    some (sqliteOk, pager)

/-- The loop of `pager_playback`, with at most `fuel` headers to read. -/
def playbackLoop (stack : Nat → Nat → UInt8) (szJ : Nat) :
    (fuel : Nat) → Pager JournalFile DbFile → Option (Nat × Pager JournalFile DbFile)
  | 0, _ => none
  | fuel + 1, pager =>
      (readJournalHdr journal stack pager szJ).bind fun (rc, nRec, mxPg, pager) =>
        if rc ≠ sqliteOk then
          some (if rc = sqliteDone then sqliteOk else rc, pager)
        else
          onOk (if pager.journalOff = pager.sectorSize then
              onOk (pagerTruncate database pager mxPg) Prod.mk fun pager =>
                some (sqliteOk, { pager with dbSize := mxPg })
            else some (sqliteOk, pager)) Prod.mk fun pager =>
              let count := recordCount pager.pageSize pager.sectorSize pager.journalHdr szJ
                pager.journalOff nRec
              (playbackRecords journal database stack szJ count pager).bind
                fun (ends, rc, pager) =>
                  if ends then some (rc, pager) else playbackLoop stack szJ fuel pager

/-- `pager_playback` up to `end_playback`, for a journal that is not hot. `access`
says which master journals there are, whose names are at most `mxPathname`
characters long. -/
def pagerPlayback (char : UInt8 → Int) (access : (Nat → UInt8) → Bool) (mxPathname : Nat)
    (stack : Nat → Nat → UInt8) (pager : Pager JournalFile DbFile) :
    Option (Nat × Pager JournalFile DbFile) :=
  onOk (journal.xFileSize pager.jfd) (fun rc _ => (rc, pager)) fun szJ =>
    onOk (readMasterJournal journal char stack pager.jfd pager.pTmpSpace (mxPathname + 1))
      (fun rc read => (rc, { pager with pTmpSpace := read.1, jfd := read.2 }))
      fun (zMaster, jfd) =>
        let pager := { pager with pTmpSpace := zMaster, jfd }
        if zMaster 0 ≠ 0 ∧ access zMaster = false then some (sqliteOk, pager)
        else playbackLoop journal database stack szJ (szJ + 1) { pager with journalOff := 0 }

end Playback

end EspSqlite.Rollback
