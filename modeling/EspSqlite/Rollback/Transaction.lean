import EspSqlite.Rollback.Layout

/-! # Write transactions

What a transaction does through the pager: it fetches pages, journals and changes
them, and the cache writes dirty pages to the database file and drops clean ones. -/

namespace EspSqlite.Rollback

open Vfs (sqliteOk sqliteIoerrShortRead)

def sqliteCorrupt : Nat := 11

def sqliteFull : Nat := 13

def pagerMaxPgno : Nat := 2147483647

def sqliteVersionNumber : Nat := 3019003

section Pages

variable {JournalFile DbFile : Type} (journal : IoMethods JournalFile)
  (database : IoMethods DbFile)

/-- `sqlite3PagerBegin` of a reader whose file can be locked. -/
def sqlite3PagerBegin (pager : Pager JournalFile DbFile) : Pager JournalFile DbFile :=
  { pager with
    eState := .writerLocked
    dbFileSize := pager.dbSize
    dbOrigSize := pager.dbSize
    journalOff := 0 }

/-- `readDbPage`: the value returned, the page and the pager. -/
def readDbPage (pData : Nat → UInt8) (pager : Pager JournalFile DbFile) (pgno : Nat) :
    Option (Nat × (Nat → UInt8) × Pager JournalFile DbFile) :=
  (database.xRead pager.fd pData pager.pageSize ((pgno - 1) * pager.pageSize)).map
    fun (rc, pData, fd) =>
      let rc := if rc = sqliteIoerrShortRead then sqliteOk else rc
      let version := if rc ≠ sqliteOk then fun _ => 0xff else fun index => pData (24 + index)
      (rc, pData, { pager with
        fd
        dbFileVers := if pgno = 1 then memcpy pager.dbFileVers 0 version 16
          else pager.dbFileVers })

def Pager.insertPage (pager : Pager JournalFile DbFile) (pgno : Nat) (pPg : Option PgHdr) :
    Pager JournalFile DbFile :=
  { pager with pPCache := fun other => if other = pgno then pPg else pager.pPCache other }

/-- `getPageNormal`, where the cache has room for a page, with `pData` in its memory. -/
def getPageNormal (mxPgno : Nat) (pData : Nat → UInt8) (pager : Pager JournalFile DbFile)
    (pgno : Nat) : Option (Nat × Pager JournalFile DbFile) :=
  if pgno = 0 then
    some (sqliteCorrupt, pager)
  else if (pager.pPCache pgno).isSome then
    some (sqliteOk, pager)
  else if pgno > pagerMaxPgno ∨ pgno = pagerMjPgno pager.pageSize then
    some (sqliteCorrupt, pager)
  else if pager.dbSize < pgno then
    if pgno > mxPgno then
      some (sqliteFull, pager)
    else
      some (sqliteOk,
        pager.insertPage pgno (some (.fetched (memsetZero pData 0 pager.pageSize))))
  else
    (readDbPage database pData pager pgno).map fun (rc, pData, pager) =>
      (rc, if rc = sqliteOk then pager.insertPage pgno (some (.fetched pData)) else pager)

def pagerWriteChangecounter (dbFileVers pData : Nat → UInt8) : Nat → UInt8 :=
  let changeCounter := (sqlite3Get4byte dbFileVers + 1) % 2 ^ 32
  let pData := sqlite3Put4byte pData 24 changeCounter
  let pData := sqlite3Put4byte pData 92 changeCounter
  sqlite3Put4byte pData 96 sqliteVersionNumber

/-- `pager_write_pagelist` for a list of one page. -/
def pagerWritePagelist (pager : Pager JournalFile DbFile) (pgno : Nat) :
    Option (Nat × Pager JournalFile DbFile) :=
  (pager.pPCache pgno).bind fun pPg =>
    if pgno ≤ pager.dbSize ∧ pPg.dontWrite = false then
      let pData :=
        if pgno = 1 then pagerWriteChangecounter pager.dbFileVers pPg.pData else pPg.pData
      let pager := pager.updatePage pgno fun pPg => { pPg with pData }
      (database.xWrite pager.fd pData pager.pageSize ((pgno - 1) * pager.pageSize)).map
        fun (rc, fd) => (rc, { pager with
          fd
          dbFileVers := if pgno = 1 then
              memcpy pager.dbFileVers 0 (fun index => pData (24 + index)) 16
            else pager.dbFileVers
          dbFileSize := if pgno > pager.dbFileSize then pgno else pager.dbFileSize })
    else
      some (sqliteOk, pager)

def spillflagOff : Nat := 1

def spillflagRollback : Nat := 2

def spillflagNosync : Nat := 4

/-- The test of `pagerStress` for a page that it leaves dirty. -/
def Pager.keeps (pager : Pager JournalFile DbFile) (pPg : PgHdr) : Bool :=
  pager.doNotSpill != 0 &&
    (pager.doNotSpill &&& (spillflagRollback ||| spillflagOff) != 0 || pPg.needSync)

/-- `pagerStress` of a dirty page. -/
def pagerStress (random : Nat) (stack : Nat → Nat → UInt8) (zerobyte : Nat → UInt8)
    (pager : Pager JournalFile DbFile) (pgno : Nat) : Option (Nat × Pager JournalFile DbFile) :=
  (pager.pPCache pgno).bind fun pPg =>
    if pager.keeps pPg then
      some (sqliteOk, pager)
    else
      onOk (if pPg.needSync = true ∨ pager.eState = .writerCachemod then
          syncJournal journal database random stack zerobyte pager true
        else some (sqliteOk, pager)) Prod.mk fun pager =>
          onOk (pagerWritePagelist database pager pgno) Prod.mk fun pager =>
            some (sqliteOk, pager.updatePage pgno PgHdr.makeClean)

/-- `sqlite3PagerDontWrite`, of a pager without savepoints. -/
def sqlite3PagerDontWrite (pager : Pager JournalFile DbFile) (pgno : Nat) :
    Pager JournalFile DbFile :=
  pager.updatePage pgno fun pPg =>
    if pPg.dirty then { pPg with dontWrite := true, writeable := false } else pPg

/-- What happens to a pager in a transaction, with what is in the memory that is used for
it. -/
inductive Action
  | get (mxPgno : Nat) (pData : Nat → UInt8) (pgno : Nat)
  | write (random : Nat) (stack : Nat → Nat → UInt8) (pgno : Nat)
  | modify (pgno : Nat) (pData : Nat → UInt8)
  | dontWrite (pgno : Nat)
  | spill (random : Nat) (stack : Nat → Nat → UInt8) (zerobyte : Nat → UInt8) (pgno : Nat)
  | drop (pgno : Nat)
  | needSync (pgno : Nat)
  | doNotSpill (flags : Nat)

def transact (pager : Pager JournalFile DbFile) : Action →
    Option (Nat × Pager JournalFile DbFile)
  | .get mxPgno pData pgno => getPageNormal database mxPgno pData pager pgno
  | .write random stack pgno => pagerWrite journal database random stack pager pgno
  | .modify pgno pData => some (sqliteOk, pager.updatePage pgno fun pPg => { pPg with pData })
  | .dontWrite pgno => some (sqliteOk, sqlite3PagerDontWrite pager pgno)
  | .spill random stack zerobyte pgno =>
      pagerStress journal database random stack zerobyte pager pgno
  | .drop pgno => some (sqliteOk, pager.insertPage pgno none)
  | .needSync pgno =>
      some (sqliteOk, pager.updatePage pgno fun pPg => { pPg with needSync := true })
  | .doNotSpill doNotSpill => some (sqliteOk, { pager with doNotSpill })

end Pages

end EspSqlite.Rollback
