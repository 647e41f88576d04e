import EspSqlite.Foundation.Program
import EspSqlite.Rollback.Transaction

/-! # Calls of the pager

`sqlite3PagerGet` and `sqlite3PagerWrite`, which journals all pages of a sector, as
programs of the actions of a transaction, and the calls that a transaction is made of. -/

namespace EspSqlite.Rollback

open Vfs (sqliteOk)

def sqliteBusy : Nat := 5

/-- What the functions see of a pager: its fields, and the tests of its journalled pages
by their numbers of 32 bits. -/
structure PagerView (JournalFile DbFile : Type) where
  pager : Pager JournalFile DbFile
  test : Nat → Option Bool

def Pager.view {JournalFile DbFile : Type} (pager : Pager JournalFile DbFile) :
    PagerView JournalFile DbFile where
  pager := pager
  test := fun pgno => some (pager.pInJournal (pgno % 2 ^ 32))

@[simp]
theorem Pager.view_pager {JournalFile DbFile : Type} (pager : Pager JournalFile DbFile) :
    pager.view.pager = pager := rfl

inductive Leaving
  | spill (random : Nat) (stack : Nat → Nat → UInt8) (zerobyte : Nat → UInt8) (pgno : Nat)
  | drop (pgno : Nat)

def Leaving.action : Leaving → Action
  | .spill random stack zerobyte pgno => .spill random stack zerobyte pgno
  | .drop pgno => .drop pgno

/-- What is met when a page is fetched, and then journalled: the pages that leave the
cache for it, `mxPgno`, and what is in memory. -/
structure Fetch where
  leaving : List Leaving
  mxPgno : Nat
  pData : Nat → UInt8
  random : Nat
  stack : Nat → Nat → UInt8

section Calls

variable {JournalFile DbFile : Type}

abbrev PagerProgram (JournalFile DbFile Result : Type) : Type :=
  Program (PagerView JournalFile DbFile) Action Nat Result

/-- `sqlite3PagerLookup`, without the reference to the page. -/
def sqlite3PagerLookup (pgno : Nat) : PagerProgram JournalFile DbFile (Option PgHdr) := do
  let view ← .see
  pure (view.pager.pPCache pgno)

def pageOf (pgno : Nat) : PagerProgram JournalFile DbFile PgHdr := do
  match ← sqlite3PagerLookup pgno with
  | some pPage => pure pPage
  | none => .undefined

def inJournal (pgno : Nat) : PagerProgram JournalFile DbFile Bool := do
  let view ← .see
  match view.test pgno with
  | some answer => pure answer
  | none => .undefined

/-- The part of `getPageNormal` where `sqlite3PcacheFetch` and `sqlite3PcacheFetchStress`
find room. -/
def makeRoom : List Leaving → PagerProgram JournalFile DbFile Nat
  | [] => pure sqliteOk
  | leaving :: rest => do
      let rc ← .act leaving.action
      if rc ≠ sqliteOk ∧ rc ≠ sqliteBusy then pure rc else makeRoom rest

def sqlite3PagerGet (fetch : Fetch) (pgno : Nat) : PagerProgram JournalFile DbFile Nat := do
  let rc ← makeRoom fetch.leaving
  if rc ≠ sqliteOk then pure rc else .act (.get fetch.mxPgno fetch.pData pgno)

def inJournalBefore (pgno pg : Nat) : PagerProgram JournalFile DbFile Bool :=
  if pg = pgno then pure false else inJournal pg

/-- A round of the first loop of `pagerWriteLargeSector`: `rc`, and whether the page has
`PGHDR_NEED_SYNC`. -/
def sectorRound (fetch : Fetch) (pgno pg : Nat) : PagerProgram JournalFile DbFile (Nat × Bool) := do
  let journalled ← inJournalBefore pgno pg
  let view ← .see
  if journalled = false then
    if pg ≠ pagerMjPgno view.pager.pageSize then
      let rc ← sqlite3PagerGet fetch pg
      if rc = sqliteOk then
        let rc ← .act (.write fetch.random fetch.stack pg)
        let pPage ← pageOf pg
        pure (rc, pPage.needSync)
      else
        pure (rc, false)
    else
      pure (sqliteOk, false)
  else
    match ← sqlite3PagerLookup pg with
    | some pPage => pure (sqliteOk, pPage.needSync)
    | none => pure (sqliteOk, false)

/-- The first loop of `pagerWriteLargeSector`, over the pages from `pg` on: `rc` and
`needSync`. -/
def journalSector (fetches : Nat → Fetch) (pgno : Nat) :
    (rounds pg : Nat) → (needSync : Bool) → PagerProgram JournalFile DbFile (Nat × Bool)
  | 0, _, needSync => pure (sqliteOk, needSync)
  | rounds + 1, pg, needSync => do
      let (rc, waits) ← sectorRound (fetches pg) pgno pg
      if rc ≠ sqliteOk then pure (rc, needSync || waits)
      else journalSector fetches pgno rounds (pg + 1) (needSync || waits)

/-- The second loop of `pagerWriteLargeSector`, over the pages from `pg` on. -/
def spreadSync : (rounds pg : Nat) → PagerProgram JournalFile DbFile Unit
  | 0, _ => pure ()
  | rounds + 1, pg => do
      let pPage ← sqlite3PagerLookup pg
      if pPage.isSome then
        let _ ← .act (.needSync pg)
        spreadSync rounds (pg + 1)
      else
        spreadSync rounds (pg + 1)

/-- The first page of the sector of a page, where `nPagePerSector` is a power of two. -/
def firstOfSector (nPagePerSector pgno : Nat) : Nat :=
  ((pgno - 1) &&& (2 ^ 32 - nPagePerSector)) + 1

/-- `nPage` of `pagerWriteLargeSector`. -/
def pagesOfSector (nPagePerSector nPageCount pg1 pgno : Nat) : Nat :=
  if pgno > nPageCount then pgno - pg1 + 1
  else if pg1 + nPagePerSector - 1 > nPageCount then nPageCount + 1 - pg1
  else nPagePerSector

section Sector

variable {nPagePerSector nPageCount pgno page : Nat}

theorem and_complement (size width : Nat) {value : Nat} (small : value < 2 ^ width)
    (inWord : size ≤ width) : value &&& (2 ^ width - 2 ^ size) = value / 2 ^ size * 2 ^ size := by
  have mask : 2 ^ width - 2 ^ size = (2 ^ (width - size) - 1) <<< size := by
    rw [Nat.shiftLeft_eq, Nat.sub_mul, Nat.one_mul, ← Nat.pow_add, Nat.sub_add_cancel inWord]
  rw [mask, ← Nat.shiftRight_eq_div_pow, ← Nat.shiftLeft_eq]
  apply Nat.eq_of_testBit_eq
  intro index
  simp only [Nat.testBit_and, Nat.testBit_shiftLeft, Nat.testBit_two_pow_sub_one,
    Nat.testBit_shiftRight]
  by_cases below : index < size
  · simp [Nat.not_le.mpr below]
  · have isIndex : size + (index - size) = index := by omega
    rw [isIndex]
    by_cases inside : index < width
    · have inMask : index - size < width - size := by omega
      simp [inMask, Nat.not_lt.mp below]
    · rw [Nat.testBit_lt_two_pow (Nat.lt_of_lt_of_le small
        (Nat.pow_le_pow_right (by decide) (Nat.not_lt.mp inside)))]
      simp

def SameSector (nPagePerSector left right : Nat) : Prop :=
  (left - 1) / nPagePerSector = (right - 1) / nPagePerSector

theorem mem_sector {exponent : Nat} (inWord : exponent ≤ 32) (nonzero : page ≠ 0)
    (inDatabase : page ≤ nPageCount) (small : pgno < 2 ^ 32)
    (together : SameSector (2 ^ exponent) page pgno) :
    firstOfSector (2 ^ exponent) pgno ≤ page ∧
      page < firstOfSector (2 ^ exponent) pgno +
        pagesOfSector (2 ^ exponent) nPageCount (firstOfSector (2 ^ exponent) pgno) pgno := by
  have isFirst :
      firstOfSector (2 ^ exponent) pgno = (page - 1) / 2 ^ exponent * 2 ^ exponent + 1 := by
    rw [firstOfSector, and_complement exponent 32 (Nat.lt_of_le_of_lt (Nat.sub_le _ _) small)
      inWord, together]
  have split := Nat.div_add_mod (page - 1) (2 ^ exponent)
  have inSector := Nat.mod_lt (page - 1) (Nat.two_pow_pos exponent)
  rw [Nat.mul_comm] at split
  rw [isFirst, pagesOfSector]
  constructor
  · omega
  · split <;> try split
    all_goals omega

end Sector

def pagerWriteLargeSector (fetches : Nat → Fetch) (pgno : Nat) :
    PagerProgram JournalFile DbFile Nat := do
  let view ← .see
  let nPagePerSector := view.pager.sectorSize / view.pager.pageSize
  let pg1 := firstOfSector nPagePerSector pgno
  let nPage := pagesOfSector nPagePerSector view.pager.dbSize pg1 pgno
  let _ ← .act (.doNotSpill (view.pager.doNotSpill ||| spillflagNosync))
  let (rc, needSync) ← journalSector fetches pgno nPage pg1 false
  if rc = sqliteOk ∧ needSync = true then
    spreadSync nPage pg1
  let view ← .see
  let _ ← .act (.doNotSpill (view.pager.doNotSpill &&& (0xff - spillflagNosync)))
  pure rc

/-- `sqlite3PagerWrite` of a page in the cache, where there are no savepoints and was no
error. -/
def sqlite3PagerWrite (fetches : Nat → Fetch) (pgno : Nat) :
    PagerProgram JournalFile DbFile Nat := do
  let pPg ← pageOf pgno
  let view ← .see
  if pPg.writeable = true ∧ pgno ≤ view.pager.dbSize then
    pure sqliteOk
  else if view.pager.sectorSize > view.pager.pageSize then
    pagerWriteLargeSector fetches pgno
  else
    .act (.write (fetches pgno).random (fetches pgno).stack pgno)

/-- A call of a transaction, or what happens to the cache between two: `sqlite3PagerGet`,
`sqlite3PagerWrite`, a change of a page by its user, `sqlite3PagerDontWrite`,
`pagerStress`, and a clean page that leaves the cache. -/
inductive Call
  | get (fetch : Fetch) (pgno : Nat)
  | write (fetches : Nat → Fetch) (pgno : Nat)
  | modify (pgno : Nat) (pData : Nat → UInt8)
  | dontWrite (pgno : Nat)
  | leave (leaving : Leaving)

def Call.program : Call → PagerProgram JournalFile DbFile Nat
  | .get fetch pgno => sqlite3PagerGet fetch pgno
  | .write fetches pgno => sqlite3PagerWrite fetches pgno
  | .modify pgno pData => .act (.modify pgno pData)
  | .dontWrite pgno => .act (.dontWrite pgno)
  | .leave leaving => .act leaving.action

end Calls

end EspSqlite.Rollback
