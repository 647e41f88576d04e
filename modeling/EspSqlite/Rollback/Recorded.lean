import EspSqlite.Foundation.Trace
import EspSqlite.Rollback.Transaction

/-! # Original pages are recorded

What holds in a transaction about the pages of the database when it began: each is
still there, or in a record that will restore it. -/

namespace EspSqlite.Rollback

open Journal (BlockFile MemFile)

/-! ## The records of a journal -/

section Places

variable {pageSize sectorSize dbOrigSize : Nat} {map : BlockFile}

theorem recordPlaces_append {records : List Record} {later : List Record} :
    ∀ {position : Nat}, recordPlaces pageSize position (records ++ later) =
      recordPlaces pageSize position records ++
        recordPlaces pageSize (position + records.length * journalPgSz pageSize) later := by
  induction records with
  | nil =>
      intro position
      rw [List.length_nil, Nat.zero_mul]
      rfl
  | cons record rest induction =>
      intro position
      rw [List.cons_append, recordPlaces, induction, recordPlaces, List.length_cons, Nat.succ_mul,
        List.cons_append, Nat.add_assoc position, Nat.add_comm (journalPgSz pageSize)]

theorem le_of_mem_recordPlaces {records : List Record} : ∀ {position : Nat}
    {place : Nat × Record}, place ∈ recordPlaces pageSize position records →
    place.1 + journalPgSz pageSize ≤ position + records.length * journalPgSz pageSize := by
  induction records with
  | nil => exact fun member => absurd member List.not_mem_nil
  | cons record rest induction =>
      intro position place member
      rw [List.length_cons, Nat.succ_mul]
      rcases List.mem_cons.mp member with rfl | member
      · simp only
        omega
      · have later := induction member
        omega

theorem ClosedAt.places_append {closed rest : List Segment} {stop : Nat} : ∀ {position : Nat},
    ClosedAt pageSize sectorSize dbOrigSize map position closed stop →
    places pageSize sectorSize position (closed ++ rest) =
      places pageSize sectorSize position closed ++ places pageSize sectorSize stop rest := by
  induction closed with
  | nil =>
      rintro position rfl
      rfl
  | cons segment others induction =>
      intro position held
      rw [List.cons_append, places, places, induction held.2.2.2.2, List.append_assoc]

theorem ClosedAt.le_of_mem (power : BlockPower sectorSize) {closed : List Segment} {stop : Nat}
    {place : Nat × Record} : ∀ {position : Nat},
    ClosedAt pageSize sectorSize dbOrigSize map position closed stop →
    place ∈ places pageSize sectorSize position closed →
    place.1 + journalPgSz pageSize ≤ stop := by
  induction closed with
  | nil => exact fun _ member => absurd member List.not_mem_nil
  | cons segment others induction =>
      intro position held member
      rcases List.mem_append.mp member with here | later
      · have atMost := held.2.2.2.2.le power
        rw [segmentEnd] at atMost
        exact Nat.le_trans (le_of_mem_recordPlaces here) atMost
      · exact induction held.2.2.2.2 later

variable {DbFile : Type}

def Pager.places (pager : Pager MemFile DbFile) (closed : List Segment) (records : List Record) :
    List (Nat × Record) :=
  Rollback.places pager.pageSize pager.sectorSize 0 closed ++
    recordPlaces pager.pageSize (pager.journalHdr + pager.sectorSize) records

variable {pager : Pager MemFile DbFile} {start : Nat} {closed : List Segment}
  {records : List Record}

theorem Layout.places_eq (layout : Layout map start closed records pager) (segment : Segment)
    (same : segment.records = records) :
    Rollback.places pager.pageSize pager.sectorSize 0 (closed ++ [segment]) =
      pager.places closed records := by
  rw [layout.closedAt.places_append, Rollback.places, Rollback.places, List.append_nil, same,
    ← layout.atHeader]
  rfl

theorem Layout.le_of_mem (layout : Layout map start closed records pager) {place : Nat × Record}
    (member : place ∈ pager.places closed records) :
    place.1 + journalPgSz pager.pageSize ≤ pager.journalOff := by
  have after := (journalHdrOffset_bounds layout.sizes.sector start).1
  rw [← layout.atHeader] at after
  have isOff := layout.journalOff
  rcases List.mem_append.mp member with early | late
  · have inside := layout.closedAt.le_of_mem layout.sizes.sector early
    omega
  · have inside := le_of_mem_recordPlaces late
    omega

theorem Layout.places_snoc (layout : Layout map start closed records pager) (record : Record) :
    pager.places closed (records ++ [record]) =
      pager.places closed records ++ [(pager.journalOff, record)] := by
  rw [Pager.places, recordPlaces_append, ← List.append_assoc, layout.journalOff]
  rfl

end Places

/-! ## Pages of the database when the transaction began -/

def SamePage (pageSize : Nat) (origin file : ByteFile) (pgno : Nat) : Prop :=
  ∀ index < pageSize, file.byte ((pgno - 1) * pageSize + index) =
    origin.byte ((pgno - 1) * pageSize + index)

def HoldsPage (pageSize : Nat) (origin : ByteFile) (pgno : Nat) (pData : Nat → UInt8) : Prop :=
  ∀ index < pageSize, pData index = origin.byte ((pgno - 1) * pageSize + index)

def Listed (list : List (Nat × Record)) (pgno : Nat) : Prop :=
  ∃ place ∈ list, place.2.pgno = pgno

section Recorded

variable {JournalFile DbFile : Type}

/-- The bytes of the original pages are in records, or where they were. -/
structure Recorded (origin file : ByteFile) (list : List (Nat × Record))
    (pager : Pager MemFile DbFile) : Prop where
  valid : ∀ place ∈ list, place.2.Valid pager.pageSize pager.dbOrigSize
  original : ∀ place ∈ list, HoldsPage pager.pageSize origin place.2.pgno place.2.content
  inJournal : ∀ place ∈ list, pager.pInJournal place.2.pgno = true
  listed : ∀ pgno, pager.pInJournal pgno = true → Listed list pgno
  inFile : ∀ pgno, pgno ≠ 0 → pgno ≤ pager.dbOrigSize →
    SamePage pager.pageSize origin file pgno ∨
      ∃ place ∈ list, place.2.pgno = pgno ∧ pager.stores place.1 = true
  inCache : ∀ pgno pPg, pager.pPCache pgno = some pPg → pgno ≤ pager.dbOrigSize →
    HoldsPage pager.pageSize origin pgno pPg.pData ∨ Listed list pgno
  waiting : ∀ place ∈ list, pager.stores place.1 = true ∨
    ∃ pPg, pager.pPCache place.2.pgno = some pPg ∧ pPg.dirty = true ∧ pPg.needSync = true
  dirty : ∀ pgno pPg, pager.pPCache pgno = some pPg → pPg.dirty = true →
    pgno ≤ pager.dbOrigSize → Listed list pgno
  writeable : ∀ pgno pPg, pager.pPCache pgno = some pPg → pPg.writeable = true → pPg.dirty = true

structure PgHdr.Clean (pPg : PgHdr) : Prop where
  dirty : pPg.dirty = false
  writeable : pPg.writeable = false

structure Numbered (pageSize pgno : Nat) : Prop where
  nonzero : pgno ≠ 0
  notPending : pgno ≠ pagerMjPgno pageSize
  small : pgno ≤ pagerMaxPgno

/-- The database file holds all pages that it held, and the cache pages with numbers. -/
structure Based (Contains : DbFile → ByteFile → Prop) (pageSize dbOrigSize : Nat) (file : ByteFile)
    (pager : Pager JournalFile DbFile) : Prop where
  isPageSize : pager.pageSize = pageSize
  isOrigSize : pager.dbOrigSize = dbOrigSize
  contains : Contains pager.fd file
  small : file.size < 2 ^ 31
  fits : pager.dbOrigSize * pager.pageSize ≤ file.size
  grown : pager.dbOrigSize ≤ pager.dbSize
  numbered : ∀ pgno pPg, pager.pPCache pgno = some pPg → Numbered pager.pageSize pgno

end Recorded

/-! ## Changes of the cache -/

section Cache

variable {JournalFile DbFile : Type} {pager : Pager JournalFile DbFile} {pgno : Nat}

theorem insertPage_same (pPg : Option PgHdr) : (pager.insertPage pgno pPg).pPCache pgno = pPg :=
  if_pos rfl

theorem insertPage_other {other : Nat} (differs : other ≠ pgno) (pPg : Option PgHdr) :
    (pager.insertPage pgno pPg).pPCache other = pager.pPCache other :=
  if_neg differs

theorem updatePage_cached {pPg : PgHdr} (cached : pager.pPCache pgno = some pPg)
    (change : PgHdr → PgHdr) :
    pager.updatePage pgno change = pager.insertPage pgno (some (change pPg)) := by
  rw [Pager.updatePage, Pager.insertPage]
  congr
  funext other
  split
  · rename_i same
    rw [same, cached]
    rfl
  · rfl

theorem insertPage_insertPage (first second : Option PgHdr) :
    (pager.insertPage pgno first).insertPage pgno second = pager.insertPage pgno second := by
  simp only [Pager.insertPage]
  congr
  funext other
  split <;> rfl

end Cache

section Steps

variable {DbFile : Type} {origin file : ByteFile} {list : List (Nat × Record)}
  {pager : Pager MemFile DbFile} {pgno : Nat}

theorem Recorded.writeable_insert (recorded : Recorded origin file list pager)
    {pPg : Option PgHdr}
    (isDirty : ∀ pPg', pPg = some pPg' → pPg'.writeable = true → pPg'.dirty = true) :
    ∀ other pPg', (pager.insertPage pgno pPg).pPCache other = some pPg' →
      pPg'.writeable = true → pPg'.dirty = true := by
  intro other pPg' cached isWriteable
  by_cases same : other = pgno
  · rw [same, insertPage_same] at cached
    exact isDirty pPg' cached isWriteable
  · rw [insertPage_other same] at cached
    exact recorded.writeable other pPg' cached isWriteable

theorem Recorded.insert (recorded : Recorded origin file list pager)
    (absent : pager.pPCache pgno = none) {pPg : PgHdr} (clean : pPg.Clean)
    (numbered : pgno ≠ 0)
    (read : pgno ≤ pager.dbOrigSize → HoldsPage pager.pageSize file pgno pPg.pData) :
    Recorded origin file list (pager.insertPage pgno (some pPg)) where
  valid := recorded.valid
  original := recorded.original
  inJournal := recorded.inJournal
  listed := recorded.listed
  inFile := recorded.inFile
  inCache other pPg' cached inDatabase := by
    by_cases same : other = pgno
    · subst same
      rw [insertPage_same, Option.some.injEq] at cached
      rcases recorded.inFile other numbered inDatabase with kept | ⟨place, member, isPage, _⟩
      · left
        intro index inside
        rw [← cached, read inDatabase index inside, kept index inside]
        rfl
      · exact Or.inr ⟨place, member, isPage⟩
    · rw [insertPage_other same] at cached
      exact recorded.inCache other pPg' cached inDatabase
  waiting place member := by
    rcases recorded.waiting place member with stored | ⟨pPg', cached, flags⟩
    · exact Or.inl stored
    · refine Or.inr ⟨pPg', ?_, flags⟩
      rwa [insertPage_other]
      rintro rfl
      rw [absent] at cached
      cases cached
  dirty other pPg' cached isDirty inDatabase := by
    by_cases same : other = pgno
    · subst same
      rw [insertPage_same, Option.some.injEq] at cached
      rw [← cached, clean.dirty] at isDirty
      cases isDirty
    · rw [insertPage_other same] at cached
      exact recorded.dirty other pPg' cached isDirty inDatabase
  writeable := recorded.writeable_insert fun _ isPage isWriteable => by
    cases isPage
    rw [clean.writeable] at isWriteable
    cases isWriteable

theorem Recorded.drop (recorded : Recorded origin file list pager)
    (clean : ∀ pPg, pager.pPCache pgno = some pPg → pPg.dirty = false) :
    Recorded origin file list (pager.insertPage pgno none) where
  valid := recorded.valid
  original := recorded.original
  inJournal := recorded.inJournal
  listed := recorded.listed
  inFile := recorded.inFile
  inCache other pPg' cached inDatabase := by
    have differs : other ≠ pgno := by
      rintro rfl
      rw [insertPage_same] at cached
      cases cached
    rw [insertPage_other differs] at cached
    exact recorded.inCache other pPg' cached inDatabase
  waiting place member := by
    rcases recorded.waiting place member with stored | ⟨pPg', cached, isDirty, unsynced⟩
    · exact Or.inl stored
    · refine Or.inr ⟨pPg', ?_, isDirty, unsynced⟩
      rwa [insertPage_other]
      rintro rfl
      rw [clean pPg' cached] at isDirty
      cases isDirty
  dirty other pPg' cached isDirty inDatabase := by
    have differs : other ≠ pgno := by
      rintro rfl
      rw [insertPage_same] at cached
      cases cached
    rw [insertPage_other differs] at cached
    exact recorded.dirty other pPg' cached isDirty inDatabase
  writeable := recorded.writeable_insert nofun

theorem Recorded.change (recorded : Recorded origin file list pager) {pPg pPg' : PgHdr}
    (cached : pager.pPCache pgno = some pPg) (listed : pgno ≤ pager.dbOrigSize → Listed list pgno)
    (stillWaits : pPg.needSync = true → pPg'.needSync = true) (isDirty' : pPg'.dirty = true) :
    Recorded origin file list (pager.insertPage pgno (some pPg')) where
  valid := recorded.valid
  original := recorded.original
  inJournal := recorded.inJournal
  listed := recorded.listed
  inFile := recorded.inFile
  inCache other pPg' cached' inDatabase := by
    by_cases same : other = pgno
    · exact Or.inr (same ▸ listed (same ▸ inDatabase))
    · rw [insertPage_other same] at cached'
      exact recorded.inCache other pPg' cached' inDatabase
  waiting place member := by
    rcases recorded.waiting place member with stored | ⟨pPg₁, cached₁, flags⟩
    · exact Or.inl stored
    · right
      by_cases same : place.2.pgno = pgno
      · rw [same, cached, Option.some.injEq] at cached₁
        rw [same, insertPage_same]
        exact ⟨pPg', rfl, isDirty', stillWaits (cached₁ ▸ flags.2)⟩
      · rw [insertPage_other same]
        exact ⟨pPg₁, cached₁, flags⟩
  dirty other pPg' cached' isDirty inDatabase := by
    by_cases same : other = pgno
    · exact same ▸ listed (same ▸ inDatabase)
    · rw [insertPage_other same] at cached'
      exact recorded.dirty other pPg' cached' isDirty inDatabase
  writeable := recorded.writeable_insert fun _ isPage _ => by
    cases isPage
    exact isDirty'

theorem Recorded.flag (recorded : Recorded origin file list pager) {pPg pPg' : PgHdr}
    (cached : pager.pPCache pgno = some pPg) (sameData : pPg'.pData = pPg.pData)
    (sameDirty : pPg'.dirty = pPg.dirty) (stillWaits : pPg.needSync = true → pPg'.needSync = true)
    (isDirty : pPg'.writeable = true → pPg'.dirty = true) :
    Recorded origin file list (pager.insertPage pgno (some pPg')) where
  valid := recorded.valid
  original := recorded.original
  inJournal := recorded.inJournal
  listed := recorded.listed
  inFile := recorded.inFile
  inCache other pPg₁ cached₁ inDatabase := by
    by_cases same : other = pgno
    · subst same
      rw [insertPage_same, Option.some.injEq] at cached₁
      rw [← cached₁, sameData]
      exact recorded.inCache other pPg cached inDatabase
    · rw [insertPage_other same] at cached₁
      exact recorded.inCache other pPg₁ cached₁ inDatabase
  waiting place member := by
    rcases recorded.waiting place member with stored | ⟨pPg₁, cached₁, dirty₁, waits⟩
    · exact Or.inl stored
    · right
      by_cases same : place.2.pgno = pgno
      · rw [same, cached, Option.some.injEq] at cached₁
        subst cached₁
        rw [same, insertPage_same]
        exact ⟨pPg', rfl, sameDirty.trans dirty₁, stillWaits waits⟩
      · rw [insertPage_other same]
        exact ⟨pPg₁, cached₁, dirty₁, waits⟩
  dirty other pPg₁ cached₁ dirty₁ inDatabase := by
    by_cases same : other = pgno
    · subst same
      rw [insertPage_same, Option.some.injEq] at cached₁
      rw [← cached₁, sameDirty] at dirty₁
      exact recorded.dirty other pPg cached dirty₁ inDatabase
    · rw [insertPage_other same] at cached₁
      exact recorded.dirty other pPg₁ cached₁ dirty₁ inDatabase
  writeable := recorded.writeable_insert fun _ isPage isWriteable => by
    cases isPage
    exact isDirty isWriteable

theorem Recorded.append (recorded : Recorded origin file list pager) {pPg pPg' : PgHdr}
    (cached : pager.pPCache pgno = some pPg) (numbered : Numbered pager.pageSize pgno)
    (inDatabase : pgno ≤ pager.dbOrigSize) (unrecorded : pager.pInJournal pgno = false)
    (isDirty : pPg'.dirty = true) (waits : pPg'.needSync = true) (position : Nat) (jfd : MemFile)
    (journalOff nRec : Nat) :
    Recorded origin file (list ++ [(position, ⟨pgno, pPg.pData⟩)])
      { pager.insertPage pgno (some pPg') with
        jfd
        journalOff
        nRec
        pInJournal := fun other => if other = pgno then true else pager.pInJournal other } := by
  have unlisted : ∀ place ∈ list, place.2.pgno ≠ pgno := by
    rintro place member rfl
    rw [recorded.inJournal place member] at unrecorded
    cases unrecorded
  have holds : HoldsPage pager.pageSize origin pgno pPg.pData := by
    rcases recorded.inCache pgno pPg cached inDatabase with holds | ⟨place, member, isPage⟩
    · exact holds
    · exact absurd isPage (unlisted place member)
  have more : ∀ {other}, Listed list other → Listed (list ++ [(position, ⟨pgno, pPg.pData⟩)]) other
    | _, ⟨place, member, isPage⟩ => ⟨place, List.mem_append_left _ member, isPage⟩
  have last : Listed (list ++ [(position, ⟨pgno, pPg.pData⟩)]) pgno :=
    ⟨_, List.mem_append_right _ List.mem_cons_self, rfl⟩
  constructor
  case valid =>
    intro place member
    rcases List.mem_append.mp member with early | late
    · exact recorded.valid place early
    · rw [List.mem_singleton.mp late]
      exact ⟨numbered.nonzero, numbered.notPending, inDatabase⟩
  case original =>
    intro place member
    rcases List.mem_append.mp member with early | late
    · exact recorded.original place early
    · rw [List.mem_singleton.mp late]
      exact holds
  case inJournal =>
    intro place member
    rcases List.mem_append.mp member with early | late
    · exact (if_neg (unlisted place early)).trans (recorded.inJournal place early)
    · rw [List.mem_singleton.mp late]
      exact if_pos rfl
  case listed =>
    intro other marked
    by_cases same : other = pgno
    · exact same ▸ last
    · exact more (recorded.listed other ((if_neg same).symm.trans marked))
  case inFile =>
    intro other nonzero inside
    rcases recorded.inFile other nonzero inside with kept | ⟨place, member, isPage⟩
    · exact Or.inl kept
    · exact Or.inr ⟨place, List.mem_append_left _ member, isPage⟩
  case inCache =>
    intro other pPg' cached' inside
    by_cases same : other = pgno
    · exact Or.inr (same ▸ last)
    · exact (recorded.inCache other pPg' ((if_neg same).symm.trans cached') inside).imp_right more
  case waiting =>
    intro place member
    rcases List.mem_append.mp member with early | late
    · rcases recorded.waiting place early with stored | ⟨pPg', cached', flags⟩
      · exact Or.inl stored
      · exact Or.inr ⟨pPg', (if_neg (unlisted place early)).trans cached', flags⟩
    · rw [List.mem_singleton.mp late]
      exact Or.inr ⟨_, if_pos rfl, isDirty, waits⟩
  case dirty =>
    intro other pPg' cached' isDirty inside
    by_cases same : other = pgno
    · exact same ▸ last
    · exact more (recorded.dirty other pPg' ((if_neg same).symm.trans cached') isDirty inside)
  case writeable =>
    exact recorded.writeable_insert fun _ isPage _ => by
      cases isPage
      exact isDirty

theorem Recorded.sync (recorded : Recorded origin file list pager) {pager' : Pager MemFile DbFile}
    (samePage : pager'.pageSize = pager.pageSize) (sameSize : pager'.dbOrigSize = pager.dbOrigSize)
    (sameJournal : pager'.pInJournal = pager.pInJournal)
    (cache : pager'.pPCache = (synced pager).pPCache)
    (stored : ∀ place ∈ list, pager'.stores place.1 = true) :
    Recorded origin file list pager' := by
  have before : ∀ {other pPg'}, pager'.pPCache other = some pPg' →
      ∃ pPg, pager.pPCache other = some pPg ∧ pPg.pData = pPg'.pData ∧ pPg.dirty = pPg'.dirty ∧
        pPg.writeable = pPg'.writeable := by
    intro other pPg' cached
    rw [cache] at cached
    rcases Option.map_eq_some_iff.mp cached with ⟨pPg, cached₁, rfl⟩
    refine ⟨pPg, cached₁, ?_⟩
    split <;> exact ⟨rfl, rfl, rfl⟩
  constructor
  case valid => rw [samePage, sameSize]; exact recorded.valid
  case original => rw [samePage]; exact recorded.original
  case inJournal => rw [sameJournal]; exact recorded.inJournal
  case listed => rw [sameJournal]; exact recorded.listed
  case inFile =>
    rw [samePage, sameSize]
    intro other nonzero inside
    apply (recorded.inFile other nonzero inside).imp_right
    rintro ⟨place, member, isPage, _⟩
    exact ⟨place, member, isPage, stored place member⟩
  case inCache =>
    rw [samePage, sameSize]
    intro other pPg' cached inside
    rcases before cached with ⟨pPg, cached, isData, _⟩
    rw [← isData]
    exact recorded.inCache other pPg cached inside
  case waiting => exact fun place member => Or.inl (stored place member)
  case dirty =>
    rw [sameSize]
    intro other pPg' cached isDirty inside
    rcases before cached with ⟨pPg, cached, _, sameDirty, _⟩
    exact recorded.dirty other pPg cached (sameDirty.trans isDirty) inside
  case writeable =>
    intro other pPg' cached isWriteable
    rcases before cached with ⟨pPg, cached, _, sameDirty, sameWriteable⟩
    exact sameDirty.symm.trans
      (recorded.writeable other pPg cached (sameWriteable.trans isWriteable))

theorem page_apart {pageSize left right : Nat} (leftNonzero : left ≠ 0) (rightNonzero : right ≠ 0)
    (differs : left ≠ right) :
    (left - 1) * pageSize + pageSize ≤ (right - 1) * pageSize ∨
      (right - 1) * pageSize + pageSize ≤ (left - 1) * pageSize := by
  simp only [← Nat.succ_mul]
  rcases Nat.lt_or_gt_of_ne differs with less | greater
  · exact Or.inl (Nat.mul_le_mul_right pageSize (by omega))
  · exact Or.inr (Nat.mul_le_mul_right pageSize (by omega))

theorem SamePage.write {pageSize other : Nat} (same : SamePage pageSize origin file other)
    (nonzero : other ≠ 0) (numbered : pgno ≠ 0) (differs : other ≠ pgno) (data : Nat → UInt8) :
    SamePage pageSize origin (file.write ((pgno - 1) * pageSize) pageSize data) other := by
  intro index inPage
  have apart : (other - 1) * pageSize + pageSize ≤ (pgno - 1) * pageSize ∨
      (pgno - 1) * pageSize + pageSize ≤ (other - 1) * pageSize :=
    page_apart nonzero numbered differs
  rw [ByteFile.write_outside (by omega)]
  exact same index inPage

theorem Recorded.spill (recorded : Recorded origin file list pager) {file' : ByteFile}
    (kept : ∀ other, other ≠ 0 → other ≠ pgno → SamePage pager.pageSize origin file other →
      SamePage pager.pageSize origin file' other)
    {pPg : PgHdr} (cached : pager.pPCache pgno = some pPg) (isDirty : pPg.dirty = true)
    (synced : pPg.needSync = false) {pPg' : PgHdr} (clean : pPg'.Clean) (fd : DbFile)
    (dbFileVers : Nat → UInt8) (dbFileSize : Nat) :
    Recorded origin file' list
      { pager.insertPage pgno (some pPg') with fd, dbFileVers, dbFileSize } := by
  have stored : ∀ place ∈ list, place.2.pgno = pgno → pager.stores place.1 = true := by
    rintro place member rfl
    rcases recorded.waiting place member with stored | ⟨pPg₁, cached₁, _, unsynced⟩
    · exact stored
    · rw [cached, Option.some.injEq] at cached₁
      rw [← cached₁, synced] at unsynced
      cases unsynced
  constructor
  case valid => exact recorded.valid
  case original => exact recorded.original
  case inJournal => exact recorded.inJournal
  case listed => exact recorded.listed
  case inFile =>
    intro other nonzero inside
    by_cases same : other = pgno
    · subst same
      rcases recorded.dirty other pPg cached isDirty inside with ⟨place, member, isPage⟩
      exact Or.inr ⟨place, member, isPage, stored place member isPage⟩
    · exact (recorded.inFile other nonzero inside).imp_left (kept other nonzero same)
  case inCache =>
    intro other pPg₁ cached₁ inside
    by_cases same : other = pgno
    · subst same
      exact Or.inr (recorded.dirty other pPg cached isDirty inside)
    · exact recorded.inCache other pPg₁ ((if_neg same).symm.trans cached₁) inside
  case waiting =>
    intro place member
    by_cases same : place.2.pgno = pgno
    · exact Or.inl (stored place member same)
    · rcases recorded.waiting place member with isStored | ⟨pPg₁, cached₁, flags⟩
      · exact Or.inl isStored
      · exact Or.inr ⟨pPg₁, (if_neg same).trans cached₁, flags⟩
  case dirty =>
    intro other pPg₁ cached₁ isDirty₁ inside
    by_cases same : other = pgno
    · subst same
      have isPage : some pPg' = some pPg₁ := (if_pos rfl).symm.trans cached₁
      rw [Option.some.injEq] at isPage
      rw [← isPage, clean.dirty] at isDirty₁
      cases isDirty₁
    · exact recorded.dirty other pPg₁ ((if_neg same).symm.trans cached₁) isDirty₁ inside
  case writeable =>
    exact recorded.writeable_insert fun _ isPage isWriteable => by
      cases isPage
      rw [clean.writeable] at isWriteable
      cases isWriteable

end Steps

end EspSqlite.Rollback
