import EspSqlite.Rollback.Calls

/-! # Transactions are rolled back

After any run of a transaction whose journal was new, the playback of the journal
restores every page that the database had, where the journal's records read as
they were written. -/

namespace EspSqlite.Rollback

open Vfs (sqliteOk)
open Journal (BlockFile MemFile)

variable {DbFile : Type} {database : IoMethods DbFile} {Contains : DbFile → ByteFile → Prop}

/-! ## The pages that a playback leaves -/

section Restored

variable {pageSize : Nat} {origin : ByteFile} {stored : Nat → Bool} {list : List (Nat × Record)}

theorem SamePage.restore {place : Nat × Record} {state : ByteFile × PageCache} {pgno : Nat}
    (same : SamePage pageSize origin state.1 pgno) (nonzero : pgno ≠ 0)
    (numbered : place.2.pgno ≠ 0)
    (original : HoldsPage pageSize origin place.2.pgno place.2.content) :
    SamePage pageSize origin (restoreStep pageSize stored state place).1 pgno := by
  rw [restoreStep]
  split
  · by_cases isPage : pgno = place.2.pgno
    · subst isPage
      intro index inPage
      rw [Record.restoreFile, ByteFile.write_inside inPage]
      exact original index inPage
    · exact same.write nonzero numbered isPage _
  · exact same

/-- The pages in the file are those that they were, where they were kept or have
a record that is stored. -/
theorem foldl_restore_file {pgno : Nat} (nonzero : pgno ≠ 0) :
    ∀ {state : ByteFile × PageCache}, (∀ place ∈ list, place.2.pgno ≠ 0) →
    (∀ place ∈ list, HoldsPage pageSize origin place.2.pgno place.2.content) →
    (SamePage pageSize origin state.1 pgno ∨
      ∃ place ∈ list, place.2.pgno = pgno ∧ stored place.1 = true) →
    SamePage pageSize origin (list.foldl (restoreStep pageSize stored) state).1 pgno := by
  induction list with
  | nil => exact fun _ _ kept => kept.resolve_right fun ⟨_, member, _⟩ =>
      absurd member List.not_mem_nil
  | cons place rest induction =>
      intro state numbered original kept
      have here : place ∈ place :: rest := List.mem_cons_self
      apply induction (fun other member => numbered other (List.mem_cons_of_mem place member))
        fun other member => original other (List.mem_cons_of_mem place member)
      rcases kept with same | ⟨other, member, rfl, isStored⟩
      · exact Or.inl (same.restore nonzero (numbered place here) (original place here))
      · rcases List.mem_cons.mp member with rfl | member
        · left
          intro index inPage
          rw [restoreStep, if_pos isStored, Record.restoreFile, ByteFile.write_inside inPage]
          exact original other here index inPage
        · exact Or.inr ⟨other, member, rfl, isStored⟩

theorem foldl_restore_cache {pgno : Nat} : ∀ {state : ByteFile × PageCache},
    (∀ place ∈ list, HoldsPage pageSize origin place.2.pgno place.2.content) →
    ((∀ pPg, state.2 pgno = some pPg → HoldsPage pageSize origin pgno pPg.pData) ∨
      Listed list pgno) →
    ∀ pPg, (list.foldl (restoreStep pageSize stored) state).2 pgno = some pPg →
      HoldsPage pageSize origin pgno pPg.pData := by
  induction list with
  | nil => exact fun _ kept => kept.resolve_right fun ⟨_, member, _⟩ =>
      absurd member List.not_mem_nil
  | cons place rest induction =>
      intro state original kept
      have here : place ∈ place :: rest := List.mem_cons_self
      apply induction fun other member => original other (List.mem_cons_of_mem place member)
      have restored : place.2.pgno = pgno → ∀ pPg,
          (restoreStep pageSize stored state place).2 pgno = some pPg →
          HoldsPage pageSize origin pgno pPg.pData := by
        rintro rfl pPg cached index inPage
        simp only [restoreStep, Record.restoreCache, if_true] at cached
        rcases Option.map_eq_some_iff.mp cached with ⟨pPg', _, rfl⟩
        exact (memcpy_front inPage).trans (original place here index inPage)
      by_cases isPage : place.2.pgno = pgno
      · exact Or.inl (restored isPage)
      · rcases kept with kept | ⟨other, member, isOther⟩
        · left
          intro pPg cached
          simp only [restoreStep, Record.restoreCache, if_neg (Ne.symm isPage)] at cached
          exact kept pPg cached
        · rcases List.mem_cons.mp member with rfl | member
          · exact absurd isOther isPage
          · exact Or.inr ⟨other, member, isOther⟩

end Restored

/-! ## The rollback -/

theorem pagerPlayback_restores (law : DatabaseFile database Contains) {file : ByteFile}
    {map : BlockFile} {segments : List Segment} {pager : Pager MemFile DbFile} {dbOrigSize : Nat}
    (models : pager.jfd.Models map) (sizes : Sizes pager.pageSize pager.sectorSize)
    (contains : Contains pager.fd file) (small : file.size < 2 ^ 31)
    (fits : dbOrigSize * pager.pageSize ≤ file.size) (smallSize : dbOrigSize < 2 ^ 32)
    (bounded : map.size ≤ journalLimit)
    (valid : ∀ segment ∈ segments, ∀ record ∈ segment.records,
      record.Valid pager.pageSize dbOrigSize)
    (held : SegmentsAt pager.pageSize pager.sectorSize dbOrigSize pager.journalHdr map.size map 0
      segments)
    {stack : Nat → Nat → UInt8}
    (unnamed : isMagic (map.pull (map.size - 8) 8 (stack (map.size - 8))) = false)
    (clean : CleanFrom pager.pageSize map stack (memsetZero pager.pTmpSpace 0 1)
      (places pager.pageSize pager.sectorSize 0 segments))
    (char : UInt8 → Int) (access : (Nat → UInt8) → Bool) (mxPathname : Nat) :
    ∃ played, pagerPlayback memory database char access mxPathname stack pager =
        some (sqliteOk, played) ∧
      played.pPCache = ((places pager.pageSize pager.sectorSize 0 segments).foldl
        (restoreStep pager.pageSize pager.stores) (file, pager.pPCache)).2 ∧
      Contains played.fd ((places pager.pageSize pager.sectorSize 0 segments).foldl
        (restoreStep pager.pageSize pager.stores) (file, pager.pPCache)).1 := by
  let begun : Pager MemFile DbFile :=
    { pager with pTmpSpace := memsetZero pager.pTmpSpace 0 1, journalOff := 0 }
  rcases playbackLoop_restores law begun file models rfl sizes contains small (.inl rfl) fits
    smallSize bounded valid held clean (fun _ _ => rfl) (held.length_lt sizes.sector) with
    ⟨played, looped, result, contains'⟩
  exact ⟨played, (pagerPlayback_eq models bounded unnamed char access mxPathname).trans looped,
    result.pPCache, contains'⟩

theorem exists_recordPlace {pageSize : Nat} {records : List Record} {record : Record} :
    ∀ {position : Nat}, record ∈ records →
    ∃ place ∈ recordPlaces pageSize position records, place.2 = record := by
  induction records with
  | nil => exact fun member => absurd member List.not_mem_nil
  | cons first rest induction =>
      intro position member
      rcases List.mem_cons.mp member with rfl | member
      · exact ⟨_, List.mem_cons_self, rfl⟩
      · rcases induction member with ⟨place, inRest, isRecord⟩
        exact ⟨place, List.mem_cons_of_mem _ inRest, isRecord⟩

theorem exists_place {pageSize sectorSize : Nat} {segments : List Segment} {segment : Segment}
    {record : Record} (inSegment : record ∈ segment.records) :
    ∀ {position : Nat}, segment ∈ segments →
    ∃ place ∈ places pageSize sectorSize position segments, place.2 = record := by
  induction segments with
  | nil => exact fun member => absurd member List.not_mem_nil
  | cons first rest induction =>
      intro position member
      rcases List.mem_cons.mp member with rfl | member
      · rcases exists_recordPlace inSegment with ⟨place, here, isRecord⟩
        exact ⟨place, List.mem_append_left _ here, isRecord⟩
      · rcases induction member with ⟨place, later, isRecord⟩
        exact ⟨place, List.mem_append_right _ later, isRecord⟩

/-- The journal of a transaction is laid out, with pages that the database had. -/
structure Journals (origin : ByteFile) (start pager : Pager MemFile DbFile) (map : BlockFile)
    (segments : List Segment) : Prop where
  models : pager.jfd.Models map
  laidOut : SegmentsAt start.pageSize pager.sectorSize start.dbSize pager.journalHdr map.size map 0
    segments
  original : ∀ place ∈ places start.pageSize pager.sectorSize 0 segments,
    place.2.Valid start.pageSize start.dbSize ∧
      HoldsPage start.pageSize origin place.2.pgno place.2.content

theorem Journals.valid {origin : ByteFile} {start pager : Pager MemFile DbFile} {map : BlockFile}
    {segments : List Segment} (journals : Journals origin start pager map segments) :
    ∀ segment ∈ segments, ∀ record ∈ segment.records,
      record.Valid start.pageSize start.dbSize := by
  intro segment member record inSegment
  rcases exists_place inSegment member with ⟨place, inPlaces, rfl⟩
  exact (journals.original place inPlaces).1

theorem Progress.journals {origin file : ByteFile} {list : List (Nat × Record)}
    {start pager : Pager MemFile DbFile}
    (progress : Progress Contains origin start.pageSize start.dbSize file list pager)
    (opened : pager.eState ≠ .writerLocked) :
    ∃ map segments, Journals origin start pager map segments ∧ map.size ≤ journalLimit ∧
      places start.pageSize pager.sectorSize 0 segments = list := by
  have isPage := progress.based.isPageSize
  have isSize := progress.based.isOrigSize
  cases progress.phase with
  | locked state _ _ _ _ => exact absurd state opened
  | @writing map first closed records _ layout isList inside =>
      have bounded : map.size ≤ journalLimit := layout.size ▸ inside
      have held := layout.segmentsAt bounded
      have isPlaces := layout.places_eq (pager.openSegment records) rfl
      rw [← isList] at isPlaces
      rw [isPage] at held isPlaces
      rw [isSize] at held
      refine ⟨map, closed ++ [pager.openSegment records], ⟨layout.models, held, ?_⟩, bounded,
        isPlaces⟩
      rw [isPlaces, ← isPage, ← isSize]
      exact fun place member =>
        ⟨progress.recorded.valid place member, progress.recorded.original place member⟩

/-- The playback restores the pages that a file had, in it and in the cache. -/
def Restores (database : IoMethods DbFile) (Contains : DbFile → ByteFile → Prop)
    (origin : ByteFile) (pageSize dbSize : Nat) (stack : Nat → Nat → UInt8)
    (pager : Pager MemFile DbFile) : Prop :=
  ∀ (char : UInt8 → Int) (access : (Nat → UInt8) → Bool) (mxPathname : Nat),
    ∃ played content, pagerPlayback memory database char access mxPathname stack pager =
        some (sqliteOk, played) ∧
      Contains played.fd content ∧
      (∀ pgno, pgno ≠ 0 → pgno ≤ dbSize → SamePage pageSize origin content pgno) ∧
      ∀ pgno pPg, played.pPCache pgno = some pPg → pgno ≤ dbSize →
        HoldsPage pageSize origin pgno pPg.pData

/-- After any run of a transaction the journal is laid out, its records hold pages
that the database had, and the rollback restores all of them in the database file
and in the cache, where the records read as they were written. -/
theorem transaction_rolls_back (law : DatabaseFile database Contains) {origin : ByteFile}
    {start pager : Pager MemFile DbFile} (reader : Reader Contains origin start)
    {calls : List Call}
    (trace : Trace (CallStep database Contains) (sqlite3PagerBegin start) calls pager)
    (opened : pager.eState ≠ .writerLocked) :
    ∃ map segments, Journals origin start pager map segments ∧
      ∀ stack, Unnamed stack pager.jfd →
        CleanFrom start.pageSize map stack (memsetZero pager.pTmpSpace 0 1)
          (places start.pageSize pager.sectorSize 0 segments) →
        Restores database Contains origin start.pageSize start.dbSize stack pager := by
  rcases trace_underWay law reader trace with ⟨file, list, progress⟩
  have based := progress.based
  have recorded := progress.recorded
  rcases progress.journals opened with ⟨map, segments, journals, bounded, isPlaces⟩
  refine ⟨map, segments, journals, ?_⟩
  intro stack unnamed clean char access mxPathname
  have held := journals.laidOut
  have valid := journals.valid
  rw [← based.isPageSize] at held valid clean isPlaces ⊢
  rcases pagerPlayback_restores law journals.models progress.phase.sizes based.contains based.small
    (based.isOrigSize ▸ based.fits) (Nat.lt_trans progress.smallSize (by decide)) bounded valid
    held (unnamed.read journals.models bounded) clean char access mxPathname with
    ⟨played, isPlayed, sameCache, contains⟩
  rw [isPlaces] at sameCache contains
  refine ⟨played, _, isPlayed, contains, ?_, ?_⟩
  · intro pgno nonzero inDatabase
    rw [← based.isOrigSize] at inDatabase
    exact foldl_restore_file nonzero (fun place member => (recorded.valid place member).nonzero)
      recorded.original (recorded.inFile pgno nonzero inDatabase)
  · intro pgno pPg cached inDatabase
    rw [← based.isOrigSize] at inDatabase
    rw [sameCache] at cached
    refine foldl_restore_cache recorded.original ?_ pPg cached
    by_cases isListed : Listed list pgno
    · exact Or.inr isListed
    · left
      intro pPg' cached'
      exact (recorded.inCache pgno pPg' cached' inDatabase).resolve_right isListed

end EspSqlite.Rollback
