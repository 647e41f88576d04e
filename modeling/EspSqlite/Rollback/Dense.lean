import EspSqlite.Rollback.Esp8266

/-! # Pages without blank blocks

Every byte of a record is in a block of the journal where no 64 bytes of its page in a
row are zeros. Then a transaction is rolled back whatever is in memory. -/

namespace EspSqlite.Rollback

open Vfs
open Journal (BlockFile MemFile cacheBlockSz)

/-- No block inside the page is blank, nor are its last bytes. -/
structure DensePage (pageSize : Nat) (pData : Nat → UInt8) : Prop where
  runs : ∀ start, start + cacheBlockSz ≤ pageSize → ∃ index < cacheBlockSz,
    pData (start + index) ≠ 0
  ends : ∃ index < 4, pData (pageSize - 4 + index) ≠ 0

theorem DensePage.congr {pageSize : Nat} {left right : Nat → UInt8}
    (dense : DensePage pageSize left) (large : 4 ≤ pageSize)
    (same : ∀ index < pageSize, right index = left index) : DensePage pageSize right := by
  constructor
  · intro start inside
    rcases dense.runs start inside with ⟨index, inRun, shown⟩
    exact ⟨index, inRun, by rwa [same _ (by omega)]⟩
  · rcases dense.ends with ⟨index, inEnd, shown⟩
    exact ⟨index, inEnd, by rwa [same _ (by omega)]⟩

section Records

variable {pageSize sectorSize : Nat} {map : BlockFile} {position : Nat}

theorem present_of_filled {shown position : Nat} (nonzero : map.filled shown ≠ 0)
    (together : position / cacheBlockSz = shown / cacheBlockSz) : Present map position := by
  rw [Present, Option.isSome_iff_ne_none]
  intro missing
  apply nonzero
  have block : map.byteAt shown = none := by
    simp only [BlockFile.byteAt, Option.map_eq_none_iff] at missing ⊢
    rwa [← together]
  rw [BlockFile.filled, block]
  rfl

theorem Present.together {shown position : Nat} (present : Present map shown)
    (together : position / cacheBlockSz = shown / cacheBlockSz) : Present map position := by
  simp only [Present, BlockFile.byteAt, Option.isSome_map] at present ⊢
  rwa [together]

theorem RecordAt.present_all {cksumInit : Nat} {record : Record}
    (held : RecordAt pageSize cksumInit map position record)
    (dense : DensePage pageSize record.content) (aligned : position % 8 = 0)
    (whole : pageSize % 8 = 0) (large : 512 ≤ pageSize) {index : Nat}
    (inside : index < pageSize + 4) : Present map (position + 4 + index) := by
  rcases dense.ends with ⟨last, inLast, lastShown⟩
  rw [← held.content _ (by omega)] at lastShown
  -- the start of the block of the byte
  have start := Nat.div_add_mod (position + 4 + index) cacheBlockSz
  have inBlock := Nat.mod_lt (position + 4 + index) (show 0 < cacheBlockSz by decide)
  simp only [cacheBlockSz] at start inBlock
  by_cases first : (position + 4 + index) / cacheBlockSz = position / cacheBlockSz
  · exact (held.present 0 (by decide)).together first
  · simp only [cacheBlockSz] at first
    by_cases inner : 64 * ((position + 4 + index) / 64) + 64 ≤ position + 4 + pageSize
    · rcases dense.runs (64 * ((position + 4 + index) / 64) - (position + 4))
        (by simp only [cacheBlockSz]; omega) with ⟨shown, inRun, isShown⟩
      simp only [cacheBlockSz] at inRun
      rw [← held.content _ (by omega)] at isShown
      apply present_of_filled isShown
      simp only [cacheBlockSz]
      omega
    · apply present_of_filled lastShown
      simp only [cacheBlockSz]
      omega

/-- A dense page is read as it was written, whatever was in memory. -/
theorem RecordAt.clean {cksumInit : Nat} {record : Record}
    (held : RecordAt pageSize cksumInit map position record)
    (dense : DensePage pageSize record.content) (aligned : position % 8 = 0)
    (whole : pageSize % 8 = 0) (large : 512 ≤ pageSize) (stack : Nat → Nat → UInt8)
    (before : Nat → UInt8) : Clean pageSize map stack position before := by
  constructor
  · intro index inside missing
    exact absurd missing
      (not_missing (held.present_all dense aligned whole large (by omega)))
  · intro index inside missing
    rw [Nat.add_assoc (position + 4)] at missing
    exact absurd missing
      (not_missing (held.present_all dense aligned whole large (by omega)))

theorem RecordsAt.of_mem {cksumInit : Nat} {records : List Record} (whole : pageSize % 8 = 0) :
    ∀ {position : Nat}, RecordsAt pageSize cksumInit map position records → position % 8 = 0 →
    ∀ place ∈ recordPlaces pageSize position records,
      RecordAt pageSize cksumInit map place.1 place.2 ∧ place.1 % 8 = 0 := by
  induction records with
  | nil => exact fun _ _ _ member => absurd member List.not_mem_nil
  | cons record rest induction =>
      intro position held aligned place member
      rcases List.mem_cons.mp member with rfl | later
      · exact ⟨held.1, aligned⟩
      · exact induction held.2 (by rw [journalPgSz]; omega) place later

theorem SegmentsAt.of_mem {dbOrigSize journalHdr szJ : Nat} (sizes : Sizes pageSize sectorSize)
    {segments : List Segment} : ∀ {position : Nat},
    SegmentsAt pageSize sectorSize dbOrigSize journalHdr szJ map position segments →
    ∀ place ∈ places pageSize sectorSize position segments,
      ∃ cksumInit, RecordAt pageSize cksumInit map place.1 place.2 ∧ place.1 % 8 = 0 := by
  have whole := sizes.page.mod_eq
  have sectorWhole := sizes.sector.mod_eq
  simp only [cacheBlockSz] at whole sectorWhole
  induction segments with
  | nil => exact fun _ _ member => absurd member List.not_mem_nil
  | cons segment rest induction =>
      intro position held place member
      have header := journalHdrOffset_mod sizes.sector position
      simp only [cacheBlockSz] at header
      rcases List.mem_append.mp member with here | later
      · exact ⟨segment.cksumInit, held.2.2.1.of_mem (by omega) (by omega) place here⟩
      · exact induction held.2.2.2.2.2 place later

theorem cleanFrom_of_all {stack : Nat → Nat → UInt8} {list : List (Nat × Record)}
    (clean : ∀ place ∈ list, ∀ before, Clean pageSize map stack place.1 before) :
    ∀ before, CleanFrom pageSize map stack before list := by
  induction list with
  | nil => exact fun _ => trivial
  | cons place rest induction =>
      intro before
      exact ⟨clean place List.mem_cons_self before,
        induction (fun other member => clean other (List.mem_cons_of_mem place member)) _⟩

end Records

section Transaction

variable {sd : FileStore OpenFlags} {spiffs : FileStore (List Char)}
  {sdArrays : sd.ByteArrays sdAccess} {spiffsArrays : spiffs.ByteArrays fopenAccess}

def DensePages (pageSize dbSize : Nat) (content : ByteFile) : Prop :=
  ∀ pgno, pgno ≠ 0 → pgno ≤ dbSize →
    DensePage pageSize fun index => content.byte ((pgno - 1) * pageSize + index)

/-- Every transaction on a database with dense pages is rolled back. -/
theorem esp8266_rolls_back_dense (sdSizes : ReportsSizes sdArrays)
    (spiffsSizes : ReportsSizes spiffsArrays) {file : Esp8266File} {fd : VfsFile}
    (isOpen : file.fd = some fd) {origin : ByteFile}
    {start pager : Pager MemFile (World sd spiffs)}
    (reader : Reader (HoldsFile sdArrays spiffsArrays fd) origin start)
    (dense : DensePages start.pageSize start.dbSize origin) {calls : List Call}
    (trace : Trace (CallStep (esp8266IoMethods file) (HoldsFile sdArrays spiffsArrays fd))
      (sqlite3PagerBegin start) calls pager)
    (opened : pager.eState ≠ .writerLocked) (stack : Nat → Nat → UInt8)
    (unnamed : Unnamed stack pager.jfd) :
    Restores (esp8266IoMethods file) (HoldsFile sdArrays spiffsArrays fd) origin start.pageSize
      start.dbSize stack pager := by
  rcases transaction_rolls_back (esp8266_databaseFile sdSizes spiffsSizes isOpen) reader trace
    opened with ⟨map, segments, journals, restores⟩
  rcases trace_underWay (esp8266_databaseFile sdSizes spiffsSizes isOpen) reader trace with
    ⟨_, _, progress⟩
  have sizes := progress.phase.sizes
  rw [progress.based.isPageSize] at sizes
  have whole := sizes.page.mod_eq
  simp only [cacheBlockSz] at whole
  apply restores stack unnamed
  apply cleanFrom_of_all
  intro place member before
  rcases journals.laidOut.of_mem sizes place member with ⟨cksumInit, atRecord, aligned⟩
  rcases journals.original place member with ⟨valid, holds⟩
  have isDense := (dense place.2.pgno valid.nonzero valid.inDatabase).congr
    (Nat.le_trans (by decide) sizes.large) holds
  exact atRecord.clean isDense aligned (by omega) sizes.large stack before

/-- A page of fives is changed and comes back. -/
theorem esp8266_rolls_back_fives :
    ∃ pager, Trace (CallStep (esp8266IoMethods pageFile) HoldsPageFile)
        (sqlite3PagerBegin pageReader) pageCalls pager ∧
      Restores (esp8266IoMethods pageFile) HoldsPageFile ⟨1024, fun _ => 5⟩ 512 2 (fun _ _ => 0)
        pager := by
  rcases pageReader_calls with ⟨pager, trace, opened, unnamed⟩
  have five : (5 : UInt8) ≠ 0 := by decide
  have dense : DensePages 512 2 ⟨1024, fun _ => 5⟩ :=
    fun _ _ _ => ⟨fun _ _ => ⟨0, by decide, five⟩, 0, by decide, five⟩
  exact ⟨pager, trace, esp8266_rolls_back_dense (memoryStore_reportsSizes _)
    (memoryStore_reportsSizes _) rfl pageReader_reader dense trace opened (fun _ _ => 0) unnamed⟩

end Transaction

end EspSqlite.Rollback
