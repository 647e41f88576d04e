import EspSqlite.Rollback.Writing

/-! # Reading the journal back

What the playback reads of a journal file that holds headers and records. Where a
block is missing, a read leaves what its destination held. -/

namespace EspSqlite.Rollback

open Vfs (sqliteOk)
open Journal (BlockFile MemFile cacheBlockSz)

/-! ## Reads -/

section Reads

variable {file : MemFile} {map : BlockFile} {offset amount : Nat} {buffer : Nat → UInt8}

theorem pull_eq_filled {index : Nat} (inside : index < amount)
    (zeros : map.byteAt (offset + index) = none → buffer index = 0) :
    map.pull offset amount buffer index = map.filled (offset + index) := by
  rw [BlockFile.pull, if_pos inside, BlockFile.filled]
  cases held : map.byteAt (offset + index) with
  | none => exact zeros held
  | some byte => rfl

theorem pull_of_missing {index : Nat} (missing : map.byteAt (offset + index) = none) :
    map.pull offset amount buffer index = buffer index := by
  rw [BlockFile.pull, missing]
  split <;> rfl

theorem not_missing {position : Nat} (present : Present map position) :
    map.byteAt position ≠ none :=
  Option.isSome_iff_ne_none.mp present

theorem memory_read32bits (models : file.Models map) (ac : Nat → UInt8) {offset : Nat}
    (bounded : offset + 4 ≤ journalLimit) :
    read32bits memory ac file offset =
      some (sqliteOk, sqlite3Get4byte (map.pull offset 4 ac), file) := by
  rw [read32bits, memory_read models ac bounded]
  rfl

theorem number_of_pull {value : Nat} (number : NumberAt map offset value) (small : value < 2 ^ 32)
    {ac : Nat → UInt8} (zeros : ∀ index < 4, map.byteAt (offset + index) = none → ac index = 0) :
    sqlite3Get4byte (map.pull offset 4 ac) = value := by
  apply sqlite3Get4byte_of_bytes small
  intro index inRange
  rw [pull_eq_filled inRange (zeros index inRange)]
  exact number index inRange

theorem memory_readNumber (models : file.Models map) (ac : Nat → UInt8)
    (bounded : offset + 4 ≤ journalLimit) {value : Nat} (number : NumberAt map offset value)
    (small : value < 2 ^ 32) (present : ∀ index < 4, Present map (offset + index)) :
    read32bits memory ac file offset = some (sqliteOk, value, file) := by
  rw [memory_read32bits models ac bounded, number_of_pull number small]
  intro index inRange missing
  exact absurd missing (not_missing (present index inRange))

/-- There is no name of a master journal where the journal does not end with the magic. -/
theorem readMasterJournal_absent (models : file.Models map) (bounded : map.size ≤ journalLimit)
    (char : UInt8 → Int) (zMaster : Nat → UInt8) (nMaster : Nat) {stack : Nat → Nat → UInt8}
    (unnamed : isMagic (map.pull (map.size - 8) 8 (stack (map.size - 8))) = false) :
    readMasterJournal memory char stack file zMaster nMaster =
      some (sqliteOk, memsetZero zMaster 0 1, file) := by
  rw [readMasterJournal, memory_size models, onOk_ok]
  by_cases short : map.size < 16
  · rw [if_pos short]
  · rw [if_neg short, memory_read32bits models _ (by omega), onOk_ok]
    simp only
    split
    · rfl
    · rw [memory_read32bits models _ (by omega), onOk_ok, memory_read models _ (by omega), onOk_ok]
      simp only [unnamed, Bool.not_false, if_true]

/-- The journal does not end with the magic that follows the name of a master journal. -/
def Unnamed (stack : Nat → Nat → UInt8) (jfd : MemFile) : Prop :=
  ∀ size buffer, memory.xFileSize jfd = some (sqliteOk, size) →
    memory.xRead jfd (stack (size - 8)) 8 (size - 8) = some (sqliteOk, buffer, jfd) →
    isMagic buffer = false

theorem Unnamed.read {stack : Nat → Nat → UInt8} (unnamed : Unnamed stack file)
    (models : file.Models map) (bounded : map.size ≤ journalLimit) :
    isMagic (map.pull (map.size - 8) 8 (stack (map.size - 8))) = false := by
  have room : 8 ≤ journalLimit := by decide
  exact unnamed map.size _ (memory_size models) (memory_read models _ (by omega))

end Reads

/-! ## A header -/

section Header

variable {DbFile : Type}

structure Segment.Small (segment : Segment) : Prop where
  nRec : segment.nRec < 2 ^ 32
  cksumInit : segment.cksumInit < 2 ^ 32

theorem isMagic_of_filled {map : BlockFile} {offset : Nat} {buffer : Nat → UInt8}
    (present : ∀ index < 28, Present map (offset + index))
    (filled : ∀ index < 8, map.filled (offset + index) = aJournalMagic index) :
    isMagic (map.pull offset 8 buffer) = true := by
  simp only [isMagic, List.all_eq_true, List.mem_range, beq_iff_eq]
  intro index inRange
  rw [pull_eq_filled inRange fun missing =>
    absurd missing (not_missing (present index (by omega)))]
  exact filled index inRange

def Pager.atSegment (pager : Pager MemFile DbFile) (header : Nat) (segment : Segment) :
    Pager MemFile DbFile :=
  { pager with journalOff := header + pager.sectorSize, cksumInit := segment.cksumInit }

theorem readJournalHdr_reads {pager : Pager MemFile DbFile} {map : BlockFile}
    (sizes : Sizes pager.pageSize pager.sectorSize) (models : pager.jfd.Models map)
    {header dbOrigSize szJ : Nat} {segment : Segment}
    (isHeader : journalHdrOffset pager.sectorSize pager.journalOff = header)
    (room : header + pager.sectorSize ≤ szJ) (bounded : szJ ≤ journalLimit)
    (held : HeaderAt pager.pageSize pager.sectorSize dbOrigSize map header
      (header != pager.journalHdr) segment)
    (small : segment.Small) (smallSize : dbOrigSize < 2 ^ 32) (stack : Nat → Nat → UInt8) :
    readJournalHdr memory stack pager szJ =
      some (sqliteOk, segment.nRec, dbOrigSize, pager.atSegment header segment) := by
  have sectorLarge := sizes.sector.ge
  have inLimit : ∀ field < 28, header + field + 4 ≤ journalLimit := by
    intro field inRange
    have largest := sizes.sector.mod_eq
    simp only [cacheBlockSz] at largest
    omega
  have fieldAt : ∀ field, field + 4 ≤ 28 → ∀ index < 4, Present map (header + field + index) := by
    intro field inRange index inField
    rw [Nat.add_assoc]
    exact held.present _ (by omega)
  have field8 := memory_readNumber models (stack (header + 8)) (inLimit 8 (by decide)) held.nRec
    small.nRec (fieldAt 8 (by decide))
  have field12 := memory_readNumber models (stack (header + 12)) (inLimit 12 (by decide))
    held.cksumInit small.cksumInit (fieldAt 12 (by decide))
  have field16 := memory_readNumber models (stack (header + 16)) (inLimit 16 (by decide))
    held.dbSize smallSize (fieldAt 16 (by decide))
  have field20 := memory_readNumber models (stack (header + 20)) (inLimit 20 (by decide))
    held.sector (Nat.lt_of_le_of_lt sizes.sector.le (by decide)) (fieldAt 20 (by decide))
  have field24 := memory_readNumber models (stack (header + 24)) (inLimit 24 (by decide))
    held.page (Nat.lt_of_le_of_lt sizes.page.le (by decide)) (fieldAt 24 (by decide))
  have magicRead : ∃ buffer, isMagic buffer = true ∧
      (if header ≠ pager.journalHdr then memory.xRead pager.jfd (stack header) 8 header
        else some (sqliteOk, aJournalMagic, pager.jfd)) = some (sqliteOk, buffer, pager.jfd) := by
    by_cases other : header ≠ pager.journalHdr
    · rw [if_pos other, memory_read models (stack header) (by omega)]
      refine ⟨_, isMagic_of_filled held.present (held.isMagic ?_), rfl⟩
      simpa using other
    · rw [if_neg other]
      exact ⟨_, by decide, rfl⟩
  rcases magicRead with ⟨buffer, magic, magicRead⟩
  have notShort : ¬header + pager.sectorSize > szJ := by omega
  have valid : ¬(pager.pageSize < 512 ∨ pager.sectorSize < 32 ∨
      pager.pageSize > sqliteMaxPageSize ∨ pager.sectorSize > maxSectorSize ∨
      (pager.pageSize - 1) &&& pager.pageSize ≠ 0 ∨
      (pager.sectorSize - 1) &&& pager.sectorSize ≠ 0) := by
    have pageSmall := sizes.page.le
    have sectorSmall := sizes.sector.le
    have pageLarge := sizes.large
    simp only [sizes.page.and_eq, sizes.sector.and_eq, sqliteMaxPageSize, maxSectorSize]
    omega
  have pageNotZero : ¬pager.pageSize = 0 := by
    have pageLarge := sizes.large
    omega
  rw [readJournalHdr]
  simp only [isHeader, if_neg notShort, magicRead, onOk_ok, magic, Bool.not_true,
    Bool.false_eq_true, if_false, field8, field12, field16, field20, field24, if_neg pageNotZero,
    if_neg valid, ne_eq, not_true]
  split <;> rfl

end Header

end EspSqlite.Rollback
