import EspSqlite.Rollback.Records

/-! # Headers and records are stored

What the functions that write the journal leave in a journal file with memory for
every block, where all is zero from the position of the journal on. -/

namespace EspSqlite.Rollback

open Vfs (sqliteOk)
open Journal (BlockFile MemFile Sevenless cacheBlockSz sevenless_of_aligned)

/-! ## Sizes -/

def BlockPower (size : Nat) : Prop := ∃ exponent, 6 ≤ exponent ∧ exponent ≤ 16 ∧ size = 2 ^ exponent

structure Sizes (pageSize sectorSize : Nat) : Prop where
  page : BlockPower pageSize
  sector : BlockPower sectorSize
  large : 512 ≤ pageSize

theorem Sizes.positive {pageSize sectorSize : Nat} (sizes : Sizes pageSize sectorSize) :
    0 < pageSize := Nat.lt_of_lt_of_le (by decide) sizes.large

namespace BlockPower

variable {size other : Nat}

theorem mod_eq (power : BlockPower size) : size % cacheBlockSz = 0 := by
  rcases power with ⟨exponent, atLeast, _, rfl⟩
  exact Nat.mod_eq_zero_of_dvd (Nat.pow_dvd_pow 2 atLeast)

theorem le (power : BlockPower size) : size ≤ 65536 := by
  rcases power with ⟨exponent, _, atMost, rfl⟩
  exact Nat.pow_le_pow_right (by decide) atMost

theorem ge (power : BlockPower size) : 64 ≤ size := by
  rcases power with ⟨exponent, atLeast, _, rfl⟩
  have smallest : 2 ^ 6 ≤ 2 ^ exponent := Nat.pow_le_pow_right (by decide) atLeast
  exact smallest

theorem dvd (power : BlockPower size) (power' : BlockPower other) (le : size ≤ other) :
    size ∣ other := by
  rcases power with ⟨exponent, _, _, rfl⟩
  rcases power' with ⟨exponent', _, _, rfl⟩
  exact Nat.pow_dvd_pow 2 ((Nat.pow_le_pow_iff_right (by decide)).mp le)

theorem and_eq (power : BlockPower size) : (size - 1) &&& size = 0 := by
  rcases power with ⟨exponent, _, _, rfl⟩
  rw [Nat.and_comm, Nat.and_two_pow_sub_one_eq_mod, Nat.mod_self]

end BlockPower

/-! ## One write -/

def Clear (map : BlockFile) (position : Nat) : Prop :=
  ∀ other, position ≤ other → map.filled other = 0

structure Stored (map map' : BlockFile) (offset amount : Nat) (data : Nat → UInt8) : Prop where
  changes : Changes offset (offset + amount) map map'
  bytes : ∀ index < amount, map'.filled (offset + index) = data index
  present : ∀ index < amount, data index ≠ 0 → ∀ position,
    position / cacheBlockSz = (offset + index) / cacheBlockSz → Present map' position
  size : map'.size = max map.size (offset + amount)

section Write

variable {map : BlockFile} {offset amount : Nat} {data : Nat → UInt8}

theorem present_push (sevenless : Sevenless offset amount) {index : Nat} (inside : index < amount)
    (nonzero : data index ≠ 0) {position : Nat}
    (here : position / cacheBlockSz = (offset + index) / cacheBlockSz) :
    Present (map.push (fun _ => true) offset amount data) position := by
  rcases BlockFile.exists_chunk offset inside with
    ⟨earlier, chunk, later, inner, split, inChunk, rfl⟩
  have small := ((BlockFile.chunksOf_tiles offset amount).mem chunk (by simp [split])).2.2
  have member : chunk ∈ BlockFile.chunksOf offset amount := by simp [split]
  apply BlockFile.isSome_push_of_shown sevenless member
  · rw [← Bool.not_eq_true, Journal.isBlank_iff]
    intro blank
    exact nonzero (blank inner (by omega))
  · rw [here, (BlockFile.position_of_split split inChunk).1]

theorem stored_push (sevenless : Sevenless offset amount) (nonempty : 0 < amount)
    (clear : Clear map offset) :
    Stored map (map.push (fun _ => true) offset amount data) offset amount data where
  changes := .push map (Nat.le_refl _) (Nat.le_refl _)
  bytes _ inside :=
    BlockFile.filled_push_inside sevenless inside fun _ => clear _ (Nat.le_add_right _ _)
  present _ inside nonzero _ here := present_push sevenless inside nonzero here
  size := BlockFile.push_size sevenless nonempty

theorem memory_stores {file : MemFile} (models : file.Models map) (data : Nat → UInt8)
    (sevenless : Sevenless offset amount) (nonempty : 0 < amount) (clear : Clear map offset)
    (bounded : offset + amount ≤ journalLimit) :
    ∃ file' map', memory.xWrite file data amount offset = some (sqliteOk, file') ∧
      file'.Models map' ∧ Stored map map' offset amount data := by
  rcases memory_write models data bounded with ⟨file', written, models'⟩
  exact ⟨file', _, written, models', stored_push sevenless nonempty clear⟩

theorem Stored.clear {map' : BlockFile} (stored : Stored map map' offset amount data)
    (clear : Clear map offset) : Clear map' (offset + amount) := by
  intro position after
  rw [stored.changes.same _ (by omega)]
  exact clear _ (by omega)

theorem sqlite3Put4byte_front {target : Nat → UInt8} {value index : Nat} (inside : index < 4) :
    sqlite3Put4byte target 0 value index = fourBytes value index := by
  rw [sqlite3Put4byte, memcpy_front inside]

theorem memory_write32bits {file : MemFile} (models : file.Models map) (ac : Nat → UInt8)
    (value : Nat) (aligned : offset % 4 = 0) (clear : Clear map offset)
    (bounded : offset + 4 ≤ journalLimit) :
    ∃ file' map', write32bits memory ac file offset value = some (sqliteOk, file') ∧
      file'.Models map' ∧ Stored map map' offset 4 (sqlite3Put4byte ac 0 value) :=
  memory_stores models _ (sevenless_of_aligned aligned (by decide)) (by decide) clear bounded

theorem Stored.number {map' : BlockFile} {ac : Nat → UInt8} {value : Nat}
    (stored : Stored map map' offset 4 (sqlite3Put4byte ac 0 value)) :
    NumberAt map' offset value := by
  intro index inRange
  rw [stored.bytes index inRange, sqlite3Put4byte_front inRange]

end Write

/-! ## A record -/

section Record

variable {DbFile : Type} {pager : Pager MemFile DbFile} {map : BlockFile}

def Pager.recorded (pager : Pager MemFile DbFile) (pgno : Nat) (jfd : MemFile) :
    Pager MemFile DbFile :=
  { pager.updatePage pgno fun pPg => { pPg with needSync := true } with
    jfd
    journalOff := pager.journalOff + (8 + pager.pageSize)
    nRec := pager.nRec + 1
    pInJournal := fun other => if other = pgno then true else pager.pInJournal other }

theorem addPage_records (sizes : Sizes pager.pageSize pager.sectorSize)
    (models : pager.jfd.Models map) (aligned : pager.journalOff % 8 = 0)
    (clear : Clear map pager.journalOff)
    (bounded : pager.journalOff + journalPgSz pager.pageSize ≤ journalLimit) {pgno : Nat}
    (numbered : pgno ≠ 0 ∧ pgno < 2 ^ 32) {pPg : PgHdr} (cached : pager.pPCache pgno = some pPg)
    (stack : Nat → Nat → UInt8) :
    ∃ jfd map', pagerAddPageToRollbackJournal memory stack pager pgno =
        some (sqliteOk, pager.recorded pgno jfd) ∧
      jfd.Models map' ∧
      Changes pager.journalOff (pager.journalOff + journalPgSz pager.pageSize) map map' ∧
      RecordAt pager.pageSize pager.cksumInit map' pager.journalOff ⟨pgno, pPg.pData⟩ ∧
      map'.size = max map.size (pager.journalOff + journalPgSz pager.pageSize) := by
  have whole := sizes.page.mod_eq
  have large := sizes.large
  simp only [cacheBlockSz] at whole
  simp only [journalPgSz] at bounded ⊢
  rcases memory_write32bits models (stack pager.journalOff) pgno (by omega) clear (by omega) with
    ⟨jfd₁, map₁, wroteNumber, models₁, stored₁⟩
  have clear₁ := stored₁.clear clear
  have pageWhole : Sevenless (pager.journalOff + 4) pager.pageSize :=
    sevenless_of_aligned (by omega) (by omega)
  rcases memory_stores models₁ pPg.pData pageWhole (by omega) clear₁ (by omega) with
    ⟨jfd₂, map₂, wroteContent, models₂, stored₂⟩
  have clear₂ := stored₂.clear clear₁
  have isSum : pager.journalOff + 4 + pager.pageSize = pager.journalOff + pager.pageSize + 4 := by
    omega
  rw [isSum] at clear₂
  rcases memory_write32bits models₂ (stack (pager.journalOff + pager.pageSize + 4))
    (pagerCksum pager.cksumInit pager.pageSize pPg.pData) (by omega) clear₂ (by omega) with
    ⟨jfd₃, map₃, wroteSum, models₃, stored₃⟩
  refine ⟨jfd₃, map₃, ?_, models₃, ?_, ?_, ?_⟩
  · simp only [pagerAddPageToRollbackJournal, cached, Option.bind_some, Pager.updatePage,
      wroteNumber, onOk_ok, wroteContent, wroteSum, Pager.recorded]
  · exact (stored₁.changes.mono (by omega) (by omega)).trans
      ((stored₂.changes.mono (by omega) (by omega)).trans
        (stored₃.changes.mono (by omega) (by omega)))
  · refine ⟨fun index inRange => ?_, ?_, fun index inRange => ?_, ?_⟩
    · rcases exists_fourBytes_ne_zero numbered.2 numbered.1 with ⟨shown, inside, nonzero⟩
      apply stored₃.changes.kept _ (stored₂.changes.kept _ (stored₁.present shown inside ?_ _ ?_))
      · rwa [sqlite3Put4byte_front inside]
      · simp only [cacheBlockSz]
        omega
    · exact (stored₁.number.changes stored₂.changes (by omega)).changes stored₃.changes (by omega)
    · rw [stored₃.changes.same _ (by omega), stored₂.bytes index inRange]
    · rw [isSum]
      exact stored₃.number
  · rw [stored₃.size, stored₂.size, stored₁.size]
    omega

end Record

/-! ## A header -/

theorem journalHdrOffset_mod {sectorSize : Nat} (power : BlockPower sectorSize)
    (journalOff : Nat) : journalHdrOffset sectorSize journalOff % cacheBlockSz = 0 := by
  rw [journalHdrOffset]
  split
  · rw [Nat.mul_mod, power.mod_eq, Nat.mul_zero, Nat.zero_mod]
  · rfl

theorem journalHdrOffset_bounds {sectorSize : Nat} (power : BlockPower sectorSize)
    (journalOff : Nat) : journalOff ≤ journalHdrOffset sectorSize journalOff ∧
    journalHdrOffset sectorSize journalOff < journalOff + sectorSize := by
  have positive : 0 < sectorSize := Nat.lt_of_lt_of_le (by decide) power.ge
  rw [journalHdrOffset]
  split
  · have split := Nat.div_add_mod (journalOff - 1) sectorSize
    have small := Nat.mod_lt (journalOff - 1) positive
    rw [Nat.mul_comm] at split
    rw [Nat.add_mul, Nat.one_mul]
    omega
  · omega

section HeaderBytes

variable {DbFile : Type} (pager : Pager MemFile DbFile) (unsynced : Bool) (nHeader : Nat)

theorem headerBytes_magic (isUnsynced : unsynced = true) {index : Nat} (inside : index < 8) :
    headerBytes pager unsynced nHeader index = aJournalMagic index := by
  simp only [headerBytes, isUnsynced, if_true, memsetZero, sqlite3Put4byte]
  rw [memcpy_outside (by omega), memcpy_outside (by omega), memcpy_outside (by omega),
    memcpy_outside (by omega), memcpy_outside (by omega), memcpy_outside (by omega),
    memcpy_front inside]

theorem headerBytes_nRec {index : Nat} (inside : index < 4) :
    headerBytes pager unsynced nHeader (8 + index) =
      fourBytes (if unsynced then 0xffffffff else 0) index := by
  simp only [headerBytes, memsetZero, sqlite3Put4byte]
  rw [memcpy_outside (by omega), memcpy_outside (by omega), memcpy_outside (by omega),
    memcpy_outside (by omega), memcpy_outside (by omega)]
  cases unsynced with
  | true => exact memcpy_inside inside
  | false =>
      rw [if_neg Bool.false_ne_true, if_neg Bool.false_ne_true, memcpy_front (by omega),
        fourBytes, Nat.zero_shiftRight]
      rfl

theorem headerBytes_cksumInit {index : Nat} (inside : index < 4) :
    headerBytes pager unsynced nHeader (12 + index) = fourBytes pager.cksumInit index := by
  simp only [headerBytes, memsetZero, sqlite3Put4byte]
  rw [memcpy_outside (by omega), memcpy_outside (by omega), memcpy_outside (by omega),
    memcpy_outside (by omega), memcpy_inside inside]

theorem headerBytes_dbSize {index : Nat} (inside : index < 4) :
    headerBytes pager unsynced nHeader (16 + index) = fourBytes pager.dbOrigSize index := by
  simp only [headerBytes, memsetZero, sqlite3Put4byte]
  rw [memcpy_outside (by omega), memcpy_outside (by omega), memcpy_outside (by omega),
    memcpy_inside inside]

theorem headerBytes_sector {index : Nat} (inside : index < 4) :
    headerBytes pager unsynced nHeader (20 + index) = fourBytes pager.sectorSize index := by
  simp only [headerBytes, memsetZero, sqlite3Put4byte]
  rw [memcpy_outside (by omega), memcpy_outside (by omega), memcpy_inside inside]

theorem headerBytes_page {index : Nat} (inside : index < 4) :
    headerBytes pager unsynced nHeader (24 + index) = fourBytes pager.pageSize index := by
  simp only [headerBytes, memsetZero, sqlite3Put4byte]
  rw [memcpy_outside (by omega), memcpy_inside inside]

end HeaderBytes

section Header

variable {DbFile : Type}

/-- The loop writes the temporary page over and over, the first time to where the
header is read. -/
theorem writeHeaderLoop_stores {nHeader : Nat} (whole : nHeader % 4 = 0) (positive : 0 < nHeader)
    (rounds : Nat) :
    ∀ (pager : Pager MemFile DbFile) {map : BlockFile}, pager.jfd.Models map →
    pager.journalOff % 4 = 0 → Clear map pager.journalOff →
    pager.journalOff + (rounds + 1) * nHeader ≤ journalLimit →
    ∃ jfd first map', writeHeaderLoop memory nHeader (rounds + 1) pager =
        some (sqliteOk,
          { pager with jfd, journalOff := pager.journalOff + (rounds + 1) * nHeader }) ∧
      jfd.Models map' ∧ Stored map first pager.journalOff nHeader pager.pTmpSpace ∧
      Changes (pager.journalOff + nHeader) (pager.journalOff + (rounds + 1) * nHeader) first map' ∧
      map'.size = max map.size (pager.journalOff + (rounds + 1) * nHeader) := by
  induction rounds with
  | zero =>
      intro pager map models aligned clear bounded
      rw [Nat.zero_add, Nat.one_mul] at bounded ⊢
      rcases memory_stores models pager.pTmpSpace (sevenless_of_aligned aligned whole)
        positive clear bounded with ⟨jfd, map', written, models', stored⟩
      refine ⟨jfd, map', map', ?_, models', stored, .refl _ _ _, stored.size⟩
      simp only [writeHeaderLoop, written, onOk_ok]
  | succ rounds induction =>
      intro pager map models aligned clear bounded
      rw [Nat.succ_mul] at bounded ⊢
      rcases memory_stores models pager.pTmpSpace (sevenless_of_aligned aligned whole)
        positive clear (by omega) with ⟨jfd, first, written, models₁, stored⟩
      rcases induction { pager with
          jfd, journalOff := pager.journalOff + nHeader } models₁ (by simp only; omega)
        (stored.clear clear) (by simp only; omega) with
        ⟨jfd', second, map', looped, models', storedSecond, changes, size⟩
      have total : pager.journalOff + nHeader + (rounds + 1) * nHeader =
          pager.journalOff + ((rounds + 1) * nHeader + nHeader) := by omega
      simp only [total] at looped changes size
      refine ⟨jfd', first, map', ?_, models', stored, ?_, ?_⟩
      · rw [writeHeaderLoop]
        simp only [written, onOk_ok, looped]
      · refine (storedSecond.changes.mono (Nat.le_refl _) ?_).trans
          (changes.mono ?_ (Nat.le_refl _))
        · simp only [Nat.succ_mul]
          omega
        · simp only
          omega
      · rw [size, stored.size]
        omega

def Pager.header (pager : Pager MemFile DbFile) (random : Nat) : Segment :=
  ⟨if pager.noSync then 0xffffffff else 0, random, []⟩

def Pager.headed (pager : Pager MemFile DbFile) (random : Nat) (jfd : MemFile)
    (pTmpSpace : Nat → UInt8) : Pager MemFile DbFile :=
  { pager with
    journalHdr := journalHdrOffset pager.sectorSize pager.journalOff
    journalOff := journalHdrOffset pager.sectorSize pager.journalOff + pager.sectorSize
    cksumInit := random
    jfd
    pTmpSpace }

theorem writeJournalHdr_stores {database : IoMethods DbFile} (pager : Pager MemFile DbFile)
    {map : BlockFile} (plain : database.xDeviceCharacteristics pager.fd = 0)
    (sizes : Sizes pager.pageSize pager.sectorSize) (models : pager.jfd.Models map)
    (clear : Clear map pager.journalOff)
    (bounded : journalHdrOffset pager.sectorSize pager.journalOff + pager.sectorSize ≤
      journalLimit) (random : Nat) :
    ∃ jfd pTmpSpace map', writeJournalHdr memory database random pager =
        some (sqliteOk, pager.headed random jfd pTmpSpace) ∧
      jfd.Models map' ∧
      Changes (journalHdrOffset pager.sectorSize pager.journalOff)
        (journalHdrOffset pager.sectorSize pager.journalOff + pager.sectorSize) map map' ∧
      HeaderAt pager.pageSize pager.sectorSize pager.dbOrigSize map'
        (journalHdrOffset pager.sectorSize pager.journalOff) pager.noSync (pager.header random) ∧
      map'.size = max map.size
        (journalHdrOffset pager.sectorSize pager.journalOff + pager.sectorSize) := by
  have pageWhole := sizes.page.mod_eq
  have sectorWhole := sizes.sector.mod_eq
  have pageLarge := sizes.page.ge
  have sectorLarge := sizes.sector.ge
  have startWhole := journalHdrOffset_mod sizes.sector pager.journalOff
  have after := (journalHdrOffset_bounds sizes.sector pager.journalOff).1
  simp only [cacheBlockSz] at pageWhole sectorWhole startWhole
  generalize isStart : journalHdrOffset pager.sectorSize pager.journalOff = start at *
  generalize isHeader : (if pager.pageSize > pager.sectorSize then pager.sectorSize
    else pager.pageSize) = nHeader
  have headerWhole : nHeader % 64 = 0 ∧ 64 ≤ nHeader ∧ nHeader ∣ pager.sectorSize := by
    rw [← isHeader]
    split
    · exact ⟨sectorWhole, sectorLarge, Nat.dvd_refl _⟩
    · exact ⟨pageWhole, pageLarge, sizes.page.dvd sizes.sector (by omega)⟩
  rcases headerWhole with ⟨nHeaderWhole, nHeaderLarge, count, isCount⟩
  have roundsEq : (pager.sectorSize + nHeader - 1) / nHeader = count := by
    rw [isCount, Nat.add_sub_assoc (by omega), Nat.mul_add_div (by omega),
      Nat.div_eq_of_lt (by omega), Nat.add_zero]
  obtain ⟨rounds, rfl⟩ : ∃ rounds, count = rounds + 1 := by
    apply Nat.exists_eq_succ_of_ne_zero
    rintro rfl
    omega
  have fits : nHeader ≤ pager.sectorSize := Nat.le_of_dvd (by omega) ⟨_, isCount⟩
  let moved : Pager MemFile DbFile :=
    { pager with journalHdr := start, journalOff := start, cksumInit := random }
  let prepared : Pager MemFile DbFile :=
    { moved with pTmpSpace := headerBytes moved pager.noSync nHeader }
  have total : (rounds + 1) * nHeader = pager.sectorSize := by rw [isCount, Nat.mul_comm]
  have aligned : nHeader % 4 = 0 := by omega
  rcases writeHeaderLoop_stores aligned (by omega) rounds prepared models
    (by simp only [prepared, moved]; omega)
    (fun position later => clear position (Nat.le_trans after later))
    (by simp only [prepared, moved, total]; exact bounded) with
    ⟨jfd, first, map', looped, models', stored, changes, size⟩
  simp only [prepared, moved, total] at looped stored changes size
  have bytes : ∀ index < 28, map'.filled (start + index) =
      headerBytes moved pager.noSync nHeader index := by
    intro index inRange
    rw [changes.same _ (by omega)]
    exact stored.bytes index (by omega)
  refine ⟨jfd, headerBytes moved pager.noSync nHeader, map', ?_, models', ?_, ?_, size⟩
  · rw [writeJournalHdr]
    simp only [isHeader, isStart, plain, Nat.zero_and, bne_self_eq_false, Bool.or_false, roundsEq]
    rw [looped, Pager.headed, isStart]
  · exact (stored.changes.mono (Nat.le_refl _) (by omega)).trans
      (changes.mono (by omega) (Nat.le_refl _))
  · refine ⟨fun index inRange => ?_, fun isUnsynced index inRange => ?_, ?_, ?_, ?_, ?_, ?_⟩
    · have small := sizes.page.le
      have inWord : pager.pageSize < 2 ^ 32 := by omega
      rcases exists_fourBytes_ne_zero inWord (by omega) with
        ⟨shown, inside, nonzero⟩
      apply changes.kept _ (stored.present (24 + shown) (by omega) ?_ _ ?_)
      · rwa [headerBytes_page _ _ _ inside]
      · simp only [cacheBlockSz]
        omega
    · rw [bytes index (by omega), headerBytes_magic _ _ _ isUnsynced inRange]
    · intro index inRange
      rw [Nat.add_assoc, bytes _ (by omega), headerBytes_nRec _ _ _ inRange]
      rfl
    · intro index inRange
      rw [Nat.add_assoc, bytes _ (by omega), headerBytes_cksumInit _ _ _ inRange]
      rfl
    · intro index inRange
      rw [Nat.add_assoc, bytes _ (by omega), headerBytes_dbSize _ _ _ inRange]
    · intro index inRange
      rw [Nat.add_assoc, bytes _ (by omega), headerBytes_sector _ _ _ inRange]
    · intro index inRange
      rw [Nat.add_assoc, bytes _ (by omega), headerBytes_page _ _ _ inRange]

end Header

end EspSqlite.Rollback
