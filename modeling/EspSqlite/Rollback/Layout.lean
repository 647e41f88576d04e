import EspSqlite.Rollback.Restore

/-! # The layout of a journal

While a transaction writes, its journal is made of closed segments, whose headers
count their records, and of an open one at the end. -/

namespace EspSqlite.Rollback

open Vfs (sqliteOk)
open Journal (BlockFile MemFile cacheBlockSz isBlank sevenless_of_aligned sevenless_of_short)

/-! ## Rewritten headers -/

section Rewrite

variable {pageSize sectorSize dbOrigSize : Nat} {map : BlockFile}

theorem filled_push_zero {offset : Nat} {data : Nat → UInt8} (zero : data 0 = 0)
    (clear : Clear map offset) (position : Nat) :
    (map.push (fun _ => true) offset 1 data).filled position = map.filled position := by
  by_cases inside : offset ≤ position ∧ position < offset + 1
  · have isOffset : position = offset + 0 := by omega
    have stored : (map.push (fun _ => true) offset 1 data).filled (offset + 0) = data 0 :=
      BlockFile.filled_push_inside (sevenless_of_short (by decide)) (by decide)
        fun _ => clear _ (Nat.le_refl _)
    rw [isOffset, stored, zero]
    exact (clear _ (Nat.le_refl _)).symm
  · exact BlockFile.filled_push_outside inside

def countedHeader (memory : Nat → UInt8) (nRec : Nat) : Nat → UInt8 :=
  sqlite3Put4byte (memcpy memory 0 aJournalMagic 8) 8 nRec

theorem countedHeader_magic {memory : Nat → UInt8} {nRec index : Nat} (inside : index < 8) :
    countedHeader memory nRec index = aJournalMagic index := by
  rw [countedHeader, sqlite3Put4byte, memcpy_outside (by omega), memcpy_front inside]

theorem countedHeader_nRec {memory : Nat → UInt8} {nRec index : Nat} (inside : index < 4) :
    countedHeader memory nRec (8 + index) = fourBytes nRec index := by
  rw [countedHeader, sqlite3Put4byte, memcpy_inside inside]

theorem isBlank_countedHeader {memory : Nat → UInt8} {nRec : Nat} :
    isBlank (countedHeader memory nRec) = false := by
  rw [← Bool.not_eq_true, Journal.isBlank_iff]
  intro blank
  have zero := blank 0 (by decide)
  rw [countedHeader_magic (by decide)] at zero
  exact absurd zero (by decide)

theorem HeaderAt.counted {position nRec : Nat} {magic : Bool} {segment : Segment}
    (header : HeaderAt pageSize sectorSize dbOrigSize map position magic segment)
    (aligned : position % cacheBlockSz = 0) (memory : Nat → UInt8) :
    HeaderAt pageSize sectorSize dbOrigSize
      (map.push (fun _ => true) position 12 (countedHeader memory nRec)) position true
      { segment with nRec } := by
  have changes : Changes position (position + 12) map
      (map.push (fun _ => true) position 12 (countedHeader memory nRec)) :=
    .push map (Nat.le_refl _) (Nat.le_refl _)
  have written : ∀ index < 12,
      (map.push (fun _ => true) position 12 (countedHeader memory nRec)).filled
        (position + index) = countedHeader memory nRec index := by
    intro index inside
    simp only [cacheBlockSz] at aligned
    exact BlockFile.filled_push_shown (sevenless_of_aligned (by omega) (by decide)) (by decide)
      (by simp only [cacheBlockSz]; omega) isBlank_countedHeader inside
  exact {
    present := fun index inside => changes.kept _ (header.present index inside)
    isMagic := fun _ index inside => by
      rw [written index (by omega), countedHeader_magic inside]
    nRec := fun index inside => by
      rw [Nat.add_assoc, written _ (by omega), countedHeader_nRec inside]
    cksumInit := header.cksumInit.changes changes (by omega)
    dbSize := header.dbSize.changes changes (by omega)
    sector := header.sector.changes changes (by omega)
    page := header.page.changes changes (by omega) }

end Rewrite

/-! ## The number of records is stored -/

section Count

variable {DbFile : Type} {database : IoMethods DbFile} {pager : Pager MemFile DbFile}
  {map : BlockFile}

variable (database) in
theorem storeRecordCount_stores (models : pager.jfd.Models map)
    (sizes : Sizes pager.pageSize pager.sectorSize)
    (clear : Clear map pager.journalOff) (long : pager.journalOff ≤ map.size)
    (atHeader : pager.journalHdr % cacheBlockSz = 0)
    (before : pager.journalHdr + 28 ≤ pager.journalOff)
    (bounded : journalHdrOffset pager.sectorSize pager.journalOff + pager.sectorSize ≤
      journalLimit)
    {dbOrigSize : Nat} {magic : Bool} {segment : Segment}
    (header : HeaderAt pager.pageSize pager.sectorSize dbOrigSize map pager.journalHdr magic
      segment)
    (stack : Nat → Nat → UInt8) (zerobyte : Nat → UInt8) :
    ∃ jfd map', storeRecordCount memory database stack zerobyte pager =
        some (sqliteOk, { pager with jfd }) ∧
      jfd.Models map' ∧
      HeaderAt pager.pageSize pager.sectorSize dbOrigSize map' pager.journalHdr true
        { segment with nRec := pager.nRec } ∧
      Changes pager.journalHdr (pager.journalHdr + 12) map map' ∧
      map.size ≤ map'.size ∧
      map'.size ≤ max map.size (journalHdrOffset pager.sectorSize pager.journalOff + 1) := by
  have sector := sizes.sector.ge
  have after := (journalHdrOffset_bounds sizes.sector pager.journalOff).1
  generalize isNext : journalHdrOffset pager.sectorSize pager.journalOff = next at *
  have nextMagic : next + 8 ≤ journalLimit := by omega
  have read := memory_read models (stack next) nextMagic
  -- what is taken for a magic in missing blocks gets a zero byte
  have cleared : ∃ jfd map₁,
      (if isMagic (map.pull next 8 (stack next)) = true then
        memory.xWrite pager.jfd (memsetZero zerobyte 0 1) 1 next
      else some (sqliteOk, pager.jfd)) = some (sqliteOk, jfd) ∧
      jfd.Models map₁ ∧ Changes next next map map₁ ∧ map.size ≤ map₁.size ∧
      map₁.size ≤ max map.size (next + 1) := by
    by_cases magic : isMagic (map.pull next 8 (stack next)) = true
    · have nextByte : next + 1 ≤ journalLimit := by omega
      rcases memory_write models (memsetZero zerobyte 0 1) nextByte with ⟨jfd, written, models₁⟩
      have size : (map.push (fun _ => true) next 1 (memsetZero zerobyte 0 1)).size = _ :=
        BlockFile.push_size (sevenless_of_short (by decide)) (by decide)
      refine ⟨jfd, _, by rw [if_pos magic, written], models₁, ⟨fun position _ => ?_, fun _ =>
        BlockFile.isSome_push⟩, by omega, by omega⟩
      exact filled_push_zero (memcpy_front (by decide))
        (fun other later => clear other (by omega)) position
    · exact ⟨pager.jfd, map, if_neg magic, models, .refl _ _ _, Nat.le_refl _, by omega⟩
  rcases cleared with ⟨jfd₁, map₁, cleared, models₁, same, longer, bound⟩
  have lastHeader : pager.journalHdr + 12 ≤ journalLimit := by omega
  rcases memory_write models₁ (countedHeader (stack pager.journalHdr) pager.nRec) lastHeader with
    ⟨jfd, written, models'⟩
  have header₁ := header.changes same (by omega)
  have whole : pager.journalHdr % 4 = 0 := by
    simp only [cacheBlockSz] at atHeader
    omega
  have size : (map₁.push (fun _ => true) pager.journalHdr 12
      (countedHeader (stack pager.journalHdr) pager.nRec)).size = _ :=
    BlockFile.push_size (sevenless_of_aligned whole (by decide)) (by decide)
  refine ⟨jfd, _, ?_, models', header₁.counted atHeader _, ?_, by omega, by omega⟩
  · have sync : ∀ condition : Prop, ∀ [Decidable condition],
        (if condition then memory.xSync jfd₁ else some (sqliteOk, jfd₁)) =
          some (sqliteOk, jfd₁) := fun _ _ => ite_self _
    rw [countedHeader] at written
    simp only [storeRecordCount, isNext, read, Option.bind_some, true_and, cleared, ne_eq,
      not_true, false_and, if_false, sync, onOk_ok, written]
  · exact same.of_none.trans (.push map₁ (Nat.le_refl _) (Nat.le_refl _))

end Count

/-! ## Closed segments -/

section Closed

variable (pageSize sectorSize dbOrigSize : Nat)

def ClosedAt (map : BlockFile) : (position : Nat) → List Segment → (stop : Nat) → Prop
  | position, [], stop => position = stop
  | position, segment :: rest, stop =>
      let header := journalHdrOffset sectorSize position
      HeaderAt pageSize sectorSize dbOrigSize map header true segment ∧
        RecordsAt pageSize segment.cksumInit map (header + sectorSize) segment.records ∧
        segment.nRec = segment.records.length ∧
        segment.cksumInit < 2 ^ 32 ∧
        ClosedAt map (segmentEnd pageSize sectorSize header segment) rest stop

variable {pageSize sectorSize dbOrigSize} {map map' : BlockFile} {closed : List Segment}

theorem ClosedAt.le (power : BlockPower sectorSize) : ∀ {position stop : Nat},
    ClosedAt pageSize sectorSize dbOrigSize map position closed stop → position ≤ stop := by
  induction closed with
  | nil => exact fun held => Nat.le_of_eq held
  | cons segment rest induction =>
      intro position stop held
      have after := (journalHdrOffset_bounds power position).1
      have later := induction held.2.2.2.2
      rw [segmentEnd] at later
      omega

theorem ClosedAt.changes (power : BlockPower sectorSize) {start stop' : Nat}
    (changes : Changes start stop' map map') : ∀ {position stop : Nat},
    ClosedAt pageSize sectorSize dbOrigSize map position closed stop → stop ≤ start →
    ClosedAt pageSize sectorSize dbOrigSize map' position closed stop := by
  induction closed with
  | nil => exact fun held _ => held
  | cons segment rest induction =>
      intro position stop held before
      rcases held with ⟨header, records, counted, small, later⟩
      have inside := later.le power
      have sector := power.ge
      rw [segmentEnd] at inside
      exact ⟨header.changes changes (by omega), records.changes changes (by omega), counted, small,
        induction later before⟩

theorem ClosedAt.snoc {segment : Segment} : ∀ {position stop : Nat},
    ClosedAt pageSize sectorSize dbOrigSize map position closed stop →
    HeaderAt pageSize sectorSize dbOrigSize map (journalHdrOffset sectorSize stop) true segment →
    RecordsAt pageSize segment.cksumInit map (journalHdrOffset sectorSize stop + sectorSize)
      segment.records →
    segment.nRec = segment.records.length → segment.cksumInit < 2 ^ 32 →
    ClosedAt pageSize sectorSize dbOrigSize map position (closed ++ [segment])
      (segmentEnd pageSize sectorSize (journalHdrOffset sectorSize stop) segment) := by
  induction closed with
  | nil =>
      rintro position stop rfl header records counted small
      exact ⟨header, records, counted, small, rfl⟩
  | cons first rest induction =>
      intro position stop held header records counted small
      exact ⟨held.1, held.2.1, held.2.2.1, held.2.2.2.1,
        induction held.2.2.2.2 header records counted small⟩

end Closed

/-! ## The journal of a transaction -/

section Layout

variable {DbFile : Type}

def Pager.openSegment (pager : Pager MemFile DbFile) (records : List Record) : Segment :=
  ⟨if pager.noSync then 0xffffffff else 0, pager.cksumInit, records⟩

/-- The journal has closed segments up to `start`, and records after its last header. -/
structure Layout (map : BlockFile) (start : Nat) (closed : List Segment) (records : List Record)
    (pager : Pager MemFile DbFile) : Prop where
  sizes : Sizes pager.pageSize pager.sectorSize
  models : pager.jfd.Models map
  closedAt : ClosedAt pager.pageSize pager.sectorSize pager.dbOrigSize map 0 closed start
  atHeader : pager.journalHdr = journalHdrOffset pager.sectorSize start
  header : HeaderAt pager.pageSize pager.sectorSize pager.dbOrigSize map pager.journalHdr
    pager.noSync (pager.openSegment records)
  recordsAt : RecordsAt pager.pageSize pager.cksumInit map
    (pager.journalHdr + pager.sectorSize) records
  journalOff : pager.journalOff =
    pager.journalHdr + pager.sectorSize + records.length * journalPgSz pager.pageSize
  nRec : pager.nRec = records.length
  cksumInit : pager.cksumInit < 2 ^ 32
  single : pager.noSync = true → closed = []
  clear : Clear map pager.journalOff
  size : map.size = pager.journalOff

def Pager.journal (pager : Pager MemFile DbFile) :
    MemFile × Bool × Nat × Nat × Nat × Nat × Nat × Nat × Nat :=
  (pager.jfd, pager.noSync, pager.pageSize, pager.sectorSize, pager.dbOrigSize, pager.journalHdr,
    pager.journalOff, pager.nRec, pager.cksumInit)

variable {map : BlockFile} {start : Nat} {closed : List Segment} {records : List Record}
  {pager pager' : Pager MemFile DbFile}

theorem Layout.congr (layout : Layout map start closed records pager)
    (same : pager'.journal = pager.journal) : Layout map start closed records pager' := by
  cases pager
  cases pager'
  simp only [Pager.journal, Prod.mk.injEq] at same
  rcases same with ⟨rfl, rfl, rfl, rfl, rfl, rfl, rfl, rfl, rfl⟩
  exact ⟨layout.sizes, layout.models, layout.closedAt, layout.atHeader, layout.header,
    layout.recordsAt, layout.journalOff, layout.nRec, layout.cksumInit, layout.single,
    layout.clear, layout.size⟩

theorem Layout.positive (layout : Layout map start closed records pager) :
    pager.journalHdr + 28 ≤ pager.journalOff := by
  have sector := layout.sizes.sector.ge
  rw [layout.journalOff]
  omega

def Pager.journalOpened (pager : Pager MemFile DbFile) (random : Nat) (jfd : MemFile)
    (pTmpSpace : Nat → UInt8) : Pager MemFile DbFile :=
  { pager with
    eState := .writerCachemod
    pInJournal := fun _ => false
    nRec := 0
    journalHdr := 0
    journalOff := pager.sectorSize
    cksumInit := random
    jfd
    pTmpSpace }

theorem pagerOpenJournal_lays {database : IoMethods DbFile}
    (plain : database.xDeviceCharacteristics pager.fd = 0)
    (sizes : Sizes pager.pageSize pager.sectorSize) (empty : pager.jfd.Models .empty) {random : Nat}
    (small : random < 2 ^ 32) :
    ∃ jfd pTmpSpace map, pagerOpenJournal memory database random pager =
        some (sqliteOk, pager.journalOpened random jfd pTmpSpace) ∧
      Layout map 0 [] [] (pager.journalOpened random jfd pTmpSpace) := by
  let begun : Pager MemFile DbFile :=
    { pager with pInJournal := fun _ => false, nRec := 0, journalOff := 0, journalHdr := 0 }
  have atStart : journalHdrOffset begun.sectorSize begun.journalOff = 0 := rfl
  have bounded : 0 + begun.sectorSize ≤ journalLimit := by
    have atMost := sizes.sector.le
    simp only [begun, journalLimit, cacheBlockSz]
    omega
  rcases writeJournalHdr_stores begun plain sizes empty (fun _ _ => rfl) bounded random
    with ⟨jfd, pTmpSpace, map, written, models, changes, header, size⟩
  rw [atStart, Nat.zero_add] at changes size
  refine ⟨jfd, pTmpSpace, map, ?_, sizes, models, rfl, rfl, header, trivial, ?_, rfl, small,
    fun _ => rfl, ?_, ?_⟩
  · simp only [pagerOpenJournal]
    rw [show writeJournalHdr memory database random _ = _ from written, onOk_ok]
    simp only [Pager.headed, atStart, Nat.zero_add]
    rfl
  · simp only [Pager.journalOpened, List.length_nil, Nat.zero_mul, Nat.zero_add, Nat.add_zero]
  · intro position after
    have beyond : begun.sectorSize ≤ position := after
    rw [changes.same position (by omega)]
    rfl
  · exact size.trans (Nat.max_eq_right (Nat.zero_le _))

theorem Layout.addPage (layout : Layout map start closed records pager)
    (bounded : pager.journalOff + journalPgSz pager.pageSize ≤ journalLimit) {pgno : Nat}
    (numbered : pgno ≠ 0 ∧ pgno < 2 ^ 32) {pPg : PgHdr} (cached : pager.pPCache pgno = some pPg)
    (stack : Nat → Nat → UInt8) :
    ∃ jfd map', pagerAddPageToRollbackJournal memory stack pager pgno =
        some (sqliteOk, pager.recorded pgno jfd) ∧
      Layout map' start closed (records ++ [⟨pgno, pPg.pData⟩]) (pager.recorded pgno jfd) := by
  have headerWhole := journalHdrOffset_mod layout.sizes.sector start
  have sectorWhole := layout.sizes.sector.mod_eq
  have pageWhole := layout.sizes.page.mod_eq
  rw [← layout.atHeader] at headerWhole
  simp only [cacheBlockSz] at headerWhole sectorWhole pageWhole
  have recordsWhole : records.length * journalPgSz pager.pageSize % 8 = 0 := by
    rw [Nat.mul_mod, show journalPgSz pager.pageSize % 8 = 0 by rw [journalPgSz]; omega,
      Nat.mul_zero, Nat.zero_mod]
  have isOff := layout.journalOff
  have aligned : pager.journalOff % 8 = 0 := by omega
  rcases addPage_records layout.sizes layout.models aligned layout.clear bounded numbered cached
    stack with ⟨jfd, map', added, models', changes, held, size⟩
  have after := (journalHdrOffset_bounds layout.sizes.sector start).1
  rw [← layout.atHeader] at after
  have positive := layout.positive
  have sector := layout.sizes.sector.ge
  have isNext : pager.journalHdr + pager.sectorSize + records.length * journalPgSz pager.pageSize +
      journalPgSz pager.pageSize = pager.journalHdr + pager.sectorSize +
        (records ++ [Record.mk pgno pPg.pData]).length * journalPgSz pager.pageSize := by
    rw [List.length_append, List.length_singleton, Nat.succ_mul]
    omega
  refine ⟨jfd, map', added, layout.sizes, models', ?_, layout.atHeader, ?_, ?_, ?_, ?_,
    layout.cksumInit, layout.single, ?_, ?_⟩
  · exact layout.closedAt.changes layout.sizes.sector changes (by omega)
  · exact { layout.header.changes changes (by omega) with }
  · apply (layout.recordsAt.changes changes (by omega)).snoc
    rwa [← isOff]
  · rw [← isOff] at isNext
    exact (congrArg _ (Nat.add_comm 8 pager.pageSize)).trans isNext
  · rw [List.length_append, ← layout.nRec]
    rfl
  · intro position after
    have beyond : pager.journalOff + (8 + pager.pageSize) ≤ position := after
    rw [journalPgSz] at changes
    rw [changes.same position (by omega)]
    exact layout.clear position (by omega)
  · rw [size, layout.size, Nat.max_eq_right (Nat.le_add_right _ _), journalPgSz,
      Nat.add_comm pager.pageSize]
    rfl

def Pager.resumed (pager : Pager MemFile DbFile) (random : Nat) (jfd : MemFile)
    (pTmpSpace : Nat → UInt8) : Pager MemFile DbFile :=
  synced ({ pager with journalHdr := pager.journalOff, nRec := 0 }.headed random jfd pTmpSpace)

theorem syncJournal_noSync {database : IoMethods DbFile} (noSync : pager.noSync = true)
    (random : Nat) (stack : Nat → Nat → UInt8) (zerobyte : Nat → UInt8) (newHdr : Bool) :
    syncJournal memory database random stack zerobyte pager newHdr =
      some (sqliteOk, synced pager) := by
  rw [syncJournal]
  simp only [noSync, if_true]

/-- A sync closes the open segment and opens another. -/
theorem Layout.sync (layout : Layout map start closed records pager)
    {database : IoMethods DbFile} (plain : database.xDeviceCharacteristics pager.fd = 0)
    (isSync : pager.noSync = false)
    (bounded : journalHdrOffset pager.sectorSize pager.journalOff + pager.sectorSize ≤
      journalLimit) {random : Nat} (small : random < 2 ^ 32) (stack : Nat → Nat → UInt8)
    (zerobyte : Nat → UInt8) :
    ∃ jfd pTmpSpace map', syncJournal memory database random stack zerobyte pager true =
        some (sqliteOk, pager.resumed random jfd pTmpSpace) ∧
      Layout map' pager.journalOff (closed ++ [⟨records.length, pager.cksumInit, records⟩]) []
        (pager.resumed random jfd pTmpSpace) := by
  have headerWhole := journalHdrOffset_mod layout.sizes.sector start
  rw [← layout.atHeader] at headerWhole
  have after := (journalHdrOffset_bounds layout.sizes.sector start).1
  rw [← layout.atHeader] at after
  have sector := layout.sizes.sector.ge
  have isOff := layout.journalOff
  have notNoSync : ¬pager.noSync = true := by
    rw [isSync]
    exact Bool.false_ne_true
  rcases storeRecordCount_stores database layout.models layout.sizes layout.clear
    (Nat.le_of_eq layout.size.symm) headerWhole layout.positive bounded layout.header stack zerobyte
    with ⟨jfd₁, map₁, counted, models₁, header₁, changes₁, longer, bound⟩
  let pager₁ : Pager MemFile DbFile :=
    { pager with jfd := jfd₁, journalHdr := pager.journalOff, nRec := 0 }
  have clear₁ : Clear map₁ pager.journalOff := by
    intro position later
    rw [changes₁.same position (by omega)]
    exact layout.clear position later
  rcases writeJournalHdr_stores pager₁ plain layout.sizes models₁ clear₁ bounded random
    with ⟨jfd, pTmpSpace, map', written, models', changes', header', size'⟩
  have afterOff := (journalHdrOffset_bounds layout.sizes.sector pager.journalOff).1
  let segment : Segment := ⟨records.length, pager.cksumInit, records⟩
  have header : HeaderAt pager.pageSize pager.sectorSize pager.dbOrigSize map₁ pager.journalHdr
      true segment := by
    rwa [layout.nRec] at header₁
  have closed₁ : ClosedAt pager.pageSize pager.sectorSize pager.dbOrigSize map₁ 0
      (closed ++ [segment]) pager.journalOff := by
    have held := layout.recordsAt.changes changes₁ (by omega)
    rw [layout.atHeader] at header held
    have whole := (layout.closedAt.changes layout.sizes.sector changes₁ (by omega)).snoc header held
      rfl layout.cksumInit
    rwa [← layout.atHeader, segmentEnd, ← isOff] at whole
  refine ⟨jfd, pTmpSpace, map', ?_, layout.sizes, models', ?_, rfl, header', trivial, ?_, rfl,
    small, ?_, ?_, ?_⟩
  · simp only [syncJournal, if_neg notNoSync, plain, Nat.zero_and, if_true, counted, onOk_ok,
      and_self]
    rw [show memory.xSync jfd₁ = some (sqliteOk, jfd₁) from rfl, onOk_ok,
      show writeJournalHdr memory database random _ = _ from written, onOk_ok]
    rfl
  · exact closed₁.changes layout.sizes.sector changes' afterOff
  · exact (Nat.add_zero _).symm.trans (congrArg _ (Nat.zero_mul _).symm)
  · exact fun noSync => absurd noSync notNoSync
  · intro position later
    have beyond : journalHdrOffset pager.sectorSize pager.journalOff + pager.sectorSize ≤
        position := later
    rw [changes'.same position fun inside => absurd (inside.2.trans_le beyond) (Nat.lt_irrefl _)]
    exact clear₁ position (by omega)
  · have isSize := layout.size
    exact size'.trans (Nat.max_eq_right (by simp only [pager₁]; omega))

end Layout

/-! ## What the playback finds -/

section Found

variable {pageSize sectorSize dbOrigSize : Nat} {map : BlockFile}

theorem HeaderAt.unmarked {position : Nat} {segment : Segment}
    (header : HeaderAt pageSize sectorSize dbOrigSize map position true segment) (magic : Bool) :
    HeaderAt pageSize sectorSize dbOrigSize map position magic segment :=
  { header with isMagic := fun _ => header.isMagic rfl }

theorem length_small (pageSize : Nat) {count : Nat}
    (bounded : count * journalPgSz pageSize ≤ journalLimit) :
    count < 0xffffffff := by
  have atLeast : count ≤ count * journalPgSz pageSize :=
    Nat.le_mul_of_pos_right count (Nat.succ_pos _)
  simp only [journalLimit, cacheBlockSz] at bounded
  omega

theorem ClosedAt.segmentsAt (power : BlockPower sectorSize) {closed rest : List Segment}
    {journalHdr szJ stop : Nat} (before : stop ≤ journalHdr) (inside : stop ≤ szJ)
    (bounded : szJ ≤ journalLimit) : ∀ {position : Nat},
    ClosedAt pageSize sectorSize dbOrigSize map position closed stop →
    SegmentsAt pageSize sectorSize dbOrigSize journalHdr szJ map stop rest →
    SegmentsAt pageSize sectorSize dbOrigSize journalHdr szJ map position (closed ++ rest) := by
  induction closed with
  | nil =>
      rintro position rfl held
      exact held
  | cons segment others induction =>
      rintro position ⟨header, records, counted, small, later⟩ held
      have ends := later.le power
      have sector := power.ge
      have isEnd := ends
      rw [segmentEnd] at isEnd
      have few : segment.records.length < 0xffffffff :=
        length_small pageSize (by omega)
      refine ⟨Nat.le_trans ends inside, header.unmarked _, records, ?_, ⟨by omega, small⟩,
        induction later held⟩
      rw [counted, recordCount]
      simp only [if_neg (Nat.ne_of_lt few)]
      rw [if_neg (by omega)]

theorem Layout.segmentsAt {DbFile : Type} {pager : Pager MemFile DbFile} {start : Nat}
    {closed : List Segment} {records : List Record}
    (layout : Layout map start closed records pager) (bounded : map.size ≤ journalLimit) :
    SegmentsAt pager.pageSize pager.sectorSize pager.dbOrigSize pager.journalHdr map.size map 0
      (closed ++ [pager.openSegment records]) := by
  have after := (journalHdrOffset_bounds layout.sizes.sector start).1
  have sector := layout.sizes.sector.ge
  have isOff := layout.journalOff
  have isSize := layout.size
  have isHeader := layout.atHeader
  have few : records.length < 0xffffffff :=
    length_small pager.pageSize (by omega)
  have room : 0 < journalPgSz pager.pageSize := Nat.succ_pos _
  have ends : segmentEnd pager.pageSize pager.sectorSize pager.journalHdr
      (pager.openSegment records) = map.size := by
    rw [isSize, isOff]
    rfl
  apply layout.closedAt.segmentsAt layout.sizes.sector (by omega) (by omega) bounded
  rw [SegmentsAt, ← isHeader, ends, bne_self_eq_false]
  refine ⟨Nat.le_refl _, { layout.header with isMagic := nofun }, layout.recordsAt, ?_, ⟨?_,
    layout.cksumInit⟩, ?_⟩
  · have found : (map.size - (pager.journalHdr + pager.sectorSize)) / journalPgSz pager.pageSize =
        records.length := by
      rw [isSize, isOff, Nat.add_sub_cancel_left, Nat.mul_div_cancel _ room]
    rw [recordCount]
    cases noSync : pager.noSync with
    | false =>
        simp only [Pager.openSegment, noSync, Bool.false_eq_true, if_false, Nat.reduceEqDiff,
          true_and, if_true]
        exact found
    | true =>
        -- without syncs there is only the first header
        have isStart : 0 = start := by
          have closedAt := layout.closedAt
          rwa [layout.single noSync] at closedAt
        have atZero : pager.journalHdr = 0 := by
          rw [isHeader, ← isStart]
          rfl
        rw [atZero, Nat.zero_add] at found
        simp only [Pager.openSegment, noSync, if_true, atZero, Nat.zero_add, found]
        exact ite_self _
  · simp only [Pager.openSegment]
    split <;> decide
  · have beyond := (journalHdrOffset_bounds layout.sizes.sector map.size).1
    simp only [SegmentsAt]
    omega

end Found

end EspSqlite.Rollback
