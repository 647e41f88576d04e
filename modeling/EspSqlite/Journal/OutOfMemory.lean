import EspSqlite.Journal.Allocation
import EspSqlite.Journal.Methods

/-! # Reporting that there is no memory

What `filecache_push` and `esp8266mem_Write` return when `sqlite3_malloc` fails. -/

namespace EspSqlite.Journal

open Vfs (sqliteOk)

def takesNomemExit (mallocs : Nat → Bool) (file : MemFile) (offset len : Nat)
    (data : Nat → UInt8) : Bool :=
  offset % cacheBlockSz + len != 0 &&
    (pushLoop mallocs offset len data (roundCount offset len)
      ⟨file.heap, file.cache.list, 0, true⟩).map (fun result => result.2.1) == some true

/-- A chunk is blank or the file holds its bytes. -/
def Processed (file : MemFile) (offset : Nat) (data : Nat → UInt8) (chunk : Chunk) : Prop :=
  isBlank (window data chunk) = true ∨
    ∀ index < chunk.count, file.heldAt (offset + (chunk.start + index)) =
      some (data (chunk.start + index))

def Freed (file : MemFile) (addr : Nat) : Prop :=
  ∃ freed, filecacheFree file.heap file.cache = some freed ∧ addr ∈ freed

/-- `filecache_push` leaves its loop early exactly when a call of
`sqlite3_malloc` fails. Otherwise it has processed every chunk, the size covers
the range, and each block allocated is given back by `filecache_free`. -/
def ReportsNomem (mallocs : Nat → Bool) (file : MemFile) (offset len : Nat)
    (data : Nat → UInt8) : Prop :=
  ∃ (ret : Nat) (file' : MemFile), filecachePush mallocs file.heap file.cache offset len data =
      some (ret, file'.heap, file'.cache) ∧
    (takesNomemExit mallocs file offset len data = true ↔
      Failed mallocs file.heap.calls file'.heap.calls) ∧
    (¬Failed mallocs file.heap.calls file'.heap.calls →
      ret = len ∧ file'.cache.size = max file.cache.size (offset + len) ∧
        (∀ chunk ∈ BlockFile.chunksOf offset len, Processed file' offset data chunk) ∧
        ∀ addr, file.heap.calls ≤ addr → addr < file'.heap.calls → Freed file' addr)

/-! ## Giving the blocks back -/

theorem freeLoop_eq {heap : Heap} {list : List (Nat × LinkedList)} :
    ∀ {start : Option Nat} {fuel : Nat},
    HeapList.Chain heap.nodes LinkedList.next start list → list.length < fuel →
    freeLoop heap fuel start = some (list.map Prod.fst) := by
  induction list with
  | nil =>
      intro start fuel chain enough
      have isNone : start = none := chain
      cases fuel with
      | zero => exact absurd enough (Nat.not_lt_zero _)
      | succ fuel => rw [isNone, freeLoop]; rfl
  | cons head rest induction =>
      intro start fuel chain enough
      rcases chain with ⟨isHead, found, chain⟩
      cases fuel with
      | zero => exact absurd enough (Nat.not_lt_zero _)
      | succ fuel =>
          subst isHead
          rw [freeLoop, found, Option.bind_some,
            induction chain (Nat.lt_of_succ_lt_succ enough)]
          rfl

theorem MemFile.Models.freed {file : MemFile} {map : BlockFile} (models : file.Models map)
    {blockid addr : Nat} {block : Nat → UInt8}
    (held : map.blocks.lookup blockid = some (addr, block)) : Freed file addr := by
  rcases models with ⟨list, represents, _⟩
  have length := represents.chain.length_le represents.fresh
  refine ⟨_, freeLoop_eq represents.chain (Nat.lt_succ_of_le length), ?_⟩
  rw [← SortedMap.mem_entries_iff, ← represents.entries] at held
  rcases List.mem_map.mp held with ⟨entry, member, isEntry⟩
  have isAddr : entry.1 = addr := congrArg (fun other => other.2.1) isEntry
  rw [← isAddr]
  exact List.mem_map_of_mem member

theorem MemFile.Models.calls_eq {file : MemFile} {map : BlockFile} (models : file.Models map) :
    file.heap.calls = map.calls := by
  rcases models with ⟨_, represents, _⟩
  exact represents.calls

theorem MemFile.Models.size_eq {file : MemFile} {map : BlockFile} (models : file.Models map) :
    file.cache.size = map.size := by
  rcases models with ⟨_, _, sameSize⟩
  exact sameSize

/-! ## One call -/

theorem MemFile.Models.stored {file : MemFile} {map : BlockFile} (models : file.Models map)
    (mallocs : Nat → Bool) (data : Nat → UInt8) {offset len : Nat}
    (bounded : offset + len ≤ 65535 * cacheBlockSz) (busy : offset % cacheBlockSz + len ≠ 0) :
    ∃ (ret : Nat) (file' : MemFile), filecachePush mallocs file.heap file.cache offset len data =
        some (ret, file'.heap, file'.cache) ∧
      file'.Models (map.push mallocs offset len data) ∧
      takesNomemExit mallocs file offset len data =
        (map.storeChunks mallocs offset data (BlockFile.chunksOf offset len)).1 ∧
      ((map.storeChunks mallocs offset data (BlockFile.chunksOf offset len)).1 = false →
        ret = len) := by
  rcases models with ⟨list, represents, sameSize⟩
  rcases filecachePush_refines mallocs represents sameSize data bounded with
    ⟨ret, heap', cache', list', result, represents', sameSize'⟩
  rcases pushLoop_refines mallocs data (blockCount cacheBlockSz offset len)
    ⟨file.heap, file.cache.list, 0, true⟩ represents (fun moved => by cases moved)
    (numbered_of_bounded bounded data) with ⟨visited, s', _, pushed, _, atEnd⟩
  have isChunks : chunks cacheBlockSz offset len (blockCount cacheBlockSz offset len) 0 =
      BlockFile.chunksOf offset len := rfl
  simp only [isChunks] at pushed atEnd
  have rounds := roundCount_eq (spans_of_bounded bounded)
  refine ⟨ret, ⟨heap', cache'⟩, result, ⟨list', represents', sameSize'⟩, ?_, fun goesOn => ?_⟩
  · rw [takesNomemExit, rounds, pushed, bne_iff_ne.mpr busy, Bool.true_and, Option.map_some]
    cases (map.storeChunks mallocs offset data (BlockFile.chunksOf offset len)).1 <;> rfl
  · rw [filecachePush, filecachePushRounds, if_neg busy, rounds, pushed, Option.map_some, goesOn]
      at result
    simp only [Option.map_some, Bool.false_eq_true, if_false, Option.some.injEq, Prod.mk.injEq]
      at result
    rw [← result.1]
    exact atEnd goesOn len (BlockFile.chunksOf_tiles offset len)

theorem BlockFile.processed_push {map : BlockFile} {offset len : Nat} {data : Nat → UInt8}
    (noSeven : ∀ chunk ∈ BlockFile.chunksOf offset len, chunk.count ≠ sqliteNomem)
    {chunk : Chunk} (member : chunk ∈ BlockFile.chunksOf offset len) :
    isBlank (window data chunk) = true ∨
      ∀ index < chunk.count,
        (map.push (fun _ => true) offset len data).byteAt (offset + (chunk.start + index)) =
          some (data (chunk.start + index)) := by
  rcases List.append_of_mem member with ⟨earlier, later, split⟩
  cases shown : isBlank (window data chunk) with
  | true => exact Or.inl rfl
  | false =>
      right
      intro index inChunk
      have noneEarlier : (earlier.any fun other => other.count == sqliteNomem) = false := by
        rw [List.any_eq_false]
        intro other inEarlier
        simpa using noSeven other (by simp [split, inEarlier])
      have kept : dropped map.isFirst offset data earlier chunk = false := by
        simp [dropped, noneEarlier, shown, noSeven chunk member]
      rw [BlockFile.byteAt_push split inChunk, if_neg (by simp [kept])]

theorem reportsNomem_of_nothing {file : MemFile} {offset len : Nat}
    (nothing : offset % cacheBlockSz + len = 0) (mallocs : Nat → Bool) (data : Nat → UInt8) :
    ReportsNomem mallocs file offset len data ↔ offset ≤ esp8266memFileSize file := by
  have result : filecachePush mallocs file.heap file.cache offset len data =
      some (0, file.heap, file.cache) := by
    rw [filecachePush, filecachePushRounds, if_pos nothing, Option.map_some]
  have noExit : takesNomemExit mallocs file offset len data = false := by
    simp [takesNomemExit, nothing]
  have noFailure := not_failed_self mallocs file.heap.calls
  rw [ReportsNomem, noExit, BlockFile.chunksOf_eq_nil nothing, esp8266memFileSize]
  constructor
  · intro reports
    rcases reports with ⟨ret, ⟨heap', cache'⟩, result', _, complete⟩
    rw [result, Option.some.injEq, Prod.mk.injEq, Prod.mk.injEq] at result'
    rcases result' with ⟨_, rfl, rfl⟩
    have size : file.cache.size = max file.cache.size (offset + len) := (complete noFailure).2.1
    omega
  · intro inside
    refine ⟨0, file, result, iff_of_false Bool.false_ne_true noFailure, fun _ => ?_⟩
    refine ⟨by omega, by omega, by simp, fun addr after before => ?_⟩
    exact absurd before (Nat.not_lt_of_le after)

/-- Without a failure, a call that has something to do leaves the size, the bytes
and the blocks of a call that always has memory. -/
theorem MemFile.Models.complete {file file' : MemFile} {map : BlockFile}
    (models : file.Models map) {mallocs : Nat → Bool} {data : Nat → UInt8} {offset len : Nat}
    (models' : file'.Models (map.push mallocs offset len data))
    (busy : offset % cacheBlockSz + len ≠ 0)
    (goesOn : (map.storeChunks mallocs offset data (BlockFile.chunksOf offset len)).1 = false) :
    file'.cache.size = max file.cache.size (offset + len) ∧
      (∀ chunk ∈ BlockFile.chunksOf offset len, Processed file' offset data chunk) ∧
      ∀ addr, file.heap.calls ≤ addr → addr < file'.heap.calls → Freed file' addr := by
  have ends := map.storeChunks_ends mallocs offset data (BlockFile.chunksOf offset len)
  have noneOf := ends.not.mp (by simp [goesOn])
  rw [not_or] at noneOf
  rcases noneOf with ⟨noSeven, noFailure⟩
  have calls' : file'.heap.calls = _ := models'.calls_eq.trans (BlockFile.push_blocks busy).2
  have asGiven := BlockFile.storeChunks_eq noFailure
  have same : map.push mallocs offset len data = map.push (fun _ => true) offset len data := by
    rw [BlockFile.push_goesOn busy goesOn, asGiven,
      ← BlockFile.push_goesOn busy (asGiven ▸ goesOn)]
  refine ⟨?_, fun chunk member => ?_, fun addr after before => ?_⟩
  · rw [models'.size_eq, BlockFile.push_goesOn busy goesOn, models.size_eq]
  · rw [Processed, models'.heldAt_eq, same]
    exact BlockFile.processed_push
      (fun other inChunks isSeven => noSeven ⟨other, inChunks, isSeven⟩) member
  · rw [models.calls_eq] at after
    rw [calls'] at before
    rcases BlockFile.storeChunks_linked goesOn after before with ⟨blockid, block, held⟩
    rw [← (BlockFile.push_blocks busy).1] at held
    exact models'.freed held

/-- A call reports the failures of `sqlite3_malloc` exactly when one fails
before any seven bytes are stored, and an empty range does not start past the
end of the file. -/
theorem reportsNomem_iff {file : MemFile} (reached : Reached file) {offset len : Nat}
    (bounded : offset + len ≤ 65535 * cacheBlockSz) (mallocs : Nat → Bool)
    (data : Nat → UInt8) :
    ReportsNomem mallocs file offset len data ↔
      (offset % cacheBlockSz + len = 0 → offset ≤ esp8266memFileSize file) ∧
      ((∃ chunk ∈ BlockFile.chunksOf offset len, chunk.count = sqliteNomem) →
        Failed mallocs file.heap.calls (file.heap.calls +
          blocksNeeded file.bytes offset data (upToSeven (BlockFile.chunksOf offset len)))) := by
  rcases reached.models with ⟨map, models⟩
  by_cases nothing : offset % cacheBlockSz + len = 0
  · rw [reportsNomem_of_nothing nothing, BlockFile.chunksOf_eq_nil nothing]
    simp [nothing]
  · rcases models.stored mallocs data bounded nothing with
      ⟨ret, file', result, models', exit, atEnd⟩
    have ends := map.storeChunks_ends mallocs offset data (BlockFile.chunksOf offset len)
    have failed := map.storeChunks_failed mallocs offset data
      ((BlockFile.chunksOf_tiles offset len).pairwise (by decide))
    have calls' : file'.heap.calls = _ := models'.calls_eq.trans (BlockFile.push_blocks nothing).2
    rw [models.calls_eq, models.bytes_eq, ← failed]
    constructor
    · intro reports
      rcases reports with ⟨ret', ⟨heap', cache'⟩, result', exits, _⟩
      rw [result, Option.some.injEq, Prod.mk.injEq, Prod.mk.injEq] at result'
      rcases result' with ⟨_, sameHeap, _⟩
      refine ⟨fun empty => absurd empty nothing, fun seven => ?_⟩
      have early := exits.mp (exit.trans (ends.mpr (Or.inl seven)))
      rwa [models.calls_eq, ← sameHeap, calls'] at early
    · intro condition
      refine ⟨ret, file', result, ?_, fun noFailure => ?_⟩
      · rw [exit, models.calls_eq, calls', ends]
        exact ⟨fun either => either.elim condition.2 id, Or.inr⟩
      · rw [models.calls_eq, calls'] at noFailure
        have goesOn : (map.storeChunks mallocs offset data (BlockFile.chunksOf offset len)).1 =
            false := by
          rw [← Bool.not_eq_true, ends, not_or]
          exact ⟨fun seven => noFailure (condition.2 seven), noFailure⟩
        exact ⟨atEnd goesOn, models.complete models' nothing goesOn⟩

/-- Ten bytes across a block boundary, with no memory for the first block. -/
theorem reportsNomem_iff_boundary :
    ReportsNomem (fun call => call != 0) MemFile.opened 60 10 fun _ => 1 := by
  have noSeven : ∀ chunk ∈ BlockFile.chunksOf 60 10, chunk.count ≠ sqliteNomem := by
    decide +kernel
  apply (reportsNomem_iff .opened (by decide) _ _).mpr
  refine ⟨by decide, fun seven => ?_⟩
  rcases seven with ⟨chunk, member, isSeven⟩
  exact absurd isSeven (noSeven chunk member)

/-- Seven bytes are reported as a failure although memory was there. -/
theorem not_reportsNomem_seven :
    ¬ReportsNomem (fun _ => true) MemFile.opened 0 7 fun _ => 1 := by
  intro reports
  rcases reports with ⟨ret, file', _, exits, _⟩
  have exit : takesNomemExit (fun _ => true) MemFile.opened 0 7 (fun _ => 1) = true := by
    decide +kernel
  rcases exits.mp exit with ⟨call, _, _, fails⟩
  cases fails

/-! ## The journal method -/

/-- A write that a failure of `sqlite3_malloc` keeps from storing a byte does not
return `SQLITE_OK`. -/
def ReportsFailure (mallocs : Nat → Bool) (file : MemFile) (data : Nat → UInt8)
    (amount offset : Nat) : Prop :=
  ∃ code file', Esp8266MemMethods.xWrite mallocs file data amount offset = some (code, file') ∧
    (Failed mallocs file.heap.calls file'.heap.calls →
      (∃ index < amount, file'.heldAt (offset + index) ≠ some (data index)) → code ≠ sqliteOk)

/-- A failure leaves a byte of the range out. -/
theorem BlockFile.exists_missing {map : BlockFile} {mallocs : Nat → Bool} {offset amount : Nat}
    {data : Nat → UInt8} (nonempty : 0 < amount)
    (failed : Failed mallocs map.calls
      (map.storeChunks mallocs offset data (BlockFile.chunksOf offset amount)).2.calls) :
    ∃ index < amount, (map.push mallocs offset amount data).byteAt (offset + index) = none := by
  have busy : offset % cacheBlockSz + amount ≠ 0 := by omega
  rcases BlockFile.storeChunks_absent failed with ⟨chunk, member, absent⟩
  refine ⟨chunk.start, chunks_start_lt (by decide) nonempty chunk member, ?_⟩
  rw [BlockFile.bytes, ← (BlockFile.push_blocks busy).1] at absent
  rw [BlockFile.byteAt, BlockFile.bytes, absent]
  rfl

/-- A write reports its failure only where it has none to report: nothing is to
be written, or no call of `sqlite3_malloc` for its chunks fails. -/
theorem reportsFailure_iff {file : MemFile} (reached : Reached file) {offset amount : Nat}
    (bounded : offset + amount ≤ 65535 * cacheBlockSz) (mallocs : Nat → Bool)
    (data : Nat → UInt8) :
    ReportsFailure mallocs file data amount offset ↔
      amount = 0 ∨ ¬Failed mallocs file.heap.calls (file.heap.calls +
        blocksNeeded file.bytes offset data (upToSeven (BlockFile.chunksOf offset amount))) := by
  rcases reached.models with ⟨map, models⟩
  rcases models.write mallocs data bounded with ⟨file', written, models'⟩
  have result : Esp8266MemMethods.xWrite mallocs file data amount offset =
      some (sqliteOk, file') := by
    rw [Esp8266MemMethods.xWrite, written]
    rfl
  rcases Nat.eq_zero_or_pos amount with rfl | nonempty
  · refine iff_of_true ⟨_, file', result, fun _ missing => ?_⟩ (Or.inl rfl)
    rcases missing with ⟨index, inRange, _⟩
    exact absurd inRange (Nat.not_lt_zero index)
  · have failed := map.storeChunks_failed mallocs offset data
      ((BlockFile.chunksOf_tiles offset amount).pairwise (by decide))
    have calls' : file'.heap.calls = _ :=
      models'.calls_eq.trans (BlockFile.push_blocks (by omega)).2
    rw [models.calls_eq, models.bytes_eq, ← failed]
    constructor
    · intro reports
      rcases reports with ⟨code, other, result', reported⟩
      rw [result, Option.some.injEq, Prod.mk.injEq] at result'
      rcases result' with ⟨rfl, rfl⟩
      refine Or.inr fun fails => reported ?_ ?_ rfl
      · rwa [models.calls_eq, calls']
      · rcases BlockFile.exists_missing nonempty fails with ⟨index, inRange, missing⟩
        refine ⟨index, inRange, ?_⟩
        rw [models'.heldAt_eq, missing]
        exact (Option.some_ne_none _).symm
    · intro condition
      refine ⟨_, file', result, fun fails => ?_⟩
      rw [models.calls_eq, calls'] at fails
      rcases condition with rfl | noFailure
      · exact absurd nonempty (Nat.lt_irrefl 0)
      · exact absurd fails noFailure

/-- Ten bytes with memory for their block. -/
theorem reportsFailure_iff_block :
    ReportsFailure (fun call => call == 0) MemFile.opened (fun _ => 1) 10 0 := by
  apply (reportsFailure_iff .opened (by decide) _ _).mpr
  right
  rw [failed_iff]
  decide +kernel

/-- Ten bytes without memory for their block are lost, and `SQLITE_OK` returned. -/
theorem not_reportsFailure_block :
    ¬ReportsFailure (fun _ => false) MemFile.opened (fun _ => 1) 10 0 := by
  intro reports
  rcases reports with ⟨code, file', result, reported⟩
  have seen : (Esp8266MemMethods.xWrite (fun _ => false) MemFile.opened (fun _ => 1) 10 0).map
      (fun written => (written.1, written.2.heap.calls, written.2.heldAt 0)) =
      some (sqliteOk, 1, none) := by
    decide +kernel
  rw [result] at seen
  simp only [Option.map_some, Option.some.injEq, Prod.mk.injEq] at seen
  rcases seen with ⟨isOk, calls, missing⟩
  refine reported ⟨0, Nat.le_refl 0, ?_, rfl⟩ ⟨0, by decide, ?_⟩ isOk
  · rw [calls]
    exact Nat.one_pos
  · rw [Nat.zero_add, missing]
    exact (Option.some_ne_none _).symm

end EspSqlite.Journal
