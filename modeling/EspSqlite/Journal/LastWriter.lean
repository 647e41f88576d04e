import EspSqlite.Foundation.CallRun
import EspSqlite.Journal.Dropped

/-! # The last writer wins

A read of the journal returns the bytes last written, as long as every write
finds the bytes of the chunks it does not store in the cache already. -/

namespace EspSqlite.Journal

structure JournalWrite where
  data : Nat → UInt8
  amount : Nat
  offset : Nat

def JournalWrite.byteAt (write : JournalWrite) (position : Nat) : Option UInt8 :=
  if write.offset ≤ position ∧ position < write.offset + write.amount then
    some (write.data (position - write.offset))
  else
    none

def JournalWrite.Bounded (write : JournalWrite) : Prop :=
  write.offset + write.amount ≤ 65535 * cacheBlockSz

def lastWritten (writes : List JournalWrite) (position : Nat) : Option UInt8 :=
  writes.foldl (fun last write => (write.byteAt position).or last) none

def writeAll (writes : List JournalWrite) (file : MemFile) : Option MemFile :=
  writes.foldlM
    (fun file write => esp8266memWrite (fun _ => true) file write.data write.amount write.offset)
    file

/-- The journal files that valid writes lead to, whatever `sqlite3_malloc`
returns. -/
inductive Written (Valid : JournalWrite → Prop) : List JournalWrite → MemFile → Prop
  | opened : Written Valid [] MemFile.opened
  | write {writes : List JournalWrite} {file file' : MemFile} {mallocs : Nat → Bool}
      {write : JournalWrite} : Written Valid writes file → Valid write →
      esp8266memWrite mallocs file write.data write.amount write.offset = some file' →
      Written Valid (writes ++ [write]) file'

/-- Every read after the writes returns the bytes last written. A read spans at
most 65535 blocks. -/
def ReadsBack (writes : List JournalWrite) : Prop :=
  ∃ file, writeAll writes MemFile.opened = some file ∧
    ∀ (buffer : Nat → UInt8) (amount offset : Nat),
      offset % cacheBlockSz + amount ≤ 65535 * cacheBlockSz →
      ∃ result, esp8266memRead file buffer amount offset = some result ∧
        ∀ index < amount, ∀ byte, lastWritten writes (offset + index) = some byte →
          result index = byte

/-- The chunks of the write that are not stored hold their bytes already. -/
def Kept (file : MemFile) (write : JournalWrite) : Prop :=
  ∀ earlier chunk later,
    BlockFile.chunksOf write.offset write.amount = earlier ++ chunk :: later →
    dropped file.isFirst write.offset write.data earlier chunk = true →
    ∀ index < chunk.count, file.heldAt (write.offset + (chunk.start + index)) =
      some (write.data (chunk.start + index))

/-! ## One write -/

theorem lastWritten_snoc (writes : List JournalWrite) (write : JournalWrite) (position : Nat) :
    lastWritten (writes ++ [write]) position =
      (write.byteAt position).or (lastWritten writes position) := by
  simp [lastWritten]

theorem lastWritten_lt {writes : List JournalWrite} (bounded : ∀ write ∈ writes, write.Bounded)
    {position : Nat} {byte : UInt8} (written : lastWritten writes position = some byte) :
    position < 65535 * cacheBlockSz := by
  induction writes using List.reverseRecOn with
  | nil => cases written
  | append_singleton writes write induction =>
      rw [lastWritten_snoc, JournalWrite.byteAt] at written
      split at written
      · rename_i covered
        exact Nat.lt_of_lt_of_le covered.2 (bounded write (by simp))
      · exact induction (fun other member => bounded other (by simp [member])) written

def Current (map : BlockFile) (writes : List JournalWrite) : Prop :=
  ∀ position byte, lastWritten writes position = some byte → map.byteAt position = some byte

theorem byteAt_push_frame (map : BlockFile) (mallocs : Nat → Bool) {offset len : Nat}
    (data : Nat → UInt8) {position : Nat}
    (outside : ¬(offset ≤ position ∧ position < offset + len)) :
    (map.push mallocs offset len data).byteAt position = map.byteAt position ∨
      (map.byteAt position = none ∧
        (map.push mallocs offset len data).byteAt position = some 0) := by
  have frame : BlockFile.Frame offset len map (map.push mallocs offset len data) :=
    .push mallocs map data
  have inBlock : position % cacheBlockSz < cacheBlockSz := Nat.mod_lt _ (by decide)
  have outside' : Outside offset len (position / cacheBlockSz) (position % cacheBlockSz) := by
    rwa [Outside, Nat.div_add_mod' position cacheBlockSz]
  rw [BlockFile.byteAt, BlockFile.byteAt, BlockFile.bytes, BlockFile.bytes]
  cases before : map.blocks.lookup (position / cacheBlockSz) with
  | some block =>
      rcases frame.kept _ _ before with ⟨kept, after, same⟩
      left
      rw [after]
      exact congrArg some (same _ inBlock outside')
  | none =>
      cases after : (map.push mallocs offset len data).blocks.lookup (position / cacheBlockSz) with
      | none => exact Or.inl rfl
      | some block =>
          exact Or.inr ⟨rfl, congrArg some (frame.fresh _ _ before after _ inBlock outside')⟩

theorem byteAt_push_outside {map : BlockFile} {mallocs : Nat → Bool} {offset len : Nat}
    {data : Nat → UInt8} {position : Nat} {byte : UInt8}
    (outside : ¬(offset ≤ position ∧ position < offset + len))
    (held : map.byteAt position = some byte) :
    (map.push mallocs offset len data).byteAt position = some byte := by
  rcases byteAt_push_frame map mallocs data outside with same | fresh
  · rw [same, held]
  · rw [fresh.1] at held
    cases held

/-- A write stores all its bytes exactly when it keeps the chunks it skips. -/
theorem stores_iff_kept {file : MemFile} {map : BlockFile} (models : file.Models map)
    (write : JournalWrite) :
    (∀ index < write.amount,
      (map.push (fun _ => true) write.offset write.amount write.data).byteAt
        (write.offset + index) = some (write.data index)) ↔ Kept file write := by
  have tiles := BlockFile.chunksOf_tiles write.offset write.amount
  rw [Kept]
  rw [models.isFirst_eq, models.heldAt_eq]
  constructor
  · intro stores earlier chunk later split drops index inChunk
    have inside := (tiles.mem chunk (by simp [split])).2.1
    have stored := stores (chunk.start + index) (by omega)
    rwa [BlockFile.byteAt_push split inChunk, if_pos (by exact drops)] at stored
  · intro kept index inRange
    rcases tiles.exists_mem index (Nat.zero_le _) inRange with ⟨chunk, member, after, before⟩
    rcases List.append_of_mem member with ⟨earlier, later, split⟩
    obtain ⟨inner, rfl⟩ := Nat.exists_eq_add_of_le after
    have inChunk : inner < chunk.count := by omega
    rw [BlockFile.byteAt_push split inChunk]
    split
    · rename_i drops
      exact kept earlier chunk later split drops inner inChunk
    · rfl

theorem current_snoc_iff {file : MemFile} {map : BlockFile} (models : file.Models map)
    {writes : List JournalWrite} (current : Current map writes) (write : JournalWrite) :
    Current (map.push (fun _ => true) write.offset write.amount write.data) (writes ++ [write]) ↔
      Kept file write := by
  rw [← stores_iff_kept models]
  constructor
  · intro stored index inRange
    apply stored _ _
    have covered : write.offset ≤ write.offset + index ∧
        write.offset + index < write.offset + write.amount := by omega
    rw [lastWritten_snoc, JournalWrite.byteAt, if_pos covered, Nat.add_sub_cancel_left]
    rfl
  · intro stores position byte written
    rw [lastWritten_snoc, JournalWrite.byteAt] at written
    split at written
    · rename_i covered
      have stored := stores (position - write.offset) (by omega)
      rw [Nat.add_sub_cancel' covered.1] at stored
      rw [stored, ← written]
      rfl
    · rename_i outside
      exact byteAt_push_outside outside (current position byte written)

/-! ## A run of writes -/

theorem writeAll_models {writes : List JournalWrite}
    (bounded : ∀ write ∈ writes, write.Bounded) :
    ∃ file, writeAll writes MemFile.opened = some file ∧ ∃ map, file.Models map := by
  refine runCalls_invariant ⟨_, .opened⟩ (fun file write models isBounded => ?_) bounded
  rcases models with ⟨map, models⟩
  rcases models.write (fun _ => true) write.data isBounded with ⟨file', result, models'⟩
  exact ⟨file', result, _, models'⟩

theorem writeAll_snoc {writes : List JournalWrite} {file : MemFile}
    (written : writeAll writes MemFile.opened = some file) (write : JournalWrite) :
    writeAll (writes ++ [write]) MemFile.opened =
      esp8266memWrite (fun _ => true) file write.data write.amount write.offset :=
  runCalls_snoc written write

theorem readsBack_iff_current {writes : List JournalWrite}
    (bounded : ∀ write ∈ writes, write.Bounded) {file : MemFile} {map : BlockFile}
    (written : writeAll writes MemFile.opened = some file) (models : file.Models map) :
    ReadsBack writes ↔ Current map writes := by
  constructor
  · intro readsBack position byte last
    rcases readsBack with ⟨other, written', reads⟩
    rw [written, Option.some.injEq] at written'
    subst written'
    have inFile := lastWritten_lt bounded last
    have spans : position % cacheBlockSz + 1 ≤ 65535 * cacheBlockSz := by
      simp only [cacheBlockSz]
      omega
    apply (models.readsAs_iff (by simp only [cacheBlockSz] at inFile; omega) byte).mp
    intro buffer
    rcases reads buffer 1 position spans with ⟨result, read, same⟩
    exact ⟨result, read, same 0 Nat.one_pos byte last⟩
  · intro current
    refine ⟨file, written, fun buffer amount offset spans =>
      ⟨_, models.read buffer spans, fun index inRange byte last => ?_⟩⟩
    have inFile := lastWritten_lt bounded last
    rw [masked_eq (by omega), BlockFile.pull, if_pos inRange, current _ _ last, Option.getD_some]

/-- Reads return the bytes last written, after every write of a run, exactly
when every write keeps the chunks it skips. -/
theorem readsBack_iff_kept {writes : List JournalWrite}
    (bounded : ∀ write ∈ writes, write.Bounded) :
    (∀ earlier later, writes = earlier ++ later → ReadsBack earlier) ↔
      ∀ earlier write later, writes = earlier ++ write :: later →
        ∀ file, writeAll earlier MemFile.opened = some file → Kept file write := by
  have empty : ReadsBack [] := by
    apply (readsBack_iff_current (by simp) rfl .opened).mpr
    intro position byte last
    cases last
  apply forall_prefix_iff empty
  intro earlier write later split reads
  have boundedEarlier : ∀ other ∈ earlier, other.Bounded := fun other member =>
    bounded other (by simp [split, member])
  have boundedWrite := bounded write (by simp [split])
  have boundedBoth : ∀ other ∈ earlier ++ [write], other.Bounded := by
    intro other member
    rcases List.mem_append.mp member with inEarlier | isWrite
    · exact boundedEarlier other inEarlier
    · rw [List.mem_singleton.mp isWrite]
      exact boundedWrite
  rcases writeAll_models boundedEarlier with ⟨file, written, map, models⟩
  rcases models.write (fun _ => true) write.data boundedWrite with ⟨file', result, models'⟩
  have current := (readsBack_iff_current boundedEarlier written models).mp reads
  rw [readsBack_iff_current boundedBoth ((writeAll_snoc written write).trans result) models',
    current_snoc_iff models current]
  constructor
  · intro kept other otherWritten
    rw [written, Option.some.injEq] at otherWritten
    rwa [← otherWritten]
  · intro kept
    exact kept file written

theorem kept_of_shown {file : MemFile} {write : JournalWrite}
    (shown : ∀ chunk ∈ BlockFile.chunksOf write.offset write.amount,
      chunk.count ≠ sqliteNomem ∧ isBlank (window write.data chunk) = false) :
    Kept file write := by
  intro earlier chunk later split drops
  rw [split] at shown
  have here := shown chunk (by simp)
  have noSeven : (earlier.any fun other => other.count == sqliteNomem) = false := by
    rw [List.any_eq_false]
    intro other member
    simpa using (shown other (by simp [member])).1
  simp [dropped, here.1, here.2, noSeven] at drops

/-- Ten bytes across a block boundary. -/
theorem readsBack_iff_kept_boundary : ReadsBack [⟨fun _ => 1, 10, 60⟩] := by
  have bounded : ∀ write ∈ [(⟨fun _ => 1, 10, 60⟩ : JournalWrite)], write.Bounded := by
    simp [JournalWrite.Bounded, cacheBlockSz]
  refine (readsBack_iff_kept bounded).mpr ?_ _ [] rfl
  · intro earlier write later split file _
    obtain rfl : write = ⟨fun _ => 1, 10, 60⟩ := by
      cases earlier with
      | nil => exact (List.cons.inj split).1.symm
      | cons head rest => simp at split
    exact kept_of_shown (by decide +kernel)

private theorem not_readsBack_of_read {writes : List JournalWrite} (position : Nat) {byte : UInt8}
    (spans : position % cacheBlockSz + 1 ≤ 65535 * cacheBlockSz)
    (last : lastWritten writes position = some byte) (buffer : Nat → UInt8)
    (read : ((writeAll writes MemFile.opened).bind fun file =>
      (esp8266memRead file buffer 1 position).map fun result => result 0) ≠ some byte) :
    ¬ReadsBack writes := by
  intro readsBack
  rcases readsBack with ⟨file, written, reads⟩
  rcases reads buffer 1 position spans with ⟨result, isRead, same⟩
  rw [written, Option.bind_some, isRead, Option.map_some, same 0 Nat.one_pos byte last] at read
  exact read rfl

/-- A one overwritten with a zero is read back, and seven bytes into the empty
journal are lost. -/
theorem not_readsBack_zero :
    ¬ReadsBack [⟨fun _ => 1, 1, 0⟩, ⟨fun _ => 0, 1, 0⟩] ∧ ¬ReadsBack [⟨fun _ => 1, 7, 0⟩] :=
  ⟨not_readsBack_of_read 0 (by decide) rfl (fun _ => 1) (by decide +kernel),
    not_readsBack_of_read 0 (by decide) rfl (fun _ => 0) (by decide +kernel)⟩

end EspSqlite.Journal
