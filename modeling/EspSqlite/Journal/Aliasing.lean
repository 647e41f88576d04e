import EspSqlite.Journal.LastWriter

/-! # Blocks at different offsets

A block number is cut to 16 bits. While every chunk that is stored has a smaller
number, the blocks of different offsets stay apart. -/

namespace EspSqlite.Journal

/-- A write at an offset the call accepts, over at most 65535 blocks, whose chunks up
to one of seven bytes are blank where the block number does not fit 16 bits. -/
def JournalWrite.Representable (write : JournalWrite) : Prop :=
  write.offset < 2 ^ 31 ∧
    write.offset % cacheBlockSz + write.amount ≤ 65535 * cacheBlockSz ∧
    Numbered write.offset write.data (BlockFile.chunksOf write.offset write.amount)

def JournalWrite.Covers (write : JournalWrite) (position : Nat) : Prop :=
  write.offset ≤ position ∧ position < write.offset + write.amount

/-- Outside its range a write leaves the bytes of earlier writes that can be read
back, and stores nothing but the zeros of a new block. -/
def Separate (earlier : List JournalWrite) (write : JournalWrite) (file file' : MemFile) :
    Prop :=
  ∀ position < 2 ^ 31, ¬write.Covers position →
    (∀ byte, (∃ other ∈ earlier, other.Covers position) → ReadsAs file position byte →
      ReadsAs file' position byte) ∧
    (file'.heldAt position = file.heldAt position ∨
      (file.heldAt position = none ∧ file'.heldAt position = some 0))

theorem Written.models_of_representable {writes : List JournalWrite} {file : MemFile}
    (written : Written JournalWrite.Representable writes file) : ∃ map, file.Models map := by
  induction written with
  | opened => exact ⟨_, .opened⟩
  | @write _ _ _ mallocs _ _ representable result induction =>
      rcases induction with ⟨map, models⟩
      rcases models.write_of_numbered mallocs representable.1 representable.2.1
        representable.2.2 with ⟨_, result', models'⟩
      rw [result, Option.some.injEq] at result'
      exact ⟨_, result' ▸ models'⟩

/-- After any representable writes, a representable write stays in its range. -/
theorem write_separate {earlier : List JournalWrite} {file : MemFile}
    (written : Written JournalWrite.Representable earlier file) {write : JournalWrite}
    (representable : write.Representable) (mallocs : Nat → Bool) :
    ∃ file', esp8266memWrite mallocs file write.data write.amount write.offset = some file' ∧
      Separate earlier write file file' := by
  rcases written.models_of_representable with ⟨map, models⟩
  rcases models.write_of_numbered mallocs representable.1 representable.2.1 representable.2.2
    with ⟨file', result, models'⟩
  refine ⟨file', result, fun position small outside => ⟨fun byte _ reads => ?_, ?_⟩⟩
  · rw [models.readsAs_iff small] at reads
    rw [models'.readsAs_iff small]
    exact byteAt_push_outside outside reads
  · rw [models.heldAt_eq, models'.heldAt_eq]
    exact byteAt_push_frame map mallocs write.data outside

/-- Ten bytes in the last block that has a number. -/
theorem write_separate_last :
    ∃ file', esp8266memWrite (fun _ => true) MemFile.opened (fun _ => 1) 10 (65535 * 64) =
        some file' ∧
      Separate [] ⟨fun _ => 1, 10, 65535 * 64⟩ MemFile.opened file' := by
  have numbered : ∀ chunk ∈ BlockFile.chunksOf (65535 * 64) 10,
      (65535 * 64 + chunk.start) / cacheBlockSz < 2 ^ 16 := by
    decide +kernel
  have representable : (⟨fun _ => 1, 10, 65535 * 64⟩ : JournalWrite).Representable :=
    ⟨by decide, by decide, fun chunk member _ => numbered chunk (mem_of_mem_upToSeven member)⟩
  exact write_separate .opened representable fun _ => true

/-- A write 4 MiB further on overwrites the first block. -/
theorem not_write_separate_wrapped :
    ∃ file file', Written (fun write => write.offset < 2 ^ 31) [⟨fun _ => 1, 10, 0⟩] file ∧
      esp8266memWrite (fun _ => true) file (fun _ => 2) 10 (65536 * 64) = some file' ∧
      ¬Separate [⟨fun _ => 1, 10, 0⟩] ⟨fun _ => 2, 10, 65536 * 64⟩ file file' := by
  have seen : ((esp8266memWrite (fun _ => true) MemFile.opened (fun _ => 1) 10 0).bind fun file =>
      (esp8266memWrite (fun _ => true) file (fun _ => 2) 10 (65536 * 64)).map fun file' =>
        (file.heldAt 0, (esp8266memRead file' (fun _ => 9) 1 0).map fun read => read 0)) =
      some (some 1, some 2) := by
    decide +kernel
  rcases Option.bind_eq_some_iff.mp seen with ⟨file, first, seen'⟩
  rcases Option.map_eq_some_iff.mp seen' with ⟨file', second, shown⟩
  rw [Prod.mk.injEq] at shown
  rcases MemFile.Models.opened.write (fun _ => true) (fun _ => 1)
    (show 0 + 10 ≤ 65535 * cacheBlockSz by decide) with ⟨other, first', models⟩
  obtain rfl : file = other := Option.some.inj (first.symm.trans first')
  have held : ReadsAs file 0 1 := by
    rw [models.readsAs_iff (by decide), ← models.heldAt_eq]
    exact shown.1
  refine ⟨file, file', .write .opened (by decide) first, second, fun separate => ?_⟩
  have covered : (⟨fun _ => 1, 10, 0⟩ : JournalWrite).Covers 0 := ⟨by decide, by decide⟩
  have outside : ¬(⟨fun _ => 2, 10, 65536 * 64⟩ : JournalWrite).Covers 0 :=
    fun covers => absurd covers.1 (by decide)
  rcases (separate 0 (by decide) outside).1 1 ⟨_, List.mem_singleton_self _, covered⟩ held
    (fun _ => 9) with ⟨result, read, isOne⟩
  rw [read, Option.map_some, Option.some.injEq, isOne] at shown
  exact absurd shown.2 (by decide)

end EspSqlite.Journal
