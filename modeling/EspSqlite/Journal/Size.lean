import EspSqlite.Foundation.CallRun
import EspSqlite.Journal.LastWriter
import EspSqlite.Journal.OutOfMemory

/-! # The size of a journal file

What `esp8266mem_FileSize` reports after any calls that write and truncate. -/

namespace EspSqlite.Journal

open Vfs (sqliteOk)

inductive JournalCall
  | write (write : JournalWrite)
  | truncate (bytes : Nat)

namespace JournalCall

def Valid : JournalCall → Prop
  | .write args => args.Bounded ∧ 0 < args.amount
  | .truncate _ => True

def result (file : MemFile) : JournalCall → Option (Nat × MemFile)
  | .write args =>
      Esp8266MemMethods.xWrite (fun _ => true) file args.data args.amount args.offset
  | .truncate bytes => some (Esp8266MemMethods.xTruncate file bytes)

def sizeAfter (size : Nat) : JournalCall → Nat
  | .write args => max size (args.offset + args.amount)
  | .truncate bytes => min size bytes

end JournalCall

def callAll (calls : List JournalCall) (file : MemFile) : Option MemFile :=
  runCalls (fun file call => (call.result file).bind fun result =>
    if result.1 = sqliteOk then some result.2 else none) calls file

/-- The size reported is the one the calls lead to from zero. -/
def SizeFolds (calls : List JournalCall) : Prop :=
  ∃ file, callAll calls MemFile.opened = some file ∧
    Esp8266MemMethods.xFileSize file = (sqliteOk, calls.foldl JournalCall.sizeAfter 0)

/-- A write with a chunk of seven bytes ends inside the file, and nothing is cut
off by truncating. -/
def Tracked (file : MemFile) : JournalCall → Prop
  | .write write =>
      (∃ chunk ∈ BlockFile.chunksOf write.offset write.amount, chunk.count = sqliteNomem) →
        write.offset + write.amount ≤ esp8266memFileSize file
  | .truncate bytes => esp8266memFileSize file ≤ bytes

/-! ## One call -/

theorem BlockFile.size_push (map : BlockFile) {offset len : Nat} (data : Nat → UInt8)
    (busy : offset % cacheBlockSz + len ≠ 0) :
    ((∃ chunk ∈ BlockFile.chunksOf offset len, chunk.count = sqliteNomem) →
      (map.push (fun _ => true) offset len data).size = map.size) ∧
    ((¬∃ chunk ∈ BlockFile.chunksOf offset len, chunk.count = sqliteNomem) →
      (map.push (fun _ => true) offset len data).size = max map.size (offset + len)) := by
  have ends := map.storeChunks_ends (fun _ => true) offset data (BlockFile.chunksOf offset len)
  constructor
  · intro seven
    rw [BlockFile.push_ends busy (ends.mpr (Or.inl seven)), BlockFile.storeChunks_size]
  · intro noSeven
    have goesOn : (map.storeChunks (fun _ => true) offset data
        (BlockFile.chunksOf offset len)).1 = false := by
      rw [← Bool.not_eq_true, ends, not_or]
      refine ⟨noSeven, fun failed => ?_⟩
      rcases failed with ⟨call, _, _, fails⟩
      cases fails
    rw [BlockFile.push_goesOn busy goesOn]

theorem JournalCall.result_size {file : MemFile} {map : BlockFile} (models : file.Models map)
    {call : JournalCall} (valid : call.Valid) :
    ∃ file' map', call.result file = some (sqliteOk, file') ∧ file'.Models map' ∧
      (esp8266memFileSize file' = call.sizeAfter (esp8266memFileSize file) ↔
        Tracked file call) := by
  cases call with
  | write write =>
      rcases valid with ⟨bounded, nonempty⟩
      rcases models.write (fun _ => true) write.data bounded with ⟨file', written, models'⟩
      refine ⟨file', _, ?_, models', ?_⟩
      · rw [JournalCall.result, Esp8266MemMethods.xWrite, written]
        rfl
      · have busy : write.offset % cacheBlockSz + write.amount ≠ 0 := by omega
        have size := BlockFile.size_push map write.data busy
        rw [JournalCall.sizeAfter, Tracked, esp8266memFileSize, esp8266memFileSize,
          models'.size_eq, models.size_eq]
        by_cases seven : ∃ chunk ∈ BlockFile.chunksOf write.offset write.amount,
            chunk.count = sqliteNomem
        · rw [size.1 seven]
          constructor
          · intro same _
            omega
          · intro inside
            have ends := inside seven
            omega
        · rw [size.2 seven]
          exact iff_of_true rfl fun some' => absurd some' seven
  | truncate bytes =>
      refine ⟨file, map, ?_, models, ?_⟩
      · simp [JournalCall.result, Esp8266MemMethods.xTruncate, esp8266Truncate]
      · rw [JournalCall.sizeAfter, Tracked]
        omega

/-! ## Runs -/

theorem callAll_models {calls : List JournalCall} (valid : ∀ call ∈ calls, call.Valid) :
    ∃ file, callAll calls MemFile.opened = some file ∧ ∃ map, file.Models map := by
  refine runCalls_invariant ⟨_, .opened⟩ (fun file call models isValid => ?_) valid
  rcases models with ⟨map, models⟩
  rcases JournalCall.result_size models isValid with ⟨file', map', result, models', _⟩
  refine ⟨file', ?_, map', models'⟩
  rw [result, Option.bind_some, if_pos rfl]

/-- The size reported is right after every call of a run exactly when every call
is tracked: no write with a chunk of seven bytes is to grow the file, and no
truncation is to shrink it. -/
theorem sizeFolds_iff_tracked {calls : List JournalCall} (valid : ∀ call ∈ calls, call.Valid) :
    (∀ earlier later, calls = earlier ++ later → SizeFolds earlier) ↔
      ∀ earlier call later, calls = earlier ++ call :: later →
        ∀ file, callAll earlier MemFile.opened = some file → Tracked file call := by
  apply forall_prefix_iff ⟨_, rfl, rfl⟩
  intro earlier call later split folds
  have validEarlier : ∀ other ∈ earlier, other.Valid := fun other member =>
    valid other (by simp [split, member])
  rcases callAll_models validEarlier with ⟨file, ran, map, models⟩
  rcases JournalCall.result_size models (valid call (by simp [split])) with
    ⟨file', _, result, _, size⟩
  have ran' : callAll (earlier ++ [call]) MemFile.opened = some file' := by
    rw [callAll, runCalls_snoc ran, result, Option.bind_some, if_pos rfl]
  have folded : esp8266memFileSize file = earlier.foldl JournalCall.sizeAfter 0 := by
    rcases folds with ⟨other, otherRan, reported⟩
    rw [ran, Option.some.injEq] at otherRan
    rw [otherRan]
    exact congrArg Prod.snd reported
  rw [SizeFolds, List.foldl_append, List.foldl_cons, List.foldl_nil, ← folded]
  constructor
  · intro folds' other otherRan
    rcases folds' with ⟨other', otherRan', reported⟩
    rw [ran, Option.some.injEq] at otherRan
    rw [ran', Option.some.injEq] at otherRan'
    rw [← otherRan, ← size, otherRan']
    exact congrArg Prod.snd reported
  · intro tracked
    refine ⟨file', ran', ?_⟩
    rw [Esp8266MemMethods.xFileSize, size.mpr (tracked file ran)]

/-- Ten bytes across a block boundary, and a truncation to their end. -/
theorem sizeFolds_iff_tracked_boundary :
    SizeFolds [.write ⟨fun _ => 1, 10, 60⟩, .truncate 70] := by
  have noSeven : ∀ chunk ∈ BlockFile.chunksOf 60 10, chunk.count ≠ sqliteNomem := by
    decide +kernel
  have size : ∀ file, callAll [.write ⟨fun _ => 1, 10, 60⟩] MemFile.opened = some file →
      esp8266memFileSize file = 70 := by
    intro file ran
    have seen : (callAll [.write ⟨fun _ => 1, 10, 60⟩] MemFile.opened).map esp8266memFileSize =
        some 70 := by
      decide +kernel
    rw [ran] at seen
    exact Option.some.inj seen
  refine (sizeFolds_iff_tracked ?_).mpr ?_ _ [] (List.append_nil _).symm
  · simp [JournalCall.Valid, JournalWrite.Bounded, cacheBlockSz]
  · intro earlier call later split file ran
    rcases earlier with _ | ⟨first, _ | ⟨second, rest⟩⟩
    · obtain rfl := (List.cons.inj split).1
      intro seven
      rcases seven with ⟨chunk, member, isSeven⟩
      exact absurd isSeven (noSeven chunk member)
    · simp only [List.cons_append, List.nil_append, List.cons.injEq] at split
      rcases split with ⟨rfl, rfl, _⟩
      exact Nat.le_of_eq (size file ran)
    · simp at split

/-- A truncation leaves the size, and seven bytes do not count. -/
theorem not_sizeFolds_truncate :
    ¬SizeFolds [.write ⟨fun _ => 1, 10, 60⟩, .truncate 5] ∧
      ¬SizeFolds [.write ⟨fun _ => 1, 7, 0⟩] := by
  have seen : (callAll [.write ⟨fun _ => 1, 10, 60⟩, .truncate 5] MemFile.opened).map
        esp8266memFileSize = some 70 ∧
      (callAll [.write ⟨fun _ => 1, 7, 0⟩] MemFile.opened).map esp8266memFileSize = some 0 := by
    decide +kernel
  constructor
  · intro folds
    rcases folds with ⟨file, ran, reported⟩
    rw [ran] at seen
    have size : some (esp8266memFileSize file) = some 5 :=
      congrArg (fun result => some result.2) reported
    exact absurd (size.symm.trans seen.1) (by decide)
  · intro folds
    rcases folds with ⟨file, ran, reported⟩
    rw [ran] at seen
    have size : some (esp8266memFileSize file) = some 7 :=
      congrArg (fun result => some result.2) reported
    exact absurd (size.symm.trans seen.2) (by decide)

end EspSqlite.Journal
