import EspSqlite.Journal.LastWriter
import EspSqlite.Journal.Methods

/-! # Reading bytes that were never written

What `esp8266mem_Read` leaves in its destination for the holes of a journal file
and past its end. -/

namespace EspSqlite.Journal

open Vfs (sqliteOk sqliteIoerrShortRead)

/-- A read inside the file returns `SQLITE_OK` and zeros for the bytes that were
never written, and a read past its end returns `SQLITE_IOERR_SHORT_READ` and
zeros past the end. -/
def HolesReadZero (writes : List JournalWrite) (file : MemFile) (buffer : Nat → UInt8)
    (amount offset : Nat) : Prop :=
  ∃ code result, Esp8266MemMethods.xRead file buffer amount offset = some (code, result) ∧
    (offset + amount ≤ esp8266memFileSize file → code = sqliteOk ∧
      ∀ index < amount, lastWritten writes (offset + index) = none → result index = 0) ∧
    (esp8266memFileSize file < offset + amount → code = sqliteIoerrShortRead ∧
      ∀ index < amount, esp8266memFileSize file ≤ offset + index → result index = 0)

theorem Written.models {writes : List JournalWrite} {file : MemFile}
    (written : Written JournalWrite.Bounded writes file) :
    ∃ map, file.Models map ∧ ∀ position, lastWritten writes position = none →
      map.byteAt position = none ∨ map.byteAt position = some 0 := by
  induction written with
  | opened => exact ⟨_, .opened, fun _ _ => Or.inl rfl⟩
  | @write writes file file' mallocs write _ bounded result induction =>
      rcases induction with ⟨map, models, zeros⟩
      rcases models.write mallocs write.data bounded with ⟨other, result', models'⟩
      obtain rfl : file' = other := Option.some.inj (result.symm.trans result')
      refine ⟨_, models', fun position unwritten => ?_⟩
      rw [lastWritten_snoc, Option.or_eq_none_iff, JournalWrite.byteAt] at unwritten
      rcases unwritten with ⟨notHere, notBefore⟩
      have outside : ¬(write.offset ≤ position ∧ position < write.offset + write.amount) := by
        intro covered
        rw [if_pos covered] at notHere
        cases notHere
      rcases byteAt_push_frame map mallocs write.data outside with same | fresh
      · rw [same]
        exact zeros position notBefore
      · exact Or.inr fresh.2

/-- Reads return zeros for holes exactly when they stay inside the file and the
destination is zero already where there is no block. -/
theorem holesReadZero_iff {writes : List JournalWrite} {file : MemFile}
    (written : Written JournalWrite.Bounded writes file) {amount offset : Nat}
    (bounded : offset + amount ≤ 65535 * cacheBlockSz) (buffer : Nat → UInt8) :
    HolesReadZero writes file buffer amount offset ↔
      offset + amount ≤ esp8266memFileSize file ∧
        ∀ index < amount, lastWritten writes (offset + index) = none →
          file.heldAt (offset + index) = none → buffer index = 0 := by
  rcases written.models with ⟨map, models, zeros⟩
  have read : Esp8266MemMethods.xRead file buffer amount offset =
      some (sqliteOk, map.pull offset amount buffer) := by
    rw [Esp8266MemMethods.xRead, models.read buffer (spans_of_bounded bounded),
      masked_eq (by omega)]
    rfl
  rw [models.heldAt_eq]
  constructor
  · intro holes
    rcases holes with ⟨code, result, read', inside, past⟩
    rw [read, Option.some.injEq, Prod.mk.injEq] at read'
    rcases read' with ⟨rfl, rfl⟩
    have fits : offset + amount ≤ esp8266memFileSize file := by
      by_contra beyond
      exact absurd (past (Nat.lt_of_not_le beyond)).1 (by decide)
    refine ⟨fits, fun index inRange unwritten absent => ?_⟩
    have zero := (inside fits).2 index inRange unwritten
    rwa [BlockFile.pull, if_pos inRange, absent] at zero
  · intro condition
    rcases condition with ⟨fits, zeroed⟩
    refine ⟨_, _, read, fun _ => ⟨rfl, fun index inRange unwritten => ?_⟩, fun beyond => ?_⟩
    · rw [BlockFile.pull, if_pos inRange]
      rcases zeros (offset + index) unwritten with absent | zero
      · rw [absent]
        exact zeroed index inRange unwritten absent
      · rw [zero]
        rfl
    · exact absurd fits (Nat.not_le_of_lt beyond)

/-- A hole inside a block. -/
theorem holesReadZero_iff_block :
    ∃ file, esp8266memWrite (fun _ => true) MemFile.opened (fun _ => 1) 10 40 = some file ∧
      HolesReadZero [⟨fun _ => 1, 10, 40⟩] file (fun _ => 9) 50 0 := by
  have bounded : (⟨fun _ => 1, 10, 40⟩ : JournalWrite).Bounded := by
    simp [JournalWrite.Bounded, cacheBlockSz]
  have seen : (esp8266memWrite (fun _ => true) MemFile.opened (fun _ => 1) 10 40).map
      (fun file => (esp8266memFileSize file, (List.range 50).all fun index =>
        (file.heldAt index).isSome)) = some (50, true) := by
    decide +kernel
  rcases Option.map_eq_some_iff.mp seen with ⟨file, result, held⟩
  rw [Prod.mk.injEq, List.all_eq_true] at held
  refine ⟨file, result, ?_⟩
  apply (holesReadZero_iff (.write .opened bounded result) (by decide) _).mpr
  refine ⟨Nat.le_of_eq held.1.symm, fun index inRange _ absent => ?_⟩
  have some' := held.2 index (List.mem_range.mpr inRange)
  rw [Nat.zero_add] at absent
  rw [absent] at some'
  cases some'

/-- A block that is not there is left out of the destination, and a read past the
end returns `SQLITE_OK`. -/
theorem not_holesReadZero_gap :
    ∃ file, Written JournalWrite.Bounded [⟨fun _ => 1, 10, 128⟩] file ∧
      ¬HolesReadZero [⟨fun _ => 1, 10, 128⟩] file (fun _ => 9) 10 0 ∧
      ¬HolesReadZero [⟨fun _ => 1, 10, 128⟩] file (fun _ => 9) 10 130 := by
  have bounded : (⟨fun _ => 1, 10, 128⟩ : JournalWrite).Bounded := by
    simp [JournalWrite.Bounded, cacheBlockSz]
  have seen : (esp8266memWrite (fun _ => true) MemFile.opened (fun _ => 1) 10 128).map
      (fun file => (esp8266memFileSize file,
        (Esp8266MemMethods.xRead file (fun _ => 9) 10 0).map fun read => (read.1, read.2 0),
        (Esp8266MemMethods.xRead file (fun _ => 9) 10 130).map Prod.fst)) =
      some (138, some (sqliteOk, 9), some sqliteOk) := by
    decide +kernel
  rcases Option.map_eq_some_iff.mp seen with ⟨file, result, shown⟩
  rw [Prod.mk.injEq, Prod.mk.injEq] at shown
  rcases shown with ⟨size, gap, past⟩
  refine ⟨file, .write .opened bounded result, fun holes => ?_, fun holes => ?_⟩
  · rcases holes with ⟨code, read, isRead, inside, _⟩
    have zero := (inside (by omega)).2 0 (by decide) rfl
    rw [isRead, Option.map_some, Option.some.injEq, Prod.mk.injEq] at gap
    exact absurd (zero.symm.trans gap.2) (by decide)
  · rcases holes with ⟨code, read, isRead, _, beyond⟩
    have short := (beyond (by omega)).1
    rw [isRead, Option.map_some, Option.some.injEq] at past
    exact absurd (short.symm.trans past) (by decide)

end EspSqlite.Journal
