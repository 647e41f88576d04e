import EspSqlite.Journal.Sparse
import EspSqlite.Rollback.Playback

/-! # What the journal file holds

Headers and records in the blocks of a journal file, where blocks that are not
there count as zeros, and how writes keep them. -/

namespace EspSqlite.Rollback

open Vfs (sqliteOk)
open Journal (BlockFile MemFile cacheBlockSz)

/-! ## The journal in memory -/

section Methods

variable {file : MemFile} {map : BlockFile}

abbrev memory : IoMethods MemFile := esp8266MemMethods fun _ => true

def journalLimit : Nat := 65535 * cacheBlockSz

theorem memory_write (models : file.Models map) (data : Nat → UInt8) {amount offset : Nat}
    (bounded : offset + amount ≤ journalLimit) :
    ∃ file', memory.xWrite file data amount offset = some (sqliteOk, file') ∧
      file'.Models (map.push (fun _ => true) offset amount data) := by
  rcases models.write (fun _ => true) data bounded with ⟨file', written, models'⟩
  refine ⟨file', ?_, models'⟩
  simp only [memory, esp8266MemMethods, Journal.Esp8266MemMethods.xWrite, written, Option.map_some]

theorem memory_read (models : file.Models map) (buffer : Nat → UInt8) {amount offset : Nat}
    (bounded : offset + amount ≤ journalLimit) :
    memory.xRead file buffer amount offset =
      some (sqliteOk, map.pull offset amount buffer, file) := by
  have read := models.read buffer (Journal.spans_of_bounded bounded)
  rw [Journal.masked_eq (Nat.le_trans (Nat.le_add_right _ _) bounded)] at read
  simp only [memory, esp8266MemMethods, Journal.Esp8266MemMethods.xRead, read, Option.map_some]

theorem memory_size (models : file.Models map) :
    memory.xFileSize file = some (sqliteOk, map.size) := by
  rcases models with ⟨_, _, size⟩
  simp only [memory, esp8266MemMethods, Journal.Esp8266MemMethods.xFileSize,
    Journal.esp8266memFileSize, size]

end Methods

/-! ## Changes -/

def Present (map : BlockFile) (position : Nat) : Prop := (map.byteAt position).isSome = true

structure Changes (start stop : Nat) (map map' : BlockFile) : Prop where
  same : ∀ position, ¬(start ≤ position ∧ position < stop) →
    map'.filled position = map.filled position
  kept : ∀ position, Present map position → Present map' position

namespace Changes

variable {start stop : Nat} {map map' map'' : BlockFile}

theorem refl (start stop : Nat) (map : BlockFile) : Changes start stop map map :=
  ⟨fun _ _ => rfl, fun _ => id⟩

theorem push (map : BlockFile) {offset len : Nat} {data : Nat → UInt8} (after : start ≤ offset)
    (before : offset + len ≤ stop) :
    Changes start stop map (map.push (fun _ => true) offset len data) where
  same position outside := BlockFile.filled_push_outside (by omega)
  kept position held := BlockFile.isSome_push held

theorem trans (early : Changes start stop map map') (late : Changes start stop map' map'') :
    Changes start stop map map'' where
  same position outside := (late.same position outside).trans (early.same position outside)
  kept position held := late.kept position (early.kept position held)

theorem mono {start' stop' : Nat} (changes : Changes start stop map map') (after : start' ≤ start)
    (before : stop ≤ stop') : Changes start' stop' map map' :=
  ⟨fun position outside => changes.same position (by omega), changes.kept⟩

theorem of_none {position : Nat} (changes : Changes position position map map') :
    Changes start stop map map' :=
  ⟨fun other _ => changes.same other (by omega), changes.kept⟩

end Changes

/-! ## Numbers, headers and records -/

def NumberAt (map : BlockFile) (position value : Nat) : Prop :=
  ∀ index < 4, map.filled (position + index) = fourBytes value index

structure Record where
  pgno : Nat
  content : Nat → UInt8

structure Segment where
  nRec : Nat
  cksumInit : Nat
  records : List Record

section Layout

variable (pageSize sectorSize dbOrigSize : Nat)

/-- The fields of a header. The magic is there once the records are counted. -/
structure HeaderAt (map : BlockFile) (position : Nat) (magic : Bool) (segment : Segment) :
    Prop where
  present : ∀ index < 28, Present map (position + index)
  isMagic : magic = true → ∀ index < 8, map.filled (position + index) = aJournalMagic index
  nRec : NumberAt map (position + 8) segment.nRec
  cksumInit : NumberAt map (position + 12) segment.cksumInit
  dbSize : NumberAt map (position + 16) dbOrigSize
  sector : NumberAt map (position + 20) sectorSize
  page : NumberAt map (position + 24) pageSize

structure RecordAt (cksumInit : Nat) (map : BlockFile) (position : Nat) (record : Record) :
    Prop where
  present : ∀ index < 4, Present map (position + index)
  number : NumberAt map position record.pgno
  content : ∀ index < pageSize, map.filled (position + 4 + index) = record.content index
  cksum : NumberAt map (position + 4 + pageSize)
    (pagerCksum cksumInit pageSize record.content)

def RecordsAt (cksumInit : Nat) (map : BlockFile) : (position : Nat) → List Record → Prop
  | _, [] => True
  | position, record :: rest =>
      RecordAt pageSize cksumInit map position record ∧
        RecordsAt cksumInit map (position + journalPgSz pageSize) rest

def segmentEnd (header : Nat) (segment : Segment) : Nat :=
  header + sectorSize + segment.records.length * journalPgSz pageSize

end Layout

section Frame

variable {pageSize sectorSize dbOrigSize start stop position : Nat} {map map' : BlockFile}

theorem NumberAt.changes {value : Nat} (number : NumberAt map position value)
    (changes : Changes start stop map map') (apart : position + 4 ≤ start ∨ stop ≤ position) :
    NumberAt map' position value := by
  intro index inRange
  rw [changes.same _ (by omega)]
  exact number index inRange

theorem HeaderAt.changes {magic : Bool} {segment : Segment}
    (header : HeaderAt pageSize sectorSize dbOrigSize map position magic segment)
    (changes : Changes start stop map map') (apart : position + 28 ≤ start ∨ stop ≤ position) :
    HeaderAt pageSize sectorSize dbOrigSize map' position magic segment where
  present index inRange := changes.kept _ (header.present index inRange)
  isMagic isMagic index inRange := by
    rw [changes.same _ (by omega)]
    exact header.isMagic isMagic index inRange
  nRec := header.nRec.changes changes (by omega)
  cksumInit := header.cksumInit.changes changes (by omega)
  dbSize := header.dbSize.changes changes (by omega)
  sector := header.sector.changes changes (by omega)
  page := header.page.changes changes (by omega)

theorem RecordAt.changes {cksumInit : Nat} {record : Record}
    (held : RecordAt pageSize cksumInit map position record) (changes : Changes start stop map map')
    (apart : position + journalPgSz pageSize ≤ start ∨ stop ≤ position) :
    RecordAt pageSize cksumInit map' position record where
  present index inRange := changes.kept _ (held.present index inRange)
  number := held.number.changes changes (by rw [journalPgSz] at apart; omega)
  content index inRange := by
    rw [changes.same _ (by rw [journalPgSz] at apart; omega)]
    exact held.content index inRange
  cksum := held.cksum.changes changes (by rw [journalPgSz] at apart; omega)

theorem RecordsAt.changes {cksumInit : Nat} {records : List Record} :
    ∀ {position : Nat}, RecordsAt pageSize cksumInit map position records →
    Changes start stop map map' →
    position + records.length * journalPgSz pageSize ≤ start ∨ stop ≤ position →
    RecordsAt pageSize cksumInit map' position records := by
  induction records with
  | nil => exact fun _ _ _ => trivial
  | cons record rest induction =>
      intro position held changes apart
      rw [List.length_cons, Nat.succ_mul] at apart
      exact ⟨held.1.changes changes (by omega), induction held.2 changes (by omega)⟩

theorem RecordsAt.snoc {cksumInit : Nat} {record : Record} {records : List Record} :
    ∀ {position : Nat}, RecordsAt pageSize cksumInit map position records →
    RecordAt pageSize cksumInit map (position + records.length * journalPgSz pageSize) record →
    RecordsAt pageSize cksumInit map position (records ++ [record]) := by
  induction records with
  | nil =>
      intro position _ last
      rw [List.length_nil, Nat.zero_mul, Nat.add_zero] at last
      exact ⟨last, trivial⟩
  | cons first rest induction =>
      intro position held last
      rw [List.length_cons, Nat.succ_mul] at last
      refine ⟨held.1, induction held.2 ?_⟩
      have isLast : position + journalPgSz pageSize + rest.length * journalPgSz pageSize =
          position + (rest.length * journalPgSz pageSize + journalPgSz pageSize) := by omega
      rwa [isLast]

end Frame

end EspSqlite.Rollback
