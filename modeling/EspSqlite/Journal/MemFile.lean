import EspSqlite.Journal.Frame

/-! # The journal file and its map

The blocks an open journal file holds, and the map it stands for. -/

namespace EspSqlite.Journal

open HeapList

def MemFile.blocks (file : MemFile) : List LinkedList :=
  walk file.heap.nodes LinkedList.next file.heap.calls file.cache.list

def MemFile.isFirst (file : MemFile) (blockid : Nat) : Bool :=
  file.blocks.all fun node => decide (blockid < node.blockid)

def MemFile.bytes (file : MemFile) (blockid : Nat) : Option (Nat → UInt8) :=
  (file.blocks.find? fun node => node.blockid == blockid).map LinkedList.data

def MemFile.heldAt (file : MemFile) (position : Nat) : Option UInt8 :=
  (file.bytes (position / cacheBlockSz)).map fun block => block (position % cacheBlockSz)

def MemFile.Models (file : MemFile) (map : BlockFile) : Prop :=
  ∃ list, Represents file.heap file.cache.list map list ∧ file.cache.size = map.size

theorem masked_eq {offset : Nat} (bounded : offset ≤ 65535 * cacheBlockSz) :
    offset &&& 0x7FFFFFFF = offset :=
  masked_eq_of_lt (Nat.lt_of_le_of_lt bounded (by decide))

theorem masked_mod (offset : Nat) :
    (offset &&& 0x7FFFFFFF) % cacheBlockSz = offset % cacheBlockSz := by
  have isMask : (0x7FFFFFFF : Nat) = 2 ^ 31 - 1 := rfl
  rw [isMask, Nat.and_two_pow_sub_one_eq_mod]
  simp only [cacheBlockSz]
  omega

namespace MemFile.Models

variable {file : MemFile} {map : BlockFile}

theorem opened : MemFile.opened.Models BlockFile.empty := ⟨[], represents_empty, rfl⟩

theorem isFirst_eq (models : file.Models map) : file.isFirst = map.isFirst := by
  rcases models with ⟨list, represents, _⟩
  have length := represents.chain.length_le represents.fresh
  funext blockid
  rw [MemFile.isFirst, MemFile.blocks, represents.chain.walk_eq length, BlockFile.isFirst,
    ← represents.entries, List.all_map, List.all_map]
  rfl

theorem bytes_eq (models : file.Models map) : file.bytes = map.bytes := by
  rcases models with ⟨list, represents, _⟩
  have length := represents.chain.length_le represents.fresh
  funext blockid
  rw [MemFile.bytes, MemFile.blocks, represents.chain.walk_eq length, BlockFile.bytes,
    List.find?_map, Option.map_map]
  cases found : list.find? ((fun node => node.blockid == blockid) ∘ Prod.snd) with
  | none =>
      rw [represents.lookup_eq_none fun entry member => by
        simpa using List.find?_eq_none.mp found entry member]
      rfl
  | some entry =>
      have here := List.find?_some found
      simp only [Function.comp, beq_iff_eq] at here
      rw [← here, represents.lookup_eq_some (List.mem_of_find?_eq_some found)]
      rfl

theorem heldAt_eq (models : file.Models map) : file.heldAt = map.byteAt := by
  funext position
  rw [MemFile.heldAt, models.bytes_eq, BlockFile.byteAt]

theorem write_of_numbered (models : file.Models map) (mallocs : Nat → Bool) {data : Nat → UInt8}
    {amount offset : Nat} (small : offset < 2 ^ 31)
    (spans : offset % cacheBlockSz + amount ≤ 65535 * cacheBlockSz)
    (numbered : Numbered offset data (BlockFile.chunksOf offset amount)) :
    ∃ file', esp8266memWrite mallocs file data amount offset = some file' ∧
      file'.Models (map.push mallocs offset amount data) := by
  rcases models with ⟨list, represents, sameSize⟩
  rcases filecachePush_refines_of_numbered mallocs represents sameSize spans numbered with
    ⟨ret, heap', cache', list', result, represents', sameSize'⟩
  refine ⟨⟨heap', cache'⟩, ?_, list', represents', sameSize'⟩
  rw [esp8266memWrite, masked_eq_of_lt small, result]
  rfl

theorem write (models : file.Models map) (mallocs : Nat → Bool) (data : Nat → UInt8)
    {amount offset : Nat} (bounded : offset + amount ≤ 65535 * cacheBlockSz) :
    ∃ file', esp8266memWrite mallocs file data amount offset = some file' ∧
      file'.Models (map.push mallocs offset amount data) := by
  have small : 65535 * cacheBlockSz < 2 ^ 31 := by decide
  exact models.write_of_numbered mallocs (by omega) (spans_of_bounded bounded)
    (numbered_of_bounded bounded data)

theorem read (models : file.Models map) (buffer : Nat → UInt8) {amount offset : Nat}
    (spans : offset % cacheBlockSz + amount ≤ 65535 * cacheBlockSz) :
    esp8266memRead file buffer amount offset =
      some (map.pull (offset &&& 0x7FFFFFFF) amount buffer) := by
  rcases models with ⟨list, represents, _⟩
  exact filecachePull_refines represents buffer (by rw [masked_mod]; exact spans)

end MemFile.Models

def ReadsAs (file : MemFile) (position : Nat) (byte : UInt8) : Prop :=
  ∀ buffer, ∃ result, esp8266memRead file buffer 1 position = some result ∧ result 0 = byte

theorem MemFile.Models.readsAs_iff {file : MemFile} {map : BlockFile} (models : file.Models map)
    {position : Nat} (small : position < 2 ^ 31) (byte : UInt8) :
    ReadsAs file position byte ↔ map.byteAt position = some byte := by
  have spans : position % cacheBlockSz + 1 ≤ 65535 * cacheBlockSz := by
    simp only [cacheBlockSz]
    omega
  have read : ∀ buffer, esp8266memRead file buffer 1 position =
      some (map.pull position 1 buffer) := by
    intro buffer
    rw [models.read buffer spans, masked_eq_of_lt small]
  constructor
  · intro reads
    -- a destination that holds another byte shows that the read stored this one
    rcases reads fun _ => byte + 1 with ⟨result, isRead, isByte⟩
    rw [read, Option.some.injEq] at isRead
    rw [← isRead, BlockFile.pull, if_pos Nat.one_pos, Nat.add_zero] at isByte
    cases held : map.byteAt position with
    | none =>
        rw [held, Option.getD_none] at isByte
        exact absurd isByte (by simp)
    | some stored =>
        rw [held, Option.getD_some] at isByte
        rw [isByte]
  · intro held buffer
    refine ⟨_, read buffer, ?_⟩
    rw [BlockFile.pull, if_pos Nat.one_pos, Nat.add_zero, held]
    rfl

end EspSqlite.Journal
