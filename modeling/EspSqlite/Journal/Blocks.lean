import EspSqlite.Foundation.SortedMap
import EspSqlite.Journal.Cache

/-! # The journal as a map of blocks

What the cache is for: a finite map from block numbers to blocks. Storing and
reading are described on the map, without pointers. The address of a block
stays with it. -/

namespace EspSqlite.Journal

abbrev Block := Nat × (Nat → UInt8)

def window (data : Nat → UInt8) (chunk : Chunk) : Nat → UInt8 :=
  fun index => data (chunk.start + index)

structure BlockFile where
  blocks : SortedMap Nat Block
  size : Nat
  calls : Nat

namespace BlockFile

def empty : BlockFile := ⟨SortedMap.empty, 0, 0⟩

def bytes (file : BlockFile) (blockid : Nat) : Option (Nat → UInt8) :=
  (file.blocks.lookup blockid).map Prod.snd

def byteAt (file : BlockFile) (position : Nat) : Option UInt8 :=
  (file.bytes (position / cacheBlockSz)).map fun block => block (position % cacheBlockSz)

def isFirst (file : BlockFile) (blockid : Nat) : Bool :=
  file.blocks.entries.all fun entry => decide (blockid < entry.1)

def allocate (file : BlockFile) : BlockFile := { file with calls := file.calls + 1 }

def put (file : BlockFile) (position count : Nat) (source : Nat → UInt8) : BlockFile :=
  { file with
    blocks := file.blocks.change (position / cacheBlockSz) fun old =>
      match old with
      | none => (file.calls, memcpy (fun _ => 0) (position % cacheBlockSz) source count)
      | some block => (block.1, memcpy block.2 (position % cacheBlockSz) source count) }

/-- Store one chunk. The first result says that the write ends here: when there
is no memory, and after any seven bytes, a length that reads as `SQLITE_NOMEM`.
A new first block of seven bytes is not linked. -/
def storeChunk (mallocs : Nat → Bool) (file : BlockFile) (position count : Nat)
    (source : Nat → UInt8) : Bool × BlockFile :=
  let ends := count == sqliteNomem
  if isBlank source then
    (ends, file)
  else
    match file.blocks.lookup (position / cacheBlockSz) with
    | some _ => (ends, file.put position count source)
    | none =>
        if mallocs file.calls then
          if ends && file.isFirst (position / cacheBlockSz) then
            (ends, file.allocate)
          else
            (ends, (file.put position count source).allocate)
        else
          (true, file.allocate)

def storeChunks (mallocs : Nat → Bool) (offset : Nat) (data : Nat → UInt8) :
    List Chunk → BlockFile → Bool × BlockFile
  | [], file => (false, file)
  | chunk :: rest, file =>
      let stored := file.storeChunk mallocs (offset + chunk.start) chunk.count (window data chunk)
      if stored.1 then stored else storeChunks mallocs offset data rest stored.2

def chunksOf (offset len : Nat) : List Chunk :=
  chunks cacheBlockSz offset len (blockCount cacheBlockSz offset len) 0

theorem chunksOf_tiles (offset len : Nat) :
    Tiles cacheBlockSz offset 0 (chunksOf offset len) len :=
  chunks_tiles (by decide) len

theorem chunksOf_eq_nil {offset len : Nat} (nothing : offset % cacheBlockSz + len = 0) :
    chunksOf offset len = [] := by
  rw [chunksOf, blockCount, nothing]
  rfl

def push (mallocs : Nat → Bool) (file : BlockFile) (offset len : Nat) (data : Nat → UInt8) :
    BlockFile :=
  if offset % cacheBlockSz + len = 0 then
    file
  else
    let stored := file.storeChunks mallocs offset data (chunksOf offset len)
    if stored.1 then stored.2
    else { stored.2 with size := max stored.2.size (offset + len) }

/-- Reading leaves the destination alone where there is no block. -/
def pull (file : BlockFile) (offset len : Nat) (data : Nat → UInt8) : Nat → UInt8 :=
  fun index => if index < len then (file.byteAt (offset + index)).getD (data index) else data index

end BlockFile

/-! ## Lookups -/

namespace BlockFile

variable {file : BlockFile}

theorem isFirst_iff {blockid : Nat} :
    file.isFirst blockid = true ↔ ∀ other ≤ blockid, file.blocks.lookup other = none := by
  simp only [isFirst, List.all_eq_true, decide_eq_true_eq]
  constructor
  · intro above other below
    cases found : file.blocks.lookup other with
    | none => rfl
    | some block =>
        have later := above _ ((file.blocks.mem_entries_iff other block).mpr found)
        simp only at later
        omega
  · intro none' entry member
    rcases entry with ⟨other, block⟩
    by_contra below
    have found := (file.blocks.mem_entries_iff other block).mp member
    rw [none' other (Nat.le_of_not_lt below)] at found
    cases found

theorem lookup_put (position count blockid : Nat) (source : Nat → UInt8) :
    (file.put position count source).blocks.lookup blockid =
      if blockid = position / cacheBlockSz then
        some (match file.blocks.lookup (position / cacheBlockSz) with
          | none => (file.calls, memcpy (fun _ => 0) (position % cacheBlockSz) source count)
          | some block => (block.1, memcpy block.2 (position % cacheBlockSz) source count))
      else
        file.blocks.lookup blockid :=
  file.blocks.lookup_change _ blockid _

theorem bytes_eq_none {blockid : Nat} :
    file.bytes blockid = none ↔ file.blocks.lookup blockid = none :=
  Option.map_eq_none_iff

theorem bytes_put (position count blockid : Nat) (source : Nat → UInt8) :
    (file.put position count source).bytes blockid =
      if blockid = position / cacheBlockSz then
        some (memcpy ((file.bytes (position / cacheBlockSz)).getD fun _ => 0)
          (position % cacheBlockSz) source count)
      else
        file.bytes blockid := by
  unfold bytes
  rw [lookup_put]
  split
  · cases file.blocks.lookup (position / cacheBlockSz) <;> rfl
  · rfl

/-! ## Storing a chunk -/

section StoreChunk

variable {mallocs : Nat → Bool} {position count : Nat} {source : Nat → UInt8}

theorem storeChunk_blank (blank : isBlank source = true) :
    file.storeChunk mallocs position count source = (count == sqliteNomem, file) := by
  simp only [storeChunk, blank, if_true]

theorem storeChunk_here (shown : isBlank source = false) {block : Block}
    (held : file.blocks.lookup (position / cacheBlockSz) = some block) :
    file.storeChunk mallocs position count source =
      (count == sqliteNomem, file.put position count source) := by
  simp only [storeChunk, shown, Bool.false_eq_true, if_false, held]

theorem storeChunk_fails (shown : isBlank source = false)
    (absent : file.blocks.lookup (position / cacheBlockSz) = none)
    (fails : mallocs file.calls = false) :
    file.storeChunk mallocs position count source = (true, file.allocate) := by
  simp only [storeChunk, shown, Bool.false_eq_true, if_false, absent, fails]

theorem storeChunk_lost (shown : isBlank source = false)
    (allocates : mallocs file.calls = true) (seven : count = sqliteNomem)
    (first : file.isFirst (position / cacheBlockSz) = true) :
    file.storeChunk mallocs position count source = (true, file.allocate) := by
  have absent := isFirst_iff.mp first (position / cacheBlockSz) (Nat.le_refl _)
  simp only [storeChunk, shown, Bool.false_eq_true, if_false, absent, allocates, if_true, seven,
    beq_self_eq_true, first, Bool.and_self]

theorem storeChunk_new (shown : isBlank source = false)
    (absent : file.blocks.lookup (position / cacheBlockSz) = none)
    (allocates : mallocs file.calls = true)
    (linked : count = sqliteNomem → file.isFirst (position / cacheBlockSz) = false) :
    file.storeChunk mallocs position count source =
      (count == sqliteNomem, (file.put position count source).allocate) := by
  have notLost : (count == sqliteNomem && file.isFirst (position / cacheBlockSz)) = false := by
    rw [Bool.and_eq_false_imp]
    intro seven
    exact linked (by simpa using seven)
  simp only [storeChunk, shown, Bool.false_eq_true, if_false, absent, allocates, if_true, notLost]

end StoreChunk

theorem storeChunk_kept (mallocs : Nat → Bool) (position count : Nat) (source : Nat → UInt8)
    {blockid : Nat} {block : Block} (held : file.blocks.lookup blockid = some block) :
    ∃ data, (file.storeChunk mallocs position count source).2.blocks.lookup blockid =
      some (block.1, data) := by
  have put : ∃ data, (file.put position count source).blocks.lookup blockid =
      some (block.1, data) := by
    rw [lookup_put]
    by_cases same : blockid = position / cacheBlockSz
    · rw [if_pos same, ← same, held]
      exact ⟨_, rfl⟩
    · rw [if_neg same, held]
      exact ⟨block.2, rfl⟩
  unfold storeChunk
  simp only
  split
  · exact ⟨block.2, held⟩
  · split
    · exact put
    · split
      · split
        · exact ⟨block.2, held⟩
        · exact put
      · exact ⟨block.2, held⟩

theorem storeChunk_size (mallocs : Nat → Bool) (position count : Nat) (source : Nat → UInt8) :
    (file.storeChunk mallocs position count source).2.size = file.size := by
  unfold storeChunk
  simp only
  repeat' split
  all_goals rfl

theorem storeChunks_size (mallocs : Nat → Bool) (offset : Nat) (data : Nat → UInt8)
    (list : List Chunk) :
    ∀ file : BlockFile, (file.storeChunks mallocs offset data list).2.size = file.size := by
  induction list with
  | nil => exact fun _ => rfl
  | cons chunk rest induction =>
      intro file
      unfold storeChunks
      simp only
      split
      · exact storeChunk_size _ _ _ _
      · rw [induction, storeChunk_size]

/-! ## Pushing -/

section Push

variable {mallocs : Nat → Bool} {offset len : Nat} {data : Nat → UInt8}

theorem push_ends (busy : offset % cacheBlockSz + len ≠ 0)
    (ends : (file.storeChunks mallocs offset data (chunksOf offset len)).1 = true) :
    file.push mallocs offset len data =
      (file.storeChunks mallocs offset data (chunksOf offset len)).2 := by
  rw [push, if_neg busy]
  simp only [ends, if_true]

theorem push_goesOn (busy : offset % cacheBlockSz + len ≠ 0)
    (goesOn : (file.storeChunks mallocs offset data (chunksOf offset len)).1 = false) :
    file.push mallocs offset len data =
      { (file.storeChunks mallocs offset data (chunksOf offset len)).2 with
        size := max file.size (offset + len) } := by
  rw [push, if_neg busy]
  simp only [goesOn, Bool.false_eq_true, if_false, storeChunks_size]

theorem push_blocks (busy : offset % cacheBlockSz + len ≠ 0) :
    (file.push mallocs offset len data).blocks =
        (file.storeChunks mallocs offset data (chunksOf offset len)).2.blocks ∧
      (file.push mallocs offset len data).calls =
        (file.storeChunks mallocs offset data (chunksOf offset len)).2.calls := by
  cases ends : (file.storeChunks mallocs offset data (chunksOf offset len)).1 with
  | true =>
      rw [push_ends busy ends]
      exact ⟨rfl, rfl⟩
  | false =>
      rw [push_goesOn busy ends]
      exact ⟨rfl, rfl⟩

end Push

def PastFirst (file : BlockFile) (blockid : Nat) : Prop :=
  ∃ low high, low < high ∧ high ≤ blockid ∧ file.blocks.lookup low ≠ none ∧
    file.blocks.lookup high ≠ none

theorem PastFirst.mono {blockid later : Nat} (past : file.PastFirst blockid)
    (monotone : blockid ≤ later) : file.PastFirst later := by
  rcases past with ⟨low, high, increasing, upTo, holdsLow, holdsHigh⟩
  exact ⟨low, high, increasing, Nat.le_trans upTo monotone, holdsLow, holdsHigh⟩

theorem PastFirst.storeChunk {blockid : Nat} (past : file.PastFirst blockid)
    (mallocs : Nat → Bool) (position count : Nat) (source : Nat → UInt8) :
    (file.storeChunk mallocs position count source).2.PastFirst blockid := by
  rcases past with ⟨low, high, increasing, upTo, holdsLow, holdsHigh⟩
  have kept : ∀ {other : Nat}, file.blocks.lookup other ≠ none →
      (file.storeChunk mallocs position count source).2.blocks.lookup other ≠ none := by
    intro other holds
    rcases Option.ne_none_iff_exists'.mp holds with ⟨block, held⟩
    rcases storeChunk_kept mallocs position count source held with ⟨data, held'⟩
    simp [held']
  exact ⟨low, high, increasing, upTo, kept holdsLow, kept holdsHigh⟩

end BlockFile

end EspSqlite.Journal
