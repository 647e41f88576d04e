import EspSqlite.Journal.MemFile

/-! # Chunks that are not stored

With memory for every block a write stores a chunk unless the write has ended
before it, its 64-byte window of the source is blank, or it is a new first block
of seven bytes. -/

namespace EspSqlite.Journal

/-- The chunk is not stored, after the chunks `earlier` of the same write, where
`isFirst` says before which blocks there is none in the cache. -/
def dropped (isFirst : Nat → Bool) (offset : Nat) (data : Nat → UInt8) (earlier : List Chunk)
    (chunk : Chunk) : Bool :=
  earlier.any (fun other => other.count == sqliteNomem) ||
    isBlank (window data chunk) ||
    (chunk.count == sqliteNomem &&
      isFirst ((offset + chunk.start) / cacheBlockSz) &&
      earlier.all fun other => isBlank (window data other))

namespace BlockFile

variable {file : BlockFile}

/-! ## One chunk -/

section Chunk

variable {position count : Nat} {source : Nat → UInt8}

theorem storeChunk_bytes_other (mallocs : Nat → Bool) (count : Nat) (source : Nat → UInt8)
    {blockid : Nat} (other : blockid ≠ position / cacheBlockSz) :
    (file.storeChunk mallocs position count source).2.bytes blockid = file.bytes blockid := by
  have put : (file.put position count source).bytes blockid = file.bytes blockid := by
    rw [bytes_put, if_neg other]
  unfold storeChunk
  simp only
  split
  · rfl
  · split
    · exact put
    · split
      · split
        · rfl
        · exact put
      · rfl

theorem storeChunk_stores (file : BlockFile) (position : Nat) (shown : isBlank source = false)
    (linked : count = sqliteNomem → file.isFirst (position / cacheBlockSz) = false) :
    (file.storeChunk (fun _ => true) position count source).1 = (count == sqliteNomem) ∧
      (file.storeChunk (fun _ => true) position count source).2.bytes (position / cacheBlockSz) =
        some (memcpy ((file.bytes (position / cacheBlockSz)).getD fun _ => 0)
          (position % cacheBlockSz) source count) := by
  have put := file.bytes_put position count (position / cacheBlockSz) source
  rw [if_pos rfl] at put
  cases held : file.blocks.lookup (position / cacheBlockSz) with
  | none =>
      rw [storeChunk_new shown held rfl linked]
      exact ⟨rfl, put⟩
  | some block =>
      rw [storeChunk_here shown held]
      exact ⟨rfl, put⟩

/-- With memory, only seven bytes end a write. -/
theorem storeChunk_ends :
    (file.storeChunk (fun _ => true) position count source).1 = (count == sqliteNomem) := by
  rw [storeChunk]
  simp only [if_true]
  repeat' split
  all_goals rfl

end Chunk

/-! ## All chunks of a write -/

section Chunks

variable {offset : Nat} {data : Nat → UInt8}

theorem storeChunks_bytes_other (mallocs : Nat → Bool) {blockid : Nat} {list : List Chunk}
    (other : ∀ chunk ∈ list, blockid ≠ (offset + chunk.start) / cacheBlockSz) :
    ∀ file : BlockFile,
    (file.storeChunks mallocs offset data list).2.bytes blockid = file.bytes blockid := by
  induction list with
  | nil => exact fun _ => rfl
  | cons chunk rest induction =>
      intro file
      have here := file.storeChunk_bytes_other mallocs chunk.count (window data chunk)
        (other chunk List.mem_cons_self)
      unfold storeChunks
      simp only
      split
      · exact here
      · rw [induction (fun later member => other later (List.mem_cons_of_mem chunk member)), here]

theorem bytes_storeChunks {chunk : Chunk} {earlier later : List Chunk} :
    ∀ {file : BlockFile},
    (earlier ++ chunk :: later).Pairwise (fun left right =>
      (offset + left.start) / cacheBlockSz < (offset + right.start) / cacheBlockSz) →
    (file.storeChunks (fun _ => true) offset data (earlier ++ chunk :: later)).2.bytes
        ((offset + chunk.start) / cacheBlockSz) =
      if dropped file.isFirst offset data earlier chunk then
        file.bytes ((offset + chunk.start) / cacheBlockSz)
      else
        some (memcpy ((file.bytes ((offset + chunk.start) / cacheBlockSz)).getD fun _ => 0)
          ((offset + chunk.start) % cacheBlockSz) (window data chunk) chunk.count) := by
  induction earlier with
  | nil =>
      intro file increasing
      have otherLater : ∀ other ∈ later,
          (offset + chunk.start) / cacheBlockSz ≠ (offset + other.start) / cacheBlockSz :=
        fun other member => Nat.ne_of_lt ((List.pairwise_cons.mp increasing).1 other member)
      have last : (file.storeChunks (fun _ => true) offset data ([] ++ chunk :: later)).2.bytes
          ((offset + chunk.start) / cacheBlockSz) =
          (file.storeChunk (fun _ => true) (offset + chunk.start) chunk.count
            (window data chunk)).2.bytes ((offset + chunk.start) / cacheBlockSz) := by
        rw [List.nil_append, storeChunks]
        split
        · rfl
        · rw [storeChunks_bytes_other _ otherLater]
      rw [last]
      simp only [dropped, List.any_nil, Bool.false_or, List.all_nil, Bool.and_true]
      cases shown : isBlank (window data chunk) with
      | true => rw [storeChunk_blank shown, Bool.true_or, if_pos rfl]
      | false =>
          by_cases lost : chunk.count = sqliteNomem ∧
              file.isFirst ((offset + chunk.start) / cacheBlockSz) = true
          · rw [storeChunk_lost shown rfl lost.1 lost.2]
            simp only [lost.1, lost.2, beq_self_eq_true, Bool.and_self, Bool.or_true, if_true]
            rfl
          · rw [not_and, Bool.not_eq_true] at lost
            have kept : (chunk.count == sqliteNomem &&
                file.isFirst ((offset + chunk.start) / cacheBlockSz)) = false := by
              rw [Bool.and_eq_false_imp, beq_iff_eq]
              exact lost
            rw [(storeChunk_stores file _ shown lost).2, kept, Bool.or_false,
              if_neg Bool.false_ne_true]
  | cons head earlier induction =>
      intro file increasing
      rcases List.pairwise_cons.mp increasing with ⟨above, rest⟩
      have below := above chunk (List.mem_append_right _ List.mem_cons_self)
      have other := file.storeChunk_bytes_other (fun _ => true) head.count (window data head)
        (Nat.ne_of_gt below)
      have ends : (file.storeChunk (fun _ => true) (offset + head.start) head.count
          (window data head)).1 = (head.count == sqliteNomem) :=
        storeChunk_ends
      rw [List.cons_append, storeChunks]
      simp only [ends]
      cases seven : head.count == sqliteNomem with
      | true =>
          have drops : dropped file.isFirst offset data (head :: earlier) chunk = true := by
            simp only [dropped, List.any_cons, seven, Bool.true_or]
          rw [if_pos rfl, if_pos drops]
          exact other
      | false =>
          have same : dropped (file.storeChunk (fun _ => true) (offset + head.start) head.count
              (window data head)).2.isFirst offset data earlier chunk =
              dropped file.isFirst offset data (head :: earlier) chunk := by
            simp only [dropped, List.any_cons, seven, Bool.false_or, List.all_cons]
            cases shown : isBlank (window data head) with
            | true => rw [storeChunk_blank shown, Bool.true_and]
            | false =>
                have notSeven : ¬head.count = sqliteNomem := by simpa using seven
                have stored := (storeChunk_stores file (offset + head.start) shown
                  fun isSeven => absurd isSeven notSeven).2
                have notFirst : (file.storeChunk (fun _ => true) (offset + head.start) head.count
                    (window data head)).2.isFirst ((offset + chunk.start) / cacheBlockSz) =
                    false := by
                  rw [← Bool.not_eq_true, isFirst_iff]
                  intro absent
                  have none' := bytes_eq_none.mpr (absent _ (Nat.le_of_lt below))
                  rw [stored] at none'
                  cases none'
                rw [notFirst, Bool.and_false, Bool.false_and, Bool.and_false]
          rw [if_neg Bool.false_ne_true, ← same, ← other]
          exact induction rest

end Chunks

theorem position_of_split {offset len : Nat} {earlier later : List Chunk} {chunk : Chunk}
    (split : chunksOf offset len = earlier ++ chunk :: later) {index : Nat}
    (inChunk : index < chunk.count) :
    (offset + (chunk.start + index)) / cacheBlockSz = (offset + chunk.start) / cacheBlockSz ∧
      (offset + (chunk.start + index)) % cacheBlockSz =
        (offset + chunk.start) % cacheBlockSz + index := by
  have inBlock := ((chunksOf_tiles offset len).mem chunk (by simp [split])).2.2
  have block : (offset + (chunk.start + index)) / cacheBlockSz =
      (offset + chunk.start) / cacheBlockSz :=
    div_eq_of_inBlock (by omega) (by omega)
  refine ⟨block, ?_⟩
  simp only [cacheBlockSz] at inBlock block ⊢
  omega

theorem bytes_push {offset len : Nat} {data : Nat → UInt8} {earlier later : List Chunk}
    {chunk : Chunk} (split : chunksOf offset len = earlier ++ chunk :: later) :
    (file.push (fun _ => true) offset len data).bytes ((offset + chunk.start) / cacheBlockSz) =
      if dropped file.isFirst offset data earlier chunk then
        file.bytes ((offset + chunk.start) / cacheBlockSz)
      else
        some (memcpy ((file.bytes ((offset + chunk.start) / cacheBlockSz)).getD fun _ => 0)
          ((offset + chunk.start) % cacheBlockSz) (window data chunk) chunk.count) := by
  have some' : ¬offset % cacheBlockSz + len = 0 := by
    intro nothing
    rw [chunksOf_eq_nil nothing] at split
    simp at split
  have increasing := (chunksOf_tiles offset len).pairwise (by decide)
  rw [split] at increasing
  rw [← bytes_storeChunks increasing, push, if_neg some', split]
  simp only
  split <;> rfl

theorem byteAt_push {offset len : Nat} {data : Nat → UInt8} {earlier later : List Chunk}
    {chunk : Chunk} (split : chunksOf offset len = earlier ++ chunk :: later) {index : Nat}
    (inChunk : index < chunk.count) :
    (file.push (fun _ => true) offset len data).byteAt (offset + (chunk.start + index)) =
      if dropped file.isFirst offset data earlier chunk then
        file.byteAt (offset + (chunk.start + index))
      else
        some (data (chunk.start + index)) := by
  have place := position_of_split split inChunk
  rw [byteAt, byteAt, place.1, place.2, bytes_push split]
  split
  · rfl
  · simp only [Option.map_some, memcpy, Nat.le_add_right, Nat.add_lt_add_left inChunk, and_self,
      if_true, Nat.add_sub_cancel_left]
    rfl

end BlockFile

end EspSqlite.Journal
