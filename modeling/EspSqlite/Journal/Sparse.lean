import EspSqlite.Journal.LastWriter

/-! # The journal as a sparse file

A write without chunks of seven bytes into zeros is stored in full, if the blocks
that are not there are taken for zeros. -/

namespace EspSqlite

theorem Tiles.start_of_mem {size offset : Nat} {list : List Chunk} :
    ∀ {start stop : Nat}, Tiles size offset start list stop →
    ∀ chunk ∈ list, chunk.start = start ∨ (offset + chunk.start) % size = 0 := by
  induction list with
  | nil => exact fun _ _ member => absurd member List.not_mem_nil
  | cons head rest induction =>
      intro start stop tiles chunk member
      rcases tiles with ⟨isStart, inBlock, full, later⟩
      rcases List.mem_cons.mp member with rfl | inRest
      · exact Or.inl isStart
      · right
        rcases full with isNil | full
        · rw [isNil] at inRest
          exact absurd inRest List.not_mem_nil
        · rcases induction later chunk inRest with atEnd | atBoundary
          · have split := Nat.div_add_mod (offset + start) size
            have boundary : offset + chunk.start = size * ((offset + start) / size + 1) := by
              rw [Nat.mul_add, Nat.mul_one]
              omega
            rw [boundary, Nat.mul_mod_right]
          · exact atBoundary

namespace Journal

def Sevenless (offset len : Nat) : Prop :=
  ∀ chunk ∈ BlockFile.chunksOf offset len, chunk.count ≠ sqliteNomem

theorem sevenless_of_aligned {offset len : Nat} (aligned : offset % 4 = 0) (whole : len % 4 = 0) :
    Sevenless offset len := by
  intro chunk member
  have count := count_of_mem_chunks chunk member
  have start := (BlockFile.chunksOf_tiles offset len).start_of_mem chunk member
  simp only [cacheBlockSz, sqliteNomem] at count start ⊢
  omega

theorem sevenless_of_short {offset len : Nat} (short : len < 7) : Sevenless offset len := by
  intro chunk member
  have count := count_of_mem_chunks chunk member
  simp only [sqliteNomem]
  omega

namespace BlockFile

variable {file : BlockFile}

theorem chunksOf_of_inBlock {offset len : Nat} (nonempty : 0 < len)
    (inBlock : offset % cacheBlockSz + len ≤ cacheBlockSz) : chunksOf offset len = [⟨0, len⟩] := by
  have single : blockCount cacheBlockSz offset len = 1 := by
    rw [blockCount]
    rcases Nat.lt_or_eq_of_le inBlock with inside | full
    · rw [Nat.div_eq_of_lt inside, Nat.mod_eq_of_lt inside, if_pos (by omega)]
    · rw [full]
      rfl
  have count : min (len - 0) (cacheBlockSz - (offset + 0) % cacheBlockSz) = len := by
    simp only [cacheBlockSz] at inBlock ⊢
    omega
  simp only [chunksOf, single, chunks, count]

def filled (file : BlockFile) (position : Nat) : UInt8 := (file.byteAt position).getD 0

theorem dropped_eq {offset len : Nat} (sevenless : Sevenless offset len) (data : Nat → UInt8)
    (isFirst : Nat → Bool) {earlier later : List Chunk} {chunk : Chunk}
    (split : chunksOf offset len = earlier ++ chunk :: later) :
    dropped isFirst offset data earlier chunk = isBlank (window data chunk) := by
  have noSeven : (earlier.any fun other => other.count == sqliteNomem) = false := by
    rw [List.any_eq_false]
    intro other member
    simpa using sevenless other (by simp [split, member])
  have notSeven : (chunk.count == sqliteNomem) = false := by
    simpa using sevenless chunk (by simp [split])
  rw [dropped, noSeven, notSeven, Bool.false_or, Bool.false_and, Bool.false_and, Bool.or_false]

theorem exists_chunk (offset : Nat) {len index : Nat} (inside : index < len) :
    ∃ earlier chunk later inner, chunksOf offset len = earlier ++ chunk :: later ∧
      inner < chunk.count ∧ index = chunk.start + inner := by
  rcases (chunksOf_tiles offset len).exists_mem index (Nat.zero_le _) inside with
    ⟨chunk, member, after, before⟩
  rcases List.append_of_mem member with ⟨earlier, later, split⟩
  obtain ⟨inner, rfl⟩ := Nat.exists_eq_add_of_le after
  exact ⟨earlier, chunk, later, inner, split, by omega, rfl⟩

/-! ## The bytes after a write -/

section Push

variable {offset len : Nat} {data : Nat → UInt8}

theorem filled_push_outside {mallocs : Nat → Bool} {position : Nat}
    (outside : ¬(offset ≤ position ∧ position < offset + len)) :
    (file.push mallocs offset len data).filled position = file.filled position := by
  rw [filled, filled]
  rcases byteAt_push_frame file mallocs data outside with same | ⟨before, after⟩
  · rw [same]
  · rw [before, after]
    rfl

theorem filled_push_inside (sevenless : Sevenless offset len) {index : Nat} (inside : index < len)
    (clear : data index = 0 → file.filled (offset + index) = 0) :
    (file.push (fun _ => true) offset len data).filled (offset + index) = data index := by
  rcases exists_chunk offset inside with
    ⟨earlier, chunk, later, inner, split, inChunk, rfl⟩
  rw [filled, byteAt_push split inChunk, dropped_eq sevenless _ _ split]
  cases shown : isBlank (window data chunk) with
  | false => rfl
  | true =>
      have small := ((chunksOf_tiles offset len).mem chunk (by simp [split])).2.2
      have zero : data (chunk.start + inner) = 0 := isBlank_iff.mp shown inner (by omega)
      rw [if_pos rfl, zero]
      exact clear zero

theorem filled_push_shown (sevenless : Sevenless offset len) (nonempty : 0 < len)
    (inBlock : offset % cacheBlockSz + len ≤ cacheBlockSz) (shown : isBlank data = false)
    {index : Nat} (inside : index < len) :
    (file.push (fun _ => true) offset len data).filled (offset + index) = data index := by
  have single := chunksOf_of_inBlock nonempty inBlock
  have split : chunksOf offset len = [] ++ ⟨0, len⟩ :: [] := single
  have stored : (file.push (fun _ => true) offset len data).byteAt (offset + (0 + index)) = _ :=
    byteAt_push split inside
  have same : window data ⟨0, len⟩ = data := funext fun _ => by rw [window, Nat.zero_add]
  rw [dropped_eq sevenless data file.isFirst split, same, shown, if_neg Bool.false_ne_true,
    Nat.zero_add] at stored
  rw [filled, stored]
  rfl

/-! ## The blocks after a write -/

theorem isSome_push {mallocs : Nat → Bool} {position : Nat}
    (held : (file.byteAt position).isSome = true) :
    ((file.push mallocs offset len data).byteAt position).isSome = true := by
  have frame : Frame offset len file (file.push mallocs offset len data) :=
    .push mallocs file data
  simp only [byteAt, bytes, Option.isSome_map] at held ⊢
  rcases Option.isSome_iff_exists.mp held with ⟨block, before⟩
  rcases frame.kept _ _ before with ⟨kept, after, _⟩
  rw [after]
  rfl

theorem byteAt_push_eq_none (sevenless : Sevenless offset len) {position : Nat} :
    (file.push (fun _ => true) offset len data).byteAt position = none ↔
      file.byteAt position = none ∧ ∀ chunk ∈ chunksOf offset len,
        (offset + chunk.start) / cacheBlockSz = position / cacheBlockSz →
          isBlank (window data chunk) = true := by
  simp only [byteAt, Option.map_eq_none_iff]
  by_cases written : ∃ chunk ∈ chunksOf offset len,
      (offset + chunk.start) / cacheBlockSz = position / cacheBlockSz
  · rcases written with ⟨chunk, member, here⟩
    rcases List.append_of_mem member with ⟨earlier, later, split⟩
    have only : ∀ other ∈ chunksOf offset len,
        (offset + other.start) / cacheBlockSz = position / cacheBlockSz → other = chunk := by
      intro other otherMember otherHere
      have increasing := (chunksOf_tiles offset len).pairwise (by decide)
      rw [split] at otherMember increasing
      rcases List.pairwise_append.mp increasing with ⟨_, fromChunk, across⟩
      rcases List.mem_append.mp otherMember with inEarlier | inRest
      · exact absurd (across other inEarlier chunk List.mem_cons_self) (by omega)
      · rcases List.mem_cons.mp inRest with same | inLater
        · exact same
        · exact absurd ((List.pairwise_cons.mp fromChunk).1 other inLater) (by omega)
    rw [← here, bytes_push split, dropped_eq sevenless _ _ split]
    cases shown : isBlank (window data chunk) with
    | true =>
        rw [if_pos rfl, here]
        refine ⟨fun missing => ⟨missing, fun other otherMember otherHere => ?_⟩, And.left⟩
        rw [only other otherMember otherHere, shown]
    | false =>
        rw [if_neg Bool.false_ne_true]
        apply iff_of_false (Option.some_ne_none _)
        intro missing
        rw [missing.2 chunk member rfl] at shown
        cases shown
  · have untouched : (file.push (fun _ => true) offset len data).bytes
        (position / cacheBlockSz) = file.bytes (position / cacheBlockSz) := by
      by_cases busy : offset % cacheBlockSz + len = 0
      · rw [push, if_pos busy]
      · rw [bytes, (push_blocks busy).1]
        apply storeChunks_bytes_other
        intro chunk member same
        exact written ⟨chunk, member, same.symm⟩
    rw [untouched]
    refine ⟨fun missing => ⟨missing, fun chunk member here => ?_⟩, And.left⟩
    exact absurd ⟨chunk, member, here⟩ written

theorem isSome_push_of_shown (sevenless : Sevenless offset len) {chunk : Chunk}
    (member : chunk ∈ chunksOf offset len) (shown : isBlank (window data chunk) = false)
    {position : Nat} (here : (offset + chunk.start) / cacheBlockSz = position / cacheBlockSz) :
    ((file.push (fun _ => true) offset len data).byteAt position).isSome = true := by
  rw [Option.isSome_iff_ne_none]
  intro missing
  have blank := ((byteAt_push_eq_none sevenless).mp missing).2 chunk member here
  rw [shown] at blank
  cases blank

end Push

theorem push_size {offset len : Nat} (sevenless : Sevenless offset len) (nonempty : 0 < len)
    {data : Nat → UInt8} :
    (file.push (fun _ => true) offset len data).size = max file.size (offset + len) := by
  have goesOn : ∀ {list : List Chunk}, (∀ chunk ∈ list, chunk.count ≠ sqliteNomem) →
      ∀ {file : BlockFile}, (file.storeChunks (fun _ => true) offset data list).1 = false := by
    intro list
    induction list with
    | nil => exact fun _ _ => rfl
    | cons chunk rest induction =>
        intro noSeven file
        have notSeven : (chunk.count == sqliteNomem) = false := by
          simpa using noSeven chunk List.mem_cons_self
        simp only [storeChunks, storeChunk_ends, notSeven, Bool.false_eq_true, if_false]
        exact induction fun other member => noSeven other (List.mem_cons_of_mem chunk member)
  rw [push_goesOn (by omega) (goesOn sevenless)]

end BlockFile

end Journal

end EspSqlite
