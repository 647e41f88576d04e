import EspSqlite.Journal.Overread

/-! # Memory for new blocks

A write asks for memory once for each chunk that is not blank and has no block
yet. It ends early when there is none, and after any seven bytes. -/

namespace EspSqlite.Journal

def allocates (bytes : Nat → Option (Nat → UInt8)) (offset : Nat) (data : Nat → UInt8)
    (chunk : Chunk) : Bool :=
  !isBlank (window data chunk) && (bytes ((offset + chunk.start) / cacheBlockSz)).isNone

def blocksNeeded (bytes : Nat → Option (Nat → UInt8)) (offset : Nat) (data : Nat → UInt8)
    (list : List Chunk) : Nat :=
  list.countP (allocates bytes offset data)

def Failed (mallocs : Nat → Bool) (calls calls' : Nat) : Prop :=
  ∃ call, calls ≤ call ∧ call < calls' ∧ mallocs call = false

theorem not_failed_self (mallocs : Nat → Bool) (calls : Nat) : ¬Failed mallocs calls calls := by
  intro failed
  rcases failed with ⟨call, after, before, _⟩
  omega

theorem failed_iff (mallocs : Nat → Bool) (calls count : Nat) :
    Failed mallocs calls (calls + count) ↔ ∃ index < count, mallocs (calls + index) = false := by
  constructor
  · intro failed
    rcases failed with ⟨call, after, before, fails⟩
    obtain ⟨index, rfl⟩ := Nat.exists_eq_add_of_le after
    exact ⟨index, by omega, fails⟩
  · intro fails
    rcases fails with ⟨index, inRange, fails⟩
    exact ⟨calls + index, by omega, by omega, fails⟩

theorem Failed.mono {mallocs : Nat → Bool} {calls middle calls' : Nat}
    (failed : Failed mallocs calls middle) (later : middle ≤ calls') :
    Failed mallocs calls calls' := by
  rcases failed with ⟨call, after, before, fails⟩
  exact ⟨call, after, Nat.lt_of_lt_of_le before later, fails⟩

theorem failed_shift {mallocs : Nat → Bool} {calls middle calls' : Nat} (later : calls ≤ middle)
    (succeed : ¬Failed mallocs calls middle) :
    Failed mallocs calls calls' ↔ Failed mallocs middle calls' := by
  constructor
  · intro failed
    rcases failed with ⟨call, after, before, fails⟩
    have notEarly : ¬call < middle := fun early => succeed ⟨call, after, early, fails⟩
    exact ⟨call, by omega, before, fails⟩
  · intro failed
    rcases failed with ⟨call, after, before, fails⟩
    exact ⟨call, by omega, before, fails⟩

namespace BlockFile

variable {file : BlockFile} {mallocs : Nat → Bool} {offset : Nat} {data : Nat → UInt8}

/-! ## One chunk -/

def storeAt (file : BlockFile) (mallocs : Nat → Bool) (offset : Nat) (data : Nat → UInt8)
    (chunk : Chunk) : Bool × BlockFile :=
  file.storeChunk mallocs (offset + chunk.start) chunk.count (window data chunk)

theorem storeAt_calls (chunk : Chunk) :
    (file.storeAt mallocs offset data chunk).2.calls =
      file.calls + (allocates file.bytes offset data chunk).toNat := by
  rw [storeAt, storeChunk, allocates, bytes]
  cases isBlank (window data chunk) with
  | true => rfl
  | false =>
      cases file.blocks.lookup ((offset + chunk.start) / cacheBlockSz) with
      | some block => rfl
      | none =>
          simp only [Bool.false_eq_true, if_false]
          repeat' split
          all_goals rfl

theorem storeAt_ends (file : BlockFile) (mallocs : Nat → Bool) (offset : Nat) (data : Nat → UInt8)
    (chunk : Chunk) :
    (file.storeAt mallocs offset data chunk).1 = true ↔
      chunk.count = sqliteNomem ∨
        Failed mallocs file.calls (file.storeAt mallocs offset data chunk).2.calls := by
  rw [storeAt_calls, failed_iff]
  rw [storeAt, storeChunk, allocates, bytes]
  cases isBlank (window data chunk) with
  | true => simp
  | false =>
      cases file.blocks.lookup ((offset + chunk.start) / cacheBlockSz) with
      | some block => simp
      | none =>
          cases succeeds : mallocs file.calls with
          | false => simp [succeeds]
          | true =>
              by_cases seven : chunk.count = sqliteNomem
              · simp only [seven, beq_self_eq_true, Bool.true_and, if_true, Bool.false_eq_true,
                  if_false, true_or, iff_true]
                split <;> rfl
              · simp [seven, succeeds]

theorem storeAt_goesOn {chunk : Chunk}
    (goesOn : (file.storeAt mallocs offset data chunk).1 = false) :
    chunk.count ≠ sqliteNomem ∧
      ¬Failed mallocs file.calls (file.storeAt mallocs offset data chunk).2.calls := by
  have ends := file.storeAt_ends mallocs offset data chunk
  rwa [goesOn, Bool.false_eq_true, false_iff, not_or] at ends

theorem storeAt_eq (chunk : Chunk)
    (succeed : ¬Failed mallocs file.calls (file.storeAt mallocs offset data chunk).2.calls) :
    file.storeAt mallocs offset data chunk = file.storeAt (fun _ => true) offset data chunk := by
  rw [storeAt_calls, failed_iff, allocates, bytes] at succeed
  rw [storeAt, storeAt, storeChunk, storeChunk]
  cases shown : isBlank (window data chunk) with
  | true => rfl
  | false =>
      cases held : file.blocks.lookup ((offset + chunk.start) / cacheBlockSz) with
      | some block => rfl
      | none =>
          have succeeds : mallocs file.calls = true := by simpa [shown, held] using succeed
          simp only [succeeds]

theorem storeAt_absent (chunk : Chunk)
    (failed : Failed mallocs file.calls (file.storeAt mallocs offset data chunk).2.calls) :
    (file.storeAt mallocs offset data chunk).2.bytes ((offset + chunk.start) / cacheBlockSz) =
      none := by
  rw [storeAt_calls, failed_iff, allocates, bytes] at failed
  rw [storeAt, storeChunk]
  cases shown : isBlank (window data chunk) with
  | true => simp [shown] at failed
  | false =>
      cases held : file.blocks.lookup ((offset + chunk.start) / cacheBlockSz) with
      | some block => simp [held] at failed
      | none =>
          have fails : mallocs file.calls = false := by simpa [shown, held] using failed
          simp only [fails, Bool.false_eq_true, if_false]
          exact bytes_eq_none.mpr held

theorem storeAt_linked (chunk : Chunk)
    (goesOn : (file.storeAt mallocs offset data chunk).1 = false) {addr : Nat}
    (after : file.calls ≤ addr)
    (before : addr < (file.storeAt mallocs offset data chunk).2.calls) :
    ∃ blockid block, (file.storeAt mallocs offset data chunk).2.blocks.lookup blockid =
      some (addr, block) := by
  rw [storeAt_calls, allocates, bytes] at before
  rw [storeAt, storeChunk] at goesOn ⊢
  cases shown : isBlank (window data chunk) with
  | true => simp [shown] at before; omega
  | false =>
      cases held : file.blocks.lookup ((offset + chunk.start) / cacheBlockSz) with
      | some block => simp [held] at before; omega
      | none =>
          simp only [shown, held, Option.map_none, Option.isNone_none, Bool.not_false,
            Bool.and_self, Bool.toNat_true] at before
          obtain rfl : addr = file.calls := by omega
          simp only [shown, held, Bool.false_eq_true, if_false] at goesOn ⊢
          cases succeeds : mallocs file.calls with
          | false => simp [succeeds] at goesOn
          | true =>
              simp only [succeeds, if_true] at goesOn ⊢
              split at goesOn
              · rename_i lost
                rw [Bool.and_eq_true] at lost
                rw [lost.1] at goesOn
                cases goesOn
              · rename_i linked
                rw [if_neg linked]
                refine ⟨(offset + chunk.start) / cacheBlockSz, memcpy (fun _ => 0)
                  ((offset + chunk.start) % cacheBlockSz) (window data chunk) chunk.count, ?_⟩
                rw [allocate, lookup_put, if_pos rfl, held]

/-! ## All chunks of a write -/

theorem storeChunks_cons (file : BlockFile) (mallocs : Nat → Bool) (offset : Nat)
    (data : Nat → UInt8) (chunk : Chunk) (rest : List Chunk) :
    file.storeChunks mallocs offset data (chunk :: rest) =
      if (file.storeAt mallocs offset data chunk).1 then file.storeAt mallocs offset data chunk
      else (file.storeAt mallocs offset data chunk).2.storeChunks mallocs offset data rest :=
  rfl

theorem storeAt_calls_le (chunk : Chunk) :
    file.calls ≤ (file.storeAt mallocs offset data chunk).2.calls := by
  rw [storeAt_calls]
  exact Nat.le_add_right _ _

theorem storeAt_bytes_other (chunk : Chunk) {blockid : Nat}
    (other : blockid ≠ (offset + chunk.start) / cacheBlockSz) :
    (file.storeAt mallocs offset data chunk).2.bytes blockid = file.bytes blockid :=
  storeChunk_bytes_other mallocs chunk.count (window data chunk) other

theorem storeChunks_ends (mallocs : Nat → Bool) (offset : Nat) (data : Nat → UInt8)
    (list : List Chunk) : ∀ file : BlockFile,
    (file.storeChunks mallocs offset data list).1 = true ↔
      (∃ chunk ∈ list, chunk.count = sqliteNomem) ∨
        Failed mallocs file.calls (file.storeChunks mallocs offset data list).2.calls := by
  induction list with
  | nil => simp [storeChunks, not_failed_self]
  | cons chunk rest induction =>
      intro file
      rw [storeChunks_cons]
      cases stops : (file.storeAt mallocs offset data chunk).1 with
      | true =>
          rw [if_pos rfl, stops]
          rcases (file.storeAt_ends mallocs offset data chunk).mp stops with seven | failed
          · exact iff_of_true rfl (Or.inl ⟨chunk, List.mem_cons_self, seven⟩)
          · exact iff_of_true rfl (Or.inr failed)
      | false =>
          have ends := storeAt_goesOn stops
          rw [if_neg Bool.false_ne_true, induction,
            failed_shift (storeAt_calls_le chunk) ends.2]
          simp [ends.1]

theorem storeChunks_eq {list : List Chunk} : ∀ {file : BlockFile},
    ¬Failed mallocs file.calls (file.storeChunks mallocs offset data list).2.calls →
    file.storeChunks mallocs offset data list =
      file.storeChunks (fun _ => true) offset data list := by
  induction list with
  | nil => exact fun _ => rfl
  | cons chunk rest induction =>
      intro file succeed
      rw [storeChunks_cons] at succeed ⊢
      rw [storeChunks_cons file fun _ => true]
      cases stops : (file.storeAt mallocs offset data chunk).1 with
      | true =>
          rw [if_pos stops] at succeed
          rw [if_pos rfl, ← storeAt_eq chunk succeed, if_pos stops]
      | false =>
          rw [if_neg (by simp [stops])] at succeed
          have ends := storeAt_goesOn stops
          rw [failed_shift (storeAt_calls_le chunk) ends.2] at succeed
          rw [if_neg Bool.false_ne_true, induction succeed, ← storeAt_eq chunk ends.2,
            if_neg (by simp [stops])]

theorem storeChunks_absent {list : List Chunk} : ∀ {file : BlockFile},
    Failed mallocs file.calls (file.storeChunks mallocs offset data list).2.calls →
    ∃ chunk ∈ list, (file.storeChunks mallocs offset data list).2.bytes
      ((offset + chunk.start) / cacheBlockSz) = none := by
  induction list with
  | nil => exact fun failed => absurd failed (not_failed_self _ _)
  | cons chunk rest induction =>
      intro file failed
      rw [storeChunks_cons] at failed ⊢
      cases stops : (file.storeAt mallocs offset data chunk).1 with
      | true =>
          rw [if_pos stops] at failed
          rw [if_pos rfl]
          exact ⟨chunk, List.mem_cons_self, storeAt_absent chunk failed⟩
      | false =>
          rw [if_neg (by simp [stops])] at failed
          have ends := storeAt_goesOn stops
          rw [failed_shift (storeAt_calls_le chunk) ends.2] at failed
          rcases induction failed with ⟨other, member, absent⟩
          rw [if_neg Bool.false_ne_true]
          exact ⟨other, List.mem_cons_of_mem chunk member, absent⟩

theorem storeChunks_kept (list : List Chunk) {blockid : Nat} : ∀ {file : BlockFile} {block : Block},
    file.blocks.lookup blockid = some block →
    ∃ data', (file.storeChunks mallocs offset data list).2.blocks.lookup blockid =
      some (block.1, data') := by
  induction list with
  | nil => exact fun held => ⟨_, held⟩
  | cons chunk rest induction =>
      intro file block held
      rcases storeChunk_kept mallocs (offset + chunk.start) chunk.count (window data chunk) held
        with ⟨data', held'⟩
      have stored : (file.storeAt mallocs offset data chunk).2.blocks.lookup blockid =
          some (block.1, data') := held'
      rw [storeChunks_cons]
      split
      · exact ⟨data', stored⟩
      · have later := induction stored
        exact later

theorem storeChunks_linked {list : List Chunk} {addr : Nat} : ∀ {file : BlockFile},
    (file.storeChunks mallocs offset data list).1 = false → file.calls ≤ addr →
    addr < (file.storeChunks mallocs offset data list).2.calls →
    ∃ blockid block, (file.storeChunks mallocs offset data list).2.blocks.lookup blockid =
      some (addr, block) := by
  induction list with
  | nil =>
      intro file _ after before
      exact absurd before (Nat.not_lt_of_le after)
  | cons chunk rest induction =>
      intro file goesOn after before
      rw [storeChunks_cons] at goesOn before ⊢
      cases stops : (file.storeAt mallocs offset data chunk).1 with
      | true =>
          rw [if_pos stops, stops] at goesOn
          cases goesOn
      | false =>
          rw [if_neg (by simp [stops])] at goesOn before
          rw [if_neg Bool.false_ne_true]
          by_cases early : addr < (file.storeAt mallocs offset data chunk).2.calls
          · rcases storeAt_linked chunk stops after early with ⟨blockid, block, held⟩
            rcases storeChunks_kept rest held with ⟨data', held'⟩
            exact ⟨blockid, data', held'⟩
          · exact induction goesOn (Nat.le_of_not_lt early) before

theorem blocksNeeded_storeAt (mallocs : Nat → Bool) (data : Nat → UInt8) (chunk : Chunk)
    {list : List Chunk}
    (apart : ∀ other ∈ list,
      (offset + chunk.start) / cacheBlockSz < (offset + other.start) / cacheBlockSz) :
    blocksNeeded (file.storeAt mallocs offset data chunk).2.bytes offset data list =
      blocksNeeded file.bytes offset data list := by
  apply List.countP_congr
  intro other member
  rw [allocates, allocates, storeAt_bytes_other chunk (Nat.ne_of_gt (apart other member))]

theorem blocksNeeded_cons (bytes : Nat → Option (Nat → UInt8)) (chunk : Chunk)
    (list : List Chunk) :
    blocksNeeded bytes offset data (chunk :: list) =
      (allocates bytes offset data chunk).toNat + blocksNeeded bytes offset data list := by
  rw [blocksNeeded, List.countP_cons, Nat.add_comm, blocksNeeded]
  cases allocates bytes offset data chunk <;> rfl

/-- The calls of a write are those for its chunks up to the first of seven
bytes, up to the first that fails. -/
theorem storeChunks_failed (mallocs : Nat → Bool) (offset : Nat) (data : Nat → UInt8)
    {list : List Chunk} : ∀ file : BlockFile,
    list.Pairwise (fun left right =>
      (offset + left.start) / cacheBlockSz < (offset + right.start) / cacheBlockSz) →
    (Failed mallocs file.calls (file.storeChunks mallocs offset data list).2.calls ↔
      Failed mallocs file.calls
        (file.calls + blocksNeeded file.bytes offset data (upToSeven list))) := by
  induction list with
  | nil => exact fun _ _ => Iff.rfl
  | cons chunk rest induction =>
      intro file increasing
      rcases List.pairwise_cons.mp increasing with ⟨above, restIncreasing⟩
      have calls : (file.storeAt mallocs offset data chunk).2.calls = _ := storeAt_calls chunk
      have ends := file.storeAt_ends mallocs offset data chunk
      rw [storeChunks_cons, upToSeven]
      by_cases seven : chunk.count = sqliteNomem
      · rw [if_pos (ends.mpr (Or.inl seven)), if_pos seven, blocksNeeded_cons, calls]
        rfl
      · rw [if_neg seven, blocksNeeded_cons]
        by_cases failed :
            Failed mallocs file.calls (file.storeAt mallocs offset data chunk).2.calls
        · rw [if_pos (ends.mpr (Or.inr failed))]
          rw [calls] at failed ⊢
          exact iff_of_true failed (failed.mono (by omega))
        · have goesOn : ¬(file.storeAt mallocs offset data chunk).1 = true := by
            rw [ends]
            exact not_or.mpr ⟨seven, failed⟩
          have later : file.calls ≤ (file.storeAt mallocs offset data chunk).2.calls :=
            storeAt_calls_le chunk
          have needed : blocksNeeded (file.storeAt mallocs offset data chunk).2.bytes offset data
              (upToSeven rest) = _ :=
            blocksNeeded_storeAt mallocs data chunk fun other member =>
              above other (mem_of_mem_upToSeven member)
          rw [if_neg goesOn, failed_shift later failed, induction _ restIncreasing, needed,
            failed_shift later failed, calls, Nat.add_assoc]

end BlockFile

end EspSqlite.Journal
