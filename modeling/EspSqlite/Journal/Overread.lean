import EspSqlite.Journal.Dropped

/-! # Reading past the bytes of a write

A chunk is compared with a blank block in 64 bytes of the source, however few of
them the write was given. -/

namespace EspSqlite.Journal

inductive Reached : MemFile → Prop
  | opened : Reached MemFile.opened
  | write {file file' : MemFile} {mallocs : Nat → Bool} {data : Nat → UInt8} {amount offset : Nat} :
      Reached file → offset + amount ≤ 65535 * cacheBlockSz →
      esp8266memWrite mallocs file data amount offset = some file' → Reached file'

theorem Reached.models {file : MemFile} (reached : Reached file) : ∃ map, file.Models map := by
  induction reached with
  | opened => exact ⟨_, .opened⟩
  | @write _ _ mallocs data _ _ _ bounded written induction =>
      rcases induction with ⟨map, models⟩
      rcases models.write mallocs data bounded with ⟨file', written', models'⟩
      rw [written, Option.some.injEq] at written'
      exact ⟨_, written' ▸ models'⟩

def AgreeOn (amount : Nat) (left right : Nat → UInt8) : Prop :=
  ∀ index < amount, left index = right index

/-- Later reads and sizes are the same. A read spans at most 65535 blocks. -/
def SameFile (left right : MemFile) : Prop :=
  (∀ (buffer : Nat → UInt8) (amount offset : Nat),
    offset % cacheBlockSz + amount ≤ 65535 * cacheBlockSz →
    ∃ result, esp8266memRead left buffer amount offset = some result ∧
      esp8266memRead right buffer amount offset = some result) ∧
  esp8266memFileSize left = esp8266memFileSize right

/-- Writing the given bytes of `data` leads to the same file from any memory
that holds them. -/
def WritesAlike (file : MemFile) (data : Nat → UInt8) (amount offset : Nat) : Prop :=
  ∀ (mallocs : Nat → Bool) (left right : Nat → UInt8),
    AgreeOn amount left data → AgreeOn amount right data →
    ∃ leftFile rightFile,
      esp8266memWrite mallocs file left amount offset = some leftFile ∧
      esp8266memWrite mallocs file right amount offset = some rightFile ∧
      SameFile leftFile rightFile

/-- The given bytes do not decide whether the window of a chunk is blank. -/
def Undecided (amount : Nat) (data : Nat → UInt8) (chunk : Chunk) : Prop :=
  amount < chunk.start + cacheBlockSz ∧
    ∀ index, chunk.start ≤ index → index < amount → data index = 0

/-- Every undecided chunk that the write comes to either has zeros in the cache
already or is a new first block of seven bytes. -/
def Settled (isFirst : Nat → Bool) (bytes : Nat → Option (Nat → UInt8)) (offset amount : Nat)
    (data : Nat → UInt8) (list : List Chunk) : Prop :=
  ∀ earlier chunk later, list = earlier ++ chunk :: later →
    (∀ other ∈ earlier, other.count ≠ sqliteNomem) → Undecided amount data chunk →
    (∃ block, bytes ((offset + chunk.start) / cacheBlockSz) = some block ∧
      ∀ index < chunk.count, block ((offset + chunk.start) % cacheBlockSz + index) = 0) ∨
    (chunk.count = sqliteNomem ∧ isFirst ((offset + chunk.start) / cacheBlockSz) = true ∧
      ∀ other ∈ earlier, other.start + cacheBlockSz ≤ amount ∧ isBlank (window data other) = true)

/-! ## The windows -/

section Windows

variable {amount : Nat} {data memory : Nat → UInt8} {chunk : Chunk}

theorem isBlank_of_inside (inside : chunk.start + cacheBlockSz ≤ amount)
    (agree : AgreeOn amount memory data) :
    isBlank (window memory chunk) = isBlank (window data chunk) := by
  rw [Bool.eq_iff_iff, isBlank_iff, isBlank_iff]
  apply forall₂_congr
  intro index inBlock
  rw [window, window, agree _ (by omega)]

theorem isBlank_of_decided (decided : ¬Undecided amount data chunk)
    (agree : AgreeOn amount memory data) :
    isBlank (window memory chunk) = isBlank (window data chunk) := by
  by_cases inside : chunk.start + cacheBlockSz ≤ amount
  · exact isBlank_of_inside inside agree
  · have shown : ∃ index, chunk.start ≤ index ∧ index < amount ∧ data index ≠ 0 := by
      by_contra none'
      push Not at none'
      exact decided ⟨Nat.lt_of_not_le inside, none'⟩
    rcases shown with ⟨index, after, before, nonzero⟩
    have notBlank : ∀ source : Nat → UInt8, source index = data index →
        isBlank (window source chunk) = false := by
      intro source same
      rw [← Bool.not_eq_true, isBlank_iff]
      intro blank
      have zero := blank (index - chunk.start) (by omega)
      rw [window, Nat.add_sub_cancel' after, same] at zero
      exact nonzero zero
    rw [notBlank memory (agree index before), notBlank data rfl]

end Windows

/-! ## Two runs over one chunk -/

namespace BlockFile

structure Alike (left right : BlockFile) : Prop where
  bytes : left.bytes = right.bytes
  calls : left.calls = right.calls

section Alike

variable {left right : BlockFile} {mallocs : Nat → Bool} {position count : Nat}

theorem Alike.isFirst (alike : left.Alike right) : left.isFirst = right.isFirst := by
  funext blockid
  rw [Bool.eq_iff_iff, isFirst_iff, isFirst_iff]
  apply forall₂_congr
  intro other below
  rw [← bytes_eq_none, ← bytes_eq_none, alike.bytes]

theorem Alike.put (alike : left.Alike right) (position : Nat) {source source' : Nat → UInt8}
    (agree : AgreeOn count source source') :
    (left.put position count source).bytes = (right.put position count source').bytes := by
  funext blockid
  rw [bytes_put, bytes_put, alike.bytes]
  split
  · congr 1
    funext index
    simp only [memcpy]
    split
    · exact agree _ (by omega)
    · rfl
  · rfl

theorem Alike.storeChunk (alike : left.Alike right) (mallocs : Nat → Bool) (position : Nat)
    {source source' : Nat → UInt8}
    (agree : AgreeOn count source source') (blank : isBlank source = isBlank source') :
    (left.storeChunk mallocs position count source).1 =
        (right.storeChunk mallocs position count source').1 ∧
      (left.storeChunk mallocs position count source).2.Alike
        (right.storeChunk mallocs position count source').2 := by
  have put := alike.put position agree
  cases shown : isBlank source' with
  | true =>
      rw [storeChunk_blank (blank.trans shown), storeChunk_blank shown]
      exact ⟨rfl, alike⟩
  | false =>
      have sameBytes := congrFun alike.bytes (position / cacheBlockSz)
      cases held : right.blocks.lookup (position / cacheBlockSz) with
      | some block =>
          rw [BlockFile.bytes, BlockFile.bytes, held, Option.map_some,
            Option.map_eq_some_iff] at sameBytes
          rcases sameBytes with ⟨block', held', _⟩
          rw [storeChunk_here (blank.trans shown) held', storeChunk_here shown held]
          exact ⟨rfl, put, alike.calls⟩
      | none =>
          rw [bytes_eq_none.mpr held, bytes_eq_none] at sameBytes
          cases allocates : mallocs right.calls with
          | false =>
              rw [storeChunk_fails (blank.trans shown) sameBytes (alike.calls ▸ allocates),
                storeChunk_fails shown held allocates]
              exact ⟨rfl, alike.bytes, congrArg Nat.succ alike.calls⟩
          | true =>
              by_cases lost : count = sqliteNomem ∧
                  right.isFirst (position / cacheBlockSz) = true
              · rw [storeChunk_lost (blank.trans shown) (alike.calls ▸ allocates) lost.1
                    (alike.isFirst ▸ lost.2), storeChunk_lost shown allocates lost.1 lost.2]
                exact ⟨rfl, alike.bytes, congrArg Nat.succ alike.calls⟩
              · rw [not_and, Bool.not_eq_true] at lost
                rw [storeChunk_new (blank.trans shown) sameBytes (alike.calls ▸ allocates)
                    (alike.isFirst ▸ lost), storeChunk_new shown held allocates lost]
                exact ⟨rfl, put, congrArg Nat.succ alike.calls⟩

theorem storeChunk_zeros (mallocs : Nat → Bool) {file : BlockFile} {source block : Nat → UInt8}
    (held : file.bytes (position / cacheBlockSz) = some block)
    (zeros : ∀ index < count, block (position % cacheBlockSz + index) = 0)
    (sourceZeros : ∀ index < count, source index = 0) :
    (file.storeChunk mallocs position count source).1 = (count == sqliteNomem) ∧
      (file.storeChunk mallocs position count source).2.Alike file := by
  cases shown : isBlank source with
  | true =>
      rw [storeChunk_blank shown]
      exact ⟨rfl, rfl, rfl⟩
  | false =>
      have held' := held
      rw [BlockFile.bytes, Option.map_eq_some_iff] at held'
      rcases held' with ⟨entry, found, _⟩
      rw [storeChunk_here shown found]
      refine ⟨rfl, ?_, rfl⟩
      funext blockid
      rw [bytes_put]
      split
      · rename_i here
        rw [here, held, Option.getD_some]
        congr 1
        funext index
        simp only [memcpy]
        split
        · rename_i inside
          have zero := zeros (index - position % cacheBlockSz) (by omega)
          rw [Nat.add_sub_cancel' inside.1] at zero
          rw [zero, sourceZeros _ (by omega)]
        · rfl
      · rfl

/-- A new first block of seven bytes ends the write without a trace. -/
theorem storeChunk_seven (mallocs : Nat → Bool) {file : BlockFile} (source : Nat → UInt8)
    (seven : count = sqliteNomem)
    (first : file.isFirst (position / cacheBlockSz) = true) :
    (file.storeChunk mallocs position count source).1 = true ∧
      (file.storeChunk mallocs position count source).2.bytes = file.bytes := by
  cases shown : isBlank source with
  | true =>
      rw [storeChunk_blank shown, seven]
      exact ⟨rfl, rfl⟩
  | false =>
      cases allocates : mallocs file.calls with
      | true =>
          rw [storeChunk_lost shown allocates seven first]
          exact ⟨rfl, rfl⟩
      | false =>
          rw [storeChunk_fails shown (isFirst_iff.mp first _ (Nat.le_refl _)) allocates]
          exact ⟨rfl, rfl⟩

theorem count_ne_of_goesOn {file : BlockFile} {source : Nat → UInt8}
    (goesOn : (file.storeChunk mallocs position count source).1 = false) :
    count ≠ sqliteNomem := by
  intro equal
  subst equal
  revert goesOn
  unfold BlockFile.storeChunk
  simp only
  repeat' split
  all_goals simp

end Alike

/-! ## Two runs over a write -/

section Runs

variable {offset amount : Nat} {data : Nat → UInt8}

theorem settled_rest {file : BlockFile} {mallocs : Nat → Bool} {memory : Nat → UInt8}
    (agree : AgreeOn amount memory data) {head : Chunk} {rest : List Chunk}
    (increasing : (head :: rest).Pairwise fun left right =>
      (offset + left.start) / cacheBlockSz < (offset + right.start) / cacheBlockSz)
    (settled : Settled file.isFirst file.bytes offset amount data (head :: rest))
    (notSeven : head.count ≠ sqliteNomem) :
    Settled
      (file.storeChunk mallocs (offset + head.start) head.count (window memory head)).2.isFirst
      (file.storeChunk mallocs (offset + head.start) head.count (window memory head)).2.bytes
      offset amount data rest := by
  intro earlier chunk later split noSeven undecided
  have member : chunk ∈ rest := by simp [split]
  have below := (List.pairwise_cons.mp increasing).1 chunk member
  have noSeven' : ∀ other ∈ head :: earlier, other.count ≠ sqliteNomem := by
    intro other inEarlier
    rcases List.mem_cons.mp inEarlier with rfl | inEarlier
    · exact notSeven
    · exact noSeven other inEarlier
  rcases settled (head :: earlier) chunk later (by rw [split]; rfl) noSeven' undecided with
    ⟨block, held, zeros⟩ | ⟨seven, first, blanks⟩
  · refine Or.inl ⟨block, ?_, zeros⟩
    rw [storeChunk_bytes_other mallocs _ _ (Nat.ne_of_gt below), held]
  · have headBlank := blanks head List.mem_cons_self
    refine Or.inr ⟨seven, ?_, fun other inEarlier =>
      blanks other (List.mem_cons_of_mem head inEarlier)⟩
    rw [storeChunk_blank ((isBlank_of_inside headBlank.1 agree).trans headBlank.2)]
    exact first

theorem storeChunks_alike (mallocs : Nat → Bool) {memory memory' : Nat → UInt8}
    (agree : AgreeOn amount memory data) (agree' : AgreeOn amount memory' data)
    {list : List Chunk} : ∀ {start : Nat} {left right : BlockFile},
    Tiles cacheBlockSz offset start list amount →
    Settled left.isFirst left.bytes offset amount data list → left.Alike right →
    (left.storeChunks mallocs offset memory list).1 =
        (right.storeChunks mallocs offset memory' list).1 ∧
      (left.storeChunks mallocs offset memory list).2.bytes =
        (right.storeChunks mallocs offset memory' list).2.bytes := by
  induction list with
  | nil => exact fun _ _ alike => ⟨rfl, alike.bytes⟩
  | cons head rest induction =>
      intro start left right tiles settled alike
      have increasing := tiles.pairwise (by decide)
      have inRange := (tiles.mem head List.mem_cons_self).2.1
      have inWindow : ∀ index < head.count, head.start + index < amount := by omega
      -- with the first chunk stored alike, the rest goes on alike
      have goOn : (left.storeChunk mallocs (offset + head.start) head.count
            (window memory head)).1 =
          (right.storeChunk mallocs (offset + head.start) head.count (window memory' head)).1 →
          (left.storeChunk mallocs (offset + head.start) head.count
            (window memory head)).2.Alike
          (right.storeChunk mallocs (offset + head.start) head.count (window memory' head)).2 →
          (left.storeChunks mallocs offset memory (head :: rest)).1 =
              (right.storeChunks mallocs offset memory' (head :: rest)).1 ∧
            (left.storeChunks mallocs offset memory (head :: rest)).2.bytes =
              (right.storeChunks mallocs offset memory' (head :: rest)).2.bytes := by
        intro sameEnd alike'
        simp only [storeChunks, ← sameEnd]
        cases ends : (left.storeChunk mallocs (offset + head.start) head.count
            (window memory head)).1 with
        | true =>
            simp only [if_true]
            exact ⟨sameEnd, alike'.bytes⟩
        | false =>
            simp only [Bool.false_eq_true, if_false]
            exact induction tiles.2.2.2
              (settled_rest agree increasing settled (count_ne_of_goesOn ends)) alike'
      by_cases undecided : Undecided amount data head
      · rcases settled [] head rest rfl (by simp) undecided with
          ⟨block, held, zeros⟩ | ⟨seven, first, _⟩
        · have sourceZeros : ∀ source, AgreeOn amount source data →
              ∀ index < head.count, window source head index = 0 := by
            intro source agrees index inChunk
            rw [window, agrees _ (inWindow index inChunk)]
            exact undecided.2 _ (Nat.le_add_right _ _) (inWindow index inChunk)
          have storedLeft := storeChunk_zeros mallocs held zeros
            (sourceZeros memory agree)
          have storedRight := storeChunk_zeros mallocs (alike.bytes ▸ held) zeros
            (sourceZeros memory' agree')
          exact goOn (storedLeft.1.trans storedRight.1.symm)
            ⟨storedLeft.2.bytes.trans (alike.bytes.trans storedRight.2.bytes.symm),
              storedLeft.2.calls.trans (alike.calls.trans storedRight.2.calls.symm)⟩
        · have lostLeft := storeChunk_seven mallocs (window memory head) seven first
          have lostRight := storeChunk_seven mallocs (window memory' head) seven
            (alike.isFirst ▸ first)
          simp only [storeChunks, lostLeft.1, lostRight.1, if_true, true_and]
          rw [lostLeft.2, lostRight.2, alike.bytes]
      · have sameBlank := (isBlank_of_decided undecided agree).trans
          (isBlank_of_decided undecided agree').symm
        have sameChunk : AgreeOn head.count (window memory head) (window memory' head) :=
          fun index inChunk => (agree _ (inWindow index inChunk)).trans
            (agree' _ (inWindow index inChunk)).symm
        have stored := alike.storeChunk mallocs (offset + head.start) sameChunk sameBlank
        exact goOn stored.1 stored.2

theorem push_alike (mallocs : Nat → Bool) {memory memory' : Nat → UInt8}
    (agree : AgreeOn amount memory data) (agree' : AgreeOn amount memory' data)
    {file : BlockFile}
    (settled : Settled file.isFirst file.bytes offset amount data (chunksOf offset amount)) :
    (file.push mallocs offset amount memory).bytes =
        (file.push mallocs offset amount memory').bytes ∧
      (file.push mallocs offset amount memory).size =
        (file.push mallocs offset amount memory').size := by
  rcases storeChunks_alike mallocs agree agree' (chunksOf_tiles offset amount) settled
    ⟨rfl, rfl⟩ with ⟨sameEnd, sameBytes⟩
  have size := file.storeChunks_size mallocs offset memory (chunksOf offset amount)
  have size' := file.storeChunks_size mallocs offset memory' (chunksOf offset amount)
  unfold push
  split
  · exact ⟨rfl, rfl⟩
  · simp only [← sameEnd]
    split
    · exact ⟨sameBytes, size.trans size'.symm⟩
    · exact ⟨sameBytes, by rw [size, size']⟩

end Runs

end BlockFile

/-! ## Files that read the same -/

section SameFile

variable {left right : MemFile} {leftMap rightMap : BlockFile}

theorem sameFile_of_bytes (leftModels : left.Models leftMap) (rightModels : right.Models rightMap)
    (bytes : leftMap.bytes = rightMap.bytes) (size : leftMap.size = rightMap.size) :
    SameFile left right := by
  refine ⟨fun buffer amount offset spans =>
    ⟨_, leftModels.read buffer spans, ?_⟩, ?_⟩
  · rw [rightModels.read buffer spans]
    congr 1
    funext index
    simp only [BlockFile.pull, BlockFile.byteAt, bytes]
  · rcases leftModels with ⟨_, _, leftSize⟩
    rcases rightModels with ⟨_, _, rightSize⟩
    rw [esp8266memFileSize, esp8266memFileSize, leftSize, rightSize, size]

theorem SameFile.byteAt (same : SameFile left right) (leftModels : left.Models leftMap)
    (rightModels : right.Models rightMap) {position : Nat}
    (inFile : position ≤ 65535 * cacheBlockSz) :
    leftMap.byteAt position = rightMap.byteAt position := by
  have spans : position % cacheBlockSz + 1 ≤ 65535 * cacheBlockSz := by
    simp only [cacheBlockSz]
    omega
  have reads : ∀ byte,
      (leftMap.byteAt position).getD byte = (rightMap.byteAt position).getD byte := by
    intro byte
    rcases same.1 (fun _ => byte) 1 position spans with ⟨result, readLeft, readRight⟩
    rw [leftModels.read _ spans, Option.some.injEq, masked_eq inFile] at readLeft
    rw [rightModels.read _ spans, Option.some.injEq, masked_eq inFile] at readRight
    have here := congrFun (readLeft.trans readRight.symm) 0
    simpa only [BlockFile.pull, Nat.one_pos, if_true, Nat.add_zero] using here
  cases held : leftMap.byteAt position <;> cases held' : rightMap.byteAt position <;>
    simp only [held, held', Option.getD_none, Option.getD_some] at reads
  · rfl
  · rename_i byte
    exact absurd (reads (byte + 1)) (by simp)
  · rename_i byte
    exact absurd (reads (byte + 1)) (by simp)
  · rw [reads 0]

end SameFile

/-! ## When a write depends on the given bytes only -/

def padded (amount : Nat) (data : Nat → UInt8) (rest : UInt8) : Nat → UInt8 :=
  fun index => if index < amount then data index else rest

theorem agreeOn_padded (amount : Nat) (data : Nat → UInt8) (rest : UInt8) :
    AgreeOn amount (padded amount data rest) data :=
  fun _ inRange => if_pos inRange

private theorem isBlank_padded_zero {amount : Nat} {data : Nat → UInt8} {chunk : Chunk}
    (undecided : Undecided amount data chunk) :
    isBlank (window (padded amount data 0) chunk) = true := by
  rw [isBlank_iff]
  intro index _
  rw [window, padded]
  split
  · rename_i inRange
    exact undecided.2 _ (Nat.le_add_right _ _) inRange
  · rfl

/-- With ones behind the given bytes only the windows inside them are blank. -/
private theorem isBlank_padded_one {amount : Nat} {data : Nat → UInt8} {chunk : Chunk}
    (starts : chunk.start ≤ amount) :
    isBlank (window (padded amount data 1) chunk) = true ↔
      chunk.start + cacheBlockSz ≤ amount ∧ isBlank (window data chunk) = true := by
  constructor
  · intro blank
    have inside : chunk.start + cacheBlockSz ≤ amount := by
      by_contra overreads
      have one := isBlank_iff.mp blank (amount - chunk.start) (by omega)
      rw [window, padded, if_neg (by omega)] at one
      cases one
    exact ⟨inside, (isBlank_of_inside inside (agreeOn_padded amount data 1)).symm.trans blank⟩
  · intro both
    rcases both with ⟨inside, blank⟩
    exact (isBlank_of_inside inside (agreeOn_padded amount data 1)).trans blank

/-- Zeros and ones behind the given bytes tell an unsettled write apart. -/
private theorem settled_of_same {map : BlockFile} {offset amount : Nat} {data : Nat → UInt8}
    (same : ∀ position ≤ offset + amount,
      (map.push (fun _ => true) offset amount (padded amount data 0)).byteAt position =
        (map.push (fun _ => true) offset amount (padded amount data 1)).byteAt position) :
    Settled map.isFirst map.bytes offset amount data (BlockFile.chunksOf offset amount) := by
  intro earlier chunk later split noSeven undecided
  have tiles := BlockFile.chunksOf_tiles offset amount
  have inRange := tiles.mem chunk (by simp [split])
  by_contra unsettled
  push Not at unsettled
  have noSevens : (earlier.any fun other => other.count == sqliteNomem) = false := by
    rw [List.any_eq_false]
    intro other member
    simpa using noSeven other member
  have drops : dropped map.isFirst offset (padded amount data 0) earlier chunk = true := by
    simp [dropped, isBlank_padded_zero undecided]
  have stores : dropped map.isFirst offset (padded amount data 1) earlier chunk = false := by
    have shown : isBlank (window (padded amount data 1) chunk) = false := by
      rw [← Bool.not_eq_true, isBlank_padded_one (by omega)]
      intro blank
      have overreads := undecided.1
      omega
    rw [dropped, noSevens, shown, Bool.false_or, Bool.false_or, ← Bool.not_eq_true]
    intro lost
    simp only [Bool.and_eq_true, beq_iff_eq, List.all_eq_true] at lost
    rcases unsettled.2 lost.1.1 lost.1.2 with ⟨other, member, notBlank⟩
    have starts := (tiles.mem other (by simp [split, member])).2.1
    have blank := (isBlank_padded_one (by omega)).mp (lost.2 other member)
    exact notBlank blank.1 blank.2
  cases held : map.bytes ((offset + chunk.start) / cacheBlockSz) with
  | none =>
      have differs := same (offset + chunk.start) (by omega)
      rw [BlockFile.byteAt, BlockFile.byteAt, BlockFile.bytes_push split,
        BlockFile.bytes_push split, drops, stores, held] at differs
      simp at differs
  | some block =>
      rcases unsettled.1 block held with ⟨index, inChunk, nonzero⟩
      have differs := same (offset + (chunk.start + index)) (by omega)
      have place := BlockFile.position_of_split split inChunk
      rw [BlockFile.byteAt_push split inChunk, BlockFile.byteAt_push split inChunk, drops, stores,
        if_pos rfl, if_neg Bool.false_ne_true, BlockFile.byteAt, place.1, place.2, held,
        Option.map_some, Option.some.injEq, padded, if_pos (by omega),
        undecided.2 _ (Nat.le_add_right _ _) (by omega)] at differs
      exact nonzero differs

/-- A journal write depends on the bytes it is given exactly when its undecided
chunks are settled. -/
theorem writesAlike_iff_settled {file : MemFile} (reached : Reached file) {offset amount : Nat}
    (bounded : offset + amount ≤ 65535 * cacheBlockSz) (data : Nat → UInt8) :
    WritesAlike file data amount offset ↔
      Settled file.isFirst file.bytes offset amount data (BlockFile.chunksOf offset amount) := by
  rcases reached.models with ⟨map, models⟩
  rw [models.isFirst_eq, models.bytes_eq]
  constructor
  · intro alike
    apply settled_of_same
    intro position upTo
    rcases alike (fun _ => true) (padded amount data 0) (padded amount data 1)
      (agreeOn_padded amount data 0) (agreeOn_padded amount data 1) with
      ⟨leftFile, rightFile, leftWrite, rightWrite, same⟩
    rcases models.write (fun _ => true) (padded amount data 0) bounded with
      ⟨leftFile', leftWrite', leftModels⟩
    rcases models.write (fun _ => true) (padded amount data 1) bounded with
      ⟨rightFile', rightWrite', rightModels⟩
    obtain rfl : leftFile = leftFile' := Option.some.inj (leftWrite.symm.trans leftWrite')
    obtain rfl : rightFile = rightFile' := Option.some.inj (rightWrite.symm.trans rightWrite')
    exact same.byteAt leftModels rightModels (Nat.le_trans upTo bounded)
  · intro settled mallocs left right agree agree'
    rcases models.write mallocs left bounded with ⟨leftFile, leftWrite, leftModels⟩
    rcases models.write mallocs right bounded with ⟨rightFile, rightWrite, rightModels⟩
    rcases BlockFile.push_alike mallocs agree agree' settled with ⟨sameBytes, sameSize⟩
    exact ⟨leftFile, rightFile, leftWrite, rightWrite,
      sameFile_of_bytes leftModels rightModels sameBytes sameSize⟩

/-- Ten ones across a block boundary. -/
theorem writesAlike_iff_settled_ones : WritesAlike MemFile.opened (fun _ => 1) 10 60 := by
  apply (writesAlike_iff_settled .opened (by decide) fun _ => 1).mpr
  intro earlier chunk later split _ undecided
  have early : ∀ other ∈ BlockFile.chunksOf 60 10, other.start < 10 := by decide
  have one := undecided.2 chunk.start (Nat.le_refl _) (early chunk (by simp [split]))
  cases one

/-- One zero byte into the empty journal: with ones behind it, a block is stored. -/
theorem not_writesAlike_zero : ¬WritesAlike MemFile.opened (fun _ => 0) 1 0 := by
  intro alike
  have read : ∀ rest : UInt8, ∀ file,
      esp8266memWrite (fun _ => true) MemFile.opened (padded 1 (fun _ => 0) rest) 1 0 = some file →
      ((esp8266memWrite (fun _ => true) MemFile.opened (padded 1 (fun _ => 0) rest) 1 0).bind
          fun file => (esp8266memRead file (fun _ => 9) 1 0).map fun result => result 0) =
        (esp8266memRead file (fun _ => 9) 1 0).map fun result => result 0 := by
    intro rest file written
    rw [written, Option.bind_some]
  rcases alike (fun _ => true) _ _ (agreeOn_padded 1 _ 0) (agreeOn_padded 1 _ 1) with
    ⟨leftFile, rightFile, leftWrite, rightWrite, same, _⟩
  rcases same (fun _ => 9) 1 0 (by decide) with ⟨result, leftRead, rightRead⟩
  have left := read 0 leftFile leftWrite
  have right := read 1 rightFile rightWrite
  rw [leftRead, ← rightRead] at left
  exact absurd (left.trans right.symm) (by decide +kernel)

end EspSqlite.Journal
