import EspSqlite.Journal.Refine

/-! # The list and its frame

Over any calls of `filecache_push` and any failures of `sqlite3_malloc` the list
stays sorted, loses no block, and changes only bytes in the range written. -/

namespace EspSqlite.Journal

open HeapList

/-! ## The frame of the map -/

def Outside (offset len blockid index : Nat) : Prop :=
  ¬(offset ≤ blockid * cacheBlockSz + index ∧ blockid * cacheBlockSz + index < offset + len)

/-- `after` keeps the blocks of `before`, with their bytes outside the range, and
its other blocks are zero there. -/
structure BlockFile.Frame (offset len : Nat) (before after : BlockFile) : Prop where
  kept : ∀ blockid block, before.blocks.lookup blockid = some block →
    ∃ data, after.blocks.lookup blockid = some (block.1, data) ∧
      ∀ index < cacheBlockSz, Outside offset len blockid index → data index = block.2 index
  fresh : ∀ blockid block, before.blocks.lookup blockid = none →
    after.blocks.lookup blockid = some block →
    ∀ index < cacheBlockSz, Outside offset len blockid index → block.2 index = 0

namespace BlockFile.Frame

variable {offset len : Nat}

theorem refl (file : BlockFile) : Frame offset len file file where
  kept _ block held := ⟨block.2, held, fun _ _ _ => rfl⟩
  fresh blockid block absent held := by
    rw [absent] at held
    cases held

theorem trans {first second third : BlockFile} (early : Frame offset len first second)
    (late : Frame offset len second third) : Frame offset len first third where
  kept blockid block held := by
    rcases early.kept blockid block held with ⟨middle, heldMiddle, sameEarly⟩
    rcases late.kept blockid _ heldMiddle with ⟨last, heldLast, sameLate⟩
    exact ⟨last, heldLast, fun index inside outside =>
      (sameLate index inside outside).trans (sameEarly index inside outside)⟩
  fresh blockid block absent held index inside outside := by
    cases middle : second.blocks.lookup blockid with
    | none => exact late.fresh blockid block middle held index inside outside
    | some block' =>
        rcases late.kept blockid block' middle with ⟨data, heldLast, same⟩
        rw [held, Option.some.injEq] at heldLast
        subst heldLast
        exact (same index inside outside).trans
          (early.fresh blockid block' absent middle index inside outside)

theorem allocate (file : BlockFile) : Frame offset len file file.allocate :=
  ⟨(refl file).kept, (refl file).fresh⟩

theorem put (file : BlockFile) {position count : Nat} (source : Nat → UInt8)
    (after : offset ≤ position) (before : position + count ≤ offset + len) :
    Frame offset len file (file.put position count source) where
  kept blockid block held := by
    rw [lookup_put]
    by_cases same : blockid = position / cacheBlockSz
    · subst same
      rw [if_pos rfl, held]
      refine ⟨_, rfl, fun index inside outside => ?_⟩
      rw [Outside] at outside
      have notInside : ¬(position % cacheBlockSz ≤ index ∧
          index < position % cacheBlockSz + count) := by
        simp only [cacheBlockSz] at outside ⊢
        omega
      simp only [memcpy, if_neg notInside]
    · rw [if_neg same, held]
      exact ⟨block.2, rfl, fun _ _ _ => rfl⟩
  fresh blockid block absent held index inside outside := by
    rw [lookup_put] at held
    by_cases same : blockid = position / cacheBlockSz
    · subst same
      rw [if_pos rfl, absent, Option.some.injEq] at held
      subst held
      rw [Outside] at outside
      have notInside : ¬(position % cacheBlockSz ≤ index ∧
          index < position % cacheBlockSz + count) := by
        simp only [cacheBlockSz] at outside ⊢
        omega
      simp only [memcpy, if_neg notInside]
    · rw [if_neg same, absent] at held
      cases held

theorem storeChunk (mallocs : Nat → Bool) (file : BlockFile) {position count : Nat}
    (source : Nat → UInt8) (after : offset ≤ position)
    (before : position + count ≤ offset + len) :
    Frame offset len file (file.storeChunk mallocs position count source).2 := by
  have written := put file source after before
  unfold BlockFile.storeChunk
  simp only
  split
  · exact refl file
  · split
    · exact written
    · split
      · split
        · exact allocate file
        · exact written.trans (allocate _)
      · exact allocate file

theorem storeChunks (mallocs : Nat → Bool) (data : Nat → UInt8) {list : List Chunk}
    (inRange : ∀ chunk ∈ list, chunk.start + chunk.count ≤ len) :
    ∀ file : BlockFile, Frame offset len file (file.storeChunks mallocs offset data list).2 := by
  induction list with
  | nil => exact refl
  | cons chunk rest induction =>
      intro file
      have bound := inRange chunk List.mem_cons_self
      have inside : offset + chunk.start + chunk.count ≤ offset + len := by omega
      have stored := storeChunk mallocs file (fun index => data (chunk.start + index))
        (Nat.le_add_right offset chunk.start) inside
      unfold BlockFile.storeChunks
      simp only
      split
      · exact stored
      · exact stored.trans (induction (fun other member =>
          inRange other (List.mem_cons_of_mem chunk member)) _)

theorem push (mallocs : Nat → Bool) (file : BlockFile) (data : Nat → UInt8) :
    Frame offset len file (file.push mallocs offset len data) := by
  have tiles := chunksOf_tiles offset len
  have stored : Frame offset len file
      (file.storeChunks mallocs offset data (chunksOf offset len)).2 :=
    storeChunks mallocs data (fun chunk member => (tiles.mem chunk member).2.1) file
  rw [BlockFile.push]
  split
  · exact refl file
  · simp only
    split
    · exact stored
    · exact ⟨stored.kept, stored.fresh⟩

end BlockFile.Frame

/-! ## Runs of the cache -/

/-- The heap and the cache after some calls of `filecache_push`, from the empty
cache. -/
inductive Pushed (mallocs : Nat → Bool) : Heap → FileCache → Prop
  | start : Pushed mallocs ⟨fun _ => none, 0⟩ ⟨0, none⟩
  | push {heap heap' : Heap} {cache cache' : FileCache} {offset len ret : Nat}
      {data : Nat → UInt8} : Pushed mallocs heap cache →
      offset + len ≤ 65535 * cacheBlockSz →
      filecachePush mallocs heap cache offset len data = some (ret, heap', cache') →
      Pushed mallocs heap' cache'

theorem represents_empty : Represents ⟨fun _ => none, 0⟩ none BlockFile.empty [] where
  chain := rfl
  entries := rfl
  calls := rfl
  fresh _ member := absurd member List.not_mem_nil

theorem Pushed.represents {mallocs : Nat → Bool} {heap : Heap} {cache : FileCache}
    (pushed : Pushed mallocs heap cache) :
    ∃ file list, Represents heap cache.list file list ∧ cache.size = file.size := by
  induction pushed with
  | start => exact ⟨_, _, represents_empty, rfl⟩
  | @push _ _ _ _ _ _ _ data _ bounded returned induction =>
      rcases induction with ⟨file, list, represents, sameSize⟩
      rcases filecachePush_refines mallocs represents sameSize data bounded with
        ⟨_, _, _, list', result, represents', sameSize'⟩
      rw [returned, Option.some.injEq, Prod.mk.injEq, Prod.mk.injEq] at result
      rcases result with ⟨_, rfl, rfl⟩
      exact ⟨_, list', represents', sameSize'⟩

/-- The list stays sorted by block number and holds every block it held. Bytes
outside the range are unchanged in the old blocks and zero in the new ones. -/
def Framed (offset len : Nat) (heap : Heap) (cache : FileCache) (heap' : Heap)
    (cache' : FileCache) : Prop :=
  ∃ before after,
    Chain heap.nodes LinkedList.next cache.list before ∧
    Chain heap'.nodes LinkedList.next cache'.list after ∧
    after.Pairwise (fun left right => left.2.blockid < right.2.blockid) ∧
    (∀ addr node, (addr, node) ∈ before → ∃ node', (addr, node') ∈ after ∧
      node'.blockid = node.blockid ∧
      ∀ index < cacheBlockSz, Outside offset len node.blockid index →
        node'.data index = node.data index) ∧
    ∀ addr node, (addr, node) ∈ after → addr ∉ before.map Prod.fst →
      ∀ index < cacheBlockSz, Outside offset len node.blockid index → node.data index = 0

/-- After any run, a call of `filecache_push` returns, early or not, and keeps
the frame of its range. -/
theorem filecachePush_frame {mallocs : Nat → Bool} {heap : Heap} {cache : FileCache}
    (pushed : Pushed mallocs heap cache) {offset len : Nat}
    (bounded : offset + len ≤ 65535 * cacheBlockSz) (data : Nat → UInt8) :
    ∃ ret heap' cache', filecachePush mallocs heap cache offset len data =
        some (ret, heap', cache') ∧
      Framed offset len heap cache heap' cache' := by
  rcases pushed.represents with ⟨file, before, represents, sameSize⟩
  rcases filecachePush_refines mallocs represents sameSize data bounded with
    ⟨ret, heap', cache', after, result, represents', _⟩
  have frame : BlockFile.Frame offset len file (file.push mallocs offset len data) :=
    .push mallocs file data
  refine ⟨ret, heap', cache', result, before, after, represents.chain, represents'.chain,
    represents'.sorted, fun addr node member => ?_, fun addr node member isNew => ?_⟩
  · rcases frame.kept _ _ (represents.lookup_eq_some member) with ⟨kept, held, same⟩
    rw [← SortedMap.mem_entries_iff, ← represents'.entries] at held
    rcases List.mem_map.mp held with ⟨⟨addr', node'⟩, inAfter, isEntry⟩
    simp only [blockEntry, Prod.mk.injEq] at isEntry
    rcases isEntry with ⟨sameBlock, rfl, rfl⟩
    exact ⟨node', inAfter, sameBlock, same⟩
  · refine frame.fresh _ _ ?_ (represents'.lookup_eq_some member)
    cases held : file.blocks.lookup node.blockid with
    | none => rfl
    | some block =>
        rcases frame.kept _ _ held with ⟨kept, heldAfter, _⟩
        rw [represents'.lookup_eq_some member, Option.some.injEq, Prod.mk.injEq] at heldAfter
        rw [← SortedMap.mem_entries_iff, ← represents.entries] at held
        rcases List.mem_map.mp held with ⟨⟨addr', node'⟩, inBefore, isEntry⟩
        simp only [blockEntry, Prod.mk.injEq] at isEntry
        refine absurd ?_ isNew
        rw [heldAfter.1, ← isEntry.2]
        exact List.mem_map_of_mem (f := Prod.fst) inBefore

/-- Ten bytes across a block boundary, with no memory for the second block. -/
theorem filecachePush_frame_boundary :
    ∃ ret heap' cache', filecachePush (fun call => call == 0) ⟨fun _ => none, 0⟩ ⟨0, none⟩ 60 10
        (fun _ => 1) = some (ret, heap', cache') ∧
      Framed 60 10 ⟨fun _ => none, 0⟩ ⟨0, none⟩ heap' cache' :=
  filecachePush_frame .start (by decide) fun _ => 1

end EspSqlite.Journal
