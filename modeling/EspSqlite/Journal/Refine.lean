import EspSqlite.Journal.Blocks

/-! # The linked list refines the map

`filecache_push` and `filecache_pull` on the heap do what `push` and `pull` do
on the map. -/

namespace EspSqlite.Journal

open HeapList

def blockEntry (entry : Nat × LinkedList) : Nat × Block :=
  (entry.2.blockid, entry.1, entry.2.data)

/-- The list from `start` on holds the blocks of the map, at addresses that
`sqlite3_malloc` has returned. -/
structure Represents (heap : Heap) (start : Option Nat) (file : BlockFile)
    (list : List (Nat × LinkedList)) : Prop where
  chain : Chain heap.nodes LinkedList.next start list
  entries : list.map blockEntry = file.blocks.entries
  calls : heap.calls = file.calls
  fresh : ∀ entry ∈ list, entry.1 < heap.calls

theorem Represents.sorted {heap : Heap} {start : Option Nat} {file : BlockFile}
    {list : List (Nat × LinkedList)} (represents : Represents heap start file list) :
    list.Pairwise fun left right => left.2.blockid < right.2.blockid := by
  have sorted := file.blocks.sorted
  rw [← represents.entries, List.pairwise_map] at sorted
  exact sorted

theorem Represents.lookup_eq_some {heap : Heap} {start : Option Nat} {file : BlockFile}
    {list : List (Nat × LinkedList)} (represents : Represents heap start file list)
    {addr : Nat} {node : LinkedList} (member : (addr, node) ∈ list) :
    file.blocks.lookup node.blockid = some (addr, node.data) := by
  rw [← file.blocks.mem_entries_iff, ← represents.entries]
  exact List.mem_map_of_mem (f := blockEntry) member

theorem Represents.lookup_eq_none {heap : Heap} {start : Option Nat} {file : BlockFile}
    {list : List (Nat × LinkedList)} (represents : Represents heap start file list)
    {blockid : Nat} (absent : ∀ entry ∈ list, entry.2.blockid ≠ blockid) :
    file.blocks.lookup blockid = none := by
  cases found : file.blocks.lookup blockid with
  | none => rfl
  | some block =>
      have member := (file.blocks.mem_entries_iff blockid block).mpr found
      rw [← represents.entries] at member
      rcases List.mem_map.mp member with ⟨entry, inList, isEntry⟩
      exact absurd (congrArg Prod.fst isEntry) (absent entry inList)

/-! ## The search -/

/-- On any list that ends the search ends at a block whose successor starts after
`relaoffset`, the first one or one that does not start after it. It clears
`updateroot` when it leaves the first block. -/
theorem findLeaf_chain {heap : Heap} (relaoffset : Nat) {list : List (Nat × LinkedList)} :
    ∀ {fuel : Nat} {start : Option Nat} (updateroot : Bool),
    Chain heap.nodes LinkedList.next start list → list.length < fuel → list ≠ [] →
    ∃ before addr node after, list = before ++ (addr, node) :: after ∧
      findLeaf heap relaoffset fuel start updateroot =
        some (some addr, updateroot && before.isEmpty) ∧
      (before ≠ [] → node.blockid * cacheBlockSz ≤ relaoffset) ∧
      ∀ entry ∈ after.head?, relaoffset < entry.2.blockid * cacheBlockSz := by
  induction list with
  | nil => exact fun _ _ _ some' => absurd rfl some'
  | cons head rest induction =>
      rcases head with ⟨addr, node⟩
      intro fuel start updateroot whole enough _
      rcases whole with ⟨isHead, found, chain⟩
      rcases fuel with _ | fuel
      · omega
      · subst isHead
        cases rest with
        | nil =>
            have atEnd : node.next = none := chain
            refine ⟨[], addr, node, [], rfl, ?_, fun some' => absurd rfl some', by simp⟩
            simp [findLeaf, found, atEnd]
        | cons second rest =>
            rcases second with ⟨nextAddr, nextNode⟩
            have isNext := chain.1
            have foundNext := chain.2.1
            by_cases beyond : nextNode.blockid * cacheBlockSz > relaoffset
            · refine ⟨[], addr, node, (nextAddr, nextNode) :: rest, rfl, ?_,
                fun some' => absurd rfl some', fun entry isEntry => ?_⟩
              · simp [findLeaf, found, isNext, foundNext, beyond]
              · rw [List.head?_cons, Option.mem_some_iff] at isEntry
                rwa [← isEntry]
            · rcases induction false ⟨rfl, foundNext, chain.2.2⟩ (Nat.lt_of_succ_lt_succ enough)
                (List.cons_ne_nil _ _) with
                ⟨before, leafAddr, leaf, after, split, result, notAfter, later⟩
              refine ⟨(addr, node) :: before, leafAddr, leaf, after, ?_, ?_, fun _ => ?_, later⟩
              · rw [split]
                rfl
              · simp only [findLeaf, found, Option.bind_some, isNext, foundNext, beyond,
                  if_false, result, Bool.false_and, List.isEmpty_cons, Bool.and_false]
              · by_cases isNil : before = []
                · rw [isNil, List.nil_append, List.cons.injEq, Prod.mk.injEq] at split
                  rw [← split.1.2]
                  exact Nat.le_of_not_lt beyond
                · exact notAfter isNil

theorem findLeaf_eq {heap : Heap} (relaoffset : Nat) {list : List (Nat × LinkedList)} {fuel : Nat}
    {start : Option Nat} (updateroot : Bool) (chain : Chain heap.nodes LinkedList.next start list)
    (sorted : list.Pairwise fun left right => left.2.blockid < right.2.blockid)
    (enough : list.length < fuel) (some' : list ≠ []) :
    ∃ before addr node after, list = before ++ (addr, node) :: after ∧
      findLeaf heap relaoffset fuel start updateroot =
        some (some addr, updateroot && before.isEmpty) ∧
      (before ≠ [] → node.blockid * cacheBlockSz ≤ relaoffset) ∧
      ∀ entry ∈ after, relaoffset < entry.2.blockid * cacheBlockSz := by
  rcases findLeaf_chain relaoffset updateroot chain enough some' with
    ⟨before, addr, node, after, rfl, result, notAfter, next⟩
  refine ⟨before, addr, node, after, rfl, result, notAfter, ?_⟩
  have afterSorted := (List.pairwise_cons.mp (List.pairwise_append.mp sorted).2.1).2
  cases after with
  | nil => simp
  | cons first rest =>
      intro entry member
      have beyond := next first rfl
      rcases List.mem_cons.mp member with rfl | inRest
      · exact beyond
      · have later := (List.pairwise_cons.mp afterSorted).1 entry inRest
        exact Nat.lt_of_lt_of_le beyond (Nat.mul_le_mul_right cacheBlockSz (Nat.le_of_lt later))

private theorem absent_of_split {heap : Heap} {start : Option Nat} {file : BlockFile}
    {before after : List (Nat × LinkedList)} {addr : Nat} {node : LinkedList} {blockid : Nat}
    (represents : Represents heap start file (before ++ (addr, node) :: after))
    (upTo : before ≠ [] → node.blockid ≤ blockid)
    (above : ∀ entry ∈ after, blockid < entry.2.blockid) (other : node.blockid ≠ blockid) :
    ∀ entry ∈ before ++ (addr, node) :: after, entry.2.blockid ≠ blockid := by
  have sorted := represents.sorted
  rw [List.pairwise_append] at sorted
  intro entry member
  rcases List.mem_append.mp member with inBefore | inRest
  · have earlier := sorted.2.2 entry inBefore (addr, node) List.mem_cons_self
    have bound := upTo (List.ne_nil_of_mem inBefore)
    simp only at earlier
    omega
  · rcases List.mem_cons.mp inRest with rfl | inAfter
    · exact other
    · exact Nat.ne_of_gt (above entry inAfter)

/-! ## Edits of the list -/

section Edit

variable {heap : Heap} {start : Option Nat} {file : BlockFile} {position count : Nat}
  {source : Nat → UInt8}

private theorem put_entries :
    (file.put position count source).blocks.entries =
      SortedMap.changeEntry (position / cacheBlockSz) (fun old =>
        match old with
        | none => (file.calls, memcpy (fun _ => 0) (position % cacheBlockSz) source count)
        | some block => (block.1, memcpy block.2 (position % cacheBlockSz) source count))
        file.blocks.entries :=
  rfl

private theorem Represents.replace {before after : List (Nat × LinkedList)} {addr : Nat}
    {node : LinkedList}
    (represents : Represents heap start file (before ++ (addr, node) :: after))
    (here : node.blockid = position / cacheBlockSz) :
    Represents
      (heap.set addr { node with data := memcpy node.data (position % cacheBlockSz) source count })
      start (file.put position count source)
      (before ++ (addr, { node with
        data := memcpy node.data (position % cacheBlockSz) source count }) :: after) where
  chain := represents.chain.replace rfl
  entries := by
    have sorted := represents.sorted
    rw [List.pairwise_append] at sorted
    rw [put_entries, ← represents.entries, List.map_append, List.map_append, List.map_cons,
      List.map_cons, SortedMap.changeEntry_append]
    · simp only [blockEntry, here, SortedMap.changeEntry_here]
    · intro entry member
      rcases List.mem_map.mp member with ⟨old, inBefore, rfl⟩
      rw [← here]
      exact sorted.2.2 old inBefore (addr, node) List.mem_cons_self
  calls := represents.calls
  fresh := by
    intro entry member
    rcases List.mem_append.mp member with inBefore | later
    · exact represents.fresh entry (List.mem_append_left _ inBefore)
    · rcases List.mem_cons.mp later with rfl | inAfter
      · exact represents.fresh (addr, node) (List.mem_append_right _ List.mem_cons_self)
      · exact represents.fresh entry
          (List.mem_append_right _ (List.mem_cons_of_mem _ inAfter))

private theorem Represents.allocate {list : List (Nat × LinkedList)}
    (represents : Represents heap start file list) :
    Represents { heap with calls := heap.calls + 1 } start file.allocate list where
  chain := represents.chain
  entries := represents.entries
  calls := congrArg (· + 1) represents.calls
  fresh entry member := Nat.lt_succ_of_lt (represents.fresh entry member)

private theorem Represents.leak {list : List (Nat × LinkedList)}
    (represents : Represents heap start file list) (node : LinkedList) :
    Represents (Heap.set { heap with calls := heap.calls + 1 } heap.calls node) start
      file.allocate list where
  chain := Segment.update_other represents.chain (notMem_of_below represents.fresh)
  entries := represents.entries
  calls := congrArg (· + 1) represents.calls
  fresh entry member := Nat.lt_succ_of_lt (represents.fresh entry member)

private theorem Represents.insertFirst {list : List (Nat × LinkedList)}
    (represents : Represents heap start file list)
    (above : ∀ entry ∈ list, position / cacheBlockSz < entry.2.blockid) :
    Represents
      (Heap.set { heap with calls := heap.calls + 1 } heap.calls ⟨position / cacheBlockSz, start,
        memcpy (fun _ => 0) (position % cacheBlockSz) source count⟩)
      (some heap.calls) (file.put position count source).allocate
      ((heap.calls, ⟨position / cacheBlockSz, start,
        memcpy (fun _ => 0) (position % cacheBlockSz) source count⟩) :: list) where
  chain := represents.chain.insertFirst (notMem_of_below represents.fresh) rfl
  entries := by
    simp only [BlockFile.allocate]
    rw [put_entries, ← represents.entries, SortedMap.changeEntry_of_above]
    · rw [← represents.calls]
      rfl
    · intro entry member
      rcases List.mem_map.mp member with ⟨old, inList, rfl⟩
      exact above old inList
  calls := congrArg (· + 1) represents.calls
  fresh := by
    intro entry member
    rcases List.mem_cons.mp member with rfl | inList
    · exact Nat.lt_succ_self heap.calls
    · exact Nat.lt_succ_of_lt (represents.fresh entry inList)

private theorem Represents.insertAfter {before after : List (Nat × LinkedList)} {addr : Nat}
    {node : LinkedList}
    (represents : Represents heap start file (before ++ (addr, node) :: after))
    (below : node.blockid < position / cacheBlockSz)
    (above : ∀ entry ∈ after, position / cacheBlockSz < entry.2.blockid) :
    Represents
      ((Heap.set { heap with calls := heap.calls + 1 } heap.calls
        ⟨position / cacheBlockSz, node.next,
          memcpy (fun _ => 0) (position % cacheBlockSz) source count⟩).set
        addr { node with next := some heap.calls })
      start (file.put position count source).allocate
      (before ++ (addr, { node with next := some heap.calls }) ::
        (heap.calls, ⟨position / cacheBlockSz, node.next,
          memcpy (fun _ => 0) (position % cacheBlockSz) source count⟩) :: after) where
  chain := represents.chain.insertAfter (notMem_of_below represents.fresh) rfl rfl
  entries := by
    have sorted := represents.sorted
    rw [List.pairwise_append] at sorted
    have front : (before ++ (addr, node) :: after).map blockEntry =
        (before ++ [(addr, node)]).map blockEntry ++ after.map blockEntry := by
      simp
    simp only [BlockFile.allocate]
    rw [put_entries, ← represents.entries, front, SortedMap.changeEntry_append,
      SortedMap.changeEntry_of_above]
    · rw [← represents.calls]
      simp [blockEntry]
    · intro entry member
      rcases List.mem_map.mp member with ⟨old, inAfter, rfl⟩
      exact above old inAfter
    · intro entry member
      rcases List.mem_map.mp member with ⟨old, inFront, rfl⟩
      rcases List.mem_append.mp inFront with inBefore | isNode
      · exact Nat.lt_trans (sorted.2.2 old inBefore (addr, node) List.mem_cons_self) below
      · rw [List.mem_singleton.mp isNode]
        exact below
  calls := congrArg (· + 1) represents.calls
  fresh := by
    intro entry member
    rcases List.mem_append.mp member with inBefore | later
    · exact Nat.lt_succ_of_lt (represents.fresh entry (List.mem_append_left _ inBefore))
    · rcases List.mem_cons.mp later with rfl | later
      · exact Nat.lt_succ_of_lt (represents.fresh (addr, node)
          (List.mem_append_right _ List.mem_cons_self))
      · rcases List.mem_cons.mp later with rfl | inAfter
        · exact Nat.lt_succ_self heap.calls
        · exact Nat.lt_succ_of_lt (represents.fresh entry
            (List.mem_append_right _ (List.mem_cons_of_mem _ inAfter)))

end Edit

/-! ## One round -/

private def Returned (ends : Bool) (ret count : Nat) : Prop :=
  if ends then ret = sqliteNomem else ret = count ∧ count ≠ sqliteNomem

private theorem returned_count (count : Nat) : Returned (count == sqliteNomem) count count := by
  rw [Returned]
  by_cases seven : count = sqliteNomem
  · simp [seven]
  · simp [seven]

section Round

variable {mallocs : Nat → Bool} {heap : Heap} {start leaf : Option Nat} {file : BlockFile}
  {list : List (Nat × LinkedList)} {position count : Nat} {source : Nat → UInt8}
  {updateroot : Bool}

/-- `linkedlist_store` does on the heap what `storeChunk` does on the map. The
list keeps its first block, or the new block comes before all others while
`updateroot` is set. -/
private def StoreRefines (mallocs : Nat → Bool) (heap : Heap) (start leaf : Option Nat)
    (file : BlockFile) (position count : Nat) (source : Nat → UInt8) (updateroot : Bool) : Prop :=
  ∃ ret leaf' heap' list',
    linkedlistStore mallocs heap leaf position count source = some (ret, leaf', heap') ∧
    Returned (file.storeChunk mallocs position count source).1 ret count ∧
    ((Represents heap' start (file.storeChunk mallocs position count source).2 list' ∧
        ((file.storeChunk mallocs position count source).1 = false → updateroot = true →
          leaf' = start)) ∨
      ((file.storeChunk mallocs position count source).1 = false ∧ updateroot = true ∧
        Represents heap' leaf' (file.storeChunk mallocs position count source).2 list'))

private theorem store_blank (represents : Represents heap start file list)
    (rooted : updateroot = true → leaf = start) (blank : isBlank source = true) :
    StoreRefines mallocs heap start leaf file position count source updateroot := by
  have result : linkedlistStore mallocs heap leaf position count source =
      some (count, leaf, heap) := by
    simp only [linkedlistStore, blank, if_true]
  rw [StoreRefines, BlockFile.storeChunk_blank blank]
  exact ⟨_, _, _, _, result, returned_count count, Or.inl ⟨represents, fun _ => rooted⟩⟩

private theorem store_here {before after : List (Nat × LinkedList)} {addr : Nat}
    {node : LinkedList} (bounded : position / cacheBlockSz < 2 ^ 16)
    (represents : Represents heap start file (before ++ (addr, node) :: after))
    (rooted : updateroot = true → some addr = start)
    (here : node.blockid = position / cacheBlockSz) (shown : isBlank source = false) :
    StoreRefines mallocs heap start (some addr) file position count source updateroot := by
  rcases segment_append.mp represents.chain with ⟨_, _, _, found, _⟩
  have held := represents.lookup_eq_some (List.mem_append_right before List.mem_cons_self)
  rw [here] at held
  have result : linkedlistStore mallocs heap (some addr) position count source =
      some (count, some addr, heap.set addr { node with
        data := memcpy node.data (position % cacheBlockSz) source count }) := by
    simp only [linkedlistStore, shown, Bool.false_eq_true, if_false, found, Option.bind_some,
      Nat.mod_eq_of_lt bounded, here, if_true]
  rw [StoreRefines, BlockFile.storeChunk_here shown held]
  exact ⟨_, _, _, _, result, returned_count count,
    Or.inl ⟨represents.replace here, fun _ => rooted⟩⟩

private theorem store_fails (bounded : position / cacheBlockSz < 2 ^ 16)
    (represents : Represents heap start file list)
    (rooted : updateroot = true → leaf = start)
    (isOther : leaf = none ∨ ∃ addr node, leaf = some addr ∧ heap.nodes addr = some node ∧
      node.blockid ≠ position / cacheBlockSz)
    (absent : file.blocks.lookup (position / cacheBlockSz) = none)
    (shown : isBlank source = false) (fails : mallocs heap.calls = false) :
    StoreRefines mallocs heap start leaf file position count source updateroot := by
  have result : linkedlistStore mallocs heap leaf position count source =
      some (sqliteNomem, leaf, { heap with calls := heap.calls + 1 }) := by
    rcases isOther with rfl | ⟨addr, node, rfl, found, other⟩
    · simp only [linkedlistStore, shown, Bool.false_eq_true, if_false, Heap.malloc, fails]
    · simp only [linkedlistStore, shown, Bool.false_eq_true, if_false, found, Option.bind_some,
        Nat.mod_eq_of_lt bounded, other, Heap.malloc, fails]
  rw [StoreRefines, BlockFile.storeChunk_fails shown absent (represents.calls ▸ fails)]
  exact ⟨_, _, _, _, result, rfl, Or.inl ⟨represents.allocate, fun _ => rooted⟩⟩

private theorem store_after {before after : List (Nat × LinkedList)} {addr : Nat}
    {node : LinkedList} (bounded : position / cacheBlockSz < 2 ^ 16)
    (represents : Represents heap start file (before ++ (addr, node) :: after))
    (rooted : updateroot = true → some addr = start)
    (below : node.blockid < position / cacheBlockSz)
    (above : ∀ entry ∈ after, position / cacheBlockSz < entry.2.blockid)
    (absent : file.blocks.lookup (position / cacheBlockSz) = none)
    (shown : isBlank source = false) (allocates : mallocs heap.calls = true) :
    StoreRefines mallocs heap start (some addr) file position count source updateroot := by
  rcases segment_append.mp represents.chain with ⟨_, _, _, found, _⟩
  have held := represents.lookup_eq_some (List.mem_append_right before List.mem_cons_self)
  have notFirst : file.isFirst (position / cacheBlockSz) = false := by
    rw [Bool.eq_false_iff, ne_eq, BlockFile.isFirst_iff]
    intro absentBelow
    rw [absentBelow node.blockid (Nat.le_of_lt below)] at held
    cases held
  have result : linkedlistStore mallocs heap (some addr) position count source =
      some (count, some addr, (Heap.set { heap with calls := heap.calls + 1 } heap.calls
        ⟨position / cacheBlockSz, node.next,
          memcpy (fun _ => 0) (position % cacheBlockSz) source count⟩).set
        addr { node with next := some heap.calls }) := by
    simp only [linkedlistStore, shown, Bool.false_eq_true, if_false, found, Option.bind_some,
      Nat.mod_eq_of_lt bounded, Nat.ne_of_lt below, Heap.malloc, allocates, if_true, gt_iff_lt,
      below]
  rw [StoreRefines,
    BlockFile.storeChunk_new shown absent (represents.calls ▸ allocates) fun _ => notFirst]
  exact ⟨_, _, _, _, result, returned_count count,
    Or.inl ⟨represents.insertAfter below above, fun _ => rooted⟩⟩

/-- A new block before all others. Nothing links it when the write ends. -/
private theorem store_first (bounded : position / cacheBlockSz < 2 ^ 16)
    (represents : Represents heap start file list) (root : updateroot = true)
    (above : ∀ entry ∈ list, position / cacheBlockSz < entry.2.blockid)
    (shown : isBlank source = false) (allocates : mallocs heap.calls = true) :
    StoreRefines mallocs heap start start file position count source updateroot := by
  have first : file.isFirst (position / cacheBlockSz) = true := by
    rw [BlockFile.isFirst_iff]
    intro other below
    apply represents.lookup_eq_none
    intro entry member
    have later := above entry member
    omega
  have absent := BlockFile.isFirst_iff.mp first (position / cacheBlockSz) (Nat.le_refl _)
  have result : linkedlistStore mallocs heap start position count source =
      some (count, some heap.calls, Heap.set { heap with calls := heap.calls + 1 } heap.calls
        ⟨position / cacheBlockSz, start,
          memcpy (fun _ => 0) (position % cacheBlockSz) source count⟩) := by
    cases list with
    | nil =>
        have isNone : start = none := represents.chain
        subst isNone
        simp only [linkedlistStore, shown, Bool.false_eq_true, if_false, Heap.malloc, allocates,
          if_true, Nat.mod_eq_of_lt bounded]
    | cons head rest =>
        have before := above head List.mem_cons_self
        have notAfter : ¬position / cacheBlockSz > head.2.blockid := by omega
        rw [represents.chain.1]
        simp only [linkedlistStore, shown, Bool.false_eq_true, if_false, represents.chain.2.1,
          Option.bind_some, Nat.mod_eq_of_lt bounded, Nat.ne_of_gt before, Heap.malloc, allocates,
          if_true, notAfter]
  by_cases seven : count = sqliteNomem
  · rw [StoreRefines,
      BlockFile.storeChunk_lost shown (represents.calls ▸ allocates) seven first]
    exact ⟨_, _, _, _, result, seven,
      Or.inl ⟨represents.leak _, fun goesOn => absurd goesOn (by simp)⟩⟩
  · rw [StoreRefines, BlockFile.storeChunk_new shown absent (represents.calls ▸ allocates)
      fun isSeven => absurd isSeven seven]
    exact ⟨_, _, _, _, result, returned_count count,
      Or.inr ⟨by simp [seven], root, represents.insertFirst above⟩⟩

/-- With all blocks after `blockid` the search cannot have left the first one. -/
private theorem updateroot_of_above (represents : Represents heap start file list)
    (past : updateroot = false → file.PastFirst (position / cacheBlockSz))
    (above : ∀ entry ∈ list, position / cacheBlockSz < entry.2.blockid) : updateroot = true := by
  by_contra moved
  rcases past (by simpa using moved) with ⟨low, high, increasing, upTo, holds, _⟩
  refine holds (represents.lookup_eq_none fun entry member => ?_)
  have later := above entry member
  omega

private theorem store_absent (bounded : position / cacheBlockSz < 2 ^ 16)
    (represents : Represents heap start file list)
    (rooted : updateroot = true → leaf = start)
    (isOther : leaf = none ∨ ∃ addr node, leaf = some addr ∧ heap.nodes addr = some node ∧
      node.blockid ≠ position / cacheBlockSz)
    (absent : ∀ entry ∈ list, entry.2.blockid ≠ position / cacheBlockSz)
    (shown : isBlank source = false)
    (allocated : mallocs heap.calls = true →
      StoreRefines mallocs heap start leaf file position count source updateroot) :
    StoreRefines mallocs heap start leaf file position count source updateroot := by
  cases allocates : mallocs heap.calls with
  | true => exact allocated allocates
  | false =>
      exact store_fails bounded represents rooted isOther (represents.lookup_eq_none absent) shown
        allocates

/-- One round of `filecache_push` up to its return: the search, and what
`linkedlist_store` does with the block found. -/
private theorem round_refines (mallocs : Nat → Bool) (count : Nat) (source : Nat → UInt8)
    (represents : Represents heap start file list)
    (bounded : isBlank source = false → position / cacheBlockSz < 2 ^ 16)
    (past : updateroot = false → file.PastFirst (position / cacheBlockSz)) :
    ∃ leaf updateroot',
      findLeaf heap position (heap.calls + 1) start updateroot = some (leaf, updateroot') ∧
      (updateroot' = false → file.PastFirst (position / cacheBlockSz)) ∧
      StoreRefines mallocs heap start leaf file position count source updateroot' := by
  have length := represents.chain.length_le represents.fresh
  by_cases isNil : list = []
  · subst isNil
    have isNone : start = none := represents.chain
    have above : ∀ entry ∈ ([] : List (Nat × LinkedList)),
        position / cacheBlockSz < entry.2.blockid := by simp
    refine ⟨none, updateroot, by rw [isNone]; rfl, past, ?_⟩
    cases shown : isBlank source with
    | true => exact store_blank represents (fun _ => isNone.symm) shown
    | false =>
        refine store_absent (bounded shown) represents (fun _ => isNone.symm) (Or.inl rfl) (by simp)
          shown fun allocates => ?_
        have stored : StoreRefines mallocs heap start start file position count source updateroot :=
          store_first (bounded shown) represents (updateroot_of_above represents past above) above
            shown allocates
        rwa [isNone] at stored ⊢
  · rcases findLeaf_eq position updateroot represents.chain represents.sorted
      (Nat.lt_succ_of_le length) isNil with
      ⟨before, addr, node, after, split, result, notAfter, later⟩
    subst split
    have sorted := represents.sorted
    rw [List.pairwise_append] at sorted
    rcases segment_append.mp represents.chain with ⟨middle, first, isMiddle, found, _⟩
    have above : ∀ entry ∈ after, position / cacheBlockSz < entry.2.blockid := fun entry member =>
      (Nat.div_lt_iff_lt_mul (by decide)).mpr (later entry member)
    have upTo : before ≠ [] → node.blockid ≤ position / cacheBlockSz := fun moved =>
      (Nat.le_div_iff_mul_le (by decide)).mpr (notAfter moved)
    have rooted : (updateroot && before.isEmpty) = true → some addr = start := by
      intro stayed
      rw [Bool.and_eq_true, List.isEmpty_iff] at stayed
      have isStart := first
      rw [stayed.2] at isStart
      exact isMiddle.symm.trans (Eq.symm isStart)
    refine ⟨some addr, _, result, fun moved => ?_, ?_⟩
    · cases root : updateroot with
      | false => exact past root
      | true =>
          rw [root, Bool.true_and] at moved
          cases before with
          | nil => simp at moved
          | cons head before =>
              have low := represents.lookup_eq_some (List.mem_append_left _ List.mem_cons_self)
              have high := represents.lookup_eq_some
                (List.mem_append_right (head :: before) List.mem_cons_self)
              exact ⟨head.2.blockid, node.blockid,
                sorted.2.2 head List.mem_cons_self (addr, node) List.mem_cons_self,
                upTo (List.cons_ne_nil _ _), by simp [low], by simp [high]⟩
    · cases shown : isBlank source with
      | true => exact store_blank represents rooted shown
      | false =>
          rcases Nat.lt_trichotomy node.blockid (position / cacheBlockSz) with below | here | beyond
          · have absent := absent_of_split represents upTo above (Nat.ne_of_lt below)
            exact store_absent (bounded shown) represents rooted
              (Or.inr ⟨addr, node, rfl, found, Nat.ne_of_lt below⟩) absent shown fun allocates =>
              store_after (bounded shown) represents rooted below above
                (represents.lookup_eq_none absent) shown allocates
          · exact store_here (bounded shown) represents rooted here shown
          · have isNil : before = [] := by
              by_contra moved
              have bound := upTo moved
              omega
            subst isNil
            have allAbove : ∀ entry ∈ [] ++ (addr, node) :: after,
                position / cacheBlockSz < entry.2.blockid := by
              intro entry member
              rcases List.mem_cons.mp member with rfl | inAfter
              · exact beyond
              · exact above entry inAfter
            have root := updateroot_of_above represents past allAbove
            have isStart := rooted (by simp [root])
            refine store_absent (bounded shown) represents rooted
              (Or.inr ⟨addr, node, rfl, found, Nat.ne_of_gt beyond⟩)
              (fun entry member => Nat.ne_of_gt (allAbove entry member)) shown fun allocates => ?_
            rw [isStart]
            exact store_first (bounded shown) represents (by simp [root]) allAbove shown allocates

end Round

/-! ## Writing -/

def upToSeven : List Chunk → List Chunk
  | [] => []
  | chunk :: rest => if chunk.count = sqliteNomem then [chunk] else chunk :: upToSeven rest

theorem mem_of_mem_upToSeven {chunk : Chunk} : ∀ {list : List Chunk},
    chunk ∈ upToSeven list → chunk ∈ list
  | [], member => member
  | head :: rest, member => by
      rw [upToSeven] at member
      split at member
      · rw [List.mem_singleton.mp member]
        exact List.mem_cons_self
      · rcases List.mem_cons.mp member with rfl | inRest
        · exact List.mem_cons_self
        · exact List.mem_cons_of_mem head (mem_of_mem_upToSeven inRest)

/-- Every chunk that is stored and not blank lies in a block whose number fits
`blockid`. -/
def Numbered (offset : Nat) (data : Nat → UInt8) (list : List Chunk) : Prop :=
  ∀ chunk ∈ upToSeven list, isBlank (window data chunk) = false →
    (offset + chunk.start) / cacheBlockSz < 2 ^ 16

theorem Numbered.head {offset : Nat} {data : Nat → UInt8} {chunk : Chunk} {rest : List Chunk}
    (numbered : Numbered offset data (chunk :: rest))
    (shown : isBlank (window data chunk) = false) :
    (offset + chunk.start) / cacheBlockSz < 2 ^ 16 := by
  apply numbered chunk _ shown
  rw [upToSeven]
  split <;> exact List.mem_cons_self

theorem Numbered.rest {offset : Nat} {data : Nat → UInt8} {chunk : Chunk} {rest : List Chunk}
    (numbered : Numbered offset data (chunk :: rest)) (goesOn : chunk.count ≠ sqliteNomem) :
    Numbered offset data rest := by
  intro other member
  apply numbered other
  rw [upToSeven, if_neg goesOn]
  exact List.mem_cons_of_mem chunk member

/-- The loop does on the heap what `storeChunks` does on the map, and unless it
returns early it ends with the last chunk. -/
theorem pushLoop_refines (mallocs : Nat → Bool) {offset len : Nat} (data : Nat → UInt8) :
    ∀ (rounds : Nat) (s : PushState) {file : BlockFile} {list : List (Nat × LinkedList)},
    Represents s.heap s.list file list →
    (s.updateroot = false → file.PastFirst ((offset + s.r) / cacheBlockSz)) →
    Numbered offset data (chunks cacheBlockSz offset len rounds s.r) →
    ∃ visited s' list',
      pushLoop mallocs offset len data rounds s =
        some (visited, (file.storeChunks mallocs offset data
          (chunks cacheBlockSz offset len rounds s.r)).1, s') ∧
      Represents s'.heap s'.list (file.storeChunks mallocs offset data
        (chunks cacheBlockSz offset len rounds s.r)).2 list' ∧
      ((file.storeChunks mallocs offset data (chunks cacheBlockSz offset len rounds s.r)).1 =
          false → ∀ stop,
        Tiles cacheBlockSz offset s.r (chunks cacheBlockSz offset len rounds s.r) stop →
        s'.r = stop)
  | 0, s, file, list, represents, _, _ =>
      ⟨[], s, list, rfl, represents, fun _ _ tiles => tiles⟩
  | rounds + 1, s, file, list, represents, past, numbered => by
      obtain ⟨count, isCount⟩ : ∃ count,
          min (len - s.r) (cacheBlockSz - (offset + s.r) % cacheBlockSz) = count := ⟨_, rfl⟩
      have short : ¬count > cacheBlockSz := by omega
      have isWindow : (fun index => data (s.r + index)) = window data ⟨s.r, count⟩ := rfl
      simp only [chunks, isCount] at numbered
      rcases round_refines mallocs count (window data ⟨s.r, count⟩) represents numbered.head
        past with
        ⟨leaf, updateroot', searched, past', ret, leaf', heap', list', stored, returned, either⟩
      have pastStored := fun moved => (past' moved).storeChunk mallocs (offset + s.r) count
        (window data ⟨s.r, count⟩)
      simp only [pushLoop, searched, Option.bind_some, isCount, if_neg short, isWindow, stored,
        chunks, BlockFile.storeChunks]
      generalize file.storeChunk mallocs (offset + s.r) count (window data ⟨s.r, count⟩) =
        result at returned either pastStored ⊢
      rcases result with ⟨ends, file'⟩
      cases ends with
      | true =>
          rcases either with ⟨represents', _⟩ | ⟨goesOn, _⟩
          · have nomem : ret = sqliteNomem := returned
            simp only [nomem, if_true]
            exact ⟨_, _, list', rfl, represents', fun goesOn => by cases goesOn⟩
          · cases goesOn
      | false =>
          rcases returned with ⟨rfl, notNomem⟩
          simp only [notNomem, if_false, Bool.false_eq_true]
          have next :
              Represents heap' (if updateroot' = true then leaf' else s.list) file' list' := by
            rcases either with ⟨represents', sameRoot⟩ | ⟨_, root, represents'⟩
            · cases root : updateroot' with
              | true => simpa [sameRoot rfl root] using represents'
              | false => simpa using represents'
            · simpa [root] using represents'
          have further : (offset + s.r) / cacheBlockSz ≤ (offset + (s.r + ret)) / cacheBlockSz :=
            Nat.div_le_div_right (by omega)
          rcases pushLoop_refines mallocs data rounds
            ⟨heap', if updateroot' = true then leaf' else s.list, s.r + ret, updateroot'⟩ next
            (fun moved => (pastStored moved).mono further) (numbered.rest notNomem) with
            ⟨visited, s', list'', pushed, represents', atEnd⟩
          exact ⟨_, s', list'', congrArg (Option.map _) pushed, represents',
            fun goesOn stop tiles => atEnd goesOn stop tiles.2.2.2⟩

theorem roundCount_eq {offset len : Nat}
    (spans : offset % cacheBlockSz + len ≤ 65535 * cacheBlockSz) :
    roundCount offset len = blockCount cacheBlockSz offset len := by
  rw [roundCount, blockCount]
  simp only [cacheBlockSz] at spans ⊢
  apply Nat.mod_eq_of_lt
  by_cases whole : (offset % 64 + len) % 64 = 0
  · simp only [whole, ne_eq, not_true, if_false]
    omega
  · simp only [whole, ne_eq, not_false_eq_true, if_true]
    omega

theorem spans_of_bounded {offset len : Nat}
    (bounded : offset + len ≤ 65535 * cacheBlockSz) :
    offset % cacheBlockSz + len ≤ 65535 * cacheBlockSz :=
  Nat.le_trans (Nat.add_le_add_right (Nat.mod_le offset cacheBlockSz) len) bounded

theorem numbered_of_bounded {offset len : Nat} (bounded : offset + len ≤ 65535 * cacheBlockSz)
    (data : Nat → UInt8) : Numbered offset data (BlockFile.chunksOf offset len) := by
  intro chunk member _
  have inRange :=
    ((BlockFile.chunksOf_tiles offset len).mem chunk (mem_of_mem_upToSeven member)).2.1
  simp only [cacheBlockSz] at bounded ⊢
  omega

/-- `filecache_push` does on the heap what `push` does on the map. -/
theorem filecachePush_refines_of_numbered (mallocs : Nat → Bool) {heap : Heap} {cache : FileCache}
    {file : BlockFile} {list : List (Nat × LinkedList)}
    (represents : Represents heap cache.list file list) (sameSize : cache.size = file.size)
    {offset len : Nat} {data : Nat → UInt8}
    (spans : offset % cacheBlockSz + len ≤ 65535 * cacheBlockSz)
    (numbered : Numbered offset data (BlockFile.chunksOf offset len)) :
    ∃ ret heap' cache' list',
      filecachePush mallocs heap cache offset len data = some (ret, heap', cache') ∧
      Represents heap' cache'.list (file.push mallocs offset len data) list' ∧
      cache'.size = (file.push mallocs offset len data).size := by
  rw [filecachePush, filecachePushRounds, BlockFile.push]
  by_cases nothing : offset % cacheBlockSz + len = 0
  · rw [if_pos nothing, if_pos nothing]
    exact ⟨_, _, _, list, rfl, represents, sameSize⟩
  · rw [if_neg nothing, if_neg nothing, roundCount_eq spans]
    rcases pushLoop_refines mallocs data (blockCount cacheBlockSz offset len)
      ⟨heap, cache.list, 0, true⟩ represents (fun moved => by cases moved) numbered
      with ⟨visited, s', list', pushed, represents', _⟩
    have size := file.storeChunks_size mallocs offset data (BlockFile.chunksOf offset len)
    have isChunks : chunks cacheBlockSz offset len (blockCount cacheBlockSz offset len) 0 =
        BlockFile.chunksOf offset len := rfl
    simp only [isChunks] at pushed represents'
    rw [pushed, Option.map_some]
    generalize file.storeChunks mallocs offset data (BlockFile.chunksOf offset len) = stored at *
    rcases stored with ⟨ends, file'⟩
    cases ends with
    | true => exact ⟨_, _, _, list', rfl, represents', sameSize.trans size.symm⟩
    | false =>
        simp only at size represents'
        simp only [Bool.false_eq_true, if_false]
        refine ⟨_, _, _, list', rfl, ⟨represents'.chain, represents'.entries, represents'.calls,
          represents'.fresh⟩, ?_⟩
        simp only [sameSize, size]
        split <;> omega

theorem filecachePush_refines (mallocs : Nat → Bool) {heap : Heap} {cache : FileCache}
    {file : BlockFile} {list : List (Nat × LinkedList)}
    (represents : Represents heap cache.list file list) (sameSize : cache.size = file.size)
    {offset len : Nat} (data : Nat → UInt8) (bounded : offset + len ≤ 65535 * cacheBlockSz) :
    ∃ ret heap' cache' list',
      filecachePush mallocs heap cache offset len data = some (ret, heap', cache') ∧
      Represents heap' cache'.list (file.push mallocs offset len data) list' ∧
      cache'.size = (file.push mallocs offset len data).size :=
  filecachePush_refines_of_numbered mallocs represents sameSize (spans_of_bounded bounded)
    (numbered_of_bounded bounded data)

/-! ## Reading -/

private theorem byteAt_of_none {heap : Heap} {file : BlockFile} {list : List (Nat × LinkedList)}
    (represents : Represents heap none file list) (position : Nat) :
    file.byteAt position = none := by
  have isNil : list = [] := by
    cases list with
    | nil => rfl
    | cons head rest => exact absurd represents.chain.1 (by simp)
  subst isNil
  have absent := @Represents.lookup_eq_none _ _ _ _ represents (position / cacheBlockSz) (by simp)
  simp [BlockFile.byteAt, BlockFile.bytes, absent]

private theorem pullLoop_refines {heap : Heap} {cache : FileCache} {file : BlockFile}
    {list : List (Nat × LinkedList)} (represents : Represents heap cache.list file list)
    (some' : list ≠ []) {offset len : Nat} :
    ∀ (rounds r : Nat) (data : Nat → UInt8),
    Tiles cacheBlockSz offset r (chunks cacheBlockSz offset len rounds r) len →
    ∃ visited, pullLoop heap cache offset len rounds r data = some (visited, fun index =>
      if r ≤ index ∧ index < len then (file.byteAt (offset + index)).getD (data index)
      else data index)
  | 0, r, data, tiles => by
      have isEnd : r = len := tiles
      have nothing : ∀ index, ¬(r ≤ index ∧ index < len) := by omega
      refine ⟨[], ?_⟩
      simp only [pullLoop, nothing, if_false]
  | rounds + 1, r, data, tiles => by
      rcases tiles with ⟨_, inBlock, _, later⟩
      simp only at inBlock later
      rcases findLeaf_eq (offset + r) false represents.chain represents.sorted
        (Nat.lt_succ_of_le (represents.chain.length_le represents.fresh)) some' with
        ⟨before, addr, node, after, split, result, notAfter, above⟩
      rw [split] at represents
      rcases segment_append.mp represents.chain with ⟨_, _, _, found, _⟩
      have aboveBlock : ∀ entry ∈ after, (offset + r) / cacheBlockSz < entry.2.blockid :=
        fun entry member => (Nat.div_lt_iff_lt_mul (by decide)).mpr (above entry member)
      have upTo : before ≠ [] → node.blockid ≤ (offset + r) / cacheBlockSz := fun moved =>
        (Nat.le_div_iff_mul_le (by decide)).mpr (notAfter moved)
      have here : node.blockid * cacheBlockSz ≤ offset + r ∧
          offset + r < node.blockid * cacheBlockSz + cacheBlockSz ↔
          node.blockid = (offset + r) / cacheBlockSz := by
        simp only [cacheBlockSz]
        omega
      generalize isCount : min (len - r) (cacheBlockSz - (offset + r) % cacheBlockSz) = count
        at inBlock later
      have byte : ∀ index, r ≤ index → index < r + count →
          file.byteAt (offset + index) = if node.blockid = (offset + r) / cacheBlockSz then
            some (node.data ((offset + r) % cacheBlockSz + (index - r))) else none := by
        intro index after before
        have sameBlock : (offset + index) / cacheBlockSz = (offset + r) / cacheBlockSz := by
          apply div_eq_of_inBlock <;> omega
        have inside : (offset + index) % cacheBlockSz =
            (offset + r) % cacheBlockSz + (index - r) := by
          simp only [cacheBlockSz] at inBlock sameBlock ⊢
          omega
        rw [BlockFile.byteAt, BlockFile.bytes]
        rw [sameBlock, inside]
        by_cases same : node.blockid = (offset + r) / cacheBlockSz
        · have held := represents.lookup_eq_some (List.mem_append_right _ List.mem_cons_self)
          rw [← same, held, if_pos rfl]
          rfl
        · rw [represents.lookup_eq_none (absent_of_split represents upTo aboveBlock same),
            if_neg same]
          rfl
      simp only [pullLoop, result, Option.bind_some, found, isCount, here]
      rw [← split] at represents
      rcases pullLoop_refines represents some' rounds _
        (if node.blockid = (offset + r) / cacheBlockSz
          then memcpy data r (fun index => node.data ((offset + r) % cacheBlockSz + index)) count
          else data) later with ⟨visited, pulled⟩
      refine ⟨⟨offset + r, count⟩ :: visited, ?_⟩
      simp only [pulled, Option.map_some]
      have fits := later.le
      congr 2
      funext index
      by_cases inChunk : r ≤ index ∧ index < r + count
      · have notLater : ¬(r + count ≤ index ∧ index < len) := by omega
        have inRange : r ≤ index ∧ index < len := by omega
        rw [if_neg notLater, if_pos inRange, byte index inChunk.1 inChunk.2]
        split
        · simp only [memcpy, inChunk, and_self, if_true, Option.getD_some]
        · rfl
      · have same : (if node.blockid = (offset + r) / cacheBlockSz then
            memcpy data r (fun index => node.data ((offset + r) % cacheBlockSz + index)) count
            else data) index = data index := by
          split
          · simp only [memcpy, if_neg inChunk]
          · rfl
        have samePart : (r + count ≤ index ∧ index < len) ↔ (r ≤ index ∧ index < len) := by omega
        simp only [same, samePart]

/-- `filecache_pull` does on the heap what `pull` does on the map. -/
theorem filecachePull_refines {heap : Heap} {cache : FileCache} {file : BlockFile}
    {list : List (Nat × LinkedList)} (represents : Represents heap cache.list file list)
    {offset len : Nat} (data : Nat → UInt8)
    (spans : offset % cacheBlockSz + len ≤ 65535 * cacheBlockSz) :
    filecachePull heap cache offset len data = some (file.pull offset len data) := by
  rw [filecachePull, filecachePullRounds]
  by_cases nothing : offset % cacheBlockSz + len = 0
  · have isZero : len = 0 := by omega
    rw [if_pos nothing, Option.map_some]
    congr 1
    funext index
    simp [BlockFile.pull, isZero]
  · rw [if_neg nothing]
    by_cases isNone : cache.list = none
    · rw [if_pos isNone, Option.map_some]
      rw [isNone] at represents
      congr 1
      funext index
      simp [BlockFile.pull, byteAt_of_none represents]
    · have some' : list ≠ [] := by
        intro equal
        subst equal
        exact isNone represents.chain
      rcases pullLoop_refines represents some' _ 0 data (BlockFile.chunksOf_tiles offset len) with
        ⟨visited, pulled⟩
      rw [if_neg isNone, roundCount_eq spans, pulled, Option.map_some]
      simp only [Nat.zero_le, true_and]
      rfl

end EspSqlite.Journal
