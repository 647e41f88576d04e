import EspSqlite.Journal.Refine

/-! # The chunk loops

The chunks that the loops of `filecache_pull` and `filecache_push` visit, on any
list that ends, and what a read of a sorted list copies. -/

namespace EspSqlite.Journal

open HeapList

/-- The list from `start` on ends, and `sqlite3_malloc` has returned its blocks. -/
structure Linked (heap : Heap) (start : Option Nat) (list : List (Nat × LinkedList)) : Prop where
  chain : Chain heap.nodes LinkedList.next start list
  allocated : ∀ addr ∈ list.map Prod.fst, addr < heap.calls

/-! ## Lists that end -/

section Lists

variable {mallocs : Nat → Bool} {heap : Heap} {start : Option Nat}
  {list : List (Nat × LinkedList)} {position count : Nat} {source : Nat → UInt8}

private theorem Linked.calls_notMem (linked : Linked heap start list) :
    heap.calls ∉ list.map Prod.fst :=
  fun member => Nat.lt_irrefl _ (linked.allocated _ member)

private theorem Linked.allocate (linked : Linked heap start list) :
    Linked { heap with calls := heap.calls + 1 } start list where
  chain := linked.chain
  allocated addr member := Nat.lt_succ_of_lt (linked.allocated addr member)

private theorem Linked.leak (linked : Linked heap start list) (node : LinkedList) :
    Linked (Heap.set { heap with calls := heap.calls + 1 } heap.calls node) start list where
  chain := Segment.update_other linked.chain linked.calls_notMem
  allocated addr member := Nat.lt_succ_of_lt (linked.allocated addr member)

private theorem Linked.insertFirst (linked : Linked heap start list) {new : LinkedList}
    (toRest : new.next = start) :
    Linked (Heap.set { heap with calls := heap.calls + 1 } heap.calls new) (some heap.calls)
      ((heap.calls, new) :: list) where
  chain := Chain.insertFirst linked.chain linked.calls_notMem toRest
  allocated := by
    intro addr member
    rcases List.mem_cons.mp member with rfl | inList
    · exact Nat.lt_succ_self heap.calls
    · exact Nat.lt_succ_of_lt (linked.allocated addr inList)

section Node

variable {before after : List (Nat × LinkedList)} {addr : Nat} {node : LinkedList}
  (linked : Linked heap start (before ++ (addr, node) :: after))

include linked

private theorem Linked.suffix : Linked heap (some addr) ((addr, node) :: after) := by
  rcases segment_append.mp linked.chain with ⟨_, _, isHere, found, rest⟩
  refine ⟨⟨rfl, found, rest⟩, fun other member => linked.allocated other ?_⟩
  rw [List.map_append]
  exact List.mem_append_right _ member

private theorem Linked.replace {new : LinkedList} (sameNext : new.next = node.next) :
    Linked (heap.set addr new) start (before ++ (addr, new) :: after) where
  chain := linked.chain.replace sameNext
  allocated other member := by
    apply linked.allocated other
    simpa using member

private theorem Linked.insertAfter {new linkedNode : LinkedList} (toRest : new.next = node.next)
    (toNew : linkedNode.next = some heap.calls) :
    Linked ((Heap.set { heap with calls := heap.calls + 1 } heap.calls new).set addr linkedNode)
      start (before ++ (addr, linkedNode) :: (heap.calls, new) :: after) where
  chain := linked.chain.insertAfter linked.calls_notMem toRest toNew
  allocated other member := by
    have inOld : other = heap.calls ∨ other ∈ (before ++ (addr, node) :: after).map Prod.fst := by
      simp only [List.map_append, List.map_cons, List.mem_append, List.mem_cons] at member ⊢
      tauto
    rcases inOld with rfl | inOld
    · exact Nat.lt_succ_self heap.calls
    · exact Nat.lt_succ_of_lt (linked.allocated other inOld)

end Node

/-- What `linkedlist_store` returns, and that the lists from `start` and from the
block that it leaves in `*leaf` still end. -/
private def StoresLinked (mallocs : Nat → Bool) (heap : Heap) (start leaf : Option Nat)
    (position count : Nat) (source : Nat → UInt8) : Prop :=
  ∃ ret leaf' heap',
    linkedlistStore mallocs heap leaf position count source = some (ret, leaf', heap') ∧
    (ret = sqliteNomem ∨ ret = count) ∧ (∃ list, Linked heap' start list) ∧
    (leaf' = leaf ∨ ∃ list, Linked heap' leaf' list)

private theorem store_none (linked : Linked heap none []) :
    StoresLinked mallocs heap none none position count source := by
  cases blank : isBlank source with
  | true =>
      refine ⟨count, none, heap, ?_, Or.inr rfl, ⟨_, linked⟩, Or.inl rfl⟩
      simp only [linkedlistStore, blank, if_true]
  | false =>
      cases allocates : mallocs heap.calls with
      | false =>
          refine ⟨sqliteNomem, none, _, ?_, Or.inl rfl, ⟨_, linked.allocate⟩, Or.inl rfl⟩
          simp only [linkedlistStore, blank, Bool.false_eq_true, if_false, Heap.malloc, allocates]
      | true =>
          refine ⟨count, some heap.calls, _, ?_, Or.inr rfl,
            ⟨_, linked.leak ⟨position / cacheBlockSz % 2 ^ 16, none,
              memcpy (fun _ => 0) (position % cacheBlockSz) source count⟩⟩,
            Or.inr ⟨_, linked.insertFirst rfl⟩⟩
          simp only [linkedlistStore, blank, Bool.false_eq_true, if_false, Heap.malloc, allocates,
            if_true]

private theorem store_linked {before after : List (Nat × LinkedList)} {addr : Nat}
    {node : LinkedList} (linked : Linked heap start (before ++ (addr, node) :: after)) :
    StoresLinked mallocs heap start (some addr) position count source := by
  have found := linked.suffix.chain.2.1
  cases blank : isBlank source with
  | true =>
      refine ⟨count, some addr, heap, ?_, Or.inr rfl, ⟨_, linked⟩, Or.inl rfl⟩
      simp only [linkedlistStore, blank, if_true]
  | false =>
      by_cases here : node.blockid = position / cacheBlockSz % 2 ^ 16
      · refine ⟨count, some addr, heap.set addr { node with
            data := memcpy node.data (position % cacheBlockSz) source count }, ?_, Or.inr rfl,
          ⟨_, linked.replace rfl⟩, Or.inl rfl⟩
        simp only [linkedlistStore, blank, Bool.false_eq_true, if_false, found,
          Option.bind_some, here, if_true]
      · cases allocates : mallocs heap.calls with
        | false =>
            refine ⟨sqliteNomem, some addr, _, ?_, Or.inl rfl, ⟨_, linked.allocate⟩, Or.inl rfl⟩
            simp only [linkedlistStore, blank, Bool.false_eq_true, if_false, found,
              Option.bind_some, here, Heap.malloc, allocates]
        | true =>
            by_cases below : position / cacheBlockSz % 2 ^ 16 > node.blockid
            · refine ⟨count, some addr,
                (Heap.set { heap with calls := heap.calls + 1 } heap.calls
                  ⟨position / cacheBlockSz % 2 ^ 16, node.next,
                    memcpy (fun _ => 0) (position % cacheBlockSz) source count⟩).set
                  addr { node with next := some heap.calls }, ?_, Or.inr rfl,
                ⟨_, linked.insertAfter rfl rfl⟩, Or.inl rfl⟩
              simp only [linkedlistStore, blank, Bool.false_eq_true, if_false, found,
                Option.bind_some, here, Heap.malloc, allocates, if_true, below]
            · refine ⟨count, some heap.calls, _, ?_, Or.inr rfl,
                ⟨_, linked.leak ⟨position / cacheBlockSz % 2 ^ 16, some addr,
                  memcpy (fun _ => 0) (position % cacheBlockSz) source count⟩⟩,
                Or.inr ⟨_, linked.suffix.insertFirst rfl⟩⟩
              simp only [linkedlistStore, blank, Bool.false_eq_true, if_false, found,
                Option.bind_some, here, Heap.malloc, allocates, if_true, below]

/-- One round of `filecache_push` up to its return. The block found is the first
one as long as `updateroot` is set. -/
private theorem round_linked (mallocs : Nat → Bool) (position count : Nat) (source : Nat → UInt8)
    (updateroot : Bool) (linked : Linked heap start list) :
    ∃ leaf updateroot',
      findLeaf heap position (heap.calls + 1) start updateroot = some (leaf, updateroot') ∧
      (updateroot' = true → leaf = start) ∧
      StoresLinked mallocs heap start leaf position count source := by
  have length := linked.chain.length_le fun entry member =>
    linked.allocated _ (List.mem_map_of_mem member)
  by_cases isNil : list = []
  · subst isNil
    have isNone : start = none := linked.chain
    subst isNone
    exact ⟨none, updateroot, rfl, fun _ => rfl, store_none linked⟩
  · rcases findLeaf_chain position updateroot linked.chain (Nat.lt_succ_of_le length) isNil with
      ⟨before, addr, node, after, rfl, result, _⟩
    refine ⟨some addr, _, result, fun stayed => ?_, store_linked linked⟩
    rw [Bool.and_eq_true, List.isEmpty_iff] at stayed
    have isStart := linked.chain
    rw [stayed.2] at isStart
    exact isStart.1.symm

end Lists

/-! ## The chunks visited -/

/-- Rounds one after the other from `start` to `stop`, none of them empty and
each inside one block. -/
def RoundsTile : (start : Nat) → List Round → (stop : Nat) → Prop
  | start, [], stop => start = stop
  | start, round :: rest, stop =>
      round.relaoffset = start ∧ 0 < round.relalen ∧
        start % cacheBlockSz + round.relalen ≤ cacheBlockSz ∧
        RoundsTile (start + round.relalen) rest stop

def roundOf (offset : Nat) (chunk : Chunk) : Round := ⟨offset + chunk.start, chunk.count⟩

theorem roundsTile_of_tiles {offset : Nat} {list : List Chunk} : ∀ {start stop : Nat},
    Tiles cacheBlockSz offset start list stop → (∀ chunk ∈ list, 0 < chunk.count) →
    RoundsTile (offset + start) (list.map (roundOf offset)) (offset + stop) := by
  induction list with
  | nil => exact fun tiles _ => congrArg (offset + ·) tiles
  | cons chunk rest induction =>
      intro start stop tiles nonempty
      rcases tiles with ⟨isStart, inBlock, _, later⟩
      refine ⟨congrArg (offset + ·) isStart, nonempty chunk List.mem_cons_self, inBlock, ?_⟩
      rw [roundOf, Nat.add_assoc]
      exact induction later fun other member => nonempty other (List.mem_cons_of_mem chunk member)

theorem pullLoop_chunks {heap : Heap} {cache : FileCache} {list : List (Nat × LinkedList)}
    (linked : Linked heap cache.list list) (some' : list ≠ []) {offset len : Nat} :
    ∀ (rounds r : Nat) (data : Nat → UInt8), ∃ after,
      pullLoop heap cache offset len rounds r data =
        some ((chunks cacheBlockSz offset len rounds r).map (roundOf offset), after)
  | 0, _, data => ⟨data, rfl⟩
  | rounds + 1, r, data => by
      have length := linked.chain.length_le fun entry member =>
        linked.allocated _ (List.mem_map_of_mem member)
      rcases findLeaf_chain (offset + r) false linked.chain (Nat.lt_succ_of_le length) some' with
        ⟨before, addr, node, after, rfl, result, _⟩
      have found := linked.suffix.chain.2.1
      simp only [pullLoop, result, Option.bind_some, found, chunks, List.map_cons]
      rcases pullLoop_chunks linked some' rounds
        (r + min (len - r) (cacheBlockSz - (offset + r) % cacheBlockSz)) _ with ⟨copied, later⟩
      rw [later]
      exact ⟨copied, rfl⟩

theorem pushLoop_chunks (mallocs : Nat → Bool) {offset len : Nat} (data : Nat → UInt8) :
    ∀ (rounds : Nat) (s : PushState), (∃ list, Linked s.heap s.list list) →
    ∃ visited exits s', pushLoop mallocs offset len data rounds s = some (visited, exits, s') ∧
      (exits = false →
        visited = (chunks cacheBlockSz offset len rounds s.r).map (roundOf offset))
  | 0, s, _ => ⟨[], false, s, rfl, fun _ => rfl⟩
  | rounds + 1, s, ⟨list, linked⟩ => by
      have fits : ¬min (len - s.r) (cacheBlockSz - (offset + s.r) % cacheBlockSz) > cacheBlockSz :=
        by omega
      rcases round_linked mallocs (offset + s.r)
        (min (len - s.r) (cacheBlockSz - (offset + s.r) % cacheBlockSz))
        (fun index => data (s.r + index)) s.updateroot linked with
        ⟨leaf, updateroot, result, rooted, ret, leaf', heap', stored, returned, fromStart, fromLeaf⟩
      simp only [pushLoop, result, Option.bind_some, if_neg fits, stored]
      by_cases nomem : ret = sqliteNomem
      · simp only [nomem, if_true]
        exact ⟨_, _, _, rfl, fun goesOn => by cases goesOn⟩
      · have isCount := returned.resolve_left nomem
        have next : ∃ list', Linked heap' (if updateroot = true then leaf' else s.list) list' := by
          cases root : updateroot with
          | false => simpa using fromStart
          | true =>
              rcases fromLeaf with same | ended
              · simpa [same, rooted root] using fromStart
              · simpa using ended
        rcases pushLoop_chunks mallocs data rounds
          ⟨heap', if updateroot = true then leaf' else s.list, s.r + ret, updateroot⟩ next with
          ⟨visited, exits, s', pushed, complete⟩
        simp only [nomem, if_false]
        refine ⟨_, exits, s', congrArg (Option.map _) pushed, fun goesOn => ?_⟩
        rw [complete goesOn, isCount]
        rfl

/-- Both loops visit the same chunks, which cut the range of the request into
consecutive parts of blocks, down to its last byte. -/
theorem chunkLoops_tile {offset len : Nat} (nonempty : 0 < len)
    (spans : offset % cacheBlockSz + len ≤ 65535 * cacheBlockSz) (noWrap : offset + len < 2 ^ 32) :
    ∃ rounds : List Round, RoundsTile offset rounds (offset + len) ∧
      (∀ round ∈ rounds, round.relaoffset + round.relalen < 2 ^ 32) ∧
      (∀ heap cache list data, Linked heap cache.list list → list ≠ [] →
        ∃ after, filecachePullRounds heap cache offset len data = some (rounds, after) ∧
          filecachePull heap cache offset len data = some after) ∧
      ∀ mallocs heap cache list data, Linked heap cache.list list →
        ∃ visited exits result,
          filecachePushRounds mallocs heap cache offset len data =
            some (visited, exits, result) ∧
          filecachePush mallocs heap cache offset len data = some result ∧
          (exits = false → visited = rounds) := by
  have something : ¬offset % cacheBlockSz + len = 0 := by omega
  have tiles := BlockFile.chunksOf_tiles offset len
  refine ⟨(BlockFile.chunksOf offset len).map (roundOf offset), ?_, ?_, ?_, ?_⟩
  · exact roundsTile_of_tiles tiles (chunks_count_pos (by decide) nonempty)
  · intro round member
    rcases List.mem_map.mp member with ⟨chunk, inChunks, rfl⟩
    have inRange := (tiles.mem chunk inChunks).2.1
    simp only [roundOf]
    omega
  · intro heap cache list data linked some'
    have isSome : cache.list ≠ none := by
      intro isNone
      have chain := linked.chain
      rw [isNone] at chain
      exact some' (Chain.unique chain rfl)
    have visits : ∃ after, filecachePullRounds heap cache offset len data =
        some ((BlockFile.chunksOf offset len).map (roundOf offset), after) := by
      rw [filecachePullRounds, if_neg something, if_neg isSome, roundCount_eq spans]
      exact pullLoop_chunks linked some' _ 0 data
    rcases visits with ⟨after, visited⟩
    exact ⟨after, visited, congrArg (Option.map Prod.snd) visited⟩
  · intro mallocs heap cache list data linked
    rcases pushLoop_chunks mallocs data (blockCount cacheBlockSz offset len)
      ⟨heap, cache.list, 0, true⟩ ⟨list, linked⟩ with ⟨visited, exits, s', pushed, complete⟩
    rw [filecachePush, filecachePushRounds, if_neg something, roundCount_eq spans, pushed,
      Option.map_some]
    cases exits with
    | true => exact ⟨_, _, _, rfl, rfl, fun goesOn => by cases goesOn⟩
    | false => exact ⟨_, _, _, rfl, rfl, fun _ => complete rfl⟩

def oneBlock : Heap := ⟨fun addr => if addr = 0 then some ⟨0, none, fun _ => 1⟩ else none, 1⟩

theorem oneBlock_linked : Linked oneBlock (some 0) [(0, ⟨0, none, fun _ => 1⟩)] :=
  ⟨⟨rfl, rfl, rfl⟩, by simp [oneBlock]⟩

/-- Ten bytes over a boundary. -/
theorem chunkLoops_tile_boundary : ∃ rounds after, RoundsTile 60 rounds (60 + 10) ∧
    filecachePullRounds oneBlock ⟨70, some 0⟩ 60 10 (fun _ => 0) = some (rounds, after) := by
  rcases chunkLoops_tile (show 0 < 10 by decide)
    (show 60 % cacheBlockSz + 10 ≤ 65535 * cacheBlockSz by decide)
    (show 60 + 10 < 2 ^ 32 by decide) with ⟨rounds, tile, _, pulls, _⟩
  rcases pulls oneBlock ⟨70, some 0⟩ _ (fun _ => 0) oneBlock_linked (by simp) with
    ⟨after, pulled, _⟩
  exact ⟨rounds, after, tile, pulled⟩

/-! ## What a read copies -/

/-- `filecache_pull` is a lookup of every byte: it copies the byte of the block
with its number, and leaves the destination alone where there is none and from
`len` on. -/
theorem filecachePull_pointwise {heap : Heap} {cache : FileCache}
    {list : List (Nat × LinkedList)} (linked : Linked heap cache.list list)
    (increasing : list.Pairwise fun left right => left.2.blockid < right.2.blockid)
    {offset len : Nat} (bounded : offset + len ≤ 65535 * cacheBlockSz) (data : Nat → UInt8) :
    ∃ after, filecachePull heap cache offset len data = some after ∧
      (∀ index < len,
        (∀ entry ∈ list, entry.2.blockid = (offset + index) / cacheBlockSz →
          after index = entry.2.data ((offset + index) % cacheBlockSz)) ∧
        ((∀ entry ∈ list, entry.2.blockid ≠ (offset + index) / cacheBlockSz) →
          after index = data index)) ∧
      ∀ index, len ≤ index → after index = data index := by
  let file : BlockFile :=
    ⟨⟨list.map blockEntry, List.pairwise_map.mpr increasing⟩, cache.size, heap.calls⟩
  have represents : Represents heap cache.list file list :=
    ⟨linked.chain, rfl, rfl, fun entry member =>
      linked.allocated _ (List.mem_map_of_mem member)⟩
  refine ⟨file.pull offset len data,
    filecachePull_refines represents data (spans_of_bounded bounded), fun index inside => ?_,
    fun index beyond => if_neg (Nat.not_lt_of_le beyond)⟩
  rw [BlockFile.pull, if_pos inside, BlockFile.byteAt, BlockFile.bytes]
  constructor
  · intro entry member isBlock
    rw [← isBlock, represents.lookup_eq_some member]
    rfl
  · intro absent
    rw [represents.lookup_eq_none absent]
    rfl

theorem filecachePull_pointwise_ones : ∃ after,
    filecachePull oneBlock ⟨64, some 0⟩ 60 10 (fun _ => 9) = some after ∧
      after 3 = 1 ∧ after 4 = 9 := by
  rcases filecachePull_pointwise (show Linked oneBlock (FileCache.mk 64 (some 0)).list _ from
      oneBlock_linked) (by simp) (show 60 + 10 ≤ 65535 * cacheBlockSz by decide) (fun _ => 9) with
    ⟨after, pulled, bytes, _⟩
  refine ⟨after, pulled, ?_, ?_⟩
  · exact (bytes 3 (by decide)).1 (0, ⟨0, none, fun _ => 1⟩) (by simp) (by decide)
  · exact (bytes 4 (by decide)).2 (by simp [cacheBlockSz])

end EspSqlite.Journal
