import EspSqlite.Foundation.HeapList
import EspSqlite.Foundation.Chunks
import EspSqlite.Foundation.ByteStore

/-! # The in-memory journal file

The file cache of `esp8266.cpp`: a linked list of 64-byte blocks in the heap,
`linkedlist_store`, `filecache_pull`, `filecache_push` and the file methods that
call them. A buffer is a pointer into memory that continues after it. Dangling
pointers and a search that does not end have no defined meaning. -/

namespace EspSqlite.Journal

def cacheBlockSz : Nat := 64

def sqliteNomem : Nat := 7

structure LinkedList where
  blockid : Nat
  next : Option Nat
  data : Nat → UInt8

structure FileCache where
  size : Nat
  list : Option Nat

/-- The blocks in the heap, with the number of calls of `sqlite3_malloc` so far.
The call numbers are the addresses. -/
structure Heap where
  nodes : Nat → Option LinkedList
  calls : Nat

def Heap.set (heap : Heap) (addr : Nat) (node : LinkedList) : Heap :=
  { heap with nodes := Function.update heap.nodes addr (some node) }

/-- `sqlite3_malloc`, where `mallocs` says which calls succeed. -/
def Heap.malloc (heap : Heap) (mallocs : Nat → Bool) : Option Nat × Heap :=
  (if mallocs heap.calls then some heap.calls else none, { heap with calls := heap.calls + 1 })

def isBlank (data : Nat → UInt8) : Bool :=
  (List.range cacheBlockSz).all fun index => data index == 0

theorem isBlank_iff {data : Nat → UInt8} :
    isBlank data = true ↔ ∀ index < cacheBlockSz, data index = 0 := by
  simp [isBlank]

/-- `linkedlist_store`: the value returned, `*leaf` and the heap. -/
def linkedlistStore (mallocs : Nat → Bool) (heap : Heap) (leaf : Option Nat) (offset len : Nat)
    (data : Nat → UInt8) : Option (Nat × Option Nat × Heap) :=
  let blockid := offset / cacheBlockSz % 2 ^ 16
  let store := fun target => memcpy target (offset % cacheBlockSz) data len
  if isBlank data then
    some (len, leaf, heap)
  else
    match leaf with
    | none =>
        match heap.malloc mallocs with
        | (none, heap) => some (sqliteNomem, none, heap)
        | (some block, heap) =>
            some (len, some block, heap.set block ⟨blockid, none, store fun _ => 0⟩)
    | some leafAddr =>
        (heap.nodes leafAddr).bind fun node =>
          if node.blockid = blockid then
            some (len, leaf, heap.set leafAddr { node with data := store node.data })
          else
            match heap.malloc mallocs with
            | (none, heap) => some (sqliteNomem, leaf, heap)
            | (some block, heap) =>
                if blockid > node.blockid then
                  some (len, leaf, (heap.set block ⟨blockid, node.next, store fun _ => 0⟩).set
                    leafAddr { node with next := some block })
                else
                  some (len, some block, heap.set block ⟨blockid, leaf, store fun _ => 0⟩)

/-- The search loop both functions share, with at most `fuel` blocks to visit.
The second result is `updateroot`, which `filecache_pull` does not have. -/
def findLeaf (heap : Heap) (relaoffset : Nat) :
    (fuel : Nat) → (leaf : Option Nat) → (updateroot : Bool) → Option (Option Nat × Bool)
  | 0, _, _ => none
  | _ + 1, none, updateroot => some (none, updateroot)
  | fuel + 1, some leaf, updateroot =>
      (heap.nodes leaf).bind fun node =>
        match node.next with
        | none => some (some leaf, updateroot)
        | some next =>
            (heap.nodes next).bind fun nextNode =>
              if nextNode.blockid * cacheBlockSz > relaoffset then
                some (some leaf, updateroot)
              else
                findLeaf heap relaoffset fuel (some next) false

/-- `(uint16_t) blocks` after the rounding up of `blocks`. -/
def roundCount (offset len : Nat) : Nat := blockCount cacheBlockSz offset len % 2 ^ 16

/-! ## Reading -/

structure Round where
  relaoffset : Nat
  relalen : Nat
  deriving DecidableEq

/-- The loop of `filecache_pull`, with the rounds it makes. -/
def pullLoop (heap : Heap) (cache : FileCache) (offset len : Nat) :
    (rounds r : Nat) → (data : Nat → UInt8) → Option (List Round × (Nat → UInt8))
  | 0, _, data => some ([], data)
  | rounds + 1, r, data =>
      let relaoffset := offset + r
      let relalen := min (len - r) (cacheBlockSz - relaoffset % cacheBlockSz)
      (findLeaf heap relaoffset (heap.calls + 1) cache.list false).bind fun found =>
        match found.1 with
        | none => none
        | some leaf =>
            (heap.nodes leaf).bind fun node =>
              let data :=
                if node.blockid * cacheBlockSz ≤ relaoffset ∧
                    relaoffset < node.blockid * cacheBlockSz + cacheBlockSz then
                  memcpy data r (fun index => node.data (relaoffset % cacheBlockSz + index)) relalen
                else
                  data
              (pullLoop heap cache offset len rounds (r + relalen) data).map fun later =>
                (⟨relaoffset, relalen⟩ :: later.1, later.2)

def filecachePullRounds (heap : Heap) (cache : FileCache) (offset len : Nat)
    (data : Nat → UInt8) : Option (List Round × (Nat → UInt8)) :=
  if offset % cacheBlockSz + len = 0 then
    some ([], data)
  else if cache.list = none then
    some ([], data)
  else
    pullLoop heap cache offset len (roundCount offset len) 0 data

/-- `filecache_pull`: the memory at `data` afterwards. -/
def filecachePull (heap : Heap) (cache : FileCache) (offset len : Nat) (data : Nat → UInt8) :
    Option (Nat → UInt8) :=
  (filecachePullRounds heap cache offset len data).map Prod.snd

/-! ## Writing -/

/-- The variables at the head of the loop of `filecache_push`. -/
structure PushState where
  heap : Heap
  list : Option Nat
  r : Nat
  updateroot : Bool

/-- The loop of `filecache_push`, with the rounds it makes and whether it returned
early. -/
def pushLoop (mallocs : Nat → Bool) (offset len : Nat) (data : Nat → UInt8) :
    (rounds : Nat) → PushState → Option (List Round × Bool × PushState)
  | 0, s => some ([], false, s)
  | rounds + 1, s =>
      let relaoffset := offset + s.r
      let relalen := min (len - s.r) (cacheBlockSz - relaoffset % cacheBlockSz)
      (findLeaf s.heap relaoffset (s.heap.calls + 1) s.list s.updateroot).bind fun found =>
        (linkedlistStore mallocs s.heap found.1 relaoffset
          (if relalen > cacheBlockSz then cacheBlockSz else relalen)
          (fun index => data (s.r + index))).bind fun stored =>
            if stored.1 = sqliteNomem then
              some ([⟨relaoffset, relalen⟩], true,
                { s with heap := stored.2.2, updateroot := found.2 })
            else
              (pushLoop mallocs offset len data rounds
                { heap := stored.2.2
                  list := if found.2 then stored.2.1 else s.list
                  r := s.r + stored.1
                  updateroot := found.2 }).map fun later =>
                (⟨relaoffset, relalen⟩ :: later.1, later.2)

def filecachePushRounds (mallocs : Nat → Bool) (heap : Heap) (cache : FileCache)
    (offset len : Nat) (data : Nat → UInt8) :
    Option (List Round × Bool × Nat × Heap × FileCache) :=
  if offset % cacheBlockSz + len = 0 then
    some ([], false, 0, heap, cache)
  else
    (pushLoop mallocs offset len data (roundCount offset len)
      { heap := heap, list := cache.list, r := 0, updateroot := true }).map fun result =>
        let cache := { cache with list := result.2.2.list }
        if result.2.1 then
          (result.1, true, sqliteNomem, result.2.2.heap, cache)
        else
          (result.1, false, result.2.2.r, result.2.2.heap,
            { cache with size := if offset + len > cache.size then offset + len else cache.size })

/-- `filecache_push`: the value returned, the heap and the cache. -/
def filecachePush (mallocs : Nat → Bool) (heap : Heap) (cache : FileCache) (offset len : Nat)
    (data : Nat → UInt8) : Option (Nat × Heap × FileCache) :=
  (filecachePushRounds mallocs heap cache offset len data).map fun result => result.2.2

/-! ## Releasing -/

/-- The loop of `filecache_free`, with at most `fuel` blocks to visit. -/
def freeLoop (heap : Heap) : (fuel : Nat) → (ll : Option Nat) → Option (List Nat)
  | 0, _ => none
  | _ + 1, none => some []
  | fuel + 1, some ll =>
      (heap.nodes ll).bind fun node => (freeLoop heap fuel node.next).map fun freed => ll :: freed

/-- `filecache_free`: the blocks given to `sqlite3_free`. -/
def filecacheFree (heap : Heap) (cache : FileCache) : Option (List Nat) :=
  freeLoop heap (heap.calls + 1) cache.list

/-! ## File methods -/

structure MemFile where
  heap : Heap
  cache : FileCache

def MemFile.opened : MemFile := ⟨⟨fun _ => none, 0⟩, ⟨0, none⟩⟩

theorem masked_eq_of_lt {offset : Nat} (small : offset < 2 ^ 31) :
    offset &&& 0x7FFFFFFF = offset := by
  have isMask : (0x7FFFFFFF : Nat) = 2 ^ 31 - 1 := rfl
  rw [isMask, Nat.and_two_pow_sub_one_eq_mod,
    Nat.mod_eq_of_lt small]

def esp8266memRead (file : MemFile) (buffer : Nat → UInt8) (amount offset : Nat) :
    Option (Nat → UInt8) :=
  filecachePull file.heap file.cache (offset &&& 0x7FFFFFFF) amount buffer

def esp8266memWrite (mallocs : Nat → Bool) (file : MemFile) (buffer : Nat → UInt8)
    (amount offset : Nat) : Option MemFile :=
  (filecachePush mallocs file.heap file.cache (offset &&& 0x7FFFFFFF) amount buffer).map
    fun result => ⟨result.2.1, result.2.2⟩

def esp8266memFileSize (file : MemFile) : Nat := file.cache.size

end EspSqlite.Journal
