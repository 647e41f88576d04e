import EspSqlite.Pages.Runs

namespace EspSqlite.Pages

open DoublyLinked

/-! # The dirty pages in the order of their numbers

`sqlite3PcacheDirtyList` links the dirty pages through `pDirty` and sorts that list by merging
it in buckets. -/

/-- `pTail->pDirty` is set; without a tail it is that of the local header. -/
def setTail (p : PCache) (result pTail : Option Nat) (next : Nat) : Option (PCache × Option Nat) :=
  match pTail with
  | none => some (p, some next)
  | some tail => do
      let p ← p.update tail (PgHdr.withDirty (some next))
      some (p, result)

/-- The loop of `pcacheMergeDirtyList`. -/
def mergeLoop : (fuel : Nat) → PCache → (result pTail : Option Nat) → (pA pB : Nat) →
    Option (PCache × Option Nat)
  | 0, _, _, _, _, _ => none
  | fuel + 1, p, result, pTail, pA, pB => do
      let a ← p.headers pA
      let b ← p.headers pB
      if a.pgno < b.pgno then do
        let (p, result) ← setTail p result pTail pA
        let a ← p.headers pA
        match a.pDirty with
        | some next => mergeLoop fuel p result (some pA) next pB
        | none => setTail p result (some pA) pB
      else do
        let (p, result) ← setTail p result pTail pB
        let b ← p.headers pB
        match b.pDirty with
        | some next => mergeLoop fuel p result (some pB) pA next
        | none => setTail p result (some pB) pA

/-- Neither of the lists may be empty. -/
def pcacheMergeDirtyList (p : PCache) (pA pB : Option Nat) : Option (PCache × Option Nat) := do
  let pA ← pA
  let pB ← pB
  mergeLoop addressSpace p none none pA pB

def N_SORT_BUCKET : Nat := 32

/-- The inner loop of `pcacheSortDirtyList`, from one of the buckets on. -/
def carryBuckets : (buckets : List (Option Nat)) → PCache → (page : Option Nat) →
    Option (PCache × List (Option Nat))
  | [], _, _ => none
  | [last], p, page => do
      let (p, merged) ← pcacheMergeDirtyList p last page
      some (p, [merged])
  | bucket :: next :: rest, p, page =>
      match bucket with
      | none => some (p, page :: next :: rest)
      | some first => do
          let (p, merged) ← pcacheMergeDirtyList p (some first) page
          let (p, rest) ← carryBuckets (next :: rest) p merged
          some (p, none :: rest)

/-- The outer loop of `pcacheSortDirtyList`. -/
def sortLoop : (fuel : Nat) → PCache → List (Option Nat) → (pIn : Option Nat) →
    Option (PCache × List (Option Nat))
  | _, p, buckets, none => some (p, buckets)
  | 0, _, _, some _ => none
  | fuel + 1, p, buckets, some addr => do
      let page ← p.headers addr
      let p ← p.update addr (PgHdr.withDirty none)
      let (p, buckets) ← carryBuckets buckets p (some addr)
      sortLoop fuel p buckets page.pDirty

/-- The last loop of `pcacheSortDirtyList`. -/
def mergeBuckets : List (Option Nat) → PCache → (page : Option Nat) → Option (PCache × Option Nat)
  | [], p, page => some (p, page)
  | none :: rest, p, page => mergeBuckets rest p page
  | some first :: rest, p, page =>
      match page with
      | none => mergeBuckets rest p (some first)
      | some merged => do
          let (p, merged) ← pcacheMergeDirtyList p (some merged) (some first)
          mergeBuckets rest p merged

def pcacheSortDirtyList (p : PCache) (pIn : Option Nat) : Option (PCache × Option Nat) := do
  let (p, buckets) ← sortLoop addressSpace p (List.replicate N_SORT_BUCKET none) pIn
  mergeBuckets buckets p none

def sqlite3PcacheDirtyList (p : PCache) : Option (PCache × Option Nat) := do
  let p ← PCache.updateDirty (fun hdr => hdr.withDirty hdr.pDirtyNext) addressSpace p p.pDirty
  pcacheSortDirtyList p p.pDirty

/-! ## Changes of the transient list -/

structure DirtyOnly (p p' : PCache) : Prop where
  same : p' = { p with headers := p'.headers }
  headers : ∀ addr, (p'.headers addr).map (PgHdr.withDirty none) =
    (p.headers addr).map (PgHdr.withDirty none)

variable {p p' p'' : PCache} {lru : Lru} {addr : Nat} {hdr : PgHdr}

theorem DirtyOnly.refl (p : PCache) : DirtyOnly p p := ⟨rfl, fun _ => rfl⟩

theorem DirtyOnly.trans (first : DirtyOnly p p') (second : DirtyOnly p' p'') :
    DirtyOnly p p'' where
  same := by
    have isSecond := second.same
    rw [first.same] at isSecond
    exact isSecond
  headers := fun addr => (second.headers addr).trans (first.headers addr)

theorem DirtyOnly.of_redirect (target value : Option Nat) :
    DirtyOnly p { p with headers := redirect p.headers target (PgHdr.withDirty value) } where
  same := rfl
  headers := by
    intro addr
    change (redirect p.headers target _ addr).map _ = _
    rw [redirect]
    split
    · rw [Option.map_map]
      rfl
    · rfl

theorem DirtyOnly.header (only : DirtyOnly p p') (isHdr : p.headers addr = some hdr) :
    ∃ hdr', p'.headers addr = some hdr' ∧ hdr'.withDirty none = hdr.withDirty none := by
  have same := only.headers addr
  rw [isHdr, Option.map_some] at same
  exact Option.map_eq_some_iff.mp same

theorem DirtyOnly.symm (only : DirtyOnly p p') : DirtyOnly p' p where
  same := by
    rw [only.same]
  headers := fun addr => (only.headers addr).symm

theorem withDirty_eq {hdr' : PgHdr} (same : hdr'.withDirty none = hdr.withDirty none) :
    hdr'.data = hdr.data ∧ hdr'.pDirtyNext = hdr.pDirtyNext ∧ hdr'.pDirtyPrev = hdr.pDirtyPrev := by
  injection same with _ pgno flags nRef next prev
  refine ⟨?_, next, prev⟩
  rw [PgHdr.data, PgHdr.data, pgno, flags, nRef]

theorem DirtyOnly.found (only : DirtyOnly p p') (found : ∃ hdr, p.headers addr = some hdr) :
    ∃ hdr, p'.headers addr = some hdr := by
  rcases found with ⟨hdr, isHdr⟩
  rcases only.header isHdr with ⟨hdr', isHdr', _⟩
  exact ⟨hdr', isHdr'⟩

/-- The transient list is no part of what the page cache represents. -/
theorem DirtyOnly.represents (only : DirtyOnly p p') (represents : Represents p lru) :
    Represents p' lru := by
  have links : ∀ pointer : PgHdr → Option Nat,
      (∀ hdr hdr' : PgHdr, hdr'.withDirty none = hdr.withDirty none → pointer hdr' = pointer hdr) →
      link p'.headers pointer = link p.headers pointer := by
    intro pointer keeps
    funext addr
    have same := only.headers addr
    rw [link, link]
    cases isHdr : p.headers addr with
    | none =>
        rw [isHdr, Option.map_none, Option.map_eq_none_iff] at same
        rw [same]
    | some hdr =>
        rcases only.header isHdr with ⟨hdr', isHdr', sameHdr⟩
        rw [isHdr', Option.bind_some, Option.bind_some, keeps hdr hdr' sameHdr]
  have isSame := only.same
  refine ⟨?_, ?_, ?_, ?_, ?_, ?_⟩
  · apply represents.threaded.congr (links _ fun _ _ same => (withDirty_eq same).2.1)
      (links _ fun _ _ same => (withDirty_eq same).2.2)
      (fun addr listed => only.found (represents.threaded.found addr listed))
    · rw [isSame]
    · rw [isSame]
    · rw [isSame]
    · rw [isSame]
  · intro addr
    rw [← represents.data addr]
    cases isHdr : p.headers addr with
    | none =>
        have same := only.headers addr
        rw [isHdr, Option.map_none, Option.map_eq_none_iff] at same
        rw [same]
    | some hdr =>
        rcases only.header isHdr with ⟨hdr', isHdr', sameHdr⟩
        rw [isHdr', Option.map_some, Option.map_some, (withDirty_eq sameHdr).1]
  · rw [isSame]
    exact represents.pool
  · rw [isSame]
    exact represents.refs
  · rw [isSame]
    exact represents.synced
  · rw [isSame]
    exact represents.purgeable

end EspSqlite.Pages
