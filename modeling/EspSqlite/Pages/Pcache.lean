import EspSqlite.Foundation.DoublyLinked
import EspSqlite.Foundation.HeapList
import Mathlib.Algebra.Group.Nat.Defs

namespace EspSqlite.Pages

open DoublyLinked

/-! # The page cache

`PCache` and the functions of the page cache that manage its pages. A pointer is an address
or NULL. A failing assert, a pointer to no page, or a count that its 16 bits do not hold, has
no result. -/

/-- Number of addresses of a 32-bit processor; a list cannot be longer. -/
def addressSpace : Nat := 2 ^ 32

def PAGER_MAX_PGNO : Nat := 2147483647

/-- The values of the signed 16 bits of `PgHdr.nRef` that are not negative. -/
def nRefLimit : Nat := 2 ^ 15

structure PgFlags where
  clean : Bool
  dirty : Bool
  writeable : Bool
  needSync : Bool
  dontWrite : Bool
deriving DecidableEq

def PGHDR_CLEAN : PgFlags := ⟨true, false, false, false, false⟩

def PgFlags.zero : PgFlags := ⟨false, false, false, false, false⟩

def dirtyFlags : PgFlags := ⟨false, true, false, false, false⟩

structure PgHdr where
  pDirty : Option Nat
  pgno : Nat
  flags : PgFlags
  nRef : Nat
  pDirtyNext : Option Nat
  pDirtyPrev : Option Nat
deriving DecidableEq

namespace PgHdr

def withNext (pDirtyNext : Option Nat) (hdr : PgHdr) : PgHdr :=
  { hdr with pDirtyNext := pDirtyNext }

def withPrev (pDirtyPrev : Option Nat) (hdr : PgHdr) : PgHdr :=
  { hdr with pDirtyPrev := pDirtyPrev }

def withDirty (pDirty : Option Nat) (hdr : PgHdr) : PgHdr := { hdr with pDirty := pDirty }

def withRefs (nRef : Nat) (hdr : PgHdr) : PgHdr := { hdr with nRef := nRef }

def withFlags (change : PgFlags → PgFlags) (hdr : PgHdr) : PgHdr :=
  { hdr with flags := change hdr.flags }

end PgHdr

/-- A page of the pluggable cache module; it can be recycled unless it is pinned. -/
structure PoolPage where
  iKey : Nat
  isPinned : Bool
deriving DecidableEq

structure PCache where
  pDirty : Option Nat
  pDirtyTail : Option Nat
  pSynced : Option Nat
  nRefSum : Nat
  bPurgeable : Bool
  eCreate : Nat
  /-- The pages of the pluggable cache module. -/
  pCache : Nat → Option PoolPage
  /-- The headers that were initialised. -/
  headers : Nat → Option PgHdr

def sqlite3PcacheOpen (bPurgeable : Bool) : PCache where
  pDirty := none
  pDirtyTail := none
  pSynced := none
  nRefSum := 0
  bPurgeable := bPurgeable
  eCreate := 2
  pCache := fun _ => none
  headers := fun _ => none

def check (condition : Prop) [Decidable condition] : Option Unit :=
  if condition then some () else none

namespace PCache

def update (p : PCache) (addr : Nat) (change : PgHdr → PgHdr) : Option PCache :=
  (p.headers addr).map fun hdr =>
    { p with headers := Function.update p.headers addr (some (change hdr)) }

def updateFlags (p : PCache) (addr : Nat) (change : PgFlags → PgFlags) : Option PCache :=
  p.update addr (PgHdr.withFlags change)

def updateDirty (change : PgHdr → PgHdr) : (fuel : Nat) → PCache → Option Nat → Option PCache
  | _, p, none => some p
  | 0, _, some _ => none
  | fuel + 1, p, some addr => do
      let p ← p.update addr change
      let pg ← p.headers addr
      updateDirty change fuel p pg.pDirtyNext

end PCache

def sqlite3PcachePageSanity (p : PCache) (addr : Nat) : Option Unit := do
  let pg ← p.headers addr
  check (0 < pg.pgno)
  check (pg.flags.clean = true →
    pg.flags.dirty = false ∧ p.pDirty ≠ some addr ∧ p.pDirtyTail ≠ some addr)
  check (pg.flags.writeable = true → pg.flags.dirty = true)

/-! ## The list of dirty pages -/

/-- Allowed values for the second argument to `pcacheManageDirtyList`. -/
inductive DirtyList where
  | remove
  | add
  | front

def unlinkNext (p : PCache) (addr : Nat) : Option PCache := do
  let pg ← p.headers addr
  match pg.pDirtyNext with
  | some next => p.update next (PgHdr.withPrev pg.pDirtyPrev)
  | none => do
      check (p.pDirtyTail = some addr)
      some { p with pDirtyTail := pg.pDirtyPrev }

def unlinkPrev (p : PCache) (addr : Nat) : Option PCache := do
  let pg ← p.headers addr
  match pg.pDirtyPrev with
  | some prev => p.update prev (PgHdr.withNext pg.pDirtyNext)
  | none => do
      check (p.pDirty = some addr)
      check (p.bPurgeable = true ∨ p.eCreate = 2)
      match pg.pDirtyNext with
      | some next => some { p with pDirty := some next }
      | none => do
          check (p.bPurgeable = false ∨ p.eCreate = 1)
          some { p with pDirty := none, eCreate := 2 }

def removeDirty (p : PCache) (addr : Nat) : Option PCache := do
  let pg ← p.headers addr
  check (pg.pDirtyNext ≠ none ∨ p.pDirtyTail = some addr)
  check (pg.pDirtyPrev ≠ none ∨ p.pDirty = some addr)
  let p := { p with pSynced := if p.pSynced = some addr then pg.pDirtyPrev else p.pSynced }
  let p ← unlinkNext p addr
  let p ← unlinkPrev p addr
  p.update addr fun hdr => (hdr.withNext none).withPrev none

def linkFirst (p : PCache) (addr : Nat) : Option PCache :=
  match p.pDirty with
  | some next => do
      let first ← p.headers next
      check (first.pDirtyPrev = none)
      p.update next (PgHdr.withPrev (some addr))
  | none =>
      if p.bPurgeable = true then do
        check (p.eCreate = 2)
        some { p with pDirtyTail := some addr, eCreate := 1 }
      else some { p with pDirtyTail := some addr }

def addDirty (p : PCache) (addr : Nat) : Option PCache := do
  let pg ← p.headers addr
  check (pg.pDirtyNext = none ∧ pg.pDirtyPrev = none ∧ p.pDirty ≠ some addr)
  let p ← p.update addr (PgHdr.withNext p.pDirty)
  let p ← linkFirst p addr
  let p := { p with pDirty := some addr }
  if p.pSynced = none ∧ pg.flags.needSync = false then some { p with pSynced := some addr }
  else some p

def pcacheManageDirtyList (p : PCache) (addr : Nat) : (addRemove : DirtyList) → Option PCache
  | .remove => removeDirty p addr
  | .add => addDirty p addr
  | .front => do
      let p ← removeDirty p addr
      addDirty p addr

/-! ## The pluggable cache module

What the page cache relies on: a fetch finds the page with the key, or may create one at an
address that is not in use. -/

def FetchResult (pCache : Nat → Option PoolPage) (pgno eCreate : Nat) (result : Option Nat) :
    Prop :=
  (∀ addr page, pCache addr = some page → page.iKey = pgno → result = some addr) ∧
    ∀ addr, result = some addr → (∃ page, pCache addr = some page ∧ page.iKey = pgno) ∨
      (pCache addr = none ∧ eCreate ≠ 0 ∧ addr < addressSpace)

/-- The page returned by `xFetch` gets pinned; a new one has no header. -/
def xFetch (p : PCache) (pgno : Nat) : (result : Option Nat) → PCache
  | none => p
  | some addr =>
      match p.pCache addr with
      | some page =>
          { p with pCache := Function.update p.pCache addr (some { page with isPinned := true }) }
      | none => { p with
          pCache := Function.update p.pCache addr (some ⟨pgno, true⟩)
          headers := Function.update p.headers addr none }

def xUnpin (p : PCache) (addr : Nat) (reuseUnlikely : Bool) : Option PCache := do
  let page ← p.pCache addr
  check (page.isPinned = true)
  if reuseUnlikely = true then
    some { p with
      pCache := Function.update p.pCache addr none
      headers := Function.update p.headers addr none }
  else
    some { p with pCache := Function.update p.pCache addr (some { page with isPinned := false }) }

def xRekey (p : PCache) (addr iOld iNew : Nat) : Option PCache := do
  let page ← p.pCache addr
  check (page.iKey = iOld)
  some { p with pCache := Function.update p.pCache addr (some { page with iKey := iNew }) }

def xTruncate (p : PCache) (iLimit : Nat) : PCache :=
  { p with
    pCache := fun addr => (p.pCache addr).filter fun page => decide (page.iKey < iLimit)
    headers := fun addr =>
      if ((p.pCache addr).filter fun page => decide (page.iKey < iLimit)).isSome = true then
        p.headers addr else none }

def recycle (p : PCache) (addr : Nat) : Option PCache := do
  let page ← p.pCache addr
  check (page.isPinned = false)
  some { p with
    pCache := Function.update p.pCache addr none
    headers := Function.update p.headers addr none }

def pcacheUnpin (p : PCache) (addr : Nat) : Option PCache :=
  if p.bPurgeable = true then xUnpin p addr false else some p

/-! ## General interfaces -/

def sqlite3PcacheFetch (p : PCache) (pgno createFlag : Nat) (result : Option Nat) :
    Option PCache := do
  check (createFlag = 3 ∨ createFlag = 0)
  check (p.eCreate = if p.bPurgeable = true ∧ p.pDirty ≠ none then 1 else 2)
  let eCreate := createFlag &&& p.eCreate
  check (eCreate = 0 ∨ eCreate = 1 ∨ eCreate = 2)
  check (createFlag = 0 ∨ p.eCreate = eCreate)
  check (createFlag = 0 ∨ eCreate = 1 + if p.bPurgeable = false ∨ p.pDirty = none then 1 else 0)
  some (xFetch p pgno result)

def pcacheFetchFinishWithInit (p : PCache) (pgno addr : Nat) : PCache :=
  { p with
    headers := Function.update p.headers addr (some ⟨none, pgno, PGHDR_CLEAN, 0, none, none⟩) }

def sqlite3PcacheFetchFinish (p : PCache) (pgno addr : Nat) : Option PCache := do
  let p := match p.headers addr with
    | none => pcacheFetchFinishWithInit p pgno addr
    | some _ => p
  let p := { p with nRefSum := p.nRefSum + 1 }
  let pg ← p.headers addr
  check (pg.nRef + 1 < nRefLimit)
  let p ← p.update addr fun hdr => hdr.withRefs (hdr.nRef + 1)
  sqlite3PcachePageSanity p addr
  some p

def sqlite3PcacheRelease (p : PCache) (addr : Nat) : Option PCache := do
  let pg ← p.headers addr
  check (0 < pg.nRef)
  let p := { p with nRefSum := p.nRefSum - 1 }
  let p ← p.update addr fun hdr => hdr.withRefs (hdr.nRef - 1)
  if pg.nRef - 1 = 0 then
    if pg.flags.clean = true then pcacheUnpin p addr
    else if pg.pDirtyPrev ≠ none then pcacheManageDirtyList p addr .front
    else some p
  else some p

def sqlite3PcacheRef (p : PCache) (addr : Nat) : Option PCache := do
  let pg ← p.headers addr
  check (0 < pg.nRef)
  sqlite3PcachePageSanity p addr
  check (pg.nRef + 1 < nRefLimit)
  let p ← p.update addr fun hdr => hdr.withRefs (hdr.nRef + 1)
  some { p with nRefSum := p.nRefSum + 1 }

def sqlite3PcacheDrop (p : PCache) (addr : Nat) : Option PCache := do
  let pg ← p.headers addr
  check (pg.nRef = 1)
  sqlite3PcachePageSanity p addr
  let p ← if pg.flags.dirty = true then pcacheManageDirtyList p addr .remove else some p
  let p := { p with nRefSum := p.nRefSum - 1 }
  xUnpin p addr true

def sqlite3PcacheMakeDirty (p : PCache) (addr : Nat) : Option PCache := do
  let pg ← p.headers addr
  check (0 < pg.nRef)
  sqlite3PcachePageSanity p addr
  if pg.flags.clean = true ∨ pg.flags.dontWrite = true then do
    let p ← p.updateFlags addr fun flags => { flags with dontWrite := false }
    let p ← if pg.flags.clean = true then do
        let p ← p.updateFlags addr fun flags =>
          { flags with dirty := !flags.dirty, clean := !flags.clean }
        let pg ← p.headers addr
        check (pg.flags.dirty = true ∧ pg.flags.clean = false)
        pcacheManageDirtyList p addr .add
      else some p
    sqlite3PcachePageSanity p addr
    some p
  else some p

def sqlite3PcacheMakeClean (p : PCache) (addr : Nat) : Option PCache := do
  sqlite3PcachePageSanity p addr
  let pg ← p.headers addr
  check (pg.flags.dirty = true)
  check (pg.flags.clean = false)
  let p ← pcacheManageDirtyList p addr .remove
  let p ← p.updateFlags addr fun flags =>
    { flags with clean := true, dirty := false, needSync := false, writeable := false }
  sqlite3PcachePageSanity p addr
  if pg.nRef = 0 then pcacheUnpin p addr else some p

/-- The loop of `sqlite3PcacheCleanAll`. -/
def cleanFirst : (fuel : Nat) → PCache → Option PCache
  | 0, p => if p.pDirty = none then some p else none
  | fuel + 1, p =>
      match p.pDirty with
      | none => some p
      | some addr => do
          let p ← sqlite3PcacheMakeClean p addr
          cleanFirst fuel p

def sqlite3PcacheCleanAll (p : PCache) : Option PCache :=
  cleanFirst addressSpace p

def sqlite3PcacheClearWritable (p : PCache) : Option PCache := do
  let p ← PCache.updateDirty (PgHdr.withFlags fun flags =>
    { flags with needSync := false, writeable := false }) addressSpace p p.pDirty
  some { p with pSynced := p.pDirtyTail }

def sqlite3PcacheClearSyncFlags (p : PCache) : Option PCache := do
  let p ← PCache.updateDirty (PgHdr.withFlags fun flags => { flags with needSync := false })
    addressSpace p p.pDirty
  some { p with pSynced := p.pDirtyTail }

def sqlite3PcacheMove (p : PCache) (addr newPgno : Nat) : Option PCache := do
  let pg ← p.headers addr
  check (0 < pg.nRef)
  check (0 < newPgno)
  sqlite3PcachePageSanity p addr
  let p ← xRekey p addr pg.pgno newPgno
  let p ← p.update addr fun hdr => { hdr with pgno := newPgno }
  if pg.flags.dirty = true ∧ pg.flags.needSync = true then pcacheManageDirtyList p addr .front
  else some p

/-- The page gets the flags as well as the number; the caller knows that it is dirty. -/
def sqlite3PagerRekey (p : PCache) (addr iNew : Nat) (flags : PgFlags) : Option PCache := do
  let pg ← p.headers addr
  check (pg.pgno ≠ iNew)
  let p ← p.updateFlags addr fun _ => flags
  sqlite3PcacheMove p addr iNew

/-- The loop of `sqlite3PcacheTruncate`. -/
def cleanAfter (pgno : Nat) : (fuel : Nat) → PCache → Option Nat → Option PCache
  | _, p, none => some p
  | 0, _, some _ => none
  | fuel + 1, p, some addr => do
      let pg ← p.headers addr
      let pNext := pg.pDirtyNext
      check (0 < pg.pgno)
      if pgno < pg.pgno then do
        check (pg.flags.dirty = true)
        let p ← sqlite3PcacheMakeClean p addr
        cleanAfter pgno fuel p pNext
      else cleanAfter pgno fuel p pNext

/-- The data of page 1 is zeroed, which is not part of the model. -/
def sqlite3PcacheTruncate (p : PCache) (pgno : Nat) (pPage1 : Option Nat) : Option PCache := do
  let p ← cleanAfter pgno addressSpace p p.pDirty
  if pgno = 0 ∧ p.nRefSum ≠ 0 then do
    check (pPage1 ≠ none)
    some (xTruncate (xFetch p 1 pPage1) 2)
  else some (xTruncate p (pgno + 1))

/-! ## Spilling -/

def findPrev (p : PCache) (stop : PgHdr → Bool) (start : Option Nat) : Option (Option Nat) :=
  search p.headers PgHdr.pDirtyPrev stop addressSpace start

def stressPage (p : PCache) : Option (PCache × Option Nat) := do
  let synced ← findPrev p (fun hdr => hdr.nRef = 0 && !hdr.flags.needSync) p.pSynced
  let p := { p with pSynced := synced }
  match synced with
  | some addr => some (p, some addr)
  | none => do
      let oldest ← findPrev p (fun hdr => hdr.nRef = 0) p.pDirtyTail
      some (p, oldest)

inductive Stress where
  /-- Spilling is off. -/
  | kept
  /-- There is an error, perhaps after the journal got synced. -/
  | failed (synced : Bool)
  /-- The page is written, with the journal synced before when in `PAGER_WRITER_CACHEMOD`. -/
  | written (cacheMod : Bool)

def pagerStress (p : PCache) (addr : Nat) (outcome : Stress) : Option PCache := do
  let pg ← p.headers addr
  check (pg.flags.dirty = true)
  match outcome with
  | .kept => some p
  | .failed synced => do
      let p ← p.update addr (PgHdr.withDirty none)
      if synced = true then sqlite3PcacheClearSyncFlags p else some p
  | .written cacheMod => do
      let p ← p.update addr (PgHdr.withDirty none)
      let p ← if pg.flags.needSync = true ∨ cacheMod = true then sqlite3PcacheClearSyncFlags p
        else some p
      let pg ← p.headers addr
      check (pg.flags.needSync = false)
      sqlite3PcacheMakeClean p addr

/-- `sqlite3PcacheFetchStress` up to its `xFetch`. -/
def stress (p : PCache) (overfull : Bool) (outcome : Stress) : Option PCache :=
  if p.eCreate = 2 then some p
  else if overfull = true then do
    let (p, picked) ← stressPage p
    match picked with
    | some addr => pagerStress p addr outcome
    | none => some p
  else some p

end EspSqlite.Pages
