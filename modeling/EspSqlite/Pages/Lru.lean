import EspSqlite.Pages.Pcache
import Mathlib.Algebra.BigOperators.Intervals

namespace EspSqlite.Pages

/-! # Dirty pages in the order of their use

What the page cache is for: the dirty pages in one list, the page used last in front, and
the other pages as they are. No page has pointers. -/

structure Page where
  pgno : Nat
  nRef : Nat
  flags : PgFlags
  isPinned : Bool
deriving DecidableEq

namespace Page

def pool (page : Page) : PoolPage := ⟨page.pgno, page.isPinned⟩

/-- A page can be recycled from when it is neither dirty nor in use. -/
def settle (purgeable : Bool) (page : Page) : Page :=
  { page with isPinned := !(purgeable && page.flags.clean && decide (page.nRef = 0)) }

def idle (page : Page) : Bool := page.nRef = 0

structure Valid (purgeable : Bool) (listed : Prop) (page : Page) : Prop where
  dirty : page.flags.dirty = true ↔ listed
  clean : page.flags.clean = !page.flags.dirty
  writeable : page.flags.writeable = true → page.flags.dirty = true
  pinned : page.isPinned = !(purgeable && page.flags.clean && decide (page.nRef = 0))
  pgno : 0 < page.pgno
  small : page.flags.dirty = true → page.pgno ≤ PAGER_MAX_PGNO

end Page

structure Lru where
  pages : Nat → Option Page
  /-- The dirty pages. -/
  order : List Nat
  /-- Where the search for a page to spill starts. -/
  synced : Option Nat
  purgeable : Bool

def newer (order : List Nat) (addr : Nat) : Option Nat :=
  (order.takeWhile fun other => other != addr).getLast?

inductive Mark where
  /-- The page is about to be journalled, or shares a sector with such a page. -/
  | needSync
  /-- The page gets another page number. -/
  | noSync
  /-- The page is journalled. -/
  | writeable
  /-- The content of the page does not matter any more. -/
  | dontWrite

def Mark.apply : Mark → PgFlags → PgFlags
  | .needSync, flags => { flags with needSync := true }
  | .noSync, flags => { flags with needSync := false }
  | .writeable, flags => { flags with writeable := true }
  | .dontWrite, flags => { flags with dontWrite := true, writeable := false }

inductive Op where
  /-- `sqlite3PcacheFetch` and, for a page, `sqlite3PcacheFetchFinish`. -/
  | fetch (pgno createFlag : Nat) (result : Option Nat)
  /-- The `xFetch` of `sqlite3PcacheFetchStress` and `sqlite3PcacheFetchFinish`. -/
  | refetch (pgno : Nat) (result : Option Nat)
  | ref (addr : Nat)
  | release (addr : Nat)
  | drop (addr : Nat)
  | makeDirty (addr : Nat)
  | makeClean (addr : Nat)
  | cleanAll
  | clearWritable
  | clearSyncFlags
  | rekey (addr iNew : Nat) (flags : PgFlags)
  | truncate (pgno : Nat) (pPage1 : Option Nat)
  | stress (overfull : Bool) (outcome : Stress)
  | mark (addr : Nat) (mark : Mark)
  | recycle (addr : Nat)

namespace Op

def isRekey : Op → Bool
  | .rekey _ _ _ => true
  | _ => false

def unflagged (op : Op) (addrs : List Nat) : List Nat :=
  match op with
  | .rekey addr _ flags =>
      if flags = .zero then addr :: addrs else addrs.filter fun other => other != addr
  | _ => addrs

end Op

namespace Lru

def opened (purgeable : Bool) : Lru where
  pages := fun _ => none
  order := []
  synced := none
  purgeable := purgeable

def pool (lru : Lru) (addr : Nat) : Option PoolPage := (lru.pages addr).map Page.pool

def refs (lru : Lru) : Nat :=
  Finset.sum (Finset.range addressSpace) fun addr => ((lru.pages addr).map Page.nRef).getD 0

def put (lru : Lru) (addr : Nat) (page : Page) : Lru :=
  { lru with pages := Function.update lru.pages addr (some page) }

def change (lru : Lru) (addr : Nat) (f : Page → Page) : Lru :=
  match lru.pages addr with
  | some page => lru.put addr (f page)
  | none => lru

def remove (lru : Lru) (addr : Nat) : Lru :=
  { lru with
    order := lru.order.erase addr
    synced := if lru.synced = some addr then newer lru.order addr else lru.synced }

def add (lru : Lru) (addr : Nat) (needSync : Bool) : Lru :=
  { lru with
    order := addr :: lru.order
    synced := if lru.synced = none ∧ needSync = false then some addr else lru.synced }

def front (lru : Lru) (addr : Nat) (needSync : Bool) : Lru := (lru.remove addr).add addr needSync

def discard (lru : Lru) (addr : Nat) : Lru :=
  { lru with pages := Function.update lru.pages addr none }

def fetch (lru : Lru) (pgno : Nat) : (result : Option Nat) → Lru
  | none => lru
  | some addr =>
      match lru.pages addr with
      | some page => lru.put addr { page with nRef := page.nRef + 1, isPinned := true }
      | none => lru.put addr ⟨pgno, 1, PGHDR_CLEAN, true⟩

def release (lru : Lru) (addr : Nat) : Lru :=
  match lru.pages addr with
  | none => lru
  | some page =>
      let page := Page.settle lru.purgeable { page with nRef := page.nRef - 1 }
      if page.nRef = 0 ∧ page.flags.dirty = true ∧ lru.order.head? ≠ some addr then
        (lru.put addr page).front addr page.flags.needSync
      else lru.put addr page

def drop (lru : Lru) (addr : Nat) : Lru :=
  (if addr ∈ lru.order then lru.remove addr else lru).discard addr

def makeDirty (lru : Lru) (addr : Nat) : Lru :=
  match lru.pages addr with
  | none => lru
  | some page =>
      if page.flags.clean = true then
        (lru.put addr { page with
          flags := { page.flags with dontWrite := false, clean := false, dirty := true } }).add
            addr page.flags.needSync
      else lru.put addr { page with flags := { page.flags with dontWrite := false } }

def cleaned (flags : PgFlags) : PgFlags :=
  { flags with clean := true, dirty := false, needSync := false, writeable := false }

def makeClean (lru : Lru) (addr : Nat) : Lru :=
  (lru.remove addr).change addr fun page =>
    Page.settle lru.purgeable { page with flags := cleaned page.flags }

def cleanAll (lru : Lru) : Lru := lru.order.foldl makeClean lru

def changeDirty (lru : Lru) (f : PgFlags → PgFlags) : Lru :=
  { lru with
    pages := fun addr => if addr ∈ lru.order then
      (lru.pages addr).map fun page => { page with flags := f page.flags } else lru.pages addr
    synced := lru.order.getLast? }

def clearWritable (lru : Lru) : Lru :=
  lru.changeDirty fun flags => { flags with needSync := false, writeable := false }

def clearSyncFlags (lru : Lru) : Lru :=
  lru.changeDirty fun flags => { flags with needSync := false }

def rekey (lru : Lru) (addr iNew : Nat) (flags : PgFlags) : Lru :=
  match lru.pages addr with
  | none => lru
  | some page =>
      let lru := lru.put addr { page with pgno := iNew, flags := flags }
      if flags.dirty = true ∧ flags.needSync = true then lru.front addr true else lru

def isAbove (lru : Lru) (pgno addr : Nat) : Bool :=
  (lru.pages addr).any fun page => decide (pgno < page.pgno)

def cleanAbove (lru : Lru) (pgno : Nat) : Lru :=
  (lru.order.filter (lru.isAbove pgno)).foldl makeClean lru

noncomputable def truncate (lru : Lru) (pgno : Nat) : Lru :=
  let last := if pgno = 0 ∧ (lru.cleanAbove pgno).refs ≠ 0 then 1 else pgno
  { lru.cleanAbove pgno with
    pages := fun addr =>
      ((lru.cleanAbove pgno).pages addr).filter fun page => decide (page.pgno ≤ last) }

def fromSynced (lru : Lru) : List Nat :=
  match lru.synced with
  | none => []
  | some addr => lru.order.reverse.dropWhile fun other => other != addr

def spillable (lru : Lru) (addr : Nat) : Bool :=
  (lru.pages addr).any fun page => page.idle && !page.flags.needSync

def idle (lru : Lru) (addr : Nat) : Bool := (lru.pages addr).any Page.idle

def stressPage (lru : Lru) : Option Nat :=
  match lru.fromSynced.find? lru.spillable with
  | some addr => some addr
  | none => lru.order.reverse.find? lru.idle

def needsSync (lru : Lru) (addr : Nat) : Bool :=
  (lru.pages addr).any fun page => page.flags.needSync

def spill (lru : Lru) (addr : Nat) : Stress → Lru
  | .kept => lru
  | .failed synced => if synced = true then lru.clearSyncFlags else lru
  | .written cacheMod => (if lru.needsSync addr = true ∨ cacheMod = true then lru.clearSyncFlags
      else lru).makeClean addr

def stress (lru : Lru) (overfull : Bool) (outcome : Stress) : Lru :=
  if lru.purgeable = false ∨ lru.order = [] ∨ overfull = false then lru
  else
    let searched := { lru with synced := lru.fromSynced.find? lru.spillable }
    match lru.stressPage with
    | none => searched
    | some addr => searched.spill addr outcome

noncomputable def apply (lru : Lru) : Op → Lru
  | .fetch pgno _ result => lru.fetch pgno result
  | .refetch pgno result => lru.fetch pgno result
  | .ref addr => lru.change addr fun page => { page with nRef := page.nRef + 1 }
  | .release addr => lru.release addr
  | .drop addr => lru.drop addr
  | .makeDirty addr => lru.makeDirty addr
  | .makeClean addr => lru.makeClean addr
  | .cleanAll => lru.cleanAll
  | .clearWritable => lru.clearWritable
  | .clearSyncFlags => lru.clearSyncFlags
  | .rekey addr iNew flags => lru.rekey addr iNew flags
  | .truncate pgno _ => lru.truncate pgno
  | .stress overfull outcome => lru.stress overfull outcome
  | .mark addr mark => lru.change addr fun page => { page with flags := mark.apply page.flags }
  | .recycle addr => lru.discard addr

noncomputable def run (lru : Lru) (ops : List Op) : Lru := ops.foldl apply lru

def Has (lru : Lru) (addr : Nat) (holds : Page → Prop) : Prop :=
  ∃ page, lru.pages addr = some page ∧ holds page

/-- There can be one more reference to the page that is returned. -/
def Countable (lru : Lru) (result : Option Nat) : Prop :=
  ∀ addr page, result = some addr → lru.pages addr = some page → page.nRef + 1 < nRefLimit

def Allowed (lru : Lru) : Op → Prop
  | .fetch pgno createFlag result => 0 < pgno ∧ (createFlag = 3 ∨ createFlag = 0) ∧
      FetchResult lru.pool pgno
        (createFlag &&& if lru.purgeable = true ∧ lru.order ≠ [] then 1 else 2) result ∧
      lru.Countable result
  | .refetch pgno result => 0 < pgno ∧ FetchResult lru.pool pgno 2 result ∧ lru.Countable result
  | .ref addr => lru.Has addr fun page => 0 < page.nRef ∧ page.nRef + 1 < nRefLimit
  | .release addr => lru.Has addr fun page => 0 < page.nRef
  | .drop addr => lru.Has addr fun page => page.nRef = 1
  | .makeDirty addr => lru.Has addr fun page => 0 < page.nRef ∧ page.pgno ≤ PAGER_MAX_PGNO
  | .makeClean addr => addr ∈ lru.order
  | .cleanAll => True
  | .clearWritable => True
  | .clearSyncFlags => True
  | .rekey addr iNew flags => 0 < iNew ∧ iNew ≤ PAGER_MAX_PGNO ∧
      addr ∈ lru.order ∧ lru.Has addr (fun page => 0 < page.nRef) ∧
      (∀ other page, lru.pages other = some page → page.pgno ≠ iNew) ∧
      (flags = .zero ∨ flags.dirty = true ∧ flags.clean = false)
  | .truncate pgno pPage1 =>
      (∀ addr page, lru.pages addr = some page → pgno < page.pgno → 0 < page.nRef →
        pgno = 0 ∧ page.pgno = 1) ∧ FetchResult lru.pool 1 0 pPage1
  | .stress _ _ => True
  | .mark addr mark => match mark with
      | .needSync => lru.Has addr fun _ => True
      | .noSync => lru.Has addr fun _ => True
      | .writeable => addr ∈ lru.order
      | .dontWrite => addr ∈ lru.order
  | .recycle addr => lru.Has addr fun page => page.isPinned = false

/-- Every operation of a run is allowed when its turn comes. While pages of the list have no
flags, pages get other numbers and nothing else happens. -/
def AllowedRun : (unflagged : List Nat) → Lru → List Op → Prop
  | unflagged, _, [] => unflagged = []
  | unflagged, lru, op :: ops => (unflagged = [] ∨ op.isRekey = true) ∧ lru.Allowed op ∧
      AllowedRun (op.unflagged unflagged) (lru.apply op) ops

end Lru

end EspSqlite.Pages
