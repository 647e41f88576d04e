import EspSqlite.Pages.Invariant
import EspSqlite.Pages.DirtyList

namespace EspSqlite.Pages

open DoublyLinked

/-! # The page cache as an ordered set of dirty pages

A page cache represents its pages and the order of the dirty ones; changing one page and its
place in the list keeps that. -/

def Page.data (page : Page) : Nat × Nat × PgFlags := (page.pgno, page.nRef, page.flags)

structure Represents (p : PCache) (lru : Lru) : Prop where
  threaded : Threaded p lru.order
  data : ∀ addr, (p.headers addr).map PgHdr.data = (lru.pages addr).map Page.data
  pool : ∀ addr, p.pCache addr = (lru.pages addr).map Page.pool
  refs : p.nRefSum = lru.refs
  synced : p.pSynced = lru.synced
  purgeable : p.bPurgeable = lru.purgeable

variable {p p' : PCache} {lru lru' : Lru} {addr : Nat} {page page' : Page} {hdr : PgHdr}

theorem Represents.header (represents : Represents p lru) (found : lru.pages addr = some page) :
    ∃ hdr, p.headers addr = some hdr ∧ hdr.data = page.data := by
  have same := represents.data addr
  rw [found, Option.map_some] at same
  exact Option.map_eq_some_iff.mp same

theorem Represents.no_header (represents : Represents p lru) (found : lru.pages addr = none) :
    p.headers addr = none := by
  have same := represents.data addr
  rw [found, Option.map_none] at same
  exact Option.map_eq_none_iff.mp same

theorem data_eq (same : hdr.data = page.data) :
    hdr.pgno = page.pgno ∧ hdr.nRef = page.nRef ∧ hdr.flags = page.flags := by
  injection same with pgno rest
  injection rest with nRef flags
  exact ⟨pgno, nRef, flags⟩

theorem Represents.poolPage (represents : Represents p lru) (found : lru.pages addr = some page) :
    p.pCache addr = some page.pool := by
  rw [represents.pool, found, Option.map_some]

/-! ## References -/

theorem refs_only (lru lru' : Lru) (bounded : addr < addressSpace)
    (others : ∀ other, other ≠ addr → lru'.pages other = lru.pages other) :
    lru'.refs + ((lru.pages addr).map Page.nRef).getD 0 =
      lru.refs + ((lru'.pages addr).map Page.nRef).getD 0 := by
  have member : addr ∈ Finset.range addressSpace := Finset.mem_range.mpr bounded
  rw [Lru.refs, Lru.refs, ← Finset.add_sum_erase _ _ member, ← Finset.add_sum_erase _ _ member]
  have sameOthers : ∀ other ∈ (Finset.range addressSpace).erase addr,
      ((lru'.pages other).map Page.nRef).getD 0 = ((lru.pages other).map Page.nRef).getD 0 := by
    intro other isOther
    rw [others other (Finset.ne_of_mem_erase isOther)]
  rw [Finset.sum_congr rfl sameOthers]
  omega

theorem refs_pos (bounded : addr < addressSpace) (found : lru.pages addr = some page) :
    page.nRef ≤ lru.refs := by
  have member : addr ∈ Finset.range addressSpace := Finset.mem_range.mpr bounded
  rw [Lru.refs, ← Finset.add_sum_erase _ _ member, found]
  exact Nat.le_add_right _ _

/-! ## Single changes -/

theorem Represents.remove (represents : Represents p lru) (listed : addr ∈ lru.order) :
    ∃ p', removeDirty p addr = some p' ∧ Represents p' (lru.remove addr) := by
  rcases represents.threaded.removeDirty listed with ⟨p', removes, threaded, same, synced⟩
  refine ⟨p', removes, threaded, ?_, ?_, ?_, ?_, ?_⟩
  · exact fun other => (same.headers other).trans (represents.data other)
  · exact fun other => (congrFun same.pCache other).trans (represents.pool other)
  · exact same.nRefSum.trans represents.refs
  · rw [synced, represents.synced]
    rfl
  · exact same.bPurgeable.trans represents.purgeable

theorem Represents.add (represents : Represents p lru) (notListed : addr ∉ lru.order)
    (found : lru.pages addr = some page) :
    ∃ p', addDirty p addr = some p' ∧ Represents p' (lru.add addr page.flags.needSync) := by
  rcases represents.header found with ⟨hdr, isHdr, sameData⟩
  rcases data_eq sameData with ⟨_, _, sameFlags⟩
  refine ⟨_, represents.threaded.addDirty_eq notListed isHdr,
    represents.threaded.added notListed isHdr, ?_, ?_, ?_, ?_, ?_⟩
  · exact fun other => (added_sameData.headers other).trans (represents.data other)
  · exact represents.pool
  · exact represents.refs
  · rw [← sameFlags]
    change (if p.pSynced = none ∧ _ then _ else p.pSynced) = _
    rw [represents.synced]
    rfl
  · exact represents.purgeable

theorem Represents.front (represents : Represents p lru) (valid : lru.order.Nodup)
    (listed : addr ∈ lru.order) (found : lru.pages addr = some page) :
    ∃ p', pcacheManageDirtyList p addr .front = some p' ∧
      Represents p' (lru.front addr page.flags.needSync) := by
  rcases represents.remove listed with ⟨middle, removes, removed⟩
  rcases removed.add valid.not_mem_erase found with ⟨p', adds, added⟩
  exact ⟨p', bind_of removes adds, added⟩

theorem Represents.put (represents : Represents p lru) (found : lru.pages addr = some page)
    (change : PgHdr → PgHdr) (page' : Page) {pool : Nat → Option PoolPage} {nRefSum : Nat}
    (next : ∀ hdr, (change hdr).pDirtyNext = hdr.pDirtyNext)
    (prev : ∀ hdr, (change hdr).pDirtyPrev = hdr.pDirtyPrev)
    (data : ∀ hdr, hdr.data = page.data → (change hdr).data = page'.data)
    (isPool : pool = Function.update p.pCache addr (some page'.pool))
    (bounded : addr < addressSpace)
    (refs : nRefSum + page.nRef = p.nRefSum + page'.nRef) :
    Represents { p with
      headers := redirect p.headers (some addr) change
      pCache := pool
      nRefSum := nRefSum } (lru.put addr page') := by
  rcases represents.header found with ⟨hdr, isHdr, sameData⟩
  refine ⟨?_, ?_, ?_, ?_, represents.synced, represents.purgeable⟩
  · refine represents.threaded.congr (link_redirect next) (link_redirect prev) ?_ rfl rfl rfl rfl
    exact fun other listed => redirect_found (represents.threaded.found other listed)
  · intro other
    change (redirect p.headers (some addr) change other).map PgHdr.data = _
    rcases eq_or_ne other addr with rfl | differs
    · rw [redirect_same isHdr, Lru.put_pages_same, Option.map_some, Option.map_some,
        data hdr sameData]
    · rw [redirect_other fun same => differs (Option.some.inj same), Lru.put_pages_other differs]
      exact represents.data other
  · intro other
    change pool other = _
    rw [isPool]
    rcases eq_or_ne other addr with rfl | differs
    · rw [Function.update_self, Lru.put_pages_same, Option.map_some]
    · rw [Function.update_of_ne differs, Lru.put_pages_other differs]
      exact represents.pool other
  · have total := refs_only lru (lru.put addr page') bounded
      fun other differs => Lru.put_pages_other differs
    rw [found, Lru.put_pages_same, Option.map_some, Option.map_some, Option.getD_some,
      Option.getD_some, ← represents.refs] at total
    change nRefSum = _
    omega

theorem Represents.same_pool (represents : Represents p lru) (found : lru.pages addr = some page)
    (page' : Page) (samePool : page'.pool = page.pool) :
    p.pCache = Function.update p.pCache addr (some page'.pool) := by
  funext other
  rw [samePool]
  rcases eq_or_ne other addr with rfl | differs
  · rw [Function.update_self, represents.poolPage found]
  · rw [Function.update_of_ne differs]

theorem Represents.put_header (represents : Represents p lru) (found : lru.pages addr = some page)
    (change : PgHdr → PgHdr) (page' : Page)
    (next : ∀ hdr, (change hdr).pDirtyNext = hdr.pDirtyNext)
    (prev : ∀ hdr, (change hdr).pDirtyPrev = hdr.pDirtyPrev)
    (data : ∀ hdr, hdr.data = page.data → (change hdr).data = page'.data)
    (samePool : page'.pool = page.pool) (sameRefs : page'.nRef = page.nRef)
    (bounded : addr < addressSpace) :
    ∃ p', p.update addr change = some p' ∧ Represents p' (lru.put addr page') := by
  rcases represents.header found with ⟨hdr, isHdr, _⟩
  refine ⟨_, PCache.update_eq isHdr, ?_⟩
  exact represents.put found change page' next prev data
    (represents.same_pool found page' samePool) bounded (by rw [sameRefs])

theorem Represents.put_flags (represents : Represents p lru) (found : lru.pages addr = some page)
    {change : PgFlags → PgFlags} (bounded : addr < addressSpace) :
    ∃ p', p.updateFlags addr change = some p' ∧
      Represents p' (lru.put addr { page with flags := change page.flags }) := by
  refine represents.put_header found (PgHdr.withFlags change) _ (fun _ => rfl) (fun _ => rfl) ?_
    rfl rfl bounded
  intro hdr sameData
  rcases data_eq sameData with ⟨samePgno, sameRefs, sameFlags⟩
  simp only [PgHdr.data, PgHdr.withFlags, Page.data]
  rw [samePgno, sameRefs, sameFlags]

theorem Represents.discard (represents : Represents p lru) (found : lru.pages addr = some page)
    (notListed : addr ∉ lru.order) (bounded : addr < addressSpace) {nRefSum : Nat}
    (refs : nRefSum + page.nRef = p.nRefSum) :
    Represents { p with
      headers := Function.update p.headers addr none
      pCache := Function.update p.pCache addr none
      nRefSum := nRefSum } (lru.discard addr) := by
  have hereLinks : ∀ pointer : PgHdr → Option Nat, link p.headers pointer addr = none →
      link (Function.update p.headers addr none) pointer = link p.headers pointer := by
    intro pointer isNone
    funext other
    rcases eq_or_ne other addr with rfl | differs
    · rw [isNone, link, Function.update_self, Option.bind_none]
    · rw [link, link, Function.update_of_ne differs]
  have apart := represents.threaded.apart addr notListed
  refine ⟨?_, ?_, ?_, ?_, represents.synced, represents.purgeable⟩
  · refine represents.threaded.congr (hereLinks _ apart.1) (hereLinks _ apart.2) ?_ rfl rfl rfl rfl
    intro other listed
    rcases represents.threaded.found other listed with ⟨hdr, isHdr⟩
    have differs : other ≠ addr := fun same => notListed (same ▸ listed)
    exact ⟨hdr, (Function.update_of_ne differs _ _).trans isHdr⟩
  · intro other
    change (Function.update p.headers addr none other).map PgHdr.data =
      (Function.update lru.pages addr none other).map Page.data
    rcases eq_or_ne other addr with rfl | differs
    · rw [Function.update_self, Function.update_self, Option.map_none, Option.map_none]
    · rw [Function.update_of_ne differs, Function.update_of_ne differs]
      exact represents.data other
  · intro other
    change Function.update p.pCache addr none other =
      (Function.update lru.pages addr none other).map Page.pool
    rcases eq_or_ne other addr with rfl | differs
    · rw [Function.update_self, Function.update_self, Option.map_none]
    · rw [Function.update_of_ne differs, Function.update_of_ne differs]
      exact represents.pool other
  · have total := refs_only lru (lru.discard addr) bounded
      fun other differs => Function.update_of_ne differs _ _
    have isNone : (lru.discard addr).pages addr = none := if_pos rfl
    rw [found, isNone, Option.map_some, Option.map_none, Option.getD_some, Option.getD_none,
      ← represents.refs] at total
    change nRefSum = _
    omega

theorem Represents.put_new (represents : Represents p lru) (unused : lru.pages addr = none)
    (notListed : addr ∉ lru.order) (page : Page) (headers : Nat → Option PgHdr)
    (others : ∀ other, other ≠ addr → headers other = p.headers other)
    (here : headers addr = some hdr) (unlinked : hdr.pDirtyNext = none ∧ hdr.pDirtyPrev = none)
    (data : hdr.data = page.data) (bounded : addr < addressSpace) :
    Represents { p with
      headers := headers
      pCache := Function.update p.pCache addr (some page.pool)
      nRefSum := p.nRefSum + page.nRef } (lru.put addr page) := by
  have apart := represents.threaded.apart addr notListed
  have sameLinks : ∀ pointer : PgHdr → Option Nat, link p.headers pointer addr = none →
      pointer hdr = none → link headers pointer = link p.headers pointer := by
    intro pointer isNone toNone
    funext other
    rcases eq_or_ne other addr with rfl | differs
    · rw [isNone, link, here, Option.bind_some, toNone]
    · rw [link, link, others other differs]
  refine ⟨?_, ?_, ?_, ?_, represents.synced, represents.purgeable⟩
  · refine represents.threaded.congr (sameLinks _ apart.1 unlinked.1)
      (sameLinks _ apart.2 unlinked.2) ?_ rfl rfl rfl rfl
    intro other listed
    have differs : other ≠ addr := fun same => notListed (same ▸ listed)
    rcases represents.threaded.found other listed with ⟨found, isFound⟩
    exact ⟨found, (others other differs).trans isFound⟩
  · intro other
    change (headers other).map PgHdr.data = _
    rcases eq_or_ne other addr with rfl | differs
    · rw [here, Lru.put_pages_same, Option.map_some, Option.map_some, data]
    · rw [others other differs, Lru.put_pages_other differs]
      exact represents.data other
  · intro other
    change Function.update p.pCache addr (some page.pool) other = _
    rcases eq_or_ne other addr with rfl | differs
    · rw [Function.update_self, Lru.put_pages_same, Option.map_some]
    · rw [Function.update_of_ne differs, Lru.put_pages_other differs]
      exact represents.pool other
  · have total := refs_only lru (lru.put addr page) bounded
      fun other differs => Lru.put_pages_other differs
    rw [unused, Lru.put_pages_same, Option.map_some, Option.map_none, Option.getD_some,
      Option.getD_none, ← represents.refs, Nat.add_zero] at total
    exact total.symm

/-! ## Asserts -/

theorem sanity_of (isHdr : p.headers addr = some hdr) (pgno : 0 < hdr.pgno)
    (clean : hdr.flags.clean = true → hdr.flags.dirty = false)
    (apart : hdr.flags.clean = true → p.pDirty ≠ some addr ∧ p.pDirtyTail ≠ some addr)
    (writeable : hdr.flags.writeable = true → hdr.flags.dirty = true) :
    sqlite3PcachePageSanity p addr = some () := by
  have isClean : hdr.flags.clean = true →
      hdr.flags.dirty = false ∧ p.pDirty ≠ some addr ∧ p.pDirtyTail ≠ some addr :=
    fun isClean => ⟨clean isClean, apart isClean⟩
  apply bind_of isHdr
  apply bind_of (check_pos pgno)
  apply bind_of (check_pos isClean)
  exact check_pos writeable

theorem Represents.sanity (represents : Represents p lru) (valid : lru.Valid)
    (found : lru.pages addr = some page) : sqlite3PcachePageSanity p addr = some () := by
  rcases represents.header found with ⟨hdr, isHdr, sameData⟩
  rcases data_eq sameData with ⟨samePgno, _, sameFlags⟩
  have isValid := valid.page addr page found
  apply sanity_of isHdr
  · rw [samePgno]
    exact isValid.pgno
  · rw [sameFlags]
    intro isClean
    have opposite := isValid.clean
    rw [isClean, eq_comm, Bool.not_eq_true'] at opposite
    exact opposite
  · rw [sameFlags]
    intro isClean
    apply represents.threaded.notEnds
    intro listed
    have opposite := isValid.clean
    rw [isClean, isValid.dirty.mpr listed] at opposite
    cases opposite
  · rw [sameFlags]
    exact isValid.writeable

end EspSqlite.Pages
