import EspSqlite.Pages.Buckets

namespace EspSqlite.Pages

open HeapList DoublyLinked

/-! # The list of dirty pages for the pager

After every run of the page cache `sqlite3PcacheDirtyList` returns the dirty pages in the
order of their numbers. -/

variable {p p' : PCache} {lru : Lru} {addr : Nat}

def pageNumber (lru : Lru) (addr : Nat) : Nat := ((lru.pages addr).map Page.pgno).getD 0

theorem pageNumber_eq {page : Page} (found : lru.pages addr = some page) :
    pageNumber lru addr = page.pgno := by
  rw [pageNumber, found, Option.map_some, Option.getD_some]

theorem Represents.numbered (represents : Represents p lru) (valid : lru.Valid) :
    Numbered p (pageNumber lru) where
  pgno := by
    intro addr hdr isHdr
    rcases represents.page isHdr with ⟨page, found, samePgno, _⟩
    rw [pageNumber_eq found, samePgno]
  distinct := by
    rintro addr other ⟨hdr, isHdr⟩ ⟨hdr', isHdr'⟩ sameNumber
    rcases represents.page isHdr with ⟨page, found, _⟩
    rcases represents.page isHdr' with ⟨page', found', _⟩
    rw [pageNumber_eq found, pageNumber_eq found'] at sameNumber
    exact valid.distinct addr other page page' found found' sameNumber

theorem Lru.Valid.few_dirty (valid : lru.Valid) : lru.order.length < 2 ^ 31 := by
  have small : ∀ addr ∈ lru.order, 0 < pageNumber lru addr ∧ pageNumber lru addr < 2 ^ 31 := by
    intro addr listed
    rcases valid.found addr listed with ⟨page, found⟩
    have isValid := valid.page addr page found
    have bound := isValid.small (isValid.dirty.mpr listed)
    have positive := isValid.pgno
    rw [pageNumber_eq found]
    rw [PAGER_MAX_PGNO] at bound
    omega
  have nodup : (lru.order.map (pageNumber lru)).Nodup := by
    apply valid.nodup.map_on
    intro addr listed other listedOther same
    rcases valid.found addr listed with ⟨page, found⟩
    rcases valid.found other listedOther with ⟨page', found'⟩
    rw [pageNumber_eq found, pageNumber_eq found'] at same
    exact valid.distinct addr other page page' found found' same
  have notZero : 0 ∉ lru.order.map (pageNumber lru) := by
    intro isZero
    rcases List.mem_map.mp isZero with ⟨addr, listed, isNumber⟩
    exact absurd isNumber (Nat.ne_of_gt (small addr listed).1)
  have below : ∀ number ∈ 0 :: lru.order.map (pageNumber lru), number < 2 ^ 31 := by
    intro number member
    rcases List.mem_cons.mp member with rfl | member
    · exact Nat.two_pow_pos 31
    · rcases List.mem_map.mp member with ⟨addr, listed, rfl⟩
      exact (small addr listed).2
  have short := length_le_of_below (List.nodup_cons.mpr ⟨notZero, nodup⟩) below
  rw [List.length_cons, List.length_map] at short
  exact short

/-! ## Copying the list -/

def copied (p : PCache) (order : List Nat) : PCache :=
  { p with headers := redirectAll p.headers order fun hdr => hdr.withDirty hdr.pDirtyNext }

theorem copied_only (p : PCache) (order : List Nat) : DirtyOnly p (copied p order) where
  same := rfl
  headers := by
    intro addr
    change (redirectAll p.headers order _ addr).map _ = _
    rw [redirectAll]
    split
    · rw [Option.map_map]
      rfl
    · rfl

theorem Represents.copied_stored (represents : Represents p lru) (valid : lru.Valid) :
    Stored (copied p lru.order) [lru.order] where
  chained := by
    intro list member
    rw [List.mem_singleton.mp member]
    apply represents.threaded.linked.chained.congr
    intro addr listed
    change ((redirectAll p.headers lru.order _) addr).bind PgHdr.pDirty = _
    rw [redirectAll, if_pos listed, link, Option.bind_map]
    rfl
  found := by
    intro addr listed
    rw [List.flatten_singleton] at listed
    exact redirectAll_found (represents.threaded.found addr listed)
  nodup := by
    rw [List.flatten_singleton]
    exact valid.nodup
  short := by
    rw [List.flatten_singleton]
    exact valid.length_le

/-! ## The sorted list -/

structure Ordered (p : PCache) (start : Option Nat) (pages : List Nat) : Prop where
  follows : follow p.headers PgHdr.pDirty addressSpace start = some pages
  ascending : pages.Pairwise fun left right => ∀ hdr hdr',
    p.headers left = some hdr → p.headers right = some hdr' → hdr.pgno < hdr'.pgno

theorem Represents.dirtyList (represents : Represents p lru) (valid : lru.Valid) :
    ∃ p' start sorted, sqlite3PcacheDirtyList p = some (p', start) ∧ Ordered p' start sorted ∧
      sorted.Perm lru.order ∧ DirtyOnly p p' := by
  have numbered := represents.numbered valid
  have only := copied_only p lru.order
  rcases pcacheSortDirtyList_eq (only.numbered numbered) (represents.copied_stored valid)
    valid.few_dirty with ⟨p', sorted, sorts, stored, perm, isSorted, only'⟩
  refine ⟨p', sorted.head?, sorted, ?_, ⟨?_, ?_⟩, perm, only.trans only'⟩
  · refine bind_of (represents.updateDirty valid fun _ => rfl) ?_
    rw [← represents.threaded.first] at sorts
    exact sorts
  · have chained := stored.chained sorted List.mem_cons_self
    apply chained.follow
    · exact perm.length_eq ▸ valid.length_le
    · intro addr member
      apply stored.found
      rw [List.flatten_singleton]
      exact member
  · have nodup : sorted.Nodup := perm.nodup_iff.mpr valid.nodup
    apply (nodup.and isSorted).imp
    rintro left right ⟨differ, isLe⟩ hdr hdr' isHdr isHdr'
    have numbered' := (only.trans only').numbered numbered
    rw [numbered'.pgno left hdr isHdr, numbered'.pgno right hdr' isHdr']
    apply Nat.lt_of_le_of_ne (of_decide_eq_true isLe)
    exact fun same => differ (numbered'.distinct left right ⟨hdr, isHdr⟩ ⟨hdr', isHdr'⟩ same)

/-- After every run the pager gets all dirty pages and no others, each once, in the order of
their numbers, and nothing else of the page cache changes. -/
theorem dirtyList_ordered (purgeable : Bool) (ops : List Op)
    (allowed : (Lru.opened purgeable).AllowedRun [] ops) :
    ∃ p p' start sorted, PCache.run (sqlite3PcacheOpen purgeable) ops = some p ∧
      sqlite3PcacheDirtyList p = some (p', start) ∧ Ordered p' start sorted ∧
      (∀ addr hdr, p'.headers addr = some hdr → (hdr.flags.dirty = true ↔ addr ∈ sorted)) ∧
      DirtyOnly p p' ∧ Sound p' ((Lru.opened purgeable).run ops).order := by
  rcases run_opened allowed with ⟨⟨p, runs, represents⟩, valid⟩
  rcases represents.dirtyList valid with ⟨p', start, sorted, returns, ordered, perm, only⟩
  have sound := (only.represents represents).sound valid
  refine ⟨p, p', start, sorted, runs, returns, ordered, ?_, only, sound⟩
  intro addr hdr isHdr
  exact (sound.dirty addr hdr isHdr).trans perm.mem_iff.symm

theorem dirtyList_ordered_changing :
    ∃ p p' start sorted, PCache.run (sqlite3PcacheOpen true) changing = some p ∧
      sqlite3PcacheDirtyList p = some (p', start) ∧ Ordered p' start sorted ∧
      (∀ addr hdr, p'.headers addr = some hdr → (hdr.flags.dirty = true ↔ addr ∈ sorted)) ∧
      DirtyOnly p p' ∧ Sound p' ((Lru.opened true).run changing).order :=
  dirtyList_ordered true changing changing_allowed

end EspSqlite.Pages
