import EspSqlite.Pages.Lru
import Mathlib.Data.List.TakeWhile

namespace EspSqlite.Pages

/-! # What stays true of the pages

The list holds the dirty pages and no others, a page is either clean or dirty, a page that
can be recycled is clean and not in use, and no page number is there twice. -/

namespace Lru

structure Valid (lru : Lru) : Prop where
  page : ∀ addr page, lru.pages addr = some page → page.Valid lru.purgeable (addr ∈ lru.order)
  bounded : ∀ addr page, lru.pages addr = some page → addr < addressSpace
  found : ∀ addr ∈ lru.order, ∃ page, lru.pages addr = some page
  nodup : lru.order.Nodup
  distinct : ∀ addr other page page', lru.pages addr = some page →
    lru.pages other = some page' → page.pgno = page'.pgno → addr = other
  synced : ∀ addr, lru.synced = some addr → addr ∈ lru.order

variable {lru lru' : Lru} {addr : Nat} {page page' : Page}

theorem opened_valid (purgeable : Bool) : (opened purgeable).Valid where
  page := fun _ _ found => by cases found
  bounded := fun _ _ found => by cases found
  found := fun _ member => absurd member List.not_mem_nil
  nodup := List.nodup_nil
  distinct := fun _ _ _ _ found => by cases found
  synced := fun _ isSynced => by cases isSynced

@[simp] theorem put_pages_same : (lru.put addr page).pages addr = some page :=
  Function.update_self _ _ _

theorem put_pages_other {other : Nat} (differs : other ≠ addr) :
    (lru.put addr page).pages other = lru.pages other :=
  Function.update_of_ne differs _ _

@[simp] theorem put_order : (lru.put addr page).order = lru.order := rfl
@[simp] theorem put_synced : (lru.put addr page).synced = lru.synced := rfl
@[simp] theorem put_purgeable : (lru.put addr page).purgeable = lru.purgeable := rfl

theorem change_eq {f : Page → Page} (found : lru.pages addr = some page) :
    lru.change addr f = lru.put addr (f page) := by
  simp [change, found]

/-! ## Changing one page -/

structure OnlyAt (addr : Nat) (entry : Option Page) (lru lru' : Lru) : Prop where
  here : lru'.pages addr = entry
  others : ∀ other, other ≠ addr → lru'.pages other = lru.pages other
  purgeable : lru'.purgeable = lru.purgeable
  order : ∀ other, other ≠ addr → (other ∈ lru'.order ↔ other ∈ lru.order)
  nodup : lru'.order.Nodup
  synced : ∀ other, lru'.synced = some other → other ∈ lru'.order

theorem Valid.of_put (valid : lru.Valid) (only : OnlyAt addr (some page) lru lru')
    (isValid : page.Valid lru.purgeable (addr ∈ lru'.order)) (bounded : addr < addressSpace)
    (distinct : ∀ other old, other ≠ addr → lru.pages other = some old → old.pgno ≠ page.pgno) :
    lru'.Valid where
  page := by
    intro other old found
    rw [only.purgeable]
    rcases eq_or_ne other addr with rfl | differs
    · rw [only.here] at found
      cases found
      exact isValid
    · rw [only.others other differs] at found
      have old := valid.page other old found
      simp only [only.order other differs]
      exact old
  bounded := by
    intro other old found
    rcases eq_or_ne other addr with rfl | differs
    · exact bounded
    · rw [only.others other differs] at found
      exact valid.bounded other old found
  found := by
    intro other member
    rcases eq_or_ne other addr with rfl | differs
    · exact ⟨page, only.here⟩
    · rw [only.others other differs]
      exact valid.found other ((only.order other differs).mp member)
  nodup := only.nodup
  distinct := by
    intro one other old old' foundOne foundOther samePgno
    rcases eq_or_ne one addr with rfl | oneDiffers
    · rcases eq_or_ne other one with rfl | otherDiffers
      · rfl
      · rw [only.here] at foundOne
        cases foundOne
        rw [only.others other otherDiffers] at foundOther
        exact absurd samePgno.symm (distinct other old' otherDiffers foundOther)
    · rw [only.others one oneDiffers] at foundOne
      rcases eq_or_ne other addr with rfl | otherDiffers
      · rw [only.here] at foundOther
        cases foundOther
        exact absurd samePgno (distinct one old oneDiffers foundOne)
      · rw [only.others other otherDiffers] at foundOther
        exact valid.distinct one other old old' foundOne foundOther samePgno
  synced := only.synced

theorem Valid.others_differ (valid : lru.Valid) (found : lru.pages addr = some page) :
    ∀ other old, other ≠ addr → lru.pages other = some old → old.pgno ≠ page.pgno := by
  intro other old differs foundOld samePgno
  exact differs (valid.distinct other addr old page foundOld found samePgno)

theorem Valid.of_change (valid : lru.Valid) (found : lru.pages addr = some page)
    (only : OnlyAt addr (some page') lru lru')
    (isValid : page'.Valid lru.purgeable (addr ∈ lru'.order)) (samePgno : page'.pgno = page.pgno) :
    lru'.Valid := by
  apply valid.of_put only isValid (valid.bounded addr page found)
  rw [samePgno]
  exact valid.others_differ found

theorem Valid.of_discard (valid : lru.Valid) (addr : Nat) (only : OnlyAt addr none lru lru')
    (notListed : addr ∉ lru'.order) : lru'.Valid where
  page := by
    intro other old found
    have differs : other ≠ addr := by
      rintro rfl
      rw [only.here] at found
      cases found
    rw [only.others other differs] at found
    rw [only.purgeable]
    have old := valid.page other old found
    simp only [only.order other differs]
    exact old
  bounded := by
    intro other old found
    have differs : other ≠ addr := by
      rintro rfl
      rw [only.here] at found
      cases found
    rw [only.others other differs] at found
    exact valid.bounded other old found
  found := by
    intro other member
    have differs : other ≠ addr := fun same => notListed (same ▸ member)
    rw [only.others other differs]
    exact valid.found other ((only.order other differs).mp member)
  nodup := only.nodup
  distinct := by
    intro one other old old' foundOne foundOther samePgno
    have oneDiffers : one ≠ addr := by
      rintro rfl
      rw [only.here] at foundOne
      cases foundOne
    have otherDiffers : other ≠ addr := by
      rintro rfl
      rw [only.here] at foundOther
      cases foundOther
    rw [only.others one oneDiffers] at foundOne
    rw [only.others other otherDiffers] at foundOther
    exact valid.distinct one other old old' foundOne foundOther samePgno
  synced := only.synced

theorem Valid.onlyAt_put (valid : lru.Valid) : OnlyAt addr (some page) lru (lru.put addr page) where
  here := put_pages_same
  others := fun _ differs => put_pages_other differs
  purgeable := rfl
  order := fun _ _ => Iff.rfl
  nodup := valid.nodup
  synced := valid.synced

/-! ## Changing the list -/

theorem newer_ne {order : List Nat} {other : Nat} (isNewer : newer order addr = some other) :
    other ≠ addr ∧ other ∈ order := by
  have member := List.mem_of_getLast? isNewer
  constructor
  · rintro rfl
    have := List.mem_takeWhile_imp member
    simp at this
  · exact (List.takeWhile_prefix _).subset member

theorem Valid.remove_synced (valid : lru.Valid) :
    ∀ other, (lru.remove addr).synced = some other → other ∈ (lru.remove addr).order := by
  intro other isSynced
  rw [remove] at isSynced ⊢
  split at isSynced
  · rcases newer_ne isSynced with ⟨differs, member⟩
    exact (List.mem_erase_of_ne differs).mpr member
  · rename_i notHere
    have differs : other ≠ addr := by
      rintro rfl
      exact notHere isSynced
    exact (List.mem_erase_of_ne differs).mpr (valid.synced other isSynced)

theorem add_synced {needSync : Bool}
    (synced : ∀ other, lru.synced = some other → other ∈ lru.order) :
    ∀ other, (lru.add addr needSync).synced = some other →
      other ∈ (lru.add addr needSync).order := by
  intro other isSynced
  rw [add] at isSynced ⊢
  split at isSynced
  · cases isSynced
    exact List.mem_cons_self
  · exact List.mem_cons_of_mem addr (synced other isSynced)

theorem Valid.notMem_remove (valid : lru.Valid) : addr ∉ (lru.remove addr).order :=
  valid.nodup.not_mem_erase

theorem Valid.onlyAt_remove (valid : lru.Valid) :
    OnlyAt addr (some page) lru ((lru.remove addr).put addr page) where
  here := put_pages_same
  others := fun _ differs => put_pages_other differs
  purgeable := rfl
  order := fun _ differs => List.mem_erase_of_ne differs
  nodup := valid.nodup.erase addr
  synced := valid.remove_synced

theorem Valid.onlyAt_add (valid : lru.Valid) {needSync : Bool} (notListed : addr ∉ lru.order) :
    OnlyAt addr (some page) lru ((lru.put addr page).add addr needSync) where
  here := put_pages_same
  others := fun _ differs => put_pages_other differs
  purgeable := rfl
  order := by
    intro other differs
    change other ∈ addr :: lru.order ↔ other ∈ lru.order
    simp [differs]
  nodup := List.nodup_cons.mpr ⟨notListed, valid.nodup⟩
  synced := add_synced valid.synced

theorem Valid.onlyAt_front (valid : lru.Valid) {needSync : Bool} :
    OnlyAt addr (some page) lru ((lru.put addr page).front addr needSync) where
  here := put_pages_same
  others := fun _ differs => put_pages_other differs
  purgeable := rfl
  order := by
    intro other differs
    change other ∈ addr :: lru.order.erase addr ↔ other ∈ lru.order
    rw [List.mem_cons, List.mem_erase_of_ne differs]
    simp [differs]
  nodup := List.nodup_cons.mpr ⟨valid.nodup.not_mem_erase, valid.nodup.erase addr⟩
  synced := add_synced valid.remove_synced

/-! ## One operation -/

theorem Valid.fetch (valid : lru.Valid) {pgno eCreate : Nat} {result : Option Nat}
    (isPgno : 0 < pgno) (isResult : FetchResult lru.pool pgno eCreate result) :
    (lru.fetch pgno result).Valid := by
  cases result with
  | none => exact valid
  | some addr =>
      rw [Lru.fetch]
      cases found : lru.pages addr with
      | some page =>
          have old := valid.page addr page found
          change (lru.put addr _).Valid
          refine valid.of_change found valid.onlyAt_put ?_ rfl
          exact { old with pinned := by simp }
      | none =>
          have notListed : addr ∉ lru.order := by
            intro member
            rcases valid.found addr member with ⟨page, isPage⟩
            rw [found] at isPage
            cases isPage
          have isFresh : addr < addressSpace := by
            rcases isResult.2 addr rfl with ⟨page, isPage, _⟩ | ⟨_, _, bounded⟩
            · rw [pool, found] at isPage
              cases isPage
            · exact bounded
          apply valid.of_put valid.onlyAt_put ?_ isFresh
          · -- a page with this number would have been the result
            intro other old differs foundOld samePgno
            have inPool : lru.pool other = some old.pool := by
              rw [pool, foundOld, Option.map_some]
            have isThere := isResult.1 other old.pool inPool samePgno
            exact differs (Option.some.inj isThere).symm
          · exact {
              dirty := by simp [PGHDR_CLEAN, notListed]
              clean := rfl
              writeable := fun writeable => by cases writeable
              pinned := by simp
              pgno := isPgno
              small := fun dirty => by cases dirty }

theorem Valid.ref (valid : lru.Valid) (has : lru.Has addr fun page => 0 < page.nRef) :
    (lru.change addr fun page => { page with nRef := page.nRef + 1 }).Valid := by
  rcases has with ⟨page, found, inUse⟩
  have old := valid.page addr page found
  rw [change_eq found]
  refine valid.of_change found valid.onlyAt_put ?_ rfl
  refine { old with pinned := ?_ }
  rw [old.pinned, decide_eq_false (Nat.pos_iff_ne_zero.mp inUse),
    decide_eq_false (Nat.succ_ne_zero page.nRef)]

theorem Page.Valid.settle {purgeable : Bool} {listed : Prop} (valid : page.Valid purgeable listed)
    (nRef : Nat) : (Page.settle purgeable { page with nRef := nRef }).Valid purgeable listed :=
  { valid with pinned := rfl }

theorem Valid.release (valid : lru.Valid) (has : lru.Has addr fun page => 0 < page.nRef) :
    (lru.release addr).Valid := by
  rcases has with ⟨page, found, _⟩
  have old := Page.Valid.settle (valid.page addr page found) (page.nRef - 1)
  simp only [Lru.release, found]
  split
  · rename_i moved
    refine valid.of_change found valid.onlyAt_front ?_ rfl
    · have listed : addr ∈ lru.order := old.dirty.mp moved.2.1
      refine { old with dirty := ?_ }
      exact ⟨fun _ => List.mem_cons_self, fun _ => moved.2.1⟩
  · exact valid.of_change found valid.onlyAt_put old rfl

theorem Valid.drop (valid : lru.Valid) : (lru.drop addr).Valid := by
  rw [Lru.drop]
  split
  · apply valid.of_discard addr
    · exact {
        here := if_pos rfl
        others := fun _ differs => Function.update_of_ne differs _ _
        purgeable := rfl
        order := fun _ differs => List.mem_erase_of_ne differs
        nodup := valid.nodup.erase addr
        synced := valid.remove_synced }
    · exact valid.notMem_remove
  · rename_i notListed
    apply valid.of_discard addr
    · exact {
        here := if_pos rfl
        others := fun _ differs => Function.update_of_ne differs _ _
        purgeable := rfl
        order := fun _ _ => Iff.rfl
        nodup := valid.nodup
        synced := valid.synced }
    · exact notListed

theorem Valid.recycled (valid : lru.Valid) (found : lru.pages addr = some page)
    (unpinned : page.isPinned = false) :
    lru.purgeable = true ∧ page.flags.clean = true ∧ page.nRef = 0 ∧ addr ∉ lru.order := by
  have old := valid.page addr page found
  have settled := old.pinned
  rw [unpinned, eq_comm, Bool.not_eq_false', Bool.and_eq_true, Bool.and_eq_true,
    decide_eq_true_eq] at settled
  refine ⟨settled.1.1, settled.1.2, settled.2, fun listed => ?_⟩
  have isClean := old.clean
  rw [settled.1.2, old.dirty.mpr listed] at isClean
  cases isClean

theorem Valid.recycle (valid : lru.Valid) (has : lru.Has addr fun page => page.isPinned = false) :
    (lru.discard addr).Valid := by
  rcases has with ⟨page, found, unpinned⟩
  rcases valid.recycled found unpinned with ⟨_, _, _, notListed⟩
  apply valid.of_discard addr
  · exact {
      here := if_pos rfl
      others := fun _ differs => Function.update_of_ne differs _ _
      purgeable := rfl
      order := fun _ _ => Iff.rfl
      nodup := valid.nodup
      synced := valid.synced }
  · exact notListed

theorem Valid.makeDirty (valid : lru.Valid)
    (has : lru.Has addr fun page => 0 < page.nRef ∧ page.pgno ≤ PAGER_MAX_PGNO) :
    (lru.makeDirty addr).Valid := by
  rcases has with ⟨page, found, inUse, small⟩
  have old := valid.page addr page found
  simp only [Lru.makeDirty, found]
  split
  · rename_i isClean
    have notDirty : page.flags.dirty = false := by
      have := old.clean
      rw [isClean] at this
      exact (Bool.not_eq_true' _).mp this.symm
    have notListed : addr ∉ lru.order := fun listed => by
      rw [old.dirty.mpr listed] at notDirty
      cases notDirty
    have pinned : page.isPinned = true := by
      rw [old.pinned, decide_eq_false (Nat.pos_iff_ne_zero.mp inUse), Bool.and_false,
        Bool.not_false]
    refine valid.of_change found (valid.onlyAt_add notListed) ?_ rfl
    exact {
      dirty := ⟨fun _ => List.mem_cons_self, fun _ => rfl⟩
      clean := rfl
      writeable := fun _ => rfl
      pinned := by simp [pinned]
      pgno := old.pgno
      small := fun _ => small }
  · exact valid.of_change found valid.onlyAt_put { old with } rfl

theorem Valid.makeClean (valid : lru.Valid) (listed : addr ∈ lru.order) :
    (lru.makeClean addr).Valid := by
  rcases valid.found addr listed with ⟨page, found⟩
  have old := valid.page addr page found
  have isChange : (lru.makeClean addr) = (lru.remove addr).put addr
      (Page.settle lru.purgeable { page with flags := cleaned page.flags }) := by
    apply change_eq
    exact found
  rw [isChange]
  refine valid.of_change found valid.onlyAt_remove ?_ rfl
  exact {
    dirty := by
      constructor
      · intro dirty
        cases dirty
      · intro again
        exact absurd again valid.notMem_remove
    clean := rfl
    writeable := fun writeable => by cases writeable
    pinned := rfl
    pgno := old.pgno
    small := fun dirty => by cases dirty }

@[simp] theorem makeClean_order : (lru.makeClean addr).order = lru.order.erase addr := by
  rw [makeClean, change]
  split <;> rfl

/-- A property that cleaning the first page keeps holds once all pages are clean. -/
theorem cleanAll_induction {motive : Lru → Prop} (start : motive lru)
    (step : ∀ (lru : Lru) (addr : Nat) (rest : List Nat), motive lru → lru.order = addr :: rest →
      motive (lru.makeClean addr)) : motive lru.cleanAll ∧ lru.cleanAll.order = [] := by
  rw [cleanAll]
  generalize isOrder : lru.order = order
  induction order generalizing lru with
  | nil => exact ⟨start, isOrder⟩
  | cons addr rest induction =>
      rw [List.foldl_cons]
      apply induction (step lru addr rest start isOrder)
      rw [makeClean_order, isOrder, List.erase_cons_head]

theorem Valid.cleanAll (valid : lru.Valid) : lru.cleanAll.Valid ∧ lru.cleanAll.order = [] := by
  apply cleanAll_induction valid
  intro lru addr rest valid isOrder
  apply valid.makeClean
  rw [isOrder]
  exact List.mem_cons_self

theorem makeClean_pages {other : Nat} (found : (lru.makeClean addr).pages other = some page) :
    ∃ old, lru.pages other = some old ∧ page.pgno = old.pgno ∧ page.nRef = old.nRef := by
  rw [makeClean, change] at found
  cases isPage : (lru.remove addr).pages addr with
  | none =>
      rw [isPage] at found
      exact ⟨page, found, rfl, rfl⟩
  | some old =>
      rw [isPage] at found
      simp only [put] at found
      rcases eq_or_ne other addr with rfl | differs
      · rw [Function.update_self] at found
        cases found
        exact ⟨old, isPage, rfl, rfl⟩
      · rw [Function.update_of_ne differs] at found
        exact ⟨page, found, rfl, rfl⟩

structure Cleaned (lru lru' : Lru) (addrs : List Nat) : Prop where
  valid : lru'.Valid
  pages : ∀ addr page, lru'.pages addr = some page →
    ∃ old, lru.pages addr = some old ∧ page.pgno = old.pgno ∧ page.nRef = old.nRef
  order : ∀ addr, addr ∈ lru'.order ↔ addr ∈ lru.order ∧ addr ∉ addrs

theorem Valid.cleanEach {addrs : List Nat} : ∀ {lru : Lru}, lru.Valid → addrs.Nodup →
    (∀ addr ∈ addrs, addr ∈ lru.order) → Cleaned lru (addrs.foldl Lru.makeClean lru) addrs := by
  induction addrs with
  | nil => exact fun {lru} valid _ _ => ⟨valid, fun _ page found => ⟨page, found, rfl, rfl⟩,
      fun addr => ⟨fun listed => ⟨listed, List.not_mem_nil⟩, And.left⟩⟩
  | cons first rest induction =>
      intro lru valid nodup listed
      rcases List.nodup_cons.mp nodup with ⟨notAgain, nodupRest⟩
      have erased (addr : Nat) : addr ∈ (lru.makeClean first).order ↔
          addr ≠ first ∧ addr ∈ lru.order := by
        rw [makeClean_order]
        exact valid.nodup.mem_erase_iff
      have cleaned := induction (valid.makeClean (listed first List.mem_cons_self)) nodupRest
        fun addr member => (erased addr).mpr ⟨fun same => notAgain (same ▸ member),
          listed addr (List.mem_cons_of_mem first member)⟩
      refine ⟨cleaned.valid, fun addr page found => ?_, fun addr => ?_⟩
      · rcases cleaned.pages addr page found with ⟨middle, foundMiddle, pgno, nRef⟩
        rcases makeClean_pages foundMiddle with ⟨old, foundOld, pgno', nRef'⟩
        exact ⟨old, foundOld, pgno.trans pgno', nRef.trans nRef'⟩
      · show addr ∈ (rest.foldl Lru.makeClean (lru.makeClean first)).order ↔ _
        rw [cleaned.order, erased, List.mem_cons]
        tauto

theorem Valid.cleanAbove (valid : lru.Valid) (pgno : Nat) :
    Cleaned lru (lru.cleanAbove pgno) (lru.order.filter (lru.isAbove pgno)) :=
  valid.cleanEach (valid.nodup.filter _) fun _ member => (List.mem_filter.mp member).1

theorem Valid.cleanAbove_le (valid : lru.Valid) {pgno : Nat}
    (listed : addr ∈ (lru.cleanAbove pgno).order)
    (found : (lru.cleanAbove pgno).pages addr = some page) : page.pgno ≤ pgno := by
  have cleaned := valid.cleanAbove pgno
  rcases cleaned.pages addr page found with ⟨old, foundOld, samePgno, _⟩
  rcases (cleaned.order addr).mp listed with ⟨wasListed, notAbove⟩
  apply Nat.le_of_not_lt
  intro above
  apply notAbove
  rw [List.mem_filter, isAbove, foundOld, Option.any_some, ← samePgno]
  exact ⟨wasListed, decide_eq_true above⟩

theorem Valid.changeDirty (valid : lru.Valid) {f : PgFlags → PgFlags}
    (clean : ∀ flags, (f flags).clean = flags.clean)
    (dirty : ∀ flags, (f flags).dirty = flags.dirty)
    (writeable : ∀ flags, (f flags).writeable = true → flags.writeable = true) :
    (lru.changeDirty f).Valid := by
  have isOld : ∀ addr page, (lru.changeDirty f).pages addr = some page →
      ∃ old, lru.pages addr = some old ∧ page.pgno = old.pgno ∧
        page.Valid lru.purgeable (addr ∈ lru.order) := by
    intro addr page found
    simp only [Lru.changeDirty] at found
    split at found
    · rcases Option.map_eq_some_iff.mp found with ⟨old, foundOld, rfl⟩
      have isValid := valid.page addr old foundOld
      refine ⟨old, foundOld, rfl, ?_⟩
      refine ⟨?_, ?_, ?_, ?_, isValid.pgno, ?_⟩
      · rw [dirty]
        exact isValid.dirty
      · rw [clean, dirty]
        exact isValid.clean
      · rw [dirty]
        exact fun isWriteable => isValid.writeable (writeable old.flags isWriteable)
      · rw [clean]
        exact isValid.pinned
      · rw [dirty]
        exact isValid.small
    · exact ⟨page, found, rfl, valid.page addr page found⟩
  constructor
  · intro addr page found
    rcases isOld addr page found with ⟨_, _, _, isValid⟩
    exact isValid
  · intro addr page found
    rcases isOld addr page found with ⟨old, foundOld, _⟩
    exact valid.bounded addr old foundOld
  · intro addr member
    rcases valid.found addr member with ⟨page, found⟩
    have isListed : (lru.changeDirty f).pages addr = (lru.pages addr).map fun page =>
        { page with flags := f page.flags } := if_pos member
    rw [isListed, found]
    exact ⟨_, rfl⟩
  · exact valid.nodup
  · intro one other page page' foundOne foundOther samePgno
    rcases isOld one page foundOne with ⟨old, foundOld, isPgno, _⟩
    rcases isOld other page' foundOther with ⟨old', foundOld', isPgno', _⟩
    apply valid.distinct one other old old' foundOld foundOld'
    rw [← isPgno, ← isPgno', samePgno]
  · intro addr isSynced
    exact List.mem_of_getLast? isSynced

theorem Valid.clearSyncFlags (valid : lru.Valid) : lru.clearSyncFlags.Valid :=
  valid.changeDirty (fun _ => rfl) (fun _ => rfl) fun _ writeable => writeable

theorem Valid.clearWritable (valid : lru.Valid) : lru.clearWritable.Valid :=
  valid.changeDirty (fun _ => rfl) (fun _ => rfl) fun _ writeable => by cases writeable

theorem Valid.rekey (valid : lru.Valid) {iNew : Nat} {flags : PgFlags} (isPgno : 0 < iNew)
    (small : iNew ≤ PAGER_MAX_PGNO) (listed : addr ∈ lru.order)
    (unused : ∀ other page, lru.pages other = some page → page.pgno ≠ iNew)
    (isDirty : flags.dirty = true) (notClean : flags.clean = false) :
    (lru.rekey addr iNew flags).Valid := by
  rcases valid.found addr listed with ⟨page, found⟩
  have old := valid.page addr page found
  have pinned : page.isPinned = true := by
    rw [old.pinned, old.clean, old.dirty.mpr listed, Bool.not_true, Bool.and_false, Bool.false_and,
      Bool.not_false]
  have isValid (order : List Nat) (stays : addr ∈ order) : Page.Valid lru.purgeable (addr ∈ order)
      { page with pgno := iNew, flags := flags } := {
    dirty := ⟨fun _ => stays, fun _ => isDirty⟩
    clean := by rw [notClean, isDirty, Bool.not_true]
    writeable := fun _ => isDirty
    pinned := by rw [pinned, notClean, Bool.and_false, Bool.false_and, Bool.not_false]
    pgno := isPgno
    small := fun _ => small }
  simp only [Lru.rekey, found]
  split
  · apply valid.of_put valid.onlyAt_front ?_ (valid.bounded addr page found)
    · exact fun other page _ foundOther => unused other page foundOther
    · exact isValid _ List.mem_cons_self
  · apply valid.of_put valid.onlyAt_put ?_ (valid.bounded addr page found)
    · exact fun other page _ foundOther => unused other page foundOther
    · exact isValid _ listed

theorem Valid.mark (valid : lru.Valid) {mark : Mark} (allowed : lru.Allowed (.mark addr mark)) :
    (lru.change addr fun page => { page with flags := mark.apply page.flags }).Valid := by
  cases mark with
  | needSync =>
      rcases allowed with ⟨page, found, _⟩
      rw [change_eq found]
      exact valid.of_change found valid.onlyAt_put { valid.page addr page found with } rfl
  | noSync =>
      rcases allowed with ⟨page, found, _⟩
      rw [change_eq found]
      exact valid.of_change found valid.onlyAt_put { valid.page addr page found with } rfl
  | writeable =>
      rcases valid.found addr allowed with ⟨page, found⟩
      have old := valid.page addr page found
      rw [change_eq found]
      refine valid.of_change found valid.onlyAt_put ?_ rfl
      exact { old with writeable := fun _ => old.dirty.mpr allowed }
  | dontWrite =>
      rcases valid.found addr allowed with ⟨page, found⟩
      have old := valid.page addr page found
      rw [change_eq found]
      refine valid.of_change found valid.onlyAt_put ?_ rfl
      exact { old with writeable := fun writeable => by cases writeable }

theorem Valid.filter (valid : lru.Valid) {keep : Page → Bool}
    (kept : ∀ addr page, addr ∈ lru.order → lru.pages addr = some page → keep page = true) :
    Valid { lru with pages := fun addr => (lru.pages addr).filter keep } := by
  have isOld : ∀ addr page, (lru.pages addr).filter keep = some page →
      lru.pages addr = some page := fun addr page found => (Option.filter_eq_some_iff.mp found).1
  constructor
  · intro addr page found
    exact valid.page addr page (isOld addr page found)
  · intro addr page found
    exact valid.bounded addr page (isOld addr page found)
  · intro addr member
    rcases valid.found addr member with ⟨page, found⟩
    exact ⟨page, Option.filter_eq_some_iff.mpr ⟨found, kept addr page member found⟩⟩
  · exact valid.nodup
  · intro one other page page' foundOne foundOther samePgno
    exact valid.distinct one other page page' (isOld one page foundOne)
      (isOld other page' foundOther) samePgno
  · exact valid.synced

theorem Valid.truncate (valid : lru.Valid) {pgno : Nat} : (lru.truncate pgno).Valid := by
  refine (valid.cleanAbove pgno).valid.filter fun addr page listed found => decide_eq_true ?_
  have small := valid.cleanAbove_le listed found
  split <;> omega

theorem fromSynced_listed : ∀ other ∈ lru.fromSynced, other ∈ lru.order := by
  intro other member
  rw [fromSynced] at member
  split at member
  · cases member
  · exact List.mem_reverse.mp ((List.dropWhile_suffix _).subset member)

theorem idle_of_spillable (spillable : lru.spillable addr = true) : lru.idle addr = true := by
  rcases (Option.any_eq_true _ _).mp spillable with ⟨page, found, both⟩
  exact (Option.any_eq_true _ _).mpr ⟨page, found, (Bool.and_eq_true_iff.mp both).1⟩

theorem unused_of_idle (idle : lru.idle addr = true) : lru.Has addr fun page => page.nRef = 0 := by
  rcases (Option.any_eq_true _ _).mp idle with ⟨page, found, unused⟩
  exact ⟨page, found, of_decide_eq_true unused⟩

theorem stressPage_idle (picked : lru.stressPage = some addr) :
    addr ∈ lru.order ∧ lru.Has addr fun page => page.nRef = 0 := by
  rw [Lru.stressPage] at picked
  split at picked
  · rename_i isFound
    cases picked
    have isIdle := idle_of_spillable (List.find?_some isFound)
    exact ⟨fromSynced_listed _ (List.mem_of_find?_eq_some isFound), unused_of_idle isIdle⟩
  · have listed := List.mem_reverse.mp (List.mem_of_find?_eq_some picked)
    exact ⟨listed, unused_of_idle (List.find?_some picked)⟩

theorem Valid.searched (valid : lru.Valid) :
    Valid { lru with synced := lru.fromSynced.find? lru.spillable } := by
  refine { valid with synced := ?_ }
  intro addr isFound
  have member : addr ∈ lru.fromSynced := List.mem_of_find?_eq_some isFound
  have listed : addr ∈ lru.order := fromSynced_listed addr member
  exact listed

theorem Valid.spill (valid : lru.Valid) (listed : addr ∈ lru.order) {outcome : Stress} :
    (lru.spill addr outcome).Valid := by
  cases outcome with
  | kept => exact valid
  | failed synced =>
      rw [Lru.spill]
      split
      · exact valid.clearSyncFlags
      · exact valid
  | written cacheMod =>
      rw [Lru.spill]
      split
      · exact valid.clearSyncFlags.makeClean listed
      · exact valid.makeClean listed

theorem Valid.stress (valid : lru.Valid) {overfull : Bool} {outcome : Stress} :
    (lru.stress overfull outcome).Valid := by
  rw [Lru.stress]
  split
  · exact valid
  · cases picked : lru.stressPage with
    | none => exact valid.searched
    | some addr => exact valid.searched.spill (stressPage_idle picked).1

theorem Valid.apply (valid : lru.Valid) {op : Op} (other : op.isRekey = false)
    (allowed : lru.Allowed op) : (lru.apply op).Valid := by
  cases op with
  | fetch pgno createFlag result => exact valid.fetch allowed.1 allowed.2.2.1
  | refetch pgno result => exact valid.fetch allowed.1 allowed.2.1
  | ref addr => exact valid.ref (allowed.imp fun _ => And.imp_right And.left)
  | release addr => exact valid.release allowed
  | drop addr => exact valid.drop
  | makeDirty addr => exact valid.makeDirty allowed
  | makeClean addr => exact valid.makeClean allowed
  | cleanAll => exact valid.cleanAll.1
  | clearWritable => exact valid.clearWritable
  | clearSyncFlags => exact valid.clearSyncFlags
  | rekey addr iNew flags => cases other
  | truncate pgno pPage1 => exact valid.truncate
  | stress overfull outcome => exact valid.stress
  | mark addr mark => exact valid.mark allowed
  | recycle addr => exact valid.recycle allowed

/-! ## New numbers -/

/-- As if the pages without flags had those of a dirty page. -/
def reflag (lru : Lru) (addrs : List Nat) : Lru :=
  { lru with pages := fun addr => if addr ∈ addrs then
      (lru.pages addr).map fun page => { page with flags := dirtyFlags } else lru.pages addr }

theorem reflag_nil : lru.reflag [] = lru := by
  simp [reflag]

theorem reflag_pages {addrs : List Nat} (found : (lru.reflag addrs).pages addr = some page) :
    ∃ old, lru.pages addr = some old ∧ page.pgno = old.pgno ∧ page.nRef = old.nRef := by
  simp only [reflag] at found
  split at found
  · rcases Option.map_eq_some_iff.mp found with ⟨old, foundOld, rfl⟩
    exact ⟨old, foundOld, rfl, rfl⟩
  · exact ⟨page, found, rfl, rfl⟩

theorem reflag_found (addrs : List Nat) (found : lru.pages addr = some page) :
    ∃ flags, (lru.reflag addrs).pages addr = some { page with flags := flags } := by
  simp only [reflag]
  split
  · exact ⟨dirtyFlags, by rw [found, Option.map_some]⟩
  · exact ⟨page.flags, found⟩

theorem reflag_put_cons (addrs : List Nat) : (lru.put addr page).reflag (addr :: addrs) =
    (lru.reflag addrs).put addr { page with flags := dirtyFlags } := by
  simp only [reflag, put, Lru.mk.injEq, and_self, and_true]
  funext other
  by_cases isAddr : other = addr <;> simp [isAddr]

theorem reflag_put_filter (addrs : List Nat) :
    (lru.put addr page).reflag (addrs.filter fun other => other != addr) =
      (lru.reflag addrs).put addr page := by
  simp only [reflag, put, Lru.mk.injEq, and_self, and_true]
  funext other
  by_cases isAddr : other = addr <;> simp [isAddr]

theorem reflag_rekey {addrs : List Nat} {iNew : Nat} {flags : PgFlags}
    (found : lru.pages addr = some page) :
    (lru.rekey addr iNew flags).reflag ((Op.rekey addr iNew flags).unflagged addrs) =
      (lru.reflag addrs).rekey addr iNew (if flags = .zero then dirtyFlags else flags) := by
  rcases reflag_found addrs found with ⟨old, reflagged⟩
  simp only [rekey, found, reflagged, Op.unflagged]
  by_cases isZero : flags = .zero
  · subst isZero
    rw [if_pos rfl, if_pos rfl]
    exact reflag_put_cons addrs
  · rw [if_neg isZero, if_neg isZero]
    split
    · exact congrArg (fun lru => lru.front addr true) (reflag_put_filter addrs)
    · exact reflag_put_filter addrs

/-- Every operation keeps the invariant, as far as the pages have flags. -/
theorem Valid.step {addrs : List Nat} (valid : (lru.reflag addrs).Valid) {op : Op}
    (quiet : addrs = [] ∨ op.isRekey = true) (allowed : lru.Allowed op) :
    ((lru.apply op).reflag (op.unflagged addrs)).Valid := by
  cases isRekey : op.isRekey with
  | false =>
      rcases quiet with rfl | impossible
      · rw [reflag_nil] at valid
        have same : op.unflagged [] = [] := by
          cases op <;> first | rfl | cases isRekey
        rw [same, reflag_nil]
        exact valid.apply isRekey allowed
      · rw [isRekey] at impossible
        cases impossible
  | true =>
      cases op with
      | rekey addr iNew flags =>
          rcases allowed with ⟨isPgno, small, listed, ⟨page, found, _⟩, unused, isFlags⟩
          rw [Lru.apply, reflag_rekey found]
          refine valid.rekey isPgno small listed (fun other page found => ?_) ?_ ?_
          · rcases reflag_pages found with ⟨old, foundOld, samePgno, _⟩
            rw [samePgno]
            exact unused other old foundOld
          · split
            · rfl
            · rename_i notZero
              exact (isFlags.resolve_left notZero).1
          · split
            · rfl
            · rename_i notZero
              exact (isFlags.resolve_left notZero).2
      | _ => cases isRekey

end Lru

end EspSqlite.Pages
