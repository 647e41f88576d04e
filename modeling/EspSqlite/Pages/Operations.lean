import EspSqlite.Pages.Represents

namespace EspSqlite.Pages

/-! # What each function does to the order

Every function of the page cache, called as it may be, has a result, and the result
represents the pages and the order after the operation. -/

variable {p : PCache} {lru : Lru} {addr : Nat} {page : Page} {hdr : PgHdr}

def Simulates (result : Option PCache) (lru : Lru) : Prop :=
  ∃ p', result = some p' ∧ Represents p' lru

theorem Simulates.bind {first : Option PCache} {next : PCache → Option PCache} {lru lru' : Lru}
    (simulates : Simulates first lru)
    (later : ∀ p, Represents p lru → Simulates (next p) lru') :
    Simulates (first.bind next) lru' := by
  rcases simulates with ⟨p, isFirst, represents⟩
  rw [isFirst, Option.bind_some]
  exact later p represents

theorem Simulates.of_bind {α : Type} {first : Option α} {next : α → Option PCache} {value : α}
    (isValue : first = some value) (simulates : Simulates (next value) lru) :
    Simulates (first.bind next) lru := by
  rw [isValue, Option.bind_some]
  exact simulates

theorem data_withRefs (f : Nat → Nat) (same : hdr.data = page.data) :
    (hdr.withRefs (f hdr.nRef)).data = Page.data { page with nRef := f page.nRef } := by
  rcases data_eq same with ⟨samePgno, sameRefs, sameFlags⟩
  simp only [PgHdr.data, PgHdr.withRefs, Page.data]
  rw [samePgno, sameRefs, sameFlags]

/-! ## References -/

theorem Represents.ref (represents : Represents p lru) (valid : lru.Valid)
    (has : lru.Has addr fun page => 0 < page.nRef ∧ page.nRef + 1 < nRefLimit) :
    Simulates (sqlite3PcacheRef p addr)
      (lru.change addr fun page => { page with nRef := page.nRef + 1 }) := by
  rcases has with ⟨page, found, inUse⟩
  rcases represents.header found with ⟨hdr, isHdr, sameData⟩
  rw [← (data_eq sameData).2.1] at inUse
  rw [Lru.change_eq found]
  refine .of_bind isHdr (.of_bind (check_pos inUse.1) (.of_bind (represents.sanity valid found) ?_))
  refine .of_bind (check_pos inUse.2) (.of_bind (PCache.update_eq isHdr) ⟨_, rfl, ?_⟩)
  refine represents.put found _ _ (fun _ => rfl) (fun _ => rfl) ?_
    (represents.same_pool found _ rfl) (valid.bounded addr page found) ?_
  · exact fun hdr same => data_withRefs (fun nRef => nRef + 1) same
  · show p.nRefSum + 1 + page.nRef = p.nRefSum + (page.nRef + 1)
    omega

theorem pcacheUnpin_eq {iKey : Nat} (isPage : p.pCache addr = some ⟨iKey, true⟩) :
    pcacheUnpin p addr =
      some { p with pCache := Function.update p.pCache addr (some ⟨iKey, !p.bPurgeable⟩) } := by
  by_cases purgeable : p.bPurgeable = true
  · have unpinned : (!p.bPurgeable) = false := by
      rw [purgeable]
      rfl
    rw [pcacheUnpin, if_pos purgeable, unpinned]
    apply bind_of isPage
    exact bind_of (check_pos rfl) (if_neg Bool.false_ne_true)
  · have pinned : (!p.bPurgeable) = true := by
      rw [Bool.not_eq_true] at purgeable
      rw [purgeable]
      rfl
    have samePool : Function.update p.pCache addr (some ⟨iKey, true⟩) = p.pCache := by
      rw [← isPage, Function.update_eq_self]
    rw [pcacheUnpin, if_neg purgeable, pinned, samePool]

theorem Lru.Valid.pinned (valid : lru.Valid) (found : lru.pages addr = some page)
    (inUse : 0 < page.nRef) : page.isPinned = true := by
  rw [(valid.page addr page found).pinned, decide_eq_false (Nat.pos_iff_ne_zero.mp inUse),
    Bool.and_false, Bool.not_false]

theorem Threaded.prev_none_iff {order : List Nat} (threaded : Threaded p order)
    (listed : addr ∈ order) (isHdr : p.headers addr = some hdr) :
    hdr.pDirtyPrev = none ↔ order.head? = some addr := by
  rcases List.append_of_mem listed with ⟨left, right, rfl⟩
  rw [(threaded.neighbours isHdr).1]
  cases left with
  | nil => simp
  | cons first rest =>
      have differs : first ≠ addr := fun same => threaded.notMem.1 (same ▸ List.mem_cons_self)
      simp [differs]

theorem Represents.release (represents : Represents p lru) (valid : lru.Valid)
    (has : lru.Has addr fun page => 0 < page.nRef) :
    Simulates (sqlite3PcacheRelease p addr) (lru.release addr) := by
  rcases has with ⟨page, found, inUse⟩
  rcases represents.header found with ⟨hdr, isHdr, sameData⟩
  rcases data_eq sameData with ⟨_, sameRefs, sameFlags⟩
  have bounded := valid.bounded addr page found
  have pinned := valid.pinned found inUse
  have isValid := valid.page addr page found
  have someRefs : page.nRef ≤ p.nRefSum := by
    rw [represents.refs]
    exact refs_pos bounded found
  have used : 0 < hdr.nRef := by
    rw [sameRefs]
    exact inUse
  have refs : p.nRefSum - 1 + page.nRef = p.nRefSum + (page.nRef - 1) := by omega
  -- the page with one reference less, pinned or not
  have puts : ∀ isPinned pool, pool = Function.update p.pCache addr (some ⟨page.pgno, isPinned⟩) →
      Represents { p with
        headers := redirect p.headers (some addr) fun hdr => hdr.withRefs (hdr.nRef - 1)
        pCache := pool
        nRefSum := p.nRefSum - 1 }
        (lru.put addr { page with nRef := page.nRef - 1, isPinned := isPinned }) := by
    intro isPinned pool isPool
    exact represents.put found _ _ (fun _ => rfl) (fun _ => rfl)
      (fun hdr same => data_withRefs (fun nRef => nRef - 1) same) isPool bounded refs
  have samePool := represents.same_pool found { page with nRef := page.nRef - 1 } rfl
  rw [Page.pool, pinned] at samePool
  simp only [Lru.release, found]
  refine .of_bind isHdr (.of_bind (check_pos used) (.of_bind (PCache.update_eq isHdr) ?_))
  rw [sameRefs, sameFlags]
  by_cases last : page.nRef - 1 = 0
  · rw [if_pos last]
    cases isClean : page.flags.clean with
    | true =>
        have notDirty : page.flags.dirty ≠ true := by
          have opposite := isValid.clean
          rw [isClean, eq_comm, Bool.not_eq_true'] at opposite
          rw [opposite]
          exact Bool.false_ne_true
        rw [if_pos rfl, if_neg fun moved => notDirty moved.2.1]
        have isPage : p.pCache addr = some ⟨page.pgno, true⟩ := by
          rw [represents.poolPage found, Page.pool, pinned]
        refine ⟨_, pcacheUnpin_eq isPage, ?_⟩
        have settled : Page.settle lru.purgeable { page with nRef := page.nRef - 1 } =
            { page with nRef := page.nRef - 1, isPinned := !lru.purgeable } := by
          simp [Page.settle, isClean, last]
        rw [settled, ← represents.purgeable]
        exact puts (!p.bPurgeable) _ rfl
    | false =>
        have isDirty : page.flags.dirty = true := by
          have opposite := isValid.clean
          rw [isClean, eq_comm, Bool.not_eq_false'] at opposite
          exact opposite
        have listed : addr ∈ lru.order := isValid.dirty.mp isDirty
        have settled : Page.settle lru.purgeable { page with nRef := page.nRef - 1 } =
            { page with nRef := page.nRef - 1, isPinned := true } := by
          simp [Page.settle, isClean]
        have isFirst := represents.threaded.prev_none_iff listed isHdr
        rw [if_neg Bool.false_ne_true, settled]
        have after := puts true p.pCache samePool
        by_cases atStart : lru.order.head? = some addr
        · rw [if_neg (not_not.mpr (isFirst.mpr atStart)), if_neg fun moved => moved.2.2 atStart]
          exact ⟨_, rfl, after⟩
        · rw [if_pos fun isNone => atStart (isFirst.mp isNone), if_pos ⟨last, isDirty, atStart⟩]
          exact after.front valid.nodup listed Lru.put_pages_same
  · rw [if_neg last, if_neg fun moved => last moved.1]
    have settled : Page.settle lru.purgeable { page with nRef := page.nRef - 1 } =
        { page with nRef := page.nRef - 1, isPinned := true } := by
      simp [Page.settle, last]
    rw [settled]
    exact ⟨_, rfl, puts true p.pCache samePool⟩

theorem Represents.drop (represents : Represents p lru) (valid : lru.Valid)
    (has : lru.Has addr fun page => page.nRef = 1) :
    Simulates (sqlite3PcacheDrop p addr) (lru.drop addr) := by
  rcases has with ⟨page, found, once⟩
  rcases represents.header found with ⟨hdr, isHdr, sameData⟩
  rcases data_eq sameData with ⟨_, sameRefs, sameFlags⟩
  have bounded := valid.bounded addr page found
  have pinned := valid.pinned found (by omega)
  -- what is left once the page is off the list
  have rest : ∀ (p : PCache) (lru : Lru), Represents p lru → lru.pages addr = some page →
      addr ∉ lru.order → Simulates (xUnpin { p with nRefSum := p.nRefSum - 1 } addr true)
        (lru.discard addr) := by
    intro p lru represents found notListed
    have isPage := represents.poolPage found
    have someRefs : page.nRef ≤ p.nRefSum := by
      rw [represents.refs]
      exact refs_pos bounded found
    refine .of_bind isPage (.of_bind (check_pos pinned) ?_)
    have refs : p.nRefSum - 1 + page.nRef = p.nRefSum := by omega
    exact ⟨_, rfl, represents.discard found notListed bounded refs⟩
  refine .of_bind isHdr (.of_bind (check_pos (sameRefs.trans once))
    (.of_bind (represents.sanity valid found) ?_))
  rw [sameFlags, Lru.drop]
  have isDirty := (valid.page addr page found).dirty
  by_cases listed : addr ∈ lru.order
  · rw [if_pos (isDirty.mpr listed), if_pos listed]
    apply Simulates.bind (represents.remove listed)
    intro p removed
    exact rest p _ removed found valid.notMem_remove
  · rw [if_neg fun dirty => listed (isDirty.mp dirty), if_neg listed]
    exact rest p lru represents found listed

/-! ## Dirty and clean -/

theorem Lru.put_put {page' : Page} : (lru.put addr page).put addr page' = lru.put addr page' := by
  simp only [Lru.put]
  congr 1
  funext other
  by_cases isAddr : other = addr
  · rw [isAddr, Function.update_self, Function.update_self]
  · rw [Function.update_of_ne isAddr, Function.update_of_ne isAddr, Function.update_of_ne isAddr]

theorem Lru.put_self (found : lru.pages addr = some page) : lru.put addr page = lru := by
  have samePages : Function.update lru.pages addr (some page) = lru.pages := by
    funext other
    by_cases isAddr : other = addr
    · rw [isAddr, Function.update_self, found]
    · rw [Function.update_of_ne isAddr]
  rw [Lru.put, samePages]

theorem Represents.makeDirty (represents : Represents p lru) (valid : lru.Valid)
    (has : lru.Has addr fun page => 0 < page.nRef ∧ page.pgno ≤ PAGER_MAX_PGNO) :
    Simulates (sqlite3PcacheMakeDirty p addr) (lru.makeDirty addr) := by
  have validAfter := valid.makeDirty has
  rcases has with ⟨page, found, inUse, _⟩
  rcases represents.header found with ⟨hdr, isHdr, sameData⟩
  rcases data_eq sameData with ⟨_, sameRefs, sameFlags⟩
  have bounded := valid.bounded addr page found
  have isValid := valid.page addr page found
  have used : 0 < hdr.nRef := by
    rw [sameRefs]
    exact inUse
  refine .of_bind isHdr (.of_bind (check_pos used) (.of_bind (represents.sanity valid found) ?_))
  rw [sameFlags]
  simp only [Lru.makeDirty, found] at validAfter ⊢
  -- after the list is right the asserts hold again
  have checked : ∀ {lru : Lru}, lru.Valid → lru.Has addr (fun _ => True) → ∀ p, Represents p lru →
      Simulates (do sqlite3PcachePageSanity p addr; some p) lru := by
    intro lru valid has p represents
    rcases has with ⟨page, found, _⟩
    exact .of_bind (represents.sanity valid found) ⟨p, rfl, represents⟩
  by_cases isClean : page.flags.clean = true
  · have notDirty : page.flags.dirty = false := by
      have opposite := isValid.clean
      rw [isClean, eq_comm, Bool.not_eq_true'] at opposite
      exact opposite
    have notListed : addr ∉ lru.order := by
      intro listed
      rw [isValid.dirty.mpr listed] at notDirty
      cases notDirty
    rw [if_pos isClean] at validAfter ⊢
    rw [if_pos (.inl isClean)]
    apply Simulates.bind (represents.put_flags found bounded)
    intro p cleared
    rw [if_pos isClean]
    apply Simulates.bind (cleared.put_flags Lru.put_pages_same bounded)
    intro p toggled
    rw [Lru.put_put] at toggled
    simp only [isClean, notDirty, Bool.not_false, Bool.not_true] at toggled
    rcases toggled.header Lru.put_pages_same with ⟨hdr, isHdr, sameData⟩
    rcases data_eq sameData with ⟨_, _, sameFlags⟩
    have isDirty : hdr.flags.dirty = true ∧ hdr.flags.clean = false := by
      rw [sameFlags]
      exact ⟨rfl, rfl⟩
    refine .of_bind isHdr (.of_bind (check_pos isDirty) ?_)
    exact Simulates.bind (toggled.add notListed Lru.put_pages_same)
      (checked validAfter ⟨_, Lru.put_pages_same, trivial⟩)
  · rw [if_neg isClean] at validAfter ⊢
    by_cases noWrite : page.flags.dontWrite = true
    · rw [if_pos (.inr noWrite)]
      apply Simulates.bind (represents.put_flags found bounded)
      intro p cleared
      rw [if_neg isClean]
      exact .of_bind rfl (checked validAfter ⟨_, Lru.put_pages_same, trivial⟩ p cleared)
    · have samePage : { page with flags := { page.flags with dontWrite := false } } = page := by
        rw [Bool.not_eq_true] at noWrite
        simp only [← noWrite]
      rw [if_neg fun either => either.elim isClean noWrite, samePage, Lru.put_self found]
      exact ⟨p, rfl, represents⟩

theorem Represents.makeClean (represents : Represents p lru) (valid : lru.Valid)
    (listed : addr ∈ lru.order) :
    Simulates (sqlite3PcacheMakeClean p addr) (lru.makeClean addr) := by
  rcases valid.found addr listed with ⟨page, found⟩
  rcases represents.header found with ⟨hdr, isHdr, sameData⟩
  rcases data_eq sameData with ⟨_, sameRefs, sameFlags⟩
  have bounded := valid.bounded addr page found
  have isValid := valid.page addr page found
  have isDirty : hdr.flags.dirty = true := by
    rw [sameFlags]
    exact isValid.dirty.mpr listed
  have notClean : hdr.flags.clean = false := by
    rw [sameFlags, isValid.clean, isValid.dirty.mpr listed]
    rfl
  have pinned : page.isPinned = true := by
    rw [isValid.pinned, ← sameFlags, notClean, Bool.and_false, Bool.false_and, Bool.not_false]
  refine .of_bind (represents.sanity valid found) (.of_bind isHdr (.of_bind (check_pos isDirty)
    (.of_bind (check_pos notClean) ?_)))
  apply Simulates.bind (represents.remove listed)
  intro p removed
  have foundStill : (lru.remove addr).pages addr = some page := found
  rcases removed.header foundStill with ⟨after, isAfter, afterData⟩
  rcases data_eq afterData with ⟨afterPgno, afterRefs, afterFlags⟩
  refine .of_bind (PCache.update_eq isAfter) ?_
  have sane := sanity_of (p := { p with
      headers := redirect p.headers (some addr) (PgHdr.withFlags Lru.cleaned) })
    (redirect_same isAfter) (by rw [PgHdr.withFlags, afterPgno]; exact isValid.pgno)
    (fun _ => rfl) (fun _ => removed.threaded.notEnds valid.notMem_remove)
    (fun writeable => by cases writeable)
  refine .of_bind sane ?_
  rw [sameRefs]
  have isChange : lru.makeClean addr = (lru.remove addr).put addr
      (Page.settle lru.purgeable { page with flags := Lru.cleaned page.flags }) :=
    Lru.change_eq foundStill
  have puts : ∀ isPinned pool, pool = Function.update p.pCache addr (some ⟨page.pgno, isPinned⟩) →
      Represents { p with
        headers := redirect p.headers (some addr) (PgHdr.withFlags Lru.cleaned)
        pCache := pool }
        ((lru.remove addr).put addr
          { page with flags := Lru.cleaned page.flags, isPinned := isPinned }) := by
    intro isPinned pool isPool
    refine removed.put foundStill _ _ (fun _ => rfl) (fun _ => rfl) ?_ isPool bounded rfl
    intro hdr same
    rcases data_eq same with ⟨samePgno, sameRefs, sameFlags⟩
    simp only [PgHdr.data, PgHdr.withFlags, Page.data]
    rw [samePgno, sameRefs, sameFlags]
  rw [isChange]
  by_cases idle : page.nRef = 0
  · have settled : Page.settle lru.purgeable { page with flags := Lru.cleaned page.flags } =
        { page with flags := Lru.cleaned page.flags, isPinned := !lru.purgeable } := by
      simp [Page.settle, Lru.cleaned, idle]
    have isPage : p.pCache addr = some ⟨page.pgno, true⟩ := by
      rw [removed.poolPage foundStill, Page.pool, pinned]
    have samePurgeable : lru.purgeable = p.bPurgeable := removed.purgeable.symm
    rw [if_pos idle, settled, samePurgeable]
    exact ⟨_, pcacheUnpin_eq isPage, puts (!p.bPurgeable) _ rfl⟩
  · have settled : Page.settle lru.purgeable { page with flags := Lru.cleaned page.flags } =
        { page with flags := Lru.cleaned page.flags, isPinned := true } := by
      simp [Page.settle, idle]
    have samePool := removed.same_pool foundStill page rfl
    rw [Page.pool, pinned] at samePool
    rw [if_neg idle, settled]
    exact ⟨_, rfl, puts true p.pCache samePool⟩

/-! ## Fetching, moving, marking, recycling -/

/-- `xFetch`, then for a page `sqlite3PcacheFetchFinish`. -/
def fetched (p : PCache) (pgno : Nat) : (result : Option Nat) → Option PCache
  | none => some p
  | some addr => sqlite3PcacheFetchFinish (xFetch p pgno (some addr)) pgno addr

theorem Represents.fetched (represents : Represents p lru) (valid : lru.Valid)
    {pgno eCreate : Nat} {result : Option Nat} (isPgno : 0 < pgno)
    (isResult : FetchResult lru.pool pgno eCreate result) (countable : lru.Countable result) :
    Simulates (fetched p pgno result) (lru.fetch pgno result) := by
  cases result with
  | none => exact ⟨p, rfl, represents⟩
  | some addr =>
      have validAfter := valid.fetch isPgno isResult
      cases found : lru.pages addr with
      | some page =>
          have isFetched : lru.fetch pgno (some addr) =
              lru.put addr { page with nRef := page.nRef + 1, isPinned := true } := by
            simp only [Lru.fetch, found]
          rw [isFetched] at validAfter ⊢
          rcases represents.header found with ⟨hdr, isHdr, sameData⟩
          have few : hdr.nRef + 1 < nRefLimit := by
            rw [(data_eq sameData).2.1]
            exact countable addr page rfl found
          have refs : p.nRefSum + 1 + page.nRef = p.nRefSum + (page.nRef + 1) := by omega
          have after := represents.put found (fun hdr => hdr.withRefs (hdr.nRef + 1))
            { page with nRef := page.nRef + 1, isPinned := true } (fun _ => rfl) (fun _ => rfl)
            (fun hdr same => data_withRefs (fun nRef => nRef + 1) same) rfl
            (valid.bounded addr page found) refs
          have isFetch : xFetch p pgno (some addr) =
              { p with pCache := Function.update p.pCache addr (some ⟨page.pgno, true⟩) } := by
            simp only [xFetch, represents.poolPage found]
            rfl
          rw [Pages.fetched, isFetch]
          simp only [sqlite3PcacheFetchFinish, isHdr]
          refine .of_bind rfl (.of_bind (check_pos few) (.of_bind (PCache.update_eq isHdr) ?_))
          exact .of_bind (after.sanity validAfter Lru.put_pages_same) ⟨_, rfl, after⟩
      | none =>
          have isFetched :
              lru.fetch pgno (some addr) = lru.put addr ⟨pgno, 1, PGHDR_CLEAN, true⟩ := by
            simp only [Lru.fetch, found]
          rw [isFetched] at validAfter ⊢
          have noPage : p.pCache addr = none := by rw [represents.pool, found, Option.map_none]
          have notListed : addr ∉ lru.order := by
            intro listed
            rcases valid.found addr listed with ⟨page, isPage⟩
            rw [found] at isPage
            cases isPage
          have bounded : addr < addressSpace := by
            rcases isResult.2 addr rfl with ⟨page, isPage, _⟩ | ⟨_, _, bounded⟩
            · rw [Lru.pool, found] at isPage
              cases isPage
            · exact bounded
          have isFetch : xFetch p pgno (some addr) = { p with
              pCache := Function.update p.pCache addr (some ⟨pgno, true⟩)
              headers := Function.update p.headers addr none } := by
            simp only [xFetch, noPage]
          have noHeader : Function.update p.headers addr none addr = none :=
            Function.update_self _ _ _
          have initialised :
              Function.update (Function.update p.headers addr none) addr
                (some ⟨none, pgno, PGHDR_CLEAN, 0, none, none⟩) addr =
              some ⟨none, pgno, PGHDR_CLEAN, 0, none, none⟩ := Function.update_self _ _ _
          have others : ∀ other, other ≠ addr →
              redirect (Function.update (Function.update p.headers addr none) addr
                (some ⟨none, pgno, PGHDR_CLEAN, 0, none, none⟩))
                (some addr) (fun hdr => hdr.withRefs (hdr.nRef + 1)) other = p.headers other := by
            intro other differs
            rw [redirect_other fun same => differs (Option.some.inj same),
              Function.update_of_ne differs]
            exact Function.update_of_ne differs _ _
          have after := represents.put_new found notListed ⟨pgno, 1, PGHDR_CLEAN, true⟩ _ others
            (redirect_same initialised) ⟨rfl, rfl⟩ rfl bounded
          rw [Pages.fetched, isFetch]
          simp only [sqlite3PcacheFetchFinish, noHeader, pcacheFetchFinishWithInit]
          have few : 0 + 1 < nRefLimit := by decide
          refine .of_bind initialised (.of_bind (check_pos few) ?_)
          refine .of_bind (PCache.update_eq initialised) ?_
          exact .of_bind (after.sanity validAfter Lru.put_pages_same) ⟨_, rfl, after⟩

theorem Represents.fetch (represents : Represents p lru) {pgno createFlag : Nat}
    {result : Option Nat} (isFlag : createFlag = 3 ∨ createFlag = 0) :
    sqlite3PcacheFetch p pgno createFlag result = some (xFetch p pgno result) := by
  have eCreate : p.eCreate = if p.bPurgeable = true ∧ p.pDirty ≠ none then 1 else 2 := by
    rw [represents.threaded.create, represents.threaded.first]
    cases lru.order <;> simp
  have either : p.eCreate = 1 ∨ p.eCreate = 2 := by
    rw [eCreate]
    split
    · exact .inl rfl
    · exact .inr rfl
  have same : createFlag = 0 ∨ p.eCreate = createFlag &&& p.eCreate := by
    rcases isFlag with rfl | rfl
    · rcases either with isOne | isTwo
      · exact .inr (by rw [isOne]; decide)
      · exact .inr (by rw [isTwo]; decide)
    · exact .inl rfl
  have small : (createFlag &&& p.eCreate) = 0 ∨ (createFlag &&& p.eCreate) = 1 ∨
      (createFlag &&& p.eCreate) = 2 := by
    rcases same with rfl | isSame
    · exact .inl (Nat.zero_and _)
    · rw [← isSame]
      exact .inr either
  have again : createFlag = 0 ∨ (createFlag &&& p.eCreate) =
      1 + if p.bPurgeable = false ∨ p.pDirty = none then 1 else 0 := by
    rcases same with rfl | isSame
    · exact .inl rfl
    · right
      rw [← isSame, eCreate]
      cases p.bPurgeable <;> cases p.pDirty <;> simp
  apply bind_of (check_pos isFlag)
  apply bind_of (check_pos eCreate)
  apply bind_of (check_pos small)
  apply bind_of (check_pos same)
  exact bind_of (check_pos again) rfl

theorem Represents.rekey (represents : Represents p lru) {addrs : List Nat}
    (valid : (lru.reflag addrs).Valid) {iNew : Nat} {flags : PgFlags}
    (allowed : lru.Allowed (.rekey addr iNew flags)) :
    Simulates (sqlite3PagerRekey p addr iNew flags) (lru.rekey addr iNew flags) := by
  rcases allowed with ⟨isPgno, _, listed, ⟨page, found, inUse⟩, unused, isFlags⟩
  rcases Lru.reflag_found addrs found with ⟨_, reflagged⟩
  have bounded := valid.bounded addr _ reflagged
  have positive : 0 < page.pgno := (valid.page addr _ reflagged).pgno
  rcases represents.header found with ⟨hdr, isHdr, sameData⟩
  have differs : hdr.pgno ≠ iNew := by
    rw [(data_eq sameData).1]
    exact unused addr page found
  refine .of_bind isHdr (.of_bind (check_pos differs) ?_)
  apply Simulates.bind (represents.put_flags found bounded)
  intro p flagged
  rcases flagged.header Lru.put_pages_same with ⟨hdr, isHdr, sameData⟩
  rcases data_eq sameData with ⟨samePgno, sameRefs, sameFlags⟩
  have used : 0 < hdr.nRef := by
    rw [sameRefs]
    exact inUse
  have sane : sqlite3PcachePageSanity p addr = some () := by
    have notClean : hdr.flags.clean = false := by
      rw [sameFlags]
      rcases isFlags with rfl | both
      · rfl
      · exact both.2
    apply sanity_of isHdr
    · rw [samePgno]
      exact positive
    · rw [notClean]
      exact fun isClean => nomatch isClean
    · rw [notClean]
      exact fun isClean => nomatch isClean
    · rw [sameFlags]
      rcases isFlags with rfl | both
      · exact id
      · exact fun _ => both.1
  have rekeys : xRekey p addr hdr.pgno iNew =
      some { p with pCache := Function.update p.pCache addr (some ⟨iNew, page.isPinned⟩) } := by
    apply bind_of (flagged.poolPage Lru.put_pages_same)
    exact bind_of (check_pos samePgno.symm) rfl
  refine .of_bind isHdr (.of_bind (check_pos used) (.of_bind (check_pos isPgno)
    (.of_bind sane (.of_bind rekeys (.of_bind (PCache.update_eq isHdr) ?_)))))
  have moved := flagged.put Lru.put_pages_same (fun hdr => { hdr with pgno := iNew })
    { page with pgno := iNew, flags := flags } (fun _ => rfl) (fun _ => rfl) (by
      intro hdr same
      rcases data_eq same with ⟨_, sameRefs, sameFlags⟩
      simp only [PgHdr.data, Page.data]
      rw [sameRefs, sameFlags]) rfl bounded rfl
  rw [Lru.put_put] at moved
  simp only [Lru.rekey, found]
  rw [sameFlags]
  by_cases toFront : flags.dirty = true ∧ flags.needSync = true
  · rw [if_pos toFront, if_pos toFront]
    have front := moved.front valid.nodup listed Lru.put_pages_same
    rw [← toFront.2]
    exact front
  · rw [if_neg toFront, if_neg toFront]
    exact ⟨_, rfl, moved⟩

theorem Represents.mark (represents : Represents p lru) (valid : lru.Valid) {mark : Mark}
    (has : lru.Has addr fun _ => True) :
    Simulates (p.updateFlags addr mark.apply)
      (lru.change addr fun page => { page with flags := mark.apply page.flags }) := by
  rcases has with ⟨page, found, _⟩
  rw [Lru.change_eq found]
  exact represents.put_flags found (valid.bounded addr page found)

theorem Represents.recycle (represents : Represents p lru) (valid : lru.Valid)
    (has : lru.Has addr fun page => page.isPinned = false) :
    Simulates (recycle p addr) (lru.discard addr) := by
  rcases has with ⟨page, found, unpinned⟩
  rcases valid.recycled found unpinned with ⟨_, _, idle, notListed⟩
  refine .of_bind (represents.poolPage found) (.of_bind (check_pos unpinned) ⟨_, rfl, ?_⟩)
  apply represents.discard found notListed (valid.bounded addr page found)
  rw [idle, Nat.add_zero]

end EspSqlite.Pages
