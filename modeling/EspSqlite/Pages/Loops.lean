import EspSqlite.Pages.Operations

namespace EspSqlite.Pages

open HeapList DoublyLinked

/-! # The loops over dirty pages

Cleaning all pages, clearing flags, truncating and looking for a page to spill follow the
pointers over the whole list. -/

variable {p : PCache} {lru : Lru} {addr : Nat} {page : Page} {hdr : PgHdr}

theorem Lru.Valid.length_le (valid : lru.Valid) : lru.order.length ≤ addressSpace := by
  apply length_le_of_below valid.nodup
  intro addr listed
  rcases valid.found addr listed with ⟨page, found⟩
  exact valid.bounded addr page found

theorem Lru.cleanAll_nil (isNil : lru.order = []) : lru.cleanAll = lru := by
  rw [cleanAll, isNil, List.foldl_nil]

theorem Lru.cleanAll_cons {rest : List Nat} (isOrder : lru.order = addr :: rest) :
    lru.cleanAll = (lru.makeClean addr).cleanAll := by
  rw [cleanAll, isOrder, List.foldl_cons, cleanAll, makeClean_order, isOrder, List.erase_cons_head]

theorem Represents.cleanFirst (represents : Represents p lru) (valid : lru.Valid) {fuel : Nat}
    (enough : lru.order.length ≤ fuel) : Simulates (cleanFirst fuel p) lru.cleanAll := by
  generalize isOrder : lru.order = order at enough
  induction order generalizing p lru fuel with
  | nil =>
      have noDirty : p.pDirty = none := by rw [represents.threaded.first, isOrder, List.head?_nil]
      rw [Lru.cleanAll_nil isOrder]
      refine ⟨p, ?_, represents⟩
      cases fuel <;> simp [Pages.cleanFirst, noDirty]
  | cons addr rest induction =>
      have isFirst : p.pDirty = some addr := by
        rw [represents.threaded.first, isOrder, List.head?_cons]
      have listed : addr ∈ lru.order := by
        rw [isOrder]
        exact List.mem_cons_self
      cases fuel with
      | zero => exact absurd enough (Nat.not_succ_le_zero _)
      | succ fuel =>
          rw [Lru.cleanAll_cons isOrder]
          simp only [Pages.cleanFirst, isFirst]
          apply Simulates.bind (represents.makeClean valid listed)
          intro p cleaned
          apply induction cleaned (valid.makeClean listed)
          · rw [Lru.makeClean_order, isOrder, List.erase_cons_head]
          · exact Nat.le_of_succ_le_succ enough

theorem Lru.makeClean_isAbove (pgno : Nat) :
    (lru.makeClean addr).isAbove pgno = lru.isAbove pgno := by
  funext other
  rw [makeClean, change]
  cases found : (lru.remove addr).pages addr with
  | none => rfl
  | some page =>
      have foundHere : lru.pages addr = some page := found
      rcases eq_or_ne other addr with rfl | differs
      · simp only [isAbove, put_pages_same, foundHere]
        rfl
      · simp only [isAbove, put_pages_other differs]
        rfl

theorem Represents.cleanAfter {pgno : Nat} {rest : List Nat} :
    ∀ {p : PCache} {lru : Lru} {left : List Nat} {fuel : Nat}, Represents p lru → lru.Valid →
    lru.order = left ++ rest → rest.length ≤ fuel →
    Simulates (cleanAfter pgno fuel p rest.head?)
      ((rest.filter (lru.isAbove pgno)).foldl Lru.makeClean lru) := by
  induction rest with
  | nil =>
      intro p lru left fuel represents _ _ _
      exact ⟨p, by cases fuel <;> rfl, represents⟩
  | cons addr rest induction =>
      intro p lru left fuel represents valid isOrder enough
      have listed : addr ∈ lru.order := by
        rw [isOrder]
        exact List.mem_append_right left List.mem_cons_self
      rcases valid.found addr listed with ⟨page, found⟩
      rcases represents.header found with ⟨hdr, isHdr, sameData⟩
      rcases data_eq sameData with ⟨samePgno, _, sameFlags⟩
      have isValid := valid.page addr page found
      have positive : 0 < hdr.pgno := by
        rw [samePgno]
        exact isValid.pgno
      have isDirty : hdr.flags.dirty = true := by
        rw [sameFlags]
        exact isValid.dirty.mpr listed
      have toRest : hdr.pDirtyNext = rest.head? := by
        have threaded : Threaded p (left ++ addr :: rest) := by
          rw [← isOrder]
          exact represents.threaded
        exact (threaded.neighbours isHdr).2
      have isAbove : lru.isAbove pgno addr = decide (pgno < hdr.pgno) := by
        rw [Lru.isAbove, found, Option.any_some, samePgno]
      cases fuel with
      | zero => exact absurd enough (Nat.not_succ_le_zero _)
      | succ fuel =>
          rw [List.head?_cons]
          refine .of_bind isHdr (.of_bind (check_pos positive) ?_)
          rw [toRest]
          by_cases above : pgno < hdr.pgno
          · rw [if_pos above, List.filter_cons_of_pos (by rw [isAbove, decide_eq_true above]),
              List.foldl_cons]
            refine .of_bind (check_pos isDirty) ?_
            apply Simulates.bind (represents.makeClean valid listed)
            intro p cleaned
            have isOrder' : (lru.makeClean addr).order = left ++ rest := by
              have nodup := valid.nodup
              rw [isOrder] at nodup
              have notBefore : addr ∉ left := fun before =>
                (List.nodup_append.mp nodup).2.2 addr before addr List.mem_cons_self rfl
              rw [Lru.makeClean_order, isOrder, List.erase_append_right _ notBefore,
                List.erase_cons_head]
            have goesOn := induction cleaned (valid.makeClean listed) isOrder'
              (Nat.le_of_succ_le_succ enough)
            rwa [Lru.makeClean_isAbove] at goesOn
          · rw [if_neg above, List.filter_cons_of_neg (by rw [isAbove]; simpa using above)]
            have isOrder' : lru.order = (left ++ [addr]) ++ rest := by
              rw [isOrder, List.append_assoc, List.singleton_append]
            exact induction represents valid isOrder' (Nat.le_of_succ_le_succ enough)

/-! ## Changing all dirty pages -/

def redirectAll (headers : Nat → Option PgHdr) (list : List Nat) (change : PgHdr → PgHdr) :
    Nat → Option PgHdr :=
  fun other => if other ∈ list then (headers other).map change else headers other

theorem redirectAll_cons {headers : Nat → Option PgHdr} {change : PgHdr → PgHdr} {rest : List Nat}
    (notAgain : addr ∉ rest) :
    redirectAll (redirect headers (some addr) change) rest change =
      redirectAll headers (addr :: rest) change := by
  funext other
  by_cases isAddr : other = addr
  · subst isAddr
    simp [redirectAll, redirect, notAgain]
  · have differs : some other ≠ some addr := fun same => isAddr (Option.some.inj same)
    simp [redirectAll, redirect_other differs, isAddr]

theorem updateDirty_eq {change : PgHdr → PgHdr} {prev : Nat → Option Nat}
    (keepsNext : ∀ hdr, (change hdr).pDirtyNext = hdr.pDirtyNext) :
    ∀ {list : List Nat} {p : PCache} {before : Option Nat} {fuel : Nat},
    Linked (link p.headers PgHdr.pDirtyNext) prev before list none → list.Nodup →
    (∀ addr ∈ list, ∃ hdr, p.headers addr = some hdr) → list.length ≤ fuel →
    PCache.updateDirty change fuel p list.head? =
      some { p with headers := redirectAll p.headers list change }
  | [], p, _, fuel, _, _, _, _ => by
      have same : redirectAll p.headers [] change = p.headers := by
        funext other
        exact if_neg List.not_mem_nil
      rw [same]
      cases fuel <;> rfl
  | addr :: rest, p, _, 0, _, _, _, enough => absurd enough (Nat.not_succ_le_zero _)
  | addr :: rest, p, _, fuel + 1, linked, nodup, found, enough => by
      rcases linked with ⟨_, isNext, others⟩
      rcases List.nodup_cons.mp nodup with ⟨notAgain, restNodup⟩
      rcases found addr List.mem_cons_self with ⟨hdr, isHdr⟩
      rw [link, isHdr, Option.bind_some, Option.or_none] at isNext
      have changed : redirect p.headers (some addr) change addr = some (change hdr) :=
        redirect_same isHdr
      refine bind_of (PCache.update_eq isHdr) (bind_of changed ?_)
      rw [keepsNext, isNext, ← redirectAll_cons notAgain]
      have stillLinked : Linked (link (redirect p.headers (some addr) change) PgHdr.pDirtyNext) prev
          (some addr) rest none := by
        rw [link_redirect keepsNext]
        exact others
      have stillFound : ∀ other ∈ rest,
          ∃ hdr, redirect p.headers (some addr) change other = some hdr := fun other member =>
        redirect_found (found other (List.mem_cons_of_mem addr member))
      exact updateDirty_eq keepsNext stillLinked restNodup stillFound
        (Nat.le_of_succ_le_succ enough)

theorem Represents.updateDirty (represents : Represents p lru) (valid : lru.Valid)
    {change : PgHdr → PgHdr} (keepsNext : ∀ hdr, (change hdr).pDirtyNext = hdr.pDirtyNext) :
    PCache.updateDirty change addressSpace p p.pDirty =
      some { p with headers := redirectAll p.headers lru.order change } := by
  have walks := updateDirty_eq keepsNext represents.threaded.linked valid.nodup
    represents.threaded.found valid.length_le
  rw [← represents.threaded.first] at walks
  exact walks

section RedirectAll

variable {headers : Nat → Option PgHdr} {list : List Nat} {change : PgHdr → PgHdr}

theorem link_redirectAll {pointer : PgHdr → Option Nat}
    (keeps : ∀ hdr, pointer (change hdr) = pointer hdr) :
    link (redirectAll headers list change) pointer = link headers pointer := by
  funext other
  rw [link, link, redirectAll]
  split
  · cases headers other with
    | none => rfl
    | some hdr => exact keeps hdr
  · rfl

theorem redirectAll_found {other : Nat} (found : ∃ hdr, headers other = some hdr) :
    ∃ hdr, redirectAll headers list change other = some hdr := by
  rcases found with ⟨hdr, found⟩
  rw [redirectAll, found]
  split
  · exact ⟨change hdr, rfl⟩
  · exact ⟨hdr, rfl⟩

end RedirectAll

theorem Represents.changeDirty (represents : Represents p lru) (f : PgFlags → PgFlags) :
    Represents { p with
      headers := redirectAll p.headers lru.order (PgHdr.withFlags f)
      pSynced := p.pDirtyTail } (lru.changeDirty f) := by
  have sameRefs : (lru.changeDirty f).refs = lru.refs := by
    apply Finset.sum_congr rfl
    intro addr _
    simp only [Lru.changeDirty]
    split
    · cases lru.pages addr <;> rfl
    · rfl
  refine ⟨?_, ?_, ?_, represents.refs.trans sameRefs.symm, represents.threaded.last,
    represents.purgeable⟩
  · refine represents.threaded.congr (link_redirectAll fun _ => rfl) (link_redirectAll fun _ => rfl)
      ?_ rfl rfl rfl rfl
    exact fun addr listed => redirectAll_found (represents.threaded.found addr listed)
  · intro addr
    have same := represents.data addr
    simp only [redirectAll, Lru.changeDirty]
    split
    · cases found : lru.pages addr with
      | none =>
          rw [represents.no_header found]
          rfl
      | some page =>
          rcases represents.header found with ⟨hdr, isHdr, sameData⟩
          rcases data_eq sameData with ⟨samePgno, sameRefs, sameFlags⟩
          rw [isHdr]
          simp only [Option.map_some, PgHdr.data, PgHdr.withFlags, Page.data]
          rw [samePgno, sameRefs, sameFlags]
    · exact same
  · intro addr
    have same := represents.pool addr
    simp only [Lru.changeDirty]
    split
    · rw [same]
      cases lru.pages addr <;> rfl
    · exact same

theorem Represents.clearSyncFlags (represents : Represents p lru) (valid : lru.Valid) :
    Simulates (sqlite3PcacheClearSyncFlags p) lru.clearSyncFlags := by
  refine .of_bind (represents.updateDirty valid fun _ => rfl) ?_
  exact ⟨_, rfl, represents.changeDirty _⟩

theorem Represents.clearWritable (represents : Represents p lru) (valid : lru.Valid) :
    Simulates (sqlite3PcacheClearWritable p) lru.clearWritable := by
  refine .of_bind (represents.updateDirty valid fun _ => rfl) ?_
  exact ⟨_, rfl, represents.changeDirty _⟩

/-! ## Truncating -/

theorem Represents.xTruncate (represents : Represents p lru) (valid : lru.Valid) {limit : Nat}
    (kept : ∀ addr page, addr ∈ lru.order → lru.pages addr = some page → page.pgno < limit)
    (unused : ∀ addr page, lru.pages addr = some page → limit ≤ page.pgno → page.nRef = 0) :
    Represents (xTruncate p limit) { lru with
      pages := fun addr => (lru.pages addr).filter fun page => decide (page.pgno < limit) } := by
  have isPool : ∀ addr, (p.pCache addr).filter (fun page => decide (page.iKey < limit)) =
      ((lru.pages addr).filter fun page => decide (page.pgno < limit)).map Page.pool := by
    intro addr
    rw [represents.pool addr, Option.filter_map]
    rfl
  have sameHeader : ∀ addr ∈ lru.order,
      (Pages.xTruncate p limit).headers addr = p.headers addr := by
    intro addr listed
    rcases valid.found addr listed with ⟨page, found⟩
    apply if_pos
    have stays : (some page).filter (fun page => decide (page.pgno < limit)) = some page :=
      Option.filter_some_pos (decide_eq_true (kept addr page listed found))
    rw [isPool addr, found, stays]
    rfl
  have sameLinks : ∀ pointer : PgHdr → Option Nat,
      (∀ addr, addr ∉ lru.order → link p.headers pointer addr = none) →
      link (Pages.xTruncate p limit).headers pointer = link p.headers pointer := by
    intro pointer apart
    funext addr
    by_cases listed : addr ∈ lru.order
    · rw [link, link, sameHeader addr listed]
    · rw [apart addr listed]
      change (if _ then p.headers addr else none).bind pointer = none
      split
      · exact apart addr listed
      · rfl
  refine ⟨?_, ?_, isPool, ?_, represents.synced, represents.purgeable⟩
  · refine represents.threaded.congr (sameLinks _ fun addr notListed => ?_)
      (sameLinks _ fun addr notListed => ?_) ?_ rfl rfl rfl rfl
    · exact (represents.threaded.apart addr notListed).1
    · exact (represents.threaded.apart addr notListed).2
    · intro addr listed
      rw [sameHeader addr listed]
      exact represents.threaded.found addr listed
  · intro addr
    have same := represents.data addr
    change (if _ then p.headers addr else none).map PgHdr.data =
      ((lru.pages addr).filter _).map Page.data
    rw [isPool addr, Option.isSome_map]
    cases found : lru.pages addr with
    | none => rfl
    | some page =>
        rw [found] at same
        by_cases isKept : page.pgno < limit
        · have kept : (some page).filter (fun page => decide (page.pgno < limit)) = some page :=
            Option.filter_some_pos (decide_eq_true isKept)
          rw [kept]
          exact same
        · have gone : (some page).filter (fun page => decide (page.pgno < limit)) = none :=
            Option.filter_some_neg (decide_eq_false isKept)
          rw [gone]
          rfl
  · refine represents.refs.trans (Finset.sum_congr rfl fun addr _ => ?_)
    change _ = (((lru.pages addr).filter _).map Page.nRef).getD 0
    cases found : lru.pages addr with
    | none => rfl
    | some page =>
        by_cases isKept : page.pgno < limit
        · simp [Option.filter, isKept]
        · simp [Option.filter, isKept, unused addr page found (Nat.le_of_not_lt isKept)]

theorem exists_used (inUse : lru.refs ≠ 0) :
    ∃ addr page, lru.pages addr = some page ∧ 0 < page.nRef := by
  rcases Finset.exists_ne_zero_of_sum_ne_zero inUse with ⟨addr, _, some⟩
  cases found : lru.pages addr with
  | none =>
      rw [found] at some
      exact absurd rfl some
  | some page =>
      rw [found] at some
      exact ⟨addr, page, found, Nat.pos_of_ne_zero some⟩

theorem Represents.truncate (represents : Represents p lru) (valid : lru.Valid) {pgno : Nat}
    {pPage1 : Option Nat} (allowed : lru.Allowed (.truncate pgno pPage1)) :
    Simulates (sqlite3PcacheTruncate p pgno pPage1) (lru.truncate pgno) := by
  rcases allowed with ⟨unused, isResult⟩
  rcases valid.cleanAbove pgno with ⟨validClean, oldPages, _⟩
  have cleans : Simulates (Pages.cleanAfter pgno addressSpace p p.pDirty)
      (lru.cleanAbove pgno) := by
    rw [represents.threaded.first]
    exact Represents.cleanAfter represents valid (List.nil_append _).symm valid.length_le
  apply Simulates.bind cleans
  intro p cleaned
  have stillUsed : ∀ addr page, (lru.cleanAbove pgno).pages addr = some page →
      pgno < page.pgno → 0 < page.nRef → pgno = 0 ∧ page.pgno = 1 := by
    intro addr page found after inUse
    rcases oldPages addr page found with ⟨old, foundOld, samePgno, sameRefs⟩
    rw [samePgno] at after ⊢
    rw [sameRefs] at inUse
    exact unused addr old foundOld after inUse
  have isTruncated : ∀ last, lru.truncate pgno = { lru.cleanAbove pgno with
      pages := fun addr =>
        ((lru.cleanAbove pgno).pages addr).filter fun page => decide (page.pgno < last + 1) }
      ↔ lru.truncate pgno = { lru.cleanAbove pgno with
      pages := fun addr =>
        ((lru.cleanAbove pgno).pages addr).filter fun page => decide (page.pgno ≤ last) } := by
    intro last
    simp only [Nat.lt_succ_iff]
  have keptDirty : ∀ last, pgno ≤ last → ∀ addr page, addr ∈ (lru.cleanAbove pgno).order →
      (lru.cleanAbove pgno).pages addr = some page → page.pgno < last + 1 := by
    intro last after addr page listed found
    exact Nat.lt_succ_of_le (Nat.le_trans (valid.cleanAbove_le listed found) after)
  rw [cleaned.refs]
  by_cases keep : pgno = 0 ∧ (lru.cleanAbove pgno).refs ≠ 0
  · rcases exists_used keep.2 with ⟨addr, page, found, inUse⟩
    have isOne := (stillUsed addr page found (by
      rw [keep.1]
      exact (validClean.page addr page found).pgno) inUse).2
    -- the page in use is the one that was fetched, and pinned it stays
    have isPage1 : pPage1 = some addr := by
      rcases oldPages addr page found with ⟨old, foundOld, samePgno, _⟩
      apply isResult.1 addr old.pool (by rw [Lru.pool, foundOld, Option.map_some])
      rw [← isOne, samePgno]
      rfl
    have pinned := validClean.pinned found inUse
    have isFetch : xFetch p 1 pPage1 = p := by
      have samePool := cleaned.same_pool found page rfl
      rw [Page.pool, pinned] at samePool
      rw [isPage1]
      simp only [xFetch, cleaned.poolPage found]
      change { p with pCache := Function.update p.pCache addr (some ⟨page.pgno, true⟩) } = p
      rw [← samePool]
    rw [if_pos keep]
    have isSome : pPage1 ≠ none := by
      rw [isPage1]
      exact Option.some_ne_none addr
    refine .of_bind (check_pos isSome) ?_
    rw [isFetch, (isTruncated 1).mpr (by rw [Lru.truncate, if_pos keep])]
    refine ⟨_, rfl, cleaned.xTruncate validClean (keptDirty 1 (by omega)) ?_⟩
    intro other old foundOld beyond
    by_contra inUse
    have again := stillUsed other old foundOld (by omega) (Nat.pos_of_ne_zero inUse)
    omega
  · rw [if_neg keep, (isTruncated pgno).mpr (by rw [Lru.truncate, if_neg keep])]
    refine ⟨_, rfl, cleaned.xTruncate validClean (keptDirty pgno (Nat.le_refl pgno)) ?_⟩
    intro other old foundOld beyond
    by_contra inUse
    have isPos := Nat.pos_of_ne_zero inUse
    have isZero := (stillUsed other old foundOld beyond isPos).1
    have used := refs_pos (validClean.bounded other old foundOld) foundOld
    exact keep ⟨isZero, by omega⟩

end EspSqlite.Pages
