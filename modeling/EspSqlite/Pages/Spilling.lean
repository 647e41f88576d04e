import EspSqlite.Pages.Loops

namespace EspSqlite.Pages

open DoublyLinked

/-! # Spilling a page

The search for a page to spill goes from older to newer pages, first for one that needs no
sync, and the page it finds is written or stays. -/

variable {p : PCache} {lru : Lru} {addr : Nat} {page : Page} {hdr : PgHdr}

theorem Represents.follow_all (represents : Represents p lru) (valid : lru.Valid) :
    follow p.headers PgHdr.pDirtyPrev addressSpace p.pDirtyTail = some lru.order.reverse := by
  rw [represents.threaded.last]
  exact represents.threaded.linked.follow_prev valid.length_le represents.threaded.found

/-- The dirty pages from where the search starts. -/
theorem Represents.follow_synced (represents : Represents p lru) (valid : lru.Valid) :
    follow p.headers PgHdr.pDirtyPrev addressSpace p.pSynced = some lru.fromSynced := by
  rw [represents.synced, Lru.fromSynced]
  cases isSynced : lru.synced with
  | none => rfl
  | some addr =>
      rcases List.append_of_mem (valid.synced addr isSynced) with ⟨left, right, isOrder⟩
      have threaded := represents.threaded
      have short := valid.length_le
      rw [isOrder] at threaded short
      have apart : ∀ other ∈ right.reverse, (other != addr) = true := by
        intro other member
        apply bne_iff_ne.mpr
        rintro rfl
        exact threaded.notMem.2 (List.mem_reverse.mp member)
      have isSuffix : lru.order.reverse.dropWhile (fun other => other != addr) =
          (left ++ [addr]).reverse := by
        rw [isOrder, List.reverse_append, List.reverse_cons, List.append_assoc,
          List.dropWhile_append_of_pos apart, List.singleton_append,
          List.dropWhile_cons_of_neg (by simp), List.reverse_append, List.reverse_singleton,
          List.singleton_append]
      have front : Linked (link p.headers PgHdr.pDirtyNext) (link p.headers PgHdr.pDirtyPrev) none
          (left ++ [addr]) (right.head?.or none) := by
        have linked := threaded.linked
        rw [← List.singleton_append, ← List.append_assoc] at linked
        exact (linked_append.mp linked).1
      have found : ∀ other ∈ left ++ [addr], ∃ hdr, p.headers other = some hdr := by
        intro other member
        apply threaded.found other
        rw [List.mem_append, List.mem_singleton] at member
        rcases member with inLeft | rfl
        · exact List.mem_append_left _ inLeft
        · exact List.mem_append_right _ List.mem_cons_self
      have enough : (left ++ [addr]).length ≤ addressSpace := by
        rw [List.length_append, List.length_cons] at short
        rw [List.length_append, List.length_singleton]
        omega
      have followed := front.follow_prev enough found
      rw [List.getLast?_append, List.getLast?_singleton, Option.some_or] at followed
      change _ = some (lru.order.reverse.dropWhile fun other => other != addr)
      rw [isSuffix]
      exact followed

theorem Represents.any_header (represents : Represents p lru) {stop : PgHdr → Bool}
    {holds : Page → Bool} (same : ∀ hdr page, hdr.data = page.data → stop hdr = holds page)
    (addr : Nat) : (p.headers addr).any stop = (lru.pages addr).any holds := by
  cases found : lru.pages addr with
  | none =>
      rw [represents.no_header found]
      rfl
  | some page =>
      rcases represents.header found with ⟨hdr, isHdr, sameData⟩
      rw [isHdr]
      exact same hdr page sameData

theorem Represents.find_synced (represents : Represents p lru) (valid : lru.Valid) :
    findPrev p (fun hdr => hdr.nRef = 0 && !hdr.flags.needSync) p.pSynced =
      some (lru.fromSynced.find? lru.spillable) := by
  have same : (fun addr => (p.headers addr).any fun hdr => hdr.nRef = 0 && !hdr.flags.needSync) =
      lru.spillable := by
    funext addr
    apply represents.any_header
    intro hdr page sameData
    rcases data_eq sameData with ⟨_, sameRefs, sameFlags⟩
    rw [sameRefs, sameFlags]
    rfl
  rw [findPrev, search_of_follow (represents.follow_synced valid), same]

theorem Represents.find_idle (represents : Represents p lru) (valid : lru.Valid) :
    findPrev p (fun hdr => hdr.nRef = 0) p.pDirtyTail =
      some (lru.order.reverse.find? lru.idle) := by
  have same : (fun addr => (p.headers addr).any fun hdr => hdr.nRef = 0) = lru.idle := by
    funext addr
    apply represents.any_header
    intro hdr page sameData
    rw [(data_eq sameData).2.1]
    rfl
  rw [findPrev, search_of_follow (represents.follow_all valid), same]

theorem Represents.stressPage (represents : Represents p lru) (valid : lru.Valid) :
    ∃ p', stressPage p = some (p', lru.stressPage) ∧
      Represents p' { lru with synced := lru.fromSynced.find? lru.spillable } := by
  have searched : Represents { p with pSynced := lru.fromSynced.find? lru.spillable }
      { lru with synced := lru.fromSynced.find? lru.spillable } := by
    refine ⟨?_, represents.data, represents.pool, represents.refs, rfl, represents.purgeable⟩
    exact represents.threaded.congr rfl rfl represents.threaded.found rfl rfl rfl rfl
  refine ⟨_, ?_, searched⟩
  apply bind_of (represents.find_synced valid)
  rw [Lru.stressPage]
  cases lru.fromSynced.find? lru.spillable with
  | some addr => rfl
  | none => exact bind_of (represents.find_idle valid) rfl

/-- The transient list of dirty pages is no part of the pages. -/
theorem Represents.clear_pDirty (represents : Represents p lru) (found : lru.pages addr = some page)
    (bounded : addr < addressSpace) :
    Simulates (p.update addr (PgHdr.withDirty none)) lru := by
  have kept := represents.put_header found (PgHdr.withDirty none) page
    (fun _ => rfl) (fun _ => rfl) (fun _ same => same) rfl rfl bounded
  rw [Lru.put_self found] at kept
  exact kept

theorem Represents.pagerStress (represents : Represents p lru) (valid : lru.Valid)
    (listed : addr ∈ lru.order) (outcome : Stress) :
    Simulates (pagerStress p addr outcome) (lru.spill addr outcome) := by
  rcases valid.found addr listed with ⟨page, found⟩
  rcases represents.header found with ⟨hdr, isHdr, sameData⟩
  rcases data_eq sameData with ⟨_, _, sameFlags⟩
  have bounded := valid.bounded addr page found
  have isDirty : hdr.flags.dirty = true := by
    rw [sameFlags]
    exact (valid.page addr page found).dirty.mpr listed
  have needsSync : lru.needsSync addr = page.flags.needSync := by
    rw [Lru.needsSync, found, Option.any_some]
  refine .of_bind isHdr (.of_bind (check_pos isDirty) ?_)
  cases outcome with
  | kept => exact ⟨p, rfl, represents⟩
  | failed synced =>
      apply Simulates.bind (represents.clear_pDirty found bounded)
      intro p cleared
      cases synced with
      | true => exact cleared.clearSyncFlags valid
      | false => exact ⟨p, rfl, cleared⟩
  | written cacheMod =>
      -- without a sync flag the page is written and becomes clean
      have writes : ∀ p lru, Represents p lru → lru.Valid → addr ∈ lru.order →
          lru.needsSync addr = false → Simulates (do
            let pg ← p.headers addr
            check (pg.flags.needSync = false)
            sqlite3PcacheMakeClean p addr) (lru.makeClean addr) := by
        intro p lru represents valid listed noSync
        rcases valid.found addr listed with ⟨page, found⟩
        rcases represents.header found with ⟨hdr, isHdr, sameData⟩
        have isSynced : hdr.flags.needSync = false := by
          rw [(data_eq sameData).2.2]
          rw [Lru.needsSync, found, Option.any_some] at noSync
          exact noSync
        exact .of_bind isHdr (.of_bind (check_pos isSynced) (represents.makeClean valid listed))
      apply Simulates.bind (represents.clear_pDirty found bounded)
      intro p cleared
      rw [sameFlags, Lru.spill, needsSync]
      by_cases syncs : page.flags.needSync = true ∨ cacheMod = true
      · rw [if_pos syncs, if_pos syncs]
        apply Simulates.bind (cleared.clearSyncFlags valid)
        intro p synced
        apply writes p _ synced valid.clearSyncFlags listed
        simp [Lru.needsSync, Lru.clearSyncFlags, Lru.changeDirty, listed, found]
      · rw [if_neg syncs, if_neg syncs]
        refine .of_bind rfl ?_
        apply writes p lru cleared valid listed
        rw [needsSync]
        simpa using fun isTrue => syncs (.inl isTrue)

theorem Represents.stress (represents : Represents p lru) (valid : lru.Valid) {overfull : Bool}
    {outcome : Stress} : Simulates (stress p overfull outcome) (lru.stress overfull outcome) := by
  have create := represents.threaded.create
  rw [represents.purgeable] at create
  rw [Pages.stress, Lru.stress]
  by_cases spills : lru.purgeable = true ∧ lru.order ≠ []
  · rw [if_pos spills] at create
    have notTwo : p.eCreate ≠ 2 := by omega
    rw [if_neg notTwo]
    cases overfull with
    | false =>
        rw [if_neg Bool.false_ne_true, if_pos (.inr (.inr rfl))]
        exact ⟨p, rfl, represents⟩
    | true =>
        have goesOn : ¬(lru.purgeable = false ∨ lru.order = [] ∨ true = false) := by
          simp [spills]
        rw [if_pos rfl, if_neg goesOn]
        rcases represents.stressPage valid with ⟨p', picks, searched⟩
        refine .of_bind picks ?_
        cases picked : lru.stressPage with
        | none => exact ⟨p', rfl, searched⟩
        | some addr =>
            exact searched.pagerStress valid.searched (Lru.stressPage_idle picked).1 outcome
  · rw [if_neg spills] at create
    have stays : lru.purgeable = false ∨ lru.order = [] ∨ overfull = false := by
      by_contra goesOn
      simp only [not_or, Bool.not_eq_false] at goesOn
      exact spills ⟨goesOn.1, goesOn.2.1⟩
    rw [if_pos create, if_pos stays]
    exact ⟨p, rfl, represents⟩

end EspSqlite.Pages
