import EspSqlite.Pages.Runs

namespace EspSqlite.Pages

/-! # Making room

A full page cache spills a page that is not in use: one that needs no sync, or else the one
used least recently. Once it is written the pluggable cache module can recycle it. -/

namespace Lru

variable {lru : Lru} {addr : Nat} {page : Page}

/-! ## A cache stays purgeable -/

@[simp] theorem change_purgeable (f : Page → Page) :
    (lru.change addr f).purgeable = lru.purgeable := by
  rw [change]
  split <;> rfl

theorem fetch_purgeable (pgno : Nat) (result : Option Nat) :
    (lru.fetch pgno result).purgeable = lru.purgeable := by
  cases result with
  | none => rfl
  | some addr =>
      rw [fetch]
      split <;> rfl

theorem cleanAll_purgeable : lru.cleanAll.purgeable = lru.purgeable := by
  refine (cleanAll_induction (motive := fun after => after.purgeable = lru.purgeable) rfl ?_).1
  intro after addr rest same _
  exact (change_purgeable _).trans same

theorem cleanEach_purgeable {addrs : List Nat} : ∀ {lru : Lru},
    (addrs.foldl makeClean lru).purgeable = lru.purgeable := by
  induction addrs with
  | nil => exact fun {lru} => rfl
  | cons first rest induction => exact fun {lru} => induction.trans (change_purgeable _)

theorem spill_purgeable (outcome : Stress) :
    (lru.spill addr outcome).purgeable = lru.purgeable := by
  cases outcome with
  | kept => rfl
  | failed synced => cases synced <;> rfl
  | written cacheMod =>
      rw [spill, makeClean, change_purgeable]
      split <;> rfl

theorem stress_purgeable (overfull : Bool) (outcome : Stress) :
    (lru.stress overfull outcome).purgeable = lru.purgeable := by
  rw [stress]
  split
  · rfl
  · simp only
    split
    · rfl
    · exact spill_purgeable outcome

theorem apply_purgeable (op : Op) : (lru.apply op).purgeable = lru.purgeable := by
  cases op with
  | fetch pgno createFlag result => exact fetch_purgeable pgno result
  | refetch pgno result => exact fetch_purgeable pgno result
  | ref addr => exact change_purgeable _
  | release addr =>
      rw [apply, release]
      split
      · rfl
      · simp only
        split <;> rfl
  | drop addr =>
      rw [apply, drop]
      split <;> rfl
  | makeDirty addr =>
      rw [apply, makeDirty]
      split
      · rfl
      · split <;> rfl
  | makeClean addr => exact change_purgeable _
  | cleanAll => exact cleanAll_purgeable
  | clearWritable => rfl
  | clearSyncFlags => rfl
  | rekey addr iNew flags =>
      rw [apply, rekey]
      split
      · rfl
      · split <;> rfl
  | truncate pgno pPage1 => exact cleanEach_purgeable
  | stress overfull outcome => exact stress_purgeable overfull outcome
  | mark addr mark => exact change_purgeable _
  | recycle addr => rfl

theorem run_purgeable (ops : List Op) : ∀ lru : Lru, (lru.run ops).purgeable = lru.purgeable := by
  induction ops with
  | nil => exact fun lru => rfl
  | cons op ops induction => exact fun lru => (induction (lru.apply op)).trans (apply_purgeable op)

/-! ## The choice of a page -/

/-- No page is chosen only when each of them is in use. -/
theorem stressPage_none (isNone : lru.stressPage = none) :
    ∀ addr ∈ lru.order, lru.idle addr = false := by
  intro addr listed
  rw [stressPage] at isNone
  split at isNone
  · cases isNone
  · have notIdle := List.find?_eq_none.mp isNone addr (List.mem_reverse.mpr listed)
    exact Bool.eq_false_of_not_eq_true notIdle

/-- A page that needs a sync is chosen only when every page used less recently is in use. -/
theorem stressPage_oldest (picked : lru.stressPage = some addr) : lru.spillable addr = true ∨
    ∃ newer older, lru.order = newer ++ addr :: older ∧
      ∀ other ∈ older, lru.idle other = false := by
  rw [stressPage] at picked
  split at picked
  next first isFound =>
    cases picked
    exact .inl (List.find?_some isFound)
  next =>
    rcases List.find?_eq_some_iff_append.mp picked with ⟨_, older, newer, isOrder, inUse⟩
    refine .inr ⟨newer.reverse, older.reverse, ?_, ?_⟩
    · rw [← List.reverse_reverse lru.order, isOrder, List.reverse_append, List.reverse_cons,
        List.append_assoc, List.singleton_append]
    · intro other member
      have notIdle := inUse other (List.mem_reverse.mp member)
      rw [Bool.not_eq_true'] at notIdle
      exact notIdle

/-! ## The page that is written -/

theorem clearSyncFlags_unused (unused : lru.Has addr fun page => page.nRef = 0) :
    lru.clearSyncFlags.Has addr fun page => page.nRef = 0 := by
  rcases unused with ⟨page, found, noRefs⟩
  have isPage : lru.clearSyncFlags.pages addr = if addr ∈ lru.order then
      (lru.pages addr).map fun page =>
        { page with flags := { page.flags with needSync := false } }
      else lru.pages addr := rfl
  rw [found] at isPage
  by_cases listed : addr ∈ lru.order
  · rw [if_pos listed] at isPage
    exact ⟨_, isPage, noRefs⟩
  · rw [if_neg listed] at isPage
    exact ⟨_, isPage, noRefs⟩

theorem makeClean_unused (unused : lru.Has addr fun page => page.nRef = 0) :
    (lru.makeClean addr).Has addr fun page => page.nRef = 0 := by
  rcases unused with ⟨page, found, noRefs⟩
  have isChange : lru.makeClean addr = (lru.remove addr).put addr
      (Page.settle lru.purgeable { page with flags := cleaned page.flags }) := change_eq found
  rw [isChange]
  exact ⟨_, Function.update_self _ _ _, noRefs⟩

theorem spill_written (unused : lru.Has addr fun page => page.nRef = 0) (cacheMod : Bool) :
    (lru.spill addr (.written cacheMod)).order = lru.order.erase addr ∧
      (lru.spill addr (.written cacheMod)).Has addr fun page => page.nRef = 0 := by
  rw [spill, makeClean_order]
  split
  · exact ⟨rfl, makeClean_unused (clearSyncFlags_unused unused)⟩
  · exact ⟨rfl, makeClean_unused unused⟩

end Lru

/-! ## After every run -/

variable {p p' : PCache} {lru : Lru} {addr : Nat} {hdr : PgHdr}

theorem Represents.idle_iff (represents : Represents p lru) (isHdr : p.headers addr = some hdr) :
    lru.idle addr = true ↔ hdr.nRef = 0 := by
  rcases represents.page isHdr with ⟨page, found, _, sameRefs, _⟩
  rw [Lru.idle, found, Option.any_some, Page.idle, decide_eq_true_iff, sameRefs]

theorem Represents.in_use (represents : Represents p lru) (notIdle : lru.idle addr = false) :
    ∀ hdr, p.headers addr = some hdr → 0 < hdr.nRef := by
  intro hdr isHdr
  apply Nat.pos_of_ne_zero
  intro isZero
  rw [(represents.idle_iff isHdr).mpr isZero] at notIdle
  cases notIdle

structure Chosen (p : PCache) (order : List Nat) (addr : Nat) : Prop where
  listed : addr ∈ order
  unused : ∃ hdr, p.headers addr = some hdr ∧ hdr.nRef = 0
  oldest : (∀ hdr, p.headers addr = some hdr → hdr.flags.needSync = false) ∨
    ∃ newer older, order = newer ++ addr :: older ∧
      ∀ other ∈ older, ∀ hdr, p.headers other = some hdr → 0 < hdr.nRef

theorem Represents.chosen (represents : Represents p lru) (picked : lru.stressPage = some addr) :
    Chosen p lru.order addr where
  listed := (Lru.stressPage_idle picked).1
  unused := by
    rcases (Lru.stressPage_idle picked).2 with ⟨page, found, noRefs⟩
    rcases represents.header found with ⟨hdr, isHdr, sameData⟩
    exact ⟨hdr, isHdr, (data_eq sameData).2.1.trans noRefs⟩
  oldest := by
    rcases Lru.stressPage_oldest picked with spillable | ⟨newer, older, isOrder, inUse⟩
    · refine .inl fun hdr isHdr => ?_
      rcases represents.page isHdr with ⟨page, found, _, _, sameFlags⟩
      rw [Lru.spillable, found, Option.any_some, Bool.and_eq_true_iff,
        Bool.not_eq_true'] at spillable
      rw [sameFlags]
      exact spillable.2
    · exact .inr ⟨newer, older, isOrder, fun other member =>
        represents.in_use (inUse other member)⟩

def Evictable (p : PCache) (addr : Nat) : Prop :=
  ∃ hdr page, p.headers addr = some hdr ∧ hdr.flags.clean = true ∧ p.pCache addr = some page ∧
    page.isPinned = false

theorem Represents.evictable (represents : Represents p lru) (valid : lru.Valid)
    (purgeable : lru.purgeable = true) (notListed : addr ∉ lru.order)
    (unused : lru.Has addr fun page => page.nRef = 0) : Evictable p addr := by
  rcases unused with ⟨page, found, noRefs⟩
  rcases represents.header found with ⟨hdr, isHdr, sameData⟩
  have isPool := represents.poolPage found
  have sound := represents.sound valid
  have isClean : hdr.flags.clean = true := by
    rw [sound.clean addr hdr isHdr, Bool.not_eq_true']
    exact Bool.eq_false_of_not_eq_true fun isDirty =>
      notListed ((sound.dirty addr hdr isHdr).mp isDirty)
  refine ⟨hdr, page.pool, isHdr, isClean, isPool, ?_⟩
  rw [sound.recyclable addr hdr page.pool isHdr isPool, represents.purgeable]
  exact ⟨purgeable, isClean, (data_eq sameData).2.1.trans noRefs⟩

/-- When the cache is full and the file can be written, each dirty page is in use or room is
made: one that is not in use gets clean and can be recycled. -/
theorem stress_makes_room (ops : List Op) (cacheMod : Bool)
    (allowed : (Lru.opened true).AllowedRun [] ops) :
    ∃ p p', PCache.run (sqlite3PcacheOpen true) ops = some p ∧
      stress p true (.written cacheMod) = some p' ∧
      ((∀ addr ∈ ((Lru.opened true).run ops).order, ∀ hdr, p.headers addr = some hdr →
          0 < hdr.nRef) ∧ Sound p' ((Lru.opened true).run ops).order ∨
        ∃ addr, Chosen p ((Lru.opened true).run ops).order addr ∧ Evictable p' addr ∧
          Sound p' (((Lru.opened true).run ops).order.erase addr)) := by
  rcases run_opened allowed with ⟨⟨p, runs, represents⟩, valid⟩
  have purgeable : ((Lru.opened true).run ops).purgeable = true :=
    Lru.run_purgeable ops (Lru.opened true)
  generalize (Lru.opened true).run ops = lru at represents valid purgeable ⊢
  have simulates : Simulates (stress p true (.written cacheMod))
      (lru.stress true (.written cacheMod)) := represents.stress valid
  rcases simulates with ⟨p', stresses, represents'⟩
  have valid' : (lru.stress true (.written cacheMod)).Valid := valid.stress
  have sound := represents'.sound valid'
  refine ⟨p, p', runs, stresses, ?_⟩
  by_cases noDirty : lru.order = []
  · have same : lru.stress true (.written cacheMod) = lru := by
      rw [Lru.stress, if_pos (.inr (.inl noDirty))]
    rw [same] at sound
    refine .inl ⟨fun addr listed => ?_, sound⟩
    rw [noDirty] at listed
    exact absurd listed List.not_mem_nil
  · have goesOn : ¬(lru.purgeable = false ∨ lru.order = [] ∨ true = false) := by
      simp [purgeable, noDirty]
    cases picked : lru.stressPage with
    | none =>
        have same : (lru.stress true (.written cacheMod)).order = lru.order := by
          rw [Lru.stress, if_neg goesOn, picked]
        rw [same] at sound
        exact .inl ⟨fun addr listed => represents.in_use (Lru.stressPage_none picked addr listed),
          sound⟩
    | some addr =>
        have isSpill : lru.stress true (.written cacheMod) =
            Lru.spill { lru with synced := lru.fromSynced.find? lru.spillable } addr
              (.written cacheMod) := by
          rw [Lru.stress, if_neg goesOn, picked]
        have unused : Lru.Has { lru with synced := lru.fromSynced.find? lru.spillable } addr
            fun page => page.nRef = 0 := (Lru.stressPage_idle picked).2
        rcases Lru.spill_written unused cacheMod with ⟨isOrder, stillUnused⟩
        rw [← isSpill] at isOrder stillUnused
        have stillPurgeable : (lru.stress true (.written cacheMod)).purgeable = true :=
          (Lru.stress_purgeable true (.written cacheMod)).trans purgeable
        have notListed : addr ∉ (lru.stress true (.written cacheMod)).order := by
          rw [isOrder]
          exact valid.nodup.not_mem_erase
        rw [isOrder] at sound
        exact .inr ⟨addr, represents.chosen picked,
          represents'.evictable valid' stillPurgeable notListed stillUnused, sound⟩

def released : List Op := [.fetch 1 3 (some 4), .makeDirty 4, .release 4]

theorem released_allowed : (Lru.opened true).AllowedRun [] released := by
  refine ⟨.inl rfl, ⟨Nat.one_pos, .inl rfl, ⟨?_, ?_⟩, ?_⟩, .inl rfl, ?_, .inl rfl, ?_, rfl⟩
  · intro addr page found
    cases found
  · intro addr isAddr
    cases isAddr
    exact .inr ⟨rfl, by decide, by decide⟩
  · intro addr page _ found
    cases found
  · exact ⟨⟨1, 1, PGHDR_CLEAN, true⟩, rfl, by decide, by decide⟩
  · exact ⟨⟨1, 1, dirtyFlags, true⟩, rfl, by decide⟩

theorem stress_makes_room_released :
    ∃ p p', PCache.run (sqlite3PcacheOpen true) released = some p ∧
      stress p true (.written true) = some p' ∧
      ((∀ addr ∈ ((Lru.opened true).run released).order, ∀ hdr, p.headers addr = some hdr →
          0 < hdr.nRef) ∧ Sound p' ((Lru.opened true).run released).order ∨
        ∃ addr, Chosen p ((Lru.opened true).run released).order addr ∧ Evictable p' addr ∧
          Sound p' (((Lru.opened true).run released).order.erase addr)) :=
  stress_makes_room released true released_allowed

end EspSqlite.Pages
