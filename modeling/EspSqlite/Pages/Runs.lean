import EspSqlite.Pages.Spilling

namespace EspSqlite.Pages

open DoublyLinked

/-! # Runs of the page cache

Whatever its callers may do, no assert of the page cache fails, no pointer leads astray, and
the pointers list the dirty pages in the order of their use. -/

namespace PCache

def apply (p : PCache) : Op → Option PCache
  | .fetch pgno createFlag result => do
      let p ← sqlite3PcacheFetch p pgno createFlag result
      match result with
      | none => some p
      | some addr => sqlite3PcacheFetchFinish p pgno addr
  | .refetch pgno result =>
      match result with
      | none => some p
      | some addr => sqlite3PcacheFetchFinish (xFetch p pgno (some addr)) pgno addr
  | .ref addr => sqlite3PcacheRef p addr
  | .release addr => sqlite3PcacheRelease p addr
  | .drop addr => sqlite3PcacheDrop p addr
  | .makeDirty addr => sqlite3PcacheMakeDirty p addr
  | .makeClean addr => sqlite3PcacheMakeClean p addr
  | .cleanAll => sqlite3PcacheCleanAll p
  | .clearWritable => sqlite3PcacheClearWritable p
  | .clearSyncFlags => sqlite3PcacheClearSyncFlags p
  | .rekey addr iNew flags => sqlite3PagerRekey p addr iNew flags
  | .truncate pgno pPage1 => sqlite3PcacheTruncate p pgno pPage1
  | .stress overfull outcome => stress p overfull outcome
  | .mark addr mark => p.updateFlags addr mark.apply
  | .recycle addr => recycle p addr

def run (p : PCache) : List Op → Option PCache
  | [] => some p
  | op :: ops => do
      let p ← p.apply op
      p.run ops

end PCache

variable {p : PCache} {lru : Lru} {addr : Nat}

theorem open_represents (purgeable : Bool) :
    Represents (sqlite3PcacheOpen purgeable) (Lru.opened purgeable) where
  threaded := {
    linked := trivial
    apart := fun _ _ => ⟨rfl, rfl⟩
    found := fun _ listed => absurd listed List.not_mem_nil
    nodup := List.nodup_nil
    first := rfl
    last := rfl
    create := (if_neg fun both => both.2 rfl).symm }
  data := fun _ => rfl
  pool := fun _ => rfl
  refs := by
    have isZero : (Lru.opened purgeable).refs = 0 := Finset.sum_eq_zero fun _ _ => rfl
    rw [isZero]
    rfl
  synced := rfl
  purgeable := rfl

theorem Represents.applyOther (represents : Represents p lru) (valid : lru.Valid) {op : Op}
    (other : op.isRekey = false) (allowed : lru.Allowed op) :
    Simulates (p.apply op) (lru.apply op) := by
  cases op with
  | fetch pgno createFlag result =>
      refine .of_bind (represents.fetch allowed.2.1) ?_
      have fetched := represents.fetched valid allowed.1 allowed.2.2.1 allowed.2.2.2
      cases result <;> exact fetched
  | refetch pgno result =>
      have fetched := represents.fetched valid allowed.1 allowed.2.1 allowed.2.2
      cases result <;> exact fetched
  | ref addr => exact represents.ref valid allowed
  | release addr => exact represents.release valid allowed
  | drop addr => exact represents.drop valid allowed
  | makeDirty addr => exact represents.makeDirty valid allowed
  | makeClean addr => exact represents.makeClean valid allowed
  | cleanAll => exact represents.cleanFirst valid valid.length_le
  | clearWritable => exact represents.clearWritable valid
  | clearSyncFlags => exact represents.clearSyncFlags valid
  | rekey addr iNew flags => cases other
  | truncate pgno pPage1 => exact represents.truncate valid allowed
  | stress overfull outcome => exact represents.stress valid
  | mark addr mark =>
      apply represents.mark valid
      cases mark with
      | needSync => exact allowed
      | noSync => exact allowed
      | writeable => exact (valid.found addr allowed).imp fun _ found => ⟨found, trivial⟩
      | dontWrite => exact (valid.found addr allowed).imp fun _ found => ⟨found, trivial⟩
  | recycle addr => exact represents.recycle valid allowed

theorem Represents.apply (represents : Represents p lru) {addrs : List Nat}
    (valid : (lru.reflag addrs).Valid) {op : Op} (quiet : addrs = [] ∨ op.isRekey = true)
    (allowed : lru.Allowed op) : Simulates (p.apply op) (lru.apply op) := by
  cases isRekey : op.isRekey with
  | false =>
      rcases quiet with rfl | impossible
      · rw [Lru.reflag_nil] at valid
        exact represents.applyOther valid isRekey allowed
      · rw [isRekey] at impossible
        cases impossible
  | true =>
      cases op with
      | rekey addr iNew flags => exact represents.rekey valid allowed
      | _ => cases isRekey

theorem Represents.run {ops : List Op} : ∀ {p : PCache} {lru : Lru} {addrs : List Nat},
    Represents p lru → (lru.reflag addrs).Valid → lru.AllowedRun addrs ops →
    Simulates (p.run ops) (lru.run ops) ∧ (lru.run ops).Valid := by
  induction ops with
  | nil =>
      intro p lru addrs represents valid allFlagged
      rw [show addrs = [] from allFlagged, Lru.reflag_nil] at valid
      exact ⟨⟨p, rfl, represents⟩, valid⟩
  | cons op ops induction =>
      intro p lru addrs represents valid allowed
      rcases allowed with ⟨quiet, allowed, rest⟩
      rcases represents.apply valid quiet allowed with ⟨after, applies, isAfter⟩
      rcases induction isAfter (valid.step quiet allowed) rest with ⟨simulates, validAfter⟩
      exact ⟨.of_bind applies simulates, validAfter⟩

theorem run_opened {purgeable : Bool} {ops : List Op}
    (allowed : (Lru.opened purgeable).AllowedRun [] ops) :
    Simulates (PCache.run (sqlite3PcacheOpen purgeable) ops) ((Lru.opened purgeable).run ops) ∧
      ((Lru.opened purgeable).run ops).Valid := by
  have valid : ((Lru.opened purgeable).reflag []).Valid := by
    rw [Lru.reflag_nil]
    exact Lru.opened_valid purgeable
  exact (open_represents purgeable).run valid allowed

theorem Lru.AllowedRun.append {later : List Op} : ∀ {ops : List Op} {addrs : List Nat} {lru : Lru},
    lru.AllowedRun addrs ops → (lru.run ops).AllowedRun [] later →
    lru.AllowedRun addrs (ops ++ later)
  | [], addrs, lru, allFlagged, allowed => by
      rw [show addrs = [] from allFlagged]
      exact allowed
  | op :: ops, addrs, lru, ⟨quiet, here, rest⟩, allowed => ⟨quiet, here, rest.append allowed⟩

theorem Represents.follow_dirty (represents : Represents p lru) (valid : lru.Valid) :
    follow p.headers PgHdr.pDirtyNext addressSpace p.pDirty = some lru.order := by
  rw [represents.threaded.first]
  exact represents.threaded.linked.follow_next valid.length_le represents.threaded.found

/-- A page cache is sound when its list has the dirty pages in an order. -/
structure Sound (p : PCache) (order : List Nat) : Prop where
  forwards : follow p.headers PgHdr.pDirtyNext addressSpace p.pDirty = some order
  backwards : follow p.headers PgHdr.pDirtyPrev addressSpace p.pDirtyTail = some order.reverse
  nodup : order.Nodup
  dirty : ∀ addr hdr, p.headers addr = some hdr → (hdr.flags.dirty = true ↔ addr ∈ order)
  clean : ∀ addr hdr, p.headers addr = some hdr → hdr.flags.clean = !hdr.flags.dirty
  writeable : ∀ addr hdr, p.headers addr = some hdr → hdr.flags.writeable = true →
    hdr.flags.dirty = true
  keys : ∀ addr, (p.pCache addr).map PoolPage.iKey = (p.headers addr).map PgHdr.pgno
  recyclable : ∀ addr hdr page, p.headers addr = some hdr → p.pCache addr = some page →
    (page.isPinned = false ↔ p.bPurgeable = true ∧ hdr.flags.clean = true ∧ hdr.nRef = 0)
  distinct : ∀ addr other hdr hdr', p.headers addr = some hdr → p.headers other = some hdr' →
    hdr.pgno = hdr'.pgno → addr = other
  refs : p.nRefSum = Finset.sum (Finset.range addressSpace) fun addr =>
    ((p.headers addr).map PgHdr.nRef).getD 0

theorem Represents.page (represents : Represents p lru) {hdr : PgHdr}
    (isHdr : p.headers addr = some hdr) : ∃ page, lru.pages addr = some page ∧
      hdr.pgno = page.pgno ∧ hdr.nRef = page.nRef ∧ hdr.flags = page.flags := by
  have same := represents.data addr
  rw [isHdr, Option.map_some, eq_comm] at same
  rcases Option.map_eq_some_iff.mp same with ⟨page, found, sameData⟩
  exact ⟨page, found, data_eq sameData.symm⟩

theorem Represents.sound (represents : Represents p lru) (valid : lru.Valid) :
    Sound p lru.order where
  forwards := represents.follow_dirty valid
  backwards := represents.follow_all valid
  nodup := valid.nodup
  dirty := by
    intro addr hdr isHdr
    rcases represents.page isHdr with ⟨page, found, _, _, sameFlags⟩
    rw [sameFlags]
    exact (valid.page addr page found).dirty
  clean := by
    intro addr hdr isHdr
    rcases represents.page isHdr with ⟨page, found, _, _, sameFlags⟩
    rw [sameFlags]
    exact (valid.page addr page found).clean
  writeable := by
    intro addr hdr isHdr
    rcases represents.page isHdr with ⟨page, found, _, _, sameFlags⟩
    rw [sameFlags]
    exact (valid.page addr page found).writeable
  keys := by
    intro addr
    cases found : lru.pages addr with
    | none =>
        rw [represents.no_header found, represents.pool, found]
        rfl
    | some page =>
        rcases represents.header found with ⟨hdr, isHdr, sameData⟩
        rw [isHdr, represents.poolPage found, Option.map_some, Option.map_some,
          (data_eq sameData).1]
        rfl
  recyclable := by
    intro addr hdr pool isHdr isPool
    rcases represents.page isHdr with ⟨page, found, _, sameRefs, sameFlags⟩
    rw [represents.poolPage found] at isPool
    cases isPool
    rw [sameFlags, sameRefs, represents.purgeable]
    change page.isPinned = false ↔ _
    rw [(valid.page addr page found).pinned, Bool.not_eq_false', Bool.and_eq_true, Bool.and_eq_true,
      decide_eq_true_eq, and_assoc]
  distinct := by
    intro addr other hdr hdr' isHdr isHdr' samePgno
    rcases represents.page isHdr with ⟨page, found, isPgno, _⟩
    rcases represents.page isHdr' with ⟨page', found', isPgno', _⟩
    apply valid.distinct addr other page page' found found'
    rw [← isPgno, ← isPgno', samePgno]
  refs := by
    rw [represents.refs, Lru.refs]
    apply Finset.sum_congr rfl
    intro addr _
    cases found : lru.pages addr with
    | none =>
        rw [represents.no_header found]
        rfl
    | some page =>
        rcases represents.header found with ⟨hdr, isHdr, sameData⟩
        rw [isHdr, Option.map_some, Option.map_some, (data_eq sameData).2.1]

/-- In every run the functions of the page cache have a result, their list holds the dirty
pages and no others, the one used last in front, and only clean pages that are not in use can
be recycled. -/
theorem pcache_sound (purgeable : Bool) (ops : List Op)
    (allowed : (Lru.opened purgeable).AllowedRun [] ops) :
    ∃ p, PCache.run (sqlite3PcacheOpen purgeable) ops = some p ∧
      Sound p ((Lru.opened purgeable).run ops).order := by
  rcases run_opened allowed with ⟨⟨p, runs, represents⟩, valid⟩
  exact ⟨p, runs, represents.sound valid⟩

/-- Page 1 is fetched, changed, released and spilled; then the page can be recycled. -/
def spilling : List Op :=
  [.fetch 1 3 (some 4), .makeDirty 4, .release 4, .stress true (.written true), .recycle 4]

theorem spilling_allowed : (Lru.opened true).AllowedRun [] spilling := by
  refine ⟨.inl rfl, ⟨Nat.one_pos, .inl rfl, ⟨?_, ?_⟩, ?_⟩, .inl rfl, ?_, .inl rfl, ?_, .inl rfl,
    trivial, .inl rfl, ?_, rfl⟩
  · intro addr page found
    cases found
  · intro addr isAddr
    cases isAddr
    exact .inr ⟨rfl, by decide, by decide⟩
  · intro addr page _ found
    cases found
  · exact ⟨⟨1, 1, PGHDR_CLEAN, true⟩, rfl, by decide, by decide⟩
  · exact ⟨⟨1, 1, dirtyFlags, true⟩, rfl, by decide⟩
  · exact ⟨⟨1, 0, PGHDR_CLEAN, false⟩, rfl, rfl⟩

theorem pcache_sound_spilling :
    ∃ p, PCache.run (sqlite3PcacheOpen true) spilling = some p ∧
      Sound p ((Lru.opened true).run spilling).order :=
  pcache_sound true spilling spilling_allowed

def changing : List Op :=
  [.fetch 1 3 (some 4), .makeDirty 4, .fetch 2 3 (some 8), .makeDirty 8]

theorem changing_allowed : (Lru.opened true).AllowedRun [] changing := by
  refine ⟨.inl rfl, ⟨Nat.one_pos, .inl rfl, ⟨?_, ?_⟩, ?_⟩, .inl rfl, ?_, .inl rfl,
    ⟨by decide, .inl rfl, ⟨?_, ?_⟩, ?_⟩, .inl rfl, ?_, rfl⟩
  · intro addr page found
    cases found
  · intro addr isAddr
    cases isAddr
    exact .inr ⟨rfl, by decide, by decide⟩
  · intro addr page _ found
    cases found
  · exact ⟨⟨1, 1, PGHDR_CLEAN, true⟩, rfl, by decide, by decide⟩
  · intro addr page found isKey
    by_cases isFour : addr = 4
    · subst isFour
      cases found
      cases isKey
    · have isNone : (((Lru.opened true).apply (.fetch 1 3 (some 4))).apply
          (.makeDirty 4)).pool addr = none := by
        change Option.map Page.pool
          ((((Lru.opened true).put 4 _).put 4 _).pages addr) = none
        rw [Lru.put_pages_other isFour, Lru.put_pages_other isFour]
        rfl
      rw [isNone] at found
      cases found
  · intro addr isAddr
    cases isAddr
    exact .inr ⟨rfl, by decide, by decide⟩
  · intro addr page isAddr found
    cases isAddr
    cases found
  · exact ⟨⟨2, 1, PGHDR_CLEAN, true⟩, rfl, by decide, by decide⟩

def swapping : List Op := changing ++ [.rekey 4 4 .zero, .rekey 8 1 dirtyFlags,
  .rekey 4 2 dirtyFlags]

theorem changing_run : (Lru.opened true).run changing = ⟨
    Function.update (Function.update (fun _ => none) 4 (some ⟨1, 1, dirtyFlags, true⟩)) 8
      (some ⟨2, 1, dirtyFlags, true⟩), [8, 4], some 4, true⟩ := by
  simp [changing, Lru.run, Lru.apply, Lru.fetch, Lru.opened, Lru.makeDirty, Lru.put, Lru.add,
    PGHDR_CLEAN, Function.update, dirtyFlags]

theorem swapping_allowed : (Lru.opened true).AllowedRun [] swapping := by
  apply changing_allowed.append
  rw [changing_run]
  refine ⟨.inl rfl, ⟨by decide, by decide, by decide, ⟨_, rfl, by decide⟩, ?_, .inl rfl⟩, .inr rfl,
    ⟨by decide, by decide, by decide, ⟨_, rfl, by decide⟩, ?_, .inr ⟨rfl, rfl⟩⟩, .inr rfl,
    ⟨by decide, by decide, by decide, ⟨_, rfl, by decide⟩, ?_, .inr ⟨rfl, rfl⟩⟩, rfl⟩
  all_goals
    intro other page found
    simp [Lru.apply, Lru.rekey, Lru.put, dirtyFlags, PgFlags.zero, Function.update] at found
    grind

end EspSqlite.Pages
