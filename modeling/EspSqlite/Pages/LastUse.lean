import EspSqlite.Pages.Runs

namespace EspSqlite.Pages

open DoublyLinked

/-! # The order of use

A dirty page is used when it gets dirty, when it is released and when it gets another number
with a sync outstanding. The list of dirty pages is in the order of these uses, the last one
first. -/

variable {p p' : PCache} {lru : Lru} {addr : Nat} {order : List Nat} {times : Nat → Nat}

/-! ## Uses of the pages -/

def PCache.uses (p : PCache) : Op → Option Nat
  | .release addr => if (p.headers addr).any fun hdr => hdr.nRef = 1 && hdr.flags.dirty then
      some addr else none
  | .makeDirty addr => if (p.headers addr).any fun hdr => hdr.flags.clean then some addr else none
  | .rekey addr _ flags => if flags.dirty && flags.needSync then some addr else none
  | _ => none

def Lru.uses (lru : Lru) : Op → Option Nat
  | .release addr => if (lru.pages addr).any fun page => page.nRef = 1 && page.flags.dirty then
      some addr else none
  | .makeDirty addr => if (lru.pages addr).any fun page => page.flags.clean then some addr else none
  | .rekey addr _ flags => if flags.dirty && flags.needSync then some addr else none
  | _ => none

theorem Represents.uses (represents : Represents p lru) (op : Op) : p.uses op = lru.uses op := by
  have same : ∀ (stop : PgHdr → Bool) (holds : Page → Bool) (addr : Nat),
      (∀ hdr page, hdr.data = page.data → stop hdr = holds page) →
      (if (p.headers addr).any stop = true then some addr else none) =
        if (lru.pages addr).any holds = true then some addr else none := by
    intro stop holds addr agree
    rw [represents.any_header agree]
  cases op with
  | release addr =>
      apply same
      intro hdr page sameData
      rw [(data_eq sameData).2.1, (data_eq sameData).2.2]
  | makeDirty addr =>
      apply same
      intro hdr page sameData
      rw [(data_eq sameData).2.2]
  | _ => rfl

def useAt (times : Nat → Nat) (now : Nat) (used : Option Nat) (addr : Nat) : Nat :=
  if used = some addr then now else times addr

def PCache.lastUse : (p : PCache) → (times : Nat → Nat) → (now : Nat) → List Op →
    Option (Nat → Nat)
  | _, times, _, [] => some times
  | p, times, now, op :: ops => do
      let after ← p.apply op
      after.lastUse (useAt times now (p.uses op)) (now + 1) ops

/-! ## One call -/

namespace Lru

def Reordered (lru lru' : Lru) : (used : Option Nat) → Prop
  | some addr => lru'.order = addr :: lru.order.erase addr
  | none => lru'.order.Sublist lru.order

theorem Reordered.of_same {lru' : Lru} (same : lru'.order = lru.order) :
    Reordered lru lru' none := by
  rw [Reordered, same]

theorem change_order (f : Page → Page) : (lru.change addr f).order = lru.order := by
  rw [change]
  split <;> rfl

theorem fetch_order (pgno : Nat) (result : Option Nat) :
    (lru.fetch pgno result).order = lru.order := by
  cases result with
  | none => rfl
  | some addr =>
      rw [fetch]
      split <;> rfl

theorem spill_order (outcome : Stress) : (lru.spill addr outcome).order.Sublist lru.order := by
  cases outcome with
  | kept => exact List.Sublist.refl _
  | failed synced => cases synced <;> exact List.Sublist.refl _
  | written cacheMod =>
      rw [spill, makeClean_order]
      split <;> exact List.erase_sublist

theorem stress_order (overfull : Bool) (outcome : Stress) :
    (lru.stress overfull outcome).order.Sublist lru.order := by
  rw [stress]
  split
  · exact List.Sublist.refl _
  · simp only
    split
    · exact List.Sublist.refl _
    · exact spill_order outcome

theorem makeClean_sublist : (lru.makeClean addr).order.Sublist lru.order := by
  rw [makeClean_order]
  exact List.erase_sublist

theorem cleanAll_order (valid : lru.Valid) : lru.cleanAll.order.Sublist lru.order := by
  rw [valid.cleanAll.2]
  exact List.nil_sublist _

theorem cleanEach_order {addrs : List Nat} : ∀ {lru : Lru},
    (addrs.foldl makeClean lru).order.Sublist lru.order := by
  induction addrs with
  | nil => exact fun {lru} => List.Sublist.refl _
  | cons first rest induction => exact fun {lru} => induction.trans makeClean_sublist

theorem cleanAbove_order {pgno : Nat} : (lru.cleanAbove pgno).order.Sublist lru.order :=
  cleanEach_order

theorem drop_order : (lru.drop addr).order.Sublist lru.order := by
  rw [drop]
  split
  · exact List.erase_sublist
  · exact List.Sublist.refl _

theorem release_order (allowed : lru.Has addr fun page => 0 < page.nRef) :
    Reordered lru (lru.release addr) (lru.uses (.release addr)) := by
  rcases allowed with ⟨page, found, inUse⟩
  simp only [release, uses, found, Option.any_some]
  by_cases isUse : page.nRef = 1 ∧ page.flags.dirty = true
  · have isUsed : (decide (page.nRef = 1) && page.flags.dirty) = true := by simp [isUse]
    rw [if_pos isUsed]
    have isZero : page.nRef - 1 = 0 := by omega
    have isLast : (Page.settle lru.purgeable { page with nRef := page.nRef - 1 }).nRef = 0 := isZero
    by_cases isFirst : lru.order.head? = some addr
    · rw [if_neg fun all => all.2.2 isFirst]
      rcases List.head?_eq_some_iff.mp isFirst with ⟨rest, isOrder⟩
      have same : lru.order = addr :: lru.order.erase addr := by
        rw [isOrder, List.erase_cons_head]
      exact same
    · rw [if_pos ⟨isLast, isUse.2, isFirst⟩]
      rfl
  · have notUsed : ¬(decide (page.nRef = 1) && page.flags.dirty) = true := by
      rw [Bool.and_eq_true_iff, decide_eq_true_iff]
      exact isUse
    rw [if_neg notUsed, if_neg]
    · exact List.Sublist.refl _
    · rintro ⟨isLast, isDirty, _⟩
      have isZero : page.nRef - 1 = 0 := isLast
      exact isUse ⟨by omega, isDirty⟩

theorem makeDirty_order (valid : lru.Valid) (allowed : lru.Has addr fun page =>
    0 < page.nRef ∧ page.pgno ≤ PAGER_MAX_PGNO) :
    Reordered lru (lru.makeDirty addr) (lru.uses (.makeDirty addr)) := by
  rcases allowed with ⟨page, found, _⟩
  have isValid := valid.page addr page found
  simp only [makeDirty, uses, found, Option.any_some]
  by_cases isClean : page.flags.clean = true
  · rw [if_pos isClean, if_pos isClean]
    have notListed : addr ∉ lru.order := by
      intro listed
      rw [isValid.clean, isValid.dirty.mpr listed] at isClean
      cases isClean
    have same : lru.order.erase addr = lru.order := List.erase_of_not_mem notListed
    rw [Reordered, same]
    rfl
  · rw [if_neg isClean, if_neg isClean]
    exact List.Sublist.refl _

theorem rekey_order {iNew : Nat} {flags : PgFlags} (has : lru.Has addr fun page => 0 < page.nRef) :
    Reordered lru (lru.rekey addr iNew flags) (lru.uses (.rekey addr iNew flags)) := by
  rcases has with ⟨page, found, _⟩
  simp only [rekey, uses, found]
  by_cases isUse : flags.dirty = true ∧ flags.needSync = true
  · rw [if_pos isUse, if_pos (Bool.and_eq_true_iff.mpr isUse)]
    rfl
  · rw [if_neg isUse, if_neg fun both => isUse (Bool.and_eq_true_iff.mp both)]
    exact List.Sublist.refl _

theorem applyOther_order (valid : lru.Valid) {op : Op} (other : op.isRekey = false)
    (allowed : lru.Allowed op) : Reordered lru (lru.apply op) (lru.uses op) := by
  cases op with
  | fetch pgno createFlag result => exact .of_same (fetch_order pgno result)
  | refetch pgno result => exact .of_same (fetch_order pgno result)
  | ref addr => exact .of_same (change_order _)
  | release addr => exact release_order allowed
  | drop addr => exact drop_order
  | makeDirty addr => exact makeDirty_order valid allowed
  | makeClean addr => exact makeClean_sublist
  | cleanAll => exact cleanAll_order valid
  | clearWritable => exact .of_same rfl
  | clearSyncFlags => exact .of_same rfl
  | rekey addr iNew flags => cases other
  | truncate pgno pPage1 => exact cleanAbove_order
  | stress overfull outcome => exact stress_order overfull outcome
  | mark addr mark => exact .of_same (change_order _)
  | recycle addr => exact .of_same rfl

theorem apply_order {addrs : List Nat} (valid : (lru.reflag addrs).Valid) {op : Op}
    (quiet : addrs = [] ∨ op.isRekey = true) (allowed : lru.Allowed op) :
    Reordered lru (lru.apply op) (lru.uses op) := by
  cases isRekey : op.isRekey with
  | false =>
      rcases quiet with rfl | impossible
      · rw [reflag_nil] at valid
        exact applyOther_order valid isRekey allowed
      · rw [isRekey] at impossible
        cases impossible
  | true =>
      cases op with
      | rekey addr iNew flags => exact rekey_order allowed.2.2.2.1
      | _ => cases isRekey

end Lru

/-! ## A run -/

structure ByUse (order : List Nat) (times : Nat → Nat) (now : Nat) : Prop where
  ordered : order.Pairwise fun first second => times second < times first
  past : ∀ addr, times addr < now

theorem ByUse.reordered {lru' : Lru} {now : Nat} {used : Option Nat}
    (byUse : ByUse lru.order times now) (reordered : lru.Reordered lru' used)
    (nodup : lru.order.Nodup) : ByUse lru'.order (useAt times now used) (now + 1) where
  ordered := by
    cases used with
    | none => exact byUse.ordered.sublist reordered
    | some addr =>
        have isOrder : lru'.order = addr :: lru.order.erase addr := reordered
        have others : ∀ other ∈ lru.order.erase addr,
            useAt times now (some addr) other = times other := by
          intro other member
          apply if_neg
          intro same
          cases same
          exact nodup.not_mem_erase member
        rw [isOrder, List.pairwise_cons]
        constructor
        · intro other member
          rw [others other member, useAt, if_pos rfl]
          exact byUse.past other
        · apply (byUse.ordered.sublist List.erase_sublist).imp_of_mem
          intro first second firstIn secondIn later
          rw [others first firstIn, others second secondIn]
          exact later
  past := by
    intro addr
    rw [useAt]
    split
    · exact Nat.lt_succ_self now
    · exact Nat.lt_succ_of_lt (byUse.past addr)

theorem Represents.lastUse {ops : List Op} : ∀ {p : PCache} {lru : Lru} {addrs : List Nat}
    {times : Nat → Nat} {now : Nat}, Represents p lru → (lru.reflag addrs).Valid →
    lru.AllowedRun addrs ops → ByUse lru.order times now →
    ∃ times' now', p.lastUse times now ops = some times' ∧
      ByUse (lru.run ops).order times' now' := by
  induction ops with
  | nil => exact fun {p lru addrs times now} _ _ _ byUse => ⟨times, now, rfl, byUse⟩
  | cons op ops induction =>
      intro p lru addrs times now represents valid allowed byUse
      rcases allowed with ⟨quiet, allowed, rest⟩
      rcases represents.apply valid quiet allowed with ⟨after, applies, isAfter⟩
      have reordered := Lru.apply_order valid quiet allowed
      rw [← represents.uses op] at reordered
      rcases induction isAfter (valid.step quiet allowed) rest
        (byUse.reordered reordered valid.nodup) with ⟨times', now', uses, byUse'⟩
      exact ⟨times', now', bind_of applies uses, byUse'⟩

/-- After every run the list has the dirty pages in the order of their last uses. -/
theorem dirty_by_use (purgeable : Bool) (ops : List Op)
    (allowed : (Lru.opened purgeable).AllowedRun [] ops) :
    ∃ p times order, PCache.run (sqlite3PcacheOpen purgeable) ops = some p ∧
      (sqlite3PcacheOpen purgeable).lastUse (fun _ => 0) 1 ops = some times ∧
      follow p.headers PgHdr.pDirtyNext addressSpace p.pDirty = some order ∧
      (∀ addr hdr, p.headers addr = some hdr → (hdr.flags.dirty = true ↔ addr ∈ order)) ∧
      order.Pairwise fun first second => times second < times first := by
  have openedValid : ((Lru.opened purgeable).reflag []).Valid := by
    rw [Lru.reflag_nil]
    exact Lru.opened_valid purgeable
  rcases run_opened allowed with ⟨⟨p, runs, represents⟩, valid⟩
  have start : ByUse (Lru.opened purgeable).order (fun _ => 0) 1 :=
    ⟨List.Pairwise.nil, fun _ => Nat.one_pos⟩
  rcases (open_represents purgeable).lastUse openedValid allowed start with
    ⟨times, now, uses, byUse⟩
  exact ⟨p, times, _, runs, uses, represents.follow_dirty valid, (represents.sound valid).dirty,
    byUse.ordered⟩

theorem dirty_by_use_swapping :
    ∃ p times order, PCache.run (sqlite3PcacheOpen true) swapping = some p ∧
      (sqlite3PcacheOpen true).lastUse (fun _ => 0) 1 swapping = some times ∧
      follow p.headers PgHdr.pDirtyNext addressSpace p.pDirty = some order ∧
      (∀ addr hdr, p.headers addr = some hdr → (hdr.flags.dirty = true ↔ addr ∈ order)) ∧
      order.Pairwise fun first second => times second < times first :=
  dirty_by_use true swapping swapping_allowed

end EspSqlite.Pages
