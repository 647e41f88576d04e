import EspSqlite.Pages.Pcache

namespace EspSqlite.Pages

open DoublyLinked

/-! # The list of dirty pages

The pointers of the page cache thread the dirty pages; removing a page and adding one keeps
them threaded and changes nothing else. -/

def PgHdr.data (hdr : PgHdr) : Nat × Nat × PgFlags := (hdr.pgno, hdr.nRef, hdr.flags)

section Changes

variable (pointer : Option Nat) (hdr : PgHdr)

theorem PgHdr.withNext_next : (hdr.withNext pointer).pDirtyNext = pointer := rfl
theorem PgHdr.withNext_prev : (hdr.withNext pointer).pDirtyPrev = hdr.pDirtyPrev := rfl
theorem PgHdr.withNext_data : (hdr.withNext pointer).data = hdr.data := rfl
theorem PgHdr.withPrev_next : (hdr.withPrev pointer).pDirtyNext = hdr.pDirtyNext := rfl
theorem PgHdr.withPrev_prev : (hdr.withPrev pointer).pDirtyPrev = pointer := rfl
theorem PgHdr.withPrev_data : (hdr.withPrev pointer).data = hdr.data := rfl

end Changes

@[simp] theorem check_pos {condition : Prop} [Decidable condition] (holds : condition) :
    check condition = some () :=
  if_pos holds

theorem bind_of {α β : Type} {first : Option α} {next : α → Option β} {value : α}
    {result : Option β} (isValue : first = some value) (isResult : next value = result) :
    first.bind next = result := by
  rw [isValue, Option.bind_some, isResult]

def redirect (headers : Nat → Option PgHdr) (target : Option Nat) (change : PgHdr → PgHdr) :
    Nat → Option PgHdr :=
  fun other => if some other = target then (headers other).map change else headers other

section Redirect

variable {headers : Nat → Option PgHdr} {target : Option Nat} {change : PgHdr → PgHdr}
  {pointer : PgHdr → Option Nat} {addr other : Nat} {hdr : PgHdr}

theorem redirect_same (found : headers addr = some hdr) :
    redirect headers (some addr) change addr = some (change hdr) := by
  simp [redirect, found]

theorem redirect_other (differs : some other ≠ target) :
    redirect headers target change other = headers other :=
  if_neg differs

@[simp] theorem redirect_none : redirect headers none change = headers := by
  funext other
  exact redirect_other (by simp)

theorem redirect_found (found : ∃ hdr, headers other = some hdr) :
    ∃ hdr, redirect headers target change other = some hdr := by
  rcases found with ⟨hdr, found⟩
  rw [redirect, found]
  split
  · exact ⟨change hdr, rfl⟩
  · exact ⟨hdr, rfl⟩

theorem redirect_data (keeps : ∀ hdr, (change hdr).data = hdr.data) (other : Nat) :
    (redirect headers target change other).map PgHdr.data = (headers other).map PgHdr.data := by
  rw [redirect]
  split
  · rw [Option.map_map]
    exact congrArg (fun f => (headers other).map f) (funext keeps)
  · rfl

theorem link_redirect (keeps : ∀ hdr, pointer (change hdr) = pointer hdr) :
    link (redirect headers target change) pointer = link headers pointer := by
  funext other
  rw [link, link, redirect]
  split
  · cases headers other with
    | none => rfl
    | some hdr => exact keeps hdr
  · rfl

theorem link_redirect_other (differs : some other ≠ target) :
    link (redirect headers target change) pointer other = link headers pointer other := by
  rw [link, link, redirect_other differs]

theorem link_redirect_to {value : Option Nat} (sets : ∀ hdr, pointer (change hdr) = value)
    (found : ∃ hdr, headers other = some hdr) :
    link (redirect headers target change) pointer other =
      if some other = target then value else link headers pointer other := by
  rcases found with ⟨hdr, found⟩
  rw [link, redirect]
  split
  · rw [found, Option.map_some, Option.bind_some, sets]
  · rfl

end Redirect

theorem PCache.update_eq {p : PCache} {addr : Nat} {hdr : PgHdr} {change : PgHdr → PgHdr}
    (found : p.headers addr = some hdr) :
    p.update addr change = some { p with headers := redirect p.headers (some addr) change } := by
  have sameHeaders : Function.update p.headers addr (some (change hdr)) =
      redirect p.headers (some addr) change := by
    funext other
    rw [Function.update_apply, redirect]
    by_cases isAddr : other = addr
    · rw [if_pos isAddr, if_pos (congrArg some isAddr), isAddr, found, Option.map_some]
    · rw [if_neg isAddr, if_neg fun same => isAddr (Option.some.inj same)]
  rw [PCache.update, found, Option.map_some, sameHeaders]

/-! ## Threaded lists -/

structure Threaded (p : PCache) (order : List Nat) : Prop where
  linked : Linked (link p.headers PgHdr.pDirtyNext) (link p.headers PgHdr.pDirtyPrev) none order
    none
  apart : ∀ addr, addr ∉ order → link p.headers PgHdr.pDirtyNext addr = none ∧
    link p.headers PgHdr.pDirtyPrev addr = none
  found : ∀ addr ∈ order, ∃ hdr, p.headers addr = some hdr
  nodup : order.Nodup
  first : p.pDirty = order.head?
  last : p.pDirtyTail = order.getLast?
  create : p.eCreate = if p.bPurgeable = true ∧ order ≠ [] then 1 else 2

structure SameData (p p' : PCache) : Prop where
  headers : ∀ addr, (p'.headers addr).map PgHdr.data = (p.headers addr).map PgHdr.data
  pCache : p'.pCache = p.pCache
  nRefSum : p'.nRefSum = p.nRefSum
  bPurgeable : p'.bPurgeable = p.bPurgeable

variable {p p' : PCache} {order left right : List Nat} {addr : Nat} {pg : PgHdr}

theorem SameData.found (same : SameData p p') {other : Nat}
    (found : ∃ hdr, p.headers other = some hdr) :
    ∃ hdr, p'.headers other = some hdr := by
  rcases found with ⟨hdr, found⟩
  have sameData := same.headers other
  rw [found, Option.map_some] at sameData
  rcases Option.map_eq_some_iff.mp sameData with ⟨after, isAfter, _⟩
  exact ⟨after, isAfter⟩

theorem Threaded.congr (threaded : Threaded p order)
    (next : link p'.headers PgHdr.pDirtyNext = link p.headers PgHdr.pDirtyNext)
    (prev : link p'.headers PgHdr.pDirtyPrev = link p.headers PgHdr.pDirtyPrev)
    (found : ∀ addr ∈ order, ∃ hdr, p'.headers addr = some hdr) (first : p'.pDirty = p.pDirty)
    (last : p'.pDirtyTail = p.pDirtyTail) (create : p'.eCreate = p.eCreate)
    (purgeable : p'.bPurgeable = p.bPurgeable) : Threaded p' order where
  linked := by
    rw [next, prev]
    exact threaded.linked
  apart := by
    rw [next, prev]
    exact threaded.apart
  found := found
  nodup := threaded.nodup
  first := first.trans threaded.first
  last := last.trans threaded.last
  create := by
    rw [create, purgeable]
    exact threaded.create

theorem Threaded.notEnds (threaded : Threaded p order) (notListed : addr ∉ order) :
    p.pDirty ≠ some addr ∧ p.pDirtyTail ≠ some addr := by
  rw [threaded.first, threaded.last]
  exact ⟨fun same => notListed (List.mem_of_head? same),
    fun same => notListed (List.mem_of_getLast? same)⟩

theorem Threaded.neighbours (threaded : Threaded p (left ++ addr :: right))
    (found : p.headers addr = some pg) :
    pg.pDirtyPrev = left.getLast? ∧ pg.pDirtyNext = right.head? := by
  rcases threaded.linked.neighbours with ⟨isPrev, isNext⟩
  rw [link, found, Option.bind_some] at isPrev isNext
  exact ⟨isPrev, isNext⟩

/-! ## Removing a page -/

theorem unlinkNext_eq (found : p.headers addr = some pg)
    (nextFound : ∀ next, pg.pDirtyNext = some next → ∃ hdr, p.headers next = some hdr)
    (atEnd : pg.pDirtyNext = none → p.pDirtyTail = some addr) :
    unlinkNext p addr = some { p with
      headers := redirect p.headers pg.pDirtyNext (PgHdr.withPrev pg.pDirtyPrev)
      pDirtyTail := if pg.pDirtyNext = none then pg.pDirtyPrev else p.pDirtyTail } := by
  rw [unlinkNext, found, Option.bind_eq_bind, Option.bind_some]
  cases isNext : pg.pDirtyNext with
  | some next =>
      rcases nextFound next isNext with ⟨hdr, foundNext⟩
      exact PCache.update_eq foundNext
  | none => simp [check_pos (atEnd isNext)]

theorem unlinkPrev_eq (found : p.headers addr = some pg)
    (prevFound : ∀ prev, pg.pDirtyPrev = some prev → ∃ hdr, p.headers prev = some hdr)
    (atStart : pg.pDirtyPrev = none → p.pDirty = some addr)
    (create : p.eCreate = if p.bPurgeable = true then 1 else 2) :
    unlinkPrev p addr = some { p with
      headers := redirect p.headers pg.pDirtyPrev (PgHdr.withNext pg.pDirtyNext)
      pDirty := if pg.pDirtyPrev = none then pg.pDirtyNext else p.pDirty
      eCreate := if pg.pDirtyPrev = none ∧ pg.pDirtyNext = none then 2 else p.eCreate } := by
  rw [unlinkPrev, found, Option.bind_eq_bind, Option.bind_some]
  cases isPrev : pg.pDirtyPrev with
  | some prev =>
      rcases prevFound prev isPrev with ⟨hdr, foundPrev⟩
      exact PCache.update_eq foundPrev
  | none =>
      have purgeable : p.bPurgeable = true ∨ p.eCreate = 2 := by
        cases isPurgeable : p.bPurgeable with
        | true => exact .inl rfl
        | false => exact .inr (by rw [create, isPurgeable]; rfl)
      have created : p.bPurgeable = false ∨ p.eCreate = 1 := by
        cases isPurgeable : p.bPurgeable with
        | true => exact .inr (by rw [create, isPurgeable]; rfl)
        | false => exact .inl rfl
      cases isNext : pg.pDirtyNext with
      | some next => simp [check_pos (atStart isPrev), check_pos purgeable]
      | none => simp [check_pos (atStart isPrev), check_pos purgeable, check_pos created]

def bypassed (p : PCache) (pg : PgHdr) : Nat → Option PgHdr :=
  redirect (redirect p.headers pg.pDirtyNext (PgHdr.withPrev pg.pDirtyPrev))
    pg.pDirtyPrev (PgHdr.withNext pg.pDirtyNext)

def removedHeaders (p : PCache) (addr : Nat) (pg : PgHdr) : Nat → Option PgHdr :=
  redirect (bypassed p pg) (some addr) fun hdr => (hdr.withNext none).withPrev none

def removed (p : PCache) (addr : Nat) (pg : PgHdr) : PCache :=
  { p with
    headers := removedHeaders p addr pg
    pDirty := if pg.pDirtyPrev = none then pg.pDirtyNext else p.pDirty
    pDirtyTail := if pg.pDirtyNext = none then pg.pDirtyPrev else p.pDirtyTail
    pSynced := if p.pSynced = some addr then pg.pDirtyPrev else p.pSynced
    eCreate := if pg.pDirtyPrev = none ∧ pg.pDirtyNext = none then 2 else p.eCreate }

theorem Threaded.notMem (threaded : Threaded p (left ++ addr :: right)) :
    addr ∉ left ∧ addr ∉ right := by
  rcases List.nodup_append.mp threaded.nodup with ⟨_, restNodup, apart⟩
  exact ⟨fun member => apart addr member addr List.mem_cons_self rfl,
    (List.nodup_cons.mp restNodup).1⟩

theorem Threaded.removeDirty_eq (threaded : Threaded p (left ++ addr :: right))
    (found : p.headers addr = some pg) : removeDirty p addr = some (removed p addr pg) := by
  rcases threaded.neighbours found with ⟨isPrev, isNext⟩
  rcases threaded.notMem with ⟨notLeft, notRight⟩
  have atEnd : pg.pDirtyNext = none → p.pDirtyTail = some addr := by
    intro isLast
    rw [isNext] at isLast
    rw [threaded.last, List.head?_eq_none_iff.mp isLast, List.getLast?_append]
    rfl
  have atStart : pg.pDirtyPrev = none → p.pDirty = some addr := by
    intro isFirst
    rw [isPrev] at isFirst
    rw [threaded.first, List.getLast?_eq_none_iff.mp isFirst]
    rfl
  have nextFound : ∀ next, pg.pDirtyNext = some next → ∃ hdr, p.headers next = some hdr := by
    intro next toNext
    rw [isNext] at toNext
    exact threaded.found next (by simp [List.mem_of_head? toNext])
  have prevFound : ∀ prev, pg.pDirtyPrev = some prev → ∃ hdr, p.headers prev = some hdr := by
    intro prev toPrev
    rw [isPrev] at toPrev
    exact threaded.found prev (by simp [List.mem_of_getLast? toPrev])
  have nextDiffers : some addr ≠ pg.pDirtyNext := by
    rw [isNext]
    exact fun same => notRight (List.mem_of_head? same.symm)
  have prevDiffers : some addr ≠ pg.pDirtyPrev := by
    rw [isPrev]
    exact fun same => notLeft (List.mem_of_getLast? same.symm)
  have hasEnd : pg.pDirtyNext ≠ none ∨ p.pDirtyTail = some addr := by
    rcases eq_or_ne pg.pDirtyNext none with isNone | isSome
    · exact .inr (atEnd isNone)
    · exact .inl isSome
  have hasStart : pg.pDirtyPrev ≠ none ∨ p.pDirty = some addr := by
    rcases eq_or_ne pg.pDirtyPrev none with isNone | isSome
    · exact .inr (atStart isNone)
    · exact .inl isSome
  have create : p.eCreate = if p.bPurgeable = true then 1 else 2 := by
    simpa using threaded.create
  -- the header of the page itself does not change before its pointers are cleared
  have stillFound : redirect p.headers pg.pDirtyNext (PgHdr.withPrev pg.pDirtyPrev) addr =
      some pg := by
    rw [redirect_other nextDiffers, found]
  rw [removeDirty, found, Option.bind_eq_bind, Option.bind_some]
  simp only [check_pos hasEnd, check_pos hasStart, Option.bind_eq_bind, Option.bind_some]
  refine bind_of (unlinkNext_eq found nextFound atEnd) ?_
  refine bind_of (unlinkPrev_eq stillFound
    (fun prev toPrev => redirect_found (prevFound prev toPrev)) atStart create) ?_
  exact PCache.update_eq ((redirect_other prevDiffers).trans stillFound)

theorem removed_sameData : SameData p (removed p addr pg) where
  headers := by
    intro other
    change (removedHeaders p addr pg other).map PgHdr.data = _
    rw [removedHeaders, redirect_data fun hdr => (hdr.withNext none).withPrev_data none, bypassed,
      redirect_data (PgHdr.withNext_data _), redirect_data (PgHdr.withPrev_data _)]
  pCache := rfl
  nRefSum := rfl
  bPurgeable := rfl

theorem removedHeaders_outside {other : Nat} (notAddr : other ≠ addr)
    (notNext : some other ≠ pg.pDirtyNext) (notPrev : some other ≠ pg.pDirtyPrev) :
    removedHeaders p addr pg other = p.headers other := by
  rw [removedHeaders, redirect_other fun same => notAddr (Option.some.inj same), bypassed,
    redirect_other notPrev, redirect_other notNext]

theorem Threaded.removed_linked (threaded : Threaded p (left ++ addr :: right))
    (found : p.headers addr = some pg) :
    Linked (link (removedHeaders p addr pg) PgHdr.pDirtyNext)
      (link (removedHeaders p addr pg) PgHdr.pDirtyPrev) none (left ++ right) none := by
  rcases threaded.notMem with ⟨notLeft, notRight⟩
  have foundIn : ∀ other ∈ left ++ right, some other ≠ some addr ∧
      ∃ hdr, p.headers other = some hdr := by
    intro other member
    constructor
    · intro same
      cases same
      rcases List.mem_append.mp member with inLeft | inRight
      · exact notLeft inLeft
      · exact notRight inRight
    · apply threaded.found other
      rcases List.mem_append.mp member with inLeft | inRight
      · exact List.mem_append_left _ inLeft
      · exact List.mem_append_right _ (List.mem_cons_of_mem addr inRight)
  have prevOf : link p.headers PgHdr.pDirtyPrev addr = pg.pDirtyPrev := by
    rw [link, found, Option.bind_some]
  have nextOf : link p.headers PgHdr.pDirtyNext addr = pg.pDirtyNext := by
    rw [link, found, Option.bind_some]
  apply threaded.linked.remove threaded.nodup
  · intro other member
    rcases foundIn other member with ⟨notAddr, isFound⟩
    rw [removedHeaders, link_redirect_other notAddr, bypassed, prevOf, nextOf,
      link_redirect_to (PgHdr.withNext_next _) (redirect_found isFound),
      link_redirect (PgHdr.withPrev_next _)]
  · intro other member
    rcases foundIn other member with ⟨notAddr, isFound⟩
    rw [removedHeaders, link_redirect_other notAddr, bypassed, prevOf, nextOf,
      link_redirect (PgHdr.withNext_prev _), link_redirect_to (PgHdr.withPrev_prev _) isFound]

theorem Threaded.removed (threaded : Threaded p (left ++ addr :: right))
    (found : p.headers addr = some pg) : Threaded (removed p addr pg) (left ++ right) := by
  rcases threaded.neighbours found with ⟨isPrev, isNext⟩
  rcases threaded.notMem with ⟨notLeft, notRight⟩
  have nodup : (left ++ right).Nodup := threaded.nodup.sublist (by simp)
  refine ⟨threaded.removed_linked found, ?_, ?_, nodup, ?_, ?_, ?_⟩
  · intro other notMember
    change link (removedHeaders p addr pg) _ other = none ∧
      link (removedHeaders p addr pg) _ other = none
    rcases eq_or_ne other addr with rfl | notAddr
    · have isFound : ∃ hdr, bypassed p pg other = some hdr :=
        redirect_found (redirect_found ⟨pg, found⟩)
      rcases isFound with ⟨hdr, isHere⟩
      rw [link, link, removedHeaders, redirect_same isHere]
      exact ⟨rfl, rfl⟩
    · have notNext : some other ≠ pg.pDirtyNext := by
        rw [isNext]
        exact fun same => notMember (List.mem_append_right _ (List.mem_of_head? same.symm))
      have notPrev : some other ≠ pg.pDirtyPrev := by
        rw [isPrev]
        exact fun same => notMember (List.mem_append_left _ (List.mem_of_getLast? same.symm))
      rw [link, link, removedHeaders_outside notAddr notNext notPrev]
      apply threaded.apart other
      intro member
      rw [List.mem_append, List.mem_cons] at member
      rcases member with inLeft | isAddr | inRight
      · exact notMember (List.mem_append_left _ inLeft)
      · exact notAddr isAddr
      · exact notMember (List.mem_append_right _ inRight)
  · intro other member
    apply removed_sameData.found
    apply threaded.found other
    rcases List.mem_append.mp member with inLeft | inRight
    · exact List.mem_append_left _ inLeft
    · exact List.mem_append_right _ (List.mem_cons_of_mem addr inRight)
  · show (if pg.pDirtyPrev = none then pg.pDirtyNext else p.pDirty) = _
    rw [isPrev, isNext, threaded.first]
    cases left with
    | nil => rfl
    | cons first rest => simp
  · show (if pg.pDirtyNext = none then pg.pDirtyPrev else p.pDirtyTail) = _
    rw [isPrev, isNext, threaded.last]
    cases right with
    | nil => simp
    | cons next rest => simp [List.getLast?_append, List.getLast?_cons_cons]
  · show (if pg.pDirtyPrev = none ∧ pg.pDirtyNext = none then 2 else p.eCreate) = _
    rw [isPrev, isNext, threaded.create]
    cases left with
    | nil => cases right <;> simp [removed]
    | cons first rest => simp [removed]

theorem Threaded.removeDirty (threaded : Threaded p order) (member : addr ∈ order) :
    ∃ p', removeDirty p addr = some p' ∧ Threaded p' (order.erase addr) ∧ SameData p p' ∧
      p'.pSynced = if p.pSynced = some addr then
        (order.takeWhile fun other => other != addr).getLast? else p.pSynced := by
  rcases List.append_of_mem member with ⟨left, right, rfl⟩
  rcases threaded.found addr member with ⟨pg, found⟩
  rcases threaded.notMem with ⟨notLeft, _⟩
  have isErased : (left ++ addr :: right).erase addr = left ++ right := by
    rw [List.erase_append_right _ notLeft, List.erase_cons_head]
  have isBefore : ((left ++ addr :: right).takeWhile fun other => other != addr) = left := by
    rw [List.takeWhile_append_of_pos, List.takeWhile_cons_of_neg (by simp), List.append_nil]
    intro other inLeft
    exact bne_iff_ne.mpr fun same => notLeft (same ▸ inLeft)
  refine ⟨_, threaded.removeDirty_eq found, ?_, removed_sameData, ?_⟩
  · rw [isErased]
    exact threaded.removed found
  · rw [isBefore, ← (threaded.neighbours found).1]
    rfl

/-! ## Adding a page -/

def addedHeaders (p : PCache) (addr : Nat) : Nat → Option PgHdr :=
  redirect (redirect p.headers (some addr) (PgHdr.withNext p.pDirty)) p.pDirty
    (PgHdr.withPrev (some addr))

def added (p : PCache) (addr : Nat) (needSync : Bool) : PCache :=
  { p with
    headers := addedHeaders p addr
    pDirty := some addr
    pDirtyTail := if p.pDirty = none then some addr else p.pDirtyTail
    pSynced := if p.pSynced = none ∧ needSync = false then some addr else p.pSynced
    eCreate := if p.bPurgeable = true then 1 else 2 }

theorem linkFirst_eq (firstFound : ∀ first, p.pDirty = some first →
      ∃ hdr, p.headers first = some hdr ∧ hdr.pDirtyPrev = none)
    (create : p.eCreate = if p.bPurgeable = true ∧ p.pDirty ≠ none then 1 else 2) :
    linkFirst p addr = some { p with
      headers := redirect p.headers p.pDirty (PgHdr.withPrev (some addr))
      pDirtyTail := if p.pDirty = none then some addr else p.pDirtyTail
      eCreate := if p.bPurgeable = true then 1 else 2 } := by
  rw [linkFirst]
  cases isFirst : p.pDirty with
  | some first =>
      rcases firstFound first isFirst with ⟨hdr, foundFirst, atStart⟩
      simp only [foundFirst, check_pos atStart, Option.bind_eq_bind, Option.bind_some]
      rw [PCache.update_eq foundFirst]
      simp [isFirst] at create
      simp [create, isFirst]
  | none =>
      simp [isFirst] at create
      cases isPurgeable : p.bPurgeable with
      | true => simp [create]
      | false => simp [create]

theorem Threaded.addDirty_eq (threaded : Threaded p order) (notListed : addr ∉ order)
    (found : p.headers addr = some pg) :
    addDirty p addr = some (added p addr pg.flags.needSync) := by
  have notFirst : p.pDirty ≠ some addr := (threaded.notEnds notListed).1
  have firstFound : ∀ first, p.pDirty = some first →
      ∃ hdr, redirect p.headers (some addr) (PgHdr.withNext p.pDirty) first = some hdr ∧
        hdr.pDirtyPrev = none := by
    intro first isFirst
    have differs : some first ≠ some addr := fun same => notFirst (isFirst.trans same)
    rw [redirect_other differs]
    rw [threaded.first] at isFirst
    cases order with
    | nil => cases isFirst
    | cons head rest =>
        cases isFirst
        rcases threaded.found first List.mem_cons_self with ⟨hdr, foundFirst⟩
        have atStart := threaded.linked.1
        rw [link, foundFirst, Option.bind_some] at atStart
        exact ⟨hdr, foundFirst, atStart⟩
  have create : p.eCreate = if p.bPurgeable = true ∧ p.pDirty ≠ none then 1 else 2 := by
    rw [threaded.create, threaded.first]
    cases order <;> simp
  have apart := threaded.apart addr notListed
  rw [link, link, found, Option.bind_some, Option.bind_some] at apart
  rw [addDirty, found, Option.bind_eq_bind, Option.bind_some]
  simp only [check_pos (And.intro apart.1 (And.intro apart.2 notFirst)), Option.bind_eq_bind,
    Option.bind_some]
  apply bind_of (PCache.update_eq found)
  refine bind_of (linkFirst_eq firstFound create) ?_
  simp only [added, addedHeaders]
  split <;> rfl

theorem added_sameData {needSync : Bool} : SameData p (added p addr needSync) where
  headers := by
    intro other
    change (addedHeaders p addr other).map PgHdr.data = _
    rw [addedHeaders, redirect_data (PgHdr.withPrev_data _), redirect_data (PgHdr.withNext_data _)]
  pCache := rfl
  nRefSum := rfl
  bPurgeable := rfl

theorem Threaded.added (threaded : Threaded p order) (notListed : addr ∉ order)
    (found : p.headers addr = some pg) {needSync : Bool} :
    Threaded (added p addr needSync) (addr :: order) := by
  have notFirst : some addr ≠ p.pDirty := by
    rw [threaded.first]
    exact fun same => notListed (List.mem_of_head? same.symm)
  have differs : ∀ other ∈ order, some other ≠ some addr := by
    intro other member same
    cases same
    exact notListed member
  refine ⟨?_, ?_, ?_, List.nodup_cons.mpr ⟨notListed, threaded.nodup⟩, rfl, ?_, ?_⟩
  · apply threaded.linked.push threaded.nodup
    · show link (addedHeaders p addr) _ addr = none
      rw [addedHeaders, link_redirect_other notFirst, link_redirect (PgHdr.withNext_prev _)]
      exact (threaded.apart addr notListed).2
    · show link (addedHeaders p addr) _ addr = _
      rw [addedHeaders, link_redirect_other notFirst,
        link_redirect_to (PgHdr.withNext_next _) ⟨pg, found⟩, if_pos rfl, threaded.first]
    · intro other member
      change link (addedHeaders p addr) _ other = _
      rw [addedHeaders, link_redirect (PgHdr.withPrev_next _),
        link_redirect_other (differs other member)]
    · intro other member
      change link (addedHeaders p addr) _ other = _
      rw [addedHeaders, link_redirect_to (PgHdr.withPrev_prev _)
        (redirect_found (threaded.found other member)), link_redirect (PgHdr.withNext_prev _),
        threaded.first]
  · intro other notMember
    rw [List.mem_cons, not_or] at notMember
    have notAddr : some other ≠ some addr := fun same => notMember.1 (Option.some.inj same)
    have notPrev : some other ≠ p.pDirty := by
      rw [threaded.first]
      exact fun same => notMember.2 (List.mem_of_head? same.symm)
    change link (addedHeaders p addr) _ other = none ∧ link (addedHeaders p addr) _ other = none
    rw [addedHeaders, link_redirect_other notPrev, link_redirect_other notAddr,
      link_redirect_other notPrev, link_redirect_other notAddr]
    exact threaded.apart other notMember.2
  · intro other member
    apply added_sameData.found
    rcases List.mem_cons.mp member with rfl | member
    · exact ⟨pg, found⟩
    · exact threaded.found other member
  · show (if p.pDirty = none then some addr else p.pDirtyTail) = _
    rw [threaded.first, threaded.last]
    cases order with
    | nil => rfl
    | cons first rest => simp [List.getLast?_cons_cons]
  · simp [Pages.added]

end EspSqlite.Pages
