import EspSqlite.Foundation.BucketSort
import EspSqlite.Pages.Merging

namespace EspSqlite.Pages

open DoublyLinked BucketSort

/-! # Sorting the dirty pages

The array of `pcacheSortDirtyList` has the first pages of lists in memory. Those lists are the
buckets of a merge sort, and 31 of them have room for every page number there is. -/

variable {p p' : PCache} {lru : Lru} {number : Nat → Nat} {list left right : List Nat}
  {lists others : List (List Nat)}

structure Stored (p : PCache) (lists : List (List Nat)) : Prop where
  chained : ∀ list ∈ lists, Chained (link p.headers PgHdr.pDirty) list
  found : ∀ addr ∈ lists.flatten, ∃ hdr, p.headers addr = some hdr
  nodup : lists.flatten.Nodup
  short : lists.flatten.length ≤ addressSpace

theorem Stored.perm {lists' : List (List Nat)} (stored : Stored p lists)
    (perm : lists.Perm lists') : Stored p lists' where
  chained := fun list member => stored.chained list (perm.mem_iff.mpr member)
  found := fun addr member => stored.found addr (perm.flatten.mem_iff.mpr member)
  nodup := perm.flatten.nodup_iff.mp stored.nodup
  short := perm.flatten.length_eq ▸ stored.short

theorem Stored.tail (stored : Stored p (list :: lists)) : Stored p lists where
  chained := fun other member => stored.chained other (List.mem_cons_of_mem list member)
  found := fun addr member => stored.found addr (List.mem_append_right list member)
  nodup := (List.nodup_append.mp stored.nodup).2.1
  short := by
    have short := stored.short
    rw [List.flatten_cons, List.length_append] at short
    exact Nat.le_of_add_left_le short

theorem Stored.empties {lists' : List (List Nat)} (stored : Stored p lists)
    (isSame : lists'.flatten = lists.flatten)
    (members : ∀ list ∈ lists', list = [] ∨ list ∈ lists) : Stored p lists' where
  chained := by
    intro list member
    rcases members list member with rfl | member
    · trivial
    · exact stored.chained list member
  found := isSame ▸ stored.found
  nodup := isSame ▸ stored.nodup
  short := isSame ▸ stored.short

/-! ## Merging two of the lists -/

theorem Stored.mergeable (stored : Stored p (left :: right :: others)) :
    Mergeable p none left right where
  chainedLeft := stored.chained left List.mem_cons_self
  chainedRight := stored.chained right (List.mem_cons_of_mem left List.mem_cons_self)
  found := by
    intro addr member
    apply stored.found addr
    rw [List.flatten_cons, List.flatten_cons, ← List.append_assoc]
    exact List.mem_append_left _ member
  nodup := by
    have nodup := stored.nodup
    rw [List.flatten_cons, List.flatten_cons, ← List.append_assoc] at nodup
    exact (List.nodup_append.mp nodup).1
  tail := fun _ isTail => by cases isTail

theorem merge_flatten (left right : List Nat) (others : List (List Nat)) :
    (List.merge left right (byNumber number) :: others).flatten.Perm
      (left :: right :: others).flatten := by
  rw [List.flatten_cons, List.flatten_cons, List.flatten_cons, ← List.append_assoc]
  exact (List.merge_perm_append _).append_right others.flatten

theorem Stored.merged (stored : Stored p (left :: right :: others))
    (isMerged : Merged p p' none (left ++ right) (List.merge left right (byNumber number))) :
    Stored p' (List.merge left right (byNumber number) :: others) where
  chained := by
    intro other member
    rcases List.mem_cons.mp member with rfl | member
    · exact isMerged.chained
    · have chained := stored.tail.tail.chained other member
      apply chained.congr
      intro addr inside
      have nodup := stored.nodup
      rw [List.flatten_cons, List.flatten_cons, ← List.append_assoc] at nodup
      have outside : addr ∉ left ++ right := fun touched =>
        (List.nodup_append.mp nodup).2.2 addr touched addr
          (List.mem_flatten_of_mem member inside) rfl
      rw [link, link, isMerged.others addr outside (Option.some_ne_none addr)]
  found := fun addr member => isMerged.only.found
    (stored.found addr ((merge_flatten left right others).mem_iff.mp member))
  nodup := (merge_flatten left right others).nodup_iff.mpr stored.nodup
  short := (merge_flatten left right others).length_eq ▸ stored.short

theorem Stored.merge (stored : Stored p (left :: right :: others)) (numbered : Numbered p number)
    (fullLeft : left ≠ []) (fullRight : right ≠ []) :
    ∃ p', pcacheMergeDirtyList p left.head? right.head? =
        some (p', (List.merge left right (byNumber number)).head?) ∧
      Stored p' (List.merge left right (byNumber number) :: others) ∧ DirtyOnly p p' := by
  cases left with
  | nil => exact absurd rfl fullLeft
  | cons pA left =>
      cases right with
      | nil => exact absurd rfl fullRight
      | cons pB right =>
          have enough : (left ++ right).length < addressSpace := by
            have short := stored.short
            simp only [List.flatten_cons, List.length_append, List.length_cons] at short
            rw [List.length_append]
            omega
          rcases mergeLoop_merged none numbered stored.mergeable enough with ⟨p', merges, isMerged⟩
          exact ⟨p', merges, stored.merged isMerged, isMerged.only⟩

/-! ## Carrying a list into the buckets -/

theorem carryBuckets_empty {buckets : List (Option Nat)} {page : Option Nat}
    (room : buckets ≠ []) : carryBuckets (none :: buckets) p page = some (p, page :: buckets) := by
  cases buckets with
  | nil => exact absurd rfl room
  | cons next rest => rfl

theorem carryBuckets_full {first : Nat} {buckets buckets' : List (Option Nat)}
    {page merged : Option Nat} (room : buckets ≠ [])
    (merges : pcacheMergeDirtyList p (some first) page = some (p', merged)) {p'' : PCache}
    (carries : carryBuckets buckets p' merged = some (p'', buckets')) :
    carryBuckets (some first :: buckets) p page = some (p'', none :: buckets') := by
  cases buckets with
  | nil => exact absurd rfl room
  | cons next rest => exact bind_of merges (bind_of carries rfl)

theorem carryBuckets_eq : ∀ (rows : List (List Nat)) {p : PCache} {carried : List Nat},
    Numbered p number → Stored p (carried :: (rows ++ others)) → carried ≠ [] →
    (carry (byNumber number) carried rows).length = rows.length →
    ∃ p', carryBuckets (rows.map List.head? ++ [none]) p carried.head? =
        some (p', (carry (byNumber number) carried rows).map List.head? ++ [none]) ∧
      Stored p' (carry (byNumber number) carried rows ++ others) ∧ DirtyOnly p p'
  | [], _, _, _, _, _, sameLength => by cases sameLength
  | [] :: rest, p, carried, _, stored, _, _ => by
      have kept : Stored p (carried :: (rest ++ others)) :=
        (stored.perm (List.Perm.swap [] carried (rest ++ others))).tail
      exact ⟨p, carryBuckets_empty (by simp), kept, DirtyOnly.refl p⟩
  | (first :: bucket) :: rest, p, carried, numbered, stored, full, sameLength => by
      have swapped : Stored p ((first :: bucket) :: carried :: (rest ++ others)) :=
        stored.perm (List.Perm.swap (first :: bucket) carried (rest ++ others))
      rcases swapped.merge numbered (List.cons_ne_nil first bucket) full with
        ⟨middle, merges, storedMiddle, only⟩
      have mergedFull : List.merge (first :: bucket) carried (byNumber number) ≠ [] := by
        intro isNil
        have length := congrArg List.length isNil
        rw [List.length_merge, List.length_cons, List.length_nil] at length
        omega
      have restLength : (carry (byNumber number)
          (List.merge (first :: bucket) carried (byNumber number)) rest).length = rest.length :=
        Nat.succ.inj sameLength
      rcases carryBuckets_eq rest (only.numbered numbered) storedMiddle mergedFull restLength with
        ⟨p', carries, stored', only'⟩
      refine ⟨p', carryBuckets_full (by simp) merges carries, ?_, only.trans only'⟩
      exact stored'.empties rfl fun list member => List.mem_cons.mp member

/-! ## Carrying every page -/

theorem Stored.takeFirst {first : Nat} {rest : List Nat}
    (stored : Stored p ((first :: rest) :: others)) :
    Stored { p with headers := redirect p.headers (some first) (PgHdr.withDirty none) }
      ([first] :: rest :: others) where
  chained := by
    have apart : ∀ addr ∈ (rest :: others).flatten, addr ≠ first := by
      intro addr member same
      exact (List.nodup_cons.mp stored.nodup).1 (same ▸ member)
    have still : ∀ list ∈ rest :: others, Chained (link p.headers PgHdr.pDirty) list →
        Chained (link (redirect p.headers (some first) (PgHdr.withDirty none)) PgHdr.pDirty)
          list := by
      intro list member chained
      apply chained.congr
      intro addr inside
      apply link_redirect_other
      intro same
      exact apart addr (List.mem_flatten_of_mem member inside) (Option.some.inj same)
    intro list member
    rcases List.mem_cons.mp member with rfl | member
    · exact ⟨link_withDirty (stored.found first List.mem_cons_self), trivial⟩
    · apply still list member
      rcases List.mem_cons.mp member with rfl | member
      · exact (stored.chained _ List.mem_cons_self).2
      · exact stored.chained list (List.mem_cons_of_mem _ member)
  found := fun addr member => (DirtyOnly.of_redirect (some first) none).found
    (stored.found addr member)
  nodup := stored.nodup
  short := stored.short

theorem sortLoop_eq : ∀ (unsorted : List Nat) {p : PCache} {rows : List (List Nat)} {fuel : Nat},
    Numbered p number → Stored p (unsorted :: rows) → Sized 1 rows →
    unsorted.length + rows.flatten.length < 2 ^ rows.length → unsorted.length ≤ fuel →
    ∃ p', sortLoop fuel p (rows.map List.head? ++ [none]) unsorted.head? =
        some (p', (carryAll (byNumber number) rows unsorted).map List.head? ++ [none]) ∧
      Stored p' (carryAll (byNumber number) rows unsorted) ∧ DirtyOnly p p'
  | [], p, rows, fuel, _, stored, _, _, _ => by
      refine ⟨p, ?_, stored.tail, DirtyOnly.refl p⟩
      cases fuel <;> rfl
  | addr :: rest, _, _, 0, _, _, _, _, enough => absurd enough (Nat.not_succ_le_zero _)
  | addr :: rest, p, rows, fuel + 1, numbered, stored, sized, room, enough => by
      rcases stored.found addr List.mem_cons_self with ⟨page, isPage⟩
      have isNext := (stored.chained _ List.mem_cons_self).1
      rw [link, isPage, Option.bind_some] at isNext
      have only := DirtyOnly.of_redirect (p := p) (some addr) none
      rw [List.length_cons] at room
      have isOne : [addr].length = 1 := rfl
      have sameLength : (carry (byNumber number) [addr] rows).length = rows.length := by
        apply carry_length [addr] rows isOne sized
        rw [isOne, Nat.one_mul]
        omega
      have single := stored.takeFirst.perm
        (List.Perm.cons [addr] (List.perm_append_singleton rest rows).symm)
      rcases carryBuckets_eq rows (only.numbered numbered) single (List.cons_ne_nil addr [])
        sameLength with ⟨middle, carries, carried, only'⟩
      have isStored := carried.perm (List.perm_append_singleton rest _)
      have perm := (carry_perm (byNumber number) [addr] rows).length_eq
      rw [List.length_append, List.length_singleton] at perm
      rcases sortLoop_eq rest (only'.numbered (only.numbered numbered)) isStored
        (carry_sized [addr] rows isOne sized) (by rw [perm, sameLength]; omega)
        (Nat.le_of_succ_le_succ enough) with ⟨p', sorts, stored', only''⟩
      refine ⟨p', ?_, stored', only.trans (only'.trans only'')⟩
      refine bind_of isPage (bind_of (PCache.update_eq isPage) (bind_of carries ?_))
      rw [isNext]
      exact sorts

/-! ## Merging the buckets -/

theorem mergeBuckets_eq : ∀ (rows : List (List Nat)) {p : PCache} {merged : List Nat},
    Numbered p number → Stored p (merged :: rows) →
    ∃ p', mergeBuckets (rows.map List.head?) p merged.head? =
        some (p', (mergeAll (byNumber number) merged rows).head?) ∧
      Stored p' [mergeAll (byNumber number) merged rows] ∧ DirtyOnly p p'
  | [], p, _, _, stored => ⟨p, rfl, stored, DirtyOnly.refl p⟩
  | [] :: rest, p, merged, numbered, stored => by
      have kept := (stored.perm (List.Perm.swap [] merged rest)).tail
      rcases mergeBuckets_eq rest numbered kept with ⟨p', merges, stored', only⟩
      rw [mergeAll, List.foldl_cons, List.merge_right]
      exact ⟨p', merges, stored', only⟩
  | (first :: bucket) :: rest, p, [], numbered, stored => by
      rcases mergeBuckets_eq rest numbered stored.tail with ⟨p', merges, stored', only⟩
      rw [mergeAll, List.foldl_cons, List.nil_merge]
      exact ⟨p', merges, stored', only⟩
  | (first :: bucket) :: rest, p, head :: merged, numbered, stored => by
      rcases stored.merge numbered (List.cons_ne_nil head merged) (List.cons_ne_nil first bucket)
        with ⟨middle, merges, storedMiddle, only⟩
      rcases mergeBuckets_eq rest (only.numbered numbered) storedMiddle with
        ⟨p', mergesRest, stored', only'⟩
      exact ⟨p', bind_of merges mergesRest, stored', only.trans only'⟩

/-! ## The dirty pages in order -/

theorem byNumber_trans (number : Nat → Nat) (a b c : Nat) (first : byNumber number a b = true)
    (second : byNumber number b c = true) : byNumber number a c = true :=
  decide_eq_true (Nat.le_trans (of_decide_eq_true first) (of_decide_eq_true second))

theorem byNumber_total (number : Nat → Nat) (a b : Nat) :
    (byNumber number a b || byNumber number b a) = true := by
  rw [Bool.or_eq_true]
  exact (Nat.le_total (number a) (number b)).imp decide_eq_true decide_eq_true

theorem pcacheSortDirtyList_eq (numbered : Numbered p number) (stored : Stored p [list])
    (small : list.length < 2 ^ 31) :
    ∃ p' sorted, pcacheSortDirtyList p list.head? = some (p', sorted.head?) ∧
      Stored p' [sorted] ∧ sorted.Perm list ∧
      sorted.Pairwise (fun left right => byNumber number left right = true) ∧ DirtyOnly p p' := by
  let rows : List (List Nat) := List.replicate 31 []
  have noRows : rows.flatten = [] := List.flatten_replicate_nil
  have count : rows.length = 31 := List.length_replicate
  have sizes : Sized 1 rows := sized_empty 31 1
  have storedRows : Stored p (list :: rows) := by
    apply stored.empties (by rw [List.flatten_cons, noRows]; rfl)
    intro other member
    rcases List.mem_cons.mp member with rfl | member
    · exact .inr List.mem_cons_self
    · exact .inl (List.eq_of_mem_replicate member)
  have enough : list.length ≤ addressSpace := by
    have short := stored.short
    rw [List.flatten_singleton] at short
    exact short
  have room : list.length + rows.flatten.length < 2 ^ rows.length := by
    rw [noRows, count]
    exact small
  rcases sortLoop_eq list numbered storedRows sizes room enough with
    ⟨middle, sorts, storedMiddle, only⟩
  have storedLast : Stored middle ([] :: (carryAll (byNumber number) rows list ++ [[]])) := by
    refine storedMiddle.empties ?_ fun other member => ?_
    · rw [List.flatten_cons, List.flatten_append, List.flatten_singleton, List.append_nil,
        List.nil_append]
    · rcases List.mem_cons.mp member with isNil | member
      · exact .inl isNil
      · exact (List.mem_append.mp member).symm.imp List.mem_singleton.mp id
  rcases mergeBuckets_eq _ (only.numbered numbered) storedLast with ⟨p', merges, stored', only'⟩
  refine ⟨p', mergeAll (byNumber number) [] (carryAll (byNumber number) rows list ++ [[]]), ?_,
    stored', ?_, ?_, only.trans only'⟩
  · apply bind_of sorts
    rw [List.map_append] at merges
    exact merges
  · apply (mergeAll_perm (byNumber number) _ []).trans
    rw [List.nil_append, List.flatten_append, List.flatten_singleton, List.append_nil]
    apply (carryAll_perm (byNumber number) list rows).trans
    rw [noRows, List.append_nil]
  · apply mergeAll_sorted (byNumber_trans number) (byNumber_total number) _ _ List.Pairwise.nil
    intro bucket member
    rcases List.mem_append.mp member with member | member
    · apply carryAll_sorted (byNumber_trans number) (byNumber_total number) list rows ?_ bucket
        member
      intro other isRow
      rw [List.eq_of_mem_replicate isRow]
      exact List.Pairwise.nil
    · rw [List.mem_singleton.mp member]
      exact List.Pairwise.nil

end EspSqlite.Pages
