import EspSqlite.Pages.Sorting

namespace EspSqlite.Pages

open DoublyLinked

/-! # Merging two lists of dirty pages

The loop of `pcacheMergeDirtyList` merges the transient lists as `List.merge` does, whatever
else is in memory. -/

variable {p p' : PCache} {addr : Nat} {hdr : PgHdr}

structure Numbered (p : PCache) (number : Nat → Nat) : Prop where
  pgno : ∀ addr hdr, p.headers addr = some hdr → hdr.pgno = number addr
  distinct : ∀ addr other, (∃ hdr, p.headers addr = some hdr) →
    (∃ hdr, p.headers other = some hdr) → number addr = number other → addr = other

def byNumber (number : Nat → Nat) (left right : Nat) : Bool := decide (number left ≤ number right)

variable {number : Nat → Nat} {pTail result : Option Nat} {list left right touched : List Nat}

theorem DirtyOnly.numbered (only : DirtyOnly p p') (numbered : Numbered p number) :
    Numbered p' number where
  pgno := by
    intro addr hdr isHdr
    rcases only.symm.header isHdr with ⟨old, isOld, same⟩
    have isNumber := numbered.pgno addr old isOld
    injection (withDirty_eq same).1 with samePgno
    rw [← samePgno, isNumber]
  distinct := by
    intro addr other found foundOther sameNumber
    apply numbered.distinct addr other (only.symm.found found) (only.symm.found foundOther)
    exact sameNumber

def pointed (p : PCache) (pTail : Option Nat) (next : Nat) : PCache :=
  { p with headers := redirect p.headers pTail (PgHdr.withDirty (some next)) }

theorem setTail_eq {next : Nat}
    (found : ∀ tail, pTail = some tail → ∃ hdr, p.headers tail = some hdr) :
    setTail p result pTail next =
      some (pointed p pTail next, if pTail = none then some next else result) := by
  cases pTail with
  | none =>
      rw [pointed, redirect_none]
      rfl
  | some tail =>
      rcases found tail rfl with ⟨hdr, isHdr⟩
      exact bind_of (PCache.update_eq isHdr) rfl

theorem link_withDirty {target : Nat} {value : Option Nat}
    (found : ∃ hdr, p.headers target = some hdr) :
    link (redirect p.headers (some target) (PgHdr.withDirty value)) PgHdr.pDirty target =
      value := by
  rcases found with ⟨hdr, isHdr⟩
  rw [link, redirect_same isHdr]
  rfl

structure Merged (p p' : PCache) (pTail : Option Nat) (touched merged : List Nat) : Prop where
  chained : Chained (link p'.headers PgHdr.pDirty) merged
  tail : ∀ tail, pTail = some tail → link p'.headers PgHdr.pDirty tail = merged.head?
  only : DirtyOnly p p'
  others : ∀ other, other ∉ touched → some other ≠ pTail → p'.headers other = p.headers other

theorem Merged.cons {page : Nat} {merged : List Nat}
    (rest : Merged (pointed p pTail page) p' (some page) touched merged)
    (found : ∀ tail, pTail = some tail → ∃ hdr, p.headers tail = some hdr)
    (apart : ∀ tail, pTail = some tail → tail ≠ page ∧ tail ∉ touched)
    (within : ∀ other ∈ touched, other ∈ list) (member : page ∈ list) :
    Merged p p' pTail list (page :: merged) where
  chained := ⟨rest.tail page rfl, rest.chained⟩
  tail := by
    intro tail isTail
    rcases apart tail isTail with ⟨differs, outside⟩
    have same := rest.others tail outside fun isPage => differs (Option.some.inj isPage)
    cases isTail
    rw [link, same]
    exact link_withDirty (found tail rfl)
  only := (DirtyOnly.of_redirect pTail (some page)).trans rest.only
  others := by
    intro other outside notTail
    have notPage : some other ≠ some page := by
      intro same
      cases same
      exact outside member
    exact (rest.others other (fun inside => outside (within other inside)) notPage).trans
      (redirect_other notTail)

theorem Merged.last {page first : Nat} {rest : List Nat}
    (found : ∃ hdr, p.headers page = some hdr) (outside : page ∉ first :: rest)
    (chained : Chained (link p.headers PgHdr.pDirty) (first :: rest)) :
    Merged p (pointed p (some page) first) (some page) touched (first :: rest) where
  chained := by
    apply chained.congr
    intro other member
    apply link_redirect_other
    intro same
    cases same
    exact outside member
  tail := by
    intro tail isTail
    cases isTail
    exact link_withDirty found
  only := DirtyOnly.of_redirect (some page) (some first)
  others := fun other _ notPage => redirect_other notPage

theorem Chained.pointed {next : Nat} (chained : Chained (link p.headers PgHdr.pDirty) list)
    (apart : ∀ tail, pTail = some tail → tail ∉ list) :
    Chained (link (pointed p pTail next).headers PgHdr.pDirty) list := by
  apply chained.congr
  intro other member
  apply link_redirect_other
  intro isTail
  exact apart other isTail.symm member

/-- What the loop is about to merge: two lists that are apart, with a tail outside both. -/
structure Mergeable (p : PCache) (pTail : Option Nat) (left right : List Nat) : Prop where
  chainedLeft : Chained (link p.headers PgHdr.pDirty) left
  chainedRight : Chained (link p.headers PgHdr.pDirty) right
  found : ∀ addr ∈ left ++ right, ∃ hdr, p.headers addr = some hdr
  nodup : (left ++ right).Nodup
  tail : ∀ tail, pTail = some tail → tail ∉ left ++ right ∧ ∃ hdr, p.headers tail = some hdr

namespace Mergeable

theorem symm (mergeable : Mergeable p pTail left right) : Mergeable p pTail right left where
  chainedLeft := mergeable.chainedRight
  chainedRight := mergeable.chainedLeft
  found := fun addr member => mergeable.found addr (List.perm_append_comm.mem_iff.mp member)
  nodup := List.nodup_append_comm.mp mergeable.nodup
  tail := by
    intro tail isTail
    rcases mergeable.tail tail isTail with ⟨outside, found⟩
    exact ⟨fun member => outside (List.perm_append_comm.mem_iff.mp member), found⟩

theorem tailFound (mergeable : Mergeable p pTail left right) :
    ∀ tail, pTail = some tail → ∃ hdr, p.headers tail = some hdr :=
  fun tail isTail => (mergeable.tail tail isTail).2

theorem header {page : Nat} (mergeable : Mergeable p pTail (page :: left) right) :
    ∃ node, p.headers page = some node ∧ (pointed p pTail page).headers page = some node ∧
      node.pDirty = left.head? := by
  rcases mergeable.found page List.mem_cons_self with ⟨node, isPage⟩
  refine ⟨node, isPage, ?_, ?_⟩
  · refine (redirect_other fun isTail => ?_).trans isPage
    exact (mergeable.tail page isTail.symm).1 List.mem_cons_self
  · have isNext := mergeable.chainedLeft.1
    rw [link, isPage, Option.bind_some] at isNext
    exact isNext

theorem step {page : Nat} (mergeable : Mergeable p pTail (page :: left) right) :
    Mergeable (pointed p pTail page) (some page) left right := by
  rcases List.nodup_cons.mp mergeable.nodup with ⟨notMem, nodup⟩
  refine ⟨?_, ?_, ?_, nodup, ?_⟩
  · apply Chained.pointed mergeable.chainedLeft.2
    exact fun tail isTail member => (mergeable.tail tail isTail).1
      (List.mem_cons_of_mem page (List.mem_append_left right member))
  · apply Chained.pointed mergeable.chainedRight
    exact fun tail isTail member => (mergeable.tail tail isTail).1
      (List.mem_append_right (page :: left) member)
  · exact fun addr member => (DirtyOnly.of_redirect pTail (some page)).found
      (mergeable.found addr (List.mem_cons_of_mem page member))
  · intro tail isTail
    cases isTail
    rcases mergeable.header with ⟨node, _, still, _⟩
    exact ⟨notMem, node, still⟩

theorem joins {page : Nat} {merged : List Nat} (mergeable : Mergeable p pTail (page :: left) right)
    (rest : Merged (pointed p pTail page) p' (some page) (left ++ right) merged) :
    Merged p p' pTail ((page :: left) ++ right) (page :: merged) := by
  apply rest.cons mergeable.tailFound
  · intro tail isTail
    have outside := (mergeable.tail tail isTail).1
    rw [List.cons_append, List.mem_cons, not_or] at outside
    exact outside
  · exact fun other member => List.mem_cons_of_mem page member
  · exact List.mem_cons_self

theorem last (result : Option Nat) {page first : Nat} {rest : List Nat}
    (mergeable : Mergeable p (some page) [] (first :: rest)) :
    setTail p result (some page) first = some (pointed p (some page) first, result) ∧
      Merged p (pointed p (some page) first) (some page) ([] ++ first :: rest) (first :: rest) := by
  rcases mergeable.tail page rfl with ⟨outside, found⟩
  refine ⟨?_, Merged.last found outside mergeable.chainedRight⟩
  rw [setTail_eq mergeable.tailFound, if_neg (Option.some_ne_none page)]

end Mergeable

theorem Merged.comm {merged : List Nat} (isMerged : Merged p p' pTail (left ++ right) merged) :
    Merged p p' pTail (right ++ left) merged where
  chained := isMerged.chained
  tail := isMerged.tail
  only := isMerged.only
  others := fun other outside => isMerged.others other fun member =>
    outside (List.perm_append_comm.mem_iff.mp member)

theorem mergeLoop_left (fuel : Nat) (result : Option Nat) {pA pB : Nat} {a b a' : PgHdr}
    {result' : Option Nat}
    (isA : p.headers pA = some a) (isB : p.headers pB = some b) (smaller : a.pgno < b.pgno)
    (sets : setTail p result pTail pA = some (p', result')) (still : p'.headers pA = some a') :
    mergeLoop (fuel + 1) p result pTail pA pB =
      a'.pDirty.elim (setTail p' result' (some pA) pB)
        fun next => mergeLoop fuel p' result' (some pA) next pB := by
  refine bind_of isA (bind_of isB ?_)
  rw [if_pos smaller]
  refine bind_of sets (bind_of still ?_)
  cases a'.pDirty <;> rfl

theorem mergeLoop_right (fuel : Nat) (result : Option Nat) {pA pB : Nat} {a b b' : PgHdr}
    {result' : Option Nat}
    (isA : p.headers pA = some a) (isB : p.headers pB = some b) (notSmaller : ¬a.pgno < b.pgno)
    (sets : setTail p result pTail pB = some (p', result')) (still : p'.headers pB = some b') :
    mergeLoop (fuel + 1) p result pTail pA pB =
      b'.pDirty.elim (setTail p' result' (some pB) pA)
        fun next => mergeLoop fuel p' result' (some pB) pA next := by
  refine bind_of isA (bind_of isB ?_)
  rw [if_neg notSmaller]
  refine bind_of sets (bind_of still ?_)
  cases b'.pDirty <;> rfl

theorem mergeLoop_merged : ∀ {fuel : Nat} {p : PCache} (result : Option Nat) {pTail : Option Nat}
    {pA pB : Nat} {left right : List Nat}, Numbered p number →
    Mergeable p pTail (pA :: left) (pB :: right) →
    (left ++ right).length < fuel →
    ∃ p', mergeLoop fuel p result pTail pA pB = some (p', if pTail = none then
        (List.merge (pA :: left) (pB :: right) (byNumber number)).head? else result) ∧
      Merged p p' pTail ((pA :: left) ++ (pB :: right))
        (List.merge (pA :: left) (pB :: right) (byNumber number))
  | 0, _, _, _, _, _, _, _, _, _, enough => absurd enough (Nat.not_lt_zero _)
  | fuel + 1, p, result, pTail, pA, pB, left, right, numbered, mergeable, enough => by
      rcases mergeable.header with ⟨a, isA, stillA, nextA⟩
      rcases mergeable.symm.header with ⟨b, isB, stillB, nextB⟩
      have numberA := numbered.pgno pA a isA
      have numberB := numbered.pgno pB b isB
      have apart : pA ≠ pB := by
        intro same
        exact (List.nodup_cons.mp mergeable.nodup).1
          (List.mem_append_right left (same ▸ List.mem_cons_self))
      rw [List.length_append] at enough
      by_cases smaller : number pA < number pB
      · -- the first list comes first
        have isMerge : List.merge (pA :: left) (pB :: right) (byNumber number) =
            pA :: List.merge left (pB :: right) (byNumber number) :=
          List.cons_merge_cons_pos _ _ _ (decide_eq_true (Nat.le_of_lt smaller))
        have differs : a.pgno < b.pgno := by
          rw [numberA, numberB]
          exact smaller
        have unfolds := mergeLoop_left fuel result isA isB differs
          (setTail_eq mergeable.tailFound) stillA
        rw [nextA] at unfolds
        rw [isMerge, unfolds, List.head?_cons]
        cases left with
        | nil =>
            rcases mergeable.step.last (if pTail = none then some pA else result) with
              ⟨sets, isMerged⟩
            rw [List.nil_merge]
            exact ⟨_, sets, mergeable.joins isMerged⟩
        | cons next left =>
            have numbered' := (DirtyOnly.of_redirect pTail (some pA)).numbered numbered
            have others : (left ++ right).length < fuel := by
              rw [List.length_cons] at enough
              rw [List.length_append]
              omega
            rcases mergeLoop_merged (if pTail = none then some pA else result) numbered'
              mergeable.step others with ⟨p', merges, isMerged⟩
            rw [if_neg (Option.some_ne_none pA)] at merges
            exact ⟨p', merges, mergeable.joins isMerged⟩
      · -- the second list comes first
        have isMerge : List.merge (pA :: left) (pB :: right) (byNumber number) =
            pB :: List.merge (pA :: left) right (byNumber number) := by
          apply List.cons_merge_cons_neg
          intro isLe
          have same : number pA = number pB :=
            Nat.le_antisymm (of_decide_eq_true isLe) (Nat.le_of_not_lt smaller)
          exact apart (numbered.distinct pA pB ⟨a, isA⟩ ⟨b, isB⟩ same)
        have differs : ¬a.pgno < b.pgno := by
          rw [numberA, numberB]
          exact smaller
        have unfolds := mergeLoop_right fuel result isA isB differs
          (setTail_eq mergeable.tailFound) stillB
        rw [nextB] at unfolds
        rw [isMerge, unfolds, List.head?_cons]
        cases right with
        | nil =>
            rcases mergeable.symm.step.last (if pTail = none then some pB else result) with
              ⟨sets, isMerged⟩
            rw [List.merge_right]
            exact ⟨_, sets, (mergeable.symm.joins isMerged).comm⟩
        | cons next right =>
            have numbered' := (DirtyOnly.of_redirect pTail (some pB)).numbered numbered
            have others : (left ++ right).length < fuel := by
              rw [List.length_cons] at enough
              rw [List.length_append]
              omega
            rcases mergeLoop_merged (if pTail = none then some pB else result) numbered'
              mergeable.symm.step.symm others with ⟨p', merges, isMerged⟩
            rw [if_neg (Option.some_ne_none pB)] at merges
            exact ⟨p', merges, (mergeable.symm.joins isMerged.comm).comm⟩

end EspSqlite.Pages
