import Mathlib.Data.List.Range
import Mathlib.Data.List.Perm.Subperm
import Mathlib.Logic.Function.Basic

namespace EspSqlite.HeapList

/-! # Linked lists in a heap

A heap maps addresses to nodes; a node holds the pointer to the next one. A
segment is the list of nodes met from one pointer to another. -/

variable {Node : Type}

def Segment (nodes : Nat → Option Node) (next : Node → Option Nat) :
    (start : Option Nat) → List (Nat × Node) → (stop : Option Nat) → Prop
  | start, [], stop => start = stop
  | start, (addr, node) :: rest, stop =>
      start = some addr ∧ nodes addr = some node ∧ Segment nodes next (next node) rest stop

def Chain (nodes : Nat → Option Node) (next : Node → Option Nat) (start : Option Nat)
    (list : List (Nat × Node)) : Prop :=
  Segment nodes next start list none

variable {nodes : Nat → Option Node} {next : Node → Option Nat}

theorem segment_append {left right : List (Nat × Node)} : ∀ {start stop : Option Nat},
    Segment nodes next start (left ++ right) stop ↔
      ∃ middle, Segment nodes next start left middle ∧ Segment nodes next middle right stop := by
  induction left with
  | nil => simp [Segment]
  | cons head left induction =>
      intro start stop
      simp only [List.cons_append, Segment, induction]
      constructor
      · intro whole
        rcases whole with ⟨isHead, found, middle, first, second⟩
        exact ⟨middle, ⟨isHead, found, first⟩, second⟩
      · intro parts
        rcases parts with ⟨middle, ⟨isHead, found, first⟩, second⟩
        exact ⟨isHead, found, middle, first, second⟩

theorem Segment.congr {other : Nat → Option Node} {list : List (Nat × Node)} :
    ∀ {start stop : Option Nat}, Segment nodes next start list stop →
    (∀ entry ∈ list, other entry.1 = nodes entry.1) → Segment other next start list stop := by
  induction list with
  | nil => exact fun segment _ => segment
  | cons head list induction =>
      intro start stop segment same
      rcases segment with ⟨isHead, found, rest⟩
      refine ⟨isHead, ?_, induction rest fun entry member =>
        same entry (List.mem_cons_of_mem head member)⟩
      rw [same head List.mem_cons_self, found]

theorem Segment.update_other {list : List (Nat × Node)} {start stop : Option Nat} {addr : Nat}
    {node : Node} (segment : Segment nodes next start list stop)
    (outside : addr ∉ list.map Prod.fst) :
    Segment (Function.update nodes addr (some node)) next start list stop :=
  segment.congr fun _ member => Function.update_of_ne
    (ne_of_mem_of_not_mem (List.mem_map_of_mem member) outside) _ _

theorem Chain.unique : ∀ {start : Option Nat} {left right : List (Nat × Node)},
    Chain nodes next start left → Chain nodes next start right → left = right
  | _, [], [], _, _ => rfl
  | _, [], (addr, node) :: right, chainLeft, chainRight => by
      have isNone : _ = none := chainLeft
      exact absurd (isNone.symm.trans chainRight.1) (by simp)
  | _, (addr, node) :: left, [], chainLeft, chainRight => by
      have isNone : _ = none := chainRight
      exact absurd (isNone.symm.trans chainLeft.1) (by simp)
  | _, (addr, node) :: left, (addr', node') :: right, ⟨isLeft, foundLeft, restLeft⟩,
      ⟨isRight, foundRight, restRight⟩ => by
      rw [isLeft, Option.some.injEq] at isRight
      subst isRight
      rw [foundLeft, Option.some.injEq] at foundRight
      subst foundRight
      rw [Chain.unique restLeft restRight]

theorem Chain.nodup {list : List (Nat × Node)} : ∀ {start : Option Nat},
    Chain nodes next start list → (list.map Prod.fst).Nodup := by
  induction list with
  | nil => exact fun _ => List.nodup_nil
  | cons head list induction =>
      intro start chain
      rw [List.map_cons, List.nodup_cons]
      refine ⟨fun again => ?_, induction chain.2.2⟩
      rcases List.mem_map.mp again with ⟨entry, member, sameAddr⟩
      rcases List.append_of_mem member with ⟨before, after, split⟩
      have later := chain.2.2
      rw [split, segment_append] at later
      rcases later with ⟨middle, _, isEntry, found, rest⟩
      have loop : Chain nodes next start (entry :: after) := by
        refine ⟨?_, found, rest⟩
        rw [chain.1, sameAddr]
      have sameLength := congrArg List.length (chain.unique loop)
      rw [split] at sameLength
      simp at sameLength
      omega

theorem notMem_of_below {list : List (Nat × Node)} {bound : Nat}
    (below : ∀ entry ∈ list, entry.1 < bound) : bound ∉ list.map Prod.fst := by
  intro member
  rcases List.mem_map.mp member with ⟨entry, inList, isBound⟩
  have isBelow := below entry inList
  omega

theorem length_le_of_below {list : List Nat} {bound : Nat} (nodup : list.Nodup)
    (below : ∀ value ∈ list, value < bound) : list.length ≤ bound := by
  have inRange : list ⊆ List.range bound := fun value member =>
    List.mem_range.mpr (below value member)
  have short := (nodup.subperm inRange).length_le
  rw [List.length_range] at short
  exact short

theorem Chain.length_le {list : List (Nat × Node)} {start : Option Nat} {bound : Nat}
    (chain : Chain nodes next start list) (below : ∀ entry ∈ list, entry.1 < bound) :
    list.length ≤ bound := by
  rw [← List.length_map Prod.fst]
  apply length_le_of_below chain.nodup
  intro addr member
  rcases List.mem_map.mp member with ⟨entry, inList, rfl⟩
  exact below entry inList

def walk (nodes : Nat → Option Node) (next : Node → Option Nat) :
    (fuel : Nat) → (start : Option Nat) → List Node
  | 0, _ => []
  | _ + 1, none => []
  | fuel + 1, some addr =>
      match nodes addr with
      | none => []
      | some node => node :: walk nodes next fuel (next node)

theorem Chain.walk_eq {list : List (Nat × Node)} : ∀ {start : Option Nat} {fuel : Nat},
    Chain nodes next start list → list.length ≤ fuel →
    walk nodes next fuel start = list.map Prod.snd := by
  induction list with
  | nil =>
      intro start fuel chain _
      have atEnd : start = none := chain
      cases fuel <;> simp [walk, atEnd]
  | cons head list induction =>
      intro start fuel chain enough
      rcases chain with ⟨isHead, found, rest⟩
      rcases fuel with _ | fuel
      · exact absurd enough (Nat.not_succ_le_zero _)
      · rw [isHead, walk]
        simp only [found]
        rw [induction rest (Nat.le_of_succ_le_succ enough), List.map_cons]

/-! ## Edits -/

theorem Chain.replace {start : Option Nat} {before after : List (Nat × Node)} {addr : Nat}
    {old new : Node} (chain : Chain nodes next start (before ++ (addr, old) :: after))
    (sameNext : next new = next old) :
    Chain (Function.update nodes addr (some new)) next start (before ++ (addr, new) :: after) := by
  have distinct := chain.nodup
  rw [List.map_append, List.map_cons, List.nodup_append] at distinct
  have notBefore : addr ∉ before.map Prod.fst := fun member =>
    distinct.2.2 addr member addr List.mem_cons_self rfl
  have notAfter : addr ∉ after.map Prod.fst := (List.nodup_cons.mp distinct.2.1).1
  rcases segment_append.mp chain with ⟨middle, first, isHere, _, rest⟩
  refine segment_append.mpr ⟨middle, first.update_other notBefore, isHere,
    Function.update_self _ _ _, ?_⟩
  rw [sameNext]
  exact rest.update_other notAfter

theorem Chain.insertAfter {start : Option Nat} {before after : List (Nat × Node)}
    {addr fresh : Nat} {old linked new : Node}
    (chain : Chain nodes next start (before ++ (addr, old) :: after))
    (isFresh : fresh ∉ (before ++ (addr, old) :: after).map Prod.fst)
    (toRest : next new = next old) (toNew : next linked = some fresh) :
    Chain (Function.update (Function.update nodes fresh (some new)) addr (some linked)) next start
      (before ++ (addr, linked) :: (fresh, new) :: after) := by
  have distinct := chain.nodup
  rw [List.map_append, List.map_cons, List.nodup_append] at distinct
  rw [List.map_append, List.map_cons, List.mem_append, List.mem_cons, not_or, not_or] at isFresh
  have notBefore : addr ∉ before.map Prod.fst := fun member =>
    distinct.2.2 addr member addr List.mem_cons_self rfl
  have notAfter : addr ∉ after.map Prod.fst := (List.nodup_cons.mp distinct.2.1).1
  rcases segment_append.mp chain with ⟨middle, first, isHere, _, rest⟩
  refine segment_append.mpr ⟨middle, (first.update_other isFresh.1).update_other notBefore, isHere,
    Function.update_self _ _ _, toNew, ?_, ?_⟩
  · rw [Function.update_of_ne isFresh.2.1, Function.update_self]
  · rw [toRest]
    exact (rest.update_other isFresh.2.2).update_other notAfter

theorem Chain.insertFirst {start : Option Nat} {list : List (Nat × Node)} {fresh : Nat}
    {new : Node} (chain : Chain nodes next start list) (isFresh : fresh ∉ list.map Prod.fst)
    (toRest : next new = start) :
    Chain (Function.update nodes fresh (some new)) next (some fresh) ((fresh, new) :: list) := by
  refine ⟨rfl, Function.update_self _ _ _, ?_⟩
  rw [toRest]
  exact Segment.update_other chain isFresh

end EspSqlite.HeapList
