import Mathlib.Data.List.Induction
import Mathlib.Data.List.Nodup

namespace EspSqlite.DoublyLinked

/-! # Doubly linked lists

A list of addresses that are linked both ways, and what removing an address, adding
one in front and following the links does. -/

def Linked (next prev : Nat → Option Nat) :
    (before : Option Nat) → List Nat → (after : Option Nat) → Prop
  | _, [], _ => True
  | before, addr :: rest, after =>
      prev addr = before ∧ next addr = rest.head?.or after ∧
        Linked next prev (some addr) rest after

variable {next prev next' prev' : Nat → Option Nat} {before after : Option Nat}
  {list left right : List Nat} {addr : Nat}

theorem linked_append : ∀ {left : List Nat} {before : Option Nat},
    Linked next prev before (left ++ right) after ↔
      Linked next prev before left (right.head?.or after) ∧
        Linked next prev (left.getLast?.or before) right after
  | [], _ => by simp [Linked]
  | first :: rest, before => by
      have ends : ((first :: rest).getLast?).or before = rest.getLast?.or (some first) := by
        cases rest with
        | nil => rfl
        | cons second rest => simp [List.getLast?_cons]
      rw [List.cons_append, Linked, Linked, linked_append, ends]
      have heads : (rest ++ right).head?.or after = rest.head?.or (right.head?.or after) := by
        cases rest <;> simp
      rw [heads, and_assoc, and_assoc]

theorem Linked.congr : ∀ {list : List Nat} {before : Option Nat},
    Linked next prev before list after → (∀ addr ∈ list, next' addr = next addr) →
    (∀ addr ∈ list, prev' addr = prev addr) → Linked next' prev' before list after
  | [], _, _, _, _ => trivial
  | addr :: rest, before, linked, sameNext, samePrev => by
      rcases linked with ⟨isPrev, isNext, others⟩
      refine ⟨?_, ?_, others.congr
        (fun other member => sameNext other (List.mem_cons_of_mem _ member))
        fun other member => samePrev other (List.mem_cons_of_mem _ member)⟩
      · rw [samePrev addr List.mem_cons_self, isPrev]
      · rw [sameNext addr List.mem_cons_self, isNext]

theorem Linked.retarget_after {after' : Option Nat} : ∀ {list : List Nat} {before : Option Nat},
    Linked next prev before list after → list.Nodup →
    (∀ addr ∈ list, next' addr = if some addr = list.getLast? then after' else next addr) →
    (∀ addr ∈ list, prev' addr = prev addr) → Linked next' prev' before list after'
  | [], _, _, _, _, _ => trivial
  | [addr], before, linked, _, isNext, samePrev => by
      refine ⟨?_, ?_, trivial⟩
      · rw [samePrev addr List.mem_cons_self, linked.1]
      · rw [isNext addr List.mem_cons_self]
        simp
  | addr :: second :: rest, before, linked, nodup, isNext, samePrev => by
      rcases linked with ⟨isPrev, toNext, others⟩
      have notLast : some addr ≠ (addr :: second :: rest).getLast? := by
        rw [List.getLast?_cons_cons]
        intro same
        exact (List.nodup_cons.mp nodup).1 (List.mem_of_getLast? same.symm)
      refine ⟨?_, ?_, others.retarget_after (List.nodup_cons.mp nodup).2 (fun other member => ?_)
        fun other member => samePrev other (List.mem_cons_of_mem _ member)⟩
      · rw [samePrev addr List.mem_cons_self, isPrev]
      · rw [isNext addr List.mem_cons_self, if_neg notLast, toNext]
        rfl
      · rw [isNext other (List.mem_cons_of_mem _ member), List.getLast?_cons_cons]

theorem Linked.retarget_before {before' : Option Nat} (linked : Linked next prev before list after)
    (nodup : list.Nodup) (sameNext : ∀ addr ∈ list, next' addr = next addr)
    (isPrev : ∀ addr ∈ list, prev' addr = if some addr = list.head? then before' else prev addr) :
    Linked next' prev' before' list after := by
  cases list with
  | nil => trivial
  | cons addr rest =>
      rcases linked with ⟨_, isNext, others⟩
      refine ⟨?_, ?_, others.congr
        (fun other member => sameNext other (List.mem_cons_of_mem _ member))
        fun other member => ?_⟩
      · rw [isPrev addr List.mem_cons_self]
        simp
      · rw [sameNext addr List.mem_cons_self, isNext]
      · have notFirst : some other ≠ (addr :: rest).head? := by
          rw [List.head?_cons, Ne, Option.some.injEq]
          rintro rfl
          exact (List.nodup_cons.mp nodup).1 member
        rw [isPrev other (List.mem_cons_of_mem _ member), if_neg notFirst]

theorem Linked.neighbours (linked : Linked next prev none (left ++ addr :: right) none) :
    prev addr = left.getLast? ∧ next addr = right.head? := by
  rcases linked_append.mp linked with ⟨_, isPrev, isNext, _⟩
  exact ⟨by rw [isPrev, Option.or_none], by rw [isNext, Option.or_none]⟩

theorem Linked.remove (linked : Linked next prev none (left ++ addr :: right) none)
    (nodup : (left ++ addr :: right).Nodup)
    (isNext : ∀ other ∈ left ++ right,
      next' other = if some other = prev addr then next addr else next other)
    (isPrev : ∀ other ∈ left ++ right,
      prev' other = if some other = next addr then prev addr else prev other) :
    Linked next' prev' none (left ++ right) none := by
  rcases linked.neighbours with ⟨before, after⟩
  rcases linked_append.mp linked with ⟨first, _, _, last⟩
  rcases List.nodup_append.mp nodup with ⟨leftNodup, restNodup, apart⟩
  have rightNodup := (List.nodup_cons.mp restNodup).2
  rw [before, after] at isNext isPrev
  apply linked_append.mpr
  rw [Option.or_none, Option.or_none]
  constructor
  · apply first.retarget_after leftNodup
    · intro other member
      exact isNext other (List.mem_append_left _ member)
    · intro other member
      rw [isPrev other (List.mem_append_left _ member), if_neg]
      intro same
      exact apart other member other (List.mem_cons_of_mem _ (List.mem_of_head? same.symm)) rfl
  · apply last.retarget_before rightNodup
    · intro other member
      rw [isNext other (List.mem_append_right _ member), if_neg]
      intro same
      exact apart other (List.mem_of_getLast? same.symm) other (List.mem_cons_of_mem _ member) rfl
    · intro other member
      exact isPrev other (List.mem_append_right _ member)

theorem Linked.push (linked : Linked next prev none list none) (nodup : list.Nodup)
    (atFront : prev' addr = none) (toList : next' addr = list.head?)
    (sameNext : ∀ other ∈ list, next' other = next other)
    (isPrev : ∀ other ∈ list,
      prev' other = if some other = list.head? then some addr else prev other) :
    Linked next' prev' none (addr :: list) none :=
  ⟨atFront, by rw [toList, Option.or_none], linked.retarget_before nodup sameNext isPrev⟩

/-! ## Following the links -/

variable {Node : Type} {nodes : Nat → Option Node}

def link (nodes : Nat → Option Node) (pointer : Node → Option Nat) (addr : Nat) : Option Nat :=
  (nodes addr).bind pointer

/-- The addresses met from one on, at most `fuel` of them; each of them holds a node. -/
def follow (nodes : Nat → Option Node) (pointer : Node → Option Nat) :
    (fuel : Nat) → (start : Option Nat) → Option (List Nat)
  | _, none => some []
  | 0, some _ => none
  | fuel + 1, some addr => do
      let node ← nodes addr
      let rest ← follow nodes pointer fuel (pointer node)
      some (addr :: rest)

theorem follow_cons {pointer : Node → Option Nat} {fuel : Nat} {node : Node} {rest : List Nat}
    (found : nodes addr = some node)
    (others : follow nodes pointer fuel (pointer node) = some rest) :
    follow nodes pointer (fuel + 1) (some addr) = some (addr :: rest) := by
  simp [follow, found, others]

def Chained (next : Nat → Option Nat) : List Nat → Prop
  | [] => True
  | addr :: rest => next addr = rest.head? ∧ Chained next rest

theorem Chained.congr : ∀ {list : List Nat}, Chained next list →
    (∀ addr ∈ list, next' addr = next addr) → Chained next' list
  | [], _, _ => trivial
  | addr :: _, ⟨isNext, others⟩, same =>
      ⟨(same addr List.mem_cons_self).trans isNext,
        others.congr fun other member => same other (List.mem_cons_of_mem addr member)⟩

theorem Linked.chained : ∀ {list : List Nat} {before : Option Nat},
    Linked next prev before list none → Chained next list
  | [], _, _ => trivial
  | _ :: _, _, ⟨_, isNext, others⟩ => ⟨isNext.trans (Option.or_none), others.chained⟩

theorem Chained.follow {pointer : Node → Option Nat} : ∀ {list : List Nat} {fuel : Nat},
    Chained (link nodes pointer) list → list.length ≤ fuel →
    (∀ addr ∈ list, ∃ node, nodes addr = some node) →
    follow nodes pointer fuel list.head? = some list
  | [], fuel, _, _, _ => by cases fuel <;> rfl
  | addr :: rest, 0, _, enough, _ => absurd enough (Nat.not_succ_le_zero _)
  | addr :: rest, fuel + 1, chained, enough, found => by
      rcases chained with ⟨isNext, others⟩
      rcases found addr List.mem_cons_self with ⟨node, atAddr⟩
      rw [link, atAddr, Option.bind_some] at isNext
      apply follow_cons atAddr
      rw [isNext]
      exact others.follow (Nat.le_of_succ_le_succ enough) fun other member =>
        found other (List.mem_cons_of_mem _ member)

theorem Linked.follow_next {toNext : Node → Option Nat} {list : List Nat} {before : Option Nat}
    {fuel : Nat} (linked : Linked (link nodes toNext) prev before list none)
    (enough : list.length ≤ fuel) (found : ∀ addr ∈ list, ∃ node, nodes addr = some node) :
    follow nodes toNext fuel list.head? = some list :=
  linked.chained.follow enough found

theorem Linked.follow_prev {toPrev : Node → Option Nat} {list : List Nat} {fuel : Nat}
    (linked : Linked next (link nodes toPrev) none list after) (enough : list.length ≤ fuel)
    (found : ∀ addr ∈ list, ∃ node, nodes addr = some node) :
    follow nodes toPrev fuel list.getLast? = some list.reverse := by
  induction list using List.reverseRecOn generalizing after fuel with
  | nil => cases fuel <;> rfl
  | append_singleton front last induction =>
      rcases linked_append.mp linked with ⟨others, isPrev, _⟩
      rw [List.length_append, List.length_singleton] at enough
      rcases found last (List.mem_append_right _ List.mem_cons_self) with ⟨node, atLast⟩
      have toFront : toPrev node = front.getLast? := by
        rw [link, atLast, Option.bind_some, Option.or_none] at isPrev
        exact isPrev
      cases fuel with
      | zero => exact absurd enough (Nat.not_succ_le_zero _)
      | succ fuel =>
          rw [List.getLast?_append, List.getLast?_singleton, Option.some_or, List.reverse_append,
            List.reverse_singleton, List.singleton_append]
          apply follow_cons atLast
          rw [toFront]
          exact induction others (Nat.le_of_succ_le_succ enough) fun other member =>
            found other (List.mem_append_left _ member)

def search (nodes : Nat → Option Node) (pointer : Node → Option Nat) (stop : Node → Bool) :
    (fuel : Nat) → (start : Option Nat) → Option (Option Nat)
  | _, none => some none
  | 0, some _ => none
  | fuel + 1, some addr => do
      let node ← nodes addr
      if stop node = true then some (some addr)
      else search nodes pointer stop fuel (pointer node)

theorem search_of_follow {pointer : Node → Option Nat} {stop : Node → Bool} :
    ∀ {fuel : Nat} {start : Option Nat} {list : List Nat},
    follow nodes pointer fuel start = some list →
    search nodes pointer stop fuel start = some (list.find? fun addr => (nodes addr).any stop)
  | fuel, none, list, followed => by
      have isNil : list = [] := by
        cases fuel <;> exact (Option.some.inj followed).symm
      rw [isNil]
      cases fuel <;> rfl
  | 0, some addr, list, followed => by cases followed
  | fuel + 1, some addr, list, followed => by
      rcases Option.bind_eq_some_iff.mp followed with ⟨node, found, later⟩
      rcases Option.bind_eq_some_iff.mp later with ⟨rest, isRest, isList⟩
      cases isList
      rw [search, found, List.find?_cons, found, Option.any_some]
      cases stops : stop node with
      | true => simp [stops]
      | false =>
          simp only [Option.bind_eq_bind, Option.bind_some, stops, Bool.false_eq_true, if_false]
          exact search_of_follow isRest

end EspSqlite.DoublyLinked
