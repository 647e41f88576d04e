import Mathlib.Order.Lattice
import Mathlib.Data.List.Basic

namespace EspSqlite

/-! # Maps as sorted lists

A finite map kept as a list of entries with increasing keys. -/

structure SortedMap (Key Value : Type) [LT Key] where
  entries : List (Key × Value)
  sorted : entries.Pairwise fun left right => left.1 < right.1

namespace SortedMap

variable {Key Value : Type} [LinearOrder Key]

def changeEntry (key : Key) (change : Option Value → Value) :
    List (Key × Value) → List (Key × Value)
  | [] => [(key, change none)]
  | (other, value) :: rest =>
      if key < other then
        (key, change none) :: (other, value) :: rest
      else if other < key then
        (other, value) :: changeEntry key change rest
      else
        (key, change (some value)) :: rest

theorem mem_of_mem_changeEntry {key : Key} {change : Option Value → Value}
    {entry : Key × Value} : ∀ {entries : List (Key × Value)},
    entry ∈ changeEntry key change entries → entry.1 = key ∨ entry ∈ entries
  | [], member => by
      rw [changeEntry, List.mem_singleton] at member
      exact Or.inl (by rw [member])
  | (other, value) :: rest, member => by
      rw [changeEntry] at member
      split at member
      · rcases List.mem_cons.mp member with rfl | inRest
        · exact Or.inl rfl
        · exact Or.inr inRest
      · split at member
        · rcases List.mem_cons.mp member with rfl | inRest
          · exact Or.inr List.mem_cons_self
          · exact (mem_of_mem_changeEntry inRest).imp id (List.mem_cons_of_mem _)
        · rcases List.mem_cons.mp member with rfl | inRest
          · exact Or.inl rfl
          · exact Or.inr (List.mem_cons_of_mem _ inRest)

theorem changeEntry_sorted {key : Key} {change : Option Value → Value} :
    ∀ {entries : List (Key × Value)},
    entries.Pairwise (fun left right => left.1 < right.1) →
    (changeEntry key change entries).Pairwise fun left right => left.1 < right.1
  | [], _ => List.pairwise_singleton _ _
  | (other, value) :: rest, sorted => by
      rcases List.pairwise_cons.mp sorted with ⟨first, restSorted⟩
      rw [changeEntry]
      split
      · rename_i before
        refine List.pairwise_cons.mpr ⟨fun entry member => ?_, sorted⟩
        rcases List.mem_cons.mp member with rfl | inRest
        · exact before
        · exact lt_trans before (first entry inRest)
      · rename_i notBefore
        split
        · rename_i after
          refine List.pairwise_cons.mpr ⟨fun entry member => ?_, changeEntry_sorted restSorted⟩
          rcases mem_of_mem_changeEntry member with isKey | inRest
          · rw [isKey]
            exact after
          · exact first entry inRest
        · rename_i notAfter
          obtain rfl : key = other := le_antisymm (not_lt.mp notAfter) (not_lt.mp notBefore)
          exact List.pairwise_cons.mpr ⟨first, restSorted⟩

theorem changeEntry_append {key : Key} {change : Option Value → Value}
    {before after : List (Key × Value)} (below : ∀ entry ∈ before, entry.1 < key) :
    changeEntry key change (before ++ after) = before ++ changeEntry key change after := by
  induction before with
  | nil => rfl
  | cons head before induction =>
      have headBelow := below head List.mem_cons_self
      rw [List.cons_append, changeEntry, if_neg (lt_asymm headBelow), if_pos headBelow,
        induction fun entry member => below entry (List.mem_cons_of_mem head member)]
      rfl

theorem changeEntry_of_above {key : Key} {change : Option Value → Value}
    {entries : List (Key × Value)} (above : ∀ entry ∈ entries, key < entry.1) :
    changeEntry key change entries = (key, change none) :: entries := by
  cases entries with
  | nil => rfl
  | cons head rest => rw [changeEntry, if_pos (above head List.mem_cons_self)]

theorem changeEntry_here (key : Key) (value : Value) (change : Option Value → Value)
    (rest : List (Key × Value)) :
    changeEntry key change ((key, value) :: rest) = (key, change (some value)) :: rest := by
  rw [changeEntry, if_neg (lt_irrefl key), if_neg (lt_irrefl key)]

/-! ## The operations -/

def empty : SortedMap Key Value := ⟨[], List.Pairwise.nil⟩

def lookup (map : SortedMap Key Value) (key : Key) : Option Value := map.entries.lookup key

def change (map : SortedMap Key Value) (key : Key) (change : Option Value → Value) :
    SortedMap Key Value :=
  ⟨changeEntry key change map.entries, changeEntry_sorted map.sorted⟩

private theorem lookup_cons (key first : Key) (value : Value) (rest : List (Key × Value)) :
    List.lookup key ((first, value) :: rest) =
      if key = first then some value else rest.lookup key := by
  by_cases same : key = first
  · simp [same]
  · rw [List.lookup_cons, beq_eq_false_iff_ne.mpr same, if_neg same]

private theorem lookup_eq_none {key : Key} {entries : List (Key × Value)}
    (above : ∀ entry ∈ entries, key < entry.1) : entries.lookup key = none := by
  rw [List.lookup_eq_none_iff]
  intro entry member
  rw [bne_iff_ne]
  exact ne_of_lt (above entry member)

private theorem lookup_changeEntry {key other : Key} {change : Option Value → Value} :
    ∀ {entries : List (Key × Value)},
    entries.Pairwise (fun left right => left.1 < right.1) →
    (changeEntry key change entries).lookup other =
      if other = key then some (change (entries.lookup key)) else entries.lookup other
  | [], _ => by
      rw [changeEntry, lookup_cons]
      rfl
  | (first, value) :: rest, sorted => by
      rcases List.pairwise_cons.mp sorted with ⟨below, restSorted⟩
      rw [changeEntry]
      split
      · rename_i before
        have absent : List.lookup key ((first, value) :: rest) = none := by
          apply lookup_eq_none
          intro entry member
          rcases List.mem_cons.mp member with rfl | inRest
          · exact before
          · exact lt_trans before (below entry inRest)
        rw [lookup_cons, absent]
      · rename_i notBefore
        split
        · rename_i after
          rw [lookup_cons, lookup_changeEntry restSorted, lookup_cons, lookup_cons,
            if_neg (ne_of_gt after)]
          by_cases isFirst : other = first
          · rw [if_pos isFirst, if_pos isFirst, if_neg (isFirst ▸ ne_of_lt after)]
          · rw [if_neg isFirst, if_neg isFirst]
        · rename_i notAfter
          obtain rfl : key = first := le_antisymm (not_lt.mp notAfter) (not_lt.mp notBefore)
          rw [lookup_cons, lookup_cons, lookup_cons, if_pos rfl]
          split <;> rfl

theorem lookup_change (map : SortedMap Key Value) (key other : Key)
    (change : Option Value → Value) :
    (map.change key change).lookup other =
      if other = key then some (change (map.lookup key)) else map.lookup other :=
  lookup_changeEntry map.sorted

theorem mem_entries_iff (map : SortedMap Key Value) (key : Key) (value : Value) :
    (key, value) ∈ map.entries ↔ map.lookup key = some value := by
  rcases map with ⟨entries, sorted⟩
  simp only [lookup]
  induction entries with
  | nil => simp
  | cons head rest induction =>
      rcases head with ⟨first, held⟩
      rcases List.pairwise_cons.mp sorted with ⟨below, restSorted⟩
      rw [List.mem_cons, Prod.mk.injEq, lookup_cons, induction restSorted]
      by_cases same : key = first
      · subst same
        have absent : rest.lookup key = none := lookup_eq_none below
        simp [absent, eq_comm]
      · simp [same]

end SortedMap

end EspSqlite
