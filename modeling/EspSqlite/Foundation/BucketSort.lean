import Mathlib.Algebra.Group.Nat.Defs
import Mathlib.Data.List.Sort

namespace EspSqlite.BucketSort

/-! # Merge sort with buckets

Each element is carried into a row of buckets as one is added to a binary counter: a full
bucket is merged with what is carried and emptied. Bucket number `i` holds nothing or `2 ^ i`
elements. -/

variable {α : Type} (le : α → α → Bool)

def carry : (carried : List α) → (buckets : List (List α)) → List (List α)
  | carried, [] => [carried]
  | carried, [] :: rest => carried :: rest
  | carried, (first :: bucket) :: rest =>
      [] :: carry (List.merge (first :: bucket) carried le) rest

def carryAll (buckets : List (List α)) (list : List α) : List (List α) :=
  list.foldl (fun buckets element => carry le [element] buckets) buckets

def mergeAll (merged : List α) (buckets : List (List α)) : List α :=
  buckets.foldl (fun merged bucket => List.merge merged bucket le) merged

/-! ## Nothing is lost -/

theorem carry_perm (carried : List α) (buckets : List (List α)) :
    (carry le carried buckets).flatten.Perm (carried ++ buckets.flatten) := by
  induction carried, buckets using carry.induct le with
  | case1 carried => exact List.Perm.refl _
  | case2 carried rest => exact List.Perm.refl _
  | case3 carried first bucket rest induction =>
      rw [carry, List.flatten_cons, List.nil_append, List.flatten_cons, ← List.append_assoc]
      apply induction.trans
      apply List.Perm.append_right
      exact (List.merge_perm_append le).trans List.perm_append_comm

theorem carryAll_perm (list : List α) : ∀ buckets : List (List α),
    (carryAll le buckets list).flatten.Perm (list ++ buckets.flatten) := by
  induction list with
  | nil => exact fun buckets => List.Perm.refl _
  | cons element rest induction =>
      intro buckets
      apply (induction (carry le [element] buckets)).trans
      apply ((carry_perm le [element] buckets).append_left rest).trans
      exact List.perm_middle

theorem mergeAll_perm (buckets : List (List α)) : ∀ merged : List α,
    (mergeAll le merged buckets).Perm (merged ++ buckets.flatten) := by
  induction buckets with
  | nil => exact fun merged => by simp [mergeAll]
  | cons bucket rest induction =>
      intro merged
      apply (induction (List.merge merged bucket le)).trans
      rw [List.flatten_cons, ← List.append_assoc]
      exact (List.merge_perm_append le).append_right rest.flatten

/-! ## Every bucket is sorted -/

def AllSorted (buckets : List (List α)) : Prop :=
  ∀ bucket ∈ buckets, bucket.Pairwise fun left right => le left right = true

variable {le} (trans : ∀ a b c, le a b = true → le b c = true → le a c = true)
  (total : ∀ a b, (le a b || le b a) = true)

include trans total in
theorem carry_sorted (carried : List α) (buckets : List (List α))
    (isSorted : carried.Pairwise fun left right => le left right = true)
    (sorted : AllSorted le buckets) : AllSorted le (carry le carried buckets) := by
  induction carried, buckets using carry.induct le with
  | case1 carried =>
      intro bucket member
      rw [carry, List.mem_singleton] at member
      exact member ▸ isSorted
  | case2 carried rest =>
      intro bucket member
      rw [carry] at member
      rcases List.mem_cons.mp member with rfl | member
      · exact isSorted
      · exact sorted bucket (List.mem_cons_of_mem _ member)
  | case3 carried first bucket rest induction =>
      intro other member
      rw [carry] at member
      rcases List.mem_cons.mp member with rfl | member
      · exact List.Pairwise.nil
      · apply induction ?_ ?_ other member
        · exact List.pairwise_merge trans total _ _ (sorted _ List.mem_cons_self) isSorted
        · exact fun other member => sorted other (List.mem_cons_of_mem _ member)

include trans total in
theorem carryAll_sorted (list : List α) : ∀ buckets : List (List α), AllSorted le buckets →
    AllSorted le (carryAll le buckets list) := by
  induction list with
  | nil => exact fun _ sorted => sorted
  | cons element rest induction =>
      intro buckets sorted
      apply induction
      exact carry_sorted trans total [element] buckets (List.pairwise_singleton _ _) sorted

include trans total in
theorem mergeAll_sorted (buckets : List (List α)) : ∀ merged : List α,
    merged.Pairwise (fun left right => le left right = true) → AllSorted le buckets →
    (mergeAll le merged buckets).Pairwise fun left right => le left right = true := by
  induction buckets with
  | nil => exact fun _ isSorted _ => isSorted
  | cons bucket rest induction =>
      intro merged isSorted sorted
      apply induction
      · exact List.pairwise_merge trans total _ _ isSorted (sorted bucket List.mem_cons_self)
      · exact fun other member => sorted other (List.mem_cons_of_mem _ member)

/-! ## The sizes of the buckets -/

def Sized : (size : Nat) → (buckets : List (List α)) → Prop
  | _, [] => True
  | size, bucket :: rest => (bucket = [] ∨ bucket.length = size) ∧ Sized (2 * size) rest

theorem sized_empty (count : Nat) : ∀ size : Nat,
    Sized size (List.replicate count ([] : List α)) := by
  induction count with
  | zero => exact fun _ => trivial
  | succ count induction => exact fun size => ⟨.inl rfl, induction (2 * size)⟩

theorem carry_sized (carried : List α) (buckets : List (List α)) : ∀ {size : Nat},
    carried.length = size → Sized size buckets → Sized size (carry le carried buckets) := by
  induction carried, buckets using carry.induct le with
  | case1 carried => exact fun isSize _ => ⟨.inr isSize, trivial⟩
  | case2 carried rest => exact fun isSize sized => ⟨.inr isSize, sized.2⟩
  | case3 carried first bucket rest induction =>
      intro size isSize sized
      refine ⟨.inl rfl, induction ?_ sized.2⟩
      rcases sized.1 with isNil | isFull
      · cases isNil
      · rw [List.length_merge, isFull, isSize, Nat.two_mul]

theorem carry_length (carried : List α) (buckets : List (List α)) : ∀ {size : Nat},
    carried.length = size → Sized size buckets →
    carried.length + buckets.flatten.length < size * 2 ^ buckets.length →
    (carry le carried buckets).length = buckets.length := by
  induction carried, buckets using carry.induct le with
  | case1 carried =>
      intro size isSize _ room
      simp only [List.flatten_nil, List.length_nil, Nat.pow_zero, Nat.mul_one] at room
      omega
  | case2 carried rest => exact fun _ _ _ => rfl
  | case3 carried first bucket rest induction =>
      intro size isSize sized room
      rcases sized.1 with isNil | isFull
      · cases isNil
      · have merged : (List.merge (first :: bucket) carried le).length = 2 * size := by
          rw [List.length_merge, isFull, isSize, Nat.two_mul]
        have double :
            size * 2 ^ ((first :: bucket) :: rest).length = 2 * size * 2 ^ rest.length := by
          rw [List.length_cons, Nat.pow_succ, ← Nat.mul_assoc, Nat.mul_comm, ← Nat.mul_assoc]
        rw [double, List.flatten_cons, List.length_append, isFull, isSize] at room
        rw [carry, List.length_cons, List.length_cons, induction merged sized.2 (by omega)]

end EspSqlite.BucketSort
