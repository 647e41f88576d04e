import Mathlib.Data.Nat.Basic
import Mathlib.Data.List.Basic

namespace EspSqlite

/-! # Cutting a range at block boundaries

A range of bytes of a file is cut into chunks that do not cross a multiple of
the block size. -/

structure Chunk where
  start : Nat
  count : Nat

/-- The chunks cut in `rounds` rounds from `start` on, out of the range of `len`
bytes at file offset `offset`. -/
def chunks (size offset len : Nat) : (rounds start : Nat) → List Chunk
  | 0, _ => []
  | rounds + 1, start =>
      let count := min (len - start) (size - (offset + start) % size)
      ⟨start, count⟩ :: chunks size offset len rounds (start + count)

def blockCount (size offset len : Nat) : Nat :=
  (offset % size + len) / size + if (offset % size + len) % size ≠ 0 then 1 else 0

/-- Consecutive chunks from `start` to `stop`, each inside one block, of which
only the last may end inside its block. -/
def Tiles (size offset : Nat) : (start : Nat) → List Chunk → (stop : Nat) → Prop
  | start, [], stop => start = stop
  | start, chunk :: rest, stop =>
      chunk.start = start ∧ (offset + start) % size + chunk.count ≤ size ∧
        (rest = [] ∨ (offset + start) % size + chunk.count = size) ∧
        Tiles size offset (start + chunk.count) rest stop

section Tiling

variable {size offset : Nat}

private theorem blockCount_le {len : Nat} (fits : offset % size + len ≤ size)
    (positive : 0 < size) : blockCount size offset len ≤ 1 := by
  rw [blockCount]
  rcases Nat.lt_or_eq_of_le fits with inside | full
  · rw [Nat.div_eq_of_lt inside]
    split <;> omega
  · simp [full, Nat.div_self positive]

private theorem blockCount_beyond {len : Nat} (beyond : size < offset % size + len)
    (positive : 0 < size) :
    blockCount size offset len =
      blockCount size (offset + (size - offset % size)) (len - (size - offset % size)) + 1 := by
  have inBlock : offset % size < size := Nat.mod_lt _ positive
  have boundary : (offset + (size - offset % size)) % size = 0 := by
    have split := Nat.div_add_mod offset size
    have whole : offset + (size - offset % size) = size * (offset / size + 1) := by
      rw [Nat.mul_add, Nat.mul_one]
      omega
    rw [whole, Nat.mul_mod_right]
  have total : offset % size + len = (len - (size - offset % size)) + size := by omega
  unfold blockCount
  rw [boundary, Nat.zero_add, total, Nat.add_div_right _ positive, Nat.add_mod_right]
  omega

private theorem chunks_tiles_from (positive : 0 < size) {len : Nat} :
    ∀ {rounds start : Nat}, start ≤ len →
    rounds = blockCount size (offset + start) (len - start) →
    Tiles size offset start (chunks size offset len rounds start) len
  | 0, start, startLe, isCount => by
      rw [blockCount] at isCount
      have total : (offset + start) % size + (len - start) = 0 := by
        by_contra more
        split at isCount
        · exact absurd isCount (Nat.succ_ne_zero _).symm
        · rename_i whole
          rw [ne_eq, not_not] at whole
          have quotient := Nat.div_pos
            (Nat.le_of_dvd (Nat.pos_of_ne_zero more) (Nat.dvd_of_mod_eq_zero whole)) positive
          exact absurd isCount (Nat.ne_of_lt quotient)
      simp only [chunks, Tiles]
      omega
  | rounds + 1, start, startLe, isCount => by
      have inBlock : (offset + start) % size < size := Nat.mod_lt _ positive
      simp only [chunks, Tiles, true_and]
      by_cases beyond : size < (offset + start) % size + (len - start)
      · have count : min (len - start) (size - (offset + start) % size) =
            size - (offset + start) % size := by omega
        rw [blockCount_beyond beyond positive, Nat.add_right_cancel_iff] at isCount
        rw [count]
        refine ⟨by omega, Or.inr (by omega), chunks_tiles_from positive (by omega) ?_⟩
        rw [isCount, Nat.add_assoc, Nat.sub_add_eq]
      · have count : min (len - start) (size - (offset + start) % size) = len - start := by omega
        have single := blockCount_le (Nat.le_of_not_lt beyond) positive
        obtain rfl : rounds = 0 := by omega
        rw [count]
        exact ⟨by omega, Or.inl rfl, by simp only [chunks, Tiles]; omega⟩

private theorem chunks_start_lt_from (positive : 0 < size) {len : Nat} :
    ∀ {rounds start : Nat}, start < len →
    rounds = blockCount size (offset + start) (len - start) →
    ∀ chunk ∈ chunks size offset len rounds start, chunk.start < len
  | 0, _, _, _ => fun chunk member => absurd member List.not_mem_nil
  | rounds + 1, start, startLt, isCount => by
      have inBlock : (offset + start) % size < size := Nat.mod_lt _ positive
      intro chunk member
      rw [chunks] at member
      rcases List.mem_cons.mp member with rfl | inRest
      · exact startLt
      · by_cases beyond : size < (offset + start) % size + (len - start)
        · have count : min (len - start) (size - (offset + start) % size) =
              size - (offset + start) % size := by omega
          rw [blockCount_beyond beyond positive, Nat.add_right_cancel_iff] at isCount
          rw [count] at inRest
          refine chunks_start_lt_from positive (by omega) ?_ chunk inRest
          rw [isCount, Nat.add_assoc, Nat.sub_add_eq]
        · have single := blockCount_le (Nat.le_of_not_lt beyond) positive
          obtain rfl : rounds = 0 := by omega
          exact absurd inRest List.not_mem_nil

theorem chunks_start_lt (positive : 0 < size) {len : Nat} (nonempty : 0 < len) :
    ∀ chunk ∈ chunks size offset len (blockCount size offset len) 0, chunk.start < len :=
  chunks_start_lt_from positive nonempty rfl

theorem count_of_mem_chunks {len : Nat} : ∀ {rounds start : Nat},
    ∀ chunk ∈ chunks size offset len rounds start,
      chunk.count = min (len - chunk.start) (size - (offset + chunk.start) % size)
  | 0, _, _, member => absurd member List.not_mem_nil
  | rounds + 1, start, chunk, member => by
      rw [chunks] at member
      rcases List.mem_cons.mp member with rfl | inRest
      · rfl
      · exact count_of_mem_chunks chunk inRest

theorem chunks_count_pos (positive : 0 < size) {len : Nat} (nonempty : 0 < len) :
    ∀ chunk ∈ chunks size offset len (blockCount size offset len) 0, 0 < chunk.count := by
  intro chunk member
  have startLt := chunks_start_lt positive nonempty chunk member
  have inBlock := Nat.mod_lt (offset + chunk.start) positive
  rw [count_of_mem_chunks chunk member]
  omega

theorem chunks_tiles (positive : 0 < size) (len : Nat) :
    Tiles size offset 0 (chunks size offset len (blockCount size offset len) 0) len :=
  chunks_tiles_from positive (Nat.zero_le len) rfl

/-! ## Tilings -/

theorem Tiles.le {list : List Chunk} : ∀ {start stop : Nat}, Tiles size offset start list stop →
    start ≤ stop := by
  induction list with
  | nil => exact fun tiles => Nat.le_of_eq tiles
  | cons chunk rest induction =>
      intro start stop tiles
      exact Nat.le_trans (Nat.le_add_right start chunk.count) (induction tiles.2.2.2)

theorem Tiles.mem {list : List Chunk} : ∀ {start stop : Nat}, Tiles size offset start list stop →
    ∀ chunk ∈ list, start ≤ chunk.start ∧ chunk.start + chunk.count ≤ stop ∧
      (offset + chunk.start) % size + chunk.count ≤ size := by
  induction list with
  | nil => exact fun _ _ member => absurd member List.not_mem_nil
  | cons head rest induction =>
      intro start stop tiles chunk member
      rcases tiles with ⟨isStart, inBlock, _, later⟩
      rcases List.mem_cons.mp member with rfl | inRest
      · rw [isStart]
        exact ⟨Nat.le_refl _, later.le, inBlock⟩
      · have inside := induction later chunk inRest
        exact ⟨Nat.le_trans (Nat.le_add_right _ _) inside.1, inside.2⟩

theorem Tiles.exists_mem {list : List Chunk} : ∀ {start stop : Nat},
    Tiles size offset start list stop → ∀ position, start ≤ position → position < stop →
    ∃ chunk ∈ list, chunk.start ≤ position ∧ position < chunk.start + chunk.count := by
  induction list with
  | nil =>
      intro start stop tiles position after before
      have same : start = stop := tiles
      omega
  | cons head rest induction =>
      intro start stop tiles position after before
      rcases tiles with ⟨isStart, _, _, later⟩
      by_cases here : position < start + head.count
      · exact ⟨head, List.mem_cons_self, by omega, by omega⟩
      · rcases induction later position (Nat.le_of_not_lt here) before with
          ⟨chunk, member, inside⟩
        exact ⟨chunk, List.mem_cons_of_mem head member, inside⟩

theorem div_eq_of_inBlock {position start : Nat} (after : start ≤ position)
    (inBlock : start % size + (position - start) < size) : position / size = start / size := by
  have positive : 0 < size := by omega
  have split := Nat.div_add_mod start size
  have isPosition : position = size * (start / size) + (start % size + (position - start)) := by
    omega
  rw [isPosition, Nat.mul_add_div positive, Nat.div_eq_of_lt inBlock, Nat.add_zero]

theorem Tiles.pairwise (positive : 0 < size) {list : List Chunk} : ∀ {start stop : Nat},
    Tiles size offset start list stop →
    list.Pairwise fun left right =>
      (offset + left.start) / size < (offset + right.start) / size := by
  induction list with
  | nil => exact fun _ => List.Pairwise.nil
  | cons head rest induction =>
      intro start stop tiles
      rcases tiles with ⟨isStart, inBlock, full, later⟩
      refine List.pairwise_cons.mpr ⟨fun chunk member => ?_, induction later⟩
      rcases full with isNil | full
      · rw [isNil] at member
        exact absurd member List.not_mem_nil
      · have after := (later.mem chunk member).1
        have split := Nat.div_add_mod (offset + start) size
        have boundary : offset + (start + head.count) = size * ((offset + start) / size + 1) := by
          rw [Nat.mul_add, Nat.mul_one]
          omega
        have next : (offset + (start + head.count)) / size = (offset + start) / size + 1 := by
          rw [boundary, Nat.mul_div_cancel_left _ positive]
        rw [isStart]
        have monotone := Nat.div_le_div_right (c := size) (Nat.add_le_add_left after offset)
        omega

end Tiling

end EspSqlite
