import Mathlib.Data.Finset.Card
import Mathlib.Data.Finset.Range
import Mathlib.Data.List.Nodup
import Mathlib.Data.Nat.Find
import Mathlib.Logic.Function.Basic

namespace EspSqlite.Probing

/-! # Hash tables with linear probing

A table has a key, or zero, in each of its slots. A key is looked for from its home
on, round the table, until it or a free slot is met. -/

def around (slots start count : Nat) : Nat := (start + count) % slots

def probe (slots : Nat) (stop : Nat → Bool) : (fuel slot : Nat) → Option Nat
  | 0, _ => none
  | fuel + 1, slot =>
      if stop slot then some slot else probe slots stop fuel ((slot + 1) % slots)

section Probe

variable {slots start fuel slot : Nat} {stop : Nat → Bool}

theorem around_lt (positive : 0 < slots) (start count : Nat) : around slots start count < slots :=
  Nat.mod_lt _ positive

theorem around_zero (inside : start < slots) : around slots start 0 = start :=
  Nat.mod_eq_of_lt inside

theorem around_succ (slots start count : Nat) :
    around slots ((start + 1) % slots) count = around slots start (count + 1) := by
  rw [around, around, Nat.mod_add_mod, Nat.add_assoc, Nat.add_comm 1 count]

theorem exists_around (inside : start < slots) (isSlot : slot < slots) :
    ∃ count < slots, slot = around slots start count := by
  by_cases after : start ≤ slot
  · refine ⟨slot - start, by omega, ?_⟩
    rw [around, Nat.add_sub_cancel' after, Nat.mod_eq_of_lt isSlot]
  · refine ⟨slot + slots - start, by omega, ?_⟩
    have sum : start + (slot + slots - start) = slot + slots := by omega
    rw [around, sum, Nat.add_mod_right, Nat.mod_eq_of_lt isSlot]

theorem probe_eq {count : Nat} (inside : start < slots) (within : count < fuel)
    (stops : stop (around slots start count) = true)
    (passes : ∀ earlier < count, stop (around slots start earlier) = false) :
    probe slots stop fuel start = some (around slots start count) := by
  induction fuel generalizing start count with
  | zero => omega
  | succ fuel induction =>
      rw [probe]
      cases count with
      | zero =>
          rw [around_zero inside] at stops ⊢
          rw [if_pos stops]
      | succ count =>
          have first := passes 0 (Nat.succ_pos count)
          rw [around_zero inside] at first
          rw [first, if_neg Bool.false_ne_true, ← around_succ]
          apply induction (Nat.mod_lt _ (Nat.zero_lt_of_lt inside)) (by omega)
          · rwa [around_succ]
          · intro earlier before
            rw [around_succ]
            exact passes (earlier + 1) (by omega)

theorem exists_probe (stop : Nat → Bool) (inside : start < slots) (isSlot : slot < slots)
    (stops : stop slot = true) :
    ∃ count < slots, probe slots stop slots start = some (around slots start count) ∧
      stop (around slots start count) = true ∧
      ∀ earlier < count, stop (around slots start earlier) = false := by
  rcases exists_around inside isSlot with ⟨last, within, isLast⟩
  have ends : ∃ count, stop (around slots start count) = true := ⟨last, by rwa [← isLast]⟩
  have bounded : Nat.find ends ≤ last := Nat.find_min' ends (by rwa [← isLast])
  have passes : ∀ earlier < Nat.find ends, stop (around slots start earlier) = false :=
    fun earlier before => Bool.eq_false_iff.mpr (Nat.find_min ends before)
  exact ⟨Nat.find ends, by omega, probe_eq inside (by omega) (Nat.find_spec ends) passes,
    Nat.find_spec ends, passes⟩

end Probe

section Table

variable {Key : Type} [Zero Key] {slots : Nat} {home : Key → Nat} {table : Nat → Key} {key : Key}

def Held (slots : Nat) (table : Nat → Key) (key : Key) : Prop :=
  key ≠ 0 ∧ ∃ slot < slots, table slot = key

def Passed (slots : Nat) (table : Nat → Key) (start count : Nat) : Prop :=
  ∀ earlier < count, table (around slots start earlier) ≠ 0

structure Placed (slots : Nat) (home : Key → Nat) (table : Nat → Key) : Prop where
  homes : ∀ slot < slots, table slot ≠ 0 → home (table slot) < slots
  reached : ∀ slot < slots, table slot ≠ 0 →
    ∃ count < slots, slot = around slots (home (table slot)) count ∧
      Passed slots table (home (table slot)) count
  once : ∀ left < slots, ∀ right < slots, table left ≠ 0 → table left = table right → left = right

theorem Placed.empty (slots : Nat) (home : Key → Nat) : Placed slots home fun _ => 0 := by
  constructor
  · intro slot _ shown
    exact absurd rfl shown
  · intro slot _ shown
    exact absurd rfl shown
  · intro left _ right _ shown
    exact absurd rfl shown

theorem not_held_empty : ¬Held slots (fun _ => (0 : Key)) key := by
  rintro ⟨shown, _, _, isKey⟩
  exact shown isKey.symm

variable [DecidableEq Key]

def occupied (slots : Nat) (table : Nat → Key) : Finset Nat :=
  (Finset.range slots).filter fun slot => table slot ≠ 0

theorem mem_occupied {slot : Nat} :
    slot ∈ occupied slots table ↔ slot < slots ∧ table slot ≠ 0 := by
  rw [occupied, Finset.mem_filter, Finset.mem_range]

theorem occupied_empty : occupied slots (fun _ => (0 : Key)) = ∅ := by
  apply Finset.filter_eq_empty_iff.mpr
  intro slot _ shown
  exact shown rfl

theorem exists_free (room : (occupied slots table).card < slots) :
    ∃ slot < slots, table slot = 0 := by
  have fewer : (occupied slots table).card < (Finset.range slots).card := by
    rwa [Finset.card_range]
  rcases Finset.exists_mem_notMem_of_card_lt_card fewer with ⟨slot, isSlot, free⟩
  rw [Finset.mem_range] at isSlot
  rw [mem_occupied] at free
  exact ⟨slot, isSlot, by_contra fun shown => free ⟨isSlot, shown⟩⟩

def find (slots : Nat) (home : Key → Nat) (table : Nat → Key) (key : Key) : Option Nat :=
  probe slots (fun slot => table slot == 0 || table slot == key) slots (home key)

/-- A search for a key that is in the table finds it, and one for another key ends at
a free slot that a later search for it meets. -/
theorem Placed.find (placed : Placed slots home table) (shown : key ≠ 0)
    (inside : home key < slots) (room : (occupied slots table).card < slots) :
    ∃ count < slots, find slots home table key = some (around slots (home key) count) ∧
      Passed slots table (home key) count ∧
      (Held slots table key → table (around slots (home key) count) = key) ∧
      (¬Held slots table key → table (around slots (home key) count) = 0) := by
  have positive := Nat.zero_lt_of_lt inside
  rcases exists_free room with ⟨free, isSlot, isFree⟩
  rcases exists_probe (fun slot => table slot == 0 || table slot == key) inside isSlot
    (by rw [isFree, beq_self_eq_true, Bool.true_or]) with ⟨count, within, found, stops, passes⟩
  have stopped : table (around slots (home key) count) = 0 ∨
      table (around slots (home key) count) = key := by simpa using stops
  have passed : ∀ earlier < count, table (around slots (home key) earlier) ≠ 0 ∧
      table (around slots (home key) earlier) ≠ key := by
    intro earlier before
    simpa using passes earlier before
  refine ⟨count, within, found, fun earlier before => (passed earlier before).1, ?_, ?_⟩
  · rintro ⟨_, slot, isSlot, isKey⟩
    apply stopped.resolve_left
    intro isFree
    rcases placed.reached slot isSlot (by rwa [isKey]) with ⟨last, _, isLast, taken⟩
    rw [isKey] at isLast taken
    rcases Nat.lt_trichotomy count last with before | rfl | after
    · exact taken count before isFree
    · rw [← isLast, isKey] at isFree
      exact shown isFree
    · exact (passed last after).2 (by rw [← isLast, isKey])
  · intro absent
    apply stopped.resolve_right
    intro isKey
    exact absent ⟨shown, _, around_lt positive _ _, isKey⟩

/-! ## The keys of a table -/

def keys (slots : Nat) (table : Nat → Key) : List Key :=
  ((List.range slots).map table).filter fun key => key ≠ 0

theorem mem_keys : key ∈ keys slots table ↔ Held slots table key := by
  simp only [keys, Held, List.mem_filter, List.mem_map, List.mem_range, decide_eq_true_eq]
  exact and_comm

theorem length_keys : (keys slots table).length = (occupied slots table).card := by
  have nodup : ((List.range slots).filter fun slot => decide (table slot ≠ 0)).Nodup :=
    List.nodup_range.filter _
  have same : ((List.range slots).filter fun slot => decide (table slot ≠ 0)).toFinset =
      occupied slots table := by
    apply Finset.ext
    intro slot
    rw [List.mem_toFinset, List.mem_filter, List.mem_range, decide_eq_true_eq, mem_occupied]
  rw [keys, List.filter_map, List.length_map, ← same, List.toFinset_card_of_nodup nodup]
  rfl

theorem Placed.nodup_keys (placed : Placed slots home table) : (keys slots table).Nodup := by
  rw [keys, List.filter_map]
  apply List.Nodup.map_on _ (List.nodup_range.filter _)
  intro left isLeft right isRight equal
  rw [List.mem_filter, List.mem_range] at isLeft isRight
  exact placed.once left isLeft.1 right isRight.1 (by simpa using isLeft.2) equal

section Store

variable {count : Nat}

omit [DecidableEq Key] in
theorem held_update (shown : key ≠ 0) {slot : Nat} (isSlot : slot < slots)
    (free : table slot = 0) {other : Key} :
    Held slots (Function.update table slot key) other ↔ other = key ∨ Held slots table other := by
  constructor
  · rintro ⟨otherShown, place, isPlace, isOther⟩
    by_cases same : place = slot
    · rw [same, Function.update_self] at isOther
      exact Or.inl isOther.symm
    · rw [Function.update_of_ne same] at isOther
      exact Or.inr ⟨otherShown, place, isPlace, isOther⟩
  · rintro (rfl | ⟨otherShown, place, isPlace, isOther⟩)
    · exact ⟨shown, slot, isSlot, Function.update_self ..⟩
    · have apart : place ≠ slot := by
        rintro rfl
        exact otherShown (isOther.symm.trans free)
      exact ⟨otherShown, place, isPlace, by rwa [Function.update_of_ne apart]⟩

theorem occupied_update (shown : key ≠ 0) {slot : Nat} (isSlot : slot < slots)
    (free : table slot = 0) :
    (occupied slots (Function.update table slot key)).card = (occupied slots table).card + 1 := by
  have added : occupied slots (Function.update table slot key) =
      insert slot (occupied slots table) := by
    apply Finset.ext
    intro place
    rw [Finset.mem_insert, mem_occupied, mem_occupied]
    by_cases same : place = slot
    · rw [same, Function.update_self]
      exact ⟨fun _ => Or.inl rfl, fun _ => ⟨isSlot, shown⟩⟩
    · rw [Function.update_of_ne same]
      exact ⟨Or.inr, fun member => member.resolve_left same⟩
  have absent : slot ∉ occupied slots table := fun member => (mem_occupied.mp member).2 free
  rw [added, Finset.card_insert_of_notMem absent]

omit [DecidableEq Key] in
theorem Placed.store (placed : Placed slots home table) (shown : key ≠ 0)
    (inside : home key < slots) (absent : ¬Held slots table key) (within : count < slots)
    (passed : Passed slots table (home key) count)
    (free : table (around slots (home key) count) = 0) :
    Placed slots home (Function.update table (around slots (home key) count) key) := by
  have isSlot := around_lt (Nat.zero_lt_of_lt inside) (home key) count
  have kept : ∀ slot, table slot ≠ 0 →
      Function.update table (around slots (home key) count) key slot = table slot := by
    intro slot taken
    apply Function.update_of_ne
    rintro rfl
    exact taken free
  have keepsPassed : ∀ start places, Passed slots table start places →
      Passed slots (Function.update table (around slots (home key) count) key) start places := by
    intro start places taken earlier before
    rw [kept _ (taken earlier before)]
    exact taken earlier before
  constructor
  · intro slot isPlace taken
    by_cases same : slot = around slots (home key) count
    · rwa [same, Function.update_self]
    · rw [Function.update_of_ne same] at taken ⊢
      exact placed.homes slot isPlace taken
  · intro slot isPlace taken
    by_cases same : slot = around slots (home key) count
    · rw [same, Function.update_self]
      exact ⟨count, within, rfl, keepsPassed _ _ passed⟩
    · rw [Function.update_of_ne same] at taken ⊢
      rcases placed.reached slot isPlace taken with ⟨places, before, isHere, met⟩
      exact ⟨places, before, isHere, keepsPassed _ _ met⟩
  · intro left isLeft right isRight taken equal
    by_cases leftSame : left = around slots (home key) count
    · by_cases rightSame : right = around slots (home key) count
      · rw [leftSame, rightSame]
      · rw [leftSame, Function.update_self, Function.update_of_ne rightSame] at equal
        exact absurd ⟨shown, right, isRight, equal.symm⟩ absent
    · by_cases rightSame : right = around slots (home key) count
      · rw [rightSame, Function.update_self, Function.update_of_ne leftSame] at equal
        exact absurd ⟨shown, left, isLeft, equal⟩ absent
      · rw [Function.update_of_ne leftSame] at taken
        rw [Function.update_of_ne leftSame, Function.update_of_ne rightSame] at equal
        exact placed.once left isLeft right isRight taken equal

end Store

/-! ## Building a table -/

def place (slots : Nat) (home : Key → Nat) (table : Nat → Key) (key : Key) :
    Option (Nat → Key) :=
  (probe slots (fun slot => table slot == 0) slots (home key)).map fun slot =>
    Function.update table slot key

theorem Placed.place (placed : Placed slots home table) (shown : key ≠ 0)
    (inside : home key < slots) (absent : ¬Held slots table key)
    (room : (occupied slots table).card < slots) :
    ∃ table', place slots home table key = some table' ∧ Placed slots home table' ∧
      (∀ other, Held slots table' other ↔ other = key ∨ Held slots table other) ∧
      (occupied slots table').card = (occupied slots table).card + 1 := by
  rcases exists_free room with ⟨free, isSlot, isFree⟩
  rcases exists_probe (fun slot => table slot == 0) inside isSlot
    (by rw [isFree, beq_self_eq_true]) with ⟨count, within, found, stops, passes⟩
  have isFree : table (around slots (home key) count) = 0 := by simpa using stops
  have passed : Passed slots table (home key) count := by
    intro earlier before
    simpa using passes earlier before
  have isSlot := around_lt (Nat.zero_lt_of_lt inside) (home key) count
  exact ⟨_, by rw [Probing.place, found, Option.map_some],
    placed.store shown inside absent within passed isFree,
    fun other => held_update shown isSlot isFree, occupied_update shown isSlot isFree⟩

theorem Placed.foldlM {keys : List Key} (placed : Placed slots home table) (nodup : keys.Nodup)
    (shown : ∀ key ∈ keys, key ≠ 0) (inside : ∀ key ∈ keys, home key < slots)
    (absent : ∀ key ∈ keys, ¬Held slots table key)
    (room : (occupied slots table).card + keys.length ≤ slots) :
    ∃ table', keys.foldlM (Probing.place slots home) table = some table' ∧
      Placed slots home table' ∧
      (∀ other, Held slots table' other ↔ other ∈ keys ∨ Held slots table other) ∧
      (occupied slots table').card = (occupied slots table).card + keys.length := by
  induction keys generalizing table with
  | nil =>
      refine ⟨table, rfl, placed, fun other => ?_, rfl⟩
      exact (or_iff_right (List.not_mem_nil (a := other))).symm
  | cons key rest induction =>
      rw [List.length_cons] at room
      rcases List.nodup_cons.mp nodup with ⟨apart, restNodup⟩
      rcases placed.place (shown key List.mem_cons_self) (inside key List.mem_cons_self)
        (absent key List.mem_cons_self) (by omega) with ⟨next, isNext, nextPlaced, held, card⟩
      rcases induction nextPlaced restNodup
        (fun other member => shown other (List.mem_cons_of_mem _ member))
        (fun other member => inside other (List.mem_cons_of_mem _ member))
        (by
          intro other member isHeld
          rcases (held other).mp isHeld with rfl | before
          · exact apart member
          · exact absent other (List.mem_cons_of_mem _ member) before)
        (by omega) with ⟨last, isLast, lastPlaced, lastHeld, lastCard⟩
      refine ⟨last, ?_, lastPlaced, ?_, ?_⟩
      · rw [List.foldlM_cons, isNext]
        exact isLast
      · intro other
        rw [lastHeld, held, List.mem_cons, ← or_assoc, or_comm (b := other = key)]
      · rw [lastCard, card, List.length_cons]
        omega

end Table

end EspSqlite.Probing
