import EspSqlite.Rollback.Membership
import EspSqlite.Rollback.Esp8266
import Mathlib.Data.Set.Insert

/-! # Which pages are journalled

What the tests of a `Bitvec` answer after any history of calls, and that a `Bitvec` in
which the pager sets the pages it journals answers for them all along a transaction. -/

namespace EspSqlite.Rollback

open Vfs (sqliteOk sqliteNomem)
open Journal (MemFile)

/-! ## Histories -/

inductive BitvecCall
  | set (i : Nat)
  | clear (i : Nat)
  deriving DecidableEq, Repr

def BitvecCall.bit : BitvecCall → Nat
  | .set i => i
  | .clear i => i

def bitvecCall (mallocs : Nat → Bool) (state : Bitvec × Nat) :
    BitvecCall → Option (Nat × Bitvec × Nat)
  | .set i => sqlite3BitvecSet mallocs state.2 state.1 i
  | .clear i => (sqlite3BitvecClear state.1 i).map fun p => (sqliteOk, p, state.2)

def BitvecStep (mallocs : Nat → Bool) (size : Nat) (state : Bitvec × Nat)
    (label : BitvecCall × Nat) (state' : Bitvec × Nat) : Prop :=
  1 ≤ label.1.bit ∧ label.1.bit ≤ size ∧
    bitvecCall mallocs state label.1 = some (label.2, state')

structure Marks where
  sure : Set Nat
  possible : Set Nat

/-- A call that returns an error may have lost all bits. -/
def Marks.after (marks : Marks) : BitvecCall × Nat → Marks
  | (.set i, rc) => ⟨if rc = sqliteOk then insert i marks.sure else ∅, insert i marks.possible⟩
  | (.clear i, _) => ⟨marks.sure \ {i}, marks.possible \ {i}⟩

def marksOf (labels : List (BitvecCall × Nat)) : Marks := labels.foldl Marks.after ⟨∅, ∅⟩

theorem marksOf_snoc (labels : List (BitvecCall × Nat)) (label : BitvecCall × Nat) :
    marksOf (labels ++ [label]) = (marksOf labels).after label := by
  rw [marksOf, List.foldl_append]
  rfl

theorem marksOf_sure {labels : List (BitvecCall × Nat)}
    (ok : ∀ label ∈ labels, label.2 = sqliteOk) :
    (marksOf labels).sure = (marksOf labels).possible := by
  induction labels using List.reverseRecOn with
  | nil => rfl
  | append_singleton labels label induction =>
      have same := induction fun other member => ok other (List.mem_append_left _ member)
      rw [marksOf_snoc]
      rcases label with ⟨call, rc⟩
      cases call with
      | set i =>
          have isOk : rc = sqliteOk := ok (.set i, rc) (by simp)
          rw [Marks.after, if_pos isOk, same]
      | clear i => rw [Marks.after, same]

section Histories

variable {mallocs : Nat → Bool} {size i : Nat} {p : Bitvec}

theorem sqlite3BitvecTest_iff (sound : p.Sound size) (shown : p.isNull = false)
    (small : size < 2 ^ 32) (isNumber : i < 2 ^ 32) :
    ∃ answer, sqlite3BitvecTest p i = some answer ∧
      (answer = true ↔ 1 ≤ i ∧ i ≤ size ∧ p.Has (i - 1)) := by
  rw [sqlite3BitvecTest, sound.iSize_eq shown]
  cases i with
  | zero =>
      have wrapped : size ≤ (0 + (2 ^ 32 - 1)) % 2 ^ 32 := by omega
      exact ⟨false, if_pos wrapped,
        iff_of_false Bool.false_ne_true fun bounds => Nat.not_succ_le_zero 0 bounds.1⟩
  | succ i =>
      have index : (i + 1 + (2 ^ 32 - 1)) % 2 ^ 32 = i := by omega
      simp only [index]
      by_cases beyond : size ≤ i
      · rw [if_pos beyond]
        exact ⟨false, rfl, iff_of_false Bool.false_ne_true fun bounds => by omega⟩
      · rw [if_neg beyond]
        rcases Bitvec.bitvecTest_iff sound (Nat.lt_of_not_le beyond) with ⟨answer, isAnswer, means⟩
        refine ⟨answer, isAnswer, means.trans ?_⟩
        rw [Nat.add_sub_cancel]
        exact ⟨fun has => ⟨Nat.le_add_left 1 i, Nat.lt_of_not_le beyond, has⟩,
          fun bounds => bounds.2.2⟩

def Marked (size : Nat) (p : Bitvec) : Set Nat := {i | 1 ≤ i ∧ i ≤ size ∧ p.Has (i - 1)}

/-- The structure holds what is surely set, and only what may be. -/
structure Knows (size : Nat) (marks : Marks) (p : Bitvec) : Prop where
  sound : p.Sound size
  shown : p.isNull = false
  sure : marks.sure ⊆ Marked size p
  possible : Marked size p ⊆ marks.possible

theorem Knows.call {marks : Marks} (knows : Knows size marks p) (mallocs : Nat → Bool) (calls : Nat)
    (call : BitvecCall) (positive : 1 ≤ call.bit) (within : call.bit ≤ size) :
    ∃ rc p' calls', bitvecCall mallocs (p, calls) call = some (rc, p', calls') ∧
      Knows size (marks.after (call, rc)) p' ∧
      ((∀ number, mallocs number = true) → rc = sqliteOk) := by
  cases call with
  | set i =>
      change 1 ≤ i at positive
      change i ≤ size at within
      have enough : p.need ≤ 2 * p.iSize + 1 := by
        rw [knows.sound.iSize_eq knows.shown]
        exact knows.sound.need_le
      have inRange : i - 1 < size := by omega
      rcases Bitvec.setsWith mallocs _ calls knows.sound knows.shown enough inRange with
        ⟨rc, p', calls', isSet, sets⟩
      refine ⟨rc, p', calls', isSet, ⟨sets.sound, sets.shown, ?_, ?_⟩, sets.allocated⟩
      · rw [Marks.after]
        split
        · rename_i isOk
          intro other member
          rcases Set.mem_insert_iff.mp member with rfl | before
          · exact ⟨positive, within, sets.noLess isOk _ (by omega) (Or.inl rfl)⟩
          · rcases knows.sure before with ⟨other0, otherIn, has⟩
            exact ⟨other0, otherIn, sets.noLess isOk _ (by omega) (Or.inr has)⟩
        · exact Set.empty_subset _
      · rintro other ⟨other0, otherIn, has⟩
        rcases sets.noMore _ (by omega) has with same | before
        · exact Set.mem_insert_iff.mpr (Or.inl (by omega))
        · exact Set.mem_insert_of_mem _ (knows.possible ⟨other0, otherIn, before⟩)
  | clear i =>
      change 1 ≤ i at positive
      change i ≤ size at within
      have inRange : i - 1 < size := by omega
      rcases Bitvec.bitvecClear_clears knows.sound inRange with ⟨p', isClear, clears⟩
      refine ⟨sqliteOk, p', calls, by rw [bitvecCall, sqlite3BitvecClear, isClear, Option.map_some],
        ⟨clears.sound, clears.isNull_eq.trans knows.shown, ?_, ?_⟩, fun _ => rfl⟩
      · rintro other ⟨before, apart⟩
        rcases knows.sure before with ⟨other0, otherIn, has⟩
        refine ⟨other0, otherIn, (clears.has_iff _ (by omega)).mpr ⟨fun same => apart ?_, has⟩⟩
        exact Set.mem_singleton_iff.mpr (by omega)
      · rintro other ⟨other0, otherIn, has⟩
        rcases (clears.has_iff _ (by omega)).mp has with ⟨differs, before⟩
        refine ⟨knows.possible ⟨other0, otherIn, before⟩, fun same => differs ?_⟩
        rw [Set.mem_singleton_iff.mp same]

theorem knows_create (small : size + bitvecNptr ≤ 2 ^ 32) :
    Knows size (marksOf []) (.create size) where
  sound := Bitvec.create_sound small
  shown := Bitvec.create_isNull size
  sure := Set.empty_subset _
  possible := fun _ member => absurd member.2.2 Bitvec.not_has_create

theorem trace_knows (small : size + bitvecNptr ≤ 2 ^ 32) {start : Nat}
    {labels : List (BitvecCall × Nat)} {state : Bitvec × Nat}
    (trace : Trace (BitvecStep mallocs size) (.create size, start) labels state) :
    Knows size (marksOf labels) state.1 ∧
      ((∀ number, mallocs number = true) → ∀ label ∈ labels, label.2 = sqliteOk) := by
  induction trace with
  | nil => exact ⟨knows_create small, fun _ label member => absurd member List.not_mem_nil⟩
  | @snoc labels label state state' _ stepped induction =>
      rcases stepped with ⟨positive, within, called⟩
      rcases induction.1.call mallocs state.2 label.1 positive within with
        ⟨rc, p', calls', called', knows, allocated⟩
      rw [called, Option.some.injEq, Prod.mk.injEq] at called'
      rcases called' with ⟨isRc, rfl⟩
      have isLabel : (label.1, rc) = label := Prod.ext rfl isRc.symm
      rw [isLabel] at knows
      refine ⟨by rwa [marksOf_snoc], fun allocates other member => ?_⟩
      rcases List.mem_append.mp member with before | last
      · exact induction.2 allocates other before
      · rw [List.mem_singleton.mp last, isRc]
        exact allocated allocates

/-- After any history of a `Bitvec`, whatever was allocated, every call about one of its bits
is defined, and a test of any number answers yes where the bit is surely set and only
where it may be. -/
theorem bitvec_history (small : size + bitvecNptr ≤ 2 ^ 32) {start : Nat}
    {labels : List (BitvecCall × Nat)} {state : Bitvec × Nat}
    (trace : Trace (BitvecStep mallocs size) (.create size, start) labels state) :
    (∀ call : BitvecCall, 1 ≤ call.bit → call.bit ≤ size →
      ∃ rc state', BitvecStep mallocs size state (call, rc) state') ∧
    ∀ i < 2 ^ 32, ∃ answer, sqlite3BitvecTest state.1 i = some answer ∧
      (i ∈ (marksOf labels).sure → answer = true) ∧
      (answer = true → i ∈ (marksOf labels).possible) ∧
      ((∀ number, mallocs number = true) → (answer = true ↔ i ∈ (marksOf labels).possible)) := by
  rcases trace_knows small trace with ⟨knows, allOk⟩
  constructor
  · intro call positive within
    rcases knows.call mallocs state.2 call positive within with
      ⟨rc, p', calls', called, _⟩
    exact ⟨rc, (p', calls'), positive, within, called⟩
  · intro i isNumber
    have below : size < 2 ^ 32 := Nat.lt_of_lt_of_le (Nat.lt_add_of_pos_right (by decide)) small
    rcases sqlite3BitvecTest_iff knows.sound knows.shown below isNumber with
      ⟨answer, isAnswer, means⟩
    refine ⟨answer, isAnswer, fun sure => means.mpr (knows.sure sure),
      fun yes => knows.possible (means.mp yes), fun allocates => ?_⟩
    rw [← marksOf_sure (allOk allocates)]
    refine ⟨fun yes => ?_, fun sure => means.mpr (knows.sure sure)⟩
    rw [marksOf_sure (allOk allocates)]
    exact knows.possible (means.mp yes)

/-- A bit set in a hash table is found there. -/
theorem bitvec_history_set :
    ∃ rc state, Trace (BitvecStep (fun _ => true) 5000) (.create 5000, 0) [(.set 4321, rc)] state ∧
      sqlite3BitvecTest state.1 4321 = some true ∧ sqlite3BitvecTest state.1 4320 = some false := by
  have small : 5000 + bitvecNptr ≤ 2 ^ 32 := by decide
  rcases (bitvec_history small Trace.nil).1 (.set 4321) (by decide) (by decide) with
    ⟨rc, state, stepped⟩
  have trace := Trace.nil.snoc stepped
  rcases (bitvec_history small trace).2 4321 (by decide) with ⟨set, isSet, _, _, isMarked⟩
  rcases (bitvec_history small trace).2 4320 (by decide) with ⟨other, isOther, _, noMore, _⟩
  have yes : set = true := (isMarked fun _ => rfl).mpr (Set.mem_insert _ _)
  have no : other = false := by
    rw [← Bool.not_eq_true]
    intro found
    rcases Set.mem_insert_iff.mp (noMore found) with same | absent
    · exact absurd same (by decide)
    · exact absent
  exact ⟨rc, state, trace, by rw [isSet, yes], by rw [isOther, no]⟩

end Histories

/-! ## Transactions -/

structure BitvecPager (JournalFile DbFile : Type) where
  pager : Pager JournalFile DbFile
  pInJournal : Bitvec
  calls : Nat

section Marking

variable {JournalFile DbFile : Type} (journal : IoMethods JournalFile)
  (database : IoMethods DbFile)

/-- The part of `pager_write` that adds a page to the journal that is not there. -/
def journalPageMarked (stack : Nat → Nat → UInt8) (mallocs : Nat → Bool)
    (state : BitvecPager JournalFile DbFile) (pgno : Nat) :
    Option (Nat × BitvecPager JournalFile DbFile) :=
  (sqlite3BitvecTest state.pInJournal pgno).bind fun isMarked =>
    if isMarked then
      some (sqliteOk, state)
    else if pgno ≤ state.pager.dbOrigSize then
      onOk (pagerAddPageToRollbackJournal journal stack state.pager pgno)
        (fun rc pager => (rc, { state with pager })) fun pager =>
          (sqlite3BitvecSet mallocs state.calls state.pInJournal pgno).map
            fun (rc, pInJournal, calls) => (rc, ⟨pager, pInJournal, calls⟩)
    else if state.pager.eState ≠ .writerDbmod then
      some (sqliteOk, { state with
        pager := state.pager.updatePage pgno fun pPg => { pPg with needSync := true } })
    else
      some (sqliteOk, state)

/-- `pager_write` of a page in the cache, where the journalled pages are in a `Bitvec`. -/
def pagerWriteMarked (random : Nat) (stack : Nat → Nat → UInt8) (mallocs : Nat → Bool)
    (state : BitvecPager JournalFile DbFile) (pgno : Nat) :
    Option (Nat × BitvecPager JournalFile DbFile) :=
  onOk (if state.pager.eState = .writerLocked then
      let made := sqlite3BitvecCreate mallocs state.calls state.pager.dbSize
      if made.1.isNull then some (sqliteNomem, { state with pInJournal := .null, calls := made.2 })
      else
        (pagerOpenJournal journal database random state.pager).map fun (rc, pager) =>
          (rc, ⟨pager, if rc ≠ sqliteOk then .null else made.1, made.2⟩)
    else some (sqliteOk, state)) Prod.mk fun state =>
      let dirty := { state with pager := state.pager.updatePage pgno PgHdr.makeDirty }
      onOk (journalPageMarked journal stack mallocs dirty pgno) Prod.mk fun state =>
        some (sqliteOk, { state with pager := state.pager.madeWriteable pgno })

def transactMarked (mallocs : Nat → Bool) (state : BitvecPager JournalFile DbFile) :
    Action → Option (Nat × BitvecPager JournalFile DbFile)
  | .write random stack pgno =>
      pagerWriteMarked journal database random stack mallocs state pgno
  | action =>
      (transact journal database state.pager action).map fun (rc, pager) =>
        (rc, { state with pager })

theorem addPage_marks {journal} {stack : Nat → Nat → UInt8}
    {pager pager' : Pager JournalFile DbFile} {pgno : Nat}
    (added : pagerAddPageToRollbackJournal journal stack pager pgno = some (sqliteOk, pager')) :
    pager'.pInJournal = fun other => if other = pgno then true else pager.pInJournal other := by
  simp only [pagerAddPageToRollbackJournal, Option.bind_eq_some_iff, onOk_eq_some] at added
  rcases added with ⟨pPg, _, ⟨first, _, second | wrong⟩ | wrong⟩
  · rcases second with ⟨second, _, ⟨third, _, written⟩ | wrong⟩
    · rw [Option.some.injEq, Prod.mk.injEq] at written
      rw [← written.2]
      rfl
    · rcases wrong with ⟨rc, jfd, _, notOk, isError⟩
      rw [Prod.mk.injEq] at isError
      exact absurd isError.1 notOk
  · rcases wrong with ⟨rc, jfd, _, notOk, isError⟩
    rw [Prod.mk.injEq] at isError
    exact absurd isError.1 notOk
  · rcases wrong with ⟨rc, jfd, _, notOk, isError⟩
    rw [Prod.mk.injEq] at isError
    exact absurd isError.1 notOk

end Marking

section Agreement

variable {DbFile : Type} {database : IoMethods DbFile} {Contains : DbFile → ByteFile → Prop}
  {origin file : ByteFile} {pageSize dbOrigSize : Nat} {list : List (Nat × Record)}
  {state : BitvecPager MemFile DbFile} {mallocs : Nat → Bool}

/-- The tests of the `Bitvec` answer for the journalled pages. -/
structure Answers (size : Nat) (p : Bitvec) (pInJournal : Nat → Bool) : Prop where
  sound : p.Sound size
  shown : p.isNull = false
  small : size + bitvecNptr ≤ 2 ^ 32
  tests : ∀ pgno < 2 ^ 32, sqlite3BitvecTest p pgno = some (pInJournal pgno)

theorem Answers.has_iff {size : Nat} {p : Bitvec} {pInJournal : Nat → Bool}
    (answers : Answers size p pInJournal) {pgno : Nat} (isNumber : pgno < 2 ^ 32) :
    pInJournal pgno = true ↔ 1 ≤ pgno ∧ pgno ≤ size ∧ p.Has (pgno - 1) := by
  have below : size < 2 ^ 32 :=
    Nat.lt_of_lt_of_le (Nat.lt_add_of_pos_right (by decide)) answers.small
  rcases sqlite3BitvecTest_iff answers.sound answers.shown below isNumber with
    ⟨answer, isAnswer, means⟩
  rw [answers.tests pgno isNumber, Option.some.injEq] at isAnswer
  rwa [isAnswer]

theorem Answers.of_has_iff {size : Nat} {p : Bitvec} {pInJournal : Nat → Bool}
    (sound : p.Sound size) (shown : p.isNull = false) (small : size + bitvecNptr ≤ 2 ^ 32)
    (means : ∀ pgno < 2 ^ 32, pInJournal pgno = true ↔
      1 ≤ pgno ∧ pgno ≤ size ∧ p.Has (pgno - 1)) : Answers size p pInJournal where
  sound := sound
  shown := shown
  small := small
  tests := by
    intro pgno isNumber
    have below : size < 2 ^ 32 := Nat.lt_of_lt_of_le (Nat.lt_add_of_pos_right (by decide)) small
    rcases sqlite3BitvecTest_iff sound shown below isNumber with ⟨answer, isAnswer, isMarked⟩
    rw [isAnswer, Option.some.injEq, Bool.eq_iff_iff, isMarked, means pgno isNumber]

theorem Answers.create {size : Nat} (small : size + bitvecNptr ≤ 2 ^ 32) {pInJournal : Nat → Bool}
    (none : ∀ pgno, pInJournal pgno = false) : Answers size (.create size) pInJournal := by
  apply Answers.of_has_iff (Bitvec.create_sound small) (Bitvec.create_isNull size) small
  intro pgno _
  rw [none]
  exact iff_of_false Bool.false_ne_true fun bounds => Bitvec.not_has_create bounds.2.2

theorem Answers.set {size : Nat} {p : Bitvec} {pInJournal : Nat → Bool}
    (answers : Answers size p pInJournal) (allocates : ∀ number, mallocs number = true)
    {pgno : Nat} (positive : 1 ≤ pgno) (within : pgno ≤ size) (calls : Nat) :
    ∃ p' calls', sqlite3BitvecSet mallocs calls p pgno = some (sqliteOk, p', calls') ∧
      Answers size p' fun other => if other = pgno then true else pInJournal other := by
  have enough : p.need ≤ 2 * p.iSize + 1 := by
    rw [answers.sound.iSize_eq answers.shown]
    exact answers.sound.need_le
  have inRange : pgno - 1 < size := by omega
  rcases Bitvec.setsWith mallocs _ calls answers.sound answers.shown enough inRange with
    ⟨rc, p', calls', isSet, sets⟩
  have isOk := sets.allocated allocates
  subst isOk
  refine ⟨p', calls', isSet, .of_has_iff sets.sound sets.shown answers.small ?_⟩
  intro other isNumber
  by_cases same : other = pgno
  · rw [if_pos same, same]
    exact iff_of_true rfl ⟨positive, within, sets.noLess rfl _ (by omega) (Or.inl rfl)⟩
  · rw [if_neg same, answers.has_iff isNumber]
    constructor
    · rintro ⟨other0, otherIn, has⟩
      exact ⟨other0, otherIn, sets.noLess rfl _ (by omega) (Or.inr has)⟩
    · rintro ⟨other0, otherIn, has⟩
      exact ⟨other0, otherIn, (sets.noMore _ (by omega) has).resolve_left (by omega)⟩

theorem journalPageMarked_eq (allocates : ∀ number, mallocs number = true)
    (answers : Answers state.pager.dbOrigSize state.pInJournal state.pager.pInJournal)
    {pgno : Nat} (positive : 1 ≤ pgno) (isNumber : pgno < 2 ^ 32) {stack : Nat → Nat → UInt8}
    {pager' : Pager MemFile DbFile}
    (journalled : journalPage memory stack state.pager pgno = some (sqliteOk, pager')) :
    ∃ p' calls', journalPageMarked memory stack mallocs state pgno =
        some (sqliteOk, ⟨pager', p', calls'⟩) ∧
      Answers state.pager.dbOrigSize p' pager'.pInJournal := by
  rw [journalPage] at journalled
  simp only [journalPageMarked, answers.tests pgno isNumber, Option.bind_some]
  cases isMarked : state.pager.pInJournal pgno with
  | true =>
      rw [isMarked, if_pos rfl, Option.some.injEq, Prod.mk.injEq] at journalled
      refine ⟨state.pInJournal, state.calls, ?_, journalled.2 ▸ answers⟩
      rw [if_pos rfl, ← journalled.2]
  | false =>
      rw [isMarked, if_neg Bool.false_ne_true] at journalled
      rw [if_neg Bool.false_ne_true]
      by_cases old : pgno ≤ state.pager.dbOrigSize
      · rw [if_pos old] at journalled ⊢
        rcases answers.set allocates positive old state.calls with ⟨p', calls', isSet, answers'⟩
        refine ⟨p', calls', ?_, ?_⟩
        · rw [journalled, onOk_ok, isSet, Option.map_some]
        · rw [addPage_marks journalled]
          exact answers'
      · rw [if_neg old] at journalled ⊢
        by_cases unspilled : state.pager.eState ≠ .writerDbmod
        · rw [if_pos unspilled, Option.some.injEq, Prod.mk.injEq] at journalled
          refine ⟨state.pInJournal, state.calls, ?_, ?_⟩
          · rw [if_pos unspilled, ← journalled.2]
          · rw [← journalled.2, Pager.updatePage]
            exact answers
        · rw [if_neg unspilled, Option.some.injEq, Prod.mk.injEq] at journalled
          refine ⟨state.pInJournal, state.calls, ?_, journalled.2 ▸ answers⟩
          rw [if_neg unspilled, ← journalled.2]

theorem pagerWriteMarked_eq (allocates : ∀ number, mallocs number = true)
    (opened : state.pager.eState ≠ .writerLocked)
    (answers : Answers state.pager.dbOrigSize state.pInJournal state.pager.pInJournal)
    {pgno : Nat} (numbered : Numbered state.pager.pageSize pgno) {random : Nat}
    {stack : Nat → Nat → UInt8} {pager' : Pager MemFile DbFile}
    (written : pagerWrite memory database random stack state.pager pgno =
      some (sqliteOk, pager')) :
    ∃ p' calls', pagerWriteMarked memory database random stack mallocs state pgno =
        some (sqliteOk, ⟨pager', p', calls'⟩) ∧
      Answers state.pager.dbOrigSize p' pager'.pInJournal := by
  rw [pagerWrite, if_neg opened, onOk_ok] at written
  rcases onOk_eq_some.mp written with ⟨added, journalled, isLast⟩ | ⟨rc, added, _, notOk, wrong⟩
  · rw [Option.some.injEq, Prod.mk.injEq] at isLast
    let dirty : BitvecPager MemFile DbFile :=
      { state with pager := state.pager.updatePage pgno PgHdr.makeDirty }
    have unchanged : Answers dirty.pager.dbOrigSize dirty.pInJournal dirty.pager.pInJournal :=
      answers
    rcases journalPageMarked_eq allocates unchanged (Nat.one_le_iff_ne_zero.mpr numbered.nonzero)
      (Nat.lt_of_le_of_lt numbered.small (by decide)) journalled with
      ⟨p', calls', isJournalled, answers'⟩
    refine ⟨p', calls', ?_, ?_⟩
    · rw [pagerWriteMarked, if_neg opened, onOk_ok]
      simp only [dirty] at isJournalled
      simp only [isJournalled, onOk_ok, isLast.2]
    · rw [← isLast.2]
      exact answers'
  · exact absurd (Prod.mk.inj wrong).1 notOk

theorem pagerWrite_locked {pager opened : Pager MemFile DbFile} {random pgno : Nat}
    {stack : Nat → Nat → UInt8} (isLocked : pager.eState = .writerLocked)
    (isOpened : pagerOpenJournal memory database random pager = some (sqliteOk, opened))
    (notLocked : opened.eState ≠ .writerLocked) :
    pagerWrite memory database random stack pager pgno =
      pagerWrite memory database random stack opened pgno := by
  rw [pagerWrite, pagerWrite, if_pos isLocked, if_neg notLocked, isOpened, onOk_ok]

theorem pagerWriteMarked_locked {opened : Pager MemFile DbFile} {random pgno : Nat}
    {stack : Nat → Nat → UInt8} (isLocked : state.pager.eState = .writerLocked)
    (allocates : mallocs state.calls = true)
    (isOpened : pagerOpenJournal memory database random state.pager = some (sqliteOk, opened))
    (notLocked : opened.eState ≠ .writerLocked) :
    pagerWriteMarked memory database random stack mallocs state pgno =
      pagerWriteMarked memory database random stack mallocs
        ⟨opened, .create state.pager.dbSize, state.calls + 1⟩ pgno := by
  rw [pagerWriteMarked, pagerWriteMarked, if_pos isLocked, if_neg notLocked, isOpened]
  simp only [sqlite3BitvecCreate, allocates, if_true, Bitvec.create_isNull, Bool.false_eq_true,
    if_false, Option.map_some, ne_eq, not_true_eq_false, onOk_ok]

structure Agrees (state : BitvecPager MemFile DbFile) : Prop where
  locked : state.pager.eState = .writerLocked →
    state.pager.dbSize = state.pager.dbOrigSize ∧ state.pInJournal = .null
  answers : state.pager.eState ≠ .writerLocked →
    Answers state.pager.dbOrigSize state.pInJournal state.pager.pInJournal

theorem Progress.bitvecSize {pager : Pager MemFile DbFile}
    (progress : Progress Contains origin pageSize dbOrigSize file list pager) :
    pager.dbOrigSize + bitvecNptr ≤ 2 ^ 32 := by
  have small := progress.smallSize
  rw [progress.based.isOrigSize, bitvecNptr_eq]
  omega

theorem Progress.unmarked {pager : Pager MemFile DbFile}
    (progress : Progress Contains origin pageSize dbOrigSize file [] pager) (pgno : Nat) :
    pager.pInJournal pgno = false := by
  rw [← Bool.not_eq_true, progress.isMarked_iff]
  rintro ⟨place, member, _⟩
  exact List.not_mem_nil member

theorem Agrees.tests (agrees : Agrees state)
    (progress : Progress Contains origin pageSize dbOrigSize file list state.pager) {pgno : Nat}
    (isNumber : pgno < 2 ^ 32) :
    sqlite3BitvecTest state.pInJournal pgno = some (state.pager.pInJournal pgno) := by
  by_cases locked : state.pager.eState = .writerLocked
  · have unlisted := List.prefix_nil.mp (progress.locked_prefix locked [])
    subst unlisted
    rw [(agrees.locked locked).2, progress.unmarked]
    rw [sqlite3BitvecTest]
    exact if_pos (Nat.zero_le _)
  · exact (agrees.answers locked).tests pgno isNumber

structure Pager.SameMarks (pager pager' : Pager MemFile DbFile) : Prop where
  pInJournal : pager'.pInJournal = pager.pInJournal
  dbOrigSize : pager'.dbOrigSize = pager.dbOrigSize
  locked : pager'.eState = .writerLocked ↔ pager.eState = .writerLocked
  dbSize : pager.eState = .writerLocked → pager'.dbSize = pager.dbSize

theorem Agrees.keep (agrees : Agrees state) {pager : Pager MemFile DbFile}
    (same : state.pager.SameMarks pager) : Agrees { state with pager } where
  locked isLocked := by
    have locked := same.locked.mp isLocked
    simp only [same.dbSize locked, same.dbOrigSize]
    exact agrees.locked locked
  answers opened := by
    simp only [same.dbOrigSize, same.pInJournal]
    exact agrees.answers fun locked => opened (same.locked.mpr locked)

theorem transact_sameMarks (law : DatabaseFile database Contains) {pager : Pager MemFile DbFile}
    (progress : Progress Contains origin pageSize dbOrigSize file list pager) {action : Action}
    (allowed : Allowed file pager action)
    (notWrite : ∀ random stack pgno, action ≠ .write random stack pgno) :
    ∃ rc pager', transact memory database pager action = some (rc, pager') ∧
      pager.SameMarks pager' := by
  have trivially : ∀ {pager' : Pager MemFile DbFile},
      (pager'.pInJournal, pager'.dbOrigSize, pager'.eState, pager'.dbSize) =
        (pager.pInJournal, pager.dbOrigSize, pager.eState, pager.dbSize) →
      pager.SameMarks pager' := by
    intro pager' same
    simp only [Prod.mk.injEq] at same
    exact ⟨same.1, same.2.1, by rw [same.2.2.1], fun _ => same.2.2.2⟩
  cases allowed with
  | @get mxPgno pData pgno inFile =>
      have positive := progress.phase.sizes.positive
      rcases getPageNormal_cases law progress.based positive mxPgno pData inFile with
        ⟨rc, pager', got, _, _, rfl | ⟨fd, dbFileVers, pPg, _, _, _, _, _, rfl⟩⟩
      · exact ⟨rc, _, got, trivially rfl⟩
      · exact ⟨rc, _, got, trivially rfl⟩
  | write _ _ _ => exact absurd rfl (notWrite _ _ _)
  | modify _ => exact ⟨_, _, rfl, trivially rfl⟩
  | dontWrite _ => exact ⟨_, _, rfl, trivially rfl⟩
  | @keep _ _ _ _ pPg cached keeps =>
      refine ⟨sqliteOk, pager, ?_, trivially rfl⟩
      rw [transact, pagerStress, cached, Option.bind_some, if_pos keeps]
  | spill cached dirty leaves room small inFile bounded =>
      rcases spill_progress law progress cached dirty leaves room small inFile bounded _ _ with
        ⟨pager', file', spilled, progress', opened'⟩
      have opened : pager.eState ≠ .writerLocked := by
        intro locked
        cases progress.phase with
        | locked _ _ _ _ clean =>
            rw [clean _ _ cached] at dirty
            cases dirty
        | writing isWriting _ _ _ => rcases isWriting with isWriting | isWriting <;>
            rw [locked] at isWriting <;> cases isWriting
      refine ⟨sqliteOk, pager', spilled, ?_,
        progress'.based.isOrigSize.trans progress.based.isOrigSize.symm,
        iff_of_false opened' opened, fun locked => absurd locked opened⟩
      funext other
      rw [Bool.eq_iff_iff, progress'.isMarked_iff, progress.isMarked_iff]
  | drop _ => exact ⟨_, _, rfl, trivially rfl⟩
  | needSync _ => exact ⟨_, _, rfl, trivially rfl⟩
  | doNotSpill _ => exact ⟨_, _, rfl, trivially rfl⟩

/-- An allowed action does with the `Bitvec` what it does with the set, and keeps their
agreement. -/
theorem transactMarked_eq (law : DatabaseFile database Contains)
    (allocates : ∀ number, mallocs number = true)
    (progress : Progress Contains origin pageSize dbOrigSize file list state.pager)
    (agrees : Agrees state) {action : Action} (allowed : Allowed file state.pager action) :
    ∃ rc state', transactMarked memory database mallocs state action = some (rc, state') ∧
      transact memory database state.pager action = some (rc, state'.pager) ∧ Agrees state' := by
  by_cases isWrite : ∃ random stack pgno, action = .write random stack pgno
  · rcases isWrite with ⟨random, stack, pgno, rfl⟩
    cases allowed with
    | write cached room small =>
        rcases Option.isSome_iff_exists.mp cached with ⟨pPg, isCached⟩
        have numbered := progress.based.numbered pgno pPg isCached
        rcases pagerWrite_progress law progress isCached room small stack with
          ⟨pager', list', isWritten, progress', _, _, written⟩
        have sameSize : pager'.dbOrigSize = state.pager.dbOrigSize :=
          progress'.based.isOrigSize.trans progress.based.isOrigSize.symm
        have marked : ∃ p' calls',
            pagerWriteMarked memory database random stack mallocs state pgno =
              some (sqliteOk, ⟨pager', p', calls'⟩) ∧
            Answers state.pager.dbOrigSize p' pager'.pInJournal := by
          by_cases isLocked : state.pager.eState = .writerLocked
          · rcases journalOpened_progress law progress isLocked small with
              ⟨opened, isOpened, progress₁, notLocked, _, _, same⟩
            simp only [Prod.mk.injEq] at same
            have sizes : opened.dbOrigSize = state.pager.dbOrigSize :=
              progress₁.based.isOrigSize.trans progress.based.isOrigSize.symm
            rw [pagerWriteMarked_locked isLocked (allocates _) isOpened notLocked, ← sizes]
            rw [pagerWrite_locked isLocked isOpened notLocked] at isWritten
            have isNew : Answers opened.dbOrigSize (.create state.pager.dbSize)
                opened.pInJournal := by
              rw [(agrees.locked isLocked).1, ← sizes]
              exact .create progress₁.bitvecSize progress₁.unmarked
            exact pagerWriteMarked_eq allocates notLocked isNew (same.2.2.2 ▸ numbered) isWritten
          · exact pagerWriteMarked_eq allocates isLocked (agrees.answers isLocked) numbered
              isWritten
        rcases marked with ⟨p', calls', isMarked, answers⟩
        refine ⟨sqliteOk, ⟨pager', p', calls'⟩, isMarked, isWritten,
          fun locked => absurd locked written.opened, fun _ => ?_⟩
        simp only [sameSize]
        exact answers
  · have notWrite : ∀ random stack pgno, action ≠ .write random stack pgno :=
      fun random stack pgno same => isWrite ⟨random, stack, pgno, same⟩
    rcases transact_sameMarks law progress allowed notWrite with ⟨rc, pager', acted, same⟩
    refine ⟨rc, { state with pager := pager' }, ?_, acted, agrees.keep same⟩
    have marked : transactMarked memory database mallocs state action =
        (transact memory database state.pager action).map fun (rc, pager) =>
          (rc, { state with pager }) := by
      cases action with
      | write random stack pgno => exact absurd rfl (notWrite random stack pgno)
      | _ => rfl
    rw [marked, acted, Option.map_some]

/-! ## Runs -/

/-- The machine of the actions of a transaction whose journalled pages are in a `Bitvec`. -/
def bitvecMachine (database : IoMethods DbFile) (mallocs : Nat → Bool) :
    Machine (BitvecPager MemFile DbFile) (PagerView MemFile DbFile) Action Nat where
  view state := ⟨state.pager, fun pgno => sqlite3BitvecTest state.pInJournal (pgno % 2 ^ 32)⟩
  step := transactMarked memory database mallocs

/-- A call whose actions are allowed, where the journalled pages are in a `Bitvec`. -/
structure MarkedStep (database : IoMethods DbFile) (Contains : DbFile → ByteFile → Prop)
    (mallocs : Nat → Bool) (state : BitvecPager MemFile DbFile) (call : Call)
    (state' : BitvecPager MemFile DbFile) : Prop where
  given : call.Given state.pager
  permitted : call.program.Permitted (bitvecMachine database mallocs)
    (fun state => AllowedOn Contains state.pager) state
  ran : ∃ rc, call.program.run (bitvecMachine database mallocs) state = some (rc, state')

structure Marking (Contains : DbFile → ByteFile → Prop) (origin : ByteFile)
    (start : Pager MemFile DbFile) (state : BitvecPager MemFile DbFile) : Prop where
  underWay : UnderWay Contains origin start state.pager
  agrees : Agrees state

theorem Marking.tests {start : Pager MemFile DbFile} (marking : Marking Contains origin start state)
    {pgno : Nat} (isNumber : pgno < 2 ^ 32) :
    sqlite3BitvecTest state.pInJournal pgno = some (state.pager.pInJournal pgno) := by
  rcases marking.underWay with ⟨file, list, progress⟩
  exact marking.agrees.tests progress isNumber

/-- Programs do with the `Bitvec` what they do with the set. -/
theorem marking_simulation (law : DatabaseFile database Contains)
    (allocates : ∀ number, mallocs number = true) (origin : ByteFile)
    (start : Pager MemFile DbFile) :
    Program.Simulation (bitvecMachine database mallocs) (pagerMachine database) BitvecPager.pager
      (Marking Contains origin start) (AllowedOn Contains) where
  views state marking := by
    simp only [bitvecMachine, pagerMachine, Pager.view, PagerView.mk.injEq, true_and]
    funext pgno
    exact marking.tests (Nat.mod_lt _ (by decide))
  steps state action marking allowed := by
    rcases marking.underWay with ⟨file, list, progress⟩
    rcases transactMarked_eq law allocates progress marking.agrees
      (allowed file progress.based.contains) with ⟨rc, state', acted, same, agrees'⟩
    rcases transact_onward law marking.underWay allowed with ⟨rc', pager', same', onward⟩
    rw [same, Option.some.injEq, Prod.mk.injEq] at same'
    exact ⟨rc, state', acted, same, same'.2 ▸ onward.underWay, agrees'⟩

/-- The start of a transaction, where `calls` calls of the allocator were made before. -/
def unmarked (start : Pager MemFile DbFile) (calls : Nat) : BitvecPager MemFile DbFile :=
  ⟨sqlite3PagerBegin start, .null, calls⟩

theorem MarkedStep.callStep (law : DatabaseFile database Contains)
    (allocates : ∀ number, mallocs number = true) {start : Pager MemFile DbFile}
    (marking : Marking Contains origin start state) {call : Call}
    {state' : BitvecPager MemFile DbFile}
    (stepped : MarkedStep database Contains mallocs state call state') :
    CallStep database Contains state.pager call state'.pager ∧
      Marking Contains origin start state' := by
  have simulation := marking_simulation law allocates origin start
  rcases simulation.run_eq marking stepped.permitted with ⟨same, kept⟩
  rcases stepped.ran with ⟨rc, ran⟩
  rw [ran, Option.map_some] at same
  exact ⟨⟨stepped.given, (simulation.permitted_iff marking).mp stepped.permitted, rc, same⟩,
    kept rc state' ran⟩

theorem Marking.exists_step (law : DatabaseFile database Contains)
    (allocates : ∀ number, mallocs number = true) {start : Pager MemFile DbFile}
    (marking : Marking Contains origin start state) {call : Call} {pager' : Pager MemFile DbFile}
    (stepped : CallStep database Contains state.pager call pager') :
    ∃ state', MarkedStep database Contains mallocs state call state' ∧ state'.pager = pager' := by
  have simulation := marking_simulation law allocates origin start
  have permitted := (simulation.permitted_iff marking).mpr stepped.permitted
  rcases stepped.ran with ⟨rc, ran⟩
  have same := (simulation.run_eq marking permitted).1
  rw [ran, eq_comm, Option.map_eq_some_iff] at same
  rcases same with ⟨⟨rc', state'⟩, isRun, isPager⟩
  exact ⟨state', ⟨stepped.given, permitted, rc', isRun⟩, (Prod.mk.inj isPager).2⟩

theorem trace_marked (law : DatabaseFile database Contains) {start : Pager MemFile DbFile}
    (reader : Reader Contains origin start) (allocates : ∀ number, mallocs number = true)
    {mallocated : Nat} {calls : List Call}
    (trace : Trace (MarkedStep database Contains mallocs) (unmarked start mallocated) calls state) :
    Trace (CallStep database Contains) (sqlite3PagerBegin start) calls state.pager ∧
      Marking Contains origin start state := by
  induction trace with
  | nil => exact ⟨.nil, reader.underWay, fun _ => ⟨rfl, rfl⟩, fun opened => absurd rfl opened⟩
  | @snoc calls call state state' _ stepped induction =>
      rcases induction with ⟨trace, marking⟩
      rcases stepped.callStep law allocates marking with ⟨stepped', marking'⟩
      exact ⟨trace.snoc stepped', marking'⟩

/-- A transaction that keeps the pages it has journalled in a `Bitvec` does what one with
a set of them does: every call of allowed actions is defined, every run is a run with the
set, and the tests of the `Bitvec` answer for the set. -/
theorem bitvec_transaction (law : DatabaseFile database Contains) {start : Pager MemFile DbFile}
    (reader : Reader Contains origin start) (allocates : ∀ number, mallocs number = true)
    {mallocated : Nat} {calls : List Call}
    (trace : Trace (MarkedStep database Contains mallocs) (unmarked start mallocated) calls state) :
    Trace (CallStep database Contains) (sqlite3PagerBegin start) calls state.pager ∧
      (∀ call : Call, call.Given state.pager →
        call.program.Permitted (bitvecMachine database mallocs)
          (fun state => AllowedOn Contains state.pager) state →
        ∃ state', MarkedStep database Contains mallocs state call state') ∧
      ∀ pgno < 2 ^ 32,
        sqlite3BitvecTest state.pInJournal pgno = some (state.pager.pInJournal pgno) := by
  rcases trace_marked law reader allocates trace with ⟨plain, marking⟩
  refine ⟨plain, fun call given permitted => ?_, fun pgno => marking.tests⟩
  have permitted' := ((marking_simulation law allocates origin start).permitted_iff marking).mp
    permitted
  rcases exists_callStep law marking.underWay given permitted' with ⟨pager', stepped⟩
  rcases marking.exists_step law allocates stepped with ⟨state', marked, _⟩
  exact ⟨state', marked⟩

theorem exists_markedTrace (law : DatabaseFile database Contains)
    {start pager : Pager MemFile DbFile} (reader : Reader Contains origin start)
    (allocates : ∀ number, mallocs number = true) (mallocated : Nat) {calls : List Call}
    (trace : Trace (CallStep database Contains) (sqlite3PagerBegin start) calls pager) :
    ∃ state, Trace (MarkedStep database Contains mallocs) (unmarked start mallocated) calls state ∧
      state.pager = pager := by
  induction trace with
  | nil => exact ⟨_, .nil, rfl⟩
  | @snoc calls call pager pager' _ stepped induction =>
      rcases induction with ⟨state, trace, rfl⟩
      rcases (trace_marked law reader allocates trace).2.exists_step law allocates stepped with
        ⟨state', stepped', isPager⟩
      exact ⟨state', trace.snoc stepped', isPager⟩

end Agreement

/-- A page is changed, and its bit answers for it. -/
theorem bitvec_transaction_page :
    ∃ state, Trace (MarkedStep (esp8266IoMethods pageFile) HoldsPageFile fun _ => true)
        (unmarked pageReader 0) pageCalls state ∧
      ∀ pgno < 2 ^ 32,
        sqlite3BitvecTest state.pInJournal pgno = some (state.pager.pInJournal pgno) := by
  rcases pageReader_calls with ⟨pager, plain, _⟩
  have allocates : ∀ number, (fun _ : Nat => true) number = true := fun _ => rfl
  rcases exists_markedTrace pageFile_databaseFile pageReader_reader allocates 0 plain with
    ⟨state, trace, _⟩
  exact ⟨state, trace,
    (bitvec_transaction pageFile_databaseFile pageReader_reader allocates trace).2.2⟩

end EspSqlite.Rollback
