import EspSqlite.Rollback.Recorded

/-! # The progress of a transaction

Every action of a transaction keeps its journal laid out, and the original pages
recorded in it. -/

namespace EspSqlite.Rollback

open Vfs (sqliteOk)
open Journal (BlockFile MemFile)

variable {DbFile : Type} {database : IoMethods DbFile} {Contains : DbFile → ByteFile → Prop}
  {origin file : ByteFile} {pageSize dbOrigSize : Nat} {list : List (Nat × Record)}
  {pager : Pager MemFile DbFile}

/-! ## Phases -/

inductive Phase (list : List (Nat × Record)) (pager : Pager MemFile DbFile) : Prop
  | locked (state : pager.eState = .writerLocked) (unlisted : list = [])
      (sizes : Sizes pager.pageSize pager.sectorSize) (empty : pager.jfd.Models .empty)
      (clean : ∀ pgno pPg, pager.pPCache pgno = some pPg → pPg.dirty = false)
  | writing {map : BlockFile} {start : Nat} {closed : List Segment} {records : List Record}
      (state : pager.eState = .writerCachemod ∨ pager.eState = .writerDbmod)
      (layout : Layout map start closed records pager)
      (isList : list = pager.places closed records) (bounded : pager.journalOff ≤ journalLimit)

structure Progress (Contains : DbFile → ByteFile → Prop) (origin : ByteFile)
    (pageSize dbOrigSize : Nat) (file : ByteFile) (list : List (Nat × Record))
    (pager : Pager MemFile DbFile) : Prop where
  based : Based Contains pageSize dbOrigSize file pager
  recorded : Recorded origin file list pager
  phase : Phase list pager

theorem Phase.sizes (phase : Phase list pager) : Sizes pager.pageSize pager.sectorSize := by
  cases phase with
  | locked _ _ sizes _ _ => exact sizes
  | writing _ layout _ _ => exact layout.sizes

theorem Phase.keep (phase : Phase list pager) {pager' : Pager MemFile DbFile}
    (same : pager'.journal = pager.journal) (sameState : pager'.eState = pager.eState)
    (clean : ∀ pgno pPg, pager'.pPCache pgno = some pPg → pPg.dirty = true →
      ∃ pPg, pager.pPCache pgno = some pPg ∧ pPg.dirty = true) : Phase list pager' := by
  have parts := same
  simp only [Pager.journal, Prod.mk.injEq] at parts
  rcases parts with ⟨sameFile, _, samePage, sameSector, _, sameHdr, sameOff, _⟩
  cases phase with
  | locked state unlisted sizes empty isClean =>
      refine .locked (sameState.trans state) unlisted (samePage ▸ sameSector ▸ sizes)
        (sameFile ▸ empty) fun pgno pPg cached => ?_
      rw [← Bool.not_eq_true]
      intro isDirty
      rcases clean pgno pPg cached isDirty with ⟨pPg', cached', isDirty'⟩
      rw [isClean pgno pPg' cached'] at isDirty'
      cases isDirty'
  | writing state layout isList bounded =>
      refine .writing (sameState ▸ state) (layout.congr same) (isList.trans ?_) (sameOff ▸ bounded)
      simp only [Pager.places, samePage, sameSector, sameHdr]

theorem dirty_insert {pgno : Nat} {pPg : Option PgHdr}
    (wasDirty : ∀ pPg', pPg = some pPg' → pPg'.dirty = true →
      ∃ pPg, pager.pPCache pgno = some pPg ∧ pPg.dirty = true) :
    ∀ other pPg', (pager.insertPage pgno pPg).pPCache other = some pPg' → pPg'.dirty = true →
      ∃ pPg, pager.pPCache other = some pPg ∧ pPg.dirty = true := by
  intro other pPg' cached isDirty
  by_cases same : other = pgno
  · subst same
    rw [insertPage_same] at cached
    exact wasDirty pPg' cached isDirty
  · rw [insertPage_other same] at cached
    exact ⟨pPg', cached, isDirty⟩

theorem dirty_insert_clean {pgno : Nat} {pPg : PgHdr} (clean : pPg.Clean) :
    ∀ other pPg', (pager.insertPage pgno (some pPg)).pPCache other = some pPg' →
      pPg'.dirty = true → ∃ pPg, pager.pPCache other = some pPg ∧ pPg.dirty = true :=
  dirty_insert fun _ isPage isDirty => by
    cases isPage
    rw [clean.dirty] at isDirty
    cases isDirty

/-! ## Fetching and dropping -/

theorem getPageNormal_cases (law : DatabaseFile database Contains)
    (based : Based Contains pageSize dbOrigSize file pager) (positive : 0 < pager.pageSize)
    (mxPgno : Nat)
    (pData : Nat → UInt8) {pgno : Nat}
    (inFile : pgno ≤ pager.dbSize → pgno * pager.pageSize ≤ file.size) :
    ∃ rc pager', getPageNormal database mxPgno pData pager pgno = some (rc, pager') ∧
      (rc = sqliteOk → (pager'.pPCache pgno).isSome = true) ∧
      (Numbered pager.pageSize pgno → pgno ≤ pager.dbSize → rc = sqliteOk) ∧
      (pager' = pager ∨ ∃ fd dbFileVers pPg, pager.pPCache pgno = none ∧
        Numbered pager.pageSize pgno ∧ Contains fd file ∧ pPg.Clean ∧
        (pgno ≤ pager.dbSize → HoldsPage pager.pageSize file pgno pPg.pData) ∧
        pager' = { pager.insertPage pgno (some pPg) with fd, dbFileVers }) := by
  rw [getPageNormal]
  by_cases zero : pgno = 0
  · exact ⟨_, pager, if_pos zero, nofun, fun numbered => absurd zero numbered.nonzero, Or.inl rfl⟩
  rw [if_neg zero]
  by_cases hit : (pager.pPCache pgno).isSome = true
  · exact ⟨_, pager, if_pos hit, fun _ => hit, fun _ _ => rfl, Or.inl rfl⟩
  rw [if_neg hit]
  by_cases illegal : pgno > pagerMaxPgno ∨ pgno = pagerMjPgno pager.pageSize
  · refine ⟨_, pager, if_pos illegal, nofun, fun numbered => ?_, Or.inl rfl⟩
    rcases illegal with large | pending
    · exact absurd large (Nat.not_lt.mpr numbered.small)
    · exact absurd pending numbered.notPending
  rw [if_neg illegal]
  have absent : pager.pPCache pgno = none := Option.not_isSome_iff_eq_none.mp hit
  rw [not_or] at illegal
  have numbered : Numbered pager.pageSize pgno := ⟨zero, illegal.2, Nat.not_lt.mp illegal.1⟩
  by_cases beyond : pager.dbSize < pgno
  · rw [if_pos beyond]
    by_cases full : pgno > mxPgno
    · exact ⟨_, pager, if_pos full, nofun, fun _ inside => absurd beyond (Nat.not_lt.mpr inside),
        Or.inl rfl⟩
    · exact ⟨_, _, if_neg full, fun _ => by rw [insertPage_same]; rfl, fun _ _ => rfl,
        Or.inr ⟨pager.fd, pager.dbFileVers, _, absent, numbered, based.contains, ⟨rfl, rfl⟩,
          fun inside => absurd beyond (Nat.not_lt.mpr inside), rfl⟩⟩
  · rw [if_neg beyond]
    have inside := Nat.not_lt.mp beyond
    have fits := inFile inside
    have isNext : (pgno - 1) * pager.pageSize + pager.pageSize = pgno * pager.pageSize := by
      rw [← Nat.succ_mul, Nat.succ_eq_add_one, Nat.sub_add_cancel (Nat.one_le_iff_ne_zero.mpr zero)]
    have small := based.small
    have whole : (pgno - 1) * pager.pageSize + pager.pageSize ≤ file.size := by omega
    rcases law.read pData based.contains positive whole (Nat.lt_of_le_of_lt whole small) with
      ⟨fd, read, contains⟩
    refine ⟨sqliteOk, _, ?_, fun _ => ?_, fun _ _ => rfl, Or.inr ⟨fd,
      if pgno = 1 then memcpy pager.dbFileVers 0 (fun index =>
        file.read ((pgno - 1) * pager.pageSize) pager.pageSize pData (24 + index)) 16
      else pager.dbFileVers,
      .fetched (file.read ((pgno - 1) * pager.pageSize) pager.pageSize pData), absent, numbered,
      contains, ⟨rfl, rfl⟩, fun _ index inPage => ?_, rfl⟩⟩
    · rw [readDbPage, read]
      rfl
    · rw [insertPage_same]
      rfl
    · exact ByteFile.read_inside inPage

/-! ## Journalling and changing -/

theorem Based.keep (based : Based Contains pageSize dbOrigSize file pager)
    {pager' : Pager MemFile DbFile}
    (contains : Contains pager'.fd file) (samePage : pager'.pageSize = pager.pageSize)
    (sameSize : pager'.dbOrigSize = pager.dbOrigSize) (grown : pager.dbSize ≤ pager'.dbSize)
    (numbered : ∀ pgno pPg, pager'.pPCache pgno = some pPg → Numbered pager.pageSize pgno) :
    Based Contains pageSize dbOrigSize file pager' where
  isPageSize := samePage.trans based.isPageSize
  isOrigSize := sameSize.trans based.isOrigSize
  contains := contains
  small := based.small
  fits := by
    rw [samePage, sameSize]
    exact based.fits
  grown := by
    rw [sameSize]
    exact Nat.le_trans based.grown grown
  numbered := by
    rw [samePage]
    exact numbered

theorem Based.numbered_insert (based : Based Contains pageSize dbOrigSize file pager) {pgno : Nat}
    (numbered : Numbered pager.pageSize pgno) {pPg : Option PgHdr} :
    ∀ other pPg', (pager.insertPage pgno pPg).pPCache other = some pPg' →
      Numbered pager.pageSize other := by
  intro other pPg' cached
  by_cases same : other = pgno
  · exact same ▸ numbered
  · rw [insertPage_other same] at cached
    exact based.numbered other pPg' cached

structure Pager.Written (pager pager' : Pager MemFile DbFile) (pgno : Nat) : Prop where
  opened : pager'.eState ≠ .writerLocked
  writeable : ∃ pPg, pager'.pPCache pgno = some pPg ∧ pPg.writeable = true
  others : ∀ other, other ≠ pgno → pager'.pPCache other = pager.pPCache other
  journalOff : pager'.journalOff ≤ pager.journalOff +
    (if pager.eState = .writerLocked then pager.sectorSize else 0) + journalPgSz pager.pageSize
  dbSize : pager'.dbSize = max pager.dbSize pgno
  sectorSize : pager'.sectorSize = pager.sectorSize

theorem journalPage_progress
    (progress : Progress Contains origin pageSize dbOrigSize file list pager)
    (opened : pager.eState ≠ .writerLocked) {pgno : Nat} {pPg : PgHdr}
    (cached : pager.pPCache pgno = some pPg)
    (bounded : pager.pInJournal pgno = false →
      pager.journalOff + journalPgSz pager.pageSize ≤ journalLimit)
    (stack : Nat → Nat → UInt8) :
    ∃ pager' list', journalPage memory stack (pager.updatePage pgno PgHdr.makeDirty) pgno =
        some (sqliteOk, pager') ∧
      Progress Contains origin pageSize dbOrigSize file list' pager' ∧ list <+: list' ∧
      (pgno ≤ pager'.dbOrigSize → Listed list' pgno) ∧
      (∃ pPg', pager'.pPCache pgno = some pPg' ∧ pPg'.dirty = true) ∧
      (∀ other, other ≠ pgno → pager'.pPCache other = pager.pPCache other) ∧
      pager'.journalOff ≤ pager.journalOff + journalPgSz pager.pageSize ∧
      (pager'.eState, pager'.dbSize, pager'.sectorSize) =
        (pager.eState, pager.dbSize, pager.sectorSize) := by
  have numbered := progress.based.numbered pgno pPg cached
  have recorded := progress.recorded
  have based : ∀ {pPg' : PgHdr}, Based Contains pageSize dbOrigSize file
      (pager.insertPage pgno (some pPg')) :=
    progress.based.keep progress.based.contains rfl rfl (Nat.le_refl _)
      (progress.based.numbered_insert numbered)
  cases progress.phase with
  | locked state _ _ _ _ => exact absurd state opened
  | @writing map start closed records state layout isList inside =>
      rw [updatePage_cached cached, journalPage]
      cases marked : pager.pInJournal pgno with
      | true =>
          have listed := recorded.listed pgno marked
          exact ⟨_, list, if_pos marked, ⟨based, recorded.change cached (fun _ => listed) id rfl,
            .writing state (layout.congr rfl) isList inside⟩, List.prefix_rfl, fun _ => listed,
            ⟨_, insertPage_same _, rfl⟩, fun _ differs => if_neg differs, Nat.le_add_right _ _, rfl⟩
      | false =>
          have unmarked : ¬(pager.insertPage pgno (some pPg.makeDirty)).pInJournal pgno = true := by
            rw [Bool.not_eq_true]
            exact marked
          rw [if_neg unmarked]
          by_cases old : pgno ≤ pager.dbOrigSize
          · have isSmall : pgno < 2 ^ 32 := Nat.lt_of_le_of_lt numbered.small (by decide)
            have dirtied : Layout map start closed records
                (pager.insertPage pgno (some pPg.makeDirty)) := layout.congr rfl
            rcases dirtied.addPage (bounded marked) ⟨numbered.nonzero, isSmall⟩ (insertPage_same _)
              stack with ⟨jfd, map', added, layout'⟩
            simp only [Pager.recorded, updatePage_cached (insertPage_same _),
              insertPage_insertPage] at added layout'
            let waiting : PgHdr := { pPg.makeDirty with needSync := true }
            have isDirty : waiting.dirty = true := rfl
            have isWaiting : waiting.needSync = true := rfl
            have appended := recorded.append cached numbered old marked isDirty isWaiting
              pager.journalOff jfd (pager.journalOff + (8 + pager.pageSize)) (pager.nRec + 1)
            have bounded' : pager.journalOff + (8 + pager.pageSize) ≤ journalLimit := by
              rw [Nat.add_comm 8]
              exact bounded marked
            refine ⟨_, list ++ [(pager.journalOff, ⟨pgno, pPg.pData⟩)], (if_pos old).trans added,
              ⟨progress.based.keep progress.based.contains rfl rfl (Nat.le_refl _)
                (progress.based.numbered_insert numbered), appended,
                .writing state layout' ?_ bounded'⟩,
              List.prefix_append _ _,
              fun _ => ⟨_, List.mem_append_right _ List.mem_cons_self, rfl⟩,
              ⟨waiting, if_pos rfl, rfl⟩, fun _ differs => if_neg differs, ?_, rfl⟩
            · rw [isList]
              exact (layout.places_snoc _).symm
            · rw [journalPgSz, Nat.add_comm 8]
              exact Nat.le_refl _
          · have isNew : ¬pgno ≤ (pager.insertPage pgno (some pPg.makeDirty)).dbOrigSize := old
            rw [if_neg isNew]
            have absent : pgno ≤ pager.dbOrigSize → Listed list pgno :=
              fun inside => absurd inside old
            by_cases unspilled : pager.eState ≠ .writerDbmod
            · have isUnspilled :
                  (pager.insertPage pgno (some pPg.makeDirty)).eState ≠ .writerDbmod := unspilled
              rw [if_pos isUnspilled,
                updatePage_cached (insertPage_same _), insertPage_insertPage]
              exact ⟨_, list, rfl, ⟨based, recorded.change cached absent (fun _ => rfl) rfl,
                .writing state (layout.congr rfl) isList inside⟩, List.prefix_rfl, absent,
                ⟨_, insertPage_same _, rfl⟩, fun _ differs => if_neg differs,
                Nat.le_add_right _ _, rfl⟩
            · have isSpilled :
                  ¬(pager.insertPage pgno (some pPg.makeDirty)).eState ≠ .writerDbmod := unspilled
              rw [if_neg isSpilled]
              exact ⟨_, list, rfl, ⟨based, recorded.change cached absent id rfl,
                .writing state (layout.congr rfl) isList inside⟩, List.prefix_rfl, absent,
                ⟨_, insertPage_same _, rfl⟩, fun _ differs => if_neg differs,
                Nat.le_add_right _ _, rfl⟩

theorem Progress.flag (progress : Progress Contains origin pageSize dbOrigSize file list pager)
    {pgno : Nat} {pPg pPg' : PgHdr} (cached : pager.pPCache pgno = some pPg)
    (sameData : pPg'.pData = pPg.pData) (sameDirty : pPg'.dirty = pPg.dirty)
    (stillWaits : pPg.needSync = true → pPg'.needSync = true)
    (isDirty : pPg'.writeable = true → pPg'.dirty = true) :
    Progress Contains origin pageSize dbOrigSize file list
      (pager.insertPage pgno (some pPg')) where
  based := progress.based.keep progress.based.contains rfl rfl (Nat.le_refl _)
    (progress.based.numbered_insert (progress.based.numbered pgno pPg cached))
  recorded := progress.recorded.flag cached sameData sameDirty stillWaits isDirty
  phase := progress.phase.keep rfl rfl (dirty_insert fun pPg₁ isPage dirty₁ => by
    cases isPage
    exact ⟨pPg, cached, sameDirty.symm.trans dirty₁⟩)

theorem Progress.modify (progress : Progress Contains origin pageSize dbOrigSize file list pager)
    {pgno : Nat} {pPg : PgHdr} (cached : pager.pPCache pgno = some pPg)
    (isDirty : pPg.dirty = true) (pData : Nat → UInt8) :
    Progress Contains origin pageSize dbOrigSize file list
      (pager.insertPage pgno (some { pPg with pData })) where
  based := progress.based.keep progress.based.contains rfl rfl (Nat.le_refl _)
    (progress.based.numbered_insert (progress.based.numbered pgno pPg cached))
  recorded := progress.recorded.change cached
    (progress.recorded.dirty pgno pPg cached isDirty) id isDirty
  phase := progress.phase.keep rfl rfl (dirty_insert fun _ _ _ => ⟨pPg, cached, isDirty⟩)

theorem Progress.madeWriteable
    (progress : Progress Contains origin pageSize dbOrigSize file list pager) {pgno : Nat}
    {pPg : PgHdr} (cached : pager.pPCache pgno = some pPg) (isDirty : pPg.dirty = true) :
    Progress Contains origin pageSize dbOrigSize file list (pager.madeWriteable pgno) := by
  rw [Pager.madeWriteable, updatePage_cached cached]
  let permitted : PgHdr := { pPg with writeable := true }
  have sameData : permitted.pData = pPg.pData := rfl
  have flagged := progress.flag cached sameData rfl id fun _ => isDirty
  have grown : pager.dbSize ≤ if pager.dbSize < pgno then pgno else pager.dbSize := by
    split <;> omega
  exact ⟨flagged.based.keep flagged.based.contains rfl rfl grown flagged.based.numbered,
    { flagged.recorded with }, flagged.phase.keep rfl rfl fun _ pPg' cached' isDirty' =>
      ⟨pPg', cached', isDirty'⟩⟩

theorem pagerWrite_journals (database : IoMethods DbFile)
    (progress : Progress Contains origin pageSize dbOrigSize file list pager)
    (opened : pager.eState ≠ .writerLocked) {pgno : Nat} {pPg : PgHdr}
    (cached : pager.pPCache pgno = some pPg)
    (bounded : pager.pInJournal pgno = false →
      pager.journalOff + journalPgSz pager.pageSize ≤ journalLimit)
    (random : Nat) (stack : Nat → Nat → UInt8) :
    ∃ pager' list', pagerWrite memory database random stack pager pgno = some (sqliteOk, pager') ∧
      Progress Contains origin pageSize dbOrigSize file list' pager' ∧ list <+: list' ∧
      (pgno ≤ pager'.dbOrigSize → Listed list' pgno) ∧ pager.Written pager' pgno := by
  rcases journalPage_progress progress opened cached bounded stack with
    ⟨journalled, list', added, progress', grown, listed, ⟨pPg', cached', isDirty⟩, others, atMost,
      same⟩
  simp only [Prod.mk.injEq] at same
  rcases same with ⟨sameState, sameSize, sameSector⟩
  refine ⟨journalled.madeWriteable pgno, list', ?_, progress'.madeWriteable cached' isDirty, grown,
    listed, sameState ▸ opened, ⟨{ pPg' with writeable := true }, ?_, rfl⟩,
    fun other differs => (if_neg differs).trans (others other differs), ?_, ?_, sameSector⟩
  · rw [pagerWrite, if_neg opened, onOk_ok, added, onOk_ok]
  · simp only [Pager.madeWriteable, updatePage_cached cached', insertPage_same]
  · rw [if_neg opened, Nat.add_zero]
    exact atMost
  · simp only [Pager.madeWriteable, sameSize]
    split <;> omega

theorem journalOpened_progress (law : DatabaseFile database Contains)
    (progress : Progress Contains origin pageSize dbOrigSize file list pager)
    (isLocked : pager.eState = .writerLocked) {random : Nat} (small : random < 2 ^ 32) :
    ∃ pager', pagerOpenJournal memory database random pager = some (sqliteOk, pager') ∧
      Progress Contains origin pageSize dbOrigSize file [] pager' ∧ pager'.eState ≠ .writerLocked ∧
      pager'.journalOff + journalPgSz pager'.pageSize ≤ journalLimit ∧
      pager'.journalOff = pager.sectorSize ∧
      (pager'.pPCache, pager'.dbSize, pager'.sectorSize, pager'.pageSize) =
        (pager.pPCache, pager.dbSize, pager.sectorSize, pager.pageSize) := by
  cases progress.phase with
  | writing state _ _ _ =>
      rcases state with state | state <;> rw [isLocked] at state <;> cases state
  | locked state unlisted sizes empty clean =>
      subst unlisted
      have recorded := progress.recorded
      rcases pagerOpenJournal_lays (law.plain pager.fd) sizes empty small with
        ⟨jfd, pTmpSpace, map, opened, layout⟩
      have room : pager.sectorSize + journalPgSz pager.pageSize ≤ journalLimit := by
        have sector := sizes.sector.le
        have page := sizes.page.le
        simp only [journalPgSz, journalLimit, Journal.cacheBlockSz]
        omega
      refine ⟨_, opened, ⟨progress.based.keep progress.based.contains rfl rfl (Nat.le_refl _)
        progress.based.numbered, ?_, ?_⟩, ?_, room, rfl, rfl⟩
      · constructor
        case valid => exact recorded.valid
        case original => exact recorded.original
        case inJournal => exact fun place member => absurd member List.not_mem_nil
        case listed => exact fun pgno marked => absurd marked Bool.false_ne_true
        case inFile =>
          intro pgno nonzero inside
          apply (recorded.inFile pgno nonzero inside).imp_right
          rintro ⟨place, member, _⟩
          exact absurd member List.not_mem_nil
        case inCache => exact recorded.inCache
        case waiting => exact fun place member => absurd member List.not_mem_nil
        case dirty => exact recorded.dirty
        case writeable => exact recorded.writeable
      · exact .writing (.inl rfl) layout rfl (Nat.le_trans (Nat.le_add_right _ _) room)
      · simp only [Pager.journalOpened, ne_eq, reduceCtorEq, not_false_eq_true]

theorem Progress.isMarked_iff
    (progress : Progress Contains origin pageSize dbOrigSize file list pager) (pgno : Nat) :
    pager.pInJournal pgno = true ↔ Listed list pgno := by
  constructor
  · exact progress.recorded.listed pgno
  · rintro ⟨place, member, rfl⟩
    exact progress.recorded.inJournal place member

theorem Progress.locked_prefix
    (progress : Progress Contains origin pageSize dbOrigSize file list pager)
    (locked : pager.eState = .writerLocked) (list' : List (Nat × Record)) : list <+: list' := by
  cases progress.phase with
  | locked _ unlisted _ _ _ =>
      subst unlisted
      exact List.nil_prefix
  | writing state _ _ _ => rcases state with state | state <;> rw [locked] at state <;> cases state

theorem pagerWrite_progress (law : DatabaseFile database Contains)
    (progress : Progress Contains origin pageSize dbOrigSize file list pager) {pgno : Nat}
    {pPg : PgHdr} (cached : pager.pPCache pgno = some pPg)
    (bounded : pager.pInJournal pgno = false →
      pager.journalOff + journalPgSz pager.pageSize ≤ journalLimit) {random : Nat}
    (small : random < 2 ^ 32) (stack : Nat → Nat → UInt8) :
    ∃ pager' list', pagerWrite memory database random stack pager pgno = some (sqliteOk, pager') ∧
      Progress Contains origin pageSize dbOrigSize file list' pager' ∧ list <+: list' ∧
      (pgno ≤ pager'.dbOrigSize → Listed list' pgno) ∧ pager.Written pager' pgno := by
  by_cases locked : pager.eState = .writerLocked
  · rcases journalOpened_progress law progress locked small with
      ⟨pager₁, journalOpened, progress₁, opened, atMost, isOff, same⟩
    simp only [Prod.mk.injEq] at same
    rcases same with ⟨sameCache, sameSize, sameSector, samePage⟩
    rw [← sameCache] at cached
    rcases pagerWrite_journals database progress₁ opened cached (fun _ => atMost) random stack with
      ⟨pager', list', isWritten, progress', _, listed, written⟩
    refine ⟨pager', list', ?_, progress', progress.locked_prefix locked list', listed,
      written.opened, written.writeable, sameCache ▸ written.others, ?_, sameSize ▸ written.dbSize,
      written.sectorSize.trans sameSector⟩
    · rw [pagerWrite, if_neg opened, onOk_ok] at isWritten
      rw [pagerWrite, if_pos locked, journalOpened, onOk_ok]
      exact isWritten
    · have added := written.journalOff
      rw [if_neg opened, isOff, samePage] at added
      rw [if_pos locked]
      omega
  · exact pagerWrite_journals database progress locked cached bounded random stack

/-! ## Spilling -/

theorem syncJournal_progress (law : DatabaseFile database Contains)
    (progress : Progress Contains origin pageSize dbOrigSize file list pager)
    (opened : pager.eState ≠ .writerLocked)
    (room : journalHdrOffset pager.sectorSize pager.journalOff + pager.sectorSize ≤ journalLimit)
    {random : Nat} (small : random < 2 ^ 32) (stack : Nat → Nat → UInt8)
    (zerobyte : Nat → UInt8) :
    ∃ pager', syncJournal memory database random stack zerobyte pager true =
        some (sqliteOk, pager') ∧
      Progress Contains origin pageSize dbOrigSize file list pager' ∧ pager'.eState = .writerDbmod ∧
      pager'.pPCache = (synced pager).pPCache ∧ pager'.pageSize = pager.pageSize := by
  have numbered : ∀ pgno pPg, (synced pager).pPCache pgno = some pPg →
      Numbered pager.pageSize pgno := by
    intro pgno pPg cached
    rcases Option.map_eq_some_iff.mp cached with ⟨pPg', cached', _⟩
    exact progress.based.numbered pgno pPg' cached'
  cases progress.phase with
  | locked state _ _ _ _ => exact absurd state opened
  | @writing map start closed records state layout isList inside =>
      cases noSync : pager.noSync with
      | true =>
          refine ⟨synced pager, syncJournal_noSync noSync _ _ _ _,
            ⟨progress.based.keep progress.based.contains rfl rfl (Nat.le_refl _) numbered,
              progress.recorded.sync rfl rfl rfl rfl fun place _ => ?_,
              .writing (.inr rfl) (layout.congr rfl) isList inside⟩, rfl, rfl, rfl⟩
          simp only [Pager.stores, synced, PagerState.mayWrite, noSync, Bool.true_or, Bool.and_true]
      | false =>
          rcases layout.sync (law.plain pager.fd) noSync room small stack zerobyte with
            ⟨jfd, pTmpSpace, map', synced, layout'⟩
          have sameList : list = (pager.resumed random jfd pTmpSpace).places
              (closed ++ [⟨records.length, pager.cksumInit, records⟩]) [] := by
            rw [isList, ← layout.places_eq ⟨records.length, pager.cksumInit, records⟩ rfl]
            exact (List.append_nil _).symm
          refine ⟨_, synced, ⟨progress.based.keep progress.based.contains rfl rfl (Nat.le_refl _)
            numbered, progress.recorded.sync rfl rfl rfl rfl fun place member => ?_,
            .writing (.inr rfl) layout' sameList room⟩, rfl, rfl, rfl⟩
          have before := layout.le_of_mem (isList ▸ member)
          have after := (journalHdrOffset_bounds layout.sizes.sector pager.journalOff).1
          have inside : place.1 + journalPgSz pager.pageSize ≤
              journalHdrOffset pager.sectorSize pager.journalOff := Nat.le_trans before after
          simp only [Pager.stores, Pager.resumed, Rollback.synced, Pager.headed,
            PagerState.mayWrite, inside, decide_true, Bool.or_true, Bool.and_true]

theorem writeClean_progress (law : DatabaseFile database Contains)
    (progress : Progress Contains origin pageSize dbOrigSize file list pager) {pgno : Nat}
    {pPg : PgHdr} (cached : pager.pPCache pgno = some pPg)
    (isDirty : pPg.dirty = true) (isSynced : pPg.needSync = false)
    (inFile : (pgno - 1) * pager.pageSize ≤ file.size)
    (bounded : (pgno - 1) * pager.pageSize + pager.pageSize < 2 ^ 31) :
    ∃ pager' file', onOk (pagerWritePagelist database pager pgno) Prod.mk (fun pager =>
        some (sqliteOk, pager.updatePage pgno PgHdr.makeClean)) = some (sqliteOk, pager') ∧
      Progress Contains origin pageSize dbOrigSize file' list pager' ∧
      pager'.eState = pager.eState := by
  have numbered := progress.based.numbered pgno pPg cached
  have positive := progress.phase.sizes.positive
  rw [pagerWritePagelist, cached, Option.bind_some]
  by_cases inside : pgno ≤ pager.dbSize ∧ pPg.dontWrite = false
  · rw [if_pos inside]
    generalize isData : (if pgno = 1 then pagerWriteChangecounter pager.dbFileVers pPg.pData
      else pPg.pData) = pData
    rcases law.write pData progress.based.contains positive inFile bounded with
      ⟨fd, written, contains⟩
    let pPg' : PgHdr := { pPg.makeClean with pData }
    let dbFileVers :=
      if pgno = 1 then memcpy pager.dbFileVers 0 (fun index => pData (24 + index)) 16
      else pager.dbFileVers
    let dbFileSize := if pgno > pager.dbFileSize then pgno else pager.dbFileSize
    refine ⟨{ pager.insertPage pgno (some pPg') with fd, dbFileVers, dbFileSize },
      file.write ((pgno - 1) * pager.pageSize) pager.pageSize pData, ?_,
      ⟨⟨progress.based.isPageSize, progress.based.isOrigSize, contains, ?_, ?_,
        progress.based.grown, progress.based.numbered_insert numbered⟩, ?_, ?_⟩, rfl⟩
    · simp only [updatePage_cached cached]
      rw [show database.xWrite (pager.insertPage pgno _).fd pData (pager.insertPage pgno _).pageSize
        ((pgno - 1) * (pager.insertPage pgno _).pageSize) = _ from written, Option.map_some,
        onOk_ok]
      simp only [Pager.insertPage, Pager.updatePage]
      congr
      funext other
      split <;> rfl
    · have small := progress.based.small
      simp only [ByteFile.write]
      omega
    · exact Nat.le_trans progress.based.fits (Nat.le_max_left _ _)
    · exact progress.recorded.spill (fun other nonzero differs same =>
        same.write nonzero numbered.nonzero differs pData) cached isDirty isSynced ⟨rfl, rfl⟩ fd _ _
    · exact progress.phase.keep rfl rfl (dirty_insert_clean ⟨rfl, rfl⟩)
  · rw [if_neg inside, onOk_ok, updatePage_cached cached]
    refine ⟨pager.insertPage pgno (some pPg.makeClean), file, rfl,
      ⟨progress.based.keep progress.based.contains rfl rfl (Nat.le_refl _)
        (progress.based.numbered_insert numbered), ?_, ?_⟩, rfl⟩
    · exact progress.recorded.spill (fun _ _ _ => id) cached isDirty isSynced ⟨rfl, rfl⟩ pager.fd
        pager.dbFileVers pager.dbFileSize
    · exact progress.phase.keep rfl rfl (dirty_insert_clean ⟨rfl, rfl⟩)

theorem spill_progress (law : DatabaseFile database Contains)
    (progress : Progress Contains origin pageSize dbOrigSize file list pager) {pgno : Nat}
    {pPg : PgHdr}
    (cached : pager.pPCache pgno = some pPg) (isDirty : pPg.dirty = true)
    (leaves : pager.keeps pPg = false)
    (room : journalHdrOffset pager.sectorSize pager.journalOff + pager.sectorSize ≤ journalLimit)
    {random : Nat} (small : random < 2 ^ 32)
    (inFile : (pgno - 1) * pager.pageSize ≤ file.size)
    (bounded : (pgno - 1) * pager.pageSize + pager.pageSize < 2 ^ 31) (stack : Nat → Nat → UInt8)
    (zerobyte : Nat → UInt8) :
    ∃ pager' file', pagerStress memory database random stack zerobyte pager pgno =
        some (sqliteOk, pager') ∧
      Progress Contains origin pageSize dbOrigSize file' list pager' ∧
      pager'.eState ≠ .writerLocked := by
  have opened : pager.eState ≠ .writerLocked := by
    cases progress.phase with
    | locked _ _ _ _ clean =>
        rw [clean pgno pPg cached] at isDirty
        cases isDirty
    | writing state _ _ _ => rcases state with state | state <;> rw [state] <;> decide
  have synced : ∃ pager₁ pPg₁,
      (if pPg.needSync = true ∨ pager.eState = .writerCachemod then
        syncJournal memory database random stack zerobyte pager true
      else some (sqliteOk, pager)) = some (sqliteOk, pager₁) ∧
      Progress Contains origin pageSize dbOrigSize file list pager₁ ∧
      pager₁.pPCache pgno = some pPg₁ ∧ pPg₁.dirty = true ∧ pPg₁.needSync = false ∧
      pager₁.pageSize = pager.pageSize ∧
      pager₁.eState ≠ .writerLocked := by
    by_cases needed : pPg.needSync = true ∨ pager.eState = .writerCachemod
    · rcases syncJournal_progress law progress opened room small stack zerobyte with
        ⟨pager₁, synced, progress₁, state, cache, samePage⟩
      refine ⟨pager₁, { pPg with needSync := false }, by rw [if_pos needed, synced], progress₁, ?_,
        isDirty, rfl, samePage, ?_⟩
      · simp only [cache, Rollback.synced, cached, Option.map_some, isDirty, if_true]
      · rw [state]
        decide
    · rw [not_or, Bool.not_eq_true] at needed
      exact ⟨pager, pPg, if_neg (not_or.mpr ⟨by simp [needed.1], needed.2⟩), progress, cached,
        isDirty, needed.1, rfl, opened⟩
  rcases synced with
    ⟨pager₁, pPg₁, synced, progress₁, cached₁, isDirty₁, isSynced₁, samePage, opened₁⟩
  rw [← samePage] at inFile bounded
  rcases writeClean_progress law progress₁ cached₁ isDirty₁ isSynced₁ inFile bounded with
    ⟨pager', file', written, progress', state⟩
  refine ⟨pager', file', ?_, progress', state ▸ opened₁⟩
  simp only [pagerStress, cached, Option.bind_some, leaves, Bool.false_eq_true, if_false, synced,
    onOk_ok]
  exact written

/-! ## Runs -/

inductive Allowed (file : ByteFile) (pager : Pager MemFile DbFile) : Action → Prop
  | get {mxPgno : Nat} {pData : Nat → UInt8} {pgno : Nat}
      (inFile : pgno ≤ pager.dbSize → pgno * pager.pageSize ≤ file.size) :
      Allowed file pager (.get mxPgno pData pgno)
  | write {random : Nat} {stack : Nat → Nat → UInt8} {pgno : Nat}
      (cached : (pager.pPCache pgno).isSome = true)
      (room : pager.pInJournal pgno = false →
        pager.journalOff + journalPgSz pager.pageSize ≤ journalLimit)
      (small : random < 2 ^ 32) : Allowed file pager (.write random stack pgno)
  | modify {pgno : Nat} {pData : Nat → UInt8}
      (writeable : ∃ pPg, pager.pPCache pgno = some pPg ∧ pPg.writeable = true) :
      Allowed file pager (.modify pgno pData)
  | dontWrite {pgno : Nat} (cached : (pager.pPCache pgno).isSome = true) :
      Allowed file pager (.dontWrite pgno)
  | keep {random : Nat} {stack : Nat → Nat → UInt8} {zerobyte : Nat → UInt8} {pgno : Nat}
      {pPg : PgHdr} (cached : pager.pPCache pgno = some pPg) (keeps : pager.keeps pPg = true) :
      Allowed file pager (.spill random stack zerobyte pgno)
  | spill {random : Nat} {stack : Nat → Nat → UInt8} {zerobyte : Nat → UInt8} {pgno : Nat}
      {pPg : PgHdr} (cached : pager.pPCache pgno = some pPg) (dirty : pPg.dirty = true)
      (leaves : pager.keeps pPg = false)
      (room : journalHdrOffset pager.sectorSize pager.journalOff + pager.sectorSize ≤ journalLimit)
      (small : random < 2 ^ 32) (inFile : (pgno - 1) * pager.pageSize ≤ file.size)
      (bounded : (pgno - 1) * pager.pageSize + pager.pageSize < 2 ^ 31) :
      Allowed file pager (.spill random stack zerobyte pgno)
  | drop {pgno : Nat} (clean : ∀ pPg, pager.pPCache pgno = some pPg → pPg.dirty = false) :
      Allowed file pager (.drop pgno)
  | needSync {pgno : Nat} (cached : (pager.pPCache pgno).isSome = true) :
      Allowed file pager (.needSync pgno)
  | doNotSpill (flags : Nat) : Allowed file pager (.doNotSpill flags)

def AllowedOn (Contains : DbFile → ByteFile → Prop) (pager : Pager MemFile DbFile)
    (action : Action) : Prop := ∀ file, Contains pager.fd file → Allowed file pager action

theorem transact_progress (law : DatabaseFile database Contains)
    (progress : Progress Contains origin pageSize dbOrigSize file list pager) {action : Action}
    (allowed : Allowed file pager action) :
    ∃ rc pager' file' list', transact memory database pager action = some (rc, pager') ∧
      Progress Contains origin pageSize dbOrigSize file' list' pager' ∧ list <+: list' := by
  cases allowed with
  | @get mxPgno pData pgno inFile =>
      have positive := progress.phase.sizes.positive
      rcases getPageNormal_cases law progress.based positive mxPgno pData inFile with
        ⟨rc, pager', got, _, _,
          rfl | ⟨fd, dbFileVers, pPg, absent, numbered, contains, clean, read, rfl⟩⟩
      · exact ⟨rc, _, file, list, got, progress, List.prefix_rfl⟩
      · have inserted := progress.recorded.insert absent clean numbered.nonzero
          fun inside => read (Nat.le_trans inside progress.based.grown)
        exact ⟨rc, _, file, list, got, ⟨progress.based.keep contains rfl rfl (Nat.le_refl _)
          (progress.based.numbered_insert numbered), { inserted with },
          progress.phase.keep rfl rfl (dirty_insert_clean clean)⟩, List.prefix_rfl⟩
  | write cached room small =>
      rcases Option.isSome_iff_exists.mp cached with ⟨pPg, cached⟩
      rcases pagerWrite_progress law progress cached room small _ with
        ⟨pager', list', written, progress', grown, _⟩
      exact ⟨_, pager', file, list', written, progress', grown⟩
  | @modify pgno pData writeable =>
      rcases writeable with ⟨pPg, cached, isWriteable⟩
      have isDirty := progress.recorded.writeable pgno pPg cached isWriteable
      refine ⟨sqliteOk, _, file, list, ?_, progress.modify cached isDirty pData, List.prefix_rfl⟩
      rw [transact, updatePage_cached cached]
  | @dontWrite pgno cached =>
      rcases Option.isSome_iff_exists.mp cached with ⟨pPg, cached⟩
      refine ⟨sqliteOk, _, file, list, rfl, ?_, List.prefix_rfl⟩
      rw [sqlite3PagerDontWrite, updatePage_cached cached]
      cases isDirty : pPg.dirty with
      | true => exact progress.flag cached rfl isDirty.symm id nofun
      | false =>
          exact progress.flag cached rfl rfl id (progress.recorded.writeable pgno pPg cached)
  | @keep _ _ _ _ pPg cached keeps =>
      refine ⟨sqliteOk, pager, file, list, ?_, progress, List.prefix_rfl⟩
      rw [transact, pagerStress, cached, Option.bind_some, if_pos keeps]
  | spill cached dirty leaves room small inFile bounded =>
      rcases spill_progress law progress cached dirty leaves room small inFile bounded _ _ with
        ⟨pager', file', spilled, progress', _⟩
      exact ⟨_, pager', file', list, spilled, progress', List.prefix_rfl⟩
  | @drop pgno clean =>
      refine ⟨sqliteOk, _, file, list, rfl, ⟨progress.based.keep progress.based.contains rfl rfl
        (Nat.le_refl _) ?_, progress.recorded.drop clean,
        progress.phase.keep rfl rfl (dirty_insert nofun)⟩, List.prefix_rfl⟩
      intro other pPg cached
      by_cases same : other = pgno
      · rw [same, insertPage_same] at cached
        cases cached
      · rw [insertPage_other same] at cached
        exact progress.based.numbered other pPg cached
  | @needSync pgno cached =>
      rcases Option.isSome_iff_exists.mp cached with ⟨pPg, cached⟩
      refine ⟨sqliteOk, _, file, list, rfl, ?_, List.prefix_rfl⟩
      rw [updatePage_cached cached]
      exact progress.flag cached rfl rfl (fun _ => rfl)
        (progress.recorded.writeable pgno pPg cached)
  | doNotSpill flags =>
      exact ⟨sqliteOk, _, file, list, rfl, ⟨progress.based.keep progress.based.contains rfl rfl
        (Nat.le_refl _) progress.based.numbered, { progress.recorded with },
        progress.phase.keep rfl rfl fun _ pPg cached isDirty => ⟨pPg, cached, isDirty⟩⟩,
        List.prefix_rfl⟩

end EspSqlite.Rollback
