import EspSqlite.Rollback.Progress
import EspSqlite.Rollback.Sectors

/-! # Calls keep the progress

Every call of a transaction is defined where its actions are allowed, and goes on with
the transaction. After `pagerWriteLargeSector` the pages of a sector are in the journal. -/

namespace EspSqlite.Rollback

open Vfs (sqliteOk)
open Journal (MemFile)

variable {DbFile : Type} {database : IoMethods DbFile} {Contains : DbFile → ByteFile → Prop}
  {origin : ByteFile}

/-! ## The start of a transaction -/

structure Reader (Contains : DbFile → ByteFile → Prop) (origin : ByteFile)
    (pager : Pager MemFile DbFile) : Prop where
  sizes : Sizes pager.pageSize pager.sectorSize
  empty : pager.jfd.Models .empty
  contains : Contains pager.fd origin
  small : origin.size < 2 ^ 31
  fits : pager.dbSize * pager.pageSize ≤ origin.size
  noBitvec : pager.pInJournal = fun _ => false
  numbered : ∀ pgno pPg, pager.pPCache pgno = some pPg → Numbered pager.pageSize pgno
  clean : ∀ pgno pPg, pager.pPCache pgno = some pPg → pPg.Clean
  cached : ∀ pgno pPg, pager.pPCache pgno = some pPg → pgno ≤ pager.dbSize →
    HoldsPage pager.pageSize origin pgno pPg.pData

theorem Reader.progress {pager : Pager MemFile DbFile} (reader : Reader Contains origin pager) :
    Progress Contains origin pager.pageSize pager.dbSize origin [] (sqlite3PagerBegin pager) where
  based := {
    isPageSize := rfl
    isOrigSize := rfl
    contains := reader.contains
    small := reader.small
    fits := reader.fits
    grown := Nat.le_refl _
    numbered := reader.numbered }
  recorded := {
    valid := nofun
    original := nofun
    inJournal := nofun
    listed := fun pgno marked => by
      rw [sqlite3PagerBegin, reader.noBitvec] at marked
      cases marked
    inFile := fun _ _ _ => Or.inl fun _ _ => rfl
    inCache := fun pgno pPg cached inside => Or.inl (reader.cached pgno pPg cached inside)
    waiting := nofun
    dirty := fun pgno pPg cached isDirty _ => by
      rw [(reader.clean pgno pPg cached).dirty] at isDirty
      cases isDirty
    writeable := fun pgno pPg cached isWriteable => by
      rw [(reader.clean pgno pPg cached).writeable] at isWriteable
      cases isWriteable }
  phase := .locked rfl rfl reader.sizes reader.empty fun pgno pPg cached =>
    (reader.clean pgno pPg cached).dirty

def UnderWay (Contains : DbFile → ByteFile → Prop) (origin : ByteFile)
    (start pager : Pager MemFile DbFile) : Prop :=
  ∃ file list, Progress Contains origin start.pageSize start.dbSize file list pager

theorem Reader.underWay {start : Pager MemFile DbFile} (reader : Reader Contains origin start) :
    UnderWay Contains origin start (sqlite3PagerBegin start) := ⟨origin, [], reader.progress⟩

/-! ## Actions -/

variable {start pager pager' : Pager MemFile DbFile}

/-- A transaction has gone on from a pager, whose journalled pages are still journalled. -/
structure Onward (Contains : DbFile → ByteFile → Prop) (origin : ByteFile)
    (start pager pager' : Pager MemFile DbFile) : Prop where
  underWay : UnderWay Contains origin start pager'
  journalled : ∀ pgno, pager.pInJournal pgno = true → pager'.pInJournal pgno = true

theorem Onward.refl (underWay : UnderWay Contains origin start pager) :
    Onward Contains origin start pager pager := ⟨underWay, fun _ => id⟩

theorem Onward.trans {pager'' : Pager MemFile DbFile}
    (first : Onward Contains origin start pager pager')
    (second : Onward Contains origin start pager' pager'') :
    Onward Contains origin start pager pager'' :=
  ⟨second.underWay, fun pgno marked => second.journalled pgno (first.journalled pgno marked)⟩

theorem Progress.onward {pageSize dbOrigSize : Nat} {file file' : ByteFile}
    {list list' : List (Nat × Record)}
    (progress : Progress Contains origin pageSize dbOrigSize file list pager)
    (isPageSize : start.pageSize = pageSize) (isSize : start.dbSize = dbOrigSize)
    (progress' : Progress Contains origin pageSize dbOrigSize file' list' pager')
    (grown : list <+: list') : Onward Contains origin start pager pager' := by
  subst isPageSize isSize
  refine ⟨⟨file', list', progress'⟩, fun pgno marked => ?_⟩
  rcases (progress.isMarked_iff pgno).mp marked with ⟨place, member, isPage⟩
  exact (progress'.isMarked_iff pgno).mpr ⟨place, grown.subset member, isPage⟩

theorem transact_onward (law : DatabaseFile database Contains)
    (underWay : UnderWay Contains origin start pager) {action : Action}
    (allowed : AllowedOn Contains pager action) :
    ∃ rc pager', transact memory database pager action = some (rc, pager') ∧
      Onward Contains origin start pager pager' := by
  rcases underWay with ⟨file, list, progress⟩
  rcases transact_progress law progress (allowed file progress.based.contains) with
    ⟨rc, pager', file', list', acted, progress', grown⟩
  exact ⟨rc, pager', acted, progress.onward rfl rfl progress' grown⟩

/-! ## Programs -/

def pagerMachine (database : IoMethods DbFile) :
    Machine (Pager MemFile DbFile) (PagerView MemFile DbFile) Action Nat :=
  ⟨Pager.view, transact memory database⟩

section Programs

variable {Result Final : Type}

def GoesOn (database : IoMethods DbFile) (Contains : DbFile → ByteFile → Prop)
    (origin : ByteFile) (start pager : Pager MemFile DbFile)
    (program : PagerProgram MemFile DbFile Result)
    (promise : Result → Pager MemFile DbFile → Prop) : Prop :=
  program.Ensures (pagerMachine database) (AllowedOn Contains)
    (fun result pager' => Onward Contains origin start pager pager' ∧ promise result pager') pager

theorem GoesOn.done (underWay : UnderWay Contains origin start pager)
    {promise : Result → Pager MemFile DbFile → Prop} {result : Result}
    (promised : promise result pager) :
    GoesOn database Contains origin start pager (pure result) promise := ⟨.refl underWay, promised⟩

theorem GoesOn.bind {program : PagerProgram MemFile DbFile Result}
    {rest : Result → PagerProgram MemFile DbFile Final}
    {promise : Result → Pager MemFile DbFile → Prop}
    {promise' : Final → Pager MemFile DbFile → Prop}
    (first : GoesOn database Contains origin start pager program promise)
    (later : ∀ result pager', Onward Contains origin start pager pager' → promise result pager' →
      GoesOn database Contains origin start pager' (rest result) promise') :
    GoesOn database Contains origin start pager (program >>= rest) promise' := by
  apply Program.Ensures.bind
  apply first.mono
  rintro result pager' ⟨onward, promised⟩
  apply (later result pager' onward promised).mono
  rintro final pager'' ⟨onward', promised'⟩
  exact ⟨onward.trans onward', promised'⟩

theorem GoesOn.mono {program : PagerProgram MemFile DbFile Result}
    {promise promise' : Result → Pager MemFile DbFile → Prop}
    (goesOn : GoesOn database Contains origin start pager program promise)
    (implies : ∀ result pager', promise result pager' → promise' result pager') :
    GoesOn database Contains origin start pager program promise' :=
  Program.Ensures.mono (fun result pager' promised =>
    ⟨promised.1, implies result pager' promised.2⟩) goesOn

theorem GoesOn.see (underWay : UnderWay Contains origin start pager) :
    GoesOn database Contains origin start pager .see
      fun view pager' => view = pager.view ∧ pager = pager' := ⟨.refl underWay, rfl, rfl⟩

theorem GoesOn.act (law : DatabaseFile database Contains)
    (underWay : UnderWay Contains origin start pager) (action : Action) :
    GoesOn database Contains origin start pager (.act action) fun _ _ => True := by
  intro allowed
  rcases transact_onward law underWay allowed with ⟨rc, pager', acted, onward⟩
  exact ⟨rc, pager', acted, onward, trivial⟩

theorem sqlite3PagerLookup_goesOn (underWay : UnderWay Contains origin start pager) (pgno : Nat) :
    GoesOn database Contains origin start pager (sqlite3PagerLookup pgno)
      fun pPage pager' => pPage = pager.pPCache pgno ∧ pager = pager' :=
  ⟨.refl underWay, rfl, rfl⟩

end Programs

/-! ## Fetching -/

theorem makeRoom_goesOn (law : DatabaseFile database Contains) (leaving : List Leaving) :
    ∀ {pager : Pager MemFile DbFile}, UnderWay Contains origin start pager →
    GoesOn database Contains origin start pager (makeRoom leaving) fun _ _ => True := by
  induction leaving with
  | nil => exact fun underWay => .done underWay trivial
  | cons first rest induction =>
      intro pager underWay
      apply (GoesOn.act law underWay first.action).bind
      intro rc pager' onward _
      by_cases failed : rc ≠ sqliteOk ∧ rc ≠ sqliteBusy
      · rw [if_pos failed]
        exact .done onward.underWay trivial
      · rw [if_neg failed]
        exact induction onward.underWay

theorem getPage_goesOn (law : DatabaseFile database Contains)
    (underWay : UnderWay Contains origin start pager) (mxPgno : Nat) (pData : Nat → UInt8)
    (pgno : Nat) :
    GoesOn database Contains origin start pager (.act (.get mxPgno pData pgno)) fun rc pager' =>
      rc = sqliteOk → (pager'.pPCache pgno).isSome = true := by
  intro allowed
  rcases transact_onward law underWay allowed with ⟨rc, pager', acted, onward⟩
  refine ⟨rc, pager', acted, onward, ?_⟩
  rcases underWay with ⟨file, list, progress⟩
  have positive := progress.phase.sizes.positive
  cases allowed file progress.based.contains with
  | get inFile =>
      rcases getPageNormal_cases law progress.based positive mxPgno pData inFile with
        ⟨rc', pager₁, got, isCached, _⟩
      have same : some (rc, pager') = some (rc', pager₁) := acted.symm.trans got
      rw [Option.some.injEq, Prod.mk.injEq] at same
      rwa [same.1, same.2]

theorem sqlite3PagerGet_goesOn (law : DatabaseFile database Contains)
    (underWay : UnderWay Contains origin start pager) (fetch : Fetch) (pgno : Nat) :
    GoesOn database Contains origin start pager (sqlite3PagerGet fetch pgno) fun rc pager' =>
      rc = sqliteOk → (pager'.pPCache pgno).isSome = true := by
  apply (makeRoom_goesOn law fetch.leaving underWay).bind
  intro rc pager' onward _
  by_cases failed : rc ≠ sqliteOk
  · rw [if_pos failed]
    exact .done onward.underWay fun isOk => absurd isOk failed
  · rw [if_neg failed]
    exact getPage_goesOn law onward.underWay _ _ pgno

/-! ## Journalling -/

/-- The page is in the journal, if the database had it. -/
def InJournal (start pager : Pager MemFile DbFile) (pgno : Nat) : Prop :=
  pgno ≤ start.dbSize → pager.pInJournal pgno = true

theorem InJournal.onward {pgno : Nat} (isIn : InJournal start pager pgno)
    (onward : Onward Contains origin start pager pager') : InJournal start pager' pgno :=
  fun inDatabase => onward.journalled pgno (isIn inDatabase)

theorem writePage_goesOn (law : DatabaseFile database Contains)
    (underWay : UnderWay Contains origin start pager) (random : Nat) (stack : Nat → Nat → UInt8)
    (pgno : Nat) :
    GoesOn database Contains origin start pager (.act (.write random stack pgno)) fun _ pager' =>
      InJournal start pager' pgno ∧
        ∃ pPg, pager'.pPCache pgno = some pPg ∧ pPg.writeable = true := by
  intro allowed
  rcases underWay with ⟨file, list, progress⟩
  cases allowed file progress.based.contains with
  | write cached room small =>
      rcases Option.isSome_iff_exists.mp cached with ⟨pPg, cached⟩
      rcases pagerWrite_progress law progress cached room small stack with
        ⟨pager', list', isWritten, progress', grown, listed, written⟩
      refine ⟨sqliteOk, pager', isWritten, progress.onward rfl rfl progress' grown, ?_,
        written.writeable⟩
      intro inDatabase
      rw [← progress'.based.isOrigSize] at inDatabase
      exact (progress'.isMarked_iff pgno).mpr (listed inDatabase)

theorem pageOf_goesOn (underWay : UnderWay Contains origin start pager) {pgno : Nat} {pPg : PgHdr}
    (cached : pager.pPCache pgno = some pPg) :
    GoesOn database Contains origin start pager (pageOf pgno)
      fun pPage pager' => pPg = pPage ∧ pager = pager' := by
  apply (sqlite3PagerLookup_goesOn underWay pgno).bind
  rintro _ _ _ ⟨rfl, rfl⟩
  rw [cached]
  exact .done underWay ⟨rfl, rfl⟩

theorem inJournal_goesOn (underWay : UnderWay Contains origin start pager) (pgno : Nat) :
    GoesOn database Contains origin start pager (inJournal pgno) fun answer pager' =>
      answer = pager.pInJournal (pgno % 2 ^ 32) ∧ pager = pager' := by
  apply (GoesOn.see underWay).bind
  rintro _ _ _ ⟨rfl, rfl⟩
  exact .done underWay ⟨rfl, rfl⟩

theorem Progress.smallSize {file : ByteFile} {pageSize dbOrigSize : Nat}
    {list : List (Nat × Record)}
    (progress : Progress Contains origin pageSize dbOrigSize file list pager) :
    dbOrigSize < 2 ^ 31 := by
  have positive := progress.phase.sizes.positive
  have atMost : pager.dbOrigSize ≤ pager.dbOrigSize * pager.pageSize :=
    Nat.le_mul_of_pos_right _ positive
  rw [← progress.based.isOrigSize]
  exact Nat.lt_of_le_of_lt (Nat.le_trans atMost progress.based.fits) progress.based.small

theorem UnderWay.smallSize (underWay : UnderWay Contains origin start pager) :
    start.dbSize < 2 ^ 31 := by
  rcases underWay with ⟨_, _, progress⟩
  exact progress.smallSize

theorem UnderWay.pageSize (underWay : UnderWay Contains origin start pager) :
    pager.pageSize = start.pageSize := by
  rcases underWay with ⟨file, list, progress⟩
  exact progress.based.isPageSize

theorem sectorRound_goesOn (law : DatabaseFile database Contains)
    (underWay : UnderWay Contains origin start pager) (fetch : Fetch) (pgno pg : Nat) :
    GoesOn database Contains origin start pager (sectorRound fetch pgno pg) fun result pager' =>
      result.1 = sqliteOk → pg ≠ pagerMjPgno start.pageSize → InJournal start pager' pg := by
  have tested : GoesOn database Contains origin start pager (inJournalBefore pgno pg)
      fun answer pager' => (answer = true → InJournal start pager pg) ∧ pager = pager' := by
    rw [inJournalBefore]
    split
    · exact .done underWay ⟨nofun, rfl⟩
    · apply (inJournal_goesOn underWay pg).mono
      rintro _ _ ⟨rfl, rfl⟩
      refine ⟨fun marked inDatabase => ?_, rfl⟩
      have small := underWay.smallSize
      rwa [Nat.mod_eq_of_lt (by omega)] at marked
  apply tested.bind
  rintro journalled _ _ ⟨isIn, rfl⟩
  apply (GoesOn.see underWay).bind
  rintro _ _ _ ⟨rfl, rfl⟩
  cases journalled with
  | false =>
      rw [if_pos rfl, Pager.view_pager]
      by_cases pending : pg ≠ pagerMjPgno pager.pageSize
      · rw [if_pos pending]
        apply (sqlite3PagerGet_goesOn law underWay fetch pg).bind
        intro rc pager₁ onward cached
        by_cases isOk : rc = sqliteOk
        · rw [if_pos isOk]
          apply (writePage_goesOn law onward.underWay fetch.random fetch.stack pg).bind
          rintro rc pager₂ onward₂ ⟨isIn, pPg, cached₂, _⟩
          apply (pageOf_goesOn onward₂.underWay cached₂).bind
          rintro _ _ _ ⟨rfl, rfl⟩
          exact .done onward₂.underWay fun _ _ => isIn
        · rw [if_neg isOk]
          exact .done onward.underWay fun wrong => absurd wrong isOk
      · rw [if_neg pending]
        refine .done underWay fun _ notPending => absurd notPending ?_
        rwa [← underWay.pageSize]
  | true =>
      rw [if_neg nofun]
      apply (sqlite3PagerLookup_goesOn underWay pg).bind
      rintro _ _ _ ⟨rfl, rfl⟩
      cases pager.pPCache pg with
      | none => exact .done underWay fun _ _ => isIn rfl
      | some pPage => exact .done underWay fun _ _ => isIn rfl

theorem journalSector_goesOn (law : DatabaseFile database Contains) (fetches : Nat → Fetch)
    (pgno rounds : Nat) :
    ∀ {pager : Pager MemFile DbFile} (pg : Nat) (needSync : Bool),
    UnderWay Contains origin start pager →
    GoesOn database Contains origin start pager (journalSector fetches pgno rounds pg needSync)
      fun result pager' => result.1 = sqliteOk → ∀ page, pg ≤ page → page < pg + rounds →
        page ≠ pagerMjPgno start.pageSize → InJournal start pager' page := by
  induction rounds with
  | zero =>
      exact fun pg needSync underWay => .done underWay fun _ page first last =>
        absurd last (Nat.not_lt.mpr first)
  | succ rounds induction =>
      intro pager pg needSync underWay
      apply (sectorRound_goesOn law underWay (fetches pg) pgno pg).bind
      rintro ⟨rc, waits⟩ pager₁ onward isIn
      by_cases failed : rc ≠ sqliteOk
      · simp only [if_pos failed]
        exact .done onward.underWay fun isOk => absurd isOk failed
      · simp only [if_neg failed]
        have later := induction (pg + 1) (needSync || waits) onward.underWay
        apply Program.Ensures.mono _ later
        rintro result pager₂ ⟨onward₂, others⟩
        refine ⟨onward₂, fun isOk page first last notPending => ?_⟩
        by_cases here : page = pg
        · subst here
          exact (isIn (not_not.mp failed) notPending).onward onward₂
        · exact others isOk page (by omega) (by omega) notPending

theorem spreadSync_goesOn (law : DatabaseFile database Contains) (rounds : Nat) :
    ∀ {pager : Pager MemFile DbFile} (pg : Nat), UnderWay Contains origin start pager →
    GoesOn database Contains origin start pager (spreadSync rounds pg) fun _ _ => True := by
  induction rounds with
  | zero => exact fun pg underWay => .done underWay trivial
  | succ rounds induction =>
      intro pager pg underWay
      apply (sqlite3PagerLookup_goesOn underWay pg).bind
      rintro _ _ _ ⟨rfl, rfl⟩
      split
      · exact (GoesOn.act law underWay (.needSync pg)).bind fun _ _ onward _ =>
          induction (pg + 1) onward.underWay
      · exact induction (pg + 1) underWay

theorem Sizes.pagesPerSector {pageSize sectorSize : Nat} (sizes : Sizes pageSize sectorSize)
    (large : pageSize ≤ sectorSize) : ∃ exponent ≤ 32, sectorSize / pageSize = 2 ^ exponent := by
  rcases sizes.page with ⟨exponent, _, _, rfl⟩
  rcases sizes.sector with ⟨exponent', _, atMost, rfl⟩
  have ordered : exponent ≤ exponent' := (Nat.pow_le_pow_iff_right (by decide)).mp large
  exact ⟨exponent' - exponent, by omega, Nat.pow_div ordered (by decide)⟩

/-- Where `pagerWriteLargeSector` returns `SQLITE_OK`, all pages on the sector that the
database had are in the journal. -/
theorem pagerWriteLargeSector_goesOn (law : DatabaseFile database Contains)
    (underWay : UnderWay Contains origin start pager) (fetches : Nat → Fetch) {pgno : Nat}
    (small : pgno < 2 ^ 32) (large : pager.pageSize ≤ pager.sectorSize) :
    GoesOn database Contains origin start pager (pagerWriteLargeSector fetches pgno)
      fun rc pager' => rc = sqliteOk → ∀ page, page ≠ 0 → page ≠ pagerMjPgno start.pageSize →
        SameSector (pager.sectorSize / pager.pageSize) page pgno → InJournal start pager' page := by
  have grown : start.dbSize ≤ pager.dbSize := by
    rcases underWay with ⟨file, list, progress⟩
    exact progress.based.isOrigSize ▸ progress.based.grown
  obtain ⟨exponent, inWord, isPower⟩ : ∃ exponent ≤ 32,
      pager.sectorSize / pager.pageSize = 2 ^ exponent := by
    rcases underWay with ⟨file, list, progress⟩
    exact progress.phase.sizes.pagesPerSector large
  apply (GoesOn.see underWay).bind
  rintro _ _ _ ⟨rfl, rfl⟩
  simp only [Pager.view_pager]
  apply (GoesOn.act law underWay _).bind
  intro _ pager₁ onward₁ _
  apply (journalSector_goesOn law fetches pgno _ _ false onward₁.underWay).bind
  rintro ⟨rc, needSync⟩ pager₂ onward₂ journalled
  -- both ways go on to the last action with the journal that the loop has left
  have ended : ∀ {pager₃ : Pager MemFile DbFile}, Onward Contains origin start pager₂ pager₃ →
      GoesOn database Contains origin start pager₃ (do
        let view ← .see
        let _ ← .act (.doNotSpill (view.pager.doNotSpill &&& (0xff - spillflagNosync)))
        pure rc) fun rc pager' => rc = sqliteOk → ∀ page, page ≠ 0 →
          page ≠ pagerMjPgno start.pageSize →
          SameSector (pager.sectorSize / pager.pageSize) page pgno →
            InJournal start pager' page := by
    intro pager₃ onward₃
    apply (GoesOn.see onward₃.underWay).bind
    rintro _ _ _ ⟨rfl, rfl⟩
    apply (GoesOn.act law onward₃.underWay _).bind
    intro _ pager₄ onward₄ _
    refine .done onward₄.underWay fun isOk page nonzero notPending together inDatabase => ?_
    rw [isPower] at together
    have inLoop := mem_sector inWord nonzero (Nat.le_trans inDatabase grown) small together
    rw [← isPower] at inLoop
    exact (((journalled isOk page inLoop.1 inLoop.2 notPending).onward onward₃).onward onward₄)
      inDatabase
  by_cases spreads : rc = sqliteOk ∧ needSync = true
  · simp only [if_pos spreads]
    exact (spreadSync_goesOn law _ _ onward₂.underWay).bind fun _ _ onward₃ _ => ended onward₃
  · simp only [if_neg spreads]
    exact ended (.refl onward₂.underWay)

/-- Where `sqlite3PagerWrite` returns `SQLITE_OK`, the page is in the journal if the
database had it. -/
theorem sqlite3PagerWrite_goesOn (law : DatabaseFile database Contains)
    (underWay : UnderWay Contains origin start pager) (fetches : Nat → Fetch) {pgno : Nat}
    (cached : (pager.pPCache pgno).isSome = true) :
    GoesOn database Contains origin start pager (sqlite3PagerWrite fetches pgno)
      fun rc pager' => rc = sqliteOk → InJournal start pager' pgno := by
  rcases Option.isSome_iff_exists.mp cached with ⟨pPg, cached⟩
  apply (pageOf_goesOn underWay cached).bind
  rintro _ _ _ ⟨rfl, rfl⟩
  apply (GoesOn.see underWay).bind
  rintro _ _ _ ⟨rfl, rfl⟩
  rw [Pager.view_pager]
  have numbered : Numbered start.pageSize pgno := by
    rcases underWay with ⟨file, list, progress⟩
    exact progress.based.isPageSize ▸ progress.based.numbered pgno _ cached
  by_cases done : pPg.writeable = true ∧ pgno ≤ pager.dbSize
  · rw [if_pos done]
    refine .done underWay fun _ inDatabase => ?_
    rcases underWay with ⟨file, list, progress⟩
    have isDirty := progress.recorded.writeable pgno _ cached done.1
    rw [← progress.based.isOrigSize] at inDatabase
    exact (progress.isMarked_iff pgno).mpr
      (progress.recorded.dirty pgno _ cached isDirty inDatabase)
  · rw [if_neg done]
    by_cases large : pager.sectorSize > pager.pageSize
    · rw [if_pos large]
      have isSmall : pgno < 2 ^ 32 := Nat.lt_of_le_of_lt numbered.small (by decide)
      apply (pagerWriteLargeSector_goesOn law underWay fetches isSmall (Nat.le_of_lt large)).mono
      exact fun rc pager' journalled isOk =>
        journalled isOk pgno numbered.nonzero numbered.notPending rfl
    · rw [if_neg large]
      exact (writePage_goesOn law underWay _ _ pgno).mono fun _ _ isIn _ => isIn.1

/-! ## Calls -/

def Call.Given (pager : Pager MemFile DbFile) : Call → Prop
  | .write _ pgno => (pager.pPCache pgno).isSome = true
  | _ => True

theorem call_goesOn (law : DatabaseFile database Contains)
    (underWay : UnderWay Contains origin start pager) {call : Call} (given : call.Given pager) :
    GoesOn database Contains origin start pager call.program fun _ _ => True := by
  have trivially : ∀ {program : PagerProgram MemFile DbFile Nat}
      {promise : Nat → Pager MemFile DbFile → Prop},
      GoesOn database Contains origin start pager program promise →
      GoesOn database Contains origin start pager program fun _ _ => True :=
    fun goesOn => goesOn.mono fun _ _ _ => trivial
  cases call with
  | get fetch pgno => exact trivially (sqlite3PagerGet_goesOn law underWay fetch pgno)
  | write fetches pgno => exact trivially (sqlite3PagerWrite_goesOn law underWay fetches given)
  | modify pgno pData => exact GoesOn.act law underWay _
  | dontWrite pgno => exact GoesOn.act law underWay _
  | leave leaving => exact GoesOn.act law underWay _

structure CallStep (database : IoMethods DbFile) (Contains : DbFile → ByteFile → Prop)
    (pager : Pager MemFile DbFile) (call : Call) (pager' : Pager MemFile DbFile) : Prop where
  given : call.Given pager
  permitted : call.program.Permitted (pagerMachine database) (AllowedOn Contains) pager
  ran : ∃ rc, call.program.run (pagerMachine database) pager = some (rc, pager')

theorem exists_callStep (law : DatabaseFile database Contains)
    (underWay : UnderWay Contains origin start pager) {call : Call} (given : call.Given pager)
    (permitted : call.program.Permitted (pagerMachine database) (AllowedOn Contains) pager) :
    ∃ pager', CallStep database Contains pager call pager' := by
  rcases (call_goesOn law underWay given).run permitted with ⟨rc, pager', ran, _⟩
  exact ⟨pager', given, permitted, rc, ran⟩

theorem CallStep.underWay (law : DatabaseFile database Contains)
    (underWay : UnderWay Contains origin start pager) {call : Call}
    (stepped : CallStep database Contains pager call pager') :
    UnderWay Contains origin start pager' := by
  rcases (call_goesOn law underWay stepped.given).run stepped.permitted with
    ⟨rc', pager₁, ran', onward, _⟩
  rcases stepped.ran with ⟨rc, ran⟩
  rw [ran', Option.some.injEq, Prod.mk.injEq] at ran
  rw [← ran.2]
  exact onward.underWay

theorem trace_underWay (law : DatabaseFile database Contains)
    (reader : Reader Contains origin start) {calls : List Call}
    (trace : Trace (CallStep database Contains) (sqlite3PagerBegin start) calls pager) :
    UnderWay Contains origin start pager :=
  trace.invariant reader.underWay fun _ _ _ underWay stepped => stepped.underWay law underWay

end EspSqlite.Rollback
