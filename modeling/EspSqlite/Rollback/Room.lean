import EspSqlite.Rollback.Calls

/-! # Calls with room in the journal

Where the journal has room for the pages of a sector and the file holds the database,
`sqlite3PagerWrite` does nothing that is not allowed, and makes its page writeable. -/

namespace EspSqlite.Rollback

open Vfs (sqliteOk)
open Journal (MemFile)

variable {DbFile : Type} {database : IoMethods DbFile} {Contains : DbFile → ByteFile → Prop}
  {origin : ByteFile} {start pager pager' : Pager MemFile DbFile} {rounds pgno : Nat}

theorem DatabaseFile.sameSize (law : DatabaseFile database Contains) {fd : DbFile}
    {file file' : ByteFile} (contains : Contains fd file) (contains' : Contains fd file') :
    file.size = file'.size := by
  have same := (law.size contains).symm.trans (law.size contains')
  rw [Option.some.injEq, Prod.mk.injEq] at same
  exact same.2

structure Roomy (Contains : DbFile → ByteFile → Prop) (origin : ByteFile)
    (start pager : Pager MemFile DbFile) (rounds : Nat) : Prop where
  progress : ∃ file list, Progress Contains origin start.pageSize start.dbSize file list pager ∧
    pager.dbSize * pager.pageSize ≤ file.size
  room : pager.journalOff + (if pager.eState = .writerLocked then pager.sectorSize else 0) +
    rounds * journalPgSz pager.pageSize ≤ journalLimit

theorem Roomy.mono (roomy : Roomy Contains origin start pager rounds) {fewer : Nat}
    (less : fewer ≤ rounds) : Roomy Contains origin start pager fewer where
  progress := roomy.progress
  room := Nat.le_trans (Nat.add_le_add_left (Nat.mul_le_mul_right _ less) _) roomy.room

theorem Roomy.numbered (roomy : Roomy Contains origin start pager rounds) (nonzero : pgno ≠ 0)
    (notPending : pgno ≠ pagerMjPgno pager.pageSize) (inside : pgno ≤ pager.dbSize) :
    Numbered pager.pageSize pgno := by
  refine ⟨nonzero, notPending, ?_⟩
  rcases roomy.progress with ⟨file, list, progress, fits⟩
  have positive := progress.phase.sizes.positive
  have atMost : pager.dbSize ≤ pager.dbSize * pager.pageSize := Nat.le_mul_of_pos_right _ positive
  have small := progress.based.small
  simp only [pagerMaxPgno]
  omega

def Writeable (pager : Pager MemFile DbFile) (pgno : Nat) : Prop :=
  ∃ pPg, pager.pPCache pgno = some pPg ∧ pPg.writeable = true

structure Steady (pager pager' : Pager MemFile DbFile) : Prop where
  writeable : ∀ pgno, Writeable pager pgno → Writeable pager' pgno
  dbSize : pager'.dbSize = pager.dbSize
  pageSize : pager'.pageSize = pager.pageSize

theorem Steady.refl (pager : Pager MemFile DbFile) : Steady pager pager := ⟨fun _ => id, rfl, rfl⟩

theorem Steady.trans {pager'' : Pager MemFile DbFile} (first : Steady pager pager')
    (second : Steady pager' pager'') : Steady pager pager'' where
  writeable pgno isWriteable := second.writeable pgno (first.writeable pgno isWriteable)
  dbSize := second.dbSize.trans first.dbSize
  pageSize := second.pageSize.trans first.pageSize

theorem Steady.insert (isWriteable : Writeable pager pgno → Writeable pager' pgno)
    (others : ∀ other, other ≠ pgno → pager'.pPCache other = pager.pPCache other)
    (dbSize : pager'.dbSize = pager.dbSize) (pageSize : pager'.pageSize = pager.pageSize) :
    Steady pager pager' where
  writeable other writeable := by
    by_cases same : other = pgno
    · subst same
      exact isWriteable writeable
    · simp only [Writeable, others other same]
      exact writeable
  dbSize := dbSize
  pageSize := pageSize

/-! ## Actions -/

section Programs

variable {Result Final : Type}

/-- A program of allowed actions, after which there is room for a number of records. -/
def Fits (database : IoMethods DbFile) (Contains : DbFile → ByteFile → Prop) (origin : ByteFile)
    (start pager : Pager MemFile DbFile) (rounds : Nat)
    (program : PagerProgram MemFile DbFile Result)
    (promise : Result → Pager MemFile DbFile → Prop) : Prop :=
  program.Meets (pagerMachine database) (AllowedOn Contains)
    (fun result pager' => Roomy Contains origin start pager' rounds ∧ Steady pager pager' ∧
      promise result pager') pager

theorem Fits.done (roomy : Roomy Contains origin start pager rounds)
    {promise : Result → Pager MemFile DbFile → Prop} {result : Result}
    (promised : promise result pager) :
    Fits database Contains origin start pager rounds (pure result) promise :=
  ⟨trivial, roomy, .refl pager, promised⟩

theorem Fits.bind {fewer : Nat} {program : PagerProgram MemFile DbFile Result}
    {rest : Result → PagerProgram MemFile DbFile Final}
    {promise : Result → Pager MemFile DbFile → Prop}
    {promise' : Final → Pager MemFile DbFile → Prop}
    (first : Fits database Contains origin start pager rounds program promise)
    (later : ∀ result pager', Roomy Contains origin start pager' rounds → Steady pager pager' →
      promise result pager' →
      Fits database Contains origin start pager' fewer (rest result) promise') :
    Fits database Contains origin start pager fewer (program >>= rest) promise' := by
  apply Program.Meets.bind
  apply first.mono
  rintro result pager' ⟨roomy, steady, promised⟩
  apply (later result pager' roomy steady promised).mono
  rintro final pager'' ⟨roomy', steady', promised'⟩
  exact ⟨roomy', steady.trans steady', promised'⟩

theorem Fits.see (roomy : Roomy Contains origin start pager rounds) :
    Fits database Contains origin start pager rounds .see
      fun view pager' => view = pager.view ∧ pager = pager' :=
  ⟨trivial, roomy, .refl pager, rfl, rfl⟩

theorem sqlite3PagerLookup_fits (roomy : Roomy Contains origin start pager rounds) (pgno : Nat) :
    Fits database Contains origin start pager rounds (sqlite3PagerLookup pgno)
      fun pPage pager' => pPage = pager.pPCache pgno ∧ pager = pager' :=
  ⟨trivial, roomy, .refl pager, rfl, rfl⟩

end Programs

theorem Roomy.transact (law : DatabaseFile database Contains)
    (roomy : Roomy Contains origin start pager rounds) {action : Action} {rc : Nat}
    (allowed : AllowedOn Contains pager action)
    (acted : transact memory database pager action = some (rc, pager'))
    (sameFile : pager'.fd = pager.fd)
    (same : (pager'.journalOff, pager'.eState, pager'.sectorSize, pager'.pageSize, pager'.dbSize) =
      (pager.journalOff, pager.eState, pager.sectorSize, pager.pageSize, pager.dbSize)) :
    Roomy Contains origin start pager' rounds := by
  simp only [Prod.mk.injEq] at same
  rcases same with ⟨sameOff, sameState, sameSector, samePage, sameSize⟩
  rcases roomy.progress with ⟨file, list, progress, fits⟩
  rcases transact_progress law progress (allowed file progress.based.contains) with
    ⟨rc', pager₁, file', list', acted', progress', _⟩
  rw [acted, Option.some.injEq, Prod.mk.injEq] at acted'
  rw [← acted'.2] at progress'
  constructor
  · refine ⟨file', list', progress', ?_⟩
    have contains := progress'.based.contains
    rw [sameFile] at contains
    rw [sameSize, samePage, law.sameSize contains progress.based.contains]
    exact fits
  · rw [sameOff, sameState, sameSector, samePage]
    exact roomy.room

theorem doNotSpill_fits (law : DatabaseFile database Contains)
    (roomy : Roomy Contains origin start pager rounds) (flags : Nat) :
    Fits database Contains origin start pager rounds (.act (.doNotSpill flags))
      fun _ _ => True := by
  have allowed : AllowedOn Contains pager (.doNotSpill flags) := fun _ _ => .doNotSpill flags
  exact Program.Meets.act allowed rfl ⟨roomy.transact law allowed rfl rfl rfl,
    ⟨fun _ => id, rfl, rfl⟩, trivial⟩

theorem needSync_fits (law : DatabaseFile database Contains)
    (roomy : Roomy Contains origin start pager rounds)
    (cached : (pager.pPCache pgno).isSome = true) :
    Fits database Contains origin start pager rounds (.act (.needSync pgno)) fun _ _ => True := by
  have allowed : AllowedOn Contains pager (.needSync pgno) := fun _ _ => .needSync cached
  refine Program.Meets.act allowed rfl ⟨roomy.transact law allowed rfl rfl rfl,
    .insert ?_ (fun _ differs => if_neg differs) rfl rfl, trivial⟩
  rintro ⟨pPg, cached, isWriteable⟩
  exact ⟨{ pPg with needSync := true }, by rw [updatePage_cached cached, insertPage_same],
    isWriteable⟩

theorem getPage_fits (law : DatabaseFile database Contains)
    (roomy : Roomy Contains origin start pager rounds) (numbered : Numbered pager.pageSize pgno)
    (inside : pgno ≤ pager.dbSize) (mxPgno : Nat) (pData : Nat → UInt8) :
    Fits database Contains origin start pager rounds (.act (.get mxPgno pData pgno))
      fun rc pager' => rc = sqliteOk ∧ (pager'.pPCache pgno).isSome = true := by
  rcases roomy.progress with ⟨file, list, progress, fits⟩
  have positive := progress.phase.sizes.positive
  have inFile : pgno * pager.pageSize ≤ file.size :=
    Nat.le_trans (Nat.mul_le_mul_right _ inside) fits
  have allowed : AllowedOn Contains pager (.get mxPgno pData pgno) := fun file' contains =>
    .get fun _ => law.sameSize progress.based.contains contains ▸ inFile
  rcases getPageNormal_cases law progress.based positive mxPgno pData fun _ => inFile with
    ⟨rc, pager', got, cached, isOk, rfl | ⟨fd, dbFileVers, pPg, absent, _, contains, _, _, rfl⟩⟩
  · have ok := isOk numbered inside
    exact Program.Meets.act allowed got ⟨roomy, .refl _, ok, cached ok⟩
  · have ok := isOk numbered inside
    rcases transact_progress law progress (allowed file progress.based.contains) with
      ⟨rc', pager₁, file', list', acted', progress', _⟩
    have same : some (rc, _) = some (rc', pager₁) := got.symm.trans acted'
    rw [Option.some.injEq, Prod.mk.injEq] at same
    rw [← same.2] at progress'
    have sameSize := law.sameSize contains progress'.based.contains
    refine Program.Meets.act allowed got ⟨⟨⟨file', list', progress', sameSize ▸ fits⟩, roomy.room⟩,
      .insert ?_ (fun _ differs => if_neg differs) rfl rfl, ok, cached ok⟩
    rintro ⟨pPg', cached', _⟩
    rw [absent] at cached'
    cases cached'

theorem writePage_fits (law : DatabaseFile database Contains)
    (roomy : Roomy Contains origin start pager (rounds + 1))
    (cached : (pager.pPCache pgno).isSome = true) (inside : pgno ≤ pager.dbSize) {random : Nat}
    (small : random < 2 ^ 32) (stack : Nat → Nat → UInt8) :
    Fits database Contains origin start pager rounds (.act (.write random stack pgno))
      fun rc pager' => rc = sqliteOk ∧ Writeable pager' pgno := by
  rcases roomy.progress with ⟨file, list, progress, fits⟩
  rcases Option.isSome_iff_exists.mp cached with ⟨pPg, isCached⟩
  have enough := roomy.room
  rw [Nat.succ_mul] at enough
  have room : pager.pInJournal pgno = false →
      pager.journalOff + journalPgSz pager.pageSize ≤ journalLimit := fun _ => by omega
  rcases pagerWrite_progress law progress isCached room small stack with
    ⟨pager', list', isWritten, progress', _, _, written⟩
  have sameSize : pager'.dbSize = pager.dbSize := by
    rw [written.dbSize, Nat.max_eq_left inside]
  have samePage : pager'.pageSize = pager.pageSize :=
    progress'.based.isPageSize.trans progress.based.isPageSize.symm
  have added := written.journalOff
  refine Program.Meets.act (fun _ _ => .write cached room small) isWritten
    ⟨⟨⟨file, list', progress', ?_⟩, ?_⟩,
      .insert (fun _ => written.writeable) written.others sameSize samePage, rfl,
      written.writeable⟩
  · rwa [sameSize, samePage]
  · rw [if_neg written.opened, samePage]
    omega

/-! ## Sectors -/

structure Fetch.Plain (fetch : Fetch) : Prop where
  leaving : fetch.leaving = []
  small : fetch.random < 2 ^ 32

theorem sqlite3PagerGet_fits (law : DatabaseFile database Contains)
    (roomy : Roomy Contains origin start pager rounds) (numbered : Numbered pager.pageSize pgno)
    (inside : pgno ≤ pager.dbSize) {fetch : Fetch} (plain : fetch.Plain) :
    Fits database Contains origin start pager rounds (sqlite3PagerGet fetch pgno)
      fun rc pager' => rc = sqliteOk ∧ (pager'.pPCache pgno).isSome = true := by
  rw [sqlite3PagerGet, plain.leaving, makeRoom]
  exact getPage_fits law roomy numbered inside fetch.mxPgno fetch.pData

theorem inJournalBefore_fits (roomy : Roomy Contains origin start pager rounds) (pgno pg : Nat) :
    Fits database Contains origin start pager rounds (inJournalBefore pgno pg)
      fun answer pager' => (answer = true → pg ≠ pgno) ∧ pager = pager' := by
  rw [inJournalBefore]
  split
  · exact .done roomy ⟨fun answer => absurd answer Bool.false_ne_true, rfl⟩
  · rename_i differs
    apply (Fits.see roomy).bind
    rintro _ _ _ _ ⟨rfl, rfl⟩
    exact .done roomy ⟨fun _ => differs, rfl⟩

theorem pageOf_fits (roomy : Roomy Contains origin start pager rounds) {pPg : PgHdr}
    (cached : pager.pPCache pgno = some pPg) :
    Fits database Contains origin start pager rounds (pageOf pgno)
      fun pPage pager' => pPg = pPage ∧ pager = pager' := by
  apply (sqlite3PagerLookup_fits roomy pgno).bind
  rintro _ _ _ _ ⟨rfl, rfl⟩
  rw [cached]
  exact .done roomy ⟨rfl, rfl⟩

theorem sectorRound_fits (law : DatabaseFile database Contains)
    (roomy : Roomy Contains origin start pager (rounds + 1)) {pg : Nat} (nonzero : pg ≠ 0)
    (inside : pg ≤ pager.dbSize) {fetch : Fetch} (plain : fetch.Plain) (pgno : Nat) :
    Fits database Contains origin start pager rounds (sectorRound fetch pgno pg)
      fun result pager' => result.1 = sqliteOk ∧
        (pg = pgno → pg ≠ pagerMjPgno pager.pageSize → Writeable pager' pg) := by
  have fewer := roomy.mono (Nat.le_succ rounds)
  apply (inJournalBefore_fits roomy pgno pg).bind
  rintro journalled _ _ _ ⟨isOther, rfl⟩
  apply (Fits.see roomy).bind
  rintro _ _ _ _ ⟨rfl, rfl⟩
  cases journalled with
  | false =>
      rw [if_pos rfl, Pager.view_pager]
      by_cases pending : pg ≠ pagerMjPgno pager.pageSize
      · rw [if_pos pending]
        have numbered := roomy.numbered nonzero pending inside
        apply (sqlite3PagerGet_fits law roomy numbered inside plain).bind
        rintro rc pager₁ roomy₁ steady₁ ⟨isOk, cached⟩
        rw [if_pos isOk]
        apply (writePage_fits law roomy₁ cached (steady₁.dbSize ▸ inside) plain.small _).bind
        rintro rc pager₂ roomy₂ steady₂ ⟨isOk₂, pPg, cached₂, isWriteable⟩
        apply (pageOf_fits roomy₂ cached₂).bind
        rintro _ _ _ _ ⟨rfl, rfl⟩
        exact .done roomy₂ ⟨isOk₂, fun _ _ => ⟨pPg, cached₂, isWriteable⟩⟩
      · rw [if_neg pending]
        exact .done fewer ⟨rfl, fun _ notPending => absurd notPending pending⟩
  | true =>
      rw [if_neg nofun]
      apply (sqlite3PagerLookup_fits fewer pg).bind
      rintro _ _ _ _ ⟨rfl, rfl⟩
      cases pager.pPCache pg with
      | none => exact .done fewer ⟨rfl, fun same => absurd same (isOther rfl)⟩
      | some pPage => exact .done fewer ⟨rfl, fun same => absurd same (isOther rfl)⟩

theorem journalSector_fits (law : DatabaseFile database Contains) {fetches : Nat → Fetch}
    (plain : ∀ pg, (fetches pg).Plain) (pgno rounds : Nat) :
    ∀ {pager : Pager MemFile DbFile} {pg : Nat} (needSync : Bool),
    Roomy Contains origin start pager rounds → pg ≠ 0 → pg + rounds ≤ pager.dbSize + 1 →
    Fits database Contains origin start pager 0 (journalSector fetches pgno rounds pg needSync)
      fun result pager' => result.1 = sqliteOk ∧ (pg ≤ pgno → pgno < pg + rounds →
        pgno ≠ pagerMjPgno pager.pageSize → Writeable pager' pgno) := by
  induction rounds with
  | zero =>
      exact fun needSync roomy _ _ => .done roomy ⟨rfl, fun first last =>
        absurd last (Nat.not_lt.mpr first)⟩
  | succ rounds induction =>
      intro pager pg needSync roomy nonzero inside
      apply (sectorRound_fits law roomy nonzero (by omega) (plain pg) pgno).bind
      rintro ⟨rc, waits⟩ pager₁ roomy₁ steady₁ ⟨isOk, here⟩
      simp only [if_neg (not_not.mpr isOk)]
      have insideLater : pg + 1 + rounds ≤ pager₁.dbSize + 1 := by
        rw [steady₁.dbSize]
        omega
      have later := induction (needSync || waits) roomy₁ (Nat.succ_ne_zero pg) insideLater
      apply Program.Meets.mono _ later
      rintro result pager₂ ⟨roomy₂, steady₂, isOk₂, others⟩
      refine ⟨roomy₂, steady₂, isOk₂, fun first last notPending => ?_⟩
      by_cases same : pg = pgno
      · subst same
        exact steady₂.writeable _ (here rfl notPending)
      · exact others (by omega) (by omega) (by rwa [steady₁.pageSize])

theorem spreadSync_fits (law : DatabaseFile database Contains) (rounds : Nat) :
    ∀ {pager : Pager MemFile DbFile} (pg : Nat), Roomy Contains origin start pager 0 →
    Fits database Contains origin start pager 0 (spreadSync rounds pg) fun _ _ => True := by
  induction rounds with
  | zero => exact fun pg roomy => .done roomy trivial
  | succ rounds induction =>
      intro pager pg roomy
      apply (sqlite3PagerLookup_fits roomy pg).bind
      rintro _ _ _ _ ⟨rfl, rfl⟩
      split
      · rename_i cached
        exact (needSync_fits law roomy cached).bind fun _ _ roomy₁ _ _ => induction (pg + 1) roomy₁
      · exact induction (pg + 1) roomy

def Pager.sectorPages (pager : Pager MemFile DbFile) (pgno : Nat) : Nat :=
  let nPagePerSector := pager.sectorSize / pager.pageSize
  pagesOfSector nPagePerSector pager.dbSize (firstOfSector nPagePerSector pgno) pgno

theorem pagerWriteLargeSector_fits (law : DatabaseFile database Contains) {fetches : Nat → Fetch}
    (plain : ∀ pg, (fetches pg).Plain)
    (roomy : Roomy Contains origin start pager (pager.sectorPages pgno))
    (numbered : Numbered pager.pageSize pgno) (inside : pgno ≤ pager.dbSize)
    (large : pager.pageSize ≤ pager.sectorSize) :
    Fits database Contains origin start pager 0 (pagerWriteLargeSector fetches pgno)
      fun rc pager' => rc = sqliteOk ∧ Writeable pager' pgno := by
  obtain ⟨exponent, inWord, isPower⟩ : ∃ exponent ≤ 32,
      pager.sectorSize / pager.pageSize = 2 ^ exponent := by
    rcases roomy.progress with ⟨file, list, progress, _⟩
    exact progress.phase.sizes.pagesPerSector large
  have small : pgno < 2 ^ 32 := Nat.lt_of_le_of_lt numbered.small (by decide)
  have here := mem_sector inWord numbered.nonzero inside small rfl
  rw [← isPower] at here
  apply (Fits.see roomy).bind
  rintro _ _ _ _ ⟨rfl, rfl⟩
  simp only [Pager.view_pager]
  apply (doNotSpill_fits law roomy _).bind
  intro _ pager₁ roomy₁ steady₁ _
  have inDatabase : firstOfSector (pager.sectorSize / pager.pageSize) pgno +
      pager.sectorPages pgno ≤ pager₁.dbSize + 1 := by
    rw [steady₁.dbSize, Pager.sectorPages, pagesOfSector, if_neg (Nat.not_lt.mpr inside)]
    split <;> omega
  apply (journalSector_fits law plain pgno _ false roomy₁ (Nat.succ_ne_zero _) inDatabase).bind
  rintro ⟨rc, needSync⟩ pager₂ roomy₂ steady₂ ⟨isOk, written⟩
  have isWriteable : Writeable pager₂ pgno :=
    written here.1 here.2 (steady₁.pageSize ▸ numbered.notPending)
  have ended : ∀ {pager₃ : Pager MemFile DbFile}, Roomy Contains origin start pager₃ 0 →
      Steady pager₂ pager₃ → Fits database Contains origin start pager₃ 0 (do
        let view ← .see
        let _ ← .act (.doNotSpill (view.pager.doNotSpill &&& (0xff - spillflagNosync)))
        pure rc) fun rc pager' => rc = sqliteOk ∧ Writeable pager' pgno := by
    intro pager₃ roomy₃ steady₃
    apply (Fits.see roomy₃).bind
    rintro _ _ _ _ ⟨rfl, rfl⟩
    exact (doNotSpill_fits law roomy₃ _).bind fun _ pager₄ roomy₄ steady₄ _ =>
      .done roomy₄ ⟨isOk, steady₄.writeable pgno (steady₃.writeable pgno isWriteable)⟩
  by_cases spreads : rc = sqliteOk ∧ needSync = true
  · simp only [if_pos spreads]
    exact (spreadSync_fits law _ _ roomy₂).bind fun _ _ roomy₃ steady₃ _ => ended roomy₃ steady₃
  · simp only [if_neg spreads]
    exact ended roomy₂ (.refl pager₂)

/-- `sqlite3PagerWrite` of a page in the database makes it writeable, where the journal
has room for the pages on its sector. -/
theorem sqlite3PagerWrite_fits (law : DatabaseFile database Contains) {fetches : Nat → Fetch}
    (plain : ∀ pg, (fetches pg).Plain) (large : pager.pageSize < pager.sectorSize)
    (roomy : Roomy Contains origin start pager (pager.sectorPages pgno))
    (cached : (pager.pPCache pgno).isSome = true) (inside : pgno ≤ pager.dbSize) :
    Fits database Contains origin start pager 0 (sqlite3PagerWrite fetches pgno)
      fun rc pager' => rc = sqliteOk ∧ Writeable pager' pgno := by
  rcases Option.isSome_iff_exists.mp cached with ⟨pPg, isCached⟩
  have numbered : Numbered pager.pageSize pgno := by
    rcases roomy.progress with ⟨file, list, progress, _⟩
    exact progress.based.numbered pgno pPg isCached
  have spent := roomy.mono (Nat.zero_le _)
  apply (pageOf_fits spent isCached).bind
  rintro _ _ _ _ ⟨rfl, rfl⟩
  apply (Fits.see spent).bind
  rintro _ _ _ _ ⟨rfl, rfl⟩
  rw [Pager.view_pager]
  by_cases done : pPg.writeable = true ∧ pgno ≤ pager.dbSize
  · rw [if_pos done]
    exact .done spent ⟨rfl, pPg, isCached, done.1⟩
  · rw [if_neg done, if_pos large]
    exact pagerWriteLargeSector_fits law plain roomy numbered inside (Nat.le_of_lt large)

theorem UnderWay.opened (underWay : UnderWay Contains origin start pager)
    (isWriteable : Writeable pager pgno) : pager.eState ≠ .writerLocked := by
  rcases isWriteable with ⟨pPg, cached, isWriteable⟩
  rcases underWay with ⟨file, list, progress⟩
  have isDirty := progress.recorded.writeable pgno pPg cached isWriteable
  cases progress.phase with
  | locked _ _ _ _ clean =>
      rw [clean pgno pPg cached] at isDirty
      cases isDirty
  | writing state _ _ _ => rcases state with state | state <;> rw [state] <;> decide

theorem exists_writeTrace (law : DatabaseFile database Contains) {fetches : Nat → Fetch}
    (plain : ∀ pg, (fetches pg).Plain) (large : pager.pageSize < pager.sectorSize)
    (roomy : Roomy Contains origin start pager (pager.sectorPages pgno))
    (cached : (pager.pPCache pgno).isSome = true) (inside : pgno ≤ pager.dbSize)
    (pData : Nat → UInt8) :
    ∃ rc pager', (sqlite3PagerWrite fetches pgno).run (pagerMachine database) pager =
        some (rc, pager') ∧
      Trace (CallStep database Contains) pager [.write fetches pgno, .modify pgno pData]
        (pager'.updatePage pgno fun pPg => { pPg with pData }) ∧
      pager'.eState ≠ .writerLocked := by
  have fits := sqlite3PagerWrite_fits law plain large roomy cached inside
  rcases fits.2.run fits.1 with ⟨rc, pager₁, written, roomy₁, _, _, isWriteable⟩
  have allowed : AllowedOn Contains pager₁ (.modify pgno pData) := fun _ _ => .modify isWriteable
  have first : CallStep database Contains pager (.write fetches pgno) pager₁ :=
    ⟨cached, fits.1, rc, written⟩
  have second : CallStep database Contains pager₁ (.modify pgno pData) _ :=
    ⟨trivial, ⟨allowed, fun _ _ _ => trivial⟩, sqliteOk, rfl⟩
  rcases roomy₁.progress with ⟨file, list, progress, _⟩
  have underWay : UnderWay Contains origin start pager₁ := ⟨file, list, progress⟩
  exact ⟨rc, pager₁, written, (Trace.nil.snoc first).snoc second, underWay.opened isWriteable⟩

end EspSqlite.Rollback
