import EspSqlite.Rollback.Dense
import EspSqlite.Rollback.Logged

/-! # What a playback writes

The playback of a transaction's journal writes its synced pages exactly when they read
as they were written. -/

namespace EspSqlite.Rollback

open Vfs
open Journal (BlockFile MemFile cacheBlockSz)

def WritesPage (pageSize : Nat) (write : DbWrite) (place : Nat × Record) : Prop :=
  write.1 = (place.2.pgno - 1) * pageSize ∧ write.2.1 = pageSize ∧
    ∀ index < pageSize, write.2.2 index = place.2.content index

def WritesPages (pageSize : Nat) (writes : List DbWrite) (list : List (Nat × Record)) : Prop :=
  List.Forall₂ (WritesPage pageSize) writes list

theorem WritesPages.split {pageSize : Nat} {early late : List DbWrite}
    {first rest : List (Nat × Record)} (sameLength : early.length = first.length) :
    WritesPages pageSize (early ++ late) (first ++ rest) ↔
      WritesPages pageSize early first ∧ WritesPages pageSize late rest := by
  constructor
  · intro writes
    have front := List.forall₂_take_append _ _ _ writes
    have back := List.forall₂_drop_append _ _ _ writes
    rw [List.take_left' sameLength] at front
    rw [List.drop_left' sameLength] at back
    exact ⟨front, back⟩
  · exact fun writes => List.rel_append writes.1 writes.2

section Congr

variable {pageSize : Nat} {map : BlockFile} {stack : Nat → Nat → UInt8} {left right : Nat → UInt8}
  {list : List (Nat × Record)}

theorem CleanFrom.congr (clean : CleanFrom pageSize map stack left list)
    (agree : ∀ index < pageSize, right index = left index) :
    CleanFrom pageSize map stack right list := by
  cases list with
  | nil => trivial
  | cons place rest => exact ⟨clean.1.congr agree, clean.2⟩

theorem lastPage_congr (agree : ∀ index < pageSize, right index = left index) :
    ∀ index < pageSize, lastPage right list index = lastPage left list index := by
  cases list with
  | nil => exact agree
  | cons place rest => exact fun _ _ => rfl

end Congr

/-! ## The records that are stored -/

section Stored

variable {DbFile : Type} {pager : Pager MemFile DbFile}

def Pager.stored (pager : Pager MemFile DbFile) (list : List (Nat × Record)) :
    List (Nat × Record) :=
  list.filter fun place => pager.stores place.1

theorem Pager.stored_append (first rest : List (Nat × Record)) :
    pager.stored (first ++ rest) = pager.stored first ++ pager.stored rest :=
  List.filter_append _ _

theorem ge_of_mem_recordPlaces {pageSize : Nat} {records : List Record} : ∀ {position : Nat}
    {place : Nat × Record}, place ∈ recordPlaces pageSize position records →
    position ≤ place.1 := by
  induction records with
  | nil => exact fun member => absurd member List.not_mem_nil
  | cons record rest induction =>
      intro position place member
      rcases List.mem_cons.mp member with rfl | member
      · exact Nat.le_refl _
      · exact Nat.le_trans (Nat.le_add_right _ _) (induction member)

theorem ge_of_mem_places {pageSize sectorSize : Nat} (power : BlockPower sectorSize)
    {segments : List Segment} : ∀ {position : Nat} {place : Nat × Record},
    place ∈ places pageSize sectorSize position segments → position ≤ place.1 := by
  induction segments with
  | nil => exact fun member => absurd member List.not_mem_nil
  | cons segment rest induction =>
      intro position place member
      have after := (journalHdrOffset_bounds power position).1
      rcases List.mem_append.mp member with here | later
      · have inSegment := ge_of_mem_recordPlaces here
        omega
      · have beyond := induction later
        rw [segmentEnd] at beyond
        omega

theorem Pager.stored_eq_nil {list : List (Nat × Record)} {position : Nat}
    (unstored : pager.stores position = false) (later : ∀ place ∈ list, position ≤ place.1) :
    pager.stored list = [] := by
  simp only [Pager.stored, List.filter_eq_nil_iff]
  intro place member stored
  have after := later place member
  simp only [Pager.stores, Bool.and_eq_true, Bool.or_eq_true, decide_eq_true_iff] at stored
  rw [← Bool.not_eq_true] at unstored
  apply unstored
  simp only [Pager.stores, Bool.and_eq_true, Bool.or_eq_true, decide_eq_true_iff]
  exact ⟨stored.1, stored.2.imp id fun inside => by omega⟩

theorem Pager.stored_cons {place : Nat × Record} (stores : pager.stores place.1 = true)
    (rest : List (Nat × Record)) : pager.stored (place :: rest) = place :: pager.stored rest :=
  List.filter_cons_of_pos (p := fun place : Nat × Record => pager.stores place.1) stores

theorem Pager.stored_cons_eq_nil {place : Nat × Record} {rest : List (Nat × Record)}
    (unstored : pager.stores place.1 = false) (later : ∀ other ∈ rest, place.1 ≤ other.1) :
    pager.stored (place :: rest) = [] := by
  apply Pager.stored_eq_nil unstored
  intro other member
  rcases List.mem_cons.mp member with rfl | member
  · exact Nat.le_refl _
  · exact later other member

end Stored

/-! ## One page -/

section Log

variable {DbFile : Type} {database : IoMethods DbFile} {Contains : DbFile → ByteFile → Prop}
  (law : DatabaseFile database Contains)

def HoldsPages (Contains : DbFile → ByteFile → Prop) (pageSize dbSize : Nat) (fd : DbFile) : Prop :=
  ∃ content, Contains fd content ∧ dbSize * pageSize ≤ content.size ∧ content.size < 2 ^ 31

/-- What the playback of records leaves in a pager that goes on from `journalOff`. -/
structure Pager.Played (Contains : DbFile → ByteFile → Prop)
    (pager played : Pager MemFile (DbFile × List DbWrite)) (writes : List DbWrite)
    (journalOff : Nat) : Prop where
  jfd : played.jfd = pager.jfd
  holds : HoldsPages Contains pager.pageSize pager.dbSize played.fd.1
  log : played.fd.2 = pager.fd.2 ++ writes
  journalOff : played.journalOff = journalOff
  dbSize : played.dbSize = pager.dbSize
  pageSize : played.pageSize = pager.pageSize
  sectorSize : played.sectorSize = pager.sectorSize
  journalHdr : played.journalHdr = pager.journalHdr
  stores : played.stores = pager.stores

def Pager.pageWrite (pager : Pager MemFile (DbFile × List DbWrite)) (pgno : Nat) : DbWrite :=
  ((pgno - 1) * pager.pageSize, pager.pageSize, pager.pTmpSpace)

include law in
theorem restorePage_writes (pager : Pager MemFile (DbFile × List DbWrite)) {position dbSize : Nat}
    {record : Record} (valid : record.Valid pager.pageSize dbSize) (positive : 0 < pager.pageSize)
    (holds : HoldsPages Contains pager.pageSize dbSize pager.fd.1)
    (atEnd : pager.journalOff = position + journalPgSz pager.pageSize) :
    ∃ fd dbFileSize nReserve dbFileVers pPCache,
      restorePage database.logging pager record.pgno =
        some (sqliteOk, pager.restored (fd, pager.fd.2 ++
            if pager.stores position then [pager.pageWrite record.pgno] else [])
          dbFileSize nReserve dbFileVers pPCache) ∧
      HoldsPages Contains pager.pageSize dbSize fd := by
  rcases holds with ⟨content, contains, fits, small⟩
  have inFile := valid.inFile fits
  let nReserve := if record.pgno = 1 then (pager.pTmpSpace 20).toNat else pager.nReserve
  let dbFileVers := if record.pgno = 1 ∧ (pager.pPCache record.pgno).isSome = true then
    memcpy pager.dbFileVers 0 (fun index => pager.pTmpSpace (24 + index)) 16 else pager.dbFileVers
  let pPCache := (pager.updatePage record.pgno fun pPg =>
    { pPg with pData := memcpy pPg.pData 0 pager.pTmpSpace pager.pageSize }).pPCache
  cases stores : pager.stores position with
  | true =>
      have below : (record.pgno - 1) * pager.pageSize + pager.pageSize < 2 ^ 31 := by omega
      rcases law.write pager.pTmpSpace contains positive (by omega) below with
        ⟨fd, written, contains'⟩
      have isSize : (content.write ((record.pgno - 1) * pager.pageSize) pager.pageSize
          pager.pTmpSpace).size = content.size := Nat.max_eq_left inFile
      simp only [Pager.stores, ← atEnd] at stores
      refine ⟨fd, if record.pgno > pager.dbFileSize then record.pgno else pager.dbFileSize,
        nReserve, dbFileVers, pPCache, ?_, _, contains', isSize ▸ fits, isSize ▸ small⟩
      simp only [restorePage, stores, if_true, IoMethods.logging, written, Option.map_some]
      rfl
  | false =>
      simp only [Pager.stores, ← atEnd] at stores
      refine ⟨pager.fd.1, pager.dbFileSize, nReserve, dbFileVers, pPCache, ?_, content, contains,
        fits, small⟩
      simp only [restorePage, stores, Bool.false_eq_true, if_false, Option.map_some,
        List.append_nil]
      rfl

variable {map : BlockFile} {stack : Nat → Nat → UInt8}

variable (stack) in
include law in
/-- Every record is read, or the playback stops before the last of them. The stored pages
are written as they were exactly when they are clean. -/
theorem playbackRecords_writes (szJ : Nat) {records : List Record} :
    ∀ (pager : Pager MemFile (DbFile × List DbWrite)) {list : List (Nat × Record)},
    pager.jfd.Models map → pager.pageSize % 4 = 0 → 0 < pager.pageSize →
    pager.journalOff % 4 = 0 → HoldsPages Contains pager.pageSize pager.dbSize pager.fd.1 →
    pager.dbSize < 2 ^ 32 → pager.cksumInit < 2 ^ 32 →
    (∀ record ∈ records, record.Valid pager.pageSize pager.dbSize) →
    RecordsAt pager.pageSize pager.cksumInit map pager.journalOff records →
    pager.journalOff + records.length * journalPgSz pager.pageSize ≤ journalLimit →
    recordPlaces pager.pageSize pager.journalOff records = list →
    ∃ rc played writes, playbackRecords memory database.logging stack szJ records.length pager =
        some (false, rc, played) ∧
      (WritesPages pager.pageSize writes (pager.stored list) ↔
        CleanFrom pager.pageSize map stack pager.pTmpSpace (pager.stored list)) ∧
      (pager.Played Contains played writes
            (pager.journalOff + records.length * journalPgSz pager.pageSize) ∧
          writes.length = (pager.stored list).length ∧
          ((∀ place ∈ list, pager.stores place.1 = true) →
            WritesPages pager.pageSize writes (pager.stored list) →
            ∀ index < pager.pageSize, played.pTmpSpace index =
              lastPage pager.pTmpSpace list index) ∨
        pager.Played Contains played writes szJ ∧
          (writes.length < (pager.stored list).length ∨
            ∃ place ∈ list, pager.stores place.1 = false)) := by
  induction records with
  | nil =>
      rintro pager _ _ _ _ _ holds _ _ _ _ _ rfl
      refine ⟨sqliteOk, pager, [], rfl, ⟨fun _ => trivial, fun _ => .nil⟩, Or.inl ⟨⟨rfl, holds,
        (List.append_nil _).symm, ?_, rfl, rfl, rfl, rfl, rfl⟩, rfl, fun _ _ _ _ => rfl⟩⟩
      rw [List.length_nil, Nat.zero_mul, Nat.add_zero]
  | cons record rest induction =>
      rintro pager _ models whole positive aligned holds smallSize smallSum valid held bounded rfl
      rw [List.length_cons, Nat.succ_mul] at bounded ⊢
      let later := recordPlaces pager.pageSize (pager.journalOff + journalPgSz pager.pageSize) rest
      have isList : recordPlaces pager.pageSize pager.journalOff (record :: rest) =
          (pager.journalOff, record) :: later := rfl
      rw [isList]
      have validHere := valid record List.mem_cons_self
      have page : pagerPlaybackOnePage memory database.logging stack pager = _ :=
        playbackOnePage_eq database.logging models rfl held.1 validHere smallSize (by omega)
      have noneStored : pager.stores pager.journalOff = false →
          pager.stored ((pager.journalOff, record) :: later) = [] := fun unstored =>
        Pager.stored_cons_eq_nil unstored fun other member =>
          Nat.le_trans (Nat.le_add_right _ _) (ge_of_mem_recordPlaces member)
      by_cases wrong : pagerCksum pager.cksumInit pager.pageSize
            (map.pull (pager.journalOff + 4) pager.pageSize pager.pTmpSpace) ≠
          sqlite3Get4byte (map.pull (pager.journalOff + 4 + pager.pageSize) 4
            (stack (pager.journalOff + 4 + pager.pageSize)))
      · rw [if_pos wrong] at page
        have stops : pager.Played Contains
            { pager.pageRead map pager.journalOff with journalOff := szJ } [] szJ :=
          ⟨rfl, holds, (List.append_nil _).symm, rfl, rfl, rfl, rfl, rfl, rfl⟩
        refine ⟨sqliteDone, { pager.pageRead map pager.journalOff with journalOff := szJ }, [], ?_,
          ?_⟩
        · rw [playbackRecords, page]
          rfl
        · cases stores : pager.stores pager.journalOff with
          | true =>
              rw [Pager.stored_cons stores]
              refine ⟨⟨fun wrote => ?_, fun clean => ?_⟩, Or.inr ⟨stops, Or.inl (Nat.succ_pos _)⟩⟩
              · cases wrote
              · exact absurd (clean.1.reads positive held.1 smallSum).2 wrong
          | false =>
              rw [noneStored stores]
              exact ⟨⟨fun _ => trivial, fun _ => .nil⟩,
                Or.inr ⟨stops, Or.inr ⟨_, List.mem_cons_self, stores⟩⟩⟩
      · rw [if_neg wrong] at page
        have right := not_not.mp wrong
        rcases restorePage_writes law (pager.pageRead map pager.journalOff) validHere positive
          holds rfl with ⟨fd, dbFileSize, nReserve, dbFileVers, pPCache, restored, holds'⟩
        let write := (pager.pageRead map pager.journalOff).pageWrite record.pgno
        let written := if pager.stores pager.journalOff then [write] else []
        let next := (pager.pageRead map pager.journalOff).restored (fd, pager.fd.2 ++ written)
          dbFileSize nReserve dbFileVers pPCache
        have alignedNext : next.journalOff % 4 = 0 := by
          simp only [next, Pager.restored, Pager.pageRead, journalPgSz]
          omega
        have boundedNext : next.journalOff + rest.length * journalPgSz next.pageSize ≤
            journalLimit := by
          simp only [next, Pager.restored, Pager.pageRead]
          omega
        rcases induction next models whole positive alignedNext holds' smallSize smallSum
          (fun other member => valid other (List.mem_cons_of_mem record member)) held.2
          boundedNext rfl with ⟨rc, played, writes, isPlayed, exactly, result⟩
        have after : ∀ {stop}, next.Played Contains played writes stop →
            pager.Played Contains played (written ++ writes) stop := by
          intro stop result
          refine ⟨result.jfd, result.holds, ?_, result.journalOff, result.dbSize, result.pageSize,
            result.sectorSize, result.journalHdr, result.stores⟩
          rw [result.log]
          exact List.append_assoc _ _ _
        have isEnd : pager.journalOff + (rest.length * journalPgSz pager.pageSize +
            journalPgSz pager.pageSize) =
            next.journalOff + rest.length * journalPgSz next.pageSize := by
          simp only [next, Pager.restored, Pager.pageRead]
          omega
        refine ⟨rc, played, written ++ writes, ?_, ?_⟩
        · rw [playbackRecords, page, restored]
          exact isPlayed
        rw [isEnd]
        cases stores : pager.stores pager.journalOff with
        | true =>
            have isWritten : written = [write] := if_pos stores
            have isClean : (∀ index < pager.pageSize, write.2.2 index = record.content index) ↔
                Clean pager.pageSize map stack pager.journalOff pager.pTmpSpace :=
              ⟨fun same => clean_of_reads aligned whole positive held.1 same right smallSum,
                fun clean => (clean.reads positive held.1 smallSum).1⟩
            rw [Pager.stored_cons stores, isWritten]
            rw [isWritten] at after
            refine ⟨⟨?_, ?_⟩, result.imp ?_ ?_⟩
            · intro wrote
              cases wrote with
              | cons here rest =>
                  exact ⟨isClean.mp here.2.2, (exactly.mp rest).congr
                    fun index inPage => (here.2.2 index inPage).symm⟩
            · rintro ⟨clean, cleanRest⟩
              have same := isClean.mpr clean
              exact .cons ⟨rfl, rfl, same⟩ (exactly.mpr (cleanRest.congr same))
            · rintro ⟨finished, sameLength, last⟩
              refine ⟨after finished, congrArg Nat.succ sameLength, fun allStored wrote => ?_⟩
              cases wrote with
              | cons here rest =>
                  intro index inPage
                  exact (last (fun other member =>
                      allStored other (List.mem_cons_of_mem _ member)) rest index inPage).trans
                    (lastPage_congr here.2.2 index inPage)
            · rintro ⟨stopped, reason⟩
              refine ⟨after stopped, reason.imp Nat.succ_lt_succ ?_⟩
              rintro ⟨other, member, unstored⟩
              exact ⟨other, List.mem_cons_of_mem _ member, unstored⟩
        | false =>
            have noneLater : pager.stored later = [] :=
              Pager.stored_eq_nil stores fun other member =>
                Nat.le_trans (Nat.le_add_right _ _) (ge_of_mem_recordPlaces member)
            have isWritten : written = [] := if_neg (Bool.not_eq_true _ ▸ stores)
            rw [isWritten] at after
            rw [noneStored stores, isWritten]
            have noneNext :
                next.stored (recordPlaces next.pageSize next.journalOff rest) = [] := noneLater
            rw [noneNext] at exactly result
            have isNil : writes = [] := List.forall₂_nil_right_iff.mp (exactly.mpr trivial)
            rw [isNil] at result after ⊢
            have unstored : ∃ place ∈ (pager.journalOff, record) :: later,
                pager.stores place.1 = false := ⟨_, List.mem_cons_self, stores⟩
            refine ⟨⟨fun _ => trivial, fun _ => .nil⟩, result.imp ?_ ?_⟩
            · rintro ⟨finished, _, _⟩
              refine ⟨after finished, rfl, fun allStored => ?_⟩
              rw [allStored _ List.mem_cons_self] at stores
              cases stores
            · exact fun stopped => ⟨after stopped.1, Or.inr unstored⟩

include law in
theorem truncates_logging (pager : Pager MemFile (DbFile × List DbWrite)) {dbOrigSize : Nat}
    (positive : 0 < pager.pageSize)
    (holds : HoldsPages Contains pager.pageSize dbOrigSize pager.fd.1) :
    ∃ fd dbFileSize, pagerTruncate database.logging pager dbOrigSize =
        some (sqliteOk, { pager with fd, dbFileSize }) ∧
      HoldsPages Contains pager.pageSize dbOrigSize fd.1 ∧ fd.2 = pager.fd.2 := by
  rcases holds with ⟨content, contains, fits, small⟩
  have isSize : database.logging.xFileSize pager.fd = _ := law.size contains
  refine pagerTruncate_keeps
    (fun fd => HoldsPages Contains pager.pageSize dbOrigSize fd.1 ∧ fd.2 = pager.fd.2) pager isSize
    ⟨⟨content, contains, fits, small⟩, rfl⟩ (fun bytes => ?_) positive fits
  rcases law.truncate bytes contains with ⟨fd, truncated, contains'⟩
  refine ⟨(fd, pager.fd.2), ?_, ⟨content, contains', fits, small⟩, rfl⟩
  simp only [IoMethods.logging, truncated]
  rfl

variable (stack) in
include law in
theorem playbackLoop_writes {sectorSize dbOrigSize szJ : Nat} {segments : List Segment} :
    ∀ (pager : Pager MemFile (DbFile × List DbWrite)) {fuel : Nat} {list : List (Nat × Record)},
    pager.jfd.Models map → pager.sectorSize = sectorSize → Sizes pager.pageSize sectorSize →
    pager.journalOff = 0 ∨ 0 < pager.journalOff ∧ pager.dbSize = dbOrigSize →
    HoldsPages Contains pager.pageSize dbOrigSize pager.fd.1 → dbOrigSize < 2 ^ 32 →
    szJ ≤ journalLimit →
    (∀ segment ∈ segments, ∀ record ∈ segment.records, record.Valid pager.pageSize dbOrigSize) →
    SegmentsAt pager.pageSize sectorSize dbOrigSize pager.journalHdr szJ map pager.journalOff
      segments →
    places pager.pageSize sectorSize pager.journalOff segments = list → segments.length < fuel →
    ∃ played writes, playbackLoop memory database.logging stack szJ fuel pager =
        some (sqliteOk, played) ∧
      played.fd.2 = pager.fd.2 ++ writes ∧
      (WritesPages pager.pageSize writes (pager.stored list) ↔
        CleanFrom pager.pageSize map stack pager.pTmpSpace (pager.stored list)) := by
  induction segments with
  | nil =>
      rintro pager (_ | fuel) _ models rfl sizes _ _ _ _ _ held rfl enough
      · exact absurd enough (Nat.not_lt_zero _)
      · have ended : journalHdrOffset pager.sectorSize pager.journalOff + pager.sectorSize > szJ :=
          held
        refine ⟨{ pager with journalOff := journalHdrOffset pager.sectorSize pager.journalOff }, [],
          ?_, (List.append_nil _).symm, fun _ => trivial, fun _ => .nil⟩
        simp only [playbackLoop, readJournalHdr, if_pos ended, Option.bind_some]
        rfl
  | cons segment rest induction =>
      rintro pager (_ | fuel) _ models rfl sizes start holds smallSize bounded valid held rfl enough
      · exact absurd enough (Nat.not_lt_zero _)
      generalize isHeader : journalHdrOffset pager.sectorSize pager.journalOff = position
      have positive := sizes.positive
      have sector := sizes.sector.ge
      have pageWhole := sizes.page.mod_eq
      have sectorWhole := sizes.sector.mod_eq
      have positionWhole := journalHdrOffset_mod sizes.sector pager.journalOff
      rw [isHeader] at positionWhole
      simp only [cacheBlockSz] at pageWhole sectorWhole positionWhole
      rcases playbackLoop_round stack
        (fun fd => HoldsPages Contains pager.pageSize dbOrigSize fd.1 ∧ fd.2 = pager.fd.2) pager
        models sizes start smallSize bounded held isHeader ⟨holds, rfl⟩
        (truncates_logging law (pager.atSegment position segment) positive holds) fuel with
        ⟨fd, dbFileSize, ⟨holds', sameLog⟩, round⟩
      rcases held with ⟨inside, _, records, _, smallFields, later⟩
      rw [isHeader] at inside records later
      rw [segmentEnd] at inside
      let begun : Pager MemFile (DbFile × List DbWrite) :=
        { pager.atSegment position segment with fd, dbFileSize, dbSize := dbOrigSize }
      have whole : begun.pageSize % 4 = 0 := by
        simp only [begun, Pager.atSegment]
        omega
      have aligned : begun.journalOff % 4 = 0 := by
        simp only [begun, Pager.atSegment]
        omega
      generalize isHere : recordPlaces pager.pageSize (position + pager.sectorSize)
        segment.records = here
      generalize isLater : places pager.pageSize pager.sectorSize
        (segmentEnd pager.pageSize pager.sectorSize position segment) rest = others
      have isList : places pager.pageSize pager.sectorSize pager.journalOff (segment :: rest) =
          here ++ others := by rw [places, isHeader, isHere, isLater]
      rw [isList, Pager.stored_append]
      -- what follows a record that is not stored is not stored either
      have noneLater : (∃ place ∈ here, pager.stores place.1 = false) →
          pager.stored others = [] := by
        rintro ⟨place, member, unstored⟩
        apply Pager.stored_eq_nil unstored
        intro other inOthers
        have before := le_of_mem_recordPlaces (isHere ▸ member)
        have after := ge_of_mem_places sizes.sector (isLater ▸ inOthers)
        rw [segmentEnd] at after
        omega
      rcases playbackRecords_writes law stack szJ begun models whole positive aligned holds'
        smallSize smallFields.cksumInit (valid segment List.mem_cons_self) records
        (Nat.le_trans inside bounded) isHere with
        ⟨rc, played, writes, isPlayed, exactly, ⟨result, sameLength, last⟩ | ⟨result, reason⟩⟩
      · have beyond : 0 < played.journalOff := by
          rw [result.journalOff]
          simp only [begun, Pager.atSegment]
          omega
        have isOthers :
            places played.pageSize pager.sectorSize played.journalOff rest = others := by
          rw [result.pageSize, result.journalOff]
          exact isLater
        rcases induction played (result.jfd ▸ models) result.sectorSize (result.pageSize ▸ sizes)
          (Or.inr ⟨beyond, result.dbSize⟩) (result.pageSize ▸ result.holds) smallSize bounded
          (by
            rw [result.pageSize]
            exact fun other member => valid other (List.mem_cons_of_mem segment member))
          (by
            rw [result.pageSize, result.journalHdr, result.journalOff]
            exact later)
          isOthers (Nat.lt_of_succ_lt_succ enough) with
          ⟨final, moreWrites, looped, isLog, exactlyRest⟩
        have sameStored : played.stored others = pager.stored others := by
          rw [Pager.stored, result.stores]
          rfl
        rw [result.pageSize, sameStored] at exactlyRest
        refine ⟨final, writes ++ moreWrites, ?_, ?_, ?_⟩
        · rw [round, show playbackRecords memory database.logging stack szJ _ _ = _ from isPlayed]
          exact looped
        · rw [isLog, result.log, List.append_assoc]
          exact congrArg (· ++ _) sameLog
        by_cases allStored : ∀ place ∈ here, pager.stores place.1 = true
        · have isStored : pager.stored here = here := List.filter_eq_self.mpr allStored
          have lastRead := last allStored
          have begunStores : begun.stored here = here := isStored
          rw [begunStores] at exactly sameLength lastRead
          rw [isStored, WritesPages.split sameLength, cleanFrom_append]
          constructor
          · rintro ⟨written, writtenRest⟩
            exact ⟨exactly.mp written, (exactlyRest.mp writtenRest).congr
              fun index inPage => (lastRead written index inPage).symm⟩
          · rintro ⟨clean, cleanRest⟩
            have written := exactly.mpr clean
            exact ⟨written, exactlyRest.mpr (cleanRest.congr (lastRead written))⟩
        · simp only [not_forall, Bool.not_eq_true, exists_prop] at allStored
          have none := noneLater allStored
          rw [none] at exactlyRest ⊢
          have isNil : moreWrites = [] := List.forall₂_nil_right_iff.mp (exactlyRest.mpr trivial)
          rw [isNil, List.append_nil, List.append_nil]
          exact exactly
      · obtain ⟨fuel, rfl⟩ := Nat.exists_eq_succ_of_ne_zero (Nat.ne_zero_of_lt
          (Nat.lt_of_succ_lt_succ enough))
        have ended : journalHdrOffset played.sectorSize played.journalOff + played.sectorSize >
            szJ := by
          have atEnd := (journalHdrOffset_bounds sizes.sector szJ).1
          rw [result.journalOff, result.sectorSize]
          simp only [begun, Pager.atSegment]
          omega
        refine ⟨{ played with
          journalOff := journalHdrOffset played.sectorSize played.journalOff }, writes, ?_, ?_, ?_⟩
        · rw [round, show playbackRecords memory database.logging stack szJ _ _ = _ from isPlayed]
          simp only [Option.bind_some, Bool.false_eq_true, if_false]
          simp only [playbackLoop, readJournalHdr, if_pos ended, Option.bind_some]
          rfl
        · exact result.log.trans (congrArg (· ++ _) sameLog)
        rcases reason with shorter | unstored
        · have notWritten : ¬WritesPages pager.pageSize writes (pager.stored here) := fun written =>
            absurd (List.Forall₂.length_eq written) (Nat.ne_of_lt shorter)
          constructor
          · intro written
            have sameLength := List.Forall₂.length_eq written
            rw [List.length_append] at sameLength
            exact absurd shorter (Nat.not_lt.mpr (Nat.le.intro sameLength.symm))
          · intro clean
            exact absurd (exactly.mpr (cleanFrom_append.mp clean).1) notWritten
        · rw [noneLater unstored, List.append_nil]
          exact exactly

/-! ## A transaction -/

/-- The playback ends without an error, and writes the pages of the records, one after
another, if and only if they are clean. -/
def WritesClean (database : IoMethods DbFile) (map : BlockFile) (stack : Nat → Nat → UInt8)
    (list : List (Nat × Record)) (pager : Pager MemFile DbFile) : Prop :=
  ∀ (char : UInt8 → Int) (access : (Nat → UInt8) → Bool) (mxPathname : Nat),
    ∃ played, pagerPlayback memory database.logging char access mxPathname stack pager.logged =
        some (sqliteOk, played) ∧
      pagerPlayback memory database char access mxPathname stack pager =
        some (sqliteOk, played.unlogged) ∧
      (WritesPages pager.pageSize played.fd.2 list ↔
        CleanFrom pager.pageSize map stack (memsetZero pager.pTmpSpace 0 1) list)

include law in
/-- After any run of a transaction the rollback ends without an error, and writes the original
pages of the synced records if and only if these read as they were written. -/
theorem transaction_writes {origin : ByteFile} {start pager : Pager MemFile DbFile}
    (reader : Reader Contains origin start) {calls : List Call}
    (trace : Trace (CallStep database Contains) (sqlite3PagerBegin start) calls pager)
    (opened : pager.eState ≠ .writerLocked) :
    ∃ map segments, Journals origin start pager map segments ∧
      ∀ stack, Unnamed stack pager.jfd → WritesClean database map stack
        (pager.stored (places start.pageSize pager.sectorSize 0 segments)) pager := by
  rcases trace_underWay law reader trace with ⟨file, list, progress⟩
  have based := progress.based
  rcases progress.journals opened with ⟨map, segments, journals, bounded, _⟩
  refine ⟨map, segments, journals, ?_⟩
  intro stack unnamed char access mxPathname
  have models := journals.models
  have held := journals.laidOut
  have valid := journals.valid
  rw [← based.isPageSize] at held valid ⊢
  let begun : Pager MemFile (DbFile × List DbWrite) :=
    { pager.logged with pTmpSpace := memsetZero pager.pTmpSpace 0 1, journalOff := 0 }
  have holds : HoldsPages Contains begun.pageSize start.dbSize begun.fd.1 :=
    ⟨file, based.contains, based.isOrigSize ▸ based.fits, based.small⟩
  have sizes := progress.phase.sizes
  rcases playbackLoop_writes law stack begun models rfl sizes (.inl rfl) holds
    (Nat.lt_trans progress.smallSize (by decide)) bounded valid held rfl
    (held.length_lt sizes.sector) with ⟨played, writes, looped, isLog, exactly⟩
  have modelsLogged : pager.logged.jfd.Models map := models
  have isPlayed : pagerPlayback memory database.logging char access mxPathname stack
      pager.logged = some (sqliteOk, played) :=
    (pagerPlayback_eq modelsLogged bounded (unnamed.read models bounded) char access
      mxPathname).trans looped
  have isWrites : played.fd.2 = writes := isLog
  refine ⟨played, isPlayed, ?_, isWrites ▸ exactly⟩
  have watched := pagerPlayback_logging memory database stack pager.logged char access mxPathname
  rw [isPlayed] at watched
  exact watched.symm

end Log

section Transaction

variable {sd : FileStore OpenFlags} {spiffs : FileStore (List Char)}
  {sdArrays : sd.ByteArrays sdAccess} {spiffsArrays : spiffs.ByteArrays fopenAccess}

def zerosReader : Pager MemFile (World (memoryStore sdAccess) (memoryStore fopenAccess)) :=
  { pageReader with
    noSync := true
    fd := { pageWorld with
      sdState := fun _ => some ⟨1024, fun index => if index < 512 then 5 else 0⟩ } }

/-- The page of zeros is not written after the page of fives, and no error is returned. -/
example : (((sqlite3PagerWrite (fun _ => pageFetch) 1).run
    (pagerMachine (esp8266IoMethods pageFile)) (sqlite3PagerBegin zerosReader)).bind fun written =>
      (pagerPlayback memory (esp8266IoMethods pageFile).logging (fun _ => 0) (fun _ => true) 512
        (fun _ _ => 0) (synced written.2).logged).map fun played =>
          (played.1, played.2.fd.2.map Prod.fst)) = some (sqliteOk, [0]) := by
  decide +kernel

end Transaction

end EspSqlite.Rollback
