import EspSqlite.Rollback.Playback

/-! # A database file with its writes

A playback is watched through methods that keep the writes made to a database file
beside it. It does to the file what it does without them. -/

namespace EspSqlite.Rollback

open Vfs (sqliteOk)

abbrev DbWrite := Nat × Nat × (Nat → UInt8)

variable {JournalFile DbFile : Type}

def IoMethods.logging (methods : IoMethods DbFile) : IoMethods (DbFile × List DbWrite) where
  xRead fd buffer amount offset :=
    (methods.xRead fd.1 buffer amount offset).map (Prod.map id (Prod.map id (·, fd.2)))
  xWrite fd buffer amount offset :=
    (methods.xWrite fd.1 buffer amount offset).map
      (Prod.map id (·, fd.2 ++ [(offset, amount, buffer)]))
  xTruncate fd bytes := (methods.xTruncate fd.1 bytes).map (Prod.map id (·, fd.2))
  xSync fd := (methods.xSync fd.1).map (Prod.map id (·, fd.2))
  xFileSize fd := methods.xFileSize fd.1
  xDeviceCharacteristics fd := methods.xDeviceCharacteristics fd.1

namespace Pager

def logged (pager : Pager JournalFile DbFile) : Pager JournalFile (DbFile × List DbWrite) :=
  { pager with fd := (pager.fd, []) }

abbrev unlogged (pager : Pager JournalFile (DbFile × List DbWrite)) : Pager JournalFile DbFile :=
  { pager with fd := pager.fd.1 }

end Pager

section Watched

variable {State State' Result Result' Value Value' : Type} (call : Option (Nat × State))

theorem onOk_mapped (watch : State → State') (failed : Nat → State' → Result)
    (next : State' → Option Result) :
    onOk (call.map (Prod.map id watch)) failed next =
      onOk call (fun rc state => failed rc (watch state)) fun state => next (watch state) := by
  cases call with
  | none => rfl
  | some result => rfl

theorem onOk_map (failed : Nat → State → Result) (next : State → Option Result)
    (watch : Result → Result') :
    (onOk call failed next).map watch =
      onOk call (fun rc state => watch (failed rc state)) fun state => (next state).map watch := by
  rcases call with _ | ⟨rc, state⟩
  · rfl
  · simp only [onOk, Option.bind_some]
    split <;> rfl

theorem onOk_watched {watchState : State → State'} {watch : Result → Result'}
    {failed : Nat → State → Result} {failed' : Nat → State' → Result'}
    {next : State → Option Result} {next' : State' → Option Result'}
    (sameFailed : ∀ rc state, watch (failed rc state) = failed' rc (watchState state))
    (same : ∀ state, (next state).map watch = next' (watchState state)) :
    (onOk call failed next).map watch =
      onOk (call.map (Prod.map id watchState)) failed' next' := by
  simp only [onOk_map, onOk_mapped, sameFailed, same]

theorem bind_watched (call : Option Result) {watch : Result → Result'}
    {next : Result → Option Value} {next' : Result' → Option Value'} {watchValue : Value → Value'}
    (same : ∀ result, (next result).map watchValue = next' (watch result)) :
    (call.bind next).map watchValue = (call.map watch).bind next' := by
  cases call with
  | none => rfl
  | some result => exact same result

end Watched

section Playback

variable (journal : IoMethods JournalFile) (database : IoMethods DbFile)
  (stack : Nat → Nat → UInt8) (pager : Pager JournalFile (DbFile × List DbWrite))

theorem restorePage_logging (pgno : Nat) :
    (restorePage database.logging pager pgno).map (Prod.map id Pager.unlogged) =
      restorePage database pager.unlogged pgno := by
  simp only [restorePage]
  by_cases stores : (pager.eState.mayWrite &&
    (pager.noSync || decide (pager.journalOff ≤ pager.journalHdr))) = true
  · simp only [stores, if_true, IoMethods.logging]
    cases database.xWrite pager.fd.1 pager.pTmpSpace pager.pageSize
      ((pgno - 1) * pager.pageSize) with
    | none => rfl
    | some written => rfl
  · simp only [stores, Bool.false_eq_true, if_false]
    rfl

theorem pagerPlaybackOnePage_logging :
    (pagerPlaybackOnePage journal database.logging stack pager).map (Prod.map id Pager.unlogged) =
      pagerPlaybackOnePage journal database stack pager.unlogged := by
  simp only [pagerPlaybackOnePage, onOk_map, apply_ite (Option.map _), Option.map_some,
    restorePage_logging]
  rfl

theorem playbackRecords_logging (szJ : Nat) (rounds : Nat) :
    ∀ pager : Pager JournalFile (DbFile × List DbWrite),
    (playbackRecords journal database.logging stack szJ rounds pager).map
        (Prod.map id (Prod.map id Pager.unlogged)) =
      playbackRecords journal database stack szJ rounds pager.unlogged := by
  induction rounds with
  | zero => exact fun _ => rfl
  | succ rounds induction =>
      intro pager
      rw [playbackRecords, playbackRecords, ← pagerPlaybackOnePage_logging]
      refine bind_watched _ fun ⟨rc, pager⟩ => ?_
      simp only [apply_ite (Option.map _), induction]
      rfl

theorem readJournalHdr_logging (szJ : Nat) :
    (readJournalHdr journal stack pager szJ).map
        (Prod.map id (Prod.map id (Prod.map id Pager.unlogged))) =
      readJournalHdr journal stack pager.unlogged szJ := by
  simp only [readJournalHdr, onOk_map, apply_ite (Option.map _), Option.map_some]
  rfl

theorem pagerTruncate_logging (nPage : Nat) :
    (pagerTruncate database.logging pager nPage).map (Prod.map id Pager.unlogged) =
      pagerTruncate database pager.unlogged nPage := by
  simp only [pagerTruncate, onOk_map, apply_ite (Option.map _), Option.map_some,
    IoMethods.logging, onOk_mapped]
  rfl

theorem playbackLoop_logging (szJ : Nat) (fuel : Nat) :
    ∀ pager : Pager JournalFile (DbFile × List DbWrite),
    (playbackLoop journal database.logging stack szJ fuel pager).map (Prod.map id Pager.unlogged) =
      playbackLoop journal database stack szJ fuel pager.unlogged := by
  induction fuel with
  | zero => exact fun _ => rfl
  | succ fuel induction =>
      intro pager
      rw [playbackLoop, playbackLoop, ← readJournalHdr_logging]
      refine bind_watched _ fun ⟨rc, nRec, mxPg, pager⟩ => ?_
      simp only [apply_ite (Option.map _)]
      congr 1
      have begun : (if pager.journalOff = pager.sectorSize then
            onOk (pagerTruncate database.logging pager mxPg) Prod.mk fun pager =>
              some (sqliteOk, { pager with dbSize := mxPg })
          else some (sqliteOk, pager)).map (Prod.map id Pager.unlogged) =
          if pager.journalOff = pager.sectorSize then
            onOk (pagerTruncate database pager.unlogged mxPg) Prod.mk fun pager =>
              some (sqliteOk, { pager with dbSize := mxPg })
          else some (sqliteOk, pager.unlogged) := by
        rw [apply_ite (Option.map _), ← pagerTruncate_logging]
        congr 1
        exact onOk_watched _ (fun _ _ => rfl) fun _ => rfl
      refine Eq.trans ?_ (congrArg (onOk · Prod.mk _) begun)
      refine onOk_watched _ (fun _ _ => rfl) fun pager => ?_
      have samePage : pager.unlogged.pageSize = pager.pageSize := rfl
      rw [samePage, ← playbackRecords_logging]
      refine bind_watched _ fun ⟨ends, rc, pager⟩ => ?_
      rw [apply_ite (Option.map _), induction]
      rfl

theorem pagerPlayback_logging (char : UInt8 → Int) (access : (Nat → UInt8) → Bool)
    (mxPathname : Nat) :
    (pagerPlayback journal database.logging char access mxPathname stack pager).map
        (Prod.map id Pager.unlogged) =
      pagerPlayback journal database char access mxPathname stack pager.unlogged := by
  simp only [pagerPlayback, onOk_map, apply_ite (Option.map _), playbackLoop_logging]
  rfl

end Playback

end EspSqlite.Rollback
