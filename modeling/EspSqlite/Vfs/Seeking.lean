import EspSqlite.Vfs.ReadBack

/-! # Where `vfs_lseek` leads

The position after `vfs_lseek` and the value it returns, over backends whose
seeks succeed exactly inside the file. -/

namespace EspSqlite.Vfs

variable {sd : FileStore OpenFlags} {spiffs : FileStore (List Char)}
  (sdSeeks : sd.Seeks) (spiffsSeeks : spiffs.Seeks)

def World.soughtHandle (world : World sd spiffs) (fd : VfsFile) : Option Handle :=
  match fd.fsType with
  | .fatfs => (world.sdFiles fd.fileObj).map (sdSeeks.handle world.sdState)
  | .spiffs => (world.spiffsFiles fd.fileObj).map (spiffsSeeks.handle world.spiffsState)

/-- A target in the file is returned, and the file positioned there. For any
other `VFS_RES_ERR` is returned, and the file stays where it was. -/
def ReturnsPosition (world : World sd spiffs) (fd : VfsFile) (handle : Handle) (off : Int)
    (whence : Whence) : Prop :=
  ∃ ret after handle', vfsLseek world fd off whence = some (ret, after) ∧
    after.soughtHandle sdSeeks spiffsSeeks fd = some handle' ∧
    if handle.InRange whence off then
      ret = handle.target whence off ∧ handle' = handle.moved whence off
    else
      ret = vfsResErr ∧ handle' = handle

def tried : FsType → Whence → List Whence
  | .fatfs, whence => seekCases whence
  | .spiffs, whence => [whence]

/-- A seek into the file starts from zero. After one out of the file no other is
tried that leads into it, unless it leads back to the start and `-1` is the
offset, in a file of one byte. -/
def StartsFromZero (fsType : FsType) (handle : Handle) (off : Int) (whence : Whence) : Prop :=
  if handle.InRange whence off then
    handle.base whence = 0
  else
    (∀ later ∈ (tried fsType whence).tail, ¬handle.InRange later off) ∨
      off = -1 ∧ handle.position = 0 ∧ handle.file.size = 1

/-! ## The seeks that are tried -/

def firstInRange (handle : Handle) (off : Int) (whences : List Whence) : Option Whence :=
  whences.find? fun whence => decide (handle.InRange whence off)

theorem firstInRange_eq_some {handle : Handle} {off : Int} {whences : List Whence}
    {whence : Whence} (first : firstInRange handle off whences = some whence) :
    handle.InRange whence off ∧ whence ∈ whences := by
  have holds := List.find?_some (p := fun whence => decide (handle.InRange whence off)) first
  exact ⟨of_decide_eq_true holds, List.mem_of_find?_eq_some first⟩

def landing (handle : Handle) (off : Int) : Option Whence → Int × Handle
  | none => (vfsResErr, handle)
  | some whence => (off, handle.moved whence off)

theorem seekFirst_eq (state : sd.State) (off : Int) : ∀ (whences : List Whence) (file : sd.File),
    ((seekFirst sd state off whences file).1,
      sdSeeks.handle state (seekFirst sd state off whences file).2) =
      landing (sdSeeks.handle state file) off
        (firstInRange (sdSeeks.handle state file) off whences)
  | [], _ => rfl
  | whence :: rest, file => by
      rw [seekFirst, firstInRange, List.find?_cons]
      by_cases inside : (sdSeeks.handle state file).InRange whence off
      · rcases sdSeeks.seek_inside state file whence off inside with ⟨file', sought, moved⟩
        simp only [sought, inside, decide_true, landing, moved]
      · rcases sdSeeks.seek_outside state file whence off inside with ⟨file', sought, stayed⟩
        simp only [sought, inside, decide_false]
        rw [seekFirst_eq state off rest file', stayed]
        rfl

theorem spiffsSeek_eq (state : spiffs.State) (off : Int) (whence : Whence) (file : spiffs.File) :
    ((if (spiffs.seek state file whence off).1 then off else vfsResErr),
      spiffsSeeks.handle state (spiffs.seek state file whence off).2) =
      landing (spiffsSeeks.handle state file) off
        (firstInRange (spiffsSeeks.handle state file) off [whence]) := by
  rw [firstInRange, List.find?_cons, List.find?_nil]
  by_cases inside : (spiffsSeeks.handle state file).InRange whence off
  · rcases spiffsSeeks.seek_inside state file whence off inside with ⟨file', sought, moved⟩
    simp only [sought, inside, if_true, decide_true, landing, moved]
  · rcases spiffsSeeks.seek_outside state file whence off inside with ⟨file', sought, stayed⟩
    simp only [sought, inside, Bool.false_eq_true, if_false, decide_false, landing, stayed]

variable {world : World sd spiffs} {fd : VfsFile} {handle : Handle}

theorem vfsLseek_eq (held : world.soughtHandle sdSeeks spiffsSeeks fd = some handle) (off : Int)
    (whence : Whence) :
    ∃ after, vfsLseek world fd off whence =
        some ((landing handle off (firstInRange handle off (tried fd.fsType whence))).1, after) ∧
      after.soughtHandle sdSeeks spiffsSeeks fd =
        some (landing handle off (firstInRange handle off (tried fd.fsType whence))).2 := by
  rw [World.soughtHandle] at held
  cases fsType : fd.fsType with
  | fatfs =>
      simp only [fsType, Option.map_eq_some_iff] at held
      rcases held with ⟨file, found, rfl⟩
      rcases vfsLseek_sd fsType found off whence with ⟨after, sought, placed, sameState⟩
      have first := seekFirst_eq sdSeeks world.sdState off (seekCases whence) file
      simp only [tried, ← first]
      refine ⟨after, sought, ?_⟩
      simp only [World.soughtHandle, fsType, placed, sameState, Option.map_some]
  | spiffs =>
      simp only [fsType, Option.map_eq_some_iff] at held
      rcases held with ⟨file, found, rfl⟩
      rcases vfsLseek_spiffs fsType found off whence with ⟨after, sought, placed, sameState⟩
      have single := spiffsSeek_eq spiffsSeeks world.spiffsState off whence file
      simp only [tried, ← single]
      refine ⟨after, sought, ?_⟩
      simp only [World.soughtHandle, fsType, placed, sameState, Option.map_some]

/-! ## The value returned -/

theorem tried_eq (fsType : FsType) (whence : Whence) :
    tried fsType whence = whence :: (tried fsType whence).tail := by
  cases fsType <;> cases whence <;> rfl

theorem moved_eq_iff (handle : Handle) (whence : Whence) (off : Int) :
    handle.moved whence off = handle ↔ (handle.target whence off).toNat = handle.position := by
  rcases handle with ⟨file, position, readable, writable⟩
  simp [Handle.moved]

/-- A later seek leaves the file where it was only in a file of one byte. -/
theorem later_stays_iff {fsType : FsType} {whence later : Whence} {off : Int}
    (outside : ¬handle.InRange whence off)
    (first : firstInRange handle off (tried fsType whence).tail = some later) :
    off = vfsResErr ∧ handle.moved later off = handle ↔
      off = -1 ∧ handle.position = 0 ∧ handle.file.size = 1 := by
  rw [moved_eq_iff]
  rcases firstInRange_eq_some first with ⟨inLater, member⟩
  simp only [Handle.InRange, Handle.target_eq, vfsResErr] at outside inLater ⊢
  cases fsType with
  | spiffs => cases member
  | fatfs =>
      cases whence with
      | fromEnd => cases member
      | cur =>
          obtain rfl : later = .fromEnd := List.mem_singleton.mp member
          simp only [Handle.base] at outside inLater ⊢
          omega
      | set =>
          rcases List.mem_cons.mp member with rfl | inRest
          · simp only [Handle.base] at outside inLater ⊢
            omega
          · obtain rfl : later = .fromEnd := List.mem_singleton.mp inRest
            have notCur : ¬handle.InRange .cur off := by
              intro inCur
              simp [firstInRange, tried, seekCases, inCur] at first
            simp only [Handle.InRange, Handle.target_eq, Handle.base] at outside inLater notCur ⊢
            omega

/-- What `vfs_lseek` does is right in terms of the first seek in range. -/
theorem landing_iff (fsType : FsType) (off : Int) (whence : Whence) :
    (if handle.InRange whence off then
        (landing handle off (firstInRange handle off (tried fsType whence))).1 =
          handle.target whence off ∧
        (landing handle off (firstInRange handle off (tried fsType whence))).2 =
          handle.moved whence off
      else
        (landing handle off (firstInRange handle off (tried fsType whence))).1 = vfsResErr ∧
        (landing handle off (firstInRange handle off (tried fsType whence))).2 = handle) ↔
      StartsFromZero fsType handle off whence := by
  rw [StartsFromZero, tried_eq, firstInRange, List.find?_cons, List.tail_cons]
  by_cases inside : handle.InRange whence off
  · simp only [inside, if_true, decide_true, landing, Handle.target_eq, and_true]
    omega
  · simp only [inside, if_false, decide_false]
    cases first : (tried fsType whence).tail.find? fun whence =>
        decide (handle.InRange whence off) with
    | none =>
        simp only [landing, and_self, true_iff]
        left
        intro later member
        simpa using List.find?_eq_none.mp first later member
    | some later =>
        rcases firstInRange_eq_some first with ⟨inLater, member⟩
        simp only [landing]
        rw [later_stays_iff inside first]
        constructor
        · exact Or.inr
        · intro either
          rcases either with outOfRange | back
          · exact absurd inLater (outOfRange later member)
          · exact back

/-- `vfs_lseek` moves to the target in the file and returns it, or stays and
returns `VFS_RES_ERR`, exactly where the seek starts from zero: it returns the
offset, and on the SD card a seek that fails goes on as another one. -/
theorem returnsPosition_iff (held : world.soughtHandle sdSeeks spiffsSeeks fd = some handle)
    (off : Int) (whence : Whence) :
    ReturnsPosition sdSeeks spiffsSeeks world fd handle off whence ↔
      StartsFromZero fd.fsType handle off whence := by
  rcases vfsLseek_eq sdSeeks spiffsSeeks held off whence with ⟨after, sought, heldAfter⟩
  rw [← landing_iff]
  constructor
  · intro returns
    rcases returns with ⟨ret, after', handle', sought', heldAfter', isRight⟩
    rw [sought, Option.some.injEq, Prod.mk.injEq] at sought'
    rcases sought' with ⟨rfl, rfl⟩
    rw [heldAfter, Option.some.injEq] at heldAfter'
    rwa [heldAfter']
  · intro isRight
    exact ⟨_, after, _, sought, heldAfter, isRight⟩

theorem ReturnsPosition.returned {off : Int} {whence : Whence}
    (returns : ReturnsPosition sdSeeks spiffsSeeks world fd handle off whence) :
    (vfsLseek world fd off whence).map Prod.fst =
      some (if handle.InRange whence off then handle.target whence off else vfsResErr) := by
  rcases returns with ⟨ret, after, handle', sought, _, isRight⟩
  rw [sought, Option.map_some]
  by_cases inside : handle.InRange whence off
  · rw [if_pos inside] at isRight ⊢
    rw [isRight.1]
  · rw [if_neg inside] at isRight ⊢
    rw [isRight.1]

def readWorld : World (memoryStore sdAccess) (memoryStore fopenAccess) :=
  { memoryWorld fun _ => some ⟨3, fun _ => 5⟩ with
    sdFiles := fun _ => some ⟨[], 2, ⟨true, true, false, false⟩⟩ }

def readHandle : Handle := ⟨⟨3, fun _ => 5⟩, 2, true, true⟩

theorem returnsPosition_iff_set : ReturnsPosition (memoryStoreArrays sdAccess).seeks
    (memoryStoreArrays fopenAccess).seeks readWorld ⟨.fatfs, 0⟩ readHandle 1 .set := by
  have held : readWorld.soughtHandle (memoryStoreArrays sdAccess).seeks
      (memoryStoreArrays fopenAccess).seeks ⟨.fatfs, 0⟩ = some readHandle := rfl
  apply (returnsPosition_iff _ _ held 1 .set).mpr
  have inside : readHandle.InRange .set 1 := by decide
  rw [StartsFromZero, if_pos inside]
  rfl

/-- One byte further is the end of the file, but 1 is returned, and a position
before the start of the file is not refused. -/
theorem not_returnsPosition_further :
    ¬ReturnsPosition (memoryStoreArrays sdAccess).seeks (memoryStoreArrays fopenAccess).seeks
        readWorld ⟨.fatfs, 0⟩ readHandle 1 .cur ∧
      ¬ReturnsPosition (memoryStoreArrays sdAccess).seeks (memoryStoreArrays fopenAccess).seeks
        readWorld ⟨.fatfs, 0⟩ readHandle (-2) .set := by
  constructor
  · intro returns
    have returned : (vfsLseek readWorld ⟨.fatfs, 0⟩ 1 .cur).map Prod.fst = some 1 := by
      decide +kernel
    rw [returns.returned] at returned
    exact absurd returned (by decide)
  · intro returns
    have returned : (vfsLseek readWorld ⟨.fatfs, 0⟩ (-2) .set).map Prod.fst = some (-2) := by
      decide +kernel
    rw [returns.returned] at returned
    exact absurd returned (by decide)

end EspSqlite.Vfs
