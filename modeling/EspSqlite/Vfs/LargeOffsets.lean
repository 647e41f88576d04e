import EspSqlite.Vfs.ReadErrors

/-! # Large offsets of a database file

Where `esp8266_Read` and `esp8266_Write` transfer bytes, over backends whose
seeks lead exactly where they are told or fail. -/

namespace EspSqlite.Vfs

variable {sd : FileStore OpenFlags} {spiffs : FileStore (List Char)}
  (sdPositions : sd.Positions) (spiffsPositions : spiffs.Positions)

def World.placed (world : World sd spiffs) (fd : VfsFile) : Option Handle :=
  match fd.fsType with
  | .fatfs => (world.sdFiles fd.fileObj).map (sdPositions.handle world.sdState)
  | .spiffs => (world.spiffsFiles fd.fileObj).map (spiffsPositions.handle world.spiffsState)

def World.landing {amount : Nat} (world : World sd spiffs) (fd : VfsFile) (off : Int)
    (sdTransfer : sd.State → sd.File → Transfer amount)
    (spiffsTransfer : spiffs.State → spiffs.File → Transfer amount) :
    Option (Nat × Transfer amount) :=
  match fd.fsType with
  | .fatfs =>
      (world.sdFiles fd.fileObj).bind fun file =>
        (sdPositions.landing world.sdState off (seekCases .set) file).map fun landed =>
          (landed.1, sdTransfer world.sdState landed.2)
  | .spiffs =>
      (world.spiffsFiles fd.fileObj).bind fun file =>
        (spiffsPositions.landing world.spiffsState off [.set] file).map fun landed =>
          (landed.1, spiffsTransfer world.spiffsState landed.2)

def World.readLanding (world : World sd spiffs) (fd : VfsFile) (off : Int) (amount : Nat) :
    Option (Nat × Transfer amount) :=
  world.landing sdPositions spiffsPositions fd off
    (fun state file => sdPositions.readTransfer state file amount)
    (fun state file => spiffsPositions.readTransfer state file amount)

def World.writeLanding (world : World sd spiffs) (fd : VfsFile) (off : Int) (amount : Nat) :
    Option (Nat × Transfer amount) :=
  world.landing sdPositions spiffsPositions fd off
    (fun state file => sdPositions.writeTransfer state file amount)
    (fun state file => spiffsPositions.writeTransfer state file amount)

/-- The backend reports all bytes. To SPIFFS no bytes are an error. -/
def Complete {amount : Nat} (fsType : FsType) (transfer : Transfer amount) : Prop :=
  transfer.count = amount ∧ (fsType = .spiffs → 0 < amount)

instance {amount : Nat} (fsType : FsType) (transfer : Transfer amount) :
    Decidable (Complete fsType transfer) :=
  inferInstanceAs (Decidable (_ ∧ _))

/-- Below 2 GiB the place of a complete transfer is the offset. From there on the
backend transfers nothing and says so. -/
def InPlace (fsType : FsType) {amount : Nat} (offset : Nat) :
    Option (Nat × Transfer amount) → Prop
  | none => True
  | some (position, transfer) =>
      (offset < 2 ^ 31 → 0 < amount → transfer.count = amount → position = offset) ∧
        (2 ^ 31 ≤ offset → transfer.moved = 0 ∧ ¬Complete fsType transfer)

/-- A read that returns `SQLITE_OK` transfers the bytes at the offset. One at an
offset beyond `sint32_t` fails and transfers none. -/
def ReadsInPlace (world : World sd spiffs) (file : Esp8266File) (fd : VfsFile) (handle : Handle)
    (amount offset : Nat) : Prop :=
  ∀ buffer, ∃ code result world' after,
    esp8266Read world file buffer amount offset = some (code, result, world') ∧
    world'.placed sdPositions spiffsPositions fd = some after ∧
    (code = sqliteOk → 0 < amount → after.position = offset + amount ∧
      ∀ index < amount, result index = handle.file.byte (offset + index)) ∧
    (2 ^ 31 ≤ offset → code ≠ sqliteOk ∧ ∀ index < amount, result index = buffer index)

/-- A write that returns `SQLITE_OK` transfers the bytes to the offset. One at an
offset beyond `sint32_t` fails and leaves the file alone. -/
def WritesInPlace (world : World sd spiffs) (file : Esp8266File) (fd : VfsFile) (handle : Handle)
    (amount offset : Nat) : Prop :=
  ∀ buffer, ∃ code world' after,
    esp8266Write world file buffer amount offset = some (code, world') ∧
    world'.placed sdPositions spiffsPositions fd = some after ∧
    (code = sqliteOk → 0 < amount → after.position = offset + amount ∧
      after.file.byte = memcpy handle.file.byte offset buffer amount) ∧
    (2 ^ 31 ≤ offset → code ≠ sqliteOk ∧ ∀ index, after.file.byte index = handle.file.byte index)

/-! ## The backends -/

def World.transferOf {amount : Nat} (world : World sd spiffs) (fd : VfsFile)
    (sdTransfer : sd.State → sd.File → Transfer amount)
    (spiffsTransfer : spiffs.State → spiffs.File → Transfer amount) : Option (Transfer amount) :=
  match fd.fsType with
  | .fatfs => (world.sdFiles fd.fileObj).map (sdTransfer world.sdState)
  | .spiffs => (world.spiffsFiles fd.fileObj).map (spiffsTransfer world.spiffsState)

def returned (fsType : FsType) (count : Int) : Int :=
  match fsType with
  | .fatfs => if count < 0 then vfsResErr else count
  | .spiffs => if count = 0 then vfsResErr else count

theorem toSizeT_complete {amount : Nat} (small : amount < 2 ^ 31) (fsType : FsType)
    (transfer : Transfer amount) :
    toSizeT (returned fsType transfer.count) = amount ↔ Complete fsType transfer := by
  have counted := transfer.count_eq
  have inRange := transfer.moved_le
  have notBelow := transfer.count_ge
  rw [Complete, toSizeT]
  cases fsType with
  | fatfs =>
      simp only [returned, reduceCtorEq, IsEmpty.forall_iff, and_true, vfsResErr]
      split <;> omega
  | spiffs =>
      simp only [returned, forall_const, vfsResErr]
      split <;> omega

section Backends

variable {world : World sd spiffs} {fd : VfsFile} {handle : Handle}

/-- A seek over the cases of `sdfat_lseek` leads where the first one does that
succeeds. -/
theorem seekFirst_landing (state : sd.State) (off : Int) :
    ∀ (cases : List Whence) (file : sd.File),
      (sdPositions.landing state off cases file = none ∧
        (seekFirst sd state off cases file).1 = vfsResErr ∧
        sdPositions.handle state (seekFirst sd state off cases file).2 =
          sdPositions.handle state file) ∨
      ∃ position file', sdPositions.landing state off cases file = some (position, file') ∧
        seekFirst sd state off cases file = (off, file') ∧
        sdPositions.handle state file' =
          { sdPositions.handle state file with position := position }
  | [], _ => Or.inl ⟨rfl, rfl, rfl⟩
  | whence :: rest, file => by
      rw [FileStore.Positions.landing, seekFirst]
      rcases sought : sd.seek state file whence off with ⟨moved, file'⟩
      cases moved with
      | true =>
          have there := (sdPositions.seek_ok state file whence off file' sought).2
          exact Or.inr ⟨_, file', rfl, rfl, by rw [there]⟩
      | false =>
          have same := sdPositions.seek_fails state file whence off file' sought
          rw [← same]
          exact seekFirst_landing state off rest file'

theorem vfsLseek_landing (held : world.placed sdPositions spiffsPositions fd = some handle)
    (off : Int) :
    ∃ sought,
      (vfsLseek world fd off .set = some (vfsResErr, sought) ∧
        sought.placed sdPositions spiffsPositions fd = some handle ∧
        ∀ amount (sdTransfer : sd.State → sd.File → Transfer amount) spiffsTransfer,
          world.landing sdPositions spiffsPositions fd off sdTransfer spiffsTransfer = none) ∨
      ∃ position, vfsLseek world fd off .set = some (off, sought) ∧
        sought.placed sdPositions spiffsPositions fd =
          some { handle with position := position } ∧
        ∀ amount (sdTransfer : sd.State → sd.File → Transfer amount) spiffsTransfer,
          ∃ transfer, sought.transferOf fd sdTransfer spiffsTransfer = some transfer ∧
            world.landing sdPositions spiffsPositions fd off sdTransfer spiffsTransfer =
              some (position, transfer) := by
  rw [World.placed] at held
  cases fsType : fd.fsType with
  | fatfs =>
      simp only [fsType, Option.map_eq_some_iff] at held
      rcases held with ⟨file, found, rfl⟩
      rcases vfsLseek_sd fsType found off .set with ⟨sought, seeks, moved, sameState⟩
      refine ⟨sought, ?_⟩
      rcases seekFirst_landing sdPositions world.sdState off (seekCases .set) file with
        ⟨nowhere, failed, same⟩ | ⟨position, file', there, succeeded, placed⟩
      · left
        refine ⟨by rw [seeks, failed], ?_, fun amount sdTransfer spiffsTransfer => ?_⟩
        · simp only [World.placed, fsType, moved, sameState, Option.map_some, same]
        · simp only [World.landing, fsType, found, Option.bind_some, nowhere, Option.map_none]
      · right
        rw [succeeded] at seeks moved
        refine ⟨position, seeks, ?_, fun amount sdTransfer spiffsTransfer =>
          ⟨sdTransfer world.sdState file', ?_, ?_⟩⟩
        · simp only [World.placed, fsType, moved, sameState, Option.map_some, placed]
        · simp only [World.transferOf, fsType, moved, sameState, Option.map_some]
        · simp only [World.landing, fsType, found, Option.bind_some, there, Option.map_some]
  | spiffs =>
      simp only [fsType, Option.map_eq_some_iff] at held
      rcases held with ⟨file, found, rfl⟩
      rcases vfsLseek_spiffs fsType found off .set with ⟨sought, seeks, moved, sameState⟩
      refine ⟨sought, ?_⟩
      rcases result : spiffs.seek world.spiffsState file .set off with ⟨succeeded, file'⟩
      rw [result] at seeks moved
      cases succeeded with
      | false =>
          left
          have same := spiffsPositions.seek_fails _ _ _ _ _ result
          refine ⟨seeks, ?_, fun amount sdTransfer spiffsTransfer => ?_⟩
          · simp only [World.placed, fsType, moved, sameState, Option.map_some, same]
          · simp only [World.landing, fsType, found, Option.bind_some,
              FileStore.Positions.landing, result, Option.map_none]
      | true =>
          right
          have there := (spiffsPositions.seek_ok _ _ _ _ _ result).2
          refine ⟨(spiffsPositions.handle world.spiffsState file').position, seeks, ?_,
            fun amount sdTransfer spiffsTransfer =>
              ⟨spiffsTransfer world.spiffsState file', ?_, ?_⟩⟩
          · simp only [World.placed, fsType, moved, sameState, Option.map_some, there]
          · simp only [World.transferOf, fsType, moved, sameState, Option.map_some]
          · simp only [World.landing, fsType, found, Option.bind_some,
              FileStore.Positions.landing, result, Option.map_some]

theorem vfsRead_transfer (held : world.placed sdPositions spiffsPositions fd = some handle)
    {amount : Nat} {transfer : Transfer amount}
    (isTransfer : world.transferOf fd
      (fun state file => sdPositions.readTransfer state file amount)
      (fun state file => spiffsPositions.readTransfer state file amount) = some transfer)
    (ptr : Nat → UInt8) :
    ∃ world' after, vfsRead world fd ptr amount =
        some (returned fd.fsType transfer.count,
          handle.file.read handle.position transfer.moved ptr, world') ∧
      world'.placed sdPositions spiffsPositions fd = some after ∧
      (0 ≤ transfer.count → after.position = handle.position + transfer.moved) := by
  rw [World.placed] at held
  rw [World.transferOf] at isTransfer
  cases fsType : fd.fsType with
  | fatfs =>
      simp only [fsType, Option.map_eq_some_iff] at held
      rcases held with ⟨file, found, rfl⟩
      simp only [fsType, found, Option.map_some, Option.some.injEq] at isTransfer
      subst isTransfer
      rcases sdPositions.read_eq world.sdState file ptr amount with ⟨file', result, moves⟩
      rcases vfsRead_sd fsType found ptr amount with ⟨after, isRead, placed, sameState⟩
      rw [result] at isRead placed
      refine ⟨after, _, isRead, ?_, moves⟩
      simp only [World.placed, fsType, placed, sameState, Option.map_some]
  | spiffs =>
      simp only [fsType, Option.map_eq_some_iff] at held
      rcases held with ⟨file, found, rfl⟩
      simp only [fsType, found, Option.map_some, Option.some.injEq] at isTransfer
      subst isTransfer
      rcases spiffsPositions.read_eq world.spiffsState file ptr amount with ⟨file', result, moves⟩
      rcases vfsRead_spiffs fsType found ptr amount with ⟨after, isRead, placed, sameState⟩
      rw [result] at isRead placed
      refine ⟨after, _, isRead, ?_, moves⟩
      simp only [World.placed, fsType, placed, sameState, Option.map_some]

theorem vfsWrite_transfer (held : world.placed sdPositions spiffsPositions fd = some handle)
    {amount : Nat} {transfer : Transfer amount}
    (isTransfer : world.transferOf fd
      (fun state file => sdPositions.writeTransfer state file amount)
      (fun state file => spiffsPositions.writeTransfer state file amount) = some transfer)
    (ptr : Nat → UInt8) :
    ∃ world' after, vfsWrite world fd ptr amount =
        some (returned fd.fsType transfer.count, world') ∧
      world'.placed sdPositions spiffsPositions fd = some after ∧
      after.file.byte = memcpy handle.file.byte handle.position ptr transfer.moved ∧
      (0 ≤ transfer.count → after.position = handle.position + transfer.moved) := by
  rw [World.placed] at held
  rw [World.transferOf] at isTransfer
  cases fsType : fd.fsType with
  | fatfs =>
      simp only [fsType, Option.map_eq_some_iff] at held
      rcases held with ⟨file, found, rfl⟩
      simp only [fsType, found, Option.map_some, Option.some.injEq] at isTransfer
      subst isTransfer
      rcases sdPositions.write_eq world.sdState file ptr amount with
        ⟨file', state', result, written, moves⟩
      rcases vfsWrite_sd fsType found ptr amount with ⟨after, isWritten, placed, isState⟩
      rw [result] at isWritten placed isState
      refine ⟨after, _, isWritten, ?_, written, moves⟩
      simp only [World.placed, fsType, placed, isState, Option.map_some]
  | spiffs =>
      simp only [fsType, Option.map_eq_some_iff] at held
      rcases held with ⟨file, found, rfl⟩
      simp only [fsType, found, Option.map_some, Option.some.injEq] at isTransfer
      subst isTransfer
      rcases spiffsPositions.write_eq world.spiffsState file ptr amount with
        ⟨file', state', result, written, moves⟩
      rcases vfsWrite_spiffs fsType found ptr amount with ⟨after, isWritten, placed, isState⟩
      rw [result] at isWritten placed isState
      refine ⟨after, _, isWritten, ?_, written, moves⟩
      simp only [World.placed, fsType, placed, isState, Option.map_some]

end Backends

/-! ## The file methods -/

section Methods

variable {world : World sd spiffs} {file : Esp8266File} {fd : VfsFile} {handle : Handle}

theorem esp8266Read_landing (isOpen : file.fd = some fd)
    (held : world.placed sdPositions spiffsPositions fd = some handle) (buffer : Nat → UInt8)
    {amount : Nat} (offset : Nat) (small : amount < 2 ^ 31) :
    ∃ code result world' after,
      esp8266Read world file buffer amount offset = some (code, result, world') ∧
      world'.placed sdPositions spiffsPositions fd = some after ∧
      match world.readLanding sdPositions spiffsPositions fd (offset &&& 0x7FFFFFFF : Nat)
        amount with
      | none => code = sqliteIoerrShortRead ∧ result = buffer
      | some (position, transfer) =>
          code = (if Complete fd.fsType transfer then sqliteOk else sqliteIoerrShortRead) ∧
            result = handle.file.read position transfer.moved buffer ∧
            (0 ≤ transfer.count → after.position = position + transfer.moved) := by
  rcases vfsLseek_landing sdPositions spiffsPositions held (offset &&& 0x7FFFFFFF : Nat) with
    ⟨sought, ⟨failed, heldSought, nowhere⟩ | ⟨position, moved, heldSought, there⟩⟩
  · refine ⟨_, _, sought, handle, esp8266Read_of_failed isOpen buffer amount offset failed,
      heldSought, ?_⟩
    rw [World.readLanding, nowhere]
    exact ⟨rfl, rfl⟩
  · rcases there amount (fun state file => sdPositions.readTransfer state file amount)
      (fun state file => spiffsPositions.readTransfer state file amount) with
      ⟨transfer, isTransfer, landed⟩
    rcases vfsRead_transfer sdPositions spiffsPositions heldSought isTransfer buffer with
      ⟨world', after, isRead, placed, moves⟩
    refine ⟨_, _, world', after, esp8266Read_of_sought isOpen moved isRead, placed, ?_⟩
    rw [World.readLanding, landed]
    exact ⟨if_congr (toSizeT_complete small fd.fsType transfer) rfl rfl, rfl, moves⟩

theorem esp8266Write_landing (isOpen : file.fd = some fd)
    (held : world.placed sdPositions spiffsPositions fd = some handle) (buffer : Nat → UInt8)
    {amount : Nat} (offset : Nat) (small : amount < 2 ^ 31) :
    ∃ code world' after, esp8266Write world file buffer amount offset = some (code, world') ∧
      world'.placed sdPositions spiffsPositions fd = some after ∧
      match world.writeLanding sdPositions spiffsPositions fd (offset &&& 0x7FFFFFFF : Nat)
        amount with
      | none => code = sqliteIoerrSeek ∧ after.file = handle.file
      | some (position, transfer) =>
          code = (if Complete fd.fsType transfer then sqliteOk else sqliteIoerrWrite) ∧
            after.file.byte = memcpy handle.file.byte position buffer transfer.moved ∧
            (0 ≤ transfer.count → after.position = position + transfer.moved) := by
  rcases vfsLseek_landing sdPositions spiffsPositions held (offset &&& 0x7FFFFFFF : Nat) with
    ⟨sought, ⟨failed, heldSought, nowhere⟩ | ⟨position, moved, heldSought, there⟩⟩
  · have other : ¬vfsResErr = ((offset &&& 0x7FFFFFFF : Nat) : Int) := by
      rw [vfsResErr]
      omega
    refine ⟨sqliteIoerrSeek, sought, handle, ?_, heldSought, ?_⟩
    · simp only [esp8266Write, isOpen, Option.bind_some, failed, ne_eq, other, not_false_eq_true,
        if_true]
    · rw [World.writeLanding, nowhere]
      exact ⟨rfl, rfl⟩
  · rcases there amount (fun state file => sdPositions.writeTransfer state file amount)
      (fun state file => spiffsPositions.writeTransfer state file amount) with
      ⟨transfer, isTransfer, landed⟩
    rcases vfsWrite_transfer sdPositions spiffsPositions heldSought isTransfer buffer with
      ⟨world', after, isWritten, placed, written, moves⟩
    refine ⟨if Complete fd.fsType transfer then sqliteOk else sqliteIoerrWrite, world', after,
      ?_, placed, ?_⟩
    · simp only [esp8266Write, isOpen, Option.bind_some, moved, ne_eq, isWritten,
        Option.map_some, toSizeT_complete small, ite_not, if_true]
    · rw [World.writeLanding, landed]
      exact ⟨rfl, written, moves⟩

private theorem outside_of_kept {target source : Nat → UInt8} {start count index : Nat}
    (kept : memcpy target start source count index = target index)
    (other : source (index - start) ≠ target index) :
    ¬(start ≤ index ∧ index < start + count) := by
  intro inside
  rw [memcpy, if_pos inside] at kept
  exact other kept

private theorem readsInPlace_outcome {amount offset : Nat}
    (inPlace : ReadsInPlace sdPositions spiffsPositions world file fd handle amount offset)
    {buffer result : Nat → UInt8} {code : Nat} {world' : World sd spiffs} {after : Handle}
    (isRead : esp8266Read world file buffer amount offset = some (code, result, world'))
    (placed : world'.placed sdPositions spiffsPositions fd = some after) :
    (code = sqliteOk → 0 < amount → after.position = offset + amount ∧
      ∀ index < amount, result index = handle.file.byte (offset + index)) ∧
    (2 ^ 31 ≤ offset → code ≠ sqliteOk ∧ ∀ index < amount, result index = buffer index) := by
  rcases inPlace buffer with ⟨_, _, _, _, isRead', placed', properties⟩
  rw [isRead, Option.some.injEq, Prod.mk.injEq, Prod.mk.injEq] at isRead'
  rcases isRead' with ⟨rfl, rfl, rfl⟩
  rw [placed, Option.some.injEq] at placed'
  subst placed'
  exact properties

private theorem writesInPlace_outcome {amount offset : Nat}
    (inPlace : WritesInPlace sdPositions spiffsPositions world file fd handle amount offset)
    {buffer : Nat → UInt8} {code : Nat} {world' : World sd spiffs} {after : Handle}
    (isWritten : esp8266Write world file buffer amount offset = some (code, world'))
    (placed : world'.placed sdPositions spiffsPositions fd = some after) :
    (code = sqliteOk → 0 < amount → after.position = offset + amount ∧
      after.file.byte = memcpy handle.file.byte offset buffer amount) ∧
    (2 ^ 31 ≤ offset → code ≠ sqliteOk ∧
      ∀ index, after.file.byte index = handle.file.byte index) := by
  rcases inPlace buffer with ⟨_, _, _, isWritten', placed', properties⟩
  rw [isWritten, Option.some.injEq, Prod.mk.injEq] at isWritten'
  rcases isWritten' with ⟨rfl, rfl⟩
  rw [placed, Option.some.injEq] at placed'
  subst placed'
  exact properties

private theorem inPlace_iff {fsType : FsType} {amount offset position : Nat}
    {transfer : Transfer amount} {code ends : (Nat → UInt8) → Nat} {failure : Nat}
    {transferred kept : (Nat → UInt8) → Prop} (fails : failure ≠ sqliteOk)
    (isCode : ∀ buffer, code buffer =
      if Complete fsType transfer then sqliteOk else failure)
    (isEnd : ∀ buffer, 0 ≤ transfer.count → ends buffer = position + transfer.moved)
    (isTransferred : ∀ buffer, transfer.moved = amount → position = offset → transferred buffer)
    (isKept : ∀ buffer, transfer.moved = 0 → kept buffer)
    (isSeen : ∃ buffer, kept buffer → transfer.moved = 0) :
    (∀ buffer, (code buffer = sqliteOk → 0 < amount →
        ends buffer = offset + amount ∧ transferred buffer) ∧
      (2 ^ 31 ≤ offset → code buffer ≠ sqliteOk ∧ kept buffer)) ↔
      InPlace fsType offset (some (position, transfer)) := by
  have counted := transfer.count_eq
  have isOk : ∀ buffer, code buffer = sqliteOk ↔ Complete fsType transfer := by
    intro buffer
    rw [isCode]
    split
    · exact iff_of_true rfl ‹_›
    · exact iff_of_false fails ‹_›
  rcases isSeen with ⟨seen, isSeen⟩
  constructor
  · intro inPlace
    refine ⟨fun below positive all => ?_, fun beyond => ⟨?_, fun complete => ?_⟩⟩
    · have transferred := ((inPlace seen).1 ((isOk seen).mpr ⟨all, fun _ => positive⟩) positive).1
      have there := isEnd seen (by omega)
      omega
    · exact isSeen ((inPlace seen).2 beyond).2
    · exact ((inPlace seen).2 beyond).1 ((isOk seen).mpr complete)
  · intro condition buffer
    rcases condition with ⟨below, beyond⟩
    refine ⟨fun ok positive => ?_, fun large => ?_⟩
    · have complete := (isOk buffer).mp ok
      have all := complete.1
      have representable : offset < 2 ^ 31 := by
        by_contra large
        exact (beyond (by omega)).2 complete
      have there := below representable positive all
      have atEnd := isEnd buffer (by omega)
      exact ⟨by omega, isTransferred buffer (by omega) there⟩
    · rcases beyond large with ⟨none, partly⟩
      exact ⟨fun ok => partly ((isOk buffer).mp ok), isKept buffer none⟩

theorem readsInPlace_iff (isOpen : file.fd = some fd)
    (held : world.placed sdPositions spiffsPositions fd = some handle) {amount : Nat}
    (offset : Nat) (small : amount < 2 ^ 31) :
    ReadsInPlace sdPositions spiffsPositions world file fd handle amount offset ↔
      InPlace fd.fsType offset
        (world.readLanding sdPositions spiffsPositions fd (offset &&& 0x7FFFFFFF : Nat)
          amount) := by
  have codes : sqliteIoerrShortRead ≠ sqliteOk := by decide
  choose code result world' after isRead placed outcome using fun buffer =>
    esp8266Read_landing sdPositions spiffsPositions isOpen held buffer offset small
  have outcomes : ReadsInPlace sdPositions spiffsPositions world file fd handle amount offset ↔
      ∀ buffer, (code buffer = sqliteOk → 0 < amount → (after buffer).position = offset + amount ∧
          ∀ index < amount, result buffer index = handle.file.byte (offset + index)) ∧
        (2 ^ 31 ≤ offset → code buffer ≠ sqliteOk ∧
          ∀ index < amount, result buffer index = buffer index) :=
    ⟨fun inPlace buffer => readsInPlace_outcome _ _ inPlace (isRead buffer) (placed buffer),
      fun holds buffer => ⟨_, _, _, _, isRead buffer, placed buffer, holds buffer⟩⟩
  rw [outcomes]
  cases landing : world.readLanding sdPositions spiffsPositions fd (offset &&& 0x7FFFFFFF : Nat)
    amount with
  | none =>
      apply iff_of_true _ trivial
      intro buffer
      have failed := outcome buffer
      rw [landing] at failed
      rw [failed.1, failed.2]
      exact ⟨fun ok => absurd ok codes, fun _ => ⟨codes, fun _ _ => rfl⟩⟩
  | some landed =>
      rcases landed with ⟨position, transfer⟩
      simp only [landing] at outcome
      have inRange := transfer.moved_le
      apply inPlace_iff codes (fun buffer => (outcome buffer).1) fun buffer => (outcome buffer).2.2
      · intro buffer all there index inside
        rw [(outcome buffer).2.1, ByteFile.read_inside (by omega), there]
      · intro buffer none index _
        rw [(outcome buffer).2.1, none, ByteFile.read, memcpy_none]
      · refine ⟨fun _ => handle.file.byte position + 1, fun kept => ?_⟩
        by_contra positive
        have keptFirst := kept 0 (by omega)
        rw [(outcome _).2.1] at keptFirst
        have outside := outside_of_kept keptFirst (by simp)
        omega

theorem writesInPlace_iff (isOpen : file.fd = some fd)
    (held : world.placed sdPositions spiffsPositions fd = some handle) {amount : Nat}
    (offset : Nat) (small : amount < 2 ^ 31) :
    WritesInPlace sdPositions spiffsPositions world file fd handle amount offset ↔
      InPlace fd.fsType offset
        (world.writeLanding sdPositions spiffsPositions fd (offset &&& 0x7FFFFFFF : Nat)
          amount) := by
  have seekCode : sqliteIoerrSeek ≠ sqliteOk := by decide
  have writeCode : sqliteIoerrWrite ≠ sqliteOk := by decide
  choose code world' after isWritten placed outcome using fun buffer =>
    esp8266Write_landing sdPositions spiffsPositions isOpen held buffer offset small
  have outcomes : WritesInPlace sdPositions spiffsPositions world file fd handle amount offset ↔
      ∀ buffer, (code buffer = sqliteOk → 0 < amount → (after buffer).position = offset + amount ∧
          (after buffer).file.byte = memcpy handle.file.byte offset buffer amount) ∧
        (2 ^ 31 ≤ offset → code buffer ≠ sqliteOk ∧
          ∀ index, (after buffer).file.byte index = handle.file.byte index) :=
    ⟨fun inPlace buffer => writesInPlace_outcome _ _ inPlace (isWritten buffer) (placed buffer),
      fun holds buffer => ⟨_, _, _, isWritten buffer, placed buffer, holds buffer⟩⟩
  rw [outcomes]
  cases landing : world.writeLanding sdPositions spiffsPositions fd (offset &&& 0x7FFFFFFF : Nat)
    amount with
  | none =>
      apply iff_of_true _ trivial
      intro buffer
      have failed := outcome buffer
      rw [landing] at failed
      rw [failed.1, failed.2]
      exact ⟨fun ok => absurd ok seekCode, fun _ => ⟨seekCode, fun _ => rfl⟩⟩
  | some landed =>
      rcases landed with ⟨position, transfer⟩
      simp only [landing] at outcome
      apply inPlace_iff writeCode (fun buffer => (outcome buffer).1)
        fun buffer => (outcome buffer).2.2
      · intro buffer all there
        rw [(outcome buffer).2.1, all, there]
      · intro buffer none index
        rw [(outcome buffer).2.1, none, memcpy_none]
      · refine ⟨fun _ => handle.file.byte position + 1, fun kept => ?_⟩
        by_contra positive
        have keptFirst := kept position
        rw [(outcome _).2.1] at keptFirst
        have outside := outside_of_kept keptFirst (by simp)
        omega

end Methods

/-- Reads and writes are in place exactly when below 2 GiB every complete
transfer is at the offset, and from there on none is done at the masked offset
and the backend says so. -/
theorem readsInPlace_and_writesInPlace_iff {world : World sd spiffs} {file : Esp8266File}
    {fd : VfsFile} {handle : Handle} (isOpen : file.fd = some fd)
    (held : world.placed sdPositions spiffsPositions fd = some handle) {amount : Nat}
    (offset : Nat) (small : amount < 2 ^ 31) :
    (ReadsInPlace sdPositions spiffsPositions world file fd handle amount offset ↔
        InPlace fd.fsType offset
          (world.readLanding sdPositions spiffsPositions fd (offset &&& 0x7FFFFFFF : Nat)
            amount)) ∧
      (WritesInPlace sdPositions spiffsPositions world file fd handle amount offset ↔
        InPlace fd.fsType offset
          (world.writeLanding sdPositions spiffsPositions fd (offset &&& 0x7FFFFFFF : Nat)
            amount)) :=
  ⟨readsInPlace_iff sdPositions spiffsPositions isOpen held offset small,
    writesInPlace_iff sdPositions spiffsPositions isOpen held offset small⟩

section SeekSet

variable {world : World sd spiffs} {fd : VfsFile} {amount : Nat}
  {sdTransfer : sd.State → sd.File → Transfer amount}
  {spiffsTransfer : spiffs.State → spiffs.File → Transfer amount}

/-- `seekSet` of an SdFat file succeeds, so that `sdfat_lseek` goes on to no other seek. -/
def World.SeeksSet (world : World sd spiffs) (fd : VfsFile) (off : Int) : Prop :=
  fd.fsType = .fatfs → ∀ file, world.sdFiles fd.fileObj = some file →
    (sd.seek world.sdState file .set off).1 = true

theorem World.SeeksSet.landing_eq {off position : Nat} {transfer : Transfer amount}
    (seeksSet : world.SeeksSet fd off)
    (landed : world.landing sdPositions spiffsPositions fd off sdTransfer spiffsTransfer =
      some (position, transfer)) : position = off := by
  rw [World.landing] at landed
  cases fsType : fd.fsType with
  | fatfs =>
      simp only [fsType, Option.bind_eq_some_iff, Option.map_eq_some_iff] at landed
      rcases landed with ⟨file, found, ⟨position', file'⟩, there, isLanded⟩
      rcases sought : sd.seek world.sdState file .set off with ⟨moved, file''⟩
      have isMoved : moved = true := by
        have succeeds := seeksSet fsType file found
        rwa [sought] at succeeds
      subst isMoved
      simp only [seekCases, FileStore.Positions.landing, sought, Option.some.injEq,
        Prod.mk.injEq] at there
      rw [Prod.mk.injEq] at isLanded
      rw [← isLanded.1, ← there.1, (sdPositions.seek_ok _ _ _ _ _ sought).2]
      rfl
  | spiffs =>
      simp only [fsType, Option.bind_eq_some_iff, Option.map_eq_some_iff] at landed
      rcases landed with ⟨file, found, ⟨position', file'⟩, there, isLanded⟩
      rcases sought : spiffs.seek world.spiffsState file .set off with ⟨moved, file''⟩
      cases moved with
      | false => simp [FileStore.Positions.landing, sought] at there
      | true =>
          simp only [FileStore.Positions.landing, sought, Option.some.injEq, Prod.mk.injEq] at there
          rw [Prod.mk.injEq] at isLanded
          rw [← isLanded.1, ← there.1, (spiffsPositions.seek_ok _ _ _ _ _ sought).2]
          rfl

/-- Where the first seek succeeds, transfers below 2 GiB are in place, and those from there on
are where the backend transfers nothing at the offset modulo 2 GiB and says so. -/
theorem inPlace_of_seekSet {offset : Nat}
    (seeksSet : world.SeeksSet fd (offset &&& 0x7FFFFFFF : Nat)) :
    InPlace fd.fsType offset (world.landing sdPositions spiffsPositions fd
        (offset &&& 0x7FFFFFFF : Nat) sdTransfer spiffsTransfer) ↔
      (2 ^ 31 ≤ offset → ∀ transfer, world.landing sdPositions spiffsPositions fd
          (offset % 2 ^ 31 : Nat) sdTransfer spiffsTransfer = some (offset % 2 ^ 31, transfer) →
        transfer.moved = 0 ∧ ¬Complete fd.fsType transfer) := by
  have masked : offset &&& 0x7FFFFFFF = offset % 2 ^ 31 := Nat.and_two_pow_sub_one_eq_mod offset 31
  rw [masked] at seeksSet ⊢
  cases landed : world.landing sdPositions spiffsPositions fd (offset % 2 ^ 31 : Nat) sdTransfer
    spiffsTransfer with
  | none => simp [InPlace]
  | some landing =>
      rcases landing with ⟨position, transfer⟩
      have isPosition := seeksSet.landing_eq sdPositions spiffsPositions landed
      subst isPosition
      constructor
      · intro inPlace beyond other isOther
        cases isOther
        exact inPlace.2 beyond
      · intro nothing
        exact ⟨fun below _ _ => Nat.mod_eq_of_lt below, fun beyond => nothing beyond transfer rfl⟩

end SeekSet

/-- Two bytes out of a file of three, and two bytes into it. -/
theorem readsInPlace_and_writesInPlace_iff_inside :
    ReadsInPlace (memoryStorePositions sdAccess) (memoryStorePositions fopenAccess)
        (openWorld ⟨3, fun _ => 5⟩ ⟨true, true, false, false⟩) cardFile ⟨.fatfs, 0⟩
        ⟨⟨3, fun _ => 5⟩, 0, true, true⟩ 2 1 ∧
      WritesInPlace (memoryStorePositions sdAccess) (memoryStorePositions fopenAccess)
        (openWorld ⟨3, fun _ => 5⟩ ⟨true, true, false, false⟩) cardFile ⟨.fatfs, 0⟩
        ⟨⟨3, fun _ => 5⟩, 0, true, true⟩ 2 1 := by
  have held : (openWorld ⟨3, fun _ => 5⟩ ⟨true, true, false, false⟩).placed
      (memoryStorePositions sdAccess) (memoryStorePositions fopenAccess) ⟨.fatfs, 0⟩ =
      some ⟨⟨3, fun _ => 5⟩, 0, true, true⟩ := rfl
  have isOpen : cardFile.fd = some ⟨.fatfs, 0⟩ := rfl
  have inPlace := readsInPlace_and_writesInPlace_iff _ _ isOpen held 1
    (show 2 < 2 ^ 31 by decide)
  constructor
  · apply inPlace.1.mpr
    exact ⟨fun _ _ _ => rfl, fun beyond => absurd beyond (by decide)⟩
  · apply inPlace.2.mpr
    exact ⟨fun _ _ _ => rfl, fun beyond => absurd beyond (by decide)⟩

/-- Two bytes at 2 GiB are those at the start of the file. -/
theorem not_readsInPlace_two_gib :
    ¬(ReadsInPlace (memoryStorePositions sdAccess) (memoryStorePositions fopenAccess)
        (openWorld ⟨3, fun _ => 5⟩ ⟨true, true, false, false⟩) cardFile ⟨.fatfs, 0⟩
        ⟨⟨3, fun _ => 5⟩, 0, true, true⟩ 2 (2 ^ 31) ∧
      WritesInPlace (memoryStorePositions sdAccess) (memoryStorePositions fopenAccess)
        (openWorld ⟨3, fun _ => 5⟩ ⟨true, true, false, false⟩) cardFile ⟨.fatfs, 0⟩
        ⟨⟨3, fun _ => 5⟩, 0, true, true⟩ 2 (2 ^ 31)) := by
  intro inPlace
  rcases inPlace.1 (fun _ => 0) with ⟨code, result, world', after, isRead, _, _, beyond⟩
  have ok : (esp8266Read (openWorld ⟨3, fun _ => 5⟩ ⟨true, true, false, false⟩) cardFile
      (fun _ => 0) 2 (2 ^ 31)).map Prod.fst = some sqliteOk := by
    decide +kernel
  rw [isRead] at ok
  exact (beyond (Nat.le_refl _)).1 (Option.some.inj ok)

end EspSqlite.Vfs
