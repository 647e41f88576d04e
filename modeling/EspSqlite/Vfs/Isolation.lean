import EspSqlite.Foundation.Trace
import EspSqlite.Vfs.Handles
import EspSqlite.Vfs.ReadBack

/-! # Isolation of open handles

Over libraries whose file objects on different files are independent, no call
touches the file or the position of another open handle, but for a file that
SPIFFS closes late: `spiffs_close` leaves it to the next use of its file object. -/

namespace EspSqlite.Vfs

variable {sd : FileStore OpenFlags} {spiffs : FileStore (List Char)}

/-! ## Calls on objects in memory -/

section Memory

variable {world world' : World sd spiffs} {fd : VfsFile}

private theorem fileObj_ne {other : VfsFile} (differs : other ≠ fd)
    (sameType : other.fsType = fd.fsType) : other.fileObj ≠ fd.fileObj := by
  intro sameObj
  apply differs
  rcases other with ⟨_, _⟩
  rcases fd with ⟨_, _⟩
  rw [VfsFile.mk.injEq]
  exact ⟨sameType, sameObj⟩

theorem fileObject_sdFiles {addr : Nat} {object : Option sd.File}
    (sdFiles : world'.sdFiles = Function.update world.sdFiles addr object)
    (spiffsFiles : world'.spiffsFiles = world.spiffsFiles)
    (differs : fd.fsType = .fatfs → fd.fileObj ≠ addr) :
    world'.fileObject fd = world.fileObject fd := by
  rw [World.fileObject, World.fileObject]
  cases fsType : fd.fsType with
  | fatfs => simp only [sdFiles, Function.update_of_ne (differs fsType)]
  | spiffs => simp only [spiffsFiles]

theorem fileObject_spiffsFiles {addr : Nat} {object : Option spiffs.File}
    (sdFiles : world'.sdFiles = world.sdFiles)
    (spiffsFiles : world'.spiffsFiles = Function.update world.spiffsFiles addr object)
    (differs : fd.fsType = .spiffs → fd.fileObj ≠ addr) :
    world'.fileObject fd = world.fileObject fd := by
  rw [World.fileObject, World.fileObject]
  cases fsType : fd.fsType with
  | fatfs => simp only [sdFiles]
  | spiffs => simp only [spiffsFiles, Function.update_of_ne (differs fsType)]

/-- Another world has the same volumes and the same registered object, and the same
objects but for that of one handle. -/
structure SameBut (world world' : World sd spiffs) (fd : VfsFile) : Prop where
  sdFats : world'.sdFats = world.sdFats
  spiffsVolume : world'.spiffsVolume = world.spiffsVolume
  filep : world'.filep = world.filep
  mallocs : world'.mallocs = world.mallocs
  spiffsFiles : ∀ addr, ⟨.spiffs, addr⟩ ≠ fd → world'.spiffsFiles addr = world.spiffsFiles addr
  fileObject : ∀ other, other ≠ fd → world'.fileObject other = world.fileObject other

theorem sameBut_sdFiles (onSd : fd.fsType = .fatfs) (object : Option sd.File)
    (state : sd.State) :
    SameBut world { world with
      sdFiles := Function.update world.sdFiles fd.fileObj object
      sdState := state } fd where
  sdFats := rfl
  spiffsVolume := rfl
  filep := rfl
  mallocs := rfl
  spiffsFiles _ _ := rfl
  fileObject _ differs := fileObject_sdFiles rfl rfl fun isSd =>
    fileObj_ne differs (isSd.trans onSd.symm)

theorem sameBut_spiffsFiles (onSpiffs : fd.fsType = .spiffs) (object : Option spiffs.File)
    (state : spiffs.State) :
    SameBut world { world with
      spiffsFiles := Function.update world.spiffsFiles fd.fileObj object
      spiffsState := state } fd where
  sdFats := rfl
  spiffsVolume := rfl
  filep := rfl
  mallocs := rfl
  spiffsFiles _ differs := Function.update_of_ne (fileObj_ne differs onSpiffs.symm) _ _
  fileObject _ differs := fileObject_spiffsFiles rfl rfl fun isSpiffs =>
    fileObj_ne differs (isSpiffs.trans onSpiffs.symm)

private theorem replace_self {File : Type} {files : Nat → Option File} {addr : Nat}
    {object : Option File} (found : files addr = object) :
    Function.update files addr object = files := by
  rw [← found, Function.update_eq_self]

theorem run_sdFile (onSd : fd.fsType = .fatfs) {file : sd.File}
    (found : world.sdFiles fd.fileObj = some file) (operation : Operation) :
    operation.run world fd = some ((operation.onSdFile world.sdState file).1,
      { world with
        sdFiles := Function.update world.sdFiles fd.fileObj
          (if operation.closes then none
          else some (operation.onSdFile world.sdState file).2.1)
        sdState := (operation.onSdFile world.sdState file).2.2 }) := by
  cases operation with
  | read ptr len =>
      simp only [Operation.run, vfsRead, onSd, sdfatRead, found, Option.map_some]
      rfl
  | write ptr len =>
      simp only [Operation.run, vfsWrite, onSd, sdfatWrite, found, Option.map_some]
      rfl
  | lseek off whence =>
      simp only [Operation.run, vfsLseek, onSd, sdfatLseek, found, Option.map_some]
      rfl
  | size =>
      simp only [Operation.run, vfsSize, onSd, sdfatSize, found, Option.map_some,
        Operation.onSdFile, Operation.closes, Bool.false_eq_true, if_false, replace_self found]
  | flush =>
      simp only [Operation.run, vfsFlush, onSd, sdfatFlush, found, Option.map_some]
      rfl
  | close =>
      simp only [Operation.run, vfsClose, onSd, sdfatClose, found, Option.map_some]
      rfl

theorem run_spiffsFile (onSpiffs : fd.fsType = .spiffs) {file : spiffs.File}
    (found : world.spiffsFiles fd.fileObj = some file) (operation : Operation) :
    operation.run world fd = some ((operation.onSpiffsFile world.spiffsState file).1,
      { world with
        spiffsFiles := Function.update world.spiffsFiles fd.fileObj
          (some (operation.onSpiffsFile world.spiffsState file).2.1)
        spiffsState := (operation.onSpiffsFile world.spiffsState file).2.2 }) := by
  cases operation with
  | read ptr len =>
      simp only [Operation.run, vfsRead, onSpiffs, spiffsRead, found, Option.map_some]
      rfl
  | write ptr len =>
      simp only [Operation.run, vfsWrite, onSpiffs, spiffsWrite, found, Option.map_some]
      rfl
  | lseek off whence =>
      simp only [Operation.run, vfsLseek, onSpiffs, spiffsLseek, found, Option.map_some]
      rfl
  | size =>
      simp only [Operation.run, vfsSize, onSpiffs, spiffsSize, found, Option.map_some,
        Operation.onSpiffsFile, replace_self found]
  | flush =>
      simp only [Operation.run, vfsFlush, onSpiffs, spiffsFlush, found, Option.map_some]
      rfl
  | close =>
      simp only [Operation.run, vfsClose, onSpiffs, spiffsClose, Option.map_some,
        Operation.onSpiffsFile, replace_self found]

end Memory

/-! ## Calls on open handles -/

structure Layer.InMemory (layer : Layer sd spiffs) : Prop where
  nodup : layer.handles.Nodup
  points : ∀ fd ∈ layer.handles, ∃ object, layer.world.fileObject fd = some object
  allocated : ∀ fd ∈ layer.handles, fd.fsType = .fatfs → fd.fileObj < layer.world.mallocs

/-- The file object that is registered when SPIFFS opens a file is not that of an
open handle. The operations are on open handles. -/
def Layer.OnOpen (layer : Layer sd spiffs) : Command → Prop
  | .setSpiffsFileObj _ => True
  | .openFile name _ =>
      isSd name = some false → ∀ fd ∈ layer.handles, fd.fsType = .spiffs →
        layer.world.filep ≠ some fd.fileObj
  | .onHandle fd _ => fd ∈ layer.handles

namespace Layer

variable {layer layer' : Layer sd spiffs} {fd : VfsFile}

/-- What an operation on an open handle does: it acts on the object of the handle and
on no other. -/
structure Operates (layer : Layer sd spiffs) (fd : VfsFile) (operation : Operation)
    (object : FileObject sd spiffs) (world' : World sd spiffs) : Prop where
  run : operation.run layer.world fd = some ((layer.owned.operate operation object).1, world')
  sameBut : SameBut layer.world world' fd
  states : (world'.sdState, world'.spiffsState) = (layer.owned.operate operation object).2.2
  own : operation.closes = false →
    world'.fileObject fd = some (layer.owned.operate operation object).2.1
  left : ∀ addr, layer.owned.leaving fd (layer.owned.operate operation object).2.1 addr =
    if ⟨.spiffs, addr⟩ = fd then world'.spiffsFiles addr else layer.owned.left addr

theorem operates {object : FileObject sd spiffs} (found : layer.world.fileObject fd = some object)
    (operation : Operation) : ∃ world', Operates layer fd operation object world' := by
  rw [World.fileObject] at found
  cases fsType : fd.fsType with
  | fatfs =>
      simp only [fsType, Option.map_eq_some_iff] at found
      rcases found with ⟨file, found, rfl⟩
      refine ⟨_, run_sdFile fsType found operation, sameBut_sdFiles fsType _ _, rfl,
        fun isOpen => ?_, fun addr => ?_⟩
      · simp only [World.fileObject, fsType, Function.update_self, isOpen, Bool.false_eq_true,
          if_false, Option.map_some]
        rfl
      · have onSpiffs : (⟨.spiffs, addr⟩ : VfsFile) ≠ fd := by
          rintro rfl
          cases fsType
        rw [if_neg onSpiffs]
        rfl
  | spiffs =>
      simp only [fsType, Option.map_eq_some_iff] at found
      rcases found with ⟨file, found, rfl⟩
      refine ⟨_, run_spiffsFile fsType found operation, sameBut_spiffsFiles fsType _ _, rfl,
        fun _ => ?_, fun addr => ?_⟩
      · simp only [World.fileObject, fsType, Function.update_self, Option.map_some]
        rfl
      · show Function.update layer.owned.left fd.fileObj _ addr =
          if ⟨.spiffs, addr⟩ = fd then Function.update layer.world.spiffsFiles fd.fileObj
            (some (operation.onSpiffsFile layer.world.spiffsState file).2.1) addr
          else layer.owned.left addr
        rcases eq_or_ne addr fd.fileObj with rfl | differs
        · have isFd : (⟨.spiffs, fd.fileObj⟩ : VfsFile) = fd := by
            rw [← fsType]
          rw [if_pos isFd, Function.update_self]
          rw [Function.update_self]
          rfl
        · have otherFd : (⟨.spiffs, addr⟩ : VfsFile) ≠ fd := fun same =>
            differs (congrArg VfsFile.fileObj same)
          rw [Function.update_of_ne differs, if_neg otherFd]

private theorem mem_handles_iff (operation : Operation) {handles : List VfsFile}
    {fd other : VfsFile} (differs : other ≠ fd) :
    other ∈ (if operation.closes then handles.erase fd else handles) ↔ other ∈ handles := by
  split
  · exact List.mem_erase_of_ne differs
  · exact Iff.rfl

theorem owned_after (inMemory : layer.InMemory) (isOpen : fd ∈ layer.handles)
    {operation : Operation} {object : FileObject sd spiffs} {world' : World sd spiffs}
    (operates : layer.Operates fd operation object world') :
    owned ⟨world', if operation.closes then layer.handles.erase fd else layer.handles⟩ =
      layer.owned.after fd operation object := by
  have ⟨_, sameBut, states, own, left⟩ := operates
  apply Owned.ext
  · exact sameBut.sdFats
  · exact congrArg Prod.fst states
  · exact sameBut.spiffsVolume
  · exact congrArg Prod.snd states
  · exact sameBut.filep
  · funext addr
    simp only [owned, Owned.after]
    rcases eq_or_ne ⟨.spiffs, addr⟩ fd with rfl | differs
    · cases closes : operation.closes with
      | true =>
          rw [if_pos rfl, if_pos rfl, if_neg inMemory.nodup.not_mem_erase]
          exact ((left addr).trans (if_pos rfl)).symm
      | false =>
          rw [if_neg Bool.false_ne_true, if_neg Bool.false_ne_true, if_pos isOpen]
          exact (if_pos isOpen).symm
    · simp only [mem_handles_iff operation differs, sameBut.spiffsFiles addr differs]
      cases operation.closes with
      | true => exact ((left addr).trans (if_neg differs)).symm
      | false => rfl
  · funext other
    simp only [owned, Owned.after]
    rcases eq_or_ne other fd with rfl | differs
    · rw [Function.update_self]
      cases closes : operation.closes with
      | true => exact if_neg inMemory.nodup.not_mem_erase
      | false => exact (if_pos isOpen).trans (own closes)
    · rw [Function.update_of_ne differs]
      simp only [mem_handles_iff operation differs, sameBut.fileObject other differs]

theorem call_onHandle (inMemory : layer.InMemory) (isOpen : fd ∈ layer.handles)
    (operation : Operation) :
    ∃ object world', layer.owned.file fd = some object ∧
      layer.Operates fd operation object world' ∧
      layer.call (.onHandle fd operation) = some ((layer.owned.operate operation object).1,
        ⟨world', if operation.closes then layer.handles.erase fd else layer.handles⟩) := by
  rcases inMemory.points fd isOpen with ⟨object, found⟩
  rcases operates found operation with ⟨world', operates⟩
  refine ⟨object, world', (if_pos isOpen).trans found, operates, ?_⟩
  rw [call, operates.run, Option.map_some]

theorem onHandle_step (inMemory : layer.InMemory) (isOpen : fd ∈ layer.handles)
    {operation : Operation} {output : Output}
    (called : layer.call (.onHandle fd operation) = some (output, layer')) :
    Owned.Step layer.owned (.onHandle fd operation, output) layer'.owned ∧ layer'.InMemory := by
  rcases call_onHandle inMemory isOpen operation with ⟨object, world', owns, operates, called'⟩
  rw [called, Option.some.injEq, Prod.mk.injEq] at called'
  rcases called' with ⟨rfl, rfl⟩
  constructor
  · rw [owned_after inMemory isOpen operates]
    exact .operated owns operation
  · have ⟨_, sameBut, _, own, _⟩ := operates
    have wasOpen : ∀ other ∈ (if operation.closes then layer.handles.erase fd
        else layer.handles), other ∈ layer.handles := by
      intro other member
      split at member
      · exact List.mem_of_mem_erase member
      · exact member
    constructor
    · cases closes : operation.closes with
      | true => exact inMemory.nodup.erase fd
      | false => exact inMemory.nodup
    · intro other member
      by_cases same : other = fd
      · subst same
        cases closes : operation.closes with
        | true =>
            rw [closes, if_pos rfl] at member
            exact absurd member inMemory.nodup.not_mem_erase
        | false => exact ⟨_, own closes⟩
      · rw [sameBut.fileObject other same]
        exact inMemory.points other (wasOpen other member)
    · intro other member isFatfs
      rw [sameBut.mallocs]
      exact inMemory.allocated other (wasOpen other member) isFatfs

/-! ## Opening files -/

section Opening

variable {world' : World sd spiffs}

theorem InMemory.kept (inMemory : layer.InMemory)
    (kept : ∀ other ∈ layer.handles, world'.fileObject other = layer.world.fileObject other)
    (mallocs : layer.world.mallocs ≤ world'.mallocs) : InMemory ⟨world', layer.handles⟩ where
  nodup := inMemory.nodup
  points other isOpen := by
    rw [kept other isOpen]
    exact inMemory.points other isOpen
  allocated other isOpen isFatfs :=
    Nat.lt_of_lt_of_le (inMemory.allocated other isOpen isFatfs) mallocs

theorem InMemory.cons (inMemory : layer.InMemory) (notOpen : fd ∉ layer.handles)
    {object : FileObject sd spiffs} (found : layer.world.fileObject fd = some object)
    (allocated : fd.fsType = .fatfs → fd.fileObj < layer.world.mallocs) :
    InMemory ⟨layer.world, fd :: layer.handles⟩ where
  nodup := List.nodup_cons.mpr ⟨notOpen, inMemory.nodup⟩
  points other isOpen := by
    rcases List.mem_cons.mp isOpen with rfl | wasOpen
    · exact ⟨object, found⟩
    · exact inMemory.points other wasOpen
  allocated other isOpen isFatfs := by
    rcases List.mem_cons.mp isOpen with rfl | wasOpen
    · exact allocated isFatfs
    · exact inMemory.allocated other wasOpen isFatfs

theorem owned_cons_sdFile (handles : List VfsFile) {addr : Nat} {file : sd.File}
    (found : world'.fileObject ⟨.fatfs, addr⟩ = some (.sdFile file)) :
    owned ⟨world', ⟨.fatfs, addr⟩ :: handles⟩ = { owned ⟨world', handles⟩ with
      file := Function.update (owned ⟨world', handles⟩).file ⟨.fatfs, addr⟩
        (some (.sdFile file)) } := by
  apply Owned.ext <;> try rfl
  · funext other
    simp [owned]
  · funext other
    rcases eq_or_ne other ⟨.fatfs, addr⟩ with rfl | differs
    · simp [owned, found]
    · simp [owned, differs]

theorem owned_cons_spiffsFile (handles : List VfsFile) {addr : Nat} {file : spiffs.File}
    (found : world'.fileObject ⟨.spiffs, addr⟩ = some (.spiffsFile file)) :
    owned ⟨world', ⟨.spiffs, addr⟩ :: handles⟩ = { owned ⟨world', handles⟩ with
      left := Function.update (owned ⟨world', handles⟩).left addr none
      file := Function.update (owned ⟨world', handles⟩).file ⟨.spiffs, addr⟩
        (some (.spiffsFile file)) } := by
  apply Owned.ext <;> try rfl
  · funext other
    rcases eq_or_ne other addr with rfl | differs
    · simp [owned]
    · simp [owned, differs]
  · funext other
    rcases eq_or_ne other ⟨.spiffs, addr⟩ with rfl | differs
    · simp [owned, found]
    · simp [owned, differs]

theorem left_update {addr : Nat} (notOpen : ⟨.spiffs, addr⟩ ∉ layer.handles)
    (object : Option spiffs.File) :
    (fun other => if ⟨.spiffs, other⟩ ∈ layer.handles then none
      else Function.update layer.world.spiffsFiles addr object other) =
      Function.update layer.owned.left addr object := by
  funext other
  rcases eq_or_ne other addr with rfl | differs
  · rw [if_neg notOpen, Function.update_self, Function.update_self]
  · rw [Function.update_of_ne differs, Function.update_of_ne differs]
    rfl

theorem owned_kept
    (kept : ∀ other ∈ layer.handles, world'.fileObject other = layer.world.fileObject other)
    (sdFats : world'.sdFats = layer.world.sdFats)
    (spiffsVolume : world'.spiffsVolume = layer.world.spiffsVolume)
    (filep : world'.filep = layer.world.filep) :
    owned ⟨world', layer.handles⟩ = { layer.owned with
      sdState := world'.sdState
      spiffsState := world'.spiffsState
      left := fun addr =>
        if ⟨.spiffs, addr⟩ ∈ layer.handles then none else world'.spiffsFiles addr } := by
  apply Owned.ext
  · exact sdFats
  · rfl
  · exact spiffsVolume
  · rfl
  · exact filep
  · rfl
  · funext other
    simp only [owned]
    split
    · exact kept other ‹_›
    · rfl

end Opening

theorem openFile_step (inMemory : layer.InMemory) {name mode : List Char}
    (onOpen : layer.OnOpen (.openFile name mode)) {output : Output}
    (called : layer.call (.openFile name mode) = some (output, layer')) :
    Owned.Step layer.owned (.openFile name mode, output) layer'.owned ∧ layer'.InMemory := by
  rcases Option.map_eq_some_iff.mp called with ⟨⟨result, world'⟩, opened, isLayer⟩
  rw [Prod.mk.injEq] at isLayer
  rcases isLayer with ⟨rfl, rfl⟩
  rw [vfsOpen_eq, Option.bind_eq_some_iff] at opened
  rcases opened with ⟨place, led, opened⟩
  cases leads_of_eq led with
  | nowhere onSd noDigit =>
      cases opened
      refine ⟨.failed ?_, inMemory⟩
      simp only [Owned.opening, onSd, noDigit, Option.bind_some, if_true]
      rfl
  | @sdFat digit volume path onSd isDigit mounted skipped =>
      have isOpening : layer.owned.opening name mode =
          some ((sd.openFile layer.world.sdState volume path (sdfatMode mode)).1.map .sdFile,
            { layer.owned with
              sdState := (sd.openFile layer.world.sdState volume path (sdfatMode mode)).2 }) := by
        simp only [Owned.opening, onSd, isDigit, owned, mounted, skipped, Option.bind_some,
          if_true, Option.map_some]
      rw [World.openPlace] at opened
      rcases result : sd.openFile layer.world.sdState volume path (sdfatMode mode) with
        ⟨_ | file, state⟩
      · rw [result] at opened isOpening
        cases opened
        exact ⟨.failed isOpening, inMemory.kept (fun _ _ => rfl) (Nat.le_refl _)⟩
      · rw [result] at opened isOpening
        cases opened
        have notOpen : ⟨.fatfs, layer.world.mallocs⟩ ∉ layer.handles := by
          intro isOpen
          exact Nat.lt_irrefl _ (inMemory.allocated _ isOpen rfl)
        have kept : ∀ other ∈ layer.handles, World.fileObject { layer.world with
            sdState := state
            sdFiles := Function.update layer.world.sdFiles layer.world.mallocs (some file)
            mallocs := layer.world.mallocs + 1 } other = layer.world.fileObject other :=
          fun other isOpen => fileObject_sdFiles rfl rfl fun isFatfs =>
            Nat.ne_of_lt (inMemory.allocated other isOpen isFatfs)
        have found : World.fileObject { layer.world with
            sdState := state
            sdFiles := Function.update layer.world.sdFiles layer.world.mallocs (some file)
            mallocs := layer.world.mallocs + 1 } ⟨.fatfs, layer.world.mallocs⟩ =
            some (.sdFile file) := by
          simp [World.fileObject]
        constructor
        · have isOwned := owned_cons_sdFile layer.handles found
          rw [owned_kept kept rfl rfl rfl] at isOwned
          refine isOwned ▸ ?_
          exact .opened isOpening (if_neg notOpen)
        · exact (inMemory.kept kept (Nat.le_succ _)).cons notOpen found
            fun _ => Nat.lt_succ_self _
  | @spiffs path notSd skipped =>
      rw [World.openPlace, Option.map_eq_some_iff] at opened
      rcases opened with ⟨filep, registered, opened⟩
      have notOpen : ⟨.spiffs, filep⟩ ∉ layer.handles := fun isOpen =>
        onOpen notSd _ isOpen rfl registered
      have isLeft : layer.owned.left filep = layer.world.spiffsFiles filep := if_neg notOpen
      have isOpening : layer.owned.opening name mode =
          some ((spiffs.openFile layer.world.spiffsState layer.world.spiffsVolume path mode).1.map
              .spiffsFile, { layer.owned with
            spiffsState := spiffs.release (spiffs.openFile layer.world.spiffsState
              layer.world.spiffsVolume path mode).2 (layer.world.spiffsFiles filep)
            left := Function.update layer.owned.left filep none }) := by
        rw [← isLeft]
        simp only [Owned.opening, notSd, owned, registered, skipped, Option.bind_some,
          Bool.false_eq_true, if_false, Option.map_some]
      rcases result : spiffs.openFile layer.world.spiffsState layer.world.spiffsVolume path mode
        with ⟨object, state⟩
      rw [result] at opened isOpening
      cases opened
      have kept : ∀ other ∈ layer.handles, World.fileObject { layer.world with
          spiffsState := spiffs.release state (layer.world.spiffsFiles filep)
          spiffsFiles := Function.update layer.world.spiffsFiles filep object } other =
          layer.world.fileObject other := by
        intro other isOpen
        exact fileObject_spiffsFiles rfl rfl fun isSpiffs sameObj =>
          onOpen notSd other isOpen isSpiffs (sameObj ▸ registered)
      have isOwned := owned_kept kept rfl rfl rfl
      rw [left_update notOpen] at isOwned
      have inMemory' := inMemory.kept kept (Nat.le_refl _)
      cases object with
      | none =>
          refine ⟨?_, inMemory'⟩
          exact isOwned ▸ .failed isOpening
      | some file =>
          have found : World.fileObject { layer.world with
              spiffsState := spiffs.release state (layer.world.spiffsFiles filep)
              spiffsFiles := Function.update layer.world.spiffsFiles filep (some file) }
              ⟨.spiffs, filep⟩ = some (.spiffsFile file) := by
            simp [World.fileObject]
          constructor
          · have isOwned' := owned_cons_spiffsFile layer.handles found
            simp only [isOwned, Function.update_idem] at isOwned'
            refine isOwned' ▸ ?_
            exact .opened isOpening (if_neg notOpen)
          · exact inMemory'.cons notOpen found fun isFatfs => by cases isFatfs

theorem call_step (inMemory : layer.InMemory) {command : Command} (onOpen : layer.OnOpen command)
    {output : Output} (called : layer.call command = some (output, layer')) :
    Owned.Step layer.owned (command, output) layer'.owned ∧ layer'.InMemory := by
  cases command with
  | setSpiffsFileObj inFilep =>
      rw [call, Option.some.injEq, Prod.mk.injEq] at called
      rcases called with ⟨rfl, rfl⟩
      exact ⟨.setSpiffsFileObj layer.owned inFilep, inMemory.nodup, inMemory.points,
        inMemory.allocated⟩
  | openFile name mode => exact openFile_step inMemory onOpen called
  | onHandle fd operation => exact onHandle_step inMemory onOpen called

end Layer

/-! ## Independent files -/

section Independent

variable (sdIndependent : sd.Independent) (spiffsIndependent : spiffs.Independent)

def FileObject.fileId : FileObject sd spiffs → sdIndependent.FileId ⊕ spiffsIndependent.FileId
  | .sdFile file => .inl (sdIndependent.fileId file)
  | .spiffsFile file => .inr (spiffsIndependent.fileId file)

def FileObject.handle (states : sd.State × spiffs.State) : FileObject sd spiffs → Handle
  | .sdFile file => sdIndependent.handle states.1 file
  | .spiffsFile file => spiffsIndependent.handle states.2 file

theorem seekFirst_fileId (state : sd.State) (off : Int) :
    ∀ (cases : List Whence) (file : sd.File),
      sdIndependent.fileId (seekFirst sd state off cases file).2 = sdIndependent.fileId file
  | [], _ => rfl
  | whence :: rest, file => by
      have same := sdIndependent.seek_fileId state file whence off
      rw [seekFirst]
      rcases sought : sd.seek state file whence off with ⟨moved, file'⟩
      rw [sought] at same
      cases moved with
      | true => exact same
      | false => exact (seekFirst_fileId state off rest file').trans same

namespace Owned

variable {owned : Owned sd spiffs}

def Distinct (owned : Owned sd spiffs) : Prop :=
  ∀ fd other object object', owned.file fd = some object → owned.file other = some object' →
    fd ≠ other →
    object.fileId sdIndependent spiffsIndependent ≠ object'.fileId sdIndependent spiffsIndependent

theorem operate_fileId (operation : Operation) (object : FileObject sd spiffs) :
    (owned.operate operation object).2.1.fileId sdIndependent spiffsIndependent =
      object.fileId sdIndependent spiffsIndependent := by
  cases object with
  | sdFile file =>
      apply congrArg Sum.inl
      cases operation with
      | read ptr len => exact sdIndependent.read_fileId _ _ _ _
      | write ptr len => exact sdIndependent.write_fileId _ _ _ _
      | lseek off whence => exact seekFirst_fileId sdIndependent _ _ _ _
      | size => rfl
      | flush => exact sdIndependent.flush_fileId _ _
      | close => rfl
  | spiffsFile file =>
      apply congrArg Sum.inr
      cases operation with
      | read ptr len => exact spiffsIndependent.read_fileId _ _ _ _
      | write ptr len => exact spiffsIndependent.write_fileId _ _ _ _
      | lseek off whence => exact spiffsIndependent.seek_fileId _ _ _ _
      | size => rfl
      | flush => exact spiffsIndependent.flush_fileId _ _
      | close => rfl

theorem operate_other (operation : Operation) {object other : FileObject sd spiffs}
    (differs : other.fileId sdIndependent spiffsIndependent ≠
      object.fileId sdIndependent spiffsIndependent) :
    other.handle sdIndependent spiffsIndependent (owned.operate operation object).2.2 =
      other.handle sdIndependent spiffsIndependent (owned.sdState, owned.spiffsState) := by
  cases object with
  | sdFile file =>
      cases other with
      | sdFile other =>
          have apart : sdIndependent.fileId other ≠ sdIndependent.fileId file :=
            fun same => differs (congrArg Sum.inl same)
          cases operation with
          | write ptr len => exact sdIndependent.write_other _ _ _ _ _ apart
          | flush => exact sdIndependent.flush_other _ _ _ apart
          | close => exact sdIndependent.close_other _ _ _ apart
          | read ptr len => rfl
          | lseek off whence => rfl
          | size => rfl
      | spiffsFile other => rfl
  | spiffsFile file =>
      cases other with
      | sdFile other => rfl
      | spiffsFile other =>
          have apart : spiffsIndependent.fileId other ≠ spiffsIndependent.fileId file :=
            fun same => differs (congrArg Sum.inr same)
          cases operation with
          | write ptr len => exact spiffsIndependent.write_other _ _ _ _ _ apart
          | flush => exact spiffsIndependent.flush_other _ _ _ apart
          | close => rfl
          | read ptr len => rfl
          | lseek off whence => rfl
          | size => rfl

/-- The file left in the registered object, which SPIFFS closes when it opens another, is
not that of an open handle. -/
def ReleasesApart (owned : Owned sd spiffs) (command : Command) : Prop :=
  ∀ name mode filep held, command = .openFile name mode → isSd name = some false →
    owned.filep = some filep → owned.left filep = some held →
    ∀ fd other, owned.file fd = some other → other.fileId sdIndependent spiffsIndependent ≠
      .inr (spiffsIndependent.fileId held)

theorem openFile_other {Mode : Type} {store : FileStore Mode} (independent : store.Independent)
    {state : store.State} {volume : store.Volume} {path : List Char} {mode : Mode}
    {other : store.File}
    (differs : ∀ file, (store.openFile state volume path mode).1 = some file →
      independent.fileId other ≠ independent.fileId file) :
    independent.handle (store.openFile state volume path mode).2 other =
      independent.handle state other := by
  rcases result : store.openFile state volume path mode with ⟨_ | file, state'⟩
  · exact independent.open_failed _ _ _ _ _ _ result
  · rw [result] at differs
    exact independent.open_other _ _ _ _ _ _ _ result (differs file rfl)

/-- Opening a file leaves the objects on other files alone, and failing to open one
leaves all objects alone, where the file that is released is another one too. -/
theorem opening_other {name mode : List Char} {opened : Option (FileObject sd spiffs)}
    {owned' : Owned sd spiffs} (opens : owned.opening name mode = some (opened, owned'))
    {other : FileObject sd spiffs}
    (differs : ∀ object, opened = some object → other.fileId sdIndependent spiffsIndependent ≠
      object.fileId sdIndependent spiffsIndependent)
    (released : ∀ filep held, isSd name = some false → owned.filep = some filep →
      owned.left filep = some held → other.fileId sdIndependent spiffsIndependent ≠
        .inr (spiffsIndependent.fileId held)) :
    other.handle sdIndependent spiffsIndependent (owned'.sdState, owned'.spiffsState) =
      other.handle sdIndependent spiffsIndependent (owned.sdState, owned.spiffsState) := by
  rw [opening] at opens
  rcases Option.bind_eq_some_iff.mp opens with ⟨onSd, isOnSd, opens⟩
  cases onSd with
  | true =>
      rw [if_pos rfl] at opens
      cases idx : sdIdx name with
      | none =>
          rw [idx, Option.some.injEq, Prod.mk.injEq] at opens
          rw [← opens.2]
      | some idx' =>
          simp only [idx, Option.bind_eq_some_iff, Option.map_eq_some_iff] at opens
          rcases opens with ⟨volume, _, path, _, opens⟩
          rw [Prod.mk.injEq] at opens
          rcases opens with ⟨isOpened, rfl⟩
          cases other with
          | spiffsFile other => rfl
          | sdFile other =>
              apply openFile_other sdIndependent
              intro file isFile same
              rw [isFile] at isOpened
              exact differs _ isOpened.symm (congrArg Sum.inl same)
  | false =>
      rw [if_neg Bool.false_ne_true] at opens
      rcases Option.bind_eq_some_iff.mp opens with ⟨filep, registered, opens⟩
      rcases Option.map_eq_some_iff.mp opens with ⟨path, _, opens⟩
      rw [Prod.mk.injEq] at opens
      rcases opens with ⟨isOpened, rfl⟩
      cases other with
      | sdFile other => rfl
      | spiffsFile other =>
          have notReleased : ∀ held, owned.left filep = some held →
              spiffsIndependent.fileId other ≠ spiffsIndependent.fileId held :=
            fun held isHeld same =>
              released filep held isOnSd registered isHeld (congrArg Sum.inr same)
          apply (spiffsIndependent.release_other _ notReleased).trans
          apply openFile_other spiffsIndependent
          intro file isFile same
          rw [isFile] at isOpened
          exact differs _ isOpened.symm (congrArg Sum.inr same)

/-- A handle keeps its object, with the content of its file and its position, in
every call that is not an operation on it, and stays on its file in all. -/
def Isolated (owned : Owned sd spiffs) (command : Command) (owned' : Owned sd spiffs) : Prop :=
  ∀ fd object, owned.file fd = some object →
    ((∀ operation, command ≠ .onHandle fd operation) → owned'.file fd = some object ∧
      object.handle sdIndependent spiffsIndependent (owned'.sdState, owned'.spiffsState) =
        object.handle sdIndependent spiffsIndependent (owned.sdState, owned.spiffsState)) ∧
    ∀ object', owned'.file fd = some object' →
      object'.fileId sdIndependent spiffsIndependent =
        object.fileId sdIndependent spiffsIndependent

def OpensApart (owned : Owned sd spiffs) (command : Command) : Prop :=
  ∀ name mode object opening, command = .openFile name mode →
    owned.opening name mode = some (some object, opening) →
    ∀ fd other, owned.file fd = some other → other.fileId sdIndependent spiffsIndependent ≠
      object.fileId sdIndependent spiffsIndependent

variable {owned' : Owned sd spiffs} {label : Command × Output}

theorem opening_file {name mode : List Char} {opened : Option (FileObject sd spiffs)}
    (opens : owned.opening name mode = some (opened, owned')) : owned'.file = owned.file := by
  rw [opening] at opens
  rcases Option.bind_eq_some_iff.mp opens with ⟨onSd, _, opens⟩
  cases onSd with
  | true =>
      rw [if_pos rfl] at opens
      cases idx : sdIdx name with
      | none =>
          rw [idx] at opens
          cases opens
          rfl
      | some idx' =>
          simp only [idx, Option.bind_eq_some_iff, Option.map_eq_some_iff] at opens
          rcases opens with ⟨volume, _, path, _, opens⟩
          cases opens
          rfl
  | false =>
      simp only [Bool.false_eq_true, if_false, Option.bind_eq_some_iff,
        Option.map_eq_some_iff] at opens
      rcases opens with ⟨filep, _, path, _, opens⟩
      cases opens
      rfl

/-- Where an object comes from: its handle was open on the same file, or is opened
with it. -/
theorem Step.origin (step : Step owned label owned') {fd : VfsFile}
    {object : FileObject sd spiffs} (owns : owned'.file fd = some object) :
    (∃ before, owned.file fd = some before ∧
      object.fileId sdIndependent spiffsIndependent =
        before.fileId sdIndependent spiffsIndependent) ∨
    owned.file fd = none ∧ ∃ name mode opening, label = (.openFile name mode, .opened (some fd)) ∧
      owned.opening name mode = some (some object, opening) := by
  cases step with
  | setSpiffsFileObj inFilep => exact Or.inl ⟨object, owns, rfl⟩
  | failed fails =>
      rw [opening_file fails] at owns
      exact Or.inl ⟨object, owns, rfl⟩
  | @opened opening name mode new fd' opens isNew =>
      by_cases same : fd = fd'
      · subst same
        simp only [Function.update_self, Option.some.injEq] at owns
        subst owns
        exact Or.inr ⟨isNew, name, mode, opening, rfl, opens⟩
      · simp only [Function.update_of_ne same, opening_file opens] at owns
        exact Or.inl ⟨object, owns, rfl⟩
  | @operated fd' acted owns' operation =>
      left
      by_cases same : fd = fd'
      · subst same
        simp only [after, Function.update_self] at owns
        split at owns
        · cases owns
        · rw [← Option.some.inj owns]
          exact ⟨acted, owns', operate_fileId _ _ operation acted⟩
      · simp only [after, Function.update_of_ne same] at owns
        exact ⟨object, owns, rfl⟩

theorem Step.kept (step : Step owned label owned')
    (distinct : owned.Distinct sdIndependent spiffsIndependent)
    (apart : owned.OpensApart sdIndependent spiffsIndependent label.1)
    (releases : owned.ReleasesApart sdIndependent spiffsIndependent label.1) {fd : VfsFile}
    {object : FileObject sd spiffs} (owns : owned.file fd = some object)
    (elsewhere : ∀ operation, label.1 ≠ .onHandle fd operation) :
    owned'.file fd = some object ∧
      object.handle sdIndependent spiffsIndependent (owned'.sdState, owned'.spiffsState) =
        object.handle sdIndependent spiffsIndependent (owned.sdState, owned.spiffsState) := by
  cases step with
  | setSpiffsFileObj inFilep => exact ⟨owns, rfl⟩
  | @failed _ name mode fails =>
      refine ⟨by rw [opening_file fails, owns], opening_other _ _ fails ?_ ?_⟩
      · intro object' isNew
        cases isNew
      · intro filep held notSd registered isLeft
        exact releases name mode filep held rfl notSd registered isLeft fd object owns
  | @opened opening name mode new fd' opens isNew =>
      have otherFd : fd ≠ fd' := by
        intro same
        rw [same, isNew] at owns
        cases owns
      refine ⟨?_, opening_other _ _ opens ?_ ?_⟩
      · simp only [Function.update_of_ne otherFd, opening_file opens, owns]
      · intro object' isObject
        rw [← Option.some.inj isObject]
        exact apart name mode new opening rfl opens fd object owns
      · intro filep held notSd registered isLeft
        exact releases name mode filep held rfl notSd registered isLeft fd object owns
  | @operated fd' acted owns' operation =>
      have otherFd : fd ≠ fd' := by
        intro same
        subst same
        exact elsewhere operation rfl
      exact ⟨(Function.update_of_ne otherFd _ _).trans owns,
        operate_other _ _ operation (distinct _ _ _ _ owns owns' otherFd)⟩

theorem Step.isolated (step : Step owned label owned')
    (distinct : owned.Distinct sdIndependent spiffsIndependent)
    (apart : owned.OpensApart sdIndependent spiffsIndependent label.1)
    (releases : owned.ReleasesApart sdIndependent spiffsIndependent label.1) :
    owned.Isolated sdIndependent spiffsIndependent label.1 owned' := by
  intro fd object owns
  refine ⟨step.kept _ _ distinct apart releases owns, fun object' owns' => ?_⟩
  rcases step.origin sdIndependent spiffsIndependent owns' with
    ⟨before, owned, same⟩ | ⟨isNew, _⟩
  · rw [owns, Option.some.injEq] at owned
    rw [same, owned]
  · rw [owns] at isNew
    cases isNew

theorem Step.distinct (step : Step owned label owned')
    (distinct : owned.Distinct sdIndependent spiffsIndependent)
    (apart : owned.OpensApart sdIndependent spiffsIndependent label.1) :
    owned'.Distinct sdIndependent spiffsIndependent := by
  intro fd other object object' owns owns' differs
  rcases step.origin sdIndependent spiffsIndependent owns with
    ⟨before, owned, same⟩ | ⟨_, name, mode, states, rfl, opens⟩
  · rw [same]
    rcases step.origin sdIndependent spiffsIndependent owns' with
      ⟨before', owned', same'⟩ | ⟨_, name, mode, states, rfl, opens⟩
    · rw [same']
      exact distinct _ _ _ _ owned owned' differs
    · exact apart name mode object' states rfl opens fd before owned
  · rcases step.origin sdIndependent spiffsIndependent owns' with
      ⟨before', owned', same'⟩ | ⟨_, name', mode', states', isLabel, _⟩
    · rw [same']
      exact (apart name mode object states rfl opens other before' owned').symm
    · exact absurd (by simpa using isLabel : _ ∧ fd = other) (by simp [differs])

end Owned

/-! ## Runs -/

def Layer.Step (layer : Layer sd spiffs) (label : Command × Output) (layer' : Layer sd spiffs) :
    Prop :=
  layer.OnOpen label.1 ∧ layer.owned.OpensApart sdIndependent spiffsIndependent label.1 ∧
    layer.call label.1 = some (label.2, layer')

def Layer.Sound (layer : Layer sd spiffs) : Prop :=
  layer.InMemory ∧ layer.owned.Distinct sdIndependent spiffsIndependent

theorem Layer.Step.sound {layer layer' : Layer sd spiffs} {label : Command × Output}
    (sound : layer.Sound sdIndependent spiffsIndependent)
    (step : layer.Step sdIndependent spiffsIndependent label layer') :
    layer'.Sound sdIndependent spiffsIndependent := by
  rcases sound with ⟨inMemory, distinct⟩
  rcases step with ⟨onOpen, apart, called⟩
  rcases call_step inMemory onOpen called with ⟨step, inMemory'⟩
  exact ⟨inMemory', step.distinct _ _ distinct apart⟩

theorem Layer.sound_start (world : World sd spiffs) :
    Layer.Sound sdIndependent spiffsIndependent ⟨world, []⟩ := by
  refine ⟨⟨List.nodup_nil, ?_, ?_⟩, ?_⟩
  · intro fd isOpen
    cases isOpen
  · intro fd isOpen
    cases isOpen
  · intro fd other object object' owns
    cases owns

/-- Every run of calls is a run of handles that own their objects. In each of its
states, every operation on an open handle has a meaning, and every call that does not
release the file of an open handle leaves the object, the file and the position of
every handle alone that it is not an operation on. -/
theorem handles_isolated {world : World sd spiffs} {labels : List (Command × Output)}
    {layer : Layer sd spiffs}
    (trace : Trace (Layer.Step sdIndependent spiffsIndependent) ⟨world, []⟩ labels layer) :
    Trace Owned.Step (Layer.owned ⟨world, []⟩) labels layer.owned ∧
      (∀ fd ∈ layer.handles, ∀ operation, (layer.call (.onHandle fd operation)).isSome = true) ∧
      ∀ label layer', layer.Step sdIndependent spiffsIndependent label layer' →
        layer.owned.ReleasesApart sdIndependent spiffsIndependent label.1 →
        layer.owned.Isolated sdIndependent spiffsIndependent label.1 layer'.owned := by
  have atStart := Layer.sound_start sdIndependent spiffsIndependent world
  have keeps : ∀ (state : Layer sd spiffs) label state',
      state.Sound sdIndependent spiffsIndependent →
      state.Step sdIndependent spiffsIndependent label state' →
      state'.Sound sdIndependent spiffsIndependent :=
    fun _ _ _ sound step => step.sound _ _ sound
  have sound := trace.invariant atStart keeps
  refine ⟨trace.simulates atStart keeps ?_, fun fd isOpen operation => ?_, ?_⟩
  · intro state label state' sound step
    exact (Layer.call_step sound.1 step.1 step.2.2).1
  · rcases Layer.call_onHandle sound.1 isOpen operation with ⟨_, _, _, _, called⟩
    rw [called, Option.isSome_some]
  · intro label layer' step releases
    exact (Layer.call_step sound.1 step.1 step.2.2).1.isolated _ _ sound.2 step.2.1 releases

theorem Layer.step_openFile {layer layer' : Layer sd spiffs} {name mode : List Char}
    {output : Output} (closed : layer.handles = [])
    (called : layer.call (.openFile name mode) = some (output, layer')) :
    layer.Step sdIndependent spiffsIndependent (.openFile name mode, output) layer' := by
  have notOpen : ∀ fd, fd ∉ layer.handles := fun fd isOpen => by
    rw [closed] at isOpen
    cases isOpen
  refine ⟨fun _ fd isOpen => absurd isOpen (notOpen fd), ?_, called⟩
  intro _ _ _ _ _ _ fd other owns
  have isNone : layer.owned.file fd = none := if_neg (notOpen fd)
  rw [isNone] at owns
  cases owns

theorem Layer.step_openOther {layer layer' : Layer sd spiffs} {name mode : List Char}
    {output : Output} {fd : VfsFile} {object other : FileObject sd spiffs}
    (handles : layer.handles = [fd]) (unused : layer.world.filep ≠ some fd.fileObj)
    (owns : layer.owned.file fd = some other)
    (opens : (layer.owned.opening name mode).map Prod.fst = some (some object))
    (differs : other.fileId sdIndependent spiffsIndependent ≠
      object.fileId sdIndependent spiffsIndependent)
    (called : layer.call (.openFile name mode) = some (output, layer')) :
    layer.Step sdIndependent spiffsIndependent (.openFile name mode, output) layer' := by
  have isFd : ∀ fd' ∈ layer.handles, fd' = fd := fun fd' isOpen => by
    rw [handles] at isOpen
    exact List.mem_singleton.mp isOpen
  refine ⟨fun _ fd' isOpen _ => isFd fd' isOpen ▸ unused, ?_, called⟩
  intro name' mode' object' opening isCommand opens' fd' other' owns'
  cases isCommand
  rw [opens', Option.map_some, Option.some.injEq, Option.some.injEq] at opens
  have isOpen : fd' ∈ layer.handles := by
    by_contra notOpen
    have isNone : layer.owned.file fd' = none := if_neg notOpen
    rw [isNone] at owns'
    cases owns'
  rw [isFd fd' isOpen, owns, Option.some.injEq] at owns'
  rw [← owns', opens]
  exact differs

theorem Layer.step_onHandle {layer layer' : Layer sd spiffs} {fd : VfsFile}
    {operation : Operation} {output : Output} (isOpen : fd ∈ layer.handles)
    (called : layer.call (.onHandle fd operation) = some (output, layer')) :
    layer.Step sdIndependent spiffsIndependent (.onHandle fd operation, output) layer' := by
  refine ⟨isOpen, ?_, called⟩
  intro _ _ _ _ isOpenFile
  cases isOpenFile

theorem Layer.step_setSpiffsFileObj (layer : Layer sd spiffs) (inFilep : Option Nat) :
    layer.Step sdIndependent spiffsIndependent (.setSpiffsFileObj inFilep, .nothing)
      { layer with world := vfsSetSpiffsFileObj layer.world inFilep } := by
  refine ⟨trivial, ?_, rfl⟩
  intro _ _ _ _ isOpenFile
  cases isOpenFile

end Independent

def Layer.after (layer : Layer sd spiffs) (command : Command) : Layer sd spiffs :=
  ((layer.call command).map Prod.snd).getD layer

def noHandles : Layer (memoryStore sdAccess) (memoryStore fopenAccess) :=
  ⟨memoryWorld fun _ => none, []⟩

def oneHandle : Layer (memoryStore sdAccess) (memoryStore fopenAccess) :=
  (noHandles.after (.openFile "/FLASH/a".toList ['w', '+'])).after (.setSpiffsFileObj (some 1))

def twoHandles : Layer (memoryStore sdAccess) (memoryStore fopenAccess) :=
  oneHandle.after (.openFile "/FLASH/b".toList ['w', '+'])

theorem handles_isolated_two :
    twoHandles.handles = [⟨.spiffs, 1⟩, ⟨.spiffs, 0⟩] ∧
      (∃ labels, Trace Owned.Step noHandles.owned labels twoHandles.owned) ∧
      (∀ fd ∈ twoHandles.handles, ∀ operation,
        (twoHandles.call (.onHandle fd operation)).isSome = true) ∧
      ∀ label layer', twoHandles.Step (memoryStoreIndependent sdAccess)
          (memoryStoreIndependent fopenAccess) label layer' →
        twoHandles.owned.ReleasesApart (memoryStoreIndependent sdAccess)
          (memoryStoreIndependent fopenAccess) label.1 →
        twoHandles.owned.Isolated (memoryStoreIndependent sdAccess)
          (memoryStoreIndependent fopenAccess) label.1 layer'.owned := by
  have first : noHandles.Step (memoryStoreIndependent sdAccess)
      (memoryStoreIndependent fopenAccess)
      (.openFile "/FLASH/a".toList ['w', '+'], .opened (some ⟨.spiffs, 0⟩))
      (noHandles.after (.openFile "/FLASH/a".toList ['w', '+'])) :=
    Layer.step_openFile _ _ rfl rfl
  have second := Layer.step_setSpiffsFileObj (memoryStoreIndependent sdAccess)
    (memoryStoreIndependent fopenAccess)
    (noHandles.after (.openFile "/FLASH/a".toList ['w', '+'])) (some 1)
  have third : oneHandle.Step (memoryStoreIndependent sdAccess)
      (memoryStoreIndependent fopenAccess)
      (.openFile "/FLASH/b".toList ['w', '+'], .opened (some ⟨.spiffs, 1⟩)) twoHandles := by
    refine Layer.step_openOther _ _ rfl (by decide) rfl rfl ?_ rfl
    intro same
    have samePath : ['/', 'a'] = ['/', 'b'] := Sum.inr.inj same
    exact absurd samePath (by decide)
  have trace := ((Trace.nil.snoc first).snoc second).snoc third
  exact ⟨rfl, ⟨_, (handles_isolated _ _ trace).1⟩, (handles_isolated _ _ trace).2⟩

/-- Before any file is opened, with a file object registered and files of SPIFFS that
are written late. -/
def lateLayer : Layer (memoryStore sdAccess) (lateStore fopenAccess) where
  world :=
    { sdFats := fun _ => none
      sdFiles := fun _ => none
      sdState := fun _ => none
      mallocs := 0
      spiffsVolume := ()
      spiffsFiles := fun _ => none
      spiffsState := fun _ => none
      filep := some 0 }
  handles := []

/-- A byte is written through the first file object, and the file closed and opened
again through the second one. -/
def lateCalls : List Command :=
  [.openFile "/FLASH/a".toList ['w', '+'], .onHandle ⟨.spiffs, 0⟩ (.write (fun _ => 7) 1),
    .onHandle ⟨.spiffs, 0⟩ .close, .setSpiffsFileObj (some 1),
    .openFile "/FLASH/a".toList ['r', '+'], .setSpiffsFileObj (some 0)]

def lateAfter (count : Nat) : Layer (memoryStore sdAccess) (lateStore fopenAccess) :=
  (lateCalls.take count).foldl Layer.after lateLayer

/-- Opening another file through the first object stores the byte, in the file of the
handle that is open. -/
theorem not_handles_isolated :
    ∃ labels label layer', Trace (Layer.Step (memoryStoreIndependent sdAccess)
        (lateStoreIndependent fopenAccess)) lateLayer labels (lateAfter 6) ∧
      (lateAfter 6).Step (memoryStoreIndependent sdAccess) (lateStoreIndependent fopenAccess)
        label layer' ∧
      ¬(lateAfter 6).owned.Isolated (memoryStoreIndependent sdAccess)
        (lateStoreIndependent fopenAccess) label.1 layer'.owned := by
  let step := Layer.Step (memoryStoreIndependent sdAccess) (lateStoreIndependent fopenAccess)
  have opened : step (lateAfter 0) (lateCalls[0], .opened (some ⟨.spiffs, 0⟩)) (lateAfter 1) :=
    Layer.step_openFile _ _ rfl rfl
  have written : step (lateAfter 1) (lateCalls[1], .returned 1) (lateAfter 2) :=
    Layer.step_onHandle _ _ List.mem_cons_self rfl
  have closed : step (lateAfter 2) (lateCalls[2], .returned vfsResOk) (lateAfter 3) :=
    Layer.step_onHandle _ _ List.mem_cons_self rfl
  have second : step (lateAfter 3) (lateCalls[3], .nothing) (lateAfter 4) :=
    Layer.step_setSpiffsFileObj _ _ (lateAfter 3) (some 1)
  have reopened : step (lateAfter 4) (lateCalls[4], .opened (some ⟨.spiffs, 1⟩)) (lateAfter 5) :=
    Layer.step_openFile _ _ rfl rfl
  have first : step (lateAfter 5) (lateCalls[5], .nothing) (lateAfter 6) :=
    Layer.step_setSpiffsFileObj _ _ (lateAfter 5) (some 0)
  have opensOther : step (lateAfter 6)
      (.openFile "/FLASH/b".toList ['w', '+'], .opened (some ⟨.spiffs, 0⟩))
      ((lateAfter 6).after (.openFile "/FLASH/b".toList ['w', '+'])) := by
    refine Layer.step_openOther _ _ rfl (by decide) rfl rfl ?_ rfl
    intro same
    have samePath : ['/', 'a'] = ['/', 'b'] := Sum.inr.inj same
    exact absurd samePath (by decide)
  refine ⟨_, _, _, (((((Trace.nil.snoc opened).snoc written).snoc closed).snoc second).snoc
    reopened).snoc first, opensOther, ?_⟩
  intro isolated
  have kept := ((isolated ⟨.spiffs, 1⟩ _ rfl).1 fun _ isOperation => by cases isOperation).2
  have sizes := congrArg (fun handle => handle.file.size) kept
  revert sizes
  decide

end EspSqlite.Vfs
