import EspSqlite.Vfs.Backends

/-! # Open handles

Any calls of the file system layer, and the model that explains them: every open
handle owns a file object, on which its operations act and no others. -/

namespace EspSqlite.Vfs

variable {sd : FileStore OpenFlags} {spiffs : FileStore (List Char)}

/-- `file_obj` of an open handle. -/
inductive FileObject (sd : FileStore OpenFlags) (spiffs : FileStore (List Char))
  | sdFile (file : sd.File)
  | spiffsFile (file : spiffs.File)

def World.fileObject (world : World sd spiffs) (fd : VfsFile) : Option (FileObject sd spiffs) :=
  match fd.fsType with
  | .fatfs => (world.sdFiles fd.fileObj).map .sdFile
  | .spiffs => (world.spiffsFiles fd.fileObj).map .spiffsFile

/-! ## The calls -/

inductive Operation
  | read (ptr : Nat → UInt8) (len : Nat)
  | write (ptr : Nat → UInt8) (len : Nat)
  | lseek (off : Int) (whence : Whence)
  | size
  | flush
  | close

def Operation.closes : Operation → Bool
  | .close => true
  | _ => false

inductive Command
  | setSpiffsFileObj (inFilep : Option Nat)
  | openFile (name mode : List Char)
  | onHandle (fd : VfsFile) (operation : Operation)

inductive Output
  | nothing
  | opened (fd : Option VfsFile)
  | returned (value : Int)
  | filled (value : Int) (ptr : Nat → UInt8)

def Operation.run (world : World sd spiffs) (fd : VfsFile) :
    Operation → Option (Output × World sd spiffs)
  | .read ptr len => (vfsRead world fd ptr len).map fun ran => (.filled ran.1 ran.2.1, ran.2.2)
  | .write ptr len => (vfsWrite world fd ptr len).map fun ran => (.returned ran.1, ran.2)
  | .lseek off whence => (vfsLseek world fd off whence).map fun ran => (.returned ran.1, ran.2)
  | .size => (vfsSize world fd).map fun (size : Nat) => (.returned size, world)
  | .flush => (vfsFlush world fd).map fun ran => (.returned ran.1, ran.2)
  | .close => (vfsClose world fd).map fun ran => (.returned ran.1, ran.2)

structure Layer (sd : FileStore OpenFlags) (spiffs : FileStore (List Char)) where
  world : World sd spiffs
  handles : List VfsFile

def Layer.call (layer : Layer sd spiffs) : Command → Option (Output × Layer sd spiffs)
  | .setSpiffsFileObj inFilep =>
      some (.nothing, { layer with world := vfsSetSpiffsFileObj layer.world inFilep })
  | .openFile name mode =>
      (vfsOpen layer.world name mode).map fun opened =>
        (.opened opened.1, ⟨opened.2, opened.1.toList ++ layer.handles⟩)
  | .onHandle fd operation =>
      (operation.run layer.world fd).map fun ran =>
        (ran.1, ⟨ran.2, if operation.closes then layer.handles.erase fd else layer.handles⟩)

/-! ## Owned objects -/

/-- The libraries, the registered file object, and the objects that the open handles
own. A file object of SPIFFS without a handle may hold the file that was `left` in
it. -/
@[ext] structure Owned (sd : FileStore OpenFlags) (spiffs : FileStore (List Char)) where
  sdFats : Nat → Option sd.Volume
  sdState : sd.State
  spiffsVolume : spiffs.Volume
  spiffsState : spiffs.State
  filep : Option Nat
  left : Nat → Option spiffs.File
  file : VfsFile → Option (FileObject sd spiffs)

def Operation.onSdFile (state : sd.State) (file : sd.File) :
    Operation → Output × sd.File × sd.State
  | .read ptr len =>
      let read := sd.read state file ptr len
      (.filled (if read.1 < 0 then vfsResErr else read.1) read.2.1, read.2.2, state)
  | .write ptr len =>
      let written := sd.write state file ptr len
      (.returned (if written.1 < 0 then vfsResErr else written.1), written.2)
  | .lseek off whence =>
      let sought := seekFirst sd state off (seekCases whence) file
      (.returned sought.1, sought.2, state)
  | .size => (.returned (sd.fileSize state file), file, state)
  | .flush => (.returned vfsResOk, sd.flush state file)
  | .close => (.returned vfsResOk, file, sd.close state file)

def Operation.onSpiffsFile (state : spiffs.State) (file : spiffs.File) :
    Operation → Output × spiffs.File × spiffs.State
  | .read ptr len =>
      let read := spiffs.read state file ptr len
      (.filled (if read.1 = 0 then vfsResErr else read.1) read.2.1, read.2.2, state)
  | .write ptr len =>
      let written := spiffs.write state file ptr len
      (.returned (if written.1 = 0 then vfsResErr else written.1), written.2)
  | .lseek off whence =>
      let sought := spiffs.seek state file whence off
      (.returned (if sought.1 then off else vfsResErr), sought.2, state)
  | .size => (.returned (spiffs.fileSize state file), file, state)
  | .flush => (.returned vfsResOk, spiffs.flush state file)
  | .close => (.returned vfsResOk, file, state)

namespace Owned

/-- What the library opens, if a file, before a handle owns it. SPIFFS closes the file
that was left in the registered object. -/
def opening (owned : Owned sd spiffs) (name mode : List Char) :
    Option (Option (FileObject sd spiffs) × Owned sd spiffs) :=
  (isSd name).bind fun onSd =>
    if onSd then
      match sdIdx name with
      | none => some (none, owned)
      | some idx =>
          (owned.sdFats idx).bind fun volume =>
            (skip name 5).map fun path =>
              let opened := sd.openFile owned.sdState volume path (sdfatMode mode)
              (opened.1.map .sdFile, { owned with sdState := opened.2 })
    else
      owned.filep.bind fun filep =>
        (skip name 6).map fun path =>
          let opened := spiffs.openFile owned.spiffsState owned.spiffsVolume path mode
          (opened.1.map .spiffsFile, { owned with
            spiffsState := spiffs.release opened.2 (owned.left filep)
            left := Function.update owned.left filep none })

def operate (owned : Owned sd spiffs) (operation : Operation) :
    FileObject sd spiffs → Output × FileObject sd spiffs × sd.State × spiffs.State
  | .sdFile file =>
      let after := operation.onSdFile owned.sdState file
      (after.1, .sdFile after.2.1, after.2.2, owned.spiffsState)
  | .spiffsFile file =>
      let after := operation.onSpiffsFile owned.spiffsState file
      (after.1, .spiffsFile after.2.1, owned.sdState, after.2.2)

def leaving (owned : Owned sd spiffs) (fd : VfsFile) :
    FileObject sd spiffs → Nat → Option spiffs.File
  | .sdFile _ => owned.left
  | .spiffsFile file => Function.update owned.left fd.fileObj file

def after (owned : Owned sd spiffs) (fd : VfsFile) (operation : Operation)
    (object : FileObject sd spiffs) : Owned sd spiffs :=
  let operated := owned.operate operation object
  { owned with
    sdState := operated.2.2.1
    spiffsState := operated.2.2.2
    left := if operation.closes then owned.leaving fd operated.2.1 else owned.left
    file := Function.update owned.file fd
      (if operation.closes then none else some operated.2.1) }

/-- A handle is opened with the object that the library returns, and each operation
acts on the object of its handle. -/
inductive Step : Owned sd spiffs → Command × Output → Owned sd spiffs → Prop
  | setSpiffsFileObj (owned : Owned sd spiffs) (inFilep : Option Nat) :
      Step owned (.setSpiffsFileObj inFilep, .nothing) { owned with filep := inFilep }
  | opened {owned opening : Owned sd spiffs} {name mode : List Char}
      {object : FileObject sd spiffs} {fd : VfsFile}
      (opens : owned.opening name mode = some (some object, opening))
      (isNew : owned.file fd = none) :
      Step owned (.openFile name mode, .opened (some fd))
        { opening with file := Function.update opening.file fd object }
  | failed {owned opening : Owned sd spiffs} {name mode : List Char}
      (fails : owned.opening name mode = some (none, opening)) :
      Step owned (.openFile name mode, .opened none) opening
  | operated {owned : Owned sd spiffs} {fd : VfsFile} {object : FileObject sd spiffs}
      (owns : owned.file fd = some object) (operation : Operation) :
      Step owned (.onHandle fd operation, (owned.operate operation object).1)
        (owned.after fd operation object)

end Owned

def Layer.owned (layer : Layer sd spiffs) : Owned sd spiffs where
  sdFats := layer.world.sdFats
  sdState := layer.world.sdState
  spiffsVolume := layer.world.spiffsVolume
  spiffsState := layer.world.spiffsState
  filep := layer.world.filep
  left addr := if ⟨.spiffs, addr⟩ ∈ layer.handles then none else layer.world.spiffsFiles addr
  file fd := if fd ∈ layer.handles then layer.world.fileObject fd else none

end EspSqlite.Vfs
