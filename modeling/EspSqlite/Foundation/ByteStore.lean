import Mathlib.Algebra.Group.Int.Defs
import Mathlib.Algebra.Group.Nat.Defs
import Mathlib.Data.Nat.Basic
import Mathlib.Logic.Function.Basic

namespace EspSqlite

/-! # Bytes in memory and in files -/

def memcpy (target : Nat → UInt8) (start : Nat) (source : Nat → UInt8) (count : Nat) :
    Nat → UInt8 :=
  fun index =>
    if start ≤ index ∧ index < start + count then source (index - start) else target index

theorem memcpy_none (target : Nat → UInt8) (start : Nat) (source : Nat → UInt8) :
    memcpy target start source 0 = target := by
  funext index
  rw [memcpy, if_neg (by omega)]

/-- The bytes of a file. Only those before `size` have a meaning. -/
structure ByteFile where
  size : Nat
  byte : Nat → UInt8

namespace ByteFile

def empty : ByteFile := ⟨0, fun _ => 0⟩

def write (file : ByteFile) (position len : Nat) (source : Nat → UInt8) : ByteFile :=
  ⟨max file.size (position + len), memcpy file.byte position source len⟩

def read (file : ByteFile) (position len : Nat) (target : Nat → UInt8) : Nat → UInt8 :=
  memcpy target 0 (fun index => file.byte (position + index)) len

theorem read_inside {file : ByteFile} {position len index : Nat} {target : Nat → UInt8}
    (inside : index < len) :
    file.read position len target index = file.byte (position + index) := by
  simp [read, memcpy, inside]

theorem write_inside {file : ByteFile} {position len index : Nat} {source : Nat → UInt8}
    (inside : index < len) :
    (file.write position len source).byte (position + index) = source index := by
  simp [write, memcpy, inside]

theorem write_outside {file : ByteFile} {position len index : Nat} {source : Nat → UInt8}
    (outside : ¬(position ≤ index ∧ index < position + len)) :
    (file.write position len source).byte index = file.byte index := by
  simp only [write, memcpy, if_neg outside]

end ByteFile

/-! ## File stores -/

inductive Whence
  | set
  | cur
  | fromEnd
  deriving DecidableEq, Repr

structure Access where
  read : Bool
  write : Bool
  creat : Bool
  trunc : Bool
  deriving DecidableEq, Repr

/-- A library with files in volumes. A read returns a count, or a negative number,
and the memory at its destination. -/
structure FileStore (Mode : Type) where
  Volume : Type
  State : Type
  File : Type
  fileExists : State → Volume → List Char → Bool
  openFile : State → Volume → List Char → Mode → Option File × State
  seek : State → File → Whence → Int → Bool × File
  read : State → File → (target : Nat → UInt8) → (len : Nat) → Int × (Nat → UInt8) × File
  write : State → File → (source : Nat → UInt8) → (len : Nat) → Int × File × State
  removeFile : State → Volume → List Char → Bool × State
  fileSize : State → File → Nat
  flush : State → File → File × State
  close : State → File → State

/-- The state after a file object is assigned over: the file that it held is closed. -/
def FileStore.release {Mode : Type} (store : FileStore Mode) (state : store.State) :
    Option store.File → store.State
  | none => state
  | some held => store.close state held

structure Handle where
  file : ByteFile
  position : Nat
  readable : Bool
  writable : Bool

def Handle.target (handle : Handle) (whence : Whence) (off : Int) : Int :=
  match whence with
  | .set => off
  | .cur => handle.position + off
  | .fromEnd => handle.file.size + off

def Handle.base (handle : Handle) : Whence → Nat
  | .set => 0
  | .cur => handle.position
  | .fromEnd => handle.file.size

theorem Handle.target_eq (handle : Handle) (whence : Whence) (off : Int) :
    handle.target whence off = handle.base whence + off := by
  cases whence <;> simp [Handle.target, Handle.base]

def Handle.InRange (handle : Handle) (whence : Whence) (off : Int) : Prop :=
  0 ≤ handle.target whence off ∧ handle.target whence off ≤ handle.file.size

instance (handle : Handle) (whence : Whence) (off : Int) :
    Decidable (handle.InRange whence off) :=
  inferInstanceAs (Decidable (_ ∧ _))

def Handle.moved (handle : Handle) (whence : Whence) (off : Int) : Handle :=
  { handle with position := (handle.target whence off).toNat }

/-- The open files of the store have a position and a size. A seek succeeds
exactly when its target is in range; then it moves there, else it does not move. -/
structure FileStore.Seeks {Mode : Type} (store : FileStore Mode) where
  handle : store.State → store.File → Handle
  seek_inside : ∀ state file whence off, (handle state file).InRange whence off →
    ∃ file', store.seek state file whence off = (true, file') ∧
      handle state file' = (handle state file).moved whence off
  seek_outside : ∀ state file whence off, ¬(handle state file).InRange whence off →
    ∃ file', store.seek state file whence off = (false, file') ∧
      handle state file' = handle state file

/-- The files of the store are arrays of bytes, each open one with a position
between its start and its end. A write is stored at once, so that closing a file
changes nothing. -/
structure FileStore.ByteArrays {Mode : Type} (store : FileStore Mode) (access : Mode → Access) where
  handle : store.State → store.File → Handle
  contents : store.State → store.Volume → List Char → Option ByteFile
  fileExists_eq : ∀ state volume path,
    store.fileExists state volume path = (contents state volume path).isSome
  open_kept : ∀ state volume path mode file state' content,
    store.openFile state volume path mode = (some file, state') →
    contents state volume path = some content → (access mode).trunc = false →
    (handle state' file).file = content ∧ (handle state' file).readable = (access mode).read ∧
      (handle state' file).writable = (access mode).write
  open_fresh : ∀ state volume path mode file state',
    store.openFile state volume path mode = (some file, state') →
    contents state volume path = none →
    (handle state' file).file = ByteFile.empty ∧
      (handle state' file).readable = (access mode).read ∧
      (handle state' file).writable = (access mode).write
  seek_ok : ∀ state file whence off, 0 ≤ (handle state file).target whence off →
    (handle state file).target whence off ≤ (handle state file).file.size →
    ∃ file', store.seek state file whence off = (true, file') ∧
      handle state file' =
        { handle state file with position := ((handle state file).target whence off).toNat }
  seek_fails : ∀ state file whence off,
    ¬(0 ≤ (handle state file).target whence off ∧
      (handle state file).target whence off ≤ (handle state file).file.size) →
    ∃ file', store.seek state file whence off = (false, file') ∧
      handle state file' = handle state file
  read_ok : ∀ state file target len, (handle state file).readable = true →
    ∃ file', store.read state file target len =
        (↑(min len ((handle state file).file.size - (handle state file).position)),
          (handle state file).file.read (handle state file).position
            (min len ((handle state file).file.size - (handle state file).position)) target,
          file') ∧
      handle state file' = { handle state file with
        position := (handle state file).position +
          min len ((handle state file).file.size - (handle state file).position) }
  read_refused : ∀ state file target len, (handle state file).readable = false →
    (store.read state file target len).1 = -1
  write_ok : ∀ state file source len, (handle state file).writable = true →
    ∃ file' state', store.write state file source len = (↑len, file', state') ∧
      handle state' file' = { handle state file with
        file := (handle state file).file.write (handle state file).position len source
        position := (handle state file).position + len }
  close_handle : ∀ state file other, handle (store.close state file) other = handle state other

theorem FileStore.ByteArrays.release_handle {Mode : Type} {store : FileStore Mode}
    {access : Mode → Access} (arrays : store.ByteArrays access) (state : store.State)
    (held : Option store.File) (other : store.File) :
    arrays.handle (store.release state held) other = arrays.handle state other := by
  cases held with
  | none => rfl
  | some held => exact arrays.close_handle state held other

theorem FileStore.ByteArrays.open_handle {Mode : Type} {store : FileStore Mode}
    {access : Mode → Access} (arrays : store.ByteArrays access) {state state' : store.State}
    {volume : store.Volume} {path : List Char} {mode : Mode} {file : store.File}
    (opened : store.openFile state volume path mode = (some file, state'))
    (keeps : (arrays.contents state volume path).isSome = true → (access mode).trunc = false) :
    (arrays.handle state' file).file =
        (arrays.contents state volume path).getD ByteFile.empty ∧
      (arrays.handle state' file).readable = (access mode).read ∧
      (arrays.handle state' file).writable = (access mode).write := by
  cases content : arrays.contents state volume path with
  | none => exact arrays.open_fresh _ _ _ _ _ _ opened content
  | some content' =>
      rw [content] at keeps
      exact arrays.open_kept _ _ _ _ _ _ _ opened content (keeps rfl)

/-- The count that is returned for a transfer of `len` bytes, negative for an error,
and the bytes that were transferred. -/
structure Transfer (len : Nat) where
  count : Int
  moved : Nat
  moved_le : moved ≤ len
  count_ge : -2 ^ 31 ≤ count
  count_eq : 0 ≤ count → count = moved

/-- The open files of the store have a position. A seek leads exactly where it is
told or fails, and a read or write transfers bytes from the position on. -/
structure FileStore.Positions {Mode : Type} (store : FileStore Mode) where
  handle : store.State → store.File → Handle
  readTransfer : store.State → store.File → (len : Nat) → Transfer len
  writeTransfer : store.State → store.File → (len : Nat) → Transfer len
  seek_ok : ∀ state file whence off file', store.seek state file whence off = (true, file') →
    0 ≤ (handle state file).target whence off ∧
      handle state file' =
        { handle state file with position := ((handle state file).target whence off).toNat }
  seek_fails : ∀ state file whence off file', store.seek state file whence off = (false, file') →
    handle state file' = handle state file
  read_eq : ∀ state file target len,
    ∃ file', store.read state file target len =
        ((readTransfer state file len).count,
          (handle state file).file.read (handle state file).position
            (readTransfer state file len).moved target, file') ∧
      (0 ≤ (readTransfer state file len).count →
        (handle state file').position =
          (handle state file).position + (readTransfer state file len).moved)
  write_eq : ∀ state file source len,
    ∃ file' state', store.write state file source len =
        ((writeTransfer state file len).count, file', state') ∧
      (handle state' file').file.byte =
        memcpy (handle state file).file.byte (handle state file).position source
          (writeTransfer state file len).moved ∧
      (0 ≤ (writeTransfer state file len).count →
        (handle state' file').position =
          (handle state file).position + (writeTransfer state file len).moved)

/-- Where the first of the seeks that succeeds leads, with the file object there. -/
def FileStore.Positions.landing {Mode : Type} {store : FileStore Mode}
    (positions : store.Positions) (state : store.State) (off : Int) :
    List Whence → store.File → Option (Nat × store.File)
  | [], _ => none
  | whence :: rest, file =>
      match store.seek state file whence off with
      | (true, file') => some ((positions.handle state file').position, file')
      | (false, file') => positions.landing state off rest file'

/-- The open files of the store have a position, and a call on one of them leaves
those on other files alone, as does opening another file or failing to. -/
structure FileStore.Independent {Mode : Type} (store : FileStore Mode) where
  FileId : Type
  fileId : store.File → FileId
  handle : store.State → store.File → Handle
  seek_fileId : ∀ state file whence off, fileId (store.seek state file whence off).2 = fileId file
  read_fileId : ∀ state file target len,
    fileId (store.read state file target len).2.2 = fileId file
  write_fileId : ∀ state file source len,
    fileId (store.write state file source len).2.1 = fileId file
  flush_fileId : ∀ state file, fileId (store.flush state file).1 = fileId file
  write_other : ∀ state file source len other, fileId other ≠ fileId file →
    handle (store.write state file source len).2.2 other = handle state other
  flush_other : ∀ state file other, fileId other ≠ fileId file →
    handle (store.flush state file).2 other = handle state other
  close_other : ∀ state file other, fileId other ≠ fileId file →
    handle (store.close state file) other = handle state other
  open_other : ∀ state volume path mode file state' other,
    store.openFile state volume path mode = (some file, state') → fileId other ≠ fileId file →
    handle state' other = handle state other
  open_failed : ∀ state volume path mode state' other,
    store.openFile state volume path mode = (none, state') →
    handle state' other = handle state other

theorem FileStore.Independent.release_other {Mode : Type} {store : FileStore Mode}
    (independent : store.Independent) (state : store.State) {held : Option store.File}
    {other : store.File}
    (differs : ∀ file, held = some file → independent.fileId other ≠ independent.fileId file) :
    independent.handle (store.release state held) other = independent.handle state other := by
  cases held with
  | none => rfl
  | some file => exact independent.close_other state file other (differs file rfl)

/-- The modes mean what they allow. Each path leads to a file that is there or is
missing. Opening changes no other file, empties only in a mode that truncates
and makes a missing file only in one that creates, and fails in any other. Closing
neither makes nor removes a file. -/
structure FileStore.OpenModes {Mode : Type} (store : FileStore Mode) (access : Mode → Access) where
  FileId : Type
  fileId : store.Volume → List Char → FileId
  contents : store.State → FileId → Option ByteFile
  fileExists_eq : ∀ state volume path,
    store.fileExists state volume path = (contents state (fileId volume path)).isSome
  open_other : ∀ state volume path mode other, other ≠ fileId volume path →
    contents (store.openFile state volume path mode).2 other = contents state other
  open_kept : ∀ state volume path mode content, (access mode).trunc = false →
    contents state (fileId volume path) = some content →
    contents (store.openFile state volume path mode).2 (fileId volume path) = some content
  open_missing : ∀ state volume path mode, (access mode).creat = false →
    contents state (fileId volume path) = none →
    (store.openFile state volume path mode).1 = none ∧
      contents (store.openFile state volume path mode).2 (fileId volume path) = none
  close_isSome : ∀ state file id,
    (contents (store.close state file) id).isSome = (contents state id).isSome

/-! ## A store in memory -/

structure MemoryFile where
  path : List Char
  position : Nat
  access : Access

def memoryStore {Mode : Type} (access : Mode → Access) : FileStore Mode where
  Volume := Unit
  State := List Char → Option ByteFile
  File := MemoryFile
  fileExists state _ path := (state path).isSome
  openFile state _ path mode :=
    if ((state path).isSome && !(access mode).trunc) then
      (some ⟨path, 0, access mode⟩, state)
    else if ((access mode).creat || (state path).isSome) then
      (some ⟨path, 0, access mode⟩,
        fun other => if other = path then some ByteFile.empty else state other)
    else
      (none, state)
  seek state file whence off :=
    let content := (state file.path).getD ByteFile.empty
    let handle := Handle.mk content file.position file.access.read file.access.write
    let target := handle.target whence off
    if 0 ≤ target ∧ target ≤ content.size then
      (true, { file with position := target.toNat })
    else
      (false, file)
  read state file target len :=
    let content := (state file.path).getD ByteFile.empty
    let count := min len (content.size - file.position)
    if file.access.read then
      (count, content.read file.position count target,
        { file with position := file.position + count })
    else
      (-1, target, file)
  write state file source len :=
    let content := (state file.path).getD ByteFile.empty
    if file.access.write then
      (len, { file with position := file.position + len },
        fun other => if other = file.path then some (content.write file.position len source)
          else state other)
    else
      (-1, file, state)
  removeFile state _ path :=
    ((state path).isSome, fun other => if other = path then none else state other)
  fileSize state file := ((state file.path).getD ByteFile.empty).size
  flush state file := (file, state)
  close state _ := state

def memoryStoreArrays {Mode : Type} (access : Mode → Access) :
    (memoryStore access).ByteArrays access where
  handle state file := ⟨(state file.path).getD ByteFile.empty, file.position, file.access.read,
    file.access.write⟩
  contents state _ path := state path
  fileExists_eq _ _ _ := rfl
  open_kept state _ path mode file state' content opened held kept := by
    simp only [memoryStore, held, kept, Option.isSome_some, Bool.not_false, Bool.and_self,
      if_true] at opened
    cases opened
    exact ⟨by simp only [held, Option.getD_some], rfl, rfl⟩
  open_fresh state _ path mode file state' opened absent := by
    simp only [memoryStore, absent, Option.isSome_none, Bool.false_and, Bool.false_eq_true,
      if_false, Bool.or_false] at opened
    split at opened
    · cases opened
      exact ⟨by simp only [if_true, Option.getD_some], rfl, rfl⟩
    · cases opened
  seek_ok state file whence off notBefore notAfter :=
    ⟨_, if_pos ⟨notBefore, notAfter⟩, rfl⟩
  seek_fails state file whence off outside := ⟨_, if_neg outside, rfl⟩
  read_ok state file target len readable := ⟨_, if_pos readable, rfl⟩
  read_refused state file target len refused := by
    simp only at refused
    simp only [memoryStore, refused, Bool.false_eq_true, if_false]
  write_ok state file source len writable := by
    refine ⟨_, _, if_pos writable, ?_⟩
    simp only [if_true, Option.getD_some]
  close_handle _ _ _ := rfl

def FileStore.ByteArrays.seeks {Mode : Type} {store : FileStore Mode} {access : Mode → Access}
    (arrays : store.ByteArrays access) : store.Seeks where
  handle := arrays.handle
  seek_inside state file whence off inside :=
    arrays.seek_ok state file whence off inside.1 inside.2
  seek_outside state file whence off outside := arrays.seek_fails state file whence off outside

def Transfer.allowed (isAllowed : Bool) {len count : Nat} (inRange : count ≤ len) :
    Transfer len where
  count := if isAllowed then count else -1
  moved := if isAllowed then count else 0
  moved_le := by
    cases isAllowed with
    | true => exact inRange
    | false => exact Nat.zero_le len
  count_ge := by
    cases isAllowed with
    | true => simp only [if_true]; omega
    | false => simp only [Bool.false_eq_true, if_false]; omega
  count_eq notNegative := by
    cases isAllowed with
    | true => rfl
    | false => simp at notNegative

def memoryStorePositions {Mode : Type} (access : Mode → Access) :
    (memoryStore access).Positions where
  handle := (memoryStoreArrays access).handle
  readTransfer state file len := .allowed file.access.read
    (Nat.min_le_left len (((state file.path).getD ByteFile.empty).size - file.position))
  writeTransfer _ file len := .allowed file.access.write (Nat.le_refl len)
  seek_ok state file whence off file' sought := by
    simp only [memoryStore] at sought
    split at sought
    · rename_i inside
      cases sought
      exact ⟨inside.1, rfl⟩
    · cases sought
  seek_fails state file whence off file' failed := by
    simp only [memoryStore] at failed
    split at failed
    · cases failed
    · cases failed
      rfl
  read_eq state file target len := by
    cases readable : file.access.read with
    | true => exact ⟨_, if_pos readable, fun _ => rfl⟩
    | false =>
        refine ⟨file, ?_, fun _ => rfl⟩
        simp only [memoryStore, readable, Bool.false_eq_true, if_false, Transfer.allowed,
          ByteFile.read, memcpy_none]
  write_eq state file source len := by
    cases writable : file.access.write with
    | true =>
        refine ⟨_, _, if_pos writable, ?_, fun _ => rfl⟩
        simp only [memoryStoreArrays, if_true, Option.getD_some, Transfer.allowed, ByteFile.write]
    | false =>
        refine ⟨file, state, ?_, (memcpy_none _ _ _).symm, fun _ => rfl⟩
        simp only [memoryStore, writable, Bool.false_eq_true, if_false, Transfer.allowed]

section OpenFile

variable {Mode : Type} {access : Mode → Access} {state : List Char → Option ByteFile}
  {volume : Unit} {path : List Char} {mode : Mode}

theorem memoryStore_handle_congr {state' : List Char → Option ByteFile} {file : MemoryFile}
    (same : state' file.path = state file.path) :
    (memoryStoreArrays access).handle state' file =
      (memoryStoreArrays access).handle state file := by
  simp only [memoryStoreArrays, same]

theorem memoryStore_openFile_path {file : MemoryFile}
    (opened : ((memoryStore access).openFile state volume path mode).1 = some file) :
    file.path = path := by
  simp only [memoryStore] at opened
  split at opened
  · cases opened
    rfl
  · split at opened
    · cases opened
      rfl
    · cases opened

theorem memoryStore_openFile_other {other : List Char} (differs : other ≠ path) :
    ((memoryStore access).openFile state volume path mode).2 other = state other := by
  simp only [memoryStore]
  split
  · rfl
  · split
    · exact if_neg differs
    · rfl

theorem memoryStore_openFile_failed
    (failed : ((memoryStore access).openFile state volume path mode).1 = none) :
    ((memoryStore access).openFile state volume path mode).2 = state := by
  simp only [memoryStore] at failed ⊢
  split at failed
  · cases failed
  · split at failed
    · cases failed
    · rename_i keeps refuses
      rw [if_neg keeps, if_neg refuses]

end OpenFile

def memoryStoreIndependent {Mode : Type} (access : Mode → Access) :
    (memoryStore access).Independent where
  FileId := List Char
  fileId file := file.path
  handle := (memoryStoreArrays access).handle
  seek_fileId state file whence off := by
    simp only [memoryStore]
    split <;> rfl
  read_fileId state file target len := by
    simp only [memoryStore]
    split <;> rfl
  write_fileId state file source len := by
    simp only [memoryStore]
    split <;> rfl
  flush_fileId _ _ := rfl
  write_other state file source len other differs := by
    simp only [memoryStore, memoryStoreArrays]
    split
    · simp only [if_neg differs]
    · rfl
  flush_other _ _ _ _ := rfl
  close_other _ _ _ _ := rfl
  open_other state volume path mode file state' other opened differs := by
    have isFile := congrArg Prod.fst opened
    have isState : _ = state' := congrArg Prod.snd opened
    rw [memoryStore_openFile_path isFile] at differs
    rw [← isState]
    exact memoryStore_handle_congr (memoryStore_openFile_other differs)
  open_failed state volume path mode state' other failed := by
    have isNone := congrArg Prod.fst failed
    have isState : _ = state' := congrArg Prod.snd failed
    rw [← isState, memoryStore_openFile_failed isNone]

/-! ## A store that writes late -/

structure LateFile where
  file : MemoryFile
  pending : Option ByteFile

def LateFile.seen (late : LateFile) (state : List Char → Option ByteFile) :
    List Char → Option ByteFile :=
  match late.pending with
  | none => state
  | some content => Function.update state late.file.path content

theorem LateFile.seen_other {late : LateFile} {state : List Char → Option ByteFile}
    {path : List Char} (differs : path ≠ late.file.path) : late.seen state path = state path := by
  rw [seen]
  cases late.pending with
  | none => rfl
  | some content => exact Function.update_of_ne differs _ _

theorem LateFile.handle_congr {Mode : Type} (access : Mode → Access) {late : LateFile}
    {state state' : List Char → Option ByteFile}
    (same : state' late.file.path = state late.file.path) :
    (memoryStoreArrays access).handle (late.seen state') late.file =
      (memoryStoreArrays access).handle (late.seen state) late.file := by
  apply memoryStore_handle_congr
  rw [seen, seen]
  cases late.pending with
  | none => exact same
  | some content => simp only [Function.update_self]

/-- The store in memory where what is written to a file is stored when the file is
flushed or closed. -/
def lateStore {Mode : Type} (access : Mode → Access) : FileStore Mode where
  Volume := Unit
  State := List Char → Option ByteFile
  File := LateFile
  fileExists := (memoryStore access).fileExists
  openFile state volume path mode :=
    let opened := (memoryStore access).openFile state volume path mode
    (opened.1.map fun file => ⟨file, none⟩, opened.2)
  seek state late whence off :=
    let sought := (memoryStore access).seek (late.seen state) late.file whence off
    (sought.1, ⟨sought.2, late.pending⟩)
  read state late target len :=
    let read := (memoryStore access).read (late.seen state) late.file target len
    (read.1, read.2.1, ⟨read.2.2, late.pending⟩)
  write state late source len :=
    let written := (memoryStore access).write (late.seen state) late.file source len
    (written.1, ⟨written.2.1, written.2.2 late.file.path⟩, state)
  removeFile := (memoryStore access).removeFile
  fileSize state late := (memoryStore access).fileSize (late.seen state) late.file
  flush state late := (⟨late.file, none⟩, late.seen state)
  close state late := late.seen state

def lateStoreIndependent {Mode : Type} (access : Mode → Access) :
    (lateStore access).Independent where
  FileId := List Char
  fileId late := late.file.path
  handle state late := (memoryStoreArrays access).handle (late.seen state) late.file
  seek_fileId state late whence off :=
    (memoryStoreIndependent access).seek_fileId (late.seen state) late.file whence off
  read_fileId state late target len :=
    (memoryStoreIndependent access).read_fileId (late.seen state) late.file target len
  write_fileId state late source len :=
    (memoryStoreIndependent access).write_fileId (late.seen state) late.file source len
  flush_fileId _ _ := rfl
  write_other _ _ _ _ _ _ := rfl
  flush_other _ _ _ differs := LateFile.handle_congr access (LateFile.seen_other differs)
  close_other _ _ _ differs := LateFile.handle_congr access (LateFile.seen_other differs)
  open_other state volume path mode late state' other opened differs := by
    rcases Prod.mk.inj opened with ⟨isOpened, rfl⟩
    rcases Option.map_eq_some_iff.mp isOpened with ⟨file, isFile, rfl⟩
    apply LateFile.handle_congr access
    rw [memoryStore_openFile_path isFile] at differs
    exact memoryStore_openFile_other differs
  open_failed state volume path mode state' other failed := by
    rcases Prod.mk.inj failed with ⟨isFailed, rfl⟩
    rw [memoryStore_openFile_failed (Option.map_eq_none_iff.mp isFailed)]

def memoryStoreOpenModes {Mode : Type} (access : Mode → Access) :
    (memoryStore access).OpenModes access where
  FileId := List Char
  fileId _ path := path
  contents state id := state id
  fileExists_eq _ _ _ := rfl
  open_other _ _ _ _ _ differs := memoryStore_openFile_other differs
  open_kept state volume path mode content keeps held := by
    simp only [memoryStore, held, keeps, Option.isSome_some, Bool.not_false, Bool.and_self,
      if_true]
  open_missing state volume path mode refuses absent := by
    simp only [memoryStore, absent, refuses, Option.isSome_none, Bool.false_and, Bool.or_self,
      Bool.false_eq_true, if_false, and_self]
  close_isSome _ _ _ := rfl

end EspSqlite
