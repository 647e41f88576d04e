import EspSqlite.Vfs.Backends
import EspSqlite.Journal.Cache

/-! # Opening, reading and writing a database file

`esp8266_Open`, `esp8266_Read`, `esp8266_Write` and `esp8266_FullPathname`. -/

namespace EspSqlite.Vfs

def sqliteOk : Nat := 0

def sqliteNomem : Nat := 7

def sqliteIoerr : Nat := 10

def sqliteCantopen : Nat := 14

def sqliteIoerrRead : Nat := sqliteIoerr ||| 1 <<< 8

def sqliteIoerrShortRead : Nat := sqliteIoerr ||| 2 <<< 8

def sqliteIoerrWrite : Nat := sqliteIoerr ||| 3 <<< 8

def sqliteIoerrTruncate : Nat := sqliteIoerr ||| 6 <<< 8

def sqliteIoerrSeek : Nat := sqliteIoerr ||| 22 <<< 8

def sqliteOpenReadwrite : Nat := 0x2

def sqliteOpenCreate : Nat := 0x4

def sqliteOpenMainDb : Nat := 0x100

def sqliteOpenMainJournal : Nat := 0x800

def esp8266DefaultMaxnamesize : Nat := 32

def modeReadonly : List Char := ['r']

def modeReadplus : List Char := ['r', '+']

def modeWriteplus : List Char := ['w', '+']

inductive Methods
  | io
  | mem
  deriving DecidableEq, Repr

structure Esp8266File where
  pMethods : Option Methods
  fd : Option VfsFile
  cache : Option Journal.FileCache
  name : List Char

variable {sd : FileStore OpenFlags} {spiffs : FileStore (List Char)}

/-- `esp8266_Access`: `*result`, where the value returned is `SQLITE_OK`. -/
def esp8266Access (world : World sd spiffs) (path : List Char) : Option Bool :=
  (vfsStat world path).map fun stat => stat.1 != vfsResErr

def openMode (world : World sd spiffs) (path : List Char) (flags : Nat) : Option (List Char) :=
  if flags &&& sqliteOpenReadwrite ≠ 0 ∨ flags &&& sqliteOpenMainJournal ≠ 0 then
    (esp8266Access world path).map fun result => if result then modeReadplus else modeWriteplus
  else
    some modeReadonly

/-- `esp8266_Open`: the value returned and the file structure. `allocates` is the
outcome of `sqlite3_malloc`. -/
def esp8266Open (world : World sd spiffs) (allocates : Bool) (path : Option (List Char))
    (file : Esp8266File) (flags : Nat) : Option (Nat × Esp8266File × World sd spiffs) :=
  match path with
  | none => some (sqliteIoerr, file, world)
  | some path =>
      (openMode world path flags).bind fun mode =>
        let p : Esp8266File := ⟨none, none, none, path.take (esp8266DefaultMaxnamesize - 1)⟩
        if flags &&& sqliteOpenMainJournal ≠ 0 then
          if allocates then
            some (sqliteOk, { p with cache := some ⟨0, none⟩, pMethods := some .mem }, world)
          else
            some (sqliteNomem, p, world)
        else
          (vfsOpen world path mode).map fun opened =>
            match opened with
            | (none, world) => (sqliteCantopen, p, world)
            | (some fd, world) =>
                (sqliteOk, { p with fd := some fd, pMethods := some .io }, world)

def toSizeT (value : Int) : Nat := (value % 2 ^ 32).toNat

/-- `esp8266_Read`: the value returned and the destination. -/
def esp8266Read (world : World sd spiffs) (file : Esp8266File) (buffer : Nat → UInt8)
    (amount offset : Nat) : Option (Nat × (Nat → UInt8) × World sd spiffs) :=
  let iofst : Int := (offset &&& 0x7FFFFFFF : Nat)
  file.fd.bind fun fd =>
    (vfsLseek world fd iofst .set).bind fun sought =>
      if sought.1 ≠ iofst then
        some (sqliteIoerrShortRead, buffer, sought.2)
      else
        (vfsRead sought.2 fd buffer amount).map fun result =>
          let nRead := toSizeT result.1
          (if nRead = amount then sqliteOk
            else if nRead ≥ 0 then sqliteIoerrShortRead
            else sqliteIoerrRead, result.2)

def esp8266Write (world : World sd spiffs) (file : Esp8266File) (buffer : Nat → UInt8)
    (amount offset : Nat) : Option (Nat × World sd spiffs) :=
  let iofst : Int := (offset &&& 0x7FFFFFFF : Nat)
  file.fd.bind fun fd =>
    (vfsLseek world fd iofst .set).bind fun sought =>
      if sought.1 ≠ iofst then
        some (sqliteIoerrSeek, sought.2)
      else
        (vfsWrite sought.2 fd buffer amount).map fun result =>
          (if toSizeT result.1 ≠ amount then sqliteIoerrWrite else sqliteOk, result.2)

def nul : Char := Char.ofNat 0

/-- `strncpy(target, source, count)`, which fills up with zeros and may leave no
terminator. -/
def strncpy (target : Nat → Char) (source : List Char) (count : Nat) : Nat → Char :=
  fun index => if index < count then source.getD index nul else target index

/-- `esp8266_FullPathname`: the value returned and the buffer, whose last byte is
cleared. No buffer has a last byte without one. -/
def esp8266FullPathname (world : World sd spiffs) (path : List Char) (len : Nat)
    (fullpath : Nat → Char) : Option (Nat × (Nat → Char)) :=
  (vfsStat world path).bind fun stat =>
    let fullpath := strncpy fullpath (if stat.1 = vfsResOk then stat.2 else path) len
    if len = 0 then
      none
    else
      some (sqliteOk, fun index => if index = len - 1 then nul else fullpath index)

end EspSqlite.Vfs
