import EspSqlite.Journal.MemFile
import EspSqlite.Vfs.Database

/-! # The methods of a journal file

`esp8266MemMethods`, with the values its functions return. -/

namespace EspSqlite.Journal

open Vfs (sqliteOk sqliteIoerrTruncate)

/-- `esp8266_Truncate`, which leaves the file alone. -/
def esp8266Truncate (file : MemFile) (_bytes : Int) : Nat × MemFile :=
  (if (0 : Nat) ≠ 0 then sqliteIoerrTruncate else sqliteOk, file)

namespace Esp8266MemMethods

/-- `esp8266mem_Read`: the value returned and the destination. -/
def xRead (file : MemFile) (buffer : Nat → UInt8) (amount offset : Nat) :
    Option (Nat × (Nat → UInt8)) :=
  (esp8266memRead file buffer amount offset).map fun result => (sqliteOk, result)

def xWrite (mallocs : Nat → Bool) (file : MemFile) (buffer : Nat → UInt8) (amount offset : Nat) :
    Option (Nat × MemFile) :=
  (esp8266memWrite mallocs file buffer amount offset).map fun file => (sqliteOk, file)

def xTruncate (file : MemFile) (bytes : Int) : Nat × MemFile := esp8266Truncate file bytes

/-- `esp8266mem_FileSize`: the value returned and `*size`. -/
def xFileSize (file : MemFile) : Nat × Nat := (sqliteOk, esp8266memFileSize file)

end Esp8266MemMethods

end EspSqlite.Journal
