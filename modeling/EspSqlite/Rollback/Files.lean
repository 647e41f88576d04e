import EspSqlite.Journal.Methods
import EspSqlite.Vfs.Database

/-! # The files of a pager

The methods a file is called through, with those of the journal in memory and of
the database file, and the numbers of four bytes that the pager keeps in them. -/

namespace EspSqlite.Rollback

open Vfs

/-! ## File methods -/

/-- `sqlite3_io_methods`, for files with states in `File`. -/
structure IoMethods (File : Type) where
  xRead : File → (buffer : Nat → UInt8) → (amount offset : Nat) →
    Option (Nat × (Nat → UInt8) × File)
  xWrite : File → (buffer : Nat → UInt8) → (amount offset : Nat) → Option (Nat × File)
  xTruncate : File → (bytes : Int) → Option (Nat × File)
  xSync : File → Option (Nat × File)
  xFileSize : File → Option (Nat × Nat)
  xDeviceCharacteristics : File → Nat

def sqliteIoerrFsync : Nat := sqliteIoerr ||| 4 <<< 8

def esp8266MemMethods (mallocs : Nat → Bool) : IoMethods Journal.MemFile where
  xRead file buffer amount offset :=
    (Journal.Esp8266MemMethods.xRead file buffer amount offset).map fun result =>
      (result.1, result.2, file)
  xWrite := Journal.Esp8266MemMethods.xWrite mallocs
  xTruncate file bytes := some (Journal.Esp8266MemMethods.xTruncate file bytes)
  xSync file := some (sqliteOk, file)
  xFileSize file := some (Journal.Esp8266MemMethods.xFileSize file)
  xDeviceCharacteristics _ := 0

section Database

variable {sd : FileStore OpenFlags} {spiffs : FileStore (List Char)}

/-- `esp8266_FileSize`: the value returned and `*size`. -/
def esp8266FileSize (world : World sd spiffs) (file : Esp8266File) : Option (Nat × Nat) :=
  file.fd.bind fun fd => (vfsSize world fd).map fun size => (sqliteOk, size)

def esp8266Sync (world : World sd spiffs) (file : Esp8266File) :
    Option (Nat × World sd spiffs) :=
  file.fd.bind fun fd =>
    (vfsFlush world fd).map fun result =>
      (if result.1 ≠ 0 then sqliteIoerrFsync else sqliteOk, result.2)

def esp8266IoMethods (file : Esp8266File) : IoMethods (World sd spiffs) where
  xRead world buffer amount offset := esp8266Read world file buffer amount offset
  xWrite world buffer amount offset := esp8266Write world file buffer amount offset
  xTruncate world _ := some (if (0 : Nat) ≠ 0 then sqliteIoerrTruncate else sqliteOk, world)
  xSync world := esp8266Sync world file
  xFileSize world := esp8266FileSize world file
  xDeviceCharacteristics _ := 0

end Database

/-! ## Numbers of four bytes -/

theorem memcpy_inside {target source : Nat → UInt8} {start count index : Nat}
    (inside : index < count) : memcpy target start source count (start + index) = source index := by
  rw [memcpy, if_pos (by omega), Nat.add_sub_cancel_left]

theorem memcpy_front {target source : Nat → UInt8} {count index : Nat} (inside : index < count) :
    memcpy target 0 source count index = source index := by
  rw [memcpy, if_pos (by omega), Nat.sub_zero]

theorem memcpy_outside {target source : Nat → UInt8} {start count index : Nat}
    (outside : index < start ∨ start + count ≤ index) :
    memcpy target start source count index = target index := by
  rw [memcpy, if_neg (by omega)]

def memsetZero (target : Nat → UInt8) (start count : Nat) : Nat → UInt8 :=
  memcpy target start (fun _ => 0) count

def fourBytes (value : Nat) : Nat → UInt8 := fun index => UInt8.ofNat (value >>> (24 - 8 * index))

def sqlite3Put4byte (target : Nat → UInt8) (start value : Nat) : Nat → UInt8 :=
  memcpy target start (fourBytes value) 4

def sqlite3Get4byte (p : Nat → UInt8) : Nat :=
  (p 0).toNat <<< 24 ||| (p 1).toNat <<< 16 ||| (p 2).toNat <<< 8 ||| (p 3).toNat

theorem sqlite3Get4byte_eq (p : Nat → UInt8) :
    sqlite3Get4byte p =
      (p 0).toNat * 2 ^ 24 + (p 1).toNat * 2 ^ 16 + (p 2).toNat * 2 ^ 8 + (p 3).toNat := by
  have small : ∀ index, (p index).toNat < 2 ^ 8 := fun index => (p index).toNat_lt
  have joins : ∀ {high low : Nat} (width : Nat), low < 2 ^ width →
      high <<< width ||| low = high * 2 ^ width + low := by
    intro high low width isLow
    rw [← Nat.shiftLeft_add_eq_or_of_lt isLow, Nat.shiftLeft_eq]
  have split : sqlite3Get4byte p =
      (((p 0).toNat <<< 8 ||| (p 1).toNat) <<< 8 ||| (p 2).toNat) <<< 8 ||| (p 3).toNat := by
    simp only [sqlite3Get4byte, Nat.shiftLeft_or_distrib, ← Nat.shiftLeft_add]
  rw [split, joins 8 (small 3), joins 8 (small 2), joins 8 (small 1)]
  omega

theorem sqlite3Get4byte_of_bytes {p : Nat → UInt8} {value : Nat} (small : value < 2 ^ 32)
    (same : ∀ index < 4, p index = fourBytes value index) : sqlite3Get4byte p = value := by
  have byte : ∀ index < 4, (p index).toNat = value / 2 ^ (24 - 8 * index) % 2 ^ 8 := by
    intro index inRange
    rw [same index inRange, fourBytes, Nat.shiftRight_eq_div_pow]
    exact UInt8.toNat_ofNat'
  rw [sqlite3Get4byte_eq, byte 0 (by decide), byte 1 (by decide), byte 2 (by decide),
    byte 3 (by decide)]
  omega

theorem sqlite3Get4byte_eq_zero {p : Nat → UInt8} (zero : sqlite3Get4byte p = 0) :
    ∀ index < 4, p index = 0 := by
  rw [sqlite3Get4byte_eq] at zero
  have bytes : (p 0).toNat = 0 ∧ (p 1).toNat = 0 ∧ (p 2).toNat = 0 ∧ (p 3).toNat = 0 := by omega
  intro index inRange
  apply UInt8.toNat_inj.mp
  match index, inRange with
  | 0, _ => exact bytes.1
  | 1, _ => exact bytes.2.1
  | 2, _ => exact bytes.2.2.1
  | 3, _ => exact bytes.2.2.2

theorem exists_fourBytes_ne_zero {value : Nat} (small : value < 2 ^ 32) (nonzero : value ≠ 0) :
    ∃ index < 4, fourBytes value index ≠ 0 := by
  by_contra zeros
  simp only [not_exists, not_and, ne_eq, not_not] at zeros
  apply nonzero
  rw [← sqlite3Get4byte_of_bytes small fun _ _ => rfl, sqlite3Get4byte_eq, zeros 0 (by decide),
    zeros 1 (by decide), zeros 2 (by decide), zeros 3 (by decide)]
  rfl

/-! ## Calls -/

def onOk {Value Result : Type} (called : Option (Nat × Value)) (error : Nat → Value → Result)
    (next : Value → Option Result) : Option Result :=
  called.bind fun result =>
    if result.1 ≠ sqliteOk then some (error result.1 result.2) else next result.2

@[simp]
theorem onOk_ok {Value Result : Type} (value : Value) (error : Nat → Value → Result)
    (next : Value → Option Result) : onOk (some (sqliteOk, value)) error next = next value := rfl

theorem onOk_eq_some {Value Result : Type} {called : Option (Nat × Value)}
    {error : Nat → Value → Result} {next : Value → Option Result} {result : Result} :
    onOk called error next = some result ↔
      (∃ value, called = some (sqliteOk, value) ∧ next value = some result) ∨
        ∃ rc value, called = some (rc, value) ∧ rc ≠ sqliteOk ∧ error rc value = result := by
  cases called with
  | none => simp [onOk]
  | some pair =>
      rcases pair with ⟨rc, value⟩
      by_cases isOk : rc = sqliteOk
      · simp [onOk, isOk]
      · simp [onOk, isOk]

section Access

variable {File : Type} (methods : IoMethods File)

/-- `read32bits`: the value returned, `*pRes` where that is `SQLITE_OK`, and the
file. `ac` is what the local array holds before. -/
def read32bits (ac : Nat → UInt8) (fd : File) (offset : Nat) : Option (Nat × Nat × File) :=
  (methods.xRead fd ac 4 offset).map fun result =>
    (result.1, sqlite3Get4byte result.2.1, result.2.2)

/-- `write32bits`. `ac` is the memory from the local array on. -/
def write32bits (ac : Nat → UInt8) (fd : File) (offset val : Nat) : Option (Nat × File) :=
  methods.xWrite fd (sqlite3Put4byte ac 0 val) 4 offset

end Access

end EspSqlite.Rollback
