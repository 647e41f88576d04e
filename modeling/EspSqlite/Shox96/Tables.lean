import Mathlib.Data.Nat.Notation

/-! # Code tables

The constant tables of the codec, as the source lists them. Characters are
given by their ASCII codes. -/

namespace EspSqlite.Shox96

/-! ## Encoder tables -/

/-- Codes of the characters 32 to 126, left aligned in 16 bits. -/
def c_95 : List Nat :=
  [16384, 16256, 15744, 16192, 15328, 15344, 15360, 16064, 15264, 15296, 15712, 15200,
    14976, 15040, 14848, 15104, 14528, 14592, 14656, 14688, 14720, 14752, 14784, 14816,
    14832, 14464, 15552, 15488, 15616, 15168, 15680, 16000, 15872, 10752, 8576, 8192,
    8320, 9728, 8672, 8608, 8384, 11264, 9024, 8992, 12160, 8544, 11520, 11008, 8512,
    9008, 12032, 11776, 10240, 8448, 8960, 8640, 9040, 8688, 9048, 15840, 16288, 15856,
    16128, 16224, 16368, 40960, 6144, 0, 2048, 24576, 7680, 6656, 3072, 49152, 13312,
    12800, 63488, 5632, 53248, 45056, 5120, 13056, 61440, 57344, 32768, 4096, 12288,
    7168, 13568, 7936, 13696, 15776, 16320, 15808, 16352]

def l_95 : List Nat :=
  [3, 11, 11, 11, 12, 12, 9, 10, 11, 11, 11, 11, 10, 10, 9, 10, 10, 10, 11, 11, 11, 11,
    11, 12, 12, 10, 10, 10, 10, 11, 11, 10, 9, 8, 11, 9, 10, 7, 12, 11, 10, 8, 12, 12,
    9, 11, 8, 8, 11, 12, 9, 8, 7, 10, 11, 11, 13, 12, 13, 12, 11, 12, 10, 11, 12, 4, 7,
    5, 6, 3, 8, 7, 6, 4, 8, 8, 5, 7, 4, 4, 7, 8, 5, 4, 3, 6, 7, 7, 9, 8, 9, 11, 11, 11,
    12]

/-- The string `SET2_STR`: the digits, then the characters of the sets 3, 4 and
4A in decoder order, then the terminator. -/
def set2Str : List UInt8 :=
  [57, 48, 49, 50, 51, 52, 53, 54, 55, 56,
    46, 44, 45, 47, 61, 43, 32, 40, 41, 36, 37,
    38, 59, 58, 60, 62, 42, 34, 123, 125, 91, 93,
    64, 63, 39, 94, 35, 95, 33, 92, 124, 126, 96, 0]

def mask : List Nat :=
  [0x8000, 0xC000, 0xE000, 0xF000, 0xF800, 0xFC00, 0xFE00, 0xFF00]

def niceLenForPrior : Nat := 7

def niceLenForOther : Nat := 12

/-- The encoder's `SHX_STATE_1` and `SHX_STATE_2`. -/
inductive ShxState where
  | state1
  | state2
  deriving DecidableEq, Repr

/-! ## Decoder tables -/

/-- Vertical codes: index shifted by three, plus code length; zero where no
code ends. The table is indexed by the code bits read, first bit lowest. -/
def vcode : List Nat :=
  [2 + (0 <<< 3), 3 + (3 <<< 3), 3 + (1 <<< 3), 4 + (6 <<< 3), 0,
    4 + (4 <<< 3), 3 + (2 <<< 3), 4 + (8 <<< 3), 0, 0, 0,
    4 + (7 <<< 3), 0, 4 + (5 <<< 3), 0, 5 + (9 <<< 3),
    0, 0, 0, 0, 0, 0, 0, 0,
    0, 0, 0, 0, 0, 0, 0, 5 + (10 <<< 3)]

def hcode : List Nat :=
  [1 + (1 <<< 3), 2 + (0 <<< 3), 0, 3 + (2 <<< 3), 0, 0, 0, 5 + (3 <<< 3),
    0, 0, 0, 0, 0, 0, 0, 5 + (5 <<< 3),
    0, 0, 0, 0, 0, 0, 0, 5 + (4 <<< 3),
    0, 0, 0, 0, 0, 0, 0, 5 + (6 <<< 3)]

/-! The rows of `sets` that the decompressor names, as values of `dstate`. -/

def shxSet1 : Nat := 0

def shxSet1B : Nat := 2

def shxSet2 : Nat := 3

def sets : List (List UInt8) :=
  [[32, 32, 101, 116, 97, 111, 105, 110, 115, 114, 108],
    [99, 100, 104, 117, 112, 109, 98, 103, 119, 102, 121],
    [118, 107, 113, 106, 120, 122, 32, 32, 32, 32, 32],
    [32, 57, 48, 49, 50, 51, 52, 53, 54, 55, 56],
    [46, 44, 45, 47, 61, 43, 32, 40, 41, 36, 37],
    [38, 59, 58, 60, 62, 42, 34, 123, 125, 91, 93],
    [64, 63, 39, 94, 35, 95, 33, 92, 124, 126, 96]]

/-! ## Previous lines -/

/-- The characters of a NUL-terminated string before its terminator. -/
structure CString where
  chars : List UInt8
  noNul : 0 ∉ chars

def CString.strlen (line : CString) : Nat := line.chars.length

/-- A chain of `struct lnk_lst` nodes with non-NULL first data. Later nodes may
hold a NULL data pointer. -/
structure LnkLst where
  data : CString
  previous : List (Option CString)

def LnkLst.nodes : Option LnkLst → List (Option CString)
  | none => []
  | some chain => some chain.data :: chain.previous

end EspSqlite.Shox96
