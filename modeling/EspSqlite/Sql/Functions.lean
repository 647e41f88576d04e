import EspSqlite.Shox96.Cost
import EspSqlite.Shox96.RoundTrip
import EspSqlite.Sql.Varint

/-! # The SQL functions

`shox96_0_2c` and `shox96_0_2d`. A blob is a varint with the length of the text,
followed by the compressed text. -/

namespace EspSqlite.Sql

open BitMemory Shox96

/-! ## The source functions -/

/-- What `shox96_0_2c` made: the header, the room for the compressed text, and
the compressor's result on `&outBuf[vIntLen]`. -/
structure Compression where
  vInt : List UInt8
  nOut : Nat
  nOut2 : Nat
  writer : Writer

def Compression.blob (made : Compression) : List UInt8 :=
  made.vInt ++ (List.range made.nOut2).map made.writer.bytes

/-- `shox96_0_2c` on the bytes of its argument. `heap` is what `malloc` left in
the block after the header. -/
def shox96_0_2c (inBuf : List UInt8) (heap : Nat → UInt8) : Option Compression :=
  let nIn := inBuf.length
  (compress inBuf heap none shippedSwitches).map fun result =>
    { vInt := encodeUnsignedVarint (UInt64.ofNat nIn)
      nOut := 13 + nIn + (nIn + 999) / 1000
      nOut2 := result.1
      writer := result.2 }

structure SqlValue where
  isBlob : Bool
  bytes : List UInt8

def memoryOf (bytes : List UInt8) (after : Nat → UInt8) (index : Nat) : UInt8 :=
  if inside : index < bytes.length then bytes[index] else after (index - bytes.length)

/-- What `shox96_0_2d` made: the allocated length, the input and its length as
passed to the decompressor, and the decompressor's buffer. -/
structure Decompression where
  nOut : Nat
  inp : Nat → UInt8
  len : Nat
  out : OutBuffer

/-- `shox96_0_2d`. The inner `none` is a NULL result, the outer one an undefined
shift, a header longer than the blob or a fault of the decompressor. -/
def shox96_0_2d (arg : SqlValue) (after : Nat → UInt8) (heap : Int → UInt8) :
    Option (Option Decompression) :=
  let nIn := arg.bytes.length
  if arg.isBlob = false then
    some none
  else if nIn < 2 then
    some none
  else
    let inBuf := memoryOf arg.bytes after
    (decodeUnsignedVarint inBuf).bind fun header =>
      let vIntLen := header.2
      if nIn < vIntLen then
        none
      else
        let inp := fun index => inBuf (vIntLen + index)
        (decompress inp (nIn - vIntLen) heap none).map fun out =>
          some { nOut := header.1.toNat % 2 ^ 32, inp := inp, len := nIn - vIntLen, out := out }

/-! ## Both functions in a row -/

theorem memoryOf_append {left right : List UInt8} {after : Nat → UInt8} {index : Nat}
    (inside : index < right.length) :
    memoryOf (left ++ right) after (left.length + index) = right[index] := by
  have inBlob : left.length + index < (left ++ right).length := by
    rw [List.length_append]
    omega
  simp [memoryOf, inside]

theorem holds_memoryOf (left right : List UInt8) (after : Nat → UInt8) :
    Holds (memoryOf (left ++ right) after) 0 left := by
  intro index inside
  have inBlob : index < left.length + right.length := by omega
  simp [memoryOf, inBlob, List.getElem_append_left inside]

theorem exists_compression (text : List UInt8) (heap : Nat → UInt8) :
    ∃ c syms n writer, Compressed text shippedSwitches none heap c syms n writer ∧
      shox96_0_2c text heap = some
        { vInt := encodeUnsignedVarint (UInt64.ofNat text.length)
          nOut := 13 + text.length + (text.length + 999) / 1000
          nOut2 := n
          writer := writer } := by
  rcases exists_compressed text shippedSwitches none heap with ⟨c, syms, n, writer, compressed⟩
  refine ⟨c, syms, n, writer, compressed, ?_⟩
  simp only [shox96_0_2c, compressed.returned, Option.map_some]

private theorem shox96_0_2d_framed {header body : List UInt8} {after : Nat → UInt8}
    {heap : Int → UInt8} {value : UInt64} {out : OutBuffer}
    (decoded : decodeUnsignedVarint (memoryOf (header ++ body) after) =
      some (value, header.length))
    (long : 2 ≤ (header ++ body).length)
    (result : decompress (fun index => memoryOf (header ++ body) after (header.length + index))
      body.length heap none = some out) :
    shox96_0_2d ⟨true, header ++ body⟩ after heap = some (some
      { nOut := value.toNat % 2 ^ 32
        inp := fun index => memoryOf (header ++ body) after (header.length + index)
        len := body.length
        out := out }) := by
  have notShort : ¬(header ++ body).length < 2 := Nat.not_lt.mpr long
  have length : (header ++ body).length - header.length = body.length := by simp
  have fits : ¬(header ++ body).length < header.length := by simp
  rw [shox96_0_2d, if_neg (by simp), if_neg notShort]
  simp only [decoded, Option.bind_some, fits, if_false, length, result, Option.map_some]

/-- `shox96_0_2d` on a blob of at least two bytes hands exactly the compressed
bytes to the decompressor, whose symbols it applies. -/
theorem shox96_0_2d_blob {text : List UInt8} {heap : Nat → UInt8} {c : Control}
    {syms : List Sym} {n : Nat} {writer : Writer}
    (compressed : Compressed text shippedSwitches none heap c syms n writer)
    (short : text.length ≤ 70308) {made : Compression}
    (returned : shox96_0_2c text heap = some made) (after : Nat → UInt8)
    (outHeap : Int → UInt8) (long : 2 ≤ made.blob.length) :
    ∃ inp, (∀ index < n, inp index = writer.bytes index) ∧
      shox96_0_2d ⟨true, made.blob⟩ after outHeap = some (some
        { nOut := text.length
          inp := inp
          len := n
          out := symsApply [] (DecState.initial outHeap).out syms }) := by
  simp only [shox96_0_2c, compressed.returned, Option.map_some, Option.some.injEq] at returned
  subst returned
  have limits : Limits text (LnkLst.nodes none) :=
    ⟨short, by simp [LnkLst.nodes], by simp [LnkLst.nodes]⟩
  simp only [Compression.blob] at long ⊢
  generalize isHeader : encodeUnsignedVarint (UInt64.ofNat text.length) = header at long ⊢
  generalize isBody : (List.range n).map writer.bytes = body at long ⊢
  have bodyLength : body.length = n := by simp [← isBody]
  have same : ∀ index < n, memoryOf (header ++ body) after (header.length + index) =
      writer.bytes index := by
    intro index inside
    rw [memoryOf_append (by omega)]
    simp [← isBody]
  have decoded := decodeUnsignedVarint_encode
    (isHeader ▸ holds_memoryOf header body after)
  rw [isHeader] at decoded
  have result := compressed.decompress_eq limits same outHeap
  rw [← bodyLength] at result
  have value : (UInt64.ofNat text.length).toNat % 2 ^ 32 = text.length := by
    rw [UInt64.toNat_ofNat']
    omega
  refine ⟨_, same, ?_⟩
  rw [shox96_0_2d_framed decoded long result, bodyLength, value]
  rfl

end EspSqlite.Sql
