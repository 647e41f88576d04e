import EspSqlite.Foundation.BitMemory
import EspSqlite.Shox96.Tables

/-! # Writing codes

`append_bits` and `encodeCount` on an output buffer that is never cleared. -/

namespace EspSqlite.Shox96

open BitMemory

/-! ## The source functions -/

/-- The output buffer `out` with the bit position `ol`, and every index stored
to so far. -/
structure Writer where
  bytes : Nat → UInt8
  stores : List Nat
  ol : Nat

def Writer.store (writer : Writer) (index : Nat) (value : UInt8) : Writer :=
  { writer with
    bytes := fun other => if other = index then value else writer.bytes other
    stores := index :: writer.stores }

/-- The `while` loop of `append_bits`. Each pass shortens `clen`, so `clen`
passes are enough. -/
def appendLoop : (fuel : Nat) → Writer → (code clen : Nat) → Writer
  | 0, writer, _, _ => writer
  | fuel + 1, writer, code, clen =>
      if 0 < clen then
        let curBit := writer.ol % 8
        let wanted := if clen > 8 then 8 else clen
        let aByte := UInt8.ofNat (((code &&& mask.getD (wanted - 1) 0) >>> 8) >>> curBit)
        let blen := if wanted + curBit > 8 then 8 - curBit else wanted
        let stored :=
          if curBit = 0 then
            writer.store (writer.ol / 8) aByte
          else
            writer.store (writer.ol / 8) (writer.bytes (writer.ol / 8) ||| aByte)
        appendLoop fuel { stored with ol := writer.ol + blen } (code <<< blen) (clen - blen)
      else
        writer

/-- `append_bits`: in the digit state the prefix `0011100` is left out. -/
def appendBits (writer : Writer) (code clen : Nat) (state : ShxState) : Writer :=
  if state = .state2 ∧ code >>> 9 = 0x1C then
    appendLoop (clen - 7) writer (code <<< 7) (clen - 7)
  else
    appendLoop clen writer code clen

/-- The tables `codes`, `bit_len` and `adder` of `encodeCount`. -/
def countCodes : List Nat := [0x01, 0x82, 0xC3, 0xE5, 0xED, 0xF5, 0xFD]
def countBitLen : List Nat := [2, 5, 7, 9, 12, 16, 17]
def countAdder : List Nat := [0, 4, 36, 164, 676, 4772, 0]

/-- The `for` loop of `encodeCount` with `fuel` rounds left. A count beyond the
last range is not written at all. -/
def encodeCountLoop (writer : Writer) (count : Nat) : (fuel index till : Nat) → Writer
  | 0, _, _ => writer
  | fuel + 1, index, till =>
      let bitLen := countBitLen.getD index 0
      let till := till + (1 <<< bitLen)
      if count < till then
        let code := countCodes.getD index 0
        let writer := appendBits writer ((code &&& 0xF8) <<< 8) (code &&& 0x07) .state1
        appendBits writer ((count - countAdder.getD index 0) <<< (16 - bitLen)) bitLen .state1
      else
        encodeCountLoop writer count fuel (index + 1) till

def encodeCount (writer : Writer) (count : Nat) : Writer :=
  encodeCountLoop writer count 6 0 0

/-! ## Codewords -/

def codeword (code clen : Nat) : List Bool :=
  (digits 16 code).take clen

theorem codeword_length {code clen : Nat} (short : clen ≤ 16) :
    (codeword code clen).length = clen := by
  simp [codeword, short]

theorem codeword_getElem {code clen index : Nat}
    (inside : index < (codeword code clen).length) :
    (codeword code clen)[index] = code.testBit (15 - index) := by
  simp only [codeword, List.getElem_take, digits_getElem]

/-- A codeword splits where the loop shifts the code. -/
theorem codeword_split (code : Nat) {clen blen : Nat} (short : clen ≤ 16) (part : blen ≤ clen) :
    codeword code clen =
      codeword code blen ++ codeword (code <<< blen) (clen - blen) := by
  apply List.ext_getElem
  · rw [List.length_append, codeword_length short, codeword_length (by omega),
      codeword_length (by omega)]
    omega
  · intro index inLeft inRight
    rw [codeword_length short] at inLeft
    have partLength : (codeword code blen).length = blen := codeword_length (by omega)
    rw [List.getElem_append]
    split
    · rw [codeword_getElem, codeword_getElem]
    · rename_i later
      rw [partLength] at later
      rw [codeword_getElem, codeword_getElem, Nat.testBit_shiftLeft, partLength]
      have shifted : blen ≤ 15 - (index - blen) := by omega
      simp only [ge_iff_le, shifted, decide_true, Bool.true_and]
      congr 1
      omega

theorem codeword_shiftLeft {value count : Nat} (short : count ≤ 16) :
    codeword (value <<< (16 - count)) count = digits count value := by
  apply List.ext_getElem
  · rw [codeword_length short, digits_length]
  · intro index inLeft inRight
    rw [digits_length] at inRight
    rw [codeword_getElem, digits_getElem, Nat.testBit_shiftLeft]
    have inside : 16 - count ≤ 15 - index := by omega
    simp only [ge_iff_le, inside, decide_true, Bool.true_and]
    congr 1
    omega

/-! ## One pass of `append_bits` -/

/-- `bytes` carries `old`, and the bits left over in the last byte of `old` are
among the bits about to be written. A clean byte accepts every string; a byte
in which the writer was reset accepts the string written before. -/
structure Accepts (bytes : Nat → UInt8) (old bits : List Bool) : Prop where
  carries : Carries bytes 0 old
  stale : ∀ pos, old.length ≤ pos → 8 * (pos / 8) < old.length → bitAt bytes pos = true →
    bits[pos - old.length]? = some true

theorem Accepts.of_packed {bytes : Nat → UInt8} {old : List Bool}
    (packed : Packed bytes old) (bits : List Bool) : Accepts bytes old bits where
  carries := packed.carries
  stale pos beyond sameByte isSet := by
    rw [packed.clear pos beyond sameByte] at isSet
    cases isSet

private theorem mask_testBit : ∀ length < 8, ∀ position < 16,
    (mask.getD length 0).testBit position = decide (15 - length ≤ position) := by
  decide

private theorem mask_lt : ∀ length < 8, mask.getD length 0 < 2 ^ 16 := by
  decide

private theorem aByte_testBit (code : Nat) {wanted curBit offset : Nat} (positive : 0 < wanted)
    (small : wanted ≤ 8) (curSmall : curBit < 8) (inByte : offset < 8) :
    (UInt8.ofNat (((code &&& mask.getD (wanted - 1) 0) >>> 8) >>> curBit)).toNat.testBit
        (7 - offset) =
      (decide (curBit ≤ offset ∧ offset - curBit < wanted) &&
        code.testBit (15 - (offset - curBit))) := by
  rw [UInt8.toNat_ofNat', Nat.testBit_mod_two_pow, Nat.testBit_shiftRight,
    Nat.testBit_shiftRight, Nat.testBit_and]
  have inside : 7 - offset < 8 := by omega
  simp only [inside, decide_true, Bool.true_and]
  by_cases beyond : curBit ≤ offset
  · rw [mask_testBit (wanted - 1) (by omega) _ (by omega)]
    have isBit : 8 + (curBit + (7 - offset)) = 15 - (offset - curBit) := by omega
    rw [isBit]
    by_cases covered : offset - curBit < wanted
    · have maskSet : 15 - (wanted - 1) ≤ 15 - (offset - curBit) := by omega
      simp [beyond, covered, maskSet]
    · have maskClear : ¬15 - (wanted - 1) ≤ 15 - (offset - curBit) := by omega
      simp [covered, maskClear]
  · have maskClear :
        (mask.getD (wanted - 1) 0).testBit (8 + (curBit + (7 - offset))) = false := by
      apply Nat.testBit_lt_two_pow
      calc
        mask.getD (wanted - 1) 0 < 2 ^ 16 := mask_lt _ (by omega)
        _ ≤ 2 ^ (8 + (curBit + (7 - offset))) := Nat.pow_le_pow_right (by omega) (by omega)
    rw [maskClear]
    simp [beyond]

private def passLength (ol clen : Nat) : Nat :=
  if (if clen > 8 then 8 else clen) + ol % 8 > 8 then 8 - ol % 8
  else if clen > 8 then 8 else clen

private def passByte (writer : Writer) (code clen : Nat) : UInt8 :=
  let aByte := UInt8.ofNat
    (((code &&& mask.getD ((if clen > 8 then 8 else clen) - 1) 0) >>> 8) >>> (writer.ol % 8))
  if writer.ol % 8 = 0 then aByte else writer.bytes (writer.ol / 8) ||| aByte

private def pass (writer : Writer) (code clen : Nat) : Writer :=
  { writer.store (writer.ol / 8) (passByte writer code clen) with
    ol := writer.ol + passLength writer.ol clen }

private theorem appendLoop_succ (fuel : Nat) (writer : Writer) (code clen : Nat)
    (positive : 0 < clen) :
    appendLoop (fuel + 1) writer code clen =
      appendLoop fuel (pass writer code clen) (code <<< passLength writer.ol clen)
        (clen - passLength writer.ol clen) := by
  rw [appendLoop, if_pos positive]
  by_cases aligned : writer.ol % 8 = 0 <;>
    simp only [pass, passByte, passLength, aligned, if_true, if_false]

private theorem passLength_bounds (ol : Nat) {clen : Nat} (positive : 0 < clen) :
    0 < passLength ol clen ∧ passLength ol clen ≤ clen ∧
      passLength ol clen + ol % 8 ≤ 8 ∧
      (passLength ol clen + ol % 8 < 8 → passLength ol clen = clen ∧ clen < 8) := by
  rw [passLength]
  split <;> split <;> omega

private theorem pass_bitAt_other {writer : Writer} {code clen pos : Nat}
    (other : pos / 8 ≠ writer.ol / 8) :
    bitAt (pass writer code clen).bytes pos = bitAt writer.bytes pos := by
  simp [bitAt, pass, Writer.store, other]

private theorem pass_bitAt {writer : Writer} {code clen pos : Nat} (positive : 0 < clen)
    (same : pos / 8 = writer.ol / 8) :
    bitAt (pass writer code clen).bytes pos =
      ((decide (writer.ol % 8 ≠ 0) && bitAt writer.bytes pos) ||
        (decide (writer.ol ≤ pos ∧ pos - writer.ol < if clen > 8 then 8 else clen) &&
          code.testBit (15 - (pos - writer.ol)))) := by
  have wantedPositive : 0 < if clen > 8 then 8 else clen := by split <;> omega
  have wantedSmall : (if clen > 8 then 8 else clen) ≤ 8 := by split <;> omega
  have byteBit := aByte_testBit code wantedPositive wantedSmall
    (Nat.mod_lt writer.ol (by omega)) (Nat.mod_lt pos (by omega : 0 < 8))
  have offsetEq : writer.ol % 8 ≤ pos % 8 ↔ writer.ol ≤ pos := by omega
  have bitTest : (decide (writer.ol % 8 ≤ pos % 8 ∧
      pos % 8 - writer.ol % 8 < if clen > 8 then 8 else clen) &&
        code.testBit (15 - (pos % 8 - writer.ol % 8))) =
      (decide (writer.ol ≤ pos ∧ pos - writer.ol < if clen > 8 then 8 else clen) &&
        code.testBit (15 - (pos - writer.ol))) := by
    by_cases after : writer.ol ≤ pos
    · have equal : pos % 8 - writer.ol % 8 = pos - writer.ol := by omega
      rw [equal]
      simp [after, offsetEq]
    · simp [after, offsetEq]
  rw [bitTest] at byteBit
  simp only [bitAt, pass, Writer.store, passByte, same, if_true]
  by_cases aligned : writer.ol % 8 = 0
  · rw [if_pos aligned, byteBit]
    simp [aligned]
  · rw [if_neg aligned, UInt8.toNat_or, Nat.testBit_or, byteBit]
    simp [aligned]

private theorem Accepts.pass {writer : Writer} {old : List Bool} {code clen : Nat}
    (accepts : Accepts writer.bytes old (codeword code clen))
    (oldLength : writer.ol = old.length) (positive : 0 < clen) (short : clen ≤ 16) :
    Accepts (pass writer code clen).bytes
      (old ++ codeword code (passLength writer.ol clen))
      (codeword (code <<< passLength writer.ol clen)
        (clen - passLength writer.ol clen)) := by
  rcases passLength_bounds writer.ol positive with
    ⟨blenPositive, blenLe, blenFits, blenPartial⟩
  have split := codeword_split code short blenLe
  have chunkLength : (codeword code (passLength writer.ol clen)).length =
      passLength writer.ol clen := codeword_length (by omega)
  have staleBit : ∀ pos, writer.ol ≤ pos → pos / 8 = writer.ol / 8 →
      (decide (writer.ol % 8 ≠ 0) && bitAt writer.bytes pos) = true →
      (codeword code clen)[pos - writer.ol]? = some true := by
    intro pos after same isSet
    rw [Bool.and_eq_true, decide_eq_true_iff] at isSet
    have found := accepts.stale pos (by omega) (by omega) isSet.2
    rwa [← oldLength] at found
  constructor
  · rw [carries_append, Nat.zero_add]
    constructor
    · apply accepts.carries.congr
      intro pos _ inside
      by_cases same : pos / 8 = writer.ol / 8
      · rw [pass_bitAt positive same]
        have before : ¬writer.ol ≤ pos := by omega
        have unaligned : writer.ol % 8 ≠ 0 := by omega
        simp [before, unaligned]
      · exact pass_bitAt_other same
    · intro index inside
      rw [chunkLength] at inside
      rw [codeword_getElem, ← oldLength, pass_bitAt positive (by omega)]
      have covered : index < if clen > 8 then 8 else clen := by
        split <;> omega
      rw [Nat.add_sub_cancel_left]
      simp only [Nat.le_add_right, covered, and_self, decide_true, Bool.true_and]
      cases codeBit : code.testBit (15 - index) with
      | true => simp
      | false =>
          rw [Bool.or_false, Bool.eq_false_iff]
          intro isSet
          have found := staleBit (writer.ol + index) (by omega) (by omega) isSet
          rw [Nat.add_sub_cancel_left, List.getElem?_eq_some_iff] at found
          rcases found with ⟨_, found⟩
          rw [codeword_getElem, codeBit] at found
          cases found
  · intro pos beyond sameByte isSet
    rw [List.length_append, chunkLength] at beyond sameByte ⊢
    have same : pos / 8 = writer.ol / 8 := by omega
    rw [pass_bitAt positive same] at isSet
    have uncovered : ¬(pos - writer.ol < if clen > 8 then 8 else clen) := by
      split <;> omega
    simp only [uncovered, and_false, decide_false, Bool.false_and, Bool.or_false] at isSet
    have found := staleBit pos (by omega) same isSet
    rw [split, List.getElem?_append_right (by omega), chunkLength] at found
    rw [← found]
    congr 1
    omega

/-! ## The loop -/

private theorem appendLoop_ol : ∀ {fuel : Nat} {writer : Writer} {code clen : Nat},
    clen ≤ fuel → (appendLoop fuel writer code clen).ol = writer.ol + clen
  | 0, _, _, 0, _ => rfl
  | fuel + 1, writer, code, 0, _ => by simp [appendLoop]
  | fuel + 1, writer, code, clen + 1, enough => by
      have positive : 0 < clen + 1 := Nat.succ_pos clen
      rcases passLength_bounds writer.ol positive with ⟨blenPositive, blenLe, _, _⟩
      rw [appendLoop_succ fuel writer code (clen + 1) positive, appendLoop_ol (by omega)]
      simp only [pass]
      omega

private theorem appendLoop_packed : ∀ {fuel : Nat} {writer : Writer} {old : List Bool}
    {code clen : Nat}, Accepts writer.bytes old (codeword code clen) →
    writer.ol = old.length → clen ≤ 16 → clen ≤ fuel →
    Packed (appendLoop fuel writer code clen).bytes (old ++ codeword code clen)
  | fuel, writer, old, code, 0, accepts, _, _, _ => by
      have done : appendLoop fuel writer code 0 = writer := by
        cases fuel <;> simp [appendLoop]
      rw [done]
      refine ⟨by simpa [codeword] using accepts.carries, ?_⟩
      intro pos beyond sameByte
      simp only [codeword, List.take_zero, List.append_nil] at beyond sameByte
      rw [Bool.eq_false_iff]
      intro isSet
      have found := accepts.stale pos beyond sameByte isSet
      simp [codeword] at found
  | fuel + 1, writer, old, code, clen + 1, accepts, oldLength, short, enough => by
      have positive : 0 < clen + 1 := Nat.succ_pos clen
      rcases passLength_bounds writer.ol positive with ⟨blenPositive, blenLe, _, _⟩
      rw [appendLoop_succ fuel writer code (clen + 1) positive]
      have chunkLength : (codeword code (passLength writer.ol (clen + 1))).length =
          passLength writer.ol (clen + 1) := codeword_length (by omega)
      rw [codeword_split code short blenLe, ← List.append_assoc]
      apply appendLoop_packed (accepts.pass oldLength positive short)
      · rw [List.length_append, chunkLength, ← oldLength]
        rfl
      · omega
      · omega

/-- The loop stores to exactly the bytes that hold one of its bits. -/
private theorem appendLoop_stores : ∀ {fuel : Nat} {writer : Writer} {code clen : Nat},
    clen ≤ fuel → ∀ index, index ∈ (appendLoop fuel writer code clen).stores ↔
      index ∈ writer.stores ∨ ∃ pos, writer.ol ≤ pos ∧ pos < writer.ol + clen ∧ pos / 8 = index
  | fuel, writer, code, 0, _, index => by
      have done : appendLoop fuel writer code 0 = writer := by
        cases fuel <;> simp [appendLoop]
      rw [done]
      constructor
      · exact Or.inl
      · intro either
        rcases either with stored | ⟨pos, after, before, _⟩
        · exact stored
        · omega
  | fuel + 1, writer, code, clen + 1, enough, index => by
      have positive : 0 < clen + 1 := Nat.succ_pos clen
      rcases passLength_bounds writer.ol positive with
        ⟨blenPositive, blenLe, blenFits, _⟩
      rw [appendLoop_succ fuel writer code (clen + 1) positive,
        appendLoop_stores (by omega)]
      simp only [pass, Writer.store, List.mem_cons]
      constructor
      · intro either
        rcases either with (equal | stored) | ⟨pos, after, before, inByte⟩
        · exact Or.inr ⟨writer.ol, by omega, by omega, equal.symm⟩
        · exact Or.inl stored
        · exact Or.inr ⟨pos, by omega, by omega, inByte⟩
      · intro either
        rcases either with stored | ⟨pos, after, before, inByte⟩
        · exact Or.inl (Or.inr stored)
        · by_cases first : pos < writer.ol + passLength writer.ol (clen + 1)
          · exact Or.inl (Or.inl (by omega))
          · exact Or.inr ⟨pos, by omega, by omega, inByte⟩

private theorem appendLoop_frame : ∀ {fuel : Nat} {writer : Writer} {code clen index : Nat},
    (∀ pos, writer.ol ≤ pos → pos < writer.ol + clen → pos / 8 ≠ index) →
    (appendLoop fuel writer code clen).bytes index = writer.bytes index
  | 0, _, _, _, _, _ => rfl
  | fuel + 1, writer, code, 0, index, _ => by simp [appendLoop]
  | fuel + 1, writer, code, clen + 1, index, outside => by
      have positive : 0 < clen + 1 := Nat.succ_pos clen
      rcases passLength_bounds writer.ol positive with ⟨blenPositive, blenLe, _, _⟩
      rw [appendLoop_succ fuel writer code (clen + 1) positive, appendLoop_frame]
      · have notFirst : index ≠ writer.ol / 8 :=
          (outside writer.ol (by omega) (by omega)).symm
        simp [pass, Writer.store, notFirst]
      · intro pos after before
        simp only [pass] at after before
        exact outside pos (by omega) (by omega)

/-! ## Appending -/

/-- `after` carries `bits` after what `before` carried, with the rest of the
last byte clear. -/
structure Extends (before after : Writer) (bits : List Bool) : Prop where
  ol : after.ol = before.ol + bits.length
  packed : ∀ old, before.ol = old.length → Packed before.bytes old →
    Packed after.bytes (old ++ bits)

theorem Extends.refl (writer : Writer) : Extends writer writer [] where
  ol := rfl
  packed old _ packed := by rwa [List.append_nil]

theorem Extends.trans {first second third : Writer} {left right : List Bool}
    (early : Extends first second left) (late : Extends second third right) :
    Extends first third (left ++ right) where
  ol := by rw [late.ol, early.ol, List.length_append, Nat.add_assoc]
  packed old oldLength packed := by
    rw [← List.append_assoc]
    apply late.packed
    · rw [early.ol, oldLength, List.length_append]
    · exact early.packed old oldLength packed

/-- `after` is `before` with `bits` appended in one go: besides, exactly the
bytes that hold one of the new bits are stored to. -/
structure Appended (before after : Writer) (bits : List Bool) : Prop
    extends Extends before after bits where
  stores : ∀ index, index ∈ after.stores ↔ index ∈ before.stores ∨
    ∃ pos, before.ol ≤ pos ∧ pos < after.ol ∧ pos / 8 = index
  frame : ∀ index, (∀ pos, before.ol ≤ pos → pos < after.ol → pos / 8 ≠ index) →
    after.bytes index = before.bytes index

theorem Appended.refl (writer : Writer) : Appended writer writer [] where
  toExtends := Extends.refl writer
  stores index := by
    constructor
    · exact Or.inl
    · intro either
      rcases either with stored | ⟨pos, after, before, _⟩
      · exact stored
      · omega
  frame _ _ := rfl

theorem Appended.trans {first second third : Writer} {left right : List Bool}
    (early : Appended first second left) (late : Appended second third right) :
    Appended first third (left ++ right) where
  toExtends := early.toExtends.trans late.toExtends
  stores index := by
    have earlyOl := early.ol
    have lateOl := late.ol
    rw [late.stores, early.stores]
    constructor
    · intro either
      rcases either with (stored | ⟨pos, after, before, inByte⟩) | ⟨pos, after, before, inByte⟩
      · exact Or.inl stored
      · exact Or.inr ⟨pos, by omega, by omega, inByte⟩
      · exact Or.inr ⟨pos, by omega, by omega, inByte⟩
    · intro either
      rcases either with stored | ⟨pos, after, before, inByte⟩
      · exact Or.inl (Or.inl stored)
      · by_cases inEarly : pos < second.ol
        · exact Or.inl (Or.inr ⟨pos, after, inEarly, inByte⟩)
        · exact Or.inr ⟨pos, by omega, before, inByte⟩
  frame index outside := by
    have earlyOl := early.ol
    have lateOl := late.ol
    rw [late.frame index fun pos after before => outside pos (by omega) before,
      early.frame index fun pos after before => outside pos after (by omega)]

def stateWord (code clen : Nat) (state : ShxState) : List Bool :=
  if state = .state2 ∧ code >>> 9 = 0x1C then codeword (code <<< 7) (clen - 7)
  else codeword code clen

@[simp] theorem stateWord_state1 (code clen : Nat) :
    stateWord code clen .state1 = codeword code clen := by
  simp [stateWord]

private theorem appendLoop_appended (writer : Writer) (code : Nat) {clen : Nat}
    (short : clen ≤ 16) :
    Appended writer (appendLoop clen writer code clen) (codeword code clen) := by
  have written : (appendLoop clen writer code clen).ol = writer.ol + clen :=
    appendLoop_ol (Nat.le_refl clen)
  refine ⟨⟨?_, ?_⟩, ?_, ?_⟩
  · rw [written, codeword_length short]
  · intro old oldLength packed
    exact appendLoop_packed (.of_packed packed _) oldLength short (Nat.le_refl clen)
  · intro index
    rw [written]
    exact appendLoop_stores (Nat.le_refl clen) index
  · intro index outside
    rw [written] at outside
    exact appendLoop_frame outside

theorem appendBits_appended (writer : Writer) (code clen : Nat) (short : clen ≤ 16)
    (state : ShxState) :
    Appended writer (appendBits writer code clen state) (stateWord code clen state) := by
  rw [appendBits, stateWord]
  split
  · exact appendLoop_appended writer _ (by omega)
  · exact appendLoop_appended writer code short

/-- A codeword may be written again over itself: a writer reset to an earlier
position accepts the codeword that stands there. -/
theorem appendBits_packed_of_accepts (writer : Writer) {old : List Bool} {code clen : Nat}
    (accepts : Accepts writer.bytes old (codeword code clen))
    (oldLength : writer.ol = old.length) (short : clen ≤ 16) :
    Packed (appendBits writer code clen .state1).bytes (old ++ codeword code clen) := by
  have sameLoop : appendBits writer code clen .state1 = appendLoop clen writer code clen := by
    simp [appendBits]
  rw [sameLoop]
  exact appendLoop_packed accepts oldLength short (Nat.le_refl clen)

/-! ## Counts -/

def countBits (count : Nat) : List Bool :=
  if count < 4 then [false] ++ digits 2 count
  else if count < 36 then [true, false] ++ digits 5 (count - 4)
  else if count < 164 then [true, true, false] ++ digits 7 (count - 36)
  else if count < 676 then [true, true, true, false, false] ++ digits 9 (count - 164)
  else if count < 4772 then [true, true, true, false, true] ++ digits 12 (count - 676)
  else if count < 70308 then [true, true, true, true, false] ++ digits 16 (count - 4772)
  else []

private theorem countPrefix_appended (writer : Writer) (value : Nat) (head : List Bool)
    (index : Nat) (bitLen : Nat) (short : bitLen ≤ 16)
    (headWord : codeword ((countCodes.getD index 0 &&& 0xF8) <<< 8)
      (countCodes.getD index 0 &&& 0x07) = head)
    (headShort : countCodes.getD index 0 &&& 0x07 ≤ 16) :
    Appended writer
      (appendBits
        (appendBits writer ((countCodes.getD index 0 &&& 0xF8) <<< 8)
          (countCodes.getD index 0 &&& 0x07) .state1)
        (value <<< (16 - bitLen)) bitLen .state1)
      (head ++ digits bitLen value) := by
  have first := appendBits_appended writer ((countCodes.getD index 0 &&& 0xF8) <<< 8)
    _ headShort .state1
  have second := appendBits_appended
    (appendBits writer ((countCodes.getD index 0 &&& 0xF8) <<< 8)
      (countCodes.getD index 0 &&& 0x07) .state1) (value <<< (16 - bitLen)) bitLen short .state1
  rw [stateWord_state1, headWord] at first
  rw [stateWord_state1, codeword_shiftLeft short] at second
  exact first.trans second

theorem encodeCount_appended (writer : Writer) (count : Nat) :
    Appended writer (encodeCount writer count) (countBits count) := by
  simp only [encodeCount, encodeCountLoop, countBits, countBitLen, Nat.reduceShiftLeft,
    List.getD_cons_zero, List.getD_cons_succ, Nat.zero_add, Nat.reduceAdd]
  split
  · exact countPrefix_appended writer count [false] 0 2 (by omega) (by decide) (by decide)
  · split
    · exact countPrefix_appended writer (count - 4) _ 1 5 (by omega) (by decide) (by decide)
    · split
      · exact countPrefix_appended writer (count - 36) _ 2 7 (by omega) (by decide) (by decide)
      · split
        · exact countPrefix_appended writer (count - 164) _ 3 9 (by omega) (by decide)
            (by decide)
        · split
          · exact countPrefix_appended writer (count - 676) _ 4 12 (by omega) (by decide)
              (by decide)
          · split
            · exact countPrefix_appended writer (count - 4772) _ 5 16 (by omega) (by decide)
                (by decide)
            · exact Appended.refl writer

end EspSqlite.Shox96
