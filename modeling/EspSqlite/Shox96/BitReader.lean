import EspSqlite.Shox96.BitWriter

/-! # Reading codes

`getCodeIdx`, `getNumFromBits` and `readCount`, and that they undo the writer. -/

namespace EspSqlite.Shox96

open BitMemory

/-! ## The source functions -/

def getBitVal (inp : Nat → UInt8) (bitNo count : Nat) : Nat :=
  if (inp (bitNo >>> 3)).toNat &&& (0x80 >>> (bitNo % 8)) ≠ 0 then 1 <<< count else 0

/-- The loop of `getCodeIdx` with `fuel` bits left to try. The result is the
index with the new bit position; 199 means that the input ran out. -/
def getCodeIdxLoop (codeType : List Nat) (inp : Nat → UInt8) (len : Nat) :
    (fuel bitNo code count : Nat) → Nat × Nat
  | 0, bitNo, _, _ => (1, bitNo)
  | fuel + 1, bitNo, code, count =>
      if bitNo ≥ len then
        (199, bitNo)
      else
        let code := code + getBitVal inp bitNo count
        let bitNo := bitNo + 1
        let count := count + 1
        let entry := codeType.getD code 0
        if entry ≠ 0 ∧ entry &&& 0x07 = count then
          (entry >>> 3, bitNo)
        else
          getCodeIdxLoop codeType inp len fuel bitNo code count

def getCodeIdx (codeType : List Nat) (inp : Nat → UInt8) (len bitNo : Nat) : Nat × Nat :=
  getCodeIdxLoop codeType inp len 5 bitNo 0 0

def getNumFromBits (inp : Nat → UInt8) : (bitNo count : Nat) → Nat
  | _, 0 => 0
  | bitNo, count + 1 => getBitVal inp bitNo count + getNumFromBits inp (bitNo + 1) count

/-- The tables `bit_len` and `adder` of `readCount`, in the order of `hcode`. -/
def readBitLen : List Nat := [5, 2, 7, 9, 12, 16, 17]
def readAdder : List Nat := [4, 0, 36, 164, 676, 4772, 0]

def readCount (inp : Nat → UInt8) (len bitNo : Nat) : Nat × Nat :=
  let code := getCodeIdx hcode inp len bitNo
  if code.1 > 6 then
    (0, code.2)
  else
    let bitLen := readBitLen.getD code.1 0
    (getNumFromBits inp code.2 bitLen + readAdder.getD code.1 0, code.2 + bitLen)

/-! ## Bits and numbers -/

theorem getBitVal_eq (inp : Nat → UInt8) (bitNo count : Nat) :
    getBitVal inp bitNo count = if bitAt inp bitNo then 2 ^ count else 0 := by
  have position : 0x80 >>> (bitNo % 8) = 2 ^ (7 - bitNo % 8) := by
    have small : bitNo % 8 < 8 := Nat.mod_lt _ (by omega)
    have same : 0x80 = 2 ^ 7 := rfl
    rw [Nat.shiftRight_eq_div_pow, same,
      Nat.pow_div (by omega) (by omega)]
  rw [getBitVal, bitAt]
  rw [position, Nat.and_two_pow, Nat.shiftRight_eq_div_pow, Nat.one_shiftLeft]
  cases (inp (bitNo / 2 ^ 3)).toNat.testBit (7 - bitNo % 8) <;> simp

theorem getNumFromBits_eq {inp : Nat → UInt8} {bitNo : Nat} {bits : List Bool}
    (carries : Carries inp bitNo bits) :
    getNumFromBits inp bitNo bits.length = number bits := by
  induction bits generalizing bitNo with
  | nil => rfl
  | cons bit rest induction =>
      rw [carries_cons] at carries
      rw [List.length_cons, getNumFromBits, number, getBitVal_eq, carries.1,
        induction carries.2]
      cases bit <;> simp

/-! ## Prefix codes -/

/-- Decode one codeword from a bit string: its index and the bits after it, or
`none` when the string ends inside a codeword. -/
def decodeWord (codeType : List Nat) : List Bool → (code count : Nat) → Option (Nat × List Bool)
  | [], _, _ => none
  | bit :: rest, code, count =>
      let code := code + if bit then 2 ^ count else 0
      let entry := codeType.getD code 0
      if entry ≠ 0 ∧ entry &&& 0x07 = count + 1 then
        some (entry >>> 3, rest)
      else
        decodeWord codeType rest code (count + 1)

private theorem getCodeIdxLoop_of_carries {codeType : List Nat} {inp : Nat → UInt8}
    {len index : Nat} {word : List Bool} : ∀ {fuel bitNo code count : Nat},
    Carries inp bitNo word → bitNo + word.length ≤ len → word.length ≤ fuel →
    decodeWord codeType word code count = some (index, []) →
    getCodeIdxLoop codeType inp len fuel bitNo code count = (index, bitNo + word.length) := by
  induction word with
  | nil =>
      intro fuel bitNo code count _ _ _ decoded
      cases decoded
  | cons bit rest induction =>
      intro fuel bitNo code count carries inside enough decoded
      rw [List.length_cons] at inside enough ⊢
      rw [carries_cons] at carries
      cases fuel with
      | zero => omega
      | succ fuel =>
          have more : ¬bitNo ≥ len := by omega
          simp only [getCodeIdxLoop, more, if_false, getBitVal_eq, carries.1]
          simp only [decodeWord] at decoded
          generalize (code + if bit = true then 2 ^ count else 0) = code at decoded ⊢
          by_cases ends : codeType.getD code 0 ≠ 0 ∧ codeType.getD code 0 &&& 0x07 = count + 1
          · rw [if_pos ends, Option.some.injEq, Prod.mk.injEq] at decoded
            rw [if_pos ends, decoded.1, decoded.2]
            rfl
          · rw [if_neg ends] at decoded ⊢
            rw [induction carries.2 (by omega) (by omega) decoded, Nat.add_assoc,
              Nat.add_comm 1]

private theorem getCodeIdxLoop_of_end {codeType : List Nat} {inp : Nat → UInt8}
    {len : Nat} {part : List Bool} : ∀ {fuel bitNo code count : Nat},
    Carries inp bitNo part → bitNo + part.length = len → part.length < fuel →
    decodeWord codeType part code count = none →
    getCodeIdxLoop codeType inp len fuel bitNo code count = (199, len) := by
  induction part with
  | nil =>
      intro fuel bitNo code count _ atEnd enough _
      cases fuel with
      | zero => simp at enough
      | succ fuel =>
          have ended : bitNo = len := by simpa using atEnd
          simp [getCodeIdxLoop, ended]
  | cons bit rest induction =>
      intro fuel bitNo code count carries atEnd enough starved
      rw [List.length_cons] at atEnd enough
      rw [carries_cons] at carries
      cases fuel with
      | zero => omega
      | succ fuel =>
          have more : ¬bitNo ≥ len := by omega
          simp only [getCodeIdxLoop, more, if_false, getBitVal_eq, carries.1]
          simp only [decodeWord] at starved
          generalize (code + if bit = true then 2 ^ count else 0) = code at starved ⊢
          by_cases ends : codeType.getD code 0 ≠ 0 ∧ codeType.getD code 0 &&& 0x07 = count + 1
          · rw [if_pos ends] at starved
            cases starved
          · rw [if_neg ends] at starved ⊢
            exact induction carries.2 (by omega) (by omega) starved

def vword (index : Nat) : List Bool :=
  [[false, false], [false, true, false], [false, true, true], [true, false, false],
    [true, false, true, false], [true, false, true, true], [true, true, false, false],
    [true, true, false, true], [true, true, true, false], [true, true, true, true, false],
    [true, true, true, true, true]].getD index []

def hword (index : Nat) : List Bool :=
  [[true, false], [false], [true, true, false], [true, true, true, false, false],
    [true, true, true, false, true], [true, true, true, true, false],
    [true, true, true, true, true]].getD index []

private theorem vword_decodes : ∀ index < 11,
    (vword index).length ≤ 5 ∧ decodeWord vcode (vword index) 0 0 = some (index, []) := by
  decide

private theorem hword_decodes : ∀ index < 7,
    (hword index).length ≤ 5 ∧ decodeWord hcode (hword index) 0 0 = some (index, []) := by
  decide

theorem getCodeIdx_vword {inp : Nat → UInt8} {bitNo index : Nat} (len : Nat) (valid : index < 11)
    (carries : Carries inp bitNo (vword index))
    (inside : bitNo + (vword index).length ≤ len) :
    getCodeIdx vcode inp len bitNo = (index, bitNo + (vword index).length) :=
  getCodeIdxLoop_of_carries carries inside (vword_decodes index valid).1
    (vword_decodes index valid).2

theorem getCodeIdx_hword {inp : Nat → UInt8} {bitNo index : Nat} (len : Nat) (valid : index < 7)
    (carries : Carries inp bitNo (hword index))
    (inside : bitNo + (hword index).length ≤ len) :
    getCodeIdx hcode inp len bitNo = (index, bitNo + (hword index).length) :=
  getCodeIdxLoop_of_carries carries inside (hword_decodes index valid).1
    (hword_decodes index valid).2

/-- Input that ends inside a codeword reads as 199. -/
theorem getCodeIdx_of_end {codeType : List Nat} {inp : Nat → UInt8} {len bitNo : Nat}
    {part : List Bool} (carries : Carries inp bitNo part)
    (atEnd : bitNo + part.length = len) (short : part.length < 5)
    (starved : decodeWord codeType part 0 0 = none) :
    getCodeIdx codeType inp len bitNo = (199, len) :=
  getCodeIdxLoop_of_end carries atEnd short starved

/-! ## Counts -/

private theorem readCount_of_range {inp : Nat → UInt8} {len bitNo value : Nat}
    (index : Nat) (valid : index < 7)
    (carries : Carries inp bitNo (hword index ++ digits (readBitLen.getD index 0) value))
    (inside : bitNo + (hword index ++ digits (readBitLen.getD index 0) value).length ≤ len)
    (small : value < 2 ^ readBitLen.getD index 0) :
    readCount inp len bitNo = (value + readAdder.getD index 0,
      bitNo + (hword index ++ digits (readBitLen.getD index 0) value).length) := by
  rw [carries_append] at carries
  rw [List.length_append, digits_length] at inside ⊢
  have numeric := getNumFromBits_eq carries.2
  rw [digits_length, number_digits, Nat.mod_eq_of_lt small] at numeric
  have notEnd : ¬index > 6 := by omega
  have found := getCodeIdx_hword len valid carries.1 (by omega)
  simp only [readCount, found, notEnd, if_false, numeric, Nat.add_assoc]

theorem readCount_countBits {inp : Nat → UInt8} {len bitNo count : Nat}
    (encodable : count < 70308) (carries : Carries inp bitNo (countBits count))
    (inside : bitNo + (countBits count).length ≤ len) :
    readCount inp len bitNo = (count, bitNo + (countBits count).length) := by
  rw [countBits] at carries inside ⊢
  split at carries <;> rename_i range0
  · rw [if_pos range0] at inside ⊢
    exact readCount_of_range 1 (by omega) carries inside range0
  rw [if_neg range0] at inside ⊢
  split at carries <;> rename_i range1
  · rw [if_pos range1] at inside ⊢
    have place : count - 4 < 2 ^ 5 := by omega
    rw [readCount_of_range 0 (by omega) carries inside place]
    simp only [Prod.mk.injEq]
    exact ⟨Nat.sub_add_cancel (by omega), rfl⟩
  rw [if_neg range1] at inside ⊢
  split at carries <;> rename_i range2
  · rw [if_pos range2] at inside ⊢
    have place : count - 36 < 2 ^ 7 := by omega
    rw [readCount_of_range 2 (by omega) carries inside place]
    simp only [Prod.mk.injEq]
    exact ⟨Nat.sub_add_cancel (by omega), rfl⟩
  rw [if_neg range2] at inside ⊢
  split at carries <;> rename_i range3
  · rw [if_pos range3] at inside ⊢
    have place : count - 164 < 2 ^ 9 := by omega
    rw [readCount_of_range 3 (by omega) carries inside place]
    simp only [Prod.mk.injEq]
    exact ⟨Nat.sub_add_cancel (by omega), rfl⟩
  rw [if_neg range3] at inside ⊢
  split at carries <;> rename_i range4
  · rw [if_pos range4] at inside ⊢
    have place : count - 676 < 2 ^ 12 := by omega
    rw [readCount_of_range 4 (by omega) carries inside place]
    simp only [Prod.mk.injEq]
    exact ⟨Nat.sub_add_cancel (by omega), rfl⟩
  rw [if_neg range4, if_pos encodable] at inside ⊢
  have place : count - 4772 < 2 ^ 16 := by omega
  rw [readCount_of_range 5 (by omega) carries inside place]
  simp only [Prod.mk.injEq]
  exact ⟨Nat.sub_add_cancel (by omega), rfl⟩

end EspSqlite.Shox96
