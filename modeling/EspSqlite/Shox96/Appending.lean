import EspSqlite.Shox96.BitReader

/-! # What the writer appends

`append_bits` and `encodeCount` from any start position, in terms of the bits of
the buffer, and what the reader makes of them. -/

namespace EspSqlite.Shox96

open BitMemory

/-- `after` has `bits` after the bits that `before` had, and the rest of the
byte in which they end is zero. -/
structure AppendsBits (before after : Writer) (bits : List Bool) : Prop where
  ol : after.ol = before.ol + bits.length
  kept : ∀ pos < before.ol, bitAt after.bytes pos = bitAt before.bytes pos
  written : Carries after.bytes before.ol bits
  clear : ClearFrom after.bytes after.ol

/-- Besides, no byte is touched after the one in which the bits end. -/
structure AppendsExactly (before after : Writer) (bits : List Bool) : Prop
    extends AppendsBits before after bits where
  later : ∀ index, after.ol ≤ 8 * index → after.bytes index = before.bytes index
  touched : ∀ index ∈ after.stores, index ∈ before.stores ∨ 8 * index < after.ol

section Appends

variable {before after : Writer} {bits : List Bool}

theorem Extends.appendsBits (extended : Extends before after bits)
    (clear : ClearFrom before.bytes before.ol) : AppendsBits before after bits := by
  have packed := extended.packed (bitsBefore before.bytes before.ol)
    (bitsBefore_length _ _).symm (packed_bitsBefore clear)
  have carries := carries_append.mp packed.carries
  rw [bitsBefore_length, Nat.zero_add] at carries
  refine ⟨extended.ol, fun pos earlier => ?_, carries.2, fun index beyond sameByte => ?_⟩
  · have same := carries.1 pos (by simpa using earlier)
    have own := (packed_bitsBefore clear).carries pos (by simpa using earlier)
    rw [Nat.zero_add] at same own
    rw [same, own]
  · apply packed.clear
    · simpa [extended.ol] using beyond
    · simpa [extended.ol] using sameByte

theorem Appended.appendsExactly (appended : Appended before after bits)
    (clear : ClearFrom before.bytes before.ol) : AppendsExactly before after bits where
  toAppendsBits := appended.toExtends.appendsBits clear
  later index beyond := by
    apply appended.frame
    intro pos _ inside
    omega
  touched index stored := by
    rcases (appended.stores index).mp stored with earlier | ⟨pos, _, inside, inByte⟩
    · exact Or.inl earlier
    · exact Or.inr (by omega)

end Appends

/-! ## Codes -/

theorem codeword_eq_digits {code clen : Nat} (short : clen ≤ 16) :
    codeword code clen = digits clen (code >>> (16 - clen)) := by
  apply List.ext_getElem
  · rw [codeword_length short, digits_length]
  · intro index inLeft inRight
    rw [digits_length] at inRight
    rw [codeword_getElem, digits_getElem, Nat.testBit_shiftRight]
    congr 1
    omega

theorem codeword_drop (code : Nat) {clen count : Nat} (short : clen ≤ 16) (part : count ≤ clen) :
    (codeword code clen).drop count = codeword (code <<< count) (clen - count) := by
  rw [codeword_split code short part, List.drop_left' (codeword_length (by omega))]

theorem AppendsBits.getNumFromBits_eq {before after : Writer} {bits : List Bool} {count : Nat}
    (appended : AppendsBits before after bits) (isCount : bits.length = count) :
    getNumFromBits after.bytes before.ol count = number bits := by
  rw [← isCount]
  exact EspSqlite.Shox96.getNumFromBits_eq appended.written

/-- `append_bits` appends the top `clen` bits of its code, in the digit state
without a leading `0011100`, and `getNumFromBits` reads them back. -/
theorem appendBits_exact (writer : Writer) {code clen : Nat} (small : code < 2 ^ 16)
    (short : clen ≤ 16) (clear : ClearFrom writer.bytes writer.ol) :
    (AppendsExactly writer (appendBits writer code clen .state1) (codeword code clen) ∧
      getNumFromBits (appendBits writer code clen .state1).bytes writer.ol clen =
        code >>> (16 - clen)) ∧
    (code >>> 9 = 0x1C → 7 ≤ clen →
      AppendsExactly writer (appendBits writer code clen .state2)
        ((codeword code clen).drop 7) ∧
      getNumFromBits (appendBits writer code clen .state2).bytes writer.ol (clen - 7) =
        (code >>> (16 - clen)) % 2 ^ (clen - 7)) := by
  have fits : code >>> (16 - clen) < 2 ^ clen := by
    rw [Nat.shiftRight_eq_div_pow, Nat.div_lt_iff_lt_mul (Nat.two_pow_pos _), ← Nat.pow_add,
      Nat.add_sub_cancel' short]
    exact small
  constructor
  · have appended := (appendBits_appended writer code clen short .state1).appendsExactly clear
    rw [stateWord_state1] at appended
    refine ⟨appended, ?_⟩
    rw [appended.getNumFromBits_eq (codeword_length short), codeword_eq_digits short,
      number_digits, Nat.mod_eq_of_lt fits]
  · intro isPrefix long
    have appended := (appendBits_appended writer code clen short .state2).appendsExactly clear
    rw [stateWord, if_pos ⟨rfl, isPrefix⟩, ← codeword_drop code short long] at appended
    refine ⟨appended, ?_⟩
    rw [appended.getNumFromBits_eq (by rw [List.length_drop, codeword_length short]),
      codeword_eq_digits short, digits_drop, number_digits]

def threeBits : Writer := ⟨fun index => if index = 0 then 0xE0 else 0xFF, [], 3⟩

theorem threeBits_clear : ClearFrom threeBits.bytes threeBits.ol := by
  intro index beyond sameByte
  have inByte : index < 8 := by
    simp only [threeBits] at sameByte
    omega
  have bits : ∀ index < 8, 3 ≤ index → bitAt threeBits.bytes index = false := by decide
  exact bits index inByte beyond

/-- The code of `0`, which has the prefix. -/
theorem appendBits_exact_zero :
    AppendsExactly threeBits (appendBits threeBits 14528 10 .state1) (codeword 14528 10) ∧
      AppendsExactly threeBits (appendBits threeBits 14528 10 .state2)
        ((codeword 14528 10).drop 7) ∧
      getNumFromBits (appendBits threeBits 14528 10 .state2).bytes 3 3 = 3 := by
  have exact1 := (appendBits_exact threeBits (show 14528 < 2 ^ 16 by decide)
    (show 10 ≤ 16 by decide) threeBits_clear).1.1
  have exact2 := (appendBits_exact threeBits (show 14528 < 2 ^ 16 by decide)
    (show 10 ≤ 16 by decide) threeBits_clear).2 (by decide) (by decide)
  exact ⟨exact1, exact2⟩

/-! ## Counts -/

/-- In every memory that begins with the bits of the writer, `readCount` at
`pos` returns `count` and goes on to `next`. -/
def ReadsCount (writer : Writer) (pos count next : Nat) : Prop :=
  ∀ (inp : Nat → UInt8) (len : Nat),
    (∀ index < writer.ol, bitAt inp index = bitAt writer.bytes index) → writer.ol ≤ len →
    readCount inp len pos = (count, next)

/-- `encodeCount` appends a code from which `readCount` returns the count,
whatever follows it. -/
def CountRoundTrips (count : Nat) : Prop :=
  ∀ writer : Writer, ClearFrom writer.bytes writer.ol →
    (∃ bits, AppendsExactly writer (encodeCount writer count) bits) ∧
      ReadsCount (encodeCount writer count) writer.ol count (encodeCount writer count).ol

theorem readsCount_of_carries {writer : Writer} {pos count next : Nat} (encodable : count < 70308)
    (carries : Carries writer.bytes pos (countBits count))
    (isNext : next = pos + (countBits count).length) (inside : next ≤ writer.ol) :
    ReadsCount writer pos count next := by
  intro inp len same fits
  subst isNext
  apply readCount_countBits encodable
  · apply carries.congr
    intro index _ before
    exact same index (Nat.lt_of_lt_of_le before inside)
  · exact Nat.le_trans inside fits

/-- Nothing is written for a count beyond the last of the six ranges. -/
theorem encodeCount_beyond (writer : Writer) {count : Nat} (beyond : 70308 ≤ count) :
    (encodeCount writer count).ol = writer.ol := by
  have bits : countBits count = [] := by
    simp only [countBits]
    repeat rw [if_neg (by omega)]
  rw [(encodeCount_appended writer count).ol, bits, List.length_nil, Nat.add_zero]

theorem not_countRoundTrips_of_beyond {count : Nat} (beyond : 70308 ≤ count) :
    ¬CountRoundTrips count := by
  intro roundTrips
  let start : Writer := ⟨fun _ => 0, [], 0⟩
  have clear : ClearFrom start.bytes start.ol := fun _ _ inside => absurd inside (by simp [start])
  have unmoved : (encodeCount start count).ol = 0 := encodeCount_beyond start beyond
  have read := (roundTrips start clear).2 (encodeCount start count).bytes 0 (fun _ _ => rfl)
    (Nat.le_of_eq unmoved)
  have ended : getCodeIdx hcode (encodeCount start count).bytes 0 start.ol = (199, 0) :=
    getCodeIdx_of_end (carries_nil _ _) rfl (by simp) rfl
  simp only [readCount, ended, gt_iff_lt, Nat.reduceLT, if_true, Prod.mk.injEq] at read
  omega

/-- Counts round trip below 70308: the tables of `encodeCount` have a seventh
range, but its loop ends before it. -/
theorem countRoundTrips_iff (count : Nat) : CountRoundTrips count ↔ count < 70308 := by
  constructor
  · intro roundTrips
    by_contra beyond
    exact not_countRoundTrips_of_beyond (Nat.le_of_not_lt beyond) roundTrips
  · intro encodable writer clear
    have appended := (encodeCount_appended writer count).appendsExactly clear
    exact ⟨⟨countBits count, appended⟩,
      readsCount_of_carries encodable appended.written appended.ol (Nat.le_refl _)⟩

/-- The first count of the seventh range. -/
theorem not_countRoundTrips_seventh : ¬CountRoundTrips 70308 :=
  not_countRoundTrips_of_beyond (Nat.le_refl _)

end EspSqlite.Shox96
