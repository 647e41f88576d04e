import EspSqlite.Foundation.BitMemory

/-! # Varints

`encode_unsigned_varint` and `decode_unsigned_varint`: seven bits a byte, lowest
first, the top bit set on every byte but the last. -/

namespace EspSqlite.Sql

open BitMemory

/-- The loop of `encode_unsigned_varint`; ten rounds use up 64 bits. -/
def encodeVarintLoop : (fuel : Nat) → (value : UInt64) → List UInt8
  | 0, _ => []
  | fuel + 1, value =>
      let nextByte := (value &&& 0x7F).toUInt8
      let value := value >>> 7
      if value ≠ 0 then
        (nextByte ||| 0x80) :: encodeVarintLoop fuel value
      else
        [nextByte]

def encodeUnsignedVarint (value : UInt64) : List UInt8 := encodeVarintLoop 10 value

/-- The loop of `decode_unsigned_varint`. The eleventh round would shift by 70,
which has no defined meaning. -/
def decodeVarintLoop (data : Nat → UInt8) :
    (fuel i shiftAmount : Nat) → (decodedValue : UInt64) → Option (UInt64 × Nat)
  | 0, _, _, _ => none
  | fuel + 1, i, shiftAmount, decodedValue =>
      let decodedValue := decodedValue |||
        ((data i &&& 0x7F).toUInt64 <<< UInt64.ofNat shiftAmount)
      if data i &&& 0x80 ≠ 0 then
        decodeVarintLoop data fuel (i + 1) (shiftAmount + 7) decodedValue
      else
        some (decodedValue, i + 1)

def decodeUnsignedVarint (data : Nat → UInt8) : Option (UInt64 × Nat) :=
  decodeVarintLoop data 10 0 0 0

/-- The loop where only `data[0]` to `data[size - 1]` may be read: reading past
them, or shifting by 64 or more, has no defined meaning. -/
def decodeVarintWithin (data : Nat → UInt8) (size : Nat) :
    (fuel i shiftAmount : Nat) → (decodedValue : UInt64) → Option (UInt64 × Nat)
  | 0, _, _, _ => none
  | fuel + 1, i, shiftAmount, decodedValue =>
      if i < size ∧ shiftAmount < 64 then
        let decodedValue := decodedValue |||
          ((data i &&& 0x7F).toUInt64 <<< UInt64.ofNat shiftAmount)
        if data i &&& 0x80 ≠ 0 then
          decodeVarintWithin data size fuel (i + 1) (shiftAmount + 7) decodedValue
        else
          some (decodedValue, i + 1)
      else
        none

theorem decodeVarintLoop_of_within {data : Nat → UInt8} {size : Nat} {result : UInt64 × Nat} :
    ∀ {fuel i shiftAmount : Nat} {decodedValue : UInt64},
    decodeVarintWithin data size fuel i shiftAmount decodedValue = some result →
    decodeVarintLoop data fuel i shiftAmount decodedValue = some result
  | 0, _, _, _, decoded => by cases decoded
  | fuel + 1, i, shiftAmount, decodedValue, decoded => by
      rw [decodeVarintWithin] at decoded
      rw [decodeVarintLoop]
      by_cases inside : i < size ∧ shiftAmount < 64
      · rw [if_pos inside] at decoded
        by_cases more : data i &&& 0x80 ≠ 0
        · simp only [if_pos more] at decoded ⊢
          exact decodeVarintLoop_of_within decoded
        · simp only [if_neg more] at decoded ⊢
          exact decoded
      · rw [if_neg inside] at decoded
        cases decoded

/-! ## Bytes -/

private theorem payload_of_lt : ∀ c : UInt8, (c &&& 0x7F).toNat = c.toNat % 128 :=
  forall_byte (by decide +kernel)

private theorem continues_iff : ∀ c : UInt8, c &&& 0x80 ≠ 0 ↔ 128 ≤ c.toNat :=
  forall_byte (by decide +kernel)

private theorem continued_toNat : ∀ c : UInt8, c.toNat < 128 →
    (c ||| 0x80).toNat = c.toNat + 128 :=
  forall_byte (by decide +kernel)

private theorem lowBits_toNat (value : UInt64) :
    ((value &&& 0x7F).toUInt8).toNat = value.toNat % 128 := by
  have maskValue : (0x7F : UInt64).toNat = 2 ^ 7 - 1 := rfl
  rw [UInt64.toNat_toUInt8, UInt64.toNat_and, maskValue, Nat.and_two_pow_sub_one_eq_mod]
  omega

private theorem shiftRight_toNat (value : UInt64) : (value >>> 7).toNat = value.toNat / 128 := by
  rw [UInt64.toNat_shiftRight]
  simp [Nat.shiftRight_eq_div_pow]

/-! ## Round trip -/

private theorem addBits_toNat {decoded payload : UInt64} {shiftAmount : Nat}
    (below : decoded.toNat < 2 ^ shiftAmount) (shiftFits : shiftAmount < 64)
    (fits : payload.toNat * 2 ^ shiftAmount < 2 ^ 64) :
    (decoded ||| payload <<< UInt64.ofNat shiftAmount).toNat =
      decoded.toNat + payload.toNat * 2 ^ shiftAmount := by
  have amount : (UInt64.ofNat shiftAmount).toNat % 64 = shiftAmount := by
    rw [UInt64.toNat_ofNat']
    omega
  rw [UInt64.toNat_or, UInt64.toNat_shiftLeft, amount, Nat.shiftLeft_eq, Nat.mod_eq_of_lt fits,
    Nat.or_comm, Nat.mul_comm, ← Nat.two_pow_add_eq_or_of_lt below, Nat.add_comm]

private theorem value_split (value scale : Nat) :
    value * scale = value % 128 * scale + value / 128 * (scale * 128) := by
  have split := congrArg (· * scale) (Nat.div_add_mod value 128)
  simp only [Nat.add_mul] at split
  rw [← split, Nat.add_comm, Nat.mul_comm 128, Nat.mul_assoc, Nat.mul_comm 128]

private theorem encodeVarintLoop_last {rounds : Nat} {value : UInt64} (last : value >>> 7 = 0) :
    encodeVarintLoop (rounds + 1) value = [(value &&& 0x7F).toUInt8] := by
  simp only [encodeVarintLoop, last, ne_eq, not_true, if_false]

private theorem encodeVarintLoop_more {rounds : Nat} {value : UInt64} (more : value >>> 7 ≠ 0) :
    encodeVarintLoop (rounds + 1) value =
      ((value &&& 0x7F).toUInt8 ||| 0x80) :: encodeVarintLoop rounds (value >>> 7) := by
  simp only [encodeVarintLoop, more, ne_eq, not_false_eq_true, if_true]

private theorem rounds_pos_of_more {rounds : Nat} {value : UInt64}
    (fits : value.toNat < 2 ^ (7 * (rounds + 1))) (more : value >>> 7 ≠ 0) : 0 < rounds := by
  apply Nat.pos_of_ne_zero
  intro equal
  subst equal
  apply more
  apply UInt64.toNat_inj.mp
  rw [shiftRight_toNat]
  exact Nat.div_eq_of_lt (by simpa using fits)

/-- The decoder in the middle of an encoding: what is decoded so far lies below
the next seven bits. -/
private theorem decodeVarintWithin_encode {data : Nat → UInt8} {size : Nat} :
    ∀ {rounds fuel i shiftAmount : Nat} {decoded value : UInt64},
    Holds data i (encodeVarintLoop rounds value) →
    i + (encodeVarintLoop rounds value).length ≤ size →
    0 < rounds → rounds ≤ fuel → shiftAmount + 7 * rounds ≤ 70 →
    value.toNat < 2 ^ (7 * rounds) → value.toNat * 2 ^ shiftAmount < 2 ^ 64 →
    decoded.toNat < 2 ^ shiftAmount →
    ∃ result : UInt64, decodeVarintWithin data size fuel i shiftAmount decoded =
        some (result, i + (encodeVarintLoop rounds value).length) ∧
      result.toNat = decoded.toNat + value.toNat * 2 ^ shiftAmount
  | 0, _, _, _, _, _, _, _, someRounds, _, _, _, _, _ => absurd someRounds (Nat.lt_irrefl 0)
  | rounds + 1, 0, _, _, _, _, _, _, _, enough, _, _, _, _ =>
      absurd enough (Nat.not_succ_le_zero _)
  | rounds + 1, fuel + 1, i, shiftAmount, decoded, value, holds, inside, _, enough, shiftFits,
      valueFits, fits, below => by
      have low := lowBits_toNat value
      have high := shiftRight_toNat value
      have parts := value_split value.toNat (2 ^ shiftAmount)
      have payload : ∀ c : UInt8, c.toNat % 128 = value.toNat % 128 →
          (decoded ||| (c &&& 0x7F).toUInt64 <<< UInt64.ofNat shiftAmount).toNat =
            decoded.toNat + value.toNat % 128 * 2 ^ shiftAmount := by
        intro c sameLow
        have read : (c &&& 0x7F).toUInt64.toNat = value.toNat % 128 := by
          rw [UInt8.toNat_toUInt64, payload_of_lt, sameLow]
        rw [addBits_toNat below (by omega) (by rw [read]; omega), read]
      by_cases last : value >>> 7 = 0
      · rw [encodeVarintLoop_last last, holds_cons] at holds
        have firstValue : (data i).toNat = value.toNat % 128 := by rw [holds.1, low]
        have stops : ¬data i &&& 0x80 ≠ 0 := by
          rw [continues_iff]
          omega
        have small : value.toNat / 128 = 0 := by rw [← high, last]; rfl
        rw [encodeVarintLoop_last last, List.length_singleton] at inside
        rw [encodeVarintLoop_last last, decodeVarintWithin, if_pos ⟨by omega, by omega⟩]
        simp only [stops, if_false]
        refine ⟨_, rfl, ?_⟩
        rw [payload (data i) (by omega), parts, small, Nat.zero_mul, Nat.add_zero]
      · rw [encodeVarintLoop_more last, holds_cons] at holds
        have firstValue : (data i).toNat = value.toNat % 128 + 128 := by
          rw [holds.1, continued_toNat _ (by omega), low]
        have continues : data i &&& 0x80 ≠ 0 := (continues_iff _).mpr (by omega)
        have someRounds := rounds_pos_of_more valueFits last
        have read := payload (data i) (by omega)
        have power : 2 ^ (shiftAmount + 7) = 2 ^ shiftAmount * 128 := Nat.pow_add 2 _ 7
        have roundPower : 2 ^ (7 * (rounds + 1)) = 2 ^ (7 * rounds) * 128 :=
          Nat.pow_add 2 _ 7
        have lowPart : value.toNat % 128 * 2 ^ shiftAmount ≤ 127 * 2 ^ shiftAmount :=
          Nat.mul_le_mul_right _ (by omega)
        have nextBelow : (decoded ||| (data i &&& 0x7F).toUInt64 <<<
            UInt64.ofNat shiftAmount).toNat < 2 ^ (shiftAmount + 7) := by
          rw [read, power]
          omega
        rw [encodeVarintLoop_more last, List.length_cons] at inside
        have restInside : i + 1 + (encodeVarintLoop rounds (value >>> 7)).length ≤ size := by omega
        have shifts : shiftAmount + 7 + 7 * rounds ≤ 70 := by omega
        rcases decodeVarintWithin_encode holds.2 restInside someRounds
          (Nat.le_of_succ_le_succ enough) shifts (by rw [high]; omega)
          (by rw [high, power]; omega) nextBelow with
          ⟨result, decodes, resultValue⟩
        rw [encodeVarintLoop_more last, decodeVarintWithin, if_pos ⟨by omega, by omega⟩]
        simp only [ne_eq, continues, not_false_eq_true, if_true]
        refine ⟨result, ?_, ?_⟩
        · rw [decodes, List.length_cons, Nat.add_assoc, Nat.add_comm 1]
        · rw [resultValue, read, high, power, parts, Nat.add_assoc]

theorem decodeVarintWithin_encodeUnsigned {data : Nat → UInt8} {value : UInt64}
    (holds : Holds data 0 (encodeUnsignedVarint value)) :
    decodeVarintWithin data (encodeUnsignedVarint value).length 10 0 0 0 =
      some (value, (encodeUnsignedVarint value).length) := by
  have bound := value.toNat_lt
  have start : (0 : UInt64).toNat < 2 ^ 0 := by decide
  have inside : 0 + (encodeVarintLoop 10 value).length ≤ (encodeUnsignedVarint value).length :=
    Nat.le_of_eq (Nat.zero_add _)
  rcases decodeVarintWithin_encode holds inside (by omega) (Nat.le_refl 10) (Nat.le_refl 70)
    (Nat.lt_trans bound (by decide)) (by simpa using bound) start with
    ⟨result, decodes, resultValue⟩
  have same : result = value := by
    apply UInt64.toNat_inj.mp
    rw [resultValue]
    simp
  rw [decodes, same, Nat.zero_add]
  rfl

theorem decodeUnsignedVarint_encode {data : Nat → UInt8} {value : UInt64}
    (holds : Holds data 0 (encodeUnsignedVarint value)) :
    decodeUnsignedVarint data = some (value, (encodeUnsignedVarint value).length) :=
  decodeVarintLoop_of_within (decodeVarintWithin_encodeUnsigned holds)

private theorem encodeVarintLoop_length_pos {rounds : Nat} (value : UInt64)
    (someRounds : 0 < rounds) : 0 < (encodeVarintLoop rounds value).length := by
  obtain ⟨rounds, rfl⟩ := Nat.exists_eq_add_one_of_ne_zero (Nat.ne_of_gt someRounds)
  by_cases last : value >>> 7 = 0
  · rw [encodeVarintLoop_last last]
    exact Nat.zero_lt_succ _
  · rw [encodeVarintLoop_more last]
    exact Nat.zero_lt_succ _

theorem encodeUnsignedVarint_length_pos (value : UInt64) :
    0 < (encodeUnsignedVarint value).length :=
  encodeVarintLoop_length_pos value (by omega)

private theorem encodeVarintLoop_topBits : ∀ {rounds : Nat} {value : UInt64}, 0 < rounds →
    value.toNat < 2 ^ (7 * rounds) →
    (encodeVarintLoop rounds value).length ≤ rounds ∧
      ∀ index (inside : index < (encodeVarintLoop rounds value).length),
        (encodeVarintLoop rounds value)[index] &&& 0x80 ≠ 0 ↔
          index + 1 < (encodeVarintLoop rounds value).length
  | 0, _, someRounds, _ => absurd someRounds (Nat.lt_irrefl 0)
  | rounds + 1, value, _, fits => by
      have low := lowBits_toNat value
      have high := shiftRight_toNat value
      by_cases last : value >>> 7 = 0
      · simp only [encodeVarintLoop_last last, List.length_singleton]
        refine ⟨by omega, fun index inside => ?_⟩
        obtain rfl : index = 0 := by omega
        rw [List.getElem_cons_zero, continues_iff]
        omega
      · have someRounds := rounds_pos_of_more fits last
        have power : 2 ^ (7 * (rounds + 1)) = 2 ^ (7 * rounds) * 128 := Nat.pow_add 2 _ 7
        have smaller : (value >>> 7).toNat < 2 ^ (7 * rounds) := by
          rw [high]
          omega
        have rest := encodeVarintLoop_topBits someRounds smaller
        simp only [encodeVarintLoop_more last, List.length_cons]
        refine ⟨by omega, fun index inside => ?_⟩
        cases index with
        | zero =>
            have nonempty := encodeVarintLoop_length_pos (value >>> 7) someRounds
            rw [List.getElem_cons_zero, continues_iff, continued_toNat _ (by omega)]
            omega
        | succ index =>
            rw [List.getElem_cons_succ, rest.2 index (by omega)]
            omega

/-- Every value is written in one to ten bytes, of which all but the last have
the top bit set. Decoding reads just these, without a shift by 64 or more, and
gives the value and their number, whatever follows them. -/
theorem varint_roundTrip (value : UInt64) :
    (1 ≤ (encodeUnsignedVarint value).length ∧ (encodeUnsignedVarint value).length ≤ 10) ∧
    (∀ index (inside : index < (encodeUnsignedVarint value).length),
      (encodeUnsignedVarint value)[index] &&& 0x80 ≠ 0 ↔
        index + 1 < (encodeUnsignedVarint value).length) ∧
    ∀ data : Nat → UInt8, Holds data 0 (encodeUnsignedVarint value) →
      decodeUnsignedVarint data = some (value, (encodeUnsignedVarint value).length) ∧
      decodeVarintWithin data (encodeUnsignedVarint value).length 10 0 0 0 =
        some (value, (encodeUnsignedVarint value).length) := by
  have enough : 2 ^ 64 < 2 ^ (7 * 10) := by decide
  have topBits := encodeVarintLoop_topBits (by decide) (Nat.lt_trans value.toNat_lt enough)
  exact ⟨⟨encodeUnsignedVarint_length_pos value, topBits.1⟩, topBits.2, fun data holds =>
    ⟨decodeUnsignedVarint_encode holds, decodeVarintWithin_encodeUnsigned holds⟩⟩

example : encodeUnsignedVarint 300 = [0xAC, 0x02] := by decide

end EspSqlite.Sql
