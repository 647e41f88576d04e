import Mathlib.Data.Nat.Bitwise

namespace EspSqlite.BitMemory

/-! Bit strings stored in a byte memory, most significant bit of each byte
first. A memory is a total function of the byte index, so that the bytes around
a buffer are part of it. -/

/-- The bit at position `pos`, counted from the top bit of byte zero. -/
def bitAt (bytes : Nat → UInt8) (pos : Nat) : Bool :=
  (bytes (pos / 8)).toNat.testBit (7 - pos % 8)

theorem forall_byte {property : UInt8 → Prop}
    (holds : ∀ value < 256, property (UInt8.ofNat value)) (c : UInt8) : property c := by
  have here := holds c.toNat c.toNat_lt
  rwa [UInt8.ofNat_toNat] at here

def Holds (bytes : Nat → UInt8) (start : Nat) (values : List UInt8) : Prop :=
  ∀ index (inside : index < values.length), bytes (start + index) = values[index]

theorem holds_cons {bytes : Nat → UInt8} {start : Nat} {value : UInt8} {rest : List UInt8} :
    Holds bytes start (value :: rest) ↔ bytes start = value ∧ Holds bytes (start + 1) rest := by
  constructor
  · intro holds
    refine ⟨holds 0 (by simp), fun index inside => ?_⟩
    have next := holds (index + 1) (by simpa using inside)
    rwa [Nat.add_assoc, Nat.add_comm 1 index]
  · intro both index inside
    rcases both with ⟨first, holds⟩
    cases index with
    | zero => exact first
    | succ index =>
        have next := holds index (by simpa using inside)
        rwa [Nat.add_assoc, Nat.add_comm 1 index] at next

/-! ## Binary digits -/

def digits : (count value : Nat) → List Bool
  | 0, _ => []
  | count + 1, value => value.testBit count :: digits count value

def number : List Bool → Nat
  | [] => 0
  | bit :: rest => bit.toNat * 2 ^ rest.length + number rest

@[simp] theorem digits_length : ∀ count value : Nat,
    (digits count value).length = count
  | 0, _ => rfl
  | count + 1, value => by simp [digits, digits_length count value]

theorem digits_getElem : ∀ (count value index : Nat)
    (inside : index < (digits count value).length),
    (digits count value)[index] = value.testBit (count - 1 - index)
  | count + 1, value, 0, _ => by simp [digits]
  | count + 1, value, index + 1, inside => by
      simp only [digits, List.getElem_cons_succ]
      rw [digits_getElem count value index]
      congr 1
      omega

theorem digits_drop : ∀ count value part : Nat,
    (digits count value).drop part = digits (count - part) value
  | 0, value, part => by simp [digits]
  | count + 1, value, 0 => rfl
  | count + 1, value, part + 1 => by
      rw [digits, List.drop_succ_cons, digits_drop count value part, Nat.add_sub_add_right]

theorem number_digits : ∀ count value : Nat,
    number (digits count value) = value % 2 ^ count
  | 0, value => by simp [digits, number, Nat.mod_one]
  | count + 1, value => by
      simp only [digits, number, digits_length, number_digits count value]
      rw [Nat.mod_pow_succ, Nat.toNat_testBit, Nat.mul_comm, Nat.add_comm]

/-! ## Bits carried at a position -/

/-- `bits` stands in `bytes` from position `pos` on. -/
def Carries (bytes : Nat → UInt8) (pos : Nat) (bits : List Bool) : Prop :=
  ∀ index (inside : index < bits.length), bitAt bytes (pos + index) = bits[index]

@[simp] theorem carries_nil (bytes : Nat → UInt8) (pos : Nat) :
    Carries bytes pos [] := by
  intro index inside
  simp at inside

theorem carries_cons {bytes : Nat → UInt8} {pos : Nat} {bit : Bool} {rest : List Bool} :
    Carries bytes pos (bit :: rest) ↔
      bitAt bytes pos = bit ∧ Carries bytes (pos + 1) rest := by
  constructor
  · intro carries
    refine ⟨carries 0 (by simp), fun index inside => ?_⟩
    have next := carries (index + 1) (by simpa using inside)
    rwa [Nat.add_assoc, Nat.add_comm 1 index]
  · intro both index inside
    rcases both with ⟨first, carries⟩
    cases index with
    | zero => exact first
    | succ index =>
        have next := carries index (by simpa using inside)
        rwa [Nat.add_assoc, Nat.add_comm 1 index] at next

theorem carries_append {bytes : Nat → UInt8} {pos : Nat} {left right : List Bool} :
    Carries bytes pos (left ++ right) ↔
      Carries bytes pos left ∧ Carries bytes (pos + left.length) right := by
  induction left generalizing pos with
  | nil => simp
  | cons bit left induction =>
      rw [List.cons_append, carries_cons, carries_cons, induction, and_assoc,
        List.length_cons, Nat.add_assoc, Nat.add_comm 1 left.length]

theorem Carries.congr {left right : Nat → UInt8} {pos : Nat} {bits : List Bool}
    (carries : Carries left pos bits)
    (equal : ∀ index, pos ≤ index → index < pos + bits.length →
      bitAt right index = bitAt left index) :
    Carries right pos bits := by
  intro index inside
  rw [equal (pos + index) (by omega) (by omega)]
  exact carries index inside

/-! ## Packed bit strings -/

/-- `bytes` starts with exactly `bits`, and the unused low bits of the byte in
which they end are zero. -/
structure Packed (bytes : Nat → UInt8) (bits : List Bool) : Prop where
  carries : Carries bytes 0 bits
  clear : ∀ pos, bits.length ≤ pos → 8 * (pos / 8) < bits.length →
    bitAt bytes pos = false

theorem packed_nil (bytes : Nat → UInt8) : Packed bytes [] :=
  ⟨carries_nil bytes 0, fun _ _ inside => by simp at inside⟩

def ClearFrom (bytes : Nat → UInt8) (pos : Nat) : Prop :=
  ∀ index, pos ≤ index → 8 * (index / 8) < pos → bitAt bytes index = false

def bitsBefore (bytes : Nat → UInt8) (pos : Nat) : List Bool :=
  (List.range pos).map (bitAt bytes)

@[simp] theorem bitsBefore_length (bytes : Nat → UInt8) (pos : Nat) :
    (bitsBefore bytes pos).length = pos := by
  simp [bitsBefore]

theorem packed_bitsBefore {bytes : Nat → UInt8} {pos : Nat} (clear : ClearFrom bytes pos) :
    Packed bytes (bitsBefore bytes pos) where
  carries index inside := by simp [bitsBefore]
  clear index beyond sameByte := by
    rw [bitsBefore_length] at beyond sameByte
    exact clear index beyond sameByte

end EspSqlite.BitMemory
