import EspSqlite.Foundation.Probing
import EspSqlite.Vfs.Database
import Mathlib.Data.Nat.Bitwise

/-! # Sets of pages

The `Bitvec` of `sqlite3.c`, in which the pager records the pages it has journalled: a
bitmap, a hash table or a tree of smaller ones, by its size and what it holds. -/

namespace EspSqlite.Rollback

open Vfs (sqliteOk sqliteNomem)
open Probing

/-- `BITVEC_USIZE`, where a pointer has four bytes. -/
def bitvecUsize : Nat := (512 - 3 * 4) / 4 * 4

def bitvecNelem : Nat := bitvecUsize

def bitvecNbit : Nat := bitvecNelem * 8

def bitvecNint : Nat := bitvecUsize / 4

def bitvecMxhash : Nat := bitvecNint / 2

def bitvecNptr : Nat := bitvecUsize / 4

/-- `BITVEC_HASH` of a value in a hash table, which is one more than the bit. -/
def bitvecHash (value : Nat) : Nat := (value - 1) % bitvecNint

/-- A pointer to a `Bitvec`: NULL, or the view of its union that is in use. The one that
is divided has a positive `iDivisor`. -/
inductive Bitvec
  | null
  | bitmap (iSize : Nat) (aBitmap : Nat → UInt8)
  | hash (iSize nSet : Nat) (aHash : Nat → Nat)
  | divided (iSize iDivisor : Nat) (apSub : Nat → Bitvec)

namespace Bitvec

def iSize : Bitvec → Nat
  | .null => 0
  | .bitmap iSize _ => iSize
  | .hash iSize _ _ => iSize
  | .divided iSize _ _ => iSize

def isNull : Bitvec → Bool
  | .null => true
  | _ => false

def create (iSize : Nat) : Bitvec :=
  if iSize ≤ bitvecNbit then .bitmap iSize fun _ => 0 else .hash iSize 0 fun _ => 0

end Bitvec

/-- `sqlite3BitvecCreate`, with the number of calls of the allocator, of which `mallocs`
says which succeed. -/
def sqlite3BitvecCreate (mallocs : Nat → Bool) (calls iSize : Nat) : Bitvec × Nat :=
  (if mallocs calls then .create iSize else .null, calls + 1)

def bitOf (i : Nat) : UInt8 := 1 <<< UInt8.ofNat (i &&& 7)

/-- The loops of `sqlite3BitvecTestNotNull`, after `i--`. An index outside of an array has
no defined meaning. -/
def bitvecTest : Bitvec → (i : Nat) → Option Bool
  | .null, _ => some false
  | .bitmap _ aBitmap, i =>
      if i / 8 < bitvecNelem then some (aBitmap (i / 8) &&& bitOf i != 0) else none
  | .hash _ _ aHash, i =>
      (find bitvecNint bitvecHash aHash (i + 1)).map fun h => aHash h == i + 1
  | .divided _ iDivisor apSub, i =>
      if i / iDivisor < bitvecNptr then bitvecTest (apSub (i / iDivisor)) (i % iDivisor) else none

def sqlite3BitvecTest (p : Bitvec) (i : Nat) : Option Bool :=
  let i := (i + (2 ^ 32 - 1)) % 2 ^ 32
  if p.iSize ≤ i then some false else bitvecTest p i

/-- The rehashing of `sqlite3BitvecSet`: a hash table is divided, and the new bit and the
old ones are set in it. A size whose divisor wraps round to zero is left out. -/
def bitvecRehash (mallocs : Nat → Bool)
    (set : (calls : Nat) → Bitvec → (i : Nat) → Option (Nat × Bitvec × Nat))
    (calls iSize nSet : Nat) (aHash : Nat → Nat) (i : Nat) : Option (Nat × Bitvec × Nat) :=
  if mallocs calls then
    let iDivisor := (iSize + bitvecNptr - 1) % 2 ^ 32 / bitvecNptr
    if iDivisor = 0 then none
    else
      ((i + 1) :: keys bitvecNint aHash).foldlM
        (fun (rc, p, calls) value =>
          (set calls p (value - 1)).map fun (rc', p, calls) => (rc ||| rc', p, calls))
        (sqliteOk, .divided iSize iDivisor fun _ => .null, calls + 1)
  else
    some (sqliteNomem, .hash iSize nSet aHash, calls + 1)

/-- The part of `sqlite3BitvecSet` after `i--`: the value returned, the structure and the
number of calls of the allocator. At most `fuel` structures and divisions are met. -/
def bitvecSet (mallocs : Nat → Bool) :
    (fuel calls : Nat) → Bitvec → (i : Nat) → Option (Nat × Bitvec × Nat)
  | 0, _, _, _ => none
  | _ + 1, calls, .null, _ => some (sqliteOk, .null, calls)
  | _ + 1, calls, .bitmap iSize aBitmap, i =>
      if i / 8 < bitvecNelem then
        some (sqliteOk,
          .bitmap iSize (Function.update aBitmap (i / 8) (aBitmap (i / 8) ||| bitOf i)), calls)
      else none
  | fuel + 1, calls, .divided iSize iDivisor apSub, i =>
      let bin := i / iDivisor
      if bin < bitvecNptr then
        let made := if (apSub bin).isNull then sqlite3BitvecCreate mallocs calls iDivisor
          else (apSub bin, calls)
        if made.1.isNull then
          some (sqliteNomem, .divided iSize iDivisor apSub, made.2)
        else
          (bitvecSet mallocs fuel made.2 made.1 (i % iDivisor)).map fun (rc, sub, calls) =>
            (rc, .divided iSize iDivisor (Function.update apSub bin sub), calls)
      else none
  | fuel + 1, calls, .hash iSize nSet aHash, i =>
      let stored := fun h => some
        (sqliteOk, .hash iSize (nSet + 1) (Function.update aHash h (i + 1)), calls)
      let rehash := bitvecRehash mallocs (bitvecSet mallocs fuel) calls iSize nSet aHash i
      let h := bitvecHash (i + 1)
      if aHash h = 0 then
        if nSet < bitvecNint - 1 then stored h
        else if bitvecMxhash ≤ nSet then rehash
        else stored h
      else
        (find bitvecNint bitvecHash aHash (i + 1)).bind fun h =>
          if aHash h = i + 1 then some (sqliteOk, .hash iSize nSet aHash, calls)
          else if bitvecMxhash ≤ nSet then rehash
          else stored h

def sqlite3BitvecSet (mallocs : Nat → Bool) (calls : Nat) (p : Bitvec) (i : Nat) :
    Option (Nat × Bitvec × Nat) :=
  bitvecSet mallocs (2 * p.iSize + 1) calls p (i - 1)

/-- The part of `sqlite3BitvecClear` after `i--`. -/
def bitvecClear : Bitvec → (i : Nat) → Option Bitvec
  | .null, _ => some .null
  | .bitmap iSize aBitmap, i =>
      if i / 8 < bitvecNelem then
        some (.bitmap iSize (Function.update aBitmap (i / 8) (aBitmap (i / 8) &&& ~~~bitOf i)))
      else none
  | .hash iSize _ aHash, i =>
      let aiValues := (keys bitvecNint aHash).filter fun value => value ≠ i + 1
      (aiValues.foldlM (place bitvecNint bitvecHash) fun _ => 0).map fun aHash =>
        .hash iSize aiValues.length aHash
  | .divided iSize iDivisor apSub, i =>
      if i / iDivisor < bitvecNptr then
        (bitvecClear (apSub (i / iDivisor)) (i % iDivisor)).map fun sub =>
          .divided iSize iDivisor (Function.update apSub (i / iDivisor) sub)
      else none

def sqlite3BitvecClear (p : Bitvec) (i : Nat) : Option Bitvec := bitvecClear p (i - 1)

/-! ## Bits of a byte -/

theorem getLsbD_bitOf (i place : Nat) :
    (bitOf i).toBitVec.getLsbD place = decide (i % 8 = place) := by
  have small : i % 8 < 8 := Nat.mod_lt i (by decide)
  have low : i &&& 7 = i % 8 := Nat.and_two_pow_sub_one_eq_mod i 3
  have shift : i % 8 % 2 ^ 8 % 8 = i % 8 := by omega
  have isPower : (bitOf i).toNat = 2 ^ (i % 8) := by
    rw [bitOf, low, UInt8.toNat_shiftLeft, UInt8.toNat_ofNat', shift, UInt8.toNat_one,
      Nat.one_shiftLeft, Nat.mod_eq_of_lt (Nat.pow_lt_pow_right (by decide) small)]
  rw [BitVec.getLsbD, UInt8.toNat_toBitVec, isPower, Nat.testBit_two_pow]

theorem and_bitOf (byte : UInt8) (i : Nat) :
    (byte &&& bitOf i != 0) = byte.toBitVec.getLsbD (i % 8) := by
  have same : (byte &&& bitOf i).toBitVec.getLsbD (i % 8) = byte.toBitVec.getLsbD (i % 8) := by
    rw [UInt8.toBitVec_and, BitVec.getLsbD_and, getLsbD_bitOf, decide_eq_true rfl, Bool.and_true]
  cases shown : byte.toBitVec.getLsbD (i % 8) with
  | true =>
      rw [bne_iff_ne]
      intro isZero
      rw [isZero, shown] at same
      simp at same
  | false =>
      have isZero : byte &&& bitOf i = 0 := by
        apply UInt8.toBitVec_inj.mp
        apply BitVec.eq_of_getLsbD_eq
        intro place _
        rw [UInt8.toBitVec_and, BitVec.getLsbD_and, getLsbD_bitOf]
        by_cases here : i % 8 = place
        · rw [← here, shown, Bool.false_and]
          simp
        · rw [decide_eq_false here, Bool.and_false]
          simp
      rw [isZero, bne_self_eq_false]

end EspSqlite.Rollback
