import EspSqlite.Rollback.Bitvec

/-! # What a set of pages holds

The bits that are set in a `Bitvec`, its invariant, and what each of its operations does
to them. -/

namespace EspSqlite.Rollback

open Vfs (sqliteOk sqliteNomem)
open Probing

namespace Bitvec

/-- The bit is set; bits are numbered from zero here. -/
def Has : Bitvec → (i : Nat) → Prop
  | .null, _ => False
  | .bitmap _ aBitmap, i => (aBitmap (i / 8)).toBitVec.getLsbD (i % 8) = true
  | .hash _ _ aHash, i => Held bitvecNint aHash (i + 1)
  | .divided _ iDivisor apSub, i => (apSub (i / iDivisor)).Has (i % iDivisor)

structure HashSound (size nSet : Nat) (aHash : Nat → Nat) : Prop where
  counted : nSet = (occupied bitvecNint aHash).card
  room : nSet < bitvecNint
  placed : Placed bitvecNint bitvecHash aHash
  inside : ∀ value, Held bitvecNint aHash value → value ≤ size

/-- The structure is one for `size` bits, and the view in use is the one for them. -/
def Sound : Bitvec → (size : Nat) → Prop
  | .null, _ => True
  | .bitmap iSize _, size => iSize = size ∧ size ≤ bitvecNbit
  | .hash iSize nSet aHash, size =>
      iSize = size ∧ bitvecNbit < size ∧ size + bitvecNptr ≤ 2 ^ 32 ∧ HashSound size nSet aHash
  | .divided iSize iDivisor apSub, size =>
      iSize = size ∧ bitvecNbit < size ∧ size + bitvecNptr ≤ 2 ^ 32 ∧
        iDivisor = (size + bitvecNptr - 1) / bitvecNptr ∧ ∀ bin, (apSub bin).Sound iDivisor

def need : Bitvec → Nat
  | .null => 1
  | .bitmap _ _ => 1
  | .hash iSize _ _ => 2 * iSize + 1
  | .divided iSize _ _ => 2 * iSize

end Bitvec

theorem bitvecNelem_eq : bitvecNelem = 500 := rfl

theorem bitvecNbit_eq : bitvecNbit = 4000 := rfl

theorem bitvecNptr_eq : bitvecNptr = 125 := rfl

theorem bitvecHash_lt (value : Nat) : bitvecHash value < bitvecNint := Nat.mod_lt _ (by decide)

namespace Bitvec

variable {p : Bitvec} {size i : Nat}

theorem Sound.iSize_eq (sound : p.Sound size) (shown : p.isNull = false) : p.iSize = size := by
  cases p with
  | null => cases shown
  | bitmap iSize aBitmap => exact sound.1
  | hash iSize nSet aHash => exact sound.1
  | divided iSize iDivisor apSub => exact sound.1

theorem Sound.need_le (sound : p.Sound size) : p.need ≤ 2 * size + 1 := by
  cases p with
  | null => exact Nat.le_add_left 1 _
  | bitmap iSize aBitmap => exact Nat.le_add_left 1 _
  | hash iSize nSet aHash => rw [need, sound.1]
  | divided iSize iDivisor apSub =>
      rw [need, sound.1]
      exact Nat.le_succ _

theorem HashSound.empty (size : Nat) : HashSound size 0 fun _ => 0 where
  counted := by rw [occupied_empty, Finset.card_empty]
  room := by decide
  placed := Placed.empty _ _
  inside := fun _ held => absurd held not_held_empty

theorem create_sound (small : size + bitvecNptr ≤ 2 ^ 32) : (create size).Sound size := by
  rw [create]
  split
  · rename_i within
    exact ⟨rfl, within⟩
  · rename_i beyond
    exact ⟨rfl, Nat.lt_of_not_le beyond, small, HashSound.empty size⟩

theorem create_isNull (size : Nat) : (create size).isNull = false := by
  rw [create]
  split <;> rfl

theorem not_has_create : ¬(create size).Has i := by
  rw [create]
  split
  · simp [Has]
  · exact not_held_empty

/-! ## Divisions -/

structure Binned (size iDivisor i : Nat) : Prop where
  bin : i / iDivisor < bitvecNptr
  inside : i % iDivisor < iDivisor
  smaller : iDivisor < size
  small : iDivisor + bitvecNptr ≤ 2 ^ 32

theorem binned (large : bitvecNbit < size) (small : size + bitvecNptr ≤ 2 ^ 32)
    (within : i < size) :
    Binned size ((size + bitvecNptr - 1) / bitvecNptr) i := by
  rw [bitvecNbit_eq] at large
  rw [bitvecNptr_eq] at small ⊢
  have positive : 0 < (size + 125 - 1) / 125 := by omega
  have covers : size ≤ (size + 125 - 1) / 125 * 125 := by omega
  constructor
  · rw [bitvecNptr_eq, Nat.div_lt_iff_lt_mul positive, Nat.mul_comm]
    omega
  · exact Nat.mod_lt _ positive
  · omega
  · rw [bitvecNptr_eq]
    omega

theorem same_place {iDivisor j : Nat} :
    j / iDivisor = i / iDivisor ∧ j % iDivisor = i % iDivisor ↔ j = i := by
  constructor
  · rintro ⟨bin, inBin⟩
    rw [← Nat.div_add_mod j iDivisor, bin, inBin, Nat.div_add_mod]
  · rintro rfl
    exact ⟨rfl, rfl⟩

theorem has_divided_update {iSize iDivisor j : Nat} {apSub : Nat → Bitvec} {sub : Bitvec} :
    (divided iSize iDivisor (Function.update apSub (i / iDivisor) sub)).Has j ↔
      if j / iDivisor = i / iDivisor then sub.Has (j % iDivisor)
      else (divided iSize iDivisor apSub).Has j := by
  rw [Has, Has, Function.update_apply]
  split <;> rfl

theorem Sound.divided_update {iSize iDivisor : Nat} {apSub : Nat → Bitvec} {sub : Bitvec}
    (sound : (divided iSize iDivisor apSub).Sound size) (subSound : sub.Sound iDivisor) :
    (divided iSize iDivisor (Function.update apSub (i / iDivisor) sub)).Sound size := by
  rcases sound with ⟨isSize, large, small, isDivisor, subs⟩
  refine ⟨isSize, large, small, isDivisor, fun bin => ?_⟩
  rw [Function.update_apply]
  split
  · exact subSound
  · exact subs bin

/-! ## Testing -/

theorem bitvecTest_iff (sound : p.Sound size) (within : i < size) :
    ∃ answer, bitvecTest p i = some answer ∧ (answer = true ↔ p.Has i) := by
  induction p generalizing size i with
  | null => exact ⟨false, rfl, iff_of_false Bool.false_ne_true id⟩
  | bitmap iSize aBitmap =>
      have limit := sound.2
      rw [bitvecNbit_eq] at limit
      have element : i / 8 < bitvecNelem := by
        rw [bitvecNelem_eq]
        omega
      refine ⟨_, by rw [bitvecTest, if_pos element], ?_⟩
      rw [and_bitOf, Has]
  | hash iSize nSet aHash =>
      rcases sound with ⟨_, _, _, hashSound⟩
      rcases hashSound.placed.find (Nat.succ_ne_zero i) (bitvecHash_lt _)
        (hashSound.counted ▸ hashSound.room) with ⟨count, _, found, _, held, absent⟩
      refine ⟨_, by rw [bitvecTest, found, Option.map_some], ?_⟩
      rw [beq_iff_eq, Has]
      constructor
      · intro isKey
        apply by_contra
        intro notHeld
        rw [absent notHeld] at isKey
        exact Nat.succ_ne_zero i isKey.symm
      · exact held
  | divided iSize iDivisor apSub induction =>
      rcases sound with ⟨_, large, small, rfl, subs⟩
      have place := binned large small within
      rw [bitvecTest, if_pos place.bin]
      exact induction _ (subs _) place.inside

/-! ## Setting -/

/-- What setting a bit does: where it returns an error, bits may be lost. -/
structure Sets (mallocs : Nat → Bool) (size i : Nat) (p : Bitvec) (rc : Nat) (p' : Bitvec) :
    Prop where
  sound : p'.Sound size
  shown : p'.isNull = false
  need_le : p'.need ≤ p.need
  code : rc = sqliteOk ∨ rc = sqliteNomem
  noMore : ∀ j < size, p'.Has j → j = i ∨ p.Has j
  noLess : rc = sqliteOk → ∀ j < size, j = i ∨ p.Has j → p'.Has j
  allocated : (∀ call, mallocs call = true) → rc = sqliteOk

variable {mallocs : Nat → Bool}

theorem Sets.unchanged (sound : p.Sound size) (shown : p.isNull = false) (has : p.Has i) :
    Sets mallocs size i p sqliteOk p where
  sound := sound
  shown := shown
  need_le := Nat.le_refl _
  code := Or.inl rfl
  noMore := fun _ _ isSet => Or.inr isSet
  noLess := by
    rintro _ j _ (rfl | isSet)
    · exact has
    · exact isSet
  allocated := fun _ => rfl

theorem Sets.failed (sound : p.Sound size) (shown : p.isNull = false) {call : Nat}
    (fails : mallocs call = false) : Sets mallocs size i p sqliteNomem p where
  sound := sound
  shown := shown
  need_le := Nat.le_refl _
  code := Or.inr rfl
  noMore := fun _ _ isSet => Or.inr isSet
  noLess := fun isOk => absurd isOk (by decide)
  allocated := by
    intro all
    rw [all call] at fails
    cases fails

theorem sets_bitmap {iSize : Nat} {aBitmap : Nat → UInt8}
    (sound : (bitmap iSize aBitmap).Sound size) :
    Sets mallocs size i (bitmap iSize aBitmap) sqliteOk
      (bitmap iSize (Function.update aBitmap (i / 8) (aBitmap (i / 8) ||| bitOf i))) := by
  have bits : ∀ j, (bitmap iSize
      (Function.update aBitmap (i / 8) (aBitmap (i / 8) ||| bitOf i))).Has j ↔
        j = i ∨ (bitmap iSize aBitmap).Has j := by
    intro j
    rw [Has, Has, ← same_place (i := i) (j := j), Function.update_apply]
    by_cases sameByte : j / 8 = i / 8
    · rw [if_pos sameByte, UInt8.toBitVec_or, BitVec.getLsbD_or, getLsbD_bitOf, Bool.or_eq_true,
        decide_eq_true_eq, sameByte, or_comm, eq_comm (a := i % 8), and_iff_right rfl]
    · rw [if_neg sameByte, or_iff_right fun same => sameByte same.1]
  exact {
    sound := sound
    shown := rfl
    need_le := Nat.le_refl _
    code := Or.inl rfl
    noMore := fun j _ => (bits j).mp
    noLess := fun _ j _ => (bits j).mpr
    allocated := fun _ => rfl }

section Hash

variable {iSize nSet : Nat} {aHash : Nat → Nat}

theorem sets_hash (sound : (hash iSize nSet aHash).Sound size) (within : i < size)
    (notFull : nSet < bitvecNint - 1) (absent : ¬Held bitvecNint aHash (i + 1)) {count slot : Nat}
    (inRange : count < bitvecNint)
    (passed : Passed bitvecNint aHash (bitvecHash (i + 1)) count)
    (isSlot : slot = around bitvecNint (bitvecHash (i + 1)) count) (free : aHash slot = 0) :
    Sets mallocs size i (hash iSize nSet aHash) sqliteOk
      (hash iSize (nSet + 1) (Function.update aHash slot (i + 1))) := by
  rcases sound with ⟨isSize, large, small, hashSound⟩
  have inTable : slot < bitvecNint := by
    rw [isSlot]
    exact around_lt (by decide) _ _
  have shown : i + 1 ≠ 0 := Nat.succ_ne_zero i
  have held : ∀ value, Held bitvecNint (Function.update aHash slot (i + 1)) value ↔
      value = i + 1 ∨ Held bitvecNint aHash value := fun value => held_update shown inTable free
  have bits : ∀ j, Held bitvecNint (Function.update aHash slot (i + 1)) (j + 1) ↔
      j = i ∨ Held bitvecNint aHash (j + 1) := by
    intro j
    rw [held, Nat.succ_inj]
  have placed : Placed bitvecNint bitvecHash (Function.update aHash slot (i + 1)) := by
    rw [isSlot] at free ⊢
    exact hashSound.placed.store shown (bitvecHash_lt _) absent inRange passed free
  exact {
    sound := ⟨isSize, large, small, {
      counted := by rw [occupied_update shown inTable free, hashSound.counted]
      room := by omega
      placed := placed
      inside := by
        intro value isHeld
        rcases (held value).mp isHeld with rfl | before
        · exact within
        · exact hashSound.inside value before }⟩
    shown := rfl
    need_le := Nat.le_refl _
    code := Or.inl rfl
    noMore := fun j _ => (bits j).mp
    noLess := fun _ j _ => (bits j).mpr
    allocated := fun _ => rfl }

end Hash

structure SetsAll (mallocs : Nat → Bool) (size : Nat) (values : List Nat) (rc : Nat) (p : Bitvec)
    (rc' : Nat) (p' : Bitvec) : Prop where
  sound : p'.Sound size
  shown : p'.isNull = false
  need_le : p'.need ≤ p.need
  code : rc' = sqliteOk ∨ rc' = sqliteNomem
  noMore : ∀ j < size, p'.Has j → j + 1 ∈ values ∨ p.Has j
  noLess : rc' = sqliteOk → rc = sqliteOk ∧ ∀ j < size, j + 1 ∈ values ∨ p.Has j → p'.Has j
  allocated : (∀ call, mallocs call = true) → rc = sqliteOk → rc' = sqliteOk

def SetsWith (mallocs : Nat → Bool) (fuel : Nat) : Prop :=
  ∀ (calls : Nat) {size i : Nat} {p : Bitvec}, p.Sound size → p.isNull = false →
    p.need ≤ fuel → i < size →
      ∃ rc p' calls', bitvecSet mallocs fuel calls p i = some (rc, p', calls') ∧
        Sets mallocs size i p rc p'

theorem or_code {rc rc' : Nat} (code : rc = sqliteOk ∨ rc = sqliteNomem)
    (code' : rc' = sqliteOk ∨ rc' = sqliteNomem) :
    (rc ||| rc' = sqliteOk ∨ rc ||| rc' = sqliteNomem) ∧
      (rc ||| rc' = sqliteOk ↔ rc = sqliteOk ∧ rc' = sqliteOk) := by
  rcases code with rfl | rfl <;> rcases code' with rfl | rfl <;> decide

theorem SetsWith.foldlM {fuel : Nat} (setsWith : SetsWith mallocs fuel) {values : List Nat}
    (inside : ∀ value ∈ values, value ≠ 0 ∧ value ≤ size) {rc : Nat} (calls : Nat)
    (sound : p.Sound size)
    (shown : p.isNull = false) (enough : p.need ≤ fuel)
    (code : rc = sqliteOk ∨ rc = sqliteNomem) :
    ∃ rc' p' calls', values.foldlM (fun (rc, p, calls) value =>
        (bitvecSet mallocs fuel calls p (value - 1)).map fun (rc', p, calls) =>
          (rc ||| rc', p, calls)) (rc, p, calls) = some (rc', p', calls') ∧
      SetsAll mallocs size values rc p rc' p' := by
  induction values generalizing rc p calls with
  | nil =>
      refine ⟨rc, p, calls, rfl, sound, shown, Nat.le_refl _, code, fun _ _ => Or.inr, ?_,
        fun _ isOk => isOk⟩
      intro isOk
      exact ⟨isOk, fun j _ has => has.resolve_left List.not_mem_nil⟩
  | cons value rest induction =>
      rcases inside value List.mem_cons_self with ⟨isValue, bounded⟩
      have inRange : value - 1 < size := by omega
      rcases setsWith calls sound shown enough inRange with
        ⟨rcOne, pOne, callsOne, isOne, one⟩
      rcases or_code code one.code with ⟨both, bothOk⟩
      rcases induction (fun other member => inside other (List.mem_cons_of_mem _ member)) callsOne
        one.sound one.shown
        (Nat.le_trans one.need_le enough) both with ⟨rc', p', calls', isRest, all⟩
      refine ⟨rc', p', calls', ?_, all.sound, all.shown, Nat.le_trans all.need_le one.need_le,
        all.code, ?_, ?_, ?_⟩
      · rw [List.foldlM_cons]
        simp only [isOne, Option.map_some]
        exact isRest
      · intro j within has
        rcases all.noMore j within has with inRest | hasOne
        · exact Or.inl (List.mem_cons_of_mem _ inRest)
        · rcases one.noMore j within hasOne with rfl | before
          · rw [Nat.sub_add_cancel (Nat.one_le_iff_ne_zero.mpr isValue)]
            exact Or.inl List.mem_cons_self
          · exact Or.inr before
      · intro isOk
        rcases all.noLess isOk with ⟨bothOk', keeps⟩
        rcases bothOk.mp bothOk' with ⟨first, second⟩
        refine ⟨first, fun j within has => keeps j within ?_⟩
        rcases has with member | before
        · rcases List.mem_cons.mp member with rfl | inRest
          · exact Or.inr (one.noLess second j within (Or.inl rfl))
          · exact Or.inl inRest
        · exact Or.inr (one.noLess second j within (Or.inr before))
      · intro allocates isOk
        exact all.allocated allocates (bothOk.mpr ⟨isOk, one.allocated allocates⟩)

theorem SetsWith.rehash {fuel iSize nSet calls : Nat} {aHash : Nat → Nat}
    (setsWith : SetsWith mallocs fuel) (sound : (hash iSize nSet aHash).Sound size)
    (within : i < size) (enough : 2 * size ≤ fuel) :
    ∃ rc p' calls',
      bitvecRehash mallocs (bitvecSet mallocs fuel) calls iSize nSet aHash i =
        some (rc, p', calls') ∧
      Sets mallocs size i (hash iSize nSet aHash) rc p' := by
  rw [bitvecRehash]
  cases fails : mallocs calls with
  | false => exact ⟨_, _, _, if_neg Bool.false_ne_true, Sets.failed sound rfl fails⟩
  | true =>
      rcases sound with ⟨rfl, large, small, hashSound⟩
      have noWrap : iSize + bitvecNptr - 1 < 2 ^ 32 := by
        rw [bitvecNptr_eq] at small ⊢
        omega
      have positive : (iSize + bitvecNptr - 1) / bitvecNptr ≠ 0 := by
        rw [bitvecNptr_eq]
        rw [bitvecNbit_eq] at large
        omega
      have sound : (divided iSize ((iSize + bitvecNptr - 1) / bitvecNptr)
          fun _ => null).Sound iSize := ⟨rfl, large, small, rfl, fun _ => trivial⟩
      have inside : ∀ value ∈ (i + 1) :: keys bitvecNint aHash, value ≠ 0 ∧ value ≤ iSize := by
        intro value member
        rcases List.mem_cons.mp member with rfl | isKey
        · exact ⟨Nat.succ_ne_zero i, within⟩
        · have held := mem_keys.mp isKey
          exact ⟨held.1, hashSound.inside value held⟩
      rcases setsWith.foldlM inside (calls + 1) sound rfl enough (Or.inl rfl) with
        ⟨rc, p', calls', isFold, all⟩
      refine ⟨rc, p', calls', ?_, all.sound, all.shown, ?_, all.code, ?_, ?_, ?_⟩
      · rw [if_pos rfl, Nat.mod_eq_of_lt noWrap, if_neg positive]
        exact isFold
      · exact Nat.le_trans all.need_le (Nat.le_succ _)
      · intro j isBit has
        rcases (all.noMore j isBit has).resolve_right id with member
        rcases List.mem_cons.mp member with same | isKey
        · exact Or.inl (Nat.succ_inj.mp same)
        · exact Or.inr (mem_keys.mp isKey)
      · intro isOk j isBit has
        apply (all.noLess isOk).2 j isBit
        rcases has with rfl | before
        · exact Or.inl List.mem_cons_self
        · exact Or.inl (List.mem_cons_of_mem _ (mem_keys.mpr before))
      · exact fun allocates => all.allocated allocates rfl

theorem SetsWith.hash {fuel iSize nSet calls : Nat} {aHash : Nat → Nat}
    (setsWith : SetsWith mallocs fuel) (sound : (hash iSize nSet aHash).Sound size)
    (within : i < size) (enough : 2 * size ≤ fuel) :
    ∃ rc p' calls',
      bitvecSet mallocs (fuel + 1) calls (hash iSize nSet aHash) i = some (rc, p', calls') ∧
      Sets mallocs size i (hash iSize nSet aHash) rc p' := by
  have hashSound : HashSound size nSet aHash := sound.2.2.2
  have inHome := bitvecHash_lt (i + 1)
  rcases hashSound.placed.find (Nat.succ_ne_zero i) inHome (hashSound.counted ▸ hashSound.room) with
    ⟨count, inRange, found, passed, held, absent⟩
  rw [bitvecSet]
  by_cases home : aHash (bitvecHash (i + 1)) = 0
  · -- the search does not pass its first slot, so the value is not there
    have first : count = 0 := by
      apply Nat.eq_zero_of_not_pos
      intro later
      apply passed 0 later
      rwa [around_zero inHome]
    rw [first, around_zero inHome] at held
    have notHeld : ¬Held bitvecNint aHash (i + 1) := by
      intro isHeld
      rw [held isHeld] at home
      exact Nat.succ_ne_zero i home
    have here : bitvecHash (i + 1) = around bitvecNint (bitvecHash (i + 1)) 0 :=
      (around_zero inHome).symm
    have none : Passed bitvecNint aHash (bitvecHash (i + 1)) 0 :=
      fun earlier before => absurd before (Nat.not_lt_zero earlier)
    rw [if_pos home]
    by_cases notFull : nSet < bitvecNint - 1
    · exact ⟨_, _, _, if_pos notFull,
        sets_hash sound within notFull notHeld (by decide) none here home⟩
    · have full : bitvecMxhash ≤ nSet := Nat.le_trans (by decide) (Nat.le_of_not_lt notFull)
      rw [if_neg notFull, if_pos full]
      exact setsWith.rehash sound within enough
  · rw [if_neg home, found, Option.bind_some]
    by_cases same : aHash (around bitvecNint (bitvecHash (i + 1)) count) = i + 1
    · rw [if_pos same]
      exact ⟨_, _, _, rfl, Sets.unchanged sound rfl
        ⟨Nat.succ_ne_zero i, _, around_lt (by decide) _ _, same⟩⟩
    · have notHeld : ¬Held bitvecNint aHash (i + 1) := fun isHeld => same (held isHeld)
      rw [if_neg same]
      by_cases full : bitvecMxhash ≤ nSet
      · rw [if_pos full]
        exact setsWith.rehash sound within enough
      · have notFull : nSet < bitvecNint - 1 :=
          Nat.lt_of_lt_of_le (Nat.lt_of_not_le full) (by decide)
        rw [if_neg full]
        exact ⟨_, _, _, rfl,
          sets_hash sound within notFull notHeld inRange passed rfl (absent notHeld)⟩

theorem SetsWith.divided {fuel iSize iDivisor calls : Nat} {apSub : Nat → Bitvec}
    (setsWith : SetsWith mallocs fuel) (sound : (divided iSize iDivisor apSub).Sound size)
    (within : i < size) (enough : 2 * size ≤ fuel + 1) :
    ∃ rc p' calls',
      bitvecSet mallocs (fuel + 1) calls (divided iSize iDivisor apSub) i =
        some (rc, p', calls') ∧
      Sets mallocs size i (divided iSize iDivisor apSub) rc p' := by
  have place : Binned size iDivisor i := by
    rw [sound.2.2.2.1]
    exact binned sound.2.1 sound.2.2.1 within
  have subs := sound.2.2.2.2
  have fewer := place.smaller
  rw [bitvecSet, if_pos place.bin]
  /- the bits of the bin are those of a structure that is there, or of a new one -/
  have setSub : ∀ {sub : Bitvec} {called : Nat}, sub.Sound iDivisor → sub.isNull = false →
      (∀ j, sub.Has j ↔ (apSub (i / iDivisor)).Has j) → ∃ rc p' calls',
        ((bitvecSet mallocs fuel called sub (i % iDivisor)).map fun (rc, sub, calls) =>
          (rc, Bitvec.divided iSize iDivisor (Function.update apSub (i / iDivisor) sub), calls)) =
            some (rc, p', calls') ∧
              Sets mallocs size i (Bitvec.divided iSize iDivisor apSub) rc p' := by
    intro sub called subSound shown same
    have subEnough : sub.need ≤ fuel := Nat.le_trans subSound.need_le (by omega)
    rcases setsWith called subSound shown subEnough place.inside with
      ⟨rc, sub', calls', isSet, sets⟩
    refine ⟨_, _, _, by rw [isSet, Option.map_some], sound.divided_update sets.sound, rfl,
      Nat.le_refl _, sets.code, ?_, ?_, sets.allocated⟩
    · intro j isBit has
      rw [has_divided_update] at has
      split at has
      · rename_i sameBin
        have inside : j % iDivisor < iDivisor := Nat.mod_lt _ (Nat.zero_lt_of_lt place.inside)
        rcases sets.noMore _ inside has with sameBit | before
        · exact Or.inl (same_place.mp ⟨sameBin, sameBit⟩)
        · rw [same, ← sameBin] at before
          exact Or.inr before
      · exact Or.inr has
    · intro isOk j isBit has
      rw [has_divided_update]
      split
      · rename_i sameBin
        apply sets.noLess isOk _ (Nat.mod_lt _ (Nat.zero_lt_of_lt place.inside))
        rcases has with rfl | before
        · exact Or.inl rfl
        · rw [Has, sameBin] at before
          exact Or.inr ((same _).mpr before)
      · rename_i apart
        exact has.resolve_left fun equal => apart (by rw [equal])
  cases isNull : (apSub (i / iDivisor)).isNull with
  | false =>
      simp only [isNull, Bool.false_eq_true, if_false]
      exact setSub (subs _) isNull fun _ => Iff.rfl
  | true =>
      have empty : ∀ j, ¬(apSub (i / iDivisor)).Has j := by
        intro j
        cases known : apSub (i / iDivisor) with
        | null => exact id
        | bitmap _ _ => rw [known] at isNull; cases isNull
        | hash _ _ _ => rw [known] at isNull; cases isNull
        | divided _ _ _ => rw [known] at isNull; cases isNull
      simp only [if_true, sqlite3BitvecCreate]
      cases fails : mallocs calls with
      | false =>
          exact ⟨_, _, _, rfl, Sets.failed sound rfl fails⟩
      | true =>
          simp only [if_true, create_isNull, Bool.false_eq_true, if_false]
          exact setSub (create_sound place.small) (create_isNull _) fun j =>
            iff_of_false not_has_create (empty j)

theorem setsWith (mallocs : Nat → Bool) (fuel : Nat) : SetsWith mallocs fuel := by
  induction fuel with
  | zero =>
      intro calls size i p sound shown enough within
      cases p with
      | null => cases shown
      | bitmap iSize aBitmap => exact absurd enough (Nat.not_succ_le_zero 0)
      | hash iSize nSet aHash => exact absurd enough (Nat.not_succ_le_zero _)
      | divided iSize iDivisor apSub =>
          rw [need, sound.1] at enough
          omega
  | succ fuel induction =>
      intro calls size i p sound shown enough within
      cases p with
      | null => cases shown
      | bitmap iSize aBitmap =>
          have limit := sound.2
          rw [bitvecNbit_eq] at limit
          have element : i / 8 < bitvecNelem := by
            rw [bitvecNelem_eq]
            omega
          exact ⟨_, _, _, by rw [bitvecSet, if_pos element], sets_bitmap sound⟩
      | hash iSize nSet aHash =>
          rw [need, sound.1] at enough
          exact induction.hash sound within (by omega)
      | divided iSize iDivisor apSub =>
          rw [need, sound.1] at enough
          exact induction.divided sound within enough

/-! ## Clearing -/

structure Clears (size i : Nat) (p p' : Bitvec) : Prop where
  sound : p'.Sound size
  isNull_eq : p'.isNull = p.isNull
  has_iff : ∀ j < size, p'.Has j ↔ j ≠ i ∧ p.Has j

theorem clears_bitmap {iSize : Nat} {aBitmap : Nat → UInt8}
    (sound : (bitmap iSize aBitmap).Sound size) :
    Clears size i (bitmap iSize aBitmap)
      (bitmap iSize (Function.update aBitmap (i / 8) (aBitmap (i / 8) &&& ~~~bitOf i))) where
  sound := sound
  isNull_eq := rfl
  has_iff := by
    intro j _
    rw [Has, Has, Ne, ← same_place (i := i) (j := j), Function.update_apply]
    by_cases sameByte : j / 8 = i / 8
    · have small : j % 8 < 8 := Nat.mod_lt j (by decide)
      rw [if_pos sameByte, UInt8.toBitVec_and, BitVec.getLsbD_and, UInt8.toBitVec_not,
        BitVec.getLsbD_not, getLsbD_bitOf, decide_eq_true small, sameByte]
      by_cases sameBit : i % 8 = j % 8
      · simp [sameBit]
      · simp [sameBit, Ne.symm sameBit]
    · rw [if_neg sameByte, and_iff_right fun same => sameByte same.1]

theorem clears_hash {iSize nSet : Nat} {aHash : Nat → Nat}
    (sound : (hash iSize nSet aHash).Sound size) :
    ∃ p', bitvecClear (hash iSize nSet aHash) i = some p' ∧
      Clears size i (hash iSize nSet aHash) p' := by
  rcases sound with ⟨isSize, large, small, hashSound⟩
  have known : ∀ value, value ∈ (keys bitvecNint aHash).filter (fun value => value ≠ i + 1) ↔
      value ≠ i + 1 ∧ Held bitvecNint aHash value := by
    intro value
    rw [List.mem_filter, mem_keys, decide_eq_true_eq, and_comm]
  have fewer : ((keys bitvecNint aHash).filter fun value => value ≠ i + 1).length < bitvecNint := by
    apply Nat.lt_of_le_of_lt (List.length_filter_le _ _)
    rw [length_keys, ← hashSound.counted]
    exact hashSound.room
  rcases (Placed.empty bitvecNint bitvecHash).foldlM (hashSound.placed.nodup_keys.filter _)
    (fun value member => ((known value).mp member).2.1) (fun value _ => bitvecHash_lt value)
    (fun _ _ => not_held_empty)
    (by
      rw [occupied_empty, Finset.card_empty, Nat.zero_add]
      exact Nat.le_of_lt fewer) with ⟨table, isTable, placed, held, card⟩
  rw [occupied_empty, Finset.card_empty, Nat.zero_add] at card
  have tableSound : HashSound size
      ((keys bitvecNint aHash).filter fun value => value ≠ i + 1).length table := {
    counted := card.symm
    room := fewer
    placed := placed
    inside := by
      intro value isHeld
      have member := ((held value).mp isHeld).resolve_right not_held_empty
      exact hashSound.inside value ((known value).mp member).2 }
  refine ⟨hash iSize ((keys bitvecNint aHash).filter fun value => value ≠ i + 1).length table,
    by rw [bitvecClear, isTable, Option.map_some], ⟨isSize, large, small, tableSound⟩, rfl, ?_⟩
  intro j _
  rw [Has, Has, held, or_iff_left not_held_empty, known, Ne, Ne, Nat.succ_inj]

theorem bitvecClear_clears (sound : p.Sound size) (within : i < size) :
    ∃ p', bitvecClear p i = some p' ∧ Clears size i p p' := by
  induction p generalizing size i with
  | null =>
      exact ⟨.null, rfl, trivial, rfl, fun j _ => iff_of_false id fun both => both.2⟩
  | bitmap iSize aBitmap =>
      have limit := sound.2
      rw [bitvecNbit_eq] at limit
      have element : i / 8 < bitvecNelem := by
        rw [bitvecNelem_eq]
        omega
      exact ⟨_, by rw [bitvecClear, if_pos element], clears_bitmap sound⟩
  | hash iSize nSet aHash => exact clears_hash sound
  | divided iSize iDivisor apSub induction =>
      have place : Binned size iDivisor i := by
        rw [sound.2.2.2.1]
        exact binned sound.2.1 sound.2.2.1 within
      rcases induction _ (sound.2.2.2.2 (i / iDivisor)) place.inside with ⟨sub, isClear, clears⟩
      refine ⟨_, by rw [bitvecClear, if_pos place.bin, isClear, Option.map_some],
        sound.divided_update clears.sound, rfl, ?_⟩
      intro j _
      rw [has_divided_update]
      split
      · rename_i sameBin
        rw [clears.has_iff _ (Nat.mod_lt _ (Nat.zero_lt_of_lt place.inside)), Has, sameBin, Ne, Ne,
          ← same_place (i := i) (j := j), and_iff_right sameBin]
      · rename_i apart
        rw [and_iff_right]
        rintro rfl
        exact apart rfl

end Bitvec

end EspSqlite.Rollback
