import EspSqlite.Shox96.Cost

/-! # The cost of a literal

What a character costs with the switches of state before it. The four bits that
leave a state are charged where it is entered, so that the charge depends on the
states before the character and on the text ahead alone. -/

namespace EspSqlite.Shox96

open BitMemory

structure States where
  inDigits : Bool
  mayBeInDigits : Bool
  inCaps : Bool
  surelyInCaps : Bool

/-- The bits of a literal, with the four bits that leave a state charged where it is
entered. -/
def literalBits (text : List UInt8) (index : Nat) (states : States) : Nat :=
  let c := byteAt text index
  if crlfAhead text index then 9
  else if isDigit c then
    (if states.inDigits then 0 else 7 + 4) + (l_95.getD (c - 32).toNat 0 - 7)
  else if isUpper c then
    if capsScan text index 6 = 0 then
      (if states.inCaps then 0 else 8 + 4) + l_95.getD ((c - 32).toNat + 32) 0
    else l_95.getD ((c - 32).toNat + if states.surelyInCaps then 32 else 0) 0
  else if c = 32 then if states.mayBeInDigits && inSet2 (digitProbe text index) then 11 else 3
  else if 32 < c ∧ c ≤ 126 then l_95.getD (c - 32).toNat 0
  else if c = 10 then 9
  else if c = 13 then 13
  else if c = 9 then 7
  else 0

/-! ## Switches -/

def Mode.states (mode : Mode) : States :=
  ⟨mode.state = .state2, mode.state = .state2, mode.isAllUpper, mode.isAllUpper⟩

def Mode.pending (mode : Mode) : Nat :=
  (if mode.state = .state2 then 4 else 0) + if mode.isAllUpper then 4 else 0

def literalMode (text : List UInt8) (l : Nat) (mode : Mode) : Mode where
  state :=
    if isDigit (byteAt text l) ∨ (mode.state = .state2 ∧ inSet2 (digitProbe text l)) then .state2
    else .state1
  isAllUpper := isUpper (byteAt text l) && (mode.isAllUpper || capsScan text l 6 == 0)

def entryBits (text : List UInt8) (l : Nat) (mode : Mode) : Nat :=
  (if isUpper (byteAt text l) ∧ mode.isAllUpper = false ∧ capsScan text l 6 = 0 then 12 else 0) +
    if (mode.state = .state1 ∨ inSet2 (digitProbe text l) = false) ∧ isDigit (byteAt text l)
      then 11 else 0

theorem symsCost_append (mode : Mode) (left right : List Sym) :
    symsCost mode (left ++ right) = symsCost mode left + symsCost (symsMode mode left) right := by
  rw [← symsBits_length, symsBits_append, List.length_append, symsBits_length, symsBits_length]

section Literal

variable (text : List UInt8) (l : Nat) (mode : Mode)

private theorem leaveDigitsSyms_cost :
    symsMode mode (leaveDigitsSyms text l mode) =
        { mode with state :=
            if mode.state = .state2 ∧ inSet2 (digitProbe text l) then .state2 else .state1 } ∧
      symsCost mode (leaveDigitsSyms text l mode) +
        (symsMode mode (leaveDigitsSyms text l mode)).pending = mode.pending := by
  rcases mode with ⟨_ | _, caps⟩
  · simp [leaveDigitsSyms, symsCost]
  · cases known : inSet2 (digitProbe text l) <;>
      simp [leaveDigitsSyms, known, symsCost, Sym.cost, Sym.next, Mode.pending]

private theorem leaveCapsSyms_cost :
    symsMode mode (leaveCapsSyms text l mode) =
        { mode with isAllUpper := mode.isAllUpper && isUpper (byteAt text l) } ∧
      symsCost mode (leaveCapsSyms text l mode) +
        (symsMode mode (leaveCapsSyms text l mode)).pending = mode.pending := by
  rcases mode with ⟨state, _ | _⟩
  · simp [leaveCapsSyms, symsCost]
  · cases upper : isUpper (byteAt text l) <;>
      simp [leaveCapsSyms, upper, symsCost, Sym.cost, Sym.next, Mode.pending]
    omega

private theorem enterCapsSyms_cost :
    symsMode mode (enterCapsSyms text l mode) =
        { mode with isAllUpper := mode.isAllUpper ||
            (isUpper (byteAt text l) && capsScan text l 6 == 0) } ∧
      symsCost mode (enterCapsSyms text l mode) +
          (symsMode mode (enterCapsSyms text l mode)).pending =
        mode.pending + if isUpper (byteAt text l) ∧ mode.isAllUpper = false ∧
          capsScan text l 6 = 0 then 12 else 0 := by
  rcases mode with ⟨state, _ | _⟩
  · cases upper : isUpper (byteAt text l) <;> by_cases scan : capsScan text l 6 = 0 <;>
      simp [enterCapsSyms, upper, scan, symsCost, Sym.cost, Sym.next, Mode.pending]
    omega
  · simp [enterCapsSyms, symsCost]

private theorem enterDigitsSyms_cost :
    symsMode mode (enterDigitsSyms text l mode) =
        { mode with state :=
            if mode.state = .state2 ∨ isDigit (byteAt text l) then .state2 else .state1 } ∧
      symsCost mode (enterDigitsSyms text l mode) +
          (symsMode mode (enterDigitsSyms text l mode)).pending =
        mode.pending + if mode.state = .state1 ∧ isDigit (byteAt text l) then 11 else 0 := by
  rcases mode with ⟨_ | _, caps⟩
  · cases digit : isDigit (byteAt text l) <;>
      simp [enterDigitsSyms, digit, symsCost, Sym.cost, Sym.next, Mode.pending, codeCost]
    omega
  · simp [enterDigitsSyms, symsCost]

private theorem switchSyms_cost :
    symsMode mode (switchSyms text l mode) = literalMode text l mode ∧
      symsCost mode (switchSyms text l mode) + (literalMode text l mode).pending =
        mode.pending + entryBits text l mode := by
  let mode1 := symsMode mode (leaveDigitsSyms text l mode)
  let mode2 := symsMode mode1 (leaveCapsSyms text l mode1)
  let mode3 := symsMode mode2 (enterCapsSyms text l mode2)
  rcases leaveDigitsSyms_cost text l mode with ⟨isMode1, cost1⟩
  rcases leaveCapsSyms_cost text l mode1 with ⟨isMode2, cost2⟩
  rcases enterCapsSyms_cost text l mode2 with ⟨isMode3, cost3⟩
  rcases enterDigitsSyms_cost text l mode3 with ⟨isMode4, cost4⟩
  change mode1 = _ at isMode1
  change mode2 = _ at isMode2
  change mode3 = _ at isMode3
  have isMode : symsMode mode3 (enterDigitsSyms text l mode3) = literalMode text l mode := by
    rw [isMode4, isMode3, isMode2, isMode1, literalMode]
    rcases mode with ⟨state, caps⟩
    cases state <;> cases caps <;> cases isUpper (byteAt text l) <;>
      cases inSet2 (digitProbe text l) <;> cases isDigit (byteAt text l) <;> simp
  have entersCaps : (isUpper (byteAt text l) = true ∧ mode2.isAllUpper = false ∧
      capsScan text l 6 = 0) = (isUpper (byteAt text l) = true ∧ mode.isAllUpper = false ∧
      capsScan text l 6 = 0) := by
    rw [isMode2, isMode1]
    cases isUpper (byteAt text l) <;> simp
  have entersDigits : (mode3.state = .state1 ∧ isDigit (byteAt text l) = true) =
      ((mode.state = .state1 ∨ inSet2 (digitProbe text l) = false) ∧
        isDigit (byteAt text l) = true) := by
    rw [isMode3, isMode2, isMode1]
    cases mode.state <;> cases inSet2 (digitProbe text l) <;> simp
  rw [isMode] at cost4
  simp only [entersCaps] at cost3
  simp only [entersDigits] at cost4
  change _ + mode1.pending = _ at cost1
  change _ + mode2.pending = _ at cost2
  change _ + mode3.pending = _ at cost3
  simp only [switchSyms, chainSyms, List.append_nil, symsCost_append, symsMode_append, entryBits]
  refine ⟨isMode, ?_⟩
  change symsCost mode (leaveDigitsSyms text l mode) +
    (symsCost mode1 (leaveCapsSyms text l mode1) + (symsCost mode2 (enterCapsSyms text l mode2) +
      symsCost mode3 (enterDigitsSyms text l mode3))) + _ = _
  omega

end Literal

/-! ## Characters -/

theorem digit_facts : ∀ c : UInt8, isDigit c = true →
    isUpper c = false ∧ inSet2 c = true ∧ c ≠ 13 ∧ c ≠ 32 ∧ 32 ≤ c ∧ c ≤ 126 ∧
      (c - 32).toNat ≠ 0 ∧ c_95.getD (c - 32).toNat 0 >>> 9 = 0x1C :=
  forall_byte (by decide +kernel)

theorem upper_facts : ∀ c : UInt8, isUpper c = true →
    inSet2 c = false ∧ c ≠ 13 ∧ c ≠ 32 ∧ 32 ≤ c ∧ c ≤ 126 ∧ isDigit c = false ∧
      (c - 32).toNat ≠ 0 ∧ c_95.getD (c - 32).toNat 0 >>> 9 ≠ 0x1C ∧
      l_95.getD (c - 32).toNat 0 = l_95.getD ((c - 32).toNat + 32) 0 + 4 :=
  forall_byte (by decide +kernel)

/-- Only the codes of digits have the prefix of the digit state. -/
private theorem other_facts : ∀ c : UInt8,
    isDigit c = false ∧ c ≠ 32 ∧ 32 ≤ c ∧ c ≤ 126 →
    c ≠ 13 ∧ 32 < c ∧ (c - 32).toNat ≠ 0 ∧ c_95.getD (c - 32).toNat 0 >>> 9 ≠ 0x1C :=
  forall_byte (by decide +kernel)

theorem digitProbe_of_ne {text : List UInt8} {l : Nat} (notSpace : byteAt text l ≠ 32) :
    digitProbe text l = byteAt text l := by
  rw [digitProbe, if_neg fun space => notSpace space.1]

theorem charSyms_of_printable {text : List UInt8} {l : Nat} (notReturn : byteAt text l ≠ 13)
    (printable : 32 ≤ byteAt text l ∧ byteAt text l ≤ 126) :
    charSyms text l = [.char (byteAt text l)] := by
  have noCrlf : crlfAhead text l = false := by
    rw [crlfAhead, beq_eq_false_iff_ne.mpr notReturn, Bool.false_and, Bool.false_and]
  have isSupported : supported (byteAt text l) = true := by
    simp [supported, printable]
  rw [charSyms, noCrlf, isSupported]
  rfl

section Characters

variable {text : List UInt8} {l : Nat} (mode : Mode)

private theorem charCost_of_not_upper {c : UInt8} (printable : 32 ≤ c ∧ c ≤ 126)
    (notUpper : isUpper c = false) :
    charCost mode c = if (c - 32).toNat = 0 ∧ mode.state = .state2 then 11
      else codeCost (c_95.getD (c - 32).toNat 0) (l_95.getD (c - 32).toNat 0) mode.state := by
  rw [charCost, if_pos printable, notUpper, Bool.and_false, if_neg Bool.false_ne_true, Nat.add_zero]

private theorem digit_cost (digit : isDigit (byteAt text l) = true) :
    symsCost (literalMode text l mode) (charSyms text l) + entryBits text l mode =
      literalBits text l mode.states := by
  rcases digit_facts _ digit with
    ⟨notUpper, inSet, notReturn, notSpace, printable, ascii, notZero, prefixed⟩
  have noCrlf : crlfAhead text l = false := by
    rw [crlfAhead, beq_eq_false_iff_ne.mpr notReturn, Bool.false_and, Bool.false_and]
  have inDigits : (literalMode text l mode).state = .state2 := if_pos (Or.inl digit)
  rw [charSyms_of_printable notReturn ⟨printable, ascii⟩, symsCost, symsCost, Sym.cost,
    charCost_of_not_upper _ ⟨printable, ascii⟩ notUpper, if_neg fun both => notZero both.1,
    codeCost, if_pos ⟨inDigits, prefixed⟩, literalBits, noCrlf, entryBits,
    digitProbe_of_ne notSpace]
  simp only [digit, notUpper, inSet, Bool.false_eq_true, Bool.true_eq_false, false_and, if_false,
    if_true, or_false, and_true, Mode.states]
  rcases mode with ⟨_ | _, caps⟩ <;> simp [Nat.add_comm]

private theorem upper_cost (upper : isUpper (byteAt text l) = true) :
    symsCost (literalMode text l mode) (charSyms text l) + entryBits text l mode =
      literalBits text l mode.states := by
  rcases upper_facts _ upper with
    ⟨notSet, notReturn, notSpace, printable, ascii, notDigit, notZero, notPrefixed, lower⟩
  have noCrlf : crlfAhead text l = false := by
    rw [crlfAhead, beq_eq_false_iff_ne.mpr notReturn, Bool.false_and, Bool.false_and]
  have outside : (literalMode text l mode).state = .state1 := by
    rw [literalMode, digitProbe_of_ne notSpace, notDigit, notSet]
    simp
  rw [charSyms_of_printable notReturn ⟨printable, ascii⟩, symsCost, symsCost, Sym.cost, charCost,
    if_pos ⟨printable, ascii⟩, outside, literalBits, noCrlf, entryBits, literalMode, upper,
    notDigit]
  simp only [codeCost, reduceCtorEq, false_and, if_false, Bool.and_true, Mode.states, lower]
  by_cases scan : capsScan text l 6 = 0
  · rcases mode with ⟨state, _ | _⟩ <;> simp [scan]
    omega
  · rcases mode with ⟨state, _ | _⟩
    · simp [scan]
    · simp [scan]

private theorem space_cost (space : byteAt text l = 32) :
    symsCost (literalMode text l mode) (charSyms text l) + entryBits text l mode =
      literalBits text l mode.states := by
  have noCrlf : crlfAhead text l = false := by
    rw [crlfAhead, space]
    rfl
  rw [charSyms_of_printable (by rw [space]; decide) (by rw [space]; decide), symsCost, symsCost,
    Sym.cost, charCost_of_not_upper _ (by rw [space]; decide) (by rw [space]; decide), literalBits,
    noCrlf, entryBits, literalMode, space]
  have noDigit : isDigit 32 = false := rfl
  have noUpper : isUpper 32 = false := rfl
  simp [noDigit, noUpper, Mode.states, codeCost]
  cases mode.state <;> cases inSet2 (digitProbe text l) <;> simp <;> decide

private theorem other_cost (notDigit : isDigit (byteAt text l) = false)
    (notUpper : isUpper (byteAt text l) = false) (notSpace : byteAt text l ≠ 32) :
    symsCost (literalMode text l mode) (charSyms text l) + entryBits text l mode =
      literalBits text l mode.states := by
  have noEntry : entryBits text l mode = 0 := by
    simp [entryBits, notDigit, notUpper]
  rw [noEntry, literalBits, notDigit, notUpper, if_neg notSpace, if_neg Bool.false_ne_true,
    if_neg Bool.false_ne_true]
  by_cases printable : 32 ≤ byteAt text l ∧ byteAt text l ≤ 126
  · rcases other_facts _ ⟨notDigit, notSpace, printable⟩ with
      ⟨notReturn, above, notZero, notPrefixed⟩
    have noCrlf : crlfAhead text l = false := by
      rw [crlfAhead, beq_eq_false_iff_ne.mpr notReturn, Bool.false_and, Bool.false_and]
    rw [charSyms_of_printable notReturn printable, symsCost, symsCost, Sym.cost,
      charCost_of_not_upper _ printable notUpper, if_neg fun both => notZero both.1, codeCost,
      if_neg fun both => notPrefixed both.2, noCrlf, if_neg Bool.false_ne_true,
      if_pos ⟨above, printable.2⟩]
    rfl
  · have notAbove : ¬(32 < byteAt text l ∧ byteAt text l ≤ 126) :=
      fun both => printable ⟨UInt8.le_of_lt both.1, both.2⟩
    have unprinted : (decide (32 ≤ byteAt text l) && decide (byteAt text l ≤ 126)) = false := by
      simpa using printable
    rw [charSyms, supported, unprinted, if_neg notAbove]
    cases crlfAhead text l
    · by_cases feed : byteAt text l = 10
      · simp [feed, symsCost, Sym.cost, charCost]
      · by_cases isReturn : byteAt text l = 13
        · simp [isReturn, symsCost, Sym.cost, charCost]
        · by_cases tab : byteAt text l = 9
          · simp [tab, symsCost, Sym.cost, charCost]
          · simp [feed, isReturn, tab, symsCost]
    · rfl

end Characters

theorem literalSyms_cost (text : List UInt8) (l : Nat) (mode : Mode) :
    symsMode mode (literalSyms text l mode) = literalMode text l mode ∧
      symsCost mode (literalSyms text l mode) + (literalMode text l mode).pending =
        mode.pending + literalBits text l mode.states := by
  rcases switchSyms_cost text l mode with ⟨isMode, switched⟩
  have char : symsCost (literalMode text l mode) (charSyms text l) + entryBits text l mode =
      literalBits text l mode.states := by
    cases digit : isDigit (byteAt text l)
    · cases upper : isUpper (byteAt text l)
      · by_cases space : byteAt text l = 32
        · exact space_cost mode space
        · exact other_cost mode digit upper space
      · exact upper_cost mode upper
    · exact digit_cost mode digit
  rw [literalSyms, symsMode_append, symsCost_append, isMode, symsMode_charSyms]
  exact ⟨rfl, by omega⟩

end EspSqlite.Shox96
