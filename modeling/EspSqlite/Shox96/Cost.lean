import EspSqlite.Shox96.Lockstep

/-! # The size of the output

The number of bits each symbol costs, and the bytes that a compression stores to. -/

namespace EspSqlite.Shox96

/-! ## Costs -/

/-- The bits `append_bits` writes. The digit state saves the seven bits of its
own prefix. -/
def codeCost (code clen : Nat) (state : ShxState) : Nat :=
  if state = .state2 ∧ code >>> 9 = 0x1C then clen - 7 else clen

def countCost (count : Nat) : Nat :=
  if count < 4 then 3
  else if count < 36 then 7
  else if count < 164 then 10
  else if count < 676 then 14
  else if count < 4772 then 17
  else if count < 70308 then 21
  else 0

def charCost (mode : Mode) (c : UInt8) : Nat :=
  if 32 ≤ c ∧ c ≤ 126 then
    let code := (c - 32).toNat + if mode.isAllUpper && isUpper c then 32 else 0
    if code = 0 ∧ mode.state = .state2 then 11
    else codeCost (c_95.getD code 0) (l_95.getD code 0) mode.state
  else if c = 10 then 9
  else if c = 13 then 13
  else 7

def Sym.cost (mode : Mode) : Sym → Nat
  | .toSet1 => 4
  | .toSet2 => codeCost 14336 7 mode.state
  | .capsOff => 4
  | .capsOn => 8
  | .char c => charCost mode c
  | .crlf => 9
  | .run count => 10 + countCost (count - 4)
  | .back length dist =>
      10 + countCost (length - niceLenForPrior) + countCost (dist - niceLenForPrior + 1)
  | .line ref =>
      10 + countCost (ref.length - niceLenForOther) + countCost ref.dist + countCost ref.ctx

def symsCost : Mode → List Sym → Nat
  | _, [] => 0
  | mode, sym :: rest => sym.cost mode + symsCost (sym.next mode) rest

private theorem countBits_length (count : Nat) : (countBits count).length = countCost count := by
  rw [countBits, countCost]
  repeat' split
  all_goals simp

private theorem stateWord_length (code : Nat) {clen : Nat} (short : clen ≤ 16)
    (state : ShxState) : (stateWord code clen state).length = codeCost code clen state := by
  rw [stateWord, codeCost]
  split
  · exact codeword_length (by omega)
  · exact codeword_length short

private theorem otherWord_length {code clen : Nat} (other : code >>> 9 ≠ 0x1C)
    (short : clen ≤ 16) (state : ShxState) : (stateWord code clen state).length = clen := by
  rw [stateWord_length code short, codeCost, if_neg fun prefixed => other prefixed.2]

private theorem charBits_length (mode : Mode) (c : UInt8) :
    (charBits mode c).length = charCost mode c := by
  rw [charBits, charCost]
  split
  · simp only
    generalize ((c - 32).toNat + if (mode.isAllUpper && isUpper c) = true then 32 else 0) = code
    split
    · exact otherWord_length (by decide) (by omega) mode.state
    · exact stateWord_length _ (l_95_le _) mode.state
  · split
    · exact otherWord_length (by decide) (by omega) mode.state
    · split
      · exact otherWord_length (by decide) (by omega) mode.state
      · exact otherWord_length (by decide) (by omega) mode.state

theorem Sym.bits_length (mode : Mode) (sym : Sym) : (sym.bits mode).length = sym.cost mode := by
  have head : ∀ code : Nat, (codeword code 10).length = 10 := fun _ => codeword_length (by omega)
  cases sym with
  | toSet1 => exact codeword_length (by omega)
  | toSet2 => exact stateWord_length 14336 (by omega) mode.state
  | capsOff => exact otherWord_length (by decide) (by omega) mode.state
  | capsOn => exact otherWord_length (by decide) (by omega) mode.state
  | char c => exact charBits_length mode c
  | crlf => exact otherWord_length (by decide) (by omega) mode.state
  | run count => simp only [Sym.bits, Sym.cost, List.length_append, head, countBits_length]
  | back length dist =>
      simp only [Sym.bits, Sym.cost, priorBits, List.length_append, head, countBits_length]
  | line ref =>
      simp only [Sym.bits, Sym.cost, LineRef.bits, List.length_append, head, countBits_length]

theorem symsBits_length (mode : Mode) (syms : List Sym) :
    (symsBits mode syms).length = symsCost mode syms := by
  induction syms generalizing mode with
  | nil => rfl
  | cons sym rest induction =>
      rw [symsBits, symsCost, List.length_append, Sym.bits_length, induction]

theorem Compressed.mem_stores {text : List UInt8} {switches : Switches} {out : Nat → UInt8}
    {c : Control} {syms : List Sym} {n : Nat} {writer : Writer}
    (compressed : Compressed text switches none out c syms n writer) (index : Nat) :
    index ∈ writer.stores ↔ index < n := by
  have appended := compressed.wrote.appended rfl
  have ol := appended.ol
  have bytes := compressed.bytes
  rw [appended.stores, ol, ← bytes]
  simp only [List.not_mem_nil, false_or, Nat.zero_add]
  constructor
  · intro stored
    rcases stored with ⟨pos, _, before, rfl⟩
    omega
  · intro inside
    exact ⟨8 * index, by omega, by omega, by omega⟩

end EspSqlite.Shox96
