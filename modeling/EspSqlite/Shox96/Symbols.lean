import EspSqlite.Shox96.Compress
import EspSqlite.Shox96.Decompress

/-! # Symbols

The compressed format as a language of symbols. A symbol is what one pass of
the decoder's loop consumes. Its bits depend on the mode that encoder and
decoder share; its meaning is a change of the mode and of the output. -/

namespace EspSqlite.Shox96

inductive Sym where
  | toSet1
  | toSet2
  | capsOff
  | capsOn
  | char (c : UInt8)
  | crlf
  | run (count : Nat)
  | back (length dist : Nat)
  | line (ref : LineRef)

/-! ## Bits -/

/-- The bytes the format has a code for: 32 to 126, tab, line feed and carriage
return. -/
def supported (c : UInt8) : Bool := (32 ≤ c && c ≤ 126) || c == 9 || c == 10 || c == 13

def SupportedText (text : List UInt8) : Prop := ∀ c ∈ text, supported c = true

instance (text : List UInt8) : Decidable (SupportedText text) :=
  decidable_of_iff (text.all supported = true) List.all_eq_true

theorem SupportedText.byteAt {text : List UInt8} (supportedText : SupportedText text) {l : Nat}
    (inside : l < text.length) : supported (byteAt text l) = true := by
  apply supportedText
  simp [Shox96.byteAt, inside]

def charBits (mode : Mode) (c : UInt8) : List Bool :=
  if 32 ≤ c ∧ c ≤ 126 then
    let code := (c - 32).toNat + if mode.isAllUpper && isUpper c then 32 else 0
    if code = 0 ∧ mode.state = .state2 then
      stateWord 15232 11 mode.state
    else
      stateWord (c_95.getD code 0) (l_95.getD code 0) mode.state
  else if c = 10 then stateWord 13952 9 mode.state
  else if c = 13 then stateWord 9064 13 mode.state
  else stateWord 9216 7 mode.state

def Sym.bits (mode : Mode) : Sym → List Bool
  | .toSet1 => codeword 8192 4
  | .toSet2 => stateWord 14336 7 mode.state
  | .capsOff => stateWord 8192 4 mode.state
  | .capsOn => stateWord 8704 8 mode.state
  | .char c => charBits mode c
  | .crlf => stateWord 13824 9 mode.state
  | .run count => codeword 14208 10 ++ countBits (count - 4)
  | .back length dist => priorBits length dist
  | .line ref => ref.bits

/-! ## Meaning -/

def Sym.next (mode : Mode) : Sym → Mode
  | .toSet1 => { mode with state := .state1 }
  | .toSet2 => { mode with state := .state2 }
  | .capsOff => { mode with isAllUpper := false }
  | .capsOn => { mode with isAllUpper := true }
  | _ => mode

/-- The characters of a line of the chain, with terminator. -/
def lineBytes (nodes : List (Option CString)) (ctx index : Nat) : UInt8 :=
  match nodes[ctx]? with
  | some (some line) => line.chars.getD index 0
  | _ => 0

def Sym.apply (nodes : List (Option CString)) (out : OutBuffer) : Sym → OutBuffer
  | .char c => out.put c
  | .crlf => (out.put 13).put 10
  | .run count => out.repeatLast count
  | .back length dist => out.copyBack dist length
  | .line ref => out.copyFrom (fun index => lineBytes nodes ref.ctx (ref.dist + index)) ref.length
  | _ => out

def Sym.width : Sym → Nat
  | .char _ => 1
  | .crlf => 2
  | .run count => count
  | .back length _ => length
  | .line ref => ref.length
  | _ => 0

def Sym.isSwitch : Sym → Bool
  | .toSet1 | .toSet2 | .capsOff | .capsOn => true
  | _ => false

theorem Sym.width_of_isSwitch {sym : Sym} (isSwitch : sym.isSwitch = true) : sym.width = 0 := by
  cases sym <;> first | rfl | cases isSwitch

/-! ## Strings of symbols -/

def symsBits : Mode → List Sym → List Bool
  | _, [] => []
  | mode, sym :: rest => sym.bits mode ++ symsBits (sym.next mode) rest

def symsMode (mode : Mode) (syms : List Sym) : Mode := syms.foldl Sym.next mode

def symsApply (nodes : List (Option CString)) (out : OutBuffer) (syms : List Sym) : OutBuffer :=
  syms.foldl (Sym.apply nodes) out

def symsWidth (syms : List Sym) : Nat := (syms.map Sym.width).sum

@[simp] theorem symsWidth_nil : symsWidth [] = 0 := rfl

@[simp] theorem symsWidth_cons (sym : Sym) (rest : List Sym) :
    symsWidth (sym :: rest) = sym.width + symsWidth rest := by
  simp [symsWidth]

@[simp] theorem symsWidth_append (left right : List Sym) :
    symsWidth (left ++ right) = symsWidth left + symsWidth right := by
  simp [symsWidth]

theorem symsWidth_of_isSwitch {syms : List Sym} (switches : ∀ sym ∈ syms, sym.isSwitch = true) :
    symsWidth syms = 0 := by
  induction syms with
  | nil => rfl
  | cons sym rest induction =>
      rw [symsWidth_cons, Sym.width_of_isSwitch (switches sym List.mem_cons_self),
        induction fun other member => switches other (List.mem_cons_of_mem sym member)]

@[simp] theorem symsMode_nil (mode : Mode) : symsMode mode [] = mode := rfl

@[simp] theorem symsMode_cons (mode : Mode) (sym : Sym) (rest : List Sym) :
    symsMode mode (sym :: rest) = symsMode (sym.next mode) rest := rfl

theorem symsMode_append (mode : Mode) (left right : List Sym) :
    symsMode mode (left ++ right) = symsMode (symsMode mode left) right :=
  List.foldl_append

theorem symsBits_append (mode : Mode) (left right : List Sym) :
    symsBits mode (left ++ right) = symsBits mode left ++ symsBits (symsMode mode left) right := by
  induction left generalizing mode with
  | nil => rfl
  | cons sym left induction =>
      simp only [List.cons_append, symsBits, induction, List.append_assoc, symsMode_cons]

@[simp] theorem symsBits_singleton (mode : Mode) (sym : Sym) :
    symsBits mode [sym] = sym.bits mode := by
  simp [symsBits]

/-! ## Validity -/

/-- The characters with a code of their own in a mode. In the digit state these
are the characters of the sets 2, 3, 4 and 4A; a digit has no code outside it. -/
def hasCode (mode : Mode) (c : UInt8) : Bool :=
  match mode.state with
  | .state2 => inSet2 c && !mode.isAllUpper
  | .state1 => !isDigit c && if mode.isAllUpper then isUpper c else supported c

/-- The symbols the decoder understands in a mode. Counts have a limit. -/
def Sym.Valid (nodes : List (Option CString)) (mode : Mode) : Sym → Prop
  | .toSet1 => mode.state = .state2
  | .toSet2 => mode.state = .state1
  | .capsOff => mode.state = .state1 ∧ mode.isAllUpper = true
  | .capsOn => mode.state = .state1 ∧ mode.isAllUpper = false
  | .char c => hasCode mode c = true
  | .crlf => mode.state = .state1
  | .run count => 4 ≤ count ∧ count - 4 < 70308
  | .back length dist => niceLenForPrior ≤ length ∧ niceLenForPrior ≤ dist ∧
      length - niceLenForPrior < 70308 ∧ dist - niceLenForPrior + 1 < 70308
  | .line ref => niceLenForOther ≤ ref.length ∧ ref.length - niceLenForOther < 70308 ∧
      ref.dist < 70308 ∧ ref.ctx < 70308 ∧
      ∃ line, nodes[ref.ctx]? = some (some line) ∧ ref.dist + ref.length ≤ line.strlen

def SymsValid (nodes : List (Option CString)) : Mode → List Sym → Prop
  | _, [] => True
  | mode, sym :: rest => sym.Valid nodes mode ∧ SymsValid nodes (sym.next mode) rest

theorem symsValid_append {nodes : List (Option CString)} {mode : Mode} {left right : List Sym} :
    SymsValid nodes mode (left ++ right) ↔
      SymsValid nodes mode left ∧ SymsValid nodes (symsMode mode left) right := by
  induction left generalizing mode with
  | nil => simp [SymsValid]
  | cons sym left induction =>
      simp only [List.cons_append, SymsValid, induction, and_assoc, symsMode_cons]

end EspSqlite.Shox96
