import EspSqlite.Shox96.Matcher

/-! # The compressor

`shox96_0_2_compress`, one function per part of its loop body. Positions and
bit lengths are natural numbers: the `int` variables of the source do not
overflow on texts that fit the address space of the device. -/

namespace EspSqlite.Shox96

open Loop

structure Switches where
  toMatchRepeatsEarlier : Bool
  toMatchRepeatsWithin : Bool

def shippedSwitches : Switches := ⟨true, true⟩

structure Mode where
  state : ShxState
  isAllUpper : Bool
  deriving DecidableEq

structure Control extends Mode where
  l : Nat
  cPrev : UInt8

structure EncState extends Control where
  writer : Writer

/-! ## One literal character -/

def isUpper (c : UInt8) : Bool := 65 ≤ c && c ≤ 90

def isLower (c : UInt8) : Bool := 97 ≤ c && c ≤ 122

def isDigit (c : UInt8) : Bool := 48 ≤ c && c ≤ 57

def inSet2 (c : UInt8) : Bool := (set2Str.take 42).contains c

/-- Leave the digit state before a character it has no code for. A space
follows the character after it. -/
def leaveDigits (text : List UInt8) (s : EncState) : EncState :=
  if s.state = .state2 then
    let cIn := byteAt text s.l
    let probe := if cIn = 32 ∧ s.l + 1 < text.length then byteAt text (s.l + 1) else cIn
    if inSet2 probe then
      s
    else
      { s with state := .state1, writer := appendBits s.writer 8192 4 .state1 }
  else
    s

def leaveCaps (text : List UInt8) (s : EncState) : EncState :=
  if !isUpper (byteAt text s.l) && s.isAllUpper then
    { s with isAllUpper := false, writer := appendBits s.writer 8192 4 s.state }
  else
    s

/-- The look-ahead loop `for (ll = l + 5; ll >= l && ll < len; ll--)`. The
argument and the result are `ll - (l - 1)`. -/
def capsScan (text : List UInt8) (l : Nat) : Nat → Nat
  | 0 => 0
  | back + 1 =>
      if l + back < text.length ∧ isLower (byteAt text (l + back)) = false then
        capsScan text l back
      else
        back + 1

def enterCaps (text : List UInt8) (s : EncState) : EncState :=
  if isUpper (byteAt text s.l) && !s.isAllUpper && capsScan text s.l 6 == 0 then
    { s with isAllUpper := true, writer := appendBits s.writer 8704 8 s.state }
  else
    s

def enterDigits (text : List UInt8) (s : EncState) : EncState :=
  if s.state = .state1 ∧ isDigit (byteAt text s.l) = true then
    { s with state := .state2, writer := appendBits s.writer 14336 7 s.state }
  else
    s

def emitChar (text : List UInt8) (s : EncState) : EncState :=
  let cIn := byteAt text s.l
  let cNext := if s.l + 1 < text.length then byteAt text (s.l + 1) else 0
  if 32 ≤ cIn ∧ cIn ≤ 126 then
    let code := (cIn - 32).toNat + if s.isAllUpper && isUpper cIn then 32 else 0
    let writer :=
      if code = 0 ∧ s.state = .state2 then
        appendBits s.writer 15232 11 s.state
      else
        appendBits s.writer (c_95.getD code 0) (l_95.getD code 0) s.state
    { s with l := s.l + 1, cPrev := cIn, writer := writer }
  else if cIn = 13 ∧ cNext = 10 then
    { s with l := s.l + 2, cPrev := 10, writer := appendBits s.writer 13824 9 s.state }
  else if cIn = 10 then
    { s with l := s.l + 1, cPrev := cIn, writer := appendBits s.writer 13952 9 s.state }
  else if cIn = 13 then
    { s with l := s.l + 1, cPrev := cIn, writer := appendBits s.writer 9064 13 s.state }
  else if cIn = 9 then
    { s with l := s.l + 1, cPrev := cIn, writer := appendBits s.writer 9216 7 s.state }
  else
    { s with l := s.l + 1, cPrev := cIn }

def encodeLiteral (text : List UInt8) (s : EncState) : EncState :=
  emitChar text (enterDigits text (enterCaps text (leaveCaps text (leaveDigits text s))))

/-! ## The main loop -/

def runAhead (text : List UInt8) (l : Nat) (cPrev : UInt8) : Bool :=
  let cIn := byteAt text l
  decide (l + 4 < text.length) && (cIn == cPrev && cIn == byteAt text (l + 1) &&
    cIn == byteAt text (l + 2) && cIn == byteAt text (l + 3))

def runLength (text : List UInt8) (l : Nat) : Nat :=
  scan (fun index => decide (index < text.length) && byteAt text index == byteAt text l)
    text.length (l + 4) - l

/-- `matchLine`, where it is tried at all. -/
def tryLine (text : List UInt8) (switches : Switches) (prevLines : Option LnkLst)
    (l : Nat) (writer : Writer) : Int × Writer :=
  if l + niceLenForOther < text.length ∧ switches.toMatchRepeatsEarlier = true then
    match prevLines with
    | some prevLines => matchLine text l writer prevLines
    | none => (-(l : Int), writer)
  else
    (-(l : Int), writer)

/-- `matchOccurance`, where it is tried at all. -/
def tryPrior (text : List UInt8) (switches : Switches) (l : Nat) (writer : Writer) :
    Int × Writer :=
  if l + niceLenForPrior < text.length ∧ switches.toMatchRepeatsWithin = true then
    matchOccurance text l writer
  else
    (-(l : Int), writer)

/-- One pass of the main loop, to its next head. After a reference `l` is the
index of its last byte, so that `in[l - 1]` is the last but one. -/
def compressStep (text : List UInt8) (switches : Switches) (prevLines : Option LnkLst)
    (s : EncState) : Outcome EncState :=
  if s.l < text.length then
    if runAhead text s.l s.cPrev then
      let rptCount := runLength text s.l
      let writer := appendBits s.writer 14208 10 .state1
      .next { s with l := s.l + rptCount, writer := encodeCount writer (rptCount - 4) }
    else
      let prior := tryPrior text switches s.l s.writer
      if prior.1 > 0 then
        let l := prior.1.toNat
        .next { s with l := l + 1, writer := prior.2, cPrev := byteAt text (l - 1) }
      else
        let line := tryLine text switches prevLines (-prior.1).toNat prior.2
        if line.1 > 0 then
          let l := line.1.toNat
          .next { s with l := l + 1, writer := line.2, cPrev := byteAt text (l - 1) }
        else
          .next (encodeLiteral text { s with l := (-line.1).toNat, writer := line.2 })
  else
    .stop

def EncState.initial (out : Nat → UInt8) : EncState :=
  { state := .state1, isAllUpper := false, l := 0, cPrev := 0, writer := ⟨out, [], 0⟩ }

def pad (writer : Writer) : Writer :=
  let bits := writer.ol % 8
  if bits ≠ 0 then appendBits writer 14272 (8 - bits) .state1 else writer

/-- `shox96_0_2_compress`: the byte count returned and the buffer left behind. -/
def compress (text : List UInt8) (out : Nat → UInt8) (prevLines : Option LnkLst)
    (switches : Switches) : Option (Nat × Writer) :=
  (run (compressStep text switches prevLines) (text.length + 1) (EncState.initial out)).map
    fun s =>
      let writer := pad s.writer
      (writer.ol / 8 + (if writer.ol % 8 ≠ 0 then 1 else 0), writer)

end EspSqlite.Shox96
