import EspSqlite.Shox96.Symbols

/-! # The encoder's plan

What the compressor writes depends on the text and on the control variables
alone. `passSyms` and `passNext` give the symbols one pass writes and the
control variables at the next head; the buffer then holds the bits of the
symbols planned so far. -/

namespace EspSqlite.Shox96

open BitMemory Loop

/-! ## Literal characters -/

def digitProbe (text : List UInt8) (l : Nat) : UInt8 :=
  if byteAt text l = 32 ∧ l + 1 < text.length then byteAt text (l + 1) else byteAt text l

def leaveDigitsSyms (text : List UInt8) (l : Nat) (mode : Mode) : List Sym :=
  if mode.state = .state2 ∧ inSet2 (digitProbe text l) = false then [.toSet1] else []

def leaveCapsSyms (text : List UInt8) (l : Nat) (mode : Mode) : List Sym :=
  if isUpper (byteAt text l) = false ∧ mode.isAllUpper = true then [.capsOff] else []

def enterCapsSyms (text : List UInt8) (l : Nat) (mode : Mode) : List Sym :=
  if isUpper (byteAt text l) = true ∧ mode.isAllUpper = false ∧ capsScan text l 6 = 0 then
    [.capsOn]
  else
    []

def enterDigitsSyms (text : List UInt8) (l : Nat) (mode : Mode) : List Sym :=
  if mode.state = .state1 ∧ isDigit (byteAt text l) = true then [.toSet2] else []

def crlfAhead (text : List UInt8) (l : Nat) : Bool :=
  byteAt text l == 13 && decide (l + 1 < text.length) && byteAt text (l + 1) == 10

def charSyms (text : List UInt8) (l : Nat) : List Sym :=
  if crlfAhead text l then [.crlf]
  else if supported (byteAt text l) then [.char (byteAt text l)]
  else []

def chainSyms : List (Mode → List Sym) → Mode → List Sym
  | [], _ => []
  | step :: rest, mode => step mode ++ chainSyms rest (symsMode mode (step mode))

def switchSyms (text : List UInt8) (l : Nat) : Mode → List Sym :=
  chainSyms [leaveDigitsSyms text l, leaveCapsSyms text l, enterCapsSyms text l,
    enterDigitsSyms text l]

private theorem mem_chainSyms (property : Sym → Prop) {steps : List (Mode → List Sym)}
    (each : ∀ step ∈ steps, ∀ (mode : Mode) (sym : Sym), sym ∈ step mode → property sym) :
    ∀ {mode : Mode} {sym : Sym}, sym ∈ chainSyms steps mode → property sym := by
  induction steps with
  | nil =>
      intro mode sym member
      cases member
  | cons step rest induction =>
      intro mode sym member
      rcases List.mem_append.mp member with first | later
      · exact each step List.mem_cons_self mode sym first
      · exact induction (fun other inRest => each other (List.mem_cons_of_mem step inRest)) later

theorem isSwitch_of_mem_switchSyms {text : List UInt8} {l : Nat} {mode : Mode} {sym : Sym}
    (member : sym ∈ switchSyms text l mode) : sym.isSwitch = true := by
  refine mem_chainSyms (fun sym => sym.isSwitch = true)
    (fun step inSteps mode sym member => ?_) member
  have single : ∀ {condition : Prop} [Decidable condition] {only : Sym},
      only.isSwitch = true → sym ∈ (if condition then [only] else []) →
      sym.isSwitch = true := by
    intro condition _ only isSwitch member
    split at member
    · rwa [List.mem_singleton.mp member]
    · cases member
  simp only [List.mem_cons, List.not_mem_nil, or_false] at inSteps
  rcases inSteps with rfl | rfl | rfl | rfl <;> exact single rfl member

theorem switchSyms_width (text : List UInt8) (l : Nat) (mode : Mode) :
    symsWidth (switchSyms text l mode) = 0 :=
  symsWidth_of_isSwitch fun _ => isSwitch_of_mem_switchSyms

def literalSyms (text : List UInt8) (l : Nat) (mode : Mode) : List Sym :=
  switchSyms text l mode ++ charSyms text l

/-! ## One pass -/

def planPrior (text : List UInt8) (switches : Switches) (l : Nat) : Option (Nat × Nat) :=
  if l + niceLenForPrior < text.length ∧ switches.toMatchRepeatsWithin = true then
    priorMatch text l
  else
    none

def planLine (text : List UInt8) (switches : Switches) (prevLines : Option LnkLst) (l : Nat) :
    Option LineRef :=
  if l + niceLenForOther < text.length ∧ switches.toMatchRepeatsEarlier = true then
    prevLines.bind (lineMatch text l)
  else
    none

def passSyms (text : List UInt8) (switches : Switches) (prevLines : Option LnkLst)
    (c : Control) : List Sym :=
  if runAhead text c.l c.cPrev then
    [.run (runLength text c.l)]
  else
    match planPrior text switches c.l with
    | some (length, dist) => [.back length dist]
    | none =>
        match planLine text switches prevLines c.l with
        | some ref => [.line ref]
        | none => literalSyms text c.l c.toMode

def afterReference (text : List UInt8) (c : Control) (length : Nat) : Control :=
  { c with l := c.l + length, cPrev := byteAt text (c.l + length - 1 - 1) }

def passNext (text : List UInt8) (switches : Switches) (prevLines : Option LnkLst)
    (c : Control) : Control :=
  if runAhead text c.l c.cPrev then
    { c with l := c.l + runLength text c.l }
  else
    match planPrior text switches c.l with
    | some (length, _) => afterReference text c length
    | none =>
        match planLine text switches prevLines c.l with
        | some ref => afterReference text c ref.length
        | none =>
            { symsMode c.toMode (literalSyms text c.l c.toMode) with
              l := c.l + if crlfAhead text c.l then 2 else 1
              cPrev := if crlfAhead text c.l then 10 else byteAt text c.l }

/-! ## The compressor follows its plan -/

private structure Stage (before after : EncState) (syms : List Sym) : Prop where
  writer : Appended before.writer after.writer (symsBits before.toMode syms)
  mode : after.toMode = symsMode before.toMode syms
  l : after.l = before.l

private theorem leaveDigits_stage (text : List UInt8) (s : EncState) :
    Stage s (leaveDigits text s) (leaveDigitsSyms text s.l s.toMode) := by
  rw [leaveDigits, leaveDigitsSyms]
  by_cases inDigits : s.state = .state2
  · by_cases known : inSet2 (digitProbe text s.l) = true
    · have probe := known
      rw [digitProbe] at probe
      simp only [inDigits, if_true, probe, known, Bool.true_eq_false, and_false, if_false]
      exact ⟨Appended.refl _, rfl, rfl⟩
    · rw [Bool.not_eq_true] at known
      have probe := known
      rw [digitProbe] at probe
      simp only [inDigits, if_true, probe, known, Bool.false_eq_true, if_false, and_self]
      have wrote := appendBits_appended s.writer 8192 4 (by omega) .state1
      refine ⟨?_, rfl, rfl⟩
      simpa [Sym.bits] using wrote
  · simp only [inDigits, if_false, false_and]
    exact ⟨Appended.refl _, rfl, rfl⟩

private theorem leaveCaps_stage (text : List UInt8) (s : EncState) :
    Stage s (leaveCaps text s) (leaveCapsSyms text s.l s.toMode) := by
  rw [leaveCaps, leaveCapsSyms]
  by_cases leaves : isUpper (byteAt text s.l) = false ∧ s.isAllUpper = true
  · simp only [leaves, Bool.not_false, Bool.and_self, if_true, and_self]
    refine ⟨?_, rfl, rfl⟩
    simpa [Sym.bits] using appendBits_appended s.writer 8192 4 (by omega) s.state
  · have stays : (!isUpper (byteAt text s.l) && s.isAllUpper) = false := by
      simpa using leaves
    simp only [stays, Bool.false_eq_true, if_false, leaves]
    exact ⟨Appended.refl _, rfl, rfl⟩

private theorem enterCaps_stage (text : List UInt8) (s : EncState) :
    Stage s (enterCaps text s) (enterCapsSyms text s.l s.toMode) := by
  rw [enterCaps, enterCapsSyms]
  by_cases enters : isUpper (byteAt text s.l) = true ∧ s.isAllUpper = false ∧
      capsScan text s.l 6 = 0
  · simp only [enters, Bool.not_false, Bool.and_self, beq_self_eq_true, if_true, and_self]
    refine ⟨?_, rfl, rfl⟩
    simpa [Sym.bits] using appendBits_appended s.writer 8704 8 (by omega) s.state
  · have stays : (isUpper (byteAt text s.l) && !s.isAllUpper && capsScan text s.l 6 == 0) =
        false := by
      simpa [and_assoc] using enters
    simp only [stays, Bool.false_eq_true, if_false, enters]
    exact ⟨Appended.refl _, rfl, rfl⟩

private theorem enterDigits_stage (text : List UInt8) (s : EncState) :
    Stage s (enterDigits text s) (enterDigitsSyms text s.l s.toMode) := by
  rw [enterDigits, enterDigitsSyms]
  by_cases enters : s.state = .state1 ∧ isDigit (byteAt text s.l) = true
  · simp only [enters, and_self, if_true]
    refine ⟨?_, rfl, rfl⟩
    simpa [Sym.bits, enters] using
      appendBits_appended s.writer 14336 7 (by omega) s.state
  · simp only [enters, if_false]
    exact ⟨Appended.refl _, rfl, rfl⟩

theorem l_95_le (code : Nat) : l_95.getD code 0 ≤ 16 := by
  by_cases inside : code < 95
  · have bounded : ∀ code < 95, l_95.getD code 0 ≤ 16 := by decide
    exact bounded code inside
  · rw [List.getD_eq_default _ _ (by simpa [l_95] using inside)]
    omega

private theorem emitChar_writer (text : List UInt8) (s : EncState) :
    Appended s.writer (emitChar text s).writer (symsBits s.toMode (charSyms text s.l)) := by
  rw [emitChar, charSyms, crlfAhead, supported]
  by_cases printable : 32 ≤ byteAt text s.l ∧ byteAt text s.l ≤ 126
  · have notReturn : byteAt text s.l ≠ 13 := by
      intro equal
      rw [equal] at printable
      exact absurd printable (by decide)
    simp only [printable, and_self, if_true, beq_eq_false_iff_ne.mpr notReturn,
      Bool.false_and, Bool.false_eq_true, if_false, decide_true, Bool.and_self,
      Bool.true_or, symsBits_singleton, Sym.bits, charBits]
    generalize ((byteAt text s.l - 32).toNat +
      if (s.isAllUpper && isUpper (byteAt text s.l)) = true then 32 else 0) = code
    split
    · exact appendBits_appended s.writer 15232 11 (by omega) s.state
    · exact appendBits_appended s.writer _ _ (l_95_le _) s.state
  · have notPrintable : (decide (32 ≤ byteAt text s.l) && decide (byteAt text s.l ≤ 126)) =
        false := by
      simpa using printable
    simp only [printable, notPrintable, if_false, Bool.false_or]
    by_cases isReturn : byteAt text s.l = 13
    · by_cases more : s.l + 1 < text.length
      · by_cases feed : byteAt text (s.l + 1) = 10
        · simpa [isReturn, more, feed, Sym.bits] using
            appendBits_appended s.writer 13824 9 (by omega) s.state
        · simpa [isReturn, more, feed, Sym.bits, charBits] using
            appendBits_appended s.writer 9064 13 (by omega) s.state
      · simpa [isReturn, more, Sym.bits, charBits] using
          appendBits_appended s.writer 9064 13 (by omega) s.state
    · by_cases feed : byteAt text s.l = 10
      · simpa [feed, Sym.bits, charBits] using
          appendBits_appended s.writer 13952 9 (by omega) s.state
      · by_cases tab : byteAt text s.l = 9
        · simpa [tab, Sym.bits, charBits] using
            appendBits_appended s.writer 9216 7 (by omega) s.state
        · simpa [isReturn, feed, tab, symsBits] using Appended.refl s.writer

private theorem emitChar_control (text : List UInt8) (s : EncState) :
    (emitChar text s).toControl =
      { s.toMode with
        l := s.l + if crlfAhead text s.l then 2 else 1
        cPrev := if crlfAhead text s.l then 10 else byteAt text s.l } := by
  rw [emitChar, crlfAhead]
  by_cases printable : 32 ≤ byteAt text s.l ∧ byteAt text s.l ≤ 126
  · have notReturn : byteAt text s.l ≠ 13 := by
      intro equal
      rw [equal] at printable
      exact absurd printable (by decide)
    simp [printable, notReturn]
  · simp only [printable, if_false]
    by_cases isReturn : byteAt text s.l = 13
    · by_cases more : s.l + 1 < text.length
      · by_cases feed : byteAt text (s.l + 1) = 10 <;> simp [isReturn, more, feed]
      · simp [isReturn, more]
    · by_cases feed : byteAt text s.l = 10
      · simp [feed]
      · by_cases tab : byteAt text s.l = 9 <;> simp [isReturn, feed, tab]

private theorem Stage.chain {before middle after : EncState} {step : Mode → List Sym}
    {rest : List (Mode → List Sym)} (first : Stage before middle (step before.toMode))
    (later : Stage middle after (chainSyms rest middle.toMode)) :
    Stage before after (chainSyms (step :: rest) before.toMode) where
  writer := by
    rw [chainSyms, symsBits_append, ← first.mode]
    exact first.writer.trans later.writer
  mode := by rw [chainSyms, symsMode_append, ← first.mode, later.mode]
  l := later.l.trans first.l

theorem symsMode_charSyms (text : List UInt8) (l : Nat) (mode : Mode) :
    symsMode mode (charSyms text l) = mode := by
  rw [charSyms]
  split
  · rfl
  · split <;> rfl

theorem encodeLiteral_plan (text : List UInt8) (s : EncState) :
    Appended s.writer (encodeLiteral text s).writer
        (symsBits s.toMode (literalSyms text s.l s.toMode)) ∧
      (encodeLiteral text s).toControl =
        { symsMode s.toMode (literalSyms text s.l s.toMode) with
          l := s.l + if crlfAhead text s.l then 2 else 1
          cPrev := if crlfAhead text s.l then 10 else byteAt text s.l } := by
  let s1 := leaveDigits text s
  let s2 := leaveCaps text s1
  let s3 := enterCaps text s2
  let s4 := enterDigits text s3
  have stage1 : Stage s s1 _ := leaveDigits_stage text s
  have stage2 : Stage s1 s2 _ := leaveCaps_stage text s1
  have stage3 : Stage s2 s3 _ := enterCaps_stage text s2
  have stage4 : Stage s3 s4 _ := enterDigits_stage text s3
  have l2 : s2.l = s.l := stage2.l.trans stage1.l
  have l3 : s3.l = s.l := stage3.l.trans l2
  rw [stage1.l] at stage2
  rw [l2] at stage3
  rw [l3] at stage4
  have done : Stage s4 s4 (chainSyms [] s4.toMode) := ⟨Appended.refl _, rfl, rfl⟩
  have switched : Stage s s4 (switchSyms text s.l s.toMode) :=
    stage1.chain (stage2.chain (stage3.chain (stage4.chain done)))
  have emitted := emitChar_writer text s4
  have control := emitChar_control text s4
  rw [switched.l, switched.mode] at emitted control
  rw [literalSyms, symsBits_append, symsMode_append, symsMode_charSyms]
  exact ⟨switched.writer.trans emitted, control⟩

/-- What was written between two heads. Only a previous-line reference writes
bytes more than once. -/
structure Wrote (prevLines : Option LnkLst) (before after : Writer) (bits : List Bool) :
    Prop where
  extended : Extends before after bits
  appended : prevLines = none → Appended before after bits

theorem Appended.wrote {before after : Writer} {bits : List Bool}
    (appended : Appended before after bits) (prevLines : Option LnkLst) :
    Wrote prevLines before after bits :=
  ⟨appended.toExtends, fun _ => appended⟩

theorem Wrote.trans {prevLines : Option LnkLst} {first second third : Writer}
    {left right : List Bool} (early : Wrote prevLines first second left)
    (late : Wrote prevLines second third right) :
    Wrote prevLines first third (left ++ right) :=
  ⟨early.extended.trans late.extended,
    fun noLines => (early.appended noLines).trans (late.appended noLines)⟩

private theorem tryPrior_plan (text : List UInt8) (switches : Switches) (l : Nat)
    (writer : Writer) :
    match planPrior text switches l with
    | none => tryPrior text switches l writer = (-(l : Int), writer)
    | some (length, dist) => ∃ after,
        tryPrior text switches l writer = ((l : Int) + length - 1, after) ∧
          Appended writer after (priorBits length dist) := by
  rw [planPrior, tryPrior]
  by_cases tried : l + niceLenForPrior < text.length ∧ switches.toMatchRepeatsWithin = true
  · simp only [tried, and_self, if_true]
    cases found : priorMatch text l with
    | none => exact matchOccurance_of_none writer found
    | some chosen => exact matchOccurance_of_some writer found
  · simp only [tried, if_false]

private theorem tryLine_plan (text : List UInt8) (switches : Switches)
    (prevLines : Option LnkLst) (l : Nat) (writer : Writer) :
    match planLine text switches prevLines l with
    | none => tryLine text switches prevLines l writer = (-(l : Int), writer)
    | some ref => ∃ after,
        tryLine text switches prevLines l writer = ((l : Int) + ref.length - 1, after) ∧
          Extends writer after ref.bits ∧ prevLines ≠ none := by
  unfold planLine tryLine
  by_cases tried : l + niceLenForOther < text.length ∧ switches.toMatchRepeatsEarlier = true
  · simp only [tried, and_self, if_true]
    cases prevLines with
    | none => rfl
    | some chain =>
        rw [Option.bind_some]
        cases found : lineMatch text l chain with
        | none => exact matchLine_of_none writer found
        | some ref =>
            rcases matchLine_of_some writer found with ⟨after, result, written⟩
            exact ⟨after, result, written, by simp⟩
  · simp only [tried, if_false]

theorem planPrior_sound {text : List UInt8} {switches : Switches} {l length dist : Nat}
    (found : planPrior text switches l = some (length, dist)) :
    niceLenForPrior ≤ length ∧ length ≤ dist ∧ dist ≤ l ∧ l + length ≤ text.length ∧
      ∀ index, index < length → byteAt text (l - dist + index) = byteAt text (l + index) := by
  rw [planPrior] at found
  split at found
  · exact priorMatch_sound found
  · cases found

theorem planLine_sound {text : List UInt8} {switches : Switches} {prevLines : Option LnkLst}
    {l : Nat} {ref : LineRef} (found : planLine text switches prevLines l = some ref) :
    ∃ line, ref.Sound text l (LnkLst.nodes prevLines) line := by
  rw [planLine] at found
  split at found
  · cases prevLines with
    | none => cases found
    | some chain => exact lineMatch_sound found
  · cases found

/-- One pass of the compressor writes the planned symbols and ends at the
planned head. -/
theorem compressStep_plan {text : List UInt8} {switches : Switches}
    {prevLines : Option LnkLst} {s : EncState} (more : s.l < text.length) :
    ∃ s', compressStep text switches prevLines s = .next s' ∧
      s'.toControl = passNext text switches prevLines s.toControl ∧
      Wrote prevLines s.writer s'.writer
        (symsBits s.toMode (passSyms text switches prevLines s.toControl)) := by
  rw [compressStep, passSyms, passNext]
  simp only [more, if_true]
  by_cases isRun : runAhead text s.l s.cPrev = true
  · simp only [isRun, if_true]
    refine ⟨_, rfl, rfl, ?_⟩
    have head := appendBits_appended s.writer 14208 10 (by omega) .state1
    rw [stateWord_state1] at head
    rw [symsBits_singleton]
    exact (head.trans (encodeCount_appended _ _)).wrote prevLines
  · simp only [isRun, Bool.false_eq_true, if_false]
    have prior := tryPrior_plan text switches s.l s.writer
    cases priorFound : planPrior text switches s.l with
    | some chosen =>
        rw [priorFound] at prior
        rcases prior with ⟨after, result, written⟩
        have sound := planPrior_sound priorFound
        simp only [niceLenForPrior] at sound
        have positive : (s.l : Int) + chosen.1 - 1 > 0 := by omega
        simp only [result, positive, if_true]
        refine ⟨_, rfl, ?_, ?_⟩
        · simp only [afterReference, Control.mk.injEq, true_and]
          refine ⟨by omega, ?_⟩
          congr 1
          omega
        · rw [symsBits_singleton]
          exact written.wrote prevLines
    | none =>
        rw [priorFound] at prior
        have priorStops : ¬-(s.l : Int) > 0 := by omega
        have backToL : (-(-(s.l : Int))).toNat = s.l := by omega
        simp only [prior, priorStops, if_false, backToL]
        have line := tryLine_plan text switches prevLines s.l s.writer
        cases lineFound : planLine text switches prevLines s.l with
        | some ref =>
            rw [lineFound] at line
            rcases line with ⟨after, result, written, someLines⟩
            rcases planLine_sound lineFound with ⟨_, sound⟩
            have long := sound.long
            simp only [niceLenForOther] at long
            have positive : (s.l : Int) + ref.length - 1 > 0 := by omega
            simp only [result, positive, if_true]
            refine ⟨_, rfl, ?_, ?_⟩
            · simp only [afterReference, Control.mk.injEq, true_and]
              refine ⟨by omega, ?_⟩
              congr 1
              omega
            · rw [symsBits_singleton]
              exact ⟨written, fun noLines => absurd noLines someLines⟩
        | none =>
            rw [lineFound] at line
            simp only [line, priorStops, if_false, backToL]
            have literal := encodeLiteral_plan text s
            exact ⟨_, rfl, literal.2, literal.1.wrote prevLines⟩

/-! ## Plans of whole runs -/

def Control.initial : Control := { state := .state1, isAllUpper := false, l := 0, cPrev := 0 }

/-- The control variables at a head together with all symbols planned before
it. -/
inductive Planned (text : List UInt8) (switches : Switches) (prevLines : Option LnkLst) :
    Control → List Sym → Prop
  | start : Planned text switches prevLines .initial []
  | pass {c : Control} {syms : List Sym} : Planned text switches prevLines c syms →
      c.l < text.length →
      Planned text switches prevLines (passNext text switches prevLines c)
        (syms ++ passSyms text switches prevLines c)

private def planStep (text : List UInt8) (switches : Switches) (prevLines : Option LnkLst)
    (head : Control × List Sym) : Outcome (Control × List Sym) :=
  if head.1.l < text.length then
    .next (passNext text switches prevLines head.1,
      head.2 ++ passSyms text switches prevLines head.1)
  else
    .stop

private theorem Planned.reaches {text : List UInt8} {switches : Switches}
    {prevLines : Option LnkLst} {c : Control} {syms : List Sym}
    (planned : Planned text switches prevLines c syms) :
    Reaches (planStep text switches prevLines)
      (.initial, []) (c, syms) := by
  induction planned with
  | start => exact Reaches.refl _
  | pass planned more induction =>
      apply induction.tail
      simp [planStep, more]

private theorem planStep_stop {text : List UInt8} {switches : Switches}
    {prevLines : Option LnkLst} {c : Control} {syms : List Sym} (atEnd : text.length ≤ c.l) :
    planStep text switches prevLines (c, syms) = .stop := by
  simp [planStep, Nat.not_lt.mpr atEnd]

theorem Planned.partOf {text : List UInt8} {switches : Switches} {prevLines : Option LnkLst}
    {c final : Control} {syms finalSyms : List Sym}
    (planned : Planned text switches prevLines c syms) (more : c.l < text.length)
    (finished : Planned text switches prevLines final finalSyms)
    (atEnd : text.length ≤ final.l) :
    ∃ rest, finalSyms = syms ++ passSyms text switches prevLines c ++ rest := by
  have rest := (planned.pass more).reaches.of_stop finished.reaches (planStep_stop atEnd)
  have part := Reaches.invariant
    (fun head : Control × List Sym => syms ++ passSyms text switches prevLines c <+: head.2)
    rest (List.prefix_refl _) (fun head following _ taken extended => by
      rw [planStep] at taken
      split at taken
      · cases taken
        exact extended.trans (List.prefix_append _ _)
      · cases taken)
  rcases part with ⟨rest, equal⟩
  exact ⟨rest, equal.symm⟩

def Mode.initial : Mode := ⟨.state1, false⟩

theorem Planned.mode {text : List UInt8} {switches : Switches} {prevLines : Option LnkLst}
    {c : Control} {syms : List Sym} (planned : Planned text switches prevLines c syms) :
    c.toMode = symsMode .initial syms := by
  induction planned with
  | start => rfl
  | @pass c syms planned more induction =>
      rw [symsMode_append, ← induction]
      rw [passNext, passSyms]
      split
      · rfl
      · split
        · rfl
        · split <;> rfl

/-- Every head of the compressor's loop is planned, and the buffer holds the
bits of the planned symbols. -/
theorem exists_planned {text : List UInt8} {switches : Switches}
    {prevLines : Option LnkLst} {out : Nat → UInt8} {s : EncState}
    (reaches : Reaches (compressStep text switches prevLines) (EncState.initial out) s) :
    ∃ syms, Planned text switches prevLines s.toControl syms ∧
      Wrote prevLines (EncState.initial out).writer s.writer (symsBits .initial syms) := by
  apply Reaches.invariant (fun s => ∃ syms,
    Planned text switches prevLines s.toControl syms ∧
      Wrote prevLines (EncState.initial out).writer s.writer (symsBits .initial syms)) reaches
  · exact ⟨[], .start, (Appended.refl _).wrote prevLines⟩
  · intro state following _ taken invariant
    rcases invariant with ⟨syms, planned, written⟩
    have more : state.l < text.length := by
      by_contra done
      simp [compressStep, done] at taken
    rcases compressStep_plan more with ⟨next, result, control, wrote⟩
    rw [result, Outcome.next.injEq] at taken
    subst taken
    refine ⟨_, control ▸ planned.pass more, ?_⟩
    rw [symsBits_append, ← planned.mode]
    exact written.trans wrote

theorem Planned.exists_head {text : List UInt8} {switches : Switches}
    {prevLines : Option LnkLst} {c : Control} {syms : List Sym}
    (planned : Planned text switches prevLines c syms) (out : Nat → UInt8) :
    ∃ s, Reaches (compressStep text switches prevLines) (EncState.initial out) s ∧
      s.toControl = c := by
  induction planned with
  | start => exact ⟨_, Reaches.refl _, rfl⟩
  | pass planned more induction =>
      rcases induction with ⟨s, reaches, rfl⟩
      rcases compressStep_plan more with ⟨next, taken, control, _⟩
      exact ⟨next, reaches.tail taken, control⟩

/-! ## Planned symbols are valid -/

private theorem isUpper_of_inSet2 : ∀ c : UInt8, inSet2 c = true → isUpper c = false :=
  forall_byte (by decide +kernel)

private theorem isUpper_of_isDigit : ∀ c : UInt8, isDigit c = true → isUpper c = false :=
  forall_byte (by decide +kernel)

private theorem inSet2_of_isDigit : ∀ c : UInt8, isDigit c = true → inSet2 c = true :=
  forall_byte (by decide +kernel)

private theorem not_lineEnd_of_inSet2 : ∀ c : UInt8, inSet2 c = true → c ≠ 13 :=
  forall_byte (by decide +kernel)

def Mode.Ok (mode : Mode) : Prop := mode.state = .state2 → mode.isAllUpper = false

/-- In the digit state after the first stage the character has a code there. -/
private theorem inSet2_of_probe {text : List UInt8} {l : Nat}
    (known : inSet2 (digitProbe text l) = true) : inSet2 (byteAt text l) = true := by
  rw [digitProbe] at known
  split at known
  · rename_i space
    rw [space.1]
    decide
  · exact known

private theorem leaveDigitsSyms_ready (nodes : List (Option CString)) (text : List UInt8)
    (l : Nat) {mode : Mode} (ok : mode.Ok) :
    SymsValid nodes mode (leaveDigitsSyms text l mode) ∧
      ((symsMode mode (leaveDigitsSyms text l mode)).state = .state2 →
        inSet2 (byteAt text l) = true ∧
          (symsMode mode (leaveDigitsSyms text l mode)).isAllUpper = false) := by
  rw [leaveDigitsSyms]
  split
  · rename_i leaves
    refine ⟨⟨leaves.1, trivial⟩, fun inDigits => ?_⟩
    cases inDigits
  · rename_i stays
    refine ⟨trivial, fun inDigits => ⟨inSet2_of_probe ?_, ok inDigits⟩⟩
    exact Bool.not_eq_false _ ▸ fun unknown => stays ⟨inDigits, unknown⟩

private theorem leaveCapsSyms_ready (nodes : List (Option CString)) {text : List UInt8}
    {l : Nat} (mode : Mode)
    (digits : mode.state = .state2 → inSet2 (byteAt text l) = true ∧ mode.isAllUpper = false) :
    SymsValid nodes mode (leaveCapsSyms text l mode) ∧
      (symsMode mode (leaveCapsSyms text l mode)).state = mode.state ∧
      ((symsMode mode (leaveCapsSyms text l mode)).isAllUpper = true →
        isUpper (byteAt text l) = true ∧ mode.isAllUpper = true) := by
  rw [leaveCapsSyms]
  split
  · rename_i leaves
    have inLetters : mode.state = .state1 := by
      cases inState : mode.state with
      | state1 => rfl
      | state2 => exact absurd ((digits inState).2.symm.trans leaves.2) (by decide)
    refine ⟨⟨⟨inLetters, leaves.2⟩, trivial⟩, rfl, fun inCaps => ?_⟩
    cases inCaps
  · rename_i stays
    refine ⟨trivial, rfl, fun inCaps => ⟨?_, inCaps⟩⟩
    exact Bool.not_eq_false _ ▸ fun notUpper => stays ⟨notUpper, inCaps⟩

private theorem enterCapsSyms_ready (nodes : List (Option CString)) {text : List UInt8}
    {l : Nat} (mode : Mode)
    (digits : mode.state = .state2 → inSet2 (byteAt text l) = true ∧ mode.isAllUpper = false)
    (caps : mode.isAllUpper = true → isUpper (byteAt text l) = true) :
    SymsValid nodes mode (enterCapsSyms text l mode) ∧
      (symsMode mode (enterCapsSyms text l mode)).state = mode.state ∧
      ((symsMode mode (enterCapsSyms text l mode)).isAllUpper = true →
        isUpper (byteAt text l) = true) := by
  rw [enterCapsSyms]
  split
  · rename_i enters
    have inLetters : mode.state = .state1 := by
      cases inState : mode.state with
      | state1 => rfl
      | state2 =>
          have notUpper := isUpper_of_inSet2 _ (digits inState).1
          exact absurd (notUpper.symm.trans enters.1) (by decide)
    exact ⟨⟨⟨inLetters, enters.2.1⟩, trivial⟩, rfl, fun _ => enters.1⟩
  · exact ⟨trivial, rfl, caps⟩

private structure Ready (text : List UInt8) (l : Nat) (mode : Mode) : Prop where
  digits : mode.state = .state2 → inSet2 (byteAt text l) = true ∧ mode.isAllUpper = false
  caps : mode.isAllUpper = true → isUpper (byteAt text l) = true
  entered : isDigit (byteAt text l) = true → mode.state = .state2

private theorem enterDigitsSyms_ready (nodes : List (Option CString)) {text : List UInt8}
    {l : Nat} (mode : Mode)
    (digits : mode.state = .state2 → inSet2 (byteAt text l) = true ∧ mode.isAllUpper = false)
    (caps : mode.isAllUpper = true → isUpper (byteAt text l) = true) :
    SymsValid nodes mode (enterDigitsSyms text l mode) ∧
      Ready text l (symsMode mode (enterDigitsSyms text l mode)) := by
  rw [enterDigitsSyms]
  split
  · rename_i enters
    refine ⟨⟨enters.1, trivial⟩, fun _ => ⟨inSet2_of_isDigit _ enters.2, ?_⟩, caps,
      fun _ => rfl⟩
    rw [Bool.eq_false_iff]
    intro inCaps
    have notUpper := isUpper_of_isDigit _ enters.2
    exact absurd (notUpper.symm.trans (caps inCaps)) (by decide)
  · rename_i stays
    refine ⟨trivial, digits, caps, fun digit => ?_⟩
    cases inState : mode.state with
    | state1 => exact absurd ⟨inState, digit⟩ stays
    | state2 => exact inState

private theorem switchSyms_ready (nodes : List (Option CString)) (text : List UInt8) (l : Nat)
    {mode : Mode} (ok : mode.Ok) :
    SymsValid nodes mode (switchSyms text l mode) ∧
      Ready text l (symsMode mode (switchSyms text l mode)) := by
  let mode1 := symsMode mode (leaveDigitsSyms text l mode)
  let mode2 := symsMode mode1 (leaveCapsSyms text l mode1)
  let mode3 := symsMode mode2 (enterCapsSyms text l mode2)
  have ready1 := leaveDigitsSyms_ready nodes text l ok
  have ready2 := leaveCapsSyms_ready nodes mode1 ready1.2
  have digits2 : mode2.state = .state2 →
      inSet2 (byteAt text l) = true ∧ mode2.isAllUpper = false := by
    intro inDigits
    have before := ready1.2 (ready2.2.1.symm.trans inDigits)
    refine ⟨before.1, Bool.eq_false_iff.mpr fun inCaps => ?_⟩
    exact absurd (before.2.symm.trans (ready2.2.2 inCaps).2) (by decide)
  have ready3 := enterCapsSyms_ready nodes mode2 digits2
    fun inCaps => (ready2.2.2 inCaps).1
  have digits3 : mode3.state = .state2 →
      inSet2 (byteAt text l) = true ∧ mode3.isAllUpper = false := by
    intro inDigits
    have before := digits2 (ready3.2.1.symm.trans inDigits)
    refine ⟨before.1, Bool.eq_false_iff.mpr fun inCaps => ?_⟩
    exact absurd ((isUpper_of_inSet2 _ before.1).symm.trans (ready3.2.2 inCaps)) (by decide)
  have ready4 := enterDigitsSyms_ready nodes mode3 digits3 ready3.2.2
  simp only [switchSyms, chainSyms, List.append_nil, symsValid_append, symsMode_append]
  exact ⟨⟨ready1.1, ready2.1, ready3.1, ready4.1⟩, ready4.2⟩

private theorem hasCode_of_ready {text : List UInt8} {l : Nat} {mode : Mode}
    (ready : Ready text l mode) (known : supported (byteAt text l) = true) :
    hasCode mode (byteAt text l) = true := by
  rw [hasCode]
  cases inState : mode.state with
  | state2 => simp [(ready.digits inState).1, (ready.digits inState).2]
  | state1 =>
      have notDigit : isDigit (byteAt text l) = false := by
        rw [Bool.eq_false_iff]
        intro digit
        exact absurd (inState.symm.trans (ready.entered digit)) (by decide)
      cases inCaps : mode.isAllUpper with
      | true => simp [notDigit, ready.caps inCaps]
      | false => simp [notDigit, known]

theorem literalSyms_valid (nodes : List (Option CString)) (text : List UInt8) (l : Nat)
    {mode : Mode} (ok : mode.Ok) :
    SymsValid nodes mode (literalSyms text l mode) ∧
      (symsMode mode (literalSyms text l mode)).Ok := by
  rcases switchSyms_ready nodes text l ok with ⟨valid, ready⟩
  rw [literalSyms, symsValid_append, symsMode_append, symsMode_charSyms]
  refine ⟨⟨valid, ?_⟩, fun inDigits => (ready.digits inDigits).2⟩
  rw [charSyms]
  split
  · rename_i isCrlf
    refine ⟨?_, trivial⟩
    simp only [crlfAhead, Bool.and_eq_true, beq_iff_eq] at isCrlf
    cases inState : (symsMode mode (switchSyms text l mode)).state with
    | state1 => exact inState
    | state2 =>
        exact absurd isCrlf.1.1 (not_lineEnd_of_inSet2 _ (ready.digits inState).1)
  · split
    · rename_i known
      exact ⟨hasCode_of_ready ready known, trivial⟩
    · trivial

theorem runLength_spec {text : List UInt8} {l : Nat} {cPrev : UInt8}
    (ahead : runAhead text l cPrev = true) :
    4 ≤ runLength text l ∧ l + runLength text l ≤ text.length ∧ byteAt text l = cPrev ∧
      ∀ index, index < runLength text l → byteAt text (l + index) = byteAt text l := by
  simp only [runAhead, Bool.and_eq_true, decide_eq_true_eq, beq_iff_eq] at ahead
  rcases ahead with ⟨room, ⟨⟨same0, same1⟩, same2⟩, same3⟩
  have from4 := le_scan (fun index => decide (index < text.length) &&
    byteAt text index == byteAt text l) text.length (l + 4)
  have inText : scan (fun index => decide (index < text.length) &&
      byteAt text index == byteAt text l) text.length (l + 4) ≤ text.length :=
    scan_le (fun index beyond => by simp [Nat.not_lt.mpr beyond]) (Nat.le_of_lt room)
  refine ⟨?_, ?_, same0, fun index inside => ?_⟩
  · rw [runLength]
    omega
  · rw [runLength]
    omega
  · rw [runLength] at inside
    match index with
    | 0 => rfl
    | 1 => exact same1.symm
    | 2 => exact same2.symm
    | 3 => exact same3.symm
    | index + 4 =>
        have small : l + 4 ≤ l + (index + 4) := by omega
        have here := scan_holds small
          (show _ < scan (fun index => decide (index < text.length) &&
            byteAt text index == byteAt text l) text.length (l + 4) by omega)
        simp only [Bool.and_eq_true, beq_iff_eq] at here
        exact here.2

theorem passNext_bounds {text : List UInt8} (switches : Switches) (prevLines : Option LnkLst)
    {c : Control} (more : c.l < text.length) :
    c.l < (passNext text switches prevLines c).l ∧
      (passNext text switches prevLines c).l ≤ text.length := by
  rw [passNext]
  split
  · rename_i isRun
    have run := runLength_spec isRun
    simp only
    omega
  · split
    · rename_i length dist found
      have sound := planPrior_sound found
      simp only [niceLenForPrior] at sound
      simp only [afterReference]
      omega
    · split
      · rename_i ref found
        rcases planLine_sound found with ⟨line, sound⟩
        have long := sound.long
        have inText := sound.inText
        simp only [niceLenForOther] at long
        simp only [afterReference]
        omega
      · cases isCrlf : crlfAhead text c.l with
        | false =>
            simp only [Bool.false_eq_true, if_false]
            omega
        | true =>
            simp only [crlfAhead, Bool.and_eq_true, decide_eq_true_eq] at isCrlf
            simp only [if_true]
            omega

theorem Planned.l_le {text : List UInt8} {switches : Switches} {prevLines : Option LnkLst}
    {c : Control} {syms : List Sym} (planned : Planned text switches prevLines c syms) :
    c.l ≤ text.length := by
  cases planned with
  | start => exact Nat.zero_le _
  | pass _ more => exact (passNext_bounds switches prevLines more).2

/-- The limits under which every count of a text has a code. -/
structure Limits (text : List UInt8) (nodes : List (Option CString)) : Prop where
  shortText : text.length ≤ 70308
  fewLines : nodes.length < 70308
  shortLines : ∀ line, some line ∈ nodes → line.strlen < 70308

theorem passSyms_valid {text : List UInt8} (switches : Switches) {prevLines : Option LnkLst}
    (limits : Limits text (LnkLst.nodes prevLines)) {c : Control} (ok : c.toMode.Ok)
    (more : c.l < text.length) :
    SymsValid (LnkLst.nodes prevLines) c.toMode (passSyms text switches prevLines c) ∧
      (passNext text switches prevLines c).toMode.Ok := by
  have textLimit := limits.shortText
  rw [passSyms, passNext]
  split
  · rename_i isRun
    have run := runLength_spec isRun
    exact ⟨⟨⟨run.1, by omega⟩, trivial⟩, ok⟩
  · split
    · rename_i length dist found
      have sound := planPrior_sound found
      simp only [niceLenForPrior] at sound
      refine ⟨⟨⟨?_, ?_, ?_, ?_⟩, trivial⟩, ok⟩ <;>
        simp only [niceLenForPrior] <;> omega
    · split
      · rename_i ref found
        rcases planLine_sound found with ⟨line, sound⟩
        have inText := sound.inText
        have inLine := sound.inLine
        have lineLimit := limits.shortLines line (List.mem_of_getElem? sound.node)
        have nodeLimit := limits.fewLines
        have ctxInside := (List.getElem?_eq_some_iff.mp sound.node).1
        refine ⟨⟨⟨sound.long, ?_, ?_, ?_, line, sound.node, inLine⟩, trivial⟩, ok⟩ <;> omega
      · exact literalSyms_valid (LnkLst.nodes prevLines) text c.l ok

theorem Planned.valid {text : List UInt8} {switches : Switches} {prevLines : Option LnkLst}
    (limits : Limits text (LnkLst.nodes prevLines)) {c : Control} {syms : List Sym}
    (planned : Planned text switches prevLines c syms) :
    SymsValid (LnkLst.nodes prevLines) .initial syms ∧ c.toMode.Ok := by
  induction planned with
  | start =>
      refine ⟨trivial, fun inDigits => ?_⟩
      cases inDigits
  | @pass c syms planned more induction =>
      rcases induction with ⟨valid, ok⟩
      rcases passSyms_valid switches limits ok more with ⟨passValid, nextOk⟩
      rw [symsValid_append, ← planned.mode]
      exact ⟨⟨valid, passValid⟩, nextOk⟩

/-! ## Widths -/

/-- The bytes of the text a pass skips without a symbol: a byte that has no
code and is coded alone. -/
def passDropped (text : List UInt8) (switches : Switches) (prevLines : Option LnkLst)
    (c : Control) : Nat :=
  if runAhead text c.l c.cPrev = false ∧ planPrior text switches c.l = none ∧
      (planLine text switches prevLines c.l).isNone ∧ supported (byteAt text c.l) = false then
    1
  else
    0

theorem passNext_l (text : List UInt8) (switches : Switches) (prevLines : Option LnkLst)
    (c : Control) :
    (passNext text switches prevLines c).l =
      c.l + symsWidth (passSyms text switches prevLines c) +
        passDropped text switches prevLines c := by
  rw [passNext, passSyms, passDropped]
  split
  · rename_i isRun
    simp [symsWidth, Sym.width, isRun]
  · rename_i noRun
    rw [Bool.not_eq_true] at noRun
    split
    · rename_i found
      simp [symsWidth, Sym.width, afterReference, found]
    · rename_i noPrior
      split
      · rename_i found
        simp [symsWidth, Sym.width, afterReference, found]
      · rename_i noLine
        simp only [literalSyms, symsWidth_append, switchSyms_width, noRun, noPrior, noLine,
          true_and, Option.isNone_none, charSyms]
        cases isCrlf : crlfAhead text c.l with
        | true =>
            simp only [crlfAhead, Bool.and_eq_true, beq_iff_eq] at isCrlf
            simp [symsWidth, Sym.width, isCrlf.1.1, supported]
        | false =>
            cases known : supported (byteAt text c.l) <;> simp [symsWidth, Sym.width]

theorem Planned.width_le {text : List UInt8} {switches : Switches} {prevLines : Option LnkLst}
    {c : Control} {syms : List Sym} (planned : Planned text switches prevLines c syms) :
    symsWidth syms ≤ c.l := by
  induction planned with
  | start => exact Nat.le_refl 0
  | pass planned more induction =>
      rw [symsWidth_append, passNext_l]
      omega

/-- Nothing of a supported text is dropped. -/
theorem Planned.width {text : List UInt8} {switches : Switches} {prevLines : Option LnkLst}
    {c : Control} {syms : List Sym} (supportedText : SupportedText text)
    (planned : Planned text switches prevLines c syms) : symsWidth syms = c.l := by
  induction planned with
  | start => rfl
  | @pass c syms planned more induction =>
      have kept : passDropped text switches prevLines c = 0 := by
        simp [passDropped, supportedText.byteAt more]
      rw [symsWidth_append, passNext_l, induction, kept, Nat.add_zero]

end EspSqlite.Shox96
