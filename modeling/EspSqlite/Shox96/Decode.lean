import EspSqlite.Shox96.Plan

/-! # The decoder understands the symbols

On the bits of a valid symbol one pass of the decoder's loop has exactly the
symbol's meaning, whatever follows; hence a run over the bits of a valid string
of symbols has the meaning of the string. -/

namespace EspSqlite.Shox96

open BitMemory Loop

/-! ## Table entries -/

def glyph (dstate h v : Nat) (isUpper : Bool) : Option UInt8 :=
  let c := (sets.getD h []).getD v 0
  if 97 ≤ c ∧ c ≤ 122 then
    some (if isUpper then c - 32 else c)
  else
    let c := if isUpper = true ∧ dstate = shxSet1 ∧ v = 1 then 9 else c
    if h = shxSet1B then
      if v = 7 then some (if isUpper then 13 else 10)
      else if v = 6 ∨ v = 8 ∨ v = 9 ∨ v = 10 then none
      else some c
    else
      some c

theorem decodeEntry_glyph {inp : Nat → UInt8} {len : Nat} {nodes : List (Option CString)}
    {dstate h v : Nat} {isUpper : Bool} {s : DecState} {c : UInt8} (inState : s.dstate = dstate)
    (shown : glyph dstate h v isUpper = some c) :
    decodeEntry inp len nodes h v isUpper s = .next { s with out := s.out.put c } := by
  subst inState
  rw [glyph] at shown
  rw [decodeEntry]
  simp only at shown ⊢
  split at shown
  · rename_i letter
    rw [Option.some.injEq] at shown
    rw [if_pos letter, shown]
  · rename_i notLetter
    rw [if_neg notLetter]
    split at shown
    · rename_i special
      rw [if_pos special]
      split at shown
      · rename_i lineEnd
        subst lineEnd
        rw [Option.some.injEq] at shown
        simp only [shown]
      · rename_i notLineEnd
        split at shown
        · cases shown
        · rename_i plain
          rw [Option.some.injEq] at shown
          simp only [not_or] at plain
          split
          · exact absurd rfl plain.1
          · exact absurd rfl notLineEnd
          · exact absurd rfl plain.2.1
          · exact absurd rfl plain.2.2.1
          · exact absurd rfl plain.2.2.2
          · rw [shown]
    · rename_i notSpecial
      rw [Option.some.injEq] at shown
      rw [if_neg notSpecial, shown]

/-! ## Paths to a table entry -/

inductive CodePath where
  | plain (v : Nat)
  | row (h v : Nat)
  | upper (v : Nat)
  | upperRow (h v : Nat)

def CodePath.bits : CodePath → List Bool
  | .plain v => vword v
  | .row h v => vword 0 ++ hword h ++ vword v
  | .upper v => vword 0 ++ hword 0 ++ vword v
  | .upperRow h v => vword 0 ++ hword 0 ++ vword 0 ++ hword h ++ vword v

def ShxState.dstate : ShxState → Nat
  | .state1 => shxSet1
  | .state2 => shxSet2

def CodePath.entry (mode : Mode) : CodePath → Nat × Nat × Bool
  | .plain v => (mode.state.dstate, v, mode.isAllUpper)
  | .row h v => (h, v, mode.isAllUpper)
  | .upper v => (shxSet1, v, true)
  | .upperRow h v => (h, v, true)

def CodePath.Valid (mode : Mode) : CodePath → Prop
  | .plain v => 0 < v ∧ v < 11
  | .row h v => 0 < h ∧ h < 7 ∧ h ≠ 3 ∧ v < 11
  | .upper v => mode.state = .state1 ∧ mode.isAllUpper = false ∧ 0 < v ∧ v < 11
  | .upperRow h v =>
      mode.state = .state1 ∧ mode.isAllUpper = false ∧ 0 < h ∧ h < 7 ∧ v < 11

instance (mode : Mode) (path : CodePath) : Decidable (path.Valid mode) := by
  cases path <;> unfold CodePath.Valid <;> infer_instance

structure DecState.Matches (s : DecState) (mode : Mode) : Prop where
  dstate : s.dstate = mode.state.dstate
  isAllUpper : s.isAllUpper = mode.isAllUpper

section Path

variable {inp : Nat → UInt8} {len : Nat} {nodes : List (Option CString)} {s : DecState}
  {mode : Mode}

private theorem vword_length_pos : ∀ index < 11, 0 < (vword index).length := by
  decide

/-- On the bits of a path the step ends at the path's table entry. -/
theorem decompressStep_path {path : CodePath} (sMatches : s.Matches mode)
    (valid : path.Valid mode) (carries : Carries inp s.bitNo path.bits)
    (fits : s.bitNo + path.bits.length ≤ len) :
    decompressStep inp len nodes s =
      decodeEntry inp len nodes (path.entry mode).1 (path.entry mode).2.1
        (path.entry mode).2.2 { s with bitNo := s.bitNo + path.bits.length } := by
  cases path with
  | plain v =>
      rcases valid with ⟨vPositive, vBound⟩
      have positive := vword_length_pos v vBound
      simp only [CodePath.bits] at carries fits
      have more : s.bitNo < len := by omega
      have readV := getCodeIdx_vword len vBound carries fits
      have vNotEnd : v ≠ 199 := by omega
      have vNotZero : v ≠ 0 := by omega
      simp only [decompressStep, more, if_true, readV, vNotEnd, if_false, vNotZero,
        CodePath.entry, CodePath.bits, sMatches.dstate, sMatches.isAllUpper]
  | row h v =>
      rcases valid with ⟨hPositive, hBound, hNotSet2, vBound⟩
      simp only [CodePath.bits, carries_append, List.length_append, ← Nat.add_assoc] at carries fits
      rcases carries with ⟨⟨carries0, carriesH⟩, carriesV⟩
      have readV0 := getCodeIdx_vword len (by omega) carries0 (by omega)
      have readH := getCodeIdx_hword len hBound carriesH (by omega)
      have readV := getCodeIdx_vword len vBound carriesV (by omega)
      have more : s.bitNo < len := by
        have positive := vword_length_pos 0 (by omega)
        omega
      have vNotEnd : v ≠ 199 := by omega
      have hNotEnd : h ≠ 199 := by omega
      have hNotSet1 : h ≠ shxSet1 := by
        simp only [shxSet1]
        omega
      have hNotSet2 : h ≠ shxSet2 := hNotSet2
      simp only [decompressStep, more, if_true, readV0, OfNat.zero_ne_ofNat, if_false, readH,
        hNotEnd, hNotSet1, hNotSet2, readV, vNotEnd, CodePath.entry, CodePath.bits,
        List.length_append, ← Nat.add_assoc, sMatches.isAllUpper]
  | upper v =>
      rcases valid with ⟨inState1, noCaps, vPositive, vBound⟩
      simp only [CodePath.bits, carries_append, List.length_append, ← Nat.add_assoc] at carries fits
      rcases carries with ⟨⟨carries0, carriesH⟩, carriesV⟩
      have readV0 := getCodeIdx_vword len (by omega) carries0 (by omega)
      have readH := getCodeIdx_hword len (by omega) carriesH (by omega)
      have readV := getCodeIdx_vword len vBound carriesV (by omega)
      have more : s.bitNo < len := by
        have positive := vword_length_pos 0 (by omega)
        omega
      have vNotEnd : v ≠ 199 := by omega
      have vNotZero : v ≠ 0 := by omega
      have dstate : s.dstate = shxSet1 := by rw [sMatches.dstate, inState1, ShxState.dstate]
      have caps : s.isAllUpper = false := by rw [sMatches.isAllUpper, noCaps]
      have zeroIsSet1 : (0 : Nat) = shxSet1 := rfl
      simp only [decompressStep, more, if_true, readV0, OfNat.zero_ne_ofNat, if_false, readH,
        ← zeroIsSet1, dstate, caps, Bool.false_eq_true, readV, vNotEnd, vNotZero,
        CodePath.entry, CodePath.bits, List.length_append, ← Nat.add_assoc]
  | upperRow h v =>
      rcases valid with ⟨inState1, noCaps, hPositive, hBound, vBound⟩
      simp only [CodePath.bits, carries_append, List.length_append, ← Nat.add_assoc] at carries fits
      rcases carries with ⟨⟨⟨⟨carries0, carriesH⟩, carries1⟩, carriesH1⟩, carriesV⟩
      have readV0 := getCodeIdx_vword len (by omega) carries0 (by omega)
      have readH := getCodeIdx_hword len (by omega) carriesH (by omega)
      have readV1 := getCodeIdx_vword len (by omega) carries1 (by omega)
      have readH1 := getCodeIdx_hword len hBound carriesH1 (by omega)
      have readV := getCodeIdx_vword len vBound carriesV (by omega)
      have more : s.bitNo < len := by
        have positive := vword_length_pos 0 (by omega)
        omega
      have vNotEnd : v ≠ 199 := by omega
      have hNotEnd : h ≠ 199 := by omega
      have hNotZero : h ≠ 0 := by omega
      have dstate : s.dstate = shxSet1 := by rw [sMatches.dstate, inState1, ShxState.dstate]
      have caps : s.isAllUpper = false := by rw [sMatches.isAllUpper, noCaps]
      have zeroIsSet1 : (0 : Nat) = shxSet1 := rfl
      simp only [decompressStep, more, if_true, readV0, OfNat.zero_ne_ofNat, if_false, readH,
        ← zeroIsSet1, dstate, caps, Bool.false_eq_true, readV1, readH1, hNotEnd, hNotZero,
        readV, vNotEnd, CodePath.entry, CodePath.bits, List.length_append, ← Nat.add_assoc]

/-! ## Symbols -/

def parsePath (bits : List Bool) : Option CodePath :=
  match decodeWord vcode bits 0 0 with
  | some (0, rest) =>
      match decodeWord hcode rest 0 0 with
      | some (0, rest) =>
          match decodeWord vcode rest 0 0 with
          | some (0, rest) =>
              match decodeWord hcode rest 0 0 with
              | some (h, rest) => (decodeWord vcode rest 0 0).map fun v => .upperRow h v.1
              | none => none
          | some (v, _) => some (.upper v)
          | none => none
      | some (h, rest) => (decodeWord vcode rest 0 0).map fun v => .row h v.1
      | none => none
  | some (v, _) => some (.plain v)
  | none => none

def Spells (mode : Mode) (c : UInt8) (path : CodePath) : Prop :=
  path.Valid mode ∧ path.bits = charBits mode c ∧
    glyph mode.state.dstate (path.entry mode).1 (path.entry mode).2.1
      (path.entry mode).2.2 = some c

instance (mode : Mode) (c : UInt8) (path : CodePath) : Decidable (Spells mode c path) :=
  inferInstanceAs (Decidable (path.Valid mode ∧ path.bits = charBits mode c ∧
    glyph mode.state.dstate (path.entry mode).1 (path.entry mode).2.1
      (path.entry mode).2.2 = some c))

theorem exists_spells : ∀ (mode : Mode) (c : UInt8), hasCode mode c = true →
    ∃ path, Spells mode c path := by
  have checked : ∀ (state : ShxState) (isAllUpper : Bool) (c : UInt8),
      hasCode ⟨state, isAllUpper⟩ c = true →
        (parsePath (charBits ⟨state, isAllUpper⟩ c)).any
          (fun path => decide (Spells ⟨state, isAllUpper⟩ c path)) = true := by
    rintro (_ | _) (_ | _) <;> exact forall_byte (by decide +kernel)
  intro mode c known
  have found := checked mode.state mode.isAllUpper c known
  cases parsed : parsePath (charBits mode c) with
  | none => simp [parsed] at found
  | some path =>
      rw [parsed] at found
      exact ⟨path, by simpa using found⟩

def Decodes (inp : Nat → UInt8) (len : Nat) (nodes : List (Option CString)) (s : DecState)
    (mode : Mode) (sym : Sym) : Prop :=
  ∃ s', decompressStep inp len nodes s = .next s' ∧
    s'.bitNo = s.bitNo + (sym.bits mode).length ∧ s'.Matches (sym.next mode) ∧
    s'.out = sym.apply nodes s.out

private theorem read_switch {pos h : Nat} (hBound : h < 7)
    (carries : Carries inp pos (vword 0 ++ hword h))
    (fits : pos + (vword 0 ++ hword h).length ≤ len) :
    pos < len ∧ getCodeIdx vcode inp len pos = (0, pos + (vword 0).length) ∧
      getCodeIdx hcode inp len (pos + (vword 0).length) =
        (h, pos + (vword 0 ++ hword h).length) := by
  simp only [carries_append, List.length_append, ← Nat.add_assoc] at carries fits ⊢
  have positive := vword_length_pos 0 (by omega)
  exact ⟨by omega, getCodeIdx_vword len (by omega) carries.1 (by omega),
    getCodeIdx_hword len hBound carries.2 (by omega)⟩

private theorem decodes_toSet1 (sMatches : s.Matches mode) (valid : Sym.Valid nodes mode .toSet1)
    (carries : Carries inp s.bitNo (Sym.bits mode .toSet1))
    (fits : s.bitNo + (Sym.bits mode .toSet1).length ≤ len) :
    Decodes inp len nodes s mode .toSet1 := by
  have spelled : Sym.bits mode .toSet1 = vword 0 ++ hword 0 := by
    simp only [Sym.bits]
    decide
  have inState2 : mode.state = .state2 := valid
  rw [spelled] at carries fits
  rcases read_switch (by omega) carries fits with ⟨more, readV, readH⟩
  have dstate : s.dstate ≠ shxSet1 := by
    rw [sMatches.dstate, inState2]
    decide
  have zeroIsSet1 : (0 : Nat) = shxSet1 := rfl
  rw [Decodes]
  simp only [decompressStep, more, if_true, readV, OfNat.zero_ne_ofNat, if_false, readH,
    zeroIsSet1 ▸ dstate, ← zeroIsSet1]
  exact ⟨_, rfl, by rw [spelled], ⟨rfl, sMatches.isAllUpper⟩, rfl⟩

private theorem decodes_capsOff (sMatches : s.Matches mode)
    (valid : Sym.Valid nodes mode .capsOff)
    (carries : Carries inp s.bitNo (Sym.bits mode .capsOff))
    (fits : s.bitNo + (Sym.bits mode .capsOff).length ≤ len) :
    Decodes inp len nodes s mode .capsOff := by
  rcases valid with ⟨inState1, inCaps⟩
  have spelled : Sym.bits mode .capsOff = vword 0 ++ hword 0 := by
    simp only [Sym.bits, inState1]
    decide
  rw [spelled] at carries fits
  rcases read_switch (by omega) carries fits with ⟨more, readV, readH⟩
  have dstate : s.dstate = 0 := by rw [sMatches.dstate, inState1]; rfl
  have caps : s.isAllUpper = true := by rw [sMatches.isAllUpper, inCaps]
  have set1IsZero : shxSet1 = 0 := rfl
  rw [Decodes]
  simp only [decompressStep, more, if_true, readV, OfNat.zero_ne_ofNat, if_false, readH,
    set1IsZero, dstate, caps]
  refine ⟨_, rfl, by rw [spelled], ⟨?_, rfl⟩, rfl⟩
  simp only [Sym.next, inState1]
  rfl

private theorem decodes_capsOn (sMatches : s.Matches mode)
    (valid : Sym.Valid nodes mode .capsOn)
    (carries : Carries inp s.bitNo (Sym.bits mode .capsOn))
    (fits : s.bitNo + (Sym.bits mode .capsOn).length ≤ len) :
    Decodes inp len nodes s mode .capsOn := by
  rcases valid with ⟨inState1, noCaps⟩
  have spelled : Sym.bits mode .capsOn = vword 0 ++ hword 0 ++ (vword 0 ++ hword 0) := by
    simp only [Sym.bits, inState1]
    decide
  rw [spelled] at carries fits
  rw [List.length_append, ← Nat.add_assoc] at fits
  rw [carries_append] at carries
  rcases read_switch (by omega) carries.1 (Nat.le_trans (Nat.le_add_right _ _) fits) with
    ⟨more, readV, readH⟩
  rcases read_switch (by omega) carries.2 fits with ⟨_, readV1, readH1⟩
  have dstate : s.dstate = 0 := by rw [sMatches.dstate, inState1]; rfl
  have caps : s.isAllUpper = false := by rw [sMatches.isAllUpper, noCaps]
  have set1IsZero : shxSet1 = 0 := rfl
  rw [Decodes]
  simp only [decompressStep, more, if_true, readV, OfNat.zero_ne_ofNat, if_false, readH,
    set1IsZero, dstate, caps, Bool.false_eq_true, readV1, readH1]
  refine ⟨_, rfl, ?_, ⟨?_, rfl⟩, rfl⟩
  · rw [spelled]
    simp only [List.length_append, Nat.add_assoc]
  · simp only [Sym.next, inState1]
    rfl

private theorem decodes_toSet2 (sMatches : s.Matches mode)
    (valid : Sym.Valid nodes mode .toSet2)
    (carries : Carries inp s.bitNo (Sym.bits mode .toSet2))
    (fits : s.bitNo + (Sym.bits mode .toSet2).length ≤ len) :
    Decodes inp len nodes s mode .toSet2 := by
  have inState1 : mode.state = .state1 := valid
  have spelled : Sym.bits mode .toSet2 = vword 0 ++ hword 3 := by
    simp only [Sym.bits, inState1]
    decide
  rw [spelled] at carries fits
  rcases read_switch (by omega) carries fits with ⟨more, readV, readH⟩
  have dstate : s.dstate = 0 := by rw [sMatches.dstate, inState1]; rfl
  have set1IsZero : shxSet1 = 0 := rfl
  have set2IsThree : shxSet2 = 3 := rfl
  rw [Decodes]
  simp only [decompressStep, more, if_true, readV, OfNat.zero_ne_ofNat, if_false, readH,
    set1IsZero, set2IsThree, dstate, OfNat.ofNat_ne_zero, Nat.reduceEqDiff]
  exact ⟨_, rfl, by rw [spelled], ⟨rfl, sMatches.isAllUpper⟩, rfl⟩

private theorem decodes_char (sMatches : s.Matches mode) {c : UInt8}
    (valid : Sym.Valid nodes mode (.char c))
    (carries : Carries inp s.bitNo (Sym.bits mode (.char c)))
    (fits : s.bitNo + (Sym.bits mode (.char c)).length ≤ len) :
    Decodes inp len nodes s mode (.char c) := by
  rcases exists_spells mode c valid with ⟨path, pathValid, spelled, shown⟩
  rw [Sym.bits, ← spelled] at carries fits
  have dstate : DecState.dstate { s with bitNo := s.bitNo + path.bits.length } =
      mode.state.dstate := sMatches.dstate
  rw [Decodes]
  rw [decompressStep_path sMatches pathValid carries fits, decodeEntry_glyph dstate shown]
  exact ⟨_, rfl, by rw [Sym.bits, spelled], ⟨sMatches.dstate, sMatches.isAllUpper⟩, rfl⟩

private theorem decompressStep_special (sMatches : s.Matches mode) {v : Nat} (vBound : v < 11)
    (carries : Carries inp s.bitNo (CodePath.row 2 v).bits)
    (fits : s.bitNo + (CodePath.row 2 v).bits.length ≤ len) :
    decompressStep inp len nodes s =
      decodeEntry inp len nodes 2 v mode.isAllUpper
        { s with bitNo := s.bitNo + (CodePath.row 2 v).bits.length } :=
  have valid : CodePath.Valid mode (.row 2 v) := ⟨by omega, by omega, by omega, vBound⟩
  decompressStep_path sMatches valid carries fits

private theorem decodes_crlf (sMatches : s.Matches mode) (valid : Sym.Valid nodes mode .crlf)
    (carries : Carries inp s.bitNo (Sym.bits mode .crlf))
    (fits : s.bitNo + (Sym.bits mode .crlf).length ≤ len) :
    Decodes inp len nodes s mode .crlf := by
  have inState1 : mode.state = .state1 := valid
  have spelled : Sym.bits mode .crlf = (CodePath.row 2 6).bits := by
    simp only [Sym.bits, inState1]
    decide
  rw [spelled] at carries fits
  rw [Decodes]
  rw [decompressStep_special sMatches (by omega) carries fits, spelled]
  exact ⟨_, rfl, rfl, ⟨sMatches.dstate, sMatches.isAllUpper⟩, rfl⟩

private theorem decodes_run (sMatches : s.Matches mode) {count : Nat}
    (valid : Sym.Valid nodes mode (.run count))
    (carries : Carries inp s.bitNo (Sym.bits mode (.run count)))
    (fits : s.bitNo + (Sym.bits mode (.run count)).length ≤ len) :
    Decodes inp len nodes s mode (.run count) := by
  rcases valid with ⟨long, encodable⟩
  have spelled : codeword 14208 10 = (CodePath.row 2 9).bits := by decide
  simp only [Sym.bits, spelled, List.length_append, ← Nat.add_assoc] at carries fits
  rw [carries_append] at carries
  have read := readCount_countBits encodable carries.2 fits
  rw [Decodes]
  rw [decompressStep_special sMatches (by omega) carries.1 (by omega)]
  refine ⟨_, rfl, ?_, ⟨sMatches.dstate, sMatches.isAllUpper⟩, ?_⟩
  · simp only [read, Sym.bits, spelled, List.length_append, Nat.add_assoc]
  · simp only [read, Sym.apply, Nat.sub_add_cancel long]

private theorem decodes_back (sMatches : s.Matches mode) {length dist : Nat}
    (valid : Sym.Valid nodes mode (.back length dist))
    (carries : Carries inp s.bitNo (Sym.bits mode (.back length dist)))
    (fits : s.bitNo + (Sym.bits mode (.back length dist)).length ≤ len) :
    Decodes inp len nodes s mode (.back length dist) := by
  rcases valid with ⟨longLength, longDist, lengthFits, distFits⟩
  have spelled : codeword 14144 10 = (CodePath.row 2 8).bits ++ [true] := by decide
  rw [Sym.bits, priorBits, spelled] at carries fits
  simp only [carries_append, List.length_append, List.length_singleton, ← Nat.add_assoc]
    at carries fits
  rcases carries with ⟨⟨⟨carriesPath, carriesBit⟩, carriesLength⟩, carriesDist⟩
  have isSet : bitAt inp (s.bitNo + (CodePath.row 2 8).bits.length) = true :=
    (carries_cons.mp carriesBit).1
  have readLength := readCount_countBits lengthFits carriesLength
    (Nat.le_trans (Nat.le_add_right _ _) fits)
  have readDist := readCount_countBits distFits carriesDist fits
  have distEq : dist - niceLenForPrior + 1 + niceLenForPrior - 1 = dist := by
    simp only [niceLenForPrior] at longDist ⊢
    omega
  have room : s.bitNo + (CodePath.row 2 8).bits.length ≤ len := by omega
  rw [Decodes]
  rw [decompressStep_special sMatches (by omega) carriesPath room]
  refine ⟨{ s with
    bitNo := s.bitNo + (Sym.bits mode (.back length dist)).length
    out := Sym.apply nodes s.out (.back length dist) }, ?_, rfl,
    ⟨sMatches.dstate, sMatches.isAllUpper⟩, rfl⟩
  have entry : ∀ state : DecState, decodeEntry inp len nodes 2 8 mode.isAllUpper state =
      decodeReference inp len nodes state := fun _ => rfl
  simp only [entry, decodeReference, getBitVal_eq, isSet, if_true, readLength, readDist, distEq,
    Nat.sub_add_cancel longLength, pow_zero, ne_eq, one_ne_zero, not_false_eq_true, Sym.apply,
    Sym.bits, priorBits, spelled, List.length_append, List.length_singleton, ← Nat.add_assoc]

private theorem decodes_line (sMatches : s.Matches mode) {ref : LineRef}
    (valid : Sym.Valid nodes mode (.line ref))
    (carries : Carries inp s.bitNo (Sym.bits mode (.line ref)))
    (fits : s.bitNo + (Sym.bits mode (.line ref)).length ≤ len) :
    Decodes inp len nodes s mode (.line ref) := by
  rcases valid with ⟨longLength, lengthFits, distFits, ctxFits, line, node, inLine⟩
  have spelled : codeword 14080 10 = (CodePath.row 2 8).bits ++ [false] := by decide
  rw [Sym.bits, LineRef.bits, spelled] at carries fits
  simp only [carries_append, List.length_append, List.length_singleton, ← Nat.add_assoc]
    at carries fits
  rcases carries with ⟨⟨⟨⟨carriesPath, carriesBit⟩, carriesLength⟩, carriesDist⟩, carriesCtx⟩
  have isClear : bitAt inp (s.bitNo + (CodePath.row 2 8).bits.length) = false :=
    (carries_cons.mp carriesBit).1
  have roomDist := Nat.le_trans (Nat.le_add_right _ _) fits
  have readLength := readCount_countBits lengthFits carriesLength
    (Nat.le_trans (Nat.le_add_right _ _) roomDist)
  have readDist := readCount_countBits distFits carriesDist roomDist
  have readCtx := readCount_countBits ctxFits carriesCtx fits
  have room : s.bitNo + (CodePath.row 2 8).bits.length ≤ len := by omega
  have inside : ref.dist + ref.length ≤ line.strlen + 1 := by omega
  rw [Decodes]
  rw [decompressStep_special sMatches (by omega) carriesPath room]
  refine ⟨{ s with
    bitNo := s.bitNo + (Sym.bits mode (.line ref)).length
    out := Sym.apply nodes s.out (.line ref) }, ?_, rfl,
    ⟨sMatches.dstate, sMatches.isAllUpper⟩, rfl⟩
  have entry : ∀ state : DecState, decodeEntry inp len nodes 2 8 mode.isAllUpper state =
      decodeReference inp len nodes state := fun _ => rfl
  simp only [entry, decodeReference, getBitVal_eq, isClear, Bool.false_eq_true, if_false,
    readLength, readDist, readCtx, ne_eq, not_true, copyLine, node,
    Nat.sub_add_cancel longLength, if_pos inside, Sym.apply, lineBytes, Sym.bits,
    LineRef.bits, spelled, List.length_append, List.length_singleton, ← Nat.add_assoc]

theorem decompressStep_sym (sMatches : s.Matches mode) {sym : Sym}
    (valid : sym.Valid nodes mode) (carries : Carries inp s.bitNo (sym.bits mode))
    (fits : s.bitNo + (sym.bits mode).length ≤ len) : Decodes inp len nodes s mode sym := by
  cases sym with
  | toSet1 => exact decodes_toSet1 sMatches valid carries fits
  | toSet2 => exact decodes_toSet2 sMatches valid carries fits
  | capsOff => exact decodes_capsOff sMatches valid carries fits
  | capsOn => exact decodes_capsOn sMatches valid carries fits
  | char c => exact decodes_char sMatches valid carries fits
  | crlf => exact decodes_crlf sMatches valid carries fits
  | run count => exact decodes_run sMatches valid carries fits
  | back length dist => exact decodes_back sMatches valid carries fits
  | line ref => exact decodes_line sMatches valid carries fits

end Path

/-! ## Strings of symbols -/

/-- The decoder's loop runs through a valid string of symbols, whatever follows
its bits, and has then applied them all. -/
theorem decompress_syms {inp : Nat → UInt8} {len : Nat} {nodes : List (Option CString)}
    {syms : List Sym} : ∀ {s : DecState} {mode : Mode}, s.Matches mode →
    SymsValid nodes mode syms → Carries inp s.bitNo (symsBits mode syms) →
    s.bitNo + (symsBits mode syms).length ≤ len →
    ∃ s', Reaches (decompressStep inp len nodes) s s' ∧
      s'.bitNo = s.bitNo + (symsBits mode syms).length ∧
      s'.Matches (symsMode mode syms) ∧ s'.out = symsApply nodes s.out syms := by
  induction syms with
  | nil =>
      intro s mode sMatches _ _ _
      exact ⟨s, Reaches.refl s, rfl, sMatches, rfl⟩
  | cons sym rest induction =>
      intro s mode sMatches valid carries fits
      rw [symsBits, carries_append] at carries
      simp only [symsBits, List.length_append, ← Nat.add_assoc] at fits ⊢
      rcases decompressStep_sym sMatches valid.1 carries.1
        (Nat.le_trans (Nat.le_add_right _ _) fits) with ⟨middle, taken, bitNo, matches', out⟩
      rcases induction matches' valid.2 (bitNo ▸ carries.2) (bitNo ▸ fits) with
        ⟨final, reaches, finalBitNo, finalMatches, finalOut⟩
      refine ⟨final, (Reaches.single taken).trans reaches, ?_, finalMatches, ?_⟩
      · rw [finalBitNo, bitNo]
      · rw [finalOut, out]
        rfl

end EspSqlite.Shox96
