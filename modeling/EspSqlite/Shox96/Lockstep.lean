import EspSqlite.Shox96.Decode
import EspSqlite.Shox96.Output

/-! # Encoder and decoder in lockstep

Both loops end. The decoder's loop reaches, for every head of the encoder's
loop, a head with the same position, mode and output length; after the last
one it stops inside the padding. -/

namespace EspSqlite.Shox96

open BitMemory Loop

/-! ## The encoder's loop ends -/

private theorem compressStep_measure {text : List UInt8} {switches : Switches}
    {prevLines : Option LnkLst} (s following : EncState)
    (taken : compressStep text switches prevLines s = .next following) :
    text.length - following.l < text.length - s.l := by
  have more : s.l < text.length := by
    by_contra done
    simp [compressStep, done] at taken
  rcases compressStep_plan more with ⟨next, result, control, _⟩
  rw [result, Outcome.next.injEq] at taken
  subst taken
  have forward := (passNext_bounds switches prevLines more).1
  rw [← control] at forward
  omega

private theorem compressStep_ne_fault {text : List UInt8} {switches : Switches}
    {prevLines : Option LnkLst} (s : EncState) :
    compressStep text switches prevLines s ≠ .fault := by
  by_cases more : s.l < text.length
  · rcases @compressStep_plan text switches prevLines s more with ⟨next, result, _⟩
    simp [result]
  · simp [compressStep, more]

def padWord (count : Nat) : List Bool := codeword 14272 ((8 - count % 8) % 8)

theorem padWord_length (count : Nat) : (padWord count).length = (8 - count % 8) % 8 :=
  codeword_length (by omega)

private theorem pad_appended (writer : Writer) :
    Appended writer (pad writer) (padWord writer.ol) := by
  rw [pad, padWord]
  by_cases whole : writer.ol % 8 = 0
  · simp only [whole, ne_eq, not_true, if_false]
    exact Appended.refl writer
  · simp only [ne_eq, whole, not_false_eq_true, if_true]
    have wrote := appendBits_appended writer 14272 (8 - writer.ol % 8) (by omega) .state1
    rw [stateWord_state1] at wrote
    have small : 8 - writer.ol % 8 < 8 := by omega
    rwa [Nat.mod_eq_of_lt small]

/-- A finished compression: the plan it followed to the end of the text, and
what it returned. -/
structure Compressed (text : List UInt8) (switches : Switches) (prevLines : Option LnkLst)
    (out : Nat → UInt8) (c : Control) (syms : List Sym) (n : Nat) (writer : Writer) : Prop where
  returned : compress text out prevLines switches = some (n, writer)
  planned : Planned text switches prevLines c syms
  atEnd : c.l = text.length
  wrote : Wrote prevLines ⟨out, [], 0⟩ writer
    (symsBits .initial syms ++ padWord (symsBits .initial syms).length)
  bytes : 8 * n = (symsBits .initial syms ++ padWord (symsBits .initial syms).length).length

theorem exists_compressed (text : List UInt8) (switches : Switches)
    (prevLines : Option LnkLst) (out : Nat → UInt8) :
    ∃ c syms n writer, Compressed text switches prevLines out c syms n writer := by
  have decreases := @compressStep_measure text switches prevLines
  rcases exists_stop decreases compressStep_ne_fault (EncState.initial out) with
    ⟨s, reaches, stops⟩
  rcases exists_planned reaches with ⟨syms, planned, wrote⟩
  have ol : s.writer.ol = (symsBits .initial syms).length := by
    simpa [EncState.initial] using wrote.extended.ol
  have padded := (pad_appended s.writer).wrote prevLines
  rw [ol] at padded
  have paddedOl := padded.extended.ol
  rw [ol, padWord_length] at paddedOl
  have whole : (pad s.writer).ol % 8 = 0 := by omega
  have returned : run (compressStep text switches prevLines) (text.length + 1)
      (EncState.initial out) = some s :=
    (run_eq_some_iff decreases (by simp [EncState.initial])).mpr ⟨reaches, stops⟩
  refine ⟨s.toControl, syms, (pad s.writer).ol / 8, pad s.writer, ?_, planned, ?_,
    wrote.trans padded, ?_⟩
  · simp [compress, returned, whole]
  · refine Nat.le_antisymm planned.l_le (Nat.le_of_not_lt fun more => ?_)
    rcases compressStep_plan more with ⟨next, result, _⟩
    rw [result] at stops
    cases stops
  · rw [List.length_append, padWord_length]
    omega

/-! ## The decoder's loop ends -/

private theorem getCodeIdxLoop_next {codeType : List Nat} {inp : Nat → UInt8} {len : Nat} :
    ∀ {fuel bitNo code count : Nat},
    bitNo ≤ (getCodeIdxLoop codeType inp len fuel bitNo code count).2
  | 0, bitNo, _, _ => Nat.le_refl bitNo
  | fuel + 1, bitNo, code, count => by
      simp only [getCodeIdxLoop]
      split
      · exact Nat.le_refl bitNo
      · split
        · exact Nat.le_succ bitNo
        · exact Nat.le_trans (Nat.le_succ bitNo) getCodeIdxLoop_next

private theorem getCodeIdx_le {codeType : List Nat} {inp : Nat → UInt8} {len bitNo : Nat} :
    bitNo ≤ (getCodeIdx codeType inp len bitNo).2 :=
  getCodeIdxLoop_next

private theorem getCodeIdxLoop_lt {codeType : List Nat} {inp : Nat → UInt8}
    {len fuel bitNo code count : Nat} (more : bitNo < len) :
    bitNo < (getCodeIdxLoop codeType inp len (fuel + 1) bitNo code count).2 := by
  have notEnd : ¬bitNo ≥ len := by omega
  simp only [getCodeIdxLoop, notEnd, if_false]
  split
  · exact Nat.lt_succ_self bitNo
  · exact getCodeIdxLoop_next

private theorem getCodeIdx_lt {codeType : List Nat} {inp : Nat → UInt8} {len bitNo : Nat}
    (more : bitNo < len) : bitNo < (getCodeIdx codeType inp len bitNo).2 :=
  getCodeIdxLoop_lt more

private theorem readCount_le {inp : Nat → UInt8} {len bitNo : Nat} :
    bitNo ≤ (readCount inp len bitNo).2 := by
  have code : bitNo ≤ (getCodeIdx hcode inp len bitNo).2 := getCodeIdx_le
  simp only [readCount]
  split
  · exact code
  · exact Nat.le_trans code (Nat.le_add_right _ _)

private theorem decodeReference_le {inp : Nat → UInt8} {len : Nat}
    {nodes : List (Option CString)} {s following : DecState}
    (taken : decodeReference inp len nodes s = .next following) : s.bitNo ≤ following.bitNo := by
  have length : s.bitNo + 1 ≤ (readCount inp len (s.bitNo + 1)).2 := readCount_le
  have dist := @readCount_le inp len (readCount inp len (s.bitNo + 1)).2
  have ctx := @readCount_le inp len (readCount inp len (readCount inp len (s.bitNo + 1)).2).2
  rw [decodeReference] at taken
  simp only at taken
  split at taken
  · rw [Outcome.next.injEq] at taken
    subst taken
    simp only
    omega
  · rw [copyLine] at taken
    split at taken
    · split at taken
      · rw [Outcome.next.injEq] at taken
        subst taken
        simp only
        omega
      · cases taken
    · cases taken

private theorem decodeEntry_le {inp : Nat → UInt8} {len : Nat} {nodes : List (Option CString)}
    {h v : Nat} {isUpper : Bool} {s following : DecState}
    (taken : decodeEntry inp len nodes h v isUpper s = .next following) :
    s.bitNo ≤ following.bitNo := by
  have count : s.bitNo ≤ (readCount inp len s.bitNo).2 := readCount_le
  rw [decodeEntry] at taken
  simp only at taken
  repeat' split at taken
  all_goals
    first
    | exact decodeReference_le taken
    | (rw [Outcome.next.injEq] at taken
       subst taken
       first
       | exact Nat.le_refl _
       | exact count)

private theorem decompressStep_lt {inp : Nat → UInt8} {len : Nat}
    {nodes : List (Option CString)} {s following : DecState}
    (taken : decompressStep inp len nodes s = .next following) :
    s.bitNo < len ∧ s.bitNo < following.bitNo := by
  by_cases more : s.bitNo < len
  · refine ⟨more, ?_⟩
    rw [decompressStep] at taken
    rw [if_pos more] at taken
    extract_lets v h v1 h1 v2 at taken
    have first : s.bitNo < v.2 := getCodeIdx_lt more
    have second : v.2 ≤ h.2 := getCodeIdx_le
    have third : h.2 ≤ v1.2 := getCodeIdx_le
    have fourth : v1.2 ≤ h1.2 := getCodeIdx_le
    have fifth : h1.2 ≤ v2.2 := getCodeIdx_le
    have entry : ∀ {row column : Nat} {isUpper : Bool} {bitNo : Nat}, s.bitNo < bitNo →
        decodeEntry inp len nodes row column isUpper { s with bitNo := bitNo } =
          .next following → s.bitNo < following.bitNo :=
      fun ahead taken => Nat.lt_of_lt_of_le ahead (decodeEntry_le taken)
    clear_value v h v1 h1 v2
    by_cases inState : v.1 = 0
    · rw [if_neg (by omega), if_pos inState] at taken
      by_cases ended : h.1 = 199
      · rw [if_pos ended] at taken
        cases taken
      rw [if_neg ended] at taken
      by_cases first' : h.1 = shxSet1
      · rw [if_pos first'] at taken
        by_cases inSet1 : s.dstate = shxSet1
        · rw [if_pos inSet1] at taken
          by_cases inCaps : s.isAllUpper = true
          · rw [if_pos inCaps] at taken
            cases taken
            exact Nat.lt_of_lt_of_le first second
          rw [if_neg inCaps] at taken
          by_cases ended : v1.1 = 199
          · rw [if_pos ended] at taken
            cases taken
          rw [if_neg ended] at taken
          by_cases again : v1.1 = 0
          · rw [if_pos again] at taken
            by_cases ended : h1.1 = 199
            · rw [if_pos ended] at taken
              cases taken
            rw [if_neg ended] at taken
            by_cases capsOn : h1.1 = shxSet1
            · rw [if_pos capsOn] at taken
              cases taken
              change s.bitNo < h1.2
              omega
            rw [if_neg capsOn] at taken
            by_cases ended : v2.1 = 199
            · rw [if_pos ended] at taken
              cases taken
            rw [if_neg ended] at taken
            exact entry (by omega) taken
          · rw [if_neg again] at taken
            exact entry (by omega) taken
        · rw [if_neg inSet1] at taken
          cases taken
          exact Nat.lt_of_lt_of_le first second
      rw [if_neg first'] at taken
      by_cases toSet2 : h.1 = shxSet2
      · rw [if_pos toSet2] at taken
        cases taken
        exact Nat.lt_of_lt_of_le first second
      rw [if_neg toSet2] at taken
      by_cases ended : v1.1 = 199
      · rw [if_pos ended] at taken
        cases taken
      rw [if_neg ended] at taken
      exact entry (by omega) taken
    · by_cases ended : v.1 = 199
      · rw [if_pos ended] at taken
        cases taken
      rw [if_neg ended, if_neg inState] at taken
      exact entry first taken
  · rw [decompressStep] at taken
    rw [if_neg more] at taken
    cases taken

private theorem decompressStep_measure {inp : Nat → UInt8} {len : Nat}
    {nodes : List (Option CString)} (s following : DecState)
    (taken : decompressStep inp len nodes s = .next following) :
    len - following.bitNo < len - s.bitNo := by
  have forward := decompressStep_lt taken
  omega

/-! ## Padding -/

/-- The padding ends inside the first, the second or the third code. -/
private theorem padding_starves : ∀ count < 8,
    decodeWord vcode (codeword 14272 count) 0 0 = none ∧ (codeword 14272 count).length < 5 ∨
      codeword 14272 count = vword 0 ++ (codeword 14272 count).drop 2 ∧
        (decodeWord hcode ((codeword 14272 count).drop 2) 0 0 = none ∧
            ((codeword 14272 count).drop 2).length < 5 ∨
          (codeword 14272 count).drop 2 = hword 2 ++ (codeword 14272 count).drop 5 ∧
            decodeWord vcode ((codeword 14272 count).drop 5) 0 0 = none ∧
            ((codeword 14272 count).drop 5).length < 5) := by
  decide

theorem decompressStep_padding {inp : Nat → UInt8} {len count : Nat}
    {nodes : List (Option CString)} {s : DecState} (short : count < 8)
    (carries : Carries inp s.bitNo (codeword 14272 count)) (atEnd : s.bitNo + count = len) :
    decompressStep inp len nodes s = .stop := by
  by_cases more : s.bitNo < len
  · have length : (codeword 14272 count).length = count := codeword_length (by omega)
    rw [← length] at atEnd
    rw [decompressStep]
    rw [if_pos more]
    rcases padding_starves count short with ⟨starved, few⟩ | ⟨spelled, later⟩
    · rw [getCodeIdx_of_end carries atEnd few starved]
      rfl
    generalize (codeword 14272 count).drop 2 = rest at spelled later
    rw [spelled, carries_append] at carries
    rw [spelled, List.length_append, ← Nat.add_assoc] at atEnd
    rw [getCodeIdx_vword len (by omega) carries.1 (by omega)]
    rcases later with ⟨starved, few⟩ | ⟨spelled, starved, few⟩
    · simp only [getCodeIdx_of_end carries.2 atEnd few starved, if_true, OfNat.zero_ne_ofNat,
        if_false]
    · generalize (codeword 14272 count).drop 5 = last at spelled starved few
      rw [spelled, carries_append] at carries
      rw [spelled, List.length_append, ← Nat.add_assoc] at atEnd
      have small : 2 < 7 := by omega
      simp only [getCodeIdx_hword len small carries.2.1 (by omega),
        getCodeIdx_of_end carries.2.2 atEnd few starved, if_true, OfNat.zero_ne_ofNat, if_false,
        shxSet1, shxSet2, Nat.reduceEqDiff, OfNat.ofNat_ne_zero]
  · rw [decompressStep]
    rw [if_neg more]

/-! ## Whole decompressions -/

theorem matches_initial (out : Int → UInt8) : (DecState.initial out).Matches .initial :=
  ⟨rfl, rfl⟩

theorem initial_ol (out : Int → UInt8) : (DecState.initial out).out.ol = 0 := rfl

/-- Decompressing the bits of a valid string of symbols, with the padding, is
applying the symbols. -/
theorem decompress_eq {inp : Nat → UInt8} {n : Nat} {prevLines : Option LnkLst}
    {syms : List Sym} (valid : SymsValid (LnkLst.nodes prevLines) .initial syms)
    (carries : Carries inp 0
      (symsBits .initial syms ++ padWord (symsBits .initial syms).length))
    (bytes : 8 * n = (symsBits .initial syms ++ padWord (symsBits .initial syms).length).length)
    (out : Int → UInt8) :
    decompress inp n out prevLines =
      some (symsApply (LnkLst.nodes prevLines) (DecState.initial out).out syms) := by
  have len : n <<< 3 = 8 * n := by
    rw [Nat.shiftLeft_eq]
    omega
  rw [List.length_append, padWord_length] at bytes
  rw [carries_append, Nat.zero_add] at carries
  rcases decompress_syms (matches_initial out) valid carries.1
    (show _ ≤ n <<< 3 by simp only [DecState.initial]; omega) with
    ⟨s, reaches, bitNo, _, applied⟩
  have atPadding : s.bitNo = (symsBits .initial syms).length := by
    rw [bitNo]
    simp [DecState.initial]
  have stops : decompressStep inp (n <<< 3) (LnkLst.nodes prevLines) s = .stop :=
    decompressStep_padding (Nat.mod_lt _ (by omega)) (atPadding ▸ carries.2) (by omega)
  have fuel : n <<< 3 - (DecState.initial out).bitNo < n <<< 3 + 1 := by omega
  have returned := (run_eq_some_iff decompressStep_measure fuel).mpr ⟨reaches, stops⟩
  rw [decompress, returned, Option.map_some, applied]

theorem Compressed.decompress_eq {text : List UInt8} {switches : Switches}
    {prevLines : Option LnkLst} {out : Nat → UInt8} {c : Control} {syms : List Sym} {n : Nat}
    {writer : Writer} (compressed : Compressed text switches prevLines out c syms n writer)
    (limits : Limits text (LnkLst.nodes prevLines)) {inp : Nat → UInt8}
    (same : ∀ index < n, inp index = writer.bytes index) (y : Int → UInt8) :
    decompress inp n y prevLines =
      some (symsApply (LnkLst.nodes prevLines) (DecState.initial y).out syms) := by
  have packed := compressed.wrote.extended.packed [] rfl (packed_nil out)
  rw [List.nil_append] at packed
  refine Shox96.decompress_eq (compressed.planned.valid limits).1
    (packed.carries.congr fun pos _ inside => ?_) compressed.bytes y
  have bytes := compressed.bytes
  unfold bitAt
  rw [same (pos / 8) (by omega)]

/-- The bytes written when symbols are applied to an initial buffer: those of
the symbols, and the terminator stored first. -/
theorem symsApply_initial (nodes : List (Option CString)) (syms : List Sym) (y : Int → UInt8) :
    (symsApply nodes (DecState.initial y).out syms).ol = symsWidth syms ∧
      ∀ index, index ∈ (symsApply nodes (DecState.initial y).out syms).writes ↔
        index = 0 ∨ (0 ≤ index ∧ index < symsWidth syms) := by
  have grown := symsApply_grown nodes syms (DecState.initial y).out
  have ol := grown.ol
  rw [initial_ol, Nat.zero_add] at ol
  refine ⟨ol, fun index => ?_⟩
  rw [grown.writes, ol]
  simp [DecState.initial, OutBuffer.store]

end EspSqlite.Shox96
