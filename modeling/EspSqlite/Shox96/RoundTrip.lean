import EspSqlite.Shox96.Lockstep

/-! # Round trips

The symbols of a pass spell the text when a run repeats the byte before it. The
compressor looks for runs of `c_prev`, which is that byte except right after a
reference, where it is the byte before. -/

namespace EspSqlite.Shox96

open Loop

/-! ## What a pass spells -/

/-- A run taken at a head repeats the byte before the head, which is what the
decompressor repeats. -/
def RunRepeatsLast (text : List UInt8) (c : Control) : Prop :=
  runAhead text c.l c.cPrev = true → byteAt text (c.l - 1) = byteAt text c.l

theorem charSyms_stand (text : List UInt8) (nodes : List (Option CString)) (l : Nat) :
    SymsStand text nodes l (charSyms text l) := by
  rw [charSyms]
  split
  · rename_i isCrlf
    simp only [crlfAhead, Bool.and_eq_true, beq_iff_eq] at isCrlf
    exact ⟨⟨isCrlf.1.1, isCrlf.2⟩, trivial⟩
  · split
    · exact ⟨rfl, trivial⟩
    · trivial

theorem passSyms_stand {text : List UInt8} {switches : Switches} {prevLines : Option LnkLst}
    {c : Control} (positive : runAhead text c.l c.cPrev = true → 0 < c.l)
    (repeats : RunRepeatsLast text c) :
    SymsStand text (LnkLst.nodes prevLines) c.l (passSyms text switches prevLines c) := by
  rw [passSyms]
  split
  · rename_i isRun
    have run := runLength_spec isRun
    refine ⟨⟨positive isRun, fun index inside => ?_⟩, trivial⟩
    rw [run.2.2.2 index inside, repeats isRun]
  · split
    · rename_i length dist found
      have sound := planPrior_sound found
      exact ⟨⟨sound.2.1, sound.2.2.1, fun index inside =>
        (sound.2.2.2.2 index inside).symm⟩, trivial⟩
    · split
      · rename_i ref found
        rcases planLine_sound found with ⟨line, sound⟩
        refine ⟨fun index inside => ?_, trivial⟩
        simp only [lineBytes, sound.node]
        exact (sound.same index inside).symm
      · rw [literalSyms, symsStand_append]
        refine ⟨symsStand_of_isSwitch (fun _ => isSwitch_of_mem_switchSyms) c.l, ?_⟩
        rw [switchSyms_width]
        exact charSyms_stand text _ c.l

/-- Before anything is read `c_prev` is no supported byte, so that no run is
taken there. -/
theorem Planned.runAhead_pos {text : List UInt8} {switches : Switches}
    {prevLines : Option LnkLst} {c : Control} {syms : List Sym}
    (planned : Planned text switches prevLines c syms) (supportedText : SupportedText text)
    (isRun : runAhead text c.l c.cPrev = true) : 0 < c.l := by
  cases planned with
  | start =>
      have run := runLength_spec isRun
      have small : Control.initial.l < text.length := by omega
      have known := supportedText.byteAt small
      rw [run.2.2.1] at known
      exact absurd known (by decide)
  | pass earlier more =>
      exact Nat.lt_of_le_of_lt (Nat.zero_le _) (passNext_bounds switches prevLines more).1

theorem Planned.stand {text : List UInt8} {switches : Switches} {prevLines : Option LnkLst}
    {c : Control} {syms : List Sym} (supportedText : SupportedText text)
    (repeats : ∀ c syms, Planned text switches prevLines c syms → RunRepeatsLast text c)
    (planned : Planned text switches prevLines c syms) :
    SymsStand text (LnkLst.nodes prevLines) 0 syms := by
  induction planned with
  | start => trivial
  | @pass c syms planned more induction =>
      rw [symsStand_append, Nat.zero_add, planned.width supportedText]
      exact ⟨induction, passSyms_stand (planned.runAhead_pos supportedText)
        (repeats c syms planned)⟩

/-! ## The previous character -/

def Refers (text : List UInt8) (switches : Switches) (prevLines : Option LnkLst) (c : Control) :
    Prop :=
  runAhead text c.l c.cPrev = false ∧
    (planPrior text switches c.l ≠ none ∨ planLine text switches prevLines c.l ≠ none)

section Previous

variable {text : List UInt8} {switches : Switches} {prevLines : Option LnkLst} {c : Control}

theorem passNext_cPrev (plain : ¬Refers text switches prevLines c) :
    (passNext text switches prevLines c).cPrev =
      byteAt text ((passNext text switches prevLines c).l - 1) := by
  rw [passNext]
  split
  · rename_i isRun
    have run := runLength_spec isRun
    have last := run.2.2.2 (runLength text c.l - 1) (by omega)
    simp only
    rw [← run.2.2.1, ← last]
    congr 1
    omega
  · rename_i notRun
    have noPrior : planPrior text switches c.l = none := by
      by_contra some'
      exact plain ⟨Bool.eq_false_iff.mpr notRun, Or.inl some'⟩
    have noLine : planLine text switches prevLines c.l = none := by
      by_contra some'
      exact plain ⟨Bool.eq_false_iff.mpr notRun, Or.inr some'⟩
    rw [noPrior, noLine]
    simp only
    split
    · rename_i isCrlf
      simp only [crlfAhead, Bool.and_eq_true, beq_iff_eq] at isCrlf
      exact isCrlf.2.symm
    · rfl

theorem passNext_cPrev_of_refers (refers : Refers text switches prevLines c) :
    (passNext text switches prevLines c).cPrev =
      byteAt text ((passNext text switches prevLines c).l - 2) := by
  rw [passNext, if_neg (Bool.eq_false_iff.mp refers.1)]
  split
  · rfl
  · rename_i noPrior
    rcases Option.ne_none_iff_exists'.mp (refers.2.resolve_left (not_not.mpr noPrior)) with
      ⟨ref, found⟩
    rw [found]
    rfl

end Previous

/-! ## Whole texts -/

/-- Decompressing what the compressor returns, wherever it was copied to, gives
the text back. -/
def RoundTrips (text : List UInt8) (switches : Switches) (prevLines : Option LnkLst)
    (out : Nat → UInt8) : Prop :=
  ∃ n writer, compress text out prevLines switches = some (n, writer) ∧
    ∀ (inp : Nat → UInt8) (y : Int → UInt8), (∀ index < n, inp index = writer.bytes index) →
      ∃ result, decompress inp n y prevLines = some result ∧ result.ol = text.length ∧
        result.Shows text

section

variable {text : List UInt8} {switches : Switches} {prevLines : Option LnkLst}
  (supportedText : SupportedText text) (limits : Limits text (LnkLst.nodes prevLines))

include supportedText limits

private theorem roundTrips_of_repeats
    (repeats : ∀ c syms, Planned text switches prevLines c syms → RunRepeatsLast text c)
    (out : Nat → UInt8) : RoundTrips text switches prevLines out := by
  rcases exists_compressed text switches prevLines out with ⟨c, syms, n, writer, compressed⟩
  refine ⟨n, writer, compressed.returned, fun inp y same =>
    ⟨_, compressed.decompress_eq limits same y, ?_, ?_⟩⟩
  · rw [(symsApply_initial _ syms y).1, compressed.planned.width supportedText,
      compressed.atEnd]
  · refine symsApply_shows (fun index inside => ?_)
      (compressed.planned.stand supportedText repeats)
    rw [initial_ol] at inside
    omega

/-- A run that repeats another byte is decoded wrongly, and no later symbol
mends it. -/
private theorem repeats_of_roundTrips {out : Nat → UInt8}
    (roundTrips : RoundTrips text switches prevLines out) {c : Control} {syms : List Sym}
    (planned : Planned text switches prevLines c syms) : RunRepeatsLast text c := by
  intro isRun
  rcases roundTrips with ⟨n, writer, returned, decodes⟩
  rcases exists_compressed text switches prevLines out with
    ⟨final, finalSyms, n', writer', compressed⟩
  rw [compressed.returned, Option.some.injEq, Prod.mk.injEq] at returned
  rcases returned with ⟨rfl, rfl⟩
  rcases decodes writer'.bytes (fun _ => 0) fun _ _ => rfl with ⟨result, decoded, ol, shows'⟩
  rw [compressed.decompress_eq limits (fun _ _ => rfl), Option.some.injEq] at decoded
  have run := runLength_spec isRun
  have positive := planned.runAhead_pos supportedText isRun
  rcases planned.partOf (by omega) compressed.planned compressed.atEnd.ge with ⟨rest, parts⟩
  have passIsRun : passSyms text switches prevLines c = [.run (runLength text c.l)] := by
    simp [passSyms, isRun]
  rw [passIsRun] at parts
  let before := symsApply (LnkLst.nodes prevLines) (DecState.initial fun _ => 0).out syms
  let after := before.repeatLast (runLength text c.l)
  have applied : result = symsApply (LnkLst.nodes prevLines) after rest := by
    rw [← decoded, parts]
    simp only [symsApply, List.foldl_append, List.foldl_cons, List.foldl_nil]
    rfl
  have beforeOl : before.ol = c.l := by
    rw [← planned.width supportedText]
    exact (symsApply_initial _ syms _).1
  have runGrown : before.Grown after (runLength text c.l) := before.repeatLast_grown _
  have restGrown := symsApply_grown (LnkLst.nodes prevLines) rest after
  have runOl := runGrown.ol
  have first := shows' c.l (by omega)
  have last := shows' (c.l - 1) (by omega)
  have position : ((c.l - 1 : Nat) : Int) = c.l - 1 := by omega
  have small : 0 < runLength text c.l := by omega
  have repeated := before.repeatLast_bytes small
  have same : (before.ol : Int) + (0 : Nat) = c.l := by omega
  rw [same, beforeOl] at repeated
  rw [applied, restGrown.kept _ (by omega), repeated] at first
  rw [applied, restGrown.kept _ (by omega), runGrown.kept _ (by omega), position] at last
  exact last.symm.trans first

end

/-- A text survives exactly when every run the compressor takes repeats the
byte before it. -/
theorem roundTrips_iff {text : List UInt8} {prevLines : Option LnkLst}
    (supportedText : SupportedText text) (limits : Limits text (LnkLst.nodes prevLines))
    (out : Nat → UInt8) :
    RoundTrips text shippedSwitches prevLines out ↔
      ∀ s, Reaches (compressStep text shippedSwitches prevLines) (EncState.initial out) s →
        RunRepeatsLast text s.toControl := by
  constructor
  · intro roundTrips s reaches
    rcases exists_planned reaches with ⟨syms, planned, _⟩
    exact repeats_of_roundTrips supportedText limits roundTrips planned
  · intro repeats
    refine roundTrips_of_repeats supportedText limits (fun c syms planned => ?_) out
    rcases planned.exists_head out with ⟨s, reaches, rfl⟩
    exact repeats s reaches

/-- Where the bytes before `l` differ, no four copies of the last but one and another byte
follow. -/
def NoRunOfOther (text : List UInt8) (l : Nat) : Prop :=
  byteAt text (l - 2) ≠ byteAt text (l - 1) → runAhead text l (byteAt text (l - 2)) = false

/-- Every run repeats the byte before it exactly when no reference whose last two bytes
differ is followed by four copies of its last but one and another byte. -/
theorem repeatsLast_iff_references {text : List UInt8} (supportedText : SupportedText text)
    (switches : Switches) (prevLines : Option LnkLst) (out : Nat → UInt8) :
    (∀ s, Reaches (compressStep text switches prevLines) (EncState.initial out) s →
      RunRepeatsLast text s.toControl) ↔
      ∀ s, Reaches (compressStep text switches prevLines) (EncState.initial out) s →
        s.l < text.length → Refers text switches prevLines s.toControl →
        NoRunOfOther text (passNext text switches prevLines s.toControl).l := by
  constructor
  · intro repeats s reaches more refers differ
    rcases exists_planned reaches with ⟨syms, planned, _⟩
    rcases (planned.pass more).exists_head out with ⟨next, reachesNext, isNext⟩
    have repeated := repeats next reachesNext
    rw [isNext, RunRepeatsLast, passNext_cPrev_of_refers refers] at repeated
    rw [← Bool.not_eq_true]
    intro isRun
    exact differ ((repeated isRun).trans (runLength_spec isRun).2.2.1).symm
  · intro apart s reaches isRun
    rcases exists_planned reaches with ⟨syms, planned, _⟩
    have positive := planned.runAhead_pos supportedText isRun
    have isFirst := (runLength_spec isRun).2.2.1
    generalize s.toControl = c at planned isRun isFirst positive ⊢
    cases planned with
    | start => exact absurd positive (Nat.lt_irrefl 0)
    | @pass earlier syms planned more =>
        rw [isFirst]
        by_cases refers : Refers text switches prevLines earlier
        · rcases planned.exists_head out with ⟨head, reachesHead, rfl⟩
          have isOther := passNext_cPrev_of_refers refers
          by_contra differ
          rw [isOther] at isRun differ
          rw [apart head reachesHead more refers (Ne.symm differ)] at isRun
          cases isRun
        · exact (passNext_cPrev refers).symm

/-- `this is this is` against a previous line. -/
theorem roundTrips_iff_line :
    RoundTrips [116, 104, 105, 115, 32, 105, 115, 32, 116, 104, 105, 115, 32, 105, 115]
        shippedSwitches (some ⟨⟨[116, 104, 105, 115, 32, 105, 115], by decide⟩, [none]⟩)
        (fun _ => 0) ↔
      ∀ s, Reaches (compressStep
          [116, 104, 105, 115, 32, 105, 115, 32, 116, 104, 105, 115, 32, 105, 115]
          shippedSwitches (some ⟨⟨[116, 104, 105, 115, 32, 105, 115], by decide⟩, [none]⟩))
          (EncState.initial fun _ => 0) s →
        RunRepeatsLast
          [116, 104, 105, 115, 32, 105, 115, 32, 116, 104, 105, 115, 32, 105, 115] s.toControl :=
  roundTrips_iff (by decide)
    ⟨by decide, by decide, by simp [LnkLst.nodes, CString.strlen]⟩ fun _ => 0

/-- `cdefgab cdefgabaaaaa`: after the reference to `cdefgab` the run of `a` is
taken, and comes back as `b`. -/
theorem not_roundTrips_after_reference :
    SupportedText [99, 100, 101, 102, 103, 97, 98, 32, 99, 100, 101, 102, 103, 97, 98,
        97, 97, 97, 97, 97] ∧
      ¬RoundTrips [99, 100, 101, 102, 103, 97, 98, 32, 99, 100, 101, 102, 103, 97, 98,
        97, 97, 97, 97, 97] shippedSwitches none fun _ => 0 := by
  refine ⟨by decide, ?_⟩
  intro roundTrips
  rcases roundTrips with ⟨n, writer, returned, decodes⟩
  rcases decodes writer.bytes (fun _ => 0) fun _ _ => rfl with ⟨result, decoded, ol, shows'⟩
  have evaluated : ((compress [99, 100, 101, 102, 103, 97, 98, 32, 99, 100, 101, 102, 103, 97,
      98, 97, 97, 97, 97, 97] (fun _ => 0) none shippedSwitches).bind fun compressed =>
      (decompress compressed.2.bytes compressed.1 (fun _ => 0) none).map fun result =>
        result.bytes 19) = some 98 := by
    decide +kernel
  rw [returned, Option.bind_some, decoded, Option.map_some, Option.some.injEq] at evaluated
  have last := shows' 19 (by rw [ol]; decide)
  rw [show ((19 : Nat) : Int) = 19 from rfl, evaluated] at last
  exact absurd last (by decide)

/-- Without references `c_prev` is always the byte before the head, and every
supported text survives. -/
theorem roundTrips_of_no_references {text : List UInt8} (supportedText : SupportedText text)
    (short : text.length ≤ 70308) (out : Nat → UInt8) :
    RoundTrips text ⟨false, false⟩ none out := by
  have limits : Limits text (LnkLst.nodes none) :=
    ⟨short, by simp [LnkLst.nodes], by simp [LnkLst.nodes]⟩
  have previous : ∀ c syms, Planned text ⟨false, false⟩ none c syms → 0 < c.l →
      c.cPrev = byteAt text (c.l - 1) := by
    intro c syms planned positive
    cases planned with
    | start => exact absurd positive (Nat.lt_irrefl 0)
    | pass earlier more =>
        exact passNext_cPrev fun refers => by simp [Refers, planPrior, planLine] at refers
  refine roundTrips_of_repeats supportedText limits (fun c syms planned isRun => ?_) out
  rw [← previous c syms planned (planned.runAhead_pos supportedText isRun)]
  exact (runLength_spec isRun).2.2.1.symm

/-- `AAAAAA 11` with a tab. -/
theorem roundTrips_of_no_references_run :
    RoundTrips [65, 65, 65, 65, 65, 65, 9, 49, 49] ⟨false, false⟩ none fun _ => 0 :=
  roundTrips_of_no_references (by decide) (by decide) fun _ => 0

end EspSqlite.Shox96
