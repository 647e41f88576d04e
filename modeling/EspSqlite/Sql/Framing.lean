import EspSqlite.Shox96.Reads
import EspSqlite.Shox96.TextBits
import EspSqlite.Sql.Functions

/-! # Blobs

The room `shox96_0_2c` allocates, what `shox96_0_2d` makes of its blobs, and
which bytes it touches. -/

namespace EspSqlite.Sql

open Loop Shox96

/-! ## Room for the compressed text -/

def Fits (text : List UInt8) (heap : Nat → UInt8) : Prop :=
  ∃ made, shox96_0_2c text heap = some made ∧
    (∀ index ∈ made.writer.stores, index < made.nOut) ∧ made.nOut2 ≤ made.nOut

private theorem exists_fits_iff (text : List UInt8) (heap : Nat → UInt8) :
    ∃ c syms, Planned text shippedSwitches none c syms ∧ c.l = text.length ∧
      (Fits text heap ↔
        symsCost .initial syms ≤ 8 * (13 + text.length + (text.length + 999) / 1000)) := by
  rcases exists_compression text heap with ⟨c, syms, n, writer, compressed, returned⟩
  refine ⟨c, syms, compressed.planned, compressed.atEnd, ?_⟩
  have bytes := compressed.bytes
  rw [List.length_append, padWord_length, symsBits_length] at bytes
  have fits : (∀ index ∈ writer.stores,
      index < 13 + text.length + (text.length + 999) / 1000) ∧
        n ≤ 13 + text.length + (text.length + 999) / 1000 ↔
      n ≤ 13 + text.length + (text.length + 999) / 1000 := by
    refine ⟨And.right, fun enough => ⟨fun index stored => ?_, enough⟩⟩
    exact Nat.lt_of_lt_of_le ((compressed.mem_stores index).mp stored) enough
  simp only [Fits, returned, Option.some.injEq, exists_eq_left', fits]
  omega

/-- The compressor stays inside the room allocated where the bits that the text shows fit
into it. Where no reference can stand for a part of the text, it does so only there. -/
theorem shox96_0_2c_fits (text : List UInt8) (heap : Nat → UInt8) :
    (textBits text ≤ 8 * (13 + text.length + (text.length + 999) / 1000) → Fits text heap) ∧
      (Unreplaceable text → (Fits text heap ↔
        textBits text ≤ 8 * (13 + text.length + (text.length + 999) / 1000))) := by
  rcases exists_fits_iff text heap with ⟨c, syms, planned, atEnd, fits⟩
  rw [fits]
  refine ⟨(planned.cost_le atEnd).trans, fun plain => ?_⟩
  rw [plain.cost_eq planned atEnd]

/-- `Tom: 12 of 24` fits. -/
theorem shox96_0_2c_fits_words :
    Fits [84, 111, 109, 58, 32, 49, 50, 32, 111, 102, 32, 50, 52] fun _ => 0 :=
  (shox96_0_2c_fits _ _).1 (by decide +kernel)

/-- `Z7Z8X7X8V7V8Z8`: fourteen bytes that compress to 30, with room for 28. -/
theorem not_shox96_0_2c_fits :
    ¬Fits [90, 55, 90, 56, 88, 55, 88, 56, 86, 55, 86, 56, 90, 56] fun _ => 0 := by
  intro fitting
  rcases fitting with ⟨made, returned, _, fits⟩
  have evaluated : (shox96_0_2c [90, 55, 90, 56, 88, 55, 88, 56, 86, 55, 86, 56, 90, 56]
      fun _ => 0).map (fun made => decide (made.nOut2 ≤ made.nOut)) = some false := by
    decide +kernel
  rw [returned, Option.map_some, Option.some.injEq, decide_eq_false_iff_not] at evaluated
  exact evaluated fits

/-! ## Opening a blob -/

/-- A blob of the text is opened with a result, with the right length in its
header and in the result, and with exactly the compressed bytes as input. -/
def FramesBack (text : List UInt8) (heap : Nat → UInt8) : Prop :=
  ∃ made, shox96_0_2c text heap = some made ∧
    ∀ (after : Nat → UInt8) (outHeap : Int → UInt8), ∃ opened,
      shox96_0_2d ⟨true, made.blob⟩ after outHeap = some (some opened) ∧
        opened.nOut = text.length ∧ opened.len = made.nOut2 ∧
        (∀ index < made.nOut2, opened.inp index = made.writer.bytes index) ∧
        opened.out.ol = text.length

/-- A text that is not empty has at least one byte of codes: none would
decompress to nothing. -/
private theorem compressed_pos {text : List UInt8} {heap : Nat → UInt8} {c : Control}
    {syms : List Sym} {n : Nat} {writer : Writer}
    (compressed : Compressed text shippedSwitches none heap c syms n writer)
    (supportedText : SupportedText text) (short : text.length ≤ 70308) (some' : text ≠ []) :
    0 < n := by
  apply Nat.pos_of_ne_zero
  intro equal
  subst equal
  have limits : Limits text (LnkLst.nodes none) :=
    ⟨short, by simp [LnkLst.nodes], by simp [LnkLst.nodes]⟩
  have opened := compressed.decompress_eq limits (fun _ _ => rfl) fun _ => 0
  have nothing : decompress writer.bytes 0 (fun _ => 0) none =
      some (DecState.initial fun _ => 0).out := by
    simp [decompress, run, decompressStep, DecState.initial]
  rw [nothing, Option.some.injEq] at opened
  have ol := (symsApply_initial (LnkLst.nodes none) syms fun _ => 0).1
  rw [← opened, initial_ol, compressed.planned.width supportedText, compressed.atEnd] at ol
  exact some' (List.length_eq_zero_iff.mp ol.symm)

/-- The blob of the empty text is its one byte of header, for which the result
stays NULL. -/
private theorem not_framesBack_nil (heap : Nat → UInt8) : ¬FramesBack [] heap := by
  intro framed
  rcases framed with ⟨made, returned, opens⟩
  have empty : compress [] heap none shippedSwitches = some (0, ⟨heap, [], 0⟩) := by
    simp [compress, run, compressStep, EncState.initial, pad]
  have header : encodeUnsignedVarint (UInt64.ofNat 0) = [0] := by decide
  simp only [shox96_0_2c, empty, Option.map_some, List.length_nil, header,
    Option.some.injEq] at returned
  subst returned
  rcases opens (fun _ => 0) (fun _ => 0) with ⟨opened, result, _⟩
  simp [shox96_0_2d, Compression.blob] at result

/-- The blob of a text is opened exactly when the text is not empty. -/
theorem framesBack_iff {text : List UInt8} (supportedText : SupportedText text)
    (short : text.length ≤ 70308) (heap : Nat → UInt8) : FramesBack text heap ↔ text ≠ [] := by
  constructor
  · intro frames equal
    subst equal
    exact not_framesBack_nil heap frames
  · intro some'
    rcases exists_compression text heap with ⟨c, syms, n, writer, compressed, returned⟩
    refine ⟨_, returned, fun after outHeap => ?_⟩
    have positive := compressed_pos compressed supportedText short some'
    have header := encodeUnsignedVarint_length_pos (UInt64.ofNat text.length)
    rcases shox96_0_2d_blob compressed short returned after outHeap
      (by simp only [Compression.blob, List.length_append, List.length_map, List.length_range]
          omega) with ⟨inp, same, opened⟩
    refine ⟨_, opened, rfl, rfl, same, ?_⟩
    have ol := (symsApply_initial [] syms outHeap).1
    rwa [compressed.planned.width supportedText, compressed.atEnd] at ol

/-- `Hello`. -/
theorem framesBack_iff_greeting :
    FramesBack [72, 101, 108, 108, 111] (fun _ => 0) ↔
      ([72, 101, 108, 108, 111] : List UInt8) ≠ [] :=
  framesBack_iff (by decide) (by decide) fun _ => 0

theorem not_framesBack_empty : SupportedText [] ∧ ¬FramesBack [] fun _ => 0 :=
  ⟨by decide, not_framesBack_nil _⟩

/-! ## Blobs of any bytes -/

/-- Opening a blob made of any bytes writes inside the length in its header. It
reads inside the output exactly when no pass of the compressor reached before
it, and so for every supported text. -/
theorem shox96_0_2d_safe {text : List UInt8} (some' : 1 ≤ text.length)
    (short : text.length ≤ 70308) (heap : Nat → UInt8) :
    ∃ made, shox96_0_2c text heap = some made ∧
      ∀ (after : Nat → UInt8) (outHeap : Int → UInt8), ∃ result,
        shox96_0_2d ⟨true, made.blob⟩ after outHeap = some result ∧
          ∀ opened, result = some opened →
            (∀ index ∈ opened.out.writes, 0 ≤ index ∧ index < text.length) ∧
            (opened.out.ReadsInside ↔
              ∀ c syms, Planned text shippedSwitches none c syms → c.l < text.length →
                PassInside text shippedSwitches c (symsWidth syms)) ∧
            (SupportedText text → opened.out.ReadsInside) := by
  rcases exists_compression text heap with ⟨c, syms, n, writer, compressed, returned⟩
  refine ⟨_, returned, fun after outHeap => ?_⟩
  by_cases long : 2 ≤ (Compression.blob ⟨encodeUnsignedVarint (UInt64.ofNat text.length),
      13 + text.length + (text.length + 999) / 1000, n, writer⟩).length
  · rcases shox96_0_2d_blob compressed short returned after outHeap long with ⟨inp, _, result⟩
    refine ⟨_, result, fun opened isOpened => ?_⟩
    rw [Option.some.injEq] at isOpened
    subst isOpened
    have writes := (symsApply_initial [] syms outHeap).2
    have width := compressed.planned.width_le
    rw [compressed.atEnd] at width
    have reads : (symsApply [] (DecState.initial outHeap).out syms).ReadsInside ↔
        ∀ c syms, Planned text shippedSwitches none c syms → c.l < text.length →
          PassInside text shippedSwitches c (symsWidth syms) := by
      rw [symsApply_readsInside, ← compressed.planned.inside_iff compressed.atEnd]
      exact and_iff_right fun read member => by simp [DecState.initial, OutBuffer.store] at member
    refine ⟨fun index written => ?_, reads, fun supportedText => ?_⟩
    · have range := (writes index).mp written
      omega
    · exact reads.mpr fun c syms planned _ => planned.passInside supportedText
  · refine ⟨none, ?_, fun opened impossible => by cases impossible⟩
    rw [shox96_0_2d, if_neg (by simp), if_pos (Nat.lt_of_not_le long)]

/-- `naïve` in UTF-8. -/
theorem shox96_0_2d_safe_utf8 :
    ∃ made, shox96_0_2c [110, 97, 195, 175, 118, 101] (fun _ => 0) = some made ∧
      ∃ result, shox96_0_2d ⟨true, made.blob⟩ (fun _ => 0) (fun _ => 0) = some result ∧
        ∀ opened, result = some opened →
          ∀ index ∈ opened.out.writes, 0 ≤ index ∧ index < 6 := by
  have small : 1 ≤ ([110, 97, 195, 175, 118, 101] : List UInt8).length := by decide
  rcases shox96_0_2d_safe small (by decide) fun _ => 0 with ⟨made, returned, opens⟩
  rcases opens (fun _ => 0) (fun _ => 0) with ⟨result, isResult, safe⟩
  exact ⟨made, returned, result, isResult, fun opened isOpened => (safe opened isOpened).1⟩

/-- Five zero bytes are one run, which repeats the byte before the output. -/
theorem not_readsInside_zeros :
    ¬∀ made, shox96_0_2c [0, 0, 0, 0, 0] (fun _ => 0) = some made →
      ∀ opened, shox96_0_2d ⟨true, made.blob⟩ (fun _ => 0) (fun _ => 0) = some (some opened) →
        opened.out.ReadsInside := by
  intro inside
  have evaluated : (shox96_0_2c [0, 0, 0, 0, 0] fun _ => 0).bind (fun made =>
      (shox96_0_2d ⟨true, made.blob⟩ (fun _ => 0) fun _ => 0).bind fun result =>
        result.map fun opened => opened.out.reads) = some [(-1, 0)] := by
    decide +kernel
  rcases Option.bind_eq_some_iff.mp evaluated with ⟨made, returned, evaluated⟩
  rcases Option.bind_eq_some_iff.mp evaluated with ⟨result, opens, evaluated⟩
  rcases Option.map_eq_some_iff.mp evaluated with ⟨opened, isOpened, reads⟩
  rw [isOpened] at opens
  have first := inside made returned opened opens (-1, 0) (by rw [reads]; exact List.mem_cons_self)
  exact absurd first.1 (by decide)

end EspSqlite.Sql
