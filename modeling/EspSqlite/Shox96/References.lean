import EspSqlite.Shox96.Appending
import EspSqlite.Shox96.Decompress
import EspSqlite.Shox96.Matcher

/-! # References

What `matchOccurance` and `matchLine` leave in the buffer, from any start
position, and when they find nothing. -/

namespace EspSqlite.Shox96

open BitMemory Loop

/-! ## The counts of a reference -/

def ReadsCounts (writer : Writer) : (pos : Nat) → (counts : List Nat) → (next : Nat) → Prop
  | pos, [], next => pos = next
  | pos, count :: rest, next =>
      ∃ middle, ReadsCount writer pos count middle ∧ ReadsCounts writer middle rest next

theorem readsCounts_of_carries {writer : Writer} {counts : List Nat} :
    ∀ {pos next : Nat}, (∀ count ∈ counts, count < 70308) →
    Carries writer.bytes pos (counts.flatMap countBits) →
    next = pos + (counts.flatMap countBits).length → next ≤ writer.ol →
    ReadsCounts writer pos counts next := by
  induction counts with
  | nil => exact fun _ _ isNext _ => isNext.symm
  | cons count rest induction =>
      intro pos next encodable carries isNext inside
      rw [List.flatMap_cons, carries_append] at carries
      rw [List.flatMap_cons, List.length_append, ← Nat.add_assoc] at isNext
      refine ⟨pos + (countBits count).length, ?_, ?_⟩
      · exact readsCount_of_carries (encodable count List.mem_cons_self) carries.1 rfl (by omega)
      · exact induction (fun other member => encodable other (List.mem_cons_of_mem count member))
          carries.2 isNext inside

theorem AppendsBits.readsCounts {before after : Writer} {code : Nat} {counts : List Nat}
    (appended : AppendsBits before after (codeword code 10 ++ counts.flatMap countBits))
    (encodable : ∀ count ∈ counts, count < 70308) :
    ReadsCounts after (before.ol + 10) counts after.ol := by
  have headLength : (codeword code 10).length = 10 := codeword_length (by omega)
  have written := appended.written
  have total := appended.ol
  rw [carries_append, headLength] at written
  rw [List.length_append, headLength, ← Nat.add_assoc] at total
  exact readsCounts_of_carries encodable written.2 total (Nat.le_refl _)

/-! ## References to the text itself -/

/-- From `before` to `after` stands a reference to the `length` bytes that begin
`dist` bytes before position `l` of the text. The decompressor reads them where
it has written already and writes the copy after them. -/
structure BackReference (text : List UInt8) (l : Nat) (before after : Writer)
    (length dist : Nat) : Prop where
  long : niceLenForPrior ≤ length
  apart : length ≤ dist
  inPast : dist ≤ l
  inText : l + length ≤ text.length
  same : ∀ index < length, byteAt text (l - dist + index) = byteAt text (l + index)
  appended : AppendsExactly before after (priorBits length dist)
  reads : ReadsCounts after (before.ol + 10)
    [length - niceLenForPrior, dist - niceLenForPrior + 1] after.ol
  copies : ∀ out : OutBuffer, out.ol = l →
    (∀ read ∈ (out.copyBack dist length).reads,
      read ∈ out.reads ∨ 0 ≤ read.1 ∧ read.1 < (l : Int)) ∧
    ∀ write ∈ (out.copyBack dist length).writes, write ∈ out.writes ∨ (l : Int) ≤ write

theorem not_repeated_of_priorMatch {text : List UInt8} {l j : Nat}
    (nothing : priorMatch text l = none) (inside : l + niceLenForPrior ≤ text.length)
    (inPast : j + niceLenForPrior ≤ l) :
    ¬∀ index < niceLenForPrior, byteAt text (j + index) = byteAt text (l + index) := by
  intro same
  simp only [niceLenForPrior] at inside inPast same
  have reached : j + 7 ≤ priorEnd text l j := by
    apply le_scan_of_holds (by omega)
    intro k after before
    have here := same (k - j) (by omega)
    rw [Nat.add_sub_cancel' after, ← Nat.add_sub_assoc after] at here
    simp only [Bool.and_eq_true, decide_eq_true_eq, beq_iff_eq]
    exact ⟨by omega, here⟩
  rw [priorMatch, List.findSome?_eq_none_iff] at nothing
  have chosen := nothing j (List.mem_range.mpr (by omega))
  rw [if_pos (by simp only [niceLenForPrior]; omega)] at chosen
  cases chosen

/-- The copy of a sound reference stays within what is written and does not
overlap its source. -/
theorem copyBack_apart {out : OutBuffer} {length dist : Nat} (apart : length ≤ dist)
    (inPast : dist ≤ out.ol) :
    (∀ read ∈ (out.copyBack dist length).reads,
      read ∈ out.reads ∨ 0 ≤ read.1 ∧ read.1 < (out.ol : Int)) ∧
    ∀ write ∈ (out.copyBack dist length).writes, write ∈ out.writes ∨ (out.ol : Int) ≤ write := by
  constructor
  · intro read member
    rcases List.mem_append.mp member with isNew | isOld
    · rcases List.mem_map.mp isNew with ⟨index, inRange, rfl⟩
      rw [List.mem_range] at inRange
      exact Or.inr ⟨by simp only; omega, by simp only; omega⟩
    · exact Or.inl isOld
  · intro write member
    rcases List.mem_append.mp member with isNew | isOld
    · rcases List.mem_map.mp isNew with ⟨index, _, rfl⟩
      exact Or.inr (by omega)
    · exact Or.inl isOld

/-- `matchOccurance` appends a sound reference, or returns `-l` where there is
nothing to refer to. -/
theorem matchOccurance_correct {text : List UInt8} (short : text.length ≤ 70308) {l : Nat}
    (inside : l + 7 < text.length) (writer : Writer)
    (clear : ClearFrom writer.bytes writer.ol) :
    (0 < (matchOccurance text l writer).1 → ∃ length dist,
      BackReference text l writer (matchOccurance text l writer).2 length dist ∧
        (matchOccurance text l writer).1 = (l : Int) + length - 1) ∧
    (¬0 < (matchOccurance text l writer).1 →
      matchOccurance text l writer = (-(l : Int), writer) ∧
      ∀ j < l, ¬(j + 7 ≤ l ∧ ∀ index < 7, byteAt text (j + index) = byteAt text (l + index))) := by
  cases found : priorMatch text l with
  | none =>
      have result := matchOccurance_of_none writer found
      rw [result]
      refine ⟨fun positive => absurd positive (by simp only; omega), fun _ => ⟨rfl, ?_⟩⟩
      intro j _ repeated
      exact not_repeated_of_priorMatch found (by simp only [niceLenForPrior]; omega) repeated.1
        repeated.2
  | some chosen =>
      rcases chosen with ⟨length, dist⟩
      rcases matchOccurance_of_some writer found with ⟨after, result, appended⟩
      rcases priorMatch_sound found with ⟨long, apart, inPast, inText, same⟩
      have exactly := appended.appendsExactly clear
      have isBits : priorBits length dist = codeword 14144 10 ++
          [length - niceLenForPrior, dist - niceLenForPrior + 1].flatMap countBits := by
        simp [priorBits]
      have counted := exactly.toAppendsBits
      rw [isBits] at counted
      have reads := counted.readsCounts (by simp only [niceLenForPrior] at long ⊢; simp; omega)
      rw [result]
      refine ⟨fun _ => ⟨length, dist, ?_, rfl⟩, fun notPositive => absurd ?_ notPositive⟩
      · refine ⟨long, apart, inPast, inText, same, exactly, reads, fun out atL => ?_⟩
        subst atL
        exact copyBack_apart apart inPast
      · simp only [niceLenForPrior] at long ⊢
        omega

def repeatedLetters : List UInt8 :=
  [97, 98, 99, 100, 101, 102, 103, 97, 98, 99, 100, 101, 102, 103, 104]

theorem matchOccurance_correct_letters : ∃ length dist,
    BackReference repeatedLetters 7 threeBits (matchOccurance repeatedLetters 7 threeBits).2
        length dist ∧
      (matchOccurance repeatedLetters 7 threeBits).1 = ((7 : Nat) : Int) + length - 1 :=
  (matchOccurance_correct (by decide) (by decide) threeBits threeBits_clear).1 (by decide)

/-! ## References to previous lines -/

def linesBefore : List (Option CString) → List CString
  | some line :: nodes => line :: linesBefore nodes
  | _ => []

def LnkLst.lines (chain : LnkLst) : List CString := linesBefore (LnkLst.nodes chain)

def LineRepeated (text : List UInt8) (l : Nat) (lines : List CString) : Prop :=
  ∃ (ctx : Nat) (line : CString) (j : Nat), lines[ctx]? = some line ∧
    j + niceLenForOther ≤ line.strlen ∧ l + niceLenForOther ≤ text.length ∧
    ∀ index < niceLenForOther, byteAt line.chars (j + index) = byteAt text (l + index)

/-- From `before` to `after` stands the reference `ref` to bytes of `line` that
are those at position `l` of the text. -/
structure LineReference (text : List UInt8) (l : Nat) (lines : List CString)
    (before after : Writer) (ref : LineRef) (line : CString) : Prop where
  long : niceLenForOther ≤ ref.length
  inText : l + ref.length ≤ text.length
  isLine : lines[ref.ctx]? = some line
  inLine : ref.dist + ref.length ≤ line.strlen
  same : ∀ index < ref.length, byteAt line.chars (ref.dist + index) = byteAt text (l + index)
  appended : AppendsBits before after ref.bits
  reads : ReadsCounts after (before.ol + 10) [ref.length - niceLenForOther, ref.dist, ref.ctx]
    after.ol

theorem node_of_linesBefore {line : CString} : ∀ {nodes : List (Option CString)} {index : Nat},
    (linesBefore nodes)[index]? = some line → nodes[index]? = some (some line)
  | [], _, isLine => by simp [linesBefore] at isLine
  | none :: _, _, isLine => by simp [linesBefore] at isLine
  | some first :: nodes, 0, isLine => by simpa [linesBefore] using isLine
  | some first :: nodes, index + 1, isLine => by
      rw [linesBefore, List.getElem?_cons_succ] at isLine
      rw [List.getElem?_cons_succ]
      exact node_of_linesBefore isLine

theorem mem_lineCandidates {text : List UInt8} {l : Nat} {ref : LineRef} :
    ∀ {nodes : List (Option CString)} {ctx : Nat},
    ref ∈ lineCandidates text l nodes ctx ↔ ∃ index line,
      (linesBefore nodes)[index]? = some line ∧
        ref ∈ lineStarts text l (ctx + index) line 0 line.strlen
  | [], _ => by simp [lineCandidates, linesBefore]
  | none :: _, _ => by simp [lineCandidates, linesBefore]
  | some first :: nodes, ctx => by
      rw [lineCandidates, List.mem_append, mem_lineCandidates, linesBefore]
      constructor
      · intro either
        rcases either with here | ⟨index, line, isLine, member⟩
        · exact ⟨0, first, rfl, here⟩
        · refine ⟨index + 1, line, isLine, ?_⟩
          rwa [← Nat.add_assoc, Nat.add_right_comm]
      · intro found
        rcases found with ⟨index, line, isLine, member⟩
        cases index with
        | zero =>
            rw [List.getElem?_cons_zero, Option.some.injEq] at isLine
            exact Or.inl (isLine ▸ member)
        | succ index =>
            refine Or.inr ⟨index, line, isLine, ?_⟩
            rwa [Nat.add_assoc, Nat.add_comm 1]

theorem foldl_preferred_ne_none {refs : List LineRef} :
    ∀ {initial : Option LineRef}, initial ≠ none ∨ refs ≠ [] →
    refs.foldl preferred initial ≠ none := by
  induction refs with
  | nil => exact fun either => either.resolve_right fun empty => empty rfl
  | cons head tail induction =>
      intro initial _
      apply induction
      left
      cases initial with
      | none => simp [preferred]
      | some best =>
          simp only [preferred]
          split <;> simp

theorem not_lineRepeated_of_lineMatch {text : List UInt8} {l : Nat} {prevLines : LnkLst}
    (nothing : lineMatch text l prevLines = none) : ¬LineRepeated text l prevLines.lines := by
  intro repeated
  rcases repeated with ⟨ctx, line, j, isLine, inLine, inText, same⟩
  have reached : j + niceLenForOther ≤ lineEnd text l line j := by
    apply le_scan_of_holds (by omega)
    intro k after before
    have here := same (k - j) (by omega)
    rw [Nat.add_sub_cancel' after] at here
    simp only [Bool.and_eq_true, decide_eq_true_eq, beq_iff_eq]
    exact ⟨by omega, here⟩
  have candidate : (⟨lineEnd text l line j - j, j, ctx⟩ : LineRef) ∈
      lineCandidates text l (LnkLst.nodes prevLines) 0 := by
    refine mem_lineCandidates.mpr ⟨ctx, line, isLine, List.mem_filterMap.mpr ⟨j, ?_, ?_⟩⟩
    · simp only [niceLenForOther] at inLine
      rw [List.mem_range'_1]
      omega
    · rw [if_pos (by omega), Nat.zero_add]
  exact foldl_preferred_ne_none (Or.inr (List.ne_nil_of_mem candidate)) nothing

/-- A reference that is chosen names bytes of a line before the first NULL. -/
theorem lineMatch_inLines {text : List UInt8} {l : Nat} {prevLines : LnkLst} {ref : LineRef}
    (found : lineMatch text l prevLines = some ref) :
    ∃ line, prevLines.lines[ref.ctx]? = some line ∧
      ref.Sound text l (LnkLst.nodes prevLines) line := by
  rcases mem_of_foldl_preferred found with impossible | member
  · cases impossible
  · rcases mem_lineCandidates.mp member with ⟨index, line, isLine, inLine⟩
    rw [Nat.zero_add] at inLine
    have isCtx : ref.ctx = index := by
      rcases List.mem_filterMap.mp inLine with ⟨j, _, chosen⟩
      split at chosen
      · rw [Option.some.injEq] at chosen
        rw [← chosen]
      · cases chosen
    exact ⟨line, by rwa [isCtx], lineStarts_sound inLine (node_of_linesBefore isLine)⟩

/-- However many candidates `matchLine` writes over one another, it leaves one
reference, or nothing where no line is repeated. -/
theorem matchLine_correct {text : List UInt8} {l : Nat} {prevLines : LnkLst}
    (few : prevLines.lines.length < 70308)
    (short : ∀ line ∈ prevLines.lines, line.strlen < 70308) (writer : Writer)
    (clear : ClearFrom writer.bytes writer.ol) :
    (LineRepeated text l prevLines.lines → ∃ ref line,
      LineReference text l prevLines.lines writer (matchLine text l writer prevLines).2 ref line ∧
        (matchLine text l writer prevLines).1 = (l : Int) + ref.length - 1) ∧
    (¬LineRepeated text l prevLines.lines →
      (matchLine text l writer prevLines).1 = -(l : Int) ∧
      (matchLine text l writer prevLines).2.ol = writer.ol ∧
      ∀ pos < writer.ol,
        bitAt (matchLine text l writer prevLines).2.bytes pos = bitAt writer.bytes pos) := by
  cases found : lineMatch text l prevLines with
  | none =>
      rw [matchLine_of_none writer found]
      exact ⟨fun repeated => absurd repeated (not_lineRepeated_of_lineMatch found),
        fun _ => ⟨rfl, rfl, fun _ _ => rfl⟩⟩
  | some ref =>
      rcases matchLine_of_some writer found with ⟨after, result, extended⟩
      rcases lineMatch_inLines found with ⟨line, isLine, sound⟩
      have appended := extended.appendsBits clear
      rw [result]
      refine ⟨fun _ => ⟨ref, line, ?_, rfl⟩, fun notRepeated => absurd ?_ notRepeated⟩
      · refine ⟨sound.long, sound.inText, isLine, sound.inLine, sound.same, appended, ?_⟩
        have isBits : ref.bits = codeword 14080 10 ++
            [ref.length - niceLenForOther, ref.dist, ref.ctx].flatMap countBits := by
          simp [LineRef.bits]
        rw [isBits] at appended
        have lineShort := short line (List.mem_of_getElem? isLine)
        have inLine := sound.inLine
        have inChain : ref.ctx < prevLines.lines.length :=
          (List.getElem?_eq_some_iff.mp isLine).1
        apply appended.readsCounts
        simp
        omega
      · refine ⟨ref.ctx, line, ref.dist, isLine, ?_, ?_, fun index inRange => ?_⟩
        · exact Nat.le_trans (Nat.add_le_add_left sound.long _) sound.inLine
        · exact Nat.le_trans (Nat.add_le_add_left sound.long _) sound.inText
        · exact sound.same index (Nat.lt_of_lt_of_le inRange sound.long)

def twoLines : LnkLst where
  data := ⟨[120, 97, 98, 99, 100, 101, 102, 103, 104, 105, 106, 107, 108], by decide⟩
  previous := [some ⟨[97, 98, 99, 100, 101, 102, 103, 104, 105, 106, 107, 108, 109], by decide⟩]

theorem matchLine_correct_letters : ∃ ref line,
    LineReference [97, 98, 99, 100, 101, 102, 103, 104, 105, 106, 107, 108, 109, 110] 0
        twoLines.lines threeBits
        (matchLine [97, 98, 99, 100, 101, 102, 103, 104, 105, 106, 107, 108, 109, 110] 0
          threeBits twoLines).2 ref line ∧
      (matchLine [97, 98, 99, 100, 101, 102, 103, 104, 105, 106, 107, 108, 109, 110] 0
        threeBits twoLines).1 = ((0 : Nat) : Int) + ref.length - 1 := by
  apply (matchLine_correct (by decide) (by decide) threeBits threeBits_clear).1
  exact ⟨0, twoLines.data, 1, rfl, by decide, by decide, by decide⟩

end EspSqlite.Shox96
